import Zqrpc.RpcWorkerRules

/-! Runs of one worker. What it sends for a message is a function of the message and
of what the handler does with it, whatever the iterations before have left behind. -/
namespace Zqrpc

open Numeral

variable {Msg : Type}

section Answers

variable (pb : Protobuf Msg) (map : RpcMethodMapT)

/-- What a handler does that either returns or throws a `ZError`. -/
abbrev Behaviour (Msg : Type) := RpcMethod → Msg → Except ZError Msg

def Behaviour.handler (behaviour : Behaviour Msg) : Handler Msg := fun rpcMethod request =>
  match behaviour rpcMethod request with
  | .ok response => .returned response
  | .error e => .threw (.zerror e)

/-- The code and the data a request is answered with. -/
def codeAndData (behaviour : Behaviour Msg) (opcode buffer : Bytes) : Int × Bytes :=
  match map.lookup opcode with
  | none => (3, [])
  | some rpcMethod =>
    match pb.parse rpcMethod.request buffer with
    | none => (6, [])
    | some request =>
      match behaviour rpcMethod request with
      | .error e => (e.icode, e.what.bytes)
      | .ok response =>
        match pb.serialize response with
        | none => (6, [])
        | some data => (0, data)

/-- The messages one message is answered with. -/
def answer : FramesT × Behaviour Msg → List FramesT
  | ([a, b, id, opcode, buffer], behaviour) =>
    let (code, data) := codeAndData pb map behaviour opcode buffer
    [[a, b, id, decimalInt code, data]]
  | _ => []

/-- The handler calls one message leads to. -/
def invocation : FramesT → List (RpcMethod × Msg)
  | [_, _, _, opcode, buffer] =>
    match map.lookup opcode with
    | none => []
    | some rpcMethod =>
      match pb.parse rpcMethod.request buffer with
      | none => []
      | some request => [(rpcMethod, request)]
  | _ => []

theorem process_calls (handler : Handler Msg) (a b id opcode buffer : Bytes) :
    calls (process pb map handler opcode buffer).1 =
      invocation pb map [a, b, id, opcode, buffer] := by
  rcases process_cases pb map handler opcode buffer with
    ⟨entry, same⟩ | ⟨_, entry, ⟨parsed, same⟩ | ⟨_, parsed, _, same, _⟩⟩
  · simp [same, invocation, entry, calls]
  · simp [same, invocation, entry, parsed, calls, made, WorkerEvent.call]
  · simp [same, invocation, entry, parsed, calls, made, WorkerEvent.call]

/-- The ways through `process` when the handler returns or throws a `ZError`. -/
theorem process_behaves (behaviour : Behaviour Msg) (opcode buffer : Bytes) :
    ∃ result, (process pb map behaviour.handler opcode buffer).2 = result ∧
    ((map.lookup opcode = none ∧ result = .error (.zerror ⟨.noSuchMethod, cStr []⟩)) ∨
    ∃ rpcMethod, map.lookup opcode = some rpcMethod ∧
    ((pb.parse rpcMethod.request buffer = none ∧
      result = .error (.zerror ⟨.dataCorrupted, cStr []⟩)) ∨
    ∃ request, pb.parse rpcMethod.request buffer = some request ∧
    ((∃ e, behaviour rpcMethod request = .error e ∧ result = .error (.zerror e)) ∨
    ∃ response, behaviour rpcMethod request = .ok response ∧
      ((pb.serialize response = none ∧ result = .error (.zerror ⟨.dataCorrupted, cStr []⟩)) ∨
      ∃ data, pb.serialize response = some data ∧ result = .ok data)))) := by
  refine ⟨_, rfl, ?_⟩
  rcases process_cases pb map behaviour.handler opcode buffer with
    ⟨entry, same⟩ | ⟨rpcMethod, entry, ⟨parsed, same⟩ | ⟨request, parsed, _, same, ended⟩⟩
  all_goals rw [same]
  · exact .inl ⟨entry, rfl⟩
  · exact .inr ⟨rpcMethod, entry, .inl ⟨parsed, rfl⟩⟩
  · refine .inr ⟨rpcMethod, entry, .inr ⟨request, parsed, ?_⟩⟩
    cases behaves : behaviour rpcMethod request with
    | error e =>
      simp only [Behaviour.handler, behaves, HandlerEnd.threw.injEq, reduceCtorEq, false_and,
        exists_false, or_false, exists_eq_left'] at ended
      exact .inl ⟨e, rfl, ended⟩
    | ok response =>
      simp only [Behaviour.handler, behaves, HandlerEnd.returned.injEq, reduceCtorEq, false_and,
        exists_false, false_or, exists_eq_left'] at ended
      exact .inr ⟨response, rfl, ended⟩

theorem process_codeAndData (behaviour : Behaviour Msg) (opcode buffer : Bytes) :
    replyEnd (process pb map behaviour.handler opcode buffer).2 =
      some [decimalInt (codeAndData pb map behaviour opcode buffer).1,
        (codeAndData pb map behaviour opcode buffer).2] := by
  obtain ⟨result, same, ⟨entry, rfl⟩ | ⟨rpcMethod, entry, ⟨parsed, rfl⟩ | ⟨request, parsed,
    ⟨e, behaves, rfl⟩ | ⟨response, behaves, ⟨serialized, rfl⟩ | ⟨data, serialized, rfl⟩⟩⟩⟩⟩ :=
    process_behaves pb map behaviour opcode buffer
  · simp only [same, codeAndData, entry]
    rfl
  · simp only [same, codeAndData, entry, parsed]
    rfl
  · simp only [same, codeAndData, entry, parsed, behaves]
    rfl
  · simp only [same, codeAndData, entry, parsed, behaves, serialized]
    rfl
  · simp only [same, codeAndData, entry, parsed, behaves, serialized]
    rfl

/-- One iteration on a message that is no stop order, from any clean state. -/
theorem iteration_answer (frames : FramesT) (behaviour : Behaviour Msg) (w : Worker)
    (inLoop : w.InLoop) (clean : w.pending = []) (noStop : isStop frames = false) :
    ∃ next events,
      w.iteration pb ⟨map, false⟩ (quietRound frames behaviour.handler) = (next, events) ∧
      next.InLoop ∧ next.pending = [] ∧ messages events = answer pb map (frames, behaviour) ∧
      calls events = invocation pb map frames := by
  by_cases five : frames.length = 5
  · obtain ⟨a, b, id, opcode, buffer, rfl⟩ := length_five frames five
    have replies := process_codeAndData pb map behaviour opcode buffer
    have silent := process_messages pb map behaviour.handler opcode buffer
    have called := process_calls pb map behaviour.handler a b id opcode buffer
    rcases processed : process pb map behaviour.handler opcode buffer with ⟨events, result⟩
    rw [processed] at replies silent called
    refine ⟨_, _, iteration_replied pb map behaviour.handler w a b id opcode buffer _ processed
      replies, ⟨inLoop.1, rfl⟩, rfl, ?_, ?_⟩
    · rw [messages_append, silent]
      simp [messages, WorkerEvent.message, clean, answer]
    · rw [calls_append, called]
      simp [calls, WorkerEvent.call]
  · refine ⟨_, _, iteration_other pb _ frames behaviour.handler w noStop five,
      ⟨inLoop.1, rfl⟩, clean, ?_, ?_⟩
    · unfold answer
      split
      · rename_i same
        exact absurd (by rw [(Prod.mk.inj same).1]; rfl) five
      · rfl
    · unfold invocation
      split
      · exact absurd rfl five
      · rfl

/-- The run of a worker on these messages, with sends that accept every frame. -/
def quietRun (inputs : List (FramesT × Handler Msg)) (w : Worker) :
    Worker × List (List (WorkerEvent Msg)) :=
  w.run pb ⟨map, false⟩ (inputs.map fun input => quietRound input.1 input.2)

theorem quietRun_left (inputs : List (FramesT × Handler Msg)) (w : Worker)
    (left' : ¬w.InLoop) : quietRun pb map inputs w = (w, []) := by
  cases inputs with
  | nil => rfl
  | cons => rw [quietRun, List.map_cons, Worker.run, if_neg left']

theorem quietRun_cons (inputs : List (FramesT × Handler Msg)) (frames : FramesT)
    (handler : Handler Msg) (w : Worker) (inLoop : w.InLoop)
    (it : w.iteration pb ⟨map, false⟩ (quietRound frames handler) = (next, events)) :
    quietRun pb map ((frames, handler) :: inputs) w =
      ((quietRun pb map inputs next).1, events :: (quietRun pb map inputs next).2) := by
  rw [quietRun, List.map_cons, Worker.run, if_pos inLoop, it]
  rfl

/-- The whole run of a worker is one answer a message, up to the stop order. -/
theorem run_answers (inputs : List (FramesT × Behaviour Msg)) :
    let result := quietRun pb map (inputs.map fun input => (input.1, input.2.handler)) {}
    let served := inputs.takeWhile fun input => !isStop input.1
    messages result.2.flatten = served.flatMap (answer pb map) ∧
    calls result.2.flatten = served.flatMap (fun input => invocation pb map input.1) ∧
    (result.1.InLoop ↔ ∀ input ∈ inputs, isStop input.1 = false) := by
  have fromClean (inputs : List (FramesT × Behaviour Msg)) (w : Worker) (inLoop : w.InLoop)
      (clean : w.pending = []) :
      let result := quietRun pb map (inputs.map fun input => (input.1, input.2.handler)) w
      let served := inputs.takeWhile fun input => !isStop input.1
      messages result.2.flatten = served.flatMap (answer pb map) ∧
      calls result.2.flatten = served.flatMap (fun input => invocation pb map input.1) ∧
      (result.1.InLoop ↔ ∀ input ∈ inputs, isStop input.1 = false) := by
    induction inputs generalizing w with
    | nil => simpa [quietRun, Worker.run, messages, calls] using inLoop
    | cons input inputs ih =>
      obtain ⟨frames, behaviour⟩ := input
      cases stop : isStop frames with
      | true =>
        have left' : ¬({ w with frames, isrunning := false, escaped := none } : Worker).InLoop :=
          fun h => absurd h.1 (by simp)
        rw [List.map_cons, quietRun_cons pb map _ frames _ w inLoop
          (iteration_stop pb _ (quietRound frames _) w rfl stop), quietRun_left pb map _ _ left']
        simp [stop, left', messages, calls]
      | false =>
        obtain ⟨next, events, it, stays, tidy, sent, called⟩ :=
          iteration_answer pb map frames behaviour w inLoop clean stop
        obtain ⟨later, laterCalls, ends⟩ := ih next stays tidy
        rw [List.map_cons, quietRun_cons pb map _ frames _ w inLoop it]
        simp [stop, sent, called, later, laterCalls, ends]
  exact fromClean inputs {} ⟨rfl, rfl⟩ rfl

end Answers

section Handlers

variable (pb : Protobuf Msg) (map : RpcMethodMapT)

/-- A request is answered once, with a nonzero code when its handler did not return. -/
def Replied (input : FramesT × Handler Msg) (events : List (WorkerEvent Msg)) : Prop :=
  input.1.length = 5 → ∃ code data, messages events = [input.1.take 3 ++ [code, data]] ∧
    ∀ rpcMethod request e, .called rpcMethod request (.threw e) ∈ events → atoi (cStr code) ≠ 0

/-- When the handler is called it returns or throws a `ZError` with a nonzero code. -/
def Tame (input : FramesT × Handler Msg) : Prop :=
  ∀ a b id opcode buffer rpcMethod request e, input.1 = [a, b, id, opcode, buffer] →
    map.lookup opcode = some rpcMethod → pb.parse rpcMethod.request buffer = some request →
    input.2 rpcMethod request = .threw e → ∃ error, e = .zerror error ∧ error.ecode ≠ 0

section

variable {pb map} {handler : Handler Msg} {a b id opcode buffer : Bytes}
  {events : List (WorkerEvent Msg)} {result : Except Exn Bytes}

/-- The code a tame handler is answered with after it has thrown. -/
theorem Tame.code_ne_zero (tame : Tame pb map ([a, b, id, opcode, buffer], handler))
    (processed : process pb map handler opcode buffer = (events, result)) {code : Bytes}
    (carries : ∀ e, result = .error e → ∃ error, e = .zerror error ∧
      code = decimalInt error.icode)
    (called : .called rpcMethod request (.threw e) ∈ events) : atoi (cStr code) ≠ 0 := by
  obtain ⟨entry, parsed, threw⟩ := threw_of_called pb map (by rwa [processed])
  obtain ⟨error, rfl, nonzero⟩ := tame a b id opcode buffer rpcMethod request e rfl entry parsed
    threw
  obtain ⟨_, rfl⟩ := Prod.mk.inj (processed.symm.trans (process_of_threw pb map entry parsed threw))
  obtain ⟨_, same, rfl⟩ := carries _ rfl
  obtain rfl := Exn.zerror.inj same
  rwa [ZError.icode, atoi_decimalInt]

/-- A handler whose exceptions are answered with a nonzero code is tame. -/
theorem tame_of_code (processed : process pb map handler opcode buffer = (events, result))
    {code : Bytes} (carries : ∀ e, result = .error e → ∃ error, e = .zerror error ∧
      code = decimalInt error.icode)
    (answered : ∀ rpcMethod request e, .called rpcMethod request (.threw e) ∈ events →
      atoi (cStr code) ≠ 0) : Tame pb map ([a, b, id, opcode, buffer], handler) := by
  intro a' b' id' opcode' buffer' rpcMethod request e same entry parsed threw
  obtain ⟨rfl, rfl, rfl, rfl, rfl, _⟩ := same
  obtain ⟨rfl, rfl⟩ := Prod.mk.inj (processed.symm.trans
    (process_of_threw pb map entry parsed threw))
  obtain ⟨error, rfl, rfl⟩ := carries e rfl
  refine ⟨error, rfl, fun zero => answered rpcMethod request (.zerror error) (by simp) ?_⟩
  rw [ZError.icode, atoi_decimalInt, zero]

/-- A handler that leaves a request without a reply is not tame. -/
theorem not_tame_of_silent (processed : process pb map handler opcode buffer = (events, result))
    (silent : replyEnd result = none) : ¬Tame pb map ([a, b, id, opcode, buffer], handler) := by
  intro tame
  obtain ⟨rpcMethod, request, e, entry, parsed, threw, ended⟩ :=
    threw_of_silent pb map (by rw [processed]; exact silent)
  obtain ⟨error, rfl, _⟩ := tame a b id opcode buffer rpcMethod request e rfl entry parsed threw
  rw [processed] at ended
  obtain rfl : result = .error (.zerror error) := ended
  cases silent

end

/-- A tame handler leaves a worker that has replied and goes on; one that is not tame
leaves a request unanswered or answered with zero. -/
theorem iteration_tame (frames : FramesT) (handler : Handler Msg) (w : Worker)
    (inLoop : w.InLoop) (clean : w.pending = []) (noStop : isStop frames = false) :
    ∃ next events,
      w.iteration pb ⟨map, false⟩ (quietRound frames handler) = (next, events) ∧
      (Tame pb map (frames, handler) → next.InLoop ∧ next.pending = []) ∧
      (Tame pb map (frames, handler) ↔ Replied (frames, handler) events) := by
  by_cases five : frames.length = 5
  · obtain ⟨a, b, id, opcode, buffer, rfl⟩ := length_five frames five
    have silent := process_messages pb map handler opcode buffer
    rcases processed : process pb map handler opcode buffer with ⟨events, result⟩
    rw [processed] at silent
    cases replies : replyEnd result with
    | some ending =>
      obtain ⟨code, data, rfl, carries⟩ := replyEnd_some replies
      have sent : messages (events ++ [.sent (w.pending ++ ([a, b, id] ++ [code, data]))]) =
          [[a, b, id] ++ [code, data]] := by
        rw [messages_append, silent, clean]
        rfl
      refine ⟨_, _, iteration_replied pb map handler w a b id opcode buffer _ processed replies,
        fun _ => ⟨⟨inLoop.1, rfl⟩, rfl⟩, fun tame _ => ⟨code, data, sent, ?_⟩,
        fun replied => ?_⟩
      · intro rpcMethod request e member
        exact tame.code_ne_zero processed carries (by simpa using member)
      · obtain ⟨code', data', sent', nonzero⟩ := replied rfl
        obtain ⟨rfl, rfl⟩ : code = code' ∧ data = data' := by simpa using sent.symm.trans sent'
        apply tame_of_code processed carries
        exact fun rpcMethod request e called =>
          nonzero rpcMethod request e (List.mem_append_left _ called)
    | none =>
      have wild : ¬Tame pb map ([a, b, id, opcode, buffer], handler) :=
        not_tame_of_silent processed replies
      have noReply : ¬Replied ([a, b, id, opcode, buffer], handler) events := by
        intro replied
        obtain ⟨_, _, sent, _⟩ := replied rfl
        rw [silent] at sent
        cases sent
      obtain ⟨rpcMethod, request, e, _, _, _, ended⟩ :=
        threw_of_silent pb map (by rw [processed]; exact replies)
      rw [processed] at ended
      obtain rfl : result = .error e := ended
      exact ⟨_, _, iteration_thrown pb map handler w a b id opcode buffer e processed replies,
        fun tame => absurd tame wild, fun tame => absurd tame wild,
        fun replied => absurd replied noReply⟩
  · refine ⟨_, _, iteration_other pb _ frames handler w noStop five,
      fun _ => ⟨⟨inLoop.1, rfl⟩, clean⟩, fun _ length => absurd length five, fun _ => ?_⟩
    intro a b id opcode buffer _ _ _ same
    exact absurd (congrArg List.length same) five

/-- Exactly the handlers that are tame can neither silence nor stop a worker. -/
theorem handlers_tame_iff (inputs : List (FramesT × Handler Msg))
    (noStop : ∀ input ∈ inputs, isStop input.1 = false) :
    ((quietRun pb map inputs {}).1.InLoop ∧
      List.Forall₂ Replied inputs (quietRun pb map inputs {}).2) ↔
    ∀ input ∈ inputs, Tame pb map input := by
  have fromClean (inputs : List (FramesT × Handler Msg)) (w : Worker) (inLoop : w.InLoop)
      (clean : w.pending = []) (noStop : ∀ input ∈ inputs, isStop input.1 = false) :
      ((quietRun pb map inputs w).1.InLoop ∧
        List.Forall₂ Replied inputs (quietRun pb map inputs w).2) ↔
      ∀ input ∈ inputs, Tame pb map input := by
    induction inputs generalizing w with
    | nil => simpa [quietRun, Worker.run] using inLoop
    | cons input inputs ih =>
      obtain ⟨frames, handler⟩ := input
      have noStop' := fun input member => noStop input (List.mem_cons_of_mem _ member)
      obtain ⟨next, events, it, goesOn, replied_iff⟩ :=
        iteration_tame pb map frames handler w inLoop clean (noStop _ List.mem_cons_self)
      rw [quietRun_cons pb map inputs frames handler w inLoop it, List.forall₂_cons,
        List.forall_mem_cons]
      constructor
      · rintro ⟨inLoop', replied, later⟩
        have tame := replied_iff.mpr replied
        obtain ⟨stays, tidy⟩ := goesOn tame
        exact ⟨tame, (ih next stays tidy noStop').mp ⟨inLoop', later⟩⟩
      · rintro ⟨tame, rest⟩
        obtain ⟨stays, tidy⟩ := goesOn tame
        obtain ⟨inLoop', later⟩ := (ih next stays tidy noStop').mpr rest
        exact ⟨inLoop', replied_iff.mp tame, later⟩
  exact fromClean inputs {} ⟨rfl, rfl⟩ rfl noStop

end Handlers

/-- Messages that are their own bytes. -/
def rawBytes : Protobuf Bytes where
  parse _ buffer := some buffer
  serialize response := some response

def oneMethod : RpcMethodMapT := Finmap.singleton (ascii "m") ⟨0, 1, 2, 3⟩

def echo : Handler Bytes := fun _ request => .returned request

def requestOf (id : Nat) (buffer : Bytes) : FramesT :=
  [ascii "t1", [], decimal id, ascii "m", buffer]

theorem handlers_tame_iff_declined :
    ((quietRun rawBytes oneMethod
        [(requestOf 1 [], fun _ _ => .threw (.zerror ⟨.clientError, cStr []⟩))] {}).1.InLoop ∧
      List.Forall₂ Replied
        [(requestOf 1 [], fun _ _ => .threw (.zerror ⟨.clientError, cStr []⟩))]
        (quietRun rawBytes oneMethod
          [(requestOf 1 [], fun _ _ => .threw (.zerror ⟨.clientError, cStr []⟩))] {}).2) :=
  (handlers_tame_iff rawBytes oneMethod _ (by decide)).mpr fun input member => by
    obtain rfl := List.mem_singleton.mp member
    rintro a b id opcode buffer rpcMethod request e _ _ _ threw
    exact ⟨_, (HandlerEnd.threw.inj threw).symm, by decide⟩

/-- A handler that throws a `std::exception` ends the thread of its worker. -/
theorem std_exception_escapes : ¬∀ (pb : Protobuf Bytes) (map : RpcMethodMapT)
    (inputs : List (FramesT × Handler Bytes)), (∀ input ∈ inputs, isStop input.1 = false) →
    (quietRun pb map inputs {}).1.InLoop ∧
      List.Forall₂ Replied inputs (quietRun pb map inputs {}).2 := by
  intro claim
  have inLoop := (claim rawBytes oneMethod [(requestOf 1 [], fun _ _ => .threw .stdException)]
    (by decide)).1
  exact absurd inLoop (by decide)

end Zqrpc
