import Zqrpc.RpcWorker

/-! What one worker iteration can do, for every way its sends and its handler end.
The run theorems use these rules and do not unfold the loop body. -/
namespace Zqrpc

open Numeral

variable {Msg : Type}

def WorkerEvent.message : WorkerEvent Msg → Option FramesT
  | .sent frames => some frames
  | _ => none

def WorkerEvent.call : WorkerEvent Msg → Option (RpcMethod × Msg)
  | .called rpcMethod request _ => some (rpcMethod, request)
  | _ => none

def messages (events : List (WorkerEvent Msg)) : List FramesT := events.filterMap (·.message)

/-- The calls of the handler, each with the request it was given. -/
def calls (events : List (WorkerEvent Msg)) : List (RpcMethod × Msg) := events.filterMap (·.call)

@[simp] theorem messages_append (events more : List (WorkerEvent Msg)) :
    messages (events ++ more) = messages events ++ messages more := List.filterMap_append

@[simp] theorem calls_append (events more : List (WorkerEvent Msg)) :
    calls (events ++ more) = calls events ++ calls more := List.filterMap_append

@[simp] theorem messages_sent (sent : List FramesT) :
    messages (sent.map .sent : List (WorkerEvent Msg)) = sent := by
  simp [messages, List.filterMap_map, WorkerEvent.message]

section Process

variable (pb : Protobuf Msg) (map : RpcMethodMapT)

/-- The five ways through `process`. -/
theorem process_cases (handler : Handler Msg) (opcode buffer : Bytes) :
    (map.lookup opcode = none ∧ process pb map handler opcode buffer =
      ([], .error (.zerror ⟨.noSuchMethod, cStr []⟩))) ∨
    ∃ rpcMethod, map.lookup opcode = some rpcMethod ∧
    ((pb.parse rpcMethod.request buffer = none ∧ process pb map handler opcode buffer =
      (made rpcMethod, .error (.zerror ⟨.dataCorrupted, cStr []⟩))) ∨
    ∃ request, pb.parse rpcMethod.request buffer = some request ∧
    ∃ result, process pb map handler opcode buffer =
        (made rpcMethod ++ [.called rpcMethod request (handler rpcMethod request)], result) ∧
      ((∃ e, handler rpcMethod request = .threw e ∧ result = .error e) ∨
      ∃ response, handler rpcMethod request = .returned response ∧
        ((pb.serialize response = none ∧ result = .error (.zerror ⟨.dataCorrupted, cStr []⟩)) ∨
        ∃ data, pb.serialize response = some data ∧ result = .ok data))) := by
  cases entry : map.lookup opcode with
  | none => exact .inl ⟨rfl, by simp [process, entry]⟩
  | some rpcMethod =>
    refine .inr ⟨rpcMethod, rfl, ?_⟩
    cases parsed : pb.parse rpcMethod.request buffer with
    | none => exact .inl ⟨rfl, by simp [process, entry, parsed]⟩
    | some request =>
      refine .inr ⟨request, rfl, ?_⟩
      cases ended : handler rpcMethod request with
      | threw e => exact ⟨_, by simp [process, entry, parsed, ended], .inl ⟨e, rfl, rfl⟩⟩
      | returned response =>
        cases serialized : pb.serialize response with
        | none =>
          exact ⟨_, by simp [process, entry, parsed, ended, serialized],
            .inr ⟨response, rfl, .inl ⟨serialized, rfl⟩⟩⟩
        | some data =>
          exact ⟨_, by simp [process, entry, parsed, ended, serialized],
            .inr ⟨response, rfl, .inr ⟨data, serialized, rfl⟩⟩⟩

theorem process_messages (handler : Handler Msg) (opcode buffer : Bytes) :
    messages (process pb map handler opcode buffer).1 = [] := by
  rcases process_cases pb map handler opcode buffer with
    ⟨_, same⟩ | ⟨_, _, ⟨_, same⟩ | ⟨_, _, _, same, _⟩⟩
  all_goals
    rw [same]
    rfl

/-- The two frames the reply to a request ends with, when there is one. -/
def replyEnd : Except Exn Bytes → Option FramesT
  | .ok data => some [ascii "0", data]
  | .error (.zerror e) => some [decimalInt e.icode, e.what.bytes]
  | .error _ => none

section

variable {handler : Handler Msg} {opcode buffer : Bytes} {rpcMethod : RpcMethod} {request : Msg}
  {e : Exn}

theorem process_of_threw (entry : map.lookup opcode = some rpcMethod)
    (parsed : pb.parse rpcMethod.request buffer = some request)
    (threw : handler rpcMethod request = .threw e) :
    process pb map handler opcode buffer =
      (made rpcMethod ++ [.called rpcMethod request (.threw e)], .error e) := by
  simp [process, entry, parsed, threw]

theorem threw_of_called
    (member : .called rpcMethod request (.threw e) ∈ (process pb map handler opcode buffer).1) :
    map.lookup opcode = some rpcMethod ∧ pb.parse rpcMethod.request buffer = some request ∧
      handler rpcMethod request = .threw e := by
  rcases process_cases pb map handler opcode buffer with
    ⟨_, same⟩ | ⟨_, entry, ⟨_, same⟩ | ⟨_, parsed, _, same, _⟩⟩
  · simp [same] at member
  · simp [same, made] at member
  · simp only [same, made, List.cons_append, List.nil_append, List.mem_cons, reduceCtorEq,
      WorkerEvent.called.injEq, List.not_mem_nil, or_false, false_or] at member
    obtain ⟨rfl, rfl, threw⟩ := member
    exact ⟨entry, parsed, threw.symm⟩

theorem threw_of_silent (silent : replyEnd (process pb map handler opcode buffer).2 = none) :
    ∃ rpcMethod request e, map.lookup opcode = some rpcMethod ∧
      pb.parse rpcMethod.request buffer = some request ∧
      handler rpcMethod request = .threw e ∧
      (process pb map handler opcode buffer).2 = .error e := by
  rcases process_cases pb map handler opcode buffer with
    ⟨_, same⟩ | ⟨_, entry, ⟨_, same⟩ | ⟨_, parsed, _, same, ⟨e, threw, rfl⟩ |
      ⟨_, _, ⟨_, rfl⟩ | ⟨_, _, rfl⟩⟩⟩⟩
  · simp [same, replyEnd] at silent
  · simp [same, replyEnd] at silent
  · exact ⟨_, _, e, entry, parsed, threw, by rw [same]⟩
  · simp [same, replyEnd] at silent
  · simp [same, replyEnd] at silent

end

theorem replyEnd_some {result : Except Exn Bytes} {ending : FramesT}
    (replies : replyEnd result = some ending) : ∃ code data, ending = [code, data] ∧
      ∀ e, result = .error e → ∃ error, e = .zerror error ∧ code = decimalInt error.icode := by
  cases result with
  | ok data =>
    cases replies
    exact ⟨_, _, rfl, by simp⟩
  | error e =>
    cases e <;> cases replies
    exact ⟨_, _, rfl, fun _ same => ⟨_, (Except.error.inj same).symm, rfl⟩⟩

/-- What a reply carries: the response of a handler that was called, or a `ZError` of
the worker or of a handler that was called. -/
theorem process_reply {handler : Handler Msg} {opcode buffer code data : Bytes}
    (replies : replyEnd (process pb map handler opcode buffer).2 = some [code, data]) :
    (∃ rpcMethod request response, map.lookup opcode = some rpcMethod ∧
      pb.parse rpcMethod.request buffer = some request ∧
      .called rpcMethod request (.returned response) ∈ (process pb map handler opcode buffer).1 ∧
      pb.serialize response = some data) ∨
    ∃ error, code = decimalInt error.icode ∧ (error.ecode ≠ 0 ∨ ∃ rpcMethod request,
      .called rpcMethod request (.threw (.zerror error)) ∈
        (process pb map handler opcode buffer).1) := by
  rcases process_cases pb map handler opcode buffer with
    ⟨_, same⟩ | ⟨rpcMethod, entry, ⟨_, same⟩ | ⟨request, parsed, _, same, ⟨e, threw, rfl⟩ |
      ⟨response, returned, ⟨_, rfl⟩ | ⟨data', serialized, rfl⟩⟩⟩⟩
  all_goals rw [same] at replies ⊢
  · obtain ⟨rfl, rfl⟩ : _ = code ∧ _ = data := by simpa [replyEnd] using replies
    exact .inr ⟨_, rfl, .inl (by decide)⟩
  · obtain ⟨rfl, rfl⟩ : _ = code ∧ _ = data := by simpa [replyEnd] using replies
    exact .inr ⟨_, rfl, .inl (by decide)⟩
  · cases e <;> simp only [replyEnd, reduceCtorEq, Option.some.injEq, List.cons.injEq] at replies
    exact .inr ⟨_, replies.1.symm, .inr ⟨rpcMethod, request, by simp [threw]⟩⟩
  · obtain ⟨rfl, rfl⟩ : _ = code ∧ _ = data := by simpa [replyEnd] using replies
    exact .inr ⟨_, rfl, .inl (by decide)⟩
  · obtain ⟨_, rfl⟩ : ascii "0" = code ∧ data' = data := by simpa [replyEnd] using replies
    exact .inl ⟨rpcMethod, request, response, entry, parsed, by simp [returned], serialized⟩

end Process

theorem length_five (frames : FramesT) (five : frames.length = 5) :
    ∃ a b id opcode buffer, frames = [a, b, id, opcode, buffer] := by
  match frames, five with
  | [a, b, id, opcode, buffer], _ => exact ⟨a, b, id, opcode, buffer, rfl⟩

section Rules

variable {Msg : Type} (pb : Protobuf Msg) (config : RpcWorker) (map : RpcMethodMapT)

theorem serve_stop (round : Round Msg) (w : Worker) (stop : isStop w.frames = true) :
    serve pb config round w = ({ w with isrunning := false }, [], some .exitException) := by
  simp [serve, stop]

theorem serve_other (round : Round Msg) (w : Worker) (noStop : isStop w.frames = false)
    (notFive : w.frames.length ≠ 5) : serve pb config round w = (w, [], none) := by
  simp [serve, noStop, notFive]

section

variable {round : Round Msg} {w : Worker} {a b id opcode buffer : Bytes}
  {events : List (WorkerEvent Msg)}

theorem serve_error (five : w.frames = [a, b, id, opcode, buffer])
    (processed : process pb config.rpcMethodMap round.handler opcode buffer = (events, .error e)) :
    serve pb config round w = ({ w with frames := [a, b, id] }, events, some e) := by
  have noStop : isStop [a, b, id, opcode, buffer] = false := by simp [isStop]
  simp [serve, noStop, five, processed]

theorem serve_ok (five : w.frames = [a, b, id, opcode, buffer])
    (processed : process pb config.rpcMethodMap round.handler opcode buffer = (events, .ok data)) :
    serve pb config round w =
      let (w, more, thrown) :=
        sendReply config round.reply { w with frames := [a, b, id, ascii "0", data] }
      (w, events ++ more, thrown) := by
  have noStop : isStop [a, b, id, opcode, buffer] = false := by simp [isStop]
  simp [serve, noStop, five, processed]

end

theorem sendReply_accepted (outcome : Nat → SendOutcome) (w : Worker)
    (nonempty : w.frames ≠ []) (accepts : Accepts outcome w.frames.length) :
    sendReply ⟨map, false⟩ outcome w =
      ({ w with pending := [] }, ([.sent (w.pending ++ w.frames)] : List (WorkerEvent Msg)),
        none) := by
  simp [sendReply, send_accepted outcome w.frames w.pending nonempty accepts]

/-- A round on a socket that takes every frame. -/
def quietRound (frames : FramesT) (handler : Handler Msg) : Round Msg :=
  ⟨.message frames, handler, acceptAll, acceptAll⟩

/-- A stop order ends the loop, whatever the rest of the round would do. -/
theorem iteration_stop (round : Round Msg) (w : Worker) (taken : round.recv = .message frames)
    (stop : isStop frames = true) :
    w.iteration pb config round = ({ w with frames, isrunning := false, escaped := none }, []) := by
  simp [Worker.iteration, taken, serve_stop, stop, answerError, Option.filter, Exn.dropped]

variable (frames : FramesT) (handler : Handler Msg) (w : Worker)

theorem iteration_other (noStop : isStop frames = false) (notFive : frames.length ≠ 5) :
    w.iteration pb config (quietRound frames handler) =
      ({ w with frames, escaped := none }, []) := by
  simp [Worker.iteration, quietRound, serve_other, noStop, notFive, answerError]

variable {events : List (WorkerEvent Msg)} {result : Except Exn Bytes}

/-- The reply leaves once, from the inner block or from its handler. -/
theorem iteration_replied (a b id opcode buffer : Bytes) (ending : FramesT)
    (processed : process pb map handler opcode buffer = (events, result))
    (replies : replyEnd result = some ending) :
    w.iteration pb ⟨map, false⟩ (quietRound [a, b, id, opcode, buffer] handler) =
      ({ w with frames := [a, b, id] ++ ending, pending := [], escaped := none },
        events ++ [.sent (w.pending ++ ([a, b, id] ++ ending))]) := by
  have accepted (w : Worker) (nonempty : w.frames ≠ []) :
      sendReply ⟨map, false⟩ acceptAll w =
        ({ w with pending := [] }, ([.sent (w.pending ++ w.frames)] : List (WorkerEvent Msg)),
          none) :=
    sendReply_accepted map acceptAll w nonempty fun _ _ => rfl
  simp only [Worker.iteration, quietRound]
  rcases result with e | data
  · rw [serve_error pb _ rfl processed]
    cases e <;> cases replies
    simp [answerError, accepted]
  · cases replies
    rw [serve_ok pb _ rfl processed]
    simp [answerError, accepted]

/-- An exception of another type passes the inner handler. -/
theorem iteration_thrown (a b id opcode buffer : Bytes) (e : Exn)
    (processed : process pb map handler opcode buffer = (events, .error e))
    (silent : replyEnd (.error e) = none) :
    w.iteration pb ⟨map, false⟩ (quietRound [a, b, id, opcode, buffer] handler) =
      ({ w with frames := [a, b, id], escaped := if e.dropped then none else some e },
        events) := by
  have passed (w : Worker) (round : Round Msg) :
      answerError ⟨map, false⟩ round (w, events, some e) = (w, events, some e) := by
    cases e <;> first | rfl | cases silent
  simp only [Worker.iteration, quietRound]
  rw [serve_error pb _ rfl processed, passed]
  cases dropped : e.dropped <;> simp [dropped]

/-- A reply leaves as a whole, behind the frames the socket held, or not at all. -/
theorem sendReply_cases (outcome : Nat → SendOutcome) (w : Worker) :
    ∃ (pending : FramesT) (sent : List FramesT) (thrown : Option Exn),
      sendReply config outcome w =
        ({ w with pending }, (sent.map .sent : List (WorkerEvent Msg)), thrown) ∧
      (∀ m ∈ sent, m = w.pending ++ w.frames) ∧
      ∀ e, thrown = some e → ∃ k, outcome k ≠ .accepted ∧ e = (outcome k).exn := by
  unfold sendReply
  by_cases silent : config.noreply = true
  · exact ⟨w.pending, [], none, by simp [silent], by simp, by simp⟩
  · by_cases nonempty : w.frames = []
    · exact ⟨w.pending, [], none, by simp [silent, nonempty, send], by simp, by simp⟩
    · rcases send_cases outcome w.frames w.pending nonempty with ⟨_, put⟩ | ⟨k, _, fails, put⟩
      · exact ⟨[], [w.pending ++ w.frames], none, by simp [silent, put], by simp, by simp⟩
      · exact ⟨w.pending ++ w.frames.take k, [], some (outcome k).exn, by simp [silent, put],
          by simp, fun e same => ⟨k, fails, (Option.some.inj same).symm⟩⟩

/-- The handler of `ZError` adds two frames to whatever `frames` holds by then, and
throws what its own send throws. -/
theorem answerError_cases (round : Round Msg) (w : Worker) (thrown : Option Exn) :
    ∃ (w' : Worker) (more : List FramesT) (thrown' : Option Exn),
      answerError config round (w, events, thrown) = (w', events ++ more.map .sent, thrown') ∧
      (∀ m ∈ more, ∃ e, thrown = some (.zerror e) ∧
        m = w.pending ++ (w.frames ++ [decimalInt e.icode, e.what.bytes])) ∧
      w'.isrunning = w.isrunning ∧
      ∀ e, thrown' = some e → (thrown = some e ∧ replyEnd (.error e) = none) ∨
        ∃ k, round.errorReply k ≠ .accepted ∧ e = (round.errorReply k).exn := by
  rcases thrown with _ | e
  · exact ⟨w, [], none, by simp [answerError], by simp, rfl, by simp⟩
  cases e with
  | zerror e =>
    obtain ⟨pending, sent, thrown, put, shape, source⟩ := sendReply_cases config round.errorReply
      { w with frames := w.frames ++ [decimalInt e.icode, e.what.bytes] }
    rw [answerError, put]
    exact ⟨_, sent, thrown, rfl, fun m member => ⟨e, rfl, shape m member⟩, rfl,
      fun e same => .inr (source e same)⟩
  | _ =>
    refine ⟨w, [], _, ?_, by simp, rfl, fun e same => .inl ⟨same, ?_⟩⟩
    case refine_1 =>
      simp only [List.map_nil, List.append_nil]
      rfl
    case refine_2 =>
      obtain rfl := Option.some.inj same
      rfl

/-- All that leaves one iteration. The messages of five frames among it are replies
to the request, since frames left behind make a message longer. -/
theorem iteration_events (round : Round Msg) (taken : round.recv = .message frames) :
    (frames.length ≠ 5 ∧ (w.iteration pb config round).2 = []) ∨
    ∃ a b id opcode buffer, frames = [a, b, id, opcode, buffer] ∧ ∃ sent : List FramesT,
      (w.iteration pb config round).2 =
        (process pb config.rpcMethodMap round.handler opcode buffer).1 ++ sent.map .sent ∧
      ∀ m ∈ sent, m.length = 5 → ∃ code data, m = [a, b, id, code, data] ∧
        replyEnd (process pb config.rpcMethodMap round.handler opcode buffer).2 =
          some [code, data] := by
  by_cases five : frames.length = 5
  · right
    obtain ⟨a, b, id, opcode, buffer, rfl⟩ := length_five frames five
    refine ⟨a, b, id, opcode, buffer, rfl, ?_⟩
    simp only [Worker.iteration, taken]
    rcases processed : process pb config.rpcMethodMap round.handler opcode buffer with
      ⟨events, result⟩
    cases result with
    | error e =>
      obtain ⟨w', more, thrown, answered, shape, _⟩ := answerError_cases config round
        { w with frames := [a, b, id] } (some e)
      rw [serve_error pb config rfl processed, answered]
      refine ⟨more, rfl, fun m member five => ?_⟩
      obtain ⟨error, same, rfl⟩ := shape m member
      obtain rfl := Option.some.inj same
      obtain clean : w.pending = [] := List.eq_nil_of_length_eq_zero (by simpa using five)
      exact ⟨_, _, by simp [clean], rfl⟩
    | ok data =>
      obtain ⟨pending, sent, thrown, put, first, _⟩ := sendReply_cases config round.reply
        { w with frames := [a, b, id, ascii "0", data] }
      obtain ⟨w', more, thrown', answered, second, _⟩ := answerError_cases config round
        { w with frames := [a, b, id, ascii "0", data], pending } thrown
      rw [serve_ok pb config rfl processed, put, answered]
      refine ⟨sent ++ more, by simp, fun m member five => ?_⟩
      rcases List.mem_append.mp member with h | h
      · obtain rfl := first m h
        obtain clean : w.pending = [] := List.eq_nil_of_length_eq_zero (by simpa using five)
        exact ⟨_, _, by simp [clean], rfl⟩
      · obtain ⟨error, _, rfl⟩ := second m h
        simp at five
  · left
    refine ⟨five, ?_⟩
    simp only [Worker.iteration, taken]
    cases stop : isStop frames with
    | true => rw [serve_stop pb config round _ stop]; rfl
    | false => rw [serve_other pb config round _ stop five]; rfl

/-- The types that one of the two `try` blocks takes. -/
def Exn.caught (e : Exn) : Bool := e.dropped || e matches .zerror _

/-- What the handler throws, when this message has it called, is caught. -/
def EndsCaught (frames : FramesT) (handler : Handler Msg) : Prop :=
  ∀ a b id opcode buffer rpcMethod request e, frames = [a, b, id, opcode, buffer] →
    map.lookup opcode = some rpcMethod → pb.parse rpcMethod.request buffer = some request →
    handler rpcMethod request = .threw e → e.caught = true

/-- Nothing leaves the inner block but what its sends and the handler throw. -/
theorem serve_caught (round : Round Msg) (w : Worker) (noStop : isStop w.frames = false)
    (ends : EndsCaught pb config.rpcMethodMap w.frames round.handler) :
    ∃ (w' : Worker) (events : List (WorkerEvent Msg)) (thrown : Option Exn),
      serve pb config round w = (w', events, thrown) ∧ w'.isrunning = w.isrunning ∧
      ∀ e, thrown = some e → e.caught = true := by
  by_cases five : w.frames.length = 5
  · obtain ⟨a, b, id, opcode, buffer, same⟩ := length_five w.frames five
    have cases := process_cases pb config.rpcMethodMap round.handler opcode buffer
    rcases processed : process pb config.rpcMethodMap round.handler opcode buffer with
      ⟨events, result⟩
    rw [processed] at cases
    cases result with
    | error e =>
      refine ⟨_, _, _, serve_error pb config same processed, rfl, fun e' thrown => ?_⟩
      obtain rfl := Option.some.inj thrown
      rcases cases with ⟨_, made⟩ | ⟨_, entry, ⟨_, made⟩ | ⟨_, parsed, _, made,
        ⟨e', threw, ended⟩ | ⟨_, _, ⟨_, ended⟩ | ⟨_, _, ended⟩⟩⟩⟩
      all_goals obtain ⟨-, result⟩ := Prod.mk.inj made
      · obtain rfl := Except.error.inj result
        rfl
      · obtain rfl := Except.error.inj result
        rfl
      · obtain rfl := Except.error.inj (result.trans ended)
        exact ends a b id opcode buffer _ _ _ same entry parsed threw
      · obtain rfl := Except.error.inj (result.trans ended)
        rfl
      · cases result.trans ended
    | ok data =>
      obtain ⟨pending, sent, thrown, put, _, source⟩ := sendReply_cases config round.reply
        { w with frames := [a, b, id, ascii "0", data] }
      rw [serve_ok pb config same processed, put]
      refine ⟨_, _, _, rfl, rfl, fun e same => ?_⟩
      obtain ⟨k, _, rfl⟩ := source e same
      cases round.reply k <;> rfl
  · exact ⟨w, [], none, serve_other pb config round w noStop five, rfl, by simp⟩

/-- A round that ends in a caught exception or in none leaves the worker in its loop,
when the reply of the inner handler is not refused. -/
theorem iteration_stays (round : Round Msg) (w : Worker) (taken : round.recv = .message frames)
    (running : w.isrunning = true) (noStop : isStop frames = false)
    (ends : EndsCaught pb config.rpcMethodMap frames round.handler)
    (answerable : ∀ i, round.errorReply i ≠ .refused) :
    (w.iteration pb config round).1.InLoop := by
  obtain ⟨w', events, thrown, served, kept, caught⟩ :=
    serve_caught pb config round { w with frames } noStop ends
  obtain ⟨next, more, thrown', answered, _, kept', source⟩ :=
    answerError_cases config round w' thrown
  simp only [Worker.iteration, taken]
  rw [served, answered]
  refine ⟨kept'.trans (kept.trans running), ?_⟩
  have dropped : ∀ e, thrown' = some e → e.dropped = true := by
    intro e same
    rcases source e same with ⟨threw, silent⟩ | ⟨k, fails, rfl⟩
    · have taken := caught e threw
      cases e <;> simp_all [Exn.caught, replyEnd]
    · cases outcome : round.errorReply k with
      | accepted => exact absurd outcome fails
      | refused => exact absurd outcome (answerable k)
      | threw => rfl
  rcases thrown' with _ | e
  · rfl
  · simp [Option.filter, dropped e rfl]

end Rules

end Zqrpc
