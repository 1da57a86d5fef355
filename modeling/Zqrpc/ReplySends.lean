import Zqrpc.WorkerRuns

/-! One request and the sends of its reply. `Send` reports a refused frame as a `ZError`,
so the inner handler takes it, adds two frames to the five of the reply and sends all
seven behind the frames that were accepted before. -/
namespace Zqrpc

open Numeral

variable {Msg : Type}

/-- The first of `n` frames that the socket does not take is refused, not an error. -/
def Refuses (outcome : Nat → SendOutcome) (n : Nat) : Prop :=
  ∃ k < n, Accepts outcome k ∧ outcome k = .refused

instance (outcome : Nat → SendOutcome) (n : Nat) : Decidable (Refuses outcome n) :=
  inferInstanceAs (Decidable (∃ k < n, Accepts outcome k ∧ outcome k = .refused))

@[simp] theorem messages_ite (p : Prop) [Decidable p] (frames : FramesT) :
    messages ((if p then [.sent frames] else []) : List (WorkerEvent Msg)) =
      if p then [frames] else [] := by
  split <;> rfl

theorem Accepts.first_failure {outcome : Nat → SendOutcome} (before : Accepts outcome k)
    (fails : outcome k ≠ .accepted) (bound : k < n) :
    ¬Accepts outcome n ∧ (Refuses outcome n ↔ outcome k = .refused) := by
  refine ⟨fun all => fails (all k bound), fun ⟨j, _, earlier, refused⟩ => ?_,
    fun refused => ⟨k, bound, before, refused⟩⟩
  rcases Nat.lt_trichotomy j k with less | rfl | more
  · cases refused.symm.trans (before j less)
  · exact refused
  · exact absurd (earlier k more) fails

section Sends

variable (pb : Protobuf Msg) (config : RpcWorker)

variable (Msg) in
/-- A reply leaves as a whole when the socket takes all its frames, and then nothing is
thrown; else its send throws at the first frame that is not taken. -/
theorem sendReply_ends (outcome : Nat → SendOutcome) (w : Worker) (nonempty : w.frames ≠ []) :
    ∃ pending thrown, sendReply config outcome w = ({ w with pending },
      ((if config.noreply = false ∧ Accepts outcome w.frames.length then
        [.sent (w.pending ++ w.frames)] else []) : List (WorkerEvent Msg)), thrown) ∧
      (config.noreply = true ∨ Accepts outcome w.frames.length → thrown = none) ∧
      (config.noreply = false → ¬Accepts outcome w.frames.length →
        ∃ k, outcome k ≠ .accepted ∧ thrown = some (outcome k).exn ∧
          (Refuses outcome w.frames.length ↔ outcome k = .refused)) := by
  cases replies : config.noreply with
  | true => exact ⟨w.pending, none, by simp [sendReply, replies], by simp, by simp⟩
  | false =>
    rcases accepts_or_first_failure outcome w.frames.length with all | ⟨k, bound, before, fails⟩
    · have put := send_accepted outcome w.frames w.pending nonempty all
      exact ⟨[], none, by simp [sendReply, replies, put, all], by simp, by simp [all]⟩
    · have put := send_failed outcome w.frames w.pending k bound before fails
      obtain ⟨stopped, refuses⟩ := before.first_failure fails bound
      exact ⟨w.pending ++ w.frames.take k, some (outcome k).exn,
        by simp [sendReply, replies, put, stopped], by simp [stopped],
        fun _ _ => ⟨k, fails, rfl, refuses⟩⟩

/-- What the inner handler adds to the wire. -/
theorem answerError_messages (round : Round Msg) (w : Worker) (events : List (WorkerEvent Msg))
    (e : ZError) :
    messages (answerError config round (w, events, some (.zerror e))).2.1 = messages events ++
      if config.noreply = false ∧ Accepts round.errorReply (w.frames.length + 2) then
        [w.pending ++ (w.frames ++ [decimalInt e.icode, e.what.bytes])] else [] := by
  obtain ⟨pending, thrown, put, _⟩ := sendReply_ends Msg config round.errorReply
    { w with frames := w.frames ++ [decimalInt e.icode, e.what.bytes] } (by simp)
  rw [answerError, put, messages_append, messages_ite]
  simp only [List.length_append, List.length_cons, List.length_nil, Nat.zero_add, Nat.reduceAdd]

end Sends

section Requests

variable (pb : Protobuf Msg) (config : RpcWorker)
  {handler : Handler Msg} {a b id opcode buffer : Bytes} {reply errorReply : Nat → SendOutcome}
  {events : List (WorkerEvent Msg)}

theorem iteration_messages_error (w : Worker) (e : ZError) (processed :
    process pb config.rpcMethodMap handler opcode buffer = (events, .error (.zerror e))) :
    messages (w.iteration pb config
      ⟨.message [a, b, id, opcode, buffer], handler, reply, errorReply⟩).2 =
      if config.noreply = false ∧ Accepts errorReply 5 then
        [w.pending ++ [a, b, id, decimalInt e.icode, e.what.bytes]] else [] := by
  have silent := process_messages pb config.rpcMethodMap handler opcode buffer
  rw [processed] at silent
  simp only [Worker.iteration]
  rw [serve_error pb config rfl processed, answerError_messages, silent]
  rfl

/-- A response whose send is refused leaves with two more frames. -/
theorem iteration_messages_ok (w : Worker) (data : Bytes) (processed :
    process pb config.rpcMethodMap handler opcode buffer = (events, .ok data)) :
    ∃ longer : FramesT, 7 ≤ longer.length ∧ messages (w.iteration pb config
      ⟨.message [a, b, id, opcode, buffer], handler, reply, errorReply⟩).2 =
      if config.noreply = true then []
      else if Accepts reply 5 then [w.pending ++ [a, b, id, ascii "0", data]]
      else if Refuses reply 5 ∧ Accepts errorReply 7 then [longer] else [] := by
  have silent := process_messages pb config.rpcMethodMap handler opcode buffer
  rw [processed] at silent
  obtain ⟨pending, thrown, put, whole, fails⟩ := sendReply_ends Msg config reply
    { w with frames := [a, b, id, ascii "0", data] } (by simp)
  simp only [List.length_cons, List.length_nil, Nat.zero_add, Nat.reduceAdd] at put whole fails
  simp only [Worker.iteration]
  refine ⟨pending ++ ([a, b, id, ascii "0", data] ++ [decimalInt cannotSend.icode,
    cannotSend.what.bytes]), by simp, ?_⟩
  rw [serve_ok pb config rfl processed, put]
  cases replies : config.noreply with
  | true =>
    obtain rfl := whole (.inl replies)
    simp [answerError, silent]
  | false =>
    by_cases all : Accepts reply 5
    · obtain rfl := whole (.inr all)
      simp only [answerError, messages_append, silent, all]
      rfl
    · obtain ⟨k, stopped, rfl, refuses⟩ := fails replies all
      cases outcome : reply k with
      | accepted => exact absurd outcome stopped
      | refused =>
        have again : Refuses reply 5 := refuses.mpr outcome
        simp [SendOutcome.exn, answerError_messages, silent, replies, all, again]
      | threw =>
        have broken : ¬Refuses reply 5 := by simp [refuses, outcome]
        simp [SendOutcome.exn, answerError, silent, all, broken]

end Requests

section Wire

variable (pb : Protobuf Msg) (config : RpcWorker) (behaviour : Behaviour Msg)
  (a b id opcode buffer : Bytes) (reply errorReply : Nat → SendOutcome) (w : Worker)

/-- The request has a response: each step up to the reply succeeds. -/
def Responds : Prop := ∃ rpcMethod request response data,
  config.rpcMethodMap.lookup opcode = some rpcMethod ∧
    pb.parse rpcMethod.request buffer = some request ∧
    behaviour rpcMethod request = .ok response ∧ pb.serialize response = some data

theorem process_responds {events : List (WorkerEvent Msg)} {result : Except Exn Bytes}
    (processed : process pb config.rpcMethodMap behaviour.handler opcode buffer =
      (events, result)) :
    (Responds pb config behaviour opcode buffer ∧ ∃ data, result = .ok data) ∨
      (¬Responds pb config behaviour opcode buffer ∧ ∃ e, result = .error (.zerror e)) := by
  obtain ⟨_, same, ⟨entry, rfl⟩ | ⟨_, entry, ⟨parsed, rfl⟩ | ⟨_, parsed,
    ⟨e, behaves, rfl⟩ | ⟨_, behaves, ⟨serialized, rfl⟩ | ⟨data, serialized, rfl⟩⟩⟩⟩⟩ :=
    process_behaves pb config.rpcMethodMap behaviour opcode buffer
  all_goals
    rw [processed] at same
    obtain rfl := same
  · exact .inr ⟨by simp [Responds, entry], _, rfl⟩
  · exact .inr ⟨by simp [Responds, entry, parsed], _, rfl⟩
  · exact .inr ⟨by simp [Responds, entry, parsed, behaves], _, rfl⟩
  · exact .inr ⟨by simp [Responds, entry, parsed, behaves, serialized], _, rfl⟩
  · exact .inl ⟨⟨_, _, _, data, entry, parsed, behaves, serialized⟩, _, rfl⟩

/-- What the socket may do with the reply for the wire to stay in order. -/
def Harmless : Prop := config.noreply = false →
  (Responds pb config behaviour opcode buffer →
    (Accepts reply 5 → w.pending = []) ∧ (Refuses reply 5 → ¬Accepts errorReply 7)) ∧
  (¬Responds pb config behaviour opcode buffer → Accepts errorReply 5 → w.pending = [])

/-- At most one message, of five frames that start with the three of the request. -/
def WellFormed (sent : List FramesT) : Prop :=
  (∀ m ∈ sent, m.length = 5 ∧ m.take 3 = [a, b, id]) ∧ sent.length ≤ 1

instance (sent : List FramesT) : Decidable (WellFormed a b id sent) :=
  inferInstanceAs (Decidable (_ ∧ _))

/-- The reply to a request is well formed exactly when no refused send is answered and no
frame is left of an earlier message. -/
theorem reply_well_formed_iff :
    WellFormed a b id (messages (w.iteration pb config
      ⟨.message [a, b, id, opcode, buffer], behaviour.handler, reply, errorReply⟩).2) ↔
      Harmless pb config behaviour opcode buffer reply errorReply w := by
  unfold WellFormed
  set sent := messages (w.iteration pb config
    ⟨.message [a, b, id, opcode, buffer], behaviour.handler, reply, errorReply⟩).2
  have whole (code data : Bytes) : ((w.pending ++ [a, b, id, code, data]).length = 5 ∧
      (w.pending ++ [a, b, id, code, data]).take 3 = [a, b, id]) ↔ w.pending = [] := by
    constructor
    · rintro ⟨five, _⟩
      exact List.eq_nil_of_length_eq_zero (by simpa using five)
    · rintro clean
      simp [clean]
  rcases processed : process pb config.rpcMethodMap behaviour.handler opcode buffer with
    ⟨events, result⟩
  rcases process_responds pb config behaviour opcode buffer processed with
    ⟨responds, data, rfl⟩ | ⟨fails, e, rfl⟩
  · obtain ⟨longer, seven, same⟩ : ∃ longer : FramesT, 7 ≤ longer.length ∧ sent = _ :=
      iteration_messages_ok pb config w data processed
    rw [same]
    cases replies : config.noreply with
    | true => simp [Harmless, replies]
    | false =>
      have tooLong : longer.length ≠ 5 := by omega
      by_cases all : Accepts reply 5
      · have unrefused : ¬Refuses reply 5 := fun ⟨k, bound, _, refused⟩ => by
          cases refused.symm.trans (all k bound)
        simpa [Harmless, replies, responds, all, unrefused] using whole (ascii "0") data
      · by_cases refused : Refuses reply 5
        · by_cases answered : Accepts errorReply 7
          · simp [Harmless, replies, responds, all, refused, answered, tooLong]
          · simp [Harmless, replies, responds, all, refused, answered]
        · simp [Harmless, replies, responds, all, refused]
  · have same : sent = _ := iteration_messages_error pb config w e processed
    rw [same]
    cases replies : config.noreply with
    | true => simp [Harmless, replies]
    | false =>
      by_cases all : Accepts errorReply 5
      · simpa [Harmless, replies, fails, all] using whole (decimalInt e.icode) e.what.bytes
      · simp [Harmless, replies, fails, all]

end Wire

/-- A response whose first frame is refused is sent again, in seven frames. -/
theorem refused_reply_grows : ¬∀ (pb : Protobuf Bytes) (config : RpcWorker)
    (behaviour : Behaviour Bytes) (a b id opcode buffer : Bytes)
    (reply errorReply : Nat → SendOutcome) (w : Worker),
    WellFormed a b id (messages (w.iteration pb config
      ⟨.message [a, b, id, opcode, buffer], behaviour.handler, reply, errorReply⟩).2) := by
  intro claim
  have whole := claim rawBytes ⟨oneMethod, false⟩ (fun _ request => .ok request)
    (ascii "t1") [] (decimal 1) (ascii "m") (ascii "x") (fun _ => .refused) acceptAll {}
  exact absurd whole (by decide)

end Zqrpc
