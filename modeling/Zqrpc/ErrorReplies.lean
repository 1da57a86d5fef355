import Zqrpc.WorkerRuns
import Zqrpc.ChannelRuns

/-! Error replies from the worker that makes them to the channel that reads them.
The worker puts the text into the fourth frame; the channel looks for it in a fifth. -/
namespace Zqrpc

open Numeral Steps

/-- What a generated service throws from a method it does not implement. -/
def notImplemented (name : Bytes) : ZError :=
  ⟨.methodNotImplemented, cStr (ascii "Method " ++ name ++ ascii "() not implemented.")⟩

/-- The step stores the error for the controller `c` that waits under `id`. -/
structure ErrorDelivered (error : ZError) (id : Nat) (c : Ptr) (next : Session)
    (emitted : List Event) : Prop where
  quiet : ∀ c' e, .threw c' e ∉ emitted
  rcode : (next.client.memory c).rcode = .error
  zerror : (next.client.memory c).zerror = error
  erased : next.client.channel.replylist.lookup id = none

/-- The reply a worker sends from its handler of `ZError`. -/
theorem error_reply {Msg : Type} (pb : Protobuf Msg) (map : RpcMethodMapT)
    (handler : Handler Msg) (identity opcode buffer : Bytes) (id : Nat) (error : ZError)
    (w w' : Worker) (events : List (WorkerEvent Msg)) (reply : FramesT) (clean : w.pending = [])
    (fails : (process pb map handler opcode buffer).2 = .error (.zerror error))
    (served : w.iteration pb ⟨map, false⟩
      (quietRound (identity :: requestFrames id opcode buffer) handler) = (w', events))
    (sent : .sent reply ∈ events) :
    reply = [identity, [], decimal id, decimalInt error.icode, error.what.bytes] := by
  have silent := process_messages pb map handler opcode buffer
  rcases processed : process pb map handler opcode buffer with ⟨before, result⟩
  rw [processed] at fails silent
  obtain rfl : result = .error (.zerror error) := fails
  have it := iteration_replied pb map handler w identity [] (decimal id) opcode buffer _ processed
    rfl
  obtain ⟨_, rfl⟩ := Prod.mk.inj (served.symm.trans it)
  have only : reply ∈ messages (before ++ [.sent (w.pending ++ ([identity, [], decimal id] ++
      [decimalInt error.icode, error.what.bytes]))]) := List.mem_filterMap.mpr ⟨_, sent, rfl⟩
  rw [messages_append, silent, clean] at only
  exact List.mem_singleton.mp only

/-- An error reply to an outstanding request: with a nonzero code the call throws and
the request stays outstanding, with code zero the text is stored as the response. -/
theorem deliver_error_reply (s : Client) (id : Nat) (c : Ptr) (error : ZError)
    (fits : id < sizeMod) (known : id ≤ s.channel.nextreply)
    (entry : s.channel.replylist.lookup id = some c) :
    deliver [[], decimal id, decimalInt error.icode, error.what.bytes] s =
      if error.ecode = 0 then .ok (s.ready id c error.what.bytes) else .error .outOfRange := by
  have rogue : ¬id > s.channel.nextreply := by omega
  have code : atoi (cStr (decimalInt error.icode)) = error.ecode := atoi_decimalInt error.ecode
  by_cases zero : error.ecode = 0
  · simp [deliver, lexicalCast_decimal id fits, rogue, entry, code, zero, Client.ready]
  · simp [deliver, lexicalCast_decimal id fits, rogue, entry, code, zero]

/-- No error reply is delivered: the receive step either throws, or makes the
controller ready, or leaves the request outstanding. -/
theorem error_reply_not_delivered {Msg : Type} (pb : Protobuf Msg) (map : RpcMethodMapT)
    (handler : Handler Msg) (identity opcode buffer : Bytes) (id : Nat) (error : ZError)
    (w w' : Worker) (events : List (WorkerEvent Msg)) (reply : FramesT) (clean : w.pending = [])
    (fails : (process pb map handler opcode buffer).2 = .error (.zerror error))
    (served : w.iteration pb ⟨map, false⟩
      (quietRound (identity :: requestFrames id opcode buffer) handler) = (w', events))
    (sent : .sent reply ∈ events) (s next : Session) (c : Ptr) (t : Tick) (emitted : List Event)
    (outstanding : s.client.channel.replylist.lookup id = some c)
    (fired : s.step (.tick t) = some (next, emitted))
    (consumed : .consumed reply.tail ∈ emitted) :
    ¬ErrorDelivered error id c next emitted ∧
    (id < sizeMod → id ≤ s.client.channel.nextreply →
      if error.ecode = 0 then next.client = s.client.ready id c error.what.bytes
      else next.client = s.client ∧
        ∃ call, s.call = some call ∧ .threw call.controller .outOfRange ∈ emitted) := by
  obtain rfl := error_reply pb map handler identity opcode buffer id error w w' events reply clean
    fails served sent
  have step := (s.step_consumed next t emitted _ fired consumed).2
  constructor
  · intro delivered
    rcases step with ok | ⟨call, e, _, _, _, threw⟩
    · rcases deliver_cases _ s.client with ⟨id', c', _, _, entry, ready⟩ | ⟨_, same | ⟨e, threw⟩⟩
      · have same : next.client = s.client.ready id' c' _ := Except.ok.inj (ok.symm.trans ready)
        by_cases own : c' = c
        · subst c'
          have rcode := delivered.rcode
          rw [same, Client.ready_same] at rcode
          cases rcode
        · have apart : id ≠ id' := by
            rintro rfl
            exact own (Option.some.inj (entry.symm.trans outstanding))
          have erased := delivered.erased
          rw [same, Client.ready_replylist, Finmap.lookup_erase_ne apart, outstanding] at erased
          cases erased
      · have same : next.client = s.client := Except.ok.inj (ok.symm.trans same)
        have erased := delivered.erased
        rw [same, outstanding] at erased
        cases erased
      · exact absurd (ok.symm.trans threw) (by simp)
    · exact delivered.quiet _ _ threw
  · intro fits known
    have result := deliver_error_reply s.client id c error fits known outstanding
    rw [List.tail_cons] at step
    by_cases zero : error.ecode = 0
    · rw [if_pos zero] at result ⊢
      rcases step with ok | ⟨_, _, _, threw, _⟩
      · exact Except.ok.inj (ok.symm.trans result)
      · exact absurd (threw.symm.trans result) (by simp)
    · rw [if_neg zero] at result ⊢
      rcases step with ok | ⟨call, e, calling, threw, same, member⟩
      · exact absurd (ok.symm.trans result) (by simp)
      · obtain rfl := Except.error.inj (threw.symm.trans result)
        exact ⟨same, call, calling, member⟩

/-- A method left unimplemented, its reply, and the call that is to receive it. -/
def unimplemented : Handler Bytes := fun _ _ => .threw (.zerror (notImplemented (ascii "M")))

def unimplementedReply : FramesT :=
  [[], decimal 1, decimalInt (notImplemented (ascii "M")).icode,
    (notImplemented (ascii "M")).what.bytes]

theorem unimplementedReply_sent : ∃ w' events,
    Worker.iteration rawBytes ⟨oneMethod, false⟩
      (quietRound (ascii "t1" :: requestFrames 1 (ascii "m") []) unimplemented) {} =
        (w', events) ∧ .sent (ascii "t1" :: unimplementedReply) ∈ events :=
  ⟨_, _, rfl, List.mem_cons_of_mem _ (List.mem_cons_of_mem _ (List.mem_cons_of_mem _
    List.mem_cons_self))⟩

theorem unimplementedReply_received : ∃ s events next emitted,
    execute Session.step asked {} = some (s, events) ∧
    s.step (.tick ⟨0, .readable, .message unimplementedReply⟩) = some (next, emitted) ∧
    s.client.channel.replylist.lookup 1 = some 0 ∧
    emitted = [.polled 100, .consumed unimplementedReply, .threw 0 .outOfRange] :=
  ⟨_, _, _, _, rfl, rfl, rfl, rfl⟩

theorem error_reply_not_delivered_unimplemented : ∃ s events next emitted,
    execute Session.step asked {} = some (s, events) ∧
    s.step (.tick ⟨0, .readable, .message unimplementedReply⟩) = some (next, emitted) ∧
    ¬ErrorDelivered (notImplemented (ascii "M")) 1 0 next emitted := by
  obtain ⟨w', sending, served, sent⟩ := unimplementedReply_sent
  obtain ⟨s, events, next, emitted, waits, fired, entry, shape⟩ := unimplementedReply_received
  exact ⟨s, events, next, emitted, waits, fired,
    (error_reply_not_delivered rawBytes oneMethod unimplemented (ascii "t1") (ascii "m") [] 1
      (notImplemented (ascii "M")) {} w' sending _ rfl rfl served sent s next 0 _ emitted entry
      fired (by simp [shape])).1⟩

/-- The call that reads the reply of an unimplemented method throws. -/
theorem unimplemented_throws : ¬∀ (pb : Protobuf Bytes) (map : RpcMethodMapT)
    (handler : Handler Bytes) (identity opcode buffer : Bytes) (id : Nat) (error : ZError)
    (w' : Worker) (events : List (WorkerEvent Bytes)) (reply : FramesT),
    (process pb map handler opcode buffer).2 = .error (.zerror error) →
    Worker.iteration pb ⟨map, false⟩
      (quietRound (identity :: requestFrames id opcode buffer) handler) {} = (w', events) →
    .sent reply ∈ events → ∀ inputs past s c t next emitted,
    Path (Fires Session.step) {} inputs past s →
    s.client.channel.replylist.lookup id = some c →
    s.step (.tick t) = some (next, emitted) → .consumed reply.tail ∈ emitted →
    ErrorDelivered error id c next emitted := by
  intro claim
  obtain ⟨w', sending, served, sent⟩ := unimplementedReply_sent
  obtain ⟨s, events, next, emitted, waits, fired, entry, shape⟩ := unimplementedReply_received
  have delivered := claim rawBytes oneMethod unimplemented (ascii "t1") (ascii "m") [] 1
    (notImplemented (ascii "M")) w' sending _ rfl served sent _ _ s 0 _ next emitted
    (execute_path waits) entry fired (by simp [shape])
  exact delivered.quiet 0 .outOfRange (by simp [shape])

end Zqrpc
