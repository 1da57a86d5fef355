import Zqrpc.RpcChannel

/-! What each channel operation can do, one rule an operation. The run theorems
use these rules and do not unfold the operations. -/
namespace Zqrpc

open Numeral

@[simp] theorem Client.write_channel (s : Client) (c : Ptr) (controller : ZController) :
    (s.write c controller).channel = s.channel := rfl

@[simp] theorem Client.write_same (s : Client) (c : Ptr) (controller : ZController) :
    (s.write c controller).memory c = controller := by simp [write]

@[simp] theorem Client.write_other (s : Client) (c other : Ptr) (controller : ZController)
    (different : other ≠ c) : (s.write c controller).memory other = s.memory other := by
  simp [write, different]

@[simp] theorem Client.fail_channel (s : Client) (c : Ptr) (code : ErrorCodeE) :
    (s.fail c code).channel = s.channel := rfl

@[simp] theorem Client.fail_rcode (s : Client) (c : Ptr) (code : ErrorCodeE) :
    ((s.fail c code).memory c).rcode = .error := by simp [fail]

@[simp] theorem Client.fail_other (s : Client) (c other : Ptr) (code : ErrorCodeE)
    (different : other ≠ c) : (s.fail c code).memory other = s.memory other := by
  simp [fail, different]

/-- Some entry of `replylist_` points to the controller. -/
def Client.Refers (s : Client) (c : Ptr) : Prop := ∃ id, s.channel.replylist.lookup id = some c

instance (s : Client) (c : Ptr) : Decidable (s.Refers c) :=
  decidable_of_iff (∃ id ∈ s.channel.replylist.keys, s.channel.replylist.lookup id = some c)
    ⟨fun ⟨id, _, entry⟩ => ⟨id, entry⟩,
      fun ⟨id, entry⟩ => ⟨id, Finmap.mem_keys.mpr (Finmap.mem_of_lookup_eq_some entry), entry⟩⟩

/-- The id the next `ZSendMethod` call takes. -/
def Client.nextid (s : Client) : Nat := (s.channel.nextreply + 1) % sizeMod

/-- The request serializes and the socket takes its four frames. -/
def Succeeds (request : Serialized) (outcome : Nat → SendOutcome) : Prop :=
  (∃ buffer, request = .bytes buffer) ∧ Accepts outcome 4

instance (request : Serialized) (outcome : Nat → SendOutcome) :
    Decidable (Succeeds request outcome) :=
  match request with
  | .bytes buffer => decidable_of_iff (Accepts outcome 4) (by simp [Succeeds])
  | .failed => isFalse (by simp [Succeeds])
  | .threw => isFalse (by simp [Succeeds])

/-- The client after a `ZSendMethod` call that succeeds. -/
def Client.outstanding (s : Client) (c : Ptr) : Client :=
  { s with channel := ⟨[], s.channel.replylist.insert s.nextid c, s.nextid⟩ }.write c
    { s.memory c with rcode := .working, reqno := s.channel.replylist.keys.card }

@[simp] theorem Client.outstanding_replylist (s : Client) (c : Ptr) :
    (s.outstanding c).channel.replylist = s.channel.replylist.insert s.nextid c := rfl

@[simp] theorem Client.outstanding_nextreply (s : Client) (c : Ptr) :
    (s.outstanding c).channel.nextreply = s.nextid := rfl

@[simp] theorem Client.outstanding_rcode (s : Client) (c : Ptr) :
    ((s.outstanding c).memory c).rcode = .working := by simp [outstanding]

@[simp] theorem Client.outstanding_other (s : Client) (c other : Ptr) (different : other ≠ c) :
    (s.outstanding c).memory other = s.memory other := by simp [outstanding, different]

theorem Client.outstanding_entry {s : Client} {k : Nat} {c other : Ptr}
    (entry : (s.outstanding c).channel.replylist.lookup k = some other) :
    (k = s.nextid ∧ other = c) ∨ (k ≠ s.nextid ∧ s.channel.replylist.lookup k = some other) := by
  by_cases new : k = s.nextid
  · subst k
    simp only [Client.outstanding_replylist, Finmap.lookup_insert, Option.some.injEq] at entry
    exact .inl ⟨rfl, entry.symm⟩
  · rw [Client.outstanding_replylist, Finmap.lookup_insert_of_ne _ new] at entry
    exact .inr ⟨new, entry⟩

theorem zSendMethod_succeeds (fullName : Bytes) (c : Ptr) (buffer : Bytes)
    (outcome : Nat → SendOutcome) (s : Client) (accepts : Accepts outcome 4) :
    zSendMethod fullName c (.bytes buffer) outcome s =
      (s.outstanding c, [.wire (s.channel.pending ++ requestFrames s.nextid fullName buffer),
        .sent c s.nextid], none) := by
  have put := send_accepted outcome (requestFrames s.nextid fullName buffer) s.channel.pending
    (by simp [requestFrames]) accepts
  simp only [Client.nextid] at put
  simp [zSendMethod, sendTry, put, Client.outstanding, Client.nextid]

/-- The code `ZSendMethod` stores when `Send` stops at this frame. -/
def SendOutcome.code : SendOutcome → ErrorCodeE
  | .threw => .connectionError
  | _ => .invalidHeader

/-- A request that serializes takes its id before the socket takes its frames. -/
theorem zSendMethod_unsent (fullName : Bytes) (c : Ptr) (buffer : Bytes)
    (outcome : Nat → SendOutcome) (s : Client) (k : Nat) (bound : k < 4)
    (before : Accepts outcome k) (fails : outcome k ≠ .accepted) :
    zSendMethod fullName c (.bytes buffer) outcome s =
      ({ s with channel :=
          ⟨s.channel.pending ++ (requestFrames s.nextid fullName buffer).take k,
            s.channel.replylist, s.nextid⟩ }.fail c (outcome k).code, [.failed c], none) := by
  have put := send_failed outcome (requestFrames s.nextid fullName buffer) s.channel.pending k
    bound before fails
  simp only [Client.nextid] at put
  cases h : outcome k with
  | accepted => exact absurd h fails
  | refused =>
    simp only [zSendMethod, sendTry, put, h]
    rfl
  | threw =>
    simp only [zSendMethod, sendTry, put, h]
    rfl

/-- A call that does not succeed leaves `replylist_` alone and its controller in
error; the id may be used up and frames may stay with the socket. -/
theorem zSendMethod_fails (fullName : Bytes) (c : Ptr) (request : Serialized)
    (outcome : Nat → SendOutcome) (s : Client) (fails : ¬Succeeds request outcome) :
    ∃ channel code,
      zSendMethod fullName c request outcome s =
        ({ s with channel }.fail c code, [.failed c], none) ∧
      channel.replylist = s.channel.replylist ∧
      (channel.nextreply = s.channel.nextreply ∨ channel.nextreply = s.nextid) := by
  cases request with
  | threw => exact ⟨s.channel, .clientError, rfl, rfl, .inl rfl⟩
  | failed => exact ⟨s.channel, .invalidHeader, rfl, rfl, .inl rfl⟩
  | bytes buffer =>
    rcases accepts_or_first_failure outcome 4 with all | ⟨k, bound, before, refused⟩
    · exact absurd ⟨⟨buffer, rfl⟩, all⟩ fails
    · exact ⟨_, _, zSendMethod_unsent fullName c buffer outcome s k bound before refused,
        rfl, .inr rfl⟩

/-- The second frame is read as this id. -/
def Reads (id : Nat) (frames : FramesT) : Prop := lexicalCast (frames.getD 1 []) = some id

/-- A four-frame message that reports success for this id. -/
def Answers (id : Nat) (frames : FramesT) : Prop :=
  frames.length = 4 ∧ Reads id frames ∧ atoi (cStr (frames.getD 2 [])) = 0

instance (id : Nat) (frames : FramesT) : Decidable (Answers id frames) :=
  inferInstanceAs (Decidable (_ ∧ _ = _ ∧ _))

theorem Answers.unique {a b : Nat} (one : Answers a frames) (two : Answers b frames) : a = b :=
  Option.some.inj (one.2.1.symm.trans two.2.1)

/-- The client after a reply stored for the entry `id` of controller `c`. -/
def Client.ready (s : Client) (id : Nat) (c : Ptr) (payload : Bytes) : Client :=
  { s with channel := { s.channel with replylist := s.channel.replylist.erase id } }.write c
    { s.memory c with payload, rcode := .ready }

@[simp] theorem Client.ready_replylist (s : Client) (id : Nat) (c : Ptr) (payload : Bytes) :
    (s.ready id c payload).channel.replylist = s.channel.replylist.erase id := rfl

@[simp] theorem Client.ready_nextreply (s : Client) (id : Nat) (c : Ptr) (payload : Bytes) :
    (s.ready id c payload).channel.nextreply = s.channel.nextreply := rfl

@[simp] theorem Client.ready_same (s : Client) (id : Nat) (c : Ptr) (payload : Bytes) :
    (s.ready id c payload).memory c = { s.memory c with payload, rcode := .ready } := by
  simp [ready]

@[simp] theorem Client.ready_other (s : Client) (id : Nat) (c other : Ptr) (payload : Bytes)
    (different : other ≠ c) : (s.ready id c payload).memory other = s.memory other := by
  simp [ready, different]

theorem Client.ready_entry {s : Client} {id k : Nat} {c other : Ptr} {payload : Bytes}
    (entry : (s.ready id c payload).channel.replylist.lookup k = some other) :
    k ≠ id ∧ s.channel.replylist.lookup k = some other := by
  by_cases erased : k = id
  · subst k
    simp at entry
  · rw [Client.ready_replylist, Finmap.lookup_erase_ne erased] at entry
    exact ⟨erased, entry⟩

/-- A message that answers an outstanding request makes its controller ready. Every
other message changes nothing, whether it is passed over or throws. -/
theorem deliver_cases (frames : FramesT) (s : Client) :
    (∃ id c, Answers id frames ∧ id ≤ s.channel.nextreply ∧
      s.channel.replylist.lookup id = some c ∧
      deliver frames s = .ok (s.ready id c (frames.getD 3 []))) ∨
    ((∀ id c, Answers id frames → id ≤ s.channel.nextreply →
        s.channel.replylist.lookup id ≠ some c) ∧
      (deliver frames s = .ok s ∨ ∃ e, deliver frames s = .error e)) := by
  by_cases four : frames.length = 4
  · cases read : lexicalCast (frames.getD 1 []) with
    | none =>
      right
      refine ⟨fun id c answers => absurd (read.symm.trans answers.2.1) (by simp), .inr ?_⟩
      exact ⟨.badLexicalCast, by simp only [deliver, four, read]; rfl⟩
    | some id =>
      have only (id' : Nat) (answers : Answers id' frames) : id' = id :=
        Option.some.inj (answers.2.1.symm.trans read)
      by_cases rogue : id > s.channel.nextreply
      · right
        refine ⟨fun id' c answers bound => ?_, .inl ?_⟩
        · rw [only id' answers] at bound
          omega
        · simp [deliver, four, read, rogue, -List.getD_eq_getElem?_getD]
      · cases entry : s.channel.replylist.lookup id with
        | none =>
          right
          refine ⟨fun id' c answers _ => ?_, .inl ?_⟩
          · rw [only id' answers, entry]
            simp
          · simp [deliver, four, read, rogue, entry, -List.getD_eq_getElem?_getD]
        | some c =>
          by_cases zero : atoi (cStr (frames.getD 2 [])) = 0
          · left
            refine ⟨id, c, ⟨four, read, zero⟩, by omega, entry, ?_⟩
            simp [deliver, four, read, rogue, entry, zero, Client.ready,
              -List.getD_eq_getElem?_getD]
          · right
            refine ⟨fun id' c answers _ => absurd answers.2.2 zero, .inr ⟨.outOfRange, ?_⟩⟩
            -- the size test has left no fifth frame for `at(4)`
            simp [deliver, four, read, rogue, entry, zero, -List.getD_eq_getElem?_getD]
  · right
    refine ⟨fun id c answers => absurd answers.1 four, .inl ?_⟩
    simp [deliver, four]

/-- An iteration reads at most one message, and changes the client through
`deliver` only. -/
theorem iteration_cases (call : RecvCall) (tick : Tick) (s : Client) :
    ∃ polls : List Event, (∀ e ∈ polls, ∃ wait, e = .polled wait) ∧
      ((∃ next, iteration call tick s = (s, next, polls)) ∨
      ∃ frames, tick.recv = .message frames ∧
        ((∃ s', deliver frames s = .ok s' ∧
          iteration call tick s = (s', .again true, polls ++ [.consumed frames])) ∨
        ∃ e, deliver frames s = .error e ∧
          iteration call tick s = (s, .throw e, polls ++ [.consumed frames]))) := by
  have reading : (∃ next, receive tick s = (s, next, [])) ∨
      ∃ frames, tick.recv = .message frames ∧
        ((∃ s', deliver frames s = .ok s' ∧
          receive tick s = (s', .again true, [.consumed frames])) ∨
        ∃ e, deliver frames s = .error e ∧
          receive tick s = (s, .throw e, [.consumed frames])) := by
    cases taken : tick.recv with
    | empty => exact .inl ⟨.again false, by simp [receive, taken]⟩
    | threw => exact .inl ⟨.throw .zmqError, by simp [receive, taken]⟩
    | message frames =>
      refine .inr ⟨frames, rfl, ?_⟩
      cases result : deliver frames s with
      | ok s' => exact .inl ⟨s', rfl, by simp [receive, taken, result]⟩
      | error e => exact .inr ⟨e, rfl, by simp [receive, taken, result]⟩
  by_cases done : (!call.toget && decide ((s.memory call.controller).rcode ≠ .working)) = true
  · exact ⟨[], by simp, .inl ⟨.leave, by rw [iteration, if_pos done]⟩⟩
  by_cases late : tick.now - call.start > call.timeout
  · exact ⟨[], by simp, .inl ⟨.leave, by rw [iteration, if_neg done, if_pos late]⟩⟩
  by_cases toget : call.toget = true
  · refine ⟨[], by simp, ?_⟩
    rw [iteration, if_neg done, if_neg late, if_pos toget]
    exact reading
  refine ⟨[.polled (call.timeout - (tick.now - call.start))], by simp, ?_⟩
  rw [iteration, if_neg done, if_neg late, if_neg toget]
  cases tick.poll with
  | threw => exact .inl ⟨_, rfl⟩
  | silent => exact .inl ⟨_, rfl⟩
  | readable =>
    rcases reading with ⟨next, eq⟩ | ⟨frames, taken, ⟨s', result, eq⟩ | ⟨e, result, eq⟩⟩
    · exact .inl ⟨next, by simp [eq]⟩
    · exact .inr ⟨frames, taken, .inl ⟨s', result, by simp [eq]⟩⟩
    · exact .inr ⟨frames, taken, .inr ⟨e, result, by simp [eq]⟩⟩

theorem iteration_unreturned (call : RecvCall) (tick : Tick) (s : Client) (c : Ptr)
    (p : Option Bytes) : .returned c p ∉ (iteration call tick s).2.2 := by
  obtain ⟨polls, polled, shape⟩ := iteration_cases call tick s
  have quiet : .returned c p ∉ polls := by
    intro member
    obtain ⟨_, same⟩ := polled _ member
    cases same
  rcases shape with ⟨_, it⟩ | ⟨_, _, ⟨_, _, it⟩ | ⟨_, _, it⟩⟩
  · rw [it]
    exact quiet
  · rw [it]
    simp [quiet]
  · rw [it]
    simp [quiet]

/-- The three ways out of the loop of `ZRecvMethod` that return. -/
theorem iteration_leave (call : RecvCall) (tick : Tick) (s s' : Client) (events : List Event)
    (leaves : iteration call tick s = (s', .leave, events)) :
    s' = s ∧ ((s.memory call.controller).rcode ≠ .working ∧ call.toget = false ∨
      tick.now - call.start > call.timeout ∨ call.toget = false ∧ tick.poll = .silent) := by
  have stays : ∀ s'' events', receive tick s ≠ (s'', .leave, events') := by
    intro s'' events' eq
    unfold receive at eq
    split at eq
    · simp at eq
    · simp at eq
    · split at eq <;> simp at eq
  unfold iteration at leaves
  split at leaves
  · rename_i done
    simp only [Bool.and_eq_true, Bool.not_eq_true', decide_eq_true_eq] at done
    exact ⟨(Prod.mk.inj leaves).1.symm, .inl ⟨done.2, done.1⟩⟩
  · simp only at leaves
    split at leaves
    · rename_i late
      exact ⟨(Prod.mk.inj leaves).1.symm, .inr (.inl late)⟩
    · split at leaves
      · exact absurd leaves (stays _ _)
      · rename_i toget
        split at leaves
        · simp at leaves
        · rename_i silent
          exact ⟨(Prod.mk.inj leaves).1.symm, .inr (.inr ⟨Bool.eq_false_iff.mpr toget, silent⟩)⟩
        · rcases eq : receive tick s with ⟨s'', next, events'⟩
          simp only [eq, Prod.mk.injEq] at leaves
          exact absurd (leaves.2.1 ▸ eq) (stays _ _)

/-- The events of an iteration besides the message it read. -/
def Event.Around : Event → Prop
  | .polled _ | .returned _ _ | .threw _ _ => True
  | _ => False

section Notes

variable {N : Type} {note : Event → Option N} (unnoted : ∀ e, e.Around → note e = none)
include unnoted

theorem filterMap_around {events : List Event} (around : ∀ e ∈ events, e.Around) :
    events.filterMap note = [] :=
  List.filterMap_eq_nil_iff.mpr fun e member => unnoted e (around e member)

/-- The note taken of a message is all that is noted of the iteration that reads it. -/
theorem filterMap_consumed {before after : List Event} (frames : FramesT)
    (around : ∀ e ∈ before ++ after, e.Around) :
    (before ++ .consumed frames :: after).filterMap note = (note (.consumed frames)).toList := by
  rw [List.filterMap_append, List.filterMap_cons,
    filterMap_around unnoted fun e member => around e (List.mem_append_left _ member),
    filterMap_around unnoted fun e member => around e (List.mem_append_right _ member)]
  cases note (.consumed frames) with
  | none => rfl
  | some taken => rfl

end Notes

namespace Session

/-- Everything a `ZSendMethod` step does. -/
theorem step_send (s next : Session) (c : Ptr) (fullName : Bytes) (request : Serialized)
    (outcome : Nat → SendOutcome) (emitted : List Event)
    (fired : s.step (.send c fullName request outcome) = some (next, emitted)) :
    s.call = none ∧ next.call = none ∧
    ((∃ buffer, request = .bytes buffer ∧ Accepts outcome 4 ∧
        next.client = s.client.outstanding c ∧
        emitted = [.wire (s.client.channel.pending ++
          requestFrames s.client.nextid fullName buffer), .sent c s.client.nextid]) ∨
      (¬Succeeds request outcome ∧ emitted = [.failed c] ∧ ∃ channel code,
        next.client = { s.client with channel }.fail c code ∧
        channel.replylist = s.client.channel.replylist ∧
        (channel.nextreply = s.client.channel.nextreply ∨
          channel.nextreply = s.client.nextid))) := by
  simp only [step] at fired
  split at fired
  · cases fired
  · rename_i idle
    refine ⟨idle, ?_⟩
    by_cases succeeds : Succeeds request outcome
    · obtain ⟨⟨buffer, rfl⟩, accepts⟩ := succeeds
      rw [zSendMethod_succeeds fullName c buffer outcome s.client accepts] at fired
      obtain ⟨rfl, rfl⟩ := Prod.mk.inj (Option.some.inj fired)
      exact ⟨rfl, .inl ⟨buffer, rfl, accepts, rfl, rfl⟩⟩
    · obtain ⟨channel, code, same, entries, counter⟩ :=
        zSendMethod_fails fullName c request outcome s.client succeeds
      rw [same] at fired
      obtain ⟨rfl, rfl⟩ := Prod.mk.inj (Option.some.inj fired)
      exact ⟨rfl, .inr ⟨succeeds, rfl, channel, code, rfl, entries, counter⟩⟩

theorem step_recv (s next : Session) (c : Ptr) (timeout start : Int) (emitted : List Event)
    (fired : s.step (.recv c timeout start) = some (next, emitted)) :
    s.call = none ∧ next = ⟨s.client, some (recvCall c timeout start)⟩ ∧ emitted = [] := by
  simp only [step] at fired
  split at fired
  · cases fired
  · rename_i idle
    obtain ⟨rfl, rfl⟩ := Prod.mk.inj (Option.some.inj fired)
    exact ⟨idle, rfl, rfl⟩

/-- Everything one iteration of `ZRecvMethod` does. -/
theorem step_tick (s next : Session) (t : Tick) (emitted : List Event)
    (fired : s.step (.tick t) = some (next, emitted)) :
    ∃ before after, (∀ e ∈ before ++ after, e.Around) ∧
      ((next.client = s.client ∧ emitted = before ++ after) ∨
      ∃ frames, t.recv = .message frames ∧ emitted = before ++ .consumed frames :: after ∧
        ((∃ id c, Answers id frames ∧ id ≤ s.client.channel.nextreply ∧
          s.client.channel.replylist.lookup id = some c ∧
          next.client = s.client.ready id c (frames.getD 3 [])) ∨
        (∀ id c, Answers id frames → id ≤ s.client.channel.nextreply →
          s.client.channel.replylist.lookup id ≠ some c) ∧ next.client = s.client)) := by
  simp only [step] at fired
  split at fired
  · cases fired
  · rename_i call _
    -- what the step adds behind the events of the iteration
    have added : ∃ after, (∀ e ∈ after, e.Around) ∧
        next.client = (iteration call t s.client).1 ∧
        emitted = (iteration call t s.client).2.2 ++ after := by
      split at fired
      all_goals
        rename_i client events eq
        obtain ⟨rfl, rfl⟩ := Prod.mk.inj (Option.some.inj fired)
        rw [eq]
      · exact ⟨[], by simp, rfl, by simp⟩
      · exact ⟨[_], by simp [Event.Around], rfl, rfl⟩
      · exact ⟨[_], by simp [Event.Around], rfl, rfl⟩
    obtain ⟨after, afterAround, same, eq⟩ := added
    obtain ⟨polls, polled, shape⟩ := iteration_cases call t s.client
    have polledAround : ∀ e ∈ polls, e.Around := by
      intro e member
      obtain ⟨wait, rfl⟩ := polled e member
      trivial
    refine ⟨polls, after, ?_, ?_⟩
    · intro e member
      rcases List.mem_append.mp member with h | h
      · exact polledAround e h
      · exact afterAround e h
    · rcases shape with ⟨_, it⟩ | ⟨frames, taken, ⟨s', result, it⟩ | ⟨e, result, it⟩⟩
      · rw [it] at same eq
        exact .inl ⟨same, eq⟩
      · rw [it] at same eq
        refine .inr ⟨frames, taken, by simpa using eq, ?_⟩
        rcases deliver_cases frames s.client with
          ⟨id, c, answers, known, entry, ok⟩ | ⟨silent, quiet⟩
        · exact .inl ⟨id, c, answers, known, entry,
            same.trans (Except.ok.inj (result.symm.trans ok))⟩
        · refine .inr ⟨silent, same.trans ?_⟩
          rcases quiet with quiet | ⟨e, quiet⟩
          · exact Except.ok.inj (result.symm.trans quiet)
          · exact absurd (result.symm.trans quiet) (by simp)
      · rw [it] at same eq
        refine .inr ⟨frames, taken, by simpa using eq, .inr ⟨?_, same⟩⟩
        rcases deliver_cases frames s.client with ⟨id, c, _, _, _, ok⟩ | ⟨silent, _⟩
        · exact absurd (result.symm.trans ok) (by simp)
        · exact silent

/-- What `ZRecvMethod` does with the message it consumes. -/
theorem step_consumed (s next : Session) (t : Tick) (emitted : List Event) (frames : FramesT)
    (fired : s.step (.tick t) = some (next, emitted)) (member : .consumed frames ∈ emitted) :
    t.recv = .message frames ∧
    (deliver frames s.client = .ok next.client ∨
    ∃ call e, s.call = some call ∧ deliver frames s.client = .error e ∧
      next.client = s.client ∧ .threw call.controller e ∈ emitted) := by
  simp only [step] at fired
  split at fired
  · cases fired
  · rename_i call calling
    obtain ⟨polls, polled, shape⟩ := iteration_cases call t s.client
    have unread : .consumed frames ∉ polls := fun h => by
      obtain ⟨wait, same⟩ := polled _ h
      cases same
    rcases shape with ⟨way, it⟩ | ⟨frames', taken, ⟨s', result, it⟩ | ⟨e, result, it⟩⟩
    · rw [it] at fired
      cases way <;> obtain ⟨rfl, rfl⟩ := Prod.mk.inj (Option.some.inj fired) <;>
        simp [unread] at member
    · rw [it] at fired
      obtain ⟨rfl, rfl⟩ := Prod.mk.inj (Option.some.inj fired)
      obtain rfl : frames = frames' := by simpa [unread] using member
      exact ⟨taken, .inl result⟩
    · rw [it] at fired
      obtain ⟨rfl, rfl⟩ := Prod.mk.inj (Option.some.inj fired)
      obtain rfl : frames = frames' := by simpa [unread] using member
      exact ⟨taken, .inr ⟨call, e, calling, result, rfl, by simp⟩⟩

/-- A call returns without having read anything in its last iteration, for one of
the three reasons the loop has. -/
theorem step_returned (s next : Session) (input : Input) (emitted : List Event) (c : Ptr)
    (p : Option Bytes) (fired : s.step input = some (next, emitted))
    (member : .returned c p ∈ emitted) :
    ∃ call t, input = .tick t ∧ s.call = some call ∧ call.controller = c ∧
      next = ⟨s.client, none⟩ ∧ p = parsed (s.client.memory c) ∧
      ((s.client.memory c).rcode ≠ .working ∧ call.toget = false ∨
        t.now - call.start > call.timeout ∨ call.toget = false ∧ t.poll = .silent) := by
  cases input with
  | send c' fullName request outcome =>
    obtain ⟨_, _, ⟨_, _, _, _, rfl⟩ | ⟨_, rfl, _⟩⟩ := step_send s next c' _ _ _ _ fired
    · simp at member
    · simp at member
  | recv c' timeout start =>
    obtain ⟨_, _, rfl⟩ := step_recv s next c' _ _ _ fired
    simp at member
  | tick t =>
    simp only [step] at fired
    split at fired
    · cases fired
    · rename_i call calling
      have absent := iteration_unreturned call t s.client c p
      split at fired
      · rename_i it
        obtain ⟨rfl, rfl⟩ := Prod.mk.inj (Option.some.inj fired)
        rw [it] at absent
        exact absurd member absent
      · rename_i client events it
        obtain ⟨rfl, rfl⟩ := Prod.mk.inj (Option.some.inj fired)
        rw [it] at absent
        have last : Event.returned c p =
            .returned call.controller (parsed (client.memory call.controller)) := by
          rcases List.mem_append.mp member with h | h
          · exact absurd h absent
          · exact List.mem_singleton.mp h
        obtain ⟨rfl, rfl⟩ := Event.returned.inj last
        obtain ⟨rfl, why⟩ := iteration_leave call t s.client client _ it
        exact ⟨call, t, rfl, calling, rfl, rfl, rfl, why⟩
      · rename_i it
        obtain ⟨rfl, rfl⟩ := Prod.mk.inj (Option.some.inj fired)
        rw [it] at absent
        rcases List.mem_append.mp member with h | h
        · exact absurd h absent
        · simp at h

end Session

end Zqrpc
