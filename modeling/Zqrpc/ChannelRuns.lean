import Zqrpc.RpcChannelRules
import Zqrpc.Path

/-! Runs of one channel against any peer: which reply a controller ends up with.
The history of a controller is read off the events alone. -/
namespace Zqrpc

open Numeral Steps

/-- One event in the history of `c`: the id of its last request left outstanding and
the messages consumed since. -/
def note (c : Ptr) (past : Option (Nat × List FramesT)) : Event → Option (Nat × List FramesT)
  | .sent c' id => if c' = c then some (id, []) else past
  | .consumed frames => past.map fun (id, messages) => (id, messages ++ [frames])
  | _ => past

def history (c : Ptr) (events : List Event) : Option (Nat × List FramesT) :=
  events.foldl (note c) none

def sentId : Event → Option Nat
  | .sent _ id => some id
  | _ => none

/-- The ids of the requests left outstanding, in the order they were sent. -/
def sentIds (events : List Event) : List Nat := events.filterMap sentId

@[simp] theorem sentIds_sent (frames : FramesT) (c : Ptr) (id : Nat) :
    sentIds [.wire frames, .sent c id] = [id] := rfl

@[simp] theorem sentIds_failed (c : Ptr) : sentIds [.failed c] = [] := rfl

theorem foldl_note_around (c : Ptr) (past : Option (Nat × List FramesT)) (events : List Event)
    (around : ∀ e ∈ events, e.Around) : events.foldl (note c) past = past := by
  induction events with
  | nil => rfl
  | cons e events ih =>
    have head := around e List.mem_cons_self
    rw [List.foldl_cons, show note c past e = past by cases e <;> first | rfl | exact head.elim]
    exact ih fun e member => around e (List.mem_cons_of_mem _ member)

theorem sentId_around (e : Event) (around : e.Around) : sentId e = none := by
  cases e <;> first | rfl | exact around.elim

theorem sentIds_around (events : List Event) (around : ∀ e ∈ events, e.Around) :
    sentIds events = [] :=
  filterMap_around sentId_around around

theorem history_append (c : Ptr) (events more : List Event) :
    history c (events ++ more) = more.foldl (note c) (history c events) := by
  simp [history, List.foldl_append]

theorem sentIds_append (events more : List Event) :
    sentIds (events ++ more) = sentIds events ++ sentIds more := by
  simp [sentIds, List.filterMap_append]

theorem sentIds_reading {before after : List Event} (frames : FramesT)
    (around : ∀ e ∈ before ++ after, e.Around) :
    sentIds (before ++ .consumed frames :: after) = [] :=
  filterMap_consumed sentId_around frames around

/-- What the events say of a controller and what the channel and the controller
say agree. -/
def Agrees (s : Client) (c : Ptr) : Option (Nat × List FramesT) → Prop
  | none => ¬s.Refers c ∧ (s.memory c).rcode ≠ .ready
  | some (id, messages) =>
    (s.channel.replylist.lookup id = some c ∧
      (∀ k, s.channel.replylist.lookup k = some c → k = id) ∧
      (s.memory c).rcode ≠ .ready ∧ messages.find? (fun m => Answers id m) = none) ∨
    (¬s.Refers c ∧ ((s.memory c).rcode = .ready → ∃ m,
      messages.find? (fun m => Answers id m) = some m ∧ (s.memory c).payload = m.getD 3 []))

structure Tracks (events : List Event) (s : Session) : Prop where
  bound : ∀ id c, s.client.channel.replylist.lookup id = some c →
    id ≤ s.client.channel.nextreply
  issued : ∀ id ∈ sentIds events, id ≤ s.client.channel.nextreply
  distinct : (sentIds events).Nodup
  agrees : ∀ c, Agrees s.client c (history c events)

/-- Requests are not sent over a request of the same controller that the channel
still waits for, and the counter does not come round. -/
def Unburdened (s : Session) : Input → Prop
  | .send c _ request outcome => s.client.channel.nextreply + 1 < sizeMod ∧
      (Succeeds request outcome → ¬s.client.Refers c)
  | _ => True

instance (s : Session) : (input : Input) → Decidable (Unburdened s input)
  | .send c _ request outcome =>
    inferInstanceAs (Decidable (s.client.channel.nextreply + 1 < sizeMod ∧
      (Succeeds request outcome → ¬s.client.Refers c)))
  | .recv _ _ _ => isTrue trivial
  | .tick _ => isTrue trivial

theorem tracks_initial : Tracks [] {} where
  bound := by simp
  issued := by simp [sentIds]
  distinct := by simp [sentIds]
  agrees := by simp [Agrees, history, Client.Refers]

/-- Agreement looks at the entries for `c` and at `c` only. -/
theorem Agrees.transport {s s' : Client} {c : Ptr} {past : Option (Nat × List FramesT)}
    (agrees : Agrees s c past)
    (entries : ∀ k, s'.channel.replylist.lookup k = some c ↔ s.channel.replylist.lookup k = some c)
    (memory : s'.memory c = s.memory c) : Agrees s' c past := by
  have refers : s'.Refers c ↔ s.Refers c := exists_congr entries
  cases past with
  | none => simpa only [Agrees, refers, memory] using agrees
  | some past => simpa only [Agrees, refers, memory, entries] using agrees

/-- A message that does not answer the outstanding request of `c` is no news. -/
theorem Agrees.extend {s : Client} {c : Ptr} {past : Option (Nat × List FramesT)}
    (agrees : Agrees s c past) (frames : FramesT)
    (silent : ∀ id, s.channel.replylist.lookup id = some c → ¬Answers id frames) :
    Agrees s c (past.map fun (id, messages) => (id, messages ++ [frames])) := by
  cases past with
  | none => exact agrees
  | some past =>
    obtain ⟨id, messages⟩ := past
    rcases agrees with ⟨entry, only, waiting, unanswered⟩ | ⟨free, answered⟩
    · left
      refine ⟨entry, only, waiting, ?_⟩
      rw [List.find?_append, unanswered]
      simp [silent id entry]
    · right
      refine ⟨free, fun ready => ?_⟩
      obtain ⟨m, found, payload⟩ := answered ready
      exact ⟨m, by rw [List.find?_append, found]; rfl, payload⟩

/-- The message that answers the outstanding request of `c` is the first to do so. -/
theorem Agrees.answer {s : Client} {c : Ptr} {past : Option (Nat × List FramesT)} {id : Nat}
    {frames : FramesT} (agrees : Agrees s c past)
    (entry : s.channel.replylist.lookup id = some c) (answers : Answers id frames) :
    Agrees (s.ready id c (frames.getD 3 [])) c
      (past.map fun (id, messages) => (id, messages ++ [frames])) := by
  cases past with
  | none => exact absurd ⟨id, entry⟩ agrees.1
  | some past =>
    obtain ⟨id', messages⟩ := past
    rcases agrees with ⟨_, only, _, unanswered⟩ | ⟨free, _⟩
    · obtain rfl := only id entry
      right
      refine ⟨?_, fun _ => ⟨frames, ?_, by simp⟩⟩
      · rintro ⟨k, left'⟩
        obtain ⟨apart, old⟩ := Client.ready_entry left'
        exact apart (only k old)
      · rw [List.find?_append, unanswered]
        simp [answers]
    · exact absurd ⟨id, entry⟩ free

theorem tracks_tick (events : List Event) (s next : Session) (t : Tick) (emitted : List Event)
    (tracks : Tracks events s) (fired : s.step (.tick t) = some (next, emitted)) :
    Tracks (events ++ emitted) next := by
  obtain ⟨before, after, around, ⟨same, rfl⟩ | ⟨frames, _, rfl, result⟩⟩ :=
    s.step_tick next t emitted fired
  · refine ⟨same ▸ tracks.bound, ?_, ?_, fun c => ?_⟩
    · rw [sentIds_append, sentIds_around _ around, List.append_nil, same]
      exact tracks.issued
    · rw [sentIds_append, sentIds_around _ around, List.append_nil]
      exact tracks.distinct
    · rw [history_append, foldl_note_around c _ _ around, same]
      exact tracks.agrees c
  have ids : sentIds (events ++ (before ++ .consumed frames :: after)) = sentIds events := by
    rw [sentIds_append, sentIds_reading frames around, List.append_nil]
  have past (c : Ptr) : history c (events ++ (before ++ .consumed frames :: after)) =
      (history c events).map fun (id, messages) => (id, messages ++ [frames]) := by
    rw [history_append, List.foldl_append, List.foldl_cons,
      foldl_note_around c _ before fun e h => around e (List.mem_append_left _ h),
      foldl_note_around c _ after fun e h => around e (List.mem_append_right _ h)]
    rfl
  rcases result with ⟨id, c₀, answers, _, entry, same⟩ | ⟨silent, same⟩
  · refine ⟨?_, ?_, by rw [ids]; exact tracks.distinct, fun c => ?_⟩
    · intro k c kept
      rw [same] at kept ⊢
      exact tracks.bound k c (Client.ready_entry kept).2
    · rw [ids, same]
      exact tracks.issued
    · rw [past, same]
      by_cases own : c = c₀
      · subst c
        exact (tracks.agrees c₀).answer entry answers
      · -- the entry that goes is not one of `c`
        have apart (k : Nat) (mine : s.client.channel.replylist.lookup k = some c) : k ≠ id := by
          intro erased
          rw [erased, entry] at mine
          exact own (Option.some.inj mine).symm
        refine ((tracks.agrees c).extend frames fun k mine answersToo =>
          apart k mine (answersToo.unique answers)).transport (fun k => ?_) (by simp [own])
        constructor
        · exact fun kept => (Client.ready_entry kept).2
        · intro mine
          rw [Client.ready_replylist, Finmap.lookup_erase_ne (apart k mine)]
          exact mine
  · refine ⟨same ▸ tracks.bound, ?_, by rw [ids]; exact tracks.distinct, fun c => ?_⟩
    · rw [ids, same]
      exact tracks.issued
    · rw [past, same]
      exact (tracks.agrees c).extend frames fun id entry answers =>
        silent id c answers (tracks.bound id c entry) entry

theorem tracks_sent (events : List Event) (s next : Session) (c₀ : Ptr) (frames : FramesT)
    (tracks : Tracks events s) (fits : s.client.channel.nextreply + 1 < sizeMod)
    (free : ¬s.client.Refers c₀) (same : next.client = s.client.outstanding c₀) :
    Tracks (events ++ [.wire frames, .sent c₀ s.client.nextid]) next := by
  have fresh : s.client.nextid = s.client.channel.nextreply + 1 := Nat.mod_eq_of_lt fits
  have unused (k : Nat) (c : Ptr) (old : s.client.channel.replylist.lookup k = some c) :
      k ≠ s.client.nextid := by
    have := tracks.bound k c old
    omega
  constructor
  · intro k c entry
    rw [same] at entry ⊢
    rcases Client.outstanding_entry entry with ⟨rfl, _⟩ | ⟨_, old⟩
    · exact le_refl _
    · have := tracks.bound k c old
      simp only [Client.outstanding_nextreply]
      omega
  · intro k issued
    rw [same, Client.outstanding_nextreply]
    rw [sentIds_append] at issued
    rcases List.mem_append.mp issued with old | new
    · have := tracks.issued k old
      omega
    · simp only [sentIds_sent, List.mem_singleton] at new
      omega
  · rw [sentIds_append]
    refine List.nodup_append.mpr ⟨tracks.distinct, by simp, ?_⟩
    intro k old k' new
    have := tracks.issued k old
    simp only [sentIds_sent, List.mem_singleton] at new
    omega
  · intro c
    rw [history_append, same]
    by_cases own : c = c₀
    · subst c
      simp only [List.foldl_cons, List.foldl_nil, note, if_true]
      left
      refine ⟨by simp, fun k entry => ?_, by simp, rfl⟩
      rcases Client.outstanding_entry entry with ⟨new, _⟩ | ⟨_, old⟩
      · exact new
      · exact absurd ⟨k, old⟩ free
    · simp only [List.foldl_cons, List.foldl_nil, note, if_neg (Ne.symm own)]
      refine (tracks.agrees c).transport (fun k => ?_) (by simp [own])
      constructor
      · intro entry
        rcases Client.outstanding_entry entry with ⟨_, new⟩ | ⟨_, old⟩
        · exact absurd new own
        · exact old
      · intro old
        rw [Client.outstanding_replylist, Finmap.lookup_insert_of_ne _ (unused k c old)]
        exact old

theorem tracks_failed (events : List Event) (s next : Session) (c₀ : Ptr) (channel : RpcChannel)
    (code : ErrorCodeE) (tracks : Tracks events s)
    (same : next.client = { s.client with channel }.fail c₀ code)
    (entries : channel.replylist = s.client.channel.replylist)
    (grows : s.client.channel.nextreply ≤ channel.nextreply) :
    Tracks (events ++ [.failed c₀]) next := by
  have failed : next.client.channel = channel := by rw [same, Client.fail_channel]
  have table : next.client.channel.replylist = s.client.channel.replylist := by
    rw [failed, entries]
  constructor
  · intro k c entry
    rw [table] at entry
    rw [failed]
    exact (tracks.bound k c entry).trans grows
  · intro k issued
    rw [failed]
    rw [sentIds_append] at issued
    exact (tracks.issued k (by simpa using issued)).trans grows
  · rw [sentIds_append]
    simpa using tracks.distinct
  · intro c
    rw [history_append]
    simp only [List.foldl_cons, List.foldl_nil, note]
    by_cases own : c = c₀
    · subst c
      have error : (next.client.memory c₀).rcode = .error := by rw [same, Client.fail_rcode]
      have refers : next.client.Refers c₀ ↔ s.client.Refers c₀ := by
        simp only [Client.Refers, table]
      have before := tracks.agrees c₀
      cases past : history c₀ events with
      | none =>
        rw [past] at before
        exact ⟨fun h => before.1 (refers.mp h), by simp [error]⟩
      | some past' =>
        rw [past] at before
        rcases before with ⟨entry, only, _, unanswered⟩ | ⟨free, _⟩
        · left
          rw [table]
          exact ⟨entry, only, by simp [error], unanswered⟩
        · right
          exact ⟨fun h => free (refers.mp h), by simp [error]⟩
    · refine (tracks.agrees c).transport (fun k => by rw [table]) ?_
      rw [same, Client.fail_other _ _ _ _ own]

theorem tracks_step (events : List Event) (s next : Session) (input : Input)
    (emitted : List Event) (tracks : Tracks events s) (unburdened : Unburdened s input)
    (fired : s.step input = some (next, emitted)) : Tracks (events ++ emitted) next := by
  cases input with
  | tick t => exact tracks_tick events s next t emitted tracks fired
  | recv c timeout start =>
    obtain ⟨_, rfl, rfl⟩ := s.step_recv next c timeout start emitted fired
    rw [List.append_nil]
    exact ⟨tracks.bound, tracks.issued, tracks.distinct, tracks.agrees⟩
  | send c fullName request outcome =>
    obtain ⟨fits, idle⟩ := unburdened
    obtain ⟨_, _, ⟨buffer, rfl, accepts, same, rfl⟩ |
      ⟨_, rfl, channel, code, same, entries, counter⟩⟩ :=
      s.step_send next c fullName request outcome emitted fired
    · exact tracks_sent events s next c _ tracks fits (idle ⟨⟨buffer, rfl⟩, accepts⟩) same
    · have fresh : s.client.nextid = s.client.channel.nextreply + 1 := Nat.mod_eq_of_lt fits
      apply tracks_failed events s next c channel code tracks same entries
      rcases counter with h | h <;> omega

/-- In every run whose sends are unburdened the events tell the state. -/
theorem run_tracks (run : Path (Meeting Unburdened (Fires Session.step)) {} inputs events s) :
    Tracks events s :=
  run.invariant (fun _ events s => Tracks events s)
    (fun _ events s input emitted next tracks fired =>
      tracks_step events s next input emitted tracks fired.1 fired.2)
    tracks_initial

/-- One request and the call that is to receive its reply. -/
def asked : List Input := [.send 0 (ascii "m") (.bytes []) acceptAll, .recv 0 100 0]

end Zqrpc
