import Zqrpc.ChannelReplies

/-! `replylist_` and the status of the controllers. When no request is sent over one that
still waits, the entries are the requests that wait. -/
namespace Zqrpc

open Numeral Steps

/-- `ZSendMethod` is not called on a controller that waits for a reply. -/
def Unworked (s : Session) : Input → Prop
  | .send c .. => (s.client.memory c).rcode ≠ .working
  | _ => True

instance (s : Session) : (input : Input) → Decidable (Unworked s input)
  | .send c _ _ _ => inferInstanceAs (Decidable ((s.client.memory c).rcode ≠ .working))
  | .recv _ _ _ => isTrue trivial
  | .tick _ => isTrue trivial

/-- The id a step takes from the counter, and the controller it is for. -/
def taken (s : Session) : Input → List (Nat × Ptr)
  | .send c _ (.bytes _) _ => [(s.client.nextid, c)]
  | _ => []

/-- The requests an id was issued to, also those whose frames the socket did not take. -/
def takenRequests : List Input → Session → List (Nat × Ptr) := along taken Session.step

/-- No id was issued twice, and the counter is past all of them. -/
structure Issues (requests : List (Nat × Ptr)) (nextreply : Nat) : Prop where
  range : ∀ request ∈ requests, 1 ≤ request.1 ∧ request.1 ≤ nextreply
  distinct : (requests.map Prod.fst).Nodup

/-- The entries are issued requests, and there is one for each controller that waits. -/
structure Represents (requests : List (Nat × Ptr)) (s : Client) : Prop where
  held : Held s
  entered : ∀ c, (s.memory c).rcode = .working → s.Refers c
  issued : ∀ id c, s.channel.replylist.lookup id = some c → (id, c) ∈ requests

theorem zSendMethod_counts (fullName : Bytes) (c : Ptr) (buffer : Bytes)
    (outcome : Nat → SendOutcome) (s : Client) :
    (zSendMethod fullName c (.bytes buffer) outcome s).1.channel.nextreply = s.nextid := by
  rcases accepts_or_first_failure outcome 4 with all | ⟨k, bound, before, fails⟩
  · rw [zSendMethod_succeeds fullName c buffer outcome s all]
    rfl
  · rw [zSendMethod_unsent fullName c buffer outcome s k bound before fails]
    rfl

/-- An id that a step takes is the value of the counter after it. -/
theorem taken_nextreply (s next : Session) (input : Input) (emitted : List Event)
    (fired : s.step input = some (next, emitted)) (request : Nat × Ptr)
    (member : request ∈ taken s input) : input.SendsOn request.2 ∧
    request.1 = s.client.nextid ∧ next.client.channel.nextreply = s.client.nextid := by
  match input with
  | .send c fullName (.bytes buffer) outcome =>
    simp only [Session.step] at fired
    split at fired
    · cases fired
    · obtain ⟨rfl, _⟩ := Prod.mk.inj (Option.some.inj fired)
      rw [List.mem_singleton.mp member]
      exact ⟨rfl, rfl, zSendMethod_counts fullName c buffer outcome s.client⟩
  | .send _ _ .failed _ => cases member
  | .send _ _ .threw _ => cases member
  | .recv _ _ _ => cases member
  | .tick _ => cases member

/-- The counter does not come round in this step. -/
def Fits (s : Session) (input : Input) : Prop :=
  ∀ c, input.SendsOn c → s.client.nextid = s.client.channel.nextreply + 1

theorem step_nextreply_grows (s next : Session) (input : Input) (emitted : List Event)
    (fits : Fits s input)
    (fired : s.step input = some (next, emitted)) :
    s.client.channel.nextreply ≤ next.client.channel.nextreply := by
  cases input with
  | send c fullName request outcome =>
    obtain ⟨_, _, ⟨_, _, _, same, _⟩ | ⟨_, _, channel, code, same, _, counter⟩⟩ :=
      s.step_send next c fullName request outcome emitted fired
    · rw [same, Client.outstanding_nextreply, fits c rfl]
      exact Nat.le_succ _
    · rw [same, Client.fail_channel]
      change s.client.channel.nextreply ≤ channel.nextreply
      have := fits c rfl
      rcases counter with h | h <;> omega
  | recv c timeout start =>
    obtain ⟨_, rfl, _⟩ := s.step_recv next c timeout start emitted fired
    exact le_refl _
  | tick t =>
    obtain ⟨_, _, _, ⟨same, _⟩ | ⟨_, _, _, ⟨_, _, _, _, _, same⟩ | ⟨_, same⟩⟩⟩ :=
      s.step_tick next t emitted fired
    all_goals rw [same]
    exact le_refl _

theorem taken_at_most_one (s : Session) (input : Input) :
    taken s input = [] ∨ ∃ c, taken s input = [(s.client.nextid, c)] := by
  match input with
  | .send c _ (.bytes _) _ => exact .inr ⟨c, rfl⟩
  | .send _ _ .failed _ => exact .inl rfl
  | .send _ _ .threw _ => exact .inl rfl
  | .recv _ _ _ => exact .inl rfl
  | .tick _ => exact .inl rfl

theorem issues_step {requests : List (Nat × Ptr)} {s next : Session} {input : Input}
    {emitted : List Event} (issues : Issues requests s.client.channel.nextreply)
    (fits : Fits s input) (fired : s.step input = some (next, emitted)) :
    Issues (requests ++ taken s input) next.client.channel.nextreply := by
  have grows := step_nextreply_grows s next input emitted fits fired
  constructor
  · intro request member
    rcases List.mem_append.mp member with old | new
    · have := issues.range request old
      omega
    · obtain ⟨sends, id, counter⟩ := taken_nextreply s next input emitted fired request new
      have := fits _ sends
      omega
  · rw [List.map_append]
    refine List.nodup_append.mpr ⟨issues.distinct, ?_, ?_⟩
    · rcases taken_at_most_one s input with none | ⟨c, one⟩
      · simp [none]
      · simp [one]
    · intro id old id' new
      obtain ⟨request, member, rfl⟩ := List.mem_map.mp old
      obtain ⟨request', member', rfl⟩ := List.mem_map.mp new
      obtain ⟨sends, id, _⟩ := taken_nextreply s next input emitted fired request' member'
      have := issues.range request member
      have := fits _ sends
      omega

theorem represents_sent {requests : List (Nat × Ptr)} {s : Client} (c : Ptr)
    (represents : Represents requests s) (free : ¬s.Refers c)
    (unused : ∀ request ∈ requests, request.1 ≠ s.nextid) :
    Represents (requests ++ [(s.nextid, c)]) (s.outstanding c) := by
  refine ⟨represents.held.outstanding free, fun other waits => ?_, fun id other entry => ?_⟩
  · by_cases own : other = c
    · subst other
      exact ⟨s.nextid, by simp⟩
    · rw [Client.outstanding_other _ _ _ own] at waits
      obtain ⟨id, entry⟩ := represents.entered other waits
      have apart : id ≠ s.nextid := unused _ (represents.issued id other entry)
      exact ⟨id, by rw [Client.outstanding_replylist, Finmap.lookup_insert_of_ne _ apart, entry]⟩
  · rcases Client.outstanding_entry entry with ⟨rfl, rfl⟩ | ⟨_, old⟩
    · simp
    · exact List.mem_append_left _ (represents.issued id other old)

theorem represents_failed {requests : List (Nat × Ptr)} {s : Client} (c : Ptr)
    (represents : Represents requests s) (free : ¬s.Refers c) (channel : RpcChannel)
    (code : ErrorCodeE) (entries : channel.replylist = s.channel.replylist) :
    Represents requests ({ s with channel }.fail c code) := by
  refine ⟨represents.held.fail free entries code, fun other waits => ?_, fun id other entry => ?_⟩
  · have different : other ≠ c := by
      rintro rfl
      rw [Client.fail_rcode] at waits
      cases waits
    rw [Client.fail_other _ _ _ _ different] at waits
    obtain ⟨id, entry⟩ := represents.entered other waits
    exact ⟨id, by rw [Client.fail_channel, entries, entry]⟩
  · rw [Client.fail_channel, entries] at entry
    exact represents.issued id other entry

theorem represents_ready {requests : List (Nat × Ptr)} {s : Client} (id : Nat) (c : Ptr)
    (payload : Bytes) (represents : Represents requests s)
    (entry : s.channel.replylist.lookup id = some c) :
    Represents requests (s.ready id c payload) := by
  refine ⟨represents.held.ready entry payload, fun other waits => ?_, fun k other left' => ?_⟩
  · have different : other ≠ c := by
      rintro rfl
      simp at waits
    rw [Client.ready_other _ _ _ _ _ different] at waits
    obtain ⟨k, mine⟩ := represents.entered other waits
    have apart : k ≠ id := by
      rintro rfl
      exact different (Option.some.inj (mine.symm.trans entry))
    exact ⟨k, by rw [Client.ready_replylist, Finmap.lookup_erase_ne apart, mine]⟩
  · exact represents.issued k other (Client.ready_entry left').2

theorem represents_step {requests : List (Nat × Ptr)} {s next : Session} {input : Input}
    {emitted : List Event} (represents : Represents requests s.client)
    (issues : Issues requests s.client.channel.nextreply) (fits : Fits s input)
    (unworked : Unworked s input)
    (fired : s.step input = some (next, emitted)) :
    Represents (requests ++ taken s input) next.client := by
  cases input with
  | send c fullName request outcome =>
    have free : ¬s.client.Refers c := represents.held.not_refers unworked
    obtain ⟨_, _, ⟨buffer, rfl, _, same, _⟩ | ⟨_, _, channel, code, same, entries, _⟩⟩ :=
      s.step_send next c fullName request outcome emitted fired
    · rw [same]
      refine represents_sent c represents free fun earlier member => ?_
      have := issues.range earlier member
      have := fits c rfl
      omega
    · rw [same]
      have kept := represents_failed c represents free channel code entries
      exact ⟨kept.held, kept.entered, fun id other entry =>
        List.mem_append_left _ (kept.issued id other entry)⟩
  | recv c timeout start =>
    obtain ⟨_, rfl, _⟩ := s.step_recv next c timeout start emitted fired
    simpa [taken] using represents
  | tick t =>
    rw [show taken s (.tick t) = [] from rfl, List.append_nil]
    obtain ⟨_, _, _, ⟨same, _⟩ | ⟨_, _, _, ⟨id, c, _, _, entry, same⟩ | ⟨_, same⟩⟩⟩ :=
      s.step_tick next t emitted fired
    · exact same ▸ represents
    · rw [same]
      exact represents_ready id c _ represents entry
    · exact same ▸ represents

theorem run_represents (run : Path (Meeting Unworked (Fires Session.step)) {} inputs events s)
    (fewer : (senders inputs).length < sizeMod) :
    Represents (takenRequests inputs {}) s.client ∧
    Issues (takenRequests inputs {}) s.client.channel.nextreply ∧
    s.client.channel.nextreply ≤ (senders inputs).length := by
  induction run with
  | nil =>
    refine ⟨⟨⟨by simp, by simp⟩, by simp, by simp⟩, ⟨?_, ?_⟩, le_refl _⟩
    · simp [takenRequests, along]
    · simp [takenRequests, along]
  | @snoc inputs events s input emitted next earlier last ih =>
    rw [senders_append, List.length_append] at fewer
    obtain ⟨represents, issues, counted⟩ := ih (by omega)
    have fits : Fits s input := by
      intro c sends
      rw [sender_of_sendsOn sends] at fewer
      exact Nat.mod_eq_of_lt (Nat.lt_of_le_of_lt (Nat.succ_le_succ counted) fewer)
    have record : takenRequests (inputs ++ [input]) {} =
        takenRequests inputs {} ++ taken s input := by
      refine ((earlier.mono fun _ _ _ _ meets => meets.2).along_append [input]).trans ?_
      rw [along, show s.step input = some (next, emitted) from last.2]
      simp [takenRequests, along]
    rw [record]
    refine ⟨represents_step represents issues fits last.1 last.2,
      issues_step issues fits last.2, ?_⟩
    rw [senders_append, List.length_append]
    have := step_nextreply s next input emitted last.2
    omega

/-- A controller waits exactly when one entry points to it, and every entry has an id
that was issued once, to a request of its controller. -/
theorem replylist_represents
    (run : Path (Meeting Unworked (Fires Session.step)) {} inputs events s)
    (fewer : (senders inputs).length < 2 ^ 64) :
    (∀ c, (s.client.memory c).rcode = .working ↔
      ∃! id, s.client.channel.replylist.lookup id = some c) ∧
    (∀ id id' c, s.client.channel.replylist.lookup id = some c →
      s.client.channel.replylist.lookup id' = some c → id = id') ∧
    ∀ id c, s.client.channel.replylist.lookup id = some c →
      1 ≤ id ∧ id ≤ s.client.channel.nextreply ∧ (id, c) ∈ takenRequests inputs {} ∧
      ((takenRequests inputs {}).map Prod.fst).count id = 1 := by
  obtain ⟨represents, issues, _⟩ := run_represents run fewer
  refine ⟨fun c => ⟨fun waits => ?_, ?_⟩, represents.held.single, fun id c entry => ?_⟩
  · obtain ⟨id, entry⟩ := represents.entered c waits
    exact ⟨id, entry, fun k mine => represents.held.single k id c mine entry⟩
  · rintro ⟨id, entry, _⟩
    exact represents.held.working id c entry
  · have member := represents.issued id c entry
    obtain ⟨low, high⟩ := issues.range _ member
    refine ⟨low, high, member, List.count_eq_one_of_mem issues.distinct ?_⟩
    exact List.mem_map.mpr ⟨(id, c), member, rfl⟩

theorem replylist_represents_asked : ∃ events s,
    Path (Meeting Unworked (Fires Session.step)) {} asked events s ∧
    ((s.client.memory 0).rcode = .working ↔
      ∃! id, s.client.channel.replylist.lookup id = some 0) := by
  have run : ∃ events s, execute (restrict Unworked Session.step) asked {} = some (s, events) :=
    ⟨_, _, rfl⟩
  obtain ⟨events, s, run⟩ := run
  exact ⟨events, s, restrict_path run,
    (replylist_represents (restrict_path run) (by decide)).1 0⟩

end Zqrpc
