import Zqrpc.ChannelReplies

/-! `reqno_` among the requests that are outstanding together. It is the size of
`replylist_` when the request was sent, and every reply makes the size smaller. -/
namespace Zqrpc

open Numeral Steps

/-- Controllers whose requests are outstanding have different numbers. -/
def ToldApart (s : Client) : Prop :=
  ∀ id id' c c', s.channel.replylist.lookup id = some c →
    s.channel.replylist.lookup id' = some c' → c ≠ c' → (s.memory c).reqno ≠ (s.memory c').reqno

/-- No request that stays outstanding beside a request of `c` sent now has the number that
`ZSendMethod` gives to `c`. -/
def NumberFree (s : Client) (c : Ptr) : Prop :=
  ∀ id other, id ≠ s.nextid → s.channel.replylist.lookup id = some other → other ≠ c →
    (s.memory other).reqno ≠ s.channel.replylist.keys.card

/-- A request whose frames are all taken finds its number free. -/
def TakesFreeNumber (s : Session) : Input → Prop
  | .send c _ request outcome => Succeeds request outcome → NumberFree s.client c
  | _ => True

theorem outstanding_reqno (s : Client) (c : Ptr) :
    ((s.outstanding c).memory c).reqno = s.channel.replylist.keys.card := by
  simp [Client.outstanding]

theorem toldApart_outstanding {s : Client} (apart : ToldApart s) (c : Ptr) :
    ToldApart (s.outstanding c) ↔ NumberFree s c := by
  constructor
  · intro told id other old entry different
    have kept : (s.outstanding c).channel.replylist.lookup id = some other := by
      rw [Client.outstanding_replylist, Finmap.lookup_insert_of_ne _ old, entry]
    have new : (s.outstanding c).channel.replylist.lookup s.nextid = some c := by simp
    have numbers := told id s.nextid other c kept new different
    rwa [outstanding_reqno, Client.outstanding_other _ _ _ different] at numbers
  · intro free id id' a b entry entry' different
    have older (id : Nat) (other : Ptr) (own : other ≠ c)
        (entry : (s.outstanding c).channel.replylist.lookup id = some other) :
        s.channel.replylist.lookup id = some other ∧
          (s.memory other).reqno ≠ s.channel.replylist.keys.card := by
      rcases Client.outstanding_entry entry with ⟨_, rfl⟩ | ⟨old, entry⟩
      · exact absurd rfl own
      · exact ⟨entry, free id other old entry own⟩
    by_cases own : a = c
    · subst a
      rw [outstanding_reqno, Client.outstanding_other _ _ _ different.symm]
      exact (older id' b different.symm entry').2.symm
    · rw [Client.outstanding_other _ _ _ own]
      obtain ⟨entry, fresh⟩ := older id a own entry
      by_cases mine : b = c
      · subst b
        rwa [outstanding_reqno]
      · rw [Client.outstanding_other _ _ _ mine]
        exact apart id id' a b entry (older id' b mine entry').1 different

/-- The failure paths of `ZSendMethod` leave the number and the entries alone. -/
theorem fail_reqno (s : Client) (c other : Ptr) (code : ErrorCodeE) :
    ((s.fail c code).memory other).reqno = (s.memory other).reqno := by
  by_cases own : other = c
  · subst other
    simp [Client.fail]
  · rw [Client.fail_other _ _ _ _ own]

theorem ready_reqno (s : Client) (id : Nat) (c other : Ptr) (payload : Bytes) :
    ((s.ready id c payload).memory other).reqno = (s.memory other).reqno := by
  by_cases own : other = c
  · subst other
    rw [Client.ready_same]
  · rw [Client.ready_other _ _ _ _ _ own]

/-- What keeps the numbers and adds no entry keeps the requests apart. -/
theorem ToldApart.shrinks {s next : Client} (apart : ToldApart s)
    (entries : ∀ id c, next.channel.replylist.lookup id = some c →
      s.channel.replylist.lookup id = some c)
    (numbers : ∀ c, (next.memory c).reqno = (s.memory c).reqno) : ToldApart next := by
  intro id id' c c' entry entry' different
  rw [numbers, numbers]
  exact apart id id' c c' (entries id c entry) (entries id' c' entry') different

/-- What one step does to the numbers of the outstanding requests. -/
theorem toldApart_step {s next : Session} {input : Input} {emitted : List Event}
    (apart : ToldApart s.client) (fired : s.step input = some (next, emitted)) :
    ToldApart next.client ↔ TakesFreeNumber s input := by
  cases input with
  | send c fullName request outcome =>
    obtain ⟨_, _, ⟨buffer, rfl, accepts, same, _⟩ | ⟨fails, _, channel, code, same, entries, _⟩⟩ :=
      s.step_send next c fullName request outcome emitted fired
    · have succeeds : Succeeds (.bytes buffer) outcome := ⟨⟨buffer, rfl⟩, accepts⟩
      rw [same, toldApart_outstanding apart c]
      exact ⟨fun free _ => free, fun free => free succeeds⟩
    · refine iff_of_true ?_ fun succeeds => absurd succeeds fails
      rw [same]
      apply apart.shrinks
      · intro id other entry
        rwa [Client.fail_channel, entries] at entry
      · exact fun other => fail_reqno _ c other code
  | recv c timeout start =>
    obtain ⟨_, rfl, _⟩ := s.step_recv next c timeout start emitted fired
    exact iff_of_true apart trivial
  | tick t =>
    refine iff_of_true ?_ trivial
    obtain ⟨_, _, _, ⟨same, _⟩ | ⟨_, _, _, ⟨id, c, _, _, _, same⟩ | ⟨_, same⟩⟩⟩ :=
      s.step_tick next t emitted fired
    · exact same ▸ apart
    · rw [same]
      apply apart.shrinks
      · exact fun k other entry => (Client.ready_entry entry).2
      · exact fun other => ready_reqno _ id c other _
    · exact same ▸ apart

/-- The requests outstanding at any time of a run have different numbers exactly when each
request that the socket takes finds the size of `replylist_` free as a number. -/
theorem reqno_distinct_iff :
    Path (Reaching (fun s => ToldApart s.client) (Fires Session.step)) {} inputs events s ↔
      Path (Meeting TakesFreeNumber (Fires Session.step)) {} inputs events s := by
  apply Path.reaching_iff_meeting fun s => ToldApart s.client
  · exact fun s input emitted next apart free fired => (toldApart_step apart fired).mpr free
  · exact fun s input emitted next apart fired => toldApart_step apart fired
  · simp [ToldApart]

/-- Two requests, the reply to the first, and a third request. -/
def repliedBetween : List Input :=
  [.send 0 (ascii "m") (.bytes []) acceptAll, .send 1 (ascii "m") (.bytes []) acceptAll,
    .recv 0 100 0, .tick ⟨0, .readable, .message [[], ascii "1", ascii "0", ascii "ok"]⟩,
    .tick ⟨0, .silent, .empty⟩, .tick ⟨0, .silent, .empty⟩,
    .send 2 (ascii "m") (.bytes []) acceptAll]

/-- Each request has a controller of its own, and two of them share a number. -/
theorem reqno_repeats : ¬∀ inputs events s, (senders inputs).Nodup →
    Path (Fires Session.step) {} inputs events s → ToldApart s.client := by
  intro claim
  have run : ∃ events s, execute Session.step repliedBetween {} = some (s, events) ∧
      s.client.channel.replylist.lookup 2 = some 1 ∧
      s.client.channel.replylist.lookup 3 = some 2 ∧
      (s.client.memory 1).reqno = 1 ∧ (s.client.memory 2).reqno = 1 :=
    ⟨_, _, rfl, rfl, rfl, rfl, rfl⟩
  obtain ⟨events, s, run, first, second, number, number'⟩ := run
  have apart := claim _ events s (by decide) (execute_path run)
  exact apart 2 3 1 2 first second (by decide) (number.trans number'.symm)

end Zqrpc
