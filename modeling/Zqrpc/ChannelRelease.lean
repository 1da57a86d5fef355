import Zqrpc.ChannelRuns

/-! When a channel lets go of a controller. An entry of `replylist_` is the only way
for a receive call to write to a controller it was not called with. -/
namespace Zqrpc

open Numeral Steps

def Input.SendsOn (c : Ptr) : Input → Prop
  | .send c' .. => c' = c
  | _ => False

/-- `ZSendMethod` is called on a controller no entry points to. -/
def Idle (s : Session) : Input → Prop
  | .send c .. => ¬s.client.Refers c
  | _ => True

/-- The call does not give up, at its deadline or on an empty poll, while an entry
points to the controller it was called with. -/
def Waits (s : Session) : Input → Prop
  | .tick t => ∀ call, s.call = some call → s.client.Refers call.controller →
      t.now - call.start ≤ call.timeout ∧ (call.toget = true ∨ t.poll ≠ .silent)
  | _ => True

def LetsGo (s : Session) (input : Input) : Prop := Idle s input ∧ Waits s input

instance (s : Session) : (input : Input) → Decidable (Idle s input)
  | .send c _ _ _ => inferInstanceAs (Decidable (¬s.client.Refers c))
  | .recv _ _ _ => isTrue trivial
  | .tick _ => isTrue trivial

instance (s : Session) : (input : Input) → Decidable (Waits s input)
  | .send _ _ _ _ => isTrue trivial
  | .recv _ _ _ => isTrue trivial
  | .tick t => inferInstanceAs (Decidable (∀ call ∈ s.call, s.client.Refers call.controller →
      t.now - call.start ≤ call.timeout ∧ (call.toget = true ∨ t.poll ≠ .silent)))

instance (s : Session) (input : Input) : Decidable (LetsGo s input) :=
  inferInstanceAs (Decidable (_ ∧ _))

/-- Entries point to controllers that wait, no two to the same one. -/
structure Held (s : Client) : Prop where
  working : ∀ id c, s.channel.replylist.lookup id = some c → (s.memory c).rcode = .working
  single : ∀ id id' c, s.channel.replylist.lookup id = some c →
    s.channel.replylist.lookup id' = some c → id = id'

theorem Held.not_refers {s : Client} {c : Ptr} (held : Held s)
    (done : (s.memory c).rcode ≠ .working) : ¬s.Refers c := by
  rintro ⟨id, entry⟩
  exact done (held.working id c entry)

/-- The effect of a step on entries and controllers: none, a failed send, a send
that succeeds, or one reply stored. -/
theorem step_effect (s next : Session) (input : Input) (emitted : List Event)
    (fired : s.step input = some (next, emitted)) :
    next.client = s.client ∨
    (∃ c, input.SendsOn c ∧
      (next.client = s.client.outstanding c ∨ ∃ channel code,
        next.client = { s.client with channel }.fail c code ∧
        channel.replylist = s.client.channel.replylist)) ∨
    ∃ id c payload, s.client.channel.replylist.lookup id = some c ∧
      next.client = s.client.ready id c payload := by
  cases input with
  | send c fullName request outcome =>
    obtain ⟨_, _, ⟨_, _, _, same, _⟩ | ⟨_, _, channel, code, same, entries, _⟩⟩ :=
      s.step_send next c fullName request outcome emitted fired
    · exact .inr (.inl ⟨c, rfl, .inl same⟩)
    · exact .inr (.inl ⟨c, rfl, .inr ⟨channel, code, same, entries⟩⟩)
  | recv c timeout start =>
    obtain ⟨_, rfl, _⟩ := s.step_recv next c timeout start emitted fired
    exact .inl rfl
  | tick t =>
    obtain ⟨_, _, _, ⟨same, _⟩ | ⟨_, _, _, ⟨id, c, _, _, entry, same⟩ | ⟨_, same⟩⟩⟩ :=
      s.step_tick next t emitted fired
    · exact .inl same
    · exact .inr (.inr ⟨id, c, _, entry, same⟩)
    · exact .inl same

theorem ready_refers {s : Client} {id : Nat} {c other : Ptr} {payload : Bytes}
    (refers : (s.ready id c payload).Refers other) : s.Refers other := by
  obtain ⟨k, entry⟩ := refers
  exact ⟨k, (Client.ready_entry entry).2⟩

theorem outstanding_refers {s : Client} {c other : Ptr} (different : other ≠ c)
    (refers : (s.outstanding c).Refers other) : s.Refers other := by
  obtain ⟨k, entry⟩ := refers
  rcases Client.outstanding_entry entry with ⟨_, same⟩ | ⟨_, old⟩
  · exact absurd same different
  · exact ⟨k, old⟩

theorem Held.outstanding {s : Client} {c : Ptr} (held : Held s) (free : ¬s.Refers c) :
    Held (s.outstanding c) := by
  -- the new entry is the only one of `c`
  have apart (k : Nat) (other : Ptr) (old : s.channel.replylist.lookup k = some other) :
      other ≠ c := by
    rintro rfl
    exact free ⟨k, old⟩
  constructor
  · intro k other entry
    rcases Client.outstanding_entry entry with ⟨_, rfl⟩ | ⟨_, old⟩
    · simp
    · rw [Client.outstanding_other _ _ _ (apart k other old)]
      exact held.working k other old
  · intro k k' other entry entry'
    rcases Client.outstanding_entry entry with ⟨rfl, rfl⟩ | ⟨_, old⟩
    · rcases Client.outstanding_entry entry' with ⟨rfl, _⟩ | ⟨_, old'⟩
      · rfl
      · exact absurd rfl (apart k' _ old')
    · rcases Client.outstanding_entry entry' with ⟨_, rfl⟩ | ⟨_, old'⟩
      · exact absurd rfl (apart k _ old)
      · exact held.single k k' other old old'

theorem Held.fail {s : Client} {c : Ptr} (held : Held s) (free : ¬s.Refers c)
    {channel : RpcChannel} (entries : channel.replylist = s.channel.replylist)
    (code : ErrorCodeE) : Held ({ s with channel }.fail c code) := by
  constructor
  · intro k other entry
    rw [Client.fail_channel, entries] at entry
    have different : other ≠ c := by
      rintro rfl
      exact free ⟨k, entry⟩
    rw [Client.fail_other _ _ _ _ different]
    exact held.working k other entry
  · rw [Client.fail_channel, entries]
    exact held.single

theorem Held.ready {s : Client} {id : Nat} {c : Ptr} (held : Held s)
    (entry : s.channel.replylist.lookup id = some c) (payload : Bytes) :
    Held (s.ready id c payload) := by
  constructor
  · intro k other left'
    obtain ⟨apart, old⟩ := Client.ready_entry left'
    have different : other ≠ c := by
      rintro rfl
      exact apart (held.single k id other old entry)
    rw [Client.ready_other _ _ _ _ _ different]
    exact held.working k other old
  · intro k k' other left' left''
    apply held.single k k' other
    · exact (Client.ready_entry left').2
    · exact (Client.ready_entry left'').2

theorem held_step (s next : Session) (input : Input) (emitted : List Event)
    (held : Held s.client) (idle : Idle s input)
    (fired : s.step input = some (next, emitted)) : Held next.client := by
  rcases step_effect s next input emitted fired with same | ⟨c, sends, effect⟩ |
    ⟨id, c, payload, entry, same⟩
  · exact same ▸ held
  · have free : ¬s.client.Refers c := by
      cases input <;> simp_all [Input.SendsOn, Idle]
    rcases effect with same | ⟨channel, code, same, entries⟩
    · rw [same]
      exact held.outstanding free
    · rw [same]
      exact held.fail free entries code
  · rw [same]
    exact held.ready entry payload

theorem run_held {start : Session} (initial : Held start.client)
    (run : Path (Meeting Idle (Fires Session.step)) start inputs events s) : Held s.client :=
  run.state_invariant (fun s => Held s.client)
    (fun s input emitted next held fired =>
      held_step s next input emitted held fired.1 fired.2) initial

/-- Without an entry for it, only `ZSendMethod` on it touches a controller. -/
theorem step_free (s next : Session) (input : Input) (emitted : List Event) (c : Ptr)
    (free : ¬s.client.Refers c) (others : ¬input.SendsOn c)
    (fired : s.step input = some (next, emitted)) :
    ¬next.client.Refers c ∧ next.client.memory c = s.client.memory c := by
  rcases step_effect s next input emitted fired with same | ⟨c', sends, effect⟩ |
    ⟨id, c', payload, entry, same⟩
  · rw [same]
    exact ⟨free, rfl⟩
  · have different : c ≠ c' := by
      rintro rfl
      exact others sends
    rcases effect with same | ⟨channel, code, same, entries⟩
    · rw [same]
      exact ⟨fun refers => free (outstanding_refers different refers),
        Client.outstanding_other _ _ _ different⟩
    · rw [same]
      refine ⟨?_, Client.fail_other _ _ _ _ different⟩
      simpa only [Client.Refers, Client.fail_channel, entries] using free
  · have different : c ≠ c' := by
      rintro rfl
      exact free ⟨id, entry⟩
    rw [same]
    exact ⟨fun refers => free (ready_refers refers), Client.ready_other _ _ _ _ _ different⟩

theorem run_free (run : Path (Fires Session.step) s inputs events s') (c : Ptr)
    (free : ¬s.client.Refers c) (others : ∀ input ∈ inputs, ¬input.SendsOn c) :
    ¬s'.client.Refers c ∧ s'.client.memory c = s.client.memory c := by
  induction run with
  | nil => exact ⟨free, rfl⟩
  | snoc _ last ih =>
    obtain ⟨free', same⟩ := ih fun input member => others input (List.mem_append_left _ member)
    obtain ⟨free'', same'⟩ := step_free _ _ _ _ c free' (others _ (by simp)) last
    exact ⟨free'', same'.trans same⟩

theorem step_silent (s next : Session) (input : Input) (c : Ptr)
    (fired : s.step input = some (next, [])) : ¬input.SendsOn c := by
  intro sends
  cases input with
  | send c' fullName request outcome =>
    obtain ⟨_, _, ⟨_, _, _, _, events⟩ | ⟨_, events, _⟩⟩ := s.step_send next c' _ _ _ _ fired
    · simp at events
    · simp at events
  | recv => exact sends
  | tick => exact sends

/-- When no call gives up on a request still outstanding, a call that has returned
leaves nothing behind through which a later call could write to its controller. -/
theorem returned_lets_go
    (run : Path (Meeting LetsGo (Fires Session.step)) {} inputs (events ++ [.returned c p]) s) :
    ¬s.client.Refers c ∧
    ∀ inputs' events' s', Path (Fires Session.step) s inputs' events' s' →
      (∀ input ∈ inputs', ¬input.SendsOn c) →
      ¬s'.client.Refers c ∧ s'.client.memory c = s.client.memory c := by
  have released : ∀ inputs all s, Path (Meeting LetsGo (Fires Session.step)) {} inputs all s →
      ∀ events c p, all = events ++ [Event.returned c p] → ¬s.client.Refers c := by
    intro inputs all s run
    induction run with
    | nil => simp
    | @snoc _ before s _ emitted next earlier last ih =>
      intro events c p ends
      rcases List.eq_nil_or_concat emitted with rfl | ⟨front, e, rfl⟩
      · -- a step without events moves no entry to `c`
        rw [List.append_nil] at ends
        exact (step_free s next _ [] c (ih events c p ends)
          (step_silent s next _ c last.2) last.2).1
      · rw [List.concat_eq_append, ← List.append_assoc] at ends
        obtain ⟨_, rfl⟩ := List.append_singleton_inj.mp ends
        have held := run_held (⟨by simp, by simp⟩ : Held ({} : Session).client)
          (earlier.mono fun _ _ _ _ meets => ⟨meets.1.1, meets.2⟩)
        obtain ⟨call, t, rfl, calling, rfl, rfl, _, reason⟩ :=
          s.step_returned next _ _ c p last.2 (by simp)
        rcases reason with ⟨done, _⟩ | gaveUp
        · exact held.not_refers done
        · intro refers
          obtain ⟨inTime, polled⟩ := last.1.2 call calling refers
          rcases gaveUp with late | ⟨toget, silent⟩
          · omega
          · rcases polled with h | h
            · rw [toget] at h
              cases h
            · exact h silent
  have free := released _ _ _ run events c p rfl
  exact ⟨free, fun _ _ _ later others => run_free later c free others⟩

/-- One request whose reply comes in time. -/
def answered : List Input :=
  [.send 0 (ascii "m") (.bytes []) acceptAll, .recv 0 100 0,
    .tick ⟨0, .readable, .message [[], ascii "1", ascii "0", ascii "ok"]⟩,
    .tick ⟨0, .readable, .empty⟩, .tick ⟨0, .readable, .empty⟩]

theorem returned_lets_go_answered : ∃ events s,
    Path (Meeting LetsGo (Fires Session.step)) {} answered
      (events ++ [.returned 0 (some (ascii "ok"))]) s ∧
    ¬s.client.Refers 0 ∧
    ∀ inputs' events' s', Path (Fires Session.step) s inputs' events' s' →
      (∀ input ∈ inputs', ¬input.SendsOn 0) →
      ¬s'.client.Refers 0 ∧ s'.client.memory 0 = s.client.memory 0 := by
  have run : ∃ s, execute (restrict LetsGo Session.step) answered {} = some (s,
      [.wire [[], ascii "1", ascii "m", []], .sent 0 1, .polled 100,
        .consumed [[], ascii "1", ascii "0", ascii "ok"]] ++
        [.returned 0 (some (ascii "ok"))]) := ⟨_, rfl⟩
  obtain ⟨s, run⟩ := run
  exact ⟨_, s, restrict_path run, returned_lets_go (restrict_path run)⟩

/-- The call for controller 0 times out; the call for controller 1 then writes the
late reply into controller 0. -/
theorem abandoned_controller_written : ¬∀ inputs events c p s,
    Path (Fires Session.step) {} inputs (events ++ [.returned c p]) s →
    ¬s.client.Refers c ∧
    ∀ inputs' events' s', Path (Fires Session.step) s inputs' events' s' →
      (∀ input ∈ inputs', ¬input.SendsOn c) →
      ¬s'.client.Refers c ∧ s'.client.memory c = s.client.memory c := by
  intro claim
  have first : ∃ s, execute Session.step
      [.send 0 (ascii "m") (.bytes []) acceptAll, .recv 0 100 0, .tick ⟨0, .silent, .empty⟩] {} =
      some (s, [.wire [[], ascii "1", ascii "m", []], .sent 0 1, .polled 100] ++
        [.returned 0 none]) ∧ (s.client.memory 0).rcode = .working ∧
      ∃ s' events', execute Session.step
        [.send 1 (ascii "m") (.bytes []) acceptAll, .recv 1 100 0,
          .tick ⟨0, .readable, .message [[], ascii "1", ascii "0", ascii "late"]⟩] s =
        some (s', events') ∧ (s'.client.memory 0).rcode = .ready :=
    ⟨_, rfl, rfl, _, _, rfl, rfl⟩
  obtain ⟨s, run, working, s', events', later, ready⟩ := first
  have kept := (claim _ _ _ _ _ (execute_path run)).2 _ _ _ (execute_path later)
    (by simp [Input.SendsOn])
  rw [kept.2, working] at ready
  cases ready

end Zqrpc
