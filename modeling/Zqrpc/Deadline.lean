import Zqrpc.SuccessReplies

/-! How the loop of `ZRecvMethod` ends: in time, and with which status of its
controller. -/
namespace Zqrpc

open Numeral Steps

/-- The time a call with this argument has. -/
def allowed (timeout : Int) : Int := if 0 < timeout then timeout else 60000

/-- The integer is a value of `long`. -/
def Long (n : Int) : Prop := -2 ^ 63 ≤ n ∧ n < 2 ^ 63

/-- The wait of a poll at this time: not negative, so not for ever, and computed
without an overflow. -/
structure Timely (timeout start now wait : Int) : Prop where
  difference : wait = allowed timeout - (now - start)
  lower : 0 ≤ wait
  upper : wait ≤ allowed timeout
  fits : Long timeout → Long (now - start) ∧ Long wait

theorem recvCall_eq (c : Ptr) (timeout start : Int) :
    recvCall c timeout start = ⟨c, allowed timeout, start, false⟩ := by
  by_cases positive : 0 < timeout
  · simp [recvCall, allowed, positive, Int.not_le.mpr positive]
  · simp [recvCall, allowed, positive, Int.not_lt.mp positive]

theorem timely_of_within (timeout start now : Int) (started : start ≤ now)
    (within : now - start ≤ allowed timeout) :
    Timely timeout start now (allowed timeout - (now - start)) := by
  refine ⟨rfl, by omega, by omega, fun long => ?_⟩
  have bound : allowed timeout < 2 ^ 63 := by
    unfold allowed
    split
    · exact long.2
    · norm_num
  unfold Long
  omega

/-- A call is past its deadline from the first reading that says so, and polls only
before. -/
theorem iteration_deadline (call : RecvCall) (t : Tick) (s : Client) :
    (call.timeout < t.now - call.start → (iteration call t s).2 = (.leave, [])) ∧
    ∀ wait, .polled wait ∈ (iteration call t s).2.2 →
      t.now - call.start ≤ call.timeout ∧ wait = call.timeout - (t.now - call.start) := by
  have unpolled (wait : Int) : .polled wait ∉ (receive t s).2.2 := by
    unfold receive
    split
    · simp
    · simp
    · split <;> simp
  by_cases done : (!call.toget && decide ((s.memory call.controller).rcode ≠ .working)) = true
  · rw [iteration, if_pos done]
    exact ⟨fun _ => rfl, by simp⟩
  by_cases late : t.now - call.start > call.timeout
  · rw [iteration, if_neg done, if_pos late]
    exact ⟨fun _ => rfl, by simp⟩
  refine ⟨fun late' => absurd late' late, fun wait polled => ⟨not_lt.mp late, ?_⟩⟩
  by_cases toget : call.toget = true
  · rw [iteration, if_neg done, if_neg late, if_pos toget] at polled
    exact absurd polled (unpolled wait)
  · rw [iteration, if_neg done, if_neg late, if_neg toget] at polled
    cases found : t.poll with
    | threw => simpa [found] using polled
    | silent => simpa [found] using polled
    | readable =>
      simp only [found] at polled
      rcases List.mem_cons.mp polled with same | read
      · exact Event.polled.inj same
      · exact absurd read (unpolled wait)

/-- One iteration of a call: the call goes on in time, or it returns or throws. -/
theorem tick_cases (client : Client) (call : RecvCall) (t : Tick) :
    ∃ next emitted, Session.step ⟨client, some call⟩ (.tick t) = some (next, emitted) ∧
      (call.timeout < t.now - call.start →
        next.call = none ∧ ∃ p, emitted = [.returned call.controller p]) ∧
      (∀ wait, .polled wait ∈ emitted →
        t.now - call.start ≤ call.timeout ∧ wait = call.timeout - (t.now - call.start)) ∧
      ((∃ toget, next.call = some { call with toget }) ∨
        next.call = none ∧ ((∃ p, .returned call.controller p ∈ emitted) ∨
          ∃ e, .threw call.controller e ∈ emitted)) := by
  obtain ⟨late, polls⟩ := iteration_deadline call t client
  simp only [Session.step]
  rcases it : iteration call t client with ⟨client', way, events⟩
  rw [it] at late polls
  cases way with
  | again toget =>
    refine ⟨_, _, rfl, fun passed => ?_, polls, .inl ⟨toget, rfl⟩⟩
    cases (Prod.mk.inj (late passed)).1
  | leave =>
    refine ⟨_, _, rfl, fun passed => ?_, fun wait polled => ?_,
      .inr ⟨rfl, .inl ⟨_, List.mem_append_right _ (List.mem_singleton_self _)⟩⟩⟩
    · obtain rfl := (Prod.mk.inj (late passed)).2
      exact ⟨rfl, _, rfl⟩
    · exact polls wait (by simpa using polled)
  | throw e =>
    refine ⟨_, _, rfl, fun passed => ?_, fun wait polled => ?_,
      .inr ⟨rfl, .inr ⟨e, by simp⟩⟩⟩
    · cases (Prod.mk.inj (late passed)).1
    · exact polls wait (by simpa using polled)

/-- The first iterations of a call, one for each tick. -/
def rounds (ticks : ℕ → Tick) (n : ℕ) : List Input := (List.range n).map fun i => .tick (ticks i)

theorem rounds_succ (ticks : ℕ → Tick) (n : ℕ) :
    rounds ticks (n + 1) = rounds ticks n ++ [.tick (ticks n)] := by
  simp [rounds, List.range_succ]

section
variable (client : Client) (c : Ptr) (timeout start : Int) (ticks : ℕ → Tick)

/-- The loop has not ended after the first `n` iterations. -/
structure Waiting (n : ℕ) (events : List Event) (s : Session) : Prop where
  run : Path (Fires Session.step) ⟨client, some (recvCall c timeout start)⟩ (rounds ticks n)
    events s
  call : ∃ toget, s.call = some ⟨c, allowed timeout, start, toget⟩
  early : ∀ i < n, (ticks i).now ≤ start + allowed timeout
  polls : ∀ wait, .polled wait ∈ events → ∃ i < n, Timely timeout start (ticks i).now wait

/-- The loop ends in iteration `n`, with these events in it. -/
structure Ends (n : ℕ) (events last : List Event) : Prop where
  run : ∃ s next, Path (Fires Session.step) ⟨client, some (recvCall c timeout start)⟩
    (rounds ticks n) events s ∧ s.step (.tick (ticks n)) = some (next, last) ∧ next.call = none
  leaves : (∃ p, .returned c p ∈ last) ∨ ∃ e, .threw c e ∈ last
  /-- no iteration follows one past the deadline, and none of these reads a message -/
  inTime : ∀ i, start + allowed timeout < (ticks i).now →
    n ≤ i ∧ (i = n → ∃ p, last = [.returned c p])
  polls : ∀ wait, .polled wait ∈ events ++ last → ∃ i ≤ n, Timely timeout start (ticks i).now wait

variable {client c timeout start ticks}

/-- After one more iteration the loop still waits, or it has ended. -/
theorem Waiting.next {n : ℕ} {events : List Event} {s : Session}
    (waiting : Waiting client c timeout start ticks n events s)
    (clock : Monotone fun i => (ticks i).now) (started : start ≤ (ticks 0).now) :
    (∃ events s, Waiting client c timeout start ticks (n + 1) events s) ∨
      ∃ last, Ends client c timeout start ticks n events last := by
  obtain ⟨toget, calling⟩ := waiting.call
  obtain ⟨client', _⟩ := s
  subst calling
  obtain ⟨next, emitted, fired, late, polled, ending⟩ :=
    tick_cases client' ⟨c, allowed timeout, start, toget⟩ (ticks n)
  simp only at late polled ending
  have after : start ≤ (ticks n).now := started.trans (clock (Nat.zero_le n))
  have polls : ∀ wait, .polled wait ∈ events ++ emitted →
      ∃ i < n + 1, Timely timeout start (ticks i).now wait := by
    intro wait member
    rcases List.mem_append.mp member with old | new
    · obtain ⟨i, before, timely⟩ := waiting.polls wait old
      exact ⟨i, by omega, timely⟩
    · obtain ⟨within, rfl⟩ := polled wait new
      exact ⟨n, by omega, timely_of_within timeout start _ after within⟩
  rcases ending with ⟨toget', goes⟩ | ⟨ended, leaves⟩
  · left
    refine ⟨_, next, ?_, ⟨toget', goes⟩, fun i before => ?_, polls⟩
    · rw [rounds_succ]
      exact waiting.run.snoc fired
    · rcases Nat.lt_succ_iff_lt_or_eq.mp before with old | rfl
      · exact waiting.early i old
      · by_contra passed
        have := (late (by omega)).1
        rw [goes] at this
        cases this
  · right
    refine ⟨emitted, ⟨_, next, waiting.run, fired, ended⟩, leaves, fun i passed => ⟨?_, ?_⟩, ?_⟩
    · by_contra before
      have := waiting.early i (by omega)
      omega
    · rintro rfl
      exact (late (by omega)).2
    · intro wait member
      obtain ⟨i, before, timely⟩ := polls wait member
      exact ⟨i, by omega, timely⟩

end

/-- A call whose clock comes to its deadline ends by the first iteration that sees it, by
a return unless something is thrown; until then it polls without waiting beyond its time. -/
theorem receive_keeps_deadline (client : Client) (c : Ptr) (timeout start : Int)
    (ticks : ℕ → Tick) (clock : Monotone fun i => (ticks i).now)
    (started : start ≤ (ticks 0).now)
    (past : ∃ k, start + allowed timeout < (ticks k).now) :
    ∃ n events last, Ends client c timeout start ticks n events last := by
  obtain ⟨k, passed⟩ := past
  have running (m : ℕ) : (∃ events s, Waiting client c timeout start ticks m events s) ∨
      ∃ n events last, Ends client c timeout start ticks n events last := by
    induction m with
    | zero =>
      refine .inl ⟨[], _, .nil, ⟨false, ?_⟩, by simp, by simp⟩
      rw [recvCall_eq]
    | succ m ih =>
      rcases ih with ⟨events, s, waiting⟩ | ended
      · rcases waiting.next clock started with more | ⟨last, ends⟩
        · exact .inl more
        · exact .inr ⟨m, events, last, ends⟩
      · exact .inr ended
  rcases running (k + 1) with ⟨_, _, waiting⟩ | ended
  · have := waiting.early k (by omega)
    omega
  · exact ended

/-- Every poll reports data and no receive finds any. -/
theorem receive_keeps_deadline_empty : ∃ n events last,
    Ends (({} : Client).outstanding 0) 0 (-1) 0 (fun i => ⟨i, .readable, .empty⟩) n events last :=
  receive_keeps_deadline (({} : Client).outstanding 0) 0 (-1) 0 (fun i => ⟨i, .readable, .empty⟩)
    (fun _ _ le => by simpa using le) (by simp) ⟨60001, by simp [allowed]⟩

end Zqrpc
