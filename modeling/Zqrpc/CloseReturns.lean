import Zqrpc.BrokenClose

/-! What a `Close` that returns has done: how far each of its steps has come, what it tells
its caller, and what a second call finds. -/
namespace Zqrpc

open Numeral Steps

variable {Msg : Type} {pb : Protobuf Msg} {map : RpcMethodMapT}

/-- `WorkerStop` was called. -/
def ServerInput.stops : ServerInput Msg → Bool
  | .workerStop => true
  | _ => false

/-- A call of `Close`. -/
def ServerInput.closes : ServerInput Msg → Bool
  | .close => true
  | _ => false

namespace RpcServer

/-- All that `Close` is for is done. -/
structure Finished (s : RpcServer) : Prop where
  started : s.started = false
  closed : s.closed = true
  stopped : s.pool.stopping = true
  joined : ∀ j < s.pool.started, s.Ended j
  proxy : s.proxying = false ∨ 0 < s.control

/-- How far `Close` has come. -/
def Advanced (s : RpcServer) : Prop :=
  match s.phase with
  | .outside => (s.started = true ∧ s.pool.stopping = false) ∨ s.Finished
  | .unbinding _ => s.started = true ∧ s.pool.stopping = false
  | .joining it => s.started = false ∧ s.pool.stopping = true ∧ it ≤ s.pool.started ∧
      ∀ k < it, s.Ended k
  | .closing => s.started = false ∧ s.pool.stopping = true ∧ (∀ k < s.pool.started, s.Ended k) ∧
      (s.proxying = false ∨ 0 < s.control)

/-- The thread of a worker does not start again. -/
theorem ended_pool {s : RpcServer} {input : PoolInput Msg} {p : Pool}
    {emitted : List (WorkerEvent Msg)} {j : Nat} (ended : s.Ended j)
    (stepped : s.pool.step pb map input = some (p, emitted)) :
    ({ s with pool := p } : RpcServer).Ended j := by
  obtain ⟨left', absent⟩ := ended
  refine ⟨fun inLoop => left' (Pool.step_inLoop stepped inLoop), fun turn => ?_⟩
  cases input with
  | connect k =>
    obtain ⟨⟨_, _, inLoop⟩, rfl⟩ := Pool.step_connect stepped
    rcases List.mem_append.mp turn with before | last
    · exact absent before
    · rw [List.mem_singleton.mp last] at left'
      exact left' inLoop
  | arrive identity frames =>
    obtain ⟨rfl, -⟩ := Prod.mk.inj (Option.some.inj stepped)
    exact absent turn
  | workerStop =>
    obtain rfl := Pool.step_workerStop stepped
    exact absent turn
  | deal i =>
    obtain ⟨_, k, rest, _, before, rfl⟩ := Pool.step_deal stepped
    rw [before] at absent
    exact absent ((List.perm_append_singleton k rest).mem_iff.mp turn)
  | work k interrupted handler reply errorReply =>
    obtain ⟨_, _, _, _, rfl⟩ := Pool.step_work stepped
    exact absent turn
  | close k =>
    obtain ⟨_, rfl⟩ := Pool.step_close stepped
    exact absent (List.mem_of_mem_erase turn)

theorem finished_pool {s : RpcServer} {input : PoolInput Msg} {p : Pool}
    {emitted : List (WorkerEvent Msg)} (finished : s.Finished) (admits : s.Admits input)
    (stepped : s.pool.step pb map input = some (p, emitted)) :
    ({ s with pool := p } : RpcServer).Finished where
  started := finished.started
  closed := finished.closed
  stopped := (admits.stopping stepped).trans finished.stopped
  joined j inside := ended_pool
    (finished.joined j (inside.trans_eq (Pool.step_frame stepped).1)) stepped
  proxy := finished.proxy

theorem Finished.proxyStopped {s : RpcServer} (finished : s.Finished) {proxying : Bool}
    {control : Nat} (stops : proxying = false ∨ 0 < control) :
    ({ s with proxying, control } : RpcServer).Finished :=
  { finished with proxy := stops }

/-- The end of the proxy and an order to it bring `Close` no further and no less far. -/
theorem Advanced.proxyStopped {s : RpcServer} (held : s.Advanced) {proxying : Bool}
    {control : Nat} (stops : proxying = false ∨ 0 < control) :
    ({ s with proxying, control } : RpcServer).Advanced := by
  unfold Advanced at held ⊢
  cases phase : s.phase with
  | outside =>
    rw [phase] at held
    rcases held with running | finished
    · exact .inl running
    · exact .inr { finished with proxy := stops }
  | unbinding rest =>
    rw [phase] at held
    exact held
  | joining it =>
    rw [phase] at held
    exact held
  | closing =>
    rw [phase] at held
    exact ⟨held.1, held.2.1, held.2.2.1, stops⟩

theorem advanced_step {s next : RpcServer} {input : ServerInput Msg} (held : s.Advanced)
    (fired : s.step pb map input = some (next, events)) : next.Advanced := by
  unfold Advanced at held ⊢
  cases input with
  | pool input =>
    obtain ⟨admits, p, _, stepped, rfl⟩ := step_pool fired
    have stopping := admits.stopping stepped
    have range := (Pool.step_frame stepped).1
    cases phase : s.phase with
    | outside =>
      rw [phase] at held
      rcases held with ⟨started, early⟩ | finished
      · exact .inl ⟨started, stopping.trans early⟩
      · obtain ⟨started, closed, stopped, joined, proxy⟩ := finished_pool finished admits stepped
        exact .inr ⟨started, closed, stopped, joined, proxy⟩
    | unbinding rest =>
      rw [phase] at held
      exact ⟨held.1, stopping.trans held.2⟩
    | joining it =>
      rw [phase] at held
      exact ⟨held.1, stopping.trans held.2.1, held.2.2.1.trans_eq range.symm,
        fun k before => ended_pool (held.2.2.2 k before) stepped⟩
    | closing =>
      rw [phase] at held
      exact ⟨held.1, stopping.trans held.2.1,
        fun k inside => ended_pool (held.2.2.1 k (inside.trans_eq range)) stepped, held.2.2.2⟩
  | control =>
    obtain rfl := step_control fired
    exact Advanced.proxyStopped (s := s) held (.inr (Nat.succ_pos _))
  | proxyEnds proxyEnd =>
    obtain ⟨_, rfl⟩ := step_proxyEnds fired
    exact Advanced.proxyStopped (s := s) held (.inl rfl)
  | close =>
    obtain ⟨phase, rfl⟩ := step_close fired
    rw [phase] at held
    rcases held with ⟨started, early⟩ | finished
    · rw [if_pos started]
      exact ⟨started, early⟩
    · rw [if_neg (by simp [finished.started])]
      exact ⟨finished.started, finished.stopped, finished.joined, finished.proxy⟩
  | unbind threw =>
    obtain ⟨url, rest, phase, ⟨_, _, rfl⟩ | rfl⟩ := step_unbind fired
    · rw [phase] at held
      exact .inl held
    · rw [phase] at held
      exact held
  | workerStop =>
    obtain ⟨phase, p, _, stepped, rfl⟩ := step_workerStop fired
    obtain rfl := Pool.step_workerStop stepped
    exact ⟨rfl, rfl, Nat.zero_le _, fun k before => absurd before (Nat.not_lt_zero k)⟩
  | join =>
    obtain ⟨it, phase, inside, ended, rfl⟩ := step_join fired
    rw [phase] at held
    refine ⟨held.1, held.2.1, inside, fun k before => ?_⟩
    rcases Nat.lt_succ_iff_lt_or_eq.mp before with earlier | rfl
    · exact held.2.2.2 k earlier
    · exact ended
  | proxyStop =>
    obtain ⟨phase, rfl⟩ := step_proxyStop fired
    rw [phase] at held
    exact ⟨held.1, held.2.1, held.2.2.2, .inr (Nat.succ_pos _)⟩
  | closeSockets =>
    obtain ⟨phase, rfl⟩ := step_closeSockets fired
    rw [phase] at held
    exact .inr ⟨held.1, rfl, held.2.1, held.2.2.1, held.2.2.2⟩

/-- A call of `Close` has returned, and at most its sockets are closed once more. -/
def Done (s : RpcServer) : Prop := s.Finished ∧ (s.phase = .outside ∨ s.phase = .closing)

theorem done_step {s next : RpcServer} {input : ServerInput Msg} (done : s.Done)
    (fired : s.step pb map input = some (next, events)) : next.Done := by
  obtain ⟨finished, phase⟩ := done
  cases input with
  | pool input =>
    obtain ⟨admits, p, _, stepped, rfl⟩ := step_pool fired
    exact ⟨finished_pool finished admits stepped, phase⟩
  | control =>
    obtain rfl := step_control fired
    exact ⟨finished.proxyStopped (.inr (Nat.succ_pos _)), phase⟩
  | proxyEnds proxyEnd =>
    obtain ⟨_, rfl⟩ := step_proxyEnds fired
    exact ⟨finished.proxyStopped (.inl rfl), phase⟩
  | close =>
    obtain ⟨_, rfl⟩ := step_close fired
    rw [if_neg (by simp [finished.started])]
    exact ⟨⟨finished.started, finished.closed, finished.stopped, finished.joined, finished.proxy⟩,
      .inr rfl⟩
  | unbind threw =>
    obtain ⟨_, _, other, _⟩ := step_unbind fired
    rw [other] at phase
    simp at phase
  | workerStop =>
    obtain ⟨other, _⟩ := step_workerStop fired
    rw [other] at phase
    simp at phase
  | join =>
    obtain ⟨_, other, _⟩ := step_join fired
    rw [other] at phase
    simp at phase
  | proxyStop =>
    obtain ⟨other, _⟩ := step_proxyStop fired
    rw [other] at phase
    simp at phase
  | closeSockets =>
    obtain ⟨_, rfl⟩ := step_closeSockets fired
    exact ⟨{ finished with closed := rfl }, .inl rfl⟩

/-- The endpoint whose `unbind` comes next. -/
def nextUrl (s : RpcServer) : Option Bytes :=
  match s.phase with
  | .unbinding rest => rest.head?
  | _ => none

/-- `Close` ends in the closes of the sockets or in an `unbind` that throws. -/
theorem step_signals {s next : RpcServer} {input : ServerInput Msg}
    (fired : s.step pb map input = some (next, events)) :
    (input = .closeSockets ∧ events = [.closeReturned]) ∨
    (input = .unbind true ∧ (∃ url ∈ s.nextUrl, isInproc url = false) ∧ events = [.closeThrew]) ∨
    ((.closeReturned ∉ events ∧ .closeThrew ∉ events) ∧
      (input = .unbind true → ∀ url ∈ s.nextUrl, isInproc url = true) ∧
      (next.phase = .outside → s.phase = .outside ∧ input.closes = false)) := by
  have silent {emitted : List (WorkerEvent Msg)} :
      ServerEvent.closeReturned ∉ emitted.map .worker ∧
        ServerEvent.closeThrew ∉ emitted.map .worker := by simp
  cases input with
  | pool input =>
    simp only [step] at fired
    split at fired
    · obtain ⟨result, _, same⟩ := Option.map_eq_some_iff.mp fired
      obtain ⟨rfl, rfl⟩ := Prod.mk.inj same
      exact .inr (.inr ⟨silent, by simp, fun outside => ⟨outside, rfl⟩⟩)
    · cases fired
  | control =>
    obtain ⟨rfl, rfl⟩ := Prod.mk.inj (Option.some.inj fired)
    exact .inr (.inr ⟨by simp, by simp, fun outside => ⟨outside, rfl⟩⟩)
  | proxyEnds proxyEnd =>
    have silent' : .closeReturned ∉ events ∧ .closeThrew ∉ events := by
      cases proxyEnd <;> simp only [step] at fired <;> split at fired
      all_goals cases fired <;> simp
    obtain ⟨_, rfl⟩ := step_proxyEnds fired
    exact .inr (.inr ⟨silent', by simp, fun outside => ⟨outside, rfl⟩⟩)
  | close =>
    obtain ⟨phase, rfl⟩ := step_close fired
    simp only [step, phase] at fired
    obtain ⟨_, rfl⟩ := Prod.mk.inj (Option.some.inj fired)
    refine .inr (.inr ⟨by simp, by simp, fun outside => ?_⟩)
    cases started : s.started <;> simp [started] at outside
  | unbind threw =>
    obtain ⟨url, rest, phase, _⟩ := step_unbind fired
    simp only [step, phase] at fired
    split at fired
    · rename_i throws
      obtain ⟨_, rfl⟩ := Prod.mk.inj (Option.some.inj fired)
      refine .inr (.inl ⟨by rw [throws.1], ⟨url, by simp [nextUrl, phase], ?_⟩, rfl⟩)
      exact Bool.eq_false_of_not_eq_true throws.2
    · rename_i passes
      obtain ⟨rfl, rfl⟩ := Prod.mk.inj (Option.some.inj fired)
      refine .inr (.inr ⟨by simp, fun throws url' next => ?_, fun outside => by cases outside⟩)
      obtain rfl : threw = true := ServerInput.unbind.inj throws
      obtain rfl : url = url' := by simpa [nextUrl, phase] using next
      simpa using passes
  | workerStop =>
    obtain ⟨phase, _⟩ := step_workerStop fired
    simp only [step, phase] at fired
    obtain ⟨result, _, same⟩ := Option.map_eq_some_iff.mp fired
    obtain ⟨rfl, rfl⟩ := Prod.mk.inj same
    exact .inr (.inr ⟨silent, by simp, fun outside => by cases outside⟩)
  | join =>
    obtain ⟨it, phase, inside, ended, rfl⟩ := step_join fired
    simp only [step, phase, if_pos (And.intro inside ended)] at fired
    obtain ⟨_, rfl⟩ := Prod.mk.inj (Option.some.inj fired)
    exact .inr (.inr ⟨by simp, by simp, fun outside => by cases outside⟩)
  | proxyStop =>
    obtain ⟨phase, rfl⟩ := step_proxyStop fired
    simp only [step, phase, if_true] at fired
    obtain ⟨_, rfl⟩ := Prod.mk.inj (Option.some.inj fired)
    exact .inr (.inr ⟨by simp, by simp, fun outside => by cases outside⟩)
  | closeSockets =>
    obtain ⟨phase, rfl⟩ := step_closeSockets fired
    simp only [step, phase] at fired
    obtain ⟨_, rfl⟩ := Prod.mk.inj (Option.some.inj fired)
    exact .inl ⟨rfl, rfl⟩

/-- `WorkerStop` is called at most once. -/
theorem stops_step {s next : RpcServer} {input : ServerInput Msg} {inputs : List (ServerInput Msg)}
    (held : inputs.countP (·.stops) = if s.pool.stopping then 1 else 0)
    (fired : s.step pb map input = some (next, events)) :
    (inputs ++ [input]).countP (·.stops) = if next.pool.stopping then 1 else 0 := by
  rw [List.countP_append, held]
  cases stops : input.stops with
  | false =>
    have same : next.pool.stopping = s.pool.stopping := by
      rcases step_cases fired with ⟨input, p, _, rfl, admits, stepped, rfl⟩ |
        ⟨_, _, rfl, _, _⟩ | ⟨_, _, _, rfl⟩ | ⟨_, _, _, rfl⟩
      · exact admits.stopping stepped
      · cases stops
      · rfl
      · rfl
    simp [stops, same]
  | true =>
    obtain rfl : input = .workerStop := by
      cases input <;> first | rfl | cases stops
    obtain ⟨_, p, _, stepped, rfl⟩ := step_workerStop fired
    have early : s.pool.stopping = false := by
      by_contra stopped
      simp [Pool.step, stopped] at stepped
    obtain rfl := Pool.step_workerStop stepped
    rw [early]
    rfl

/-- What every run keeps of `Close`. -/
theorem run_done {noreply : Bool} {urls : List Bytes} {n : Nat} {inputs : List (ServerInput Msg)}
    {events : List (ServerEvent Msg)} {s : RpcServer}
    (run : Path (Fires (step pb map)) (start noreply urls n) inputs events s) :
    s.Advanced ∧ (.closeReturned ∈ events → s.Done) ∧
      inputs.countP (·.stops) = if s.pool.stopping then 1 else 0 := by
  apply run.invariant (fun inputs events s => s.Advanced ∧ (.closeReturned ∈ events → s.Done) ∧
    inputs.countP (·.stops) = if s.pool.stopping then 1 else 0) ?_
    ⟨.inl ⟨rfl, rfl⟩, by simp, rfl⟩
  rintro inputs events s input emitted next ⟨advanced, done, counted⟩ fired
  have advanced' := advanced_step advanced fired
  refine ⟨advanced', fun returned => ?_, stops_step counted fired⟩
  rcases List.mem_append.mp returned with before | now
  · exact done_step (done before) fired
  · obtain rfl : input = .closeSockets := by
      rcases step_signals fired with ⟨same, _⟩ | ⟨_, _, rfl⟩ | ⟨⟨silent, _⟩, _⟩
      · exact same
      · simp at now
      · exact absurd now silent
    obtain ⟨phase, rfl⟩ := step_closeSockets fired
    rw [Advanced, phase] at advanced
    rcases advanced' with ⟨started, _⟩ | finished
    · rw [show s.started = true from started] at advanced
      cases advanced.1
    · exact ⟨finished, .inl rfl⟩

/-- What every step leaves as it is. -/
theorem path_frame {s next : RpcServer} {inputs : List (ServerInput Msg)}
    {events : List (ServerEvent Msg)} (path : Path (Fires (step pb map)) s inputs events next) :
    next.noreply = s.noreply ∧ next.pool.started = s.pool.started := by
  apply path.state_invariant
    (fun t => t.noreply = s.noreply ∧ t.pool.started = s.pool.started) _ ⟨rfl, rfl⟩
  rintro t input emitted next ⟨pub, range⟩ fired
  rcases step_cases fired with ⟨_, _, _, _, _, stepped, rfl⟩ | ⟨_, _, _, stepped, rfl⟩ |
    ⟨_, _, _, rfl⟩ | ⟨_, _, _, rfl⟩
  · exact ⟨pub, (Pool.step_frame stepped).1.trans range⟩
  · exact ⟨pub, (Pool.step_frame stepped).1.trans range⟩
  · exact ⟨pub, range⟩
  · exact ⟨pub, range⟩

end RpcServer

end Zqrpc
