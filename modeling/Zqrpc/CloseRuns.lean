import Zqrpc.RpcServer
import Zqrpc.Forwarding
import Zqrpc.RoundRobin

/-! `Close` and the proxy its stop orders go through. Nothing in `started_` says whether the
proxy call still runs, and `Close` waits for workers no order can come to any more. -/
namespace Zqrpc

open Numeral Steps

variable {Msg : Type} {pb : Protobuf Msg} {map : RpcMethodMapT}

namespace RpcServer

/-- The phases of `Close` follow each other, and `started_` tells which are past. -/
def Sequenced (s : RpcServer) : Prop :=
  match s.phase with
  | .outside => s.started = true → s.closed = false
  | .unbinding _ => s.started = true ∧ s.closed = false
  | .joining _ => s.started = false ∧ s.closed = false ∧ s.pool.stopping = true
  | .closing => s.started = false

theorem sequenced_step {s next : RpcServer} {input : ServerInput Msg} (held : s.Sequenced)
    (fired : s.step pb map input = some (next, events)) : next.Sequenced := by
  unfold Sequenced at held ⊢
  cases input with
  | pool input =>
    obtain ⟨admits, p, _, stepped, rfl⟩ := step_pool fired
    have same := admits.stopping stepped
    cases phase : s.phase <;> simp only [phase, same] at held ⊢ <;> exact held
  | control =>
    obtain rfl := step_control fired
    exact held
  | proxyEnds proxyEnd =>
    obtain ⟨_, rfl⟩ := step_proxyEnds fired
    exact held
  | close =>
    obtain ⟨phase, rfl⟩ := step_close fired
    rw [phase] at held
    cases started : s.started with
    | true => exact ⟨rfl, held started⟩
    | false => rfl
  | unbind threw =>
    obtain ⟨url, rest, phase, ⟨_, _, rfl⟩ | rfl⟩ := step_unbind fired
    · rw [phase] at held
      exact fun _ => held.2
    · rw [phase] at held
      exact held
  | workerStop =>
    obtain ⟨phase, p, _, stepped, rfl⟩ := step_workerStop fired
    rw [phase] at held
    obtain rfl := Pool.step_workerStop stepped
    exact ⟨rfl, held.2, rfl⟩
  | join =>
    obtain ⟨it, phase, _, _, rfl⟩ := step_join fired
    rw [phase] at held
    exact held
  | proxyStop =>
    obtain ⟨phase, rfl⟩ := step_proxyStop fired
    rw [phase] at held
    exact held.1
  | closeSockets =>
    obtain ⟨phase, rfl⟩ := step_closeSockets fired
    rw [phase] at held
    intro started
    rw [show s.started = false from held] at started
    cases started

/-- The worker can still be given a `TERMINATE`, with no more messages of clients. -/
def CanReceive (pb : Protobuf Msg) (map : RpcMethodMapT) (s : RpcServer) (j : Nat) : Prop :=
  ∃ inputs events next, (∀ identity frames, .pool (.arrive identity frames) ∉ inputs) ∧
    Path (Fires (step pb map)) s inputs events next ∧
    ∃ m ∈ (next.pool.workers j).queue, isStop m.frames = true

/-- `Close` waits to join a running worker, no `TERMINATE` is in that worker's queue, and
none can be forwarded to it any more. -/
def Stuck (pb : Protobuf Msg) (map : RpcMethodMapT) (s : RpcServer) : Prop :=
  ∃ j, s.phase = .joining j ∧ j < s.pool.started ∧ (s.pool.workers j).worker.InLoop ∧
    (∀ m ∈ (s.pool.workers j).queue, isStop m.frames = false) ∧ ¬CanReceive pb map s j

/-- No `TERMINATE` comes to a worker any more: the frontend is a PUB, the proxy has ended, or
those of `WorkerStop` are gone. -/
def Cut (s : RpcServer) : Prop :=
  s.noreply = true ∨ s.proxying = false ∨
    (s.pool.stopping = true ∧ ∀ m ∈ s.pool.frontend, isStop m.frames = false)

theorem cut_step {s next : RpcServer} {input : ServerInput Msg} (cut : s.Cut)
    (noClient : ∀ identity frames, input ≠ .pool (.arrive identity frames))
    (fired : s.step pb map input = some (next, events)) : next.Cut ∧
    ∀ j, (∀ m ∈ (s.pool.workers j).queue, isStop m.frames = false) →
      ∀ m ∈ (next.pool.workers j).queue, isStop m.frames = false := by
  rcases step_cases fired with ⟨input, p, _, rfl, admits, stepped, rfl⟩ |
    ⟨p, _, rfl, stepped, rfl⟩ | ⟨_, _, rfl, rfl⟩ | ⟨_, _, _, rfl⟩
  · have inside : input.Internal := by
      cases input with
      | arrive identity frames => exact absurd rfl (noClient identity frames)
      | workerStop => exact admits
      | _ => trivial
    constructor
    · rcases cut with pub | ended | ⟨stopped, gone⟩
      · exact .inl pub
      · exact .inr (.inl ended)
      · refine .inr (.inr ⟨?_, fun m member => gone m (Pool.step_frontend inside stepped member)⟩)
        exact (admits.stopping stepped).trans stopped
    · intro j none' m queued
      rcases Pool.step_queue stepped queued with before | ⟨⟨i, rfl⟩, front⟩
      · exact none' m before
      · obtain ⟨proxying, router, _⟩ := admits
        rcases cut with pub | ended | ⟨_, gone⟩
        · rw [router] at pub
          cases pub
        · rw [proxying] at ended
          cases ended
        · exact gone m front
  · rcases cut with pub | ended | ⟨stopped, _⟩
    · obtain rfl := Pool.step_workerStop stepped
      exact ⟨.inl pub, fun _ none' => none'⟩
    · obtain rfl := Pool.step_workerStop stepped
      exact ⟨.inr (.inl ended), fun _ none' => none'⟩
    · simp only [Pool.step, stopped, if_true] at stepped
      cases stepped
  · exact ⟨.inr (.inl rfl), fun _ none' => none'⟩
  · exact ⟨cut, fun _ none' => none'⟩

theorem cut_off {s : RpcServer} {j : Nat} (cut : s.Cut)
    (none' : ∀ m ∈ (s.pool.workers j).queue, isStop m.frames = false) :
    ¬CanReceive pb map s j := by
  rintro ⟨inputs, events, final, noClient, path, m, queued, stop⟩
  have still : final.Cut ∧ ∀ m ∈ (final.pool.workers j).queue, isStop m.frames = false := by
    have quiet : Path (Meeting (fun _ input => ∀ identity frames,
        input ≠ .pool (.arrive identity frames)) (Fires (step pb map))) s inputs events final := by
      apply path.meeting
      rintro input member _ identity frames rfl
      exact noClient identity frames member
    apply quiet.state_invariant (fun s => s.Cut ∧
      ∀ m ∈ (s.pool.workers j).queue, isStop m.frames = false) ?_ ⟨cut, none'⟩
    rintro s input emitted next ⟨cut, none'⟩ ⟨noClient, fired⟩
    obtain ⟨cut', queues⟩ := cut_step cut noClient fired
    exact ⟨cut', queues j none'⟩
  rw [still.2 m queued] at stop
  cases stop

/-- Nothing ever comes to a worker behind a PUB frontend. -/
theorem noreply_idle {urls : List Bytes} {n : Nat} {inputs : List (ServerInput Msg)}
    {events : List (ServerEvent Msg)} {s : RpcServer}
    (run : Path (Fires (step pb map)) (start true urls n) inputs events s) (j : Nat) :
    (s.pool.workers j).queue = [] := by
  have idle : s.noreply = true ∧ ∀ m, m ∉ (s.pool.workers j).queue := by
    apply run.state_invariant (fun s => s.noreply = true ∧ ∀ m, m ∉ (s.pool.workers j).queue)
    · rintro s input emitted next ⟨pub, none'⟩ fired
      rcases step_cases fired with ⟨input, p, _, rfl, admits, stepped, rfl⟩ |
        ⟨p, _, rfl, stepped, rfl⟩ | ⟨_, _, rfl, rfl⟩ | ⟨_, _, _, rfl⟩
      · refine ⟨pub, fun m queued => ?_⟩
        rcases Pool.step_queue stepped queued with before | ⟨⟨i, rfl⟩, _⟩
        · exact none' m before
        · rw [show s.noreply = false from admits.2.1] at pub
          cases pub
      · obtain rfl := Pool.step_workerStop stepped
        exact ⟨pub, none'⟩
      · exact ⟨pub, none'⟩
      · exact ⟨pub, none'⟩
    · exact ⟨rfl, fun m => List.not_mem_nil⟩
  exact List.eq_nil_iff_forall_not_mem.mpr idle.2

/-- The steps of the pool that are admitted are steps of the server. -/
theorem pool_path_meeting {condition : Pool → PoolInput Msg → Prop}
    {condition' : RpcServer → ServerInput Msg → Prop} {s : RpcServer}
    {inputs : List (PoolInput Msg)} {emitted : List (WorkerEvent Msg)} {p : Pool}
    (path : Path (Meeting condition (Fires (Pool.step pb map))) s.pool inputs emitted p)
    (admitted : ∀ input ∈ inputs, s.Admits input)
    (lifts : ∀ s input, condition s.pool input → condition' s (.pool input)) :
    ∃ events, Path (Meeting condition' (Fires (step pb map))) s (inputs.map .pool) events
      { s with pool := p } := by
  induction path with
  | nil => exact ⟨[], .nil⟩
  | @snoc inputs _ p input emitted next _ last ih =>
    obtain ⟨events, path⟩ := ih fun input member => admitted input (List.mem_append_left _ member)
    have admits : ({ s with pool := p } : RpcServer).Admits input := admitted input (by simp)
    have fired : Fires (step pb map) { s with pool := p } (.pool input) (emitted.map .worker)
        { s with pool := next } := by
      have stepped : p.step pb map input = some (next, emitted) := last.2
      simp only [Fires, step, if_pos admits, stepped]
      rfl
    rw [List.map_append]
    exact ⟨_, path.snoc ⟨lifts { s with pool := p } input last.1, fired⟩⟩

theorem pool_path {s : RpcServer} {inputs : List (PoolInput Msg)}
    {emitted : List (WorkerEvent Msg)} {p : Pool}
    (path : Path (Fires (Pool.step pb map)) s.pool inputs emitted p)
    (admitted : ∀ input ∈ inputs, s.Admits input) :
    ∃ events, Path (Fires (step pb map)) s (inputs.map .pool) events { s with pool := p } := by
  have any : Path (Meeting (fun _ _ => True) (Fires (Pool.step pb map))) s.pool inputs emitted p :=
    path.meeting fun _ _ _ => trivial
  obtain ⟨events, path'⟩ : ∃ events, Path (Meeting (fun _ _ => True) (Fires (step pb map))) s
      (inputs.map .pool) events { s with pool := p } :=
    pool_path_meeting any admitted fun _ _ _ => trivial
  exact ⟨events, path'.mono fun _ _ _ _ meets => meets.2⟩

theorem no_client {inputs : List (PoolInput Msg)} (internal : ∀ input ∈ inputs, input.Internal)
    (identity : Bytes) (frames : FramesT) :
    ServerInput.pool (.arrive identity frames) ∉ inputs.map .pool := by
  intro member
  obtain ⟨input, before, same⟩ := List.mem_map.mp member
  obtain rfl := ServerInput.pool.inj same
  exact internal _ before

theorem Admits.of_works {input : PoolInput Msg} (works : input.Works) (s : RpcServer) :
    s.Admits input := by
  cases input with
  | work j interrupted handler reply errorReply => trivial
  | close j => trivial
  | _ => exact works.elim

/-- `WorkerStop` is called while the proxy of a ROUTER runs, the proxy ends when no worker
needs an order any more, and the orders are dealt fairly. -/
def Orderly (s : RpcServer) : ServerInput Msg → Prop
  | .pool input => s.pool.Fair input
  | .workerStop => s.pool.Leaving ∨ (s.proxying = true ∧ s.noreply = false)
  | .proxyEnds _ => s.pool.stopping = true → s.pool.Leaving
  | .control | .close | .unbind _ | .join | .proxyStop | .closeSockets => True

instance (s : RpcServer) : (input : ServerInput Msg) → Decidable (s.Orderly input)
  | .pool input => inferInstanceAs (Decidable (s.pool.Fair input))
  | .workerStop => inferInstanceAs
      (Decidable (s.pool.Leaving ∨ (s.proxying = true ∧ s.noreply = false)))
  | .proxyEnds _ => inferInstanceAs (Decidable (s.pool.stopping = true → s.pool.Leaving))
  | .control | .close | .unbind _ | .join | .proxyStop | .closeSockets => isTrue trivial

/-- The orders suffice, and they reach the workers or are not needed. -/
structure Manned (s : RpcServer) : Prop where
  sequenced : s.Sequenced
  provided : s.pool.Provided
  reached : s.pool.stopping = true → s.pool.Leaving ∨ (s.proxying = true ∧ s.noreply = false)

theorem start_manned (noreply : Bool) (urls : List Bytes) (n : Nat) :
    (start noreply urls n).Manned where
  sequenced _ := rfl
  provided := Pool.start_provided n
  reached stopped := by cases stopped

theorem manned_step {s next : RpcServer} {input : ServerInput Msg} (held : s.Manned)
    (orderly : s.Orderly input) (fired : s.step pb map input = some (next, events)) :
    next.Manned := by
  have sequenced := sequenced_step held.sequenced fired
  rcases step_cases fired with ⟨input, p, _, rfl, admits, stepped, rfl⟩ |
    ⟨p, _, rfl, stepped, rfl⟩ | ⟨_, _, rfl, rfl⟩ | ⟨_, _, _, rfl⟩
  · refine ⟨sequenced, Pool.provided_step held.provided orderly stepped, fun stopped => ?_⟩
    rcases held.reached ((admits.stopping stepped).symm.trans stopped) with leaving | forwards
    · exact .inl (Pool.leaving_step leaving stepped)
    · exact .inr forwards
  · have fair : s.pool.Fair (.workerStop : PoolInput Msg) := trivial
    refine ⟨sequenced, Pool.provided_step held.provided fair stepped, fun _ => ?_⟩
    rcases orderly with leaving | forwards
    · exact .inl (Pool.leaving_step leaving stepped)
    · exact .inr forwards
  · exact ⟨sequenced, held.provided, fun stopped => .inl (orderly stopped)⟩
  · exact ⟨sequenced, held.provided, held.reached⟩

section Runs

variable {noreply : Bool} {urls : List Bytes} {n : Nat} {inputs : List (ServerInput Msg)}
  {events : List (ServerEvent Msg)} {s : RpcServer}

/-- `Close` never waits for a worker no order can come to. -/
theorem none_stuck
    (run : Path (Meeting Orderly (Fires (step pb map))) (start noreply urls n) inputs
      events s) : ¬s.Stuck pb map := by
  have held : s.Manned := by
    apply run.state_invariant Manned
    · exact fun _ _ _ _ held fired => manned_step held fired.1 fired.2
    · exact start_manned noreply urls n
  rintro ⟨j, phase, inside, inLoop, none', cut⟩
  obtain ⟨_, opened, stopped⟩ : s.started = false ∧ s.closed = false ∧ s.pool.stopping = true := by
    have sequenced := held.sequenced
    rwa [Sequenced, phase] at sequenced
  rcases held.reached stopped with leaving | ⟨proxying, router⟩
  · obtain ⟨m, member, stop⟩ := leaving j inside inLoop
    rw [none' m member] at stop
    cases stop
  · have needs := Pool.awaiting_of_running held.provided inside inLoop none'
    obtain ⟨inputs, _, p, internal, path, received⟩ :=
      Pool.can_receive pb map held.provided stopped needs
    have admitted : ∀ input ∈ inputs, s.Admits input := by
      intro input member
      have inside := internal input member
      cases input with
      | arrive identity frames => exact inside.elim
      | workerStop => exact inside
      | deal i => exact ⟨proxying, router, opened⟩
      | _ => trivial
    obtain ⟨events, path'⟩ := pool_path path admitted
    exact cut ⟨_, events, _, no_client internal, path', received⟩

/-- With no traffic of clients, `Close` is called while the proxy of a ROUTER runs, and the
workers that run are connected before the first order is dealt. -/
def Quiet (s : RpcServer) : ServerInput Msg → Prop
  | .pool input => s.pool.Quiet input
  | .workerStop => s.pool.frontend = [] ∧ s.proxying = true ∧ s.noreply = false
  | .proxyEnds _ => s.pool.stopping = true → s.pool.Leaving
  | .control | .close | .unbind _ | .join | .proxyStop | .closeSockets => True

theorem Quiet.orderly {s : RpcServer} {input : ServerInput Msg} (turning : s.pool.Turning)
    (quiet : s.Quiet input) : s.Orderly input := by
  cases input with
  | pool input => exact turning.fair quiet
  | workerStop => exact .inr quiet.2
  | proxyEnds proxyEnd => exact quiet
  | _ => trivial

/-- Then nobody has to see to the order of the deals. -/
theorem quiet_orderly
    (run : Path (Meeting Quiet (Fires (step pb map))) (start noreply urls n) inputs events s) :
    Path (Meeting Orderly (Fires (step pb map))) (start noreply urls n) inputs events s ∧
      s.pool.Turning := by
  induction run with
  | nil => exact ⟨.nil, Pool.start_turning n⟩
  | snoc _ last ih =>
    obtain ⟨orderly, turning⟩ := ih
    obtain ⟨quiet, fired⟩ := last
    refine ⟨orderly.snoc ⟨quiet.orderly turning, fired⟩, ?_⟩
    rcases step_cases fired with ⟨input, p, _, rfl, _, stepped, rfl⟩ |
      ⟨p, _, rfl, stepped, rfl⟩ | ⟨_, _, rfl, rfl⟩ | ⟨_, _, _, rfl⟩
    · exact Pool.turning_step turning quiet stepped
    · have idle : Pool.Quiet _ (.workerStop : PoolInput Msg) := quiet.1
      exact Pool.turning_step turning idle stepped
    · exact turning
    · exact turning

theorem none_stuck_quiet
    (run : Path (Meeting Quiet (Fires (step pb map))) (start noreply urls n) inputs events s) :
    ¬s.Stuck pb map :=
  none_stuck (quiet_orderly run).1

end Runs

end RpcServer

end Zqrpc
