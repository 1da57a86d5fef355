import Zqrpc.CloseReturns

/-! `Close` to its end: what stands between a call and its return. The loop over the
endpoints comes first, and an `unbind` that throws leaves with everything still to do. -/
namespace Zqrpc

open Numeral Steps

variable {Msg : Type} {pb : Protobuf Msg} {map : RpcMethodMapT}

namespace Pool

variable (pb map)

theorem nodup_path {condition : Pool → PoolInput Msg → Prop} {p next : Pool}
    {inputs : List (PoolInput Msg)} {events : List (WorkerEvent Msg)} (nodup : p.turns.Nodup)
    (path : Path (Meeting condition (Fires (step pb map))) p inputs events next) :
    next.turns.Nodup :=
  path.state_invariant (fun p => p.turns.Nodup)
    (fun _ _ _ _ nodup fired => nodup_step nodup fired.2) nodup

/-- A started worker can come to the end of its thread while the orders suffice. -/
theorem comes_ended {p : Pool} {j : Nat} (held : p.Provided) (nodup : p.turns.Nodup)
    (stopped : p.stopping = true) (inside : j < p.started) :
    Comes pb map p fun q => ¬(q.workers j).worker.InLoop ∧ j ∉ q.turns := by
  have leaves {q : Pool} (nodup : q.turns.Nodup) (leaving : (q.workers j).Leaving) :
      Comes pb map q fun q => ¬(q.workers j).worker.InLoop ∧ j ∉ q.turns := by
    obtain ⟨inputs, events, w, own, path, ended⟩ := ends_fair pb map leaving
    exact ⟨inputs, events, _, own, path, by rwa [setWorker_self], nodup.not_mem_erase⟩
  by_cases leaving : (p.workers j).Leaving
  · exact leaves nodup leaving
  · obtain ⟨inLoop, none'⟩ : (p.workers j).worker.InLoop ∧
        ∀ m ∈ (p.workers j).queue, isStop m.frames = false := by
      simpa [PoolWorker.Leaving] using leaving
    have needs := awaiting_of_running held inside inLoop none'
    obtain ⟨inputs, events, q, own, path, ordered⟩ := comes_ordered pb map held stopped needs
    exact Comes.after own path (leaves (nodup_path pb map nodup path) fun _ => ordered)

end Pool

/-- A move of the server that is neither a call of `Close` nor a failure. -/
def ServerInput.Own : ServerInput Msg → Prop
  | .pool input => input.Internal
  | .unbind threw => threw = false
  | .workerStop | .join | .proxyStop | .closeSockets => True
  | .control | .proxyEnds _ | .close => False

namespace RpcServer

/-- `Close` can still return, by moves of the server alone. -/
def Returns (pb : Protobuf Msg) (map : RpcMethodMapT) (s : RpcServer) : Prop :=
  ∃ inputs events final, (∀ input ∈ inputs, input.Own) ∧
    Path (Fires (step pb map)) s inputs events final ∧ .closeReturned ∈ events

section Progress

variable (pb map)

/-- The thread that `Close` waits for can come to its end. -/
theorem thread_ends {s : RpcServer} {it : Nat} (held : s.Manned) (nodup : s.pool.turns.Nodup)
    (phase : s.phase = .joining it) (inside : it < s.pool.started) :
    ∃ (inputs : List (PoolInput Msg)) (events : List (ServerEvent Msg)) (p : Pool),
      (∀ input ∈ inputs, input.Internal) ∧
      Path (Meeting Orderly (Fires (step pb map))) s (inputs.map .pool) events
        { s with pool := p } ∧ ({ s with pool := p } : RpcServer).Ended it := by
  obtain ⟨_, opened, stopped⟩ : s.started = false ∧ s.closed = false ∧ s.pool.stopping = true := by
    have sequenced := held.sequenced
    rwa [Sequenced, phase] at sequenced
  rcases held.reached stopped with leaving | ⟨proxying, router⟩
  · obtain ⟨inputs, emitted, w, works, path, ended⟩ := Pool.ends pb map (leaving it inside)
    have fair : Path (Meeting Pool.Fair (Fires (Pool.step pb map))) s.pool inputs emitted
        { s.pool.setWorker it w with turns := s.pool.turns.erase it } :=
      path.meeting fun input member => (works input member).fair
    have admitted : ∀ input ∈ inputs, s.Admits input :=
      fun input member => .of_works (works input member) s
    obtain ⟨events, path'⟩ : ∃ events, Path (Meeting Orderly (Fires (step pb map))) s
        (inputs.map .pool) events { s with pool := _ } :=
      pool_path_meeting fair admitted fun _ _ fair => fair
    exact ⟨inputs, events, _, fun input member => (works input member).internal, path',
      by rwa [Pool.setWorker_self], nodup.not_mem_erase⟩
  · obtain ⟨inputs, _, p, own, path, ended⟩ :=
      Pool.comes_ended pb map held.provided nodup stopped inside
    have admitted : ∀ input ∈ inputs, s.Admits input := by
      intro input member
      have inside := own input member
      cases input with
      | arrive identity frames => exact inside.elim
      | workerStop => exact inside
      | deal i => exact ⟨proxying, router, opened⟩
      | _ => trivial
    obtain ⟨events, path'⟩ : ∃ events, Path (Meeting Orderly (Fires (step pb map))) s
        (inputs.map .pool) events { s with pool := p } :=
      pool_path_meeting path admitted fun _ _ fair => fair
    exact ⟨inputs, events, p, own, path', ended⟩

variable {pb map}

theorem Returns.after {s middle : RpcServer} {inputs : List (ServerInput Msg)}
    {events : List (ServerEvent Msg)} (own : ∀ input ∈ inputs, input.Own)
    (path : Path (Fires (step pb map)) s inputs events middle)
    (later : Returns pb map middle) : Returns pb map s := by
  obtain ⟨inputs', events', final, own', path', returned⟩ := later
  exact ⟨inputs ++ inputs', _, final, List.forall_mem_append.mpr ⟨own, own'⟩,
    path.append path', List.mem_append_right _ returned⟩

theorem Returns.step {s middle : RpcServer} {input : ServerInput Msg}
    {events : List (ServerEvent Msg)} (fired : Fires (step pb map) s input events middle)
    (own : input.Own) (later : Returns pb map middle) : Returns pb map s :=
  later.after (List.forall_mem_singleton.mpr own) (.single fired)

variable (pb map)

theorem closing_returns {s : RpcServer} (phase : s.phase = .closing) : Returns pb map s := by
  have fired : Fires (step pb map) s .closeSockets [.closeReturned]
      { s with phase := .outside, closed := true } := by
    simp only [Fires, step, phase]
  exact ⟨[.closeSockets], _, _, List.forall_mem_singleton.mpr trivial, .single fired, by simp⟩

theorem joining_returns (n : Nat) : ∀ (s : RpcServer) (it : Nat), s.Manned → s.Kept →
    s.phase = .joining it → s.pool.started = it + n → Returns pb map s := by
  induction n with
  | zero =>
    intro s it _ _ phase range
    have fired : Fires (step pb map) s .proxyStop []
        { s with phase := .closing, control := s.control + 1 } := by
      simp only [Fires, step, phase, if_pos (show it = s.pool.started by omega)]
    exact Returns.step fired trivial (closing_returns pb map rfl)
  | succ n ih =>
    intro s it manned kept phase range
    obtain ⟨inputs, events, p, own, path, ended⟩ :=
      thread_ends pb map manned kept.nodup phase (by omega)
    have manned' := path.state_invariant Manned
      (fun _ _ _ _ held fired => manned_step held fired.1 fired.2) manned
    have kept' := path.state_invariant Kept
      (fun _ _ _ _ held fired => kept_step held fired.2) kept
    have plain : Path (Fires (step pb map)) s (inputs.map .pool) events { s with pool := p } :=
      path.mono fun _ _ _ _ meets => meets.2
    have range' : p.started = s.pool.started := (path_frame plain).2
    have fired := join_fires pb map (s := { s with pool := p }) phase
      (show it < p.started by omega) ended
    refine Returns.after ?_ plain (Returns.step fired trivial ?_)
    · intro input member
      obtain ⟨input, inside, rfl⟩ := List.mem_map.mp member
      exact own input inside
    · have orderly : ({ s with pool := p } : RpcServer).Orderly (.join : ServerInput Msg) := trivial
      exact ih _ (it + 1) (manned_step manned' orderly fired) (kept_step kept' fired) rfl
        (show p.started = it + 1 + n by omega)

theorem unbinding_returns (rest : List Bytes) : ∀ s : RpcServer, s.Manned → s.Kept →
    s.phase = .unbinding rest → s.pool.stopping = false →
    s.Orderly (.workerStop : ServerInput Msg) → Returns pb map s := by
  induction rest with
  | nil =>
    intro s manned kept phase early orderly
    have stepped : s.pool.step pb map .workerStop = some ({ s.pool with
        frontend := s.pool.frontend ++ Zqrpc.workerStop s.pool.started,
        stopping := true }, []) := by
      simp [Pool.step, early]
    have fired : Fires (step pb map) s .workerStop [] { s with
        started := false, phase := .joining 0, pool := { s.pool with
          frontend := s.pool.frontend ++ Zqrpc.workerStop s.pool.started, stopping := true } } := by
      simp [Fires, step, phase, stepped]
    exact Returns.step fired trivial (joining_returns pb map s.pool.started _ 0
      (manned_step manned orderly fired) (kept_step kept fired) rfl (by simp))
  | cons url rest ih =>
    intro s manned kept phase early orderly
    have fired : Fires (step pb map) s (.unbind false) [] { s with phase := .unbinding rest } := by
      simp [Fires, step, phase]
    have unbinds : s.Orderly (.unbind false : ServerInput Msg) := trivial
    exact Returns.step fired rfl (ih _ (manned_step manned unbinds fired) (kept_step kept fired)
      rfl early orderly)

end Progress

/-- There is no traffic of clients, the running workers are connected when the first order is
dealt, and the proxy runs until each of them has an order. -/
def Undisturbed (s : RpcServer) : ServerInput Msg → Prop
  | .pool (.arrive _ _) => False
  | .pool (.deal _) => s.pool.stopping = true → ∀ j ∈ s.pool.awaiting, j ∈ s.pool.turns
  | .proxyEnds _ => s.pool.stopping = true ∧ s.pool.Leaving
  | _ => True

/-- `Close` is not called on a server with workers behind a PUB frontend, and no `unbind`
that it makes throws. -/
def Unhindered (s : RpcServer) : ServerInput Msg → Prop
  | .close => s.noreply = true → s.pool.started = 0
  | .unbind threw => ∀ url ∈ s.nextUrl, threw = true → isInproc url = true
  | _ => True

instance (s : RpcServer) : (input : ServerInput Msg) → Decidable (s.Undisturbed input)
  | .pool (.arrive _ _) => isFalse id
  | .pool (.deal _) => inferInstanceAs
      (Decidable (s.pool.stopping = true → ∀ j ∈ s.pool.awaiting, j ∈ s.pool.turns))
  | .proxyEnds _ => inferInstanceAs (Decidable (s.pool.stopping = true ∧ s.pool.Leaving))
  | .pool (.connect _) | .pool .workerStop | .pool (.work ..) | .pool (.close _) => isTrue trivial
  | .control | .close | .unbind _ | .workerStop | .join | .proxyStop | .closeSockets =>
    isTrue trivial

instance (s : RpcServer) : (input : ServerInput Msg) → Decidable (s.Unhindered input)
  | .close => inferInstanceAs (Decidable (s.noreply = true → s.pool.started = 0))
  | .unbind threw =>
    inferInstanceAs (Decidable (∀ url ∈ s.nextUrl, threw = true → isInproc url = true))
  | .pool _ | .proxyEnds _ | .control | .workerStop | .join | .proxyStop | .closeSockets =>
    isTrue trivial

/-- A server whose `Close` comes to its end. -/
structure Standing (s : RpcServer) : Prop where
  manned : s.Manned
  kept : s.Kept
  advanced : s.Advanced
  turning : s.pool.Turning
  empty : s.pool.stopping = false → s.pool.frontend = []
  proxy : s.proxying = true ∨ (s.pool.stopping = true ∧ s.pool.Leaving)
  served : s.phase ≠ .outside → s.noreply = true → s.pool.started = 0

theorem start_standing {noreply : Bool} {urls : List Bytes} {n : Nat} :
    (start noreply urls n).Standing where
  manned := start_manned noreply urls n
  kept := start_kept noreply urls n
  advanced := .inl ⟨rfl, rfl⟩
  turning := Pool.start_turning n
  empty _ := rfl
  proxy := .inl rfl
  served other := absurd rfl other

theorem Undisturbed.quiet {s : RpcServer} {input : PoolInput Msg} (admits : s.Admits input)
    (undisturbed : s.Undisturbed (.pool input)) : s.pool.Quiet input ∧ input.Internal := by
  cases input with
  | arrive identity frames => exact undisturbed.elim
  | workerStop => exact admits.elim
  | deal i => exact ⟨undisturbed, trivial⟩
  | connect j => exact ⟨trivial, trivial⟩
  | work j interrupted handler reply errorReply => exact ⟨trivial, trivial⟩
  | close j => exact ⟨trivial, trivial⟩

/-- When `Close` is about to stop the workers its orders will reach them. -/
theorem Standing.reaches {s : RpcServer} (held : s.Standing) (phase : s.phase ≠ .outside) :
    s.Orderly (.workerStop : ServerInput Msg) := by
  rcases held.proxy with proxying | ⟨_, leaving⟩
  · cases router : s.noreply with
    | false => exact .inr ⟨proxying, router⟩
    | true =>
      left
      intro j inside
      rw [held.served phase router] at inside
      exact absurd inside (Nat.not_lt_zero j)
  · exact .inl leaving

theorem Standing.orderly {s next : RpcServer} {input : ServerInput Msg} (held : s.Standing)
    (undisturbed : s.Undisturbed input) (fired : s.step pb map input = some (next, events)) :
    s.Orderly input := by
  cases input with
  | pool input => exact held.turning.fair (undisturbed.quiet (step_pool fired).1).1
  | workerStop =>
    refine held.reaches fun outside => ?_
    rw [(step_workerStop fired).1] at outside
    cases outside
  | proxyEnds proxyEnd => exact fun _ => undisturbed.2
  | _ => trivial

theorem served_step {s next : RpcServer} {input : ServerInput Msg}
    (held : s.phase ≠ .outside → s.noreply = true → s.pool.started = 0)
    (unhindered : s.Unhindered input) (fired : s.step pb map input = some (next, events)) :
    next.phase ≠ .outside → next.noreply = true → next.pool.started = 0 := by
  cases input with
  | pool input =>
    obtain ⟨_, p, _, stepped, rfl⟩ := step_pool fired
    intro inside pub
    exact (Pool.step_frame stepped).1.trans (held inside pub)
  | control =>
    obtain rfl := step_control fired
    exact held
  | proxyEnds proxyEnd =>
    obtain ⟨_, rfl⟩ := step_proxyEnds fired
    exact held
  | close =>
    obtain ⟨_, rfl⟩ := step_close fired
    exact fun _ => unhindered
  | unbind threw =>
    obtain ⟨_, _, phase, ⟨_, _, rfl⟩ | rfl⟩ := step_unbind fired
    · exact fun outside => absurd rfl outside
    · exact fun _ => held (by simp [phase])
  | workerStop =>
    obtain ⟨phase, p, _, stepped, rfl⟩ := step_workerStop fired
    intro _ pub
    exact (Pool.step_frame stepped).1.trans (held (by simp [phase]) pub)
  | join =>
    obtain ⟨_, phase, _, _, rfl⟩ := step_join fired
    exact fun _ => held (by simp [phase])
  | proxyStop =>
    obtain ⟨phase, rfl⟩ := step_proxyStop fired
    exact fun _ => held (by simp [phase])
  | closeSockets =>
    obtain ⟨_, rfl⟩ := step_closeSockets fired
    exact fun outside => absurd rfl outside

theorem standing_step {s next : RpcServer} {input : ServerInput Msg} (held : s.Standing)
    (unhindered : s.Unhindered input) (undisturbed : s.Undisturbed input)
    (fired : s.step pb map input = some (next, events)) : next.Standing := by
  have manned := manned_step held.manned (held.orderly undisturbed fired) fired
  have kept := kept_step held.kept fired
  have advanced := advanced_step held.advanced fired
  have served := served_step held.served unhindered fired
  rcases step_cases fired with ⟨input, p, _, rfl, admits, stepped, rfl⟩ |
    ⟨p, _, rfl, stepped, rfl⟩ | ⟨_, _, rfl, rfl⟩ | ⟨_, _, _, rfl⟩
  · obtain ⟨quiet, inside⟩ := undisturbed.quiet admits
    have stopping := admits.stopping stepped
    refine ⟨manned, kept, advanced, Pool.turning_step held.turning quiet stepped, fun early => ?_,
      ?_, served⟩
    · have front := Pool.step_frontend inside stepped
      rw [held.empty (stopping.symm.trans early)] at front
      exact List.subset_nil.mp front
    · rcases held.proxy with proxying | ⟨stopped, leaving⟩
      · exact .inl proxying
      · exact .inr ⟨stopping.trans stopped, Pool.leaving_step leaving stepped⟩
  · have early : s.pool.stopping = false := by
      by_contra stopped
      simp [Pool.step, stopped] at stepped
    have quiet : s.pool.Quiet (.workerStop : PoolInput Msg) := held.empty early
    refine ⟨manned, kept, advanced, Pool.turning_step held.turning quiet stepped, ?_, ?_, served⟩
    · obtain rfl := Pool.step_workerStop stepped
      exact fun late => absurd late (by simp)
    · rcases held.proxy with proxying | ⟨stopped, _⟩
      · exact .inl proxying
      · rw [early] at stopped
        cases stopped
  · exact ⟨manned, kept, advanced, held.turning, held.empty, .inr undisturbed, served⟩
  · exact ⟨manned, kept, advanced, held.turning, held.empty, held.proxy, served⟩

variable (pb map) in
theorem Standing.returns {s : RpcServer} (held : s.Standing) (busy : s.phase ≠ .outside) :
    Returns pb map s := by
  have advanced := held.advanced
  cases phase : s.phase with
  | outside => exact absurd phase busy
  | unbinding rest =>
    rw [Advanced, phase] at advanced
    exact unbinding_returns pb map rest s held.manned held.kept phase advanced.2
      (held.reaches busy)
  | joining it =>
    rw [Advanced, phase] at advanced
    obtain ⟨_, _, range, _⟩ := advanced
    exact joining_returns pb map (s.pool.started - it) s it held.manned held.kept phase (by omega)
  | closing => exact closing_returns pb map phase

/-- `Close` does all it is for, whatever came before it. -/
structure Completes (pb : Protobuf Msg) (map : RpcMethodMapT) (inputs : List (ServerInput Msg))
    (events : List (ServerEvent Msg)) (s : RpcServer) : Prop where
  quiet : .closeThrew ∉ events
  returns : s.phase ≠ .outside → ∃ inputs' events' final, (∀ input ∈ inputs', input.Own) ∧
    Path (Fires (step pb map)) s inputs' events' final ∧ .closeReturned ∈ events' ∧ final.Finished
  finished : .closeReturned ∈ events → s.Finished ∧ inputs.countP (·.stops) = 1
  /-- a second call only closes the sockets that are closed -/
  again : .closeReturned ∈ events → ∀ next emitted, s.step pb map .close = some (next, emitted) →
    next.step pb map .closeSockets = some (s, [.closeReturned])

section Runs

variable {noreply : Bool} {urls : List Bytes} {n : Nat} {inputs : List (ServerInput Msg)}
  {events : List (ServerEvent Msg)} {s : RpcServer}

/-- In a run whose steps all meet the condition `Close` comes to its end. -/
theorem completes_of_unhindered
    (run : Path (Meeting Unhindered (Meeting Undisturbed (Fires (step pb map))))
      (start noreply urls n) inputs events s) : Completes pb map inputs events s := by
  have held : s.Standing := run.state_invariant Standing
    (fun _ _ _ _ held fired => standing_step held fired.1 fired.2.1 fired.2.2) start_standing
  have plain : Path (Fires (step pb map)) (start noreply urls n) inputs events s :=
    run.mono fun _ _ _ _ meets => meets.2.2
  obtain ⟨_, done, counted⟩ := run_done plain
  refine ⟨?_, fun busy => ?_, fun returned => ?_, fun returned next emitted fired => ?_⟩
  · apply run.invariant (fun _ events _ => .closeThrew ∉ events) _ (by simp)
    rintro inputs events s input emitted next quiet ⟨unhindered, _, fired⟩ threw
    rcases List.mem_append.mp threw with before | now
    · exact quiet before
    · rcases step_signals fired with ⟨_, rfl⟩ | ⟨rfl, ⟨url, head, public'⟩, _⟩ | ⟨⟨_, silent⟩, _⟩
      · simp at now
      · have skipped := unhindered url head rfl
        rw [public'] at skipped
        cases skipped
      · exact silent now
  · obtain ⟨inputs', events', final, own, path, returned⟩ := held.returns pb map busy
    have after := (run_done (plain.append path)).2.1 (List.mem_append_right _ returned)
    exact ⟨inputs', events', final, own, path, returned, after.1⟩
  · obtain ⟨finished, _⟩ := done returned
    rw [counted, finished.stopped]
    exact ⟨finished, rfl⟩
  · obtain ⟨finished, _⟩ := done returned
    obtain ⟨phase, rfl⟩ := step_close fired
    have started := finished.started
    have closed := finished.closed
    cases s
    subst phase started closed
    rfl

/-- A worker behind a PUB frontend stays in its loop. -/
theorem noreply_running
    (run : Path (Fires (step pb map)) (start true urls n) inputs events s) (j : Nat) :
    (s.pool.workers j).worker.InLoop := by
  induction run with
  | nil => exact ⟨rfl, rfl⟩
  | @snoc inputs events s input emitted next earlier last ih =>
    rcases step_cases last with ⟨input, p, _, rfl, _, stepped, rfl⟩ |
      ⟨p, _, rfl, stepped, rfl⟩ | ⟨_, _, rfl, rfl⟩ | ⟨_, _, _, rfl⟩
    · rcases Pool.step_worker j stepped with same | ⟨_, _, _, _, recv, queue, _, received, same⟩
      · rwa [same]
      · rcases Pool.receive_queue received with ⟨rfl, _⟩ | ⟨m, queued, _⟩
        · rw [same]
          exact ih
        · rw [noreply_idle earlier j] at queued
          cases queued
    · obtain rfl := Pool.step_workerStop stepped
      exact ih
    · exact ih
    · exact ih

/-- A `Close` that waits for workers behind a PUB frontend does not come back. -/
theorem noreply_unreturned (workers : 0 < n)
    (run : Path (Fires (step pb map)) (start true urls n) inputs events s) :
    .closeReturned ∉ events := by
  intro returned
  obtain ⟨finished, _⟩ := (run_done run).2.1 returned
  rw [← show s.pool.started = n from (path_frame run).2] at workers
  exact (finished.joined 0 workers).1 (noreply_running run 0)

theorem noreply_inside (workers : 0 < n)
    (run : Path (Fires (step pb map)) (start true urls n) inputs events s)
    (called : .close ∈ inputs) : s.phase ≠ .outside ∨ .closeThrew ∈ events := by
  induction run with
  | nil => cases called
  | @snoc inputs events s input emitted next earlier last ih =>
    by_contra ended
    rw [not_or, not_not] at ended
    obtain ⟨outside, quiet⟩ := ended
    rcases step_signals last with ⟨_, rfl⟩ | ⟨_, _, rfl⟩ | ⟨_, _, stays⟩
    · exact noreply_unreturned workers (earlier.snoc last) (by simp)
    · simp at quiet
    · obtain ⟨before, other⟩ := stays outside
      rcases List.mem_append.mp called with old | new
      · rcases ih old with busy | threw
        · exact busy before
        · exact quiet (List.mem_append_left _ threw)
      · rw [← List.mem_singleton.mp new] at other
        cases other

/-- In a run without an exception, and without a call that nothing can answer, every step
meets the condition. -/
theorem unhindered_of_quiet
    (run : Path (Meeting Undisturbed (Fires (step pb map))) (start noreply urls n) inputs events s)
    (quiet : .closeThrew ∉ events) (served : noreply = true → 0 < n → .close ∉ inputs) :
    Path (Meeting Unhindered (Meeting Undisturbed (Fires (step pb map)))) (start noreply urls n)
      inputs events s := by
  induction run with
  | nil => exact .nil
  | @snoc inputs events s input emitted next earlier last ih =>
    have before := ih (fun threw => quiet (List.mem_append_left _ threw))
      (fun pub workers called => served pub workers (List.mem_append_left _ called))
    refine before.snoc ⟨?_, last⟩
    cases input with
    | close =>
      intro pub
      have frame : s.noreply = noreply ∧ s.pool.started = n :=
        path_frame (earlier.mono fun _ _ _ _ meets => meets.2)
      by_contra workers
      exact served (frame.1.symm.trans pub) (by omega) (by simp)
    | unbind threw =>
      rintro url head rfl
      rcases step_signals last.2 with ⟨other, _⟩ | ⟨_, _, rfl⟩ | ⟨_, skips, _⟩
      · cases other
      · simp at quiet
      · exact skips rfl url head
    | _ => trivial

/-- With no traffic of clients and the proxy running, `Close` completes in exactly the runs
in which no `unbind` throws out of it and no worker waits behind a PUB frontend. -/
theorem close_completes_iff
    (run : Path (Meeting Undisturbed (Fires (step pb map))) (start noreply urls n) inputs
      events s) :
    Completes pb map inputs events s ↔
      Path (Meeting Unhindered (Meeting Undisturbed (Fires (step pb map))))
        (start noreply urls n) inputs events s := by
  constructor
  · intro completes
    refine unhindered_of_quiet run completes.quiet fun pub workers called => ?_
    subst pub
    have plain : Path (Fires (step pb map)) (start true urls n) inputs events s :=
      run.mono fun _ _ _ _ meets => meets.2
    rcases noreply_inside workers plain called with busy | threw
    · obtain ⟨_, _, _, _, path, returned, _⟩ := completes.returns busy
      exact noreply_unreturned workers (plain.append path) (List.mem_append_right _ returned)
    · exact completes.quiet threw
  · exact completes_of_unhindered

end Runs

/-- A server with one worker, closed with nothing in the way. -/
def wholeClose : List (ServerInput Bytes) :=
  [.pool (.connect 0), .close, .unbind false, .workerStop, .pool (.deal 0),
    .pool (.work 0 false echo acceptAll acceptAll), .pool (.close 0), .join, .proxyStop,
    .closeSockets]

theorem close_completes_iff_whole : ∃ events s,
    Path (Meeting Undisturbed (Fires (step rawBytes oneMethod)))
      (start false [ascii "tcp://*:5555"] 1) wholeClose events s ∧
    Completes rawBytes oneMethod wholeClose events s := by
  have run : ∃ events s, execute (restrict Unhindered (restrict Undisturbed
      (step rawBytes oneMethod))) wholeClose (start false [ascii "tcp://*:5555"] 1) =
        some (s, events) := ⟨_, _, rfl⟩
  obtain ⟨events, s, run⟩ := run
  have path : Path (Meeting Unhindered (Meeting Undisturbed (Fires (step rawBytes oneMethod))))
      (start false [ascii "tcp://*:5555"] 1) wholeClose events s :=
    (restrict_path run).mono fun _ _ _ _ meets => ⟨meets.1, fires_restrict meets.2⟩
  have quiet := path.mono fun _ _ _ _ meets => meets.2
  exact ⟨events, s, quiet, (close_completes_iff quiet).mpr path⟩

/-- The endpoint was bound under another text, and its `unbind` throws out of `Close`. -/
theorem failed_unbind_escapes : ¬∀ (pb : Protobuf Bytes) (map : RpcMethodMapT) (noreply : Bool)
    (urls : List Bytes) (n : Nat) (inputs : List (ServerInput Bytes))
    (events : List (ServerEvent Bytes)) (s : RpcServer),
    Path (Meeting Undisturbed (Fires (step pb map))) (start noreply urls n) inputs events s →
    Completes pb map inputs events s := by
  intro claim
  have run : ∃ events s, execute (restrict Undisturbed (step rawBytes oneMethod))
      [.pool (.connect 0), .close, .unbind true] (start false [ascii "tcp://*:*"] 1) =
        some (s, events) ∧ .closeThrew ∈ events := ⟨_, _, rfl, by simp⟩
  obtain ⟨events, s, run, threw⟩ := run
  exact (claim rawBytes oneMethod false _ 1 _ events s (restrict_path run)).quiet threw

end RpcServer

end Zqrpc
