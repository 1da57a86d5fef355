import Zqrpc.CloseRuns
import Zqrpc.RoundRobin

/-! The other half of `Orderly`: a step that breaks the condition can come to a `Close` that
waits for ever, and no client has to do anything for it. -/
namespace Zqrpc

open Numeral Steps

variable {Msg : Type} {pb : Protobuf Msg} {map : RpcMethodMapT}

namespace Pool

/-- A worker does not come back into its loop. -/
theorem step_inLoop {p next : Pool} {input : PoolInput Msg} {j : Nat}
    (fired : p.step pb map input = some (next, events))
    (inLoop : (next.workers j).worker.InLoop) : (p.workers j).worker.InLoop := by
  rcases step_worker j fired with same | ⟨_, _, _, _, _, _, rfl, _, _⟩
  · rwa [same] at inLoop
  · obtain ⟨_, _, _, inLoop, _⟩ := step_work fired
    exact inLoop

theorem step_awaiting_ne {p : Pool} {a j : Nat} {w : PoolWorker} (other : j ≠ a)
    (needs : j ∈ p.awaiting) : j ∈ (p.setWorker a w).awaiting := by
  rw [mem_awaiting] at needs ⊢
  rwa [setWorker_ne p w other]

/-- Every `TERMINATE` on its way is an order of `WorkerStop`. -/
def Own (p : Pool) : Prop := ∀ m, p.Carries m → isStop m.frames = true → m.stopOrder = true

theorem own_step {p next : Pool} {input : PoolInput Msg} (own : p.Own)
    (fired : p.step pb map input = some (next, events)) (inside : input.Internal) :
    next.Own := by
  intro m carried stop
  rcases step_carries fired carried with before | ⟨_, _, rfl, rfl⟩ | ⟨_, sent⟩
  · exact own m before stop
  · exact inside.elim
  · rw [List.eq_of_mem_replicate sent]

/-- A deal that breaks the condition leaves fewer orders than workers that need one. -/
theorem unfair_deal {p next : Pool} {i : Nat}
    (fired : p.step pb map (.deal i) = some (next, events))
    (broken : ¬p.Fair (.deal i : PoolInput Msg)) : (∃ m ∈ p.frontend, m.stopOrder = true) ∧
      next.orders < next.awaiting.card ∧ next.turns ≠ [] := by
  obtain ⟨m, a, rest, found, turn, rfl⟩ := step_deal fired
  obtain ⟨order, needless, few⟩ : m.stopOrder = true ∧ (p.workers a).awaits ≠ true ∧
      p.orders ≤ p.awaiting.card := by
    by_contra fair
    apply broken
    intro m' found' a' head order
    obtain rfl := Option.some.inj (found.symm.trans found')
    rw [turn] at head
    obtain rfl := Option.some.inj head
    by_contra unmet
    obtain ⟨needless, few⟩ := not_or.mp unmet
    exact fair ⟨order, needless, Nat.le_of_not_lt few⟩
  refine ⟨⟨m, List.mem_of_getElem? found, order⟩, ?_, by simp⟩
  have left' := orders_eraseIdx found
  rw [order] at left'
  have kept : p.awaiting ⊆
      (p.setWorker a { p.workers a with queue := (p.workers a).queue ++ [m] }).awaiting := by
    intro k needs
    apply step_awaiting_ne _ needs
    rintro rfl
    exact needless (mem_awaiting.mp needs).2
  calc _ < p.orders := left' ▸ Nat.lt_succ_self _
    _ ≤ p.awaiting.card := few
    _ ≤ _ := Finset.card_le_card kept

variable (pb map) in
/-- The orders at the frontend can be dealt until none is left, one worker with each. -/
theorem deals_out (n : Nat) : ∀ p : Pool, p.orders = n → p.turns ≠ [] →
    ∃ inputs events q, (∀ input ∈ inputs, ∃ i, input = .deal i) ∧
      Path (Fires (step pb map)) p inputs events q ∧ q.orders = 0 ∧
      p.awaiting.card ≤ q.awaiting.card + n := by
  induction n with
  | zero => exact fun p none' _ => ⟨[], [], p, by simp, .nil, none', le_rfl⟩
  | succ n ih =>
    intro p count connected
    obtain ⟨m, member, order⟩ : ∃ m ∈ p.frontend, m.stopOrder = true := by
      apply List.countP_pos_iff.mp
      exact (Nat.succ_pos n).trans_eq count.symm
    obtain ⟨i, found⟩ := List.mem_iff_getElem?.mp member
    obtain ⟨a, rest, turn⟩ := List.exists_cons_of_ne_nil connected
    have fired : Fires (step pb map) p (.deal i) [] _ := step_dealt pb map found turn
    have left' := orders_eraseIdx found
    rw [order, count] at left'
    obtain ⟨inputs, events, q, deals, path, out, enough⟩ := ih
      { p.setWorker a { p.workers a with queue := (p.workers a).queue ++ [m] } with
        frontend := p.frontend.eraseIdx i, turns := rest ++ [a] }
      (Nat.succ.inj left') (by simp)
    refine ⟨.deal i :: inputs, _, q, List.forall_mem_cons.mpr ⟨⟨i, rfl⟩, deals⟩,
      .cons fired path, out, ?_⟩
    have fewer : p.awaiting ⊆ insert a (p.setWorker a
        { p.workers a with queue := (p.workers a).queue ++ [m] }).awaiting := by
      intro j needs
      by_cases same : j = a
      · exact Finset.mem_insert.mpr (.inl same)
      · exact Finset.mem_insert_of_mem (step_awaiting_ne same needs)
    calc p.awaiting.card ≤ _ := Finset.card_le_card fewer
      _ ≤ _ + 1 := Finset.card_insert_le _ _
      _ ≤ q.awaiting.card + n + 1 := Nat.succ_le_succ enough

end Pool

namespace RpcServer

/-- `Close` has joined only threads that are at their end, and once it has left the joins
behind all of them are. -/
def Joined (s : RpcServer) : Prop :=
  match s.phase with
  | .joining it => ∀ k < it, ¬(s.pool.workers k).worker.InLoop
  | _ => s.pool.stopping = true → ∀ k < s.pool.started, ¬(s.pool.workers k).worker.InLoop

theorem joined_step {s next : RpcServer} {input : ServerInput Msg} (held : s.Joined)
    (fired : s.step pb map input = some (next, events)) : next.Joined := by
  unfold Joined at held ⊢
  cases input with
  | pool input =>
    obtain ⟨admits, p, _, stepped, rfl⟩ := step_pool fired
    have stopping := admits.stopping stepped
    have started := (Pool.step_frame stepped).1
    cases phase : s.phase with
    | joining it =>
      rw [phase] at held
      exact fun k earlier inLoop => held k earlier (Pool.step_inLoop stepped inLoop)
    | _ =>
      rw [phase] at held
      exact fun stopped k inside inLoop =>
        held (stopping.symm.trans stopped) k (inside.trans_eq started)
          (Pool.step_inLoop stepped inLoop)
  | control =>
    obtain rfl := step_control fired
    exact held
  | proxyEnds proxyEnd =>
    obtain ⟨_, rfl⟩ := step_proxyEnds fired
    exact held
  | close =>
    obtain ⟨phase, rfl⟩ := step_close fired
    rw [phase] at held
    cases started : s.started <;> exact held
  | unbind threw =>
    obtain ⟨url, rest, phase, ⟨_, _, rfl⟩ | rfl⟩ := step_unbind fired
    · rw [phase] at held
      exact held
    · rw [phase] at held
      exact held
  | workerStop =>
    obtain ⟨_, p, _, _, rfl⟩ := step_workerStop fired
    exact fun k earlier => absurd earlier (Nat.not_lt_zero k)
  | join =>
    obtain ⟨it, phase, _, ended, rfl⟩ := step_join fired
    rw [phase] at held
    intro k earlier
    rcases Nat.lt_succ_iff_lt_or_eq.mp earlier with before | rfl
    · exact held k before
    · exact ended.1
  | proxyStop =>
    obtain ⟨phase, rfl⟩ := step_proxyStop fired
    rw [phase] at held
    exact fun _ => held
  | closeSockets =>
    obtain ⟨phase, rfl⟩ := step_closeSockets fired
    rw [phase] at held
    exact held

variable (pb map) in
theorem join_fires {s : RpcServer} {it : Nat} (phase : s.phase = .joining it)
    (inside : it < s.pool.started) (ended : s.Ended it) :
    Fires (step pb map) s .join [] { s with phase := .joining (it + 1) } := by
  simp only [Fires, step, phase, if_pos (And.intro inside ended)]

/-- A state in which `Close` is stuck can be reached without a message of a client. -/
def ComesToStuck (pb : Protobuf Msg) (map : RpcMethodMapT) (s : RpcServer) : Prop :=
  ∃ inputs events final, (∀ identity frames, .pool (.arrive identity frames) ∉ inputs) ∧
    Path (Fires (step pb map)) s inputs events final ∧ final.Stuck pb map

theorem ComesToStuck.after {s middle : RpcServer} {inputs : List (ServerInput Msg)}
    {events : List (ServerEvent Msg)}
    (noClient : ∀ identity frames, .pool (.arrive identity frames) ∉ inputs)
    (path : Path (Fires (step pb map)) s inputs events middle)
    (later : ComesToStuck pb map middle) : ComesToStuck pb map s := by
  obtain ⟨inputs', _, final, noClient', path', stuck⟩ := later
  refine ⟨inputs ++ inputs', _, final, fun identity frames member => ?_, path.append path', stuck⟩
  rcases List.mem_append.mp member with before | after
  · exact noClient identity frames before
  · exact noClient' identity frames after

/-- Once nobody can be given a `TERMINATE`, the joins come to the first worker without one. -/
theorem comes_to_stuck (n : Nat) : ∀ (s : RpcServer) (it : Nat), s.Cut → s.phase = .joining it →
    s.pool.started = it + n → s.pool.turns.Nodup →
    (∃ j < s.pool.started, it ≤ j ∧ ¬(s.pool.workers j).Leaving) → ComesToStuck pb map s := by
  induction n with
  | zero =>
    rintro s it _ _ range _ ⟨j, inside, from', _⟩
    omega
  | succ n ih =>
    rintro s it cut phase range nodup ⟨j, inside, from', remains⟩
    by_cases leaving : (s.pool.workers it).Leaving
    · obtain ⟨inputs, _, w, works, path, ended⟩ := Pool.ends pb map leaving
      obtain ⟨events, path'⟩ := pool_path path fun input member => .of_works (works input member) s
      refine ComesToStuck.after (no_client fun input member => (works input member).internal)
        path' ?_
      let p : Pool := { s.pool.setWorker it w with turns := s.pool.turns.erase it }
      have ends : ({ s with pool := p } : RpcServer).Ended it :=
        ⟨by rwa [Pool.setWorker_self], nodup.not_mem_erase⟩
      have fired := join_fires pb map (s := { s with pool := p }) phase
        (by simp only [p, Pool.setWorker]; omega) ends
      refine ComesToStuck.after (by simp) (.single fired) ?_
      have other : j ≠ it := by
        rintro rfl
        exact remains leaving
      refine ih _ (it + 1) cut rfl ?_ (nodup.erase it) ⟨j, inside, by omega, ?_⟩
      · simp only [p, Pool.setWorker]
        omega
      · rwa [Pool.setWorker_ne s.pool w other]
    · obtain ⟨inLoop, none'⟩ : (s.pool.workers it).worker.InLoop ∧
          ∀ m ∈ (s.pool.workers it).queue, isStop m.frames = false := by
        simpa [PoolWorker.Leaving] using leaving
      exact ⟨[], [], s, by simp, .nil, it, phase, by omega, inLoop, none', cut_off cut none'⟩

theorem comes_to_stuck_of_cut {s : RpcServer} (joined : s.Joined) (nodup : s.pool.turns.Nodup)
    (stopped : s.pool.stopping = true) (cut : s.Cut) (remains : ¬s.pool.Leaving) :
    ComesToStuck pb map s := by
  obtain ⟨j, inside, stays⟩ : ∃ j < s.pool.started, ¬(s.pool.workers j).Leaving := by
    simpa [Pool.Leaving] using remains
  have inLoop : (s.pool.workers j).worker.InLoop := by
    by_contra ended
    exact stays fun inLoop => absurd inLoop ended
  cases phase : s.phase with
  | joining it =>
    rw [Joined, phase] at joined
    have from' : it ≤ j := Nat.le_of_not_lt fun before => joined j before inLoop
    exact comes_to_stuck (s.pool.started - it) s it cut phase (by omega) nodup
      ⟨j, inside, from', stays⟩
  | _ =>
    rw [Joined, phase] at joined
    exact absurd inLoop (joined stopped j inside)

/-- What every run of a server keeps. -/
structure Kept (s : RpcServer) : Prop where
  joined : s.Joined
  nodup : s.pool.turns.Nodup
  early : s.pool.stopping = false → ∀ m, s.pool.Carries m → m.stopOrder = false

theorem start_kept (noreply : Bool) (urls : List Bytes) (n : Nat) :
    (start noreply urls n).Kept where
  joined stopped := by cases stopped
  nodup := List.nodup_nil
  early _ m carried := absurd carried (Pool.start_carries n m)

theorem kept_step {s next : RpcServer} {input : ServerInput Msg} (held : s.Kept)
    (fired : s.step pb map input = some (next, events)) : next.Kept := by
  have joined := joined_step held.joined fired
  rcases step_cases fired with ⟨input, p, _, rfl, admits, stepped, rfl⟩ |
    ⟨p, _, rfl, stepped, rfl⟩ | ⟨_, _, rfl, rfl⟩ | ⟨_, _, _, rfl⟩
  · exact ⟨joined, Pool.nodup_step held.nodup stepped, Pool.early_step held.early stepped⟩
  · exact ⟨joined, Pool.nodup_step held.nodup stepped, Pool.early_step held.early stepped⟩
  · exact ⟨joined, held.nodup, held.early⟩
  · exact ⟨joined, held.nodup, held.early⟩

/-- Fewer orders than workers that need one are dealt out, and one of these is left. -/
theorem comes_to_stuck_of_few {s : RpcServer} (kept : s.Kept) (own : s.pool.Own)
    (stopped : s.pool.stopping = true) (few : s.pool.orders < s.pool.awaiting.card)
    (connected : s.pool.turns ≠ [])
    (admits : ∀ k, s.Admits (.deal k : PoolInput Msg)) : ComesToStuck pb map s := by
  obtain ⟨inputs, _, q, deals, path, out, enough⟩ :=
    Pool.deals_out pb map s.pool.orders s.pool rfl connected
  have internal : ∀ input ∈ inputs, input.Internal := by
    intro input member
    obtain ⟨k, rfl⟩ := deals input member
    trivial
  obtain ⟨own', stopped'⟩ : q.Own ∧ q.stopping = true := by
    have meets := path.meeting fun input member (_ : Pool) => internal input member
    apply meets.state_invariant (fun p => p.Own ∧ p.stopping = true) ?_ ⟨own, stopped⟩
    rintro p input emitted next ⟨own, stopped⟩ ⟨inside, fired⟩
    refine ⟨Pool.own_step own fired inside, ?_⟩
    exact (Pool.step_stopping (by rintro rfl; exact inside) fired).trans stopped
  have admitted : ∀ input ∈ inputs, s.Admits input := by
    intro input member
    obtain ⟨k, rfl⟩ := deals input member
    exact admits k
  obtain ⟨events, path'⟩ := pool_path path admitted
  have kept' := path'.state_invariant Kept
    (fun _ _ _ _ held fired => kept_step held fired) kept
  refine ComesToStuck.after (no_client internal) path' ?_
  refine comes_to_stuck_of_cut kept'.joined kept'.nodup stopped' (.inr (.inr ⟨stopped', ?_⟩)) ?_
  · intro m front
    rw [Bool.eq_false_iff]
    intro stop
    have some' : 0 < q.orders := List.countP_pos_iff.mpr ⟨m, front, own' m (.inl front) stop⟩
    omega
  · intro leaving
    obtain ⟨k, needs⟩ := Finset.card_pos.mp (show 0 < q.awaiting.card by omega)
    obtain ⟨inside, awaits⟩ := Pool.mem_awaiting.mp needs
    simp only [PoolWorker.awaits, Bool.and_eq_true, decide_eq_true_eq, Bool.not_eq_true',
      List.any_eq_false] at awaits
    obtain ⟨stop, member, stops⟩ := leaving k inside awaits.1
    exact awaits.2 stop member (own' stop (.inr ⟨k, member⟩) stops)

/-- A step that breaks the condition can come to a `Close` that waits for ever, if no client
has sent the text of a stop order. -/
theorem broken_comes_to_stuck {s next : RpcServer} {input : ServerInput Msg} (held : s.Kept)
    (own : s.pool.Own) (fired : s.step pb map input = some (next, events))
    (broken : ¬s.Orderly input) : ComesToStuck pb map next := by
  have kept := kept_step held fired
  cases input with
  | pool input =>
    cases input with
    | deal i =>
      obtain ⟨admits, p, _, stepped, rfl⟩ := step_pool fired
      obtain ⟨⟨m, member, order⟩, few, connected⟩ := Pool.unfair_deal stepped broken
      have stopped : s.pool.stopping = true := by
        by_contra early
        have other := held.early (Bool.eq_false_of_not_eq_true early) m (.inl member)
        rw [order] at other
        cases other
      apply comes_to_stuck_of_few kept (Pool.own_step own stepped trivial) _ few connected
      · exact fun _ => admits
      · exact (admits.stopping stepped).trans stopped
    | _ => exact absurd trivial broken
  | workerStop =>
    obtain ⟨_, p, _, stepped, rfl⟩ := step_workerStop fired
    obtain rfl := Pool.step_workerStop stepped
    obtain ⟨remains, unreached⟩ := not_or.mp broken
    refine comes_to_stuck_of_cut kept.joined kept.nodup rfl ?_ remains
    cases proxying : s.proxying with
    | true =>
      left
      by_contra router
      exact unreached ⟨proxying, Bool.eq_false_of_not_eq_true router⟩
    | false => exact .inr (.inl rfl)
  | proxyEnds proxyEnd =>
    obtain ⟨_, rfl⟩ := step_proxyEnds fired
    obtain ⟨stopped, remains⟩ := Classical.not_imp.mp broken
    exact comes_to_stuck_of_cut kept.joined kept.nodup stopped (.inr (.inl rfl)) remains
  | _ => exact absurd trivial broken

/-- In a run that meets the condition `Close` is never stuck, and a step that breaks it can
come to a `Close` that is. -/
theorem orderly_close {noreply : Bool} {urls : List Bytes} {n : Nat}
    {inputs : List (ServerInput Msg)} {events : List (ServerEvent Msg)} {s : RpcServer}
    (run : Path (Meeting Orderly (Fires (step pb map))) (start noreply urls n) inputs events s) :
    ¬s.Stuck pb map ∧
    ∀ input emitted next, s.step pb map input = some (next, emitted) → ¬s.Orderly input →
      s.pool.Own → ComesToStuck pb map next := by
  have kept : s.Kept := by
    apply run.state_invariant Kept
    · exact fun _ _ _ _ held fired => kept_step held fired.2
    · exact start_kept noreply urls n
  exact ⟨none_stuck run, fun _ _ _ fired broken own =>
    broken_comes_to_stuck kept own fired broken⟩

/-- `Close` waits for a worker whose order is still at the frontend. -/
theorem orderly_close_called : ∃ events s, Path (Meeting Orderly (Fires (step rawBytes oneMethod)))
    (start false [ascii "tcp://*:5555"] 2)
    [.pool (.connect 0), .close, .pool (.connect 1), .unbind false, .workerStop] events s ∧
    s.phase = .joining 0 ∧ (s.pool.workers 0).worker.InLoop ∧ (s.pool.workers 0).queue = [] ∧
    ¬s.Stuck rawBytes oneMethod := by
  have run : ∃ events s, execute (restrict Orderly (step rawBytes oneMethod))
      [.pool (.connect 0), .close, .pool (.connect 1), .unbind false, .workerStop]
      (start false [ascii "tcp://*:5555"] 2) = some (s, events) ∧ s.phase = .joining 0 ∧
      (s.pool.workers 0).worker.InLoop ∧ (s.pool.workers 0).queue = [] :=
    ⟨_, _, rfl, rfl, by decide, rfl⟩
  obtain ⟨events, s, run, phase, inLoop, empty⟩ := run
  exact ⟨events, s, restrict_path run, phase, inLoop, empty,
    (orderly_close (restrict_path run)).1⟩

/-- The proxy call throws, `Start` comes back, and `Close` waits for a worker for ever. -/
theorem ended_proxy_sticks : ¬∀ (pb : Protobuf Bytes) (map : RpcMethodMapT) (noreply : Bool)
    (urls : List Bytes) (n : Nat) (inputs : List (ServerInput Bytes))
    (events : List (ServerEvent Bytes)) (s : RpcServer), 0 < n →
    (∀ identity frames, .pool (.arrive identity frames) ∉ inputs) →
    Path (Fires (step pb map)) (start noreply urls n) inputs events s → ¬s.Stuck pb map := by
  intro claim
  have run : ∃ events s, execute (step rawBytes oneMethod)
      [.pool (.connect 0), .proxyEnds .threw, .close, .workerStop] (start false [] 1) =
        some (s, events) ∧ s.phase = .joining 0 ∧ s.pool.started = 1 ∧ s.proxying = false ∧
      (s.pool.workers 0).worker.InLoop ∧ (s.pool.workers 0).queue = [] :=
    ⟨_, _, rfl, rfl, rfl, rfl, by decide, rfl⟩
  obtain ⟨events, s, run, phase, started, ended, inLoop, empty⟩ := run
  refine claim rawBytes oneMethod false [] 1 _ events s Nat.one_pos (by simp) (execute_path run) ?_
  have none' : ∀ m ∈ (s.pool.workers 0).queue, isStop m.frames = false := by simp [empty]
  refine ⟨0, phase, by rw [started]; exact Nat.one_pos, inLoop, none', ?_⟩
  exact cut_off (.inr (.inl ended)) none'

end RpcServer

end Zqrpc
