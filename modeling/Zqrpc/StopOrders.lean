import Zqrpc.Pool
import Zqrpc.WorkerRuns
import Zqrpc.Path

/-! From `WorkerStop` to the joins of `Close`. The orders are counted and dealt in turn;
what keeps a worker from being left out is that no order goes to one that needs none,
unless there are orders to spare. -/
namespace Zqrpc

open Numeral Steps

variable {Msg : Type} {pb : Protobuf Msg} {map : RpcMethodMapT}

/-- The worker runs and no order waits in its socket. -/
def PoolWorker.awaits (w : PoolWorker) : Bool :=
  decide w.worker.InLoop && !w.queue.any (·.stopOrder)

namespace Pool

/-- The started workers that still need an order. -/
def awaiting (p : Pool) : Finset Nat :=
  (Finset.range p.started).filter fun j => (p.workers j).awaits

/-- How many orders are still at the frontend. -/
def orders (p : Pool) : Nat := p.frontend.countP (·.stopOrder)

/-- All orders were handed to workers, or dropped with one that had left, and some
worker still runs: `Close` waits for it for ever. -/
def Stranded (p : Pool) : Prop :=
  p.stopping = true ∧ p.orders = 0 ∧
    (∀ j < p.started, (p.workers j).worker.InLoop → ∀ m ∈ (p.workers j).queue,
      m.stopOrder = false) ∧
    ∃ j < p.started, (p.workers j).worker.InLoop

/-- An order is dealt to a worker that needs one, or there are orders to spare. -/
def Fair (p : Pool) : PoolInput Msg → Prop
  | .deal i => ∀ m ∈ p.frontend[i]?, ∀ j ∈ p.turns.head?, m.stopOrder = true →
      (p.workers j).awaits = true ∨ p.awaiting.card < p.orders
  | _ => True

instance (p : Pool) : (input : PoolInput Msg) → Decidable (p.Fair input)
  | .deal i => inferInstanceAs (Decidable (∀ m ∈ p.frontend[i]?, ∀ j ∈ p.turns.head?,
      m.stopOrder = true → (p.workers j).awaits = true ∨ p.awaiting.card < p.orders))
  | .connect _ | .arrive _ _ | .workerStop | .work .. | .close _ => isTrue trivial

/-- The orders left suffice for the workers that need one. -/
structure Provided (p : Pool) : Prop where
  stops : ∀ m, p.Carries m → m.stopOrder = true → isStop m.frames = true
  inside : ∀ j ∈ p.turns, j < p.started
  enough : p.stopping = true → p.awaiting.card ≤ p.orders

theorem mem_awaiting {p : Pool} {j : Nat} :
    j ∈ p.awaiting ↔ j < p.started ∧ (p.workers j).awaits = true := by
  rw [awaiting, Finset.mem_filter, Finset.mem_range]

theorem awaiting_setWorker {p : Pool} {i : Nat} {w : PoolWorker}
    (fewer : w.awaits = true → (p.workers i).awaits = true) :
    (p.setWorker i w).awaiting ⊆ p.awaiting := by
  intro j member
  rw [mem_awaiting] at member ⊢
  refine ⟨member.1, ?_⟩
  by_cases other : j = i
  · subst other
    rw [setWorker_self] at member
    exact fewer member.2
  · rw [setWorker_ne p w other] at member
    exact member.2

/-- The order that waits for a worker is the one it needed. -/
theorem awaiting_ordered {p : Pool} {i : Nat} {w : PoolWorker} (inside : i < p.started)
    (needed : (p.workers i).awaits = true) (ordered : w.awaits = false) :
    (p.setWorker i w).awaiting.card < p.awaiting.card := by
  have fewer : (p.setWorker i w).awaiting ⊆ p.awaiting :=
    awaiting_setWorker fun needs => by rw [ordered] at needs; cases needs
  apply Finset.card_lt_card
  rw [Finset.ssubset_iff_of_subset fewer]
  refine ⟨i, mem_awaiting.mpr ⟨inside, needed⟩, fun member => ?_⟩
  have needs := (mem_awaiting.mp member).2
  rw [setWorker_self, ordered] at needs
  cases needs

theorem awaits_append (w : PoolWorker) (m : Inbound) :
    ({ w with queue := w.queue ++ [m] } : PoolWorker).awaits = (w.awaits && !m.stopOrder) := by
  simp [PoolWorker.awaits, Bool.and_assoc]

/-- An iteration leaves a worker without its order only if it had none. -/
theorem awaits_iteration {w : PoolWorker} {round : Round Msg} {interrupted : Bool}
    {queue : List Inbound} (stops : ∀ m ∈ w.queue, m.stopOrder = true → isStop m.frames = true)
    (inLoop : w.worker.InLoop) (received : w.receive interrupted = some (round.recv, queue))
    (needs : (⟨(w.worker.iteration pb ⟨map, false⟩ round).1, queue⟩ : PoolWorker).awaits = true) :
    w.awaits = true := by
  simp only [PoolWorker.awaits, Bool.and_eq_true, decide_eq_true_eq, Bool.not_eq_true'] at needs ⊢
  refine ⟨inLoop, ?_⟩
  rcases receive_queue received with ⟨_, rfl⟩ | ⟨m, head, taken⟩
  · exact needs.2
  · rw [head, List.any_cons, needs.2, Bool.or_false]
    cases order : m.stopOrder with
    | false => rfl
    | true =>
      have stop := stops m (by rw [head]; exact List.mem_cons_self) order
      have ended := needs.1.1
      rw [iteration_stop pb _ round w.worker taken stop] at ended
      cases ended

theorem orders_eraseIdx {p : Pool} {i : Nat} {m : Inbound} (found : p.frontend[i]? = some m) :
    (p.frontend.eraseIdx i).countP (·.stopOrder) + (if m.stopOrder then 1 else 0) = p.orders := by
  obtain ⟨bound, rfl⟩ := List.getElem?_eq_some_iff.mp found
  rw [orders, ← (List.getElem_cons_eraseIdx_perm bound).countP_eq, List.countP_cons]

/-- A worker stays without an order only if it was before. -/
theorem awaiting_step {p next : Pool} {input : PoolInput Msg} (held : p.Provided)
    (fired : p.step pb map input = some (next, events)) : next.awaiting ⊆ p.awaiting := by
  cases input with
  | connect j =>
    obtain ⟨_, rfl⟩ := step_connect fired
    exact subset_rfl
  | arrive identity frames =>
    obtain ⟨rfl, -⟩ := Prod.mk.inj (Option.some.inj fired)
    exact subset_rfl
  | workerStop =>
    obtain rfl := step_workerStop fired
    exact subset_rfl
  | deal i =>
    obtain ⟨m, j, rest, _, _, rfl⟩ := step_deal fired
    apply awaiting_setWorker (p := p) (i := j)
    intro needs
    rw [awaits_append, Bool.and_eq_true] at needs
    exact needs.1
  | work j interrupted handler reply errorReply =>
    obtain ⟨recv, queue, received, inLoop, rfl⟩ := step_work fired
    apply awaiting_setWorker
    exact awaits_iteration (fun m queued => held.stops m (.inr ⟨j, queued⟩)) inLoop received
  | close j =>
    obtain ⟨left', rfl⟩ := step_close fired
    apply awaiting_setWorker (p := p) (i := j)
    intro needs
    simp [PoolWorker.awaits, left'] at needs

/-- Neither a deal that is fair nor any other step leaves too few orders. -/
theorem enough_step {p next : Pool} {input : PoolInput Msg} (held : p.Provided)
    (fair : p.Fair input) (fired : p.step pb map input = some (next, events))
    (stopped : next.stopping = true) : next.awaiting.card ≤ next.orders := by
  have fewer : next.awaiting.card ≤ p.awaiting.card :=
    Finset.card_le_card (awaiting_step held fired)
  cases input with
  | connect j =>
    obtain ⟨_, rfl⟩ := step_connect fired
    exact held.enough stopped
  | arrive identity frames =>
    obtain ⟨rfl, -⟩ := Prod.mk.inj (Option.some.inj fired)
    have same : ({ p with frontend := p.frontend ++ [⟨false, identity :: frames⟩] } : Pool).orders =
        p.orders := by simp [orders]
    rw [same]
    exact held.enough stopped
  | workerStop =>
    obtain rfl := step_workerStop fired
    calc p.awaiting.card ≤ (Finset.range p.started).card := Finset.card_filter_le _ _
      _ = (workerStop p.started).countP (·.stopOrder) := by
        simp [workerStop, List.countP_replicate]
      _ ≤ (p.frontend ++ workerStop p.started).countP (·.stopOrder) := by
        rw [List.countP_append]
        apply Nat.le_add_left
  | deal i =>
    obtain ⟨m, j, rest, found, turn, rfl⟩ := step_deal fired
    have left' := orders_eraseIdx found
    have enough := held.enough stopped
    cases order : m.stopOrder with
    | false =>
      rw [order] at left'
      exact (fewer.trans enough).trans left'.ge
    | true =>
      rw [order] at left'
      rcases fair m found j (by rw [turn]; rfl) order with needed | spare
      · have inside := held.inside j (by rw [turn]; exact List.mem_cons_self)
        have once := awaiting_ordered inside needed
          ((awaits_append (p.workers j) m).trans (by rw [order]; simp))
        apply Nat.le_of_lt_succ
        exact (once.trans_le enough).trans_le left'.ge
      · apply Nat.le_of_lt_succ
        exact (fewer.trans_lt spare).trans_le left'.ge
  | work j interrupted handler reply errorReply =>
    obtain ⟨_, _, _, _, rfl⟩ := step_work fired
    exact fewer.trans (held.enough stopped)
  | close j =>
    obtain ⟨_, rfl⟩ := step_close fired
    exact fewer.trans (held.enough stopped)

theorem provided_step {p next : Pool} {input : PoolInput Msg} (held : p.Provided)
    (fair : p.Fair input) (fired : p.step pb map input = some (next, events)) :
    next.Provided := by
  obtain ⟨same, _, turns⟩ := step_frame fired
  constructor
  · intro m carried order
    rcases step_carries fired carried with before | ⟨_, _, _, rfl⟩ | ⟨_, sent⟩
    · exact held.stops m before order
    · cases order
    · rw [List.eq_of_mem_replicate sent]
      rfl
  · intro j member
    rw [same]
    rcases turns j member with before | inside
    · exact held.inside j before
    · exact inside
  · exact enough_step held fair fired

theorem start_provided (n : Nat) : (start n).Provided where
  stops m carried := absurd carried (start_carries n m)
  inside j member := by cases member
  enough stopped := by cases stopped

/-- When the orders are dealt fairly, no worker still runs after the last of them is gone. -/
theorem none_stranded
    (run : Path (Meeting Fair (Fires (step pb map))) (start n) inputs events p) :
    ¬p.Stranded := by
  have held : p.Provided := by
    apply run.state_invariant Provided
    · exact fun _ _ _ _ held fired => provided_step held fired.1 fired.2
    · exact start_provided n
  rintro ⟨stopped, allDealt, handed, j, inside, inLoop⟩
  have needs : j ∈ p.awaiting := by
    rw [mem_awaiting]
    refine ⟨inside, ?_⟩
    simp only [PoolWorker.awaits, Bool.and_eq_true, decide_eq_true_eq, Bool.not_eq_true',
      List.any_eq_false, Bool.not_eq_true]
    exact ⟨inLoop, handed j inside inLoop⟩
  have left' := Finset.card_pos.mpr ⟨j, needs⟩
  have enough := held.enough stopped
  omega

/-- The orders go out with no request between them. -/
def closing : List (PoolInput Bytes) :=
  [.connect 0, .connect 1, .arrive (ascii "t1") [[], ascii "1", ascii "m", []], .workerStop,
    .deal 0, .deal 0, .deal 0, .work 0 false echo acceptAll acceptAll,
    .work 1 false echo acceptAll acceptAll, .work 0 false echo acceptAll acceptAll,
    .close 0, .close 1]

theorem none_stranded_closing : ∃ events p,
    Path (Meeting Fair (Fires (step rawBytes oneMethod))) (start 2) closing events p ∧
      p.stopping = true ∧ ¬p.Stranded := by
  have run : ∃ events p, execute (restrict Fair (step rawBytes oneMethod)) closing (start 2) =
      some (p, events) ∧ p.stopping = true := ⟨_, _, rfl, rfl⟩
  obtain ⟨events, p, run, stopped⟩ := run
  exact ⟨events, p, restrict_path run, stopped, none_stranded (restrict_path run)⟩

/-- A request dealt between the two orders sends both to the first worker. -/
def crossed : List (PoolInput Bytes) :=
  [.workerStop, .arrive (ascii "t1") [[], ascii "1", ascii "m", []], .deal 0, .deal 1, .deal 0,
    .work 0 false echo acceptAll acceptAll, .work 1 false echo acceptAll acceptAll, .close 0]

theorem crossed_run : ∃ started first p events,
    execute (step rawBytes oneMethod) [.connect 0, .connect 1] (start 2) = some (started, first) ∧
    (∀ j < 2, (started.workers j).worker.InLoop ∧ j ∈ started.turns) ∧
    execute (step rawBytes oneMethod) crossed started = some (p, events) ∧ p.Stranded := by
  refine ⟨_, _, _, _, rfl, by decide, rfl, rfl, rfl, ?_, 1, by decide, by decide⟩
  intro j inside _ m queued
  obtain rfl | rfl : j = 0 ∨ j = 1 := Nat.le_one_iff_eq_zero_or_eq_one.mp (Nat.le_of_lt_succ inside)
  · cases queued
  · cases queued

/-- Both workers run and are connected when `WorkerStop` is called, and one is left. -/
theorem crossed_order_strands : ¬∀ (pb : Protobuf Bytes) (map : RpcMethodMapT) (n : Nat)
    (before after : List (PoolInput Bytes)) (first events : List (WorkerEvent Bytes))
    (started p : Pool), Path (Fires (step pb map)) (start n) before first started →
    (∀ j < n, (started.workers j).worker.InLoop ∧ j ∈ started.turns) →
    Path (Fires (step pb map)) started (.workerStop :: after) events p → ¬p.Stranded := by
  intro claim
  obtain ⟨started, first, p, events, starts, running, run, stranded⟩ := crossed_run
  exact claim _ _ 2 _ _ _ _ _ p (execute_path starts) running (execute_path run) stranded

end Pool

end Zqrpc
