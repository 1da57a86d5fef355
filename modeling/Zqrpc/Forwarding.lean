import Zqrpc.StopOrders

/-! While the proxy runs and enough orders are left, each worker that needs one can still
get it: the workers dealt to before it take theirs, or leave and make room. -/
namespace Zqrpc

open Steps

variable {Msg : Type} {pb : Protobuf Msg} {map : RpcMethodMapT}

/-- A step of the proxy or of a worker, neither a client's nor one of `Close`. -/
def PoolInput.Internal : PoolInput Msg → Prop
  | .arrive _ _ | .workerStop => False
  | .connect _ | .deal _ | .work .. | .close _ => True

/-- A worker goes on or leaves. -/
def PoolInput.Works : PoolInput Msg → Prop
  | .work .. | .close _ => True
  | .arrive _ _ | .workerStop | .connect _ | .deal _ => False

theorem PoolInput.Works.internal {input : PoolInput Msg} (works : input.Works) :
    input.Internal := by
  cases input with
  | work j interrupted handler reply errorReply => trivial
  | close j => trivial
  | _ => exact works.elim

theorem PoolInput.Works.fair {input : PoolInput Msg} (works : input.Works) (p : Pool) :
    p.Fair input := by
  cases input with
  | work j interrupted handler reply errorReply => trivial
  | close j => trivial
  | _ => exact works.elim

/-- The worker is not in its loop, or a `TERMINATE` waits for it. -/
def PoolWorker.Leaving (w : PoolWorker) : Prop :=
  w.worker.InLoop → ∃ m ∈ w.queue, isStop m.frames = true

instance (w : PoolWorker) : Decidable w.Leaving :=
  inferInstanceAs (Decidable (w.worker.InLoop → ∃ m ∈ w.queue, isStop m.frames = true))

namespace Pool

def Leaving (p : Pool) : Prop := ∀ j < p.started, (p.workers j).Leaving

instance (p : Pool) : Decidable p.Leaving :=
  inferInstanceAs (Decidable (∀ j < p.started, (p.workers j).Leaving))

theorem leaving_setWorker {p : Pool} {i : Nat} {w : PoolWorker} (held : p.Leaving)
    (leaves : (p.workers i).Leaving → w.Leaving) : (p.setWorker i w).Leaving := by
  intro j inside
  by_cases other : j = i
  · subst other
    rw [setWorker_self]
    exact leaves (held j inside)
  · rw [setWorker_ne p w other]
    exact held j inside

/-- What a worker takes from its queue is not the `TERMINATE`, or ends its loop. -/
theorem leaving_iteration {w : PoolWorker} {round : Round Msg} {interrupted : Bool}
    {queue : List Inbound} (inLoop : w.worker.InLoop)
    (received : w.receive interrupted = some (round.recv, queue)) (leaves : w.Leaving) :
    (⟨(w.worker.iteration pb ⟨map, false⟩ round).1, queue⟩ : PoolWorker).Leaving := by
  intro stays
  obtain ⟨m, member, stop⟩ := leaves inLoop
  rcases receive_queue received with ⟨_, rfl⟩ | ⟨head, same, taken⟩
  · exact ⟨m, member, stop⟩
  · rw [same] at member
    rcases List.mem_cons.mp member with rfl | later
    · have ended := stays.1
      rw [iteration_stop pb _ round w.worker taken stop] at ended
      cases ended
    · exact ⟨m, later, stop⟩

theorem leaving_step {p next : Pool} {input : PoolInput Msg} (held : p.Leaving)
    (fired : p.step pb map input = some (next, events)) : next.Leaving := by
  cases input with
  | connect j =>
    obtain ⟨_, rfl⟩ := step_connect fired
    exact held
  | arrive identity frames =>
    obtain ⟨rfl, -⟩ := Prod.mk.inj (Option.some.inj fired)
    exact held
  | workerStop =>
    obtain rfl := step_workerStop fired
    exact held
  | deal i =>
    obtain ⟨m, j, rest, _, _, rfl⟩ := step_deal fired
    apply leaving_setWorker (p := p) (i := j) held
    intro leaves inLoop
    obtain ⟨stop, member, isStop⟩ := leaves inLoop
    exact ⟨stop, List.mem_append_left _ member, isStop⟩
  | work j interrupted handler reply errorReply =>
    obtain ⟨recv, queue, received, inLoop, rfl⟩ := step_work fired
    exact leaving_setWorker held (leaving_iteration inLoop received)
  | close j =>
    obtain ⟨left', rfl⟩ := step_close fired
    exact leaving_setWorker (p := p) (i := j) held fun _ inLoop => absurd inLoop left'

/-- Only a deal adds to a worker's queue. -/
theorem step_queue {p next : Pool} {input : PoolInput Msg}
    (fired : p.step pb map input = some (next, events)) {j : Nat} {m : Inbound}
    (queued : m ∈ (next.workers j).queue) :
    m ∈ (p.workers j).queue ∨ ((∃ i, input = .deal i) ∧ m ∈ p.frontend) := by
  have at' {k : Nat} {w : PoolWorker} (queued : m ∈ ((p.setWorker k w).workers j).queue) :
      m ∈ (p.workers j).queue ∨ (j = k ∧ m ∈ w.queue) := by
    by_cases same : j = k
    · subst same
      rw [setWorker_self] at queued
      exact .inr ⟨rfl, queued⟩
    · rw [setWorker_ne p w same] at queued
      exact .inl queued
  cases input with
  | connect k =>
    obtain ⟨_, rfl⟩ := step_connect fired
    exact .inl queued
  | arrive identity frames =>
    obtain ⟨rfl, -⟩ := Prod.mk.inj (Option.some.inj fired)
    exact .inl queued
  | workerStop =>
    obtain rfl := step_workerStop fired
    exact .inl queued
  | deal i =>
    obtain ⟨m', k, rest, found, _, rfl⟩ := step_deal fired
    rcases at' queued with before | ⟨rfl, here⟩
    · exact .inl before
    · rcases List.mem_append.mp here with before | last
      · exact .inl before
      · rw [List.mem_singleton.mp last]
        exact .inr ⟨⟨i, rfl⟩, List.mem_of_getElem? found⟩
  | work k interrupted handler reply errorReply =>
    obtain ⟨_, queue, received, _, rfl⟩ := step_work fired
    rcases at' queued with before | ⟨rfl, here⟩
    · exact .inl before
    · rcases receive_queue received with ⟨_, rfl⟩ | ⟨head, same, _⟩
      · exact .inl here
      · rw [same]
        exact .inl (List.mem_cons_of_mem head here)
  | close k =>
    obtain ⟨_, rfl⟩ := step_close fired
    rcases at' queued with before | ⟨_, here⟩
    · exact .inl before
    · cases here

/-- Only a client and `WorkerStop` add to the frontend. -/
theorem step_frontend {p next : Pool} {input : PoolInput Msg} (inside : input.Internal)
    (fired : p.step pb map input = some (next, events)) : next.frontend ⊆ p.frontend := by
  cases input with
  | arrive identity frames => exact inside.elim
  | workerStop => exact inside.elim
  | connect k =>
    obtain ⟨_, rfl⟩ := step_connect fired
    exact List.Subset.refl _
  | deal i =>
    obtain ⟨_, _, _, _, _, rfl⟩ := step_deal fired
    exact List.eraseIdx_subset
  | work k interrupted handler reply errorReply =>
    obtain ⟨_, _, _, _, rfl⟩ := step_work fired
    exact List.Subset.refl _
  | close k =>
    obtain ⟨_, rfl⟩ := step_close fired
    exact List.Subset.refl _

/-- A worker that still runs and has no `TERMINATE` needs an order. -/
theorem awaiting_of_running {p : Pool} {j : Nat} (held : p.Provided) (inside : j < p.started)
    (inLoop : (p.workers j).worker.InLoop)
    (none' : ∀ m ∈ (p.workers j).queue, isStop m.frames = false) : j ∈ p.awaiting := by
  rw [mem_awaiting]
  refine ⟨inside, ?_⟩
  simp only [PoolWorker.awaits, Bool.and_eq_true, decide_eq_true_eq, Bool.not_eq_true',
    List.any_eq_false, Bool.not_eq_true]
  refine ⟨inLoop, fun m member => ?_⟩
  rw [Bool.eq_false_iff]
  intro order
  have stop := held.stops m (.inr ⟨j, member⟩) order
  rw [none' m member] at stop
  cases stop

/-- A worker with a `TERMINATE` in its queue can be run until it has left its loop. -/
theorem finishes (j : Nat) (queue : List Inbound) : ∀ p : Pool, (p.workers j).queue = queue →
    (p.workers j).worker.InLoop → (∃ m ∈ queue, isStop m.frames = true) →
    ∃ inputs events w, (∀ input ∈ inputs, input.Works) ∧
      Path (Fires (step pb map)) p inputs events (p.setWorker j w) ∧ ¬w.worker.InLoop := by
  induction queue with
  | nil =>
    rintro _ _ _ ⟨_, member, _⟩
    cases member
  | cons m rest ih =>
    rintro p head inLoop ⟨m', member, stop⟩
    let round : Round Msg :=
      ⟨.message m.frames, fun _ _ => .threw .retryException, acceptAll, acceptAll⟩
    let result := (p.workers j).worker.iteration pb ⟨map, false⟩ round
    let work : PoolInput Msg := .work j false round.handler acceptAll acceptAll
    have fired : Fires (step pb map) p work result.2 (p.setWorker j ⟨result.1, rest⟩) := by
      have received : (p.workers j).receive false = some (.message m.frames, rest) := by
        simp [PoolWorker.receive, head]
      simp only [Fires, work, step, received, if_pos inLoop]
      rfl
    by_cases stays : result.1.InLoop
    · have later : m' ∈ rest := by
        rcases List.mem_cons.mp member with rfl | later
        · have ended := stays.1
          simp only [result, iteration_stop pb _ round _ rfl stop] at ended
          cases ended
        · exact later
      obtain ⟨inputs, events, w, works, path, ended⟩ := ih (p.setWorker j ⟨result.1, rest⟩)
        (by rw [setWorker_self]) (by rw [setWorker_self]; exact stays) ⟨m', later, stop⟩
      have same : (p.setWorker j ⟨result.1, rest⟩).setWorker j w = p.setWorker j w := by
        simp [setWorker]
      rw [same] at path
      exact ⟨work :: inputs, _, w, List.forall_mem_cons.mpr ⟨trivial, works⟩,
        .cons fired path, ended⟩
    · exact ⟨[work], _, ⟨result.1, rest⟩, List.forall_mem_singleton.mpr trivial,
        .single fired, stays⟩

variable (pb map) in
/-- A worker that is leaving can come to the end of its thread. -/
theorem ends {p : Pool} {j : Nat} (leaving : (p.workers j).Leaving) :
    ∃ inputs events w, (∀ input ∈ inputs, input.Works) ∧
      Path (Fires (step pb map)) p inputs events
        { p.setWorker j w with turns := p.turns.erase j } ∧ ¬w.worker.InLoop := by
  obtain ⟨inputs, events, w, works, path, ended⟩ : ∃ inputs events w,
      (∀ input ∈ inputs, input.Works) ∧
      Path (Fires (step pb map)) p inputs events (p.setWorker j w) ∧ ¬w.worker.InLoop := by
    by_cases inLoop : (p.workers j).worker.InLoop
    · exact finishes j _ p rfl inLoop (leaving inLoop)
    · have same : p.setWorker j (p.workers j) = p := by simp [setWorker]
      exact ⟨[], [], p.workers j, by simp, by rw [same]; exact .nil, inLoop⟩
  by_cases connected : j ∈ p.turns
  · have fired : Fires (step pb map) (p.setWorker j w) (.close j) []
        { p.setWorker j { w with queue := [] } with turns := p.turns.erase j } := by
      have turn : j ∈ (p.setWorker j w).turns := connected
      simp only [Fires, step, setWorker_self, if_pos (And.intro turn ended)]
      simp [setWorker]
    refine ⟨inputs ++ [.close j], _, { w with queue := [] }, ?_, path.snoc fired, ended⟩
    exact List.forall_mem_append.mpr ⟨works, List.forall_mem_singleton.mpr trivial⟩
  · refine ⟨inputs, events, w, works, ?_, ended⟩
    rw [List.erase_of_not_mem connected]
    exact path

/-- A `TERMINATE` can still come to the worker, with no more messages of clients. -/
def CanReceive (pb : Protobuf Msg) (map : RpcMethodMapT) (p : Pool) (j : Nat) : Prop :=
  ∃ inputs events next, (∀ input ∈ inputs, input.Internal) ∧
    Path (Fires (step pb map)) p inputs events next ∧
    ∃ m ∈ (next.workers j).queue, isStop m.frames = true

/-- The proxy and the workers can come to such a state by themselves, with fair deals. -/
def Comes (pb : Protobuf Msg) (map : RpcMethodMapT) (p : Pool) (property : Pool → Prop) : Prop :=
  ∃ inputs events next, (∀ input ∈ inputs, input.Internal) ∧
    Path (Meeting Fair (Fires (step pb map))) p inputs events next ∧ property next

theorem Comes.after {p middle : Pool} {property : Pool → Prop} {inputs : List (PoolInput Msg)}
    (inside : ∀ input ∈ inputs, input.Internal)
    (path : Path (Meeting Fair (Fires (step pb map))) p inputs events middle)
    (later : Comes pb map middle property) : Comes pb map p property := by
  obtain ⟨inputs', events', next, inside', path', reached⟩ := later
  exact ⟨inputs ++ inputs', _, next, List.forall_mem_append.mpr ⟨inside, inside'⟩,
    path.append path', reached⟩

theorem Comes.step {p middle : Pool} {property : Pool → Prop} {input : PoolInput Msg}
    (fired : p.step pb map input = some (middle, events)) (inside : input.Internal)
    (fair : p.Fair input) (later : Comes pb map middle property) : Comes pb map p property :=
  later.after (List.forall_mem_singleton.mpr inside) (Path.single ⟨fair, fired⟩)

/-- What fair deals keep of the pool. -/
theorem fair_path {p next : Pool} {inputs : List (PoolInput Msg)} (held : p.Provided)
    (inside : ∀ input ∈ inputs, input.Internal)
    (path : Path (Meeting Fair (Fires (Pool.step pb map))) p inputs events next) :
    next.Provided ∧ next.stopping = p.stopping ∧ next.started = p.started := by
  have own : Path (Meeting (fun _ input => input.Internal)
      (Meeting Fair (Fires (Pool.step pb map)))) p inputs events next :=
    path.meeting fun input member _ => inside input member
  apply own.state_invariant (fun q => q.Provided ∧ q.stopping = p.stopping ∧ q.started = p.started)
    ?_ ⟨held, rfl, rfl⟩
  rintro q input emitted next ⟨held, stopping, started⟩ ⟨inside, fair, fired⟩
  refine ⟨provided_step held fair fired, ?_, (step_frame fired).1.trans started⟩
  exact (step_stopping (by rintro rfl; exact inside) fired).trans stopping

/-- While a worker needs an order there is one at the frontend. -/
theorem Provided.order {p : Pool} (held : p.Provided) (stopped : p.stopping = true)
    (needs : j ∈ p.awaiting) :
    ∃ (i : Nat) (m : Inbound), p.frontend[i]? = some m ∧ m.stopOrder = true := by
  have left' : 0 < p.orders := (Finset.card_pos.mpr ⟨j, needs⟩).trans_le (held.enough stopped)
  obtain ⟨m, member, order⟩ := List.countP_pos_iff.mp left'
  obtain ⟨i, found⟩ := List.mem_iff_getElem?.mp member
  exact ⟨i, m, found, order⟩

section Turns

variable (pb map)

theorem step_dealt {p : Pool} {i a : Nat} {m : Inbound} {rest : List Nat}
    (found : p.frontend[i]? = some m) (turn : p.turns = a :: rest) :
    p.step pb map (.deal i) =
      some ({ p.setWorker a { p.workers a with queue := (p.workers a).queue ++ [m] } with
        frontend := p.frontend.eraseIdx i, turns := rest ++ [a] }, []) := by
  simp only [step, found, turn]

/-- A `TERMINATE` waits for the worker. -/
def Ordered (j : Nat) (p : Pool) : Prop := ∃ m ∈ (p.workers j).queue, isStop m.frames = true

theorem ordered_next {p : Pool} {j : Nat} {rest : List Nat} (held : p.Provided)
    (stopped : p.stopping = true) (needs : j ∈ p.awaiting) (turn : p.turns = j :: rest) :
    Comes pb map p (Ordered j) := by
  obtain ⟨i, m, found, order⟩ := held.order stopped needs
  have fair : p.Fair (.deal i : PoolInput Msg) := by
    intro m' _ a first _
    rw [turn] at first
    obtain rfl := Option.some.inj first
    exact .inl (mem_awaiting.mp needs).2
  refine Comes.step (step_dealt pb map found turn) trivial fair ?_
  refine ⟨[], [], _, by simp, .nil, m, ?_, held.stops m (.inl (List.mem_of_getElem? found)) order⟩
  simp [setWorker]

theorem ends_fair {p : Pool} {j : Nat} (leaving : (p.workers j).Leaving) :
    ∃ inputs events w, (∀ input ∈ inputs, input.Internal) ∧
      Path (Meeting Fair (Fires (step pb map))) p inputs events
        { p.setWorker j w with turns := p.turns.erase j } ∧ ¬w.worker.InLoop := by
  obtain ⟨inputs, events, w, works, path, ended⟩ := ends pb map leaving
  exact ⟨inputs, events, w, fun input member => (works input member).internal,
    path.meeting fun input member => (works input member).fair, ended⟩

/-- A worker that needs no order can leave, and another one has its turn. -/
theorem makes_room {p : Pool} {a : Nat} {rest : List Nat} (held : p.Provided)
    (turn : p.turns = a :: rest) (served : (p.workers a).awaits = false) :
    ∃ inputs events next, (∀ input ∈ inputs, input.Internal) ∧
      Path (Meeting Fair (Fires (step pb map))) p inputs events next ∧ next.turns = rest ∧
      ∀ j ≠ a, next.workers j = p.workers j := by
  have leaving : (p.workers a).Leaving := by
    intro inLoop
    simp only [PoolWorker.awaits, inLoop, decide_true, Bool.true_and, Bool.not_eq_false',
      List.any_eq_true] at served
    obtain ⟨m, member, order⟩ := served
    exact ⟨m, member, held.stops m (.inr ⟨a, member⟩) order⟩
  obtain ⟨inputs, events, w, inside, path, _⟩ := ends_fair pb map leaving
  exact ⟨inputs, events, _, inside, path, by simp [turn], fun j other => setWorker_ne p w other⟩

/-- The workers with an earlier turn take their order, or leave and close. -/
theorem ordered_turn {j : Nat} (before : List Nat) : ∀ (p : Pool) (after : List Nat),
    p.Provided → p.stopping = true → j ∈ p.awaiting → p.turns = before ++ j :: after →
    Comes pb map p (Ordered j) := by
  induction before with
  | nil => exact fun p after => ordered_next pb map
  | cons a before ih =>
    intro p after held stopped needs turn
    by_cases same : j = a
    · subst same
      exact ordered_next pb map held stopped needs turn
    have still {next : Pool} (range : next.started = p.started)
        (worker : next.workers j = p.workers j) : j ∈ next.awaiting := by
      rw [mem_awaiting] at needs ⊢
      rwa [range, worker]
    cases served : (p.workers a).awaits with
    | true =>
      obtain ⟨i, m, found, order⟩ := held.order stopped needs
      have fired := step_dealt pb map found turn
      have fair : p.Fair (.deal i : PoolInput Msg) := by
        intro m' _ a' first _
        rw [turn] at first
        obtain rfl := Option.some.inj first
        exact .inl served
      refine Comes.step fired trivial fair ?_
      refine ih _ (after ++ [a]) (provided_step held fair fired) stopped (still rfl ?_) ?_
      · exact setWorker_ne p _ same
      · simp
    | false =>
      obtain ⟨inputs, events, next, inside, path, turn', workers⟩ :=
        makes_room pb map held turn served
      obtain ⟨held', stopping, range⟩ := fair_path held inside path
      refine Comes.after inside path ?_
      exact ih next after held' (stopping.trans stopped) (still range (workers j same)) turn'

/-- As long as the orders suffice, a worker that needs one can still be handed one. -/
theorem comes_ordered {p : Pool} {j : Nat} (held : p.Provided) (stopped : p.stopping = true)
    (needs : j ∈ p.awaiting) : Comes pb map p (Ordered j) := by
  by_cases connected : j ∈ p.turns
  · obtain ⟨before, after, turn⟩ := List.append_of_mem connected
    exact ordered_turn pb map before p after held stopped needs turn
  · obtain ⟨inside, awaits⟩ := mem_awaiting.mp needs
    have inLoop : (p.workers j).worker.InLoop := by
      simp only [PoolWorker.awaits, Bool.and_eq_true, decide_eq_true_eq] at awaits
      exact awaits.1
    have fired : p.step pb map (.connect j) = some ({ p with turns := p.turns ++ [j] }, []) := by
      simp only [step, if_pos (And.intro inside (And.intro connected inLoop))]
    refine Comes.step fired trivial trivial ?_
    have held' := provided_step held (show p.Fair (.connect j) from trivial) fired
    exact ordered_turn pb map p.turns _ [] held' stopped needs rfl

theorem can_receive {p : Pool} {j : Nat} (held : p.Provided) (stopped : p.stopping = true)
    (needs : j ∈ p.awaiting) : CanReceive pb map p j := by
  obtain ⟨inputs, events, next, inside, path, ordered⟩ :=
    comes_ordered pb map held stopped needs
  exact ⟨inputs, events, next, inside, path.mono fun _ _ _ _ meets => meets.2, ordered⟩

end Turns

end Pool

end Zqrpc
