import Zqrpc.StopOrders

/-! With no traffic of clients the round robin deals fairly by itself, once all the workers
that run are connected: every worker has its turn before one has a second. -/
namespace Zqrpc

open Steps

variable {Msg : Type} {pb : Protobuf Msg} {map : RpcMethodMapT}

namespace Pool

/-- No message of a client is at the frontend from `WorkerStop` on, and no order is dealt
before the workers that need one are connected. -/
def Quiet (p : Pool) : PoolInput Msg → Prop
  | .arrive _ _ => p.stopping = false
  | .workerStop => p.frontend = []
  | .deal _ => p.stopping = true → ∀ j ∈ p.awaiting, j ∈ p.turns
  | .connect _ | .work .. | .close _ => True

/-- The first of the turns were dealt no order yet, and the rest need none. -/
structure Dealing (p : Pool) (fresh served : List Nat) : Prop where
  turns : p.turns = fresh ++ served
  enough : fresh.length ≤ p.orders
  past : ∀ j ∈ served, j ∉ p.awaiting
  connected : (served = [] ∧ p.orders = p.started) ∨ ∀ j ∈ p.awaiting, j ∈ p.turns

structure Turning (p : Pool) : Prop where
  provided : p.Provided
  nodup : p.turns.Nodup
  early : p.stopping = false → ∀ m, p.Carries m → m.stopOrder = false
  late : p.stopping = true → (∀ m ∈ p.frontend, m.stopOrder = true) ∧
    ∃ fresh served, p.Dealing fresh served

theorem nodup_step {p next : Pool} {input : PoolInput Msg} (nodup : p.turns.Nodup)
    (fired : p.step pb map input = some (next, events)) : next.turns.Nodup := by
  cases input with
  | connect j =>
    obtain ⟨⟨_, absent, _⟩, rfl⟩ := step_connect fired
    have cons : (j :: p.turns).Nodup := List.nodup_cons.mpr ⟨absent, nodup⟩
    exact (List.perm_append_singleton j p.turns).nodup_iff.mpr cons
  | arrive identity frames =>
    obtain ⟨rfl, -⟩ := Prod.mk.inj (Option.some.inj fired)
    exact nodup
  | workerStop =>
    obtain rfl := step_workerStop fired
    exact nodup
  | deal i =>
    obtain ⟨_, j, rest, _, turn, rfl⟩ := step_deal fired
    rw [turn] at nodup
    exact (List.perm_append_singleton j rest).nodup_iff.mpr nodup
  | work j interrupted handler reply errorReply =>
    obtain ⟨_, _, _, _, rfl⟩ := step_work fired
    exact nodup
  | close j =>
    obtain ⟨_, rfl⟩ := step_close fired
    exact nodup.erase j

/-- Before `WorkerStop` no order is on its way. -/
theorem early_step {p next : Pool} {input : PoolInput Msg}
    (held : p.stopping = false → ∀ m, p.Carries m → m.stopOrder = false)
    (fired : p.step pb map input = some (next, events)) (early : next.stopping = false)
    (m : Inbound) (carried : next.Carries m) : m.stopOrder = false := by
  rcases step_carries fired carried with before | ⟨_, _, _, rfl⟩ | ⟨stopped, _⟩
  · exact held ((step_frame fired).2.1 early) m before
  · rfl
  · rw [early] at stopped
    cases stopped

/-- There are no more turns than workers. -/
theorem Provided.turns_length {p : Pool} (held : p.Provided) (nodup : p.turns.Nodup) :
    p.turns.length ≤ p.started := by
  have inside : p.turns ⊆ List.range p.started :=
    fun j member => List.mem_range.mpr (held.inside j member)
  simpa using (List.subperm_of_subset nodup inside).length_le

/-- When it is the turn of a worker that needs no order, there are orders to spare. -/
theorem Dealing.spare {p : Pool} {fresh served : List Nat} {j : Nat}
    (held : p.Dealing fresh served) (connected : ∀ k ∈ p.awaiting, k ∈ p.turns)
    (left' : 0 < p.orders) (head : p.turns.head? = some j) (needless : j ∉ p.awaiting) :
    p.awaiting.card < p.orders := by
  have unserved : ∀ k ∈ p.awaiting, k ∈ fresh := by
    intro k needs
    have turn := connected k needs
    rw [held.turns] at turn
    rcases List.mem_append.mp turn with first | last
    · exact first
    · exact absurd needs (held.past k last)
  have turns := held.turns
  have enough := held.enough
  cases fresh with
  | nil =>
    have none' : p.awaiting = ∅ :=
      Finset.eq_empty_of_forall_notMem fun k needs => List.not_mem_nil (unserved k needs)
    rw [none']
    exact left'
  | cons first rest =>
    rw [turns] at head
    obtain rfl := Option.some.inj head
    have fewer : p.awaiting ⊆ rest.toFinset := by
      intro k needs
      rcases List.mem_cons.mp (unserved k needs) with rfl | later
      · exact absurd needs needless
      · exact List.mem_toFinset.mpr later
    calc p.awaiting.card ≤ rest.toFinset.card := Finset.card_le_card fewer
      _ ≤ rest.length := rest.toFinset_card_le
      _ < p.orders := enough

/-- An order goes to a worker that needs it, or all the others have had their turn. -/
theorem Turning.fair {p : Pool} {input : PoolInput Msg} (held : p.Turning)
    (quiet : p.Quiet input) : p.Fair input := by
  cases input with
  | deal i =>
    intro m found j head order
    have member : m ∈ p.frontend := List.mem_of_getElem? found
    cases stopping : p.stopping with
    | false =>
      rw [held.early stopping m (.inl member)] at order
      cases order
    | true =>
      obtain ⟨_, fresh, served, dealing⟩ := held.late stopping
      have left' : 0 < p.orders := List.countP_pos_iff.mpr ⟨m, member, order⟩
      by_cases needs : (p.workers j).awaits = true
      · exact .inl needs
      · exact .inr (dealing.spare (quiet stopping) left' head fun awaits =>
          needs (mem_awaiting.mp awaits).2)
  | connect j => trivial
  | arrive identity frames => trivial
  | workerStop => trivial
  | work j interrupted handler reply errorReply => trivial
  | close j => trivial

/-- What a deal of an order leaves. -/
theorem Dealing.deal {p : Pool} {fresh served : List Nat} (held : p.Dealing fresh served)
    (connected : ∀ j ∈ p.awaiting, j ∈ p.turns) {i a : Nat} {m : Inbound} {rest : List Nat}
    (found : p.frontend[i]? = some m) (order : m.stopOrder = true) (turn : p.turns = a :: rest) :
    ∃ fresh served, Dealing
      { p.setWorker a { p.workers a with queue := (p.workers a).queue ++ [m] } with
        frontend := p.frontend.eraseIdx i, turns := rest ++ [a] } fresh served := by
  have left' := orders_eraseIdx found
  rw [order] at left'
  have fewer : (p.setWorker a { p.workers a with queue := (p.workers a).queue ++ [m] }).awaiting ⊆
      p.awaiting := by
    apply awaiting_setWorker
    intro needs
    rw [awaits_append, Bool.and_eq_true] at needs
    exact needs.1
  have ordered : a ∉
      (p.setWorker a { p.workers a with queue := (p.workers a).queue ++ [m] }).awaiting := by
    intro needs
    have awaits := (mem_awaiting.mp needs).2
    rw [setWorker_self, awaits_append, order] at awaits
    simp at awaits
  have still : ∀ j ∈ (p.setWorker a
      { p.workers a with queue := (p.workers a).queue ++ [m] }).awaiting, j ∈ rest ++ [a] := by
    intro j needs
    have member := connected j (fewer needs)
    rw [turn] at member
    exact (List.perm_append_singleton a rest).mem_iff.mpr member
  have turns := held.turns
  rw [turn] at turns
  cases fresh with
  | nil =>
    refine ⟨[], rest ++ [a], rfl, Nat.zero_le _, fun j member needs => ?_, .inr still⟩
    apply held.past j _ (fewer needs)
    rw [← List.nil_append served, ← turns]
    exact (List.perm_append_singleton a rest).mem_iff.mp member
  | cons k fresh =>
    obtain ⟨rfl, rfl⟩ := List.cons.inj turns
    refine ⟨fresh, served ++ [a], List.append_assoc .., ?_, fun j member needs => ?_, .inr still⟩
    · apply Nat.le_of_succ_le_succ
      exact held.enough.trans left'.ge
    · rcases List.mem_append.mp member with before | last
      · exact held.past j before (fewer needs)
      · rw [List.mem_singleton.mp last] at needs
        exact ordered needs

/-- A step that leaves the turns and the frontend alone. -/
theorem Dealing.frame {p next : Pool} {fresh served : List Nat} (held : p.Dealing fresh served)
    (fewer : next.awaiting ⊆ p.awaiting) (turns : next.turns = p.turns)
    (orders : next.orders = p.orders) (started : next.started = p.started) :
    next.Dealing fresh served where
  turns := turns.trans held.turns
  enough := orders ▸ held.enough
  past j member needs := held.past j member (fewer needs)
  connected := by
    rw [orders, started, turns]
    rcases held.connected with early | connected
    · exact .inl early
    · exact .inr fun j needs => connected j (fewer needs)

theorem Dealing.connect {p : Pool} {fresh served : List Nat} {j : Nat}
    (held : p.Dealing fresh served) (absent : j ∉ p.turns)
    (room : (p.turns ++ [j]).length ≤ p.started) :
    ∃ fresh served, Dealing { p with turns := p.turns ++ [j] } fresh served := by
  rcases held.connected with ⟨rfl, all⟩ | connected
  · refine ⟨p.turns ++ [j], [], by simp, ?_, by simp, .inl ⟨rfl, all⟩⟩
    exact room.trans all.ge
  · refine ⟨fresh, served ++ [j], ?_, held.enough, fun k member needs => ?_, .inr ?_⟩
    · rw [held.turns, List.append_assoc]
    · rcases List.mem_append.mp member with before | last
      · exact held.past k before needs
      · rw [List.mem_singleton.mp last] at needs
        exact absent (connected j needs)
    · exact fun k needs => List.mem_append_left _ (connected k needs)

theorem Dealing.close {p : Pool} {fresh served : List Nat} {j : Nat}
    (held : p.Dealing fresh served) (ended : ¬(p.workers j).worker.InLoop) :
    ∃ fresh served, Dealing { p.setWorker j { p.workers j with queue := [] } with
      turns := p.turns.erase j } fresh served := by
  have fewer : (p.setWorker j { p.workers j with queue := [] }).awaiting ⊆ p.awaiting :=
    awaiting_setWorker fun needs => by simp [PoolWorker.awaits, ended] at needs
  have gone : j ∉ p.awaiting := by
    intro needs
    have awaits := (mem_awaiting.mp needs).2
    simp [PoolWorker.awaits, ended] at awaits
  have still (connected : ∀ k ∈ p.awaiting, k ∈ p.turns) : ∀ k ∈ (p.setWorker j
      { p.workers j with queue := [] }).awaiting, k ∈ p.turns.erase j := by
    intro k needs
    have other : k ≠ j := by
      rintro rfl
      exact gone (fewer needs)
    exact (List.mem_erase_of_ne other).mpr (connected k (fewer needs))
  by_cases first : j ∈ fresh
  · refine ⟨fresh.erase j, served, ?_, ?_, fun k member needs => ?_, ?_⟩
    · rw [held.turns, List.erase_append_left _ first]
    · exact (List.length_erase_le).trans held.enough
    · exact held.past k member (fewer needs)
    · rcases held.connected with early | connected
      · exact .inl early
      · exact .inr (still connected)
  · refine ⟨fresh, served.erase j, ?_, held.enough, fun k member needs => ?_, ?_⟩
    · rw [held.turns, List.erase_append_right _ first]
    · exact held.past k (List.mem_of_mem_erase member) (fewer needs)
    · rcases held.connected with ⟨rfl, all⟩ | connected
      · exact .inl ⟨rfl, all⟩
      · exact .inr (still connected)

theorem turning_step {p next : Pool} {input : PoolInput Msg} (held : p.Turning)
    (quiet : p.Quiet input) (fired : p.step pb map input = some (next, events)) :
    next.Turning := by
  have provided := provided_step held.provided (held.fair quiet) fired
  have nodup := nodup_step held.nodup fired
  have fewer := awaiting_step held.provided fired
  refine ⟨provided, nodup, fun early => ?_, fun late => ?_⟩
  · exact early_step held.early fired early
  cases input with
  | connect j =>
    obtain ⟨⟨_, absent, _⟩, rfl⟩ := step_connect fired
    obtain ⟨orders, fresh, served, dealing⟩ := held.late late
    exact ⟨orders, dealing.connect absent (provided.turns_length nodup)⟩
  | arrive identity frames =>
    obtain ⟨rfl, -⟩ := Prod.mk.inj (Option.some.inj fired)
    rw [show p.stopping = false from quiet] at late
    cases late
  | workerStop =>
    obtain rfl := step_workerStop fired
    have only : p.frontend ++ workerStop p.started = workerStop p.started := by
      rw [show p.frontend = [] from quiet, List.nil_append]
    have all : (p.frontend ++ workerStop p.started).countP (·.stopOrder) = p.started := by
      rw [only]
      simp [workerStop, List.countP_replicate]
    refine ⟨fun m member => ?_, p.turns, [], by simp, ?_, by simp, .inl ⟨rfl, all⟩⟩
    · rw [only] at member
      rw [List.eq_of_mem_replicate member]
    · exact (held.provided.turns_length held.nodup).trans all.ge
  | deal i =>
    obtain ⟨m, a, rest, found, turn, rfl⟩ := step_deal fired
    obtain ⟨orders, fresh, served, dealing⟩ := held.late late
    refine ⟨fun m member => orders m (List.eraseIdx_subset member), ?_⟩
    exact dealing.deal (quiet late) found (orders m (List.mem_of_getElem? found)) turn
  | work j interrupted handler reply errorReply =>
    obtain ⟨_, _, _, _, rfl⟩ := step_work fired
    obtain ⟨orders, fresh, served, dealing⟩ := held.late late
    exact ⟨orders, fresh, served, dealing.frame fewer rfl rfl rfl⟩
  | close j =>
    obtain ⟨ended, rfl⟩ := step_close fired
    obtain ⟨orders, fresh, served, dealing⟩ := held.late late
    exact ⟨orders, dealing.close ended⟩

theorem start_turning (n : Nat) : (start n).Turning where
  provided := start_provided n
  nodup := List.nodup_nil
  early _ m carried := absurd carried (start_carries n m)
  late stopped := by cases stopped

/-- A quiet run deals its orders fairly. -/
theorem quiet_run_fair
    (run : Path (Meeting Quiet (Fires (step pb map))) (start n) inputs events p) :
    Path (Meeting Fair (Fires (step pb map))) (start n) inputs events p := by
  have both : Path (Meeting Fair (Fires (step pb map))) (start n) inputs events p ∧
      p.Turning := by
    induction run with
    | nil => exact ⟨.nil, start_turning n⟩
    | snoc _ last ih =>
      obtain ⟨fair, held⟩ := ih
      exact ⟨fair.snoc ⟨held.fair last.1, last.2⟩, turning_step held last.1 last.2⟩
  exact both.1

theorem none_stranded_quiet
    (run : Path (Meeting Quiet (Fires (step pb map))) (start n) inputs events p) :
    ¬p.Stranded :=
  none_stranded (quiet_run_fair run)

end Pool

end Zqrpc
