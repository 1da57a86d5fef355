import Mathlib.Data.List.Count
import Mathlib.Data.List.Induction
import Mathlib.Order.BooleanAlgebra.Set
import Mathlib.Logic.Equiv.Basic
import Zqrpc.Unwinding

/-! Objects that own a handle or nothing: they open it, give it to each other, close it, and
are destroyed. Whatever is done with them, a handle is closed at most once and not used
after that, and none is lost. -/
namespace Owner

open Unwinding

/-- What is done with a handle. -/
inductive Use where
  | opened (h : Nat)
  | called (h : Nat)
  | closed (h : Nat)
  deriving DecidableEq

def Open (trace : List Use) (h : Nat) : Prop := .opened h ∈ trace ∧ .closed h ∉ trace

/-- A handle is opened once, and used and closed only while it is open. -/
def Use.Allowed (past : List Use) : Use → Prop
  | .opened h => .opened h ∉ past
  | .called h | .closed h => Open past h

def Disciplined (trace : List Use) : Prop :=
  ∀ front use back, trace = front ++ use :: back → use.Allowed front

section Traces

variable {trace : List Use} {use : Use} {h k : Nat}

theorem Disciplined.nil : Disciplined [] := by
  intro front use back split'
  simp at split'

theorem Disciplined.snoc (held : Disciplined trace) (allowed : use.Allowed trace) :
    Disciplined (trace ++ [use]) := by
  intro front use' back split'
  cases back using List.reverseRecOn with
  | nil =>
    obtain ⟨rfl, same⟩ := List.append_inj' split' rfl
    obtain rfl := (List.cons.inj same).1
    exact allowed
  | append_singleton back last _ =>
    rw [← List.cons_append, ← List.append_assoc] at split'
    exact held front use' back (List.append_inj' split' rfl).1

theorem Disciplined.front (held : Disciplined (trace ++ [use])) : Disciplined trace := by
  intro front use' back split'
  refine held front use' (back ++ [use]) ?_
  rw [split', List.append_assoc]
  rfl

theorem Disciplined.last (held : Disciplined (trace ++ [use])) : use.Allowed trace :=
  held trace use [] rfl

theorem Disciplined.was_opened (held : Disciplined trace) (closed : .closed h ∈ trace) :
    .opened h ∈ trace := by
  obtain ⟨front, back, split'⟩ := List.append_of_mem closed
  have allowed := held front (.closed h) back split'
  rw [split']
  exact List.mem_append_left _ allowed.1

theorem Disciplined.closed_once (held : Disciplined trace) (h : Nat) :
    trace.count (.closed h) ≤ 1 := by
  induction trace using List.reverseRecOn with
  | nil => exact Nat.zero_le 1
  | append_singleton front use ih =>
    rw [List.count_append]
    by_cases last : use = .closed h
    · subst last
      rw [List.count_eq_zero.mpr held.last.2]
      simp
    · rw [List.count_singleton, if_neg (by simpa using last)]
      exact ih held.front

theorem Disciplined.closed_exactly (held : Disciplined trace) (closed : .closed h ∈ trace) :
    trace.count (.closed h) = 1 :=
  Nat.le_antisymm (held.closed_once h) (List.count_pos_iff.mpr closed)

theorem open_opened (fresh : .closed k ∉ trace) :
    Open (trace ++ [.opened k]) h ↔ Open trace h ∨ h = k := by
  simp only [Open, List.mem_append, List.mem_singleton, Use.opened.injEq, reduceCtorEq, or_false]
  constructor
  · rintro ⟨opened | same, unclosed⟩
    · exact .inl ⟨opened, unclosed⟩
    · exact .inr same
  · rintro (⟨opened, unclosed⟩ | rfl)
    · exact ⟨.inl opened, unclosed⟩
    · exact ⟨.inr rfl, fresh⟩

theorem open_called : Open (trace ++ [.called k]) h ↔ Open trace h := by
  simp [Open]

theorem open_closed : Open (trace ++ [.closed k]) h ↔ Open trace h ∧ h ≠ k := by
  simp only [Open, List.mem_append, List.mem_singleton, Use.closed.injEq, reduceCtorEq, or_false,
    not_or, and_assoc, ne_eq]

end Traces

/-- The objects that are alive, each with the handle it holds, and what was done so far. -/
structure Memory (A : Type*) where
  objects : A → Option (Option Nat) := fun _ => none
  /-- the handle that is opened next -/
  next : Nat := 0
  trace : List Use := []

namespace Memory

variable {A E : Type*} [DecidableEq A]

def alive (m : Memory A) : Set A := {a | m.objects a ≠ none}

/-- Object `a` gets to be in this state, and this is done. -/
def put (m : Memory A) (a : A) (state : Option (Option Nat)) (uses : List Use) : Memory A :=
  { m with objects := Function.update m.objects a state, trace := m.trace ++ uses }

/-- An object is constructed with a handle of its own, unless that cannot be opened. -/
def construct (a : A) (failure : Option E) : Program (Memory A) E Unit := fun m =>
  match m.objects a, failure with
  | none, none =>
    some (.ok (), { m.put a (some (some m.next)) [.opened m.next] with next := m.next + 1 })
  | none, some e => some (.error e, m)
  | some _, _ => none

/-- The move constructor: what `source` holds is taken from it. -/
def moveConstruct (a source : A) : Program (Memory A) E Unit := fun m =>
  match m.objects a, m.objects source with
  | none, some content => some (.ok (), (m.put a (some content) []).put source (some none) [])
  | _, _ => none

/-- The move assignment: the two swap what they hold. -/
def exchange (a b : A) : Program (Memory A) E Unit := fun m =>
  if m.objects a = none ∨ m.objects b = none then none
  else some (.ok (), { m with objects := m.objects ∘ Equiv.swap a b })

/-- A call with the handle, which fails if there is none. -/
def call (a : A) (missing : E) (failure : Option E) : Program (Memory A) E Unit := fun m =>
  match m.objects a with
  | none => none
  | some none => some (.error missing, m)
  | some (some h) =>
    some (match failure with | none => .ok () | some e => .error e,
      { m with trace := m.trace ++ [.called h] })

/-- Whether the object holds a handle. -/
def holds (a : A) : Program (Memory A) E Bool := fun m =>
  (m.objects a).map fun content => (.ok content.isSome, m)

def release (a : A) : Program (Memory A) E Unit := fun m =>
  match m.objects a with
  | none => none
  | some none => some (.ok (), m)
  | some (some h) => some (.ok (), m.put a (some none) [.closed h])

/-- The destructor. -/
def destroy (a : A) : Program (Memory A) E Unit := fun m =>
  match m.objects a with
  | none => none
  | some none => some (.ok (), m.put a none [])
  | some (some h) => some (.ok (), m.put a none [.closed h])

end Memory

section Ownership

variable {A : Type*}

/-- The handles that are open are those held, each by one object. -/
structure Owned (m : Memory A) : Prop where
  disciplined : Disciplined m.trace
  fresh : ∀ h, m.next ≤ h → .opened h ∉ m.trace
  held : ∀ h, Open m.trace h ↔ ∃ a, m.objects a = some (some h)
  unique : ∀ a b h, m.objects a = some (some h) → m.objects b = some (some h) → a = b

variable {m : Memory A} {a b : A} {h : Nat}

theorem Owned.empty : Owned ({} : Memory A) where
  disciplined := .nil
  fresh _ _ := by simp
  held h := by simp [Open]
  unique _ _ _ held := by cases held

/-- Handles that only go from one object to another. -/
theorem Owned.rearrange (owned : Owned m) {objects : A → Option (Option Nat)} (move : A → A)
    (onto : ∀ a h, m.objects a = some (some h) → ∃ b, move b = a ∧ objects b = some (some h))
    (from' : ∀ b h, objects b = some (some h) → m.objects (move b) = some (some h))
    (apart : ∀ b c h, objects b = some (some h) → objects c = some (some h) → move b = move c →
      b = c) : Owned { m with objects } where
  disciplined := owned.disciplined
  fresh := owned.fresh
  held h := by
    rw [owned.held]
    constructor
    · rintro ⟨a, holder⟩
      obtain ⟨b, -, taken⟩ := onto a h holder
      exact ⟨b, taken⟩
    · rintro ⟨b, holder⟩
      exact ⟨move b, from' b h holder⟩
  unique b c h first second :=
    apart b c h first second (owned.unique _ _ h (from' b h first) (from' c h second))

theorem Owned.called (owned : Owned m) (holder : m.objects a = some (some h)) :
    Owned { m with trace := m.trace ++ [.called h] } where
  disciplined := owned.disciplined.snoc ((owned.held h).mpr ⟨a, holder⟩)
  fresh k later := by
    change .opened k ∉ m.trace ++ [.called h]
    rw [List.mem_append, List.mem_singleton, not_or]
    exact ⟨owned.fresh k later, by simp⟩
  held k := open_called.trans (owned.held k)
  unique := owned.unique

variable [DecidableEq A]

theorem Owned.opened (owned : Owned m) (dead : m.objects a = none) :
    Owned { m.put a (some (some m.next)) [.opened m.next] with next := m.next + 1 } := by
  have unopened := owned.fresh m.next (Nat.le_refl _)
  have unclosed : .closed m.next ∉ m.trace := fun closed =>
    unopened (owned.disciplined.was_opened closed)
  have holders (b : A) (h : Nat) :
      Function.update m.objects a (some (some m.next)) b = some (some h) ↔
        m.objects b = some (some h) ∨ b = a ∧ h = m.next := by
    by_cases same : b = a
    · simp [same, dead, eq_comm]
    · simp [same]
  refine ⟨owned.disciplined.snoc unopened, fun h later => ?_, fun h => ?_,
    fun b c h first second => ?_⟩
  · change .opened h ∉ m.trace ++ [.opened m.next]
    rw [List.mem_append, List.mem_singleton, Use.opened.injEq, not_or]
    exact ⟨owned.fresh h (Nat.le_of_succ_le later), Nat.ne_of_gt later⟩
  · refine (open_opened unclosed).trans ?_
    rw [owned.held]
    constructor
    · rintro (⟨b, holder⟩ | same)
      · exact ⟨b, (holders b h).mpr (.inl holder)⟩
      · exact ⟨a, (holders a h).mpr (.inr ⟨rfl, same⟩)⟩
    · rintro ⟨b, holder⟩
      rcases (holders b h).mp holder with before | ⟨-, same⟩
      · exact .inl ⟨b, before⟩
      · exact .inr same
  · have unheld (d : A) : m.objects d ≠ some (some m.next) := fun holder =>
      unopened ((owned.held _).mpr ⟨d, holder⟩).1
    rcases (holders b h).mp first with before | ⟨rfl, rfl⟩
    · rcases (holders c h).mp second with before' | ⟨-, rfl⟩
      · exact owned.unique b c h before before'
      · exact absurd before (unheld b)
    · rcases (holders c _).mp second with before' | ⟨rfl, -⟩
      · exact absurd before' (unheld c)
      · rfl

/-- An object without a handle may be destroyed. -/
theorem Owned.dropped (owned : Owned m) (empty : m.objects a = some none) :
    Owned (m.put a none []) := by
  have kept (b : A) (h : Nat) : Function.update m.objects a none b = some (some h) ↔
      m.objects b = some (some h) := by
    by_cases same : b = a
    · rw [same, Function.update_self, empty]
      simp
    · rw [Function.update_of_ne same]
  have moved : Owned { m with objects := Function.update m.objects a none } := owned.rearrange id
    (fun b h holder => ⟨b, rfl, (kept b h).mpr holder⟩) (fun b h holder => (kept b h).mp holder)
    (fun _ _ _ _ _ same => same)
  rw [Memory.put, List.append_nil]
  exact moved

theorem Owned.closed (owned : Owned m) (holder : m.objects a = some (some h))
    {state : Option (Option Nat)} (without : ∀ k, state ≠ some (some k)) :
    Owned (m.put a state [.closed h]) := by
  have kept (b : A) (k : Nat) : Function.update m.objects a state b = some (some k) ↔
      m.objects b = some (some k) ∧ b ≠ a := by
    by_cases same : b = a
    · simp [same, without]
    · simp [same]
  refine ⟨owned.disciplined.snoc ((owned.held h).mpr ⟨a, holder⟩), fun k later => ?_,
    fun k => ?_, fun b c k first second => ?_⟩
  · change .opened k ∉ m.trace ++ [.closed h]
    rw [List.mem_append, List.mem_singleton, not_or]
    exact ⟨owned.fresh k later, by simp⟩
  · refine open_closed.trans ?_
    rw [owned.held]
    constructor
    · rintro ⟨⟨b, other⟩, ne⟩
      refine ⟨b, (kept b k).mpr ⟨other, ?_⟩⟩
      rintro rfl
      exact ne (Option.some.inj (Option.some.inj (other.symm.trans holder)))
    · rintro ⟨b, other⟩
      obtain ⟨before, ne⟩ := (kept b k).mp other
      refine ⟨⟨b, before⟩, ?_⟩
      rintro rfl
      exact ne (owned.unique b a k before holder)
  · exact owned.unique b c k ((kept b k).mp first).1 ((kept c k).mp second).1

end Ownership

section Rules

variable {A E : Type*} {X : Set A} {a b : A}

/-- The objects alive are these, and every open handle has its owner. -/
def Holds (X : Set A) (m : Memory A) : Prop := Owned m ∧ m.alive = X

theorem Holds.dead {m : Memory A} (held : Holds X m) (outside : a ∉ X) : m.objects a = none := by
  rw [← held.2] at outside
  exact not_not.mp outside

theorem Holds.content {m : Memory A} (held : Holds X m) (inside : a ∈ X) :
    ∃ content, m.objects a = some content := by
  rw [← held.2] at inside
  exact Option.ne_none_iff_exists'.mp inside

theorem call_rule (missing : E) (failure : Option E) (inside : a ∈ X) :
    Triple (Holds X) (Memory.call a missing failure) (fun _ => Holds X) (Holds X) := by
  intro m held
  obtain ⟨content, state⟩ := held.content inside
  cases content with
  | none => exact .inr ⟨missing, m, by simp only [Memory.call, state], held⟩
  | some h =>
    have later := held.1.called state
    cases failure with
    | none => exact .inl ⟨(), _, by simp only [Memory.call, state], later, held.2⟩
    | some e => exact .inr ⟨e, _, by simp only [Memory.call, state], later, held.2⟩

theorem holds_rule {thrown : Memory A → Prop} (inside : a ∈ X) :
    Triple (Holds X) (Memory.holds a : Unwinding.Program _ E Bool) (fun _ => Holds X) thrown := by
  intro m held
  obtain ⟨content, state⟩ := held.content inside
  exact .inl ⟨content.isSome, m, by simp only [Memory.holds, state, Option.map_some], held⟩

variable [DecidableEq A]

theorem Memory.alive_put_some (m : Memory A) (a : A) (content : Option Nat) (uses : List Use) :
    (m.put a (some content) uses).alive = insert a m.alive := by
  ext b
  by_cases same : b = a
  · simp [alive, put, same]
  · simp [alive, put, same]

theorem Memory.alive_put_none (m : Memory A) (a : A) (uses : List Use) :
    (m.put a none uses).alive = m.alive \ {a} := by
  ext b
  by_cases same : b = a
  · simp [alive, put, same]
  · simp [alive, put, same]

/-- The construction fails and there is no object, or the object owns a new handle. -/
theorem construct_rule (failure : Option E) (outside : a ∉ X) :
    Triple (Holds X) (Memory.construct a failure) (fun _ => Holds (insert a X)) (Holds X) := by
  intro m held
  have dead := held.dead outside
  cases failure with
  | some e => exact .inr ⟨e, m, by simp only [Memory.construct, dead], held⟩
  | none =>
    refine .inl ⟨(), _, by simp only [Memory.construct, dead], held.1.opened dead, ?_⟩
    exact (m.alive_put_some a (some m.next) [.opened m.next]).trans (by rw [held.2])

theorem moveConstruct_rule {source : A} {thrown : Memory A → Prop} (outside : a ∉ X)
    (inside : source ∈ X) :
    Triple (Holds X) (Memory.moveConstruct a source : Unwinding.Program _ E Unit)
      (fun _ => Holds (insert a X)) thrown := by
  intro m held
  have dead := held.dead outside
  obtain ⟨content, state⟩ := held.content inside
  have other : source ≠ a := fun same => outside (same ▸ inside)
  refine .inl ⟨(), (m.put a (some content) []).put source (some none) [],
    by simp only [Memory.moveConstruct, dead, state], ?_, ?_⟩
  · have holders (c : A) (h : Nat) :
        Function.update (Function.update m.objects a (some content)) source (some none) c =
          some (some h) ↔ m.objects (Equiv.swap a source c) = some (some h) := by
      by_cases same : c = source
      · simp [same, dead]
      · rw [Function.update_of_ne same]
        by_cases own : c = a
        · simp [own, state]
        · rw [Function.update_of_ne own, Equiv.swap_apply_of_ne_of_ne own same]
    have moved := held.1.rearrange (Equiv.swap a source)
      (fun c h holder => ⟨Equiv.swap a source c, Equiv.swap_apply_self .., (holders _ h).mpr
        (by rwa [Equiv.swap_apply_self])⟩)
      (fun c h holder => (holders c h).mp holder)
      (fun c d h _ _ same => (Equiv.swap a source).injective same)
    simpa [Memory.put] using moved
  · rw [Memory.alive_put_some, Memory.alive_put_some, held.2,
      Set.insert_eq_of_mem (Set.mem_insert_of_mem a inside)]

theorem exchange_rule {thrown : Memory A → Prop} (first : a ∈ X) (second : b ∈ X) :
    Triple (Holds X) (Memory.exchange a b : Unwinding.Program _ E Unit) (fun _ => Holds X)
      thrown := by
  intro m held
  obtain ⟨content, state⟩ := held.content first
  obtain ⟨content', state'⟩ := held.content second
  refine .inl ⟨(), { m with objects := m.objects ∘ Equiv.swap a b },
    by simp [Memory.exchange, state, state'], ?_, ?_⟩
  · exact held.1.rearrange (Equiv.swap a b)
      (fun c h holder => ⟨Equiv.swap a b c, Equiv.swap_apply_self .., by
        rwa [Function.comp_apply, Equiv.swap_apply_self]⟩)
      (fun c h holder => holder) (fun c d h _ _ same => (Equiv.swap a b).injective same)
  · rw [← held.2]
    ext c
    change m.objects (Equiv.swap a b c) ≠ none ↔ m.objects c ≠ none
    by_cases one : c = a
    · simp [one, state, state']
    · by_cases two : c = b
      · simp [two, state, state']
      · rw [Equiv.swap_apply_of_ne_of_ne one two]

theorem release_rule {thrown : Memory A → Prop} (inside : a ∈ X) :
    Triple (Holds X) (Memory.release a : Unwinding.Program _ E Unit) (fun _ => Holds X)
      thrown := by
  intro m held
  obtain ⟨content, state⟩ := held.content inside
  cases content with
  | none => exact .inl ⟨(), m, by simp only [Memory.release, state], held⟩
  | some h =>
    refine .inl ⟨(), m.put a (some none) [.closed h], by simp only [Memory.release, state],
      held.1.closed state (by simp), ?_⟩
    rw [Memory.alive_put_some, held.2, Set.insert_eq_of_mem inside]

theorem destroy_rule {thrown : Memory A → Prop} (inside : a ∈ X) :
    Triple (Holds X) (Memory.destroy a : Unwinding.Program _ E Unit)
      (fun _ => Holds (X \ {a})) thrown := by
  intro m held
  obtain ⟨content, state⟩ := held.content inside
  cases content with
  | none =>
    refine .inl ⟨(), _, by simp only [Memory.destroy, state], held.1.dropped state, ?_⟩
    rw [Memory.alive_put_none, held.2]
  | some h =>
    refine .inl ⟨(), m.put a none [.closed h], by simp only [Memory.destroy, state],
      held.1.closed state (by simp), ?_⟩
    rw [Memory.alive_put_none, held.2]

/-- An object that is destroyed right after it was constructed leaves nothing behind. -/
theorem undo_rule {thrown : Memory A → Prop} (outside : a ∉ X) :
    Triple (Holds (insert a X)) (Memory.destroy a : Unwinding.Program _ E Unit)
      (fun _ => Holds X) thrown := by
  have same : insert a X \ {a} = X := Set.insert_sdiff_self_of_notMem outside
  exact (destroy_rule (Set.mem_insert a X)).weaken (fun _ held => held)
    (fun _ _ held => same ▸ held) fun _ left' => left'

end Rules

end Owner
