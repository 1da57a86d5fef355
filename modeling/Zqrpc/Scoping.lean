import Mathlib

/-! Texts of declarations and uses in nested named scopes. A use sees what was declared
before it in its own scope or in one around it; a scope without a name declares for the
scope it stands in. -/
namespace Scoping

variable {N E : Type*}

inductive Item (N E : Type*) where
  | enter (name : Option N)
  | leave
  | declare (entity : E)
  | use (entity : E)
  /-- a use by the full path of the scope -/
  | useAt (path : List N) (entity : E)

def Item.IsUse : Item N E → Prop
  | .use _ | .useAt _ _ => True
  | _ => False

/-- Not a scope's beginning or end. -/
def Item.Plain : Item N E → Prop
  | .enter _ | .leave => False
  | _ => True

structure Scope (N E : Type*) where
  stack : List (Option N)
  known : List (List N × E)

namespace Scope

/-- The names of the scopes that are open, outermost first. -/
def path (s : Scope N E) : List N := s.stack.reduceOption

def step (s : Scope N E) : Item N E → Scope N E
  | .enter name => { s with stack := s.stack ++ [name] }
  | .leave => { s with stack := s.stack.dropLast }
  | .declare entity => { s with known := (s.path, entity) :: s.known }
  | _ => s

def run (s : Scope N E) (items : List (Item N E)) : Scope N E := items.foldl step s

def Visible (s : Scope N E) (entity : E) : Prop :=
  ∃ path, path <+: s.path ∧ (path, entity) ∈ s.known

def Ok (s : Scope N E) : Item N E → Prop
  | .use entity => s.Visible entity
  | .useAt path entity => (path, entity) ∈ s.known
  | _ => True

/-- Every use of a text finds a declaration before it. -/
def WellScoped (s : Scope N E) : List (Item N E) → Prop
  | [] => True
  | item :: items => s.Ok item ∧ (s.step item).WellScoped items

end Scope

open Scope

variable {s : Scope N E} {items front back : List (Item N E)}

@[simp] theorem run_nil (s : Scope N E) : s.run [] = s := rfl

@[simp] theorem run_cons (s : Scope N E) (item : Item N E) (items : List (Item N E)) :
    s.run (item :: items) = (s.step item).run items := rfl

@[simp] theorem run_append (s : Scope N E) (front back : List (Item N E)) :
    s.run (front ++ back) = (s.run front).run back := by
  simp [run]

@[simp] theorem step_use (s : Scope N E) (entity : E) : s.step (.use entity) = s := rfl

theorem Item.IsUse.step {item : Item N E} (use : item.IsUse) (s : Scope N E) :
    s.step item = s := by
  cases item with
  | use entity => rfl
  | useAt path entity => rfl
  | _ => exact absurd use id

theorem Item.IsUse.plain {item : Item N E} (use : item.IsUse) : item.Plain := by
  cases item with
  | use entity => trivial
  | useAt path entity => trivial
  | _ => exact absurd use id

@[simp] theorem wellScoped_nil (s : Scope N E) : s.WellScoped [] := trivial

@[simp] theorem wellScoped_cons (s : Scope N E) (item : Item N E) (items : List (Item N E)) :
    s.WellScoped (item :: items) ↔ s.Ok item ∧ (s.step item).WellScoped items := Iff.rfl

@[simp] theorem wellScoped_append (s : Scope N E) (front back : List (Item N E)) :
    s.WellScoped (front ++ back) ↔ s.WellScoped front ∧ (s.run front).WellScoped back := by
  induction front generalizing s with
  | nil => simp
  | cons item front ih => simp [ih, and_assoc]

theorem wellScoped_of_unused (unused : ∀ item ∈ items, ¬item.IsUse) : s.WellScoped items := by
  induction items generalizing s with
  | nil => trivial
  | cons item items ih =>
    obtain ⟨first, others⟩ := List.forall_mem_cons.mp unused
    refine ⟨?_, ih others⟩
    cases item with
    | use entity => exact absurd trivial first
    | useAt path entity => exact absurd trivial first
    | _ => trivial

theorem wellScoped_flatMap {A : Type*} {xs : List A} {f : A → List (Item N E)}
    (each : ∀ x ∈ xs, ∀ s : Scope N E, s.WellScoped (f x)) : s.WellScoped (xs.flatMap f) := by
  induction xs generalizing s with
  | nil => trivial
  | cons x xs ih =>
    rw [List.flatMap_cons, wellScoped_append]
    exact ⟨each x List.mem_cons_self s, ih fun y member => each y (.tail x member)⟩

/-- A text of uses alone changes nothing that a later use sees. -/
theorem wellScoped_of_uses (only : ∀ item ∈ items, item.IsUse) (ok : ∀ item ∈ items, s.Ok item) :
    s.WellScoped items := by
  induction items with
  | nil => trivial
  | cons item items ih =>
    obtain ⟨first, others⟩ := List.forall_mem_cons.mp only
    obtain ⟨holds, later⟩ := List.forall_mem_cons.mp ok
    refine ⟨holds, ?_⟩
    rw [first.step s]
    exact ih others later

/-- What a text adds comes from its declarations. -/
theorem known_run (known : d ∈ (s.run items).known) :
    d ∈ s.known ∨ .declare d.2 ∈ items := by
  induction items generalizing s with
  | nil => exact .inl known
  | cons item items ih =>
    rcases ih known with new | later
    · cases item with
      | declare entity =>
        rcases List.mem_cons.mp new with rfl | old
        · exact .inr List.mem_cons_self
        · exact .inl old
      | _ => exact .inl new
    · exact .inr (List.mem_cons_of_mem _ later)

theorem known_mono (s : Scope N E) (items : List (Item N E)) : s.known ⊆ (s.run items).known := by
  induction items generalizing s with
  | nil => exact List.Subset.refl _
  | cons item items ih =>
    refine List.Subset.trans ?_ (ih (s.step item))
    cases item with
    | declare entity => exact List.subset_cons_self _ _
    | _ => exact List.Subset.refl _

theorem mem_known_of_undeclared {d : List N × E} (undeclared : .declare d.2 ∉ items) :
    d ∈ (s.run items).known ↔ d ∈ s.known :=
  ⟨fun known => (known_run known).resolve_right undeclared, fun old => known_mono s items old⟩

/-- A use in a well-scoped text has a declaration in the text or before it. -/
theorem declared_of_use {entity : E} (well : s.WellScoped items)
    (used : .use entity ∈ items) :
    (∃ path, (path, entity) ∈ s.known) ∨ .declare entity ∈ items := by
  obtain ⟨front, back, rfl⟩ := List.append_of_mem used
  rw [wellScoped_append, wellScoped_cons] at well
  obtain ⟨_, ⟨path, _, known⟩, _⟩ := well
  rcases known_run known with old | new
  · exact .inl ⟨path, old⟩
  · exact .inr (List.mem_append_left _ new)

/-- A text that leaves the scopes as they are and declares for the scope it stands in. -/
structure Level (items : List (Item N E)) : Prop where
  stack : ∀ s : Scope N E, (s.run items).stack = s.stack
  known : ∀ (s : Scope N E) d, d ∈ (s.run items).known ↔
    d ∈ s.known ∨ ∃ entity, .declare entity ∈ items ∧ d = (s.path, entity)

theorem Level.path (level : Level items) (s : Scope N E) : (s.run items).path = s.path := by
  rw [Scope.path, level.stack, Scope.path]

theorem Level.visible (level : Level items) (s : Scope N E) (entity : E) :
    (s.run items).Visible entity ↔ s.Visible entity ∨ .declare entity ∈ items := by
  constructor
  · rintro ⟨path, inside, known⟩
    rw [level.path] at inside
    rcases (level.known s _).mp known with old | ⟨_, new, same⟩
    · exact .inl ⟨path, inside, old⟩
    · obtain ⟨_, rfl⟩ := Prod.mk.inj same
      exact .inr new
  · rintro (⟨path, inside, old⟩ | new)
    · exact ⟨path, level.path s ▸ inside, (level.known s _).mpr (.inl old)⟩
    · refine ⟨s.path, ?_, (level.known s _).mpr (.inr ⟨entity, new, rfl⟩)⟩
      rw [level.path]

theorem Level.nil : Level ([] : List (Item N E)) := ⟨fun _ => rfl, by simp⟩

theorem Level.single {item : Item N E} (plain : item.Plain) : Level [item] := by
  cases item with
  | enter name => exact absurd plain id
  | leave => exact absurd plain id
  | declare entity => exact ⟨fun _ => rfl, by simp [step, or_comm]⟩
  | use entity => exact ⟨fun _ => rfl, by simp [step]⟩
  | useAt path entity => exact ⟨fun _ => rfl, by simp [step]⟩

@[simp] theorem visible_declare (s : Scope N E) (entity other : E) :
    (s.step (.declare entity)).Visible other ↔ s.Visible other ∨ other = entity := by
  have single : Level [(.declare entity : Item N E)] := Level.single trivial
  simpa using single.visible s other

theorem Level.append (first : Level front) (second : Level back) : Level (front ++ back) := by
  refine ⟨fun s => ?_, fun s d => ?_⟩
  · rw [run_append, second.stack, first.stack]
  · rw [run_append, second.known, first.known, first.path, or_assoc]
    simp only [List.mem_append, or_and_right, exists_or]

theorem Level.of_plain (plain : ∀ item ∈ items, item.Plain) : Level items := by
  induction items with
  | nil => exact .nil
  | cons item items ih =>
    obtain ⟨first, others⟩ := List.forall_mem_cons.mp plain
    exact (Level.single first).append (ih others)

theorem Level.of_uses (only : ∀ item ∈ items, item.IsUse) : Level items :=
  Level.of_plain fun item member => (only item member).plain

/-- A text in scopes that it opens and closes. -/
def within (names : List (Option N)) (items : List (Item N E)) : List (Item N E) :=
  names.map .enter ++ items ++ names.map fun _ => .leave

@[simp] theorem declare_mem_within {names : List (Option N)} {entity : E} :
    .declare entity ∈ within names items ↔ .declare entity ∈ items := by
  simp [within]

theorem run_enter (s : Scope N E) (names : List (Option N)) :
    s.run (names.map .enter) = ⟨s.stack ++ names, s.known⟩ := by
  induction names generalizing s with
  | nil => simp
  | cons name names ih => simp [ih, step]

theorem run_leave (stack names : List (Option N)) (known : List (List N × E)) :
    Scope.run ⟨stack ++ names, known⟩ (names.map fun _ => .leave) = ⟨stack, known⟩ := by
  induction names using List.reverseRecOn with
  | nil => simp
  | append_singleton names name ih =>
    rw [List.map_const'] at ih
    rw [List.map_const', List.length_append, List.length_singleton, List.replicate_succ, run_cons,
      ← ih]
    simp [step, ← List.append_assoc]

theorem run_within (level : Level items) (s : Scope N E) (names : List (Option N)) :
    s.run (within names items) =
      ⟨s.stack, (Scope.run ⟨s.stack ++ names, s.known⟩ items).known⟩ := by
  have inner : Scope.run ⟨s.stack ++ names, s.known⟩ items =
      ⟨s.stack ++ names, (Scope.run ⟨s.stack ++ names, s.known⟩ items).known⟩ :=
    congrArg (Scope.mk · _) (level.stack ⟨s.stack ++ names, s.known⟩)
  rw [within, run_append, run_append, run_enter, inner, run_leave]

theorem path_within (level : Level items) (s : Scope N E) (names : List (Option N)) :
    (s.run (within names items)).path = s.path := by
  rw [run_within level]
  rfl

theorem mem_known_within (level : Level items) (s : Scope N E) (names : List (Option N))
    (d : List N × E) : d ∈ (s.run (within names items)).known ↔
      d ∈ s.known ∨ ∃ entity, .declare entity ∈ items ∧
        d = (s.path ++ names.reduceOption, entity) := by
  rw [run_within level, level.known, Scope.path, List.reduceOption_append]
  rfl

theorem wellScoped_within (s : Scope N E) (names : List (Option N)) :
    s.WellScoped (within names items) ↔
      Scope.WellScoped ⟨s.stack ++ names, s.known⟩ items := by
  have enter : s.WellScoped (names.map .enter) :=
    wellScoped_of_unused (by simp [Item.IsUse])
  have leave (s : Scope N E) : s.WellScoped (names.map fun _ => .leave) :=
    wellScoped_of_unused (by simp [Item.IsUse])
  rw [within, wellScoped_append, wellScoped_append, run_enter, and_iff_left (leave _),
    and_iff_right enter]

/-- What is seen outside is seen inside. -/
theorem visible_within {entity : E} (visible : s.Visible entity) (names : List (Option N)) :
    Scope.Visible ⟨s.stack ++ names, s.known⟩ entity := by
  obtain ⟨path, outer, known⟩ := visible
  refine ⟨path, outer.trans ?_, known⟩
  rw [Scope.path, Scope.path, List.reduceOption_append]
  exact List.prefix_append _ _

theorem Level.unnamed (level : Level items) : Level (within [none] items) := by
  refine ⟨fun s => ?_, fun s d => ?_⟩
  · rw [run_within level]
  · rw [mem_known_within level]
    simp [within, List.reduceOption]

end Scoping
