import Zqrpc.Scoping

/-! What the translated files of a program have in common: the spelling of their names, the
declarations of a text that other files see, members that are told apart by their classes, and
headers that every file includes once. -/
namespace Linkage

open Scoping

section Codes

variable {A B : Type*}

/-- No code of a character of `S` begins another one, and none is empty. -/
structure PrefixFree (S : Set A) (code : A → List B) : Prop where
  apart : ∀ a ∈ S, ∀ b ∈ S, code a <+: code b → a = b
  some' : ∀ a ∈ S, code a ≠ []

/-- Two texts that are spelled in the same way are the same. -/
theorem PrefixFree.flatMap_injective {S : Set A} {code : A → List B} (free : PrefixFree S code)
    {xs ys : List A} (inXs : ∀ x ∈ xs, x ∈ S) (inYs : ∀ y ∈ ys, y ∈ S)
    (same : xs.flatMap code = ys.flatMap code) : xs = ys := by
  induction xs generalizing ys with
  | nil =>
    cases ys with
    | nil => rfl
    | cons y ys =>
      have empty := List.append_eq_nil_iff.mp same.symm
      exact absurd empty.1 (free.some' y (inYs y List.mem_cons_self))
  | cons x xs ih =>
    cases ys with
    | nil =>
      have empty := List.append_eq_nil_iff.mp same
      exact absurd empty.1 (free.some' x (inXs x List.mem_cons_self))
    | cons y ys =>
      have x' := inXs x List.mem_cons_self
      have y' := inYs y List.mem_cons_self
      rw [List.flatMap_cons, List.flatMap_cons] at same
      have first : x = y := by
        rcases List.append_eq_append_iff.mp same with ⟨more, longer, _⟩ | ⟨more, longer, _⟩
        · exact free.apart x x' y y' ⟨more, longer.symm⟩
        · exact (free.apart y y' x x' ⟨more, longer.symm⟩).symm
      subst first
      rw [ih (fun a member => inXs a (List.mem_cons_of_mem _ member))
        (fun b member => inYs b (List.mem_cons_of_mem _ member)) (List.append_cancel_left same)]

end Codes

section External

variable {N E : Type*} {s : Scope N E} {items : List (Item N E)}

/-- What a declaration makes visible to other files: nothing in a scope without a name. -/
def exported (s : Scope N E) : Item N E → List (List N × E)
  | .declare entity => if s.stack.all Option.isSome then [(s.path, entity)] else []
  | _ => []

/-- The declarations of a text that other files see. Members that it defines outside of their
class are declared elsewhere. -/
def external (s : Scope N E) : List (Item N E) → List (List N × E)
  | [] => []
  | item :: items => exported s item ++ external (s.step item) items

theorem external_append (s : Scope N E) (front back : List (Item N E)) :
    external s (front ++ back) = external s front ++ external (s.run front) back := by
  induction front generalizing s with
  | nil => rfl
  | cons item front ih =>
    rw [List.cons_append, external, external, ih, List.append_assoc, run_cons]

theorem external_undeclared (undeclared : ∀ entity, .declare entity ∉ items) :
    external s items = [] := by
  induction items generalizing s with
  | nil => rfl
  | cons item items ih =>
    have silent : exported s item = [] := by
      cases item with
      | declare entity => exact absurd List.mem_cons_self (undeclared entity)
      | _ => rfl
    rw [external, silent,
      ih fun entity member => undeclared entity (List.mem_cons_of_mem _ member)]
    rfl

theorem external_of_uses (only : ∀ item ∈ items, item.IsUse) : external s items = [] :=
  external_undeclared fun entity member => only (.declare entity) member

theorem external_within (s : Scope N E) (names : List (Option N)) :
    external s (within names items) = external ⟨s.stack ++ names, s.known⟩ items := by
  have enter : external s (names.map .enter) = [] := external_undeclared (by simp)
  have leave (s : Scope N E) : external s (names.map fun _ => .leave) = [] :=
    external_undeclared (by simp)
  rw [within, external_append, external_append, enter, leave, run_enter, List.nil_append,
    List.append_nil]

/-- A scope without a name hides what is declared in it. -/
theorem external_hidden (hidden : s.stack.all Option.isSome = false)
    (plain : ∀ item ∈ items, item.Plain) : external s items = [] := by
  induction items generalizing s with
  | nil => rfl
  | cons item items ih =>
    obtain ⟨first, others⟩ := List.forall_mem_cons.mp plain
    have silent : exported s item = [] := by
      cases item <;> simp [exported, hidden]
    have same : (s.step item).stack = s.stack := (Level.single first).stack s
    rw [external, silent, ih (same ▸ hidden) others]
    rfl

theorem external_unnamed (plain : ∀ item ∈ items, item.Plain) (s : Scope N E) :
    external s (within [none] items) = [] := by
  rw [external_within, external_hidden (by simp) plain]

end External

section Groups

variable {K X : Type*} {groups : List (K × List X)}

/-- The members of all groups, each with the key of its group. -/
def membersOf (groups : List (K × List X)) : List (K × X) :=
  groups.flatMap fun group => group.2.map (group.1, ·)

theorem membersOf_flatMap {ι : Type*} (xs : List ι) (f : ι → List (K × List X)) :
    membersOf (xs.flatMap f) = xs.flatMap fun x => membersOf (f x) :=
  List.flatMap_assoc

theorem mem_membersOf {member : K × X} :
    member ∈ membersOf groups ↔ ∃ group ∈ groups, group.1 = member.1 ∧ member.2 ∈ group.2 := by
  obtain ⟨key, x⟩ := member
  simp only [membersOf, List.mem_flatMap, List.mem_map, Prod.mk.injEq]
  constructor
  · rintro ⟨group, there, _, inside, same, rfl⟩
    exact ⟨group, there, same, inside⟩
  · rintro ⟨group, there, same, inside⟩
    exact ⟨group, there, x, inside, same, rfl⟩

/-- Where the members of each group are different and one of them goes by the key, all members
are different if and only if the keys are. -/
theorem membersOf_nodup_iff (marked : K → X) (has : ∀ group ∈ groups, marked group.1 ∈ group.2)
    (each : ∀ group ∈ groups, group.2.Nodup) :
    (membersOf groups).Nodup ↔ (groups.map Prod.fst).Nodup := by
  constructor
  · intro all
    have marks : List.Sublist ((groups.map Prod.fst).map fun key => (key, marked key))
        (membersOf groups) := by
      rw [List.map_map, List.map_eq_flatMap]
      refine List.Sublist.flatMap_right _ fun group there => ?_
      exact List.singleton_sublist.mpr (List.mem_map.mpr ⟨_, has group there, rfl⟩)
    exact (all.sublist marks).of_map _
  · intro keys
    refine List.nodup_flatMap.mpr ⟨fun group there => (each group there).map ?_, ?_⟩
    · exact Prod.mk_right_injective group.1
    · refine (List.pairwise_map.mp keys).imp fun {group group'} apart member inside inside' => ?_
      obtain ⟨_, -, rfl⟩ := List.mem_map.mp inside
      obtain ⟨_, -, same⟩ := List.mem_map.mp inside'
      exact apart (Prod.mk.inj same).1.symm

end Groups

section Include

variable {M T : Type*}

/-- A text that a macro keeps from being read twice. -/
structure Header (M T : Type*) where
  guard : M
  body : List T

/-- What a translation unit reads that includes these headers, after it has defined some macros. -/
def includeAll [DecidableEq M] (defined : List M) : List (Header M T) → List T
  | [] => []
  | header :: headers =>
    if header.guard ∈ defined then includeAll defined headers
    else header.body ++ includeAll (header.guard :: defined) headers

/-- Where no two headers have one macro, each is read once, where it is first included. -/
theorem includeAll_once {ι : Type*} [DecidableEq ι] [DecidableEq M] {header : ι → Header M T}
    (apart : Function.Injective fun i => (header i).guard) (done includes : List ι) :
    includeAll (done.map fun i => (header i).guard) (includes.map header) =
      (includes.filter (· ∉ done)).eraseDups.flatMap fun i => (header i).body := by
  induction includes generalizing done with
  | nil => rfl
  | cons i includes ih =>
    have defined : (header i).guard ∈ done.map (fun i => (header i).guard) ↔ i ∈ done :=
      List.mem_map_of_injective apart
    rw [List.map_cons, includeAll]
    by_cases again : i ∈ done
    · rw [if_pos (defined.mpr again), ih, List.filter_cons_of_neg (by simpa using again)]
    · have later : includes.filter (· ∉ i :: done) =
          (includes.filter (· ∉ done)).filter fun j => !j == i := by
        rw [List.filter_filter]
        exact List.filter_congr fun j _ => by simp [beq_eq_decide]
      rw [if_neg (mt defined.mp again), List.filter_cons_of_pos (by simpa using again),
        List.eraseDups_cons, List.flatMap_cons, ← later, ← ih]
      rfl

end Include

end Linkage
