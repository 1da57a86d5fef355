import Mathlib.Logic.Basic

/-! Programs that change a state and may throw, and what runs on the way out of a scope,
with rules for what holds before and after them. A program that is undefined in a state has
no outcome there. -/
namespace Unwinding

universe u

variable {S T E X : Type*} {α β : Type u}

def Program (S E : Type*) (α : Type u) := S → Option (Except E α × S)

namespace Program

instance : Monad (Program S E) where
  pure a := fun s => some (.ok a, s)
  bind p f := fun s =>
    match p s with
    | none => none
    | some (.error e, t) => some (.error e, t)
    | some (.ok a, t) => f a t

theorem bind_ok {p : Program S E α} {f : α → Program S E β} {s t : S} {a : α}
    (run : p s = some (.ok a, t)) : (p >>= f) s = f a t := by
  simp only [Bind.bind, run]

theorem bind_error {p : Program S E α} {f : α → Program S E β} {s t : S} {e : E}
    (run : p s = some (.error e, t)) : (p >>= f) s = some (.error e, t) := by
  simp only [Bind.bind, run]

/-- If `p` throws, `cleanup` runs before the exception leaves. -/
def unwinding (p : Program S E α) (cleanup : Program S E Unit) : Program S E α := fun s =>
  match p s with
  | some (.error e, t) =>
    match cleanup t with
    | some (.ok _, u) => some (.error e, u)
    | some (.error e', u) => some (.error e', u)
    | none => none
  | outcome => outcome

/-- `cleanup` runs after `p`, however `p` ends. -/
def ensuring (p : Program S E α) (cleanup : Program S E Unit) : Program S E α := fun s =>
  match p.unwinding cleanup s with
  | some (.ok a, t) =>
    match cleanup t with
    | some (.ok _, u) => some (.ok a, u)
    | some (.error e, u) => some (.error e, u)
    | none => none
  | outcome => outcome

/-- The exceptions that are caught end here. -/
def catching (caught : E → Bool) (p : Program S E Unit) : Program S E Unit := fun s =>
  match p s with
  | some (.error e, t) => if caught e then some (.ok (), t) else some (.error e, t)
  | outcome => outcome

/-- An assignment. -/
def modify (f : S → S) : Program S E Unit := fun s => some (.ok (), f s)

def read (f : S → α) : Program S E α := fun s => some (.ok (f s), s)

def throw (e : E) : Program S E α := fun s => some (.error e, s)

/-- A program on a part of the state. -/
def zoom (get : S → T) (put : T → S → S) (p : Program T E α) : Program S E α := fun s =>
  (p (get s)).map fun outcome => (outcome.1, put outcome.2 s)

def each (p : X → Program S E Unit) : List X → Program S E Unit
  | [] => pure ()
  | x :: rest => do
    p x
    each p rest

end Program

/-- In every state with `pre` the program has an outcome: it returns with `post`, or throws
and leaves `thrown`. -/
def Triple (pre : S → Prop) (p : Program S E α) (post : α → S → Prop) (thrown : S → Prop) :
    Prop :=
  ∀ s, pre s → (∃ a t, p s = some (.ok a, t) ∧ post a t) ∨
    ∃ e t, p s = some (.error e, t) ∧ thrown t

namespace Triple

variable {pre : S → Prop} {p : Program S E α} {post : α → S → Prop} {thrown : S → Prop}

theorem pure {a : α} (held : ∀ s, pre s → post a s) :
    Triple pre (pure a : Program S E α) post thrown :=
  fun s start => .inl ⟨a, s, rfl, held s start⟩

theorem weaken {pre' thrown' : S → Prop} {post' : α → S → Prop}
    (rule : Triple pre p post thrown) (before : ∀ s, pre' s → pre s)
    (after : ∀ a s, post a s → post' a s) (left' : ∀ s, thrown s → thrown' s) :
    Triple pre' p post' thrown' := by
  intro s start
  rcases rule s (before s start) with ⟨a, t, run, held⟩ | ⟨e, t, run, held⟩
  · exact .inl ⟨a, t, run, after a t held⟩
  · exact .inr ⟨e, t, run, left' t held⟩

theorem bind {f : α → Program S E β} {post' : β → S → Prop} (first : Triple pre p post thrown)
    (second : ∀ a, Triple (post a) (f a) post' thrown) :
    Triple pre (p >>= f) post' thrown := by
  intro s start
  rcases first s start with ⟨a, t, run, held⟩ | ⟨e, t, run, held⟩
  · rw [Program.bind_ok run]
    exact second a t held
  · exact .inr ⟨e, t, Program.bind_error run, held⟩

theorem unwinding {cleanup : Program S E Unit} {thrown' : S → Prop}
    (body : Triple pre p post thrown)
    (after : Triple thrown cleanup (fun _ => thrown') fun _ => False) :
    Triple pre (p.unwinding cleanup) post thrown' := by
  intro s start
  rcases body s start with ⟨a, t, run, held⟩ | ⟨e, t, run, held⟩
  · exact .inl ⟨a, t, by simp only [Program.unwinding, run], held⟩
  · obtain ⟨_, u, cleaned, last⟩ | ⟨_, _, _, absurd'⟩ := after t held
    · exact .inr ⟨e, u, by simp only [Program.unwinding, run, cleaned], last⟩
    · exact absurd'.elim

theorem ensuring {cleanup : Program S E Unit} {post' : α → S → Prop} {thrown' : S → Prop}
    (body : Triple pre p post thrown)
    (returned : ∀ a, Triple (post a) cleanup (fun _ => post' a) fun _ => False)
    (left' : Triple thrown cleanup (fun _ => thrown') fun _ => False) :
    Triple pre (p.ensuring cleanup) post' thrown' := by
  intro s start
  rcases body.unwinding left' s start with ⟨a, t, run, held⟩ | ⟨e, t, run, held⟩
  · obtain ⟨_, u, cleaned, last⟩ | ⟨_, _, _, absurd'⟩ := returned a t held
    · exact .inl ⟨a, u, by simp only [Program.ensuring, run, cleaned], last⟩
    · exact absurd'.elim
  · exact .inr ⟨e, t, by simp only [Program.ensuring, run], held⟩

theorem catching {p : Program S E Unit} {post : Unit → S → Prop} {caught : E → Bool}
    (body : Triple pre p post thrown) (goesOn : ∀ s, thrown s → post () s) :
    Triple pre (p.catching caught) post thrown := by
  intro s start
  rcases body s start with ⟨a, t, run, held⟩ | ⟨e, t, run, held⟩
  · exact .inl ⟨a, t, by simp only [Program.catching, run], held⟩
  · cases taken : caught e with
    | true =>
      exact .inl ⟨(), t, by simp only [Program.catching, run, taken, if_true], goesOn t held⟩
    | false => exact .inr ⟨e, t, by simp [Program.catching, run, taken], held⟩

theorem modify {pre thrown : S → Prop} {post : Unit → S → Prop} {f : S → S}
    (held : ∀ s, pre s → post () (f s)) :
    Triple pre (Program.modify f : Program S E Unit) post thrown :=
  fun s start => .inl ⟨(), f s, rfl, held s start⟩

theorem read {f : S → α} (held : ∀ s, pre s → post (f s) s) :
    Triple pre (Program.read f : Program S E α) post thrown :=
  fun s start => .inl ⟨f s, s, rfl, held s start⟩

theorem throw {e : E} (held : ∀ s, pre s → thrown s) :
    Triple pre (Program.throw e : Program S E α) post thrown :=
  fun s start => .inr ⟨e, s, rfl, held s start⟩

/-- What the part does not see stays. -/
theorem zoom {pre thrown : T → Prop} {p : Program T E α} {post : α → T → Prop} {get : S → T}
    {put : T → S → S} {rest : S → Prop} (part : ∀ t s, get (put t s) = t)
    (kept : ∀ t s, rest s → rest (put t s)) (rule : Triple pre p post thrown) :
    Triple (fun s => pre (get s) ∧ rest s) (p.zoom get put) (fun a s => post a (get s) ∧ rest s)
      fun s => thrown (get s) ∧ rest s := by
  rintro s ⟨start, other⟩
  rcases rule (get s) start with ⟨a, t, run, held⟩ | ⟨e, t, run, held⟩
  · refine .inl ⟨a, put t s, by simp only [Program.zoom, run, Option.map_some], ?_, kept t s other⟩
    rwa [part]
  · refine .inr ⟨e, put t s, by simp only [Program.zoom, run, Option.map_some], ?_, kept t s other⟩
    rwa [part]

/-- The loop rule. -/
theorem each {q : X → Program S E Unit} {xs : List X}
    (round : ∀ x ∈ xs, Triple pre (q x) (fun _ => pre) thrown) :
    Triple pre (Program.each q xs) (fun _ => pre) thrown := by
  induction xs with
  | nil => exact .pure fun _ start => start
  | cons x rest ih =>
    rw [List.forall_mem_cons] at round
    exact Triple.bind round.1 fun _ => ih round.2

end Triple

end Unwinding
