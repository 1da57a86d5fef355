import Mathlib

/-! Sequences cut in pieces. A piece ends a message or is left for the next one; the two
ends of a stream may cut it in different places. -/
namespace Pieces

variable {α : Type*}

/-- The messages that the pieces make behind what is held. -/
def glue : List α → List (List α × Bool) → List (List α)
  | _, [] => []
  | held, (piece, true) :: rest => (held ++ piece) :: glue [] rest
  | held, (piece, false) :: rest => glue (held ++ piece) rest

/-- What is held after the pieces. -/
def remainder : List α → List (List α × Bool) → List α
  | held, [] => held
  | _, (_, true) :: rest => remainder [] rest
  | held, (piece, false) :: rest => remainder (held ++ piece) rest

/-- The pieces that end a message. -/
def ends (pieces : List (List α × Bool)) : List (List α) :=
  (pieces.filter Prod.snd).map Prod.fst

theorem glue_append (held : List α) (front back : List (List α × Bool)) :
    glue held (front ++ back) = glue held front ++ glue (remainder held front) back := by
  induction front generalizing held with
  | nil => rfl
  | cons piece front ih =>
    obtain ⟨piece, whole⟩ := piece
    cases whole with
    | true => simp [glue, remainder, ih]
    | false => simp [glue, remainder, ih]

theorem remainder_append (held : List α) (front back : List (List α × Bool)) :
    remainder held (front ++ back) = remainder (remainder held front) back := by
  induction front generalizing held with
  | nil => rfl
  | cons piece front ih =>
    obtain ⟨piece, whole⟩ := piece
    cases whole with
    | true => exact ih []
    | false => exact ih (held ++ piece)

@[simp] theorem ends_append (front back : List (List α × Bool)) :
    ends (front ++ back) = ends front ++ ends back := by
  simp [ends]

/-- Nothing is lost, made twice or moved. -/
theorem flatten_glue (held : List α) (pieces : List (List α × Bool)) :
    (glue held pieces).flatten ++ remainder held pieces =
      held ++ (pieces.map Prod.fst).flatten := by
  induction pieces generalizing held with
  | nil => simp [glue, remainder]
  | cons piece pieces ih =>
    obtain ⟨piece, whole⟩ := piece
    cases whole with
    | true =>
      have tail := ih []
      rw [List.nil_append] at tail
      simp [glue, remainder, tail]
    | false => simpa [glue, remainder] using ih (held ++ piece)

/-- Every message ends with the piece that ends it. -/
theorem suffix_glue (held : List α) (pieces : List (List α × Bool)) :
    List.Forall₂ (· <:+ ·) (ends pieces) (glue held pieces) := by
  induction pieces generalizing held with
  | nil => exact .nil
  | cons piece pieces ih =>
    obtain ⟨piece, whole⟩ := piece
    cases whole with
    | true => exact .cons (List.suffix_append held piece) (ih [])
    | false => exact ih (held ++ piece)

theorem length_glue (held : List α) (pieces : List (List α × Bool)) :
    (glue held pieces).length = (ends pieces).length :=
  (suffix_glue held pieces).length_eq.symm

/-- Pieces that end no message and are empty leave no trace. -/
theorem glue_clean {pieces : List (List α × Bool)}
    (clean : ∀ piece ∈ pieces, piece.2 = false → piece.1 = []) :
    glue [] pieces = ends pieces ∧ remainder [] pieces = [] := by
  induction pieces with
  | nil => exact ⟨rfl, rfl⟩
  | cons piece pieces ih =>
    obtain ⟨tail, nothing⟩ := ih fun piece member => clean piece (List.mem_cons_of_mem _ member)
    obtain ⟨piece, whole⟩ := piece
    cases whole with
    | true => exact ⟨by simpa [glue, ends] using tail, nothing⟩
    | false =>
      obtain rfl : piece = [] := clean (piece, false) List.mem_cons_self rfl
      exact ⟨by simpa [glue, ends] using tail, nothing⟩

/-- Where one end has made of its pieces the first messages that the other end made of its
own, the last pieces of a message on both sides are parts of each other. -/
theorem ends_comparable {cuts pieces : List (List α × Bool)} {later : List (List α)}
    (same : glue [] pieces = glue [] cuts ++ later) :
    List.Forall₂ (fun a b => a <:+ b ∨ b <:+ a) (ends cuts)
      ((ends pieces).take (ends cuts).length) := by
  have whole := List.forall₂_take (ends cuts).length (suffix_glue [] pieces)
  rw [same, ← length_glue [] cuts, List.take_left, length_glue] at whole
  have own := suffix_glue [] cuts
  rw [List.forall₂_iff_get] at own whole ⊢
  refine ⟨own.1.trans whole.1.symm, fun i inside inside' => ?_⟩
  exact List.suffix_or_suffix_of_suffix (own.2 i inside (own.1 ▸ inside))
    (whole.2 i inside' (whole.1 ▸ inside'))

end Pieces
