/-! The parts of a sequence between the occurrences of a separator. -/
namespace ContractPipeline.Text

variable {α : Type} [DecidableEq α]

/-- One element before the parts that follow it: the part that it may extend, and the others. -/
def beforeParts (separator x : α) : List α × List (List α) → List α × List (List α)
  | (part, parts) => if x = separator then ([], part :: parts) else (x :: part, parts)

/-- What stands before, between and after the separators. -/
def split (separator : α) (xs : List α) : List (List α) :=
  let (part, parts) := xs.foldr (beforeParts separator) ([], [])
  part :: parts

@[simp] theorem split_nil (separator : α) : split separator [] = [[]] := rfl

@[simp] theorem split_separator (separator : α) (xs : List α) :
    split separator (separator :: xs) = [] :: split separator xs := by
  simp [split, beforeParts]

theorem split_cons_of_ne {separator x : α} (h : x ≠ separator) {xs part : List α}
    {parts : List (List α)} (hs : split separator xs = part :: parts) :
    split separator (x :: xs) = (x :: part) :: parts := by
  obtain ⟨hp, hps⟩ := List.cons.inj hs
  simp [split, beforeParts, h, hp, hps]

/-- The parts before a separator and those after it. -/
theorem split_append (separator : α) (xs ys : List α) :
    split separator (xs ++ separator :: ys) = split separator xs ++ split separator ys := by
  induction xs with
  | nil => simp
  | cons x xs ih =>
    by_cases hx : x = separator
    · subst hx
      simp [ih]
    · obtain ⟨part, parts, hs⟩ : ∃ part parts, split separator xs = part :: parts := ⟨_, _, rfl⟩
      rw [hs] at ih
      rw [List.cons_append, split_cons_of_ne hx ih, split_cons_of_ne hx hs]
      rfl

theorem split_eq_singleton {separator : α} {xs : List α} (h : separator ∉ xs) :
    split separator xs = [xs] := by
  induction xs with
  | nil => rfl
  | cons x xs ih =>
    rw [List.mem_cons, not_or] at h
    exact split_cons_of_ne (Ne.symm h.1) (ih h.2)

end ContractPipeline.Text
