import Mathlib.Data.List.TakeWhile
import ContractPipeline.Text.Split

/-! Splitting at a separator is undone by putting the separator between the parts, and the parts are
the only ones that lead back to the sequence. -/
namespace ContractPipeline.Text

section Prefixes

variable {α : Type} {p : α → Bool} {xs rest : List α}

theorem takeWhile_append_of_head (h : ∀ x ∈ xs, p x = true) (hr : ∀ x ∈ rest.head?, p x = false) :
    (xs ++ rest).takeWhile p = xs := by
  rw [List.takeWhile_append_of_pos h]
  cases rest with
  | nil => simp
  | cons x rest =>
    have hx := hr x rfl
    simp [hx]

theorem dropWhile_append_of_head (h : ∀ x ∈ xs, p x = true) (hr : ∀ x ∈ rest.head?, p x = false) :
    (xs ++ rest).dropWhile p = rest := by
  rw [List.dropWhile_append_of_pos h]
  cases rest with
  | nil => rfl
  | cons x rest =>
    have hx := hr x rfl
    simp [hx]

end Prefixes

variable {α : Type} [DecidableEq α] {separator : α} {xs : List α} {parts : List (List α)}

theorem split_ne_nil (separator : α) (xs : List α) : split separator xs ≠ [] :=
  List.cons_ne_nil _ _

theorem intercalate_split (separator : α) (xs : List α) :
    [separator].intercalate (split separator xs) = xs := by
  induction xs with
  | nil => rfl
  | cons x xs ih =>
    by_cases hx : x = separator
    · subst hx
      rw [split_separator, List.intercalate_cons_of_ne_nil (split_ne_nil x xs), ih]
      rfl
    · obtain ⟨part, parts, hs⟩ := List.exists_cons_of_ne_nil (split_ne_nil separator xs)
      rw [hs] at ih
      rw [split_cons_of_ne hx hs]
      cases parts with
      | nil => simpa using ih
      | cons next parts =>
        rw [List.intercalate_cons_cons] at ih ⊢
        rw [List.cons_append, List.cons_append, ih]

theorem notMem_of_mem_split {part : List α} (h : part ∈ split separator xs) : separator ∉ part := by
  induction xs generalizing part with
  | nil =>
    obtain rfl := List.mem_singleton.mp h
    exact List.not_mem_nil
  | cons x xs ih =>
    by_cases hx : x = separator
    · subst hx
      rw [split_separator] at h
      rcases List.mem_cons.mp h with rfl | h
      · exact List.not_mem_nil
      · exact ih h
    · obtain ⟨first, parts, hs⟩ := List.exists_cons_of_ne_nil (split_ne_nil separator xs)
      rw [hs] at ih
      rw [split_cons_of_ne hx hs] at h
      rcases List.mem_cons.mp h with rfl | h
      · have hf := ih List.mem_cons_self
        simp [Ne.symm hx, hf]
      · exact ih (List.mem_cons_of_mem _ h)

theorem split_intercalate (hne : parts ≠ []) (h : ∀ part ∈ parts, separator ∉ part) :
    split separator ([separator].intercalate parts) = parts := by
  induction parts with
  | nil => exact absurd rfl hne
  | cons part parts ih =>
    obtain ⟨hp, hps⟩ := List.forall_mem_cons.mp h
    cases parts with
    | nil => simpa using split_eq_singleton hp
    | cons next parts =>
      rw [List.intercalate_cons_cons, List.append_assoc, List.singleton_append, split_append,
        split_eq_singleton hp, ih (List.cons_ne_nil _ _) hps]
      rfl

/-- The parts of a sequence are the parts without the separator that make it up. -/
theorem split_eq_iff :
    split separator xs = parts ↔
      parts ≠ [] ∧ (∀ part ∈ parts, separator ∉ part) ∧ [separator].intercalate parts = xs := by
  constructor
  · rintro rfl
    exact ⟨split_ne_nil _ _, fun part hp => notMem_of_mem_split hp, intercalate_split _ _⟩
  · rintro ⟨hne, h, rfl⟩
    exact split_intercalate hne h

omit [DecidableEq α] in
theorem mem_intercalate {x : α} (h : x ∈ [separator].intercalate parts) :
    x = separator ∨ ∃ part ∈ parts, x ∈ part := by
  induction parts with
  | nil => cases h
  | cons part parts ih =>
    cases parts with
    | nil => exact .inr ⟨part, List.mem_cons_self, by simpa using h⟩
    | cons next parts =>
      rw [List.intercalate_cons_cons, List.append_assoc, List.mem_append, List.mem_append,
        List.mem_singleton] at h
      rcases h with h | h | h
      · exact .inr ⟨part, List.mem_cons_self, h⟩
      · exact .inl h
      · obtain rfl | ⟨found, hf, hx⟩ := ih h
        · exact .inl rfl
        · exact .inr ⟨found, List.mem_cons_of_mem _ hf, hx⟩

end ContractPipeline.Text
