import Mathlib.Data.List.Chain
import Mathlib.Data.List.DropRight
import ContractPipeline.Proofs.Text.Parts
import ContractPipeline.Text.Blank

/-! White space at the ends of a text and between its words. The words are the runs that white space
separates; put together with single spaces they are found again. -/
namespace ContractPipeline.Text

theorem isBlank_eq_false_of_visible {c : Char} (hl : 0x21 ≤ c.toNat) (hg : c.toNat ≤ 0x7E) :
    isBlank c = false := by
  simp only [isBlank, Bool.or_eq_false_iff, Bool.and_eq_false_iff, beq_eq_false_iff_ne,
    decide_eq_false_iff_not]
  omega

section Trim

variable {text before core after : List Char}

/-- What has no white space in it is what is left when the white space around it is trimmed. -/
theorem trim_append (hb : ∀ c ∈ before, isBlank c = true) (ha : ∀ c ∈ after, isBlank c = true)
    (hne : core ≠ []) (hc : ∀ c ∈ core, isBlank c = false) :
    trim (before ++ core ++ after) = core := by
  have hfirst : ∀ c ∈ (core ++ after).head?, isBlank c = false := by
    intro c hm
    cases core with
    | nil => exact absurd rfl hne
    | cons first core =>
      cases hm
      exact hc _ List.mem_cons_self
  have hlast : ∀ c ∈ core.reverse.head?, isBlank c = false := by
    intro c hm
    exact hc c (List.mem_reverse.mp (List.mem_of_head? hm))
  have hr : ∀ c ∈ after.reverse, isBlank c = true := by
    intro c hm
    exact ha c (List.mem_reverse.mp hm)
  rw [trim, List.append_assoc, dropWhile_append_of_head hb hfirst, List.reverse_append,
    dropWhile_append_of_head hr hlast, List.reverse_reverse]

theorem exists_trim (text : List Char) :
    ∃ before after, text = before ++ trim text ++ after ∧ (∀ c ∈ before, isBlank c = true) ∧
      ∀ c ∈ after, isBlank c = true := by
  have hsplit (text : List Char) : text = text.takeWhile isBlank ++ text.dropWhile isBlank :=
    List.takeWhile_append_dropWhile.symm
  have hall (text : List Char) : ∀ c ∈ text.takeWhile isBlank, isBlank c = true := by
    intro c hc
    exact List.mem_takeWhile_imp hc
  let rest := text.dropWhile isBlank
  refine ⟨text.takeWhile isBlank, (rest.reverse.takeWhile isBlank).reverse, ?_, hall text, ?_⟩
  · have hr := congrArg List.reverse (hsplit rest.reverse)
    rw [List.reverse_reverse, List.reverse_append] at hr
    rw [trim, List.append_assoc, ← hr]
    exact hsplit text
  · intro c hc
    exact hall rest.reverse c (List.mem_reverse.mp hc)

theorem trim_eq_nil_iff : trim text = [] ↔ ∀ c ∈ text, isBlank c = true := by
  constructor
  · intro h c hc
    obtain ⟨before, after, ht, hb, ha⟩ := exists_trim text
    rw [ht, h, List.append_nil] at hc
    exact (List.mem_append.mp hc).elim (hb c) (ha c)
  · intro h
    rw [trim, List.dropWhile_eq_nil_iff.mpr h]
    rfl

theorem takeWhile_isBlank_eq_nil (h : ∀ c ∈ text, isBlank c = false) :
    text.takeWhile isBlank = [] := by
  cases text with
  | nil => rfl
  | cons c rest => simp [h c List.mem_cons_self]

theorem head?_dropWhile_isBlank {c : Char} (h : (text.dropWhile isBlank).head? = some c) :
    isBlank c = false := by
  have hd := List.head?_dropWhile_not isBlank text
  rw [h] at hd
  simpa using hd

theorem takeWhile_dropWhile_isBlank (text : List Char) :
    (text.dropWhile isBlank).takeWhile isBlank = [] := by
  have hn : ∀ c ∈ ([] : List Char), isBlank c = true := List.forall_mem_nil _
  exact takeWhile_append_of_head hn fun c hc => head?_dropWhile_isBlank hc

theorem takeWhile_reverse_trim (text : List Char) : (trim text).reverse.takeWhile isBlank = [] := by
  rw [trim, List.reverse_reverse]
  exact takeWhile_dropWhile_isBlank _

/-- What is left at the end does not change where a text begins. -/
theorem takeWhile_trim (text : List Char) : (trim text).takeWhile isBlank = [] := by
  have hp : trim text <+: text.dropWhile isBlank := List.rdropWhile_prefix isBlank _
  cases ht : trim text with
  | nil => rfl
  | cons c rest =>
    obtain ⟨after, ha⟩ := hp
    have hh : (text.dropWhile isBlank).head? = some c := by
      rw [← ha, ht]
      rfl
    simp [head?_dropWhile_isBlank hh]

end Trim

def IsWord (word : List Char) : Prop :=
  word ≠ [] ∧ ∀ c ∈ word, isBlank c = false

/-- The words of a text: a word reaches up to white space or to the end. -/
inductive HasWords : List Char → List (List Char) → Prop
  | none {text : List Char} (h : ∀ c ∈ text, isBlank c = true) : HasWords text []
  | next {blanks word rest : List Char} {others : List (List Char)}
      (hb : ∀ c ∈ blanks, isBlank c = true) (hw : IsWord word)
      (hr : ∀ c ∈ rest.head?, isBlank c = true) (h : HasWords rest others) :
      HasWords (blanks ++ word ++ rest) (word :: others)

section Words

variable {text word rest blanks : List Char} {others : List (List Char)}

theorem words_cons_of_isBlank {c : Char} (h : isBlank c = true) (text : List Char) :
    words (c :: text) = words text := by
  simp [words, beforeWords, h]

theorem words_append_of_isBlank (h : ∀ c ∈ blanks, isBlank c = true) (text : List Char) :
    words (blanks ++ text) = words text := by
  induction blanks with
  | nil => rfl
  | cons c blanks ih =>
    obtain ⟨hc, hb⟩ := List.forall_mem_cons.mp h
    rw [List.cons_append, words_cons_of_isBlank hc, ih hb]

/-- Going through a text from its end, the word that may still grow is what stands in front of the
first white space. -/
theorem foldr_beforeWords (text : List Char) :
    text.foldr beforeWords ([], []) =
      (text.takeWhile fun c => !isBlank c, words (text.dropWhile fun c => !isBlank c)) := by
  induction text with
  | nil => rfl
  | cons c text ih =>
    cases hc : isBlank c with
    | true => simp [hc, beforeWords, words]
    | false => simp [hc, ih, beforeWords]

theorem words_append (hw : IsWord word) (hr : ∀ c ∈ rest.head?, isBlank c = true) :
    words (word ++ rest) = word :: words rest := by
  have hin : ∀ c ∈ word, (!isBlank c) = true := by
    intro c hc
    rw [hw.2 c hc]
    rfl
  have hout : ∀ c ∈ rest.head?, (!isBlank c) = false := by
    intro c hc
    rw [hr c hc]
    rfl
  have hf := foldr_beforeWords (word ++ rest)
  rw [takeWhile_append_of_head hin hout, dropWhile_append_of_head hin hout] at hf
  have he : word.isEmpty = false := List.isEmpty_eq_false_iff.mpr hw.1
  simp [words, hf, he]

theorem HasWords.words_eq (h : HasWords text others) : words text = others := by
  induction h with
  | @none text hb =>
    have hw := words_append_of_isBlank hb []
    rwa [List.append_nil] at hw
  | next hb hw hr _ ih => rw [List.append_assoc, words_append_of_isBlank hb, words_append hw hr, ih]

/-- What does not begin with white space begins with a word. -/
theorem exists_word {c : Char} (hc : isBlank c = false) (tail : List Char) :
    ∃ word rest, c :: tail = word ++ rest ∧ IsWord word ∧ ∀ d ∈ rest.head?, isBlank d = true := by
  let p := fun d => !isBlank d
  have hp : p c = true := by
    change (!isBlank c) = true
    rw [hc]
    rfl
  refine ⟨(c :: tail).takeWhile p, (c :: tail).dropWhile p, ?_, ⟨?_, ?_⟩, ?_⟩
  · exact List.takeWhile_append_dropWhile.symm
  · rw [List.takeWhile_cons_of_pos hp]
    exact List.cons_ne_nil _ _
  · intro d hd
    have hn : p d = true := List.mem_takeWhile_imp hd
    simpa [p] using hn
  · intro d hd
    have hn := List.head?_dropWhile_not p (c :: tail)
    rw [Option.mem_def.mp hd] at hn
    simpa [p] using hn

theorem hasWords_words (text : List Char) : HasWords text (words text) := by
  induction hn : text.length using Nat.strongRecOn generalizing text with
  | ind n ih =>
    have hb : ∀ c ∈ text.takeWhile isBlank, isBlank c = true := by
      intro c hc
      exact List.mem_takeWhile_imp hc
    have ht : text.takeWhile isBlank ++ text.dropWhile isBlank = text :=
      List.takeWhile_append_dropWhile
    rw [← ht, words_append_of_isBlank hb]
    cases hd : text.dropWhile isBlank with
    | nil =>
      rw [List.append_nil]
      exact .none hb
    | cons c tail =>
      have hh : (text.dropWhile isBlank).head? = some c := by
        rw [hd]
        rfl
      obtain ⟨word, rest, he, hw, hr⟩ := exists_word (head?_dropWhile_isBlank hh) tail
      have hl : rest.length < n := by
        have hpos := List.length_pos_iff.mpr hw.1
        have hlen := congrArg List.length ht
        rw [hd, he, List.length_append, List.length_append, hn] at hlen
        omega
      rw [he, words_append hw hr, ← List.append_assoc]
      exact .next hb hw hr (ih rest.length hl rest rfl)

/-- The words of a text are the only ones that it has. -/
theorem words_eq_iff : words text = others ↔ HasWords text others := by
  constructor
  · rintro rfl
    exact hasWords_words text
  · exact HasWords.words_eq

theorem HasWords.isWord (h : HasWords text others) : ∀ word ∈ others, IsWord word := by
  induction h with
  | none => exact fun word hm => absurd hm List.not_mem_nil
  | next _ hw _ _ ih => exact List.forall_mem_cons.mpr ⟨hw, ih⟩

end Words

/-- A text whose only white space are single spaces inside of it. -/
structure Tidy (text : List Char) : Prop where
  spaces : ∀ c ∈ text, isBlank c = true → c = ' '
  first : ∀ c ∈ text.head?, isBlank c = false
  last : ∀ c ∈ text.getLast?, isBlank c = false
  apart : text.IsChain fun c d => isBlank c = false ∨ isBlank d = false

section Unwords

variable {word next : List Char} {others : List (List Char)}

theorem unwords_cons_cons (word next : List Char) (others : List (List Char)) :
    unwords (word :: next :: others) = word ++ ' ' :: unwords (next :: others) := by
  rw [unwords, List.intercalate_cons_cons, List.append_assoc]
  rfl

theorem unwords_singleton (word : List Char) : unwords [word] = word := by
  simp [unwords]

theorem IsWord.tidy (h : IsWord word) : Tidy word where
  spaces c hc hb := by
    rw [h.2 c hc] at hb
    cases hb
  first c hc := h.2 c (List.mem_of_head? hc)
  last c hc := h.2 c (List.mem_of_getLast? hc)
  apart := by
    apply List.Pairwise.isChain
    apply List.pairwise_of_forall_mem_list
    exact fun c hc d _ => .inl (h.2 c hc)

theorem unwords_ne_nil (h : IsWord word) : unwords (word :: others) ≠ [] := by
  cases others with
  | nil =>
    rw [unwords_singleton]
    exact h.1
  | cons next others =>
    rw [unwords_cons_cons]
    exact List.append_ne_nil_of_left_ne_nil h.1 _

theorem Tidy.append {rest : List Char} (hw : IsWord word) (hr : Tidy rest) (hn : rest ≠ []) :
    Tidy (word ++ ' ' :: rest) where
  spaces c hc hb := by
    rcases List.mem_append.mp hc with hc | hc
    · exact hw.tidy.spaces c hc hb
    · exact (List.mem_cons.mp hc).elim id fun hc => hr.spaces c hc hb
  first c hc := by
    rw [List.head?_append_of_ne_nil _ hw.1] at hc
    exact hw.tidy.first c hc
  last c hc := by
    rw [List.getLast?_append_of_ne_nil _ (List.cons_ne_nil _ _), List.getLast?_cons_of_ne_nil hn] at hc
    exact hr.last c hc
  apart := by
    refine List.isChain_append.mpr ⟨hw.tidy.apart, ?_, ?_⟩
    · exact List.isChain_cons.mpr ⟨fun d hd => .inr (hr.first d hd), hr.apart⟩
    · exact fun c hc d _ => .inl (hw.tidy.last c hc)

theorem tidy_unwords (h : ∀ word ∈ others, IsWord word) : Tidy (unwords others) := by
  induction others with
  | nil =>
    exact ⟨List.forall_mem_nil _, nofun, nofun, .nil⟩
  | cons word others ih =>
    obtain ⟨hw, ho⟩ := List.forall_mem_cons.mp h
    cases others with
    | nil =>
      rw [unwords_singleton]
      exact hw.tidy
    | cons next others =>
      rw [unwords_cons_cons]
      exact .append hw (ih ho) (unwords_ne_nil (ho next List.mem_cons_self))

/-- Words that are put together are found again. -/
theorem words_unwords (h : ∀ word ∈ others, IsWord word) : words (unwords others) = others := by
  induction others with
  | nil => rfl
  | cons word others ih =>
    obtain ⟨hw, ho⟩ := List.forall_mem_cons.mp h
    cases others with
    | nil =>
      have hs : words (word ++ []) = word :: words [] := words_append hw nofun
      rw [List.append_nil] at hs
      rw [unwords_singleton, hs]
      rfl
    | cons next others =>
      have hr : ∀ c ∈ (' ' :: unwords (next :: others)).head?, isBlank c = true := by
        rintro c ⟨rfl⟩
        decide
      rw [unwords_cons_cons, words_append hw hr, words_cons_of_isBlank (by decide), ih ho]

end Unwords

end ContractPipeline.Text
