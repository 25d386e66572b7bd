import ContractPipeline.Proofs.Json.Tokens

/-! Texts that are cut short: what the scanner makes of the part before the cut, and which token the
part after it goes on with. -/
namespace ContractPipeline.Json

/-- The tokens that a text may go on with where it ends in part of one. A number may be complete and
yet go on, and a string that is broken stays so. -/
inductive Ending.GrowsTo : Ending → Token → Prop
  | number (isFinite isFinite' : Bool) : GrowsTo (.number isFinite) (.number isFinite')
  | partNumber (isFinite : Bool) : GrowsTo .partNumber (.number isFinite)
  | null : GrowsTo .partWord .null
  | bool (b : Bool) : GrowsTo .partWord (.bool b)
  | text (text? : Option String) : GrowsTo (.partText false) (.text text?)
  | broken : GrowsTo (.partText true) (.text none)

/-- A text without tokens is blank. -/
theorem Spaced.isBlank_of_nil {text : List Char} (h : Spaced text []) :
    ∀ c ∈ text, Scanner.isBlank c = true := by
  generalize ht : ([] : List Token) = tokens at h
  induction h with
  | nil => simp
  | blank hc _ ih =>
    refine List.forall_mem_cons.mpr ⟨?_, ih ht⟩
    simpa [Scanner.isBlank, or_assoc] using hc
  | token => cases ht

namespace Scanner

variable {scanner next last : Scanner} {c : Char} {text rest : List Char} {tokens : List Token}
  {literal : Literal}

/-- A scanner takes a text, which completes some tokens, and stands elsewhere then. -/
inductive Takes : Scanner → List Char → List Token → Scanner → Prop
  | nil (scanner : Scanner) : Takes scanner [] [] scanner
  | cons {scanner next last : Scanner} {c : Char} {text : List Char} {tokens : List Token}
      (hf : (scanner.feed c).scanner? = some next) (h : Takes next text tokens last) :
      Takes scanner (c :: text) ((scanner.feed c).tokens ++ tokens) last

/-- The tokens of a text are those before a cut and those after it. -/
theorem Takes.tokens?_append (h : Takes scanner text tokens next) (rest : List Char) :
    tokens? scanner (text ++ rest) = (tokens? next rest).map (tokens ++ ·) := by
  induction h with
  | nil scanner => simp
  | cons hf _ ih =>
    rw [List.cons_append, tokens?, hf, Option.bind_some, ih, Option.map_map]
    simp [Function.comp_def]

/-- A scanner in a word is in one that there is. -/
def KnowsWord : Scanner → Prop
  | .word token _ => token = .null ∨ ∃ b, token = .bool b
  | .between | .numeral _ | .text _ | .escape _ | .unit _ _ => True

theorem knowsWord_feedBetween (h : (feedBetween c).scanner? = some next) : next.KnowsWord := by
  unfold feedBetween at h
  split at h
  case h_7 =>
    cases h
    exact .inl rfl
  case h_8 =>
    cases h
    exact .inr ⟨true, rfl⟩
  case h_9 =>
    cases h
    exact .inr ⟨false, rfl⟩
  case h_12 =>
    split_ifs at h
    · cases h
      trivial
    · cases h
      trivial
    · cases h
  all_goals
    cases h
    trivial

/-- No step leads from the words that there are. -/
theorem KnowsWord.feed (hs : scanner.KnowsWord) (h : (scanner.feed c).scanner? = some next) :
    next.KnowsWord := by
  -- Words begin between tokens, or right behind a number.
  cases scanner with
  | between => exact knowsWord_feedBetween h
  | word token due =>
    change (feedWord token c due).scanner? = some next at h
    unfold feedWord at h
    split at h
    · cases h
    · split_ifs at h
      · cases h
        trivial
      · cases h
    · split_ifs at h
      · cases h
        exact hs
      · cases h
  | numeral reader =>
    change (feedNumeral reader c).scanner? = some next at h
    unfold feedNumeral at h
    split at h
    · cases h
      trivial
    · split_ifs at h
      · exact knowsWord_feedBetween h
      · cases h
  | text literal =>
    change (feedText literal c).scanner? = some next at h
    unfold feedText at h
    split_ifs at h <;> cases h <;> trivial
  | escape literal =>
    change (feedEscape literal c).scanner? = some next at h
    unfold feedEscape at h
    split at h <;> cases h <;> trivial
  | unit literal digits =>
    change (feedUnit literal digits c).scanner? = some next at h
    unfold feedUnit at h
    dsimp only at h
    split_ifs at h
    · cases h
      trivial
    · split at h <;> cases h
      trivial

theorem Takes.knowsWord (h : Takes scanner text tokens next) (hs : scanner.KnowsWord) :
    next.KnowsWord := by
  induction h with
  | nil scanner => exact hs
  | cons hf _ ih => exact ih (hs.feed hf)

theorem eq_between_of_ending (h : scanner.ending = .clean) : scanner = .between := by
  cases scanner with
  | between => rfl
  | numeral reader =>
    simp only [ending] at h
    split at h
    · cases h
    · cases h
  | word | text | escape | unit => cases h

theorem growsTo_text (literal : Literal) (pieces : List Piece) :
    (Ending.partText literal.broken).GrowsTo (.text (pieces.foldl Literal.add literal).text?) := by
  cases hb : literal.broken with
  | true =>
    rw [Literal.text?_foldl_of_broken hb]
    exact .broken
  | false => exact .text _

/-- What follows a cut within a token goes on with that token. -/
theorem exists_growsTo (hs : scanner.KnowsWord) (he : scanner.ending ≠ .clean)
    (h : tokens? scanner rest = some tokens) :
    ∃ token more, tokens = token :: more ∧ scanner.ending.GrowsTo token := by
  have hl := leads_of_tokens? h
  cases scanner with
  | between => exact absurd rfl he
  | word token due =>
    obtain ⟨_, more, -, rfl, -⟩ := hl
    rcases hs with rfl | ⟨b, rfl⟩
    · exact ⟨_, more, rfl, .null⟩
    · exact ⟨_, more, rfl, .bool b⟩
  | numeral reader =>
    obtain ⟨_, _, numeral, more, -, -, -, rfl, -⟩ := hl
    refine ⟨_, more, rfl, ?_⟩
    simp only [ending]
    split
    · exact .number _ _
    · exact .partNumber _
  | text literal =>
    obtain ⟨_, pieces, _, more, -, -, rfl, -⟩ := hl
    exact ⟨_, more, rfl, growsTo_text literal pieces⟩
  | escape literal =>
    obtain ⟨_, piece, _, -, -, _, pieces, _, more, -, -, rfl, -⟩ := hl
    exact ⟨_, more, rfl, growsTo_text literal (piece :: pieces)⟩
  | unit literal digits =>
    obtain ⟨_, n, _, -, -, _, pieces, _, more, -, -, rfl, -⟩ := hl
    exact ⟨_, more, rfl, growsTo_text literal (.unit n :: pieces)⟩

end Scanner
end ContractPipeline.Json
