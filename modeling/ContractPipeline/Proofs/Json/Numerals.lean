import Mathlib.Tactic.SplitIfs
import ContractPipeline.Json.Numeral

/-! How numerals are written, and that the reader accepts exactly these texts: one lemma for each
phase of the reader says what may follow, from the end of a numeral to its beginning. -/
namespace ContractPipeline.Json

def AllDigits (text : List Char) : Prop := ∀ c ∈ text, c.isDigit = true

/-- A whole part: a zero that stands alone, or digits that begin with another one. -/
inductive SpellsWhole : List Char → Prop
  | zero : SpellsWhole ['0']
  | digits {c : Char} {rest : List Char} (hc : c.isDigit = true) (h0 : c ≠ '0')
      (hr : AllDigits rest) : SpellsWhole (c :: rest)

/-- What follows the mark of an exponent, with whether it is negative and its digits. -/
inductive SpellsPower : List Char → Bool → List Char → Prop
  | plain {digits : List Char} (hne : digits ≠ []) (hd : AllDigits digits) :
      SpellsPower digits false digits
  | plus {digits : List Char} (hne : digits ≠ []) (hd : AllDigits digits) :
      SpellsPower ('+' :: digits) false digits
  | minus {digits : List Char} (hne : digits ≠ []) (hd : AllDigits digits) :
      SpellsPower ('-' :: digits) true digits

inductive SpellsExponent : List Char → Bool → List Char → Prop
  | absent : SpellsExponent [] false []
  | present {mark : Char} {text digits : List Char} {negative : Bool}
      (hm : mark = 'e' ∨ mark = 'E') (hp : SpellsPower text negative digits) :
      SpellsExponent (mark :: text) negative digits

/-- What follows the whole part: a fraction with its digits or none, and then an exponent. -/
inductive SpellsTail : List Char → List Char → Bool → List Char → Prop
  | whole {text digits : List Char} {negative : Bool} (he : SpellsExponent text negative digits) :
      SpellsTail text [] negative digits
  | fraction {decimals text digits : List Char} {negative : Bool} (hne : decimals ≠ [])
      (hd : AllDigits decimals) (he : SpellsExponent text negative digits) :
      SpellsTail ('.' :: (decimals ++ text)) decimals negative digits

/-- A numeral without its sign. Digits are kept with the latest in front. -/
inductive SpellsUnsigned : List Char → Numeral → Prop
  | mk {whole tail decimals digits : List Char} {negative : Bool} (hw : SpellsWhole whole)
      (ht : SpellsTail tail decimals negative digits) :
      SpellsUnsigned (whole ++ tail)
        ⟨whole.reverse, decimals.reverse, negative, digits.reverse⟩

inductive SpellsNumeral : List Char → Numeral → Prop
  | positive {text : List Char} {numeral : Numeral} (h : SpellsUnsigned text numeral) :
      SpellsNumeral text numeral
  | negative {text : List Char} {numeral : Numeral} (h : SpellsUnsigned text numeral) :
      SpellsNumeral ('-' :: text) numeral

@[simp] theorem allDigits_nil : AllDigits [] := nofun

@[simp] theorem allDigits_cons {c : Char} {rest : List Char} :
    AllDigits (c :: rest) ↔ c.isDigit = true ∧ AllDigits rest := List.forall_mem_cons

theorem spellsExponent_cons_iff {c : Char} {text digits : List Char} {negative : Bool} :
    SpellsExponent (c :: text) negative digits ↔
      (c = 'e' ∨ c = 'E') ∧ SpellsPower text negative digits := by
  constructor
  · rintro (_ | ⟨hm, hp⟩)
    exact ⟨hm, hp⟩
  · rintro ⟨hm, hp⟩
    exact .present hm hp

theorem SpellsExponent.isDigit_eq_false {c : Char} {text digits : List Char} {negative : Bool}
    (h : SpellsExponent (c :: text) negative digits) : c.isDigit = false := by
  rcases (spellsExponent_cons_iff.mp h).1 with rfl | rfl
  · rfl
  · rfl

theorem SpellsTail.isDigit_eq_false {c : Char} {text decimals digits : List Char} {negative : Bool}
    (h : SpellsTail (c :: text) decimals negative digits) : c.isDigit = false := by
  cases h with
  | whole he => exact he.isDigit_eq_false
  | fraction => rfl

theorem SpellsWhole.exists_cons {text : List Char} (h : SpellsWhole text) :
    ∃ c rest, text = c :: rest ∧ c.isDigit = true := by
  cases h with
  | zero => exact ⟨'0', [], rfl, rfl⟩
  | digits hc _ _ => exact ⟨_, _, rfl, hc⟩

theorem SpellsUnsigned.exists_cons {text : List Char} {numeral : Numeral}
    (h : SpellsUnsigned text numeral) :
    ∃ c rest, text = c :: rest ∧ c.isDigit = true := by
  obtain ⟨hw, -⟩ := h
  obtain ⟨c, rest, rfl, hc⟩ := hw.exists_cons
  exact ⟨c, _, rfl, hc⟩

namespace NumeralReader

def Finishes (reader : NumeralReader) (text : List Char) (numeral : Numeral) : Prop :=
  ∃ phase, phase.isComplete = true ∧ text.foldlM feed reader = some ⟨phase, numeral⟩

theorem finishes_nil {phase : NumeralPhase} {read numeral : Numeral} :
    Finishes ⟨phase, read⟩ [] numeral ↔ phase.isComplete = true ∧ numeral = read := by
  simp only [Finishes, List.foldlM_nil, Option.pure_def, Option.some.injEq, mk.injEq]
  constructor
  · rintro ⟨_, hc, rfl, rfl⟩
    exact ⟨hc, rfl⟩
  · rintro ⟨hc, rfl⟩
    exact ⟨phase, hc, rfl, rfl⟩

theorem finishes_cons {reader : NumeralReader} {c : Char} {text : List Char} {numeral : Numeral} :
    Finishes reader (c :: text) numeral ↔
      ∃ next, reader.feed c = some next ∧ Finishes next text numeral := by
  simp only [Finishes, List.foldlM_cons, Option.bind_eq_bind, Option.bind_eq_some_iff]
  constructor
  · rintro ⟨phase, hc, next, hn, hf⟩
    exact ⟨next, hn, phase, hc, hf⟩
  · rintro ⟨next, hn, phase, hc, hf⟩
    exact ⟨phase, hc, next, hn, hf⟩

variable {whole fraction exponent text : List Char} {negative : Bool} {numeral : Numeral}

theorem finishes_exponent :
    Finishes ⟨.exponent, whole, fraction, negative, exponent⟩ text numeral ↔
      AllDigits text ∧ numeral = ⟨whole, fraction, negative, text.reverse ++ exponent⟩ := by
  induction text generalizing exponent with
  | nil => simp [finishes_nil, NumeralPhase.isComplete]
  | cons c text ih =>
    rw [finishes_cons]
    cases hc : c.isDigit with
    | false => simp [feed, hc]
    | true => simp [feed, hc, ih]

theorem finishes_exponentSign :
    Finishes ⟨.exponentSign, whole, fraction, negative, []⟩ text numeral ↔
      text ≠ [] ∧ AllDigits text ∧ numeral = ⟨whole, fraction, negative, text.reverse⟩ := by
  cases text with
  | nil => simp [finishes_nil, NumeralPhase.isComplete]
  | cons c text =>
    rw [finishes_cons]
    cases hc : c.isDigit with
    | false => simp [feed, hc]
    | true => simp [feed, hc, finishes_exponent]

theorem finishes_mark :
    Finishes ⟨.mark, whole, fraction, false, []⟩ text numeral ↔
      ∃ negative digits, SpellsPower text negative digits ∧
        numeral = ⟨whole, fraction, negative, digits.reverse⟩ := by
  constructor
  · intro h
    cases text with
    | nil => simp [finishes_nil, NumeralPhase.isComplete] at h
    | cons c text =>
      obtain ⟨next, hn, hf⟩ := finishes_cons.mp h
      simp only [feed] at hn
      split_ifs at hn with hd hp hm
      · cases hn
        obtain ⟨ht, rfl⟩ := finishes_exponent.mp hf
        exact ⟨false, c :: text, .plain (List.cons_ne_nil c text) (allDigits_cons.mpr ⟨hd, ht⟩),
          by simp⟩
      · cases hn
        obtain ⟨hne, ht, rfl⟩ := finishes_exponentSign.mp hf
        exact ⟨false, text, hp ▸ .plus hne ht, rfl⟩
      · cases hn
        obtain ⟨hne, ht, rfl⟩ := finishes_exponentSign.mp hf
        exact ⟨true, text, hm ▸ .minus hne ht, rfl⟩
  · rintro ⟨negative, digits, hp, rfl⟩
    cases hp with
    | plain hne hd =>
      cases text with
      | nil => exact absurd rfl hne
      | cons c text =>
        obtain ⟨hc, ht⟩ := allDigits_cons.mp hd
        refine finishes_cons.mpr ⟨_, if_pos hc, finishes_exponent.mpr ⟨ht, ?_⟩⟩
        simp
    | plus hne hd =>
      exact finishes_cons.mpr ⟨_, rfl, finishes_exponentSign.mpr ⟨hne, hd, rfl⟩⟩
    | minus hne hd =>
      exact finishes_cons.mpr ⟨_, rfl, finishes_exponentSign.mpr ⟨hne, hd, rfl⟩⟩

/-- Where only an exponent can follow, the mark of one does. -/
theorem finishes_cons_of_mark {reader : NumeralReader} {c : Char}
    (hf : reader.feed c = if c = 'e' ∨ c = 'E' then some ⟨.mark, whole, fraction, false, []⟩
      else none) :
    Finishes reader (c :: text) numeral ↔
      ∃ negative digits, SpellsExponent (c :: text) negative digits ∧
        numeral = ⟨whole, fraction, negative, digits.reverse⟩ := by
  rw [finishes_cons, hf]
  by_cases hm : c = 'e' ∨ c = 'E'
  · simp only [hm, if_true, Option.some.injEq, exists_eq_left', spellsExponent_cons_iff, true_and,
      finishes_mark]
  · simp only [hm, if_false, spellsExponent_cons_iff, false_and, exists_false, reduceCtorEq]

/-- A phase that takes every digit: what is left when the digits end decides. -/
theorem finishes_digits {reader : List Char → NumeralReader}
    {Rest : List Char → List Char → Prop}
    (hfeed : ∀ read c, c.isDigit = true → (reader read).feed c = some (reader (c :: read)))
    (hnil : ∀ read, Finishes (reader read) [] numeral ↔ Rest read [])
    (hcons : ∀ read c text, c.isDigit = false →
      (Finishes (reader read) (c :: text) numeral ↔ Rest read (c :: text)))
    (hrest : ∀ read c text, Rest read (c :: text) → c.isDigit = false) (read : List Char) :
    Finishes (reader read) text numeral ↔
      ∃ digits rest, text = digits ++ rest ∧ AllDigits digits ∧
        Rest (digits.reverse ++ read) rest := by
  -- On the text, whatever was read before: a digit goes from the text to what is read.
  induction text generalizing read with
  | nil =>
    rw [hnil]
    constructor
    · intro h
      exact ⟨[], [], rfl, allDigits_nil, h⟩
    · rintro ⟨digits, rest, ht, -, h⟩
      obtain ⟨rfl, rfl⟩ := List.append_eq_nil_iff.mp ht.symm
      exact h
  | cons c text ih =>
    cases hc : c.isDigit with
    | true =>
      rw [finishes_cons, hfeed read c hc]
      simp only [Option.some.injEq, exists_eq_left', ih]
      constructor
      · rintro ⟨digits, rest, rfl, hd, h⟩
        exact ⟨c :: digits, rest, rfl, allDigits_cons.mpr ⟨hc, hd⟩, by simpa using h⟩
      · rintro ⟨digits, rest, ht, hd, h⟩
        cases digits with
        | nil =>
          cases ht
          rw [hrest _ c text h] at hc
          cases hc
        | cons d digits =>
          cases ht
          exact ⟨digits, rest, rfl, (allDigits_cons.mp hd).2, by simpa using h⟩
    | false =>
      rw [hcons read c text hc]
      constructor
      · intro h
        exact ⟨[], c :: text, rfl, allDigits_nil, h⟩
      · rintro ⟨digits, rest, ht, hd, h⟩
        cases digits with
        | nil =>
          cases ht
          exact h
        | cons d digits =>
          cases ht
          rw [(allDigits_cons.mp hd).1] at hc
          cases hc

theorem finishes_fraction :
    Finishes ⟨.fraction, whole, fraction, false, []⟩ text numeral ↔
      ∃ decimals rest, text = decimals ++ rest ∧ AllDigits decimals ∧
        ∃ negative digits, SpellsExponent rest negative digits ∧
          numeral = ⟨whole, decimals.reverse ++ fraction, negative, digits.reverse⟩ := by
  have h := @finishes_digits text numeral (fun read => ⟨.fraction, whole, read, false, []⟩)
    (fun read rest => ∃ negative digits, SpellsExponent rest negative digits ∧
      numeral = ⟨whole, read, negative, digits.reverse⟩)
  apply h
  · intro read c hc
    exact if_pos hc
  · intro read
    rw [finishes_nil]
    constructor
    · rintro ⟨-, rfl⟩
      exact ⟨false, [], .absent, rfl⟩
    · rintro ⟨negative, digits, he, rfl⟩
      cases he
      exact ⟨rfl, rfl⟩
  · intro read c text hc
    apply finishes_cons_of_mark
    simp [feed, hc]
  · intro read c text h
    obtain ⟨negative, digits, he, -⟩ := h
    exact he.isDigit_eq_false

theorem finishes_point :
    Finishes ⟨.point, whole, [], false, []⟩ text numeral ↔
      ∃ decimals rest negative digits, text = decimals ++ rest ∧ decimals ≠ [] ∧
        AllDigits decimals ∧ SpellsExponent rest negative digits ∧
        numeral = ⟨whole, decimals.reverse, negative, digits.reverse⟩ := by
  constructor
  · intro h
    cases text with
    | nil => simp [finishes_nil, NumeralPhase.isComplete] at h
    | cons c text =>
      obtain ⟨next, hn, hf⟩ := finishes_cons.mp h
      simp only [feed] at hn
      split_ifs at hn with hc
      cases hn
      obtain ⟨decimals, rest, rfl, hd, negative, digits, he, rfl⟩ := finishes_fraction.mp hf
      exact ⟨c :: decimals, rest, negative, digits, rfl, List.cons_ne_nil _ _,
        allDigits_cons.mpr ⟨hc, hd⟩, he, by simp⟩
  · rintro ⟨decimals, rest, negative, digits, rfl, hne, hd, he, rfl⟩
    cases decimals with
    | nil => exact absurd rfl hne
    | cons c decimals =>
      obtain ⟨hc, hd⟩ := allDigits_cons.mp hd
      refine finishes_cons.mpr ⟨_, if_pos hc, finishes_fraction.mpr ?_⟩
      exact ⟨decimals, rest, rfl, hd, negative, digits, he, by simp⟩

theorem spellsTail_cons_iff {c : Char} {decimals digits : List Char} (hc : c ≠ '.') :
    SpellsTail (c :: text) decimals negative digits ↔
      decimals = [] ∧ SpellsExponent (c :: text) negative digits := by
  constructor
  · rintro (he | ⟨-, -, -⟩)
    · exact ⟨rfl, he⟩
    · exact absurd rfl hc
  · rintro ⟨rfl, he⟩
    exact .whole he

/-- Once the whole part is complete, a point or the mark of an exponent may follow. -/
theorem finishes_cons_of_tail {reader : NumeralReader} {c : Char}
    (hf : reader.feed c = if c = '.' then some ⟨.point, whole, [], false, []⟩
      else if c = 'e' ∨ c = 'E' then some ⟨.mark, whole, [], false, []⟩ else none) :
    Finishes reader (c :: text) numeral ↔
      ∃ decimals negative digits, SpellsTail (c :: text) decimals negative digits ∧
        numeral = ⟨whole, decimals.reverse, negative, digits.reverse⟩ := by
  by_cases hp : c = '.'
  · subst hp
    rw [finishes_cons, hf]
    simp only [if_true, Option.some.injEq, exists_eq_left', finishes_point]
    constructor
    · rintro ⟨decimals, rest, negative, digits, rfl, hne, hd, he, rfl⟩
      exact ⟨decimals, negative, digits, .fraction hne hd he, rfl⟩
    · rintro ⟨decimals, negative, digits, ht, rfl⟩
      cases ht with
      | whole he =>
        rcases (spellsExponent_cons_iff.mp he).1 with hm | hm
        · cases hm
        · cases hm
      | fraction hne hd he => exact ⟨decimals, _, negative, digits, rfl, hne, hd, he, rfl⟩
  · rw [if_neg hp] at hf
    rw [finishes_cons_of_mark hf]
    simp only [spellsTail_cons_iff hp]
    constructor
    · rintro ⟨negative, digits, he, rfl⟩
      exact ⟨[], negative, digits, ⟨rfl, he⟩, rfl⟩
    · rintro ⟨decimals, negative, digits, ⟨rfl, he⟩, rfl⟩
      exact ⟨negative, digits, he, rfl⟩

theorem finishes_zero :
    Finishes ⟨.zero, whole, [], false, []⟩ text numeral ↔
      ∃ decimals negative digits, SpellsTail text decimals negative digits ∧
        numeral = ⟨whole, decimals.reverse, negative, digits.reverse⟩ := by
  cases text with
  | nil =>
    rw [finishes_nil]
    constructor
    · rintro ⟨-, rfl⟩
      exact ⟨[], false, [], .whole .absent, rfl⟩
    · rintro ⟨decimals, negative, digits, ⟨⟨⟩⟩, rfl⟩
      exact ⟨rfl, rfl⟩
  | cons c text => exact finishes_cons_of_tail (by simp [feed])

theorem finishes_whole :
    Finishes ⟨.whole, whole, [], false, []⟩ text numeral ↔
      ∃ more tail, text = more ++ tail ∧ AllDigits more ∧
        ∃ decimals negative digits, SpellsTail tail decimals negative digits ∧
          numeral = ⟨more.reverse ++ whole, decimals.reverse, negative, digits.reverse⟩ := by
  have h := @finishes_digits text numeral (fun read => ⟨.whole, read, [], false, []⟩)
    (fun read rest => ∃ decimals negative digits, SpellsTail rest decimals negative digits ∧
      numeral = ⟨read, decimals.reverse, negative, digits.reverse⟩)
  apply h
  · intro read c hc
    exact if_pos hc
  · intro read
    rw [finishes_nil]
    constructor
    · rintro ⟨-, rfl⟩
      exact ⟨[], false, [], .whole .absent, rfl⟩
    · rintro ⟨decimals, negative, digits, hs, rfl⟩
      obtain ⟨⟨⟩⟩ := hs
      exact ⟨rfl, rfl⟩
  · intro read c text hc
    apply finishes_cons_of_tail
    simp [feed, hc]
  · intro read c text h
    obtain ⟨decimals, negative, digits, hs, -⟩ := h
    exact hs.isDigit_eq_false

theorem spellsUnsigned_zero_cons_iff :
    SpellsUnsigned ('0' :: text) numeral ↔
      ∃ decimals negative digits, SpellsTail text decimals negative digits ∧
        numeral = ⟨['0'], decimals.reverse, negative, digits.reverse⟩ := by
  constructor
  · generalize ht : '0' :: text = all
    rintro ⟨hw, hs⟩
    cases hw with
    | zero =>
      cases ht
      exact ⟨_, _, _, hs, rfl⟩
    | digits _ h0 _ =>
      cases ht
      exact absurd rfl h0
  · rintro ⟨decimals, negative, digits, hs, rfl⟩
    exact .mk .zero hs

theorem spellsUnsigned_cons_iff {c : Char} (h0 : c ≠ '0') :
    SpellsUnsigned (c :: text) numeral ↔
      c.isDigit = true ∧ ∃ more tail, text = more ++ tail ∧ AllDigits more ∧
        ∃ decimals negative digits, SpellsTail tail decimals negative digits ∧
          numeral = ⟨more.reverse ++ [c], decimals.reverse, negative, digits.reverse⟩ := by
  constructor
  · generalize ht : c :: text = all
    rintro ⟨hw, hs⟩
    cases hw with
    | zero =>
      cases ht
      exact absurd rfl h0
    | digits hc _ hr =>
      cases ht
      exact ⟨hc, _, _, rfl, hr, _, _, _, hs, by simp⟩
  · rintro ⟨hc, more, tail, rfl, hm, decimals, negative, digits, hs, rfl⟩
    have hw : SpellsWhole (c :: more) := .digits hc h0 hm
    simpa using SpellsUnsigned.mk hw hs

/-- After its first digit, the reader accepts exactly the rest of an unsigned numeral. -/
theorem finishes_ofDigit {c : Char} (hc : c.isDigit = true) :
    Finishes (ofDigit c) text numeral ↔ SpellsUnsigned (c :: text) numeral := by
  by_cases h0 : c = '0'
  · subst h0
    have hz : ofDigit '0' = ⟨.zero, ['0'], [], false, []⟩ := rfl
    rw [hz, finishes_zero, spellsUnsigned_zero_cons_iff]
  · have hw : ofDigit c = ⟨.whole, [c], [], false, []⟩ := by rw [ofDigit, if_neg h0]
    rw [hw, finishes_whole, spellsUnsigned_cons_iff h0]
    simp only [hc, true_and]

theorem finishes_negative :
    Finishes .negative text numeral ↔ SpellsUnsigned text numeral := by
  cases text with
  | nil =>
    constructor
    · intro h
      cases (finishes_nil.mp h).1
    · intro h
      obtain ⟨_, _, ht, -⟩ := h.exists_cons
      cases ht
  | cons c text =>
    rw [finishes_cons]
    constructor
    · rintro ⟨next, hn, hf⟩
      simp only [feed, NumeralReader.negative] at hn
      split_ifs at hn with hc
      cases hn
      exact (finishes_ofDigit hc).mp hf
    · intro h
      obtain ⟨_, _, ht, hc⟩ := h.exists_cons
      cases ht
      exact ⟨_, if_pos hc, (finishes_ofDigit hc).mpr h⟩

section Lookahead

variable {reader : NumeralReader} {c : Char}

theorem feed_eq_none (hr : reader.phase.isComplete = true) (hc : c.isDigit = false)
    (hp : c ≠ '.') (he : c ≠ 'e') (hE : c ≠ 'E') : reader.feed c = none := by
  obtain ⟨phase, read⟩ := reader
  cases phase with
  | sign | point | mark | exponentSign => cases hr
  | zero | whole | fraction | exponent => simp [feed, hc, hp, he, hE]

theorem endsBefore_of_isComplete (hr : reader.phase.isComplete = true) (hc : c.isDigit = false) :
    reader.endsBefore c = true := by
  simp [endsBefore, hr, hc]

/-- A numeral ends before what is no digit: a zero by its rule, the other parts because they take
every digit. -/
theorem isDigit_eq_false (hf : reader.feed c = none) (he : reader.endsBefore c = true) :
    c.isDigit = false := by
  obtain ⟨phase, read⟩ := reader
  cases hc : c.isDigit with
  | false => rfl
  | true =>
    cases phase with
    | sign | point | mark | exponentSign => cases he
    | zero => simp [endsBefore, hc] at he
    | whole | fraction | exponent => simp [feed, hc] at hf

end Lookahead

end NumeralReader
end ContractPipeline.Json
