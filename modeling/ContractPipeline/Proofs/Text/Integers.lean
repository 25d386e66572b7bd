import ContractPipeline.Proofs.Text.Words
import ContractPipeline.Text.Integer

/-! How integers are written, with white space around them, and that exactly these texts are read.
A number is read back from its decimal text. -/
namespace ContractPipeline.Text

def IsDigits (text : List Char) : Prop :=
  text ≠ [] ∧ ∀ c ∈ text, c.isDigit = true

/-- An integer of any size as it is written. Only a signed type has a minus sign. -/
inductive SpellsInteger (signed : Bool) : List Char → Int → Prop
  | plain {digits : List Char} (h : IsDigits digits) :
      SpellsInteger signed digits (digitsValue digits)
  | plus {digits : List Char} (h : IsDigits digits) :
      SpellsInteger signed ('+' :: digits) (digitsValue digits)
  | minus {digits : List Char} (hs : signed = true) (h : IsDigits digits) :
      SpellsInteger signed ('-' :: digits) (-(digitsValue digits : Int))

/-- An integer in the range of a type, with white space around it. -/
structure IntegerKind.Padded (kind : IntegerKind) (text : List Char) (n : Int) : Prop where
  written : ∃ before core after, text = before ++ core ++ after ∧
    (∀ c ∈ before, isBlank c = true) ∧ (∀ c ∈ after, isBlank c = true) ∧
    SpellsInteger kind.signed core n
  atLeast : kind.least ≤ n
  atMost : n ≤ kind.greatest

section Digits

variable {text digits : List Char} {n : Nat}

theorem readDigits?_eq_some_iff :
    readDigits? text = some n ↔ IsDigits text ∧ digitsValue text = n := by
  unfold readDigits? IsDigits
  split_ifs with h
  · have hn : ¬(text ≠ [] ∧ ∀ c ∈ text, c.isDigit = true) := by
      intro hd
      simp [hd.1, List.all_eq_true.mpr hd.2] at h
    simp [hn]
  · have hd : text ≠ [] ∧ ∀ c ∈ text, c.isDigit = true := by simpa using h
    rw [Option.some.injEq]
    exact (and_iff_right hd).symm

theorem isDigits_toDigits (n : Nat) : IsDigits (Nat.toDigits 10 n) := by
  constructor
  · exact Nat.toDigits_ne_nil
  · intro c hc
    exact Nat.isDigit_of_mem_toDigits (by decide) (by decide) hc

theorem digitsValue_toDigits (n : Nat) : digitsValue (Nat.toDigits 10 n) = n :=
  Nat.ofDigitChars_toDigits (by decide) (by decide)

/-- The first digit of a positive number is no zero. -/
theorem exists_toDigits {n : Nat} (hn : 0 < n) :
    ∃ c rest, Nat.toDigits 10 n = c :: rest ∧ c ≠ '0' := by
  induction n using Nat.strongRecOn with
  | ind n ih =>
    by_cases hl : n < 10
    · refine ⟨n.digitChar, [], Nat.toDigits_of_lt_base hl, ?_⟩
      have hd : ∀ m < 10, 0 < m → m.digitChar ≠ '0' := by decide
      exact hd n hl hn
    · obtain ⟨c, rest, hc, h0⟩ := ih (n / 10) (by omega) (by omega)
      refine ⟨c, rest ++ [(n % 10).digitChar], ?_, h0⟩
      rw [Nat.toDigits_of_base_le (by decide) (Nat.le_of_not_lt hl), hc, List.cons_append]

theorem digitChar_toNat_sub {c : Char} (hc : c.isDigit = true) : (c.toNat - 48).digitChar = c := by
  have hd := Char.isDigit_iff_toNat.mp hc
  have hl : 48 ≤ c.toNat := hd.1
  have hg : c.toNat ≤ 57 := hd.2
  apply Char.toNat_inj.mp
  rw [Nat.toNat_digitChar_of_lt_ten (by omega)]
  omega

/-- Digits behind those of a positive number. -/
theorem toDigits_append_digits {n : Nat} (hn : 0 < n) (h : ∀ c ∈ digits, c.isDigit = true) :
    Nat.toDigits 10 n ++ digits =
      Nat.toDigits 10 (digits.foldl (fun value digit => 10 * value + (digit.toNat - 48)) n) := by
  induction digits generalizing n with
  | nil => rw [List.append_nil, List.foldl_nil]
  | cons c digits ih =>
    obtain ⟨hc, hd⟩ := List.forall_mem_cons.mp h
    have hg : c.toNat ≤ 57 := (Char.isDigit_iff_toNat.mp hc).2
    have hlt : c.toNat - 48 < 10 := by omega
    have hone := Nat.toDigits_append_toDigits (by decide : 1 < 10) hn hlt
    rw [Nat.toDigits_of_lt_base hlt, digitChar_toNat_sub hc] at hone
    rw [List.foldl_cons, ← ih (by omega) hd, ← hone, List.append_assoc, List.singleton_append]

/-- Digits that begin with no zero are those of a positive number. -/
theorem toDigits_digitsValue {c : Char} (h : ∀ d ∈ c :: digits, d.isDigit = true) (h0 : c ≠ '0') :
    0 < digitsValue (c :: digits) ∧
      Nat.toDigits 10 (digitsValue (c :: digits)) = c :: digits := by
  obtain ⟨hc, hd⟩ := List.forall_mem_cons.mp h
  have hb := Char.isDigit_iff_toNat.mp hc
  have hl : 48 ≤ c.toNat := hb.1
  have hg : c.toNat ≤ 57 := hb.2
  have hne : c.toNat ≠ 48 := by
    intro he
    exact h0 (Char.toNat_inj.mp he)
  have hpos : 0 < c.toNat - 48 := by omega
  have hv : digitsValue (c :: digits) =
      digits.foldl (fun value digit => 10 * value + (digit.toNat - 48)) (c.toNat - 48) := by
    simp [digitsValue]
  have ht := toDigits_append_digits hpos hd
  rw [← hv, Nat.toDigits_of_lt_base (by omega), digitChar_toNat_sub hc] at ht
  refine ⟨?_, ht.symm⟩
  apply Nat.pos_of_ne_zero
  intro hz
  rw [hz] at ht
  obtain ⟨rfl, -⟩ := List.cons.inj ht
  exact h0 rfl

theorem IsDigits.isBlank_eq_false (h : IsDigits text) {c : Char} (hc : c ∈ text) :
    isBlank c = false := by
  have hd := Char.isDigit_iff_toNat.mp (h.2 c hc)
  exact isBlank_eq_false_of_visible (le_trans (by decide) hd.1) (le_trans hd.2 (by decide))

end Digits

section Signed

variable {signed : Bool} {text : List Char} {n : Int}

theorem readSigned?_minus (signed : Bool) (digits : List Char) :
    readSigned? signed ('-' :: digits) =
      if signed then (readDigits? digits).map fun m : Nat => -(m : Int) else none := by
  cases hd : readDigits? digits <;> simp [readSigned?, hd]

/-- A sign is no digit, so that it is told from what follows it. -/
theorem readSigned?_eq_some_iff : readSigned? signed text = some n ↔ SpellsInteger signed text n := by
  have hsign {c : Char} {digits : List Char} (hc : c.isDigit = false) : ¬IsDigits (c :: digits) := by
    intro h
    have hd := h.2 c List.mem_cons_self
    rw [hc] at hd
    cases hd
  constructor
  · intro h
    -- The minus sign first: what becomes of it depends on the type.
    by_cases hm : text.head? = some '-'
    · obtain ⟨digits, rfl⟩ := List.head?_eq_some_iff.mp hm
      rw [readSigned?_minus] at h
      split_ifs at h with hs
      obtain ⟨m, hr, rfl⟩ := Option.map_eq_some_iff.mp h
      obtain ⟨hd, rfl⟩ := readDigits?_eq_some_iff.mp hr
      exact .minus hs hd
    unfold readSigned? at h
    split at h
    case h_1 digits =>
      obtain ⟨m, hr, rfl⟩ := Option.map_eq_some_iff.mp h
      obtain ⟨hd, rfl⟩ := readDigits?_eq_some_iff.mp hr
      exact .plus hd
    case h_2 => exact absurd rfl hm
    case h_3 =>
      obtain ⟨m, hr, rfl⟩ := Option.map_eq_some_iff.mp h
      obtain ⟨hd, rfl⟩ := readDigits?_eq_some_iff.mp hr
      exact .plain hd
  · intro h
    cases h with
    | plain hd =>
      have hr := readDigits?_eq_some_iff.mpr ⟨hd, rfl⟩
      unfold readSigned?
      split
      case h_1 => exact absurd hd (hsign rfl)
      case h_2 => exact absurd hd (hsign rfl)
      case h_3 => simp [hr]
    | plus hd =>
      have hr := readDigits?_eq_some_iff.mpr ⟨hd, rfl⟩
      simp [readSigned?, hr]
    | minus hs hd =>
      have hr := readDigits?_eq_some_iff.mpr ⟨hd, rfl⟩
      rw [readSigned?_minus, if_pos hs, hr, Option.map_some]

theorem SpellsInteger.ne_nil (h : SpellsInteger signed text n) : text ≠ [] := by
  cases h with
  | plain h => exact h.1
  | plus | minus => exact List.cons_ne_nil _ _

theorem SpellsInteger.isBlank_eq_false (h : SpellsInteger signed text n) {c : Char} (hc : c ∈ text) :
    isBlank c = false := by
  cases h with
  | plain h => exact h.isBlank_eq_false hc
  | plus h | minus _ h =>
    rcases List.mem_cons.mp hc with rfl | hc
    · decide
    · exact h.isBlank_eq_false hc

end Signed

/-- The integers that are read are those that are written, within the range of the type. -/
theorem readInteger?_trim_eq_some_iff {kind : IntegerKind} {text : List Char} {n : Int} :
    readInteger? kind (trim text) = some n ↔ kind.Padded text n := by
  have hread : readInteger? kind (trim text) = some n ↔
      SpellsInteger kind.signed (trim text) n ∧ kind.least ≤ n ∧ n ≤ kind.greatest := by
    rw [readInteger?, Option.filter_eq_some_iff, readSigned?_eq_some_iff]
    simp
  rw [hread]
  constructor
  · rintro ⟨hs, hl, hg⟩
    obtain ⟨before, after, ht, hb, ha⟩ := exists_trim text
    exact ⟨⟨before, trim text, after, ht, hb, ha, hs⟩, hl, hg⟩
  · rintro ⟨⟨before, core, after, rfl, hb, ha, hs⟩, hl, hg⟩
    rw [trim_append hb ha hs.ne_nil fun c hc => hs.isBlank_eq_false hc]
    exact ⟨hs, hl, hg⟩

theorem readInteger?_toString {kind : IntegerKind} {n : Nat} (hl : kind.least ≤ n)
    (hg : (n : Int) ≤ kind.greatest) : readInteger? kind (toString n).toList = some (n : Int) := by
  have hs : SpellsInteger kind.signed (Nat.toDigits 10 n) n := by
    have hd := @SpellsInteger.plain kind.signed _ (isDigits_toDigits n)
    rwa [digitsValue_toDigits] at hd
  rw [Nat.toString_eq_repr, Nat.toList_repr, readInteger?, Option.filter_eq_some_iff,
    readSigned?_eq_some_iff]
  simp [hs, hl, hg]

end ContractPipeline.Text
