import Mathlib.Data.Nat.Digits.Defs
import ContractPipeline.Proofs.Variables

/-! Variables that hold integers: which texts count as integers of a type, and what a variable is read
as. Every value of a type is read back from its decimal text, whatever white space stands around it. -/
namespace ContractPipeline

namespace Text

def IntegerKind.width : IntegerKind → Nat
  | .u8 => 8
  | .u16 => 16
  | .u32 | .i32 => 32
  | .u64 | .i64 => 64

/-- The values of a type. A signed type has one bit for the sign. -/
def IntegerKind.Contains (kind : IntegerKind) (n : Int) : Prop :=
  if kind.signed then -2 ^ (kind.width - 1) ≤ n ∧ n < 2 ^ (kind.width - 1)
  else 0 ≤ n ∧ n < 2 ^ kind.width

/-- The number that decimal digits denote, the least significant one standing last. -/
def decimal (digits : List Char) : Nat :=
  Nat.ofDigits 10 (digits.reverse.map fun c => c.toNat - '0'.toNat)

/-- What may stand before the digits of an integer, and the factor it stands for. -/
inductive Sign (signed : Bool) : List Char → Int → Prop
  | none : Sign signed [] 1
  | plus : Sign signed ['+'] 1
  | minus (h : signed = true) : Sign signed ['-'] (-1)

/-- An integer as it may be written: white space, a sign, ASCII digits, and white space. -/
inductive WritesInteger (signed : Bool) : List Char → Int → Prop
  | mk {before sign digits after : List Char} {factor : Int}
      (hb : ∀ c ∈ before, isBlank c = true) (hs : Sign signed sign factor) (hne : digits ≠ [])
      (hd : ∀ c ∈ digits, '0' ≤ c ∧ c ≤ '9') (ha : ∀ c ∈ after, isBlank c = true) :
      WritesInteger signed (before ++ (sign ++ digits) ++ after) (factor * decimal digits)

variable {kind : IntegerKind} {signed : Bool} {text before after digits : List Char} {n : Int}

theorem IntegerKind.contains_iff : kind.Contains n ↔ kind.least ≤ n ∧ n ≤ kind.greatest := by
  cases kind <;> simp [Contains, signed, width, least, greatest] <;> omega

instance : Decidable (kind.Contains n) :=
  decidable_of_iff _ IntegerKind.contains_iff.symm

theorem decimal_eq_digitsValue (digits : List Char) : decimal digits = digitsValue digits := by
  rw [decimal, digitsValue, Nat.ofDigits_eq_foldr, List.foldl_eq_foldr_reverse, List.foldr_map]
  congr 1
  funext c value
  exact Nat.add_comm _ _

theorem isDigits_iff : IsDigits digits ↔ digits ≠ [] ∧ ∀ c ∈ digits, '0' ≤ c ∧ c ≤ '9' := by
  have hc (c : Char) : c.isDigit = true ↔ '0' ≤ c ∧ c ≤ '9' := by
    simp [Char.isDigit, Char.le_def]
  simp only [IsDigits, hc]

theorem spellsInteger_iff :
    SpellsInteger signed text n ↔ ∃ sign digits factor, text = sign ++ digits ∧
      Sign signed sign factor ∧ IsDigits digits ∧ n = factor * decimal digits := by
  constructor
  · intro h
    cases h with
    | plain h => exact ⟨[], text, 1, rfl, .none, h, by simp [decimal_eq_digitsValue]⟩
    | @plus digits h => exact ⟨['+'], digits, 1, rfl, .plus, h, by simp [decimal_eq_digitsValue]⟩
    | @minus digits hs h =>
      exact ⟨['-'], digits, -1, rfl, .minus hs, h, by simp [decimal_eq_digitsValue]⟩
  · rintro ⟨sign, digits, factor, rfl, hs, hd, rfl⟩
    rw [decimal_eq_digitsValue]
    cases hs with
    | none => simpa using SpellsInteger.plain hd
    | plus => simpa using SpellsInteger.plus hd
    | minus hs => simpa using SpellsInteger.minus hs hd

theorem padded_iff : kind.Padded text n ↔ WritesInteger kind.signed text n ∧ kind.Contains n := by
  rw [IntegerKind.contains_iff]
  constructor
  · rintro ⟨⟨before, core, after, rfl, hb, ha, hs⟩, hl, hg⟩
    obtain ⟨sign, digits, factor, rfl, hsign, hdigits, rfl⟩ := spellsInteger_iff.mp hs
    obtain ⟨hne, hd⟩ := isDigits_iff.mp hdigits
    exact ⟨.mk hb hsign hne hd ha, hl, hg⟩
  · rintro ⟨⟨hb, hs, hne, hd, ha⟩, hl, hg⟩
    have hi := spellsInteger_iff.mpr ⟨_, _, _, rfl, hs, isDigits_iff.mpr ⟨hne, hd⟩, rfl⟩
    exact ⟨⟨_, _, _, rfl, hb, ha, hi⟩, hl, hg⟩

theorem IntegerKind.Contains.nonneg (h : kind.Contains n) (hs : kind.signed = false) : 0 ≤ n := by
  rw [Contains, hs, if_neg Bool.false_ne_true] at h
  exact h.1

/-- The decimal text of an integer is one way to write it. -/
theorem spellsInteger_toString (h : 0 ≤ n ∨ signed = true) :
    SpellsInteger signed (toString n).toList n := by
  cases n with
  | ofNat m =>
    have hs := @SpellsInteger.plain signed _ (isDigits_toDigits m)
    rw [digitsValue_toDigits] at hs
    have ht : (toString (Int.ofNat m)).toList = Nat.toDigits 10 m := Nat.toList_repr
    rwa [ht]
  | negSucc m =>
    have hsigned := h.resolve_left (Int.negSucc_not_nonneg m).mp
    have hs := @SpellsInteger.minus signed _ hsigned (isDigits_toDigits (m + 1))
    rw [digitsValue_toDigits] at hs
    have ht : (toString (Int.negSucc m)).toList = '-' :: Nat.toDigits 10 (m + 1) := by
      change ("-" ++ (m + 1).repr).toList = _
      rw [String.toList_append, Nat.toList_repr]
      rfl
    rw [ht]
    exact hs

theorem padded_toString (h : kind.Contains n) (hb : ∀ c ∈ before, isBlank c = true)
    (ha : ∀ c ∈ after, isBlank c = true) :
    kind.Padded (before ++ (toString n).toList ++ after) n := by
  obtain ⟨hl, hg⟩ := IntegerKind.contains_iff.mp h
  refine ⟨⟨before, _, after, rfl, hb, ha, spellsInteger_toString ?_⟩, hl, hg⟩
  cases hs : kind.signed with
  | false => exact .inl (h.nonneg hs)
  | true => exact .inr rfl

theorem IntegerKind.Padded.ne_nil (h : kind.Padded text n) : text ≠ [] := by
  obtain ⟨before, core, after, rfl, -, -, hs⟩ := h.written
  exact List.append_ne_nil_of_left_ne_nil (List.append_ne_nil_of_right_ne_nil _ hs.ne_nil) _

end Text

namespace Environment

open Text (WritesInteger isBlank)

/-- The value of the last pair with a name. -/
def LastValue (env : Environment) (key value : String) : Prop :=
  ∃ before after, env.pairs = before ++ (key, value) :: after ∧ ∀ pair ∈ after, pair.1 ≠ key

/-- No pair has the name, or the last one that has it is empty. -/
def Unset (env : Environment) (key : String) : Prop :=
  (∀ pair ∈ env.pairs, pair.1 ≠ key) ∨ env.LastValue key ""

variable {env : Environment} {key value : String}

theorem lookup_reverse_eq_none_iff :
    env.pairs.reverse.lookup key = none ↔ ∀ pair ∈ env.pairs, pair.1 ≠ key := by
  rw [List.lookup_eq_none_iff]
  constructor
  · intro h pair hm he
    have hn := h pair (List.mem_reverse.mpr hm)
    rw [he, bne_self_eq_false] at hn
    cases hn
  · intro h pair hm
    exact bne_iff_ne.mpr (h pair (List.mem_reverse.mp hm)).symm

theorem unset_iff : env.Unset key ↔ ∀ value, ¬env.Assigns key value := by
  rw [← get?_eq_none_iff, get?, Unset, LastValue, ← lookup_reverse_eq_some_iff,
    ← lookup_reverse_eq_none_iff]
  cases env.pairs.reverse.lookup key with
  | none => simp
  | some value => simp

theorem integer_eq_of_assigns {kind : Text.IntegerKind} (h : env.Assigns key value)
    (default default' : Int) : env.integer kind key default = env.integer kind key default' := by
  rw [integer, integer, get?_eq_some_iff.mpr h]

/-- A variable is read as the default exactly if it is unset. Else it is read as the integer of the
type that its value writes, both bounds of the type included, or refused with its value as it stands
where it writes none. So each value of a type is read back from its decimal text in white space. -/
theorem integer_reads (env : Environment) (kind : Text.IntegerKind) (key : String) :
    ((∀ default, kind.Contains default → env.integer kind key default = .ok default) ↔
      env.Unset key) ∧
    (∀ value default, env.LastValue key value → value ≠ "" →
      (∀ n, env.integer kind key default = .ok n ↔
        WritesInteger kind.signed value.toList n ∧ kind.Contains n) ∧
      ((∀ n, ¬(WritesInteger kind.signed value.toList n ∧ kind.Contains n)) →
        env.integer kind key default = .error (.invalidNumber key value))) ∧
    (∀ n before after default, kind.Contains n → (∀ c ∈ before, isBlank c = true) →
      (∀ c ∈ after, isBlank c = true) →
      env.LastValue key (String.ofList (before ++ (toString n).toList ++ after)) →
      env.integer kind key default = .ok n) := by
  have hassigns {value : String} (hl : env.LastValue key value) (hv : value ≠ "") :
      env.Assigns key value := ⟨hl, hv⟩
  have hzero : ∀ kind : Text.IntegerKind, kind.Contains 0 := by
    rintro ⟨⟩ <;> decide
  have hone : ∀ kind : Text.IntegerKind, kind.Contains 1 := by
    rintro ⟨⟩ <;> decide
  refine ⟨⟨fun h => ?_, fun h default _ => ?_⟩, fun value default hl hv => ⟨fun n => ?_, fun hn => ?_⟩,
    fun n before after default hn hb ha hl => ?_⟩
  -- A variable that is set is read the same with any default, but each type has two values.
  · rw [unset_iff]
    intro value hv
    have hread : env.integer kind key 0 = env.integer kind key 1 := integer_eq_of_assigns hv 0 1
    rw [h 0 (hzero kind), h 1 (hone kind)] at hread
    cases hread
  · exact integer_eq_ok_iff.mpr (.inl ⟨unset_iff.mp h, rfl⟩)
  · rw [integer_eq_ok_iff, ← Text.padded_iff]
    constructor
    · rintro (⟨hu, -⟩ | ⟨other, ho, hp⟩)
      · exact absurd (hassigns hl hv) (hu value)
      · cases ho.unique (hassigns hl hv)
        exact hp
    · exact fun hp => .inr ⟨value, hassigns hl hv, hp⟩
  · exact integer_eq_error_iff.mpr
      ⟨value, hassigns hl hv, fun n hp => hn n (Text.padded_iff.mp hp), rfl⟩
  · have hp := Text.padded_toString hn hb ha
    refine integer_eq_ok_iff.mpr (.inr ⟨_, hassigns hl ?_, ?_⟩)
    · rw [Ne, ← String.toList_eq_nil_iff, String.toList_ofList]
      exact hp.ne_nil
    · rwa [String.toList_ofList]

theorem integer_reads_least :
    let env : Environment := ⟨[("N", "+7"), ("N", "\u00a0-2147483648\n")]⟩
    env.integer .i32 "N" 0 = .ok (-2147483648) ∧
      env.integer .u32 "N" 0 = .error (.invalidNumber "N" "\u00a0-2147483648\n") ∧
      env.integer .u32 "M" 200 = .ok 200 := by
  intro env
  have hl : env.LastValue "N" "\u00a0-2147483648\n" :=
    ⟨[("N", "+7")], [], rfl, List.forall_mem_nil _⟩
  obtain ⟨-, -, hback⟩ := integer_reads env .i32 "N"
  obtain ⟨-, hvalue, -⟩ := integer_reads env .u32 "N"
  refine ⟨?_, (hvalue _ 0 hl (by decide)).2 fun n hn => ?_, ?_⟩
  · have hbefore : ∀ c ∈ ['\u00a0'], isBlank c = true := List.forall_mem_singleton.mpr (by decide)
    have hafter : ∀ c ∈ ['\n'], isBlank c = true := List.forall_mem_singleton.mpr (by decide)
    exact hback (-2147483648) ['\u00a0'] ['\n'] 0 (by decide) hbefore hafter hl
  · have hnone : Text.readInteger? .u32 (Text.trim "\u00a0-2147483648\n".toList) = none := by decide
    rw [← Text.padded_iff, ← Text.readInteger?_trim_eq_some_iff, hnone] at hn
    cases hn
  · exact (integer_reads env .u32 "M").1.mpr (.inl (by decide)) 200 (by decide)

end Environment

end ContractPipeline
