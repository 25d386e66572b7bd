import Mathlib.Data.List.Basic
import ContractPipeline.Environment
import ContractPipeline.Proofs.Text.Integers

/-! What a variable holds: the value of the last pair with its name, unless that is empty. Pairs with
other names, and earlier pairs with the same one, do not count. -/
namespace ContractPipeline.Environment

/-- The last pair with a name has this value, which is not empty. -/
structure Assigns (env : Environment) (key value : String) : Prop where
  last : ∃ before after, env.pairs = before ++ (key, value) :: after ∧ ∀ pair ∈ after, pair.1 ≠ key
  nonempty : value ≠ ""

def AgreeOn (env env' : Environment) (keys : List String) : Prop :=
  ∀ key ∈ keys, ∀ value, env.Assigns key value ↔ env'.Assigns key value

/-- Unset, or an integer of a type. -/
def HoldsInteger (env : Environment) (kind : Text.IntegerKind) (key : String) : Prop :=
  ∀ value, env.Assigns key value → ∃ n, kind.Padded value.toList n

variable {env env' : Environment} {key value : String}

/-- Going through the pairs from the end, the first one with a name is the last one. -/
theorem lookup_reverse_eq_some_iff :
    env.pairs.reverse.lookup key = some value ↔
      ∃ before after, env.pairs = before ++ (key, value) :: after ∧ ∀ pair ∈ after, pair.1 ≠ key := by
  rw [List.lookup_eq_some_iff]
  constructor
  · rintro ⟨later, earlier, hp, hn⟩
    have hr := congrArg List.reverse hp
    rw [List.reverse_reverse] at hr
    refine ⟨earlier.reverse, later.reverse, by simpa using hr, fun pair hm => ?_⟩
    have hk := hn pair (List.mem_reverse.mp hm)
    exact Ne.symm (bne_iff_ne.mp hk)
  · rintro ⟨before, after, hp, hn⟩
    refine ⟨after.reverse, before.reverse, by simp [hp], fun pair hm => ?_⟩
    exact bne_iff_ne.mpr (hn pair (List.mem_reverse.mp hm)).symm

theorem get?_eq_some_iff : env.get? key = some value ↔ env.Assigns key value := by
  rw [get?, Option.filter_eq_some_iff, lookup_reverse_eq_some_iff]
  constructor
  · rintro ⟨hs, hv⟩
    exact ⟨hs, by simpa using hv⟩
  · intro h
    exact ⟨h.last, by simpa using h.nonempty⟩

theorem get?_eq_none_iff : env.get? key = none ↔ ∀ value, ¬env.Assigns key value := by
  rw [Option.eq_none_iff_forall_ne_some]
  exact forall_congr' fun value => not_congr get?_eq_some_iff

theorem Assigns.unique {other : String} (h : env.Assigns key value) (ho : env.Assigns key other) :
    value = other := by
  have hg := get?_eq_some_iff.mpr h
  rw [get?_eq_some_iff.mpr ho] at hg
  exact (Option.some.inj hg).symm

theorem isSet_iff : env.isSet key = true ↔ ∃ value, env.Assigns key value := by
  rw [isSet, Option.isSome_iff_exists]
  exact exists_congr fun value => get?_eq_some_iff

theorem agreeOn_iff {keys : List String} :
    env.AgreeOn env' keys ↔ ∀ key ∈ keys, env.get? key = env'.get? key := by
  refine forall₂_congr fun key _ => ?_
  rw [Option.ext_iff]
  exact forall_congr' fun value => iff_congr get?_eq_some_iff.symm get?_eq_some_iff.symm

theorem AgreeOn.get?_eq {keys : List String} (h : env.AgreeOn env' keys) (hk : key ∈ keys) :
    env.get? key = env'.get? key :=
  agreeOn_iff.mp h key hk

/-- What is assigned to a variable is known from the pairs with its name alone. -/
theorem get?_eq_filter (env : Environment) (key : String) :
    env.get? key =
      ((env.pairs.filter (·.1 = key)).getLast?.map Prod.snd).filter (· ≠ "") := by
  have hf : ∀ pairs : List (String × String),
      pairs.lookup key = (pairs.find? (·.1 = key)).map Prod.snd := by
    intro pairs
    induction pairs with
    | nil => rfl
    | cons pair pairs ih =>
      obtain ⟨name, value⟩ := pair
      by_cases hk : key = name
      · subst hk
        simp
      · have hn : ¬name = key := Ne.symm hk
        rw [List.lookup_cons, beq_eq_false_iff_ne.mpr hk, List.find?_cons, ih]
        simp [hn]
  rw [get?, hf, List.getLast?_filter]

theorem get?_congr_filter (h : env.pairs.filter (·.1 = key) = env'.pairs.filter (·.1 = key)) :
    env.get? key = env'.get? key := by
  rw [get?_eq_filter, get?_eq_filter, h]

/-- A pair does not count for other names, nor where a later one has its name. -/
theorem get?_append_cons (before : List (String × String)) {pair : String × String}
    {after : List (String × String)} (h : pair.1 = key → ∃ later ∈ after, later.1 = key) :
    (Environment.mk (before ++ pair :: after)).get? key = (Environment.mk (before ++ after)).get? key := by
  by_cases hk : pair.1 = key
  · obtain ⟨later, hl, hn⟩ := h hk
    have hne : after.filter (·.1 = key) ≠ [] := by
      have hm : later ∈ after.filter (·.1 = key) := List.mem_filter.mpr ⟨hl, by simpa using hn⟩
      exact List.ne_nil_of_mem hm
    rw [get?_eq_filter, get?_eq_filter, List.filter_append, List.filter_append, List.filter_cons,
      if_pos (by simpa using hk), List.getLast?_append, List.getLast?_append,
      List.getLast?_cons_of_ne_nil hne]
  · apply get?_congr_filter
    rw [List.filter_append, List.filter_append, List.filter_cons, if_neg (by simpa using hk)]

theorem integer_congr (h : env.get? key = env'.get? key) (kind : Text.IntegerKind) (default : Int) :
    env.integer kind key default = env'.integer kind key default := by
  rw [integer, integer, h]

variable {kind : Text.IntegerKind} {default n : Int}

theorem integer_eq_ok_iff :
    env.integer kind key default = .ok n ↔
      ((∀ value, ¬env.Assigns key value) ∧ n = default) ∨
        ∃ value, env.Assigns key value ∧ kind.Padded value.toList n := by
  cases hg : env.get? key with
  | none =>
    have hn := get?_eq_none_iff.mp hg
    simp [integer, hg, hn, eq_comm]
  | some value =>
    have ha := get?_eq_some_iff.mp hg
    constructor
    · intro h
      simp only [integer, hg] at h
      split at h
      case h_1 m hr =>
        cases h
        exact .inr ⟨value, ha, Text.readInteger?_trim_eq_some_iff.mp hr⟩
      case h_2 => cases h
    · rintro (⟨hn, -⟩ | ⟨other, ho, hp⟩)
      · exact absurd ha (hn value)
      · cases ho.unique ha
        simp only [integer, hg, Text.readInteger?_trim_eq_some_iff.mpr hp]

theorem integer_eq_error_iff {error : ConfigError} :
    env.integer kind key default = .error error ↔
      ∃ value, env.Assigns key value ∧ (∀ n, ¬kind.Padded value.toList n) ∧
        error = .invalidNumber key value := by
  cases hg : env.get? key with
  | none =>
    have hn := get?_eq_none_iff.mp hg
    simp [integer, hg, hn]
  | some value =>
    have ha := get?_eq_some_iff.mp hg
    constructor
    · intro h
      simp only [integer, hg] at h
      split at h
      case h_1 => cases h
      case h_2 hr =>
        cases h
        refine ⟨value, ha, fun n hp => ?_, rfl⟩
        rw [Text.readInteger?_trim_eq_some_iff.mpr hp] at hr
        cases hr
    · rintro ⟨other, ho, hn, rfl⟩
      cases ho.unique ha
      have hr : Text.readInteger? kind (Text.trim value.toList) = none := by
        apply Option.eq_none_iff_forall_ne_some.mpr
        intro n hs
        exact hn n (Text.readInteger?_trim_eq_some_iff.mp hs)
      simp only [integer, hg, hr]

theorem holdsInteger_iff :
    env.HoldsInteger kind key ↔ ∃ n, env.integer kind key default = .ok n := by
  constructor
  · intro h
    cases hg : env.get? key with
    | none => exact ⟨default, integer_eq_ok_iff.mpr (.inl ⟨get?_eq_none_iff.mp hg, rfl⟩)⟩
    | some value =>
      have ha := get?_eq_some_iff.mp hg
      obtain ⟨n, hp⟩ := h value ha
      exact ⟨n, integer_eq_ok_iff.mpr (.inr ⟨value, ha, hp⟩)⟩
  · rintro ⟨n, h⟩ value ha
    rcases integer_eq_ok_iff.mp h with ⟨hn, -⟩ | ⟨other, ho, hp⟩
    · exact absurd ha (hn value)
    · cases ho.unique ha
      exact ⟨n, hp⟩

section Numbers

variable {default n : Nat}

theorem number_congr (h : env.get? key = env'.get? key) (kind : Text.IntegerKind) (default : Nat) :
    env.number kind key default = env'.number kind key default := by
  rw [number, number, integer_congr h]

theorem number_eq_error_iff {error : ConfigError} :
    env.number kind key default = .error error ↔
      ∃ value, env.Assigns key value ∧ (∀ n, ¬kind.Padded value.toList n) ∧
        error = .invalidNumber key value := by
  rw [number, ← @integer_eq_error_iff _ _ _ (default : Int)]
  cases env.integer kind key default with
  | error other => simp [Except.map]
  | ok m => simp [Except.map]

theorem exists_number_iff :
    (∃ n, env.number kind key default = .ok n) ↔ env.HoldsInteger kind key := by
  rw [number, @holdsInteger_iff _ _ _ (default : Int)]
  cases env.integer kind key default with
  | error other => simp [Except.map]
  | ok m => simp [Except.map]

/-- A number is the integer that is held, since that is not negative. -/
theorem integer_of_number (hk : kind.least = 0) (h : env.number kind key default = .ok n) :
    env.integer kind key default = .ok (n : Int) := by
  unfold number at h
  cases hi : env.integer kind key default with
  | error other =>
    rw [hi] at h
    cases h
  | ok m =>
    rw [hi] at h
    cases h
    have hm : 0 ≤ m := by
      rcases integer_eq_ok_iff.mp hi with ⟨-, rfl⟩ | ⟨value, -, hp⟩
      · exact Int.natCast_nonneg default
      · have hl := hp.atLeast
        omega
    rw [Int.toNat_of_nonneg hm]

end Numbers

end ContractPipeline.Environment
