import ContractPipeline.Proofs.Curve.Field

/-! Square roots in the field. Its order is three modulo four, so that a power of a square is one of
the roots, and odd, so that the two roots of a square other than zero differ in parity. No point of
the curve has zero as its second coordinate. -/
namespace ContractPipeline.Curve.Element

theorem eq_or_eq_neg_of_mul_self {a b : Element} (h : a * a = b * b) : a = b ∨ a = -b := by
  rw [← residue_inj, residue_mul, residue_mul, mul_self_eq_mul_self_iff] at h
  rwa [← residue_inj, ← residue_inj, residue_neg]

theorem neg_mul_neg_self (a : Element) : -a * -a = a * a := by
  rw [← residue_inj, residue_mul, residue_mul, residue_neg, neg_mul_neg]

theorem isOdd_neg {a : Element} (h : a ≠ 0) : (-a).isOdd = !a.isOdd := by
  have hpos : 0 < a.val := Nat.pos_of_ne_zero fun hz => h (Fin.ext hz)
  have hlt := a.isLt
  have hval : (-a).val = fieldOrder - a.val := by
    rw [Fin.val_neg', Nat.mod_eq_of_lt (by omega)]
  have hodd : fieldOrder % 2 = 1 := by decide
  rw [Bool.eq_iff_iff]
  simp only [isOdd, hval, Bool.not_eq_true', beq_iff_eq, beq_eq_false_iff_ne]
  omega

/-- Of a root and its negative, the one of a given parity is the only root of this parity. -/
theorem ite_isOdd_eq_iff {root y : Element} {odd : Bool} (hne : root ≠ 0) :
    (if root.isOdd = odd then root else -root) = y ↔ y * y = root * root ∧ y.isOdd = odd := by
  constructor
  · rintro rfl
    split
    case isTrue h => exact ⟨rfl, h⟩
    case isFalse h =>
      refine ⟨neg_mul_neg_self root, ?_⟩
      rw [isOdd_neg hne]
      exact Bool.not_eq.mpr h
  · rintro ⟨hsquare, rfl⟩
    rcases eq_or_eq_neg_of_mul_self hsquare with rfl | rfl
    · exact if_pos rfl
    · rw [isOdd_neg hne]
      exact if_neg (Bool.not_ne_self _).symm

theorem mul_self_of_root? {a root : Element} (h : root? a = some root) : root * root = a := by
  rw [root?] at h
  generalize a.power ((fieldOrder + 1) / 4) = power at h
  split at h
  case isTrue hsquare =>
    cases h
    exact hsquare
  case isFalse => cases h

theorem exists_root?_mul_self (a : Element) : ∃ root, root? (a * a) = some root := by
  have hpower : ((a * a).power ((fieldOrder + 1) / 4)).residue =
      a.residue ^ (2 * ((fieldOrder + 1) / 4)) := by
    rw [residue_power _ (by decide +kernel), residue_mul, ← sq, ← pow_mul]
  have hexp : 2 * ((fieldOrder + 1) / 4) + 2 * ((fieldOrder + 1) / 4) = fieldOrder + 1 := by decide
  have hsquare : (a * a).power ((fieldOrder + 1) / 4) * (a * a).power ((fieldOrder + 1) / 4) =
      a * a := by
    rw [← residue_inj, residue_mul, residue_mul, hpower, ← pow_add, hexp, pow_succ, ZMod.pow_card]
  rw [root?]
  generalize (a * a).power ((fieldOrder + 1) / 4) = power at hsquare
  exact ⟨power, if_pos hsquare⟩

/-- The negative of seven is no cube: its power by a third of the order of the units is not one. -/
theorem cube_add_seven_ne_zero (x : Element) : x * x * x + 7 ≠ 0 := by
  intro h
  have hcube : x.residue ^ 3 = residue (-7) := by
    have hr := congrArg residue h
    simp only [residue_add, residue_mul, residue_ofNat, residue_zero] at hr
    rw [residue_neg, residue_ofNat, pow_three', eq_neg_of_add_eq_zero_left hr]
  have hx : x.residue ≠ 0 := by
    intro hz
    rw [← residue_zero, residue_inj] at hz
    rw [hz] at h
    exact absurd h (by decide +kernel)
  have hexp : 3 * ((fieldOrder - 1) / 3) = fieldOrder - 1 := by decide
  have hpower : (-7 : Element).power ((fieldOrder - 1) / 3) = 1 := by
    rw [← residue_inj, residue_power _ (by decide +kernel), ← hcube, ← pow_mul, hexp,
      ZMod.pow_card_sub_one_eq_one hx, residue_one]
  exact absurd hpower (by decide +kernel)

end ContractPipeline.Curve.Element
