import ContractPipeline.Proofs.Curve.Primality

/-! The elements stand for the residues modulo the order of the field, in which the inverse is a
power by Fermat's little theorem. -/
namespace ContractPipeline.Curve

instance : Fact fieldOrder.Prime :=
  ⟨prime_fieldOrder⟩

namespace Element

def residue (a : Element) : ZMod fieldOrder := a.val

theorem residue_injective : Function.Injective residue := by
  intro a b h
  have hmod := (ZMod.natCast_eq_natCast_iff' a.val b.val fieldOrder).mp h
  rw [Nat.mod_eq_of_lt a.isLt, Nat.mod_eq_of_lt b.isLt] at hmod
  exact Fin.ext hmod

@[simp] theorem residue_inj {a b : Element} : a.residue = b.residue ↔ a = b :=
  residue_injective.eq_iff

theorem residue_val {a : Element} {r : ZMod fieldOrder} (h : a.val = r.val) : a.residue = r := by
  rw [residue, h, ZMod.natCast_zmod_val]

@[simp] theorem residue_add (a b : Element) : (a + b).residue = a.residue + b.residue := by
  simp only [residue, Fin.val_add, ZMod.natCast_mod, Nat.cast_add]

@[simp] theorem residue_mul (a b : Element) : (a * b).residue = a.residue * b.residue := by
  simp only [residue, Fin.val_mul, ZMod.natCast_mod, Nat.cast_mul]

@[simp] theorem residue_sub (a b : Element) : (a - b).residue = a.residue - b.residue := by
  simp only [residue, Fin.val_sub, ZMod.natCast_mod, Nat.cast_add,
    Nat.cast_sub b.isLt.le, ZMod.natCast_self]
  ring

@[simp] theorem residue_neg (a : Element) : (-a).residue = -a.residue := by
  simp only [residue, Fin.val_neg', ZMod.natCast_mod, Nat.cast_sub a.isLt.le, ZMod.natCast_self,
    zero_sub]

@[simp] theorem residue_zero : residue 0 = 0 :=
  Nat.cast_zero

@[simp] theorem residue_one : residue 1 = 1 :=
  residue_val (by decide +kernel)

@[simp] theorem residue_ofNat (n : Nat) [n.AtLeastTwo] : residue ofNat(n) = ofNat(n) := by
  have hval : (OfNat.ofNat n : Element).val = n % fieldOrder := rfl
  rw [residue, hval, ZMod.natCast_mod]
  rfl

theorem residue_powerBits (a : Element) {digits exponent : Nat} (h : exponent < 2 ^ digits) :
    (a.powerBits digits exponent).residue = a.residue ^ exponent := by
  induction digits generalizing a exponent with
  | zero =>
    obtain rfl : exponent = 0 := by simpa using h
    simp [powerBits]
  | succ digits ih =>
    have hlt : exponent / 2 < 2 ^ digits := by
      rw [pow_succ] at h
      omega
    have hexp := Nat.div_add_mod exponent 2
    have hhalf : ((a * a).powerBits digits (exponent / 2)).residue =
        a.residue ^ (2 * (exponent / 2)) := by
      rw [ih (a * a) hlt, residue_mul, ← sq, ← pow_mul]
    rw [powerBits]
    split
    case isTrue ho =>
      rw [ho] at hexp
      rw [residue_mul, hhalf, ← pow_succ', hexp]
    case isFalse ho =>
      have hz : exponent % 2 = 0 := by omega
      rw [hz, Nat.add_zero] at hexp
      rw [hhalf, hexp]

theorem residue_power (a : Element) {exponent : Nat} (h : exponent < 2 ^ 256) :
    (a.power exponent).residue = a.residue ^ exponent :=
  residue_powerBits a h

@[simp] theorem residue_inverse (a : Element) : a.inverse.residue = a.residue⁻¹ := by
  rw [inverse, residue_power a (by decide +kernel)]
  rcases eq_or_ne a.residue 0 with hz | hne
  · rw [hz, inv_zero, zero_pow (by decide +kernel)]
  · apply eq_inv_of_mul_eq_one_left
    rw [← pow_succ]
    exact ZMod.pow_card_sub_one_eq_one hne

end Element

end ContractPipeline.Curve
