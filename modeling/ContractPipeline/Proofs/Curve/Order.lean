import Mathlib.GroupTheory.OrderOfElement
import Mathlib.Tactic.LinearCombination
import ContractPipeline.Proofs.Curve.Group

/-! Multiples of the generator, and its order. They are computed with a common denominator: an
inverse for each of some four hundred sums would take too long. -/
namespace ContractPipeline.Curve

/-- Coordinates with a scale: those of the point `(x / z ^ 2, y / z ^ 3)` if the scale is not
zero. -/
structure Scaled where
  x : Element
  y : Element
  z : Element

namespace Scaled

def ofPoint : Point → Scaled
  | .infinity => ⟨1, 1, 0⟩
  | .affine x y => ⟨x, y, 1⟩

def double (t : Scaled) : Scaled :=
  let square := t.y * t.y
  let s := 4 * t.x * square
  let m := 3 * t.x * t.x
  let x := m * m - 2 * s
  ⟨x, m * (s - x) - 8 * (square * square), 2 * t.y * t.z⟩

def add (t : Scaled) : Point → Scaled
  | .infinity => t
  | .affine x y =>
    let square := t.z * t.z
    let h := x * square - t.x
    let r := y * (square * t.z) - t.y
    let hh := h * h
    let v := t.x * hh
    let x := r * r - h * hh - 2 * v
    ⟨x, r * (v - x) - t.y * (h * hh), t.z * h⟩

/-- The multiple of a point by a number of one binary digit more than said. -/
def multiple (p : Point) : (digits n : Nat) → Scaled
  | 0, _ => ofPoint p
  | digits + 1, n =>
    let half := (multiple p digits (n / 2)).double
    if n % 2 = 1 then half.add p else half

def isAt (t : Scaled) : Point → Bool
  | .infinity => false
  | .affine x y =>
    let square := t.z * t.z
    t.z != 0 && t.x == x * square && t.y == y * (square * t.z)

/-- Nothing is said if the scale is zero. Where a formula does not give the sum of two points it
gives a scale of zero, so the formulas need no conditions. -/
def Describes (t : Scaled) (P : curve.Point) : Prop :=
  t.z.residue ≠ 0 → ∃ x y h, P = .some x y h ∧
    t.x.residue = x * t.z.residue ^ 2 ∧ t.y.residue = y * t.z.residue ^ 3

theorem describes_ofPoint {p : Point} {P : curve.Point} (h : p.StandsFor P) :
    (ofPoint p).Describes P := by
  intro hz
  cases h with
  | infinity => exact absurd Element.residue_zero hz
  | affine h => exact ⟨_, _, h, rfl, by simp [ofPoint], by simp [ofPoint]⟩

theorem Describes.double {t : Scaled} {P : curve.Point} (ht : t.Describes P) :
    t.double.Describes (P + P) := by
  intro hz
  simp only [Scaled.double, Element.residue_mul, Element.residue_ofNat, mul_ne_zero_iff] at hz
  obtain ⟨⟨htwo, hy₀⟩, hz₀⟩ := hz
  obtain ⟨x, y, h, rfl, hx, hy⟩ := ht hz₀
  have hy' : y ≠ 0 := by
    rintro rfl
    exact hy₀ (by rw [hy, zero_mul])
  have hne : y ≠ curve.negY x y := by
    rw [Point.negY_eq, Ne, Point.eq_neg_self_iff]
    exact hy'
  have hslope : curve.slope x x y y * (2 * y) = 3 * x ^ 2 := by
    rw [Point.slope_self hne, div_mul_cancel₀ _ (mul_ne_zero htwo hy')]
  refine ⟨_, _, _, WeierstrassCurve.Affine.Point.add_self_of_Y_ne hne, ?_, ?_⟩
  · rw [Point.addX_eq]
    generalize curve.slope x x y y = l at hslope
    simp only [Scaled.double, Element.residue_sub, Element.residue_mul, Element.residue_ofNat, hx,
      hy]
    linear_combination (-t.z.residue ^ 8 * (l * (2 * y) + 3 * x ^ 2)) * hslope
  · rw [Point.addY_eq]
    generalize curve.slope x x y y = l at hslope
    simp only [Scaled.double, Element.residue_sub, Element.residue_mul, Element.residue_ofNat, hx,
      hy]
    linear_combination (t.z.residue ^ 12 * ((l * (2 * y)) ^ 2 + l * (2 * y) * (3 * x ^ 2) +
      (3 * x ^ 2) ^ 2 - 12 * x * y ^ 2)) * hslope

theorem Describes.add {t : Scaled} {P : curve.Point} (ht : t.Describes P) {p : Point}
    {Q : curve.Point} (hp : p.StandsFor Q) : (t.add p).Describes (P + Q) := by
  cases hp with
  | infinity => rwa [add_zero]
  | @affine x₂ y₂ h₂ =>
    intro hz
    simp only [Scaled.add, Element.residue_mul, Element.residue_sub, mul_ne_zero_iff] at hz
    obtain ⟨hz₀, hx₀⟩ := hz
    obtain ⟨x, y, h, rfl, hx, hy⟩ := ht hz₀
    have hne : x ≠ x₂.residue := by
      rintro rfl
      exact hx₀ (by rw [hx, ← sq, sub_self])
    have hslope : y₂.residue = curve.slope x x₂.residue y y₂.residue * (x₂.residue - x) + y := by
      rw [Point.slope_of_ne hne, div_mul_cancel₀ _ (sub_ne_zero.mpr hne.symm), sub_add_cancel]
    refine ⟨_, _, _, WeierstrassCurve.Affine.Point.add_of_X_ne hne, ?_, ?_⟩
    · rw [Point.addX_eq]
      generalize curve.slope x x₂.residue y y₂.residue = l at hslope
      simp only [Scaled.add, Element.residue_sub, Element.residue_mul, Element.residue_ofNat, hx,
        hy, hslope]
      ring
    · rw [Point.addY_eq]
      generalize curve.slope x x₂.residue y y₂.residue = l at hslope
      simp only [Scaled.add, Element.residue_sub, Element.residue_mul, Element.residue_ofNat, hx,
        hy, hslope]
      ring

theorem describes_multiple {p : Point} {P : curve.Point} (h : p.StandsFor P) {digits n : Nat}
    (hlow : 2 ^ digits ≤ n) (hhigh : n < 2 ^ (digits + 1)) :
    (multiple p digits n).Describes (n • P) := by
  induction digits generalizing n with
  | zero =>
    obtain rfl : n = 1 := by simp at hlow hhigh; omega
    rw [one_nsmul]
    exact describes_ofPoint h
  | succ digits ih =>
    rw [pow_succ] at hlow
    rw [pow_succ] at hhigh
    have hhalf := (ih (n := n / 2) (by omega) (by omega)).double
    rw [← two_nsmul, ← mul_nsmul'] at hhalf
    rw [multiple]
    split
    case isTrue ho =>
      have hsum : n • P = (2 * (n / 2)) • P + P := by
        rw [← succ_nsmul, ← ho, Nat.div_add_mod]
      rw [hsum]
      exact hhalf.add h
    case isFalse ho =>
      have heven : 2 * (n / 2) = n := by omega
      rwa [heven] at hhalf

theorem Describes.standsFor {t : Scaled} {P : curve.Point} (ht : t.Describes P) {p : Point}
    (h : t.isAt p = true) : p.StandsFor P := by
  cases p with
  | infinity => exact absurd h Bool.false_ne_true
  | affine x y =>
    simp only [isAt, Bool.and_eq_true, bne_iff_ne, beq_iff_eq] at h
    obtain ⟨⟨hz, hx₂⟩, hy₂⟩ := h
    have hz₀ : t.z.residue ≠ 0 := by
      rw [← Element.residue_zero, Ne, Element.residue_inj]
      exact hz
    obtain ⟨x', y', h, rfl, hx, hy⟩ := ht hz₀
    rw [hx₂, Element.residue_mul, Element.residue_mul, ← sq] at hx
    rw [hy₂, Element.residue_mul, Element.residue_mul, Element.residue_mul, ← sq, ← pow_succ] at hy
    exact Point.standsFor_affine h (mul_right_cancel₀ (pow_ne_zero 2 hz₀) hx)
      (mul_right_cancel₀ (pow_ne_zero 3 hz₀) hy)

end Scaled

namespace Point

theorem exists_standsFor_generator : ∃ G, generator.StandsFor G :=
  ⟨_, .affine (nonsingular_of_equation (by decide +kernel))⟩

/-- A multiple of the generator, given its coordinates. -/
theorem timesGenerator_eq {p : Point} {digits n : Nat} (hlow : 2 ^ digits ≤ n)
    (hhigh : n < 2 ^ (digits + 1)) (hdigits : digits < 256)
    (h : (Scaled.multiple generator digits n).isAt p = true) : timesGenerator n = p := by
  obtain ⟨G, hG⟩ := exists_standsFor_generator
  have hn : n < 2 ^ 256 := hhigh.trans_le (Nat.pow_le_pow_right (by decide) hdigits)
  exact (hG.select hn).injective ((Scaled.describes_multiple hG hlow hhigh).standsFor h)

theorem isAt_mirrored_generator :
    (Scaled.multiple generator 255 (groupOrder - 1)).isAt generator.mirrored = true := by
  decide +kernel

theorem addOrderOf_generator {G : curve.Point} (h : generator.StandsFor G) :
    addOrderOf G = groupOrder := by
  have hlast : generator.mirrored.StandsFor ((groupOrder - 1) • G) :=
    (Scaled.describes_multiple h (by decide +kernel) (by decide +kernel)).standsFor
      isAt_mirrored_generator
  have hneg : (groupOrder - 1) • G = -G := hlast.unique h.mirrored
  have hzero : groupOrder • G = 0 := by
    rw [← Nat.sub_add_cancel (show 1 ≤ groupOrder by decide), succ_nsmul, hneg, neg_add_cancel]
  have : Fact groupOrder.Prime := ⟨prime_groupOrder⟩
  apply addOrderOf_eq_prime hzero
  cases h with
  | affine h => exact WeierstrassCurve.Affine.Point.some_ne_zero h

end Point

end ContractPipeline.Curve
