import Mathlib.AlgebraicGeometry.EllipticCurve.Affine.Point
import ContractPipeline.Proofs.Curve.Field

/-! The points stand for those of an elliptic curve, whose group law is Mathlib's. -/
namespace ContractPipeline.Curve

/-- The curve `y ^ 2 = x ^ 3 + 7`. -/
def curve : WeierstrassCurve.Affine (ZMod fieldOrder) where
  a₁ := 0
  a₂ := 0
  a₃ := 0
  a₄ := 0
  a₆ := 7

theorem curve_equation_iff {x y : ZMod fieldOrder} : curve.Equation x y ↔ y ^ 2 = x ^ 3 + 7 := by
  rw [WeierstrassCurve.Affine.equation_iff]
  simp [curve]

theorem nonsingular_of_equation {x y : ZMod fieldOrder} (h : y ^ 2 = x ^ 3 + 7) :
    curve.Nonsingular x y := by
  have hvalue : curve.Δ = -21168 := by
    simp only [WeierstrassCurve.Δ, WeierstrassCurve.b₂, WeierstrassCurve.b₄, WeierstrassCurve.b₆,
      WeierstrassCurve.b₈, curve]
    norm_num
  have hΔ : curve.Δ ≠ 0 := by
    rw [hvalue]
    decide +kernel
  exact (WeierstrassCurve.Affine.equation_iff_nonsingular_of_Δ_ne_zero hΔ).mp
    (curve_equation_iff.mpr h)

namespace Point

/-- A point and the one of the group that it stands for. -/
inductive StandsFor : Point → curve.Point → Prop
  | infinity : StandsFor .infinity 0
  | affine {x y : Element} (h : curve.Nonsingular x.residue y.residue) :
    StandsFor (.affine x y) (.some x.residue y.residue h)

theorem standsFor_affine {x y : Element} {x' y' : ZMod fieldOrder} (h : curve.Nonsingular x' y')
    (hx : x.residue = x') (hy : y.residue = y') : StandsFor (.affine x y) (.some x' y' h) := by
  subst hx hy
  exact .affine h

theorem negY_eq (x y : ZMod fieldOrder) : curve.negY x y = -y := by
  simp [WeierstrassCurve.Affine.negY, curve]

theorem addX_eq (x₁ x₂ l : ZMod fieldOrder) : curve.addX x₁ x₂ l = l * l - x₁ - x₂ := by
  have ha₁ : curve.a₁ = 0 := rfl
  have ha₂ : curve.a₂ = 0 := rfl
  rw [WeierstrassCurve.Affine.addX, ha₁, ha₂]
  ring

theorem addY_eq (x₁ x₂ y₁ l : ZMod fieldOrder) :
    curve.addY x₁ x₂ y₁ l = l * (x₁ - (l * l - x₁ - x₂)) - y₁ := by
  rw [WeierstrassCurve.Affine.addY, negY_eq, WeierstrassCurve.Affine.negAddY, addX_eq]
  ring

theorem eq_neg_self_iff {y : ZMod fieldOrder} : y = -y ↔ y = 0 := by
  have : (2 : ZMod fieldOrder) ≠ 0 := by decide +kernel
  rw [eq_neg_iff_add_eq_zero, ← two_mul, mul_eq_zero, or_iff_right this]

theorem slope_self {x y : ZMod fieldOrder} (h : y ≠ curve.negY x y) :
    curve.slope x x y y = 3 * x ^ 2 / (2 * y) := by
  rw [WeierstrassCurve.Affine.slope_of_Y_ne rfl h, negY_eq, sub_neg_eq_add, ← two_mul]
  simp [curve]

theorem slope_of_ne {x₁ y₁ x₂ y₂ : ZMod fieldOrder} (h : x₁ ≠ x₂) :
    curve.slope x₁ x₂ y₁ y₂ = (y₂ - y₁) / (x₂ - x₁) := by
  rw [WeierstrassCurve.Affine.slope_of_X_ne h, ← neg_sub y₂, ← neg_sub x₂, neg_div_neg_eq]

def mirrored : Point → Point
  | .infinity => .infinity
  | .affine x y => .affine x (-y)

theorem StandsFor.mirrored {p : Point} {P : curve.Point} (h : p.StandsFor P) :
    p.mirrored.StandsFor (-P) := by
  cases h with
  | infinity => exact .infinity
  | @affine x y h =>
    rw [WeierstrassCurve.Affine.Point.neg_some]
    exact standsFor_affine _ rfl (by rw [negY_eq, Element.residue_neg])

theorem StandsFor.unique {p : Point} {P Q : curve.Point} (hp : p.StandsFor P) (hq : p.StandsFor Q) :
    P = Q := by
  cases hp with
  | infinity => cases hq; rfl
  | affine => cases hq; rfl

theorem StandsFor.injective {p q : Point} {P : curve.Point} (hp : p.StandsFor P)
    (hq : q.StandsFor P) : p = q := by
  cases hp with
  | infinity => cases hq; rfl
  | @affine x y h =>
    generalize hR : WeierstrassCurve.Affine.Point.some x.residue y.residue h = R at hq
    cases hq with
    | infinity => exact absurd hR (WeierstrassCurve.Affine.Point.some_ne_zero h)
    | affine =>
      injection hR with hx hy
      rw [Element.residue_inj.mp hx, Element.residue_inj.mp hy]

theorem StandsFor.chord {slope x₁ y₁ x₂ y₂ : Element}
    {h₁ : curve.Nonsingular x₁.residue y₁.residue} {h₂ : curve.Nonsingular x₂.residue y₂.residue}
    (hne : ¬(x₁.residue = x₂.residue ∧ y₁.residue = curve.negY x₂.residue y₂.residue))
    (hslope : slope.residue = curve.slope x₁.residue x₂.residue y₁.residue y₂.residue) :
    StandsFor (Point.chord slope x₁ y₁ x₂) (.some _ _ h₁ + .some _ _ h₂) := by
  rw [WeierstrassCurve.Affine.Point.add_some hne]
  apply standsFor_affine
  · rw [addX_eq, ← hslope]
    simp
  · rw [addY_eq, ← hslope]
    simp

theorem StandsFor.double {p : Point} {P : curve.Point} (h : StandsFor p P) :
    StandsFor p.double (P + P) := by
  cases h with
  | infinity => exact .infinity
  | @affine x y h =>
    rw [Point.double]
    split
    case isTrue hz =>
      have hy : y.residue = curve.negY x.residue y.residue := by
        rw [negY_eq, hz, Element.residue_zero, neg_zero]
      rw [WeierstrassCurve.Affine.Point.add_self_of_Y_eq hy]
      exact .infinity
    case isFalse hz =>
      have hy : y.residue ≠ curve.negY x.residue y.residue := by
        rw [negY_eq, Ne, eq_neg_self_iff, ← Element.residue_zero, Element.residue_inj]
        exact hz
      apply StandsFor.chord fun hxy => hy hxy.2
      rw [slope_self hy, div_eq_mul_inv, sq, ← mul_assoc]
      simp only [Element.residue_mul, Element.residue_ofNat, Element.residue_inverse]

theorem StandsFor.add {p q : Point} {P Q : curve.Point} (hp : StandsFor p P)
    (hq : StandsFor q Q) : StandsFor (p.add q) (P + Q) := by
  cases hp with
  | infinity => simpa only [Point.add, zero_add] using hq
  | @affine x₁ y₁ h₁ =>
    cases hq with
    | infinity => exact .affine h₁
    | @affine x₂ y₂ h₂ =>
      rw [Point.add]
      split
      case isTrue hx =>
        subst hx
        split
        case isTrue hy =>
          subst hy
          exact StandsFor.double (.affine h₁)
        case isFalse hy =>
          have hroots := WeierstrassCurve.Affine.Y_eq_of_X_eq h₁.1 h₂.1 rfl
          rw [Element.residue_inj] at hroots
          rw [WeierstrassCurve.Affine.Point.add_of_Y_eq rfl (hroots.resolve_left hy)]
          exact .infinity
      case isFalse hx =>
        have hne : x₁.residue ≠ x₂.residue := Element.residue_inj.not.mpr hx
        apply StandsFor.chord fun hxy => hne hxy.1
        rw [slope_of_ne hne, div_eq_mul_inv]
        simp only [Element.residue_mul, Element.residue_sub, Element.residue_inverse]

theorem StandsFor.select {count : Nat} {p : Point} {P : curve.Point} (h : StandsFor p P) {n : Nat}
    (hn : n < 2 ^ count) : StandsFor (Point.select (doublings count p) n) (n • P) := by
  -- The list without its first point is that of the double, and half the number selects from it.
  induction count generalizing p P n with
  | zero =>
    obtain rfl : n = 0 := by simpa using hn
    rw [zero_nsmul]
    exact .infinity
  | succ count ih =>
    have hlt : n / 2 < 2 ^ count := by
      rw [pow_succ] at hn
      omega
    have hhalf := ih h.double hlt
    have hexp := Nat.div_add_mod n 2
    rw [← two_nsmul, ← mul_nsmul] at hhalf
    rw [doublings, Point.select]
    split
    case isTrue ho =>
      have hsum : n • P = P + (2 * (n / 2)) • P := by
        rw [← succ_nsmul', ← ho, hexp]
      rw [hsum]
      exact h.add hhalf
    case isFalse ho =>
      have heven : 2 * (n / 2) = n := by omega
      rwa [heven] at hhalf

end Point

end ContractPipeline.Curve
