import ContractPipeline.Key
import ContractPipeline.Proofs.Curve.Order

/-! Numbers and their bytes, secrets and public keys: a secret is read back from its bytes, and its
public key is a multiple of the generator in the group of the curve. -/
namespace ContractPipeline

namespace Bytes

theorem foldl_eq (bytes : Bytes) (start : Nat) :
    bytes.foldl (fun value byte => 256 * value + byte.toNat) start =
      start * 256 ^ bytes.length + bytes.toNat := by
  induction bytes generalizing start with
  | nil => simp [toNat]
  | cons byte bytes ih =>
    rw [toNat, List.foldl_cons, List.foldl_cons, ih, ih, List.length_cons, pow_succ]
    ring

theorem toNat_cons (byte : UInt8) (bytes : Bytes) :
    toNat (byte :: bytes) = 256 ^ bytes.length * byte.toNat + toNat bytes := by
  rw [toNat, List.foldl_cons, foldl_eq]
  ring

theorem toNat_ofNat_eq_mod (width value : Nat) :
    toNat (ofNat width value) = value % 256 ^ width := by
  induction width with
  | zero => rw [pow_zero, Nat.mod_one, ofNat, toNat, List.foldl_nil]
  | succ width ih =>
    have hbyte : (UInt8.ofNat (value / Nat.pow 256 width)).toNat = value / 256 ^ width % 256 :=
      UInt8.toNat_ofNat
    rw [ofNat, toNat_cons, length_ofNat, hbyte, ih, pow_succ, Nat.mod_mul, Nat.add_comm]

theorem toNat_ofNat {width value : Nat} (h : value < 256 ^ width) :
    toNat (ofNat width value) = value := by
  rw [toNat_ofNat_eq_mod, Nat.mod_eq_of_lt h]

theorem toNat_lt (bytes : Bytes) : bytes.toNat < 256 ^ bytes.length := by
  induction bytes with
  | nil => exact Nat.one_pos
  | cons byte bytes ih =>
    have hb := byte.toNat_lt
    calc toNat (byte :: bytes)
      _ = 256 ^ bytes.length * byte.toNat + toNat bytes := toNat_cons byte bytes
      _ < 256 ^ bytes.length * byte.toNat + 256 ^ bytes.length := Nat.add_lt_add_left ih _
      _ = 256 ^ bytes.length * (byte.toNat + 1) := (Nat.mul_succ _ _).symm
      _ ≤ 256 ^ bytes.length * 256 := Nat.mul_le_mul_left _ hb
      _ = 256 ^ (byte :: bytes).length := (pow_succ 256 bytes.length).symm

/-- Of each length there is one sequence of bytes for a number. -/
theorem eq_of_toNat_eq {a b : Bytes} (hlen : a.length = b.length) (h : a.toNat = b.toNat) :
    a = b := by
  induction a generalizing b with
  | nil => exact (List.length_eq_zero_iff.mp hlen.symm).symm
  | cons byte bytes ih =>
    obtain _ | ⟨other, others⟩ := b
    · cases hlen
    have hl : bytes.length = others.length := Nat.succ.inj hlen
    have hpos : 0 < 256 ^ others.length := Nat.pow_pos (by decide)
    have hbytes := toNat_lt bytes
    rw [toNat_cons, toNat_cons, hl] at h
    rw [hl] at hbytes
    have hdiv := congrArg (· / 256 ^ others.length) h
    have hmod := congrArg (· % 256 ^ others.length) h
    simp only [Nat.mul_add_div hpos, Nat.mul_add_mod, Nat.div_eq_of_lt hbytes,
      Nat.div_eq_of_lt (toNat_lt others), Nat.mod_eq_of_lt hbytes,
      Nat.mod_eq_of_lt (toNat_lt others), Nat.add_zero] at hdiv hmod
    rw [UInt8.toNat_inj.mp hdiv, ih hl hmod]

theorem toNat_eq_iff {bytes : Bytes} {width value : Nat} (hlen : bytes.length = width)
    (h : value < 256 ^ width) : bytes.toNat = value ↔ bytes = ofNat width value := by
  constructor
  · intro hn
    apply eq_of_toNat_eq
    · rw [hlen, length_ofNat]
    · rw [hn, toNat_ofNat h]
  · rintro rfl
    exact toNat_ofNat h

end Bytes

namespace SecretKey

theorem toNat_toBytes (secret : SecretKey) : secret.toBytes.toNat = secret.value := by
  have hsize : Curve.Point.groupOrder ≤ 256 ^ 32 := by decide +kernel
  exact Bytes.toNat_ofNat (secret.value_lt.trans_le hsize)

theorem length_toBytes (secret : SecretKey) : secret.toBytes.length = 32 :=
  Bytes.length_ofNat 32 secret.value

theorem ofBytes?_toBytes (secret : SecretKey) : ofBytes? secret.toBytes = some secret := by
  rw [ofBytes?, if_pos secret.length_toBytes, toNat_toBytes, ofNat?,
    dif_pos ⟨secret.value_pos, secret.value_lt⟩]

end SecretKey

namespace PublicKey

open Curve

/-- Whether a key has the coordinates of the generator times a number. -/
def IsMultiple (key : PublicKey) (n : Nat) : Prop :=
  ∃ G, Point.generator.StandsFor G ∧ (Point.affine key.x key.y).StandsFor (n • G)

theorem isMultiple_ofSecret (secret : SecretKey) : (ofSecret secret).IsMultiple secret.value := by
  obtain ⟨G, hG⟩ := Point.exists_standsFor_generator
  refine ⟨G, hG, ?_⟩
  have hsize : Point.groupOrder ≤ 2 ^ 256 := by decide +kernel
  have hmultiple : (Point.timesGenerator secret.value).StandsFor (secret.value • G) :=
    hG.select (secret.value_lt.trans_le hsize)
  have hne : secret.value • G ≠ 0 := by
    intro hz
    rw [← addOrderOf_dvd_iff_nsmul_eq_zero, Point.addOrderOf_generator hG] at hz
    exact (Nat.le_of_dvd secret.value_pos hz).not_gt secret.value_lt
  rw [ofSecret]
  generalize Point.timesGenerator secret.value = p at hmultiple
  generalize secret.value • G = P at hmultiple hne
  cases hmultiple with
  | infinity => exact absurd rfl hne
  | affine h => exact .affine h

/-- The public key of a secret of full length, given its coordinates. -/
theorem ofSecret_eq {secret : SecretKey} {x y : Element} (hlow : 2 ^ 255 ≤ secret.value)
    (h : (Scaled.multiple Point.generator 255 secret.value).isAt (.affine x y) = true) :
    ofSecret secret = ⟨x, y⟩ := by
  have hsize : Point.groupOrder ≤ 2 ^ 256 := by decide +kernel
  rw [ofSecret, Point.timesGenerator_eq hlow (secret.value_lt.trans_le hsize) (by decide) h]
  rfl

end PublicKey

end ContractPipeline
