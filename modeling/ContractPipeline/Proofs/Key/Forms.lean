import ContractPipeline.Proofs.Curve.Root
import ContractPipeline.Proofs.Key

/-! The forms of a public key. Exactly the three forms of a point of the curve are read, each as the
key with the coordinates of the point, so that all of them belong to one address. -/
namespace ContractPipeline

namespace Curve

theorem onCurve_iff {x y : Element} : onCurve x y = true ↔ y * y = x * x * x + 7 :=
  beq_iff_eq

theorem onCurve_of_standsFor {x y : Element} {P : curve.Point}
    (h : (Point.affine x y).StandsFor P) : onCurve x y = true := by
  cases h with
  | affine h =>
    have hequation := curve_equation_iff.mp h.1
    rw [onCurve_iff, ← Element.residue_inj]
    simp only [Element.residue_add, Element.residue_mul, Element.residue_ofNat]
    rw [← sq, hequation, pow_three']

namespace Element

theorem ofNat?_eq_some_iff {n : Nat} {x : Element} : ofNat? n = some x ↔ n = x.val := by
  unfold ofNat?
  constructor
  · intro h
    split at h
    case isTrue =>
      cases h
      rfl
    case isFalse => cases h
  · rintro rfl
    exact dif_pos x.isLt

/-- The bytes of an element are the only 32 bytes that are read as it. -/
theorem ofNat?_toNat_eq_some_iff {bytes : Bytes} (hlen : bytes.length = 32) {x : Element} :
    ofNat? bytes.toNat = some x ↔ bytes = Bytes.ofNat 32 x.val := by
  have hsize : fieldOrder ≤ 256 ^ 32 := by decide +kernel
  rw [ofNat?_eq_some_iff]
  exact Bytes.toNat_eq_iff hlen (x.isLt.trans_le hsize)

end Element

end Curve

namespace PublicKey

open Curve

/-- The ways to write a key. The first byte of the short and of the mixed form tells the parity of
the second coordinate, which the short form leaves out. -/
inductive WrittenAs (key : PublicKey) : Bytes → Prop
  | short :
    WrittenAs key ((if key.y.isOdd then 3 else 2) :: Bytes.ofNat 32 key.x.val)
  | long :
    WrittenAs key (4 :: (Bytes.ofNat 32 key.x.val ++ Bytes.ofNat 32 key.y.val))
  | mixed :
    WrittenAs key ((if key.y.isOdd then 7 else 6) ::
      (Bytes.ofNat 32 key.x.val ++ Bytes.ofNat 32 key.y.val))

theorem writtenAs_toBytes (key : PublicKey) : key.WrittenAs key.toBytes :=
  .short

theorem length_coordinates (key : PublicKey) : key.coordinates.length = 64 := by
  rw [coordinates, List.length_append, Bytes.length_ofNat, Bytes.length_ofNat]

section Reading

variable {tag : UInt8} {bytes : Bytes} {key : PublicKey}

theorem ofFirst?_eq_some_iff (hlen : bytes.length = 32) {odd : Bool} :
    ofFirst? odd bytes = some key ↔
      onCurve key.x key.y = true ∧ key.y.isOdd = odd ∧ bytes = Bytes.ofNat 32 key.x.val := by
  -- The two roots differ in parity only because neither is zero.
  have hnonzero {x root : Element} (h : root * root = x * x * x + 7) : root ≠ 0 := by
    rintro rfl
    exact Element.cube_add_seven_ne_zero x h.symm
  unfold ofFirst?
  constructor
  · intro h
    obtain ⟨x, hx, h⟩ := Option.bind_eq_some_iff.mp h
    obtain ⟨root, hroot, h⟩ := Option.bind_eq_some_iff.mp h
    have hsquare := Element.mul_self_of_root? hroot
    obtain ⟨hy, hodd⟩ := (@Element.ite_isOdd_eq_iff root _ odd (hnonzero hsquare)).mp rfl
    rw [Element.ofNat?_toNat_eq_some_iff hlen] at hx
    cases h
    exact ⟨onCurve_iff.mpr (hy.trans hsquare), hodd, hx⟩
  · rintro ⟨hcurve, hodd, hbytes⟩
    rw [onCurve_iff] at hcurve
    obtain ⟨root, hroot⟩ := Element.exists_root?_mul_self key.y
    have hsquare := Element.mul_self_of_root? hroot
    have hy := (Element.ite_isOdd_eq_iff (hnonzero (hsquare.trans hcurve))).mpr ⟨hsquare.symm, hodd⟩
    rw [hcurve] at hroot
    apply Option.bind_eq_some_iff.mpr
    refine ⟨key.x, (Element.ofNat?_toNat_eq_some_iff hlen).mpr hbytes, ?_⟩
    apply Option.bind_eq_some_iff.mpr
    exact ⟨root, hroot, congrArg (fun y => some (⟨key.x, y⟩ : PublicKey)) hy⟩

theorem ofCoordinates?_eq_some_iff (hlen : bytes.length = 64) :
    ofCoordinates? bytes = some key ↔ onCurve key.x key.y = true ∧ bytes = key.coordinates := by
  have hfirst : (bytes.take 32).length = 32 := by
    rw [List.length_take, hlen]
    rfl
  have hsecond : (bytes.drop 32).length = 32 := by rw [List.length_drop, hlen]
  unfold ofCoordinates?
  constructor
  · intro h
    obtain ⟨x, hx, h⟩ := Option.bind_eq_some_iff.mp h
    obtain ⟨y, hy, h⟩ := Option.bind_eq_some_iff.mp h
    rw [Element.ofNat?_toNat_eq_some_iff hfirst] at hx
    rw [Element.ofNat?_toNat_eq_some_iff hsecond] at hy
    split at h
    case isTrue hcurve =>
      cases h
      refine ⟨hcurve, ?_⟩
      rw [coordinates, ← hx, ← hy, List.take_append_drop]
    case isFalse => cases h
  · rintro ⟨hcurve, rfl⟩
    have hx : key.coordinates.take 32 = Bytes.ofNat 32 key.x.val :=
      List.take_left' (Bytes.length_ofNat 32 key.x.val)
    have hy : key.coordinates.drop 32 = Bytes.ofNat 32 key.y.val :=
      List.drop_left' (Bytes.length_ofNat 32 key.x.val)
    apply Option.bind_eq_some_iff.mpr
    refine ⟨key.x, (Element.ofNat?_toNat_eq_some_iff hfirst).mpr hx, ?_⟩
    apply Option.bind_eq_some_iff.mpr
    exact ⟨key.y, (Element.ofNat?_toNat_eq_some_iff hsecond).mpr hy, if_pos hcurve⟩

/-- A first byte that tells a parity is one of two, and the parity is read off it. -/
theorem tag_eq_ite_iff {even odd : UInt8} (hne : even ≠ odd) {isOdd : Bool} :
    tag = (if isOdd then odd else even) ↔ (tag = even ∨ tag = odd) ∧ isOdd = (tag == odd) := by
  constructor
  · rintro rfl
    cases isOdd with
    | false => exact ⟨.inl rfl, (beq_eq_false_iff_ne.mpr hne).symm⟩
    | true => exact ⟨.inr rfl, (beq_self_eq_true odd).symm⟩
  · rintro ⟨rfl | rfl, rfl⟩
    · rw [beq_eq_false_iff_ne.mpr hne]
      rfl
    · rw [beq_self_eq_true]
      rfl

theorem ofBytes?_cons_eq_some_iff_of_first (hlen : bytes.length = 32) :
    ofBytes? (tag :: bytes) = some key ↔ onCurve key.x key.y = true ∧
      tag = (if key.y.isOdd then 3 else 2) ∧ bytes = Bytes.ofNat 32 key.x.val := by
  rw [ofBytes?, if_pos hlen, tag_eq_ite_iff (by decide)]
  by_cases htag : tag = 2 ∨ tag = 3
  · rw [if_pos htag, ofFirst?_eq_some_iff hlen]
    simp only [htag, true_and]
  · simp [htag]

theorem ofBytes?_cons_eq_some_iff_of_coordinates (hlen : bytes.length = 64) :
    ofBytes? (tag :: bytes) = some key ↔ onCurve key.x key.y = true ∧
      (tag = 4 ∨ tag = (if key.y.isOdd then 7 else 6)) ∧ bytes = key.coordinates := by
  rw [ofBytes?, if_neg (by omega), if_pos hlen]
  by_cases hlong : tag = 4
  · rw [if_pos hlong, ofCoordinates?_eq_some_iff hlen]
    simp only [hlong, true_or, true_and]
  rw [if_neg hlong, tag_eq_ite_iff (by decide)]
  by_cases htag : tag = 6 ∨ tag = 7
  · rw [if_pos htag, Option.filter_eq_some_iff, ofCoordinates?_eq_some_iff hlen]
    simp only [hlong, htag, false_or, true_and, beq_iff_eq]
    exact and_right_comm.trans and_assoc
  · simp [hlong, htag]

/-- What is read as a key is one of the forms of a point of the curve, and each form is read. -/
theorem ofBytes?_eq_some_iff :
    ofBytes? bytes = some key ↔ onCurve key.x key.y = true ∧ key.WrittenAs bytes := by
  constructor
  · intro h
    obtain _ | ⟨tag, rest⟩ := bytes
    · cases h
    by_cases hshort : rest.length = 32
    · obtain ⟨hcurve, rfl, rfl⟩ := (ofBytes?_cons_eq_some_iff_of_first hshort).mp h
      exact ⟨hcurve, .short⟩
    by_cases hlong : rest.length = 64
    · obtain ⟨hcurve, rfl | rfl, rfl⟩ := (ofBytes?_cons_eq_some_iff_of_coordinates hlong).mp h
      · exact ⟨hcurve, .long⟩
      · exact ⟨hcurve, .mixed⟩
    · rw [ofBytes?, if_neg hshort, if_neg hlong] at h
      cases h
  · rintro ⟨hcurve, hw⟩
    cases hw with
    | short =>
      have hlen := Bytes.length_ofNat 32 key.x.val
      exact (ofBytes?_cons_eq_some_iff_of_first hlen).mpr ⟨hcurve, rfl, rfl⟩
    | long =>
      have hlen := key.length_coordinates
      exact (ofBytes?_cons_eq_some_iff_of_coordinates hlen).mpr ⟨hcurve, .inl rfl, rfl⟩
    | mixed =>
      have hlen := key.length_coordinates
      exact (ofBytes?_cons_eq_some_iff_of_coordinates hlen).mpr ⟨hcurve, .inr rfl, rfl⟩

end Reading

theorem onCurve_ofSecret (secret : SecretKey) :
    onCurve (ofSecret secret).x (ofSecret secret).y = true := by
  obtain ⟨_, _, hmultiple⟩ := isMultiple_ofSecret secret
  exact onCurve_of_standsFor hmultiple

/-- The address of a point does not depend on how the point is written. Each form of it, and nothing
else, is read as the key with its coordinates, and the address is made of the last twenty bytes of
the digest of both coordinates. The address of a secret is that of the short form of its key. -/
theorem address_of_forms :
    (∀ x y : Element, onCurve x y = true →
      (∀ bytes, ofBytes? bytes = some ⟨x, y⟩ ↔ WrittenAs ⟨x, y⟩ bytes) ∧
      ∃ address : Address,
        address.bytes =
          (Hash.Keccak.hash (Bytes.ofNat 32 x.val ++ Bytes.ofNat 32 y.val)).drop 12 ∧
        ∀ bytes, WrittenAs ⟨x, y⟩ bytes →
          (ofBytes? bytes).map (·.address.text) = some address.text) ∧
    ∀ secret : SecretKey,
      (ofBytes? (KeyPair.ofSecret secret).publicKey.toBytes).map (·.address.text) =
        some (KeyPair.ofSecret secret).address.text := by
  have hread {key : PublicKey} (h : onCurve key.x key.y = true) {bytes : Bytes}
      (hw : key.WrittenAs bytes) : ofBytes? bytes = some key :=
    ofBytes?_eq_some_iff.mpr ⟨h, hw⟩
  refine ⟨fun x y h => ⟨fun bytes => ?_, PublicKey.address ⟨x, y⟩, rfl, fun bytes hw => ?_⟩,
    fun secret => ?_⟩
  · rw [ofBytes?_eq_some_iff, and_iff_right h]
  · rw [hread h hw, Option.map_some]
  · have hkey : (KeyPair.ofSecret secret).publicKey = ofSecret secret := rfl
    rw [hkey, hread (onCurve_ofSecret secret) (writtenAs_toBytes _), Option.map_some]
    rfl

/-- The forms of the negative of twice the generator, whose second coordinate is odd. -/
theorem address_of_forms_odd :
    let x : Element := 0xc6047f9441ed7d6d3045406e95c07cd85c778e4b8cef3ca7abac09b95c709ee5
    let y : Element := 0xe51e970159c23cc65c3a7be6b99315110809cd9acd992f1edc9bce55af301705
    let coordinates := Bytes.ofNat 32 x.val ++ Bytes.ofNat 32 y.val
    onCurve x y = true ∧
      ∃ address : Address, address.bytes = (Hash.Keccak.hash coordinates).drop 12 ∧
        [3 :: Bytes.ofNat 32 x.val, 4 :: coordinates, 7 :: coordinates].map
          (fun bytes => (ofBytes? bytes).map (·.address.text)) =
        List.replicate 3 (some address.text) := by
  intro x y coordinates
  have hcurve : onCurve x y = true := by decide +kernel
  have hodd : y.isOdd = true := by decide +kernel
  obtain ⟨-, address, hbytes, hforms⟩ := address_of_forms.1 x y hcurve
  have hshort := hforms _ .short
  have hlong := hforms _ .long
  have hmixed := hforms _ .mixed
  rw [if_pos hodd] at hshort hmixed
  refine ⟨hcurve, address, hbytes, ?_⟩
  rw [List.map_cons, List.map_cons, List.map_singleton, hshort, hlong, hmixed]
  rfl

end PublicKey

end ContractPipeline
