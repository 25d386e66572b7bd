import Mathlib.Data.String.Basic
import ContractPipeline.Proofs.Text.RoundTrip

/-! The order of texts is the order of their UTF-8 bytes. -/
namespace ContractPipeline.Text.Utf8

/-- The bytes of a smaller character come first, whatever follows: they differ before either end. -/
theorem encodeChar_append_lt {c d : Char} (h : c < d) (xs ys : Bytes) :
    encodeChar c ++ xs < encodeChar d ++ ys := by
  have hc : c.toNat < d.toNat := h
  have hd : d.toNat < 0x110000 := by
    rcases d.valid with hv | ⟨-, hv⟩
    · exact Nat.lt_trans hv (by decide)
    · exact hv
  -- Each quotient is that of the one before it, so that the digits are compared one by one.
  have h2 (n : ℕ) : n / 4096 = n / 64 / 64 := by omega
  have h3 (n : ℕ) : n / 262144 = n / 64 / 64 / 64 := by omega
  unfold encodeChar
  dsimp only
  split_ifs <;>
    simp only [List.cons_append, List.nil_append, List.cons_lt_cons_iff, UInt8.lt_iff_toNat_lt,
      ← UInt8.toNat_inj, UInt8.toNat_ofNat', h2, h3] <;> omega

theorem encodeChar_ne_nil (c : Char) : encodeChar c ≠ [] := by
  unfold encodeChar
  dsimp only
  split_ifs <;> exact List.cons_ne_nil _ _

theorem encode_lt_encode {s t : List Char} (h : s < t) : encode s < encode t := by
  induction h with
  | @nil c text =>
    obtain ⟨byte, rest, hb⟩ := List.exists_cons_of_ne_nil (encodeChar_ne_nil c)
    rw [encode_cons, hb]
    exact List.nil_lt_cons _ _
  | cons _ ih =>
    rw [encode_cons, encode_cons]
    exact List.append_left_lt ih
  | rel h =>
    rw [encode_cons, encode_cons]
    exact encodeChar_append_lt h _ _

end ContractPipeline.Text.Utf8

namespace ContractPipeline

/-- Texts are in order exactly if their bytes are. -/
theorem Bytes.ofString_lt_ofString_iff {s t : String} : ofString s < ofString t ↔ s < t := by
  have hlt : ∀ {s t : String}, s < t → ofString s < ofString t := fun h =>
    Text.Utf8.encode_lt_encode (String.lt_iff_toList_lt.mp h)
  refine ⟨fun h => ?_, hlt⟩
  rcases lt_trichotomy s t with hl | rfl | hg
  · exact hl
  · exact absurd h (List.lt_irrefl _)
  · exact absurd h (List.lt_asymm (hlt hg))

end ContractPipeline
