import Mathlib.Tactic.SplitIfs
import ContractPipeline.Text.Quoted

/-! Each text is read back from its UTF-8 bytes, by the strict reader and by the lossy one. -/
namespace ContractPipeline.Text.Utf8

/-- Bytes that lead a reader to a character, and back to where it stands between characters. -/
inductive Spells : State → Bytes → Char → Prop
  | last {state : State} {byte : UInt8} {c : Char} (h : step byte.toNat state = .char c) :
      Spells state [byte] c
  | more {state next : State} {byte : UInt8} {rest : Bytes} {c : Char}
      (h : step byte.toNat state = .goOn next) (tail : Spells next rest c) :
      Spells state (byte :: rest) c

theorem Spells.decodeFrom?_append {state : State} {bytes : Bytes} {c : Char}
    (h : Spells state bytes c) (rest : Bytes) :
    decodeFrom? state (bytes ++ rest) = (decodeFrom? .between rest).map (c :: ·) := by
  induction h with
  | @last state byte c h => cases state <;> simp [decodeFrom?, h]
  | @more state next byte bytes c h _ ih => cases state <;> simp [decodeFrom?, h, ih]

theorem Spells.piecesFrom_append {state : State} {bytes : Bytes} {c : Char}
    (h : Spells state bytes c) (read rest : Bytes) :
    piecesFrom state read (bytes ++ rest) = .char c :: pieces rest := by
  induction h generalizing read with
  | @last state byte c h =>
    cases state <;> rw [step] at h <;> simp [piecesFrom, pieces, h]
  | @more state next byte bytes c h _ ih =>
    cases state <;> rw [step] at h <;> simp [piecesFrom, h, ih]

theorem step_one {n : Nat} (h : n < 0x80) :
    step (UInt8.ofNat n).toNat .between = .char (Char.ofNat n) := by
  have hb : n < UInt8.size := Nat.lt_trans h (by decide)
  rw [UInt8.toNat_ofNat_of_lt' hb, step, begin, if_pos h]

theorem step_two {n : Nat} (hl : 2 ≤ n) (hh : n < 32) :
    step (UInt8.ofNat (0xC0 + n)).toNat .between = .goOn (.inside 0 0x80 0xBF n) := by
  have hb : 0xC0 + n < UInt8.size := Nat.lt_trans (by omega : _ < 0xE0) (by decide)
  rw [UInt8.toNat_ofNat_of_lt' hb, step, begin, if_neg (by omega), if_neg (by omega),
    if_pos (by omega), Nat.add_sub_cancel_left]

theorem step_three {n : Nat} (h : n < 16) :
    step (UInt8.ofNat (0xE0 + n)).toNat .between = .goOn (.inside 1
      (if n = 0 then 0xA0 else 0x80) (if n = 13 then 0x9F else 0xBF) n) := by
  have hb : 0xE0 + n < UInt8.size := Nat.lt_trans (by omega : _ < 0xF0) (by decide)
  have hfirst : 0xE0 + n = 0xE0 ↔ n = 0 := by omega
  have hlast : 0xE0 + n = 0xED ↔ n = 13 := by omega
  rw [UInt8.toNat_ofNat_of_lt' hb, step, begin, if_neg (by omega), if_neg (by omega),
    if_neg (by omega), if_pos (by omega), Nat.add_sub_cancel_left]
  simp only [hfirst, hlast]

theorem step_four {n : Nat} (h : n < 5) :
    step (UInt8.ofNat (0xF0 + n)).toNat .between = .goOn (.inside 2
      (if n = 0 then 0x90 else 0x80) (if n = 4 then 0x8F else 0xBF) n) := by
  have hb : 0xF0 + n < UInt8.size := Nat.lt_trans (by omega : _ < 0xF5) (by decide)
  have hfirst : 0xF0 + n = 0xF0 ↔ n = 0 := by omega
  have hlast : 0xF0 + n = 0xF4 ↔ n = 4 := by omega
  rw [UInt8.toNat_ofNat_of_lt' hb, step, begin, if_neg (by omega), if_neg (by omega),
    if_neg (by omega), if_neg (by omega), if_pos (by omega), Nat.add_sub_cancel_left]
  simp only [hfirst, hlast]

theorem toNat_continuation (n : Nat) : (UInt8.ofNat (0x80 + n % 64)).toNat = 0x80 + n % 64 := by
  have hb : 0x80 + n % 64 < UInt8.size := Nat.lt_trans (by omega : _ < 0xC0) (by decide)
  exact UInt8.toNat_ofNat_of_lt' hb

theorem bits_continuation (n : Nat) : 64 * (n / 64) + (0x80 + n % 64 - 0x80) = n := by omega

section Continuation

variable {low high n : Nat} (hl : low ≤ 0x80 + n % 64) (hh : 0x80 + n % 64 ≤ high)

include hl hh

theorem advance_zero :
    advance 0 low high (n / 64) (UInt8.ofNat (0x80 + n % 64)).toNat = .char (Char.ofNat n) := by
  rw [toNat_continuation, advance, if_pos ⟨hl, hh⟩, bits_continuation]

theorem advance_succ (more : Nat) :
    advance (more + 1) low high (n / 64) (UInt8.ofNat (0x80 + n % 64)).toNat =
      .goOn (.inside more 0x80 0xBF n) := by
  rw [toNat_continuation, advance, if_pos ⟨hl, hh⟩, bits_continuation]

theorem Spells.end : Spells (.inside 0 low high (n / 64)) [UInt8.ofNat (0x80 + n % 64)]
    (Char.ofNat n) :=
  .last (advance_zero hl hh)

theorem Spells.inside {more : Nat} {rest : Bytes} {c : Char}
    (tail : Spells (.inside more 0x80 0xBF n) rest c) :
    Spells (.inside (more + 1) low high (n / 64)) (UInt8.ofNat (0x80 + n % 64) :: rest) c :=
  .more (advance_succ hl hh more) tail

end Continuation

theorem spells_encodeChar (c : Char) : Spells .between (encodeChar c) c := by
  have hv : c.toNat < 0xD800 ∨ 0xDFFF < c.toNat ∧ c.toNat < 0x110000 := c.valid
  have hc := Char.ofNat_toNat c
  unfold encodeChar
  generalize c.toNat = n at hv hc
  subst hc
  have h4096 : n / 4096 = n / 64 / 64 := by omega
  have h262144 : n / 262144 = n / 64 / 64 / 64 := by omega
  dsimp only
  rw [h4096, h262144]
  split_ifs with h1 h2 h3
  · exact .last (step_one h1)
  · exact .more (step_two (by omega) (by omega)) (.end (by omega) (by omega))
  · refine .more (step_three (by omega)) (.inside ?_ ?_ (.end (by omega) (by omega)))
    · split <;> omega
    · split <;> omega
  · refine .more (step_four (by omega)) (.inside ?_ ?_
      (.inside (by omega) (by omega) (.end (by omega) (by omega))))
    · split <;> omega
    · split <;> omega

theorem encode_cons (c : Char) (text : List Char) :
    encode (c :: text) = encodeChar c ++ encode text := List.flatMap_cons

theorem decode?_encode (text : List Char) : decode? (encode text) = some text := by
  unfold decode?
  induction text with
  | nil => rfl
  | cons c text ih =>
    rw [encode_cons, (spells_encodeChar c).decodeFrom?_append]
    exact congrArg _ ih

theorem pieces_encode (text : List Char) : pieces (encode text) = text.map .char := by
  induction text with
  | nil => rfl
  | cons c text ih =>
    rw [encode_cons, pieces, (spells_encodeChar c).piecesFrom_append, ih, List.map_cons]

theorem decodeLossy_encode (text : List Char) : decodeLossy (encode text) = text := by
  rw [decodeLossy, pieces_encode, List.map_map]
  exact List.map_id text

end ContractPipeline.Text.Utf8

namespace ContractPipeline.Bytes

theorem toString?_ofString (s : String) : (ofString s).toString? = some s := by
  rw [toString?, ofString, Text.Utf8.decode?_encode, Option.map_some, String.ofList_toList]

theorem toStringLossy_ofString (s : String) : (ofString s).toStringLossy = s := by
  rw [toStringLossy, ofString, Text.Utf8.decodeLossy_encode, String.ofList_toList]

theorem ofString_injective {s t : String} (h : ofString s = ofString t) : s = t := by
  rw [← toStringLossy_ofString s, h, toStringLossy_ofString]

end ContractPipeline.Bytes

namespace ContractPipeline.Text

/-- The bytes of a text are quoted as that text. -/
theorem quoteBytes_ofString (s : String) : quoteBytes (.ofString s) = quote s := by
  rw [quoteBytes, Bytes.ofString, Utf8.pieces_encode, List.flatMap_map]
  rfl

example : quoteBytes [0x61, 0xE2, 0x82, 0x28, 0xFF] = "\"a\\xE2\\x82(\\xFF\"" := by decide +kernel

end ContractPipeline.Text
