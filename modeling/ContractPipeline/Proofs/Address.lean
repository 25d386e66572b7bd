import ContractPipeline.Address

/-! The text of an address. Its digits are those of the bytes of the address, in either case, so that
the address is read back; the case of each letter tells the half byte of the digest at its place. -/
namespace ContractPipeline

namespace Bytes

/-- The half of a byte that stands at a position of a hexadecimal text, the high one at the even
positions. -/
def half (position : Nat) (byte : UInt8) : Nat :=
  if position % 2 = 0 then byte.toNat / 16 else byte.toNat % 16

theorem half_lt (position : Nat) (byte : UInt8) : half position byte < 16 := by
  have hb := byte.toNat_lt
  unfold half
  split <;> omega

theorem length_nibbles (bytes : Bytes) : bytes.nibbles.length = 2 * bytes.length := by
  induction bytes with
  | nil => rfl
  | cons byte bytes ih =>
    have h : nibbles (byte :: bytes) = byte.toNat / 16 :: byte.toNat % 16 :: nibbles bytes := rfl
    rw [h, List.length_cons, List.length_cons, ih, List.length_cons]
    omega

/-- The byte at half of a position holds the half byte at the position. -/
theorem getElem?_nibbles (bytes : Bytes) (position : Nat) :
    bytes.nibbles[position]? = bytes[position / 2]?.map (half position) := by
  induction bytes generalizing position with
  | nil => rfl
  | cons byte bytes ih =>
    have h : nibbles (byte :: bytes) = byte.toNat / 16 :: byte.toNat % 16 :: nibbles bytes := rfl
    rw [h]
    match position with
    | 0 => rfl
    | 1 => rfl
    | position + 2 =>
      have hi : (position + 2) / 2 = position / 2 + 1 := by omega
      have hh : half (position + 2) = half position := by
        funext byte
        rw [half, half, Nat.add_mod_right]
      rw [List.getElem?_cons_succ, List.getElem?_cons_succ, ih, hi, List.getElem?_cons_succ, hh]

theorem length_toHex (bytes : Bytes) : bytes.toHex.length = 2 * bytes.length := by
  rw [toHex, List.length_map, length_nibbles]

theorem hexValue?_hexDigit {n : Nat} (h : n < 16) : hexValue? (hexDigit n) = some n := by
  have hd : ∀ m < 16, hexValue? (hexDigit m) = some m := by decide
  exact hd n h

/-- The bytes are read back from their digits. -/
theorem ofHex?_toHex (bytes : Bytes) : ofHex? bytes.toHex = some bytes := by
  induction bytes with
  | nil => rfl
  | cons byte bytes ih =>
    have hb := byte.toNat_lt
    have h : toHex (byte :: bytes) =
        hexDigit (byte.toNat / 16) :: hexDigit (byte.toNat % 16) :: toHex bytes := rfl
    have hn : UInt8.ofNat (16 * (byte.toNat / 16) + byte.toNat % 16) = byte := by
      rw [Nat.div_add_mod, UInt8.ofNat_toNat]
    rw [h, ofHex?, hexValue?_hexDigit (by omega), hexValue?_hexDigit (by omega), ih]
    exact congrArg (fun first => some (first :: bytes)) hn

/-- A digit counts the same in upper and in lower case. -/
theorem hexValue?_toLower (c : Char) : hexValue? c.toLower = hexValue? c := by
  by_cases h : c.val ≥ 'A'.val ∧ c.val ≤ 'Z'.val
  · have hd : ∀ n < 26, hexValue? (Char.ofNat (65 + n)).toLower = hexValue? (Char.ofNat (65 + n)) := by
      decide
    have hl : 65 ≤ c.toNat := UInt32.le_iff_toNat_le.mp h.1
    have hg : c.toNat ≤ 90 := UInt32.le_iff_toNat_le.mp h.2
    have hc := hd (c.toNat - 65) (by omega)
    rwa [Nat.add_sub_cancel' hl, Char.ofNat_toNat] at hc
  · have hc : c.toLower = c := dif_neg h
    rw [hc]

theorem ofHex?_map_toLower (text : List Char) : ofHex? (text.map Char.toLower) = ofHex? text := by
  induction text using ofHex?.induct with
  | case1 => rfl
  | case2 c => rfl
  | case3 high low rest ih =>
    rw [List.map_cons, List.map_cons, ofHex?, ofHex?, hexValue?_toLower, hexValue?_toLower, ih]

end Bytes

namespace Address

open Bytes (half hexDigit hexValue?)

/-- The digest that marks the letters of an address: that of its lower-case digits. -/
def digest (address : Address) : Bytes :=
  Hash.Keccak.hash (Text.Utf8.encode address.bytes.toHex)

/-- The character at a position is the digit of the address there. If it is a letter, it is in upper
case exactly if the half byte of the digest there is at least eight. -/
structure Marked (position : Nat) (own sum : UInt8) (c : Char) : Prop where
  value : hexValue? c = some (half position own)
  letter : c.isAlpha = true → (c.isUpper = true ↔ 8 ≤ half position sum)
  digit : c.isDigit = true → c = hexDigit (half position own)

theorem hexDigit_of_lt {n : Nat} (h : n < 10) :
    (hexDigit n).isAlpha = false ∧ (hexDigit n).toUpper = hexDigit n := by
  have hd : ∀ m < 10, (hexDigit m).isAlpha = false ∧ (hexDigit m).toUpper = hexDigit m := by decide
  exact hd n h

theorem hexDigit_of_le {n : Nat} (hl : 10 ≤ n) (h : n < 16) :
    (hexDigit n).isDigit = false ∧ (hexDigit n).isUpper = false ∧
      (hexDigit n).toUpper.isDigit = false ∧ (hexDigit n).toUpper.isUpper = true := by
  have hd : ∀ m < 16, 10 ≤ m → (hexDigit m).isDigit = false ∧ (hexDigit m).isUpper = false ∧
      (hexDigit m).toUpper.isDigit = false ∧ (hexDigit m).toUpper.isUpper = true := by decide
  exact hd n h hl

theorem toLower_mark {n : Nat} (h : n < 16) (nibble : Nat) :
    (mark (hexDigit n) nibble).toLower = hexDigit n := by
  have hd : ∀ m < 16, (hexDigit m).toLower = hexDigit m ∧
      (hexDigit m).toUpper.toLower = hexDigit m := by decide
  obtain ⟨hlower, hupper⟩ := hd n h
  unfold mark
  split
  · exact hupper
  · exact hlower

theorem mark_of_digit {n : Nat} (h : n < 10) (nibble : Nat) :
    mark (hexDigit n) nibble = hexDigit n := by
  unfold mark
  rw [(hexDigit_of_lt h).2, ite_self]

theorem mark_of_letter {n : Nat} (hl : 10 ≤ n) (h : n < 16) (nibble : Nat) :
    (mark (hexDigit n) nibble).isDigit = false ∧
      ((mark (hexDigit n) nibble).isUpper = true ↔ 8 ≤ nibble) := by
  obtain ⟨hd, hu, hd', hu'⟩ := hexDigit_of_le hl h
  unfold mark
  split
  case isTrue hn => exact ⟨hd', iff_of_true hu' hn⟩
  case isFalse hn => exact ⟨hd, iff_of_false (by simp [hu]) hn⟩

theorem marked_mark (position : Nat) (own sum : UInt8) :
    Marked position own sum (mark (hexDigit (half position own)) (half position sum)) := by
  have hn := Bytes.half_lt position own
  have hv := Bytes.hexValue?_toLower (mark (hexDigit (half position own)) (half position sum))
  rw [toLower_mark hn, Bytes.hexValue?_hexDigit hn] at hv
  by_cases hl : half position own < 10
  · have hm := mark_of_digit hl (half position sum)
    refine ⟨hv.symm, fun ha => ?_, fun _ => hm⟩
    rw [hm, (hexDigit_of_lt hl).1] at ha
    cases ha
  · obtain ⟨hd, hu⟩ := mark_of_letter (Nat.le_of_not_lt hl) hn (half position sum)
    refine ⟨hv.symm, fun _ => hu, fun hc => ?_⟩
    rw [hd] at hc
    cases hc

theorem length_digits (address : Address) : address.digits.length = 40 := by
  rw [digits, List.length_zipWith, Bytes.length_toHex, Bytes.length_nibbles, address.length_bytes,
    Hash.Keccak.length_hash]
  rfl

/-- At each position there is a half byte of the address and one of the digest. -/
theorem getElem?_digits (address : Address) {position : Nat} (h : position < 40) :
    ∃ own sum, address.bytes[position / 2]? = some own ∧
      address.digest[position / 2]? = some sum ∧
      address.bytes.toHex[position]? = some (hexDigit (half position own)) ∧
      address.digits[position]? = some (mark (hexDigit (half position own)) (half position sum)) := by
  have hown : position / 2 < address.bytes.length := by
    rw [address.length_bytes]
    omega
  have hsum : position / 2 < address.digest.length := by
    rw [digest, Hash.Keccak.length_hash]
    omega
  have hlower : address.bytes.toHex[position]? =
      some (hexDigit (half position address.bytes[position / 2])) := by
    rw [Bytes.toHex, List.getElem?_map, Bytes.getElem?_nibbles, List.getElem?_eq_getElem hown]
    rfl
  have hnibble : address.digest.nibbles[position]? =
      some (half position address.digest[position / 2]) := by
    rw [Bytes.getElem?_nibbles, List.getElem?_eq_getElem hsum]
    rfl
  refine ⟨_, _, List.getElem?_eq_getElem hown, List.getElem?_eq_getElem hsum, hlower, ?_⟩
  have hz : address.digits = List.zipWith mark address.bytes.toHex address.digest.nibbles := rfl
  rw [hz, List.getElem?_zipWith, hlower, hnibble]

theorem mem_digits {address : Address} {c : Char} (h : c ∈ address.digits) :
    ∃ n < 16, c = hexDigit n ∨ c = (hexDigit n).toUpper := by
  obtain ⟨position, hl, hc⟩ := List.getElem_of_mem h
  rw [length_digits] at hl
  obtain ⟨own, sum, -, -, -, hdigit⟩ := address.getElem?_digits hl
  rw [List.getElem?_eq_some_iff] at hdigit
  obtain ⟨_, hd⟩ := hdigit
  refine ⟨half position own, Bytes.half_lt _ _, ?_⟩
  rw [← hc, hd, mark]
  split
  · exact .inr rfl
  · exact .inl rfl

/-- But for their case, the digits of an address are those of its bytes. -/
theorem map_toLower_digits (address : Address) :
    address.digits.map Char.toLower = address.bytes.toHex := by
  apply List.ext_getElem?
  intro position
  by_cases h : position < 40
  · obtain ⟨own, sum, -, -, hlower, hdigit⟩ := address.getElem?_digits h
    rw [List.getElem?_map, hdigit, hlower, Option.map_some, toLower_mark (Bytes.half_lt _ _)]
  · have hl : address.bytes.toHex.length = 40 := by
      rw [Bytes.length_toHex, address.length_bytes]
    have hd : (address.digits.map Char.toLower).length = 40 := by
      rw [List.length_map, address.length_digits]
    rw [List.getElem?_eq_none (by omega), List.getElem?_eq_none (by omega)]

/-- Whatever the case of its letters, a text of the digits is read as the bytes of the address. -/
theorem ofHex?_of_map_toLower {address : Address} {spelled : List Char}
    (h : spelled.map Char.toLower = address.digits.map Char.toLower) :
    Bytes.ofHex? spelled = some address.bytes := by
  rw [← Bytes.ofHex?_map_toLower, h, map_toLower_digits, Bytes.ofHex?_toHex]

theorem ofBytes?_bytes (address : Address) : ofBytes? address.bytes = some address :=
  dif_pos address.length_bytes

/-- The text of an address is `0x` and forty digits that are read, in any case, as its bytes. So no
other address has this text, and the address that is read has it again. The digest, which is that of
the lower-case digits, has a half byte for each position; only letters are marked by it. -/
theorem text_checksummed (address : Address) :
    (∃ digits : List Char, address.text = "0x" ++ String.ofList digits ∧ digits.length = 40 ∧
      (∀ spelled : List Char, spelled.map Char.toLower = digits.map Char.toLower →
        Bytes.ofHex? spelled = some address.bytes ∧
        ((Bytes.ofHex? spelled).bind ofBytes?).map text = some address.text) ∧
      ∀ position < 40, ∃ own sum c, address.bytes[position / 2]? = some own ∧
        (Hash.Keccak.hash (Text.Utf8.encode address.bytes.toHex))[position / 2]? = some sum ∧
        digits[position]? = some c ∧ Marked position own sum c) ∧
    ∀ other : Address, other.text = address.text → other = address := by
  have hread : ∀ {spelled : List Char},
      spelled.map Char.toLower = address.digits.map Char.toLower →
      (Bytes.ofHex? spelled).bind ofBytes? = some address := by
    intro spelled h
    rw [ofHex?_of_map_toLower h, Option.bind_some, ofBytes?_bytes]
  refine ⟨⟨address.digits, ?_, address.length_digits, fun spelled h => ⟨ofHex?_of_map_toLower h, ?_⟩,
    fun position h => ?_⟩, fun other h => ?_⟩
  · rw [text, ← String.toList_inj, String.toList_append, String.toList_ofList, String.toList_ofList,
      String.toList_ofList]
    rfl
  · rw [hread h, Option.map_some]
  · obtain ⟨own, sum, hown, hsum, -, hdigit⟩ := address.getElem?_digits h
    exact ⟨own, sum, _, hown, hsum, hdigit, marked_mark position own sum⟩
  · have hd := congrArg String.toList h
    rw [text, text, String.toList_ofList, String.toList_ofList, List.cons.injEq, List.cons.injEq] at hd
    have ho := hread (congrArg (List.map Char.toLower) hd.2.2)
    rw [ofHex?_of_map_toLower rfl, Option.bind_some, ofBytes?_bytes] at ho
    exact Option.some.inj ho

end Address

end ContractPipeline
