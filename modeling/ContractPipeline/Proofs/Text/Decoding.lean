import ContractPipeline.Proofs.Text.RoundTrip

/-! A byte sequence that is read strictly as a text holds the bytes of that text and no others. -/
namespace ContractPipeline.Text.Utf8

theorem decodeFrom?_cons (state : State) (byte : UInt8) (bytes : Bytes) :
    decodeFrom? state (byte :: bytes) =
      match step byte.toNat state with
      | .char c => (decodeFrom? .between bytes).map (c :: ·)
      | .goOn next => decodeFrom? next bytes
      | .refused => none := by
  cases state <;> rfl

/-- Within a character the end is no end of the text. -/
theorem step_ne_goOn_between (byte : Nat) (state : State) : step byte state ≠ .goOn .between := by
  cases state with
  | between =>
    simp only [step, begin]
    split_ifs <;> simp
  | inside more low high bits =>
    simp only [step, advance]
    split_ifs
    · cases more <;> simp
    · simp

/-- A strict reader that reaches the end has first completed the character in which it stood. -/
theorem exists_spells {state : State} {byte : UInt8} {bytes : Bytes} {text : List Char}
    (h : decodeFrom? state (byte :: bytes) = some text) :
    ∃ word c rest more, byte :: bytes = word ++ rest ∧ Spells state word c ∧ text = c :: more ∧
      decodeFrom? .between rest = some more := by
  -- On the bytes that follow, because a character may take several of them.
  induction bytes generalizing state byte with
  | nil =>
    rw [decodeFrom?_cons] at h
    split at h
    case h_1 c hs =>
      obtain ⟨more, hm, rfl⟩ := Option.map_eq_some_iff.mp h
      exact ⟨[byte], c, [], more, rfl, .last hs, rfl, hm⟩
    case h_2 next hs =>
      cases next with
      | between => exact absurd hs (step_ne_goOn_between _ _)
      | inside => cases h
    case h_3 => cases h
  | cons next bytes ih =>
    rw [decodeFrom?_cons] at h
    split at h
    case h_1 c hs =>
      obtain ⟨more, hm, rfl⟩ := Option.map_eq_some_iff.mp h
      exact ⟨[byte], c, next :: bytes, more, rfl, .last hs, rfl, hm⟩
    case h_2 middle hs =>
      obtain ⟨word, c, rest, more, hb, hw, rfl, hm⟩ := ih h
      exact ⟨byte :: word, c, rest, more, congrArg (byte :: ·) hb, .more hs hw, rfl, hm⟩
    case h_3 => cases h

section Inside

variable {more low high bits : Nat} {word : Bytes} {c : Char}

theorem Spells.exists_last (h : Spells (.inside 0 low high bits) word c) :
    ∃ b : UInt8, word = [b] ∧ low ≤ b.toNat ∧ b.toNat ≤ high ∧
      c = Char.ofNat (64 * bits + (b.toNat - 0x80)) := by
  cases h with
  | @last _ b _ h =>
    simp only [step, advance] at h
    split_ifs at h with hb
    exact ⟨b, rfl, hb.1, hb.2, (Step.char.inj h).symm⟩
  | more h =>
    simp only [step, advance] at h
    split_ifs at h

theorem Spells.exists_more (h : Spells (.inside (more + 1) low high bits) word c) :
    ∃ (b : UInt8) (rest : Bytes), word = b :: rest ∧ low ≤ b.toNat ∧ b.toNat ≤ high ∧
      Spells (.inside more 0x80 0xBF (64 * bits + (b.toNat - 0x80))) rest c := by
  cases h with
  | last h =>
    simp only [step, advance] at h
    split_ifs at h
  | @more _ _ b _ _ h tail =>
    simp only [step, advance] at h
    split_ifs at h with hb
    cases h
    exact ⟨b, _, rfl, hb.1, hb.2, tail⟩

end Inside

/-- The three ways in which a byte begins a longer character. The bounds of the byte after it
exclude what could be written shorter, the surrogates, and what lies beyond the last character. -/
theorem begin_cases {byte : Nat} {next : State} (h : begin byte = .goOn next) :
    (0xC2 ≤ byte ∧ byte < 0xE0 ∧ next = .inside 0 0x80 0xBF (byte - 0xC0)) ∨
    (0xE0 ≤ byte ∧ byte < 0xF0 ∧ ∃ low high, next = .inside 1 low high (byte - 0xE0) ∧
      0x80 ≤ low ∧ high ≤ 0xBF ∧ (byte = 0xE0 → low = 0xA0) ∧ (byte = 0xED → high = 0x9F)) ∨
    (0xF0 ≤ byte ∧ byte < 0xF5 ∧ ∃ low high, next = .inside 2 low high (byte - 0xF0) ∧
      0x80 ≤ low ∧ high ≤ 0xBF ∧ (byte = 0xF0 → low = 0x90) ∧ (byte = 0xF4 → high = 0x8F)) := by
  unfold begin at h
  by_cases h1 : byte < 0x80
  · simp [h1] at h
  by_cases h2 : byte < 0xC2
  · simp [h1, h2] at h
  by_cases h3 : byte < 0xE0
  · simp only [h1, h2, h3, if_true, if_false, Step.goOn.injEq] at h
    exact .inl ⟨by omega, h3, h.symm⟩
  by_cases h4 : byte < 0xF0
  · simp only [h1, h2, h3, h4, if_true, if_false, Step.goOn.injEq] at h
    refine .inr (.inl ⟨by omega, h4, _, _, h.symm, ?_, ?_, (if_pos ·), (if_pos ·)⟩)
    · split <;> omega
    · split <;> omega
  by_cases h5 : byte < 0xF5
  · simp only [h1, h2, h3, h4, h5, if_true, if_false, Step.goOn.injEq] at h
    refine .inr (.inr ⟨by omega, h5, _, _, h.symm, ?_, ?_, (if_pos ·), (if_pos ·)⟩)
    · split <;> omega
    · split <;> omega
  simp [h1, h2, h3, h4, h5] at h

theorem toNat_char {n : Nat} (h : n < 0xD800 ∨ 0xDFFF < n ∧ n < 0x110000) :
    (Char.ofNat n).toNat = n := by
  rw [Char.ofNat, dif_pos h]
  rfl

theorem ofNat_eq {n : Nat} {b : UInt8} (h : n = b.toNat) : UInt8.ofNat n = b := by
  rw [h, UInt8.ofNat_toNat]

theorem encodeChar_of_spells {word : Bytes} {c : Char} (h : Spells .between word c) :
    encodeChar c = word := by
  cases h with
  | @last _ b _ h =>
    simp only [step, begin] at h
    split_ifs at h with h1
    rw [← Step.char.inj h, encodeChar, toNat_char (by omega), if_pos h1, UInt8.ofNat_toNat]
  | @more _ _ b _ _ h tail =>
    rcases begin_cases h with ⟨hl, hh, rfl⟩ | ⟨hl, hh, low, high, rfl, hlow, hhigh, ha, hb⟩ |
      ⟨hl, hh, low, high, rfl, hlow, hhigh, ha, hb⟩
    · obtain ⟨b1, rfl, hl1, hh1, hc⟩ := tail.exists_last
      rw [hc, encodeChar, toNat_char (by omega), if_neg (by omega), if_pos (by omega)]
      rw [@ofNat_eq _ b (by omega), @ofNat_eq _ b1 (by omega)]
    · obtain ⟨b1, rest, rfl, hl1, hh1, tail⟩ := tail.exists_more
      obtain ⟨b2, rfl, hl2, hh2, hc⟩ := tail.exists_last
      rw [hc, encodeChar, toNat_char (by omega), if_neg (by omega), if_neg (by omega),
        if_pos (by omega)]
      rw [@ofNat_eq _ b (by omega), @ofNat_eq _ b1 (by omega), @ofNat_eq _ b2 (by omega)]
    · obtain ⟨b1, rest, rfl, hl1, hh1, tail⟩ := tail.exists_more
      obtain ⟨b2, rest, rfl, hl2, hh2, tail⟩ := tail.exists_more
      obtain ⟨b3, rfl, hl3, hh3, hc⟩ := tail.exists_last
      rw [hc, encodeChar, toNat_char (by omega), if_neg (by omega), if_neg (by omega),
        if_neg (by omega)]
      rw [@ofNat_eq _ b (by omega), @ofNat_eq _ b1 (by omega), @ofNat_eq _ b2 (by omega),
        @ofNat_eq _ b3 (by omega)]

theorem encode_of_decode? {bytes : Bytes} {text : List Char} (h : decode? bytes = some text) :
    encode text = bytes := by
  unfold decode? at h
  induction text generalizing bytes with
  | nil =>
    cases bytes with
    | nil => rfl
    | cons byte bytes =>
      obtain ⟨_, _, _, _, -, -, ht, -⟩ := exists_spells h
      cases ht
  | cons c text ih =>
    cases bytes with
    | nil => cases h
    | cons byte bytes =>
      obtain ⟨word, _, rest, _, hb, hw, ht, hr⟩ := exists_spells h
      cases ht
      rw [encode_cons, encodeChar_of_spells hw, ih hr, hb]

end ContractPipeline.Text.Utf8

namespace ContractPipeline

theorem Bytes.ofString_of_toString? {bytes : Bytes} {s : String} (h : bytes.toString? = some s) :
    Bytes.ofString s = bytes := by
  obtain ⟨text, ht, rfl⟩ := Option.map_eq_some_iff.mp h
  rw [ofString, String.toList_ofList, Text.Utf8.encode_of_decode? ht]

end ContractPipeline
