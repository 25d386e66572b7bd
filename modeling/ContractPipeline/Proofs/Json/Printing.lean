import ContractPipeline.Json.Value
import ContractPipeline.Proofs.Json.Tokens
import ContractPipeline.Proofs.Text.Integers

/-! Both written forms of a value are the same tokens, with blanks between them in the pretty one. -/
namespace ContractPipeline.Json

def Numeral.ofNat (n : Nat) : Numeral :=
  ⟨(Nat.toDigits 10 n).reverse, [], false, []⟩

mutual

def Value.tokens : Value → List Token
  | .null => [.null]
  | .bool b => [.bool b]
  | .number n => [.number (Numeral.ofNat n).isFinite]
  | .text s => [.text (some s)]
  | .list items => .openList :: itemTokens items ++ [.closeList]
  | .record members => .openRecord :: memberTokens members ++ [.closeRecord]

def itemTokens : List Value → List Token
  | [] => []
  | [item] => item.tokens
  | item :: items => item.tokens ++ .comma :: itemTokens items

def memberTokens : List (String × Value) → List Token
  | [] => []
  | [(key, value)] => .text (some key) :: .colon :: value.tokens
  | (key, value) :: members =>
    .text (some key) :: .colon :: value.tokens ++ .comma :: memberTokens members

end

section Digits

theorem spellsWhole_toDigits (n : Nat) : SpellsWhole (Nat.toDigits 10 n) := by
  rcases Nat.eq_zero_or_pos n with rfl | hn
  · exact .zero
  · have hd : AllDigits (Nat.toDigits 10 n) := fun c hc =>
      Nat.isDigit_of_mem_toDigits (by decide) (by decide) hc
    obtain ⟨c, rest, he, h0⟩ := Text.exists_toDigits hn
    rw [he] at hd ⊢
    obtain ⟨hc, hr⟩ := allDigits_cons.mp hd
    exact .digits hc h0 hr

theorem spells_toDigits (n : Nat) :
    Spells (Nat.toDigits 10 n) (.number (Numeral.ofNat n).isFinite) := by
  have hu : SpellsUnsigned (Nat.toDigits 10 n ++ []) (Numeral.ofNat n) :=
    .mk (spellsWhole_toDigits n) (.whole .absent)
  rw [List.append_nil] at hu
  exact .number (.positive hu)

end Digits

section Strings

theorem hexValue?_digitChar {n : Nat} (h : n < 16) : Bytes.hexValue? n.digitChar = some n := by
  have hd : ∀ m < 16, Bytes.hexValue? m.digitChar = some m := by decide
  exact hd n h

/-- A control character is written as its unit. -/
theorem spellsUnit_control {n : Nat} (h : n < 0x20) :
    SpellsUnit ['0', '0', (n / 16).digitChar, (n % 16).digitChar] n := by
  have hz : Bytes.hexValue? '0' = some 0 := by decide
  have hu := SpellsUnit.mk hz hz (hexValue?_digitChar (by omega : n / 16 < 16))
    (hexValue?_digitChar (by omega : n % 16 < 16))
  have he : 4096 * 0 + 256 * 0 + 16 * (n / 16) + n % 16 = n := by omega
  rwa [he] at hu

theorem denotes_char (c : Char) : Denotes [.char c] [c] := .char .nil

theorem spellsPiece_escapeChar (c : Char) :
    ∃ piece, SpellsPiece (escapeChar c) piece ∧ Denotes [piece] [c] := by
  unfold escapeChar
  split
  case h_1 => exact ⟨_, .short .quote, denotes_char _⟩
  case h_2 => exact ⟨_, .short .backslash, denotes_char _⟩
  case h_3 => exact ⟨_, .short .backspace, denotes_char _⟩
  case h_4 => exact ⟨_, .short .formFeed, denotes_char _⟩
  case h_5 => exact ⟨_, .short .lineFeed, denotes_char _⟩
  case h_6 => exact ⟨_, .short .carriageReturn, denotes_char _⟩
  case h_7 => exact ⟨_, .short .tab, denotes_char _⟩
  case h_8 hq hb _ _ _ _ _ =>
    split_ifs with hc
    · refine ⟨.unit c.toNat, .unit (spellsUnit_control hc), ?_⟩
      have hh : Literal.isHigh c.toNat = false := by simp [Literal.isHigh]; omega
      have hl : Literal.isLow c.toNat = false := by simp [Literal.isLow]; omega
      have hd := Denotes.unit hh hl .nil
      rwa [Char.ofNat_toNat] at hd
    · exact ⟨.char c, .raw hq hb (Nat.le_of_not_lt hc), denotes_char c⟩

theorem spellsPieces_flatMap (text : List Char) :
    ∃ pieces, SpellsPieces (text.flatMap escapeChar) pieces ∧ Denotes pieces text := by
  induction text with
  | nil => exact ⟨[], .nil, .nil⟩
  | cons c text ih =>
    obtain ⟨piece, hp, hd⟩ := spellsPiece_escapeChar c
    obtain ⟨pieces, hs, hm⟩ := ih
    exact ⟨piece :: pieces, .cons hp hs, hd.append hm⟩

theorem spells_writeText (s : String) : Spells (writeText s) (.text (some s)) := by
  obtain ⟨pieces, hb, hd⟩ := spellsPieces_flatMap s.toList
  exact .text hb hd

theorem spells_writeBool (b : Bool) : Spells (writeBool b) (.bool b) := by
  cases b with
  | true => exact .true
  | false => exact .false

end Strings

section Layout

variable {rest : List Char} {more : List Token}

theorem noDigitFirst_nil : NoDigitFirst [] := nofun

theorem noDigitFirst_cons {c : Char} (hc : c.isDigit = false) : NoDigitFirst (c :: rest) := by
  intro d hd
  cases hd
  exact hc

theorem Spaced.append {word : List Char} {token : Token} (hw : Spells word token)
    (hn : NoDigitFirst rest) (h : Spaced rest more) : Spaced (word ++ rest) (token :: more) :=
  .token hw (fun _ _ => hn) h

/-- A string and the colon after it. -/
theorem spaced_key (key : String) (h : Spaced rest more) :
    Spaced (writeText key ++ ':' :: rest) (.text (some key) :: .colon :: more) :=
  .token (spells_writeText key) nofun (h.cons .colon nofun)

mutual

theorem spaced_compact (value : Value) {rest : List Char} {more : List Token}
    (hn : NoDigitFirst rest) (h : Spaced rest more) :
    Spaced (compact value ++ rest) (value.tokens ++ more) := by
  cases value with
  | null => exact .append .null hn h
  | bool b => exact .append (spells_writeBool b) hn h
  | number n => exact .append (spells_toDigits n) hn h
  | text s => exact .append (spells_writeText s) hn h
  | list items =>
    have hi := spaced_compactItems items (noDigitFirst_cons rfl) (h.cons .closeList nofun)
    simpa [compact, Value.tokens] using hi.cons .openList nofun
  | record members =>
    have hm := spaced_compactMembers members (noDigitFirst_cons rfl) (h.cons .closeRecord nofun)
    simpa [compact, Value.tokens] using hm.cons .openRecord nofun

theorem spaced_compactItems (items : List Value) {rest : List Char} {more : List Token}
    (hn : NoDigitFirst rest) (h : Spaced rest more) :
    Spaced (compactItems items ++ rest) (itemTokens items ++ more) := by
  match items with
  | [] => exact h
  | [item] => exact spaced_compact item hn h
  | item :: next :: items =>
    have hi := spaced_compactItems (next :: items) hn h
    have hs := spaced_compact item (noDigitFirst_cons rfl) (hi.cons .comma nofun)
    simpa [compactItems, itemTokens] using hs

theorem spaced_compactMembers (members : List (String × Value)) {rest : List Char}
    {more : List Token} (hn : NoDigitFirst rest) (h : Spaced rest more) :
    Spaced (compactMembers members ++ rest) (memberTokens members ++ more) := by
  match members with
  | [] => exact h
  | [(key, value)] =>
    have hs := spaced_key key (spaced_compact value hn h)
    simpa [compactMembers, memberTokens] using hs
  | (key, value) :: next :: members =>
    have hm := spaced_compactMembers (next :: members) hn h
    have hs := spaced_key key (spaced_compact value (noDigitFirst_cons rfl) (hm.cons .comma nofun))
    simpa [compactMembers, memberTokens] using hs

end

theorem spaced_newline (level : Nat) (h : Spaced rest more) : Spaced (newline level ++ rest) more := by
  have hb : ∀ n, Spaced (List.replicate n ' ' ++ rest) more := by
    intro n
    induction n with
    | zero => exact h
    | succ n ih => exact .blank (.inl rfl) ih
  exact .blank (by simp) (hb _)

theorem noDigitFirst_newline (level : Nat) : NoDigitFirst (newline level ++ rest) :=
  noDigitFirst_cons rfl

mutual

theorem spaced_pretty (value : Value) (level : Nat) {rest : List Char} {more : List Token}
    (hn : NoDigitFirst rest) (h : Spaced rest more) :
    Spaced (pretty level value ++ rest) (value.tokens ++ more) := by
  match value with
  | .null => exact .append .null hn h
  | .bool b => exact .append (spells_writeBool b) hn h
  | .number n => exact .append (spells_toDigits n) hn h
  | .text s => exact .append (spells_writeText s) hn h
  | .list [] => exact (h.cons .closeList nofun).cons .openList nofun
  | .list (item :: items) =>
    have hl := spaced_newline level (h.cons .closeList nofun)
    have hi := spaced_prettyItems (item :: items) (level + 1) (noDigitFirst_newline level) hl
    simpa [pretty, Value.tokens] using hi.cons .openList nofun
  | .record [] => exact (h.cons .closeRecord nofun).cons .openRecord nofun
  | .record (m :: members) =>
    have hl := spaced_newline level (h.cons .closeRecord nofun)
    have hm := spaced_prettyMembers (m :: members) (level + 1) (noDigitFirst_newline level) hl
    simpa [pretty, Value.tokens] using hm.cons .openRecord nofun

theorem spaced_prettyItems (items : List Value) (level : Nat) {rest : List Char}
    {more : List Token} (hn : NoDigitFirst rest) (h : Spaced rest more) :
    Spaced (prettyItems level items ++ rest) (itemTokens items ++ more) := by
  match items with
  | [] => exact h
  | [item] =>
    have hs := spaced_newline level (spaced_pretty item level hn h)
    simpa [prettyItems, itemTokens] using hs
  | item :: next :: items =>
    have hi := spaced_prettyItems (next :: items) level hn h
    have hs := spaced_pretty item level (noDigitFirst_cons rfl) (hi.cons .comma nofun)
    simpa [prettyItems, itemTokens] using spaced_newline level hs

theorem spaced_prettyMembers (members : List (String × Value)) (level : Nat) {rest : List Char}
    {more : List Token} (hn : NoDigitFirst rest) (h : Spaced rest more) :
    Spaced (prettyMembers level members ++ rest) (memberTokens members ++ more) := by
  match members with
  | [] => exact h
  | [(key, value)] =>
    have hv := spaced_pretty value level hn h
    have hs := spaced_key key (.blank (.inl rfl) hv)
    simpa [prettyMembers, memberTokens] using spaced_newline level hs
  | (key, value) :: next :: members =>
    have hm := spaced_prettyMembers (next :: members) level hn h
    have hv := spaced_pretty value level (noDigitFirst_cons rfl) (hm.cons .comma nofun)
    have hs := spaced_key key (.blank (.inl rfl) hv)
    simpa [prettyMembers, memberTokens] using spaced_newline level hs

end

end Layout

theorem spaced_toCompact (value : Value) : Spaced value.toCompact.toList value.tokens := by
  have h := spaced_compact value noDigitFirst_nil .nil
  simpa [Value.toCompact] using h

/-- The pretty form of a value has its tokens, also at the end of a line. -/
theorem spaced_toPretty (value : Value) {rest : List Char} (hn : NoDigitFirst rest)
    (h : Spaced rest []) : Spaced (value.toPretty.toList ++ rest) value.tokens := by
  have hs := spaced_pretty value 0 hn h
  simpa [Value.toPretty] using hs

end ContractPipeline.Json
