import ContractPipeline.Proofs.Json.Literals
import ContractPipeline.Proofs.Json.Numerals

/-! How tokens are written, and that the scanner takes exactly the texts that are tokens with blanks
between them. -/
namespace ContractPipeline.Json

inductive Spells : List Char → Token → Prop
  | openRecord : Spells ['\x7b'] .openRecord
  | closeRecord : Spells ['\x7d'] .closeRecord
  | openList : Spells ['['] .openList
  | closeList : Spells [']'] .closeList
  | colon : Spells [':'] .colon
  | comma : Spells [','] .comma
  | null : Spells ['n', 'u', 'l', 'l'] .null
  | true : Spells ['t', 'r', 'u', 'e'] (.bool true)
  | false : Spells ['f', 'a', 'l', 's', 'e'] (.bool false)
  | number {text : List Char} {numeral : Numeral} (h : SpellsNumeral text numeral) :
      Spells text (.number numeral.isFinite)
  | text {body : List Char} {pieces : List Piece} {s : String} (hb : SpellsPieces body pieces)
      (hd : Denotes pieces s.toList) : Spells ('"' :: (body ++ ['"'])) (.text (some s))
  | broken {body : List Char} {pieces : List Piece} (hb : SpellsPieces body pieces)
      (hd : ∀ chars, ¬ Denotes pieces chars) : Spells ('"' :: (body ++ ['"'])) (.text none)

def NoDigitFirst (text : List Char) : Prop := ∀ c ∈ text.head?, c.isDigit = false

/-- Tokens with blanks around them. A number takes all digits that follow it. -/
inductive Spaced : List Char → List Token → Prop
  | nil : Spaced [] []
  | blank {c : Char} {text : List Char} {tokens : List Token}
      (hc : c = ' ' ∨ c = '\t' ∨ c = '\n' ∨ c = '\r') (h : Spaced text tokens) :
      Spaced (c :: text) tokens
  | token {word text : List Char} {token : Token} {tokens : List Token} (hw : Spells word token)
      (hn : ∀ isFinite, token = .number isFinite → NoDigitFirst text) (h : Spaced text tokens) :
      Spaced (word ++ text) (token :: tokens)

theorem Spaced.cons {c : Char} {text : List Char} {token : Token} {tokens : List Token}
    (hw : Spells [c] token) (hn : ∀ isFinite, token ≠ .number isFinite) (h : Spaced text tokens) :
    Spaced (c :: text) (token :: tokens) :=
  .token hw (fun isFinite ht => absurd ht (hn isFinite)) h

open Literal (add)

theorem spells_literal {body : List Char} {pieces : List Piece} (hb : SpellsPieces body pieces) :
    Spells ('"' :: (body ++ ['"'])) (.text (pieces.foldl add .empty).text?) := by
  cases ht : (pieces.foldl add .empty).text? with
  | some s => exact .text hb (Literal.text?_foldl_empty_iff.mp ht)
  | none => exact .broken hb (Literal.text?_foldl_empty_eq_none_iff.mp ht)

namespace Scanner

/-- The tokens of a text from where a scanner stands, if it leaves none incomplete. -/
def tokens? : Scanner → List Char → Option (List Token)
  | scanner, [] =>
    match scanner.ending with
    | .clean => some []
    | .number isFinite => some [.number isFinite]
    | .partWord | .partNumber | .partText _ => none
  | scanner, c :: rest =>
    let scanned := scanner.feed c
    scanned.scanner?.bind fun next => (tokens? next rest).map (scanned.tokens ++ ·)

variable {scanner next : Scanner} {c : Char} {text rest : List Char} {tokens more : List Token}
  {token : Token} {literal : Literal} {reader : NumeralReader}

theorem tokens?_cons_into (hf : scanner.feed c = .into next) :
    tokens? scanner (c :: text) = tokens? next text := by
  simp [tokens?, hf, Scanned.into]

theorem tokens?_cons_done (hf : scanner.feed c = .done token) :
    tokens? scanner (c :: text) = (tokens? .between text).map (token :: ·) := by
  simp [tokens?, hf, Scanned.done]

/-- Before a character that does not belong to it, a complete numeral is a token. -/
theorem tokens?_numeral_end (hf : reader.feed c = none) (he : reader.endsBefore c = true) :
    tokens? (.numeral reader) (c :: text) =
      (tokens? .between (c :: text)).map (.number reader.numeral.isFinite :: ·) := by
  have hr : feedNumeral reader c =
      ⟨.number reader.numeral.isFinite :: (feedBetween c).tokens, (feedBetween c).scanner?⟩ := by
    simp [feedNumeral, hf, he]
  simp only [tokens?, feed, hr]
  cases (feedBetween c).scanner? with
  | none => rfl
  | some next => simp [Function.comp_def]

theorem feed_between_digit (hc : c.isDigit = true) :
    feed .between c = .into (.numeral (.ofDigit c)) := by
  change feedBetween c = _
  unfold feedBetween
  split
  case h_12 => rw [if_pos hc]
  all_goals cases hc

theorem feed_between_blank (hc : c = ' ' ∨ c = '\t' ∨ c = '\n' ∨ c = '\r') :
    feed .between c = .into .between := by
  rcases hc with rfl | rfl | rfl | rfl
  · rfl
  · rfl
  · rfl
  · rfl

/-- Where tokens are due, none begins with what may continue a numeral. -/
theorem feed_eq_none_of_tokens? (hr : reader.phase.isComplete = true) (hc : c.isDigit = false)
    (ht : tokens? .between (c :: text) = some tokens) : reader.feed c = none := by
  apply NumeralReader.feed_eq_none hr hc
  · rintro rfl
    cases ht
  · rintro rfl
    cases ht
  · rintro rfl
    cases ht

theorem tokens?_numeral {numeral : Numeral} {word : List Char} (hw : reader.Finishes word numeral)
    (hn : NoDigitFirst text) (ht : tokens? .between text = some tokens) :
    tokens? (.numeral reader) (word ++ text) = some (.number numeral.isFinite :: tokens) := by
  -- On what is left of the numeral. At its end, what follows keeps the reader from going on.
  induction word generalizing reader with
  | nil =>
    obtain ⟨phase, read⟩ := reader
    obtain ⟨hr, rfl⟩ := NumeralReader.finishes_nil.mp hw
    cases text with
    | nil =>
      cases ht
      simp [tokens?, ending, hr]
    | cons c text =>
      have hc := hn c rfl
      have hf := @feed_eq_none_of_tokens? c text tokens ⟨phase, numeral⟩ hr hc ht
      have he := @NumeralReader.endsBefore_of_isComplete ⟨phase, numeral⟩ c hr hc
      rw [List.nil_append, tokens?_numeral_end hf he, ht, Option.map_some]
  | cons c word ih =>
    obtain ⟨next, hf, hw⟩ := NumeralReader.finishes_cons.mp hw
    have hr : feed (.numeral reader) c = .into (.numeral next) := by simp [feed, feedNumeral, hf]
    rw [List.cons_append, tokens?_cons_into hr, ih hw]

theorem length_encodeChar_of_hexValue? {n : Nat} (h : Bytes.hexValue? c = some n) :
    (Text.Utf8.encodeChar c).length = 1 := by
  have hc : c.toNat < 0x80 := by
    simp only [Bytes.hexValue?, Char.le_def, UInt32.le_iff_toNat_le] at h
    change c.val.toNat < 0x80
    split_ifs at h with h1 h2 h3
    · exact Nat.lt_of_le_of_lt h1.2 (by decide)
    · exact Nat.lt_of_le_of_lt h2.2 (by decide)
    · exact Nat.lt_of_le_of_lt h3.2 (by decide)
  simp [Text.Utf8.encodeChar, hc]

theorem tokens?_unit {digits : List Char} {n : Nat} (hu : SpellsUnit digits n) :
    tokens? (.unit literal []) (digits ++ text) = tokens? (.text (literal.pushUnit n)) text := by
  obtain @⟨a, b, c, d, p, q, r, s, ha, hb, hc, hd⟩ := hu
  have la := length_encodeChar_of_hexValue? ha
  have lb := length_encodeChar_of_hexValue? hb
  have lc := length_encodeChar_of_hexValue? hc
  have ld := length_encodeChar_of_hexValue? hd
  have h1 : feed (.unit literal []) a = .into (.unit literal [a]) := by
    simp [feed, feedUnit, Text.Utf8.encode, la]
  have h2 : feed (.unit literal [a]) b = .into (.unit literal [b, a]) := by
    simp [feed, feedUnit, Text.Utf8.encode, la, lb]
  have h3 : feed (.unit literal [b, a]) c = .into (.unit literal [c, b, a]) := by
    simp [feed, feedUnit, Text.Utf8.encode, la, lb, lc]
  have hv : unitValue? [d, c, b, a] = some (4096 * p + 256 * q + 16 * r + s) := by
    simp [unitValue?, ha, hb, hc, hd]
  have h4 : feed (.unit literal [c, b, a]) d =
      .into (.text (literal.pushUnit (4096 * p + 256 * q + 16 * r + s))) := by
    simp [feed, feedUnit, Text.Utf8.encode, la, lb, lc, ld, hv]
  simp only [List.cons_append, List.nil_append]
  rw [tokens?_cons_into h1, tokens?_cons_into h2, tokens?_cons_into h3, tokens?_cons_into h4]

theorem feed_escape_short {d : Char} (h : ShortEscape c d) :
    feed (.escape literal) c = .into (.text (literal.push d)) := by
  cases h <;> rfl

theorem tokens?_piece {word : List Char} {piece : Piece} (hp : SpellsPiece word piece) :
    tokens? (.text literal) (word ++ text) = tokens? (.text (literal.add piece)) text := by
  have he : feed (.text literal) '\\' = .into (.escape literal) := rfl
  cases hp with
  | raw hq hb hc =>
    apply tokens?_cons_into
    have hc := Nat.not_lt.mpr hc
    simp [feed, feedText, hq, hb, hc, Literal.add]
  | short h =>
    simp only [List.cons_append, List.nil_append]
    rw [tokens?_cons_into he, tokens?_cons_into (feed_escape_short h)]
    rfl
  | unit h =>
    have hu : feed (.escape literal) 'u' = .into (.unit literal []) := rfl
    simp only [List.cons_append]
    rw [tokens?_cons_into he, tokens?_cons_into hu, tokens?_unit h]
    rfl

theorem tokens?_pieces {body : List Char} {pieces : List Piece} (hb : SpellsPieces body pieces) :
    tokens? (.text literal) (body ++ '"' :: text) =
      (tokens? .between text).map (.text (pieces.foldl add literal).text? :: ·) := by
  induction hb generalizing literal with
  | nil => exact tokens?_cons_done rfl
  | cons hp _ ih => rw [List.append_assoc, tokens?_piece hp, ih, List.foldl_cons]

theorem tokens?_due {due : List Char} (hne : due ≠ []) :
    tokens? (.word token due) (due ++ text) = (tokens? .between text).map (token :: ·) := by
  induction due with
  | nil => exact absurd rfl hne
  | cons c due ih =>
    cases due with
    | nil => exact tokens?_cons_done (if_pos rfl)
    | cons d due =>
      have hf : feed (.word token (c :: d :: due)) c = .into (.word token (d :: due)) := if_pos rfl
      rw [List.cons_append, tokens?_cons_into hf, ih (List.cons_ne_nil d due)]

theorem tokens?_spelled {word : List Char} (hw : Spells word token)
    (hn : ∀ isFinite, token = .number isFinite → NoDigitFirst text)
    (ht : tokens? .between text = some tokens) :
    tokens? .between (word ++ text) = some (token :: tokens) := by
  have hq : feed .between '"' = .into (.text .empty) := rfl
  cases hw with
  | openRecord | closeRecord | openList | closeList | colon | comma =>
    exact (tokens?_cons_done rfl).trans (congrArg _ ht)
  | null =>
    have hf : feed .between 'n' = .into (.word .null ['u', 'l', 'l']) := rfl
    exact (tokens?_cons_into hf).trans ((tokens?_due (List.cons_ne_nil _ _)).trans (congrArg _ ht))
  | true =>
    have hf : feed .between 't' = .into (.word (.bool true) ['r', 'u', 'e']) := rfl
    exact (tokens?_cons_into hf).trans ((tokens?_due (List.cons_ne_nil _ _)).trans (congrArg _ ht))
  | false =>
    have hf : feed .between 'f' = .into (.word (.bool false) ['a', 'l', 's', 'e']) := rfl
    exact (tokens?_cons_into hf).trans ((tokens?_due (List.cons_ne_nil _ _)).trans (congrArg _ ht))
  | number h =>
    have hd := hn _ rfl
    cases h with
    | positive h =>
      obtain ⟨c, rest, rfl, hc⟩ := h.exists_cons
      rw [List.cons_append, tokens?_cons_into (feed_between_digit hc),
        tokens?_numeral ((NumeralReader.finishes_ofDigit hc).mpr h) hd ht]
    | negative h =>
      have hf : feed .between '-' = .into (.numeral .negative) := rfl
      rw [List.cons_append, tokens?_cons_into hf,
        tokens?_numeral (NumeralReader.finishes_negative.mpr h) hd ht]
  | text hb hd =>
    have hs := Literal.text?_foldl_empty_iff.mpr hd
    rw [List.cons_append, tokens?_cons_into hq, List.append_assoc, List.singleton_append,
      tokens?_pieces hb, hs, ht, Option.map_some]
  | broken hb hd =>
    have hs := Literal.text?_foldl_empty_eq_none_iff.mpr hd
    rw [List.cons_append, tokens?_cons_into hq, List.append_assoc, List.singleton_append,
      tokens?_pieces hb, hs, ht, Option.map_some]

theorem tokens?_of_spaced (h : Spaced text tokens) : tokens? .between text = some tokens := by
  induction h with
  | nil => rfl
  | blank hc _ ih => rw [tokens?_cons_into (feed_between_blank hc), ih]
  | token hw hn _ ih => exact tokens?_spelled hw hn ih

def LeadsText (literal : Literal) (text : List Char) (tokens : List Token) : Prop :=
  ∃ body pieces rest more, text = body ++ '"' :: rest ∧ SpellsPieces body pieces ∧
    tokens = .text (pieces.foldl add literal).text? :: more ∧ Spaced rest more

/-- What a text is that leads a scanner to these tokens: the rest of the token where it stands, and
then whole tokens. -/
def Leads : Scanner → List Char → List Token → Prop
  | .between, text, tokens => Spaced text tokens
  | .word token due, text, tokens =>
    ∃ rest more, text = due ++ rest ∧ tokens = token :: more ∧ Spaced rest more
  | .numeral reader, text, tokens =>
    ∃ word rest numeral more, text = word ++ rest ∧ reader.Finishes word numeral ∧
      NoDigitFirst rest ∧ tokens = .number numeral.isFinite :: more ∧ Spaced rest more
  | .text literal, text, tokens => LeadsText literal text tokens
  | .escape literal, text, tokens =>
    ∃ word piece rest, text = word ++ rest ∧ SpellsPiece ('\\' :: word) piece ∧
      LeadsText (literal.add piece) rest tokens
  | .unit literal digits, text, tokens =>
    ∃ word n rest, text = word ++ rest ∧ SpellsUnit (digits.reverse ++ word) n ∧
      LeadsText (literal.pushUnit n) rest tokens

theorem LeadsText.cons {word : List Char} {piece : Piece} (hp : SpellsPiece word piece)
    (h : LeadsText (literal.add piece) text tokens) : LeadsText literal (word ++ text) tokens := by
  obtain ⟨body, pieces, rest, more, rfl, hb, rfl, hs⟩ := h
  exact ⟨word ++ body, piece :: pieces, rest, more, by simp, .cons hp hb, rfl, hs⟩

theorem spellsUnit_of_unitValue? {digits : List Char} {n : Nat} (h : unitValue? digits = some n) :
    SpellsUnit digits.reverse n := by
  unfold unitValue? at h
  split at h
  · simp only [Option.bind_eq_bind, Option.bind_eq_some_iff, Option.pure_def,
      Option.some.injEq] at h
    obtain ⟨p, hp, q, hq, r, hr, s, hs, rfl⟩ := h
    exact .mk hp hq hr hs
  · cases h

section Step

/-! What a text is that leads on is known one character earlier: one lemma for each place where the
character may stand, with the cases of the scanner there. -/

variable {produced : List Token}

theorem spaced_cons (hf : feedBetween c = ⟨produced, some next⟩) (h : Leads next text tokens) :
    Spaced (c :: text) (produced ++ tokens) := by
  -- A sign is a token by itself; of all others, the rest is what the scanner still leads to.
  unfold feedBetween at hf
  split at hf
  case h_1 =>
    cases hf
    exact h.cons .openRecord nofun
  case h_2 =>
    cases hf
    exact h.cons .closeRecord nofun
  case h_3 =>
    cases hf
    exact h.cons .openList nofun
  case h_4 =>
    cases hf
    exact h.cons .closeList nofun
  case h_5 =>
    cases hf
    exact h.cons .colon nofun
  case h_6 =>
    cases hf
    exact h.cons .comma nofun
  case h_7 =>
    cases hf
    obtain ⟨rest, more, rfl, rfl, hs⟩ := h
    exact .token .null nofun hs
  case h_8 =>
    cases hf
    obtain ⟨rest, more, rfl, rfl, hs⟩ := h
    exact .token .true nofun hs
  case h_9 =>
    cases hf
    obtain ⟨rest, more, rfl, rfl, hs⟩ := h
    exact .token .false nofun hs
  case h_10 =>
    cases hf
    obtain ⟨body, pieces, rest, more, rfl, hb, rfl, hs⟩ := h
    have ht := Spaced.token (spells_literal hb) nofun hs
    simpa using ht
  case h_11 =>
    cases hf
    obtain ⟨word, rest, numeral, more, rfl, hw, hn, rfl, hs⟩ := h
    have hw := NumeralReader.finishes_negative.mp hw
    exact .token (.number (.negative hw)) (fun _ _ => hn) hs
  case h_12 =>
    split_ifs at hf with hc hb
    · cases hf
      obtain ⟨word, rest, numeral, more, rfl, hw, hn, rfl, hs⟩ := h
      have hw := (NumeralReader.finishes_ofDigit hc).mp hw
      exact .token (.number (.positive hw)) (fun _ _ => hn) hs
    · cases hf
      exact .blank (by simpa [isBlank, or_assoc] using hb) h
    · cases hf

theorem leadsText_cons (hf : feedText literal c = ⟨produced, some next⟩)
    (h : Leads next text tokens) : LeadsText literal (c :: text) (produced ++ tokens) := by
  unfold feedText at hf
  split_ifs at hf with hq hb hc
  · cases hf
    exact ⟨[], [], text, tokens, congrArg (· :: text) hq, .nil, rfl, h⟩
  · cases hf
    obtain ⟨word, piece, rest, rfl, hp, h⟩ := h
    exact hb ▸ h.cons hp
  · cases hf
  · cases hf
    have hp : SpellsPiece [c] (.char c) := .raw hq hb (Nat.not_lt.mp hc)
    exact LeadsText.cons hp h

theorem leads_word_cons {due : List Char} (hf : feedWord token c due = ⟨produced, some next⟩)
    (h : Leads next text tokens) : Leads (.word token due) (c :: text) (produced ++ tokens) := by
  unfold feedWord at hf
  split at hf
  · cases hf
  · split_ifs at hf with hc
    · cases hf
      exact ⟨text, tokens, congrArg (· :: text) hc, rfl, h⟩
    · cases hf
  · split_ifs at hf with hc
    · cases hf
      obtain ⟨rest, more, rfl, rfl, hs⟩ := h
      exact ⟨rest, more, congrArg (· :: _) hc, rfl, hs⟩
    · cases hf

theorem leads_numeral_cons (hf : feedNumeral reader c = ⟨produced, some next⟩)
    (h : Leads next text tokens) : Leads (.numeral reader) (c :: text) (produced ++ tokens) := by
  unfold feedNumeral at hf
  split at hf
  case h_1 hr =>
    cases hf
    obtain ⟨word, rest, numeral, more, rfl, hw, hn, rfl, hs⟩ := h
    exact ⟨c :: word, rest, numeral, more, rfl, NumeralReader.finishes_cons.mpr ⟨_, hr, hw⟩, hn,
      rfl, hs⟩
  case h_2 hr =>
    split_ifs at hf with he
    · obtain ⟨rfl, hb⟩ := Scanned.mk.inj hf
      have hs := spaced_cons (congrArg (Scanned.mk _) hb) h
      have hc := NumeralReader.isDigit_eq_false hr he
      have hw : reader.Finishes [] reader.numeral :=
        NumeralReader.finishes_nil.mpr ⟨(Bool.and_eq_true_iff.mp he).1, rfl⟩
      exact ⟨[], c :: text, reader.numeral, _, rfl, hw, by simpa [NoDigitFirst] using hc, rfl, hs⟩
    · cases hf

theorem leads_escape_cons (hf : feedEscape literal c = ⟨produced, some next⟩)
    (h : Leads next text tokens) : Leads (.escape literal) (c :: text) (produced ++ tokens) := by
  unfold feedEscape at hf
  split at hf
  case h_1 =>
    cases hf
    exact ⟨['"'], _, text, rfl, .short .quote, h⟩
  case h_2 =>
    cases hf
    exact ⟨['\\'], _, text, rfl, .short .backslash, h⟩
  case h_3 =>
    cases hf
    exact ⟨['/'], _, text, rfl, .short .slash, h⟩
  case h_4 =>
    cases hf
    exact ⟨['b'], _, text, rfl, .short .backspace, h⟩
  case h_5 =>
    cases hf
    exact ⟨['f'], _, text, rfl, .short .formFeed, h⟩
  case h_6 =>
    cases hf
    exact ⟨['n'], _, text, rfl, .short .lineFeed, h⟩
  case h_7 =>
    cases hf
    exact ⟨['r'], _, text, rfl, .short .carriageReturn, h⟩
  case h_8 =>
    cases hf
    exact ⟨['t'], _, text, rfl, .short .tab, h⟩
  case h_9 =>
    cases hf
    obtain ⟨word, n, rest, rfl, hu, h⟩ := h
    exact ⟨'u' :: word, .unit n, rest, rfl, .unit hu, h⟩
  case h_10 => cases hf

theorem leads_unit_cons {digits : List Char}
    (hf : feedUnit literal digits c = ⟨produced, some next⟩) (h : Leads next text tokens) :
    Leads (.unit literal digits) (c :: text) (produced ++ tokens) := by
  unfold feedUnit at hf
  dsimp only at hf
  split_ifs at hf with hl
  · cases hf
    obtain ⟨word, n, rest, rfl, hu, h⟩ := h
    exact ⟨c :: word, n, rest, rfl, by simpa using hu, h⟩
  · split at hf
    case h_1 n hv =>
      cases hf
      exact ⟨[c], n, text, rfl, by simpa using spellsUnit_of_unitValue? hv, h⟩
    case h_2 => cases hf

theorem leads_cons (hf : scanner.feed c = ⟨produced, some next⟩) (h : Leads next text tokens) :
    Leads scanner (c :: text) (produced ++ tokens) := by
  cases scanner with
  | between => exact spaced_cons hf h
  | word token due => exact leads_word_cons hf h
  | numeral reader => exact leads_numeral_cons hf h
  | text literal => exact leadsText_cons hf h
  | escape literal => exact leads_escape_cons hf h
  | unit literal digits => exact leads_unit_cons hf h

end Step

theorem leads_nil (h : tokens? scanner [] = some tokens) : Leads scanner [] tokens := by
  cases scanner with
  | between =>
    cases h
    exact .nil
  | numeral reader =>
    obtain ⟨phase, read⟩ := reader
    cases hr : phase.isComplete with
    | true =>
      simp only [tokens?, ending, hr, if_true, Option.some.injEq] at h
      exact ⟨[], [], read, [], rfl, NumeralReader.finishes_nil.mpr ⟨hr, rfl⟩, nofun, h.symm, .nil⟩
    | false => simp [tokens?, ending, hr] at h
  | word | text | escape | unit => cases h

theorem leads_of_tokens? (h : tokens? scanner text = some tokens) : Leads scanner text tokens := by
  -- From the end of the text to its beginning, so that each character is one of the steps above.
  induction text generalizing scanner tokens with
  | nil => exact leads_nil h
  | cons c text ih =>
    simp only [tokens?, Option.bind_eq_some_iff, Option.map_eq_some_iff] at h
    obtain ⟨next, hf, more, ht, rfl⟩ := h
    exact leads_cons (congrArg (Scanned.mk _) hf) (ih ht)

/-- The scanner takes exactly the texts that are tokens with blanks around them. -/
theorem tokens?_between_iff : tokens? .between text = some tokens ↔ Spaced text tokens :=
  ⟨leads_of_tokens?, tokens?_of_spaced⟩

end Scanner
end ContractPipeline.Json
