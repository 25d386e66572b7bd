import Mathlib.Logic.Basic
import ContractPipeline.Json.Scanner

/-! What JSON strings stand for. A string is a sequence of characters and of units of sixteen bits,
and has a text if its surrogate units come in pairs. -/
namespace ContractPipeline.Json

/-- What one place of a string gives: a character, or a unit of sixteen bits. -/
inductive Piece
  | char (c : Char)
  | unit (n : Nat)

inductive ShortEscape : Char → Char → Prop
  | quote : ShortEscape '"' '"'
  | backslash : ShortEscape '\\' '\\'
  | slash : ShortEscape '/' '/'
  | backspace : ShortEscape 'b' '\x08'
  | formFeed : ShortEscape 'f' '\x0c'
  | lineFeed : ShortEscape 'n' '\n'
  | carriageReturn : ShortEscape 'r' '\r'
  | tab : ShortEscape 't' '\t'

/-- Four hexadecimal digits, in reading order, with their number. -/
inductive SpellsUnit : List Char → Nat → Prop
  | mk {a b c d : Char} {p q r s : Nat} (ha : Bytes.hexValue? a = some p)
      (hb : Bytes.hexValue? b = some q) (hc : Bytes.hexValue? c = some r)
      (hd : Bytes.hexValue? d = some s) : SpellsUnit [a, b, c, d] (4096 * p + 256 * q + 16 * r + s)

/-- A piece as it is written: a character as it is, if it is no control, or an escape. -/
inductive SpellsPiece : List Char → Piece → Prop
  | raw {c : Char} (hq : c ≠ '"') (hb : c ≠ '\\') (hc : 0x20 ≤ c.toNat) :
      SpellsPiece [c] (.char c)
  | short {c d : Char} (h : ShortEscape c d) : SpellsPiece ['\\', c] (.char d)
  | unit {digits : List Char} {n : Nat} (h : SpellsUnit digits n) :
      SpellsPiece ('\\' :: 'u' :: digits) (.unit n)

inductive SpellsPieces : List Char → List Piece → Prop
  | nil : SpellsPieces [] []
  | cons {text rest : List Char} {piece : Piece} {pieces : List Piece}
      (hp : SpellsPiece text piece) (hs : SpellsPieces rest pieces) :
      SpellsPieces (text ++ rest) (piece :: pieces)

open Literal (isHigh isLow pair)

/-- The characters that pieces stand for. No unit of a surrogate pair stands alone. -/
inductive Denotes : List Piece → List Char → Prop
  | nil : Denotes [] []
  | char {c : Char} {pieces : List Piece} {chars : List Char} (h : Denotes pieces chars) :
      Denotes (.char c :: pieces) (c :: chars)
  | unit {n : Nat} {pieces : List Piece} {chars : List Char} (hh : isHigh n = false)
      (hl : isLow n = false) (h : Denotes pieces chars) :
      Denotes (.unit n :: pieces) (Char.ofNat n :: chars)
  | pair {high low : Nat} {pieces : List Piece} {chars : List Char} (hh : isHigh high = true)
      (hl : isLow low = true) (h : Denotes pieces chars) :
      Denotes (.unit high :: .unit low :: pieces) (pair high low :: chars)

theorem Denotes.append {pieces more : List Piece} {chars rest : List Char}
    (h : Denotes pieces chars) (hm : Denotes more rest) :
    Denotes (pieces ++ more) (chars ++ rest) := by
  induction h with
  | nil => exact hm
  | char _ ih => exact .char ih
  | unit hh hl _ ih => exact .unit hh hl ih
  | pair hh hl _ ih => exact .pair hh hl ih

theorem denotes_nil_iff {chars : List Char} : Denotes [] chars ↔ chars = [] := by
  constructor
  · rintro ⟨⟩
    rfl
  · rintro rfl
    exact .nil

theorem denotes_char_iff {c : Char} {pieces : List Piece} {chars : List Char} :
    Denotes (.char c :: pieces) chars ↔ ∃ rest, Denotes pieces rest ∧ c :: rest = chars := by
  constructor
  · rintro (_ | h)
    exact ⟨_, h, rfl⟩
  · rintro ⟨rest, h, rfl⟩
    exact .char h

theorem denotes_unit_iff {n : Nat} {pieces : List Piece} {chars : List Char}
    (hh : isHigh n = false) :
    Denotes (.unit n :: pieces) chars ↔
      isLow n = false ∧ ∃ rest, Denotes pieces rest ∧ Char.ofNat n :: rest = chars := by
  constructor
  · intro h
    cases h with
    | unit _ hl h => exact ⟨hl, _, h, rfl⟩
    | pair hn _ _ => cases hh.symm.trans hn
  · rintro ⟨hl, rest, h, rfl⟩
    exact .unit hh hl h

theorem denotes_high_iff {high : Nat} {pieces : List Piece} {chars : List Char}
    (hh : isHigh high = true) :
    Denotes (.unit high :: pieces) chars ↔
      ∃ low more rest, pieces = .unit low :: more ∧ isLow low = true ∧ Denotes more rest ∧
        pair high low :: rest = chars := by
  constructor
  · intro h
    cases h with
    | unit hn _ _ => cases hh.symm.trans hn
    | pair _ hl h => exact ⟨_, _, _, rfl, hl, h, rfl⟩
  · rintro ⟨low, more, rest, rfl, hl, h, rfl⟩
    exact .pair hh hl h

namespace Literal

def add (literal : Literal) : Piece → Literal
  | .char c => literal.push c
  | .unit n => literal.pushUnit n

variable {chars : List Char} {pieces : List Piece}

theorem broken_foldl_add {literal : Literal} (hb : literal.broken = true) :
    (pieces.foldl add literal).broken = true := by
  induction pieces generalizing literal with
  | nil => exact hb
  | cons piece pieces ih =>
    apply ih
    cases piece with
    | char c => simp [add, push, hb]
    | unit n =>
      simp only [add, pushUnit]
      split
      · split
        · exact hb
        · rfl
      · split
        · exact hb
        · split
          · rfl
          · simp [push, hb]

theorem text?_foldl_of_broken {literal : Literal} (hb : literal.broken = true) :
    (pieces.foldl add literal).text? = none := by
  rw [text?, broken_foldl_add hb]
  rfl

theorem text?_foldl_iff {s : String} {pending : Option Nat}
    (hp : ∀ high ∈ pending, isHigh high = true) :
    (pieces.foldl add ⟨chars, pending, false⟩).text? = some s ↔
      ∃ rest, Denotes ((pending.map .unit).toList ++ pieces) rest ∧
        s.toList = chars.reverse ++ rest := by
  -- A high unit that waits for its low one counts as a piece in front of the others.
  induction pieces generalizing chars pending with
  | nil =>
    cases pending with
    | none =>
      have ht : (List.foldl add ⟨chars, none, false⟩ []).text? = some (String.ofList chars.reverse) :=
        rfl
      rw [ht, Option.some.injEq, ← String.toList_inj, String.toList_ofList]
      simp [denotes_nil_iff, eq_comm]
    | some high =>
      have hh := hp high rfl
      have ht : (List.foldl add ⟨chars, some high, false⟩ []).text? = none := rfl
      rw [ht]
      simp [denotes_high_iff hh]
  | cons piece pieces ih =>
    have hn : ∀ high ∈ (none : Option Nat), isHigh high = true := nofun
    rw [List.foldl_cons]
    cases pending with
    | none =>
      cases piece with
      | char c =>
        have ha : add ⟨chars, none, false⟩ (.char c) = ⟨c :: chars, none, false⟩ := rfl
        rw [ha, ih hn]
        simp [denotes_char_iff]
      | unit n =>
        cases hh : isHigh n with
        | true =>
          have hu : ∀ high ∈ some n, isHigh high = true := by simpa using hh
          have ha : add ⟨chars, none, false⟩ (.unit n) = ⟨chars, some n, false⟩ := by
            simp [add, pushUnit, hh]
          rw [ha, ih hu]
          rfl
        | false =>
          cases hl : isLow n with
          | true =>
            have ha : add ⟨chars, none, false⟩ (.unit n) = ⟨chars, none, true⟩ := by
              simp [add, pushUnit, hh, hl]
            rw [ha, text?_foldl_of_broken rfl]
            simp [denotes_unit_iff hh, hl]
          | false =>
            have ha : add ⟨chars, none, false⟩ (.unit n) =
                ⟨Char.ofNat n :: chars, none, false⟩ := by
              simp [add, pushUnit, push, hh, hl]
            rw [ha, ih hn]
            simp [denotes_unit_iff hh, hl]
    | some high =>
      have hh := hp high rfl
      cases piece with
      | char c =>
        have ha : (add ⟨chars, some high, false⟩ (.char c)).broken = true := rfl
        rw [text?_foldl_of_broken ha]
        simp [denotes_high_iff hh]
      | unit n =>
        cases hl : isLow n with
        | true =>
          have ha : add ⟨chars, some high, false⟩ (.unit n) =
              ⟨pair high n :: chars, none, false⟩ := by
            simp [add, pushUnit, hl]
          rw [ha, ih hn]
          constructor
          · rintro ⟨rest, hd, hs⟩
            exact ⟨_, .pair hh hl hd, by simpa using hs⟩
          · rintro ⟨_, hd, hs⟩
            obtain ⟨low, more, rest, he, -, hd, rfl⟩ := (denotes_high_iff hh).mp hd
            cases he
            exact ⟨rest, hd, by simpa using hs⟩
        | false =>
          have ha : (add ⟨chars, some high, false⟩ (.unit n)).broken = true := by
            simp [add, pushUnit, hl]
          rw [text?_foldl_of_broken ha]
          simp [denotes_high_iff hh, hl]

/-- The text of a string is what its pieces denote, and it has none if they denote nothing. -/
theorem text?_foldl_empty_iff {s : String} :
    (pieces.foldl add .empty).text? = some s ↔ Denotes pieces s.toList := by
  have h := @text?_foldl_iff [] pieces s none nofun
  simpa [empty] using h

theorem text?_foldl_empty_eq_none_iff :
    (pieces.foldl add .empty).text? = none ↔ ∀ chars, ¬ Denotes pieces chars := by
  rw [Option.eq_none_iff_forall_ne_some]
  constructor
  · intro hn chars hd
    have hs : Denotes pieces (String.ofList chars).toList := by rwa [String.toList_ofList]
    exact hn _ (text?_foldl_empty_iff.mpr hs)
  · intro hd s hs
    exact hd _ (text?_foldl_empty_iff.mp hs)

end Literal
end ContractPipeline.Json
