import ContractPipeline.Json.Value
import ContractPipeline.Proofs.Json.Tokens
import ContractPipeline.Proofs.Text.Parts
import ContractPipeline.Text.Integer

/-! Which value a text stands for, among the values whose numbers are natural. A text has no second
reading: where a part begins, its first character tells of what kind it is. -/
namespace ContractPipeline.Json

def skipBlanks (text : List Char) : List Char :=
  text.dropWhile Scanner.isBlank

inductive ReadsText : String → List Char → List Char → Prop
  | mk {text body rest : List Char} {pieces : List Piece} {s : String}
      (h : skipBlanks text = '"' :: (body ++ '"' :: rest)) (hb : SpellsPieces body pieces)
      (hd : Denotes pieces s.toList) : ReadsText s text rest

section Rows

variable {α : Type} (Part : α → List Char → List Char → Prop) (close : Char)

/-- What stands behind a part of a row: the end of the row, or a comma and further parts. -/
inductive ReadsLater : List α → List Char → List Char → Prop
  | last {text rest : List Char} (h : skipBlanks text = close :: rest) : ReadsLater [] text rest
  | more {text next inner rest : List Char} {part : α} {parts : List α}
      (h : skipBlanks text = ',' :: next) (hp : Part part next inner)
      (hl : ReadsLater parts inner rest) : ReadsLater (part :: parts) text rest

/-- What stands behind the opening of a row of parts, to its end. -/
inductive ReadsRow : List α → List Char → List Char → Prop
  | none {text rest : List Char} (h : skipBlanks text = close :: rest) : ReadsRow [] text rest
  | some {text inner rest : List Char} {part : α} {parts : List α} (hp : Part part text inner)
      (hl : ReadsLater Part close parts inner rest) : ReadsRow (part :: parts) text rest

end Rows

inductive ReadsMember (Part : Value → List Char → List Char → Prop) :
    String × Value → List Char → List Char → Prop
  | mk {text more inner rest : List Char} {key : String} {value : Value}
      (hk : ReadsText key text more) (hc : skipBlanks more = ':' :: inner)
      (hv : Part value inner rest) : ReadsMember Part (key, value) text rest

inductive Reads : Value → List Char → List Char → Prop
  | null {text rest : List Char} (h : skipBlanks text = 'n' :: 'u' :: 'l' :: 'l' :: rest) :
      Reads .null text rest
  | true {text rest : List Char} (h : skipBlanks text = 't' :: 'r' :: 'u' :: 'e' :: rest) :
      Reads (.bool true) text rest
  | false {text rest : List Char} (h : skipBlanks text = 'f' :: 'a' :: 'l' :: 's' :: 'e' :: rest) :
      Reads (.bool false) text rest
  | number {text digits rest : List Char} (h : skipBlanks text = digits ++ rest)
      (hw : SpellsWhole digits) (hn : NoDigitFirst rest) :
      Reads (.number (Text.digitsValue digits)) text rest
  | text {text rest : List Char} {s : String} (h : ReadsText s text rest) :
      Reads (.text s) text rest
  | list {text inner rest : List Char} {items : List Value} (h : skipBlanks text = '[' :: inner)
      (hi : ReadsRow Reads ']' items inner rest) : Reads (.list items) text rest
  | record {text inner rest : List Char} {members : List (String × Value)}
      (h : skipBlanks text = '\x7b' :: inner)
      (hm : ReadsRow (ReadsMember Reads) '\x7d' members inner rest) :
      Reads (.record members) text rest

/-- A text that stands for a value: nothing but blanks follows the value. -/
def IsJson (text : String) (value : Value) : Prop :=
  ∃ rest, Reads value text.toList rest ∧ skipBlanks rest = []

/-- A text that stands for a value and for no other one. -/
structure Means (text : String) (value : Value) : Prop where
  isJson : IsJson text value
  only : ∀ other, IsJson text other → other = value

section Pieces

theorem SpellsUnit.unique {digits digits' rest rest' : List Char} {n n' : Nat}
    (h : SpellsUnit digits n) (h' : SpellsUnit digits' n') (he : digits ++ rest = digits' ++ rest') :
    n = n' ∧ rest = rest' := by
  cases h with
  | mk ha hb hc hd =>
    cases h' with
    | mk ha' hb' hc' hd' =>
      simp only [List.cons_append, List.nil_append, List.cons.injEq] at he
      obtain ⟨rfl, rfl, rfl, rfl, rfl⟩ := he
      rw [ha, Option.some.injEq] at ha'
      rw [hb, Option.some.injEq] at hb'
      rw [hc, Option.some.injEq] at hc'
      rw [hd, Option.some.injEq] at hd'
      simp [ha', hb', hc', hd']

theorem ShortEscape.unique {c d d' : Char} (h : ShortEscape c d) (h' : ShortEscape c d') : d = d' := by
  cases h <;> cases h' <;> rfl

theorem ShortEscape.ne_unit {c d : Char} (h : ShortEscape c d) : c ≠ 'u' := by
  cases h <;> decide

/-- Where a piece begins, it is told by its first characters what it is and where it ends. -/
theorem SpellsPiece.unique {word word' rest rest' : List Char} {piece piece' : Piece}
    (h : SpellsPiece word piece) (h' : SpellsPiece word' piece')
    (he : word ++ rest = word' ++ rest') : piece = piece' ∧ rest = rest' := by
  cases h with
  | raw hq hb hc =>
    cases h' with
    | raw =>
      obtain ⟨rfl, rfl⟩ := List.cons.inj he
      exact ⟨rfl, rfl⟩
    | short => exact absurd (List.cons.inj he).1 hb
    | unit => exact absurd (List.cons.inj he).1 hb
  | short hs =>
    cases h' with
    | raw _ hb => exact absurd (List.cons.inj he).1.symm hb
    | short hs' =>
      simp only [List.cons_append, List.nil_append, List.cons.injEq, true_and] at he
      obtain ⟨rfl, rfl⟩ := he
      exact ⟨congrArg Piece.char (hs.unique hs'), rfl⟩
    | unit =>
      simp only [List.cons_append, List.cons.injEq, true_and] at he
      exact absurd he.1 hs.ne_unit
  | unit hu =>
    cases h' with
    | raw _ hb => exact absurd (List.cons.inj he).1.symm hb
    | short hs' =>
      simp only [List.cons_append, List.cons.injEq, true_and] at he
      exact absurd he.1.symm hs'.ne_unit
    | unit hu' =>
      simp only [List.cons_append, List.cons.injEq, true_and] at he
      obtain ⟨rfl, hr⟩ := hu.unique hu' he
      exact ⟨rfl, hr⟩

/-- No piece begins with a quote. -/
theorem SpellsPiece.append_ne_quote {word rest more : List Char} {piece : Piece}
    (h : SpellsPiece word piece) : word ++ rest ≠ '"' :: more := by
  intro he
  cases h with
  | raw hq => exact hq (List.cons.inj he).1
  | short | unit =>
    have hc := (List.cons.inj he).1
    revert hc
    decide

theorem SpellsPieces.unique {body body' rest rest' : List Char} {pieces pieces' : List Piece}
    (h : SpellsPieces body pieces) (h' : SpellsPieces body' pieces')
    (he : body ++ '"' :: rest = body' ++ '"' :: rest') : pieces = pieces' ∧ rest = rest' := by
  induction h generalizing body' pieces' with
  | nil =>
    cases h' with
    | nil => exact ⟨rfl, (List.cons.inj he).2⟩
    | cons hp _ =>
      rw [List.append_assoc] at he
      exact absurd he.symm hp.append_ne_quote
  | cons hp _ ih =>
    rw [List.append_assoc] at he
    cases h' with
    | nil => exact absurd he hp.append_ne_quote
    | cons hp' hs' =>
      rw [List.append_assoc] at he
      obtain ⟨rfl, hr⟩ := hp.unique hp' he
      obtain ⟨rfl, rfl⟩ := ih hs' hr
      exact ⟨rfl, rfl⟩

theorem Denotes.unique {pieces : List Piece} {s s' : String} (h : Denotes pieces s.toList)
    (h' : Denotes pieces s'.toList) : s = s' := by
  have ht := Literal.text?_foldl_empty_iff.mpr h
  rw [Literal.text?_foldl_empty_iff.mpr h'] at ht
  exact (Option.some.inj ht).symm

theorem ReadsText.unique {text rest rest' : List Char} {s s' : String} (h : ReadsText s text rest)
    (h' : ReadsText s' text rest') : s = s' ∧ rest = rest' := by
  obtain ⟨ht, hb, hd⟩ := h
  obtain ⟨ht', hb', hd'⟩ := h'
  obtain ⟨rfl, rfl⟩ := hb.unique hb' (List.cons.inj (ht.symm.trans ht')).2
  exact ⟨hd.unique hd', rfl⟩

end Pieces

section Numbers

variable {digits digits' rest rest' : List Char}

theorem SpellsWhole.allDigits (h : SpellsWhole digits) : AllDigits digits := by
  cases h with
  | zero => simp
  | digits hc _ hr => exact allDigits_cons.mpr ⟨hc, hr⟩

/-- Digits end where the first character stands that is none. -/
theorem AllDigits.unique (h : AllDigits digits) (h' : AllDigits digits') (hn : NoDigitFirst rest)
    (hn' : NoDigitFirst rest') (he : digits ++ rest = digits' ++ rest') :
    digits = digits' ∧ rest = rest' := by
  have hd : digits = digits' := by
    rw [← Text.takeWhile_append_of_head h hn, he, Text.takeWhile_append_of_head h' hn']
  subst hd
  exact ⟨rfl, List.append_cancel_left he⟩

end Numbers

section Uniqueness

variable {α : Type} {Part : α → List Char → List Char → Prop} {close : Char} {part : α}
  {parts parts' : List α} {text rest rest' : List Char}

/-- What is read of a text as a part, and what follows it, are known from the text. -/
def ReadOnce (Part : α → List Char → List Char → Prop) (part : α) : Prop :=
  ∀ (part' : α) (text rest rest' : List Char), Part part text rest → Part part' text rest' →
    part = part' ∧ rest = rest'

theorem ReadsLater.unique (hc : close ≠ ',') (hu : ∀ part ∈ parts, ReadOnce Part part)
    (h : ReadsLater Part close parts text rest) (h' : ReadsLater Part close parts' text rest') :
    parts = parts' ∧ rest = rest' := by
  induction h generalizing parts' with
  | last h =>
    cases h' with
    | last h' => exact ⟨rfl, (List.cons.inj (h.symm.trans h')).2⟩
    | more h' => exact absurd (List.cons.inj (h.symm.trans h')).1 hc
  | more h hp _ ih =>
    cases h' with
    | last h' => exact absurd (List.cons.inj (h'.symm.trans h)).1 hc
    | more h' hp' hl' =>
      obtain ⟨-, rfl⟩ := List.cons.inj (h.symm.trans h')
      obtain ⟨hu, hl⟩ := List.forall_mem_cons.mp hu
      obtain ⟨rfl, rfl⟩ := hu _ _ _ _ hp hp'
      obtain ⟨rfl, rfl⟩ := ih hl hl'
      exact ⟨rfl, rfl⟩

/-- A row is read in one way only if its parts are, and none of them begins with its end. -/
theorem ReadsRow.unique (hc : close ≠ ',')
    (hs : ∀ {part text rest more}, Part part text rest → skipBlanks text ≠ close :: more)
    (hu : ∀ part ∈ parts, ReadOnce Part part) (h : ReadsRow Part close parts text rest)
    (h' : ReadsRow Part close parts' text rest') : parts = parts' ∧ rest = rest' := by
  cases h with
  | none h =>
    cases h' with
    | none h' => exact ⟨rfl, (List.cons.inj (h.symm.trans h')).2⟩
    | some hp' => exact absurd h (hs hp')
  | some hp hl =>
    cases h' with
    | none h' => exact absurd h' (hs hp)
    | some hp' hl' =>
      obtain ⟨hu, hm⟩ := List.forall_mem_cons.mp hu
      obtain ⟨rfl, rfl⟩ := hu _ _ _ _ hp hp'
      obtain ⟨rfl, rfl⟩ := hl.unique hc hm hl'
      exact ⟨rfl, rfl⟩

theorem ReadOnce.member {Part : Value → List Char → List Char → Prop} {key : String} {value : Value}
    (hu : ReadOnce Part value) : ReadOnce (ReadsMember Part) (key, value) := by
  intro member text rest rest' h h'
  cases h with
  | mk hk hc hv =>
    cases h' with
    | mk hk' hc' hv' =>
      obtain ⟨rfl, rfl⟩ := hk.unique hk'
      obtain ⟨-, rfl⟩ := List.cons.inj (hc.symm.trans hc')
      obtain ⟨rfl, rfl⟩ := hu _ _ _ _ hv hv'
      exact ⟨rfl, rfl⟩

/-- The character that a value of its kind begins with, and a zero for any digit. -/
def Value.lead : Value → Char
  | .null => 'n'
  | .bool true => 't'
  | .bool false => 'f'
  | .number _ => '0'
  | .text _ => '"'
  | .list _ => '['
  | .record _ => '\x7b'

def leadOf (c : Char) : Char :=
  if c.isDigit then '0' else c

theorem Reads.exists_cons {value : Value} (h : Reads value text rest) :
    ∃ c more, skipBlanks text = c :: more ∧ leadOf c = value.lead := by
  cases h with
  | number h hw =>
    obtain ⟨c, more, rfl, hc⟩ := hw.exists_cons
    exact ⟨c, _, h, if_pos hc⟩
  | text h =>
    obtain ⟨h, -⟩ := h
    exact ⟨_, _, h, rfl⟩
  | null h | true h | false h | list h | record h => exact ⟨_, _, h, rfl⟩

theorem Reads.lead_eq {value value' : Value} (h : Reads value text rest)
    (h' : Reads value' text rest') : value.lead = value'.lead := by
  obtain ⟨c, more, hc, hl⟩ := h.exists_cons
  obtain ⟨c', more', hc', hl'⟩ := h'.exists_cons
  obtain ⟨rfl, -⟩ := List.cons.inj (hc.symm.trans hc')
  exact hl.symm.trans hl'

/-- No value begins as a list ends. -/
theorem skipBlanks_ne_of_reads {value : Value} {more : List Char} (h : Reads value text rest) :
    skipBlanks text ≠ ']' :: more := by
  obtain ⟨c, more', hc, hl⟩ := h.exists_cons
  intro he
  obtain ⟨rfl, -⟩ := List.cons.inj (hc.symm.trans he)
  cases h <;> cases hl

theorem skipBlanks_ne_of_readsMember {Part : Value → List Char → List Char → Prop}
    {member : String × Value} {more : List Char} (h : ReadsMember Part member text rest) :
    skipBlanks text ≠ '\x7d' :: more := by
  obtain ⟨⟨h, -⟩, -⟩ := h
  intro he
  obtain ⟨hc, -⟩ := List.cons.inj (h.symm.trans he)
  cases hc

mutual

/-- A value is known from the text. The first character tells its kind. -/
theorem readOnce_reads (value : Value) : ReadOnce Reads value := by
  intro value' text rest rest' h h'
  -- Both readings begin with the same character, so that `hl` refutes one of another kind.
  have hl := h.lead_eq h'
  match value, h with
  | .null, .null h =>
    cases h' with
    | null h' => simpa using h.symm.trans h'
    | _ => cases hl
  | .bool true, .true h =>
    cases h' with
    | true h' => simpa using h.symm.trans h'
    | _ => cases hl
  | .bool false, .false h =>
    cases h' with
    | false h' => simpa using h.symm.trans h'
    | _ => cases hl
  | .number _, .number h hw hn =>
    cases h' with
    | number h' hw' hn' =>
      obtain ⟨rfl, rfl⟩ := hw.allDigits.unique hw'.allDigits hn hn' (h.symm.trans h')
      exact ⟨rfl, rfl⟩
    | _ => cases hl
  | .text s, .text h =>
    cases h' with
    | text h' =>
      obtain ⟨rfl, rfl⟩ := h.unique h'
      exact ⟨rfl, rfl⟩
    | _ => cases hl
  | .list items, .list h hi =>
    cases h' with
    | list h' hi' =>
      obtain ⟨-, rfl⟩ := List.cons.inj (h.symm.trans h')
      obtain ⟨rfl, rfl⟩ := hi.unique (by decide) skipBlanks_ne_of_reads (readOnce_items items) hi'
      exact ⟨rfl, rfl⟩
    | _ => cases hl
  | .record members, .record h hm =>
    cases h' with
    | record h' hm' =>
      obtain ⟨-, rfl⟩ := List.cons.inj (h.symm.trans h')
      obtain ⟨rfl, rfl⟩ := hm.unique (by decide) skipBlanks_ne_of_readsMember
        (readOnce_members members) hm'
      exact ⟨rfl, rfl⟩
    | _ => cases hl

theorem readOnce_items (items : List Value) : ∀ item ∈ items, ReadOnce Reads item := by
  match items with
  | [] => exact nofun
  | item :: items =>
    exact List.forall_mem_cons.mpr ⟨readOnce_reads item, readOnce_items items⟩

theorem readOnce_members (members : List (String × Value)) :
    ∀ member ∈ members, ReadOnce (ReadsMember Reads) member := by
  match members with
  | [] => exact nofun
  | (key, value) :: members =>
    exact List.forall_mem_cons.mpr ⟨(readOnce_reads value).member, readOnce_members members⟩

end

end Uniqueness

theorem IsJson.unique {text : String} {value value' : Value} (h : IsJson text value)
    (h' : IsJson text value') : value = value' := by
  obtain ⟨rest, hr, -⟩ := h
  obtain ⟨rest', hr', -⟩ := h'
  exact (readOnce_reads value _ _ _ _ hr hr').1

theorem IsJson.means {text : String} {value : Value} (h : IsJson text value) : Means text value :=
  ⟨h, fun _ h' => h'.unique h⟩

end ContractPipeline.Json
