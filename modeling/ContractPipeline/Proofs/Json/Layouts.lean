import ContractPipeline.Proofs.Json.Printing
import ContractPipeline.Proofs.Json.Values

/-! Both written forms of a value are texts that stand for this value and for no other. -/
namespace ContractPipeline.Json

section Written

variable {text text' rest : List Char}

theorem ReadsText.congr {s : String} (he : skipBlanks text' = skipBlanks text)
    (h : ReadsText s text rest) : ReadsText s text' rest := by
  obtain ⟨h, hb, hd⟩ := h
  exact ⟨he.trans h, hb, hd⟩

theorem ReadsMember.congr {Part : Value → List Char → List Char → Prop} {member : String × Value}
    (he : skipBlanks text' = skipBlanks text) (h : ReadsMember Part member text rest) :
    ReadsMember Part member text' rest := by
  obtain ⟨hk, hc, hv⟩ := h
  exact ⟨hk.congr he, hc, hv⟩

theorem Reads.congr {value : Value} (he : skipBlanks text' = skipBlanks text)
    (h : Reads value text rest) : Reads value text' rest := by
  cases h with
  | null h => exact .null (he.trans h)
  | true h => exact .true (he.trans h)
  | false h => exact .false (he.trans h)
  | number h hw hn => exact .number (he.trans h) hw hn
  | text h => exact .text (h.congr he)
  | list h hi => exact .list (he.trans h) hi
  | record h hm => exact .record (he.trans h) hm

theorem noDigitFirst_comma : NoDigitFirst (',' :: rest) := noDigitFirst_cons rfl

/-- What stands behind the opening of a row with parts stands also behind a comma. -/
theorem ReadsRow.later {α : Type} {Part : α → List Char → List Char → Prop} {close : Char} {part : α}
    {parts : List α} (h : ReadsRow Part close (part :: parts) text rest) :
    ReadsLater Part close (part :: parts) (',' :: text) rest := by
  cases h with
  | some hp hl => exact .more rfl hp hl

theorem readsText_writeText (s : String) : ReadsText s (writeText s ++ rest) rest := by
  obtain ⟨pieces, hb, hd⟩ := spellsPieces_flatMap s.toList
  refine .mk ?_ hb hd
  rw [writeText, List.append_assoc]
  rfl

theorem reads_writeBool (b : Bool) : Reads (.bool b) (writeBool b ++ rest) rest := by
  cases b with
  | true => exact .true rfl
  | false => exact .false rfl

theorem skipBlanks_digit {c : Char} (hc : c.isDigit = true) : skipBlanks (c :: rest) = c :: rest := by
  have hb : ¬Scanner.isBlank c = true := by
    intro hb
    simp only [Scanner.isBlank, Bool.or_eq_true, beq_iff_eq, or_assoc] at hb
    rcases hb with rfl | rfl | rfl | rfl <;> cases hc
  exact List.dropWhile_cons_of_neg hb

theorem reads_toDigits (n : Nat) (hn : NoDigitFirst rest) :
    Reads (.number n) (Nat.toDigits 10 n ++ rest) rest := by
  have hw := spellsWhole_toDigits n
  have hs : skipBlanks (Nat.toDigits 10 n ++ rest) = Nat.toDigits 10 n ++ rest := by
    obtain ⟨c, more, he, hc⟩ := hw.exists_cons
    rw [he]
    exact skipBlanks_digit hc
  have hr := Reads.number hs hw hn
  rwa [Text.digitsValue_toDigits] at hr

theorem readsMember_compact (key : String) {value : Value}
    (h : Reads value text rest) : ReadsMember Reads (key, value) (writeText key ++ ':' :: text) rest :=
  .mk (readsText_writeText key) rfl h

mutual

theorem reads_compact (value : Value) {rest : List Char} (hn : NoDigitFirst rest) :
    Reads value (compact value ++ rest) rest := by
  cases value with
  | null => exact .null rfl
  | bool b => exact reads_writeBool b
  | number n => exact reads_toDigits n hn
  | text s => exact .text (readsText_writeText s)
  | list items =>
    have hi := readsRow_compactItems items rest
    exact .list rfl (by simpa using hi)
  | record members =>
    have hm := readsRow_compactMembers members rest
    exact .record rfl (by simpa using hm)

theorem readsRow_compactItems (items : List Value) (rest : List Char) :
    ReadsRow Reads ']' items (compactItems items ++ ']' :: rest) rest := by
  match items with
  | [] => exact .none rfl
  | [item] => exact .some (reads_compact item (noDigitFirst_cons rfl)) (.last rfl)
  | item :: next :: items =>
    have hl := (readsRow_compactItems (next :: items) rest).later
    have hs := ReadsRow.some (reads_compact item noDigitFirst_comma) hl
    simpa [compactItems] using hs

theorem readsRow_compactMembers (members : List (String × Value)) (rest : List Char) :
    ReadsRow (ReadsMember Reads) '\x7d' members (compactMembers members ++ '\x7d' :: rest) rest := by
  match members with
  | [] => exact .none rfl
  | [(key, value)] =>
    have hn : NoDigitFirst ('\x7d' :: rest) := noDigitFirst_cons rfl
    have hs := readsMember_compact key (reads_compact value hn)
    simpa [compactMembers] using ReadsRow.some hs (.last rfl)
  | (key, value) :: next :: members =>
    have hl := (readsRow_compactMembers (next :: members) rest).later
    have hs := ReadsRow.some (readsMember_compact key (reads_compact value noDigitFirst_comma)) hl
    simpa [compactMembers] using hs

end

theorem skipBlanks_newline (level : Nat) : skipBlanks (newline level ++ text) = skipBlanks text := by
  have hb : ∀ n, skipBlanks (List.replicate n ' ' ++ text) = skipBlanks text := by
    intro n
    induction n with
    | zero => rfl
    | succ n ih => exact ih
  exact hb _

theorem readsMember_pretty (key : String) (level : Nat) {value : Value} (h : Reads value text rest) :
    ReadsMember Reads (key, value) (newline level ++ writeText key ++ ':' :: ' ' :: text) rest := by
  have hb : skipBlanks (' ' :: text) = skipBlanks text := rfl
  have hk : ReadsMember Reads (key, value) (writeText key ++ ':' :: ' ' :: text) rest :=
    .mk (readsText_writeText key) rfl (h.congr hb)
  rw [List.append_assoc]
  exact hk.congr (skipBlanks_newline level)

mutual

theorem reads_pretty (value : Value) (level : Nat) {rest : List Char} (hn : NoDigitFirst rest) :
    Reads value (pretty level value ++ rest) rest := by
  match value with
  | .null => exact .null rfl
  | .bool b => exact reads_writeBool b
  | .number n => exact reads_toDigits n hn
  | .text s => exact .text (readsText_writeText s)
  | .list [] => exact .list rfl (.none rfl)
  | .list (item :: items) =>
    have hc : skipBlanks (newline level ++ ']' :: rest) = ']' :: rest := skipBlanks_newline level
    have hi := readsRow_prettyItems (item :: items) (level + 1) (noDigitFirst_newline level) hc
    exact .list rfl (by simpa [pretty] using hi)
  | .record [] => exact .record rfl (.none rfl)
  | .record (member :: members) =>
    have hc : skipBlanks (newline level ++ '\x7d' :: rest) = '\x7d' :: rest :=
      skipBlanks_newline level
    have hm := readsRow_prettyMembers (member :: members) (level + 1) (noDigitFirst_newline level) hc
    exact .record rfl (by simpa [pretty] using hm)

theorem readsRow_prettyItems (items : List Value) (level : Nat) {text rest : List Char}
    (hn : NoDigitFirst text) (hc : skipBlanks text = ']' :: rest) :
    ReadsRow Reads ']' items (prettyItems level items ++ text) rest := by
  match items with
  | [] => exact .none hc
  | [item] =>
    have hs := (reads_pretty item level hn).congr (skipBlanks_newline level)
    simpa [prettyItems] using ReadsRow.some hs (.last hc)
  | item :: next :: items =>
    have hl := (readsRow_prettyItems (next :: items) level hn hc).later
    have hs := ReadsRow.some
      ((reads_pretty item level noDigitFirst_comma).congr (skipBlanks_newline level)) hl
    simpa [prettyItems] using hs

theorem readsRow_prettyMembers (members : List (String × Value)) (level : Nat)
    {text rest : List Char} (hn : NoDigitFirst text) (hc : skipBlanks text = '\x7d' :: rest) :
    ReadsRow (ReadsMember Reads) '\x7d' members (prettyMembers level members ++ text) rest := by
  match members with
  | [] => exact .none hc
  | [(key, value)] =>
    have hs := readsMember_pretty key level (reads_pretty value level hn)
    simpa [prettyMembers] using ReadsRow.some hs (.last hc)
  | (key, value) :: next :: members =>
    have hl := (readsRow_prettyMembers (next :: members) level hn hc).later
    have hs := ReadsRow.some
      (readsMember_pretty key level (reads_pretty value level noDigitFirst_comma)) hl
    simpa [prettyMembers] using hs

end

end Written

theorem means_toCompact (value : Value) : Means value.toCompact value := by
  have h := reads_compact value noDigitFirst_nil
  have hj : IsJson value.toCompact value := ⟨[], by simpa [Value.toCompact] using h, rfl⟩
  exact hj.means

/-- The pretty form means its value, also at the end of a line. -/
theorem means_toPretty (value : Value) : Means (value.toPretty ++ "\n") value := by
  have hn : NoDigitFirst ['\n'] := noDigitFirst_cons rfl
  have h := reads_pretty value 0 hn
  have hj : IsJson (value.toPretty ++ "\n") value :=
    ⟨['\n'], by simpa [Value.toPretty] using h, rfl⟩
  exact hj.means

end ContractPipeline.Json
