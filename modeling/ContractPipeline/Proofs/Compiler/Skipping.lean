import ContractPipeline.Compiler.BuildReader
import ContractPipeline.Proofs.Json.Grammar

/-! A value that is skipped is any value: for each place in it, which tokens lead to its end. -/
namespace ContractPipeline.Compiler

open Json (Token IsValue IsMember intercalate_comma_cons)

def Frame.opening : Frame → Token
  | .list => .openList
  | .record => .openRecord

def Frame.closing : Frame → Token
  | .list => .closeList
  | .record => .closeRecord

/-- What stands between the commas of a frame. -/
def Frame.IsPart : Frame → List Token → Prop
  | .list => IsValue
  | .record => IsMember

theorem Frame.isValue (frame : Frame) {parts : List (List Token)}
    (h : ∀ part ∈ parts, frame.IsPart part) :
    IsValue (frame.opening :: ([.comma].intercalate parts ++ [frame.closing])) := by
  cases frame with
  | list => exact .list h
  | record => exact .record h

theorem Frame.not_isPart_nil (frame : Frame) : ¬ frame.IsPart [] := by
  intro h
  cases frame with
  | list => cases h
  | record => cases h

namespace Skip

/-- What follows a value that these frames enclose: further parts and the end of each frame. -/
def Closes : List Frame → List Token → Prop
  | [], tokens => tokens = []
  | frame :: outer, tokens =>
    ∃ (parts : List (List Token)) (rest : List Token), (∀ part ∈ parts, frame.IsPart part) ∧
      tokens = parts.flatMap (.comma :: ·) ++ frame.closing :: rest ∧ Closes outer rest

def FromValue (frames : List Frame) (tokens : List Token) : Prop :=
  ∃ value rest, IsValue value ∧ tokens = value ++ rest ∧ Closes frames rest

def FromMember (frames : List Frame) (tokens : List Token) : Prop :=
  ∃ member rest, IsMember member ∧ tokens = member ++ rest ∧ Closes frames rest

def FromPart (frame : Frame) (outer : List Frame) (tokens : List Token) : Prop :=
  ∃ part rest, frame.IsPart part ∧ tokens = part ++ rest ∧ Closes (frame :: outer) rest

def FromFirst (frame : Frame) (outer : List Frame) (tokens : List Token) : Prop :=
  (∃ rest, tokens = frame.closing :: rest ∧ Closes outer rest) ∨ FromPart frame outer tokens

def Leads : Skip → List Token → Prop
  | .over, tokens => tokens = []
  | .inside frames .value, tokens => FromValue frames tokens
  | .inside [] .first, _ => False
  | .inside (frame :: outer) .first, tokens => FromFirst frame outer tokens
  | .inside frames .separator, tokens => frames ≠ [] ∧ Closes frames tokens
  | .inside frames .key, tokens => FromMember frames tokens
  | .inside frames .colon, tokens => ∃ rest, tokens = .colon :: rest ∧ FromValue frames rest

variable {frames outer : List Frame} {frame : Frame} {due : Due} {token : Token}
  {tokens : List Token}

theorem leads_afterValue_iff : Leads (afterValue frames) tokens ↔ Closes frames tokens := by
  cases frames with
  | nil => rw [afterValue, Leads, Closes]
  | cons frame outer => simp [afterValue, Leads]

theorem not_fromValue_nil : ¬ FromValue frames [] := by
  intro h
  obtain ⟨value, rest, hv, ht, -⟩ := h
  obtain ⟨rfl, rfl⟩ := List.append_eq_nil_iff.mp ht.symm
  cases hv

/-- After the token that opens a frame, its first part is due or its end. -/
theorem fromValue_of_fromFirst (h : FromFirst frame frames tokens) :
    FromValue frames (frame.opening :: tokens) := by
  rcases h with ⟨rest, rfl, hc⟩ | ⟨part, rest, hp, rfl, parts, rest, hs, rfl, hc⟩
  · exact ⟨_, rest, @Frame.isValue frame [] nofun, rfl, hc⟩
  · have hv := frame.isValue (List.forall_mem_cons.mpr ⟨hp, hs⟩)
    exact ⟨_, rest, hv, by simp [intercalate_comma_cons], hc⟩

theorem fromFirst_of_parts {parts : List (List Token)} {rest : List Token}
    (h : ∀ part ∈ parts, frame.IsPart part) (hc : Closes frames rest) :
    FromFirst frame frames ([.comma].intercalate parts ++ frame.closing :: rest) := by
  cases parts with
  | nil => exact .inl ⟨rest, rfl, hc⟩
  | cons part parts =>
    obtain ⟨hp, hs⟩ := List.forall_mem_cons.mp h
    refine .inr ⟨part, _, hp, ?_, parts, rest, hs, rfl, hc⟩
    simp [intercalate_comma_cons]

/-- Where a value is due, its first token decides what may follow. -/
theorem fromValue_cons_iff :
    FromValue frames (token :: tokens) ↔
      ∃ next, takeValue frames token = some next ∧ Leads next tokens := by
  constructor
  · intro h
    obtain ⟨value, rest, hv, ht, hc⟩ := h
    have ha := leads_afterValue_iff.mpr hc
    cases hv with
    | null | bool | number | text =>
      cases ht
      exact ⟨_, rfl, ha⟩
    | @list items hi =>
      cases ht
      refine ⟨.inside (.list :: frames) .first, rfl, ?_⟩
      have hf := @fromFirst_of_parts frames .list items rest hi hc
      simpa [Leads, Frame.closing] using hf
    | @record members hm =>
      cases ht
      refine ⟨.inside (.record :: frames) .first, rfl, ?_⟩
      have hf := @fromFirst_of_parts frames .record members rest hm hc
      simpa [Leads, Frame.closing] using hf
  · intro h
    obtain ⟨next, hn, hl⟩ := h
    cases token with
    | null =>
      cases hn
      exact ⟨[.null], tokens, .null, rfl, leads_afterValue_iff.mp hl⟩
    | bool b =>
      cases hn
      exact ⟨[.bool b], tokens, .bool b, rfl, leads_afterValue_iff.mp hl⟩
    | number isFinite =>
      cases hn
      exact ⟨[.number isFinite], tokens, .number isFinite, rfl, leads_afterValue_iff.mp hl⟩
    | text text? =>
      cases hn
      exact ⟨[.text text?], tokens, .text text?, rfl, leads_afterValue_iff.mp hl⟩
    | openList =>
      cases hn
      exact @fromValue_of_fromFirst frames .list tokens hl
    | openRecord =>
      cases hn
      exact @fromValue_of_fromFirst frames .record tokens hl
    | colon | comma | closeList | closeRecord => cases hn

theorem fromMember_cons_iff :
    FromMember frames (token :: tokens) ↔
      ∃ key?, token = .text key? ∧ Leads (.inside frames .colon) tokens := by
  constructor
  · intro h
    obtain ⟨member, rest, ⟨key?, hv⟩, ht, hc⟩ := h
    cases ht
    exact ⟨key?, rfl, _, rfl, _, rest, hv, rfl, hc⟩
  · intro h
    obtain ⟨key?, rfl, rest, rfl, value, rest, hv, rfl, hc⟩ := h
    exact ⟨_, rest, .mk key? hv, rfl, hc⟩

theorem closes_cons_iff :
    Closes (frame :: outer) (token :: tokens) ↔
      (token = frame.closing ∧ Closes outer tokens) ∨
        (token = .comma ∧ FromPart frame outer tokens) := by
  constructor
  · intro h
    obtain ⟨parts, rest, hp, ht, hc⟩ := h
    cases parts with
    | nil =>
      cases ht
      exact .inl ⟨rfl, hc⟩
    | cons part parts =>
      cases ht
      obtain ⟨hp, hs⟩ := List.forall_mem_cons.mp hp
      exact .inr ⟨rfl, part, _, hp, List.append_assoc .., parts, rest, hs, rfl, hc⟩
  · intro h
    rcases h with ⟨rfl, hc⟩ | ⟨rfl, part, rest, hp, rfl, parts, rest, hs, rfl, hc⟩
    · exact ⟨[], tokens, nofun, rfl, hc⟩
    · exact ⟨part :: parts, rest, List.forall_mem_cons.mpr ⟨hp, hs⟩, by simp, hc⟩

theorem leads_value_iff : Leads (.inside frames .value) tokens ↔ FromValue frames tokens := by
  rw [Leads]

theorem leads_key_iff : Leads (.inside frames .key) tokens ↔ FromMember frames tokens := by
  rw [Leads]

theorem fromPart_list_iff : FromPart .list outer tokens ↔ FromValue (.list :: outer) tokens :=
  Iff.rfl

theorem fromPart_record_iff :
    FromPart .record outer tokens ↔ FromMember (.record :: outer) tokens := Iff.rfl

theorem fromFirst_cons_iff :
    FromFirst frame outer (token :: tokens) ↔
      (token = frame.closing ∧ Closes outer tokens) ∨ FromPart frame outer (token :: tokens) := by
  simp only [FromFirst, List.cons.injEq]
  constructor
  · rintro (⟨rest, ⟨rfl, rfl⟩, hc⟩ | h)
    · exact .inl ⟨rfl, hc⟩
    · exact .inr h
  · rintro (⟨rfl, hc⟩ | h)
    · exact .inl ⟨tokens, ⟨rfl, rfl⟩, hc⟩
    · exact .inr h

theorem take_first_iff :
    FromFirst frame outer (token :: tokens) ↔
      ∃ next, take (frame :: outer) .first token = some next ∧ Leads next tokens := by
  rw [fromFirst_cons_iff]
  cases frame with
  | list =>
    rw [fromPart_list_iff, fromValue_cons_iff]
    cases token with
    | closeList => simp [take, takeValue, Frame.closing, leads_afterValue_iff]
    | _ => simp [take, Frame.closing]
  | record =>
    rw [fromPart_record_iff, fromMember_cons_iff]
    cases token with
    | closeRecord => simp [take, Frame.closing, leads_afterValue_iff]
    | _ => simp [take, Frame.closing]

theorem take_separator_iff :
    Closes (frame :: outer) (token :: tokens) ↔
      ∃ next, take (frame :: outer) .separator token = some next ∧ Leads next tokens := by
  rw [closes_cons_iff]
  cases frame with
  | list =>
    cases token with
    | closeList => simp [take, Frame.closing, leads_afterValue_iff]
    | comma => simp [take, Frame.closing, leads_value_iff, fromPart_list_iff]
    | _ => simp [take, Frame.closing]
  | record =>
    cases token with
    | closeRecord => simp [take, Frame.closing, leads_afterValue_iff]
    | comma => simp [take, Frame.closing, leads_key_iff, fromPart_record_iff]
    | _ => simp [take, Frame.closing]

/-- The tokens that end a value are those after which the next place leads to its end. -/
theorem leads_cons_iff :
    Leads (.inside frames due) (token :: tokens) ↔
      ∃ next, take frames due token = some next ∧ Leads next tokens := by
  cases due with
  | value => exact fromValue_cons_iff
  | first =>
    cases frames with
    | nil => simp [Leads, take]
    | cons frame outer => exact take_first_iff
  | separator =>
    cases frames with
    | nil => simp [Leads, take]
    | cons frame outer => simpa [Leads] using take_separator_iff
  | key =>
    rw [leads_key_iff, fromMember_cons_iff]
    cases token with
    | text text? => simp [take]
    | _ => simp [take]
  | colon =>
    cases token with
    | colon => simp [take, Leads]
    | _ => simp [take, Leads]

theorem not_leads_nil : ¬ Leads (.inside frames due) [] := by
  intro h
  cases due with
  | value => exact not_fromValue_nil h
  | first =>
    cases frames with
    | nil => exact h
    | cons frame outer =>
      rcases h with ⟨rest, ht, -⟩ | ⟨part, rest, hp, ht, -⟩
      · cases ht
      · obtain ⟨rfl, rfl⟩ := List.append_eq_nil_iff.mp ht.symm
        exact frame.not_isPart_nil hp
  | separator =>
    cases frames with
    | nil => exact h.1 rfl
    | cons frame outer =>
      obtain ⟨-, parts, rest, -, ht, -⟩ := h
      cases (List.append_eq_nil_iff.mp ht.symm).2
  | key =>
    obtain ⟨member, rest, hm, ht, -⟩ := h
    obtain ⟨rfl, rfl⟩ := List.append_eq_nil_iff.mp ht.symm
    cases hm
  | colon =>
    obtain ⟨rest, ht, -⟩ := h
    cases ht

end Skip
end ContractPipeline.Compiler
