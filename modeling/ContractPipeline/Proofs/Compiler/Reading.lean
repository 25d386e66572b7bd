import ContractPipeline.Proofs.Compiler.BuildForms
import ContractPipeline.Proofs.Compiler.Skipping
import ContractPipeline.Proofs.Json.Tokens

/-! The reader of builds takes exactly their forms. Each place in a text has its own set of tokens
that lead to the end, and each token leads from such a set to the next. -/
namespace ContractPipeline.Compiler

open Json (Token Ending Scanner Spaced IsValue intercalate_comma_cons)

theorem bind_eq_ok_iff {α β : Type} {x : Except ReadFault α} {f : α → Except ReadFault β} {b : β} :
    x >>= f = .ok b ↔ ∃ a, x = .ok a ∧ f a = .ok b := by
  cases x with
  | error fault => simp [bind, Except.bind]
  | ok a => simp [bind, Except.bind]

theorem Draft.give_number {draft : Draft} {field : Field} {isFinite : Bool} :
    ∃ fault, draft.give field (.number isFinite) = .error fault := by
  cases field <;> exact ⟨_, rfl⟩

section Reading

variable {stage : Stage} {scanner : Scanner} {build : Build}

theorem Stage.finish_eq_ok_iff {ending : Ending} :
    stage.finish ending = .ok build ↔ ending = .clean ∧ stage = .finished build := by
  cases stage with
  | finished b =>
    simp only [finish]
    split_ifs with he
    · simp [he]
    · simp [he]
  | _ => simp [finish]

/-- A number never completes a build. -/
theorem Stage.take_number_ne (isFinite : Bool) :
    stage.take (.number isFinite) ≠ .ok (.finished build) := by
  cases stage with
  | value draft field =>
    obtain ⟨fault, hf⟩ := @Draft.give_number draft field isFinite
    simp [take, hf, Except.map]
  | item draft field later =>
    obtain ⟨fault, hf⟩ := @Draft.give_number draft field isFinite
    simp [take, takeItem, hf, Except.map]
  | skip draft frames due =>
    simp only [take]
    cases Skip.take frames due (.number isFinite) with
    | none => simp [ofSkip]
    | some next => cases next <;> simp [ofSkip]
  | colon draft field? => cases field? <;> simp [take]
  | _ => simp [take, takeKey, takeItem, Draft.give, Except.map]

theorem BuildReader.feed_eq_ok_iff {c : Char} {reader : BuildReader} :
    feed ⟨scanner, stage⟩ c = .ok reader ↔
      (scanner.feed c).tokens.foldlM Stage.take stage = .ok reader.stage ∧
        (scanner.feed c).scanner? = some reader.scanner := by
  rw [feed, bind_eq_ok_iff]
  cases (scanner.feed c).scanner? with
  | none => simp [throw, throwThe, MonadExceptOf.throw]
  | some next =>
    obtain ⟨scanner, stage⟩ := reader
    simp only [pure, Except.pure, Except.ok.injEq, mk.injEq, Option.some.injEq]
    constructor
    · rintro ⟨_, hs, rfl, rfl⟩
      exact ⟨hs, rfl⟩
    · rintro ⟨hs, rfl⟩
      exact ⟨stage, hs, rfl, rfl⟩

/-- Reading a text is taking its tokens. -/
theorem BuildReader.foldlM_feed_eq_ok_iff {text : List Char} :
    text.foldlM feed ⟨scanner, stage⟩ >>= finish = .ok build ↔
      ∃ tokens, scanner.tokens? text = some tokens ∧
        tokens.foldlM Stage.take stage = .ok (.finished build) := by
  induction text generalizing scanner stage with
  | nil =>
    change stage.finish scanner.ending = .ok build ↔ _
    rw [Stage.finish_eq_ok_iff]
    cases he : scanner.ending with
    | clean => simp [Scanner.tokens?, he, pure, Except.pure]
    | number isFinite => simp [Scanner.tokens?, he, Stage.take_number_ne]
    | _ => simp [Scanner.tokens?, he]
  | cons c text ih =>
    rw [List.foldlM_cons, bind_assoc, bind_eq_ok_iff]
    simp only [feed_eq_ok_iff, Scanner.tokens?, Option.bind_eq_some_iff, Option.map_eq_some_iff]
    constructor
    · intro h
      obtain ⟨⟨next, middle⟩, ⟨hs, hn⟩, hr⟩ := h
      obtain ⟨tokens, ht, hf⟩ := ih.mp hr
      refine ⟨_, ⟨next, hn, tokens, ht, rfl⟩, ?_⟩
      rw [List.foldlM_append, hs]
      exact hf
    · intro h
      obtain ⟨_, ⟨next, hn, tokens, ht, rfl⟩, hf⟩ := h
      rw [List.foldlM_append, bind_eq_ok_iff] at hf
      obtain ⟨middle, hs, hf⟩ := hf
      exact ⟨⟨next, middle⟩, ⟨hs, hn⟩, ih.mpr ⟨tokens, ht, hf⟩⟩

theorem Build.read_eq_ok_iff {text : String} :
    Build.read text = .ok build ↔
      ∃ tokens, Spaced text.toList tokens ∧
        tokens.foldlM Stage.take .start = .ok (.finished build) := by
  have h := @BuildReader.foldlM_feed_eq_ok_iff .start .between build text.toList
  simp only [Scanner.tokens?_between_iff] at h
  exact h

end Reading

theorem Stage.field?_key (field : Field) : field? field.key = some field := by
  cases field <;> decide

theorem Stage.field?_eq_none {name : String} (h : name ∉ partKeys) : field? name = none := by
  rw [field?, List.find?_eq_none]
  intro field _ hk
  exact h (eq_of_beq hk ▸ field.key_mem_partKeys)

theorem Stage.key_of_field? {name : String} {field : Field} (h : field? name = some field) :
    field.key = name := by
  simpa using List.find?_some h

namespace Stage

variable {draft : Draft} {field : Field} {token : Token} {tokens : List Token} {build : Build}

/-- What follows a member of an object: further members and its end. -/
def FromSeparator (draft : Draft) (tokens : List Token) (build : Build) : Prop :=
  ∃ members, draft.Completes members build ∧
    tokens = (members.map memberTokens).flatMap (.comma :: ·) ++ [.closeRecord]

def FromMember (draft : Draft) (tokens : List Token) (build : Build) : Prop :=
  ∃ member members, draft.Completes (member :: members) build ∧
    tokens = memberTokens member ++ (members.map memberTokens).flatMap (.comma :: ·) ++
      [.closeRecord]

def FromPart (draft : Draft) (field : Field) (tokens : List Token)
    (next : Draft → List Token → Prop) : Prop :=
  ∃ token rest given, tokens = token :: rest ∧ draft.give field token = .ok given ∧ next given rest

/-- What follows an item of a list: the items of these parts and its end. -/
def FromItems (build : Build) : List Field → Draft → List Token → Prop
  | [], draft, tokens => tokens = [.closeList] ∧ draft.build? = some build
  | field :: later, draft, tokens =>
    (tokens = [.closeList] ∧ draft.build? = some build) ∨
      ∃ rest, tokens = .comma :: rest ∧ FromPart draft field rest (FromItems build later)

/-- The tokens that lead from a place in the text of a build to its end. -/
def Leads (build : Build) : Stage → List Token → Prop
  | .start, tokens => Describes tokens build
  | .firstKey draft, tokens =>
    (tokens = [.closeRecord] ∧ draft.build? = some build) ∨ FromMember draft tokens build
  | .key draft, tokens => FromMember draft tokens build
  | .colon draft (some field), tokens =>
    ∃ rest, tokens = .colon :: rest ∧
      FromPart draft field rest (FromSeparator · · build)
  | .colon draft none, tokens =>
    ∃ value rest, tokens = .colon :: (value ++ rest) ∧ IsValue value ∧ FromSeparator draft rest build
  | .value draft field, tokens => FromPart draft field tokens (FromSeparator · · build)
  | .skip draft frames due, tokens =>
    ∃ value rest, tokens = value ++ rest ∧ (Skip.inside frames due).Leads value ∧
      FromSeparator draft rest build
  | .afterValue draft, tokens => FromSeparator draft tokens build
  | .firstItem, tokens =>
    FromPart .empty .compilerPath tokens (FromItems build [.isJavaScript, .version, .longVersion])
  | .item draft field later, tokens => FromPart draft field tokens (FromItems build later)
  | .afterItem draft due, tokens => FromItems build due draft tokens
  | .finished b, tokens => tokens = [] ∧ b = build

theorem fromPart_cons_iff {next : Draft → List Token → Prop} :
    FromPart draft field (token :: tokens) next ↔
      ∃ given, draft.give field token = .ok given ∧ next given tokens := by
  constructor
  · rintro ⟨_, _, given, ht, hg, hn⟩
    cases ht
    exact ⟨given, hg, hn⟩
  · rintro ⟨given, hg, hn⟩
    exact ⟨token, tokens, given, rfl, hg, hn⟩

theorem FromPart.exists_token {next : Draft → List Token → Prop}
    (h : FromPart draft field tokens next) :
    match field with
    | .compilerPath =>
      ∃ path rest, tokens = .text (some path) :: rest ∧
        next { draft with compilerPath := some path } rest
    | .isJavaScript =>
      ∃ b rest, tokens = .bool b :: rest ∧ next { draft with isJavaScript := some b } rest
    | .version =>
      ∃ version rest, tokens = .text (some version) :: rest ∧
        next { draft with version := some version } rest
    | .longVersion =>
      ∃ version rest, tokens = .text (some version) :: rest ∧
        next { draft with longVersion := some version } rest := by
  obtain ⟨_, rest, given, rfl, hg, hn⟩ := h
  rcases Draft.give_cases hg with ⟨path, rfl, rfl, rfl⟩ | ⟨b, rfl, rfl, rfl⟩ |
    ⟨version, rfl, rfl, rfl⟩ | ⟨version, rfl, rfl, rfl⟩
  · exact ⟨path, rest, rfl, hn⟩
  · exact ⟨b, rest, rfl, hn⟩
  · exact ⟨version, rest, rfl, hn⟩
  · exact ⟨version, rest, rfl, hn⟩

theorem take_close_iff :
    tokens = [] ∧ draft.build? = some build ↔
      ∃ next, close draft = .ok next ∧ Leads build next tokens := by
  unfold close
  cases draft.build? with
  | none => simp
  | some b => simp [Leads]

theorem fromSeparator_iff :
    FromSeparator draft tokens build ↔
      (tokens = [.closeRecord] ∧ draft.build? = some build) ∨
        ∃ rest, tokens = .comma :: rest ∧ FromMember draft rest build := by
  constructor
  · rintro ⟨members, hc, rfl⟩
    cases members with
    | nil => exact .inl ⟨rfl, Draft.completes_nil_iff.mp hc⟩
    | cons member members =>
      exact .inr ⟨_, rfl, member, members, hc, rfl⟩
  · rintro (⟨rfl, hb⟩ | ⟨rest, rfl, member, members, hc, rfl⟩)
    · exact ⟨[], Draft.completes_nil_iff.mpr hb, rfl⟩
    · exact ⟨member :: members, hc, rfl⟩

theorem fromMember_iff :
    FromMember draft tokens build ↔
      ∃ name value rest, tokens = .text (some name) :: .colon :: (value ++ rest) ∧
        ((name ∉ partKeys ∧ IsValue value ∧ FromSeparator draft rest build) ∨
          ∃ field token given, field.key = name ∧ draft.has field = false ∧ value = [token] ∧
            draft.give field token = .ok given ∧ FromSeparator given rest build) := by
  constructor
  · rintro ⟨⟨name, value⟩, members, hc, rfl⟩
    refine ⟨name, value, (members.map memberTokens).flatMap (.comma :: ·) ++ [.closeRecord],
      by simp [memberTokens], ?_⟩
    by_cases hn : name ∈ partKeys
    · obtain ⟨field, rfl⟩ := Field.exists_key hn
      obtain ⟨hh, token, given, rfl, hg⟩ := hc.part
      have hc := (Draft.completes_give_iff hh hg).mp hc
      exact .inr ⟨field, token, given, rfl, hh, rfl, hg, members, hc, rfl⟩
    · obtain ⟨hv, hc⟩ := (Draft.completes_other_iff hn).mp hc
      exact .inl ⟨hn, hv, members, hc, rfl⟩
  · rintro ⟨name, value, _, rfl, ⟨hn, hv, members, hc, rfl⟩ |
      ⟨field, token, given, rfl, hh, rfl, hg, members, hc, rfl⟩⟩
    · have hc := (Draft.completes_other_iff hn).mpr ⟨hv, hc⟩
      exact ⟨(name, value), members, hc, by simp [memberTokens]⟩
    · have hc := (Draft.completes_give_iff hh hg).mpr hc
      exact ⟨(field.key, [token]), members, hc, by simp [memberTokens]⟩

/-- A key decides which value is due: that of a part, or any. -/
theorem takeKey_iff :
    FromMember draft (token :: tokens) build ↔
      ∃ next, takeKey draft token = .ok next ∧ Leads build next tokens := by
  rw [fromMember_iff]
  constructor
  · rintro ⟨name, value, rest, ht, ⟨hn, hv, hs⟩ | ⟨field, token, given, rfl, hh, rfl, hg, hs⟩⟩
    · cases ht
      refine ⟨.colon draft none, ?_, value, rest, rfl, hv, hs⟩
      simp only [takeKey, field?_eq_none hn]
    · cases ht
      refine ⟨.colon draft (some field), ?_, _, rfl, token, rest, given, rfl, hg, hs⟩
      simp only [takeKey, field?_key, hh, Bool.false_eq_true, if_false]
  · rintro ⟨next, hn, hl⟩
    unfold takeKey at hn
    split at hn
    case h_1 name =>
      split at hn
      case h_1 field hf =>
        split_ifs at hn with hh
        cases hn
        obtain ⟨_, rfl, token, rest, given, rfl, hg, hs⟩ := hl
        have hh := Bool.eq_false_iff.mpr hh
        exact ⟨name, [token], rest, rfl,
          .inr ⟨field, token, given, key_of_field? hf, hh, rfl, hg, hs⟩⟩
      case h_2 hf =>
        cases hn
        obtain ⟨value, rest, rfl, hv, hs⟩ := hl
        refine ⟨name, value, rest, rfl, .inl ⟨?_, hv, hs⟩⟩
        intro hk
        obtain ⟨field, rfl⟩ := Field.exists_key hk
        rw [field?_key] at hf
        cases hf
    case h_2 => cases hn

theorem takeItem_iff {later : List Field} :
    FromPart draft field (token :: tokens) (FromItems build later) ↔
      ∃ next, takeItem draft field later token = .ok next ∧ Leads build next tokens := by
  rw [fromPart_cons_iff]
  cases hg : draft.give field token with
  | error fault => simp [takeItem, hg, Except.map]
  | ok given => simp [takeItem, hg, Except.map, Leads]

theorem takeValue_iff :
    FromPart draft field (token :: tokens) (FromSeparator · · build) ↔
      ∃ next, (draft.give field token).map .afterValue = .ok next ∧ Leads build next tokens := by
  rw [fromPart_cons_iff]
  cases hg : draft.give field token with
  | error fault => simp [Except.map]
  | ok given => simp [Except.map, Leads]

theorem takeSeparator_iff {due : List Field} :
    FromItems build due draft (token :: tokens) ↔
      ∃ next, take (.afterItem draft due) token = .ok next ∧ Leads build next tokens := by
  cases due with
  | nil =>
    rw [FromItems]
    cases token with
    | closeList => simp [take, take_close_iff]
    | _ => simp [take]
  | cons field later =>
    rw [FromItems]
    cases token with
    | closeList => simp [take, take_close_iff]
    | comma => simp [take, Leads]
    | _ => simp [take]

theorem describes_openRecord_iff :
    Describes (.openRecord :: tokens) build ↔ Leads build (.firstKey .empty) tokens := by
  constructor
  · generalize ht : Token.openRecord :: tokens = all
    intro h
    cases h with
    | @record members _ hp ho =>
      cases ht
      cases members with
      | nil => exact .inl ⟨rfl, Draft.completes_nil_iff.mp ⟨hp, ho⟩⟩
      | cons member members =>
        refine .inr ⟨member, members, ⟨hp, ho⟩, ?_⟩
        rw [List.map_cons, intercalate_comma_cons]
    | list => cases ht
  · rintro (⟨rfl, hb⟩ | ⟨member, members, ⟨hp, ho⟩, rfl⟩)
    · obtain ⟨hp, ho⟩ := Draft.completes_nil_iff.mpr hb
      exact @Describes.record [] build hp ho
    · have hd := Describes.record hp ho
      rwa [List.map_cons, intercalate_comma_cons] at hd

theorem describes_openList_iff :
    Describes (.openList :: tokens) build ↔ Leads build .firstItem tokens := by
  constructor
  · generalize ht : Token.openList :: tokens = all
    intro h
    cases h with
    | record => cases ht
    | @list path _ hp =>
      cases ht
      refine ⟨_, _, _, rfl, rfl, .inr ⟨_, rfl, _, _, _, rfl, rfl, .inr ⟨_, rfl, _, _, _, rfl, rfl,
        .inr ⟨_, rfl, _, _, _, rfl, rfl, rfl, ?_⟩⟩⟩⟩
      simp [Draft.build?, ← hp]
  · intro h
    obtain ⟨path, rest, rfl, hi⟩ := FromPart.exists_token h
    obtain ⟨-, hb⟩ | ⟨_, rfl, hp⟩ := hi
    · cases hb
    obtain ⟨b, rest, rfl, hj⟩ := hp.exists_token
    obtain ⟨-, hb⟩ | ⟨_, rfl, hv⟩ := hj
    · cases hb
    obtain ⟨version, rest, rfl, hk⟩ := hv.exists_token
    obtain ⟨-, hb⟩ | ⟨_, rfl, hl⟩ := hk
    · cases hb
    obtain ⟨longVersion, rest, rfl, rfl, hb⟩ := hl.exists_token
    cases hb
    exact @Describes.list path ⟨.ofString path, b, version, longVersion⟩ rfl

theorem describes_cons_iff :
    Describes (token :: tokens) build ↔
      ∃ next, take .start token = .ok next ∧ Leads build next tokens := by
  cases token with
  | openRecord => simp [take, describes_openRecord_iff]
  | openList => simp [take, describes_openList_iff]
  | _ =>
    simp only [take]
    constructor
    · rintro ⟨⟩
    · rintro ⟨_, ⟨⟩, _⟩

theorem takeSkip_iff {frames : List Frame} {due : Due} :
    Leads build (.skip draft frames due) (token :: tokens) ↔
      ∃ next, take (.skip draft frames due) token = .ok next ∧ Leads build next tokens := by
  simp only [take]
  constructor
  · rintro ⟨value, rest, ht, hv, hs⟩
    cases value with
    | nil => exact absurd hv Skip.not_leads_nil
    | cons first value =>
      cases ht
      obtain ⟨next, hn, hv⟩ := Skip.leads_cons_iff.mp hv
      rw [hn]
      cases next with
      | inside frames due => exact ⟨_, rfl, value, rest, rfl, hv, hs⟩
      | _ =>
        cases hv
        exact ⟨_, rfl, hs⟩
  · rintro ⟨next, hn, hl⟩
    cases hk : Skip.take frames due token with
    | none =>
      rw [hk] at hn
      cases hn
    | some place =>
      rw [hk] at hn
      cases place with
      | inside frames due =>
        cases hn
        obtain ⟨value, rest, rfl, hv, hs⟩ := hl
        exact ⟨token :: value, rest, rfl, Skip.leads_cons_iff.mpr ⟨_, hk, hv⟩, hs⟩
      | _ =>
        cases hn
        exact ⟨[token], tokens, rfl, Skip.leads_cons_iff.mpr ⟨_, hk, rfl⟩, hl⟩

/-- The tokens that lead to the end of a build are those after which the next place does. -/
theorem leads_cons_iff {stage : Stage} :
    Leads build stage (token :: tokens) ↔
      ∃ next, stage.take token = .ok next ∧ Leads build next tokens := by
  -- A stage without a lemma of its own goes on after one token, or two, and refuses all others.
  cases stage with
  | start => exact describes_cons_iff
  | firstKey draft =>
    rw [Leads, takeKey_iff]
    cases token with
    | closeRecord => simp [take, takeKey, take_close_iff]
    | _ => simp [take]
  | key draft =>
    rw [Leads, takeKey_iff]
    simp [take]
  | colon draft field? =>
    cases field? with
    | none =>
      cases token with
      | colon =>
        simp only [take, Except.ok.injEq, exists_eq_left', Leads, Skip.leads_value_iff]
        constructor
        · rintro ⟨value, rest, ht, hv, hs⟩
          cases ht
          exact ⟨value, rest, rfl, ⟨value, [], hv, (List.append_nil value).symm, rfl⟩, hs⟩
        · rintro ⟨_, rest, rfl, ⟨value, _, hv, rfl, rfl⟩, hs⟩
          exact ⟨value, rest, by simp, hv, hs⟩
      | _ => simp [take, Leads]
    | some field =>
      cases token with
      | colon => simp [take, Leads]
      | _ => simp [take, Leads]
  | value draft field => exact takeValue_iff
  | skip draft frames due => exact takeSkip_iff
  | afterValue draft =>
    rw [Leads, fromSeparator_iff]
    cases token with
    | closeRecord => simp [take, take_close_iff]
    | comma => simp [take, Leads]
    | _ => simp [take]
  | firstItem =>
    rw [Leads, takeItem_iff]
    cases token with
    | closeList => simp [take, takeItem, Draft.give, Except.map]
    | _ => simp [take]
  | item draft field later => exact takeItem_iff
  | afterItem draft due => exact takeSeparator_iff
  | finished b => simp [Leads, take]

theorem leads_nil_iff {stage : Stage} : Leads build stage [] ↔ stage = .finished build := by
  cases stage with
  | finished b => simp [Leads]
  | start =>
    simp only [Leads, reduceCtorEq, iff_false]
    rintro ⟨⟩
  | skip draft frames due =>
    simp only [Leads, reduceCtorEq, iff_false]
    rintro ⟨value, rest, ht, hv, -⟩
    obtain ⟨rfl, rfl⟩ := List.append_eq_nil_iff.mp ht.symm
    exact Skip.not_leads_nil hv
  | colon draft field? => cases field? <;> simp [Leads]
  | afterItem draft due => cases due <;> simp [Leads, FromItems]
  | _ => simp [Leads, FromMember, FromSeparator, FromPart, memberTokens]

theorem foldlM_take_eq_ok_iff {stage : Stage} :
    tokens.foldlM take stage = .ok (.finished build) ↔ Leads build stage tokens := by
  -- Each token is one step, in both directions, so nothing but the two ends is left to look at.
  induction tokens generalizing stage with
  | nil =>
    rw [leads_nil_iff]
    simp [pure, Except.pure]
  | cons token tokens ih =>
    rw [List.foldlM_cons, bind_eq_ok_iff, leads_cons_iff]
    simp only [ih]

end Stage

theorem Build.read_eq_ok_iff_leads {text : String} {build : Build} :
    Build.read text = .ok build ↔
      ∃ tokens, Spaced text.toList tokens ∧ Stage.Leads build .start tokens := by
  simp only [Build.read_eq_ok_iff, Stage.foldlM_take_eq_ok_iff]

theorem Build.read_of_describes {text : String} {tokens : List Token} {build : Build}
    (hs : Spaced text.toList tokens) (hd : Describes tokens build) : Build.read text = .ok build :=
  Build.read_eq_ok_iff_leads.mpr ⟨tokens, hs, hd⟩

/-- A text is read as a build if and only if it is, with blanks around the tokens, one of the forms
of that build. No bound on the depth or the numbers of what other members hold matters, and a part
that is missing, repeated or of another kind is never accepted. -/
theorem Build.reads_iff_describes (text : String) (build : Build) :
    Build.read text = .ok build ↔ ∃ tokens, Spaced text.toList tokens ∧ Describes tokens build :=
  Build.read_eq_ok_iff_leads

end ContractPipeline.Compiler
