import ContractPipeline.Proofs.Compiler.RoundTrip
import ContractPipeline.Proofs.Json.Cuts

/-! Texts of builds that are cut short. Wherever the cut falls, reading ends for want of more text,
as what was read so far can still go on. -/
namespace ContractPipeline.Compiler

open Json (Token Ending Scanner Spaced)

theorem Draft.faultBeforeValue_of_growsTo {draft given : Draft} {field : Field} {token : Token}
    {ending : Ending} (h : draft.give field token = .ok given) (hg : ending.GrowsTo token) :
    Stage.faultBeforeValue ending = .cutShort := by
  rcases Draft.give_cases h with ⟨path, -, rfl, -⟩ | ⟨b, -, rfl, -⟩ | ⟨version, -, rfl, -⟩ |
    ⟨version, -, rfl, -⟩
  all_goals
    cases hg
    rfl

theorem Skip.faultAtEnd_of_growsTo {frames : List Frame} {due : Due} {token : Token} {next : Skip}
    {ending : Ending} (h : Skip.take frames due token = some next) (hg : ending.GrowsTo token)
    (hn : ∀ isFinite, token ≠ .number isFinite) : faultAtEnd frames due ending = .cutShort := by
  cases hg with
  | number | partNumber => exact absurd rfl (hn _)
  | null | bool b =>
    cases due with
    | value => rfl
    | first =>
      rcases frames with _ | ⟨_ | _, outer⟩
      · cases h
      · rfl
      · cases h
    | separator => rcases frames with _ | ⟨_ | _, outer⟩ <;> cases h
    | key | colon => cases h
  | text text? | broken =>
    cases due with
    | value | first | key => rfl
    | separator => rcases frames with _ | ⟨_ | _, outer⟩ <;> cases h
    | colon => cases h

namespace Stage

variable {stage next : Stage} {token : Token} {ending : Ending} {draft : Draft}

theorem faultBeforeKey_of_growsTo (h : takeKey draft token = .ok next) (hg : ending.GrowsTo token) :
    faultBeforeKey ending = .cutShort := by
  unfold takeKey at h
  split at h
  · cases hg
    rfl
  · cases h

theorem finish_of_growsTo (h : stage.take token = .ok next) (hg : ending.GrowsTo token)
    (hn : ∀ isFinite, token ≠ .number isFinite) : stage.finish ending = .error .cutShort := by
  have hvalue {draft : Draft} {field : Field} {f : Draft → Stage}
      (h : (draft.give field token).map f = .ok next) :
      faultBeforeValue ending = .cutShort := by
    cases hd : draft.give field token with
    | error fault =>
      rw [hd] at h
      cases h
    | ok given => exact Draft.faultBeforeValue_of_growsTo hd hg
  cases stage with
  | start => cases hg <;> cases h
  | firstKey draft =>
    have hk : takeKey draft token = .ok next := by cases hg <;> exact h
    exact congrArg _ (faultBeforeKey_of_growsTo hk hg)
  | key draft => exact congrArg _ (faultBeforeKey_of_growsTo h hg)
  | colon draft field? => cases field? <;> cases hg <;> cases h
  | value draft field => exact congrArg _ (hvalue h)
  | skip draft frames due =>
    cases hs : Skip.take frames due token with
    | none =>
      rw [take, hs] at h
      cases h
    | some place => exact congrArg _ (Skip.faultAtEnd_of_growsTo hs hg hn)
  | afterValue draft => cases hg <;> cases h
  | firstItem =>
    have hi : takeItem .empty .compilerPath [.isJavaScript, .version, .longVersion] token =
        .ok next := by cases hg <;> exact h
    exact congrArg _ (hvalue hi)
  | item draft field later => exact congrArg _ (hvalue h)
  | afterItem draft due => cases due <;> cases hg <;> cases h
  | finished build => cases h

theorem finish_clean (h : ∀ build, stage ≠ .finished build) :
    stage.finish .clean = .error .cutShort := by
  cases stage with
  | finished build => exact absurd rfl (h build)
  | _ => rfl

end Stage

section Cuts

variable {scanner next : Scanner} {stage last : Stage} {text : List Char} {build : Build}

/-- Reading part of a text is taking the tokens that it completes. -/
theorem BuildReader.exists_takes_of_foldlM_feed
    (h : text.foldlM feed ⟨scanner, stage⟩ = .ok ⟨next, last⟩) :
    ∃ tokens, scanner.Takes text tokens next ∧ tokens.foldlM Stage.take stage = .ok last := by
  induction text generalizing scanner stage with
  | nil =>
    cases h
    exact ⟨[], .nil _, rfl⟩
  | cons c text ih =>
    rw [List.foldlM_cons, bind_eq_ok_iff] at h
    obtain ⟨⟨middle, between⟩, hc, hr⟩ := h
    obtain ⟨hs, hf⟩ := feed_eq_ok_iff.mp hc
    obtain ⟨tokens, ht, hl⟩ := ih hr
    refine ⟨_, .cons hf ht, ?_⟩
    rw [List.foldlM_append, hs]
    exact hl

/-- Nothing follows the end of a build. -/
theorem Stage.eq_nil_of_foldlM_finished {tokens : List Token}
    (h : tokens.foldlM take (.finished build) = .ok last) : tokens = [] := by
  cases tokens with
  | nil => rfl
  | cons token tokens => cases h

/-- A text of a build without numbers in it is read up to its last token: where it is cut, its end is
missing. -/
theorem Build.read_of_cut {cut rest : String} {tokens : List Token}
    (hs : Spaced (cut ++ rest).toList tokens) (hd : Describes tokens build)
    (hn : ∀ isFinite, .number isFinite ∉ tokens)
    (hr : ∃ c ∈ rest.toList, Scanner.isBlank c = false) : Build.read cut = .error .cutShort := by
  have hread := Build.read_of_describes hs hd
  rw [Build.read, String.toList_append, List.foldlM_append, bind_assoc, bind_eq_ok_iff] at hread
  obtain ⟨⟨scanner, stage⟩, hcut, hrest⟩ := hread
  obtain ⟨taken, htaken, hstage⟩ := BuildReader.exists_takes_of_foldlM_feed hcut
  obtain ⟨later, hlater, hfinish⟩ := BuildReader.foldlM_feed_eq_ok_iff.mp hrest
  have hknown := htaken.knowsWord trivial
  have htokens : tokens = taken ++ later := by
    have hall := htaken.tokens?_append rest.toList
    rw [hlater, ← String.toList_append, Scanner.tokens?_of_spaced hs] at hall
    exact Option.some.inj hall
  have hfinal : Build.read cut = stage.finish scanner.ending := by
    rw [Build.read, hcut]
    rfl
  rw [hfinal]
  by_cases he : scanner.ending = .clean
  · rw [he]
    refine Stage.finish_clean fun other ho => ?_
    -- After the last token nothing but blanks is left.
    subst ho
    obtain rfl := Stage.eq_nil_of_foldlM_finished hfinish
    obtain rfl := Scanner.eq_between_of_ending he
    obtain ⟨c, hc, hb⟩ := hr
    have hblank := (Scanner.tokens?_between_iff.mp hlater).isBlank_of_nil c hc
    rw [hb] at hblank
    cases hblank
  · obtain ⟨token, more, rfl, hg⟩ := Scanner.exists_growsTo hknown he hlater
    rw [List.foldlM_cons, bind_eq_ok_iff] at hfinish
    obtain ⟨next, htake, -⟩ := hfinish
    refine Stage.finish_of_growsTo htake hg fun isFinite ht => hn isFinite ?_
    rw [htokens, ht]
    exact List.mem_append_right _ List.mem_cons_self

end Cuts

theorem Build.number_notMem_tokens {build : Build} {json : Json.Value}
    (h : build.toJson? = some json) (isFinite : Bool) : .number isFinite ∉ json.tokens := by
  obtain ⟨path, -, rfl⟩ := Option.map_eq_some_iff.mp h
  simp [Json.Value.tokens, Json.memberTokens]

/-- The JSON form of a build ends in a brace in both layouts. -/
theorem Build.exists_toList {build : Build} {json : Json.Value} (h : build.toJson? = some json) :
    (∃ init, json.toCompact.toList = init ++ ['\x7d']) ∧
      ∃ init, json.toPretty.toList = init ++ ['\x7d'] := by
  obtain ⟨path, -, rfl⟩ := Option.map_eq_some_iff.mp h
  constructor
  · rw [Json.Value.toCompact, String.toList_ofList, Json.compact]
    exact ⟨_, rfl⟩
  · rw [Json.Value.toPretty, String.toList_ofList, Json.pretty]
    · exact ⟨_, rfl⟩
    · simp

/-- What is left of a text that does not end in a blank is not blank. -/
theorem exists_not_isBlank {cut rest : String} {init : List Char} {c : Char}
    (h : (cut ++ rest).toList = init ++ [c]) (hr : rest ≠ "") (hc : Scanner.isBlank c = false) :
    ∃ d ∈ rest.toList, Scanner.isBlank d = false := by
  have hne : rest.toList ≠ [] := mt String.toList_eq_nil_iff.mp hr
  obtain ⟨before, d, hd⟩ := (List.eq_nil_or_concat rest.toList).resolve_left hne
  rw [List.concat_eq_append] at hd
  rw [String.toList_append, hd, ← List.append_assoc] at h
  obtain ⟨-, hlast⟩ := List.append_inj' h rfl
  refine ⟨d, hd ▸ List.mem_append_right _ (List.mem_singleton_self d), ?_⟩
  rwa [List.singleton_inj.mp hlast]

/-- However the JSON form of a build is cut short, reading what is left of it finds the end too
early, and never a build, a sign out of place or a part that is missing. -/
theorem Build.read_cut (build : Build) (path : String)
    (h : build.compilerPath.toString? = some path) :
    ∃ json, build.toJson? = some json ∧ ∀ text cut rest : String,
      (text = json.toCompact ∨ text = json.toPretty) → text = cut ++ rest → rest ≠ "" →
      Build.read cut = .error .cutShort := by
  obtain ⟨json, hj⟩ := Build.exists_toJson? h
  obtain ⟨⟨compactInit, hc⟩, prettyInit, hp⟩ := Build.exists_toList hj
  have hd := Build.describes_toJson? hj
  have hn := Build.number_notMem_tokens hj
  have hb : Scanner.isBlank '\x7d' = false := by decide
  refine ⟨json, hj, ?_⟩
  rintro text cut rest (rfl | rfl) ht hr
  · have hs := Json.spaced_toCompact json
    rw [ht] at hs hc
    exact Build.read_of_cut hs hd hn (exists_not_isBlank hc hr hb)
  · have hs := Json.spaced_toPretty json Json.noDigitFirst_nil .nil
    rw [List.append_nil, ht] at hs
    rw [ht] at hp
    exact Build.read_of_cut hs hd hn (exists_not_isBlank hp hr hb)

theorem Build.read_cut_in_escape :
    let build : Build := ⟨.ofString "a\"", true, "0.8.0", "0.8.0"⟩
    let cut : String := "\x7b\"compilerPath\":\"a\\"
    build.compilerPath.toString? = some "a\"" ∧
      (∃ json rest, build.toJson? = some json ∧ json.toCompact = cut ++ rest ∧ rest ≠ "") ∧
      Build.read cut = .error .cutShort := by
  intro build cut
  have hpath : build.compilerPath.toString? = some "a\"" := by rfl
  let rest := "\"\",\"isSolcJs\":true,\"version\":\"0.8.0\",\"longVersion\":\"0.8.0\"\x7d"
  obtain ⟨json, hj, hcut⟩ := Build.read_cut build "a\"" hpath
  have hrest : json.toCompact = cut ++ rest := by
    cases hj
    decide
  have hne : rest ≠ "" := by decide
  exact ⟨hpath, ⟨json, rest, hj, hrest, hne⟩, hcut _ cut rest (.inl rfl) hrest hne⟩

end ContractPipeline.Compiler
