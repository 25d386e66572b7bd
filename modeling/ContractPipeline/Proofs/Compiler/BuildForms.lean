import ContractPipeline.Compiler.BuildReader
import ContractPipeline.Proofs.Json.Grammar

/-! The forms of a build as tokens: the objects in which each part stands once under its key, among
members with other keys, and the lists of the four parts. -/
namespace ContractPipeline.Compiler

open Json (Token IsValue)

def partKeys : List String := ["compilerPath", "isSolcJs", "version", "longVersion"]

/-- The members of an object that hold the parts of a build with a path. -/
def partMembers (path : String) (build : Build) : List (String × List Token) :=
  [("compilerPath", [.text (some path)]), ("isSolcJs", [.bool build.isJavaScript]),
    ("version", [.text (some build.version)]), ("longVersion", [.text (some build.longVersion)])]

/-- Members that are the parts of a build in any order. -/
def Holds (members : List (String × List Token)) (build : Build) : Prop :=
  ∃ path, build.compilerPath = .ofString path ∧ members.Perm (partMembers path build)

def memberTokens (member : String × List Token) : List Token :=
  .text (some member.1) :: .colon :: member.2

/-- The tokens that describe a build: an object in which the members with the keys of parts are the
parts, and the others are any values; or a list of the parts. -/
inductive Describes : List Token → Build → Prop
  | record {members : List (String × List Token)} {build : Build}
      (hp : Holds (members.filter (·.1 ∈ partKeys)) build)
      (ho : ∀ member ∈ members, member.1 ∉ partKeys → IsValue member.2) :
      Describes (.openRecord :: ([.comma].intercalate (members.map memberTokens) ++ [.closeRecord]))
        build
  | list {path : String} {build : Build} (hp : build.compilerPath = .ofString path) :
      Describes [.openList, .text (some path), .comma, .bool build.isJavaScript, .comma,
        .text (some build.version), .comma, .text (some build.longVersion), .closeList] build

theorem Holds.congr {members more : List (String × List Token)} {build : Build}
    (h : members.Perm more) : Holds members build ↔ Holds more build := by
  constructor
  · rintro ⟨path, hb, hp⟩
    exact ⟨path, hb, h.symm.trans hp⟩
  · rintro ⟨path, hb, hp⟩
    exact ⟨path, hb, h.trans hp⟩

theorem Field.key_mem_partKeys (field : Field) : field.key ∈ partKeys := by
  cases field <;> decide

theorem Field.exists_key {name : String} (h : name ∈ partKeys) :
    ∃ field : Field, field.key = name := by
  simp only [partKeys, List.mem_cons, List.not_mem_nil, or_false] at h
  rcases h with rfl | rfl | rfl | rfl
  · exact ⟨.compilerPath, rfl⟩
  · exact ⟨.isJavaScript, rfl⟩
  · exact ⟨.version, rfl⟩
  · exact ⟨.longVersion, rfl⟩

namespace Draft

def members (draft : Draft) : List (String × List Token) :=
  (draft.compilerPath.map fun path => ("compilerPath", [.text (some path)])).toList ++
    (draft.isJavaScript.map fun b => ("isSolcJs", [.bool b])).toList ++
    (draft.version.map fun version => ("version", [.text (some version)])).toList ++
    (draft.longVersion.map fun version => ("longVersion", [.text (some version)])).toList

/-- Members that complete a draft to a build: those of the missing parts, and any others. -/
def Completes (draft : Draft) (members : List (String × List Token)) (build : Build) : Prop :=
  Holds (draft.members ++ members.filter (·.1 ∈ partKeys)) build ∧
    ∀ member ∈ members, member.1 ∉ partKeys → IsValue member.2

variable {draft next : Draft} {field : Field} {token : Token} {value : List Token} {name : String}
  {more : List (String × List Token)} {build : Build}

theorem exists_mem_members (h : draft.has field = true) :
    ∃ value, (field.key, value) ∈ draft.members := by
  cases field with
  | compilerPath | isJavaScript | version | longVersion =>
    obtain ⟨x, hx⟩ := Option.isSome_iff_exists.mp h
    simp [members, hx, Field.key]

theorem exists_give {path : String} (h : (field.key, value) ∈ partMembers path build) :
    ∃ token next, value = [token] ∧ draft.give field token = .ok next := by
  cases field with
  | compilerPath | isJavaScript | version | longVersion =>
    simp only [Field.key, partMembers, List.mem_cons, Prod.mk.injEq] at h
    simp at h
    exact ⟨_, _, h, rfl⟩

theorem give_cases (hg : draft.give field token = .ok next) :
    (∃ path, field = .compilerPath ∧ token = .text (some path) ∧
      next = { draft with compilerPath := some path }) ∨
    (∃ b, field = .isJavaScript ∧ token = .bool b ∧ next = { draft with isJavaScript := some b }) ∨
    (∃ version, field = .version ∧ token = .text (some version) ∧
      next = { draft with version := some version }) ∨
    (∃ version, field = .longVersion ∧ token = .text (some version) ∧
      next = { draft with longVersion := some version }) := by
  unfold give at hg
  split at hg
  · cases hg
    exact .inl ⟨_, rfl, rfl, rfl⟩
  · cases hg
    exact .inr (.inl ⟨_, rfl, rfl, rfl⟩)
  · cases hg
    exact .inr (.inr (.inl ⟨_, rfl, rfl, rfl⟩))
  · cases hg
    exact .inr (.inr (.inr ⟨_, rfl, rfl, rfl⟩))
  · cases hg

/-- The value of a missing part adds its member. -/
theorem members_give (hh : draft.has field = false) (hg : draft.give field token = .ok next) :
    next.members.Perm ((field.key, [token]) :: draft.members) := by
  have hn {α : Type} {x : Option α} (hx : x.isSome = false) : x = none :=
    Option.not_isSome_iff_eq_none.mp (Bool.eq_false_iff.mp hx)
  rw [List.perm_iff_count]
  intro member
  rcases give_cases hg with ⟨path, rfl, rfl, rfl⟩ | ⟨b, rfl, rfl, rfl⟩ | ⟨version, rfl, rfl, rfl⟩ |
    ⟨version, rfl, rfl, rfl⟩
  · simp [members, hn hh, Field.key]
  · simp [members, hn hh, Field.key, List.count_append, List.count_cons]
    omega
  · simp [members, hn hh, Field.key, List.count_append, List.count_cons]
    omega
  · simp [members, hn hh, Field.key, List.count_append, List.count_cons]
    omega

theorem completes_nil_iff : draft.Completes [] build ↔ draft.build? = some build := by
  obtain ⟨path?, isJavaScript?, version?, longVersion?⟩ := draft
  constructor
  · intro h
    obtain ⟨⟨path, hb, hp⟩, -⟩ := h
    obtain ⟨_, isJavaScript, version, longVersion⟩ := build
    cases hb
    have hm : ∀ member ∈ partMembers path ⟨.ofString path, isJavaScript, version, longVersion⟩,
        member ∈ members ⟨path?, isJavaScript?, version?, longVersion?⟩ := by
      intro member h
      simpa using hp.mem_iff.mpr h
    simp only [partMembers, List.forall_mem_cons] at hm
    obtain ⟨h1, h2, h3, h4, -⟩ := hm
    obtain rfl : path? = some path := by simpa [members] using h1
    obtain rfl : isJavaScript? = some isJavaScript := by simpa [members] using h2
    obtain rfl : version? = some version := by simpa [members] using h3
    obtain rfl : longVersion? = some longVersion := by simpa [members] using h4
    rfl
  · intro h
    simp only [build?, Option.bind_eq_bind, Option.bind_eq_some_iff, Option.pure_def,
      Option.some.injEq] at h
    obtain ⟨path, rfl, isJavaScript, rfl, version, rfl, longVersion, rfl, rfl⟩ := h
    exact ⟨⟨path, rfl, .refl _⟩, nofun⟩

theorem completes_other_iff (hn : name ∉ partKeys) :
    draft.Completes ((name, value) :: more) build ↔ IsValue value ∧ draft.Completes more build := by
  simp only [Completes, List.forall_mem_cons, List.filter_cons, hn, decide_false, if_false,
    not_false_eq_true, true_implies, Bool.false_eq_true]
  exact and_left_comm

theorem completes_part_iff :
    draft.Completes ((field.key, value) :: more) build ↔
      Holds ((field.key, value) :: draft.members ++ more.filter (·.1 ∈ partKeys)) build ∧
        ∀ member ∈ more, member.1 ∉ partKeys → IsValue member.2 := by
  have hk := field.key_mem_partKeys
  simp only [Completes, List.forall_mem_cons, List.filter_cons, hk, decide_true, if_true,
    not_true_eq_false, false_implies, true_and, Holds.congr List.perm_middle, List.cons_append]

theorem completes_give_iff (hh : draft.has field = false)
    (hg : draft.give field token = .ok next) :
    draft.Completes ((field.key, [token]) :: more) build ↔ next.Completes more build := by
  have hp := (members_give hh hg).append_right (more.filter (·.1 ∈ partKeys))
  rw [completes_part_iff, Completes, Holds.congr hp]

/-- A part that completes a draft is missing in it, and has the kind of value that is due. -/
theorem Completes.part (h : draft.Completes ((field.key, value) :: more) build) :
    draft.has field = false ∧ ∃ token next, value = [token] ∧ draft.give field token = .ok next := by
  obtain ⟨⟨path, hb, hp⟩, -⟩ := completes_part_iff.mp h
  constructor
  · rw [Bool.eq_false_iff]
    intro hh
    obtain ⟨earlier, hm⟩ := exists_mem_members hh
    have hn : ((partMembers path build).map Prod.fst).Nodup := by
      change partKeys.Nodup
      decide
    rw [← (hp.map Prod.fst).nodup_iff, List.cons_append, List.map_cons, List.nodup_cons] at hn
    have hk : field.key ∈ draft.members.map Prod.fst := List.mem_map_of_mem (f := Prod.fst) hm
    apply hn.1
    rw [List.map_append]
    exact List.mem_append_left _ hk
  · exact exists_give (hp.mem_iff.mp List.mem_cons_self)

end Draft

end ContractPipeline.Compiler
