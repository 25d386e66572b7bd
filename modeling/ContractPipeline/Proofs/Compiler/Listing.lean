import ContractPipeline.Proofs.Compiler.Containment
import ContractPipeline.Proofs.Text.RoundTrip

/-! The listing of the cache beside the lookup of a version. The listing shows the folders among the
entries, under any name, and no links. The lookup follows links, and takes few names. -/
namespace ContractPipeline.Compiler.Cache

open Storage (FileTree Lists Node)

def HoldsProgram (cache : Cache) (tree : FileTree) (version : String) : Prop :=
  cache.holds tree version nativeName = true ∨ cache.holds tree version scriptName = true

/-- A build of a version is found, be it that its long version cannot be read. -/
def Finds (cache : Cache) (tree : FileTree) (version : String) : Prop :=
  (∃ build, cache.find tree version = .ok build) ∨
    cache.find tree version = .error (.io .invalidText)

variable {cache : Cache} {tree : FileTree} {version : String}
  {entries : List (Bytes × Node)}

theorem isSome_program?_iff :
    (cache.program? tree version).isSome = true ↔ cache.HoldsProgram tree version := by
  unfold program? HoldsProgram
  by_cases hn : cache.holds tree version nativeName = true
  · simp [hn]
  by_cases hs : cache.holds tree version scriptName = true
  · simp [hn, hs]
  · simp [hn, hs]

theorem longVersion_ok_or_invalidText (cache : Cache) (tree : FileTree) (version : String) :
    (∃ longVersion, cache.longVersion tree version = .ok longVersion) ∨
      cache.longVersion tree version = .error (.io .invalidText) := by
  unfold longVersion
  split
  · exact .inl ⟨_, rfl⟩
  split
  · exact .inr rfl
  · exact .inl ⟨_, rfl⟩

/-- What is found is what has an accepted name and a program. -/
theorem finds_iff :
    cache.Finds tree version ↔ accepts version = true ∧ cache.HoldsProgram tree version := by
  rw [← isSome_program?_iff, Finds]
  cases ha : accepts version with
  | false => simp [find_of_not_accepts ha]
  | true =>
    rw [find, if_pos ha]
    cases hp : cache.program? tree version with
    | none => simp
    | some program =>
      rcases longVersion_ok_or_invalidText cache tree version with ⟨longVersion, hl⟩ | hl
      · simp [hl, Except.map]
      · simp [hl, Except.map]

theorem versions_eq (h : tree.find? cache.directory = some (.folder entries)) :
    cache.versions tree = .ok (Version.sortNames (entries.filterMap folderName?)) := by
  rw [versions, h]

/-- Every folder whose name is a text is listed under it. -/
theorem mem_sortNames_of_lookup {inner : List (Bytes × Node)}
    (h : entries.lookup (.ofString version) = some (.folder inner)) :
    version ∈ Version.sortNames (entries.filterMap folderName?) := by
  obtain ⟨before, after, rfl, -⟩ := List.lookup_eq_some_iff.mp h
  refine List.mem_mergeSort.mpr (List.mem_filterMap.mpr ⟨(.ofString version, .folder inner), ?_, ?_⟩)
  · exact List.mem_append_right _ List.mem_cons_self
  · exact congrArg some (Bytes.toStringLossy_ofString version)

/-- A program of a version that cannot step out of the cache lies in a folder among the entries, or
behind a link there. -/
theorem exists_lists_of_holdsProgram
    (hd : tree.find? cache.directory = some (.folder entries))
    (ha : accepts version = true) (hh : version ≠ ".") (hu : version ≠ "..")
    (h : cache.HoldsProgram tree version) :
    ∃ inner, Lists entries (.ofString version) (.folder inner) := by
  obtain ⟨name, hn, hf⟩ : ∃ name ∈ fileNames, cache.holds tree version name = true := by
    rcases h with h | h
    · exact ⟨nativeName, by decide, h⟩
    · exact ⟨scriptName, by decide, h⟩
  obtain ⟨contents, hc⟩ := Option.isSome_iff_exists.mp hf
  have hfile : tree.find? (cache.path version name) = some (.file contents) :=
    (tree.file?_eq_some_iff _ contents).mp hc
  -- The entries are those of the folder that the path of the cache leads to.
  obtain ⟨⟨inner, entries', hi, hl⟩, -⟩ := staysInside_of_ne ha hh hu cache tree name _ hn hfile
  cases hd.symm.trans (FileTree.find?_of_within (FileTree.bytes_ne_nil_of_find? hd) hi)
  exact ⟨inner, hl⟩

/-- Apart from the names that stand for the cache itself and for what it lies in, a version is found
exactly if it is accepted, is listed or else behind a link, and has a program. -/
theorem finds_iff_listed
    (hd : tree.find? cache.directory = some (.folder entries)) :
    ∃ listed, cache.versions tree = .ok listed ∧
      ∀ version, version ≠ "." → version ≠ ".." →
        (cache.Finds tree version ↔ accepts version = true ∧
          (version ∈ listed ∨ ∃ target, entries.lookup (.ofString version) = some (.link target)) ∧
          cache.HoldsProgram tree version) ∧
        (accepts version = false →
          cache.find tree version = .error (.invalidVersion version)) := by
  refine ⟨_, versions_eq hd, fun version hh hu => ⟨?_, fun ha => find_of_not_accepts ha _ _⟩⟩
  rw [finds_iff]
  constructor
  · rintro ⟨ha, hp⟩
    refine ⟨ha, ?_, hp⟩
    obtain ⟨inner, hl | hl⟩ := exists_lists_of_holdsProgram hd ha hh hu hp
    · exact .inl (mem_sortNames_of_lookup hl)
    · exact .inr hl
  -- The lookup does not ask how the folder stands among the entries.
  · rintro ⟨ha, -, hp⟩
    exact ⟨ha, hp⟩

theorem finds_iff_listed_ordinary_version :
    let tree : FileTree := ⟨.folder [(.ofString "cache", .folder [(.ofString "0.8.19",
      .folder [(.ofString "solc", .file [])])])], []⟩
    ∃ listed, (⟨"cache"⟩ : Cache).versions tree = .ok listed ∧
      (⟨"cache"⟩ : Cache).Finds tree "0.8.19" ∧ "0.8.19" ∈ listed ∧
      (⟨"cache"⟩ : Cache).find tree "0.8 19" = .error (.invalidVersion "0.8 19") := by
  intro tree
  obtain ⟨listed, hv, h⟩ := @finds_iff_listed ⟨"cache"⟩ tree _ rfl
  have hf : (⟨"cache"⟩ : Cache).Finds tree "0.8.19" := .inl ⟨_, rfl⟩
  obtain ⟨-, hm | ⟨target, hl⟩, -⟩ := (h "0.8.19" (by decide) (by decide)).1.mp hf
  · exact ⟨listed, hv, hf, hm, (h "0.8 19" (by decide) (by decide)).2 (by decide)⟩
  · cases hl

/-- A cache with a program under a name that is not accepted. -/
def spacedName : FileTree where
  root := .folder [(.ofString "cache", .folder [(.ofString "a b",
    .folder [(.ofString "solc", .file [])])])]
  working := []

/-- A cache with a link to a folder that lies elsewhere. -/
def linkedVersion : FileTree where
  root := .folder [(.ofString "cache", .folder [(.ofString "0.8.0", .link (.ofString "../store"))]),
    (.ofString "store", .folder [(.ofString "solc", .file [])])]
  working := []

theorem finds_unlike_listed :
    (⟨"cache"⟩ : Cache).versions spacedName = .ok ["a b"] ∧
    (⟨"cache"⟩ : Cache).HoldsProgram spacedName "a b" ∧
    (⟨"cache"⟩ : Cache).find spacedName "a b" = .error (.invalidVersion "a b") ∧
    (⟨"cache"⟩ : Cache).versions linkedVersion = .ok [] ∧
    (⟨"cache"⟩ : Cache).Finds linkedVersion "0.8.0" ∧
    (⟨"cache"⟩ : Cache).versions strayPrograms = .ok [] ∧
    (⟨"cache"⟩ : Cache).Finds strayPrograms "." ∧
    ¬∀ (cache : Cache) (tree : FileTree) (entries : List (Bytes × Node)) (version : String),
      tree.find? cache.directory = some (.folder entries) →
      ∃ listed, cache.versions tree = .ok listed ∧
        (cache.Finds tree version ↔ version ∈ listed ∧ cache.HoldsProgram tree version) := by
  have hs : (⟨"cache"⟩ : Cache).versions spacedName = .ok ["a b"] := by
    rw [@versions_eq ⟨"cache"⟩ spacedName _ rfl]
    exact congrArg Except.ok (List.mergeSort_singleton _)
  have hp : (⟨"cache"⟩ : Cache).HoldsProgram spacedName "a b" := .inl rfl
  have hl : (⟨"cache"⟩ : Cache).HoldsProgram linkedVersion "0.8.0" := .inl (by decide +kernel)
  refine ⟨hs, hp, rfl, ?_, finds_iff.mpr ⟨by decide, hl⟩, ?_, .inl ⟨_, rfl⟩, fun h => ?_⟩
  · rw [@versions_eq ⟨"cache"⟩ linkedVersion _ rfl]
    exact congrArg Except.ok List.mergeSort_nil
  · rw [@versions_eq ⟨"cache"⟩ strayPrograms _ rfl]
    exact congrArg Except.ok List.mergeSort_nil
  · obtain ⟨listed, hv, hi⟩ := h ⟨"cache"⟩ spacedName _ "a b" rfl
    cases hs.symm.trans hv
    obtain ⟨ha, -⟩ := finds_iff.mp (hi.mpr ⟨List.mem_singleton_self _, hp⟩)
    exact absurd ha (by decide)

end ContractPipeline.Compiler.Cache
