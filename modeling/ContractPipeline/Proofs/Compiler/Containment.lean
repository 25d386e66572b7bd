import ContractPipeline.Compiler.Cache
import ContractPipeline.Proofs.Storage.Folder

/-! Where the cache reads its files: in the folder of a version, which lies in the cache unless the
version is one of the two names that stand for a folder itself and for the folder above. -/
namespace ContractPipeline.Compiler.Cache

open Storage (FileTree Lists Node Path)
open Storage.FileTree (ProperName)

def fileNames : List String :=
  [nativeName, scriptName, longVersionName]

/-- All files of a version are read in a folder that is itself an entry of the cache. -/
def StaysInside (version : String) : Prop :=
  ∀ (cache : Cache) (tree : FileTree) (name : String) (node : Node), name ∈ fileNames →
    tree.find? (cache.path version name) = some node →
    (∃ inner, tree.ReadsIn (cache.directory.join ".") (.ofString version)
      (.folder inner)) ∧
    tree.ReadsIn (cache.directory.join version) (.ofString name) node

theorem accepts_iff (version : String) :
    accepts version = true ↔ version ≠ "" ∧ ∀ c ∈ version.toList, allowed c = true := by
  simp [accepts]

theorem slash_notMem_of_accepts {version : String} (h : accepts version = true) :
    '/' ∉ version.toList := fun hs =>
  absurd (((accepts_iff version).mp h).2 '/' hs) (by decide)

theorem ofString_ne_nil {version : String} (h : accepts version = true) :
    Bytes.ofString version ≠ [] := fun he =>
  ((accepts_iff version).mp h).1 (Bytes.ofString_injective he)

theorem separator_notMem {version : String} (h : accepts version = true) :
    Path.separator ∉ Bytes.ofString version := fun hs =>
  slash_notMem_of_accepts h (Storage.slash_mem_of_separator_mem hs)

theorem accepts_here : accepts "." = true := by decide

theorem accepts_above : accepts ".." = true := by decide

theorem properName_of_accepts {version : String} (h : accepts version = true)
    (hh : version ≠ ".") (ha : version ≠ "..") : ProperName (Bytes.ofString version) where
  ne_nil := ofString_ne_nil h
  separator_notMem := separator_notMem h
  ne_here he := hh (Bytes.ofString_injective he)
  ne_above he := ha (Bytes.ofString_injective he)

theorem properName_of_mem {name : String} (h : name ∈ fileNames) :
    ProperName (Bytes.ofString name) := by
  simp only [fileNames, List.mem_cons, List.not_mem_nil, or_false] at h
  rcases h with rfl | rfl | rfl
  · exact ⟨by decide, by decide, by decide, by decide⟩
  · exact ⟨by decide, by decide, by decide, by decide⟩
  · exact ⟨by decide, by decide, by decide, by decide⟩

/-- The files of a version that may be looked for are read in the folder of the version. -/
theorem readsIn_folder {cache : Cache} {tree : FileTree} {version name : String} {node : Node}
    (h : accepts version = true) (hn : name ∈ fileNames)
    (hf : tree.find? (cache.path version name) = some node) :
    tree.ReadsIn (cache.directory.join version) (.ofString name) node := by
  rw [path, Path.join, Path.join, Path.within_within (ofString_ne_nil h) (separator_notMem h)] at hf
  exact FileTree.readsIn_of_find?_inner hf (ofString_ne_nil h) (separator_notMem h)
    (properName_of_mem hn)

theorem staysInside_of_ne {version : String} (h : accepts version = true) (hh : version ≠ ".")
    (ha : version ≠ "..") : StaysInside version := by
  intro cache tree name node hn hf
  have hr := readsIn_folder h hn hf
  refine ⟨?_, hr⟩
  obtain ⟨inner, hi, -⟩ := hr
  exact ⟨inner, FileTree.readsIn_of_find? hi (properName_of_accepts h hh ha)⟩

/-- A cache that holds a program itself, and another program next to it. -/
def strayPrograms : FileTree where
  root := .folder [(.ofString "cache", .folder [(.ofString "solc", .file [])]),
    (.ofString "solc", .file [])]
  working := []

theorem not_staysInside_here : ¬StaysInside "." := by
  intro h
  obtain ⟨⟨inner, entries, he, hl⟩, -⟩ :=
    h ⟨"cache"⟩ strayPrograms "solc" (.file []) (by decide) rfl
  cases he
  rcases hl with hl | ⟨target, hl⟩
  · cases hl
  · cases hl

theorem not_staysInside_above : ¬StaysInside ".." := by
  intro h
  obtain ⟨⟨inner, entries, he, hl⟩, -⟩ :=
    h ⟨"cache"⟩ strayPrograms "solc" (.file []) (by decide) rfl
  cases he
  rcases hl with hl | ⟨target, hl⟩
  · cases hl
  · cases hl

theorem exists_name_of_program? {cache : Cache} {tree : FileTree} {version : String}
    {program : Path × Bool} (h : cache.program? tree version = some program) :
    ∃ name ∈ fileNames, program.1 = cache.path version name ∧
      cache.holds tree version name = true := by
  unfold program? at h
  by_cases hn : cache.holds tree version nativeName = true
  · rw [if_pos hn] at h
    cases h
    exact ⟨nativeName, by decide, rfl, hn⟩
  by_cases hs : cache.holds tree version scriptName = true
  · rw [if_neg hn, if_pos hs] at h
    cases h
    exact ⟨scriptName, by decide, rfl, hs⟩
  · rw [if_neg hn, if_neg hs] at h
    cases h

theorem find_of_not_accepts {version : String} (h : accepts version = false) (cache : Cache)
    (tree : FileTree) : cache.find tree version = .error (.invalidVersion version) := by
  simp [find, h]

/-- A build is found where a program and a long version are. -/
theorem exists_program?_of_find {cache : Cache} {tree : FileTree} {version : String} {build : Build}
    (h : cache.find tree version = .ok build) :
    accepts version = true ∧ ∃ path isJavaScript longVersion,
      cache.program? tree version = some (path, isJavaScript) ∧
      cache.longVersion tree version = .ok longVersion ∧
      build = ⟨path, isJavaScript, version, longVersion⟩ := by
  cases ha : accepts version with
  | false =>
    rw [find_of_not_accepts ha] at h
    cases h
  | true =>
    rw [find, if_pos ha] at h
    cases hp : cache.program? tree version with
    | none => simp [hp] at h
    | some program =>
      rw [hp] at h
      cases hl : cache.longVersion tree version with
      | error error => simp [hl, Except.map] at h
      | ok longVersion =>
        rw [hl] at h
        cases h
        exact ⟨rfl, program.1, program.2, longVersion, rfl, rfl, rfl⟩

/-- A found build is a program among the files of its version. -/
theorem exists_name_of_find {cache : Cache} {tree : FileTree} {version : String} {build : Build}
    (h : cache.find tree version = .ok build) :
    accepts version = true ∧ ∃ name ∈ fileNames,
      build.compilerPath = cache.path version name ∧
      tree.isFile build.compilerPath = true := by
  obtain ⟨ha, path, isJavaScript, longVersion, hp, -, rfl⟩ := exists_program?_of_find h
  obtain ⟨name, hn, rfl, hf⟩ := exists_name_of_program? hp
  exact ⟨ha, name, hn, rfl, hf⟩

/-- Nothing but the files of the version is read. -/
theorem find_congr {cache : Cache} {tree tree' : FileTree} {version : String}
    (h : ∀ name ∈ fileNames, tree.file? (cache.path version name) =
      tree'.file? (cache.path version name)) :
    cache.find tree version = cache.find tree' version := by
  have hh : ∀ name ∈ fileNames, cache.holds tree version name = cache.holds tree' version name := by
    intro name hn
    unfold holds FileTree.isFile
    rw [h name hn]
  have hn := hh nativeName (by decide)
  have hs := hh scriptName (by decide)
  have hf := h longVersionName (by decide)
  have hp : cache.program? tree version = cache.program? tree' version := by
    unfold program?
    rw [hn, hs]
  have hl : cache.longVersion tree version = cache.longVersion tree' version := by
    unfold longVersion
    rw [hf]
  unfold find
  rw [hp, hl]

/-- The name of the folder above is read in the folder that the cache lies in. -/
theorem exists_outer_of_above {cache : Cache} {tree : FileTree} {name : String} {node : Node}
    (hn : name ∈ fileNames) (hf : tree.find? (cache.path ".." name) = some node) :
    ∃ location entries,
      tree.locate? (cache.directory.join ".") false = some location ∧
      tree.root.at? location.dropLast = some (.folder entries) ∧
      Lists entries (.ofString name) node := by
  obtain ⟨entries, hi, hl⟩ := readsIn_folder accepts_above hn hf
  obtain ⟨location, ho, he⟩ := FileTree.exists_outer_of_find?_above hi
  exact ⟨location, entries, ho, he, hl⟩

/-- A lookup reads the three files of the version and nothing else, and a version that is refused is
refused unread. The files of any other version lie in an entry of the cache, unless the version is
the name that stands for a folder itself or the one that stands for the folder above: these two read
the files of the cache itself and of the folder that it lies in. -/
theorem lookup_reads (version : String) :
    (∀ (cache : Cache) (tree : FileTree) (build : Build), cache.find tree version = .ok build →
      accepts version = true ∧ ∃ name ∈ fileNames,
        build.compilerPath = cache.path version name ∧
        tree.isFile build.compilerPath = true) ∧
    (accepts version = false → ∀ (cache : Cache) (tree : FileTree),
      cache.find tree version = .error (.invalidVersion version)) ∧
    (∀ (cache : Cache) (tree tree' : FileTree),
      (∀ name ∈ fileNames, tree.file? (cache.path version name) =
        tree'.file? (cache.path version name)) →
      cache.find tree version = cache.find tree' version) ∧
    (accepts version = true → '/' ∉ version.toList ∧
      (StaysInside version ↔ version ≠ "." ∧ version ≠ "..")) ∧
    (version = "." → ∀ (cache : Cache) (tree : FileTree) (name : String) (node : Node),
      name ∈ fileNames → tree.find? (cache.path version name) = some node →
      tree.ReadsIn (cache.directory.join ".") (.ofString name) node) ∧
    (version = ".." → ∀ (cache : Cache) (tree : FileTree) (name : String) (node : Node),
      name ∈ fileNames → tree.find? (cache.path version name) = some node →
      ∃ location entries,
        tree.locate? (cache.directory.join ".") false = some location ∧
        tree.root.at? location.dropLast = some (.folder entries) ∧
        Lists entries (.ofString name) node) := by
  refine ⟨fun _ _ _ h => exists_name_of_find h, find_of_not_accepts, fun _ _ _ => find_congr,
    fun ha => ⟨slash_notMem_of_accepts ha, ?_, ?_⟩, ?_, ?_⟩
  · intro hs
    constructor
    · rintro rfl
      exact not_staysInside_here hs
    · rintro rfl
      exact not_staysInside_above hs
  · rintro ⟨hh, hu⟩
    exact staysInside_of_ne ha hh hu
  · rintro rfl cache tree name node hn hf
    exact readsIn_folder accepts_here hn hf
  · rintro rfl cache tree name node hn hf
    exact exists_outer_of_above hn hf

theorem find_outside :
    (⟨"cache"⟩ : Cache).find strayPrograms "." =
      .ok ⟨.ofString "cache/./solc", false, ".", "."⟩ ∧
    (⟨"cache"⟩ : Cache).find strayPrograms ".." =
      .ok ⟨.ofString "cache/../solc", false, "..", ".."⟩ ∧
    ¬∀ (cache : Cache) (tree : FileTree) (version : String) (build : Build),
      cache.find tree version = .ok build →
      version ≠ "." ∧ version ≠ ".." ∧ '/' ∉ version.toList := by
  have hh : (⟨"cache"⟩ : Cache).find strayPrograms "." =
      .ok ⟨.ofString "cache/./solc", false, ".", "."⟩ := by rfl
  have ha : (⟨"cache"⟩ : Cache).find strayPrograms ".." =
      .ok ⟨.ofString "cache/../solc", false, "..", ".."⟩ := by rfl
  exact ⟨hh, ha, fun h => (h _ _ _ _ hh).1 rfl⟩

theorem lookup_reads_ordinary_version :
    let tree : FileTree := ⟨.folder [(.ofString "cache", .folder [(.ofString "0.8.19",
      .folder [(.ofString "solc", .file [])])])], []⟩
    (⟨"cache"⟩ : Cache).find tree "0.8.19" =
      .ok ⟨.ofString "cache/0.8.19/solc", false, "0.8.19", "0.8.19"⟩ ∧
    tree.ReadsIn (.ofString "cache/0.8.19") (.ofString "solc") (.file []) ∧
    StaysInside "0.8.19" ∧
    (⟨"cache"⟩ : Cache).find tree "../0.8.0" = .error (.invalidVersion "../0.8.0") := by
  intro tree
  have hr : accepts "../0.8.0" = false := by decide
  have hs : StaysInside "0.8.19" :=
    ((lookup_reads "0.8.19").2.2.2.1 (by decide)).2.mpr ⟨by decide, by decide⟩
  refine ⟨by rfl, ?_, hs, (lookup_reads "../0.8.0").2.1 hr _ _⟩
  exact (hs ⟨"cache"⟩ tree "solc" (.file []) (by decide) rfl).2

end ContractPipeline.Compiler.Cache
