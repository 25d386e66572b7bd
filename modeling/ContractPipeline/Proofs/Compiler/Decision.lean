import ContractPipeline.Proofs.Compiler.Listing
import ContractPipeline.Proofs.Compiler.LongVersion
import ContractPipeline.Proofs.Storage.Growth
import ContractPipeline.Proofs.Text.Decoding

/-! How a lookup in the cache ends: five ends, told apart by the version and by what its three files
are, and what becomes of the end when a program is put next to another one. -/
namespace ContractPipeline.Storage.FileTree

/-- A path leads to a file, through links or not. -/
def LeadsToFile (tree : FileTree) (path : Path) (contents : Bytes) : Prop :=
  ∃ q, tree.Reaches path q ∧ q.node = .file contents

theorem leadsToFile_iff {tree : FileTree} {path : Path} {contents : Bytes} :
    tree.LeadsToFile path contents ↔ tree.file? path = some contents := by
  rw [file?_eq_some_iff, find?_eq_some_iff, LeadsToFile]

theorem isFile_iff {tree : FileTree} {path : Path} :
    tree.isFile path = true ↔ ∃ contents, tree.LeadsToFile path contents := by
  simp only [leadsToFile_iff, isFile, Option.isSome_iff_exists]

end ContractPipeline.Storage.FileTree

namespace ContractPipeline.Compiler.Cache

open Storage (FileTree Node Path nameLimit)

/-- The characters of versions: letters and digits of ASCII, and three signs. -/
def Plain (c : Char) : Prop :=
  ('A' ≤ c ∧ c ≤ 'Z') ∨ ('a' ≤ c ∧ c ≤ 'z') ∨ ('0' ≤ c ∧ c ≤ '9') ∨ c = '.' ∨ c = '-' ∨ c = '+'

theorem allowed_iff_plain (c : Char) : allowed c = true ↔ Plain c := by
  have hupper : c.isUpper = true ↔ 'A' ≤ c ∧ c ≤ 'Z' := decide_eq_true_iff
  have hlower : c.isLower = true ↔ 'a' ≤ c ∧ c ≤ 'z' :=
    Bool.and_eq_true_iff.trans (and_congr decide_eq_true_iff decide_eq_true_iff)
  have hdigit : c.isDigit = true ↔ '0' ≤ c ∧ c ≤ '9' :=
    Bool.and_eq_true_iff.trans (and_congr decide_eq_true_iff decide_eq_true_iff)
  have halpha : c.isAlpha = true ↔ c.isUpper = true ∨ c.isLower = true := Bool.or_eq_true_iff
  have halphanum : c.isAlphanum = true ↔ c.isAlpha = true ∨ c.isDigit = true := Bool.or_eq_true_iff
  simp only [allowed, Plain, Bool.or_eq_true, beq_iff_eq, halphanum, halpha, hupper, hlower, hdigit,
    or_assoc]

def Acceptable (version : String) : Prop :=
  version ≠ "" ∧ ∀ c ∈ version.toList, Plain c

theorem accepts_iff_acceptable (version : String) :
    accepts version = true ↔ Acceptable version := by
  simp only [accepts_iff, allowed_iff_plain, Acceptable]

inductive Ends (cache : Cache) (tree : FileTree) (version : String) : Outcome → Prop
  | refused (h : ¬Acceptable version) : Ends cache tree version (.error (.invalidVersion version))
  | missing (h : Acceptable version)
      (hn : ∀ contents, ¬tree.LeadsToFile (cache.path version nativeName) contents)
      (hs : ∀ contents, ¬tree.LeadsToFile (cache.path version scriptName) contents) :
    Ends cache tree version (.error (.notCached version cache.directory))
  | unreadable {program contents : Bytes} (h : Acceptable version)
      (hp : tree.LeadsToFile (cache.path version nativeName) program ∨
        tree.LeadsToFile (cache.path version scriptName) program)
      (hl : tree.LeadsToFile (cache.path version longVersionName) contents)
      (ht : ∀ text : String, contents ≠ .ofString text) :
    Ends cache tree version (.error (.io .invalidText))
  | native {program : Bytes} {longVersion : String} (h : Acceptable version)
      (hn : tree.LeadsToFile (cache.path version nativeName) program)
      (hl : cache.GivesLongVersion tree version longVersion) :
    Ends cache tree version (.ok ⟨cache.path version nativeName, false, version, longVersion⟩)
  | script {program : Bytes} {longVersion : String} (h : Acceptable version)
      (hn : ∀ contents, ¬tree.LeadsToFile (cache.path version nativeName) contents)
      (hs : tree.LeadsToFile (cache.path version scriptName) program)
      (hl : cache.GivesLongVersion tree version longVersion) :
    Ends cache tree version (.ok ⟨cache.path version scriptName, true, version, longVersion⟩)

variable {cache : Cache} {tree tree' : FileTree} {version : String}

theorem holds_iff {name : String} :
    cache.holds tree version name = true ↔
      ∃ contents, tree.LeadsToFile (cache.path version name) contents :=
  FileTree.isFile_iff

theorem program?_of_native (h : cache.holds tree version nativeName = true) :
    cache.program? tree version = some (cache.path version nativeName, false) :=
  if_pos h

theorem program?_of_script (hn : ¬cache.holds tree version nativeName = true)
    (h : cache.holds tree version scriptName = true) :
    cache.program? tree version = some (cache.path version scriptName, true) := by
  rw [program?, if_neg hn, if_pos h]

theorem find_of_program? {path : Path} {isJavaScript : Bool} (ha : accepts version = true)
    (h : cache.program? tree version = some (path, isJavaScript)) :
    cache.find tree version = (cache.longVersion tree version).map fun longVersion =>
      ⟨path, isJavaScript, version, longVersion⟩ := by
  rw [find, if_pos ha, h]

theorem find_of_program?_eq_none (ha : accepts version = true)
    (h : cache.program? tree version = none) :
    cache.find tree version = .error (.notCached version cache.directory) := by
  rw [find, if_pos ha, h]

theorem longVersion_of_gives {longVersion : String}
    (h : cache.GivesLongVersion tree version longVersion) :
    cache.longVersion tree version = .ok longVersion := by
  unfold Cache.longVersion
  cases h with
  | version h => rw [h]
  | file h hd => simp only [h, hd]

theorem longVersion_of_unreadable {contents : Bytes}
    (h : tree.LeadsToFile (cache.path version longVersionName) contents)
    (ht : ∀ text : String, contents ≠ .ofString text) :
    cache.longVersion tree version = .error (.io .invalidText) := by
  have hd : Text.Utf8.decode? contents = none := by
    rw [Option.eq_none_iff_forall_ne_some]
    intro text hd
    refine ht (String.ofList text) ?_
    rw [Bytes.ofString, String.toList_ofList, Text.Utf8.encode_of_decode? hd]
  unfold Cache.longVersion
  simp only [FileTree.leadsToFile_iff.mp h, hd]

/-- The long version of a version is read, unless its file is no text. -/
theorem gives_or_unreadable (cache : Cache) (tree : FileTree) (version : String) :
    (∃ longVersion, cache.GivesLongVersion tree version longVersion) ∨
      ∃ contents, tree.LeadsToFile (cache.path version longVersionName) contents ∧
        ∀ text : String, contents ≠ .ofString text := by
  cases hf : tree.file? (cache.path version longVersionName) with
  | none => exact .inl ⟨version, .version hf⟩
  | some contents =>
    cases hd : Text.Utf8.decode? contents with
    | some text => exact .inl ⟨_, .file hf hd⟩
    | none =>
      refine .inr ⟨contents, FileTree.leadsToFile_iff.mpr hf, ?_⟩
      rintro text rfl
      rw [Bytes.ofString, Text.Utf8.decode?_encode] at hd
      cases hd

/-- A version with a program is found, unless its long version is no text. -/
theorem find_of_holdsProgram (ha : accepts version = true) (h : cache.HoldsProgram tree version) :
    ∃ path isJavaScript, cache.find tree version = (cache.longVersion tree version).map
      fun longVersion => ⟨path, isJavaScript, version, longVersion⟩ := by
  obtain ⟨⟨path, isJavaScript⟩, hp⟩ := Option.isSome_iff_exists.mp (isSome_program?_iff.mpr h)
  exact ⟨path, isJavaScript, find_of_program? ha hp⟩

theorem Ends.find_eq {outcome : Outcome} (h : cache.Ends tree version outcome) :
    cache.find tree version = outcome := by
  cases h with
  | refused h =>
    rw [← accepts_iff_acceptable, Bool.not_eq_true] at h
    exact find_of_not_accepts h cache tree
  | missing h hn hs =>
    refine find_of_program?_eq_none ((accepts_iff_acceptable _).mpr h) ?_
    rw [program?, if_neg (mt holds_iff.mp (not_exists.mpr hn)),
      if_neg (mt holds_iff.mp (not_exists.mpr hs))]
  | @unreadable program contents h hp hl ht =>
    have hholds : cache.HoldsProgram tree version :=
      hp.imp (fun hn => holds_iff.mpr ⟨program, hn⟩) fun hs => holds_iff.mpr ⟨program, hs⟩
    obtain ⟨path, isJavaScript, hf⟩ :=
      find_of_holdsProgram ((accepts_iff_acceptable _).mpr h) hholds
    rw [hf, longVersion_of_unreadable hl ht]
    rfl
  | native h hn hl =>
    have hp := program?_of_native (holds_iff.mpr ⟨_, hn⟩)
    rw [find_of_program? ((accepts_iff_acceptable _).mpr h) hp, longVersion_of_gives hl]
    rfl
  | script h hn hs hl =>
    have hp := program?_of_script (mt holds_iff.mp (not_exists.mpr hn)) (holds_iff.mpr ⟨_, hs⟩)
    rw [find_of_program? ((accepts_iff_acceptable _).mpr h) hp, longVersion_of_gives hl]
    rfl

theorem exists_ends (cache : Cache) (tree : FileTree) (version : String) :
    ∃ outcome, cache.Ends tree version outcome := by
  by_cases h : Acceptable version
  case neg => exact ⟨_, .refused h⟩
  by_cases hn : ∃ program, tree.LeadsToFile (cache.path version nativeName) program
  · obtain ⟨program, hn⟩ := hn
    rcases gives_or_unreadable cache tree version with ⟨longVersion, hl⟩ | ⟨contents, hl, ht⟩
    · exact ⟨_, .native h hn hl⟩
    · exact ⟨_, .unreadable h (.inl hn) hl ht⟩
  by_cases hs : ∃ program, tree.LeadsToFile (cache.path version scriptName) program
  · obtain ⟨program, hs⟩ := hs
    rcases gives_or_unreadable cache tree version with ⟨longVersion, hl⟩ | ⟨contents, hl, ht⟩
    · exact ⟨_, .script h (not_exists.mp hn) hs hl⟩
    · exact ⟨_, .unreadable h (.inr hs) hl ht⟩
  · exact ⟨_, .missing h (not_exists.mp hn) (not_exists.mp hs)⟩

theorem find_eq_iff {outcome : Outcome} :
    cache.find tree version = outcome ↔ cache.Ends tree version outcome := by
  constructor
  · rintro rfl
    obtain ⟨outcome, h⟩ := exists_ends cache tree version
    rwa [h.find_eq]
  · exact Ends.find_eq

/-- Why no folder can be read for a version. -/
inductive OutOfReach (cache : Cache) (tree : FileTree) (version : String) : Prop
  | longVersion (h : nameLimit < (Bytes.ofString version).length)
  | longName {name : Bytes} (hn : name ∈ cache.directory.components) (h : nameLimit < name.length)
  | longDirectory (h : 4096 ≤ cache.directory.bytes.length)
  | directory (hd : cache.directory.bytes ≠ [])
    (h : ∀ entries, tree.find? cache.directory ≠ some (.folder entries))
  | folder
    (h : ∀ entries, tree.find? (cache.directory.join version) ≠
      some (.folder entries))

theorem OutOfReach.find?_ne (h : cache.OutOfReach tree version) (ha : accepts version = true)
    (entries : List (Bytes × Node)) :
    tree.find? (cache.directory.join version) ≠ some (.folder entries) := by
  intro hf
  have hv := ofString_ne_nil ha
  have hs := separator_notMem ha
  have hh := Storage.head?_ne_separator hv hs []
  have hfind := hf
  rw [List.append_nil] at hh
  rw [Path.join, FileTree.find?_within_iff tree _ _ hh, Path.components_of_notMem hs] at hf
  obtain ⟨hu, m, q, hm, hq, -⟩ := hf
  -- The walk goes through every component of the directory, and then to the version.
  obtain ⟨first, -, hfront⟩ := id hm
  obtain ⟨rest, hr⟩ := cache.directory.exists_front_eq
  cases h with
  | longVersion h => exact absurd (hq.length_le _ (List.mem_singleton_self _)) (Nat.not_le.mpr h)
  | @longName name hn h =>
    have hne : name ≠ [] := by
      rintro rfl
      exact absurd h (by decide)
    have hmem : name ∈ cache.directory.outer := by
      rcases cache.directory.components_eq_or with hc | hc
      · rwa [hc] at hn
      · rw [hc] at hn
        simpa [hne] using hn
    exact absurd (hfront.length_le name hmem) (Nat.not_le.mpr h)
  | longDirectory h =>
    obtain ⟨-, hlen, -⟩ := (Path.isUsable_iff _).mp hu
    rw [hr, List.length_append, List.length_append] at hlen
    omega
  | directory hd h =>
    obtain ⟨outer, he⟩ := hq.exists_entries
    refine h outer (FileTree.find?_of_within hd ?_)
    refine (FileTree.find?_within_iff tree _ _ (by decide)).mpr
      ⟨?_, m, m, hm, .of_stay (.inr rfl) he, he⟩
    refine Path.isUsable_within hu (by decide) ?_ fun hz => absurd hz (by decide)
    exact List.length_pos_iff.mpr hv
  | folder h => exact h entries hfind

/-- No version is found without a folder, and nothing else is wrong then. -/
theorem find_of_outOfReach (ha : accepts version = true) (h : cache.OutOfReach tree version) :
    cache.find tree version = .error (.notCached version cache.directory) := by
  have hnone : ∀ name ∈ fileNames, ∀ contents,
      ¬tree.LeadsToFile (cache.path version name) contents := by
    intro name hn contents hc
    rw [FileTree.leadsToFile_iff, FileTree.file?_eq_some_iff] at hc
    obtain ⟨entries, hf, -⟩ := readsIn_folder ha hn hc
    exact h.find?_ne ha entries hf
  exact Ends.find_eq (.missing ((accepts_iff_acceptable _).mp ha) (hnone nativeName (by decide))
    (hnone scriptName (by decide)))

theorem path_eq_child (ha : accepts version = true) (cache : Cache) (name : String) :
    cache.path version name = (cache.directory.join version).child (.ofString name) := by
  rw [path, Path.join, Path.join, Path.within_within (ofString_ne_nil ha) (separator_notMem ha),
    Path.child, Path.within, Path.within, List.append_assoc]

theorem isName_of_mem {name : String} (h : name ∈ fileNames) :
    FileTree.isName (.ofString name) = true := by
  simp only [fileNames, List.mem_cons, List.not_mem_nil, or_false] at h
  rcases h with rfl | rfl | rfl <;> decide

theorem bytes_join_ne_nil (ha : accepts version = true) (cache : Cache) :
    (cache.directory.join version).bytes ≠ [] :=
  List.append_ne_nil_of_right_ne_nil _ (ofString_ne_nil ha)

/-- A file put next to one of the files of a version is the only one that changes. -/
theorem exists_file?_of_addsBeside {name other : String} (ha : accepts version = true)
    (hn : name ∈ fileNames) (ho : other ∈ fileNames) (hfree : tree.LinkFree)
    (h : tree.AddsBeside (cache.path version name) (.ofString other) tree') :
    tree.file? (cache.path version other) = none ∧
      (∃ added, tree'.file? (cache.path version other) =
        if (cache.path version other).isUsable then some added else none) ∧
      ∀ third ∈ fileNames, third ≠ other →
        tree'.file? (cache.path version third) = tree.file? (cache.path version third) := by
  rw [path_eq_child ha] at h
  obtain ⟨k, entries, added, hk, he, hnew, rfl⟩ := FileTree.exists_folder_of_addsBeside h hfree
    (bytes_join_ne_nil ha cache) (properName_of_mem hn).separator_notMem (isName_of_mem hn)
  have hat := hk.at?_location
  rw [he] at hat
  have hfind := fun (third : String) (ht : third ∈ fileNames) =>
    FileTree.find?_child_of_adds hfree hk he hnew added (isName_of_mem ht)
      (properName_of_mem ht).separator_notMem
  refine ⟨?_, ⟨added, ?_⟩, ?_⟩
  · rw [path_eq_child ha, FileTree.file?, FileTree.find?_child hk he (isName_of_mem ho)
      (properName_of_mem ho).separator_notMem (hfree.lookup_ne hat), hnew, ite_self]
  · rw [path_eq_child ha, FileTree.file?, hfind other ho, if_pos rfl]
    by_cases hu : ((cache.directory.join version).child (.ofString other)).isUsable
    · rw [if_pos hu, if_pos hu]
    · rw [if_neg hu, if_neg hu]
  · intro third ht hne
    rw [path_eq_child ha, FileTree.file?, FileTree.file?, hfind third ht,
      if_neg fun hb => hne (Bytes.ofString_injective hb)]

theorem holds_of_addsBeside {name : String} {other : Bytes}
    (h : tree.AddsBeside (cache.path version name) other tree') :
    cache.holds tree version name = true := by
  obtain @⟨q, contents, added, hq, hf, -⟩ := h
  exact holds_iff.mpr ⟨contents, q, hq, hf⟩

/-- The path of the native program is the shorter one. -/
theorem isUsable_native (ha : accepts version = true)
    (h : cache.holds tree version scriptName = true) :
    (cache.path version nativeName).isUsable = true := by
  obtain ⟨contents, q, ⟨hu, -⟩, -⟩ := holds_iff.mp h
  rw [path_eq_child ha, Path.child, Path.isUsable_iff] at hu ⊢
  obtain ⟨-, hlen, h0⟩ := hu
  have hnative : (Bytes.ofString nativeName).length = 4 := by decide
  have hscript : (Bytes.ofString scriptName).length = 10 := by decide
  refine ⟨by simp, ?_, ?_⟩
  · simp only [List.length_append, List.length_cons, hnative, hscript] at hlen ⊢
    omega
  · rw [List.mem_append, not_or] at h0 ⊢
    exact ⟨h0.1, by decide⟩

theorem longVersion_congr
    (h : tree'.file? (cache.path version longVersionName) =
      tree.file? (cache.path version longVersionName)) :
    cache.longVersion tree' version = cache.longVersion tree version := by
  unfold longVersion
  rw [h]

/-- A script next to a native program is not looked at. -/
theorem find_of_script_beside_native (hfree : tree.LinkFree)
    (h : tree.AddsBeside (cache.path version nativeName) (.ofString scriptName) tree') :
    cache.find tree' version = cache.find tree version := by
  cases ha : accepts version with
  | false => rw [find_of_not_accepts ha, find_of_not_accepts ha]
  | true =>
    have hn := holds_of_addsBeside h
    obtain ⟨-, -, hsame⟩ := exists_file?_of_addsBeside ha (by decide) (by decide) hfree h
    have hn' : cache.holds tree' version nativeName = true := by
      rwa [holds, FileTree.isFile, hsame nativeName (by decide) (by decide)]
    have hl := longVersion_congr (hsame longVersionName (by decide) (by decide))
    rw [find_of_program? ha (program?_of_native hn), find_of_program? ha (program?_of_native hn'), hl]

/-- A native program next to a script takes its place. -/
theorem find_of_native_beside_script (hfree : tree.LinkFree)
    (h : tree.AddsBeside (cache.path version scriptName) (.ofString nativeName) tree') :
    cache.find tree' version = (cache.find tree version).map fun build =>
      { build with
        compilerPath := cache.path version nativeName
        isJavaScript := false } := by
  cases ha : accepts version with
  | false =>
    rw [find_of_not_accepts ha, find_of_not_accepts ha]
    rfl
  | true =>
    have hs := holds_of_addsBeside h
    obtain ⟨hnone, ⟨added, hfile⟩, hsame⟩ :=
      exists_file?_of_addsBeside ha (by decide) (by decide) hfree h
    have hn : ¬cache.holds tree version nativeName = true := by
      rw [holds, FileTree.isFile, hnone]
      decide
    have hn' : cache.holds tree' version nativeName = true := by
      rw [holds, FileTree.isFile, hfile, if_pos (isUsable_native ha hs)]
      rfl
    have hl := longVersion_congr (hsame longVersionName (by decide) (by decide))
    rw [find_of_program? ha (program?_of_native hn'), find_of_program? ha (program?_of_script hn hs), hl]
    cases cache.longVersion tree version with
    | error error => rfl
    | ok longVersion => rfl

/-- A lookup ends in one of five ways, and what a version has decides in which. A version out of
reach is not cached. Where there are no links, a script next to a native program changes nothing,
and a native program next to a script changes which program a build names and nothing else. -/
theorem find_decided (cache : Cache) (tree : FileTree) (version : String) :
    (∀ outcome, cache.find tree version = outcome ↔ cache.Ends tree version outcome) ∧
    (Acceptable version → cache.OutOfReach tree version →
      cache.find tree version = .error (.notCached version cache.directory)) ∧
    (tree.LinkFree → ∀ tree',
      tree.AddsBeside (cache.path version nativeName) (.ofString scriptName) tree' →
      cache.find tree' version = cache.find tree version) ∧
    (tree.LinkFree → ∀ tree',
      tree.AddsBeside (cache.path version scriptName) (.ofString nativeName) tree' →
      cache.find tree' version = (cache.find tree version).map fun build =>
        { build with
          compilerPath := cache.path version nativeName
          isJavaScript := false }) := by
  refine ⟨fun outcome => find_eq_iff, ?_, ?_, ?_⟩
  · intro h hout
    exact find_of_outOfReach ((accepts_iff_acceptable version).mpr h) hout
  · intro hfree tree' h
    exact find_of_script_beside_native hfree h
  · intro hfree tree' h
    exact find_of_native_beside_script hfree h

def scripted : FileTree where
  root := .folder [(.ofString "cache", .folder [(.ofString "0.8.19",
    .folder [(.ofString "soljson.js", .file []), (.ofString "long_version", .file [0x38, 0x0A])])])]
  working := []

theorem linkFree_scripted : scripted.LinkFree := by
  have hversion : (Node.folder [(.ofString "soljson.js", .file []),
      (.ofString "long_version", .file [0x38, 0x0A])]).LinkFree :=
    Node.linkFree_folder (List.forall_mem_cons.mpr ⟨Node.linkFree_file _,
      List.forall_mem_singleton.mpr (Node.linkFree_file _)⟩)
  have hcache := Node.linkFree_folder
    (List.forall_mem_singleton (a := ((.ofString "0.8.19" : Bytes), _)).mpr hversion)
  exact Node.linkFree_folder (List.forall_mem_singleton.mpr hcache)

theorem find_decided_scripted :
    let cache : Cache := ⟨"cache"⟩
    let script : Path := cache.path "0.8.19" scriptName
    let native : Path := cache.path "0.8.19" nativeName
    ∃ tree', scripted.add? native (.file []) = some tree' ∧
      cache.find scripted "0.8.19" = .ok ⟨script, true, "0.8.19", "8"⟩ ∧
      cache.find tree' "0.8.19" = .ok ⟨native, false, "0.8.19", "8"⟩ := by
  intro cache script native
  have ha : accepts "0.8.19" = true := by decide
  have hf : cache.find scripted "0.8.19" = .ok ⟨script, true, "0.8.19", "8"⟩ := by decide +kernel
  have hholds : cache.holds scripted "0.8.19" scriptName = true := by decide
  obtain ⟨contents, q, hq, hc⟩ := holds_iff.mp hholds
  have hsome : (scripted.add? native (.file [])).isSome = true := by decide
  obtain ⟨tree', hadd⟩ := Option.isSome_iff_exists.mp hsome
  refine ⟨tree', hadd, hf, ?_⟩
  have hbeside : scripted.AddsBeside script (.ofString nativeName) tree' := by
    dsimp only [script, native] at hadd ⊢
    rw [path_eq_child ha] at hq hadd ⊢
    exact FileTree.addsBeside_of_add? hadd hq hc linkFree_scripted (by decide) (by decide)
      (by decide) (by decide) (by decide)
  rw [(find_decided cache scripted "0.8.19").2.2.2 linkFree_scripted tree' hbeside, hf]
  rfl

end ContractPipeline.Compiler.Cache
