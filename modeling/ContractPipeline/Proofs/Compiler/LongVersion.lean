import ContractPipeline.Proofs.Compiler.Containment
import ContractPipeline.Proofs.Compiler.Selection
import ContractPipeline.Proofs.Extension.Provenance
import ContractPipeline.Proofs.Text.Words

/-! The long version of a build, which comes from three sources: it is made up, read from a file, or
the version itself. Only a blank file yields an empty one. -/
namespace ContractPipeline

open Compiler (Build Cache NativeCompiler)
open Storage (FileTree)
open Text (isBlank trim)

namespace Compiler

theorem toList_nativeLongVersion (version : String) :
    (nativeLongVersion version).toList = version.toList ++ "-dummy-long-version".toList := by
  rw [nativeLongVersion, String.toList_append]

namespace Cache

variable {cache : Cache} {tree : FileTree} {version : String}

theorem isBlank_eq_false_of_allowed {c : Char} (h : allowed c = true) : isBlank c = false := by
  have between {low high : UInt32} (hl : 0x21 ≤ low.toNat) (hg : high.toNat ≤ 0x7E)
      (h : low ≤ c.val ∧ c.val ≤ high) : isBlank c = false :=
    Text.isBlank_eq_false_of_visible (hl.trans (UInt32.le_iff_toNat_le.mp h.1))
      ((UInt32.le_iff_toNat_le.mp h.2).trans hg)
  simp only [allowed, Bool.or_eq_true, beq_iff_eq] at h
  rcases h with ((h | rfl) | rfl) | rfl
  · rcases Bool.or_eq_true_iff.mp h with hletter | hdigit
    · rcases Bool.or_eq_true_iff.mp hletter with hupper | hlower
      · have hrange : 'A'.val ≤ c.val ∧ c.val ≤ 'Z'.val := of_decide_eq_true hupper
        exact between (by decide) (by decide) hrange
      · obtain ⟨hl, hg⟩ := Bool.and_eq_true_iff.mp hlower
        have hrange : 'a'.val ≤ c.val ∧ c.val ≤ 'z'.val :=
          ⟨of_decide_eq_true hl, of_decide_eq_true hg⟩
        exact between (by decide) (by decide) hrange
    · obtain ⟨hl, hg⟩ := Char.isDigit_iff_toNat.mp hdigit
      exact Text.isBlank_eq_false_of_visible (le_trans (by decide) hl) (le_trans hg (by decide))
  all_goals decide

theorem isBlank_eq_false_of_accepts (h : accepts version = true) :
    ∀ c ∈ version.toList, isBlank c = false := by
  intro c hc
  exact isBlank_eq_false_of_allowed (((accepts_iff version).mp h).2 c hc)

/-- Where the long version of a cached build comes from. -/
inductive GivesLongVersion (cache : Cache) (tree : FileTree) (version : String) : String → Prop
  | version (h : tree.file? (cache.path version longVersionName) = none) :
    GivesLongVersion cache tree version version
  | file {contents : Bytes} {text : List Char}
      (h : tree.file? (cache.path version longVersionName) = some contents)
      (hd : Text.Utf8.decode? contents = some text) :
    GivesLongVersion cache tree version (String.ofList (trim text))

theorem givesLongVersion_of_find {build : Build} (h : cache.find tree version = .ok build) :
    accepts version = true ∧ GivesLongVersion cache tree version build.longVersion := by
  obtain ⟨ha, path, isJavaScript, longVersion, -, hl, rfl⟩ := exists_program?_of_find h
  refine ⟨ha, ?_⟩
  unfold Cache.longVersion at hl
  split at hl
  case h_1 hf =>
    cases hl
    exact .version hf
  case h_2 contents hf =>
    split at hl
    case h_1 => cases hl
    case h_2 text hd =>
      cases hl
      exact .file hf hd

/-- A cached build has a long version without white space at its ends. -/
theorem GivesLongVersion.ends {text : String} (h : GivesLongVersion cache tree version text)
    (ha : accepts version = true) :
    text.toList.takeWhile isBlank = version.toList.takeWhile isBlank ∧
      text.toList.reverse.takeWhile isBlank = [] := by
  have hv := isBlank_eq_false_of_accepts ha
  cases h with
  | version =>
    refine ⟨rfl, Text.takeWhile_isBlank_eq_nil ?_⟩
    intro c hc
    exact hv c (List.mem_reverse.mp hc)
  | @file _ text _ _ =>
    rw [String.toList_ofList, Text.takeWhile_isBlank_eq_nil hv]
    exact ⟨Text.takeWhile_trim text, Text.takeWhile_reverse_trim text⟩

def HasBlankLongVersion (cache : Cache) (tree : FileTree) (version : String) : Prop :=
  ∃ contents text, tree.file? (cache.path version longVersionName) = some contents ∧
    Text.Utf8.decode? contents = some text ∧ ∀ c ∈ text, isBlank c = true

theorem GivesLongVersion.eq_empty_iff {text : String} (h : GivesLongVersion cache tree version text)
    (ha : accepts version = true) : text = "" ↔ cache.HasBlankLongVersion tree version := by
  cases h with
  | version hf =>
    constructor
    · intro he
      exact absurd he ((accepts_iff version).mp ha).1
    · rintro ⟨contents, -, hc, -⟩
      rw [hf] at hc
      cases hc
  | @file contents text hf hd =>
    have htrim : String.ofList (trim text) = "" ↔ ∀ c ∈ text, isBlank c = true := by
      rw [← Text.trim_eq_nil_iff, ← String.toList_eq_nil_iff, String.toList_ofList]
    rw [htrim]
    constructor
    · intro hb
      exact ⟨contents, text, hf, hd, hb⟩
    · rintro ⟨contents', text', hf', hd', hb⟩
      rw [hf] at hf'
      cases hf'
      rw [hd] at hd'
      cases hd'
      exact hb

end Cache

theorem nativeLongVersion_ne_empty (version : String) : nativeLongVersion version ≠ "" := by
  rw [Ne, ← String.toList_eq_nil_iff, toList_nativeLongVersion]
  exact List.append_ne_nil_of_right_ne_nil _ (by decide)

theorem nativeLongVersion_ends (version : String) :
    (nativeLongVersion version).toList.takeWhile isBlank = version.toList.takeWhile isBlank ∧
      (nativeLongVersion version).toList.reverse.takeWhile isBlank = [] := by
  rw [toList_nativeLongVersion]
  constructor
  · rw [List.takeWhile_append]
    split
    case isTrue hl =>
      have hsuffix : "-dummy-long-version".toList.takeWhile isBlank = [] := by decide
      rw [hsuffix, List.append_nil]
      exact ((List.takeWhile_prefix isBlank).eq_of_length hl).symm
    case isFalse => rfl
  · rw [List.reverse_append]
    rfl

end Compiler

namespace Application

/-- Where the long version of a build comes from in a loaded application. -/
inductive GivesLongVersion (env : Environment) (files : FileTree) (version : String) : String → Prop
  | native (h : env.get? Variable.solcVersion.key = some version) :
    GivesLongVersion env files version (version ++ "-dummy-long-version")
  | cached {text : String} (h : env.get? Variable.solcVersion.key ≠ some version)
      (hr : Cache.GivesLongVersion
        ⟨.ofString ((env.get? Variable.cacheDirectory.key).getD ".toolchain/compilers")⟩ files version text) :
    GivesLongVersion env files version text

/-- A build of a loaded application has a long version that ends without white space and begins with
no more of it than the version does. It is empty exactly if it was read from a blank file. -/
theorem longVersion_start (env : Environment) (app : Application)
    (h : (start env).value = .ok app) (files : FileTree) (version : String) {build : Build}
    (hb : (app.registry.getBuild files version).value = .ok build) :
    GivesLongVersion env files version build.longVersion ∧
      build.longVersion.toList.takeWhile isBlank = version.toList.takeWhile isBlank ∧
      build.longVersion.toList.reverse.takeWhile isBlank = [] ∧
      (build.longVersion = "" ↔ env.get? Variable.solcVersion.key ≠ some version ∧
        Cache.HasBlankLongVersion
          ⟨.ofString ((env.get? Variable.cacheDirectory.key).getD ".toolchain/compilers")⟩ files version) := by
  obtain ⟨config, hc, rfl⟩ := (value_start_eq_ok_iff env app).mp h
  obtain ⟨n, port, -, -, rfl⟩ := Configuration.read_eq_ok_iff.mp hc
  have hs := NativeCompiler.serves_iff (NativeCompiler.ofEnvironment env) version
  by_cases hv : env.get? Variable.solcVersion.key = some version
  · have hn := (getBuild_standard_of_serves (.ofNumbers env n port) files version (hs.mpr hv)).1
    cases hn.symm.trans hb
    obtain ⟨hl, ht⟩ := Compiler.nativeLongVersion_ends version
    refine ⟨.native hv, hl, ht, ?_⟩
    constructor
    · intro he
      exact absurd he (Compiler.nativeLongVersion_ne_empty version)
    · rintro ⟨hne, -⟩
      exact absurd hv hne
  · have hd : (NativeCompiler.ofEnvironment env).serves version = false := by
      rw [Bool.eq_false_iff, Ne, hs]
      exact hv
    have hf := (getBuild_standard_of_not_serves (.ofNumbers env n port) files version hd).1
    have hfind := (Extension.value_lookup _ files version).symm.trans (hf.symm.trans hb)
    obtain ⟨ha, hr⟩ := Cache.givesLongVersion_of_find hfind
    obtain ⟨hl, ht⟩ := hr.ends ha
    refine ⟨.cached hv hr, hl, ht, ?_⟩
    rw [hr.eq_empty_iff ha]
    exact (and_iff_right hv).symm

def oneCached (longVersion : String) : FileTree where
  root := .folder [(.ofString ".toolchain", .folder [(.ofString "compilers", .folder
    [(.ofString "0.8.19", .folder [(.ofString "solc", .file []),
      (.ofString "long_version", .file (.ofString longVersion))])])])]
  working := []

theorem longVersion_start_trimmed :
    let files := oneCached " 0.8.19+commit.7dd6d404\n"
    ∃ app build, (start ⟨[]⟩).value = .ok app ∧
      (app.registry.getBuild files "0.8.19").value = .ok build ∧
      build.longVersion = "0.8.19+commit.7dd6d404" ∧
      build.longVersion.toList.reverse.takeWhile isBlank = [] := by
  intro files
  have hs : (start ⟨[]⟩).value = .ok (standard (.ofNumbers ⟨[]⟩ 200 8545)) := by rfl
  have hb : ((standard (.ofNumbers ⟨[]⟩ 200 8545)).registry.getBuild
      (oneCached " 0.8.19+commit.7dd6d404\n") "0.8.19").value =
      .ok ⟨.ofString ".toolchain/compilers/0.8.19/solc", false, "0.8.19",
        "0.8.19+commit.7dd6d404"⟩ := by
    decide +kernel
  exact ⟨_, _, hs, hb, rfl, (longVersion_start ⟨[]⟩ _ hs files "0.8.19" hb).2.2.1⟩

/-- A file with nothing but the end of a line. -/
theorem longVersion_start_empty :
    ¬∀ (env : Environment) (app : Application) (files : FileTree) (version : String) (build : Build),
      (start env).value = .ok app → (app.registry.getBuild files version).value = .ok build →
        build.longVersion ≠ "" := by
  intro h
  have hs : (start ⟨[]⟩).value = .ok (standard (.ofNumbers ⟨[]⟩ 200 8545)) := by rfl
  have hb : ((standard (.ofNumbers ⟨[]⟩ 200 8545)).registry.getBuild (oneCached "\n") "0.8.19").value =
      .ok ⟨.ofString ".toolchain/compilers/0.8.19/solc", false, "0.8.19", ""⟩ := by
    decide +kernel
  exact h ⟨[]⟩ _ _ _ _ hs hb rfl

end Application

end ContractPipeline
