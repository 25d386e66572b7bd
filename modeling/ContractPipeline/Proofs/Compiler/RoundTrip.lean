import ContractPipeline.CommandLine.Run
import ContractPipeline.Proofs.Compiler.Reading
import ContractPipeline.Proofs.Extension.Provenance
import ContractPipeline.Proofs.Json.Printing
import ContractPipeline.Proofs.Text.Decoding

/-! Builds are read back from what is written of them, in both layouts, and so from what the program
prints. -/
namespace ContractPipeline

open Json (Spaced spaced_toCompact spaced_toPretty noDigitFirst_nil noDigitFirst_cons)

namespace Storage.Path

theorem ofString_of_toString? {path : Path} {s : String} (h : path.toString? = some s) :
    path = ofString s := by
  rw [ofString, Bytes.ofString_of_toString? h]

end Storage.Path

namespace Compiler

theorem holds_partMembers {build : Build} {path : String} (h : build.compilerPath = .ofString path) :
    Holds ((partMembers path build).filter (·.1 ∈ partKeys)) build := by
  have hf : (partMembers path build).filter (·.1 ∈ partKeys) = partMembers path build := by
    simp [partMembers, partKeys]
  rw [hf]
  exact ⟨path, h, .refl _⟩

/-- The JSON form of a build describes it. -/
theorem Build.describes_toJson? {build : Build} {json : Json.Value}
    (h : build.toJson? = some json) : Describes json.tokens build := by
  obtain ⟨path, hp, rfl⟩ := Option.map_eq_some_iff.mp h
  have hb := Storage.Path.ofString_of_toString? hp
  have hd := Describes.record (holds_partMembers hb) (by simp [partMembers, partKeys])
  exact hd

theorem Build.read_toCompact {build : Build} {json : Json.Value} (h : build.toJson? = some json) :
    Build.read json.toCompact = .ok build :=
  Build.read_of_describes (spaced_toCompact json) (Build.describes_toJson? h)

theorem Build.read_toPretty {build : Build} {json : Json.Value} (h : build.toJson? = some json) :
    Build.read json.toPretty = .ok build := by
  have hs := spaced_toPretty json noDigitFirst_nil .nil
  rw [List.append_nil] at hs
  exact Build.read_of_describes hs (Build.describes_toJson? h)

theorem Build.read_printed {build : Build} {json : Json.Value} (h : build.toJson? = some json) :
    Build.read (json.toPretty ++ "\n") = .ok build := by
  have hl : Spaced ['\n'] [] := .blank (by simp) .nil
  have hs := spaced_toPretty json (noDigitFirst_cons rfl) hl
  apply Build.read_of_describes _ (Build.describes_toJson? h)
  rw [String.toList_append]
  exact hs

theorem Build.exists_toJson? {build : Build} {path : String}
    (h : build.compilerPath.toString? = some path) : ∃ json, build.toJson? = some json := by
  rw [Build.toJson?, h]
  exact ⟨_, rfl⟩

/-- A build that is found in a cache has a path that is a text, if the directory has. -/
theorem Cache.isText_of_find {cache : Cache} {files : Storage.FileTree} {version : String}
    {build : Build} (hd : cache.directory.IsText) (h : cache.find files version = .ok build) :
    build.compilerPath.IsText := by
  obtain ⟨-, name, -, hp, -⟩ := exists_name_of_find h
  rw [hp]
  exact (hd.join version).join name

end Compiler

namespace Application

open Compiler (Build Cache)

/-- With the paths of a configuration, those of the builds that it leads to are texts. -/
theorem isText_of_getBuild_standard {config : Configuration} {files : Storage.FileTree}
    {version : String} {build : Build} (hn : config.nativeCompiler.path.IsText)
    (hd : config.cacheDirectory.IsText)
    (h : ((standard config).registry.getBuild files version).value = .ok build) :
    build.compilerPath.IsText := by
  cases hs : config.nativeCompiler.serves version with
  | true =>
    rw [(getBuild_standard_of_serves config files version hs).1] at h
    cases h
    exact hn
  | false =>
    rw [(getBuild_standard_of_not_serves config files version hs).1, Extension.value_lookup] at h
    exact Cache.isText_of_find hd h

end Application

namespace CommandLine

open Compiler (Build)

variable {app : Application} {files : Storage.FileTree} {version : String}

theorem value_runResolve_of_error {error : Compiler.CompilerError}
    (h : (app.registry.getBuild files version).value = .error error) :
    (runResolve app files version).value = .fail (.compiler error) := by
  rw [runResolve, Recorded.value_bind, h]
  rfl

theorem value_runResolve_of_ok {build : Build} {json : Json.Value}
    (h : (app.registry.getBuild files version).value = .ok build) (hj : build.toJson? = some json) :
    (runResolve app files version).value = .print (json.toPretty ++ "\n") := by
  rw [runResolve, Recorded.value_bind, h]
  simp only [hj]
  rfl

theorem runResolve_standard {config : Configuration} (hn : config.nativeCompiler.path.IsText)
    (hd : config.cacheDirectory.IsText) (files : Storage.FileTree) (version : String) :
    let app := Application.standard config
    (runResolve app files version).value.finish ≠ .failed .pathText ∧
    ∀ build, (app.registry.getBuild files version).value = .ok build →
      ∃ text, (runResolve app files version).value = .print text ∧ Build.read text = .ok build := by
  intro app
  cases hb : (app.registry.getBuild files version).value with
  | error error =>
    rw [value_runResolve_of_error hb]
    exact ⟨by simp [Report.fail], nofun⟩
  | ok build =>
    obtain ⟨path, hp⟩ := Application.isText_of_getBuild_standard hn hd hb
    have hs : build.compilerPath.toString? = some path := by
      rw [hp, Storage.Path.toString?_ofString]
    obtain ⟨json, hj⟩ := Build.exists_toJson? hs
    rw [value_runResolve_of_ok hb hj]
    refine ⟨by simp [Report.print], fun other ho => ?_⟩
    cases ho
    exact ⟨_, rfl, Build.read_printed hj⟩

/-- Whatever a build is written as is read back as that build, so no two builds are written alike.
What a loaded application prints for a version is a text that is read as the build it resolved. -/
theorem builds_are_read_back :
    (∀ (build : Build) (path : String), build.compilerPath.toString? = some path →
      ∃ json, build.toJson? = some json ∧ Build.read json.toCompact = .ok build ∧
        Build.read json.toPretty = .ok build) ∧
    (∀ (b b' : Build) (json json' : Json.Value) (text : String), b.toJson? = some json →
      b'.toJson? = some json' → (text = json.toCompact ∨ text = json.toPretty) →
      (text = json'.toCompact ∨ text = json'.toPretty) → b = b') ∧
    (∀ (env : Environment) (app : Application) (files : Storage.FileTree) (version : String),
      (Application.start env).value = .ok app →
      (runResolve app files version).value.finish ≠ .failed .pathText ∧
      ∀ build, (app.registry.getBuild files version).value = .ok build →
        ∃ text, (runResolve app files version).value = ⟨.ofString text, .done⟩ ∧
          (Bytes.ofString text).toString? = some text ∧ Build.read text = .ok build) := by
  have hw : ∀ {build : Build} {json : Json.Value} {text : String}, build.toJson? = some json →
      (text = json.toCompact ∨ text = json.toPretty) → Build.read text = .ok build := by
    intro build json text hj ht
    rcases ht with rfl | rfl
    · exact Build.read_toCompact hj
    · exact Build.read_toPretty hj
  refine ⟨fun build path h => ?_, fun b b' json json' text h h' ht ht' => ?_,
    fun env app files version h => ?_⟩
  · obtain ⟨json, hj⟩ := Build.exists_toJson? h
    exact ⟨json, hj, hw hj (.inl rfl), hw hj (.inr rfl)⟩
  · have hr := hw h ht
    rw [hw h' ht'] at hr
    exact (Except.ok.inj hr).symm
  · obtain ⟨config, hc, rfl⟩ := (Application.value_start_eq_ok_iff env app).mp h
    obtain ⟨n, port, -, -, rfl⟩ := Configuration.read_eq_ok_iff.mp hc
    have hn : (Compiler.NativeCompiler.ofEnvironment env).path.IsText :=
      ⟨_, Compiler.NativeCompiler.path_ofEnvironment env⟩
    have hd := Storage.Path.isText_ofString
      ((env.get? Variable.cacheDirectory.key).getD Configuration.defaultCacheDirectory)
    obtain ⟨hf, hr⟩ := @runResolve_standard (.ofNumbers env n port) hn hd files version
    refine ⟨hf, fun build hb => ?_⟩
    obtain ⟨text, hp, ht⟩ := hr build hb
    exact ⟨text, hp, Bytes.toString?_ofString text, ht⟩

theorem builds_are_read_back_with_quotes :
    let env : Environment := ⟨[("SOLC_VERSION", "0.8.0"), ("SOLC_PATH", "\"solc\"\t\\")]⟩
    let build : Build := .native (.ofString "\"solc\"\t\\") "0.8.0"
    let other : Build := .native (.ofString "\\\"solc\\\"\\t\\\\") "0.8.0"
    (∃ json, build.toJson? = some json ∧ Build.read json.toCompact = .ok build ∧
        ∀ json', other.toJson? = some json' → json.toPretty ≠ json'.toPretty) ∧
      ∃ app text, (Application.start env).value = .ok app ∧
        (runResolve app .empty "0.8.0").value = ⟨.ofString text, .done⟩ ∧
        Build.read text = .ok build := by
  intro env build other
  obtain ⟨hr, hi, ha⟩ := builds_are_read_back
  obtain ⟨json, hj, hc, -⟩ := hr build "\"solc\"\t\\" (by rfl)
  have hs : (Application.start env).value = .ok (.standard (.ofNumbers env 200 8545)) := by rfl
  have hb : ((Application.standard (.ofNumbers env 200 8545)).registry.getBuild .empty "0.8.0").value
      = .ok build := by rfl
  have hne : build ≠ other := by decide
  obtain ⟨text, ht, -, hd⟩ := (ha env _ .empty "0.8.0" hs).2 build hb
  refine ⟨⟨json, hj, hc, fun json' hj' he => ?_⟩, _, text, hs, ht, hd⟩
  exact hne (hi build other json json' _ hj hj' (.inr rfl) (.inr he))

end CommandLine
end ContractPipeline
