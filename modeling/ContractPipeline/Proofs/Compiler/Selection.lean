import ContractPipeline.Proofs.Extension.Chain
import ContractPipeline.Proofs.Startup

/-! Which compiler serves a version: the native one for exactly the version it is configured for,
and the cache, after one warning, for any other. -/
namespace ContractPipeline

open Compiler (Build Cache CompilerError NativeCompiler Outcome)
open Storage (FileTree)

def Recorded.warnings {α : Type} (x : Recorded α) : List LogRecord :=
  x.records.filter (·.level = .warn)

namespace Compiler

theorem NativeCompiler.serves_iff (native : NativeCompiler) (version : String) :
    native.serves version = true ↔ native.expectedVersion = some version := beq_iff_eq

theorem NativeCompiler.path_ofEnvironment (env : Environment) :
    (ofEnvironment env).path = .ofString ((env.get? Variable.solcPath.key).getD "solc") :=
  Option.getD_map Storage.Path.ofString "solc" _

theorem Cache.warnings_lookup (cache : Cache) (tree : FileTree) (version : String) :
    (cache.lookup tree version).warnings = [] := by
  unfold lookup
  split <;> rfl

end Compiler

namespace Extension.Override

/-- The native compiler answers for its own version, whatever lies below. -/
theorem run_native_of_serves (native : NativeCompiler) (version : String)
    (lower : Recorded Outcome) (h : native.serves version = true) :
    (Override.native native version).run lower =
      ⟨.ok (.native native.path version), [.log (native.usingNative version)]⟩ := by
  simp only [Override.native, NativeCompiler.resolve, h, if_true]
  rfl

/-- Any other version is handed on after a warning, and what comes back is kept. -/
theorem run_native_of_not_serves (native : NativeCompiler) (version : String)
    (lower : Recorded Outcome) (h : native.serves version = false) :
    (Override.native native version).run lower =
      (do Recorded.emit (.log (NativeCompiler.usingDownloaded version))
          lower) := by
  have hk : ∀ outcome : Outcome,
      (outcome.map Compiler.Descriptor.delegated).map Compiler.Descriptor.build = outcome := by
    intro outcome
    cases outcome <;> rfl
  simp only [Override.native, NativeCompiler.resolve, h, Bool.false_eq_true, if_false,
    Plan.run_bind, Plan.run_emit, Plan.run_next, Plan.run_pure, bind_assoc, pure_bind, hk, bind_pure]

end Extension.Override

namespace Application

theorem getBuild_standard (config : Configuration) (files : FileTree) (version : String) :
    (standard config).registry.getBuild files version =
      (do Recorded.emit (.log ⟨.debug, "Running compile:solidity:get-solc-build for solc " ++ version⟩)
          (Extension.Override.native config.nativeCompiler version).run
            ((⟨config.cacheDirectory⟩ : Cache).lookup files version)) :=
  Extension.Registry.getBuild_eq_nested _ files version

theorem getBuild_standard_of_serves (config : Configuration) (files : FileTree) (version : String)
    (h : config.nativeCompiler.serves version = true) :
    ((standard config).registry.getBuild files version).value =
        .ok (.native config.nativeCompiler.path version) ∧
      ((standard config).registry.getBuild files version).warnings = [] := by
  rw [getBuild_standard, Extension.Override.run_native_of_serves _ _ _ h]
  exact ⟨rfl, rfl⟩

theorem getBuild_standard_of_not_serves (config : Configuration) (files : FileTree)
    (version : String) (h : config.nativeCompiler.serves version = false) :
    ((standard config).registry.getBuild files version).value =
        ((⟨config.cacheDirectory⟩ : Cache).lookup files version).value ∧
      ((standard config).registry.getBuild files version).warnings =
        [NativeCompiler.usingDownloaded version] := by
  rw [getBuild_standard, Extension.Override.run_native_of_not_serves _ _ _ h]
  refine ⟨rfl, ?_⟩
  have hw := Cache.warnings_lookup ⟨config.cacheDirectory⟩ files version
  exact congrArg (NativeCompiler.usingDownloaded version :: ·) hw

/-- The version that the environment expects is served natively, on every file tree and without a
warning; any other request ends as it does in the cache, after exactly one warning. The configured
version is the expected one as soon as there is one. -/
theorem getBuild_start (env : Environment) (app : Application)
    (h : (start env).value = .ok app) (version : String) (files : FileTree) :
    (env.get? Variable.solcVersion.key = some version →
      (app.registry.getBuild files version).value =
          .ok (.native (.ofString ((env.get? Variable.solcPath.key).getD "solc")) version) ∧
        (app.registry.getBuild files version).warnings = []) ∧
    (env.get? Variable.solcVersion.key ≠ some version →
      (app.registry.getBuild files version).value =
          ((⟨.ofString ((env.get? Variable.cacheDirectory.key).getD ".toolchain/compilers")⟩ :
            Cache).lookup files version).value ∧
        (app.registry.getBuild files version).warnings =
          [⟨.warn, "Using compiler downloaded by the build framework for solc " ++ version⟩]) ∧
    (env.isSet Variable.solcVersion.key = true →
      (app.registry.getBuild files app.config.solidity.version).value =
        .ok (.native (.ofString ((env.get? Variable.solcPath.key).getD "solc"))
          app.config.solidity.version)) := by
  obtain ⟨config, hc, rfl⟩ := (value_start_eq_ok_iff env app).mp h
  obtain ⟨n, port, -, -, rfl⟩ := Configuration.read_eq_ok_iff.mp hc
  have hs := NativeCompiler.serves_iff (NativeCompiler.ofEnvironment env)
  have hnative : ∀ version, env.get? Variable.solcVersion.key = some version →
      ((standard (.ofNumbers env n port)).registry.getBuild files version).value =
          .ok (.native (.ofString ((env.get? Variable.solcPath.key).getD "solc")) version) ∧
        ((standard (.ofNumbers env n port)).registry.getBuild files version).warnings = [] := by
    intro version hv
    rw [← NativeCompiler.path_ofEnvironment]
    exact getBuild_standard_of_serves _ files version ((hs version).mpr hv)
  refine ⟨hnative version, fun hv => getBuild_standard_of_not_serves _ files version ?_, fun hv => ?_⟩
  · exact Bool.eq_false_iff.mpr fun ht => hv ((hs version).mp ht)
  · obtain ⟨expected, he⟩ := Option.isSome_iff_exists.mp hv
    have hd : (standard (Configuration.ofNumbers env n port)).config.solidity.version = expected := by
      simp [standard, Configuration.ofNumbers, Configuration.assemble, he]
    rw [hd]
    exact (hnative expected he).1

theorem getBuild_start_native_and_cached :
    let env : Environment := ⟨[("SOLC_VERSION", "0.8.0"), ("SOLC_PATH", "/usr/bin/solc")]⟩
    ∃ app, (start env).value = .ok app ∧
      (app.registry.getBuild .empty "0.8.0").value =
        .ok (.native (.ofString "/usr/bin/solc") "0.8.0") ∧
      (app.registry.getBuild .empty "0.8.0 ").warnings.length = 1 := by
  intro env
  have hs : (start env).value = .ok (standard (.ofNumbers env 200 8545)) := by rfl
  have hn := getBuild_start env _ hs "0.8.0" .empty
  have hc := getBuild_start env _ hs "0.8.0 " .empty
  refine ⟨_, hs, (hn.1 rfl).1, ?_⟩
  rw [(hc.2.1 (by decide)).2]
  rfl

end Application
end ContractPipeline
