import ContractPipeline.Proofs.Compiler.Containment
import ContractPipeline.Proofs.Compiler.Selection
import ContractPipeline.Proofs.Extension.Registration

/-! Where builds come from: however the provided overrides are stacked, a build is for the version
that was asked for, and its program is one that an override of the chain offers for this version or
one of the two that the cache holds for it. -/
namespace ContractPipeline.Extension

open Compiler (Build Cache CompilerError NativeCompiler Outcome)
open Storage (FileTree Path)

inductive Recipe
  | native (compiler : NativeCompiler)
  | fixed (path : Path)
  | fail (error : CompilerError)
  | lengthen (ending : String)
  | rescue (path : Path)
  | again (times : Nat)
  | only (version : Option String) (recipe : Recipe)
  | noting (label : String) (recipe : Recipe)

namespace Recipe

def override : Recipe → Override
  | native compiler => .native compiler
  | fixed path => .fixed path
  | fail error => .fail error
  | lengthen ending => .lengthen ending
  | rescue path => .rescue path
  | again times => .again times
  | only version recipe => .only version recipe.override
  | noting label recipe => .noting label recipe.override

/-- The path that a recipe offers for a version. -/
def offer? (version : String) : Recipe → Option Path
  | native compiler => if compiler.serves version then some compiler.path else none
  | fixed path | rescue path => some path
  | fail _ | lengthen _ | again _ => none
  | only limit recipe => if limit.all (· == version) then recipe.offer? version else none
  | noting _ recipe => recipe.offer? version

/-- What a recipe makes of the outcome below it. -/
def outcome (version : String) (lower : Outcome) : Recipe → Outcome
  | native compiler =>
    if compiler.serves version then .ok (.native compiler.path version) else lower
  | fixed path => .ok (.native path version)
  | fail error => .error error
  | lengthen ending =>
    lower.map fun build => { build with longVersion := build.longVersion ++ ending }
  | rescue path => .ok (lower.toOption.getD (.native path version))
  | again _ => lower
  | only limit recipe => if limit.all (· == version) then recipe.outcome version lower else lower
  | noting _ recipe => recipe.outcome version lower

end Recipe

theorem Override.value_run_repeated (lower : Recorded Outcome) (times : Nat) :
    ((repeated times).run lower).value = lower.value := by
  fun_induction repeated times with
  | case1 => rfl
  | case2 => rfl
  | case3 times ih =>
    rw [Plan.run_bind, Recorded.value_bind]
    exact ih

/-- However often a recipe consults what lies below it, its outcome depends on that of one time. -/
theorem Recipe.value_run_override (recipe : Recipe) (version : String) (lower : Recorded Outcome) :
    ((recipe.override version).run lower).value = recipe.outcome version lower.value := by
  induction recipe with
  | native compiler =>
    rw [override, outcome]
    cases hs : compiler.serves version with
    | true => rw [Override.run_native_of_serves compiler version lower hs]; rfl
    | false => rw [Override.run_native_of_not_serves compiler version lower hs]; rfl
  | fixed path => rfl
  | fail error => rfl
  | lengthen ending => rfl
  | rescue path =>
    rw [override, Override.rescue, Plan.run_bind, Plan.run_next, Recorded.value_bind, outcome]
    cases lower.value with
    | ok build => rfl
    | error error => rfl
  | again times => exact Override.value_run_repeated lower times
  | only limit recipe ih =>
    rw [override, outcome, ← ih]
    unfold Override.only
    cases limit with
    | none => rfl
    | some limit =>
      by_cases hl : limit = version
      · simp [hl]
      · simp [hl]
  | noting label recipe ih =>
    rw [override, outcome, ← ih]
    rfl

/-- Where the build for a version comes from: an offered path, or a program in the cache. -/
inductive Stems (cache : Cache) (files : FileTree) (version : String) (offers : List Path) :
    Build → Prop
  | offered {path : Path} {longVersion : String} (h : path ∈ offers) :
      Stems cache files version offers ⟨path, false, version, longVersion⟩
  | binary {longVersion : String} (h : cache.holds files version Cache.nativeName = true) :
      Stems cache files version offers
        ⟨cache.path version Cache.nativeName, false, version, longVersion⟩
  | script {longVersion : String} (h : cache.holds files version Cache.scriptName = true)
      (hn : cache.holds files version Cache.nativeName = false) :
      Stems cache files version offers
        ⟨cache.path version Cache.scriptName, true, version, longVersion⟩

section Stems

variable {cache : Cache} {files : FileTree} {version : String} {below : List Path}

theorem Stems.mono {offers : List Path} {build : Build}
    (h : Stems cache files version below build) (ho : below ⊆ offers) :
    Stems cache files version offers build := by
  cases h with
  | offered h => exact .offered (ho h)
  | binary h => exact .binary h
  | script h hn => exact .script h hn

theorem Stems.lengthen {build : Build} (h : Stems cache files version below build)
    (longVersion : String) :
    Stems cache files version below { build with longVersion := longVersion } := by
  cases h with
  | offered h => exact .offered h
  | binary h => exact .binary h
  | script h hn => exact .script h hn

theorem value_lookup (cache : Cache) (files : FileTree) (version : String) :
    (cache.lookup files version).value = cache.find files version := by
  unfold Cache.lookup
  split
  case h_1 error he => exact he.symm
  case h_2 build hb => exact hb.symm

theorem stems_of_find {build : Build} (h : cache.find files version = .ok build) :
    Stems cache files version below build := by
  obtain ⟨-, path, isJavaScript, longVersion, hp, -, rfl⟩ := Cache.exists_program?_of_find h
  unfold Cache.program? at hp
  by_cases hn : cache.holds files version Cache.nativeName = true
  · rw [if_pos hn] at hp
    cases hp
    exact .binary hn
  by_cases hs : cache.holds files version Cache.scriptName = true
  · rw [if_neg hn, if_pos hs] at hp
    cases hp
    exact .script hs (Bool.eq_false_iff.mpr hn)
  · rw [if_neg hn, if_neg hs] at hp
    cases hp

/-- One step up the chain: a recipe adds nothing but the path that it offers. -/
theorem Stems.outcome {lower : Outcome}
    (h : ∀ build, lower = .ok build → Stems cache files version below build) (recipe : Recipe)
    {build : Build} (hb : recipe.outcome version lower = .ok build) :
    Stems cache files version (below ++ (recipe.offer? version).toList) build := by
  have hkeep : ∀ build others, lower = .ok build →
      Stems cache files version (below ++ others) build := by
    intro build others hl
    exact (h build hl).mono (List.subset_append_left _ _)
  have hoffer : ∀ path, Stems cache files version (below ++ [path])
      (.native path version) := by
    intro path
    exact .offered (List.mem_append_right _ (List.mem_singleton_self path))
  induction recipe generalizing build with
  | native compiler =>
    rw [Recipe.outcome] at hb
    rw [Recipe.offer?]
    split at hb
    case isTrue hs =>
      cases hb
      rw [if_pos hs]
      exact hoffer compiler.path
    case isFalse hs => exact hkeep build _ hb
  | fixed path =>
    cases hb
    exact hoffer path
  | fail error => cases hb
  | lengthen ending =>
    cases hl : lower with
    | error error =>
      rw [hl] at hb
      cases hb
    | ok below =>
      rw [hl] at hb
      cases hb
      exact (hkeep below _ hl).lengthen _
  | rescue path =>
    cases hl : lower with
    | error error =>
      rw [hl] at hb
      cases hb
      exact hoffer path
    | ok below =>
      rw [hl] at hb
      cases hb
      exact hkeep below _ hl
  | again times => exact hkeep build _ hb
  | only limit recipe ih =>
    rw [Recipe.outcome] at hb
    rw [Recipe.offer?]
    split at hb
    case isTrue hv =>
      rw [if_pos hv]
      exact ih hb
    case isFalse hv => exact hkeep build _ hb
  | noting label recipe ih => exact ih hb

def offers (recipes : List Recipe) (version : String) : List Path :=
  recipes.flatMap fun recipe => (recipe.offer? version).toList

theorem Stems.nested (recipes : List Recipe) {base : Recorded Outcome}
    (h : ∀ build, base.value = .ok build → Stems cache files version below build) {build : Build}
    (hb : (nested (plans (recipes.map Recipe.override) version) base).value = .ok build) :
    Stems cache files version (below ++ offers recipes version) build := by
  -- On the chain, above any base: what the lowest recipe makes of it is the base of the others.
  induction recipes generalizing base below with
  | nil => exact (h build hb).mono (List.subset_append_left _ _)
  | cons recipe recipes ih =>
    have hstep : ∀ build, ((recipe.override version).run base).value = .ok build →
        Stems cache files version (below ++ (recipe.offer? version).toList) build := by
      intro build hr
      rw [recipe.value_run_override] at hr
      exact Stems.outcome h recipe hr
    have hall := ih hstep hb
    rwa [List.append_assoc] at hall

end Stems

/-- A call that adds to the chain: an installation, or an override put together from a recipe. -/
inductive Addition
  | install (config : Configuration)
  | override (recipe : Recipe)

namespace Addition

def registration : Addition → Registration
  | install config => .install config
  | override recipe => .override recipe.override

def recipe : Addition → Recipe
  | install config => .native config.nativeCompiler
  | override recipe => recipe

theorem override?_registration (addition : Addition) :
    addition.registration.override? = some addition.recipe.override := by
  cases addition with
  | install config => rfl
  | override recipe => rfl

end Addition

namespace Registry

def stacked (cache : Cache) (additions : List Addition) : Registry :=
  ((empty cache).registerAll (additions.map Addition.registration)).value

theorem overrides_stacked (cache : Cache) (additions : List Addition) :
    (stacked cache additions).overrides =
      (additions.map Addition.recipe).map Recipe.override := by
  have ho : Registration.override? ∘ Addition.registration =
      some ∘ Recipe.override ∘ Addition.recipe := funext Addition.override?_registration
  rw [stacked, value_registerAll, List.filterMap_map, ho, List.filterMap_eq_map, List.map_map]
  rfl

theorem cache_stacked (cache : Cache) (additions : List Addition) :
    (stacked cache additions).cache = cache := by
  rw [stacked, value_registerAll]
  rfl

theorem stems_of_getBuild_stacked {cache : Cache} {additions : List Addition} {files : FileTree}
    {version : String} {build : Build}
    (h : ((stacked cache additions).getBuild files version).value = .ok build) :
    Stems cache files version (offers (additions.map Addition.recipe) version) build := by
  rw [getBuild_eq_nested, overrides_stacked, cache_stacked] at h
  have hbase : ∀ build, (cache.lookup files version).value = .ok build →
      Stems cache files version [] build := by
    intro build hl
    exact stems_of_find ((value_lookup cache files version).symm.trans hl)
  exact Stems.nested _ hbase h

/-- Whatever chain of provided overrides and installations answers, a build is for the version that
was asked for. One in JavaScript is the script that the cache holds for the version, next to no
native program; any other is the native program that the cache holds for it, or lies at a path that
an override of the chain offers for it. -/
theorem getBuild_stacked (cache : Cache) (additions : List Addition) (files : FileTree)
    (version : String) (build : Build)
    (h : ((stacked cache additions).getBuild files version).value = .ok build) :
    build.version = version ∧
    (build.isJavaScript = true →
      build.compilerPath = cache.path version "soljson.js" ∧
      files.isFile (cache.path version "soljson.js") = true ∧
      files.isFile (cache.path version "solc") = false) ∧
    (build.isJavaScript = false →
      (∃ addition ∈ additions, ∃ path, addition.recipe.offer? version = some path ∧
        build.compilerPath = path) ∨
      build.compilerPath = cache.path version "solc" ∧
        files.isFile (cache.path version "solc") = true) := by
  cases stems_of_getBuild_stacked h with
  | @offered path longVersion hp =>
    refine ⟨rfl, nofun, fun _ => .inl ?_⟩
    simp only [offers, List.mem_flatMap, List.mem_map, Option.mem_toList] at hp
    obtain ⟨recipe, ⟨addition, ha, rfl⟩, ho⟩ := hp
    exact ⟨addition, ha, path, ho, rfl⟩
  | binary hn => exact ⟨rfl, nofun, fun _ => .inr ⟨rfl, hn⟩⟩
  | script hs hn => exact ⟨rfl, fun _ => ⟨rfl, hs, hn⟩, nofun⟩

def scriptAlone : FileTree where
  root := .folder [(.ofString "cache", .folder [(.ofString "0.8.19",
    .folder [(.ofString "soljson.js", .file [])])])]
  working := []

/-- A native compiler of another version between overrides that hand a request on. -/
def layered : List Addition :=
  [.override (.noting "a" (.again 3)),
    .install (.ofNumbers ⟨[("SOLC_VERSION", "0.8.0")]⟩ 200 8545),
    .override (.noting "b" (.only (some "0.8.1") (.rescue "/opt/solc"))),
    .override (.noting "c" (.lengthen "+x"))]

theorem getBuild_stacked_script :
    ∃ build, ((stacked ⟨"cache"⟩ layered).getBuild scriptAlone "0.8.19").value = .ok build ∧
      build.isJavaScript = true ∧ build.version = "0.8.19" ∧
      build.compilerPath = .ofString "cache/0.8.19/soljson.js" ∧
      scriptAlone.isFile (.ofString "cache/0.8.19/solc") = false := by
  have hb : ((stacked ⟨"cache"⟩ layered).getBuild scriptAlone "0.8.19").value =
      .ok ⟨.ofString "cache/0.8.19/soljson.js", true, "0.8.19", "0.8.19+x"⟩ := by rfl
  obtain ⟨hv, hs, -⟩ := getBuild_stacked ⟨"cache"⟩ layered scriptAlone "0.8.19" _ hb
  obtain ⟨hp, -, hn⟩ := hs rfl
  exact ⟨_, hb, rfl, hv, hp, hn⟩

end Registry

end ContractPipeline.Extension
