import ContractPipeline.Proofs.Compiler.Listing
import ContractPipeline.Proofs.Compiler.VersionOrder

/-! The order in which the cache lists its folders. It is found by sorting, and since only equal names
tie, it does not depend on how the folder of the cache is enumerated. -/
namespace ContractPipeline.Compiler

namespace Version

/-- Names in their order, in which equal ones stand together. -/
def Ordered (names : List String) : Prop :=
  names.Pairwise fun a b => a = b ∨ NameBefore a b

variable {names names' : List String}

theorem isLE_orderNames_iff (a b : String) :
    (orderNames a b).isLE = true ↔ a = b ∨ NameBefore a b :=
  (tells_orderNames a b).isLE_iff

theorem ordered_sortNames (names : List String) : Ordered (sortNames names) := by
  have htrans : ∀ a b c : String, (orderNames a b).isLE = true → (orderNames b c).isLE = true →
      (orderNames a c).isLE = true := by
    intro a b c hab hbc
    rw [isLE_orderNames_iff] at hab hbc ⊢
    rcases hab with rfl | hab
    · exact hbc
    · rcases hbc with rfl | hbc
      · exact .inr hab
      · exact .inr (hab.trans hbc)
  have htotal : ∀ a b : String, ((orderNames a b).isLE || (orderNames b a).isLE) = true := by
    intro a b
    rw [Bool.or_eq_true, isLE_orderNames_iff, isLE_orderNames_iff]
    by_cases h : a = b
    · exact .inl (.inl h)
    · rcases NameBefore.total h with h | h
      · exact .inl (.inr h)
      · exact .inr (.inr h)
  exact (List.pairwise_mergeSort htrans htotal names).imp (isLE_orderNames_iff _ _).mp

/-- The order of names leaves no choice. -/
theorem Ordered.eq_of_perm (h : Ordered names) (h' : Ordered names') (hp : names.Perm names') :
    names = names' := by
  refine List.Perm.eq_of_pairwise ?_ h h' hp
  intro a b _ _ hab hba
  rcases hab with hab | hab
  · exact hab
  · rcases hba with hba | hba
    · exact hba.symm
    · exact absurd (hab.trans hba) (NameBefore.irrefl a)

theorem sortNames_eq_of_perm (hp : names.Perm names') : sortNames names = sortNames names' := by
  apply (ordered_sortNames names).eq_of_perm (ordered_sortNames names')
  exact (List.mergeSort_perm _ _).trans (hp.trans (List.mergeSort_perm _ _).symm)

end Version

namespace Cache

open Storage (FileTree Node)

def isFolder : Bytes × Node → Bool
  | (_, .folder _) => true
  | (_, .file _) | (_, .link _) => false

def folderNames (entries : List (Bytes × Node)) : List String :=
  (entries.filter isFolder).map fun entry => entry.1.toStringLossy

theorem filterMap_folderName? (entries : List (Bytes × Node)) :
    entries.filterMap folderName? = folderNames entries := by
  induction entries with
  | nil => rfl
  | cons entry entries ih =>
    obtain ⟨name, node⟩ := entry
    cases node with
    | folder => exact congrArg (name.toStringLossy :: ·) ih
    | file | link => exact ih

theorem folderNames_perm {entries entries' : List (Bytes × Node)} (h : entries'.Perm entries) :
    (folderNames entries').Perm (folderNames entries) :=
  (h.filter _).map _

/-- A cache lists the folders in it, each name as often as it occurs, in the order of names, however
its entries are enumerated. The order is strict and total. A cache that does not exist lists none. -/
theorem versions_ordered (cache : Cache) (tree : FileTree) :
    (∀ entries, tree.find? cache.directory = some (.folder entries) →
      ∃ names, cache.versions tree = .ok names ∧ names.Perm (folderNames entries) ∧
        Version.Ordered names ∧
        ∀ (tree' : FileTree) (entries' : List (Bytes × Node)), entries'.Perm entries →
          tree'.find? cache.directory = some (.folder entries') →
          cache.versions tree' = .ok names) ∧
    (tree.find? cache.directory = none → cache.versions tree = .ok []) ∧
    (∀ a, ¬Version.NameBefore a a) ∧
    (∀ a b c, Version.NameBefore a b → Version.NameBefore b c → Version.NameBefore a c) ∧
    ∀ a b, a ≠ b → Version.NameBefore a b ∨ Version.NameBefore b a := by
  refine ⟨fun entries hf => ?_, fun hn => by rw [versions, hn], Version.NameBefore.irrefl,
    fun _ _ _ => .trans, fun _ _ => Version.NameBefore.total⟩
  refine ⟨Version.sortNames (folderNames entries), ?_, List.mergeSort_perm _ _,
    Version.ordered_sortNames _, fun tree' entries' hp hf' => ?_⟩
  · rw [versions_eq hf, filterMap_folderName?]
  · rw [versions_eq hf', filterMap_folderName?,
      Version.sortNames_eq_of_perm (folderNames_perm hp)]

/-- Entries of a cache: versions of all kinds, other names, and a file. -/
def mixedEntries : List (Bytes × Node) := [
  (.ofString "nightly", .folder []), (.ofString "1.0.0+01", .folder []),
  (.ofString "1.0.0", .folder []), (.ofString "1.0.0-rc.10", .folder []),
  (.ofString "solc", .file []), (.ofString "1.0.0+1", .folder []), (.ofString "0.10.0", .folder []),
  (.ofString "1.0.0-rc.2", .folder []), (.ofString "0.8.0", .folder []),
  (.ofString "01.0.0", .folder [])]

theorem versions_ordered_mixed :
    let tree : FileTree := ⟨.folder [(.ofString "cache", .folder mixedEntries)], []⟩
    let names := ["0.8.0", "0.10.0", "1.0.0-rc.2", "1.0.0-rc.10", "1.0.0", "1.0.0+1", "1.0.0+01",
      "01.0.0", "nightly"]
    (⟨"cache"⟩ : Cache).versions tree = .ok names ∧ (⟨"none"⟩ : Cache).versions tree = .ok [] := by
  intro tree names
  obtain ⟨hf, -⟩ := versions_ordered ⟨"cache"⟩ tree
  obtain ⟨-, hn, -⟩ := versions_ordered ⟨"none"⟩ tree
  obtain ⟨listed, hv, hp, ho, -⟩ := hf _ rfl
  have hs : names.Pairwise fun a b => (Version.orderNames a b).isLE = true := by decide +kernel
  have hnames : Version.Ordered names := hs.imp (Version.isLE_orderNames_iff _ _).mp
  have hperm : (folderNames mixedEntries).Perm names := by decide +kernel
  refine ⟨?_, hn rfl⟩
  rw [hv, ho.eq_of_perm hnames (hp.trans hperm)]

end Cache

end ContractPipeline.Compiler
