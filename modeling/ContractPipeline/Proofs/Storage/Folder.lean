import ContractPipeline.Proofs.Storage.Naming
import ContractPipeline.Proofs.Storage.Walk

/-! What lies in a folder: a path to it leads to the folder first, and goes on from there. -/
namespace ContractPipeline.Storage

/-- A usable path remains usable when a part of it takes the place of its end. -/
theorem Path.isUsable_within {folder : Path} {xs ys : Bytes}
    (h : (within folder xs).isUsable = true) (hn : ys ≠ []) (hl : ys.length ≤ xs.length)
    (hz : 0 ∈ ys → 0 ∈ xs) : (within folder ys).isUsable = true := by
  rw [within, isUsable_iff] at h ⊢
  obtain ⟨-, hlen, h0⟩ := h
  have hne : folder.front ++ ys ≠ [] := by simp [hn]
  refine ⟨hne, ?_, ?_⟩
  · rw [List.length_append] at hlen ⊢
    omega
  · rw [List.mem_append] at h0 ⊢
    rintro (hf | hy)
    · exact h0 (.inl hf)
    · exact h0 (.inr (hz hy))

namespace FileTree

/-- What stands in front of a name in a folder leads to a place. -/
def Opens (tree : FileTree) (folder : Path) (m : Place) : Prop :=
  let first := tree.start (folder.within here)
  ∃ node, tree.root.at? first = some node ∧
    Leads tree.root ⟨linkLimit, node, first.reverse⟩ folder.outer m

/-- A path to something in a folder leads to the folder first. -/
theorem reaches_within_iff (tree : FileTree) (folder : Path) {bytes : Bytes} (q : Place)
    (h : bytes.head? ≠ some Path.separator) :
    tree.Reaches (folder.within bytes) q ↔ (folder.within bytes).isUsable = true ∧
      ∃ m, tree.Opens folder m ∧ Leads tree.root m (Path.components ⟨bytes⟩) q := by
  have hh : here.head? ≠ some Path.separator := by decide
  have hs : tree.start (folder.within bytes) = tree.start (folder.within here) := by
    rw [start, start, Path.within, Path.within, Path.isAbsolute_append _ h hh]
  unfold Reaches
  rw [hs, Path.components_within]
  refine and_congr_right fun _ => ?_
  simp only [Leads.append_iff, Opens]
  constructor
  · rintro ⟨node, hn, m, hm, hq⟩
    exact ⟨m, ⟨node, hn, hm⟩, hq⟩
  · rintro ⟨m, ⟨node, hn, hm⟩, hq⟩
    exact ⟨node, hn, m, hm, hq⟩

theorem find?_within_iff (tree : FileTree) (folder : Path) {bytes : Bytes} (node : Node)
    (h : bytes.head? ≠ some Path.separator) :
    tree.find? (folder.within bytes) = some node ↔
      (folder.within bytes).isUsable = true ∧ ∃ m q, tree.Opens folder m ∧
        Leads tree.root m (Path.components ⟨bytes⟩) q ∧ q.node = node := by
  rw [find?_eq_some_iff]
  simp only [reaches_within_iff tree folder _ h]
  constructor
  · rintro ⟨q, ⟨hu, m, hm, hq⟩, he⟩
    exact ⟨hu, m, q, hm, hq, he⟩
  · rintro ⟨hu, m, q, hm, hq, he⟩
    exact ⟨q, ⟨hu, m, hm, hq⟩, he⟩

theorem file?_eq_some_iff (tree : FileTree) (path : Path) (contents : Bytes) :
    tree.file? path = some contents ↔ tree.find? path = some (.file contents) := by
  unfold file?
  split
  · rename_i h
    simp [h]
  · rename_i h
    exact ⟨nofun, fun hf => absurd hf (h contents)⟩

theorem bytes_ne_nil_of_find? {tree : FileTree} {path : Path} {node : Node}
    (h : tree.find? path = some node) : path.bytes ≠ [] := by
  obtain ⟨q, ⟨hu, -⟩, -⟩ := (find?_eq_some_iff tree _ node).mp h
  exact ((Path.isUsable_iff _).mp hu).1

/-- What stands in front of a name leads to the folder, as long as it is not empty. -/
theorem find?_of_within {tree : FileTree} {folder : Path} {node : Node} (hf : folder.bytes ≠ [])
    (h : tree.find? (folder.within here) = some node) : tree.find? folder = some node := by
  obtain ⟨hu, m, q, hm, hq, rfl⟩ := (find?_within_iff tree folder node (by decide)).mp h
  rw [Path.components_of_notMem (by decide)] at hq
  obtain ⟨entries, he⟩ := hq.exists_entries
  obtain rfl := hq.eq_of_here
  obtain ⟨rest, hr⟩ := folder.exists_front_eq
  have hs : tree.start (folder.within here) = tree.start folder := by
    rw [start, start, Path.within, hr, List.append_assoc, Path.isAbsolute_front hf]
  rw [Path.within, hr, List.append_assoc] at hu
  obtain ⟨first, hfirst, hl⟩ := hm
  rw [hs] at hfirst hl
  refine (find?_eq_some_iff tree _ _).mpr ⟨q, ⟨Path.isUsable_front hf hu, first, hfirst, ?_⟩, rfl⟩
  rcases folder.components_eq_or with hc | hc
  · rw [hc]
    exact hl
  · rw [hc]
    exact hl.append (.of_stay (.inl rfl) he)

/-- A node is read under a name in the folder that a path leads to. -/
def ReadsIn (tree : FileTree) (folder : Path) (name : Bytes) (node : Node) : Prop :=
  ∃ entries, tree.find? folder = some (.folder entries) ∧ Lists entries name node

/-- A name that cannot step out of a folder. -/
structure ProperName (name : Bytes) : Prop where
  ne_nil : name ≠ []
  separator_notMem : Path.separator ∉ name
  ne_here : name ≠ here
  ne_above : name ≠ above

/-- A proper name is read in the folder that it is joined to. -/
theorem readsIn_of_find? {tree : FileTree} {folder : Path} {name : Bytes} {node : Node}
    (h : tree.find? (folder.within name) = some node) (hn : ProperName name) :
    tree.ReadsIn (folder.within here) name node := by
  have hh := head?_ne_separator hn.ne_nil hn.separator_notMem []
  rw [List.append_nil] at hh
  obtain ⟨hu, m, q, hm, hq, rfl⟩ := (find?_within_iff tree folder node hh).mp h
  rw [Path.components_of_notMem hn.separator_notMem] at hq
  obtain ⟨entries, he, hl⟩ := hq.exists_lists hn.ne_nil hn.ne_here hn.ne_above
  refine ⟨entries, ?_, hl⟩
  refine (find?_within_iff tree folder _ (by decide)).mpr ⟨?_, m, m, hm, .of_stay (.inr rfl) he, he⟩
  refine Path.isUsable_within hu (by decide) ?_ fun hz => absurd hz (by decide)
  exact List.length_pos_iff.mpr hn.ne_nil

/-- A proper name in a folder within a folder is read there, whatever the name of the inner one. -/
theorem readsIn_of_find?_inner {tree : FileTree} {folder : Path} {inner name : Bytes} {node : Node}
    (h : tree.find? (folder.within (inner ++ Path.separator :: name)) = some node)
    (hi : inner ≠ []) (hs : Path.separator ∉ inner) (hn : ProperName name) :
    tree.ReadsIn (folder.within inner) name node := by
  obtain ⟨hu, m, q, hm, hq, rfl⟩ :=
    (find?_within_iff tree folder node (head?_ne_separator hi hs _)).mp h
  rw [Path.components_cons hs, Path.components_of_notMem hn.separator_notMem] at hq
  rw [← List.singleton_append] at hq
  obtain ⟨k, hk, hq⟩ := Leads.exists_of_append hq
  obtain ⟨entries, he, hl⟩ := hq.exists_lists hn.ne_nil hn.ne_here hn.ne_above
  refine ⟨entries, ?_, hl⟩
  have hh := head?_ne_separator hi hs []
  rw [List.append_nil] at hh
  refine (find?_within_iff tree folder _ hh).mpr ⟨?_, m, k, hm, ?_, he⟩
  · refine Path.isUsable_within hu hi ?_ fun hz => List.mem_append_left _ hz
    rw [List.length_append]
    omega
  · rw [Path.components_of_notMem hs]
    exact hk

/-- The step to the folder above leads to the folder that a folder lies in. -/
theorem exists_outer_of_find?_above {tree : FileTree} {folder : Path} {node : Node}
    (h : tree.find? (folder.within above) = some node) :
    ∃ location, tree.locate? (folder.within here) false = some location ∧
      tree.root.at? location.dropLast = some node := by
  obtain ⟨hu, m, q, hm, hq, rfl⟩ := (find?_within_iff tree folder node (by decide)).mp h
  obtain ⟨entries, he⟩ := Leads.exists_entries hq
  refine ⟨m.location.reverse, ?_, ?_⟩
  · refine (locate?_eq_some_iff tree _ _).mpr ⟨m, ?_, rfl⟩
    refine (reaches_within_iff tree folder m (by decide)).mpr ⟨?_, m, hm, .of_stay (.inr rfl) he⟩
    exact Path.isUsable_within hu (by decide) (by decide) (by decide)
  · cases hq with
    | stay hs _ => exact absurd hs (by decide)
    | up hf tail =>
      cases tail
      rw [List.dropLast_reverse]
      exact hf
    | enter hn _ _ _ => exact absurd hn (by decide)
    | link hn _ _ => exact absurd hn (by decide)

end FileTree

end ContractPipeline.Storage
