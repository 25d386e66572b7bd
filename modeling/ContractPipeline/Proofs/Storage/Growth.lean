import ContractPipeline.Proofs.Storage.Folder

/-! Trees that grow. A walk is kept by every tree in which the nodes on its way are kept, and a file
that is added to a folder shows under its own path only, unless a link leads to it. -/
namespace ContractPipeline.Storage

open FileTree (isName)

namespace Node

/-- A node may be replaced by another without loss: only a folder may differ, in its entries. -/
inductive Keeps : Node → Node → Prop
  | file (contents : Bytes) : Keeps (.file contents) (.file contents)
  | link (target : Path) : Keeps (.link target) (.link target)
  | folder (entries entries' : List (Bytes × Node)) : Keeps (.folder entries) (.folder entries')

theorem Keeps.refl (node : Node) : node.Keeps node := by
  cases node <;> constructor

/-- Every node of a tree is kept in another one. -/
def Grows (root root' : Node) : Prop :=
  ∀ location node, root.at? location = some node →
    ∃ node', root'.at? location = some node' ∧ node.Keeps node'

variable {entries : List (Bytes × Node)} {name : Bytes}

theorem lookup_filter_ne {other : Bytes} (h : other ≠ name) :
    (entries.filter (·.1 != name)).lookup other = entries.lookup other := by
  induction entries with
  | nil => rfl
  | cons entry entries ih =>
    obtain ⟨first, node⟩ := entry
    by_cases hf : first = name
    · subst hf
      rw [List.filter_cons_of_neg (by simp), ih, List.lookup_cons, beq_eq_false_iff_ne.mpr h]
    · rw [List.filter_cons_of_pos (by simpa using hf), List.lookup_cons, List.lookup_cons, ih]

theorem lookup_setEntry (added : Node) (other : Bytes) :
    (setEntry entries name (some added)).lookup other =
      if other = name then some added else entries.lookup other := by
  by_cases h : other = name
  · subst h
    rw [if_pos rfl, setEntry, List.lookup_cons_self]
  · rw [if_neg h, setEntry, List.lookup_cons, beq_eq_false_iff_ne.mpr h]
    exact lookup_filter_ne h

theorem set_cons {names : List Bytes} {child : Node} (replacement : Option Node) (hn : names ≠ [])
    (hc : entries.lookup name = some child) :
    set replacement (name :: names) (.folder entries) =
      .folder (setEntry entries name (some (set replacement names child))) := by
  cases names with
  | nil => exact absurd rfl hn
  | cons next names => simp [set, hc]

theorem exists_folder_of_at?_cons {root node : Node} {names : List Bytes}
    (h : root.at? (name :: names) = some node) :
    ∃ outer child, root = .folder outer ∧ outer.lookup name = some child ∧
      child.at? names = some node := by
  cases root with
  | folder outer =>
    obtain ⟨child, hc, hn⟩ := Option.bind_eq_some_iff.mp h
    exact ⟨outer, child, rfl, hc, hn⟩
  | file contents => cases h
  | link target => cases h

/-- The folder that a node is added to has it among its entries. -/
theorem at?_set {root : Node} {location : List Bytes} (name : Bytes) (added : Node)
    (h : root.at? location = some (.folder entries)) :
    (root.set (some added) (location ++ [name])).at? location =
      some (.folder (setEntry entries name (some added))) := by
  induction location generalizing root with
  | nil =>
    cases h
    rfl
  | cons first location ih =>
    obtain ⟨outer, child, rfl, hc, ht⟩ := exists_folder_of_at?_cons h
    rw [List.cons_append, set_cons _ (by simp) hc, at?, lookup_setEntry, if_pos rfl]
    exact ih ht

/-- A tree grows by a node with a new name. -/
theorem grows_set {root : Node} {location : List Bytes} (added : Node)
    (h : root.at? location = some (.folder entries)) (hn : entries.lookup name = none) :
    root.Grows (root.set (some added) (location ++ [name])) := by
  -- Down to the folder; beside the way there, nothing is touched.
  induction location generalizing root with
  | nil =>
    cases h
    rintro (_ | ⟨other, rest⟩) node hnode
    · cases hnode
      exact ⟨_, rfl, .folder _ _⟩
    · refine ⟨node, ?_, .refl node⟩
      have hne : other ≠ name := by
        rintro rfl
        rw [at?, hn] at hnode
        cases hnode
      rw [at?] at hnode
      change (Node.folder (setEntry entries name (some added))).at? (other :: rest) = some node
      rw [at?, lookup_setEntry, if_neg hne, hnode]
  | cons first location ih =>
    obtain ⟨outer, child, rfl, hc, ht⟩ := exists_folder_of_at?_cons h
    rw [List.cons_append, set_cons _ (by simp) hc]
    rintro (_ | ⟨other, rest⟩) node hnode
    · cases hnode
      exact ⟨_, rfl, .folder _ _⟩
    rw [at?] at hnode
    simp only [at?, lookup_setEntry]
    by_cases ho : other = first
    · subst ho
      rw [hc] at hnode
      rw [if_pos rfl]
      exact ih ht rest node hnode
    · rw [if_neg ho]
      exact ⟨node, hnode, .refl node⟩

def LinkFree (root : Node) : Prop :=
  ∀ location target, root.at? location ≠ some (.link target)

theorem linkFree_file (contents : Bytes) : (file contents).LinkFree
  | [], _ => nofun
  | _ :: _, _ => nofun

theorem linkFree_folder (h : ∀ entry ∈ entries, entry.2.LinkFree) : (folder entries).LinkFree := by
  rintro (_ | ⟨name, location⟩) target hat
  · cases hat
  · obtain ⟨child, hc, ht⟩ := Option.bind_eq_some_iff.mp hat
    obtain ⟨before, after, rfl, -⟩ := List.lookup_eq_some_iff.mp hc
    exact h (name, child) (List.mem_append_right _ List.mem_cons_self) location target ht

end Node

section Grown

variable {root root' : Node} (hg : root.Grows root')
include hg

theorem Node.Grows.exists_entries {location : List Bytes} {entries : List (Bytes × Node)} {node' : Node}
    (h : root.at? location = some (.folder entries)) (h' : root'.at? location = some node') :
    ∃ entries', node' = .folder entries' := by
  obtain ⟨node, hn, hk⟩ := hg _ _ h
  cases hn.symm.trans h'
  cases hk
  exact ⟨_, rfl⟩

/-- A walk is kept in a grown tree. -/
theorem Leads.grow {p q : Place} {xs : List Bytes} (h : Leads root p xs q)
    (hp : root.at? p.location.reverse = some p.node) {node' : Node}
    (hp' : root'.at? p.location.reverse = some node') :
    ∃ end', root'.at? q.location.reverse = some end' ∧
      Leads root' ⟨p.links, node', p.location⟩ xs ⟨q.links, end', q.location⟩ := by
  induction h generalizing node' with
  | done p => exact ⟨node', hp', .done _⟩
  | stay hn _ ih =>
    obtain ⟨entries', rfl⟩ := hg.exists_entries hp hp'
    obtain ⟨end', he, hl⟩ := ih hp hp'
    exact ⟨end', he, .stay hn hl⟩
  | up hf _ ih =>
    obtain ⟨entries', rfl⟩ := hg.exists_entries hp hp'
    obtain ⟨folder', hf', -⟩ := hg _ _ hf
    obtain ⟨end', he, hl⟩ := ih hf hf'
    exact ⟨end', he, .up hf' hl⟩
  | @enter links entries location name child rest q hn hc hnl _ ih =>
    obtain ⟨entries', rfl⟩ := hg.exists_entries hp hp'
    have hchild : root.at? (name :: location).reverse = some child := by
      rw [List.reverse_cons, Node.at?_concat hp, hc]
    obtain ⟨child', hchild', hk⟩ := hg _ _ hchild
    have hc' : entries'.lookup name = some child' := by
      rwa [List.reverse_cons, Node.at?_concat hp'] at hchild'
    have hnl' : ∀ target, child' ≠ .link target := by
      rintro target rfl
      cases hk
      exact hnl target rfl
    obtain ⟨end', he, hl⟩ := ih hchild hchild'
    exact ⟨end', he, .enter hn hc' hnl' hl⟩
  | @link links entries location name target rest q hn hc _ ih =>
    obtain ⟨entries', rfl⟩ := hg.exists_entries hp hp'
    have hlink : root.at? (name :: location).reverse = some (.link target) := by
      rw [List.reverse_cons, Node.at?_concat hp, hc]
    obtain ⟨_, hlink', hk⟩ := hg _ _ hlink
    cases hk
    have hc' : entries'.lookup name = some (.link target) := by
      rwa [List.reverse_cons, Node.at?_concat hp'] at hlink'
    -- An absolute target goes on from the root of the grown tree.
    unfold Place.afterLink at ih
    by_cases ht : target.isAbsolute = true
    · rw [if_pos ht] at ih
      obtain ⟨end', he, hl⟩ := ih rfl rfl
      exact ⟨end', he, .link hn hc' (by rwa [Place.afterLink, if_pos ht])⟩
    · rw [if_neg ht] at ih
      obtain ⟨end', he, hl⟩ := ih hp hp'
      exact ⟨end', he, .link hn hc' (by rwa [Place.afterLink, if_neg ht])⟩

end Grown

namespace Path

def child (path : Path) (name : Bytes) : Path :=
  ⟨path.bytes ++ separator :: name⟩

variable {path : Path} {name : Bytes}

theorem components_child (hs : separator ∉ name) :
    (path.child name).components = path.components ++ [name] := by
  rw [child, components, Text.split_append, Text.split_eq_singleton hs]
  rfl

theorem isUsable_of_child (hn : path.bytes ≠ []) (h : (path.child name).isUsable = true) :
    path.isUsable = true :=
  isUsable_front hn h

end Path

namespace FileTree

variable {tree tree' : FileTree} {path : Path} {name other : Bytes} {k q : Place}
  {entries : List (Bytes × Node)}

theorem start_child (tree : FileTree) (hn : path.bytes ≠ []) (name : Bytes) :
    tree.start (path.child name) = tree.start path := by
  rw [start, start, Path.child, Path.isAbsolute_front hn]

/-- The path of a name behind another path leads to the other place first. -/
theorem reaches_child_iff (hn : path.bytes ≠ []) (hs : Path.separator ∉ name) :
    tree.Reaches (path.child name) q ↔ (path.child name).isUsable = true ∧
      ∃ k, tree.Reaches path k ∧ Leads tree.root k [name] q := by
  unfold Reaches
  rw [start_child tree hn, Path.components_child hs]
  refine and_congr_right fun hu => ?_
  simp only [Leads.append_iff, Path.isUsable_of_child hn hu, true_and]
  constructor
  · rintro ⟨folder, hf, k, hk, hq⟩
    exact ⟨k, ⟨folder, hf, hk⟩, hq⟩
  · rintro ⟨k, ⟨folder, hf, hk⟩, hq⟩
    exact ⟨folder, hf, k, hk, hq⟩

theorem Reaches.bytes_ne_nil {q : Place} (h : tree.Reaches path q) : path.bytes ≠ [] :=
  ((Path.isUsable_iff path.bytes).mp h.1).1

/-- A path that leads somewhere leads to the same location in a grown tree. -/
theorem Reaches.grow {root' : Node} {q : Place} (h : tree.Reaches path q)
    (hg : tree.root.Grows root') :
    ∃ end', root'.at? q.location.reverse = some end' ∧
      ({ tree with root := root' } : FileTree).Reaches path ⟨q.links, end', q.location⟩ := by
  obtain ⟨hu, folder, hf, hw⟩ := h
  obtain ⟨folder', hf', -⟩ := hg _ _ hf
  have hstart := List.reverse_reverse (tree.start path)
  obtain ⟨end', he, hl⟩ := hw.grow hg (by rwa [hstart]) (by rwa [hstart])
  exact ⟨end', he, hu, folder', hf', hl⟩

/-- A name that is no link is found among the entries of the folder that stands in front of it. -/
theorem find?_child (hk : tree.Reaches path k) (he : k.node = .folder entries)
    (hn : isName name = true) (hs : Path.separator ∉ name)
    (hl : ∀ target, entries.lookup name ≠ some (.link target)) :
    tree.find? (path.child name) =
      if (path.child name).isUsable then entries.lookup name else none := by
  have hat : tree.root.at? k.location.reverse = some (.folder entries) := he ▸ hk.at?_location
  have hstart := start_child tree hk.bytes_ne_nil name
  obtain ⟨-, folder, hf, hw⟩ := hk
  have hwalk := walk_append_of_leads hw [name]
  rw [he, walk_name _ _ _ _ _ hn] at hwalk
  simp only [find?, locate?, walkFrom?, hstart, hf, Path.components_child hs, Option.bind_eq_bind,
    Option.bind_some, hwalk]
  split
  case isFalse => rfl
  have hin : tree.root.at? (name :: k.location).reverse = entries.lookup name := by
    rw [List.reverse_cons, Node.at?_concat hat]
  cases hc : entries.lookup name with
  | none => rfl
  | some child =>
    rw [hc] at hin
    have hend := walk_nil tree.root k.links child (name :: k.location)
    cases child with
    | link target => exact absurd hc (hl target)
    | file contents => simpa only [hend, Option.bind_some] using hin
    | folder inner => simpa only [hend, Option.bind_some] using hin

def LinkFree (tree : FileTree) : Prop :=
  tree.root.LinkFree

theorem LinkFree.lookup_ne (h : tree.LinkFree) {location : List Bytes}
    (hat : tree.root.at? location = some (.folder entries)) (target : Path) :
    entries.lookup name ≠ some (.link target) := by
  intro hc
  exact h (location ++ [name]) target ((Node.at?_concat hat name).trans hc)

/-- What a tree becomes when a file is put next to the one that a path leads to, under a name that is
not taken. -/
inductive AddsBeside (tree : FileTree) (path : Path) (name : Bytes) : FileTree → Prop
  | intro {q : Place} {contents : Bytes} (added : Bytes) (hq : tree.Reaches path q)
      (hf : q.node = .file contents)
      (hn : tree.root.at? (q.location.tail.reverse ++ [name]) = none) :
    AddsBeside tree path name
      { tree with root := tree.root.set (some (.file added)) (q.location.tail.reverse ++ [name]) }

/-- Where there are no links, what a path leads to stands in the folder in front of its last name. -/
theorem exists_folder_of_reaches_child (hq : tree.Reaches (path.child name) q) (hfree : tree.LinkFree)
    (hp : path.bytes ≠ []) (hs : Path.separator ∉ name) (hn : isName name = true) :
    ∃ k entries, tree.Reaches path k ∧ k.node = .folder entries ∧
      q.location = name :: k.location := by
  obtain ⟨-, k, hk, hstep⟩ := (reaches_child_iff hp hs).mp hq
  obtain ⟨entries, he⟩ := hstep.exists_entries
  have hat := hk.at?_location
  refine ⟨k, entries, hk, he, ?_⟩
  obtain ⟨links, node, location⟩ := k
  cases he
  cases hstep with
  | stay h => exact absurd hn (by rcases h with rfl | rfl <;> decide)
  | up => exact absurd hn (by decide)
  | enter _ _ _ tail => cases tail; rfl
  | link _ hc _ => exact absurd hc (hfree.lookup_ne hat _)

/-- Where there are no links, a file next to another one is a new entry of the folder that stands in
front of both. -/
theorem exists_folder_of_addsBeside (h : tree.AddsBeside (path.child name) other tree')
    (hfree : tree.LinkFree) (hp : path.bytes ≠ []) (hs : Path.separator ∉ name)
    (hn : isName name = true) :
    ∃ k entries added, tree.Reaches path k ∧ k.node = .folder entries ∧
      entries.lookup other = none ∧ tree' = { tree with
        root := tree.root.set (some (.file added)) (k.location.reverse ++ [other]) } := by
  obtain @⟨q, contents, added, hq, hf, hnone⟩ := h
  obtain ⟨k, entries, hk, he, hloc⟩ := exists_folder_of_reaches_child hq hfree hp hs hn
  rw [hloc, List.tail_cons] at hnone ⊢
  have hat := hk.at?_location
  rw [he] at hat
  exact ⟨k, entries, added, hk, he, (Node.at?_concat hat other).symm.trans hnone, rfl⟩

/-- Where there are no links, a new file at a path that differs from the one to a file in its last
name stands next to that file. -/
theorem addsBeside_of_add? {added contents : Bytes}
    (h : tree.add? (path.child other) (.file added) = some tree')
    (hq : tree.Reaches (path.child name) q) (hf : q.node = .file contents) (hfree : tree.LinkFree)
    (hp : path.bytes ≠ []) (hs : Path.separator ∉ name) (hn : isName name = true)
    (hs' : Path.separator ∉ other) (hn' : isName other = true) :
    tree.AddsBeside (path.child name) other tree' := by
  obtain ⟨k, entries, hk, he, hloc⟩ := exists_folder_of_reaches_child hq hfree hp hs hn
  obtain ⟨-, folder, hfolder, hw⟩ := id hk
  have hempty : other.isEmpty = false :=
    List.isEmpty_eq_false_iff.mpr ((isName_iff other).mp hn').2.1
  have hnames : (path.child other).names = path.components ++ [other] := by
    simp [Path.names, Path.components_child hs', hempty]
  have hstart := start_child tree hp other
  have hat := hk.at?_location
  rw [he] at hat
  have hwalk := walk_of_leads hw
  obtain ⟨location, hentry, hadd⟩ := Option.bind_eq_some_iff.mp h
  simp only [walkFrom?, entry?, hnames, hstart, hfolder, List.getLast?_concat, List.dropLast_concat,
    Option.bind_eq_bind, Option.bind_some, hwalk] at hentry
  split at hentry
  case isFalse => cases hentry
  simp only [Option.bind_some, hat] at hentry
  cases hentry
  split at hadd
  case isFalse => cases hadd
  case isTrue hnone =>
    cases hadd
    have htail : k.location = q.location.tail := by rw [hloc, List.tail_cons]
    rw [htail] at hnone ⊢
    exact .intro added hq hf (Option.isNone_iff_eq_none.mp hnone)

/-- A file added to a folder shows under its name, as far as the path is usable, and nothing else in
the folder changes. -/
theorem find?_child_of_adds (hfree : tree.LinkFree) (hk : tree.Reaches path k)
    (he : k.node = .folder entries) (hnew : entries.lookup name = none) (added : Bytes)
    (hn : isName other = true) (hs : Path.separator ∉ other) :
    ({ tree with root := tree.root.set (some (.file added)) (k.location.reverse ++ [name]) } :
        FileTree).find? (path.child other) =
      if other = name then
        if (path.child other).isUsable then some (.file added) else none
      else tree.find? (path.child other) := by
  have hat : tree.root.at? k.location.reverse = some (.folder entries) := he ▸ hk.at?_location
  have hset := Node.at?_set name (.file added) hat
  obtain ⟨end', he', hk'⟩ := hk.grow (Node.grows_set (.file added) hat hnew)
  cases hset.symm.trans he'
  have hnew' : ∀ target, (Node.setEntry entries name (some (.file added))).lookup other ≠
      some (.link target) := by
    intro target
    rw [Node.lookup_setEntry]
    split
    · simp
    · exact hfree.lookup_ne hat target
  rw [find?_child hk' rfl hn hs hnew', Node.lookup_setEntry,
    find?_child hk he hn hs (hfree.lookup_ne hat)]
  by_cases ho : other = name
  · rw [if_pos ho, if_pos ho]
  · rw [if_neg ho, if_neg ho]

end FileTree
end ContractPipeline.Storage
