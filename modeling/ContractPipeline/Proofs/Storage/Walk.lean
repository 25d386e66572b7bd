import ContractPipeline.Storage.FileTree

/-! Walks as a relation between the place where components start and the place that they lead to.
The relation composes along a path, and a path finds a node exactly if a walk ends there. -/
namespace ContractPipeline.Storage

open FileTree (isName)

theorem Node.at?_append (node : Node) (xs ys : List Bytes) :
    node.at? (xs ++ ys) = (node.at? xs).bind (·.at? ys) := by
  induction xs generalizing node with
  | nil => simp [at?]
  | cons name xs ih =>
    cases node with
    | folder entries =>
      simp only [List.cons_append, at?, Option.bind_assoc]
      exact congrArg _ (funext fun child => ih child)
    | file contents => rfl
    | link target => rfl

/-- What lies in a folder is found under its name behind the location of the folder. -/
theorem Node.at?_concat {root : Node} {location : List Bytes} {entries : List (Bytes × Node)}
    (h : root.at? location = some (.folder entries)) (name : Bytes) :
    root.at? (location ++ [name]) = entries.lookup name := by
  rw [at?_append, h]
  simp [at?]

/-- Where a walk stands: how many links it may still lead through, the node, and the location of the
node with the innermost name in front. -/
structure Place where
  links : Nat
  node : Node
  location : List Bytes

/-- Where a walk goes on after a link in a folder. -/
def Place.afterLink (root : Node) (links : Nat) (folder : Node) (location : List Bytes)
    (target : Path) : Place :=
  if target.isAbsolute then ⟨links, root, []⟩ else ⟨links, folder, location⟩

theorem Place.links_afterLink (root : Node) (links : Nat) (folder : Node) (location : List Bytes)
    (target : Path) : (afterLink root links folder location target).links = links := by
  unfold afterLink
  split <;> rfl

inductive Leads (root : Node) : Place → List Bytes → Place → Prop
  | done (p : Place) : Leads root p [] p
  | stay {links : Nat} {entries : List (Bytes × Node)} {location : List Bytes} {name : Bytes}
      {rest : List Bytes} {q : Place} (hn : name = [] ∨ name = here)
      (tail : Leads root ⟨links, .folder entries, location⟩ rest q) :
      Leads root ⟨links, .folder entries, location⟩ (name :: rest) q
  | up {links : Nat} {entries : List (Bytes × Node)} {location : List Bytes} {folder : Node}
      {rest : List Bytes} {q : Place} (hf : root.at? location.tail.reverse = some folder)
      (tail : Leads root ⟨links, folder, location.tail⟩ rest q) :
      Leads root ⟨links, .folder entries, location⟩ (above :: rest) q
  | enter {links : Nat} {entries : List (Bytes × Node)} {location : List Bytes} {name : Bytes}
      {child : Node} {rest : List Bytes} {q : Place} (hn : isName name = true)
      (hc : entries.lookup name = some child) (hl : ∀ target, child ≠ .link target)
      (tail : Leads root ⟨links, child, name :: location⟩ rest q) :
      Leads root ⟨links, .folder entries, location⟩ (name :: rest) q
  | link {links : Nat} {entries : List (Bytes × Node)} {location : List Bytes} {name : Bytes}
      {target : Path} {rest : List Bytes} {q : Place} (hn : isName name = true)
      (hc : entries.lookup name = some (.link target))
      (tail : Leads root (.afterLink root links (.folder entries) location target)
        (target.components ++ rest) q) :
      Leads root ⟨links + 1, .folder entries, location⟩ (name :: rest) q

theorem isName_iff (name : Bytes) :
    isName name = true ↔ name.length ≤ nameLimit ∧ name ≠ [] ∧ name ≠ here ∧ name ≠ above := by
  simp [isName]

theorem walk_nil (root : Node) (links : Nat) (node : Node) (location : List Bytes) :
    walk root false links node location [] = some location.reverse := by
  cases links <;> cases node <;> rfl

theorem walk_stay (root : Node) (links : Nat) (entries : List (Bytes × Node))
    (location : List Bytes) {name : Bytes} (rest : List Bytes) (h : name = [] ∨ name = here) :
    walk root false links (.folder entries) location (name :: rest) =
      walk root false links (.folder entries) location rest := by
  cases links <;> rw [walk, walkWith, if_pos h]

theorem walk_up (root : Node) (links : Nat) (entries : List (Bytes × Node))
    (location rest : List Bytes) :
    walk root false links (.folder entries) location (above :: rest) =
      (root.at? location.tail.reverse).bind fun folder =>
        walk root false links folder location.tail rest := by
  have hs : ¬(above = [] ∨ above = here) := by decide
  cases links <;> rw [walk, walkWith, if_neg hs, if_pos rfl] <;>
    cases root.at? location.tail.reverse <;> rfl

theorem walk_too_long (root : Node) (links : Nat) (entries : List (Bytes × Node))
    (location : List Bytes) {name : Bytes} (rest : List Bytes) (h : nameLimit < name.length) :
    walk root false links (.folder entries) location (name :: rest) = none := by
  have hs : ¬(name = [] ∨ name = here) := by
    rintro (rfl | rfl) <;> exact absurd h (by decide)
  have ha : name ≠ above := by
    rintro rfl
    exact absurd h (by decide)
  cases links <;> rw [walk, walkWith, if_neg hs, if_neg ha, if_pos h]

/-- Where a walk goes on with the name of an entry. -/
theorem walk_name (root : Node) (links : Nat) (entries : List (Bytes × Node))
    (location : List Bytes) {name : Bytes} (rest : List Bytes) (h : isName name = true) :
    walk root false links (.folder entries) location (name :: rest) =
      match entries.lookup name, links with
      | none, _ => none
      | some (.link _), 0 => none
      | some (.link target), links + 1 =>
        let p := Place.afterLink root links (.folder entries) location target
        walk root false p.links p.node p.location (target.components ++ rest)
      | some node, links => walk root false links node (name :: location) rest := by
  obtain ⟨hl, h1, h2, h3⟩ := (isName_iff name).mp h
  have hs : ¬(name = [] ∨ name = here) := by simp [h1, h2]
  have hlen : ¬nameLimit < name.length := by omega
  cases links with
  | zero =>
    rw [walk, walkWith, if_neg hs, if_neg h3, if_neg hlen]
    cases hc : entries.lookup name with
    | none => rfl
    | some child => cases child <;> rfl
  | succ links =>
    rw [walk, walkWith, if_neg hs, if_neg h3, if_neg hlen]
    cases hc : entries.lookup name with
    | none => rfl
    | some child =>
      cases child with
      | link target =>
        simp only [Place.afterLink]
        split <;> rfl
      | file contents => rfl
      | folder inner => rfl

/-- A successful walk starts at a folder, unless there are no components. -/
theorem exists_entries_of_walk {root : Node} {links : Nat} {node : Node} {location rest : List Bytes}
    {name : Bytes} {result : List Bytes}
    (h : walk root false links node location (name :: rest) = some result) :
    ∃ entries, node = .folder entries := by
  cases node with
  | folder entries => exact ⟨entries, rfl⟩
  | file contents => cases links <;> simp [walk, walkWith] at h
  | link target => cases links <;> simp [walk, walkWith] at h

theorem exists_leads_of_walk {root : Node} {links : Nat} {node : Node}
    {location components result : List Bytes}
    (h : walk root false links node location components = some result) :
    ∃ q, Leads root ⟨links, node, location⟩ components q ∧ q.location.reverse = result := by
  -- A link lowers the number of links and puts new components in front, so that the outer
  -- induction is on that number and the inner one on the components.
  induction links using Nat.strongRecOn generalizing node location components with
  | ind links ihLinks =>
    induction components generalizing node location with
    | nil =>
      rw [walk_nil] at h
      exact ⟨_, .done _, Option.some.inj h⟩
    | cons name rest ih =>
      obtain ⟨entries, rfl⟩ := exists_entries_of_walk h
      by_cases hs : name = [] ∨ name = here
      · rw [walk_stay _ _ _ _ _ hs] at h
        obtain ⟨q, hq, he⟩ := ih h
        exact ⟨q, .stay hs hq, he⟩
      by_cases ha : name = above
      · subst ha
        rw [walk_up] at h
        obtain ⟨folder, hf, hw⟩ := Option.bind_eq_some_iff.mp h
        obtain ⟨q, hq, he⟩ := ih hw
        exact ⟨q, .up hf hq, he⟩
      by_cases hl : nameLimit < name.length
      · rw [walk_too_long _ _ _ _ _ hl] at h
        cases h
      have hn : isName name = true := by
        rw [isName_iff]
        exact ⟨by omega, fun h => hs (.inl h), fun h => hs (.inr h), ha⟩
      rw [walk_name _ _ _ _ _ hn] at h
      cases hc : entries.lookup name with
      | none => simp [hc] at h
      | some child =>
        rw [hc] at h
        cases child with
        | file contents =>
          obtain ⟨q, hq, he⟩ := ih h
          exact ⟨q, .enter hn hc (fun _ => nofun) hq, he⟩
        | folder inner =>
          obtain ⟨q, hq, he⟩ := ih h
          exact ⟨q, .enter hn hc (fun _ => nofun) hq, he⟩
        | link target =>
          cases links with
          | zero => simp at h
          | succ links =>
            have hp := Place.links_afterLink root links (.folder entries) location target
            obtain ⟨q, hq, he⟩ := ihLinks _ (by omega) h
            exact ⟨q, .link hn hc hq, he⟩

/-- A walk goes on from the place that the first components lead to. -/
theorem walk_append_of_leads {root : Node} {p q : Place} {components : List Bytes}
    (h : Leads root p components q) (rest : List Bytes) :
    walk root false p.links p.node p.location (components ++ rest) =
      walk root false q.links q.node q.location rest := by
  induction h with
  | done p => rfl
  | stay hn _ ih => rw [List.cons_append, walk_stay _ _ _ _ _ hn, ih]
  | up hf _ ih => rw [List.cons_append, walk_up, hf]; exact ih
  | @enter links entries location name child rest q hn hc hl _ ih =>
    rw [List.cons_append, walk_name _ _ _ _ _ hn, hc]
    cases child with
    | link target => exact absurd rfl (hl target)
    | file contents => exact ih
    | folder inner => exact ih
  | link hn hc _ ih =>
    rw [List.append_assoc] at ih
    rw [List.cons_append, walk_name _ _ _ _ _ hn, hc]
    exact ih

theorem walk_of_leads {root : Node} {p q : Place} {components : List Bytes}
    (h : Leads root p components q) :
    walk root false p.links p.node p.location components = some q.location.reverse := by
  have hw := walk_append_of_leads h []
  rwa [List.append_nil, walk_nil] at hw

/-- A node stands among entries under a name, or a link does, which may lead on to the node. -/
def Lists (entries : List (Bytes × Node)) (name : Bytes) (node : Node) : Prop :=
  entries.lookup name = some node ∨ ∃ target, entries.lookup name = some (.link target)

namespace Leads

variable {root : Node} {p q : Place} {xs ys : List Bytes} {entries : List (Bytes × Node)}

theorem append {m : Place} (hx : Leads root p xs m) (hy : Leads root m ys q) :
    Leads root p (xs ++ ys) q := by
  induction hx with
  | done p => exact hy
  | stay hn _ ih => exact .stay hn (ih hy)
  | up hf _ ih => exact .up hf (ih hy)
  | enter hn hc hl _ ih => exact .enter hn hc hl (ih hy)
  | link hn hc _ ih =>
    have ht := ih hy
    rw [List.append_assoc] at ht
    exact .link hn hc ht

theorem exists_of_append (h : Leads root p (xs ++ ys) q) :
    ∃ m, Leads root p xs m ∧ Leads root m ys q := by
  generalize hz : xs ++ ys = zs at h
  induction h generalizing xs with
  | done p =>
    obtain ⟨rfl, rfl⟩ := List.append_eq_nil_iff.mp hz
    exact ⟨p, .done p, .done p⟩
  | stay hn tail ih =>
    rcases List.append_eq_cons_iff.mp hz with ⟨rfl, rfl⟩ | ⟨xs, rfl, rfl⟩
    · exact ⟨_, .done _, .stay hn tail⟩
    · obtain ⟨m, hm, hq⟩ := ih rfl
      exact ⟨m, .stay hn hm, hq⟩
  | up hf tail ih =>
    rcases List.append_eq_cons_iff.mp hz with ⟨rfl, rfl⟩ | ⟨xs, rfl, rfl⟩
    · exact ⟨_, .done _, .up hf tail⟩
    · obtain ⟨m, hm, hq⟩ := ih rfl
      exact ⟨m, .up hf hm, hq⟩
  | enter hn hc hl tail ih =>
    rcases List.append_eq_cons_iff.mp hz with ⟨rfl, rfl⟩ | ⟨xs, rfl, rfl⟩
    · exact ⟨_, .done _, .enter hn hc hl tail⟩
    · obtain ⟨m, hm, hq⟩ := ih rfl
      exact ⟨m, .enter hn hc hl hm, hq⟩
  | link hn hc tail ih =>
    rcases List.append_eq_cons_iff.mp hz with ⟨rfl, rfl⟩ | ⟨xs, rfl, rfl⟩
    · exact ⟨_, .done _, .link hn hc tail⟩
    · obtain ⟨m, hm, hq⟩ := ih (List.append_assoc _ _ _)
      exact ⟨m, .link hn hc hm, hq⟩

/-- A walk composes along the components. -/
theorem append_iff : Leads root p (xs ++ ys) q ↔ ∃ m, Leads root p xs m ∧ Leads root m ys q :=
  ⟨exists_of_append, fun ⟨_, hx, hy⟩ => hx.append hy⟩

/-- No component of a walk is too long for a name. -/
theorem length_le (h : Leads root p xs q) : ∀ name ∈ xs, name.length ≤ nameLimit := by
  induction h with
  | done p => simp
  | stay hn _ ih =>
    refine List.forall_mem_cons.mpr ⟨?_, ih⟩
    rcases hn with rfl | rfl <;> decide
  | up _ _ ih => exact List.forall_mem_cons.mpr ⟨by decide, ih⟩
  | enter hn _ _ _ ih => exact List.forall_mem_cons.mpr ⟨((isName_iff _).mp hn).1, ih⟩
  | link hn _ _ ih =>
    exact List.forall_mem_cons.mpr ⟨((isName_iff _).mp hn).1, (List.forall_mem_append.mp ih).2⟩

theorem exists_entries {name : Bytes} (h : Leads root p (name :: xs) q) :
    ∃ entries, p.node = .folder entries := by
  cases h <;> exact ⟨_, rfl⟩

theorem of_stay {name : Bytes} (hn : name = [] ∨ name = here) (h : p.node = .folder entries) :
    Leads root p [name] p := by
  obtain ⟨links, node, location⟩ := p
  cases h
  exact .stay hn (.done _)

theorem eq_of_here (h : Leads root p [here] q) : q = p := by
  cases h with
  | stay _ tail => cases tail; rfl
  | enter hn _ _ _ => exact absurd hn (by decide)
  | link hn _ _ => exact absurd hn (by decide)

theorem exists_lists {name : Bytes} (h : Leads root p [name] q) (hn : name ≠ [])
    (hh : name ≠ here) (ha : name ≠ above) :
    ∃ entries, p.node = .folder entries ∧ Lists entries name q.node := by
  cases h with
  | stay hs _ => exact absurd hs (by simp [hn, hh])
  | up _ _ => exact absurd rfl ha
  | enter _ hc _ tail => cases tail; exact ⟨_, rfl, .inl hc⟩
  | link _ hc _ => exact ⟨_, rfl, .inr ⟨_, hc⟩⟩

/-- The nodes of a walk stand in the tree at their locations. -/
theorem at?_location (h : Leads root p xs q) (hp : root.at? p.location.reverse = some p.node) :
    root.at? q.location.reverse = some q.node := by
  induction h with
  | done p => exact hp
  | stay _ _ ih => exact ih hp
  | up hf _ ih => exact ih hf
  | @enter links entries location name child rest q hn hc hl _ ih =>
    refine ih ?_
    rw [List.reverse_cons, Node.at?_concat hp, hc]
  | @link links entries location name target rest q hn hc _ ih =>
    refine ih ?_
    unfold Place.afterLink
    split
    · rfl
    · exact hp

end Leads

namespace FileTree

def Reaches (tree : FileTree) (path : Path) (q : Place) : Prop :=
  path.isUsable = true ∧ ∃ folder, tree.root.at? (tree.start path) = some folder ∧
    Leads tree.root ⟨linkLimit, folder, (tree.start path).reverse⟩ path.components q

theorem locate?_eq_some_iff (tree : FileTree) (path : Path) (location : List Bytes) :
    tree.locate? path false = some location ↔
      ∃ q, tree.Reaches path q ∧ q.location.reverse = location := by
  constructor
  · intro h
    obtain ⟨folder, hf, hw⟩ := Option.bind_eq_some_iff.mp h
    by_cases hu : path.isUsable = true
    · rw [if_pos hu] at hw
      obtain ⟨q, hq, he⟩ := exists_leads_of_walk hw
      exact ⟨q, ⟨hu, folder, hf, hq⟩, he⟩
    · rw [if_neg hu] at hw
      cases hw
  · rintro ⟨q, ⟨hu, folder, hf, hq⟩, rfl⟩
    refine Option.bind_eq_some_iff.mpr ⟨folder, hf, ?_⟩
    rw [if_pos hu]
    exact walk_of_leads hq

theorem Reaches.at?_location {tree : FileTree} {path : Path} {q : Place} (h : tree.Reaches path q) :
    tree.root.at? q.location.reverse = some q.node := by
  obtain ⟨-, folder, hf, hq⟩ := h
  exact hq.at?_location (by rw [List.reverse_reverse]; exact hf)

/-- A path finds the node that it leads to. -/
theorem find?_eq_some_iff (tree : FileTree) (path : Path) (node : Node) :
    tree.find? path = some node ↔ ∃ q, tree.Reaches path q ∧ q.node = node := by
  rw [find?, Option.bind_eq_some_iff]
  constructor
  · rintro ⟨location, hl, hn⟩
    obtain ⟨q, hq, rfl⟩ := (locate?_eq_some_iff tree path location).mp hl
    exact ⟨q, hq, Option.some.inj (hq.at?_location.symm.trans hn)⟩
  · rintro ⟨q, hq, rfl⟩
    exact ⟨_, (locate?_eq_some_iff tree path _).mpr ⟨q, hq, rfl⟩, hq.at?_location⟩

end FileTree

end ContractPipeline.Storage
