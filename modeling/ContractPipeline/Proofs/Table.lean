import Mathlib.Data.List.Nodup
import Mathlib.Data.String.Basic
import ContractPipeline.Table

/-! Ordered tables: an insertion changes what is found under its own name and nothing else, and keeps
the names in order. An ordered table is known by what is found in it. -/
namespace ContractPipeline.Table

variable {α : Type} {table : List (String × α)} {name other : String} {value former : α}

theorem insert_of_lt (h : name < other) (rest : List (String × α)) :
    insert name value ((other, former) :: rest) = (name, value) :: (other, former) :: rest := by
  rw [insert, compare_lt_iff_lt.mpr h]

theorem insert_of_gt (h : other < name) (rest : List (String × α)) :
    insert name value ((other, former) :: rest) = (other, former) :: insert name value rest := by
  rw [insert, compare_gt_iff_gt.mpr h]

theorem insert_of_eq (rest : List (String × α)) :
    insert name value ((name, former) :: rest) = (name, value) :: rest := by
  rw [insert, compare_eq_iff_eq.mpr rfl]

theorem lookup_insert_self (name : String) (value : α) (table : List (String × α)) :
    (insert name value table).lookup name = some value := by
  induction table with
  | nil => exact List.lookup_cons_self
  | cons entry rest ih =>
    obtain ⟨other, former⟩ := entry
    rcases lt_trichotomy name other with h | rfl | h
    · rw [insert_of_lt h]
      exact List.lookup_cons_self
    · rw [insert_of_eq]
      exact List.lookup_cons_self
    · rw [insert_of_gt h, List.lookup_cons, beq_eq_false_iff_ne.mpr h.ne']
      exact ih

theorem lookup_insert_of_ne (h : other ≠ name) (value : α) (table : List (String × α)) :
    (insert name value table).lookup other = table.lookup other := by
  have hb : (other == name) = false := beq_eq_false_iff_ne.mpr h
  induction table with
  | nil => rw [insert, List.lookup_cons, hb]
  | cons entry rest ih =>
    obtain ⟨key, former⟩ := entry
    rcases lt_trichotomy name key with hl | rfl | hl
    · rw [insert_of_lt hl, List.lookup_cons, hb]
    · rw [insert_of_eq, List.lookup_cons, List.lookup_cons, hb]
    · rw [insert_of_gt hl, List.lookup_cons, List.lookup_cons, ih]

/-- Of two values of one name, the first leaves nothing behind. -/
theorem insert_insert_self (name : String) (value former : α) (table : List (String × α)) :
    insert name value (insert name former table) = insert name value table := by
  induction table with
  | nil => exact insert_of_eq []
  | cons entry rest ih =>
    obtain ⟨key, old⟩ := entry
    rcases lt_trichotomy name key with h | rfl | h
    · rw [insert_of_lt h, insert_of_eq, insert_of_lt h]
    · rw [insert_of_eq, insert_of_eq, insert_of_eq]
    · rw [insert_of_gt h, insert_of_gt h, insert_of_gt h, ih]

/-- Insertions of two names can change places, also in a table that is not in order. -/
theorem insert_comm_of_lt (h : name < other) (value former : α) (table : List (String × α)) :
    insert name value (insert other former table) =
      insert other former (insert name value table) := by
  induction table with
  | nil =>
    rw [insert, insert, insert_of_lt h, insert_of_gt h, insert]
  | cons entry rest ih =>
    obtain ⟨key, old⟩ := entry
    rcases lt_trichotomy other key with hk | rfl | hk
    · rw [insert_of_lt hk, insert_of_lt h, insert_of_lt (h.trans hk), insert_of_gt h,
        insert_of_lt hk]
    · rw [insert_of_eq, insert_of_lt h, insert_of_lt h, insert_of_gt h, insert_of_eq]
    · rw [insert_of_gt hk]
      rcases lt_trichotomy name key with hn | rfl | hn
      · rw [insert_of_lt hn, insert_of_lt hn, insert_of_gt h, insert_of_gt hk]
      · rw [insert_of_eq, insert_of_eq, insert_of_gt hk]
      · rw [insert_of_gt hn, insert_of_gt hn, insert_of_gt hk, ih]

theorem insert_comm (h : name ≠ other) (value former : α) (table : List (String × α)) :
    insert name value (insert other former table) =
      insert other former (insert name value table) := by
  rcases lt_or_gt_of_ne h with hl | hl
  · exact insert_comm_of_lt hl value former table
  · exact (insert_comm_of_lt hl former value table).symm

/-- Each name stands in front of all greater ones, and only once. -/
def InOrder (table : List (String × α)) : Prop :=
  table.Pairwise fun a b => a.1 < b.1

theorem mem_insert {entry : String × α} (h : entry ∈ insert name value table) :
    entry = (name, value) ∨ entry ∈ table := by
  induction table with
  | nil => exact .inl (List.mem_singleton.mp h)
  | cons head rest ih =>
    obtain ⟨key, old⟩ := head
    rcases lt_trichotomy name key with hk | rfl | hk
    · rw [insert_of_lt hk] at h
      exact List.mem_cons.mp h
    · rw [insert_of_eq] at h
      exact (List.mem_cons.mp h).imp_right fun hr => List.mem_cons_of_mem _ hr
    · rw [insert_of_gt hk] at h
      rcases List.mem_cons.mp h with rfl | hr
      · exact .inr List.mem_cons_self
      · exact (ih hr).imp_right fun hm => List.mem_cons_of_mem _ hm

theorem InOrder.insert (h : InOrder table) (name : String) (value : α) :
    InOrder (insert name value table) := by
  induction table with
  | nil => exact List.pairwise_singleton _ _
  | cons head rest ih =>
    obtain ⟨key, old⟩ := head
    obtain ⟨hhead, hrest⟩ := List.pairwise_cons.mp h
    rcases lt_trichotomy name key with hk | rfl | hk
    · rw [insert_of_lt hk]
      refine List.pairwise_cons.mpr ⟨fun entry he => ?_, h⟩
      rcases List.mem_cons.mp he with rfl | hr
      · exact hk
      · exact hk.trans (hhead entry hr)
    · rw [insert_of_eq]
      exact List.pairwise_cons.mpr ⟨hhead, hrest⟩
    · rw [insert_of_gt hk]
      refine List.pairwise_cons.mpr ⟨fun entry he => ?_, ih hrest⟩
      rcases mem_insert he with rfl | hr
      · exact hk
      · exact hhead entry hr

/-- In an ordered table, the entry of a name is the one that is found. -/
theorem InOrder.lookup_eq_some_iff (h : InOrder table) :
    table.lookup name = some value ↔ (name, value) ∈ table := by
  induction table with
  | nil => simp
  | cons head rest ih =>
    obtain ⟨key, old⟩ := head
    obtain ⟨hhead, hrest⟩ := List.pairwise_cons.mp h
    rw [List.lookup_cons, List.mem_cons, Prod.mk.injEq]
    by_cases hk : name = key
    · subst hk
      have hn : (name, value) ∉ rest := fun hm => lt_irrefl name (hhead (name, value) hm)
      simp [hn, eq_comm]
    · rw [beq_eq_false_iff_ne.mpr hk, ih hrest]
      simp [hk]

theorem InOrder.pairwise_names (h : InOrder table) : (table.map Prod.fst).Pairwise (· < ·) :=
  List.pairwise_map.mpr h

theorem InOrder.nodup_names (h : InOrder table) : (table.map Prod.fst).Nodup :=
  h.pairwise_names.imp ne_of_lt

/-- A name that is listed is not listed a second time. -/
theorem InOrder.ne_of_mem_append (h : InOrder table) {before after : List (String × α)}
    {entry another : String × α} (ht : table = before ++ entry :: after)
    (hm : another ∈ before ++ after) : another.1 ≠ entry.1 := by
  have hn := h.nodup_names
  rw [ht, List.map_append, List.map_cons, List.nodup_middle, ← List.map_append] at hn
  intro he
  have hf : another.1 ∈ (before ++ after).map Prod.fst := List.mem_map_of_mem hm
  rw [he] at hf
  exact (List.nodup_cons.mp hn).1 hf

theorem InOrder.ext {others : List (String × α)} (h : InOrder table) (ho : InOrder others)
    (he : ∀ name, table.lookup name = others.lookup name) : table = others := by
  have hm : ∀ entry, entry ∈ table ↔ entry ∈ others := fun (name, value) => by
    rw [← h.lookup_eq_some_iff, he, ho.lookup_eq_some_iff]
  have hp : table.Perm others :=
    (List.perm_ext_iff_of_nodup (.of_map _ h.nodup_names) (.of_map _ ho.nodup_names)).mpr hm
  exact hp.eq_of_pairwise (fun a b _ _ hab hba => absurd hab hba.asymm) h ho

theorem insertAll_cons (name : String) (value : α) (entries table : List (String × α)) :
    insertAll ((name, value) :: entries) table = insertAll entries (insert name value table) := rfl

theorem insertAll_append (first second table : List (String × α)) :
    insertAll (first ++ second) table = insertAll second (insertAll first table) :=
  List.foldl_append

theorem inOrder_insertAll (entries : List (String × α)) (h : InOrder table) :
    InOrder (insertAll entries table) := by
  induction entries generalizing table with
  | nil => exact h
  | cons entry entries ih => exact ih (h.insert _ _)

/-- What is found after some insertions is the last value of the name, or else what was there. -/
theorem lookup_insertAll (entries table : List (String × α)) (name : String) :
    (insertAll entries table).lookup name =
      (entries.reverse.lookup name).or (table.lookup name) := by
  induction entries generalizing table with
  | nil => rfl
  | cons entry entries ih =>
    obtain ⟨key, value⟩ := entry
    rw [insertAll_cons, ih, List.reverse_cons, List.lookup_append, Option.or_assoc]
    congr 1
    by_cases hk : name = key
    · subst hk
      rw [lookup_insert_self, List.lookup_cons_self]
      rfl
    · rw [lookup_insert_of_ne hk, List.lookup_cons, beq_eq_false_iff_ne.mpr hk]
      rfl

/-- Values can be changed before they are put into a table or after. -/
theorem map_insert {β : Type} (f : α → β) (name : String) (value : α) (table : List (String × α)) :
    (insert name value table).map (fun (name, value) => (name, f value)) =
      insert name (f value) (table.map fun (name, value) => (name, f value)) := by
  induction table with
  | nil => rfl
  | cons entry rest ih =>
    obtain ⟨key, old⟩ := entry
    rcases lt_trichotomy name key with h | rfl | h
    · rw [insert_of_lt h, List.map_cons, List.map_cons, insert_of_lt h]
    · rw [insert_of_eq, List.map_cons, List.map_cons, insert_of_eq]
    · rw [insert_of_gt h, List.map_cons, List.map_cons, insert_of_gt h, ih]

theorem map_insertAll {β : Type} (f : α → β) (entries table : List (String × α)) :
    (insertAll entries table).map (fun (name, value) => (name, f value)) =
      insertAll (entries.map fun (name, value) => (name, f value))
        (table.map fun (name, value) => (name, f value)) := by
  induction entries generalizing table with
  | nil => rfl
  | cons entry entries ih => rw [insertAll_cons, ih, map_insert, List.map_cons, insertAll_cons]

/-- An insertion leaves nothing behind once its name is inserted again. -/
theorem insert_insertAll_insert (name : String) (value former : α)
    (entries table : List (String × α)) :
    insert name value (insertAll entries (insert name former table)) =
      insert name value (insertAll entries table) := by
  induction entries generalizing table with
  | nil => exact insert_insert_self name value former table
  | cons entry entries ih =>
    obtain ⟨key, other⟩ := entry
    rw [insertAll_cons, insertAll_cons]
    by_cases hk : key = name
    · subst hk
      rw [insert_insert_self]
    · rw [insert_comm hk, ih]

end ContractPipeline.Table
