import Mathlib.Data.String.Basic
import Mathlib.Order.Compare
import Mathlib.Tactic.Tauto
import ContractPipeline.Proofs.Compiler.VersionText
import ContractPipeline.Proofs.Text.ByteOrder

/-! The order of version names: what comes before what, and that the comparison decides it. Only a
name itself is level with a name. -/
namespace ContractPipeline.Compiler

section Tells

/-- A comparison tells which of three things holds: the left value comes before the right one, is
the same, or comes after it. -/
structure Tells (o : Ordering) (before same after : Prop) : Prop where
  lt : o = .lt ↔ before
  eq : o = .eq ↔ same
  gt : o = .gt ↔ after

namespace Tells

variable {o o' : Ordering} {before before' same same' after after' : Prop}

theorem congr (h : Tells o before same after) (hb : before ↔ before') (hs : same ↔ same')
    (ha : after ↔ after') : Tells o before' same' after' :=
  ⟨h.lt.trans hb, h.eq.trans hs, h.gt.trans ha⟩

/-- The first comparison that finds a difference decides. -/
theorem andThen (h : Tells o before same after) (h' : Tells o' before' same' after') :
    Tells (o.then o') (before ∨ same ∧ before') (same ∧ same') (after ∨ same ∧ after') := by
  constructor
  · rw [Ordering.then_eq_lt, h.lt, h.eq, h'.lt]
  · rw [Ordering.then_eq_eq, h.eq, h'.eq]
  · rw [Ordering.then_eq_gt, h.gt, h.eq, h'.gt]

theorem of_compare {α : Type} [LinearOrder α] (a b : α) :
    Tells (compare a b) (a < b) (a = b) (b < a) :=
  ⟨compare_lt_iff_lt, compare_eq_iff_eq, compare_gt_iff_gt⟩

theorem before_or (h : Tells o before same after) : before ∨ same ∨ after := by
  rw [← h.lt, ← h.eq, ← h.gt]
  cases o with
  | lt => exact .inl rfl
  | eq => exact .inr (.inl rfl)
  | gt => exact .inr (.inr rfl)

theorem isLE_iff (h : Tells o before same after) : o.isLE = true ↔ same ∨ before := by
  rw [Ordering.isLE_iff_eq_lt_or_eq_eq, h.lt, h.eq, or_comm]

theorem not_before (h : Tells o before same after) (hs : same) : ¬before := by
  intro hb
  rw [← h.eq] at hs
  rw [← h.lt, hs] at hb
  cases hb

end Tells

end Tells

namespace Identifier

/-- The precedence of identifiers: numbers by value and before words, and words as texts. -/
inductive Precedes : Identifier → Identifier → Prop
  | value {value value' zeros zeros' : Nat} (h : value < value') :
      Precedes (.numeric value zeros) (.numeric value' zeros')
  | kind {value zeros : Nat} {text : String} : Precedes (.numeric value zeros) (.word text)
  | text {text text' : String} (h : text < text') : Precedes (.word text) (.word text')

/-- The order in a build, where a number with fewer zeros in front comes before the same with more. -/
inductive Before : Identifier → Identifier → Prop
  | precedes {a b : Identifier} (h : a.Precedes b) : Before a b
  | zeros {value zeros zeros' : Nat} (h : zeros < zeros') :
      Before (.numeric value zeros) (.numeric value zeros')

theorem Precedes.trans {a b c : Identifier} (h : a.Precedes b) (h' : b.Precedes c) :
    a.Precedes c := by
  cases h with
  | value h =>
    cases h' with
    | value h' => exact .value (h.trans h')
    | kind => exact .kind
  | kind =>
    cases h'
    exact .kind
  | text h =>
    cases h' with
    | text h' => exact .text (h.trans h')

theorem Before.trans {a b c : Identifier} (h : a.Before b) (h' : b.Before c) : a.Before c := by
  cases h with
  | precedes h =>
    cases h' with
    | precedes h' => exact .precedes (h.trans h')
    | zeros =>
      cases h with
      | value h => exact .precedes (.value h)
  | zeros h =>
    cases h' with
    | zeros h' => exact .zeros (h.trans h')
    | precedes h' =>
      cases h' with
      | value h' => exact .precedes (.value h')
      | kind => exact .precedes .kind

theorem before_numeric_iff {value value' zeros zeros' : Nat} :
    (numeric value zeros).Before (numeric value' zeros') ↔
      value < value' ∨ value = value' ∧ zeros < zeros' := by
  constructor
  · intro h
    cases h with
    | precedes h =>
      cases h with
      | value h => exact .inl h
    | zeros h => exact .inr ⟨rfl, h⟩
  · rintro (h | ⟨rfl, h⟩)
    · exact .precedes (.value h)
    · exact .zeros h

theorem before_word_iff {text text' : String} : (word text).Before (word text') ↔ text < text' := by
  constructor
  · intro h
    cases h with
    | precedes h =>
      cases h with
      | text h => exact h
  · intro h
    exact .precedes (.text h)

theorem not_word_before_numeric {text : String} {value zeros : Nat} :
    ¬(word text).Before (numeric value zeros) := by
  rintro (⟨⟨⟩⟩ | ⟨⟩)

theorem tells_order (a b : Identifier) : Tells (a.order b) (a.Before b) (a = b) (b.Before a) := by
  cases a with
  | numeric value zeros =>
    cases b with
    | numeric value' zeros' =>
      have h := (Tells.of_compare value value').andThen (Tells.of_compare zeros zeros')
      refine h.congr before_numeric_iff.symm (by simp) ?_
      rw [before_numeric_iff, eq_comm]
    | word text' =>
      refine ⟨iff_of_true rfl (.precedes .kind), by simp [order], ?_⟩
      simp [order, not_word_before_numeric]
  | word text =>
    cases b with
    | numeric value' zeros' =>
      refine ⟨by simp [order, not_word_before_numeric], by simp [order], ?_⟩
      exact iff_of_true rfl (.precedes .kind)
    | word text' =>
      refine (Tells.of_compare text text').congr before_word_iff.symm (by simp) before_word_iff.symm

/-- Without needless zeros, the value of a number tells how many zeros it has in front. -/
theorem Unpadded.before_iff {a b : Identifier} (ha : a.Unpadded) (hb : b.Unpadded) :
    a.Before b ↔ a.Precedes b := by
  constructor
  · intro h
    cases h with
    | precedes h => exact h
    | zeros h =>
      cases ha with
      | zero =>
        cases hb with
        | zero => exact absurd h (Nat.lt_irrefl 1)
        | positive hp => exact absurd hp (Nat.lt_irrefl 0)
      | positive hp =>
        cases hb with
        | zero => exact absurd hp (Nat.lt_irrefl 0)
        | positive => exact absurd h (Nat.lt_irrefl 0)
  · exact .precedes

theorem Unpadded.tells_order {a b : Identifier} (ha : a.Unpadded) (hb : b.Unpadded) :
    Tells (a.order b) (a.Precedes b) (a = b) (b.Precedes a) :=
  (Identifier.tells_order a b).congr (ha.before_iff hb) Iff.rfl (hb.before_iff ha)

end Identifier

/-- Identifiers are compared from left to right, and a list that goes on comes after. -/
theorem tells_orderIdentifiers {r : Identifier → Identifier → Prop} {as bs : List Identifier}
    (h : ∀ a ∈ as, ∀ b ∈ bs, Tells (a.order b) (r a b) (a = b) (r b a)) :
    Tells (orderIdentifiers as bs) (List.Lex r as bs) (as = bs) (List.Lex r bs as) := by
  induction as generalizing bs with
  | nil =>
    cases bs with
    | nil => constructor <;> simp [orderIdentifiers]
    | cons b bs => constructor <;> simp [orderIdentifiers]
  | cons a as ih =>
    cases bs with
    | nil => constructor <;> simp [orderIdentifiers]
    | cons b bs =>
      have hab := h a List.mem_cons_self b List.mem_cons_self
      have hrest : ∀ c ∈ as, ∀ d ∈ bs, Tells (c.order d) (r c d) (c = d) (r d c) :=
        fun c hc d hd => h c (List.mem_cons_of_mem _ hc) d (List.mem_cons_of_mem _ hd)
      refine (hab.andThen (ih hrest)).congr List.cons_lex_cons_iff.symm (by simp) ?_
      rw [List.cons_lex_cons_iff, eq_comm]

namespace Version

/-- What follows the numbers: a pre-release comes before the release, which has no identifiers there,
and two of them are ordered by their identifiers from left to right. -/
inductive PreReleaseBefore : List Identifier → List Identifier → Prop
  | release {ids : List Identifier} (h : ids ≠ []) : PreReleaseBefore ids []
  | identifiers {ids ids' : List Identifier} (h : ids ≠ [])
      (hl : List.Lex Identifier.Precedes ids ids') : PreReleaseBefore ids ids'

/-- The precedence of versions: the numbers decide, from the first to the last, and then the
pre-release. -/
def Precedes (v w : Version) : Prop :=
  v.major < w.major ∨ v.major = w.major ∧
    (v.minor < w.minor ∨ v.minor = w.minor ∧
      (v.patch < w.patch ∨ v.patch = w.patch ∧ PreReleaseBefore v.preRelease w.preRelease))

def Ties (v w : Version) : Prop :=
  v.major = w.major ∧ v.minor = w.minor ∧ v.patch = w.patch ∧ v.preRelease = w.preRelease

/-- The order of versions: by precedence, and where it ties by the identifiers of the builds. -/
def Before (v w : Version) : Prop :=
  v.Precedes w ∨ v.Ties w ∧ List.Lex Identifier.Before v.build w.build

variable {v w u : Version} {ids ids' : List Identifier}

theorem PreReleaseBefore.trans {ids'' : List Identifier} (h : PreReleaseBefore ids ids')
    (h' : PreReleaseBefore ids' ids'') : PreReleaseBefore ids ids'' := by
  cases h with
  | release h =>
    cases h' with
    | release => exact .release h
    | identifiers hn => exact absurd rfl hn
  | identifiers h hl =>
    cases h' with
    | release => exact .release h
    | identifiers _ hl' => exact .identifiers h (List.lex_trans Identifier.Precedes.trans hl hl')

theorem tells_orderPreRelease (hu : ∀ id ∈ ids, id.Unpadded) (hu' : ∀ id ∈ ids', id.Unpadded) :
    Tells (orderPreRelease ids ids') (PreReleaseBefore ids ids') (ids = ids')
      (PreReleaseBefore ids' ids) := by
  have hnil {ids : List Identifier} : ¬PreReleaseBefore [] ids := by
    rintro (h | ⟨h, -⟩) <;> exact h rfl
  cases ids with
  | nil =>
    cases ids' with
    | nil => constructor <;> simp [orderPreRelease, hnil]
    | cons id ids' =>
      refine ⟨by simp [orderPreRelease, hnil], by simp [orderPreRelease], ?_⟩
      exact iff_of_true rfl (.release (List.cons_ne_nil _ _))
  | cons id ids =>
    cases ids' with
    | nil =>
      refine ⟨iff_of_true rfl (.release (List.cons_ne_nil _ _)), by simp [orderPreRelease], ?_⟩
      simp [orderPreRelease, hnil]
    | cons id' ids' =>
      have hiff {id id' : Identifier} {ids ids' : List Identifier} :
          List.Lex Identifier.Precedes (id :: ids) (id' :: ids') ↔
            PreReleaseBefore (id :: ids) (id' :: ids') := by
        constructor
        · exact .identifiers (List.cons_ne_nil _ _)
        · rintro ⟨⟩
          assumption
      have h := tells_orderIdentifiers fun a ha b hb => (hu a ha).tells_order (hu' b hb)
      exact h.congr hiff Iff.rfl hiff

/-- An order in which first numbers decide and then something else is transitive if that is. -/
theorem first_trans {a b c : Nat} {p q r : Prop} (h : a < b ∨ a = b ∧ p) (h' : b < c ∨ b = c ∧ q)
    (hr : p → q → r) : a < c ∨ a = c ∧ r := by
  rcases h with h | ⟨rfl, hp⟩
  · rcases h' with h' | ⟨rfl, -⟩
    · exact .inl (h.trans h')
    · exact .inl h
  · rcases h' with h' | ⟨rfl, hq⟩
    · exact .inl h'
    · exact .inr ⟨rfl, hr hp hq⟩

theorem Precedes.trans (h : v.Precedes w) (h' : w.Precedes u) : v.Precedes u :=
  first_trans h h' fun h h' => first_trans h h' fun h h' => first_trans h h' .trans

theorem Before.trans (h : v.Before w) (h' : w.Before u) : v.Before u := by
  -- A version that ties with another one precedes the same versions and is preceded by the same.
  rcases h with h | ⟨ht, hb⟩
  · rcases h' with h' | ⟨⟨hm, hn, hp, hr⟩, -⟩
    · exact .inl (h.trans h')
    · refine .inl ?_
      unfold Precedes at h ⊢
      rwa [← hm, ← hn, ← hp, ← hr]
  · obtain ⟨hm, hn, hp, hr⟩ := ht
    rcases h' with h' | ⟨⟨hm', hn', hp', hr'⟩, hb'⟩
    · refine .inl ?_
      unfold Precedes at h' ⊢
      rwa [hm, hn, hp, hr]
    · refine .inr ⟨⟨hm.trans hm', hn.trans hn', hp.trans hp', hr.trans hr'⟩, ?_⟩
      exact List.lex_trans Identifier.Before.trans hb hb'

theorem tells_order (hv : v.Valid) (hw : w.Valid) :
    Tells (v.order w) (v.Before w) (v = w) (w.Before v) := by
  have hp := tells_orderPreRelease (fun id hid => (hv.preRelease id hid).2)
    (fun id hid => (hw.preRelease id hid).2)
  -- The identifiers of a build may be padded, so that their zeros count.
  have hb : Tells (orderIdentifiers v.build w.build) _ _ _ :=
    tells_orderIdentifiers fun a _ b _ => Identifier.tells_order a b
  have h := (Tells.of_compare v.major w.major).andThen <|
    (Tells.of_compare v.minor w.minor).andThen <|
    (Tells.of_compare v.patch w.patch).andThen <| hp.andThen hb
  refine h.congr ?_ ?_ ?_
  · unfold Before Precedes Ties
    tauto
  · obtain ⟨⟩ := v
    obtain ⟨⟩ := w
    rw [Version.mk.injEq]
  · unfold Before Precedes Ties
    rw [eq_comm (a := w.major), eq_comm (a := w.minor), eq_comm (a := w.patch),
      eq_comm (a := w.preRelease)]
    tauto

structure Names (name : String) (v : Version) : Prop where
  valid : v.Valid
  written : v.toText = name.toList

/-- The order of names: versions in their order, then all other names by their bytes. -/
inductive NameBefore : String → String → Prop
  | versions {a b : String} {v w : Version} (ha : Names a v) (hb : Names b w) (h : v.Before w) :
      NameBefore a b
  | kind {a b : String} {v : Version} (ha : Names a v) (hb : ∀ w, ¬Names b w) : NameBefore a b
  | others {a b : String} (ha : ∀ v, ¬Names a v) (hb : ∀ w, ¬Names b w)
      (h : Bytes.ofString a < Bytes.ofString b) : NameBefore a b

section Names

variable {a b c : String}

theorem names_iff : Names a v ↔ read? a.toList = some v := by
  rw [read?_eq_some_iff]
  exact ⟨fun h => ⟨h.valid, h.written⟩, fun h => ⟨h.1, h.2⟩⟩

theorem Names.unique (h : Names a v) (h' : Names a w) : v = w := by
  rw [names_iff] at h h'
  exact Option.some.inj (h.symm.trans h')

/-- A version has one name. -/
theorem Names.injective (h : Names a v) (h' : Names b v) : a = b :=
  String.toList_inj.mp (h.written.symm.trans h'.written)

theorem NameBefore.trans (h : NameBefore a b) (h' : NameBefore b c) : NameBefore a c := by
  cases h with
  | versions ha hb h =>
    cases h' with
    | versions hb' hc h' =>
      obtain rfl := hb.unique hb'
      exact .versions ha hc (h.trans h')
    | kind _ hc => exact .kind ha hc
    | others hb' => exact absurd hb (hb' _)
  | kind ha hb =>
    cases h' with
    | versions hb' => exact absurd hb' (hb _)
    | kind hb' => exact absurd hb' (hb _)
    | others _ hc => exact .kind ha hc
  | others ha hb h =>
    cases h' with
    | versions hb' => exact absurd hb' (hb _)
    | kind hb' => exact absurd hb' (hb _)
    | others _ hc h' => exact .others ha hc (List.lt_trans h h')

theorem nameBefore_iff_before (ha : Names a v) (hb : Names b w) : NameBefore a b ↔ v.Before w := by
  constructor
  · intro h
    cases h with
    | versions ha' hb' h =>
      obtain rfl := ha.unique ha'
      obtain rfl := hb.unique hb'
      exact h
    | kind _ hn => exact absurd hb (hn _)
    | others hn => exact absurd ha (hn _)
  · exact .versions ha hb

theorem nameBefore_iff_lt (ha : ∀ v, ¬Names a v) (hb : ∀ w, ¬Names b w) :
    NameBefore a b ↔ a < b := by
  constructor
  · intro h
    cases h with
    | versions ha' => exact absurd ha' (ha _)
    | kind ha' => exact absurd ha' (ha _)
    | others _ _ h => exact Bytes.ofString_lt_ofString_iff.mp h
  · intro h
    exact .others ha hb (Bytes.ofString_lt_ofString_iff.mpr h)

theorem not_nameBefore (ha : ∀ v, ¬Names a v) (hb : Names b w) : ¬NameBefore a b := by
  intro h
  cases h with
  | versions ha' => exact ha _ ha'
  | kind ha' => exact ha _ ha'
  | others _ hn => exact hn _ hb

/-- The comparison of names decides their order, and only equal names tie. -/
theorem tells_orderNames (a b : String) :
    Tells (orderNames a b) (NameBefore a b) (a = b) (NameBefore b a) := by
  have hnone {name : String} (h : read? name.toList = none) (v : Version) : ¬Names name v := by
    rw [names_iff, h]
    exact nofun
  -- The comparison asks which of the names are versions.
  unfold orderNames
  cases hv : read? a.toList with
  | some v =>
    have ha := names_iff.mpr hv
    cases hw : read? b.toList with
    | some w =>
      have hb := names_iff.mpr hw
      have hs : v = w ↔ a = b := by
        constructor
        · rintro rfl
          exact ha.injective hb
        · rintro rfl
          exact ha.unique hb
      exact (tells_order ha.valid hb.valid).congr (nameBefore_iff_before ha hb).symm hs
        (nameBefore_iff_before hb ha).symm
    | none =>
      have hb := hnone hw
      refine ⟨iff_of_true rfl (.kind ha hb), iff_of_false nofun ?_,
        iff_of_false nofun (not_nameBefore hb ha)⟩
      rintro rfl
      exact hb v ha
  | none =>
    have ha := hnone hv
    cases hw : read? b.toList with
    | some w =>
      have hb := names_iff.mpr hw
      refine ⟨iff_of_false nofun (not_nameBefore ha hb), iff_of_false nofun ?_,
        iff_of_true rfl (.kind hb ha)⟩
      rintro rfl
      exact ha w hb
    | none =>
      have hb := hnone hw
      exact (Tells.of_compare a b).congr (nameBefore_iff_lt ha hb).symm Iff.rfl
        (nameBefore_iff_lt hb ha).symm

theorem NameBefore.irrefl (a : String) : ¬NameBefore a a :=
  (tells_orderNames a a).not_before rfl

theorem NameBefore.total (h : a ≠ b) : NameBefore a b ∨ NameBefore b a := by
  rcases (tells_orderNames a b).before_or with hb | hs | ha
  · exact .inl hb
  · exact absurd hs h
  · exact .inr ha

end Names

end Version

end ContractPipeline.Compiler
