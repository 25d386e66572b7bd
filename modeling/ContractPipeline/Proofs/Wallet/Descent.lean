import Mathlib.Data.List.Induction
import ContractPipeline.Wallet.Derivation

/-! The keys below a seed. A step adds the first half of a digest to the scalar of a key, modulo the
order of the group; it leads nowhere if that half is no scalar or if the sum is zero. -/
namespace ContractPipeline

open Curve.Point (groupOrder)

theorem SecretKey.ofNat?_eq_some_iff {n : Nat} {secret : SecretKey} :
    ofNat? n = some secret ↔ secret.value = n := by
  rw [ofNat?]
  constructor
  · intro h
    split at h
    case isTrue =>
      cases h
      rfl
    case isFalse => cases h
  · rintro rfl
    rw [dif_pos ⟨secret.value_pos, secret.value_lt⟩]

namespace Wallet.ExtendedKey

/-- Whether a digest gives a scalar and, in its second half, a chain code. -/
structure Splits (digest : Bytes) (scalar : SecretKey) (chainCode : Bytes) : Prop where
  scalar : scalar.value = Bytes.toNat (digest.take 32)
  chainCode : chainCode = digest.drop 32

inductive StepsTo (parent : ExtendedKey) (message : Bytes) : ExtendedKey → Prop
  | intro {tweak : SecretKey} {key : ExtendedKey}
      (hd : Splits (Hash.hmacSha512 parent.chainCode message) tweak key.chainCode)
      (hs : key.secret.value = (tweak.value + parent.secret.value) % groupOrder) :
    StepsTo parent message key

/-- The key at the end of a row of steps, of which the first starts from the root of a seed. -/
inductive LeadsTo (seed : Bytes) : List UInt32 → ExtendedKey → Prop
  | root {key : ExtendedKey}
      (hd : Splits (Hash.hmacSha512 (Bytes.ofString "Bitcoin seed") seed) key.secret key.chainCode) :
    LeadsTo seed [] key
  | child {indices : List UInt32} {parent key : ExtendedKey} {index : UInt32}
      (hp : LeadsTo seed indices parent) (hs : parent.StepsTo (parent.childMessage index) key) :
    LeadsTo seed (indices ++ [index]) key

theorem derived?_eq_some_iff {parent key : ExtendedKey} {message : Bytes} :
    parent.derived? message = some key ↔ parent.StepsTo message key := by
  rw [derived?]
  constructor
  · intro h
    obtain ⟨tweak, ht, h⟩ := Option.bind_eq_some_iff.mp h
    obtain ⟨secret, hs, h⟩ := Option.bind_eq_some_iff.mp h
    cases h
    rw [SecretKey.ofNat?_eq_some_iff] at ht hs
    exact .intro ⟨ht, rfl⟩ hs
  · intro h
    obtain ⟨hd, hs⟩ := h
    have ht := SecretKey.ofNat?_eq_some_iff.mpr hd.scalar
    rw [← SecretKey.ofNat?_eq_some_iff] at hs
    obtain ⟨secret, chainCode⟩ := key
    obtain rfl := hd.chainCode
    apply Option.bind_eq_some_iff.mpr
    refine ⟨_, ht, ?_⟩
    apply Option.bind_eq_some_iff.mpr
    exact ⟨_, hs, rfl⟩

theorem master?_eq_some_iff {seed : Bytes} {key : ExtendedKey} :
    master? seed = some key ↔
      Splits (Hash.hmacSha512 (Bytes.ofString "Bitcoin seed") seed) key.secret key.chainCode := by
  rw [master?]
  constructor
  · intro h
    obtain ⟨secret, hs, h⟩ := Option.bind_eq_some_iff.mp h
    cases h
    rw [SecretKey.ofNat?_eq_some_iff] at hs
    exact ⟨hs, rfl⟩
  · intro h
    have hs := SecretKey.ofNat?_eq_some_iff.mpr h.scalar
    obtain ⟨secret, chainCode⟩ := key
    obtain rfl := h.chainCode
    apply Option.bind_eq_some_iff.mpr
    exact ⟨_, hs, rfl⟩

section Path

variable {seed : Bytes} {indices : List UInt32} {index : UInt32} {key : ExtendedKey}

theorem leadsTo_nil_iff : LeadsTo seed [] key ↔ master? seed = some key := by
  rw [master?_eq_some_iff]
  constructor
  · intro h
    generalize hn : ([] : List UInt32) = path at h
    cases h with
    | root hd => exact hd
    | child => exact absurd hn.symm (List.append_ne_nil_of_right_ne_nil _ (List.cons_ne_nil _ _))
  · exact .root

theorem leadsTo_append_iff :
    LeadsTo seed (indices ++ [index]) key ↔
      ∃ parent : ExtendedKey, LeadsTo seed indices parent ∧
        parent.StepsTo (parent.childMessage index) key := by
  constructor
  · intro h
    generalize hn : indices ++ [index] = path at h
    cases h with
    | root => exact absurd hn (List.append_ne_nil_of_right_ne_nil _ (List.cons_ne_nil _ _))
    | child hp hs =>
      obtain ⟨rfl, hi⟩ := List.append_inj' hn rfl
      obtain rfl := List.singleton_inj.mp hi
      exact ⟨_, hp, hs⟩
  · rintro ⟨parent, hp, hs⟩
    exact .child hp hs

theorem foldlM_child?_append (master : ExtendedKey) (indices : List UInt32) (index : UInt32) :
    (indices ++ [index]).foldlM child? master =
      (indices.foldlM child? master).bind fun parent => parent.child? index := by
  rw [List.foldlM_append]
  simp

theorem foldlM_child?_eq_some_iff :
    ((master? seed).bind fun master => indices.foldlM child? master) = some key ↔
      LeadsTo seed indices key := by
  induction indices using List.reverseRecOn generalizing key with
  | nil =>
    rw [leadsTo_nil_iff]
    simp only [List.foldlM_nil, Option.pure_def, Option.bind_fun_some]
  | append_singleton indices index ih =>
    simp only [foldlM_child?_append]
    rw [← Option.bind_assoc, Option.bind_eq_some_iff, leadsTo_append_iff]
    simp only [ih, child?, derived?_eq_some_iff]

theorem ofPath?_eq (seed : Bytes) (path : String) :
    ofPath? seed path = (KeyPath.read? path).bind fun indices =>
      (master? seed).bind fun master => indices.foldlM child? master := rfl

/-- A path is gone along from the root, by the steps that its text is read as. -/
theorem ofPath?_eq_some_iff {path : String} (h : KeyPath.read? path = some indices) :
    ofPath? seed path = some key ↔ LeadsTo seed indices key := by
  rw [ofPath?_eq, h, Option.bind_some, foldlM_child?_eq_some_iff]

end Path

end Wallet.ExtendedKey

end ContractPipeline
