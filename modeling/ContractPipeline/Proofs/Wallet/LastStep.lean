import ContractPipeline.Proofs.Wallet.Outcomes

/-! The last step to an account. The indices in the upper half of their range are those of hardened
children, and the path of an account says nothing of that: an index is taken as it is. -/
namespace ContractPipeline.Wallet

namespace ExtendedKey

/-- A plain message begins with the parity of a public key, and a hardened one with zero. -/
theorem plainMessage_ne_hardenedMessage (parent : ExtendedKey) (index : UInt32) :
    parent.plainMessage index ≠ parent.hardenedMessage index := by
  intro h
  rw [plainMessage, hardenedMessage, PublicKey.toBytes, List.cons_append, List.cons_append] at h
  have hfirst := (List.cons.inj h).1
  split at hfirst
  · exact absurd hfirst (by decide)
  · exact absurd hfirst (by decide)

theorem childMessage_eq_plainMessage_iff {parent : ExtendedKey} {index : UInt32} :
    parent.childMessage index = parent.plainMessage index ↔ index.toNat < hardenedStart := by
  rw [childMessage]
  split
  case isTrue h => simp [h, (plainMessage_ne_hardenedMessage parent index).symm]
  case isFalse h => simp [Nat.not_le.mp h]

theorem childMessage_eq_hardenedMessage_iff {parent : ExtendedKey} {index : UInt32} :
    parent.childMessage index = parent.hardenedMessage index ↔ hardenedStart ≤ index.toNat := by
  rw [childMessage]
  split
  case isTrue h => simp [h]
  case isFalse h => simp [h, plainMessage_ne_hardenedMessage parent index]

end ExtendedKey

/-- A key pair is that of a child of the key of all accounts, and the child is derived from a public
key exactly below the hardened indices. -/
theorem derive_last_step (phrase : String) (index : UInt32) :
    KeyPath.read? (KeyPath.account index) = some (KeyPath.accountsIndices ++ [index]) ∧
      ((∃ error, derive phrase index = .error error) ∨
        ∃ seed parent key, seedOfPhrase phrase = .ok seed ∧
          ExtendedKey.LeadsTo seed KeyPath.accountsIndices parent ∧
          parent.StepsTo (parent.childMessage index) key ∧
          derive phrase index = .ok (.ofSecret key.secret) ∧
          (parent.childMessage index = parent.plainMessage index ↔ index.toNat < hardenedStart) ∧
          (parent.childMessage index = parent.hardenedMessage index ↔
            hardenedStart ≤ index.toNat)) := by
  refine ⟨KeyPath.read?_account index, ?_⟩
  cases hd : derive phrase index with
  | error error => exact .inl ⟨error, rfl⟩
  | ok pair =>
    obtain ⟨seed, key, hs, hp, rfl⟩ := exists_key_of_derive hd
    obtain ⟨parent, hparent, hchild⟩ := ExtendedKey.leadsTo_append_iff.mp hp
    exact .inr ⟨seed, parent, key, hs, hparent, hchild, rfl,
      ExtendedKey.childMessage_eq_plainMessage_iff,
      ExtendedKey.childMessage_eq_hardenedMessage_iff⟩

namespace Development

open ExtendedKey

/-- The seed of the phrase of the in-process network. The 2048 rounds from the phrase to it are too
many to go through in a proof. -/
def seed : Bytes :=
  Bytes.ofNat 32 0x9dfc3c64c2f8bede1533b6a79f8570e5943e0b8fd1cf77107adf7b72cef42185 ++
    Bytes.ofNat 32 0xd564a3aee24cab43f80e3c4538087d70fc824eabbad596a23c97b6ee8322ccc0

def key (secret : SecretKey) (chainCode : Nat) : ExtendedKey :=
  ⟨secret, Bytes.ofNat 32 chainCode⟩

/-- The key three hardened steps below the root of the seed. -/
def upper : ExtendedKey :=
  key ⟨0xbdc37e0491647f2e79b49dcd55a769d589853f6531bda4572079d3e4e6a3bd91, by decide, by decide⟩
    0x2258179af5cec58ce793fba06d3ef8ac640d481802e0ae39c9cc3fc5a8ce1812

def parent : ExtendedKey :=
  key ⟨0xdd23ca549a97cb330b011aebb674730df8b14acaee42d211ab45692699ab8ba5, by decide, by decide⟩
    0x236a4a5d77e29cc09182a8a6c9d288cb04e638fcd0743bbc068c16665d1e4d2c

def hardened : ExtendedKey :=
  key ⟨0x01b889f4861fc37595505809fc07b28f85bf8e8b6673aa39fc10d71a3e1f5e9a, by decide, by decide⟩
    0xec65fb3eda238fb6d70a8979bef75f3aa68836bfb375a113314b24fb4e40896e

/-- What the public key of the parent leads to at the same index. -/
def plain : ExtendedKey :=
  key ⟨0x78cce8ee217ffd78ed85cd217670625973ac0d19b43c9188c73d105843c6c61e, by decide, by decide⟩
    0x85d1aa4401225b02a9751a8ab837f4f3f5e61f77aa3186c4af5b2ddd8b5050d9

theorem publicKey_upper : PublicKey.ofSecret upper.secret =
    ⟨0x06b81bac860f5a7442a85664d339809955b3ac9a5782200095127ac78aab71f5,
      0x3e749b17367313ee2ebcb53fa348d139e0e6856b887edf1fa32fb67e1bf514d2⟩ :=
  PublicKey.ofSecret_eq (by decide +kernel) (by decide +kernel)

theorem publicKey_parent : PublicKey.ofSecret parent.secret =
    ⟨0xb93015e4ada498248da1ed7041e749ccb07a4489e2e33b38405f5c93d44703e9,
      0x848abbd5cf93061d115748d2b4bf893daafaa15287c3b4ab6f783f1f7651d293⟩ :=
  PublicKey.ofSecret_eq (by decide +kernel) (by decide +kernel)

theorem leadsTo_upper : LeadsTo seed [2147483692, 2147483708, 2147483648] upper :=
  foldlM_child?_eq_some_iff.mp (by decide +kernel)

theorem leadsTo_parent : LeadsTo seed KeyPath.accountsIndices parent := by
  have hm : upper.childMessage 0 = upper.plainMessage 0 :=
    childMessage_eq_plainMessage_iff.mpr (by decide)
  refine leadsTo_append_iff.mpr ⟨upper, leadsTo_upper, derived?_eq_some_iff.mp ?_⟩
  rw [hm, plainMessage, publicKey_upper]
  decide +kernel

theorem stepsTo_hardened : parent.StepsTo (parent.childMessage 2147483648) hardened := by
  rw [← derived?_eq_some_iff]
  decide +kernel

theorem stepsTo_plain : parent.StepsTo (parent.plainMessage 2147483648) plain := by
  apply derived?_eq_some_iff.mp
  rw [plainMessage, publicKey_parent]
  decide +kernel

end Development

/-- For the seed of a phrase in use, the path of the account with the least hardened index leads to a
key that the public key of its parent does not lead to. A phrase of this seed has the pair of that
key, and not the pair of the child that the path speaks of. -/
theorem derive_beside_plainMessage :
    ∃ (seed : Bytes) (parent key plain : ExtendedKey),
      ExtendedKey.LeadsTo seed KeyPath.accountsIndices parent ∧
      ExtendedKey.ofPath? seed (KeyPath.account 2147483648) = some key ∧
      parent.StepsTo (parent.plainMessage 2147483648) plain ∧ plain.secret ≠ key.secret ∧
      ∀ phrase, seedOfPhrase phrase = .ok seed →
        derive phrase 2147483648 = .ok (.ofSecret key.secret) ∧
          derive phrase 2147483648 ≠ .ok (.ofSecret plain.secret) := by
  have hne : Development.plain.secret ≠ Development.hardened.secret := by decide
  have hkey : ExtendedKey.ofPath? Development.seed (KeyPath.account 2147483648) =
      some Development.hardened := by
    rw [ExtendedKey.ofPath?_eq_some_iff (KeyPath.read?_account 2147483648),
      ExtendedKey.leadsTo_append_iff]
    exact ⟨_, Development.leadsTo_parent, Development.stepsTo_hardened⟩
  refine ⟨Development.seed, _, _, _, Development.leadsTo_parent, hkey, Development.stepsTo_plain, hne,
    fun phrase hs => ?_⟩
  have hd : derive phrase 2147483648 = .ok (.ofSecret Development.hardened.secret) := by
    rw [derive_of_seedOfPhrase hs, hkey, accountPair, ExtendedKey.keyPair_eq]
  refine ⟨hd, fun hp => hne ?_⟩
  rw [hd] at hp
  exact (congrArg KeyPair.secret (Except.ok.inj hp)).symm

end ContractPipeline.Wallet
