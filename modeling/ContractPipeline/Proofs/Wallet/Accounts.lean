import ContractPipeline.Proofs.Wallet.Descent
import ContractPipeline.Proofs.Wallet.KeyPath

/-! The accounts of a phrase are children of one key: deriving each along its path from the root
gives the same pairs as going down to that key once. -/
namespace ContractPipeline.Wallet

namespace ExtendedKey

/-- The last step of the path of an account starts from the key of all accounts. -/
theorem ofPath?_account (seed : Bytes) (index : UInt32) :
    ofPath? seed (KeyPath.account index) =
      (ofPath? seed KeyPath.accounts).bind fun parent => parent.child? index := by
  rw [ofPath?_eq, ofPath?_eq, KeyPath.read?_account, KeyPath.read?_accounts, Option.bind_some,
    Option.bind_some, Option.bind_assoc]
  simp only [foldlM_child?_append]

end ExtendedKey

theorem derive_eq (phrase : String) (index : UInt32) :
    derive phrase index = (seedOfPhrase phrase).bind fun seed =>
      accountPair index (ExtendedKey.ofPath? seed (KeyPath.account index)) := rfl

theorem derive_of_seedOfPhrase {phrase : String} {seed : Bytes} (h : seedOfPhrase phrase = .ok seed)
    (index : UInt32) :
    derive phrase index = accountPair index (ExtendedKey.ofPath? seed (KeyPath.account index)) := by
  rw [derive_eq, h]
  rfl

theorem bind_keyPair_ofPhrase (phrase : String) (index : UInt32) :
    (Accounts.ofPhrase phrase).bind (·.keyPair index) = derive phrase index := by
  have hbind {ε α β γ : Type} (x : Except ε α) (f : α → β) (g : β → Except ε γ) :
      (x.map f).bind g = x.bind fun a => g (f a) := by
    cases x <;> rfl
  rw [Accounts.ofPhrase, hbind, derive_eq]
  congr
  funext seed
  rw [ExtendedKey.ofPath?_account]
  rfl

end ContractPipeline.Wallet
