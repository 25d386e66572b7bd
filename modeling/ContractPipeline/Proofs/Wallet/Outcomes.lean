import ContractPipeline.Proofs.Key
import ContractPipeline.Proofs.Wallet.Accounts

/-! What deriving an account ends in. The scalar of a key stays in the range of a secret at every
step, so the bytes that the last key is handed over in are read as the same secret. -/
namespace ContractPipeline.Wallet

theorem ExtendedKey.keyPair_eq (key : ExtendedKey) : key.keyPair = .ok (.ofSecret key.secret) := by
  rw [ExtendedKey.keyPair, SecretKey.ofBytes?_toBytes]

/-- The key pair of a derived key: the bytes of its secret are the scalar of the key. -/
structure Carries (key : ExtendedKey) (pair : KeyPair) : Prop where
  eq_ofSecret : pair = .ofSecret key.secret
  length : pair.secret.toBytes.length = 32
  number : pair.secret.toBytes.toNat = key.secret.value
  pos : 0 < pair.secret.toBytes.toNat
  lt : pair.secret.toBytes.toNat < Curve.Point.groupOrder
  multiple : pair.publicKey.IsMultiple key.secret.value
  readBack : (SecretKey.ofBytes? pair.secret.toBytes).map KeyPair.ofSecret = some pair
  address : (KeyPair.ofSecret pair.secret).address = pair.address

theorem carries_ofSecret (key : ExtendedKey) : Carries key (.ofSecret key.secret) where
  eq_ofSecret := rfl
  length := key.secret.length_toBytes
  number := key.secret.toNat_toBytes
  pos := key.secret.value_pos.trans_eq key.secret.toNat_toBytes.symm
  lt := key.secret.toNat_toBytes.trans_lt key.secret.value_lt
  multiple := PublicKey.isMultiple_ofSecret key.secret
  readBack := congrArg (Option.map KeyPair.ofSecret) key.secret.ofBytes?_toBytes
  address := rfl

/-- The errors that are about the phrase and not about an account of it. -/
inductive IsPhraseError : KeyError → Prop
  | empty : IsPhraseError .emptyPhrase
  | invalid (fault : PhraseFault) : IsPhraseError (.invalidPhrase fault)

theorem isPhraseError_of_seedOfPhrase {phrase : String} {error : KeyError}
    (h : seedOfPhrase phrase = .error error) : IsPhraseError error := by
  simp only [seedOfPhrase] at h
  split at h
  case isTrue =>
    cases h
    exact .empty
  case isFalse =>
    split at h
    case h_1 fault _ =>
      cases h
      exact .invalid fault
    case h_2 => cases h

/-- What comes of a phrase and an index: a fault of the phrase, a path that leads to no key, or a
pair that carries the scalar of the last key on the path. -/
inductive DerivesTo (phrase : String) (index : UInt32) : Except KeyError KeyPair → Prop
  | refused {error : KeyError} (he : IsPhraseError error) (h : seedOfPhrase phrase = .error error) :
    DerivesTo phrase index (.error error)
  | failed {seed : Bytes} (h : seedOfPhrase phrase = .ok seed)
      (hp : ∀ key, ¬ExtendedKey.LeadsTo seed (KeyPath.accountsIndices ++ [index]) key) :
    DerivesTo phrase index (.error (.derivationFailed index derivationFault))
  | derived {seed : Bytes} {key : ExtendedKey} {pair : KeyPair} (h : seedOfPhrase phrase = .ok seed)
      (hp : ExtendedKey.LeadsTo seed (KeyPath.accountsIndices ++ [index]) key)
      (hc : Carries key pair) :
    DerivesTo phrase index (.ok pair)

theorem derivesTo_derive (phrase : String) (index : UInt32) :
    DerivesTo phrase index (derive phrase index) := by
  cases hs : seedOfPhrase phrase with
  | error error =>
    rw [derive_eq, hs]
    exact .refused (isPhraseError_of_seedOfPhrase hs) hs
  | ok seed =>
    rw [derive_of_seedOfPhrase hs]
    have hpath {key : ExtendedKey} := @ExtendedKey.ofPath?_eq_some_iff seed
      (KeyPath.accountsIndices ++ [index]) key _ (KeyPath.read?_account index)
    cases hp : ExtendedKey.ofPath? seed (KeyPath.account index) with
    | none =>
      refine .failed hs ?_
      intro key hk
      rw [← hpath, hp] at hk
      cases hk
    | some key =>
      rw [accountPair, ExtendedKey.keyPair_eq]
      exact .derived hs (hpath.mp hp) (carries_ofSecret key)

theorem exists_key_of_derive {phrase : String} {index : UInt32} {pair : KeyPair}
    (h : derive phrase index = .ok pair) :
    ∃ seed key, seedOfPhrase phrase = .ok seed ∧
      ExtendedKey.LeadsTo seed (KeyPath.accountsIndices ++ [index]) key ∧
        pair = .ofSecret key.secret := by
  have hd := derivesTo_derive phrase index
  rw [h] at hd
  cases hd with
  | @derived seed key _ hs hp hc => exact ⟨seed, key, hs, hp, hc.eq_ofSecret⟩

theorem derive_eq_error_iff {phrase : String} {index : UInt32} {error : KeyError}
    (he : IsPhraseError error) :
    derive phrase index = .error error ↔ seedOfPhrase phrase = .error error := by
  constructor
  · intro h
    have hd := derivesTo_derive phrase index
    rw [h] at hd
    cases hd with
    | refused _ hs => exact hs
    | failed => cases he
  · intro h
    rw [derive_eq, h]
    rfl

/-- No key that a path leads to is refused as a secret, and a phrase is at fault for every index or
for none. -/
theorem derive_outcomes (phrase : String) (index : UInt32) :
    DerivesTo phrase index (derive phrase index) ∧
      derive phrase index ≠ .error .invalidPrivateKey ∧
      ∀ other,
        (derive phrase index = .error .emptyPhrase ↔ derive phrase other = .error .emptyPhrase) ∧
        ∀ fault, derive phrase index = .error (.invalidPhrase fault) ↔
          derive phrase other = .error (.invalidPhrase fault) := by
  have hd := derivesTo_derive phrase index
  refine ⟨hd, ?_, ?_⟩
  · intro h
    rw [h] at hd
    cases hd with
    | refused he => cases he
  · intro other
    refine ⟨?_, ?_⟩
    · rw [derive_eq_error_iff .empty, derive_eq_error_iff .empty]
    · intro fault
      rw [derive_eq_error_iff (.invalid fault), derive_eq_error_iff (.invalid fault)]

end ContractPipeline.Wallet
