import ContractPipeline.Proofs.Text.Integers
import ContractPipeline.Wallet.KeyPath

/-! How the path of an account is read: the indices up to the key of all accounts, of which the first
three are hardened, and behind them the index of the account, as a number without a mark. -/
namespace ContractPipeline.Wallet.KeyPath

/-- The indices from the root to the key whose children are the accounts. -/
def accountsIndices : List UInt32 :=
  [2147483692, 2147483708, 2147483648, 0]

theorem read?_accounts : read? accounts = some accountsIndices := by decide +kernel

theorem toList_account (index : UInt32) :
    (account index).toList = accounts.toList ++ '/' :: Nat.toDigits 10 index.toNat := by
  have hd : (toString index.toNat).toList = Nat.toDigits 10 index.toNat := by
    rw [Nat.toString_eq_repr, Nat.toList_repr]
  rw [account, String.toList_append, String.toList_append, hd, List.append_assoc]
  rfl

/-- A number without a mark is the index itself, however large. -/
theorem readStep?_toDigits (index : UInt32) :
    readStep? (Nat.toDigits 10 index.toNat) = some index := by
  have hd := Text.isDigits_toDigits index.toNat
  have hm : (Nat.toDigits 10 index.toNat).getLast? ≠ some mark := by
    intro hm
    have hc := hd.2 mark (List.mem_of_getLast? hm)
    exact absurd hc (by decide)
  have hl : (index.toNat : Int) ≤ Text.IntegerKind.greatest .u32 := by
    have hi := index.toNat_lt
    change (index.toNat : Int) ≤ 4294967295
    omega
  have hr := @Text.readInteger?_toString .u32 index.toNat (Int.natCast_nonneg _) hl
  rw [Nat.toString_eq_repr, Nat.toList_repr] at hr
  rw [readStep?, if_neg hm, readNumber?, hr]
  exact congrArg some (UInt32.ofNat_toNat)

/-- One more step of a path is one more index. -/
theorem read?_account (index : UInt32) :
    read? (account index) = some (accountsIndices ++ [index]) := by
  have hn : '/' ∉ Nat.toDigits 10 index.toNat := by
    intro hm
    have hc := (Text.isDigits_toDigits index.toNat).2 '/' hm
    exact absurd hc (by decide)
  have hs : Text.split '/' (account index).toList =
      Text.split '/' accounts.toList ++ [Nat.toDigits 10 index.toNat] := by
    rw [toList_account, Text.split_append, Text.split_eq_singleton hn]
  have ha := read?_accounts
  unfold read? at ha ⊢
  rw [hs]
  generalize Text.split '/' accounts.toList = parts at ha
  split at ha
  case h_1 steps =>
    change (steps ++ [Nat.toDigits 10 index.toNat]).mapM readStep? = _
    rw [List.mapM_append, ha, List.mapM_cons, readStep?_toDigits]
    rfl
  case h_2 => cases ha

end ContractPipeline.Wallet.KeyPath
