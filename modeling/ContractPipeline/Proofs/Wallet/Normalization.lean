import ContractPipeline.Account
import ContractPipeline.Proofs.Text.Words
import ContractPipeline.Proofs.Wallet.Outcomes

/-! The white space of a phrase: its words alone decide the accounts, and a phrase without words is
the empty one. -/
namespace ContractPipeline.Wallet

open Text (HasWords IsWord Tidy isBlank hasWords_words words_eq_iff)

theorem isWord_of_mem_words {phrase : String} {word : List Char}
    (h : word ∈ Text.words phrase.toList) : IsWord word :=
  (hasWords_words phrase.toList).isWord word h

theorem words_normalize (phrase : String) :
    Text.words (normalize phrase) = Text.words phrase.toList :=
  Text.words_unwords fun _ => isWord_of_mem_words

theorem tidy_normalize (phrase : String) : Tidy (normalize phrase) :=
  Text.tidy_unwords fun _ => isWord_of_mem_words

theorem normalize_congr {phrase other : String}
    (h : Text.words phrase.toList = Text.words other.toList) : normalize phrase = normalize other := by
  rw [normalize, h, normalize]

theorem normalize_normalize (phrase : String) :
    normalize (String.ofList (normalize phrase)) = normalize phrase := by
  apply normalize_congr
  rw [String.toList_ofList, words_normalize]

theorem normalize_eq_nil_iff {phrase : String} :
    normalize phrase = [] ↔ ∀ c ∈ phrase.toList, isBlank c = true := by
  have hw := hasWords_words phrase.toList
  rw [normalize]
  generalize phrase.toList = text at hw ⊢
  constructor
  · intro h
    generalize Text.words text = words at hw h
    cases hw with
    | none hb => exact hb
    | next _ hw _ _ => exact absurd h (Text.unwords_ne_nil hw)
  · intro h
    rw [words_eq_iff.mpr (HasWords.none h)]
    rfl

theorem seedOfPhrase_congr {phrase other : String} (h : normalize phrase = normalize other) :
    seedOfPhrase phrase = seedOfPhrase other := by
  rw [seedOfPhrase, h, seedOfPhrase]

theorem derive_congr {phrase other : String} (h : normalize phrase = normalize other)
    (index : UInt32) : derive phrase index = derive other index := by
  rw [derive_eq, derive_eq, seedOfPhrase_congr h]

theorem ofPhrase_congr {phrase other : String} (h : normalize phrase = normalize other)
    (count : Nat) : Provider.ofPhrase phrase count = Provider.ofPhrase other count := by
  rw [Provider.ofPhrase, Accounts.ofPhrase, seedOfPhrase_congr h, Provider.ofPhrase,
    Accounts.ofPhrase]

theorem seedOfPhrase_eq_emptyPhrase_iff {phrase : String} :
    seedOfPhrase phrase = .error .emptyPhrase ↔ normalize phrase = [] := by
  simp only [seedOfPhrase]
  constructor
  · intro h
    split at h
    case isTrue he => exact List.isEmpty_iff.mp he
    case isFalse =>
      split at h
      case h_1 => cases h
      case h_2 => cases h
  · intro h
    rw [h, if_pos List.isEmpty_nil]

/-- Phrases with the same words have the same accounts. Putting the words together with single spaces
keeps them and changes nothing the second time, and only white space is an empty phrase. -/
theorem accounts_of_words (phrase : String) :
    (∀ other words, HasWords phrase.toList words → HasWords other.toList words →
        (∀ index, derive phrase index = derive other index) ∧
        ∀ count, Provider.ofPhrase phrase count = Provider.ofPhrase other count ∧
          ∀ sink, (Provider.ofPhrase phrase count).list.on sink =
            (Provider.ofPhrase other count).list.on sink) ∧
      normalize (String.ofList (normalize phrase)) = normalize phrase ∧
      (∀ words, HasWords (normalize phrase) words ↔ HasWords phrase.toList words) ∧
      Tidy (normalize phrase) ∧
      ∀ index, derive phrase index = .error .emptyPhrase ↔
        ∀ c ∈ phrase.toList, isBlank c = true := by
  refine ⟨?_, normalize_normalize phrase, ?_, tidy_normalize phrase, ?_⟩
  · intro other words hp ho
    have hn : normalize phrase = normalize other :=
      normalize_congr (hp.words_eq.trans ho.words_eq.symm)
    refine ⟨derive_congr hn, ?_⟩
    intro count
    have hs := ofPhrase_congr hn count
    exact ⟨hs, fun sink => congrArg (fun provider : Provider => provider.list.on sink) hs⟩
  · intro words
    rw [← words_eq_iff, ← words_eq_iff, words_normalize]
  · intro index
    rw [derive_eq_error_iff .empty, seedOfPhrase_eq_emptyPhrase_iff, normalize_eq_nil_iff]

/-- The phrase of the development accounts, and one with white space of other kinds around and
between its words. -/
theorem accounts_of_words_development :
    let phrase := "test test test test test test test test test test test junk"
    let other := " \ttest\u2003test test\ntest\r\ntest test test \u3000 test test test test\u0085junk\n"
    let words := List.replicate 11 "test".toList ++ ["junk".toList]
    HasWords phrase.toList words ∧ HasWords other.toList words ∧
      (∀ index, derive phrase index = derive other index) ∧
      ∀ count sink, (Provider.ofPhrase phrase count).list.on sink =
        (Provider.ofPhrase other count).list.on sink := by
  intro phrase other words
  have hp : HasWords phrase.toList words := words_eq_iff.mp (by decide +kernel)
  have ho : HasWords other.toList words := words_eq_iff.mp (by decide +kernel)
  have h := (accounts_of_words phrase).1 other words hp ho
  exact ⟨hp, ho, h.1, fun count => (h.2 count).2⟩

end ContractPipeline.Wallet
