import ContractPipeline.Account
import ContractPipeline.Proofs.Address
import ContractPipeline.Proofs.Wallet.Accounts

/-! Listing accounts: which signers a seed phrase has, and what their list offers to a sink. -/
namespace ContractPipeline

open Storage (IoError Sink)

namespace Storage

/-- What offering a text to a sink ends in: all of it was offered, or the sink has refused what was
offered last, and only the beginning of the text was offered. -/
inductive Sink.Ends (sink : Sink) (text : Bytes) : Except IoError Unit × Sink → Prop
  | complete {next : Sink} (hr : next.refusal? = sink.refusal?)
      (ho : next.offers = sink.offers ++ text) : Ends sink text (.ok (), next)
  | refused {next : Sink} {error : IoError} (rest : Bytes) (hr : next.refusal? = sink.refusal?)
      (he : sink.refusal? next.offered = some error)
      (ho : sink.offers ++ text = next.offers ++ rest) : Ends sink text (.error error, next)

end Storage

namespace Job

theorem value_on_bind {ε α β : Type} (job : Job ε α) (f : α → Job ε β) (sink : Sink) :
    ((job >>= f).on sink).value =
      match (job.on sink).value with
      | (.ok a, next) => ((f a).on next).value
      | (.error error, next) => (.error error, next) := by
  change (StateT.run (ExceptT.bindCont f (job.on sink).value.1) (job.on sink).value.2).value = _
  split
  case h_1 he => rw [he]; rfl
  case h_2 he => rw [he]; rfl

theorem value_on_failingAs {ε ε' α : Type} (f : ε → ε') (job : Job ε α) (sink : Sink) :
    ((job.failingAs f).on sink).value =
      ((job.on sink).value.1.mapError f, (job.on sink).value.2) := rfl

theorem value_on_ofRecorded {ε α : Type} (result : Recorded (Except ε α)) (sink : Sink) :
    ((ofRecorded result).on sink).value = (result.value, sink) := rfl

theorem value_on_ofExcept {ε α : Type} (result : Except ε α) (sink : Sink) :
    ((ofExcept result).on sink).value = (result, sink) := rfl

theorem value_on_emit {ε : Type} (event : Event) (sink : Sink) :
    ((emit event : Job ε Unit).on sink).value = (.ok (), sink) := rfl

theorem ends_pure (sink : Sink) : sink.Ends [] ((pure () : Job IoError Unit).on sink).value :=
  .complete rfl (List.append_nil _).symm

theorem ends_offer (piece : Bytes) (sink : Sink) : sink.Ends piece ((offer piece).on sink).value := by
  have ho := sink.offers_write piece
  change sink.Ends piece (sink.write piece)
  unfold Sink.write at ho ⊢
  dsimp only at ho ⊢
  split
  case h_1 error he =>
    rw [he] at ho
    exact .refused [] rfl he (by rw [List.append_nil]; exact ho.symm)
  case h_2 hn =>
    rw [hn] at ho
    exact .complete rfl ho

/-- One job after another: what the first has offered stays, and its failure ends both. -/
theorem ends_bind {first second : Job IoError Unit} {text more : Bytes} {sink : Sink}
    (hf : sink.Ends text (first.on sink).value)
    (hs : ∀ next, Sink.Ends next more (second.on next).value) :
    sink.Ends (text ++ more) ((first >>= fun _ => second).on sink).value := by
  rw [value_on_bind]
  generalize (first.on sink).value = result at hf
  cases hf with
  | @complete next hr ho =>
    have hn := hs next
    dsimp only
    generalize (second.on next).value = result at hn
    cases hn with
    | complete hr' ho' =>
      exact .complete (hr'.trans hr) (by rw [ho', ho, List.append_assoc])
    | refused rest hr' he ho' =>
      refine .refused rest (hr'.trans hr) (hr ▸ he) ?_
      rw [← List.append_assoc, ← ho, ho']
  | refused rest hr he ho =>
    refine .refused (rest ++ more) hr he ?_
    rw [← List.append_assoc, ho, List.append_assoc]

end Job

section Text

theorem length_encode_of_lt {text : List Char} (h : ∀ c ∈ text, c.toNat < 0x80) :
    (Text.Utf8.encode text).length = text.length := by
  induction text with
  | nil => rfl
  | cons c text ih =>
    have hc : Text.Utf8.encodeChar c = [UInt8.ofNat c.toNat] := if_pos (h c List.mem_cons_self)
    have ht := ih fun d hd => h d (List.mem_cons_of_mem c hd)
    rw [Text.Utf8.encode, List.flatMap_cons, hc, List.length_append, List.length_cons]
    exact (congrArg (1 + ·) ht).trans (Nat.add_comm 1 _)

/-- The characters of an address are those of `0x`, and digits in either case. -/
theorem mem_address {signer : Signer} {c : Char} (h : c ∈ signer.address.toList) :
    c = '0' ∨ c = 'x' ∨ ∃ n < 16, c = Bytes.hexDigit n ∨ c = (Bytes.hexDigit n).toUpper := by
  simp only [Signer.address, Address.text, String.toList_ofList, List.mem_cons] at h
  rcases h with h | h | h
  · exact .inl h
  · exact .inr (.inl h)
  · exact .inr (.inr (Address.mem_digits h))

/-- An address fills a line and no more. -/
theorem newline_notMem_address (signer : Signer) : '\n' ∉ signer.address.toList := by
  have hd : ∀ n < 16, '\n' ≠ Bytes.hexDigit n ∧ '\n' ≠ (Bytes.hexDigit n).toUpper := by decide
  intro h
  rcases mem_address h with h | h | ⟨n, hn, h | h⟩
  · cases h
  · cases h
  · exact (hd n hn).1 h
  · exact (hd n hn).2 h

theorem length_address (signer : Signer) : signer.address.length = 42 := by
  rw [Signer.address, Address.text, String.length_ofList, List.length_cons, List.length_cons,
    Address.length_digits]

/-- An address takes one byte for each character. -/
theorem length_ofString_address (signer : Signer) : (Bytes.ofString signer.address).length = 42 := by
  have hd : ∀ n < 16, (Bytes.hexDigit n).toNat < 0x80 ∧ (Bytes.hexDigit n).toUpper.toNat < 0x80 := by
    decide
  have hc : ∀ c ∈ signer.address.toList, c.toNat < 0x80 := by
    intro c h
    rcases mem_address h with rfl | rfl | ⟨n, hn, rfl | rfl⟩
    · decide
    · decide
    · exact (hd n hn).1
    · exact (hd n hn).2
  rw [Bytes.ofString, length_encode_of_lt hc, String.length_toList, length_address]

end Text

namespace Provider

def lineBytes (lines : List String) : Bytes :=
  lines.flatMap fun line => Bytes.ofString (line ++ "\n")

theorem ends_writeAddresses (signers : List Signer) (sink : Sink) :
    sink.Ends (lineBytes (signers.map Signer.address)) ((writeAddresses signers).on sink).value := by
  induction signers generalizing sink with
  | nil => exact Job.ends_pure sink
  | cons signer signers ih =>
    have hl : lineBytes ((signer :: signers).map Signer.address) =
        Bytes.ofString signer.address ++
          (Bytes.ofString "\n" ++ lineBytes (signers.map Signer.address)) := by
      simp [lineBytes]
    rw [hl]
    apply Job.ends_bind (Job.ends_offer _ sink)
    intro next
    exact Job.ends_bind (Job.ends_offer _ next) ih

/-- The signers are there, or have failed, before the sink is offered anything. -/
theorem value_on_list (provider : Provider) (sink : Sink) :
    (provider.list.on sink).value =
      match provider.value with
      | .error error => (.error error, sink)
      | .ok signers =>
        match ((writeAddresses signers).on sink).value with
        | (.ok (), next) => (.ok signers.length, next)
        | (.error error, next) => (.error (.io error), next) := by
  unfold list
  rw [Job.value_on_bind, Job.value_on_ofRecorded]
  cases provider.value with
  | error error => rfl
  | ok signers =>
    dsimp only
    rw [Job.value_on_bind, Job.value_on_failingAs]
    obtain ⟨result, next⟩ := ((writeAddresses signers).on sink).value
    cases result with
    | error error => rfl
    | ok => rfl

/-- The signers at these indices, or the error at the least of them that has one. -/
inductive Collects (accounts : Except KeyError Wallet.Accounts) (count first : Nat) :
    Except SignerError (List Signer) → Prop
  | all {signers : List Signer} (hl : signers.length = count)
      (hs : ∀ i (h : i < signers.length), signer accounts (.ofNat (first + i)) = .ok signers[i]) :
      Collects accounts count first (.ok signers)
  | least {i : Nat} {error : SignerError} (hi : i < count)
      (he : signer accounts (.ofNat (first + i)) = .error error)
      (hs : ∀ j < i, ∃ signer', signer accounts (.ofNat (first + j)) = .ok signer') :
      Collects accounts count first (.error error)

/-- The indices are gone through in their order. -/
theorem collects_signers (accounts : Except KeyError Wallet.Accounts) (count first : Nat) :
    Collects accounts count first (signers accounts count first) := by
  induction count generalizing first with
  | zero => exact .all rfl (fun i h => absurd h (Nat.not_lt_zero i))
  | succ count ih =>
    rw [signers]
    cases hf : signer accounts (.ofNat first) with
    | error error => exact .least (Nat.succ_pos count) hf (fun j h => absurd h (Nat.not_lt_zero j))
    | ok head =>
      -- The indices of the others are counted from the next one on.
      have hr := ih (first + 1)
      simp only [bind, Except.bind]
      generalize signers accounts count (first + 1) = result at hr
      cases hr with
      | @all rest hl hs =>
        refine .all (congrArg Nat.succ hl) ?_
        intro i h
        cases i with
        | zero => exact hf
        | succ i =>
          have hi := hs i (Nat.lt_of_succ_lt_succ h)
          rwa [Nat.add_right_comm, Nat.add_assoc] at hi
      | @least i error hi he hs =>
        rw [Nat.add_right_comm, Nat.add_assoc] at he
        refine .least (Nat.succ_lt_succ hi) he ?_
        intro j hj
        cases j with
        | zero => exact ⟨head, hf⟩
        | succ j =>
          obtain ⟨signer, hj⟩ := hs j (Nat.lt_of_succ_lt_succ hj)
          rw [Nat.add_right_comm, Nat.add_assoc] at hj
          exact ⟨signer, hj⟩

theorem signer_ofPhrase (phrase : String) (index : UInt32) :
    signer (Wallet.Accounts.ofPhrase phrase) index =
      match Wallet.derive phrase index with
      | .ok pair => .ok ⟨index, pair⟩
      | .error error => .error (.key error) := by
  rewrite [signer, Wallet.bind_keyPair_ofPhrase]
  rfl

theorem signer_ofPhrase_eq_ok {phrase : String} {index : UInt32} {found : Signer}
    (h : signer (Wallet.Accounts.ofPhrase phrase) index = .ok found) :
    Wallet.derive phrase index = .ok found.pair := by
  rw [signer_ofPhrase] at h
  split at h
  case h_1 pair hd =>
    cases h
    exact hd
  case h_2 => cases h

theorem signer_ofPhrase_eq_error {phrase : String} {index : UInt32} {error : SignerError}
    (h : signer (Wallet.Accounts.ofPhrase phrase) index = .error error) :
    ∃ e, Wallet.derive phrase index = .error e ∧ error = .key e := by
  rw [signer_ofPhrase] at h
  split at h
  case h_1 => cases h
  case h_2 e hd =>
    cases h
    exact ⟨e, hd, rfl⟩

end Provider
end ContractPipeline
