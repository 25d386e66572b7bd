import ContractPipeline.Proofs.Account.Listing

/-! Listing accounts into a sink that takes a limited number of bytes: whichever byte the limit falls
on, the sink has taken the beginning of the lines up to it. -/
namespace ContractPipeline

open Storage (IoError Sink)

namespace Storage.Sink

variable {sink : Sink} {limit : Nat}

/-- A sink that takes a number of bytes in all, and refuses a piece as soon as more are offered. -/
def TakesUpTo (sink : Sink) (limit : Nat) : Prop :=
  ∀ offered, (sink.refusal? offered).isSome = true ↔ limit < offeredLength offered

theorem takesUpTo_limited (limit : Nat) : (limited limit).TakesUpTo limit := by
  intro offered
  change (if limit < offeredLength offered then some full else none).isSome = true ↔ _
  split
  case isTrue h => exact ⟨fun _ => h, fun _ => rfl⟩
  case isFalse h => exact ⟨nofun, fun hl => absurd hl h⟩

theorem eq_full_of_refusal? {offered : List Bytes} {error : IoError}
    (h : (limited limit).refusal? offered = some error) : error = full := by
  change (if limit < offeredLength offered then some full else none) = some error at h
  split at h
  case isTrue => exact (Option.some.inj h).symm
  case isFalse => cases h

theorem length_offers (sink : Sink) : sink.offers.length = offeredLength sink.offered := by
  simp [offers, offeredLength, List.length_flatten, List.sum_reverse]

/-- A sink with a limit that it has not passed. -/
structure Within (sink : Sink) (limit : Nat) : Prop where
  takesUpTo : sink.TakesUpTo limit
  length_le : sink.offers.length ≤ limit

/-- A job on a new sink with a limit, which has offered a text or the beginning of it: the sink has
taken all of the text up to the limit, and refused exactly what goes beyond. -/
theorem Ends.of_within {text : Bytes} {result : Except IoError Unit × Sink}
    (he : sink.Ends text result) (h : sink.TakesUpTo limit) (hn : sink.offered = [])
    (hw : ∀ next, result = (.ok (), next) → next.Within limit) :
    result.2.taken (some limit) = text.take limit ∧
    (text.length ≤ limit → result.1 = .ok ()) ∧
    (limit < text.length → ∃ error,
      sink.refusal? result.2.offered = some error ∧ result.1 = .error error) := by
  have ho : sink.offers = [] := by rw [offers, hn]; rfl
  cases he with
  | @complete next _ hall =>
    have hle := (hw next rfl).length_le
    rw [hall, ho, List.nil_append] at hle
    refine ⟨?_, fun _ => rfl, fun hlt => absurd hle (Nat.not_le_of_lt hlt)⟩
    rw [taken, hall, ho, List.nil_append]
  | @refused next error rest _ hf hpart =>
    have hlt : limit < next.offers.length := by
      rw [length_offers]
      exact (h _).mp (Option.isSome_iff_exists.mpr ⟨error, hf⟩)
    rw [ho, List.nil_append] at hpart
    have hlen := congrArg List.length hpart
    rw [List.length_append] at hlen
    refine ⟨?_, fun hle => by omega, fun _ => ⟨error, hf, rfl⟩⟩
    rw [taken, hpart, List.take_append_of_le_length (Nat.le_of_lt hlt)]

end Storage.Sink

namespace Job

/-- A job that does not end well on a sink whose limit it passes. -/
def Respects (job : Job IoError Unit) (limit : Nat) : Prop :=
  ∀ sink next : Sink, sink.Within limit → (job.on sink).value = (.ok (), next) → next.Within limit

theorem respects_pure (limit : Nat) : Respects (pure ()) limit := by
  intro sink next h hn
  cases hn
  exact h

theorem respects_offer (piece : Bytes) (limit : Nat) : Respects (offer piece) limit := by
  intro sink next h hn
  change sink.write piece = (.ok (), next) at hn
  unfold Sink.write at hn
  dsimp only at hn
  split at hn
  case h_1 => cases hn
  case h_2 hr =>
    cases hn
    refine ⟨h.takesUpTo, ?_⟩
    rw [Sink.length_offers]
    refine Nat.le_of_not_lt fun hl => ?_
    have hs := (h.takesUpTo _).mpr hl
    rw [hr] at hs
    cases hs

theorem Respects.bind {first second : Job IoError Unit} {limit : Nat} (hf : first.Respects limit)
    (hs : second.Respects limit) : Respects (first >>= fun _ => second) limit := by
  intro sink next h hn
  rw [value_on_bind] at hn
  split at hn
  case h_1 middle hm => exact hs middle next (hf sink middle h hm) hn
  case h_2 => cases hn

end Job

namespace Provider

theorem respects_writeAddresses (signers : List Signer) (limit : Nat) :
    (writeAddresses signers).Respects limit := by
  induction signers with
  | nil => exact Job.respects_pure limit
  | cons signer signers ih =>
    exact (Job.respects_offer _ limit).bind ((Job.respects_offer _ limit).bind ih)

theorem length_lineBytes (signers : List Signer) :
    (lineBytes (signers.map Signer.address)).length = 43 * signers.length := by
  induction signers with
  | nil => rfl
  | cons signer signers ih =>
    have hs : lineBytes ((signer :: signers).map Signer.address) =
        Bytes.ofString signer.address ++ Bytes.ofString "\n" ++
          lineBytes (signers.map Signer.address) := by
      rw [← Bytes.ofString_append]
      rfl
    rw [hs, List.length_append, List.length_append, ih, length_ofString_address, List.length_cons]
    have hn : (Bytes.ofString "\n").length = 1 := by decide
    omega

/-- What is written of the lines of some signers, each with its end 43 bytes long. -/
theorem writeAddresses_takesUpTo (signers : List Signer) {sink : Sink} {limit : Nat}
    (h : sink.TakesUpTo limit) (hn : sink.offered = []) :
    let written := ((writeAddresses signers).on sink).value
    written.2.taken (some limit) =
      (lineBytes (signers.map Signer.address)).take (min limit (43 * signers.length)) ∧
    (43 * signers.length ≤ limit → written.1 = .ok ()) ∧
    (limit < 43 * signers.length → ∃ error,
      sink.refusal? written.2.offered = some error ∧ written.1 = .error error) := by
  have hw : sink.Within limit := ⟨h, by rw [Sink.length_offers, hn]; exact Nat.zero_le limit⟩
  have hr := (ends_writeAddresses signers sink).of_within h hn fun next hj =>
    respects_writeAddresses signers limit sink next hw hj
  rwa [List.take_eq_take_min, length_lineBytes] at hr

/-- A listing into a new sink that takes a number of bytes in all. Where the provider fails, its error
is the result and nothing is offered. Otherwise the sink has taken the lines of all signers in their
order, each of 42 characters and an end, up to the limit; the result is the number of signers if all
lines are within it, and else the error of the sink. -/
theorem list_takesUpTo (provider : Provider) (sink : Sink) (limit : Nat)
    (h : sink.TakesUpTo limit) (hn : sink.offered = []) :
    let result := (provider.list.on sink).value
    (∀ error, provider.value = .error error →
      result = (.error error, sink) ∧ result.2.taken (some limit) = []) ∧
    ∀ signers, provider.value = .ok signers →
      let lines := signers.map Signer.address
      (∀ line ∈ lines, line.length = 42) ∧
      (lineBytes lines).length = 43 * signers.length ∧
      result.2.taken (some limit) = (lineBytes lines).take (min limit (43 * signers.length)) ∧
      (43 * signers.length ≤ limit → result.1 = .ok signers.length) ∧
      (limit < 43 * signers.length → ∃ error,
        sink.refusal? result.2.offered = some error ∧ result.1 = .error (.io error)) := by
  intro result
  have hr : result = (provider.list.on sink).value := rfl
  rw [value_on_list] at hr
  constructor
  · intro error he
    rw [he] at hr
    rw [hr, Sink.taken, Sink.offers, hn]
    exact ⟨rfl, List.take_nil⟩
  · intro signers hs lines
    have hline : ∀ line ∈ lines, line.length = 42 := by
      intro line hm
      obtain ⟨signer, -, rfl⟩ := List.mem_map.mp hm
      exact length_address signer
    obtain ⟨ht, hk, hf⟩ := writeAddresses_takesUpTo signers h hn
    rw [hs] at hr
    dsimp only at hr
    refine ⟨hline, length_lineBytes signers, ?_⟩
    -- Of what was written, only the length still matters.
    generalize ((writeAddresses signers).on sink).value = written at hr ht hk hf
    obtain ⟨outcome, next⟩ := written
    rcases Nat.lt_or_ge limit (43 * signers.length) with hlt | hle
    · obtain ⟨error, hrefused, rfl⟩ := hf hlt
      rw [hr]
      exact ⟨ht, fun hle => absurd hle (Nat.not_le_of_lt hlt), fun _ => ⟨error, hrefused, rfl⟩⟩
    · obtain rfl := hk hle
      rw [hr]
      exact ⟨ht, fun _ => rfl, fun hlt => absurd hle (Nat.not_le_of_lt hlt)⟩

/-- Two signers with the same secret, not in the order of their indices. -/
def twoSigners : List Signer :=
  [⟨7, .ofSecret ⟨1, by decide, by decide⟩⟩, ⟨2, .ofSecret ⟨1, by decide, by decide⟩⟩]

theorem list_takesUpTo_second_line :
    (Sink.limited 50).TakesUpTo 50 ∧
    ((list (pure (.ok twoSigners))).on (.limited 50)).value.1 = .error (.io Sink.full) ∧
    ((list (pure (.ok twoSigners))).on (.limited 50)).value.2.taken (some 50) =
      (lineBytes (twoSigners.map Signer.address)).take 50 ∧
    ((list (pure (.error (.unavailable "node offline")))).on (.limited 0)).value =
      (.error (.unavailable "node offline"), .limited 0) := by
  have hl := Sink.takesUpTo_limited 50
  have hok := (list_takesUpTo (pure (.ok twoSigners)) (.limited 50) 50 hl rfl).2 twoSigners rfl
  have hfail := (list_takesUpTo (pure (.error (.unavailable "node offline"))) (.limited 0) 0
    (Sink.takesUpTo_limited 0) rfl).1 _ rfl
  obtain ⟨error, hr, he⟩ := hok.2.2.2.2 (by decide)
  rw [Sink.eq_full_of_refusal? hr] at he
  exact ⟨hl, he, hok.2.2.1, hfail.1⟩

end Provider
end ContractPipeline
