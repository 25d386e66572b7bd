import ContractPipeline.Compiler.Version
import ContractPipeline.Proofs.Text.Integers
import ContractPipeline.Proofs.Text.Parts

/-! How semantic versions are written, and that exactly these texts are read. A version has one
written form, so that two names which are read as the same version are the same. -/
namespace ContractPipeline.Compiler

namespace Identifier

def toText : Identifier → List Char
  | .numeric value zeros =>
    List.replicate zeros '0' ++ if value = 0 then [] else Nat.toDigits 10 value
  | .word text => text.toList

/-- What may be an identifier: a number that has a digit, or a word that is not all digits. -/
inductive Valid : Identifier → Prop
  | numeric {value zeros : Nat} (h : value = 0 → 0 < zeros) : Valid (.numeric value zeros)
  | word {text : String} (ha : ∀ c ∈ text.toList, c.isAlphanum = true ∨ c = '-')
      (hd : ∃ c ∈ text.toList, c.isDigit = false) : Valid (.word text)

/-- A number without a zero that it does not need, or a word. -/
inductive Unpadded : Identifier → Prop
  | zero : Unpadded (.numeric 0 1)
  | positive {value : Nat} (h : 0 < value) : Unpadded (.numeric value 0)
  | word (text : String) : Unpadded (.word text)

theorem isPadded_eq_false_iff {id : Identifier} (hv : id.Valid) :
    id.isPadded = false ↔ id.Unpadded := by
  constructor
  · intro h
    cases hv with
    | @numeric value zeros hz =>
      simp only [isPadded, Bool.or_eq_false_iff, decide_eq_false_iff_not, Bool.and_eq_false_iff,
        beq_eq_false_iff_ne, bne_eq_false_iff_eq] at h
      rcases Nat.eq_zero_or_pos value with rfl | hp
      · obtain rfl : zeros = 1 := by
          have := hz rfl
          omega
        exact .zero
      · obtain rfl : zeros = 0 := by omega
        exact .positive hp
    | word => exact .word _
  · intro h
    cases h with
    | zero | positive | word => simp [isPadded]

section Zeros

variable {rest : List Char}

theorem digitsValue_zeros (n : Nat) (rest : List Char) :
    Text.digitsValue (List.replicate n '0' ++ rest) = Text.digitsValue rest := by
  induction n with
  | zero => rfl
  | succ n ih => exact ih

theorem takeWhile_zeros (n : Nat) (h : ∀ c ∈ rest.head?, c ≠ '0') :
    (List.replicate n '0' ++ rest).takeWhile (· == '0') = List.replicate n '0' := by
  apply Text.takeWhile_append_of_head
  · simp
  · intro c hc
    exact beq_eq_false_iff_ne.mpr (h c hc)

theorem exists_zeros (text : List Char) :
    ∃ zeros rest, text = List.replicate zeros '0' ++ rest ∧ ∀ c ∈ rest.head?, c ≠ '0' := by
  induction text with
  | nil => exact ⟨0, [], rfl, nofun⟩
  | cons c text ih =>
    by_cases hc : c = '0'
    · obtain ⟨zeros, rest, rfl, h⟩ := ih
      exact ⟨zeros + 1, rest, by rw [hc]; rfl, h⟩
    · refine ⟨0, c :: text, rfl, fun d hd => ?_⟩
      cases hd
      exact hc

end Zeros

/-- A number is written with nothing but digits. -/
theorem isDigit_of_mem_toText {value zeros : Nat} {c : Char} (h : c ∈ (numeric value zeros).toText) :
    c.isDigit = true := by
  rcases List.mem_append.mp h with h | h
  · rw [List.eq_of_mem_replicate h]
    rfl
  · split_ifs at h
    · cases h
    · exact Nat.isDigit_of_mem_toDigits (by decide) (by decide) h

theorem head?_ne_zero {value : Nat} :
    ∀ c ∈ (if value = 0 then [] else Nat.toDigits 10 value).head?, c ≠ '0' := by
  intro c hc
  split_ifs at hc with hv
  · cases hc
  · obtain ⟨d, more, he, h0⟩ := Text.exists_toDigits (Nat.pos_of_ne_zero hv)
    rw [he] at hc
    cases hc
    exact h0

theorem digitsValue_toText (value zeros : Nat) :
    Text.digitsValue (numeric value zeros).toText = value := by
  rw [toText, digitsValue_zeros]
  split_ifs with hv
  · exact hv.symm
  · exact Text.digitsValue_toDigits value

/-- All-digit texts are numbers. -/
theorem toText_numeric {text : List Char} (hne : text ≠ []) (hd : ∀ c ∈ text, c.isDigit = true) :
    (numeric (Text.digitsValue text) (text.takeWhile (· == '0')).length).Valid ∧
      (numeric (Text.digitsValue text) (text.takeWhile (· == '0')).length).toText = text := by
  obtain ⟨zeros, rest, rfl, h0⟩ := exists_zeros text
  rw [digitsValue_zeros, takeWhile_zeros zeros h0, List.length_replicate, toText]
  cases rest with
  | nil =>
    refine ⟨.numeric fun _ => ?_, rfl⟩
    apply Nat.pos_of_ne_zero
    rintro rfl
    exact hne rfl
  | cons c rest =>
    have hr : ∀ d ∈ c :: rest, d.isDigit = true := fun d hm => hd d (List.mem_append_right _ hm)
    obtain ⟨hp, ht⟩ := Text.toDigits_digitsValue hr (h0 c rfl)
    rw [if_neg (Nat.ne_of_gt hp), ht]
    exact ⟨.numeric fun hz => absurd hz (Nat.ne_of_gt hp), rfl⟩

theorem allowed_iff {c : Char} : allowed c = true ↔ c.isAlphanum = true ∨ c = '-' := by
  simp [allowed]

theorem allowed_of_isDigit {c : Char} (h : c.isDigit = true) : allowed c = true := by
  simp [allowed, Char.isAlphanum, h]

theorem Valid.toText_ne_nil {id : Identifier} (h : id.Valid) : id.toText ≠ [] := by
  cases h with
  | @numeric value zeros hz =>
    rcases Nat.eq_zero_or_pos value with rfl | hp
    · have hn := hz rfl
      simp [toText, Nat.ne_of_gt hn]
    · simp [toText, Nat.ne_of_gt hp, Nat.toDigits_ne_nil]
  | word _ hd =>
    obtain ⟨c, hc, -⟩ := hd
    exact List.ne_nil_of_mem hc

theorem Valid.allowed {id : Identifier} (h : id.Valid) : ∀ c ∈ id.toText, allowed c = true := by
  intro c hc
  cases h with
  | numeric => exact allowed_of_isDigit (isDigit_of_mem_toText hc)
  | word ha => exact allowed_iff.mpr (ha c hc)

theorem read?_eq_some_iff {text : List Char} {id : Identifier} :
    read? text = some id ↔ id.Valid ∧ id.toText = text := by
  constructor
  · intro h
    unfold read? at h
    split_ifs at h with hr hd
    · obtain ⟨hne, -⟩ : text ≠ [] ∧ _ := by simpa using hr
      cases h
      exact toText_numeric hne (List.all_eq_true.mp hd)
    · obtain ⟨-, ha⟩ : text ≠ [] ∧ _ := by simpa using hr
      cases h
      refine ⟨.word ?_ ?_, String.toList_ofList⟩
      · intro c hc
        rw [String.toList_ofList] at hc
        exact allowed_iff.mp (ha c hc)
      · rw [String.toList_ofList]
        simpa using hd
  · rintro ⟨hv, rfl⟩
    have hne := hv.toText_ne_nil
    have ha := hv.allowed
    have hr : ¬(id.toText.isEmpty || !id.toText.all Identifier.allowed) = true := by
      simpa using ⟨hne, ha⟩
    rw [read?, if_neg hr]
    cases hv with
    | @numeric value zeros hz =>
      have hd : (numeric value zeros).toText.all Char.isDigit = true :=
        List.all_eq_true.mpr fun c hc => isDigit_of_mem_toText hc
      rw [if_pos hd, digitsValue_toText, toText, takeWhile_zeros zeros head?_ne_zero,
        List.length_replicate]
    | @word text _ hd =>
      have hn : ¬text.toList.all Char.isDigit = true := by
        simpa using hd
      rw [toText, if_neg hn, String.ofList_toList]

end Identifier

namespace Version

/-- Identifiers behind their sign, with a dot between each two. Without identifiers there is no
sign. -/
def signed (sign : Char) (ids : List Identifier) : List Char :=
  if ids = [] then [] else sign :: ['.'].intercalate (ids.map Identifier.toText)

def coreText (major minor patch : Nat) : List Char :=
  ['.'].intercalate [Nat.toDigits 10 major, Nat.toDigits 10 minor, Nat.toDigits 10 patch]

def toText (v : Version) : List Char :=
  coreText v.major v.minor v.patch ++ signed '-' v.preRelease ++ signed '+' v.build

/-- What may be a version: the numbers fit into 64 bits, and only a build has numbers with zeros that
they do not need. -/
structure Valid (v : Version) : Prop where
  major : v.major < 18446744073709551616
  minor : v.minor < 18446744073709551616
  patch : v.patch < 18446744073709551616
  preRelease : ∀ id ∈ v.preRelease, id.Valid ∧ id.Unpadded
  build : ∀ id ∈ v.build, id.Valid

section Parts

variable {text : List Char} {ids : List Identifier} {n : Nat}

theorem readNumber?_eq_some_iff :
    readNumber? text = some n ↔ n < 18446744073709551616 ∧ Nat.toDigits 10 n = text := by
  constructor
  · intro h
    unfold readNumber? at h
    split at h
    case h_1 => cases h
    case h_2 hz =>
      obtain ⟨hr, hl⟩ := Option.filter_eq_some_iff.mp h
      obtain ⟨⟨hne, hd⟩, rfl⟩ := Text.readDigits?_eq_some_iff.mp hr
      refine ⟨of_decide_eq_true hl, ?_⟩
      obtain ⟨c, rest, rfl⟩ := List.exists_cons_of_ne_nil hne
      by_cases hc : c = '0'
      · subst hc
        cases rest with
        | nil => rfl
        | cons d rest => exact absurd rfl (hz d rest)
      · exact (Text.toDigits_digitsValue hd hc).2
  · rintro ⟨hl, rfl⟩
    have hr := Text.readDigits?_eq_some_iff.mpr ⟨Text.isDigits_toDigits n, rfl⟩
    rw [Text.digitsValue_toDigits] at hr
    unfold readNumber?
    split
    -- Only a zero is written with a zero in front, and nothing stands behind it.
    case h_1 c rest he =>
      rcases Nat.eq_zero_or_pos n with rfl | hn
      · cases he
      · obtain ⟨d, more, hd, h0⟩ := Text.exists_toDigits hn
        rw [hd] at he
        exact absurd (List.cons.inj he).1 h0
    case h_2 =>
      rw [hr]
      exact Option.filter_eq_some_iff.mpr ⟨rfl, decide_eq_true hl⟩

theorem mapM_read?_eq_some_iff {parts : List (List Char)} :
    parts.mapM Identifier.read? = some ids ↔
      (∀ id ∈ ids, id.Valid) ∧ ids.map Identifier.toText = parts := by
  induction parts generalizing ids with
  | nil =>
    rw [List.mapM_nil, List.map_eq_nil_iff]
    constructor
    · rintro ⟨⟩
      exact ⟨nofun, rfl⟩
    · rintro ⟨-, rfl⟩
      rfl
  | cons part parts ih =>
    simp only [List.mapM_cons, Option.bind_eq_bind, Option.bind_eq_some_iff, Option.pure_def,
      Option.some.injEq, Identifier.read?_eq_some_iff, ih]
    constructor
    · rintro ⟨id, ⟨hv, rfl⟩, ids, ⟨hvs, rfl⟩, rfl⟩
      exact ⟨List.forall_mem_cons.mpr ⟨hv, hvs⟩, rfl⟩
    · rintro ⟨hvs, he⟩
      obtain ⟨id, ids, rfl, ht, hts⟩ := List.map_eq_cons_iff.mp he
      obtain ⟨hv, hvs⟩ := List.forall_mem_cons.mp hvs
      exact ⟨id, ⟨hv, ht⟩, ids, ⟨hvs, hts⟩, rfl⟩

/-- No identifier has a dot in it, so that the dots tell where each ends. -/
theorem readIdentifiers?_eq_some_iff :
    readIdentifiers? text = some ids ↔
      ids ≠ [] ∧ (∀ id ∈ ids, id.Valid) ∧ ['.'].intercalate (ids.map Identifier.toText) = text := by
  have hdot : (∀ id ∈ ids, id.Valid) → ∀ part ∈ ids.map Identifier.toText, '.' ∉ part := by
    intro hv part hp hm
    obtain ⟨id, hid, rfl⟩ := List.mem_map.mp hp
    exact absurd ((hv id hid).allowed '.' hm) (by decide)
  rw [readIdentifiers?, mapM_read?_eq_some_iff, eq_comm (b := Text.split '.' text),
    Text.split_eq_iff, ne_eq, List.map_eq_nil_iff]
  constructor
  · rintro ⟨hv, hne, -, ht⟩
    exact ⟨hne, hv, ht⟩
  · rintro ⟨hne, hv, ht⟩
    exact ⟨hv, hne, hdot hv, ht⟩

theorem readCore?_eq_some_iff {major minor patch : Nat} :
    readCore? text = some (major, minor, patch) ↔
      (major < 18446744073709551616 ∧ minor < 18446744073709551616 ∧
        patch < 18446744073709551616) ∧ coreText major minor patch = text := by
  constructor
  · intro h
    unfold readCore? at h
    split at h
    case h_1 first second third hs =>
      simp only [Option.bind_eq_bind, Option.bind_eq_some_iff, Option.pure_def, Option.some.injEq,
        Prod.mk.injEq, readNumber?_eq_some_iff] at h
      obtain ⟨_, ⟨ha, rfl⟩, _, ⟨hb, rfl⟩, _, ⟨hc, rfl⟩, rfl, rfl, rfl⟩ := h
      exact ⟨⟨ha, hb, hc⟩, (Text.split_eq_iff.mp hs).2.2⟩
    case h_2 => cases h
  · rintro ⟨⟨ha, hb, hc⟩, rfl⟩
    have hdot : ∀ n, '.' ∉ Nat.toDigits 10 n := by
      intro n hm
      exact absurd ((Text.isDigits_toDigits n).2 '.' hm) (by decide)
    have hs : Text.split '.' (coreText major minor patch) =
        [Nat.toDigits 10 major, Nat.toDigits 10 minor, Nat.toDigits 10 patch] := by
      apply Text.split_intercalate (List.cons_ne_nil _ _)
      simp [hdot]
    have hr {n : Nat} (hn : n < 18446744073709551616) : readNumber? (Nat.toDigits 10 n) = some n :=
      readNumber?_eq_some_iff.mpr ⟨hn, rfl⟩
    simp [readCore?, hs, hr ha, hr hb, hr hc]

theorem cut_eq_none {sign : Char} (h : sign ∉ text) : cut sign text = (text, none) := by
  have hp : ∀ c ∈ text, (c != sign) = true := by
    intro c hc
    exact bne_iff_ne.mpr (ne_of_mem_of_not_mem hc h)
  have hd : text.dropWhile (· != sign) = [] := List.dropWhile_eq_nil_iff.mpr hp
  rw [cut, List.takeWhile_eq_self_iff.mpr hp, hd]
  rfl

theorem cut_append {sign : Char} {before after : List Char} (h : sign ∉ before) :
    cut sign (before ++ sign :: after) = (before, some after) := by
  have hp : ∀ c ∈ before, (c != sign) = true := by
    intro c hc
    exact bne_iff_ne.mpr (ne_of_mem_of_not_mem hc h)
  have hr : ∀ c ∈ (sign :: after).head?, (c != sign) = false := by
    rintro _ ⟨⟩
    exact bne_self_eq_false _
  rw [cut, Text.takeWhile_append_of_head hp hr, Text.dropWhile_append_of_head hp hr]
  rfl

/-- What is read behind the first sign are the identifiers that are written there. -/
theorem cut_signed_iff {sign : Char} {before : List Char} :
    (∃ after?, cut sign text = (before, after?) ∧ readOptional? after? = some ids) ↔
      sign ∉ before ∧ (∀ id ∈ ids, id.Valid) ∧ before ++ signed sign ids = text := by
  constructor
  · rintro ⟨after?, hc, hr⟩
    by_cases hm : sign ∈ text
    · obtain ⟨first, rest, rfl, hn⟩ := List.eq_append_cons_of_mem hm
      rw [cut_append hn] at hc
      cases hc
      obtain ⟨hne, hv, rfl⟩ := readIdentifiers?_eq_some_iff.mp hr
      refine ⟨hn, hv, ?_⟩
      rw [signed, if_neg hne]
    · rw [cut_eq_none hm] at hc
      cases hc
      cases hr
      exact ⟨hm, nofun, List.append_nil _⟩
  · rintro ⟨hn, hv, rfl⟩
    by_cases hne : ids = []
    · subst hne
      refine ⟨none, ?_, rfl⟩
      rw [signed, if_pos rfl, List.append_nil]
      exact cut_eq_none hn
    · refine ⟨some _, ?_, readIdentifiers?_eq_some_iff.mpr ⟨hne, hv, rfl⟩⟩
      rw [signed, if_neg hne]
      exact cut_append hn

end Parts

section Whole

variable {text : List Char} {v : Version}

theorem read?_eq_some_iff_cut :
    read? text = some v ↔ ∃ release core,
      (∃ build?, cut '+' text = (release, build?) ∧ readOptional? build? = some v.build) ∧
      (∃ preRelease?, cut '-' release = (core, preRelease?) ∧
        readOptional? preRelease? = some v.preRelease) ∧
      readCore? core = some (v.major, v.minor, v.patch) ∧
      ∀ id ∈ v.preRelease, id.isPadded = false := by
  rcases hb : cut '+' text with ⟨release, build?⟩
  rcases hp : cut '-' release with ⟨core, preRelease?⟩
  simp only [read?, hb, hp, Option.bind_eq_bind, Option.bind_eq_some_iff, Option.pure_def,
    Option.some.injEq, Option.filter_eq_some_iff, Prod.mk.injEq]
  constructor
  · rintro ⟨⟨major, minor, patch⟩, hc, preRelease, ⟨hr, hu⟩, build, hrb, rfl⟩
    refine ⟨release, core, ⟨build?, ⟨rfl, rfl⟩, hrb⟩, ⟨preRelease?, hp, hr⟩, hc, ?_⟩
    simpa using hu
  · rintro ⟨_, _, ⟨_, ⟨rfl, rfl⟩, hrb⟩, ⟨_, hp', hr⟩, hc, hu⟩
    rw [hp] at hp'
    cases hp'
    exact ⟨_, hc, _, ⟨hr, by simpa using hu⟩, _, hrb, rfl⟩

theorem notMem_coreText {c : Char} {major minor patch : Nat} (hd : c.isDigit = false)
    (hc : c ≠ '.') : c ∉ coreText major minor patch := by
  intro hm
  rcases Text.mem_intercalate hm with he | ⟨part, hp, hm⟩
  · exact hc he
  · have hn : ∃ n, part = Nat.toDigits 10 n := by
      simp only [List.mem_cons, List.not_mem_nil, or_false] at hp
      rcases hp with rfl | rfl | rfl <;> exact ⟨_, rfl⟩
    obtain ⟨n, rfl⟩ := hn
    have hdigit := (Text.isDigits_toDigits n).2 c hm
    rw [hd] at hdigit
    cases hdigit

theorem notMem_signed {c sign : Char} {ids : List Identifier} (hv : ∀ id ∈ ids, id.Valid)
    (hs : c ≠ sign) (hd : c ≠ '.') (ha : Identifier.allowed c = false) : c ∉ signed sign ids := by
  intro hm
  unfold signed at hm
  split_ifs at hm
  · cases hm
  · rcases List.mem_cons.mp hm with he | hm
    · exact hs he
    · rcases Text.mem_intercalate hm with he | ⟨part, hp, hm⟩
      · exact hd he
      · obtain ⟨id, hid, rfl⟩ := List.mem_map.mp hp
        have hallowed := (hv id hid).allowed c hm
        rw [ha] at hallowed
        cases hallowed

/-- The texts that are read as versions are those of valid ones. No sign stands in front of what it
announces, so that the first one is where it is expected. -/
theorem read?_eq_some_iff : read? text = some v ↔ v.Valid ∧ v.toText = text := by
  rw [read?_eq_some_iff_cut]
  simp only [cut_signed_iff, readCore?_eq_some_iff]
  constructor
  · rintro ⟨_, _, ⟨-, hb, rfl⟩, ⟨-, hp, rfl⟩, ⟨⟨hmajor, hminor, hpatch⟩, rfl⟩, hu⟩
    refine ⟨⟨hmajor, hminor, hpatch, fun id hid => ?_, hb⟩, rfl⟩
    exact ⟨hp id hid, (Identifier.isPadded_eq_false_iff (hp id hid)).mp (hu id hid)⟩
  · rintro ⟨hv, rfl⟩
    have hp : ∀ id ∈ v.preRelease, id.Valid := fun id hid => (hv.preRelease id hid).1
    have hplus : '+' ∉ coreText v.major v.minor v.patch ++ signed '-' v.preRelease := by
      rw [List.mem_append, not_or]
      exact ⟨notMem_coreText rfl (by decide), notMem_signed hp (by decide) (by decide) rfl⟩
    have hhyphen : '-' ∉ coreText v.major v.minor v.patch := notMem_coreText rfl (by decide)
    refine ⟨_, _, ⟨hplus, hv.build, rfl⟩, ⟨hhyphen, hp, rfl⟩,
      ⟨⟨hv.major, hv.minor, hv.patch⟩, rfl⟩, fun id hid => ?_⟩
    exact (Identifier.isPadded_eq_false_iff (hp id hid)).mpr (hv.preRelease id hid).2

end Whole

end Version

end ContractPipeline.Compiler
