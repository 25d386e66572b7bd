import ContractPipeline.Proofs.Text.RoundTrip
import ContractPipeline.Storage.Path

/-! The components of paths that are put together from a folder and names. -/
namespace ContractPipeline.Storage

open Text.Utf8 (encodeChar)

/-- The bytes of a character beyond ASCII all lie beyond ASCII. -/
theorem le_of_mem_encodeChar {c : Char} {byte : UInt8} (h : byte ∈ encodeChar c)
    (hc : 0x80 ≤ c.toNat) : 0x80 ≤ byte.toNat := by
  have hm : c.toNat < 0x110000 := by
    rcases c.valid with hv | ⟨-, hv⟩
    · exact Nat.lt_trans hv (by decide)
    · exact hv
  unfold encodeChar at h
  dsimp only at h
  rw [if_neg (by omega)] at h
  split at h
  · simp only [List.mem_cons, List.not_mem_nil, or_false] at h
    rcases h with rfl | rfl <;> rw [UInt8.toNat_ofNat'] <;> omega
  split at h
  · simp only [List.mem_cons, List.not_mem_nil, or_false] at h
    rcases h with rfl | rfl | rfl <;> rw [UInt8.toNat_ofNat'] <;> omega
  · simp only [List.mem_cons, List.not_mem_nil, or_false] at h
    rcases h with rfl | rfl | rfl | rfl <;> rw [UInt8.toNat_ofNat'] <;> omega

theorem encodeChar_of_lt {c : Char} (hc : c.toNat < 0x80) :
    encodeChar c = [UInt8.ofNat c.toNat] := if_pos hc

/-- A separator among the bytes of a text is one of its characters. -/
theorem slash_mem_of_separator_mem {s : String} (h : Path.separator ∈ Bytes.ofString s) :
    '/' ∈ s.toList := by
  obtain ⟨c, hc, hb⟩ := List.mem_flatMap.mp h
  by_cases ha : c.toNat < 0x80
  · rw [encodeChar_of_lt ha, List.mem_singleton] at hb
    have hn : c.toNat = '/'.toNat := by
      have ht := congrArg UInt8.toNat hb
      rw [UInt8.toNat_ofNat', Nat.mod_eq_of_lt (by omega)] at ht
      exact ht.symm
    rwa [Char.toNat_inj.mp hn] at hc
  · exact absurd (le_of_mem_encodeChar hb (by omega)) (by decide)

namespace Path

theorem toString?_ofString (s : String) : (ofString s).toString? = some s :=
  Bytes.toString?_ofString s

theorem display_ofString (s : String) : (ofString s).display = s :=
  Bytes.toStringLossy_ofString s

theorem map_display_map_ofString (text? : Option String) :
    (text?.map ofString).map display = text? := by
  cases text? with
  | none => rfl
  | some s => exact congrArg some (display_ofString s)

def IsText (path : Path) : Prop :=
  ∃ s, path = ofString s

theorem isText_ofString (s : String) : (ofString s).IsText := ⟨s, rfl⟩

theorem IsText.join {folder : Path} (h : folder.IsText) (name : String) : (folder.join name).IsText := by
  obtain ⟨s, rfl⟩ := h
  have hs : ∃ t, (ofString s).front = Bytes.ofString t := by
    unfold front
    split
    · exact ⟨s, rfl⟩
    · exact ⟨s ++ "/", (Bytes.ofString_append s "/").symm⟩
  obtain ⟨t, ht⟩ := hs
  exact ⟨t ++ name, by rw [Path.join, within, ht, ofString, Bytes.ofString_append]⟩

/-- What stands in front of a name begins with the folder. -/
theorem exists_front_eq (folder : Path) : ∃ rest, folder.front = folder.bytes ++ rest := by
  unfold front
  split
  · exact ⟨[], (List.append_nil _).symm⟩
  · exact ⟨_, rfl⟩

/-- A folder within a folder, as long as its own name neither is empty nor holds a separator. -/
theorem within_within {inner : Bytes} (h : inner ≠ []) (hs : separator ∉ inner) (folder : Path)
    (bytes : Bytes) :
    (folder.within inner).within bytes = folder.within (inner ++ separator :: bytes) := by
  have hlast : (folder.within inner).namesFolder = false := by
    rw [namesFolder, beq_eq_false_iff_ne, within, List.getLast?_append,
      List.getLast?_eq_some_getLast h, Option.some_or]
    exact fun hl => hs (Option.some.inj hl ▸ List.getLast_mem h)
  have hne : (folder.within inner).bytes.isEmpty = false :=
    List.isEmpty_eq_false_iff.mpr (List.append_ne_nil_of_right_ne_nil _ h)
  have hfront : (folder.within inner).front = folder.front ++ (inner ++ [separator]) := by
    rw [front, hlast, hne, within, List.append_assoc]
    rfl
  rw [within, hfront, List.append_assoc, List.append_assoc]
  rfl

/-- The components of a folder, without the empty one where a name in it is to follow. -/
def outer (folder : Path) : List Bytes :=
  (components ⟨folder.front⟩).dropLast

/-- The components of what lies in a folder begin with those of the folder. -/
theorem components_within (folder : Path) (bytes : Bytes) :
    (folder.within bytes).components = folder.outer ++ components ⟨bytes⟩ := by
  have hcut : ∀ init : Bytes, components ⟨init ++ [separator] ++ bytes⟩ =
      (components ⟨init ++ [separator]⟩).dropLast ++ components ⟨bytes⟩ := by
    intro init
    rw [List.append_assoc]
    simp only [components, List.singleton_append, Text.split_append, Text.split_nil,
      List.dropLast_concat]
  unfold within outer front
  split
  · rename_i hf
    rcases Bool.or_eq_true_iff.mp hf with he | hl
    · rw [List.isEmpty_iff.mp he]
      rfl
    · obtain ⟨init, hi⟩ := List.getLast?_eq_some_iff.mp (beq_iff_eq.mp hl)
      rw [hi]
      exact hcut init
  · exact hcut folder.bytes

/-- A folder has the components that stand in front of what lies in it, with an empty one behind them
where it ends in a separator. -/
theorem components_eq_or (folder : Path) :
    folder.components = folder.outer ∨ folder.components = folder.outer ++ [[]] := by
  have hf := components_within folder []
  rw [within, List.append_nil] at hf
  unfold front at hf
  split at hf
  · exact .inr hf
  · left
    have hs : components ⟨folder.bytes ++ [separator]⟩ = components ⟨folder.bytes⟩ ++ [[]] :=
      Text.split_append _ _ _
    exact List.append_cancel_right (hs.symm.trans hf)

end Path

theorem Path.components_of_notMem {name : Bytes} (h : separator ∉ name) :
    components ⟨name⟩ = [name] := Text.split_eq_singleton h

theorem Path.components_cons {name : Bytes} (h : separator ∉ name) (rest : Bytes) :
    components ⟨name ++ separator :: rest⟩ = name :: components ⟨rest⟩ := by
  rw [components, Text.split_append, Text.split_eq_singleton h]
  rfl

theorem Path.isUsable_iff (bytes : Bytes) :
    isUsable ⟨bytes⟩ = true ↔ bytes ≠ [] ∧ bytes.length < 4096 ∧ 0 ∉ bytes := by
  simp [isUsable, and_assoc]

theorem Path.isUsable_front {front rest : Bytes} (hn : front ≠ [])
    (h : isUsable ⟨front ++ rest⟩ = true) : isUsable ⟨front⟩ = true := by
  obtain ⟨-, hlen, h0⟩ := (isUsable_iff _).mp h
  rw [List.length_append] at hlen
  exact (isUsable_iff _).mpr ⟨hn, by omega, fun hz => h0 (List.mem_append_left _ hz)⟩

theorem Path.isAbsolute_front {front : Bytes} (hn : front ≠ []) (rest : Bytes) :
    isAbsolute ⟨front ++ rest⟩ = isAbsolute ⟨front⟩ := by
  cases front with
  | nil => exact absurd rfl hn
  | cons byte front => rfl

/-- Whether a path is absolute shows in its first byte, so that what follows a folder matters only
where nothing stands in front. -/
theorem Path.isAbsolute_append (front : Bytes) {xs ys : Bytes} (hx : xs.head? ≠ some separator)
    (hy : ys.head? ≠ some separator) :
    isAbsolute ⟨front ++ xs⟩ = isAbsolute ⟨front ++ ys⟩ := by
  by_cases hf : front = []
  · subst hf
    rw [isAbsolute, isAbsolute, List.nil_append, List.nil_append, beq_eq_false_iff_ne.mpr hx,
      beq_eq_false_iff_ne.mpr hy]
  · rw [isAbsolute_front hf, isAbsolute_front hf]

theorem head?_ne_separator {name : Bytes} (hn : name ≠ []) (hs : Path.separator ∉ name)
    (rest : Bytes) : (name ++ rest).head? ≠ some Path.separator := by
  cases name with
  | nil => exact absurd rfl hn
  | cons byte name =>
    intro h
    exact hs (Option.some.inj h ▸ List.mem_cons_self)

end ContractPipeline.Storage
