import Mathlib.Data.List.Basic
import ContractPipeline.Json.Value

/-! The members of objects, and values in which no object has a key twice. -/
namespace ContractPipeline.Json

namespace Value

def member? : Value → String → Option Value
  | .record members, key => members.lookup key
  | _, _ => none

def at? (value : Value) : List String → Option Value
  | [] => some value
  | key :: path => (value.member? key).bind (·.at? path)

def without (value : Value) (keys : List String) : Value :=
  match value with
  | .record members => .record (members.filter fun (key, _) => key ∉ keys)
  | value => value

/-- No object, at any depth, has two members under one key. -/
inductive Distinct : Value → Prop
  | null : Distinct .null
  | bool (b : Bool) : Distinct (.bool b)
  | number (n : Nat) : Distinct (.number n)
  | text (s : String) : Distinct (.text s)
  | list {items : List Value} (h : ∀ item ∈ items, Distinct item) : Distinct (.list items)
  | record {members : List (String × Value)} (hk : (members.map Prod.fst).Nodup)
      (h : ∀ member ∈ members, Distinct member.2) : Distinct (.record members)

attribute [simp] Distinct.null Distinct.bool Distinct.number Distinct.text

@[simp] theorem distinct_record_iff {members : List (String × Value)} :
    Distinct (.record members) ↔
      (members.map Prod.fst).Nodup ∧ ∀ member ∈ members, member.2.Distinct := by
  constructor
  · intro hd
    cases hd with
    | record hk h => exact ⟨hk, h⟩
  · rintro ⟨hk, h⟩
    exact .record hk h

@[simp] theorem distinct_ofText? (s? : Option String) : Distinct (ofText? s?) := by
  cases s? with
  | none => exact .null
  | some s => exact .text s

@[simp] theorem distinct_ofNumber? (n? : Option Nat) : Distinct (ofNumber? n?) := by
  cases n? with
  | none => exact .null
  | some n => exact .number n

end Value

theorem lookup_map_snd {α β : Type} (members : List (String × α)) (f : α → β) (key : String) :
    (members.map fun (key, value) => (key, f value)).lookup key = (members.lookup key).map f := by
  induction members with
  | nil => rfl
  | cons member members ih =>
    obtain ⟨name, value⟩ := member
    simp only [List.map_cons, List.lookup_cons]
    cases key == name with
    | true => rfl
    | false => exact ih

theorem distinct_record_map {α : Type} {members : List (String × α)} {f : α → Value}
    (hk : (members.map Prod.fst).Nodup) (hf : ∀ value, (f value).Distinct) :
    (Value.record (members.map fun (key, value) => (key, f value))).Distinct := by
  refine .record ?_ ?_
  · rwa [List.map_map]
  · intro member hm
    obtain ⟨⟨key, value⟩, -, rfl⟩ := List.mem_map.mp hm
    exact hf value

end ContractPipeline.Json
