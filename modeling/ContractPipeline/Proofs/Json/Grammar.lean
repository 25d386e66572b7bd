import ContractPipeline.Json.Scanner

/-! Which sequences of tokens are values. -/
namespace ContractPipeline.Json

mutual

inductive IsValue : List Token → Prop
  | null : IsValue [.null]
  | bool (b : Bool) : IsValue [.bool b]
  | number (isFinite : Bool) : IsValue [.number isFinite]
  | text (text? : Option String) : IsValue [.text text?]
  | list {items : List (List Token)} (h : ∀ item ∈ items, IsValue item) :
      IsValue (.openList :: ([.comma].intercalate items ++ [.closeList]))
  | record {members : List (List Token)} (h : ∀ member ∈ members, IsMember member) :
      IsValue (.openRecord :: ([.comma].intercalate members ++ [.closeRecord]))

/-- The tokens of a member of an object. A key that is a broken string has no text. -/
inductive IsMember : List Token → Prop
  | mk (key? : Option String) {value : List Token} (h : IsValue value) :
      IsMember (.text key? :: .colon :: value)

end

/-- The first part stands alone, and each other one follows its comma. -/
theorem intercalate_comma_cons (part : List Token) (parts : List (List Token)) :
    [Token.comma].intercalate (part :: parts) = part ++ parts.flatMap (.comma :: ·) := by
  induction parts generalizing part with
  | nil => simp
  | cons next parts ih => simp [List.intercalate_cons_cons, ih]

end ContractPipeline.Json
