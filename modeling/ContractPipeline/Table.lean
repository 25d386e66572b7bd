/-! Tables of named values, listed in the order of the names. -/
namespace ContractPipeline.Table

variable {α : Type}

/-- Puts a value in the place of its name, and a former value of the name away. -/
def insert (name : String) (value : α) : List (String × α) → List (String × α)
  | [] => [(name, value)]
  | (other, former) :: rest =>
    match compare name other with
    | .lt => (name, value) :: (other, former) :: rest
    | .eq => (name, value) :: rest
    | .gt => (other, former) :: insert name value rest

/-- Puts values in their places one after the other, so that of two with one name the later one
is left. -/
def insertAll (entries table : List (String × α)) : List (String × α) :=
  entries.foldl (fun table (name, value) => insert name value table) table

end ContractPipeline.Table
