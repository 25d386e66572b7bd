import ContractPipeline.Text.Quoted

/-! What can go wrong between the program and the system it runs on. -/
namespace ContractPipeline.Storage

inductive IoError
  | notAFolder
  | addressInUse
  | invalidText
  | other (text : String)
  deriving DecidableEq, Repr

namespace IoError

def message : IoError → String
  | .notAFolder => "Not a directory (os error 20)"
  | .addressInUse => "Address already in use (os error 98)"
  | .invalidText => "stream did not contain valid UTF-8"
  | .other text => text

def detail : IoError → String
  | .notAFolder =>
    "Os \x7b code: 20, kind: NotADirectory, message: \"Not a directory\" \x7d"
  | .addressInUse =>
    "Os \x7b code: 98, kind: AddrInUse, message: \"Address already in use\" \x7d"
  | .invalidText =>
    "Error \x7b kind: InvalidData, message: \"stream did not contain valid UTF-8\" \x7d"
  | .other text => "Custom \x7b kind: Other, error: " ++ Text.quote text ++ " \x7d"

end IoError

end ContractPipeline.Storage
