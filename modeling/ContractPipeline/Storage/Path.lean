import ContractPipeline.Text.Quoted
import ContractPipeline.Text.Split

/-! Paths of files: byte sequences whose components stand between slashes. -/
namespace ContractPipeline.Storage

structure Path where
  bytes : Bytes
  deriving DecidableEq, Repr

namespace Path

def separator : UInt8 := 0x2F

def ofString (s : String) : Path :=
  ⟨.ofString s⟩

instance : Coe String Path := ⟨ofString⟩

def toString? (path : Path) : Option String :=
  path.bytes.toString?

/-- The text of a path, broken runs replaced. -/
def display (path : Path) : String :=
  path.bytes.toStringLossy

/-- Where a text is due, a path stands for the text that is displayed. -/
instance : CoeOut Path String := ⟨display⟩

def components (path : Path) : List Bytes :=
  Text.split separator path.bytes

def ofComponents (components : List Bytes) : Path :=
  ⟨[separator].intercalate components⟩

def isAbsolute (path : Path) : Bool :=
  path.bytes.head? == some separator

/-- The components without those behind the last name, where only separators follow. -/
def names (path : Path) : List Bytes :=
  (path.components.reverse.dropWhile (·.isEmpty)).reverse

/-- Whether a path ends in a separator, so that it can name nothing but a folder. -/
def namesFolder (path : Path) : Bool :=
  path.bytes.getLast? == some separator

/-- Whether a path can name anything: it is neither empty nor too long, and holds no zero byte. -/
def isUsable (path : Path) : Bool :=
  !path.bytes.isEmpty && path.bytes.length < 4096 && !path.bytes.contains 0

/-- What stands in front of a name in a folder. A separator is put behind the folder where one is
due. -/
def front (folder : Path) : Bytes :=
  if folder.bytes.isEmpty || folder.namesFolder then folder.bytes else folder.bytes ++ [separator]

def within (folder : Path) (bytes : Bytes) : Path :=
  ⟨folder.front ++ bytes⟩

/-- The path of a name in a folder. A name does not start with a separator. -/
def join (folder : Path) (name : String) : Path :=
  folder.within (.ofString name)

def quote (path : Path) : String :=
  Text.quoteBytes path.bytes

end Path

end ContractPipeline.Storage
