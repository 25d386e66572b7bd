import ContractPipeline.Storage.Path

/-! Trees of files, folders and symbolic links, and where paths lead in them. Every file and every
folder of a tree may be read: there are no permissions, and no reading fails halfway. -/
namespace ContractPipeline.Storage

/-- A file, a link to a path, or a folder of named nodes. -/
inductive Node
  | file (contents : Bytes)
  | link (target : Path)
  | folder (entries : List (Bytes × Node))
  deriving Repr

namespace Node

/-- The node that plain names lead to, links not followed. -/
def at? : Node → List Bytes → Option Node
  | node, [] => some node
  | .folder entries, name :: names => (entries.lookup name).bind (·.at? names)
  | .file _, _ :: _ | .link _, _ :: _ => none

/-- The entries with one added, replaced or taken away. -/
def setEntry (entries : List (Bytes × Node)) (name : Bytes) : Option Node → List (Bytes × Node)
  | none => entries.filter (·.1 != name)
  | some node => (name, node) :: entries.filter (·.1 != name)

/-- The tree in which the node at plain names is replaced or taken away. Folders on the way must
exist. -/
def set (replacement : Option Node) : List Bytes → Node → Node
  | [], node => replacement.getD node
  | [name], .folder entries => .folder (setEntry entries name replacement)
  | name :: names, .folder entries =>
    match entries.lookup name with
    | none => .folder entries
    | some node => .folder (setEntry entries name (some (set replacement names node)))
  | _, node => node

end Node

/-- The longest name of a file in bytes. -/
def nameLimit : Nat := 255

/-- How many links one path may lead through. -/
def linkLimit : Nat := 40

/-- The component for the folder itself. -/
def here : Bytes := [0x2E]

/-- The component for the folder above. -/
def above : Bytes := [0x2E, 0x2E]

/-- Whether a path starts from the working folder and steps to no folder above, so that nothing but
a link can lead it out of the working folder. -/
def Path.staysInside (path : Path) : Bool :=
  !path.isAbsolute && !path.components.contains above

/-- Where components lead from a node, whose location is given with the innermost name in front.
Each step starts at a folder; `follow` goes on from the folder of a link. With `creating`, the last
name need not exist. -/
def walkWith (root : Node) (creating : Bool)
    (follow : Node → List Bytes → Path → List Bytes → Option (List Bytes)) :
    Node → List Bytes → List Bytes → Option (List Bytes)
  | _, location, [] => some location.reverse
  | .folder entries, location, name :: rest =>
    if name = [] ∨ name = here then
      walkWith root creating follow (.folder entries) location rest
    else if name = above then
      match root.at? location.tail.reverse with
      | some folder => walkWith root creating follow folder location.tail rest
      | none => none
    else if nameLimit < name.length then none
    else
      match entries.lookup name with
      | none => if creating && rest.isEmpty then some (name :: location).reverse else none
      | some (.link target) => follow (.folder entries) location target rest
      | some node => walkWith root creating follow node (name :: location) rest
  | .file _, _, _ :: _ | .link _, _, _ :: _ => none

/-- Where components lead from a node at a location through at most so many links. -/
def walk (root : Node) (creating : Bool) :
    (links : Nat) → Node → List Bytes → List Bytes → Option (List Bytes)
  | 0 => walkWith root creating fun _ _ _ _ => none
  | links + 1 => walkWith root creating fun folder location target rest =>
    let components := target.components ++ rest
    if target.isAbsolute then walk root creating links root [] components
    else walk root creating links folder location components

/-- A tree with the folder that relative paths start from. -/
structure FileTree where
  root : Node
  working : List Bytes

namespace FileTree

/-- An empty working folder. Its name is the empty one, which no path can spell, so that only
relative paths lead into it. -/
def empty : FileTree where
  root := .folder [([], .folder [])]
  working := [[]]

def start (tree : FileTree) (path : Path) : List Bytes :=
  if path.isAbsolute then [] else tree.working

def walkFrom? (tree : FileTree) (path : Path) (creating : Bool) (components : List Bytes) :
    Option (List Bytes) := do
  let folder ← tree.root.at? (tree.start path)
  if path.isUsable then
    walk tree.root creating linkLimit folder (tree.start path).reverse components
  else none

def locate? (tree : FileTree) (path : Path) (creating : Bool) : Option (List Bytes) :=
  tree.walkFrom? path creating path.components

def find? (tree : FileTree) (path : Path) : Option Node :=
  (tree.locate? path false).bind tree.root.at?

def file? (tree : FileTree) (path : Path) : Option Bytes :=
  match tree.find? path with
  | some (.file contents) => some contents
  | _ => none

def isFile (tree : FileTree) (path : Path) : Bool :=
  (tree.file? path).isSome

/-- Whether a component is the name of an entry, and not a way to a folder. -/
def isName (component : Bytes) : Bool :=
  component.length ≤ nameLimit && !([[], here, above].contains component)

/-- The plain names of the entry that a path names in a folder that exists. A link there is not
followed. -/
def entry? (tree : FileTree) (path : Path) : Option (List Bytes) := do
  let name ← path.names.getLast?
  let location ← tree.walkFrom? path false path.names.dropLast
  match tree.root.at? location with
  | some (.folder _) => if isName name then some (location ++ [name]) else none
  | _ => none

/-- The tree with a new node where a path names nothing yet. -/
def add? (tree : FileTree) (path : Path) (node : Node) : Option FileTree := do
  let location ← tree.entry? path
  if (tree.root.at? location).isNone then
    some { tree with root := tree.root.set (some node) location }
  else none

/-- The tree with a folder at a path, unless one is there. -/
def addFolder? (tree : FileTree) (path : Path) : Option FileTree :=
  match tree.find? path with
  | some (.folder _) => some tree
  | _ => tree.add? path (.folder [])

/-- The paths of the folders that a path leads through to its last name, the outermost first. -/
def ancestors (path : Path) : List Path :=
  let names := (path.names.reverse.dropWhile fun name => name = [] ∨ name = here).reverse
  ((List.range names.length).map fun count => Path.ofComponents (names.take count)).filter
    (!·.bytes.isEmpty)

def addAncestors? (tree : FileTree) (path : Path) : Option FileTree :=
  (ancestors path).foldlM addFolder? tree

/-- The tree with a folder at a path, and with all that it lies in. An empty path asks for nothing. -/
def makeFolder? (tree : FileTree) (path : Path) : Option FileTree := do
  if path.bytes.isEmpty then return tree
  let tree ← tree.addAncestors? path
  tree.addFolder? path

def write? (tree : FileTree) (path : Path) (contents : Bytes) : Option FileTree := do
  let tree ← tree.addAncestors? path
  let location ← tree.locate? path true
  match tree.root.at? location with
  | some (.folder _) => none
  | _ => some { tree with root := tree.root.set (some (.file contents)) location }

def link? (tree : FileTree) (path : Path) (target : Path) : Option FileTree := do
  let tree ← tree.addAncestors? path
  if target.isUsable && !path.namesFolder then tree.add? path (.link target) else none

def remove? (tree : FileTree) (path : Path) : Option FileTree := do
  let location ← tree.entry? path
  let removed : FileTree := { tree with root := tree.root.set none location }
  match ← tree.root.at? location with
  | .folder _ => some removed
  | .file _ | .link _ => if path.namesFolder then none else some removed

end FileTree

end ContractPipeline.Storage
