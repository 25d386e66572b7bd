/-! Command lines: a tree of named commands, each with at most one option and one argument, and how
a list of words is read along it. -/
namespace ContractPipeline.CommandLine

structure OptionSpec where
  short : Char
  long : String
  valueName : String
  about : String
  accepts : String → Bool

structure ArgumentSpec where
  valueName : String
  about : String

/-- What a command takes, and the command of type `α` that its values make. -/
structure LeafSpec (α : Type) where
  option? : Option OptionSpec
  argument? : Option ArgumentSpec
  make : (option argument : Option String) → Option α

/-- A command, or a group of commands, with its name and what it is about. -/
inductive Spec (α : Type)
  | leaf (name about : String) (spec : LeafSpec α)
  | group (name about : String) (version? : Option String) (members : List (Spec α))

namespace Spec

variable {α : Type}

def name : Spec α → String
  | .leaf name _ _ | .group name _ _ _ => name

def about : Spec α → String
  | .leaf _ about _ | .group _ about _ _ => about

def member? (members : List (Spec α)) (name : String) : Option (Spec α) :=
  members.find? (·.name == name)

end Spec

/-- What a command line asks for. Help is about the command at the end of a path. -/
inductive Parsed (α : Type)
  | command (command : α)
  | help (path : List String) (spec : Spec α)
  | aboutHelp (path : List String)
  | version (text : String)
  | misuse

/-- A word of a command line: the end of options, a long option with what follows an equals sign,
short options, or a value. -/
inductive Word
  | endOfOptions
  | long (name : String) (value? : Option String)
  | short (first : Char) (rest : List Char)
  | value (text : String)
  deriving DecidableEq, Repr

/-- The kind of a word. A hyphen alone is a value. -/
def Word.ofString (text : String) : Word :=
  match text.toList with
  | ['-', '-'] => .endOfOptions
  | '-' :: '-' :: rest =>
    .long (String.ofList (rest.takeWhile (· != '='))) <|
      (rest.dropWhile (· != '=')).tail?.map String.ofList
  | '-' :: first :: rest => .short first rest
  | _ => .value text

def helpName : String := "help"

def versionName : String := "version"

/-- The values that a command was given so far. An option that was named waits for its value. -/
structure Values where
  option? : Option String
  waiting : Bool
  argument? : Option String

namespace LeafSpec

variable {α : Type}

def noValues : Values :=
  ⟨none, false, none⟩

/-- The values with one for the option. An option is given at most once. -/
def giveOption? (spec : LeafSpec α) (values : Values) (text : String) : Option Values :=
  match spec.option?, values.option? with
  | some option, none =>
    if option.accepts text then some { values with option? := some text, waiting := false }
    else none
  | _, _ => none

def giveArgument? (spec : LeafSpec α) (values : Values) (text : String) : Option Values :=
  match spec.argument?, values.argument? with
  | some _, none => some { values with argument? := some text }
  | _, _ => none

def finish (spec : LeafSpec α) (values : Values) : Parsed α :=
  if values.waiting then .misuse
  else
    match spec.make values.option? values.argument? with
    | some command => .command command
    | none => .misuse

def hasLong (spec : LeafSpec α) (name : String) : Bool :=
  spec.option?.any (·.long == name)

def hasShort (spec : LeafSpec α) (name : Char) : Bool :=
  spec.option?.any (·.short == name)

/-- The value that is attached to a short option, an equals sign left out. -/
def attached : List Char → String
  | '=' :: text | text => String.ofList text

/-- Reads words after the end of options. -/
def readArguments (spec : LeafSpec α) (values : Values) : List String → Parsed α
  | [] => spec.finish values
  | text :: texts =>
    match spec.giveArgument? values text with
    | some values => spec.readArguments values texts
    | none => .misuse

def read (spec : LeafSpec α) (help : Parsed α) (values : Values) : List String → Parsed α
  | [] => spec.finish values
  | text :: texts =>
    match Word.ofString text with
    | .value text =>
      let given := if values.waiting then spec.giveOption? values text
        else spec.giveArgument? values text
      match given with
      | some values => spec.read help values texts
      | none => .misuse
    | .endOfOptions => if values.waiting then .misuse else spec.readArguments values texts
    | .long name value? =>
      if values.waiting then .misuse
      else if name = helpName then if value?.isNone then help else .misuse
      else if spec.hasLong name then
        match value? with
        | none => spec.read help { values with waiting := true } texts
        | some text =>
          match spec.giveOption? values text with
          | some values => spec.read help values texts
          | none => .misuse
      else .misuse
    | .short first rest =>
      if values.waiting then .misuse
      else if first = 'h' then help
      else if spec.hasShort first then
        if rest.isEmpty then spec.read help { values with waiting := true } texts
        else
          match spec.giveOption? values (attached rest) with
          | some values => spec.read help values texts
          | none => .misuse
      else .misuse

end LeafSpec

/-- The command that words lead to, for which help is asked. -/
def findHelp {α : Type} (path : List String) : Spec α → List String → Parsed α
  | spec, [] => .help path spec
  | .leaf _ _ _, _ :: _ => .misuse
  | .group _ _ _ members, name :: names =>
    if name = helpName then if names.isEmpty then .aboutHelp (path ++ [name]) else .misuse
    else
      match Spec.member? members name with
      | some spec => findHelp (path ++ [name]) spec names
      | none => .misuse

def groupFlag {α : Type} (help : Parsed α) (version? : Option String) (asksHelp asksVersion : Bool) :
    Parsed α :=
  if asksHelp then help
  else if asksVersion then
    match version? with
    | some text => .version text
    | none => .misuse
  else .misuse

def parse {α : Type} (path : List String) : Spec α → List String → Parsed α
  | .leaf name about spec, texts =>
    spec.read (.help path (.leaf name about spec)) LeafSpec.noValues texts
  | .group _ _ _ _, [] => .misuse
  | .group name about version? members, text :: texts =>
    let help := .help path (.group name about version? members)
    match Word.ofString text with
    | .endOfOptions => .misuse
    | .long flag value? =>
      if value?.isSome then .misuse
      else groupFlag help version? (flag == helpName) (flag == versionName)
    | .short first _ => groupFlag help version? (first == 'h') (first == 'V')
    | .value word =>
      if word = helpName then findHelp path (.group name about version? members) texts
      else
        match Spec.member? members word with
        | some spec => parse (path ++ [word]) spec texts
        | none => .misuse

end ContractPipeline.CommandLine
