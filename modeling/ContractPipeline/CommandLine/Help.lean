import ContractPipeline.CommandLine.Grammar
import ContractPipeline.Environment
import ContractPipeline.Text.Styled

/-! Help texts, laid out from the tree of commands as lines with emphasis, and printed with it where
the environment asks for that. -/
namespace ContractPipeline.CommandLine

open Text (Line Span)

def blanks (width length : Nat) : String :=
  String.ofList (List.replicate (width - length) ' ')

def pad (width : Nat) (text : String) : String :=
  text ++ blanks width text.length

/-- Lines of terms and what they are about, in two columns. -/
def columns (rows : List (Line × String)) : List Line :=
  let width := rows.foldl (fun width row => max width row.1.width) 0
  rows.map fun (term, about) =>
    .plain "  " :: term ++ [.plain (blanks width term.width ++ "  " ++ about)]

/-- A titled block after an empty line, unless it has no rows. -/
def block (title : String) (rows : List (Line × String)) : List Line :=
  if rows.isEmpty then [] else [] :: [.heading title] :: columns rows

def helpAbout : String :=
  "Print this message or the help of the given subcommand(s)"

def placeholder (valueName : String) : String :=
  "<" ++ valueName ++ ">"

def optionNames (short : Char) (long : String) : Line :=
  [.strong (String.ofList ['-', short]), .plain ", ", .strong ("--" ++ long)]

def optionRow (option : OptionSpec) : Line × String :=
  (optionNames option.short option.long ++ [.plain (" " ++ placeholder option.valueName)],
    option.about)

def helpRow : Line × String := (optionNames 'h' "help", "Print help")

def versionRow : Line × String := (optionNames 'V' "version", "Print version")

def usageLine (path takes : List String) : Line :=
  [.heading "Usage:", .plain " ", .strong (" ".intercalate path)] ++
    takes.map fun value => .plain (" " ++ value)

def usage {α : Type} (path : List String) (spec : Spec α) : Line :=
  usageLine path <|
    match spec with
    | .leaf _ _ leaf =>
      (leaf.option?.map fun _ => "[OPTIONS]").toList ++
        (leaf.argument?.map fun argument => placeholder argument.valueName).toList
    | .group _ _ _ _ => [placeholder "COMMAND"]

def blocks {α : Type} : Spec α → List Line
  | .leaf _ _ leaf =>
    block "Arguments:" (leaf.argument?.map fun argument =>
      ([.plain (placeholder argument.valueName)], argument.about)).toList ++
    block "Options:" ((leaf.option?.map optionRow).toList ++ [helpRow])
  | .group _ _ version? members =>
    block "Commands:" (members.map (fun member => ([.strong member.name], member.about)) ++
      [([.strong helpName], helpAbout)]) ++
    block "Options:" (helpRow :: (version?.map fun _ => versionRow).toList)

def helpText {α : Type} (path : List String) (spec : Spec α) : List Line :=
  [[.plain spec.about], [], usage path spec] ++ blocks spec

def aboutHelpText (path : List String) : List Line :=
  [[.plain helpAbout], [], usageLine path ["[COMMAND]..."]] ++
    block "Arguments:" [([.plain "[COMMAND]..."], "Print help for the subcommand(s)")]

/-- The variable that forbids emphasis. -/
def noColorKey : String := "NO_COLOR"

/-- The variable that asks for emphasis where no terminal shows the text. -/
def forceColorKey : String := "CLICOLOR_FORCE"

/-- Whether help texts are printed with emphasis into a file or a pipe. They are where that is asked
for and not forbidden; any value but the empty one counts. -/
def wantsEmphasis (env : Environment) : Bool :=
  env.isSwitchedOn forceColorKey && !env.isSwitchedOn noColorKey

def unlines (lines : List String) : String :=
  String.join (lines.map (· ++ "\n"))

def printed (env : Environment) (lines : List Line) : String :=
  unlines (lines.map (if wantsEmphasis env then Line.emphasized else Line.text))

end ContractPipeline.CommandLine
