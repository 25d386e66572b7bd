/-! Lines of text with emphasis. A line is a list of spans, each of which knows how it stands out;
it can be written with its emphasis, for a terminal, or without. -/
namespace ContractPipeline.Text

inductive Emphasis
  | plain
  | strong
  | heading
  deriving DecidableEq, Repr

namespace Emphasis

/-- The control sequences in front of a span: bold, and for a heading underlined as well. -/
def opening : Emphasis → String
  | .plain => ""
  | .strong => "\x1b[1m"
  | .heading => "\x1b[1m\x1b[4m"

/-- The control sequence after a span, which ends its emphasis. -/
def closing : Emphasis → String
  | .plain => ""
  | .strong | .heading => "\x1b[0m"

end Emphasis

structure Span where
  emphasis : Emphasis
  text : String
  deriving DecidableEq, Repr

namespace Span

def plain (text : String) : Span :=
  ⟨.plain, text⟩

def strong (text : String) : Span :=
  ⟨.strong, text⟩

def heading (text : String) : Span :=
  ⟨.heading, text⟩

def emphasized (span : Span) : String :=
  span.emphasis.opening ++ span.text ++ span.emphasis.closing

end Span

abbrev Line := List Span

namespace Line

def text (line : Line) : String :=
  String.join (line.map Span.text)

def emphasized (line : Line) : String :=
  String.join (line.map Span.emphasized)

/-- How many characters of a line are seen. Control sequences take no room. -/
def width (line : Line) : Nat :=
  line.text.length

end Line

end ContractPipeline.Text
