import HeadJob.Terminal.Sequence

/-!
Text of which parts stand out on a terminal.

A style is a control sequence in front of the part and one behind it.  They go out only if the
environment insists; otherwise all sequences are taken out again, those within the parts included.
-/

namespace HeadJob

inductive Style where
  | plain
  /-- The word that tells of a failure. -/
  | failure
  /-- What the user gave and cannot be used. -/
  | invalid
  /-- What is to be typed as it stands. -/
  | literal
  deriving DecidableEq, Repr

namespace Style

/-- Bold and red, yellow, or bold. -/
def opening : Style → String
  | plain => ""
  | failure => "\x1b[1m\x1b[31m"
  | invalid => "\x1b[33m"
  | literal => "\x1b[1m"

def closing : Style → String
  | plain => ""
  | _ => "\x1b[0m"

end Style

/-- A text in parts, each with its style. -/
abbrev StyledText := List (Style × String)

namespace StyledText

def withStyles (t : StyledText) : String :=
  String.join (t.map fun (style, part) => style.opening ++ part ++ style.closing)

/-- The text without styles, and without any sequence that came with its parts. -/
def withoutStyles (t : StyledText) : String :=
  String.ofList (Sequence.outside.visible t.withStyles.toList)

/-- Whether the environment insists on styles where output goes to no terminal. -/
def insisted (environment : List (String × String)) : Bool :=
  (environment.lookup "NO_COLOR").getD "" == "" &&
    (environment.lookup "CLICOLOR_FORCE").getD "0" != "0"

def output (environment : List (String × String)) (t : StyledText) : String :=
  if insisted environment then t.withStyles else t.withoutStyles

end StyledText
end HeadJob
