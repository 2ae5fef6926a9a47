import Calculator.Evaluation

namespace Calculator.CommandLine

inductive Flag where
  | file
  | strict
  | help
  | version
  deriving DecidableEq, Repr

def Flag.ofName? : String → Option Flag
  | "file" => some file
  | "strict" => some strict
  | "help" => some help
  | "version" => some version
  | _ => none

def Flag.ofLetter? : Char → Option Flag
  | 'f' => some file
  | 's' => some strict
  | 'h' => some help
  | 'V' => some version
  | _ => none

inductive Command where
  | help
  | version
  | evaluate (contents : String) (fromFile : Bool) (mode : Mode)
  | misuse
  deriving DecidableEq, Repr

structure Request where
  contents : Option String
  fromFile : Bool
  strict : Bool
  deriving DecidableEq, Repr

namespace Request

def blank : Request := ⟨none, false, false⟩

def flag (r : Request) : Flag → Except Command Request
  | .help => .error .help
  | .version => .error .version
  | .file => if r.fromFile then .error .misuse else .ok { r with fromFile := true }
  | .strict => if r.strict then .error .misuse else .ok { r with strict := true }

def positional (r : Request) (text : String) : Except Command Request :=
  match r.contents with
  | none => .ok { r with contents := some text }
  | some _ => .error .misuse

/-- Letters behind one dash are flags each; a dash alone is no flag. -/
def argument (r : Request) (text : String) : Except Command Request :=
  match text.toList with
  | '-' :: '-' :: name => (Flag.ofName? (String.ofList name)).elim (.error .misuse) r.flag
  | '-' :: letter :: letters =>
    (letter :: letters).foldlM (fun r c => (Flag.ofLetter? c).elim (.error .misuse) r.flag) r
  | _ => r.positional text

def arguments (r : Request) : List String → Except Command Request
  | [] => .ok r
  | text :: others =>
    if text = "--" then others.foldlM positional r
    else
      match r.argument text with
      | .ok s => s.arguments others
      | .error command => .error command

def command (r : Request) : Command :=
  match r.contents with
  | none => .misuse
  | some contents => .evaluate contents r.fromFile (if r.strict then .strict else .lenient)

end Request

def Command.ofArguments (arguments : List String) : Command :=
  match Request.blank.arguments arguments with
  | .ok request => request.command
  | .error command => command

def Command.file? : Command → Option String
  | evaluate contents true _ => some contents
  | _ => none

structure Outcome where
  status : Nat
  output : String
  errors : String
  deriving DecidableEq, Repr

def lines (texts : List String) : String :=
  String.join (texts.map fun text => text ++ "\n")

def helpText : String :=
  lines [
    "A single-pass recursive-descent evaluator for arithmetic expressions.",
    "",
    "Usage: arithex [OPTIONS] <CONTENTS>",
    "",
    "Arguments:",
    "  <CONTENTS>  ",
    "",
    "Options:",
    "  -f, --file     Tells arithex to read the expression from a file instead",
    "  -s, --strict   Reject malformed input instead of recovering from it",
    "  -h, --help     Print help",
    "  -V, --version  Print version"]

def versionText : String :=
  lines ["arithex 0.1.0"]

def usageText : String :=
  lines [
    "error: unexpected arguments",
    "",
    "Usage: arithex [OPTIONS] <CONTENTS>",
    "",
    "For more information, try '--help'."]

def unreadableText (file : String) : String :=
  lines ["Failed to read the input file '" ++ file ++ "'. Perhaps this file does not exist?"]

def Outcome.ofResult : Except Diagnostic Float → Outcome
  | .ok value => ⟨0, lines [Decimal.Layout.plain.float value], ""⟩
  | .error d => ⟨1, "", lines [d.message]⟩

/-- Carries out a command, given the bytes of the file that it wants to read if there are any. A
file is read only as the text that its bytes encode. -/
def Command.run (command : Command) (bytes : Option ByteArray) : Outcome :=
  match command with
  | help => ⟨0, helpText, ""⟩
  | version => ⟨0, versionText, ""⟩
  | misuse => ⟨2, "", usageText⟩
  | evaluate contents false mode => .ofResult (evaluateWith mode contents)
  | evaluate contents true mode =>
    match bytes.bind String.fromUTF8? with
    | some source => .ofResult (evaluateWith mode source)
    | none => ⟨1, "", unreadableText contents⟩

end Calculator.CommandLine
