import Calculator.Diagnostic
import Calculator.Tokenizer

namespace Calculator

inductive Event where
  | scanned (lexeme : Lexeme)
  | applied (left : Float) (op : Operator) (right : Float)
  | reported (diagnostic : Diagnostic)
  deriving DecidableEq, Repr

inductive Severity where
  | trace
  | warning
  deriving DecidableEq, Repr

namespace Event

def severity : Event → Severity
  | scanned _ | applied .. => .trace
  | reported _ => .warning

def message : Event → String
  | scanned l => "token " ++ l.token.label ++ " at " ++ toString l.start ++ ".." ++ toString l.stop
  | applied left op right =>
    Decimal.Layout.plain.float left ++ " " ++ op.symbol ++ " " ++ Decimal.Layout.plain.float right
  | reported d => d.message

def diagnostic? : Event → Option Diagnostic
  | reported d => some d
  | _ => none

/-- The end of the input is looked ahead to in silence. -/
def ofLookahead (l : Lexeme) : List Event :=
  if l.isEnd then [] else [scanned l]

end Event

end Calculator
