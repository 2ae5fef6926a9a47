import Calculator.Decimal.Layout

namespace Calculator

inductive Operator where
  | add
  | sub
  | mul
  | div
  deriving DecidableEq, Repr

namespace Operator

def symbol : Operator → String
  | add => "+"
  | sub => "-"
  | mul => "*"
  | div => "/"

def apply : Operator → Float → Float → Float
  | add, left, right => left + right
  | sub, left, right => left - right
  | mul, left, right => left * right
  | div, left, right => left / right

def isAdditive : Operator → Bool
  | add | sub => true
  | mul | div => false

end Operator

inductive Token where
  | number (value : Float)
  | operator (op : Operator)
  | leftParen
  | rightParen
  | endOfInput
  | invalid (character : Char)
  deriving DecidableEq, Repr

namespace Token

def isEnd : Token → Bool
  | endOfInput => true
  | _ => false

def additive? : Token → Option Operator
  | operator op => if op.isAdditive then some op else none
  | _ => none

def multiplicative? : Token → Option Operator
  | operator op => if op.isAdditive then none else some op
  | _ => none

theorem isEnd_iff (t : Token) : t.isEnd = true ↔ t = endOfInput := by
  cases t <;> simp [isEnd]

theorem additive?_eq_some {t : Token} {op : Operator} :
    t.additive? = some op ↔ t = operator op ∧ (op = .add ∨ op = .sub) := by
  cases t with
  | operator other => cases other <;> cases op <;> simp [additive?, Operator.isAdditive]
  | _ => simp [additive?]

theorem multiplicative?_eq_some {t : Token} {op : Operator} :
    t.multiplicative? = some op ↔ t = operator op ∧ (op = .mul ∨ op = .div) := by
  cases t with
  | operator other => cases other <;> cases op <;> simp [multiplicative?, Operator.isAdditive]
  | _ => simp [multiplicative?]

theorem multiplicative?_eq_none {t : Token} {op : Operator} (h : t.additive? = some op) :
    t.multiplicative? = none := by
  obtain ⟨rfl, hop⟩ := additive?_eq_some.mp h
  rcases hop with rfl | rfl <;> rfl

/-- The token as messages speak of it. -/
def describe : Token → String
  | number value => "number " ++ Decimal.Layout.plain.float value
  | operator op => "'" ++ op.symbol ++ "'"
  | leftParen => "'('"
  | rightParen => "')'"
  | endOfInput => "end of input"
  | invalid _ => "invalid character"

/-- The token as the log speaks of it. -/
def label : Token → String
  | number value => "Number(" ++ Decimal.Layout.marked.float value ++ ")"
  | operator .add => "Plus"
  | operator .sub => "Minus"
  | operator .mul => "Star"
  | operator .div => "Slash"
  | leftParen => "LParen"
  | rightParen => "RParen"
  | endOfInput => "EndOfFile"
  | invalid _ => "Invalid"

end Token

end Calculator
