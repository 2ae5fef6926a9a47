import Calculator.Text.Quoted

namespace Calculator

inductive Diagnostic where
  | unexpectedToken (found : String) (offset : Nat)
  | unexpectedEnd (offset : Nat)
  | invalidCharacter (character : Char) (offset : Nat)
  /-- No closing parenthesis where one was wanted for the group opened at `opened`. -/
  | unterminatedGroup (opened offset : Nat)
  | nestingTooDeep (limit offset : Nat)
  | trailingToken (found : String) (offset : Nat)
  deriving DecidableEq, Repr

namespace Diagnostic

def offset : Diagnostic → Nat
  | unexpectedToken _ offset => offset
  | unexpectedEnd offset => offset
  | invalidCharacter _ offset => offset
  | unterminatedGroup _ offset => offset
  | nestingTooDeep _ offset => offset
  | trailingToken _ offset => offset

def explanation : Diagnostic → String
  | unexpectedToken found _ => "Unexpected token: " ++ found ++ "."
  | unexpectedEnd _ => "Unexpected end of input."
  | invalidCharacter character _ => "Invalid character " ++ Text.quoted character ++ "."
  | unterminatedGroup opened _ =>
    "Expected closing parenthesis ')' for the '(' at offset " ++ toString opened ++
      " but none found."
  | nestingTooDeep limit _ => "Parentheses nested deeper than " ++ toString limit ++ " levels."
  | trailingToken found _ => "Extra tokens after expression: " ++ found ++ "."

def message (d : Diagnostic) : String :=
  "Error at offset " ++ toString d.offset ++ ": " ++ d.explanation

end Diagnostic

end Calculator
