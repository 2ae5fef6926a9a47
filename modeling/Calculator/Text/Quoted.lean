import Calculator.Text.DefaultIgnorable
import Calculator.Text.ExtendingMark
import Calculator.Text.Unprintable

namespace Calculator.Text

def codePointEscape (c : Char) : String :=
  "\\u\x7b" ++ String.ofList (Nat.toDigits 16 c.toNat) ++ "\x7d"

def isUnseen (c : Char) : Bool :=
  isUnprintable c || isExtendingMark c || isDefaultIgnorable c

def escape (c : Char) : String :=
  match c with
  | '\x00' => "\\0"
  | '\t' => "\\t"
  | '\n' => "\\n"
  | '\r' => "\\r"
  | '\'' => "\\'"
  | '\\' => "\\\\"
  | _ => if isUnseen c then codePointEscape c else c.toString

def quoted (c : Char) : String :=
  "'" ++ escape c ++ "'"

end Calculator.Text
