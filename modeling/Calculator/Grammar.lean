import Calculator.Tokenizer

/-!
The grammar of expressions. Products bind more tightly than sums, operators of one kind are grouped
to the left, and a bound is kept on the nesting of groups.
-/

namespace Calculator

inductive Expr where
  | literal (text : String) (value : Float)
  | binary (op : Operator) (left right : Expr)
  deriving DecidableEq, Repr

def Expr.value : Expr → Float
  | literal _ value => value
  | binary op left right => op.apply left.value right.value

inductive Nonterminal where
  | expression
  | term
  | factor
  deriving DecidableEq, Repr

/-- `Derives n depth ls e` holds when the lexemes `ls` spell the expression `e` as an `n` whose
groups are nested at most `depth` deep. -/
inductive Derives : Nonterminal → Nat → List Lexeme → Expr → Prop where
  | number {depth : Nat} {l : Lexeme} {value : Float} :
      l.token = .number value → Derives .factor depth [l] (.literal l.text value)
  | group {depth : Nat} {opening closing : Lexeme} {ls : List Lexeme} {e : Expr} :
      opening.token = .leftParen → closing.token = .rightParen →
      Derives .expression depth ls e → Derives .factor (depth + 1) (opening :: ls ++ [closing]) e
  | factor {depth : Nat} {ls : List Lexeme} {e : Expr} :
      Derives .factor depth ls e → Derives .term depth ls e
  | product {depth : Nat} {left right : List Lexeme} {l : Lexeme} {op : Operator} {e f : Expr} :
      l.token = .operator op → op = .mul ∨ op = .div →
      Derives .term depth left e → Derives .factor depth right f →
      Derives .term depth (left ++ l :: right) (.binary op e f)
  | term {depth : Nat} {ls : List Lexeme} {e : Expr} :
      Derives .term depth ls e → Derives .expression depth ls e
  | sum {depth : Nat} {left right : List Lexeme} {l : Lexeme} {op : Operator} {e f : Expr} :
      l.token = .operator op → op = .add ∨ op = .sub →
      Derives .expression depth left e → Derives .term depth right f →
      Derives .expression depth (left ++ l :: right) (.binary op e f)

end Calculator
