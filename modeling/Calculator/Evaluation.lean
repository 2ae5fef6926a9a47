import Calculator.Evaluator

namespace Calculator

inductive Mode where
  | lenient
  | strict
  deriving DecidableEq, Repr

instance : Inhabited Mode := ⟨.lenient⟩

def evaluate (source : String) : Float :=
  (Evaluator.ofString source).parse.1

def tryEvaluate (source : String) : Except Diagnostic Float :=
  (Evaluator.ofString source).tryParse.1

def evaluateWith (mode : Mode) (source : String) : Except Diagnostic Float :=
  match mode with
  | .lenient => .ok (evaluate source)
  | .strict => tryEvaluate source

end Calculator
