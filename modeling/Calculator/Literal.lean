namespace Calculator.Literal

def digit (c : Char) : Nat :=
  c.toNat - '0'.toNat

/-- The float that digits stand for, rounded after each of them; other characters do not count. -/
def value (text : String) : Float :=
  (text.toList.filter Char.isDigit).foldl (fun v c => v * 10 + Float.ofNat (digit c)) 0

def whole (text : String) : Nat :=
  (text.toList.filter Char.isDigit).foldl (fun n c => n * 10 + digit c) 0

theorem digit_lt {c : Char} (h : c.isDigit = true) : digit c < 10 := by
  simp only [Char.isDigit, Bool.and_eq_true, decide_eq_true_eq] at h
  have : c.toNat ≤ '9'.toNat := h.2
  simp only [digit]
  have : ('9' : Char).toNat = 57 := rfl
  have : ('0' : Char).toNat = 48 := rfl
  omega

end Calculator.Literal
