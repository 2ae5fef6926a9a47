import Calculator.Decimal.Shortest

namespace Calculator.Decimal

structure Layout where
  pointZero : Bool
  /-- The leading exponents that are written out in full; all of them when there is no range. -/
  fullRange : Option (Int × Int)

namespace Layout

def plain : Layout := ⟨false, none⟩

/-- Whole numbers marked by a point, and an exponent from `10 ^ 16` on and below `10 ^ -4`. -/
def marked : Layout := ⟨true, some (-4, 15)⟩

def isFull (layout : Layout) (leading : Int) : Bool :=
  match layout.fullRange with
  | none => true
  | some (least, greatest) => least ≤ leading && leading ≤ greatest

def zeros (n : Nat) : String :=
  String.ofList (List.replicate n '0')

def full (layout : Layout) (digits : List Char) (places : Int) : String :=
  if places ≤ 0 then
    "0." ++ zeros (-places).toNat ++ String.ofList digits
  else if digits.length ≤ places.toNat then
    String.ofList digits ++ zeros (places.toNat - digits.length) ++
      (if layout.pointZero then ".0" else "")
  else
    String.ofList (digits.take places.toNat) ++ "." ++ String.ofList (digits.drop places.toNat)

def scientific (digits : List Char) (leading : Int) : String :=
  String.ofList (digits.take 1) ++
    (if digits.length ≤ 1 then "" else "." ++ String.ofList (digits.drop 1)) ++
    "e" ++ toString leading

def write (layout : Layout) (d : Decimal) : String :=
  let digits := Nat.toDigits 10 d.digits
  let places := d.exponent + digits.length
  if layout.isFull (places - 1) then layout.full digits places
  else scientific digits (places - 1)

def float (layout : Layout) (value : Float) : String :=
  match Reading.ofFloat value with
  | .nan => "NaN"
  | .infinite negative => sign negative ++ "inf"
  | .finite negative magnitude => sign negative ++ layout.write magnitude.shortest
where
  sign (negative : Bool) : String := if negative then "-" else ""

end Layout

end Calculator.Decimal
