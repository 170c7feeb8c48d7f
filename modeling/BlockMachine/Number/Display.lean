import BlockMachine.Number.Shortest

namespace BlockMachine.Binary64

/-- A number whose leading digit has one of these exponents is written without an exponent. -/
def isPositional (exponent : Int) : Bool := -4 ≤ exponent && exponent < 16

/-- At least two digits, behind a sign. -/
def exponentText (exponent : Int) : List Char :=
  let digits := Nat.toDigits 10 exponent.natAbs
  (if exponent < 0 then '-' else '+') :: (if digits.length < 2 then '0' :: digits else digits)

/-- Digits with the point behind the first `whole` of them; there is a digit on each side. -/
def positionalText (digits : List Char) (whole : Int) : List Char :=
  if whole ≤ 0 then '0' :: '.' :: (List.replicate (-whole).toNat '0' ++ digits)
  else
    let n := whole.toNat
    let fraction := digits.drop n
    digits.take n ++ List.replicate (n - digits.length) '0' ++
      '.' :: (if fraction.isEmpty then ['0'] else fraction)

def scientificText (digits : List Char) (exponent : Int) : List Char :=
  let mantissa := match digits with
    | d :: e :: rest => d :: '.' :: e :: rest
    | short => short
  mantissa ++ 'e' :: exponentText exponent

def Decimal.text (d : Decimal) : List Char :=
  let digits := Nat.toDigits 10 d.coefficient
  let exponent := d.exponent + digits.length - 1
  if isPositional exponent then positionalText digits (exponent + 1)
  else scientificText digits exponent

def magnitudeText (mantissa power : Nat) : List Char :=
  if mantissa = 0 then ['0', '.', '0'] else (shortest mantissa power).text

def display : Binary64 → String
  | .nan => "nan"
  | .infinite negative => if negative then "-inf" else "inf"
  | .finite negative m p =>
    .ofList (if negative then '-' :: magnitudeText m p else magnitudeText m p)

end BlockMachine.Binary64
