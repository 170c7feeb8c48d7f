namespace BlockMachine

/-- `finite negative m p` is `± m * 2 ^ p` units. -/
inductive Binary64 where
  | nan
  | infinite (negative : Bool)
  | finite (negative : Bool) (mantissa power : Nat)
deriving DecidableEq, Repr

namespace Binary64

def twoPow (n : Nat) : Nat := Nat.pow 2 n

def unitsPerOne : Nat := twoPow 1074

/-- The largest power of two, in units, that a finite number can have beside its mantissa. -/
def maxPower : Nat := 2045

/-- The integer nearest to `num / den`; a tie goes to the even one. -/
def nearest (num den : Nat) : Nat :=
  let low := num / den
  let rest := 2 * (num % den)
  if rest < den then low
  else if den < rest then low + 1
  else low + low % 2

/-- Mantissa and power of `num / den` units, rounded to 53 bits with ties to even. -/
def roundUnits (num den : Nat) : Nat × Nat :=
  let power := (num / den).log2 - 52
  let mantissa := nearest num (den * twoPow power)
  if mantissa = twoPow 53 then (twoPow 52, power + 1) else (mantissa, power)

/-- The number nearest to `± num / den`; infinite when it is out of range. -/
def ofRatio (negative : Bool) (num den : Nat) : Binary64 :=
  let rounded := roundUnits (num * unitsPerOne) den
  if rounded.2 ≤ maxPower then .finite negative rounded.1 rounded.2 else .infinite negative

def zero : Binary64 := .finite false 0 0

def ofNat (n : Nat) : Binary64 := ofRatio false n 1

def finite? : Binary64 → Option Binary64
  | .finite negative m p => some (.finite negative m p)
  | _ => none

/-- An integer rounded to the nearest number, unless it is out of range. -/
def ofInt? (n : Int) : Option Binary64 := (ofRatio (n < 0) n.natAbs 1).finite?

def ofBool (b : Bool) : Binary64 := ofNat (if b then 1 else 0)

/-- Less than zero; a negative zero is not. -/
def isNegative : Binary64 → Bool
  | .nan => false
  | .infinite negative => negative
  | .finite negative m _ => negative && m != 0

def isZero : Binary64 → Bool
  | .finite _ m _ => m == 0
  | _ => false

/-- The integer that a finite number with no fraction equals. -/
def toInt? : Binary64 → Option Int
  | .finite negative m p =>
    let units := m * twoPow p
    if units % unitsPerOne = 0 then
      let n : Int := (units / unitsPerOne : Nat)
      some (if negative then -n else n)
    else none
  | _ => none

end Binary64
end BlockMachine
