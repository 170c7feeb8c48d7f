import BlockMachine.Number.Binary64
import BlockMachine.Text.Blank
import BlockMachine.Text.Digit

namespace BlockMachine.Numeral

/-- The number nearest to `± coefficient * 10 ^ exponent`. Exponents far out of range are decided
without the power. -/
def nearest (negative : Bool) (coefficient : Nat) (exponent : Int) : Binary64 :=
  let size := exponent + (Nat.toDigits 10 coefficient).length
  if coefficient = 0 ∨ size < -400 then .finite negative 0 0
  else if 400 < size then .infinite negative
  else .ofRatio negative (coefficient * Nat.pow 10 exponent.toNat) (Nat.pow 10 (-exponent).toNat)

/-- A sign at the front, and what follows it. -/
def takeSign : List Char → Bool × List Char
  | '-' :: cs => (true, cs)
  | '+' :: cs => (false, cs)
  | cs => (false, cs)

/-- The digits at the front as values, and what follows them. -/
def takeDigits (value? : Char → Option Nat) : List Char → List Nat × List Char
  | [] => ([], [])
  | c :: cs =>
    match value? c with
    | some d => let (ds, rest) := takeDigits value? cs; (d :: ds, rest)
    | none => ([], c :: cs)

/-- What stands behind the mantissa: nothing, or an exponent with at least one digit. -/
def exponent? (value? : Char → Option Nat) : List Char → Option Int
  | [] => some 0
  | c :: cs =>
    if c = 'e' ∨ c = 'E' then
      let (negative, rest) := takeSign cs
      match takeDigits value? rest with
      | (d :: ds, []) =>
        let n : Int := Text.ofDigits (d :: ds)
        some (if negative then -n else n)
      | _ => none
    else none

/-- The digits behind a point, and what follows them. -/
def takeFraction (value? : Char → Option Nat) : List Char → List Nat × List Char
  | '.' :: cs => takeDigits value? cs
  | cs => ([], cs)

/-- An unsigned numeral with at least one digit in front of its exponent. -/
def decimal? (value? : Char → Option Nat) (negative : Bool) (cs : List Char) : Option Binary64 :=
  let (whole, afterWhole) := takeDigits value? cs
  let (fraction, rest) := takeFraction value? afterWhole
  if whole.isEmpty && fraction.isEmpty then none
  else (exponent? value? rest).map fun e =>
    nearest negative (Text.ofDigits (whole ++ fraction)) (e - fraction.length)

def word? (negative : Bool) (cs : List Char) : Option Binary64 :=
  let word := String.ofList (cs.map Char.toLower)
  if word = "inf" ∨ word = "infinity" then some (.infinite negative)
  else if word = "nan" then some .nan
  else none

/-- A whole numeral in digits of the kind `value?` knows. -/
def read? (value? : Char → Option Nat) (cs : List Char) : Option Binary64 :=
  let (negative, rest) := takeSign cs
  match word? negative rest with
  | some x => some x
  | none => decimal? value? negative rest

def asciiDigit? (c : Char) : Option Nat :=
  if c.isDigit then some (c.toNat - '0'.toNat) else none

/-- Blanks that may surround a numeral: all but the four information separators. -/
def isMargin (c : Char) : Bool := Text.isBlank c && !(0x1c ≤ c.toNat && c.toNat ≤ 0x1f)

def dropMargins (cs : List Char) : List Char :=
  ((cs.dropWhile isMargin).reverse.dropWhile isMargin).reverse

/-- Every `_` has a digit on both sides; `before` says whether the last character was a digit. -/
def groupsDigits (isDigit : Char → Bool) : Bool → List Char → Bool
  | _, [] => true
  | before, '_' :: c :: cs => before && isDigit c && groupsDigits isDigit true cs
  | _, ['_'] => false
  | _, c :: cs => groupsDigits isDigit (isDigit c) cs

/-- A number as an author writes it in a field: digits of any script, `_` between digits. -/
def ofField? (s : String) : Option Binary64 :=
  let cs := dropMargins s.toList
  if groupsDigits Text.isDecimalDigit false cs then
    read? Text.digitValue? (cs.filter (· != '_'))
  else none

/-- No `_` at either end and no two together. -/
def hasLoneUnderscores (cs : List Char) : Bool :=
  cs.head? != some '_' && cs.getLast? != some '_' &&
    !(cs.zip cs.tail).any fun p => p.1 == '_' && p.2 == '_'

/-- A number saved as text: plain digits, with blanks around it or `_` inside it. -/
def ofSaved? (s : String) : Option Binary64 :=
  match read? asciiDigit? (dropMargins s.toList) with
  | some x => some x
  | none =>
    if hasLoneUnderscores s.toList then read? asciiDigit? (s.toList.filter (· != '_')) else none

end BlockMachine.Numeral
