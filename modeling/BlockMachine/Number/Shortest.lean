import BlockMachine.Number.Binary64

namespace BlockMachine.Binary64

/-- A multiple of a power of ten. -/
structure Decimal where
  coefficient : Nat
  exponent : Int

/-- Whether `c * den / scale` units reads back as the number of `mantissa` and `power`, whose own
value is `num / scale` units. The gap below a power of two is half the gap above it. -/
def readsBack (mantissa power num den scale c : Nat) : Bool :=
  let gap := twoPow power * scale
  let below := if mantissa = twoPow 52 ∧ power ≠ 0 then gap else 2 * gap
  let excess := if c * den < num then 4 * (num - c * den) else 4 * (c * den - num)
  let limit := if c * den < num then below else 2 * gap
  if mantissa % 2 = 0 then excess ≤ limit else excess < limit

/-- The multiple of `10 ^ exponent` nearest to the number, among those that read back as it; a tie
goes to the even one. -/
def decimalAt? (mantissa power : Nat) (exponent : Int) : Option Decimal :=
  let scale := Nat.pow 10 (-exponent).toNat
  let num := mantissa * twoPow power * scale
  let den := unitsPerOne * Nat.pow 10 exponent.toNat
  let low := num / den
  let reads := readsBack mantissa power num den scale
  match reads low, reads (low + 1) with
  | true, true => some ⟨nearest num den, exponent⟩
  | true, false => some ⟨low, exponent⟩
  | false, true => some ⟨low + 1, exponent⟩
  | false, false => none

/-- The first exponent at or below `top` that has a decimal reading back as the number. -/
def scanDown (mantissa power : Nat) : Nat → Int → Decimal
  | 0, top => ⟨0, top⟩
  | steps + 1, top =>
    match decimalAt? mantissa power top with
    | some d => d
    | none => scanDown mantissa power steps (top - 1)

def decimalLength (n : Nat) : Nat := (Nat.toDigits 10 n).length

/-- The scan ends: at the exponent `-1074` the number itself is on the grid. -/
def shortest (mantissa power : Nat) : Decimal :=
  let top := decimalLength (mantissa * twoPow power / unitsPerOne)
  scanDown mantissa power (top + 1075) top

end BlockMachine.Binary64
