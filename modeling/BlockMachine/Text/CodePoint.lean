namespace BlockMachine.Text

/-- Half of a surrogate pair. -/
def isHalf (n : Nat) : Bool := 0xd800 ≤ n && n < 0xe000

/-- The character that tells that the next one stands for something else. -/
def mark : Char := Char.ofNat 0x10ffff

/-- What stands behind the mark for the mark itself. -/
def markTail : Char := Char.ofNat 0xe800

/-- The code point that a character behind the mark stands for. -/
def marked? (c : Char) : Option Nat :=
  if isHalf (c.toNat - 0x800) then some (c.toNat - 0x800)
  else if c = markTail then some mark.toNat
  else none

def spelling (n : Nat) : List Char :=
  if isHalf n then [mark, Char.ofNat (n + 0x800)]
  else if n = mark.toNat then [mark, markTail]
  else [Char.ofNat n]

def points : List Char → List Nat
  | [] => []
  | [c] => [c.toNat]
  | c :: d :: cs =>
    match (if c = mark then marked? d else none) with
    | some n => n :: points cs
    | none => c.toNat :: points (d :: cs)

/-- A character for each code point; for half of a surrogate pair it is the null character. -/
def chars (cs : List Char) : List Char := (points cs).map Char.ofNat

/-- Half of a surrogate pair has no encoding. -/
def isEncodable (cs : List Char) : Bool := (points cs).all fun n => !isHalf n

end BlockMachine.Text
