namespace BlockMachine.Text

/-- Membership in a list of closed ranges of code points. -/
def inRanges (ranges : List (Nat × Nat)) (c : Char) : Bool :=
  ranges.any fun r => r.1 ≤ c.toNat && c.toNat ≤ r.2

def blankRanges : List (Nat × Nat) :=
  [(0x09, 0x0d), (0x1c, 0x20), (0x85, 0x85), (0xa0, 0xa0), (0x1680, 0x1680), (0x2000, 0x200a),
    (0x2028, 0x2029), (0x202f, 0x202f), (0x205f, 0x205f), (0x3000, 0x3000)]

/-- The characters that count as white space. -/
def isBlank (c : Char) : Bool := inRanges blankRanges c

def lineBreakRanges : List (Nat × Nat) :=
  [(0x0a, 0x0d), (0x1c, 0x1e), (0x85, 0x85), (0x2028, 0x2029)]

/-- The characters after which a new line starts. -/
def isLineBreak (c : Char) : Bool := inRanges lineBreakRanges c

def trimLeft (cs : List Char) : List Char := cs.dropWhile isBlank

def trimRight (cs : List Char) : List Char := (cs.reverse.dropWhile isBlank).reverse

/-- The text without the blanks at its two ends. -/
def trim (cs : List Char) : List Char := trimRight (trimLeft cs)

/-- The text without one `c` at its end, if there is one. -/
def dropFinal (c : Char) (cs : List Char) : List Char :=
  if cs.getLast? = some c then cs.dropLast else cs

/-- A text of blanks only; the empty text is one. -/
def isAllBlank (cs : List Char) : Bool := cs.all isBlank

end BlockMachine.Text

namespace BlockMachine

def trimmed (s : String) : String := .ofList (Text.trim s.toList)

def allBlank (s : String) : Bool := Text.isAllBlank s.toList

end BlockMachine
