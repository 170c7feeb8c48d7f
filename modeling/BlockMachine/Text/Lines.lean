import BlockMachine.Text.Blank

namespace BlockMachine.Text

/-- The lines of a text, each with the break that ends it. -/
def lines : List Char → List (List Char)
  | [] => []
  | '\r' :: '\n' :: cs => ['\r', '\n'] :: lines cs
  | c :: cs =>
    if isLineBreak c then [c] :: lines cs
    else match lines cs with
      | [] => [[c]]
      | l :: ls => (c :: l) :: ls

/-- One line behind a margin; a blank line stays as it is. -/
def withMargin (margin line : List Char) : List Char :=
  if isAllBlank line then line else margin ++ line

def indent (margin cs : List Char) : List Char := (lines cs).flatMap (withMargin margin)

end BlockMachine.Text

namespace BlockMachine

/-- Every line that is not blank, moved right by `margin`. -/
def indentBy (margin code : String) : String :=
  .ofList (Text.indent margin.toList code.toList)

/-- Two spaces a level. -/
def indented (code : String) : String := indentBy "  " code

end BlockMachine
