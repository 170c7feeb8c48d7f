import BlockMachine.Text.Blank

namespace BlockMachine.Fragment

/-- Starts with `first` and ends with `last`. -/
def isBetween (first last : Char) (cs : List Char) : Bool :=
  cs.head? == some first && cs.getLast? == some last

/-- A record without blanks around it and without one comma behind it. -/
def bareRecord (s : String) : String := .ofList (Text.dropFinal ',' (Text.trim s.toList))

/-- A bare block gets a final empty statement, so that any statement may follow it. -/
def closeScope (fragment : String) : String :=
  if isBetween '\x7b' '\x7d' (Text.trim fragment.toList) then trimmed fragment ++ ";\n"
  else fragment

/-- The records of an array, with one comma between each two. -/
def joinRecords (fragments : List String) : String :=
  ",\n".intercalate ((fragments.map bareRecord).filter (· != ""))

/-- Starts of statements that cannot be awaited. -/
def unawaitable : List String :=
  ["let ", "const ", "var ", "return", "if ", "if(", "\x7b", "debugger"]

/-- One line that ends with a semicolon and is no declaration, return, branch or block. -/
def isAwaitable (cs : List Char) : Bool :=
  !cs.contains '\n' && cs.getLast? == some ';' &&
    !unawaitable.any fun start => start.toList.isPrefixOf cs

def awaited (fragment : String) : String :=
  if isAwaitable (Text.trim fragment.toList) then "await " ++ trimmed fragment ++ "\n"
  else closeScope fragment

end BlockMachine.Fragment
