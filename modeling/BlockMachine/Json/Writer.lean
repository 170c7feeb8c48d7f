import BlockMachine.Json.Basic
import BlockMachine.Number.Display
import BlockMachine.Text.Digit
import BlockMachine.Text.Quoted

namespace BlockMachine.Json

/-- Numbers that JSON has no numeral for are written as words. -/
def floatText : Binary64 → List Char
  | .nan => "NaN".toList
  | .infinite negative => (if negative then "-Infinity" else "Infinity").toList
  | x => x.display.toList

def boolText (b : Bool) : List Char := (if b then "true" else "false").toList

mutual
def compactText : Json → List Char
  | .null => "null".toList
  | .bool b => boolText b
  | .int n => Text.decimal n
  | .float x => floatText x
  | .str s => Text.quoteWith Text.escape s.toList
  | .arr items => '[' :: (compactItems items ++ [']'])
  | .obj members => '\x7b' :: (compactMembers members ++ ['\x7d'])

def compactItems : List Json → List Char
  | [] => []
  | [j] => compactText j
  | j :: js => compactText j ++ ',' :: compactItems js

def compactMembers : List (String × Json) → List Char
  | [] => []
  | [(k, j)] => Text.quoteWith Text.escape k.toList ++ ':' :: compactText j
  | (k, j) :: ms =>
    Text.quoteWith Text.escape k.toList ++ ':' :: (compactText j ++ ',' :: compactMembers ms)
end

def compact (j : Json) : String := .ofList (compactText j)

/-- A new line at a nesting depth, two spaces a level. -/
def newLine (depth : Nat) : List Char := '\n' :: List.replicate (2 * depth) ' '

mutual
def indentedText (depth : Nat) : Json → List Char
  | .null => "null".toList
  | .bool b => boolText b
  | .int n => Text.decimal n
  | .float x => floatText x
  | .str s => Text.quotePlain s.toList
  | .arr [] => ['[', ']']
  | .arr (j :: js) =>
    '[' :: (newLine (depth + 1) ++ indentedItems (depth + 1) (j :: js) ++ newLine depth ++ [']'])
  | .obj [] => ['\x7b', '\x7d']
  | .obj (m :: ms) =>
    '\x7b' ::
      (newLine (depth + 1) ++ indentedMembers (depth + 1) (m :: ms) ++ newLine depth ++ ['\x7d'])

def indentedItems (depth : Nat) : List Json → List Char
  | [] => []
  | [j] => indentedText depth j
  | j :: js => indentedText depth j ++ ',' :: (newLine depth ++ indentedItems depth js)

def indentedMembers (depth : Nat) : List (String × Json) → List Char
  | [] => []
  | [(k, j)] => Text.quotePlain k.toList ++ ':' :: ' ' :: indentedText depth j
  | (k, j) :: ms =>
    Text.quotePlain k.toList ++ ':' :: ' ' ::
      (indentedText depth j ++ ',' :: (newLine depth ++ indentedMembers depth ms))
end

/-- The document over several lines, in printable ASCII. -/
def indented (j : Json) : String := .ofList (indentedText 0 j)

end BlockMachine.Json
