import BlockMachine.Json.Basic
import BlockMachine.Number.Display
import BlockMachine.Text.CodePoint
import BlockMachine.Text.Digit
import BlockMachine.Text.Printable

namespace BlockMachine.Text

def hexOf (digits n : Nat) : List Char :=
  let ds := Nat.toDigits 16 n
  List.replicate (digits - ds.length) '0' ++ ds

/-- A code point inside a shown text with the given quote around it. -/
def shownPoint (quote : Char) (n : Nat) : List Char :=
  let c := Char.ofNat n
  if c = quote ∨ c = '\\' then ['\\', c]
  else if c = '\n' then ['\\', 'n']
  else if c = '\r' then ['\\', 'r']
  else if c = '\t' then ['\\', 't']
  else if isPrintable c then [c]
  else if n < 0x100 then '\\' :: 'x' :: hexOf 2 n
  else if n < 0x10000 then '\\' :: 'u' :: hexOf 4 n
  else '\\' :: 'U' :: hexOf 8 n

def shown (cs : List Char) : List Char :=
  let quote := if cs.contains '\'' && !cs.contains '"' then '"' else '\''
  quote :: ((points cs).flatMap (shownPoint quote) ++ [quote])

end BlockMachine.Text

namespace BlockMachine

def shownBool (b : Bool) : String := if b then "True" else "False"

namespace Json

mutual
def shown : Json → String
  | .null => "None"
  | .bool b => shownBool b
  | .int n => decimalText n
  | .float x => x.display
  | .str s => .ofList (Text.shown s.toList)
  | .arr items => "[" ++ shownItems items ++ "]"
  | .obj members => "\x7b" ++ shownMembers members ++ "\x7d"

def shownItems : List Json → String
  | [] => ""
  | [j] => shown j
  | j :: js => shown j ++ ", " ++ shownItems js

def shownMembers : List (String × Json) → String
  | [] => ""
  | [(k, j)] => .ofList (Text.shown k.toList) ++ ": " ++ shown j
  | (k, j) :: ms => .ofList (Text.shown k.toList) ++ ": " ++ shown j ++ ", " ++ shownMembers ms
end

/-- A value on its own: a text stands as it is. -/
def display : Json → String
  | .str s => s
  | j => shown j

end Json
end BlockMachine
