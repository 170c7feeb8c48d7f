import BlockMachine.Json.Basic
import BlockMachine.Number.Numeral
import BlockMachine.Text.CodePoint

namespace BlockMachine.Json

/-- Why a text is not read: it is no document, or an integer in it has too many digits. -/
inductive ReadFault where
  | malformed
  | numeralTooLong
deriving DecidableEq, Repr

def isSpace (c : Char) : Bool := c == ' ' || c == '\t' || c == '\n' || c == '\r'

def skipSpace (cs : List Char) : List Char := cs.dropWhile isSpace

def unit? (a b c d : Char) : Option Nat := do
  let w ← Text.hexDigit? a
  let x ← Text.hexDigit? b
  let y ← Text.hexDigit? c
  let z ← Text.hexDigit? d
  return ((w * 16 + x) * 16 + y) * 16 + z

/-- What the letter behind a backslash stands for. -/
def escaped? (c : Char) : Option Char :=
  if c = '"' ∨ c = '\\' ∨ c = '/' then some c
  else if c = 'n' then some '\n'
  else if c = 'r' then some '\r'
  else if c = 't' then some '\t'
  else if c = 'f' then some '\x0c'
  else if c = 'b' then some '\x08'
  else none

/-- The code points and 16-bit units up to the closing quote, and what follows it. -/
def readUnits : List Char → Option (List Nat × List Char)
  | [] => none
  | '"' :: cs => some ([], cs)
  | '\\' :: 'u' :: a :: b :: c :: d :: cs => do
    let u ← unit? a b c d
    let (us, rest) ← readUnits cs
    return (u :: us, rest)
  | '\\' :: e :: cs => do
    let c ← escaped? e
    let (us, rest) ← readUnits cs
    return (c.toNat :: us, rest)
  | c :: cs =>
    if c.toNat < 0x20 then none
    else do
      let (us, rest) ← readUnits cs
      return (c.toNat :: us, rest)

/-- A unit on its own; all but halves of surrogate pairs stand as they are. -/
def loneUnit (u : Nat) : List Char := if Text.isHalf u then Text.spelling u else [Char.ofNat u]

/-- The text of some code points and units; a surrogate pair is one code point. -/
def joinUnits : List Nat → List Char
  | [] => []
  | [u] => loneUnit u
  | u :: v :: us =>
    if 0xd800 ≤ u ∧ u < 0xdc00 ∧ 0xdc00 ≤ v ∧ v < 0xe000 then
      Text.spelling (0x10000 + (u - 0xd800) * 0x400 + (v - 0xdc00)) ++ joinUnits us
    else loneUnit u ++ joinUnits (v :: us)

/-- A text whose opening quote has been read, and what follows its closing quote. -/
def readText (cs : List Char) : Except ReadFault (String × List Char) :=
  match readUnits cs with
  | some (us, rest) => .ok (String.ofList (joinUnits us), rest)
  | none => .error .malformed

/-- A point and at least one digit, or nothing. -/
def readFraction (cs : List Char) : Option (List Nat) × List Char :=
  match cs with
  | '.' :: after =>
    match Numeral.takeDigits Numeral.asciiDigit? after with
    | ([], _) => (none, cs)
    | (ds, rest) => (some ds, rest)
  | _ => (none, cs)

/-- An exponent with at least one digit, or nothing. -/
def readExponent (cs : List Char) : Option Int × List Char :=
  match cs with
  | [] => (none, [])
  | c :: after =>
    if c = 'e' ∨ c = 'E' then
      let (negative, digits) := Numeral.takeSign after
      match Numeral.takeDigits Numeral.asciiDigit? digits with
      | ([], _) => (none, cs)
      | (ds, rest) =>
        let n : Int := Text.ofDigits ds
        (some (if negative then -n else n), rest)
    else (none, cs)

/-- A numeral; with neither point nor exponent it is an integer. -/
def readUnsigned (negative : Bool) (cs : List Char) : Except ReadFault (Json × List Char) :=
  let (whole, afterWhole) := Numeral.takeDigits Numeral.asciiDigit? cs
  let (fraction, afterFraction) := readFraction afterWhole
  let (exponent, rest) := readExponent afterFraction
  if whole.isEmpty || (whole.head? == some 0 && whole.length != 1) then .error .malformed
  else
    match fraction, exponent with
    | none, none =>
      match Text.boundedValue? whole with
      | some n => .ok (.int (if negative then -n else n), rest)
      | none => .error .numeralTooLong
    | _, _ =>
      let ds := fraction.getD []
      let x := Numeral.nearest negative (Text.ofDigits (whole ++ ds)) (exponent.getD 0 - ds.length)
      .ok (.float x, rest)

def readNumber : List Char → Except ReadFault (Json × List Char)
  | '-' :: cs => readUnsigned true cs
  | cs => readUnsigned false cs

def words : List (List Char × Json) :=
  [("null".toList, .null), ("true".toList, .bool true), ("false".toList, .bool false),
    ("NaN".toList, .float .nan), ("Infinity".toList, .float (.infinite false)),
    ("-Infinity".toList, .float (.infinite true))]

/-- A word at the front, and what follows it. -/
def readWord (cs : List Char) : Option (Json × List Char) :=
  words.findSome? fun (word, j) =>
    if word.isPrefixOf cs then some (j, cs.drop word.length) else none

mutual
/-- A value at the front, and what follows it. Every step of `depth` reads a character. -/
def readValue : Nat → List Char → Except ReadFault (Json × List Char)
  | 0, _ => .error .malformed
  | depth + 1, cs =>
    match cs with
    | '"' :: rest => (readText rest).map fun (s, rest) => (.str s, rest)
    | '[' :: rest =>
      match skipSpace rest with
      | ']' :: rest => .ok (.arr [], rest)
      | rest => (readItems depth rest).map fun (items, rest) => (.arr items, rest)
    | '\x7b' :: rest =>
      match skipSpace rest with
      | '\x7d' :: rest => .ok (.obj [], rest)
      | rest => (readMembers depth rest).map fun (ms, rest) => (.obj (Table.ofEntries ms), rest)
    | cs =>
      match readWord cs with
      | some found => .ok found
      | none => readNumber cs

def readItems : Nat → List Char → Except ReadFault (List Json × List Char)
  | 0, _ => .error .malformed
  | depth + 1, cs => do
    let (j, rest) ← readValue depth cs
    match skipSpace rest with
    | ']' :: rest => return ([j], rest)
    | ',' :: rest =>
      let (js, rest) ← readItems depth (skipSpace rest)
      return (j :: js, rest)
    | _ => .error .malformed

def readMembers : Nat → List Char → Except ReadFault (List (String × Json) × List Char)
  | 0, _ => .error .malformed
  | depth + 1, cs =>
    match cs with
    | '"' :: rest => do
      let (key, rest) ← readText rest
      match skipSpace rest with
      | ':' :: rest =>
        let (j, rest) ← readValue depth (skipSpace rest)
        match skipSpace rest with
        | '\x7d' :: rest => return ([(key, j)], rest)
        | ',' :: rest =>
          let (ms, rest) ← readMembers depth (skipSpace rest)
          return ((key, j) :: ms, rest)
        | _ => .error .malformed
      | _ => .error .malformed
    | _ => .error .malformed
end

def readDocument (cs : List Char) : Except ReadFault Json := do
  let (j, rest) ← readValue (cs.length + 1) (skipSpace cs)
  if (skipSpace rest).isEmpty then return j else .error .malformed

/-- The document that a whole text is, blanks around it apart. -/
def read (s : String) : Except ReadFault Json := readDocument s.toList

end BlockMachine.Json
