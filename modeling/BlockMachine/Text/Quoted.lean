import BlockMachine.Text.CodePoint

namespace BlockMachine.Text

def hex4 (n : Nat) : List Char :=
  [n / 0x1000 % 16, n / 0x100 % 16, n / 0x10 % 16, n % 16].map Nat.digitChar

def unitEscape (n : Nat) : List Char := '\\' :: 'u' :: hex4 n

/-- The escape of a character that has one of its own. -/
def shortEscape? (c : Char) : Option (List Char) :=
  if c = '"' then some ['\\', '"']
  else if c = '\\' then some ['\\', '\\']
  else if c = '\n' then some ['\\', 'n']
  else if c = '\r' then some ['\\', 'r']
  else if c = '\t' then some ['\\', 't']
  else if c = '\x0c' then some ['\\', 'f']
  else if c = '\x08' then some ['\\', 'b']
  else none

def escape (c : Char) : List Char :=
  match shortEscape? c with
  | some e => e
  | none => if c.toNat < 0x20 then unitEscape c.toNat else [c]

/-- The 16-bit units of a code point: itself, or a surrogate pair. -/
def units (n : Nat) : List Nat :=
  if n < 0x10000 then [n] else [0xd800 + (n - 0x10000) / 0x400, 0xdc00 + (n - 0x10000) % 0x400]

def escapePlain (n : Nat) : List Char :=
  match shortEscape? (Char.ofNat n) with
  | some e => e
  | none => if 0x20 ≤ n ∧ n < 0x7f then [Char.ofNat n] else (units n).flatMap unitEscape

def quoteWith {α : Type} (escape : α → List Char) (as : List α) : List Char :=
  '"' :: (as.flatMap escape ++ ['"'])

def quotePlain (cs : List Char) : List Char := quoteWith escapePlain (points cs)

end BlockMachine.Text

namespace BlockMachine

def quoted (s : String) : String := .ofList (Text.quoteWith Text.escape s.toList)

end BlockMachine
