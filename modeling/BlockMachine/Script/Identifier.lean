import BlockMachine.Text.Blank
import BlockMachine.Text.CodePoint

namespace BlockMachine.Identifier

/-- Words of the script language, and the parameters that every handler binds. -/
def reserved : List String :=
  ["await", "break", "case", "catch", "class", "const", "continue", "debugger", "default", "delete",
    "do", "else", "enum", "export", "extends", "false", "finally", "for", "function", "if",
    "implements", "import", "in", "instanceof", "interface", "let", "new", "null", "package",
    "private", "protected", "public", "return", "static", "super", "switch", "this", "throw",
    "true", "try", "typeof", "undefined", "var", "void", "while", "with", "yield",
    "api", "context", "events", "readOnlyMemory"]

/-- Letters, digits, `_` and `$`. -/
def isWordChar (c : Char) : Bool := c.isAlphanum || c == '_' || c == '$'

/-- A run of blanks becomes one `_`, and so does every other character no identifier has.
`inRun` says that the character before was a blank. -/
def spell (inRun : Bool) : List Char → List Char
  | [] => []
  | c :: cs =>
    if Text.isBlank c then (if inRun then spell true cs else '_' :: spell true cs)
    else (if isWordChar c then c else '_') :: spell false cs

/-- An identifier is not empty and starts with no digit. -/
def withStart : List Char → List Char
  | [] => ['_']
  | c :: cs => if c.isDigit then '_' :: c :: cs else c :: cs

def unreserved (cs : List Char) : List Char :=
  if reserved.contains (String.ofList cs) then cs ++ ['_'] else cs

def ofChars (cs : List Char) : List Char := unreserved (withStart (spell false (Text.trim cs)))

end BlockMachine.Identifier

namespace BlockMachine

def identifier (name : String) : String := .ofList (Identifier.ofChars (Text.chars name.toList))

end BlockMachine
