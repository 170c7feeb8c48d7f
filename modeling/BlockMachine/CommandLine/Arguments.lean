import BlockMachine.Text.Blank
import BlockMachine.Text.Digit

namespace BlockMachine.CommandLine

inductive Format where
  | script
  | document
deriving DecidableEq, Repr

structure CompileOptions where
  workspace : String
  output : Option String := none
  format : Format := .script
deriving DecidableEq, Repr

inductive Command where
  | compile (options : CompileOptions)
  | kinds
  | none
deriving DecidableEq, Repr

/-- Why there is no command to run: help was asked for, or the arguments make no sense. -/
inductive Stop where
  | help
  | misuse
deriving DecidableEq, Repr

inductive Flag where
  | help
  | output
  | format
deriving DecidableEq, Repr

abbrev FlagNames := List (List Char × Flag)

def helpFlags : FlagNames := [("-h".toList, .help), ("--help".toList, .help)]

def compileFlags : FlagNames :=
  helpFlags ++
    [("-o".toList, .output), ("--output".toList, .output), ("--format".toList, .format)]

/-- One argument. A value may be attached to an option, behind `=` or directly. -/
inductive Token where
  | plain (text : String)
  | separator
  | flag (flag : Flag) (isLong : Bool) (attached : Option (List Char))
  | unknown

def isNegativeNumeral (cs : List Char) : Bool :=
  match Text.dropFinal '\n' cs with
  | '-' :: cs =>
    let whole := cs.takeWhile Text.isDecimalDigit
    match cs.dropWhile Text.isDecimalDigit with
    | [] => !whole.isEmpty
    | '.' :: fraction => !fraction.isEmpty && fraction.all Text.isDecimalDigit
    | _ => false
  | _ => false

/-- What stands before the first `=`, and what behind it if there is one. -/
def splitEquals (cs : List Char) : List Char × Option (List Char) :=
  (cs.takeWhile (· != '='), match cs.dropWhile (· != '=') with
    | [] => none
    | _ :: rest => some rest)

def isLongName (cs : List Char) : Bool := "--".toList.isPrefixOf cs

/-- The readings of an argument that starts with a dash and is no option as it stands. -/
def readings (flags : FlagNames) (cs : List Char) : List Token :=
  let (name, value) := splitEquals cs
  if isLongName cs then
    (flags.filter fun f => name.isPrefixOf f.1).map fun f =>
      .flag f.2 true value
  else
    (flags.filter fun f => f.1 == cs.take 2).map fun f => .flag f.2 false (some (cs.drop 2))

/-- One argument; it is misused when it could be the start of several options. -/
def token (flags : FlagNames) (s : String) : Except Stop Token :=
  let cs := s.toList
  let (name, value) := splitEquals cs
  if cs.head? ≠ some '-' ∨ cs.length = 1 then .ok (.plain s)
  else
    match flags.lookup cs, value, flags.lookup name with
    | some f, _, _ => .ok (.flag f (isLongName cs) none)
    | none, some v, some f => .ok (.flag f (isLongName cs) (some v))
    | none, _, _ =>
      match readings flags cs with
      | [t] => .ok t
      | [] => .ok (if isNegativeNumeral cs || cs.contains ' ' then .plain s else .unknown)
      | _ => .error .misuse

def tokens (flags : FlagNames) : List String → Except Stop (List Token)
  | [] => .ok []
  | s :: rest =>
    if s = "--" then .ok (.separator :: rest.map .plain)
    else do
      let t ← token flags s
      let ts ← tokens flags rest
      return t :: ts

/-- What comes of `-h` with letters attached to it, each of which has to be an option again. -/
def clusteredHelp (flags : FlagNames) (rest : List Token) : List Char → Stop
  | [] => .help
  | c :: cs =>
    match flags.lookup ['-', c], cs with
    | none, _ => .misuse
    | some .help, cs => clusteredHelp flags rest cs
    | some _, [] =>
      match rest with
      | .plain _ :: _ => .help
      | _ => .misuse
    | some _, _ => .help

def helpStop (flags : FlagNames) (rest : List Token) (isLong : Bool) : Option (List Char) → Stop
  | none => .help
  | some attached =>
    if isLong || attached.isEmpty then .misuse else clusteredHelp flags rest attached

def format? (s : String) : Option Format :=
  if s = "js" then some .script else if s = "json" then some .document else none

/-- What has been read so far; `surplus` says that there was an argument too many. -/
structure Reading where
  workspace : Option String := none
  output : Option String := none
  format : Format := .script
  surplus : Bool := false

def Reading.set (r : Reading) (flag : Flag) (value : String) : Except Stop Reading :=
  match flag with
  | .help => .error .help
  | .output => .ok { r with output := some value }
  | .format =>
    match format? value with
    | some format => .ok { r with format }
    | none => .error .misuse

/-- Read the arguments behind a command. `takesFile` says whether it has a workspace to read. -/
def readTokens (flags : FlagNames) (takesFile : Bool) (r : Reading) :
    List Token → Except Stop Reading
  | [] => .ok r
  | .flag .help isLong attached :: rest => .error (helpStop flags rest isLong attached)
  | .flag f _ (some a) :: rest => do
    readTokens flags takesFile (← r.set f (.ofList a)) rest
  | .flag f _ none :: .plain s :: rest => do
    readTokens flags takesFile (← r.set f s) rest
  | .flag _ _ none :: _ => .error .misuse
  | .plain s :: .separator :: rest =>
    if takesFile && r.workspace.isNone then
      readTokens flags takesFile { r with workspace := some s } rest
    else readTokens flags takesFile { r with surplus := true } rest
  | .plain s :: rest =>
    if takesFile && r.workspace.isNone then
      readTokens flags takesFile { r with workspace := some s } rest
    else readTokens flags takesFile { r with surplus := true } rest
  | .separator :: .plain s :: rest =>
    if takesFile && r.workspace.isNone then
      readTokens flags takesFile { r with workspace := some s } rest
    else readTokens flags takesFile { r with surplus := true } rest
  | .separator :: rest => readTokens flags takesFile { r with surplus := true } rest
  | .unknown :: rest => readTokens flags takesFile { r with surplus := true } rest

def readCompile (args : List String) (surplus : Bool) : Except Stop Command := do
  let r ← readTokens compileFlags true {} (← tokens compileFlags args)
  match r.workspace with
  | none => .error .misuse
  | some workspace =>
    if r.surplus || surplus then .error .misuse
    else return .compile { workspace, output := r.output, format := r.format }

def readKinds (args : List String) (surplus : Bool) : Except Stop Command := do
  let r ← readTokens helpFlags false {} (← tokens helpFlags args)
  if r.surplus || surplus then .error .misuse else return .kinds

/-- Options in front of the command, then the command and what follows it. -/
def readCommand (surplus : Bool) : List (Token × String) → Except Stop Command
  | [] => if surplus then .error .misuse else .ok .none
  | (.flag _ isLong attached, _) :: rest =>
    .error (helpStop helpFlags (rest.map Prod.fst) isLong attached)
  | (.unknown, _) :: rest => readCommand true rest
  | (.separator, _) :: _ => .error .misuse
  | (.plain name, _) :: rest =>
    let args := rest.map Prod.snd
    if name = "compile" then readCompile args surplus
    else if name = "kinds" then readKinds args surplus
    else .error .misuse

def read (args : List String) : Except Stop Command := do
  readCommand false ((← tokens helpFlags args).zip args)

end BlockMachine.CommandLine
