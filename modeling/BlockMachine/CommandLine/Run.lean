import BlockMachine.CommandLine.Arguments
import BlockMachine.CommandLine.Files
import BlockMachine.Compiler.Document
import BlockMachine.Json.Reader
import BlockMachine.Json.Writer
import BlockMachine.Machine.Json

namespace BlockMachine.CommandLine

/-- A failure that ends a run without an exit code. -/
inductive Failure where
  | defect (d : Defect)
  | file (f : FileFault)
  /-- The output has half of a surrogate pair in it. -/
  | unencodable
deriving DecidableEq, Repr

def Failure.message : Failure → String
  | .defect d => d.message
  | .file f => f.message
  | .unencodable => "Output without an encoding"

/-- The end of a run. -/
structure Run where
  exit : Except Failure Nat
  printed : String := ""
  written : Option (String × String) := none
  log : List LogLine := []

def usage : String :=
  "usage: blockmachine [-h] \x7bcompile,kinds\x7d ...\n\n" ++
  "Compile visual bot programs\n\n" ++
  "  compile [-h] [-o OUTPUT] [--format \x7bjs,json\x7d] workspace\n" ++
  "  kinds [-h]\n"

def kindLines (kinds : List String) : String :=
  String.join (kinds.map fun kind => "  " ++ kind ++ "\n")

def kindsListing : String :=
  "Value blocks:\n" ++ kindLines valueKinds ++ "Statement blocks:\n" ++ kindLines statementKinds

def refuse (log : List LogLine) (message : String) : Run :=
  { exit := .ok 1, log := log ++ [⟨.error, message⟩] }

def outputText (format : Format) (p : Program) : String :=
  match format with
  | .script => p.script
  | .document => p.toJson.indented ++ "\n"

def print (log : List LogLine) (text : String) : Run :=
  if Text.isEncodable text.toList then { exit := .ok 0, printed := text, log }
  else { exit := .error .unencodable, log }

/-- Print a text or write it to a file; an empty output name is none. A file is emptied before it is
known whether the text has an encoding. -/
def deliver (look : String → Place) (output : Option String) (log : List LogLine) (text : String) :
    Run :=
  match output with
  | none => print log text
  | some name =>
    if name = "" then print log text
    else
      match (look name).writable with
      | .error f => { exit := .error (.file f), log }
      | .ok () =>
        if Text.isEncodable text.toList then
          { exit := .ok 0, written := some (name, text),
            log := log ++ [⟨.info, "Wrote " ++ name⟩] }
        else { exit := .error .unencodable, written := some (name, ""), log }

def compileJson (look : String → Place) (options : CompileOptions) (document : Json) : Run :=
  let outcome := compileDocument document
  let log := outcome.events.map Event.line
  match outcome.result with
  | .ok p => deliver look options.output log (outputText options.format p)
  | .error (.defect d) => { exit := .error (.defect d), log }
  | .error f => refuse log ("Compile failed: " ++ f.message)

/-- Compile a file; `look` says what a path leads to. -/
def compile (look : String → Place) (options : CompileOptions) : Run :=
  let path := normalPath options.workspace
  match (look path).content with
  | .error f => { exit := .error (.file f) }
  | .ok none => refuse [] ("Workspace not found: " ++ path)
  | .ok (some content) =>
    match Json.read content with
    | .ok document => compileJson look options document
    | .error .malformed => refuse [] ("Invalid JSON in " ++ path)
    | .error .numeralTooLong => { exit := .error (.defect .numeralTooLong) }

/-- Run the command that the arguments ask for. -/
def run (look : String → Place) (args : List String) : Run :=
  match read args with
  | .ok (.compile options) => compile look options
  | .ok .kinds => { exit := .ok 0, printed := kindsListing }
  | .ok .none => { exit := .ok 0, printed := usage }
  | .error .help => { exit := .ok 0, printed := usage }
  | .error .misuse => { exit := .ok 2 }

end BlockMachine.CommandLine
