import BlockMachine.CommandLine.Run

namespace BlockMachine.CommandLine

def ofChars (s : String) : String := .ofList (s.toList.flatMap fun c => Text.spelling c.toNat)

/-- The characters of a text that has an encoding. -/
def toChars (s : String) : String := .ofList (Text.chars s.toList)

/-- What the path of the workspace leads to; a file that cannot be read counts as none. -/
def workspacePlace (args : List String) : IO Place := do
  match read args with
  | .ok (.compile options) =>
    try
      return .file (ofChars (← IO.FS.readFile (normalPath options.workspace)))
    catch
      | .noFileOrDirectory .. => return .vacant
      | .inappropriateType .. => return .folder
      | _ => return .vacant
  | _ => return .vacant

def execute (args : List String) : IO UInt32 := do
  let place ← workspacePlace args
  let result := run (fun _ => place) args
  if let some (name, text) := result.written then
    IO.FS.writeFile (normalPath name) (toChars text)
  for line in result.log do
    if line.level != .debug then IO.eprintln (toChars line.text)
  IO.print (toChars result.printed)
  match result.exit with
  | .ok code => return code.toUInt32
  | .error f =>
    IO.eprintln f.message
    return 1

end BlockMachine.CommandLine

def main (args : List String) : IO UInt32 := BlockMachine.CommandLine.execute args
