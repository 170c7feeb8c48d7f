namespace BlockMachine.CommandLine

/-- The parts of a path between slashes, without the empty ones and those for the same folder. -/
def pathParts (cs : List Char) : List (List Char) :=
  (cs.splitOn '/').filter fun part => part != [] && part != ['.']

/-- A path with a single slash between its parts; two slashes at the front are kept. -/
def normalPath (path : String) : String :=
  let cs := path.toList
  let slashes := (cs.takeWhile (· == '/')).length
  let root := if slashes = 0 then "" else if slashes = 2 then "//" else "/"
  let parts := (pathParts cs).map String.ofList
  if root = "" ∧ parts.isEmpty then "." else root ++ "/".intercalate parts

def isAbsolute (path : String) : Bool := path.toList.head? == some '/'

/-- What a path leads to. -/
inductive Place where
  | file (content : String)
  | folder
  /-- Nothing, in a folder that is there. -/
  | vacant
  /-- Nothing, and no folder that it could lie in. -/
  | noFolder
  /-- A file stands where a folder would have to be. -/
  | insideFile
  /-- The path or one of its parts is longer than a path may be. -/
  | nameTooLong
  /-- The path has a null character in it. -/
  | unusable
deriving DecidableEq, Repr

/-- Why a file can be neither read nor written. -/
inductive FileFault where
  | isFolder
  | noFolder
  | insideFile
  | nameTooLong
  | unusableName
deriving DecidableEq, Repr

def FileFault.message : FileFault → String
  | .isFolder => "Is a folder"
  | .noFolder => "No such folder"
  | .insideFile => "Not a folder"
  | .nameTooLong => "Name too long"
  | .unusableName => "Unusable name"

namespace Place

/-- The content to read. Where there is nothing there is no content, which is no fault. -/
def content : Place → Except FileFault (Option String)
  | .file content => .ok (some content)
  | .folder => .error .isFolder
  | .nameTooLong => .error .nameTooLong
  | .vacant | .noFolder | .insideFile | .unusable => .ok none

def writable : Place → Except FileFault Unit
  | .file _ | .vacant => .ok ()
  | .folder => .error .isFolder
  | .noFolder => .error .noFolder
  | .insideFile => .error .insideFile
  | .nameTooLong => .error .nameTooLong
  | .unusable => .error .unusableName

end Place

/-- Files below the working folder, by the parts of their paths. -/
abbrev Files := List (List String × String)

namespace Files

def maxPartBytes : Nat := 255

def maxPathBytes : Nat := 4095

def isFolder (files : Files) (place : List String) : Bool :=
  place.isEmpty || files.any fun f => place.isPrefixOf f.1 && place.length < f.1.length

/-- One folder up; above the working folder nothing is known but that there are folders. -/
def up : Option (List String) → Option (List String)
  | none => none
  | some here => if here.isEmpty then none else some here.dropLast

/-- Follow the parts of a path from a folder. -/
def walk (files : Files) (here : Option (List String)) : List String → Place
  | [] => .folder
  | part :: rest =>
    if part = ".." then walk files (up here) rest
    else if maxPartBytes < part.utf8ByteSize then .nameTooLong
    else
      let place := here.map (· ++ [part])
      match place.bind (List.lookup · files) with
      | some content => if rest.isEmpty then .file content else .insideFile
      | none =>
        if place.any (isFolder files) then walk files place rest
        else if rest.isEmpty then .vacant
        else .noFolder

/-- What a path leads to, seen from the working folder. -/
def look (files : Files) (path : String) : Place :=
  let path := normalPath path
  if path.toList.contains '\x00' then .unusable
  else if maxPathBytes < path.utf8ByteSize then .nameTooLong
  else
    walk files (if isAbsolute path then none else some [])
      ((pathParts path.toList).map String.ofList)

/-- The parts of a path below the working folder, unless it leads out of it. -/
def below? (here : List String) : List String → Option (List String)
  | [] => some here
  | part :: rest =>
    if part = ".." then (if here.isEmpty then none else below? here.dropLast rest)
    else below? (here ++ [part]) rest

/-- The files after one is written; what is written elsewhere is not among them. -/
def write (files : Files) (path content : String) : Files :=
  if isAbsolute path then files
  else
    match below? [] ((pathParts path.toList).map String.ofList) with
    | none => files
    | some place => files.filter (·.1 != place) ++ [(place, content)]

end Files
end BlockMachine.CommandLine
