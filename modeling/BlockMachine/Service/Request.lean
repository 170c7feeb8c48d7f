import BlockMachine.Json.Basic

namespace BlockMachine.Service

/-- A workspace to compile, with or without its script. -/
structure CompileRequest where
  workspace : Json
  includeCode : Bool := true

inductive ProblemKind where
  | missing
  | notAnObject
  | notAMapping
  | unreadableBool
  | notABool
deriving DecidableEq, Repr

def ProblemKind.text : ProblemKind → String
  | .missing => "missing"
  | .notAnObject => "model_attributes_type"
  | .notAMapping => "dict_type"
  | .unreadableBool => "bool_parsing"
  | .notABool => "bool_type"

/-- What is wrong, and where in the request. -/
structure Problem where
  kind : ProblemKind
  place : List String
deriving DecidableEq, Repr

def Problem.toJson (p : Problem) : Json :=
  .obj [("type", .str p.kind.text), ("loc", .arr (p.place.map .str))]

def trueWords : List String := ["true", "t", "yes", "y", "on", "1"]

def falseWords : List String := ["false", "f", "no", "n", "off", "0"]

def boolOfInt (n : Int) : Except ProblemKind Bool :=
  if n = 0 then .ok false else if n = 1 then .ok true else .error .unreadableBool

/-- Numbers from here on are not looked at as truth values. -/
def wordBound : Int := Int.pow 2 63

/-- A truth value, or a number or a word that stands for one. -/
def readBool : Json → Except ProblemKind Bool
  | .bool b => .ok b
  | .int n => if -wordBound ≤ n ∧ n < wordBound then boolOfInt n else .error .notABool
  | .float x =>
    match x.toInt? with
    | some n => if -wordBound < n ∧ n < wordBound then boolOfInt n else .error .notABool
    | none => .error .notABool
  | .str s =>
    let word := String.ofList (s.toList.map Char.toLower)
    if trueWords.contains word then .ok true
    else if falseWords.contains word then .ok false
    else .error .unreadableBool
  | _ => .error .notABool

def workspacePlace : List String := ["body", "workspace"]

def includeCodePlace : List String := ["body", "include_code"]

def readWorkspace (members : Table Json) : Except ProblemKind Json :=
  match Table.get? members "workspace" with
  | none => .error .missing
  | some (.obj ws) => .ok (.obj ws)
  | some _ => .error .notAMapping

def readIncludeCode (members : Table Json) : Except ProblemKind Bool :=
  match Table.get? members "include_code" with
  | none => .ok true
  | some j => readBool j

/-- The request in a body; all problems are reported, in the order of the members. -/
def readRequest (body : Option Json) : Except (List Problem) CompileRequest :=
  match body with
  | none => .error [⟨.missing, ["body"]⟩]
  | some .null => .error [⟨.missing, ["body"]⟩]
  | some (.obj members) =>
    match readWorkspace members, readIncludeCode members with
    | .ok workspace, .ok includeCode => .ok { workspace, includeCode }
    | .error p, .ok _ => .error [⟨p, workspacePlace⟩]
    | .ok _, .error q => .error [⟨q, includeCodePlace⟩]
    | .error p, .error q => .error [⟨p, workspacePlace⟩, ⟨q, includeCodePlace⟩]
  | some _ => .error [⟨.notAnObject, ["body"]⟩]

end BlockMachine.Service
