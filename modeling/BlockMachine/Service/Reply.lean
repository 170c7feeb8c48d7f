import BlockMachine.Compiler.Document
import BlockMachine.Json.Writer
import BlockMachine.Machine.Json
import BlockMachine.Service.Request
import BlockMachine.Service.Target

namespace BlockMachine.Service

inductive Method where
  | get
  | post
  | head
  | other
deriving DecidableEq, Repr

inductive Reply where
  | healthy
  | kinds
  /-- The time that it took is in milliseconds. -/
  | compiled (program : Program) (code : Option String) (elapsed : Binary64)
  | rejected (report : Report)
  | invalid (problems : List Problem)
  /-- A defect of the compiler. -/
  | failed
  /-- There is a reply that cannot be sent: a report about a block whose id or kind is no text, or a
  text that has no encoding. -/
  | unsendable
  | notFound
  | wrongMethod

namespace Reply

def status : Reply → Nat
  | .healthy | .kinds | .compiled .. => 200
  | .rejected _ | .invalid _ => 422
  | .failed | .unsendable => 500
  | .notFound => 404
  | .wrongMethod => 405

end Reply

/-- The kinds of blocks that hold a program together. -/
def programKinds : List String :=
  [Catalog.rootKind, Catalog.stateKind, Catalog.tacticalTransitionKind,
    Catalog.emergencyTransitionKind, Catalog.stateReferenceKind]

def kindsBody : Json :=
  .obj [("values", .arr (valueKinds.map .str)), ("statements", .arr (statementKinds.map .str)),
    ("program", .arr (programKinds.map .str))]

def detail (j : Json) : Json := .obj [("detail", j)]

/-- The body of a reply: a document, or a text where there is none. -/
def Reply.body : Reply → Json ⊕ String
  | .healthy => .inl (.obj [("status", .str "healthy")])
  | .kinds => .inl kindsBody
  | .compiled program code elapsed =>
    .inl (.obj [("program", program.toJson), ("code", .ofText? code),
      ("duration_ms", .float elapsed)])
  | .rejected r =>
    .inl (detail (.obj [("message", .str r.message), ("node_id", r.id), ("kind", r.kind)]))
  | .invalid problems => .inl (detail (.arr (problems.map Problem.toJson)))
  | .failed => .inl (detail (.str "Internal compile error"))
  | .unsendable => .inr "Internal Server Error"
  | .notFound => .inl (detail (.str "Not Found"))
  | .wrongMethod => .inl (detail (.str "Method Not Allowed"))

/-- What is sent of a reply: to a request for the head alone there is no body. -/
def Reply.sentBody (method : Method) (r : Reply) : Json ⊕ String :=
  if method = .head then .inr "" else r.body

def Reply.isEncodable (r : Reply) : Bool :=
  match r.body with
  | .inl j => Text.isEncodable j.compact.toList
  | .inr text => Text.isEncodable text.toList

def Reply.send (r : Reply) : Reply := if r.isEncodable then r else .unsendable

def isTextOrNull : Json → Bool
  | .str _ | .null => true
  | _ => false

def reject (r : Report) : Reply :=
  if isTextOrNull r.id && isTextOrNull r.kind then Reply.send (.rejected r) else .unsendable

def compile (elapsed : Binary64) (request : CompileRequest) : Reply :=
  match (compileDocument request.workspace).result with
  | .ok program =>
    Reply.send
      (.compiled program (if request.includeCode then some program.script else none) elapsed)
  | .error f =>
    match f.report? with
    | some r => reject r
    | none => .failed

/-- The answer to any request; `elapsed` is the time that a compilation took. -/
def respond (elapsed : Binary64) (method : Method) (target : String) (body : Option Json) : Reply :=
  match endpoint? target, method with
  | some .health, .get => .healthy
  | some .kinds, .get => .kinds
  | some .compile, .post =>
    match readRequest body with
    | .ok request => compile elapsed request
    | .error problems => .invalid problems
  | some _, _ => .wrongMethod
  | none, _ => .notFound

/-- What the service says from its start to its end. -/
def lifeMessages : List String :=
  ["Starting Bot Program Compiler Service...",
    "Loaded " ++ decimalText ValueRule.table.length ++ " value rules and " ++
      decimalText StatementRule.table.length ++ " statement rules",
    "Accepting compile requests on port 8080",
    "Shutting down Bot Program Compiler Service..."]

end BlockMachine.Service
