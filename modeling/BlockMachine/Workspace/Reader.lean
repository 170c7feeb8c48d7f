import BlockMachine.Block.Tree
import BlockMachine.Json.Number
import BlockMachine.Text.CodePoint

namespace BlockMachine.Workspace

theorem sizeOf_lt_of_get? {members : Table Json} {key : String} {j : Json}
    (h : Table.get? members key = some j) : sizeOf j < sizeOf members := by
  induction members with
  | nil => simp [Table.get?] at h
  | cons entry rest ih =>
    obtain ⟨k, v⟩ := entry
    simp only [Table.get?, List.lookup_cons] at h
    simp only [List.cons.sizeOf_spec, Prod.mk.sizeOf_spec]
    split at h
    · injection h with h
      subst h
      omega
    · have := ih h
      omega

theorem sizeOf_nil_lt (members : Table Json) :
    sizeOf ([] : Table Json) < sizeOf (Json.obj members) := by
  cases members <;> simp only [Json.obj.sizeOf_spec, List.nil.sizeOf_spec,
    List.cons.sizeOf_spec] <;> omega

/-- A block to be read, smaller than the document it is taken from, and its shadow mark. -/
structure Plugged (source : Json) where
  raw : Json
  shadow : Bool
  smaller : sizeOf raw < sizeOf source

/-- The value under a key, unless it is absent or null. -/
def present? (source : Json) (key : String) : Option { j : Json // sizeOf j < sizeOf source } :=
  match source with
  | .obj members =>
    match h : Table.get? members key with
    | none => none
    | some .null => none
    | some j => some ⟨j, by have := sizeOf_lt_of_get? h; simp only [Json.obj.sizeOf_spec]; omega⟩
  | _ => none

/-- What a connection holds: a block, else a shadow, else nothing. -/
def plugged? (connection : Json) : Option (Plugged connection) :=
  match present? connection "block" with
  | some j => some ⟨j.1, false, j.2⟩
  | none => (present? connection "shadow").map fun j => ⟨j.1, true, j.2⟩

/-- A connection has to be an object; `id` and `kind` name the block it belongs to. -/
def connection (id kind connection : Json) : Except Fault (Option (Plugged connection)) :=
  match connection with
  | .obj members => .ok (plugged? (.obj members))
  | _ => .error (.format (.malformedConnection id kind))

/-- Only a text can be a kind; a list or an object cannot even be looked up. -/
def isStatementSocket (kind : Json) (socket : String) : Except Fault Bool :=
  match kind with
  | .str k => .ok (Catalog.isStatementSocket k socket)
  | .arr _ => .error (.defect .unsearchableKind)
  | .obj _ => .error (.defect .unsearchableKind)
  | _ => .ok false

def fieldValue? : Json → Option FieldValue
  | .str s => some (.text s)
  | .int n => some (.int n)
  | .float x => some (.float x)
  | .bool b => some (.bool b)
  | _ => none

/-- Fields that are saved as a list give a pair each: two items, two code points or two keys. -/
def pair? : Json → Option (String × Json)
  | .arr [.str k, v] => some (k, v)
  | .obj [(k, _), (v, _)] => some (k, .str v)
  | .str s =>
    match Text.points s.toList with
    | [k, v] => some (.ofList (Text.spelling k), .str (.ofList (Text.spelling v)))
    | _ => none
  | _ => none

def fieldEntries? : Json → Option (Table Json)
  | .obj members => some members
  | .arr items => (items.mapM pair?).map Table.ofEntries
  | _ => none

def fields? (raw : Json) : Option (Table FieldValue) :=
  if raw.isTruthy then do
    let entries ← fieldEntries? raw
    entries.mapM fun (name, j) => (fieldValue? j).map (name, ·)
  else some []

/-- A coordinate may be absent. -/
def coordinate? : Json → Option (Option Binary64)
  | .null => some none
  | j => j.number?.map some

def extraState? : Json → Option (Option (Table Json))
  | .null => some none
  | .obj members => some (some members)
  | _ => none

def id? : Json → Option (Option String)
  | .null => some none
  | .str s => some (some s)
  | _ => none

def kind? : Json → Option String
  | .str s => some s
  | _ => none

/-- A member of a saved block; one that is absent counts as null. -/
def member (members : Table Json) (key : String) : Json := (Table.get? members key).getD .null

def label? (members : Table Json) (shadow : Bool) : Option Label := do
  let kind ← kind? (member members "type")
  let id ← id? (member members "id")
  let fields ← fields? (member members "fields")
  let extraState ← extraState? (member members "extraState")
  let x ← coordinate? (member members "x")
  let y ← coordinate? (member members "y")
  return { kind, id, fields, extraState, shadow, x, y }

def label (members : Table Json) (shadow : Bool) : Except Fault Label :=
  match label? members shadow with
  | some l => .ok l
  | none => .error (.format (.malformedBlock (member members "id") (member members "type")))

/-- The entries of `inputs`; a value that counts as false has none. -/
def inputs (members : Table Json) :
    Except Fault { es : Table Json // sizeOf es < sizeOf (Json.obj members) } :=
  match h : Table.get? members "inputs" with
  | some (.obj es) => .ok ⟨es, by
      have := sizeOf_lt_of_get? h
      simp only [Json.obj.sizeOf_spec] at this ⊢
      omega⟩
  | none => .ok ⟨[], sizeOf_nil_lt members⟩
  | some j =>
    if j.isTruthy then
      .error (.format (.malformedInputs (member members "id") (member members "type")))
    else .ok ⟨[], sizeOf_nil_lt members⟩

/-- The connection to the block below; a value that counts as false is none. -/
def below (label : Label) (members : Table Json) :
    Except Fault (Option (Plugged (.obj members))) :=
  match h : Table.get? members "next" with
  | none => .ok none
  | some c =>
    if c.isTruthy then
      (connection (.ofText? label.id) (.str label.kind) c).map fun p =>
        p.map fun p => ⟨p.raw, p.shadow, by
          have := sizeOf_lt_of_get? h
          have := p.smaller
          simp only [Json.obj.sizeOf_spec]
          omega⟩
    else .ok none

mutual
/-- A block with all that it holds and all that stands below it. -/
def readTree (raw : Json) (shadow : Bool) : Except Fault Tree :=
  match raw with
  | .obj members =>
    match Table.get? members "type" with
    | none => .error (.format (.untypedBlock (.obj members)))
    | some kind => do
      let ⟨entries, _⟩ ← inputs members
      let (values, statements) ← readSockets (member members "id") kind entries
      let label ← label members shadow
      match ← below label members with
      | none => return .node label values statements none
      | some ⟨raw, shadow, _⟩ =>
        let next ← readTree raw shadow
        return .node label values statements (some next)
  | raw => .error (.format (.untypedBlock raw))
termination_by sizeOf raw
decreasing_by all_goals simp only [Json.obj.sizeOf_spec] at *; omega

/-- The sockets of a block, values and statements apart. -/
def readSockets (id kind : Json) (entries : Table Json) :
    Except Fault (Table (Option Tree) × Table (Option Tree)) :=
  match entries with
  | [] => .ok ([], [])
  | (socket, c) :: rest => do
    let child ← (do
      match ← connection id kind c with
      | none => return none
      | some ⟨raw, shadow, _⟩ => return some (← readTree raw shadow))
    let isStatement ← isStatementSocket kind socket
    let (values, statements) ← readSockets id kind rest
    if isStatement then return (values, (socket, child) :: statements)
    else return ((socket, child) :: values, statements)
termination_by sizeOf entries
end

def readBlocks : List Json → Except Fault (List Tree)
  | [] => .ok []
  | raw :: rest => do
    let t ← readTree raw false
    let ts ← readBlocks rest
    return t :: ts

def read (document : Json) : Except Fault Workspace :=
  match document with
  | .obj members =>
    match (Table.get? members "blocks").getD (.obj []) with
    | .obj inner =>
      match (Table.get? inner "blocks").getD (.arr []) with
      | .arr raws => (readBlocks raws).map Workspace.mk
      | _ => .error (.format .blocksNotAList)
    | _ => .error (.format .sectionNotAnObject)
  | _ => .error (.format .notAnObject)

end BlockMachine.Workspace
