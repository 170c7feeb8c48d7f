import BlockMachine.Proofs.Script.Outline
import Mathlib.Data.List.Forall2

namespace BlockMachine

namespace Outline

def isName (cs : List Char) : Bool := !Identifier.reserved.contains (String.ofList cs)

def Token.name? : Token → Option String
  | .symbol (.word cs) => if isName cs then some (String.ofList cs) else none
  | _ => none

def names (s : String) : List String := (tokens s).filterMap Token.name?

theorem names_of_clear {s : String} (h : finish s = .code) (t : String) :
    names (s ++ t) = names s ++ names t := by
  rw [names, (tokens_of_clear h t).1, List.filterMap_append]
  rfl

theorem names_of_breaks {s t : String} (h : (finish s).isDone = true) (ht : Breaks t) :
    names (s ++ t) = names s ++ names t := by
  rw [names, (tokens_of_breaks h ht).1, List.filterMap_append]
  rfl

inductive FunctionKind where
  | plain
  | async
deriving DecidableEq, Repr

/-- A name, or the return of a literal. -/
inductive Subject where
  | name (w : String)
  | exit
deriving DecidableEq, Repr

/-- What is mentioned, the names that are bound around it, and the functions around it, the
innermost first. -/
structure Mention where
  subject : Subject
  bound : List String
  functions : List FunctionKind
deriving DecidableEq, Repr

/-- What was read last, as far as it matters for what comes next. -/
inductive Cue where
  | none
  | const
  | returns
  | function
  | async
  | parameters (names : List String) (kind : FunctionKind)
  | body (names : List String) (kind : FunctionKind)
deriving DecidableEq, Repr

/-- Where a survey stands between two brackets: what was read last, and the parameters of the arrows
that it is behind. -/
structure Position where
  cue : Cue := .none
  arrows : List String := []
deriving DecidableEq, Repr

/-- Behind a word. No parameter is called `await`, `else` or `let`. -/
def Cue.word (q : Cue) (cs : List Char) : Cue :=
  if cs = ['c', 'o', 'n', 's', 't'] then .const
  else if cs = ['r', 'e', 't', 'u', 'r', 'n'] then .returns
  else if cs = ['f', 'u', 'n', 'c', 't', 'i', 'o', 'n'] then .function
  else if cs = ['a', 's', 'y', 'n', 'c'] then .async
  else if cs ∈ [['a', 'w', 'a', 'i', 't'], ['e', 'l', 's', 'e'], ['l', 'e', 't']] then .none
  else .parameters [String.ofList cs] (if q = .async then .async else .plain)

/-- Behind a bracket that is closed, with the given words in it. -/
def Cue.closed (q : Cue) (b : Bracket) (words : List String) : Cue :=
  match b, q with
  | .round, .function => .body words .plain
  | .round, .async => .parameters words .async
  | .round, _ => .parameters words .plain
  | _, _ => .none

/-- What a bracket adds to all that is mentioned in it. -/
def Cue.layer (q : Cue) (b : Bracket) : List String × List FunctionKind :=
  match b, q with
  | .curly, .body names kind => (names, [kind])
  | _, _ => ([], [])

namespace Position

def read (p : Position) : Symbol → Position
  | .word cs => { p with cue := p.cue.word cs }
  | .number | .literal => { p with cue := .none }
  | .arrow =>
    match p.cue with
    | .parameters names kind => ⟨.body names kind, names ++ p.arrows⟩
    | _ => { p with cue := .none }
  | .mark c => ⟨.none, if c = ',' ∨ c = ';' then [] else p.arrows⟩

def declares (p : Position) : Symbol → List String
  | .word cs => if p.cue = .const then [String.ofList cs] else []
  | _ => []

def mentions (p : Position) : Symbol → List Mention
  | .word cs => if isName cs then [⟨.name (String.ofList cs), p.arrows, []⟩] else []
  | .literal => if p.cue = .returns then [⟨.exit, p.arrows, []⟩] else []
  | _ => []

end Position

def Mention.inside (m : Mention) (bound : List String) (functions : List FunctionKind) : Mention :=
  ⟨m.subject, m.bound ++ bound, m.functions ++ functions⟩

def words : Outline → List String
  | .nil => []
  | .symbol (.word cs) rest => String.ofList cs :: words rest
  | .symbol _ rest => words rest
  | .group _ _ rest => words rest

def through (p : Position) : Outline → Position
  | .nil => p
  | .symbol x rest => through (p.read x) rest
  | .group b inner rest => through { p with cue := p.cue.closed b inner.words } rest

/-- The constants that are declared in no bracket. -/
def declared (p : Position) : Outline → List String
  | .nil => []
  | .symbol x rest => p.declares x ++ declared (p.read x) rest
  | .group b inner rest => declared { p with cue := p.cue.closed b inner.words } rest

/-- Everything that is mentioned, from left to right. -/
def survey (p : Position) : Outline → List Mention
  | .nil => []
  | .symbol x rest => p.mentions x ++ survey (p.read x) rest
  | .group b inner rest =>
    (survey {} inner).map (fun m => m.inside
        (declared {} inner ++ (p.cue.layer b).1 ++ p.arrows) (p.cue.layer b).2) ++
      survey { p with cue := p.cue.closed b inner.words } rest

end Outline

/-- What is mentioned in a script, if its brackets match. -/
def Script.mentions (code : String) : Option (List Outline.Mention) :=
  (Outline.ofText? code).map (Outline.survey {})

namespace Outline

example : Script.mentions "f((pos) => g(pos), pos)" = some
    [⟨.name "f", [], []⟩, ⟨.name "pos", [], []⟩, ⟨.name "g", ["pos"], []⟩,
      ⟨.name "pos", ["pos"], []⟩, ⟨.name "pos", [], []⟩] := by decide +kernel

example : Script.mentions "\x7b x; const x = async () => \x7b return \"y\"; \x7d; \x7d" = some
    [⟨.name "x", ["x"], []⟩, ⟨.name "x", ["x"], []⟩, ⟨.name "async", ["x"], []⟩,
      ⟨.exit, ["x"], [.async]⟩] := by decide +kernel

section Append

variable (p : Position) (o o' : Outline)

theorem through_append : through p (o ++ o') = through (through p o) o' := by
  induction o generalizing p with
  | nil => rfl
  | symbol x rest ih => exact ih _
  | group b inner rest _ ih => exact ih _

theorem declared_append : declared p (o ++ o') = declared p o ++ declared (through p o) o' := by
  induction o generalizing p with
  | nil => rfl
  | symbol x rest ih =>
    rw [symbol_append, declared, declared, ih, List.append_assoc]
    rfl
  | group b inner rest _ ih => exact ih _

theorem survey_append : survey p (o ++ o') = survey p o ++ survey (through p o) o' := by
  induction o generalizing p with
  | nil => rfl
  | symbol x rest ih =>
    rw [symbol_append, survey, survey, ih, List.append_assoc]
    rfl
  | group b inner rest _ ih =>
    rw [group_append, survey, ih]
    exact (List.append_assoc _ _ _).symm

end Append

end Outline

end BlockMachine
