import BlockMachine.Machine.Script
import BlockMachine.Number.Binary64

namespace BlockMachine

/-- What a function of the script returns. Objects and functions are not told apart. -/
inductive Value where
  | undefined
  | null
  | bool (b : Bool)
  | number (x : Binary64)
  | text (s : String)
  | object
  | function
deriving DecidableEq, Repr

/-- What counts as true where the script asks for a truth value. -/
def Value.truthy : Value → Bool
  | .undefined => false
  | .null => false
  | .bool b => b
  | .number x => !(x.isZero || x == .nan)
  | .text s => s != ""
  | .object => true
  | .function => true

/-- What a call of a function returns in a state of the world, and the state that it leaves. -/
abbrev World (σ : Type) := String → σ → Value × σ

namespace Script

variable {σ : Type}

def constants : Table Value :=
  [("false", .bool false), ("true", .bool true), ("null", .null), ("undefined", .undefined)]

/-- A constant is itself, and a function without parameters is not called. -/
def literal? (text : String) : Option Value :=
  (Table.get? constants text).or
    (if (Table.keys constants).any fun constant => "() => " ++ constant == text then some .function
      else none)

/-- What comes behind the first opening of a return. -/
def afterReturn : List Char → Option (List Char)
  | [] => none
  | c :: cs =>
    if "return (".toList.isPrefixOf (c :: cs) then some ((c :: cs).drop "return (".length)
    else afterReturn cs

/-- The text that the function of a condition returns the value of. -/
def returned? (function : String) : Option String := do
  let cs ← afterReturn function.toList
  let close := ");\n\x7d".toList
  if close.isSuffixOf cs then some (.ofList (cs.take (cs.length - close.length))) else none

/-- A function that returns a literal needs no world to be called in. -/
def call (world : World σ) (function : String) (s : σ) : Value × σ :=
  match (returned? function).bind literal? with
  | some v => (v, s)
  | none => world function s

end Script

open Script

/-- The parameters of the condition of a transition. -/
def Transition.parameters (t : Transition) : String :=
  if t.tier = .ofState then localConditionParameters else globalConditionParameters

/-- The function that the script of a transition has for its condition. -/
def Transition.function (t : Transition) : String :=
  Script.condition t.parameters t.condition.text

theorem Transition.script_eq (t : Transition) :
    t.script = braced (["target: " ++ quoted t.target, "condition: " ++ t.function] ++
      (if t.tier = .ofState then [] else ["description: " ++ quoted t.description]) ++
      (if t.tier = .emergency then ["isEmergency: true"] else [])) :=
  rfl

variable {σ : Type}

/-- The target of the first transition whose condition returns something truthy. -/
def firstTarget (world : World σ) : List Transition → σ → Option String × σ
  | [], s => (none, s)
  | t :: ts, s =>
    if (call world t.function s).1.truthy then (some t.target, (call world t.function s).2)
    else firstTarget world ts (call world t.function s).2

namespace Program

/-- The transitions in the order in which they are tried. -/
def candidates (p : Program) (active : String) : List Transition :=
  p.emergency ++ p.tactical ++ ((Table.get? p.states active).map (·.transitions)).getD []

/-- The target that a tick selects in a state, if it selects one. -/
def tick (p : Program) (world : World σ) (active : String) (s : σ) : Option String × σ :=
  firstTarget world (p.candidates active) s

end Program

variable {world : World σ} {t : Transition} {ts us : List Transition} {s : σ}

theorem firstTarget_of_truthy (h : (call world t.function s).1.truthy = true) :
    firstTarget world (t :: ts) s = (some t.target, (call world t.function s).2) := by
  rw [firstTarget, if_pos h]

theorem firstTarget_of_falsy (h : (call world t.function s).1.truthy = false) :
    firstTarget world (t :: ts) s = firstTarget world ts (call world t.function s).2 := by
  rw [firstTarget, if_neg (Bool.not_eq_true _ ▸ h)]

theorem firstTarget_append (ts us : List Transition) (s : σ) :
    firstTarget world (ts ++ us) s =
      if (firstTarget world ts s).1.isSome then firstTarget world ts s
      else firstTarget world us (firstTarget world ts s).2 := by
  induction ts generalizing s with
  | nil => rfl
  | cons t ts ih =>
    rw [List.cons_append]
    cases h : (call world t.function s).1.truthy with
    | true =>
      rw [firstTarget_of_truthy h, firstTarget_of_truthy h]
      rfl
    | false =>
      rw [firstTarget_of_falsy h, firstTarget_of_falsy h]
      exact ih _

theorem firstTarget_insert (h : ∀ s, ∃ v, call world t.function s = (v, s) ∧ v.truthy = false)
    (ts us : List Transition) (s : σ) :
    firstTarget world (ts ++ t :: us) s = firstTarget world (ts ++ us) s := by
  have ht (s : σ) : firstTarget world (t :: us) s = firstTarget world us s := by
    obtain ⟨v, hv, hf⟩ := h s
    rw [firstTarget_of_falsy (by rw [hv]; exact hf), hv]
  rw [firstTarget_append, firstTarget_append, ht]

theorem firstTarget_insert_function
    (h : ∀ s, ∃ v, call world t.function s = (v, s) ∧ v.truthy = true) (ts us : List Transition)
    (s : σ) :
    firstTarget world (ts ++ t :: us) s =
      if (firstTarget world ts s).1.isSome then firstTarget world (ts ++ us) s
      else (some t.target, (firstTarget world ts s).2) := by
  have ht (s : σ) : firstTarget world (t :: us) s = (some t.target, s) := by
    obtain ⟨v, hv, hf⟩ := h s
    rw [firstTarget_of_truthy (by rw [hv]; exact hf), hv]
  rw [firstTarget_append, firstTarget_append, ht]
  split <;> rfl

theorem call_false (world : World σ) (s : σ) :
    call world (condition localConditionParameters "false") s = (.bool false, s) := by
  have h : (returned? (condition localConditionParameters "false")).bind literal? =
      some (.bool false) := by decide
  rw [call, h]

theorem call_arrow (world : World σ) (s : σ) :
    call world (condition globalConditionParameters "() => false") s = (.function, s) := by
  have h : (returned? (condition globalConditionParameters "() => false")).bind literal? =
      some .function := by decide
  rw [call, h]

end BlockMachine
