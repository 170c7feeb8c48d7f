import BlockMachine.Json.Reader
import BlockMachine.Text.Quoted

namespace BlockMachine.Text

/-- The character of a 16-bit unit, unless it is half of a surrogate pair. -/
def unitChar? (n : Nat) : Option Char :=
  if n < 0xd800 ∨ 0xe000 ≤ n then some (.ofNat n) else none

def breaksLiteral (c : Char) : Bool := c == '\n' || c == '\r' || c == '\u2028' || c == '\u2029'

/-- What a character behind a backslash stands for. A line break there only carries the literal on
into the next line; a digit, or a letter that begins a longer escape, stands for nothing. -/
def escapee? (c : Char) : Option (List Char) :=
  if c = 'n' then some ['\n']
  else if c = 'r' then some ['\r']
  else if c = 't' then some ['\t']
  else if c = 'f' then some ['\x0c']
  else if c = 'b' then some ['\x08']
  else if c = 'v' then some ['\x0b']
  else if breaksLiteral c then some []
  else if c = 'u' ∨ c = 'x' ∨ c.isDigit then none
  else some [c]

/-- The text of a literal up to its closing quote, and what follows it. Escapes of code points in
braces and of halves of surrogate pairs are not read. -/
def readQuoted : List Char → Option (List Char × List Char)
  | [] => none
  | '"' :: cs => some ([], cs)
  | '\\' :: 'u' :: a :: b :: c :: d :: cs => do
    let u ← (Json.unit? a b c d).bind unitChar?
    let (s, rest) ← readQuoted cs
    return (u :: s, rest)
  | '\\' :: 'x' :: a :: b :: cs => do
    let u ← (Json.unit? '0' '0' a b).bind unitChar?
    let (s, rest) ← readQuoted cs
    return (u :: s, rest)
  | '\\' :: '\r' :: '\n' :: cs => readQuoted cs
  | '\\' :: e :: cs => do
    let e ← escapee? e
    let (s, rest) ← readQuoted cs
    return (e ++ s, rest)
  | c :: cs =>
    if c = '\\' ∨ c = '\n' ∨ c = '\r' then none
    else do
      let (s, rest) ← readQuoted cs
      return (c :: s, rest)

/-- A literal at the front of a text, and what follows it. -/
def readLiteral : List Char → Option (List Char × List Char)
  | '"' :: cs => readQuoted cs
  | _ => none

theorem hexDigit?_digitChar {n : Nat} (h : n < 16) : hexDigit? n.digitChar = some n := by
  have hall : ∀ k : Fin 16, hexDigit? (k : Nat).digitChar = some (k : Nat) := by decide
  exact hall ⟨n, h⟩

theorem unit?_hex4 {n : Nat} (h : n < 0x10000) :
    ∃ a b c d, hex4 n = [a, b, c, d] ∧ Json.unit? a b c d = some n := by
  refine ⟨_, _, _, _, rfl, ?_⟩
  rw [Json.unit?, hexDigit?_digitChar (by omega), hexDigit?_digitChar (by omega),
    hexDigit?_digitChar (by omega), hexDigit?_digitChar (by omega)]
  change some _ = some n
  congr 1
  omega

/-- The characters that stand behind a backslash for another one. -/
def shortEscapes : List Char := ['"', '\\', 'n', 'r', 't', 'f', 'b']

/-- The ways in which a character is written inside quotes. -/
inductive Escaped (c : Char) : List Char → Prop
  | short {e : Char} : e ∈ shortEscapes → escapee? e = some [c] → Escaped c ['\\', e]
  | unit : c.toNat < 0x20 → Escaped c (unitEscape c.toNat)
  | plain : 0x20 ≤ c.toNat → c ≠ '"' → c ≠ '\\' → Escaped c [c]

theorem shortEscape?_eq_some {c : Char} {e : List Char} (h : shortEscape? c = some e) :
    Escaped c e := by
  rw [shortEscape?] at h
  repeat' split at h
  all_goals cases h
  all_goals subst c; exact .short (by decide) (by decide)

theorem ne_of_shortEscape?_eq_none {c : Char} (h : shortEscape? c = none) : c ≠ '"' ∧ c ≠ '\\' := by
  constructor
  · rintro rfl
    cases h
  · rintro rfl
    cases h

theorem escaped (c : Char) : Escaped c (escape c) := by
  rw [escape]
  split
  · exact shortEscape?_eq_some (by assumption)
  · rename_i hn
    obtain ⟨hq, hb⟩ := ne_of_shortEscape?_eq_none hn
    split
    · exact .unit (by assumption)
    · exact .plain (by omega) hq hb

theorem readQuoted_plain {c : Char} (hc : 0x20 ≤ c.toNat) (hq : c ≠ '"') (hb : c ≠ '\\')
    (cs : List Char) :
    readQuoted (c :: cs) = (readQuoted cs).map fun (s, rest) => (c :: s, rest) := by
  have hn : c ≠ '\n' := by rintro rfl; revert hc; decide
  have hr : c ≠ '\r' := by rintro rfl; revert hc; decide
  rw [readQuoted]
  · rw [if_neg (by simp [hb, hn, hr])]
    cases readQuoted cs <;> rfl
  · exact hq
  all_goals
    intros
    exact hb (by assumption)

theorem readQuoted_short {e : Char} (h : e ∈ shortEscapes) (cs : List Char) :
    readQuoted ('\\' :: e :: cs) = (escapee? e).bind fun u =>
      (readQuoted cs).map fun (s, rest) => (u ++ s, rest) := by
  have hu : e ≠ 'u' := by rintro rfl; revert h; decide
  have hx : e ≠ 'x' := by rintro rfl; revert h; decide
  have hr : e ≠ '\r' := by rintro rfl; revert h; decide
  rw [readQuoted]
  · cases escapee? e <;> cases readQuoted cs <;> rfl
  · intro _ _ _ _ _ he _
    exact hu he
  · intro _ _ _ he _
    exact hx he
  · intro _ he _
    exact hr he

theorem readQuoted_escape (c : Char) (cs : List Char) :
    readQuoted (escape c ++ cs) = (readQuoted cs).map fun (s, rest) => (c :: s, rest) := by
  have he := escaped c
  generalize escape c = e at he ⊢
  cases he with
  | short he hr =>
    rw [List.cons_append, List.cons_append, List.nil_append, readQuoted_short he, hr]
    rfl
  | unit hc =>
    obtain ⟨x, y, z, w, hx, hu⟩ := unit?_hex4 (n := c.toNat) (by omega)
    rw [unitEscape, hx]
    simp only [List.cons_append, List.nil_append, readQuoted]
    rw [hu, Option.bind_some, unitChar?, if_pos (by omega), Char.ofNat_toNat]
    cases readQuoted cs <;> rfl
  | plain hc hq hb => exact readQuoted_plain hc hq hb cs

theorem readQuoted_flatMap (cs rest : List Char) :
    readQuoted (cs.flatMap escape ++ '"' :: rest) = some (cs, rest) := by
  induction cs with
  | nil => rfl
  | cons c cs ih => rw [List.flatMap_cons, List.append_assoc, readQuoted_escape, ih]; rfl

theorem readLiteral_quoteWith (cs rest : List Char) :
    readLiteral (quoteWith escape cs ++ rest) = some (cs, rest) := by
  rw [quoteWith, List.cons_append, List.append_assoc]
  exact readQuoted_flatMap cs rest

end BlockMachine.Text
