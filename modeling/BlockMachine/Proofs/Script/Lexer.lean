import BlockMachine.Script.Identifier

namespace BlockMachine.Lexer

/-- What a number or a string says does not matter to the grammar. -/
inductive Token where
  | word (cs : List Char)
  | number
  | string
  | mark (cs : List Char)
deriving DecidableEq, Repr

/-- How far a number has come. -/
inductive Phase where
  | zero
  | whole
  | fraction
  | exponent
  | sign
  | power
deriving DecidableEq, Repr

/-- The token that is being read. -/
inductive State where
  | ready
  | word (cs : List Char)
  | number (p : Phase)
  | string (quote : Char)
  | escape (quote : Char)
  | unit (quote : Char) (left : Nat)
  | mark (cs : List Char)
deriving DecidableEq, Repr

def marks : List (List Char) :=
  [['\x7b'], ['\x7d'], ['('], [')'], ['['], [']'], [';'], [','], [':'], ['~'], ['.'],
    ['.', '.', '.'], ['<'], ['>'], ['<', '='], ['>', '='], ['=', '='], ['!', '='], ['=', '=', '='],
    ['!', '=', '='], ['+'], ['-'], ['*'], ['/'], ['%'], ['*', '*'], ['+', '+'], ['-', '-'],
    ['<', '<'], ['>', '>'], ['>', '>', '>'], ['&'], ['|'], ['^'], ['!'], ['&', '&'], ['|', '|'],
    ['?', '?'], ['?'], ['?', '.'], ['='], ['+', '='], ['-', '='], ['*', '='], ['/', '='],
    ['%', '='], ['*', '*', '='], ['<', '<', '='], ['>', '>', '='], ['>', '>', '>', '='],
    ['&', '='], ['|', '='], ['^', '='], ['&', '&', '='], ['|', '|', '='], ['?', '?', '='],
    ['=', '>']]

/-- What a mark can grow from: the marks, and two dots, which are none yet. -/
def partialMarks : List (List Char) := ['.', '.'] :: marks

def isBlank (c : Char) : Bool := c == ' ' || c == '\n' || c == '\t' || c == '\r'

def begin (c : Char) : Option State :=
  if isBlank c then some .ready
  else if c = '0' then some (.number .zero)
  else if c.isDigit then some (.number .whole)
  else if Identifier.isWordChar c then some (.word [c])
  else if c = '"' ∨ c = '\'' then some (.string c)
  else if marks.contains [c] then some (.mark [c])
  else none

def Phase.isComplete : Phase → Bool
  | .exponent | .sign => false
  | _ => true

def Phase.digit? : Phase → Option Phase
  | .zero => none
  | .whole => some .whole
  | .fraction => some .fraction
  | .exponent | .sign | .power => some .power

def Phase.point? : Phase → Option Phase
  | .zero | .whole => some .fraction
  | _ => none

def Phase.exponent? : Phase → Option Phase
  | .zero | .whole | .fraction => some .exponent
  | _ => none

def Phase.sign? : Phase → Option Phase
  | .exponent => some .sign
  | _ => none

def Phase.next (p : Phase) (c : Char) : Option Phase :=
  if c.isDigit then p.digit?
  else if c = '.' then p.point?
  else if c = 'e' ∨ c = 'E' then p.exponent?
  else if c = '+' ∨ c = '-' then p.sign?
  else none

def isShortEscape (c : Char) : Bool := "bfnrtv\"'\\".toList.contains c

def isHexDigit (c : Char) : Bool :=
  c.isDigit || "abcdefABCDEF".toList.contains c

/-- The tokens that a token makes, if it ends here. -/
def State.pending : State → List Token
  | .word cs => [.word cs]
  | .number _ => [.number]
  | .mark cs => [.mark cs]
  | _ => []

def State.isComplete : State → Bool
  | .ready | .word _ => true
  | .number p => p.isComplete
  | .mark cs => marks.contains cs
  | _ => false

/-- The token ends, and the character begins another one. -/
def State.flush (s : State) (c : Char) : Option (List Token × State) :=
  if s.isComplete then (begin c).map (s.pending, ·) else none

/-- One character: the tokens that it ends, and the token that is being read then. -/
def step (s : State) (c : Char) : Option (List Token × State) :=
  match s with
  | .ready => s.flush c
  | .word cs => if Identifier.isWordChar c then some ([], .word (cs ++ [c])) else s.flush c
  | .number p =>
    match p.next c with
    | some q => some ([], .number q)
    | none => if Identifier.isWordChar c then none else s.flush c
  | .string quote =>
    if c = quote then some ([.string], .ready)
    else if c = '\\' then some ([], .escape quote)
    else if c = '\n' ∨ c = '\r' then none
    else some ([], .string quote)
  | .escape quote =>
    if c = 'u' then some ([], .unit quote 4)
    else if isShortEscape c then some ([], .string quote)
    else none
  | .unit quote left =>
    if isHexDigit c then some ([], if left = 1 then .string quote else .unit quote (left - 1))
    else none
  | .mark cs =>
    if cs = ['.'] ∧ c.isDigit then some ([], .number .fraction)
    else if cs = ['/'] ∧ (c = '/' ∨ c = '*') then none
    else if partialMarks.contains (cs ++ [c]) then some ([], .mark (cs ++ [c]))
    else s.flush c

/-- The tokens that characters end, and the token that is being read then. -/
def run (s : State) : List Char → Option (List Token × State)
  | [] => some ([], s)
  | c :: cs => do
    let (ts, s) ← step s c
    let (us, s) ← run s cs
    return (ts ++ us, s)

def lex (text : String) : Option (List Token) :=
  match run .ready text.toList with
  | some (ts, s) => if s.isComplete then some (ts ++ s.pending) else none
  | none => none

example : lex "a.x == -1.5e3" = some [.word ['a'], .mark ['.'], .word ['x'], .mark ['=', '='],
    .mark ['-'], .number] := by decide +kernel

/-- The dot belongs to the number, which then runs into the word. -/
example : lex "5.x" = none := by decide +kernel

theorem run_append (s : State) (cs ds : List Char) :
    run s (cs ++ ds) =
      (run s cs).bind fun (ts, s) => (run s ds).map fun (us, s) => (ts ++ us, s) := by
  induction cs generalizing s with
  | nil =>
    change run s ds = (run s ds).map fun (us, s) => ([] ++ us, s)
    cases run s ds <;> rfl
  | cons c cs ih =>
    rw [List.cons_append, run, run]
    cases hc : step s c with
    | none => rfl
    | some p =>
      obtain ⟨ts, s'⟩ := p
      change (run s' (cs ++ ds)).bind _ = ((run s' cs).bind _).bind _
      rw [ih]
      cases run s' cs with
      | none => rfl
      | some q =>
        obtain ⟨us, s''⟩ := q
        change ((run s'' ds).map _).bind _ = (run s'' ds).map _
        cases run s'' ds with
        | none => rfl
        | some r =>
          change some (ts ++ (us ++ r.1), r.2) = some (ts ++ us ++ r.1, r.2)
          rw [List.append_assoc]

/-- From one state to another, characters make the tokens, when that of the first state is counted
and that of the last one too. -/
def Lexes (s : State) (cs : List Char) (ts : List Token) (s' : State) : Prop :=
  ∃ us, run s cs = some (us, s') ∧ us ++ s'.pending = s.pending ++ ts

/-- Characters that make the tokens, unless something is bad about them and they are stuck. -/
structure Passes (bad : Prop) (s : State) (cs : List Char) (ts : List Token) (s' : State) :
    Prop where
  lexes : ¬ bad → Lexes s cs ts s'
  stuck : bad → run s cs = none

variable {s s' s'' : State} {cs ds : List Char} {ts us : List Token} {c : Char} {bad worse : Prop}

theorem Lexes.append (h : Lexes s cs ts s') (h' : Lexes s' ds us s'') :
    Lexes s (cs ++ ds) (ts ++ us) s'' := by
  obtain ⟨as, ha, he⟩ := h
  obtain ⟨bs, hb, hf⟩ := h'
  refine ⟨as ++ bs, ?_, ?_⟩
  · rw [run_append, ha]
    change (run s' ds).map _ = _
    rw [hb]
    rfl
  · rw [List.append_assoc, hf, ← List.append_assoc, he, List.append_assoc]

theorem Lexes.passes (h : Lexes s cs ts s') : Passes False s cs ts s' := ⟨fun _ => h, False.elim⟩

theorem Passes.congr (h : Passes bad s cs ts s') (hb : bad ↔ worse) : Passes worse s cs ts s' := by
  rw [← propext hb]
  exact h

theorem Passes.append (h : Passes bad s cs ts s') (h' : Passes worse s' ds us s'') :
    Passes (bad ∨ worse) s (cs ++ ds) (ts ++ us) s'' := by
  constructor
  · intro hn
    exact (h.lexes fun hb => hn (.inl hb)).append (h'.lexes fun hw => hn (.inr hw))
  · intro hb
    rw [run_append]
    by_cases hc : bad
    · rw [h.stuck hc]
      rfl
    · obtain ⟨as, ha, -⟩ := h.lexes hc
      rw [ha]
      change (run s' ds).map _ = _
      rw [h'.stuck (hb.resolve_left hc)]
      rfl

theorem Lexes.append_passes (h : Lexes s cs ts s') (h' : Passes bad s' ds us s'') :
    Passes bad s (cs ++ ds) (ts ++ us) s'' :=
  (h.passes.append h').congr (iff_of_eq (false_or bad))

theorem Passes.append_lexes (h : Passes bad s cs ts s') (h' : Lexes s' ds us s'') :
    Passes bad s (cs ++ ds) (ts ++ us) s'' :=
  (h.append h'.passes).congr (iff_of_eq (or_false bad))

theorem Passes.lex_eq {text : String} (h : Passes bad .ready text.toList ts s)
    (hs : s.isComplete = true) : (¬ bad → lex text = some ts) ∧ (bad → lex text = none) := by
  rw [lex]
  constructor
  · intro hn
    obtain ⟨as, ha, he⟩ := h.lexes hn
    rw [ha]
    dsimp only
    rw [if_pos hs, he]
    rfl
  · intro hb
    rw [h.stuck hb]

/-- The character ends the token that is being read. -/
def State.Yields (s : State) (c : Char) : Prop := step s c = (begin c).map (s.pending, ·)

instance (s : State) (c : Char) : Decidable (s.Yields c) :=
  inferInstanceAs (Decidable (step s c = _))

theorem State.yields_ready (c : Char) : State.ready.Yields c := rfl

theorem run_of_yields (h : s.Yields c) (cs : List Char) :
    run s (c :: cs) = (run .ready (c :: cs)).map fun (ts, s') => (s.pending ++ ts, s') := by
  rw [run, run, h, State.yields_ready c]
  cases begin c with
  | none => rfl
  | some s' =>
    change (run s' cs).bind _ = ((run s' cs).bind _).map _
    cases run s' cs <;> rfl

theorem Passes.of_yields (h : Passes bad .ready (c :: cs) ts s') (hs : s.Yields c) :
    Passes bad s (c :: cs) ts s' := by
  constructor
  · intro hn
    obtain ⟨as, ha, he⟩ := h.lexes hn
    refine ⟨s.pending ++ as, ?_, ?_⟩
    · rw [run_of_yields hs, ha]
      rfl
    · rw [List.append_assoc, he]
      rfl
  · intro hb
    rw [run_of_yields hs, h.stuck hb]
    rfl

theorem Lexes.of_yields (h : Lexes .ready (c :: cs) ts s') (hs : s.Yields c) :
    Lexes s (c :: cs) ts s' :=
  (h.passes.of_yields hs).lexes not_false

/-- The characters that can stand behind an expression in a text. -/
def followers : List Char := [' ', ')', ',', ']', '[', '(']

/-- Whether an expression can end with what is being read. -/
def State.isClosed : State → Bool
  | .ready | .word _ => true
  | .number p => p.isComplete
  | .mark cs => [[')'], [']'], ['\x7d']].contains cs
  | _ => false

/-- Whether it can also be followed by a dot: a whole number would take the dot as its own. -/
def State.takesDot : State → Bool
  | .number .zero | .number .whole => false
  | s => s.isClosed

theorem State.isComplete_of_isClosed (h : s.isClosed = true) : s.isComplete = true := by
  cases s with
  | ready | word cs => rfl
  | number p => exact h
  | string q | escape q | unit q n => cases h
  | mark cs =>
    have hm : ∀ cs ∈ [[')'], [']'], ['\x7d']], (State.mark cs).isComplete = true := by decide
    exact hm cs (List.contains_iff_mem.1 h)

theorem apart_of_mem_followers (h : c ∈ followers) :
    Identifier.isWordChar c = false ∧ (∀ p : Phase, p.next c = none) ∧
      ∀ cs ∈ [[')'], [']'], ['\x7d']], (State.mark cs).Yields c := by
  simp only [followers, List.mem_cons, List.not_mem_nil, or_false] at h
  rcases h with rfl | rfl | rfl | rfl | rfl | rfl
  all_goals exact ⟨rfl, fun p => by cases p <;> rfl, by decide⟩

theorem State.yields_of_isClosed (h : s.isClosed = true) (hc : c ∈ followers) : s.Yields c := by
  obtain ⟨hw, hn, hm⟩ := apart_of_mem_followers hc
  cases s with
  | ready => exact yields_ready c
  | word cs =>
    rw [Yields, step, if_neg (by rw [hw]; decide)]
    rfl
  | number p =>
    rw [Yields, step, hn p]
    dsimp only
    rw [if_neg (by rw [hw]; decide), flush]
    exact if_pos h
  | string q | escape q | unit q n => cases h
  | mark cs => exact hm cs (List.contains_iff_mem.1 h)

theorem State.yields_of_takesDot (h : s.takesDot = true) : s.Yields '.' := by
  cases s with
  | ready | word cs => rfl
  | number p => cases p <;> first | rfl | cases h
  | string q | escape q | unit q n => cases h
  | mark cs =>
    have hm : ∀ cs ∈ [[')'], [']'], ['\x7d']], (State.mark cs).Yields '.' := by decide
    exact hm cs (List.contains_iff_mem.1 h)

theorem State.whole_of_takesDot (h : s.isClosed = true) (hd : s.takesDot = false) :
    s = .number .zero ∨ s = .number .whole := by
  cases s with
  | number p =>
    cases p with
    | zero => exact .inl rfl
    | whole => exact .inr rfl
    | fraction | power => cases hd
    | exponent | sign => cases h
  | ready | word cs => cases hd
  | string q | escape q | unit q n => cases h
  | mark cs =>
    change (mark cs).isClosed = false at hd
    rw [h] at hd
    cases hd

/-- Whether a character can begin an expression. -/
def isStarter (c : Char) : Bool :=
  Identifier.isWordChar c || "\"'([\x7b-!.".toList.contains c

/-- The states in which an expression is begun. -/
def State.isOpen : State → Bool
  | .ready => true
  | .mark cs => [['('], ['['], ['!'], ['.', '.', '.']].contains cs
  | _ => false

theorem State.yields_of_isOpen (h : s.isOpen = true) (hc : isStarter c = true) : s.Yields c := by
  cases s with
  | ready => exact yields_ready c
  | word cs | number p | string q | escape q | unit q n => cases h
  | mark cs =>
    have hall : ∀ cs ∈ [['('], ['['], ['!'], ['.', '.', '.']],
        cs ≠ ['.'] ∧ cs ≠ ['/'] ∧ marks.contains cs = true ∧
          ∀ ds ∈ partialMarks, ds.dropLast = cs → ds.getLast? = some '=' := by
      decide +kernel
    obtain ⟨hd, hs, hm, hp⟩ := hall cs (List.contains_iff_mem.1 h)
    -- Of the open marks only `!` can grow, and no expression begins with what it grows by.
    have hn : ¬ partialMarks.contains (cs ++ [c]) = true := by
      intro hm
      have hl := hp _ (List.contains_iff_mem.1 hm) List.dropLast_concat
      rw [List.getLast?_concat] at hl
      rw [Option.some.inj hl] at hc
      exact absurd hc (by decide)
    rw [Yields, step, if_neg fun h => hd h.1, if_neg fun h => hs h.1, if_neg hn, flush]
    exact if_pos hm

end BlockMachine.Lexer
