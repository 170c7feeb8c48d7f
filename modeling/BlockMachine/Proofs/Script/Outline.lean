import BlockMachine.Proofs.Script.Awaitable
import BlockMachine.Proofs.Script.Nesting

namespace BlockMachine

namespace Outline

open Nesting (Quote)

/-- What a number or a literal says does not matter. -/
inductive Symbol where
  | word (cs : List Char)
  | number
  | literal
  | arrow
  | mark (c : Char)
deriving DecidableEq, Repr

inductive Bracket where
  | round
  | square
  | curly
deriving DecidableEq, Repr

inductive Token where
  | symbol (x : Symbol)
  | opening (b : Bracket)
  | closing (b : Bracket)
deriving DecidableEq, Repr

/-- What is being read. An equals sign may turn out to be the start of an arrow. -/
inductive Mode where
  | code
  | word (cs : List Char)
  | number
  | equals
  | literal (q : Quote)
  | escape (q : Quote)
deriving DecidableEq

def sign (c : Char) : Token :=
  if c = '(' then .opening .round
  else if c = ')' then .closing .round
  else if c = '[' then .opening .square
  else if c = ']' then .closing .square
  else if c = '\x7b' then .opening .curly
  else if c = '\x7d' then .closing .curly
  else .symbol (.mark c)

/-- A character behind a token that has come to its end. -/
def begin (c : Char) : List Token × Mode :=
  if Identifier.isWordChar c then ([], if c.isDigit then .number else .word [c])
  else if c = '"' then ([], .literal .double)
  else if c = '\'' then ([], .literal .single)
  else if c = '=' then ([], .equals)
  else if Text.isBlank c then ([], .code)
  else ([sign c], .code)

/-- The token that is being read, if it may end here. -/
def Mode.pending : Mode → List Token
  | .word cs => [.symbol (.word cs)]
  | .number => [.symbol .number]
  | .equals => [.symbol (.mark '=')]
  | _ => []

/-- One character: the tokens that it ends, and what is being read then. -/
def step (m : Mode) (c : Char) : List Token × Mode :=
  match m with
  | .code => begin c
  | .word cs =>
    if Identifier.isWordChar c then ([], .word (cs ++ [c]))
    else (m.pending ++ (begin c).1, (begin c).2)
  | .number =>
    if Identifier.isWordChar c then ([], .number)
    else (m.pending ++ (begin c).1, (begin c).2)
  | .equals =>
    if c = '>' then ([.symbol .arrow], .code) else (m.pending ++ (begin c).1, (begin c).2)
  | .literal q =>
    if c = '\\' then ([], .escape q)
    else if c = q.char then ([.symbol .literal], .code)
    else ([], .literal q)
  | .escape q => ([], .literal q)

/-- The tokens that characters end, and what is being read then. -/
def run (m : Mode) : List Char → List Token × Mode
  | [] => ([], m)
  | c :: cs => ((step m c).1 ++ (run (step m c).2 cs).1, (run (step m c).2 cs).2)

def finish (s : String) : Mode := (run .code s.toList).2

/-- The tokens of characters. A literal that is left open is none. -/
def lexed (cs : List Char) : List Token := (run .code cs).1 ++ (run .code cs).2.pending

def tokens (s : String) : List Token := lexed s.toList

example : tokens "f(x => 1 == \"=>\")" =
    [.symbol (.word ['f']), .opening .round, .symbol (.word ['x']), .symbol .arrow,
      .symbol .number, .symbol (.mark '='), .symbol (.mark '='), .symbol .literal,
      .closing .round] := by decide +kernel

section Run

variable {m : Mode} {c : Char} {cs ds : List Char}

theorem run_append (m : Mode) (cs ds : List Char) :
    run m (cs ++ ds) =
      ((run m cs).1 ++ (run (run m cs).2 ds).1, (run (run m cs).2 ds).2) := by
  induction cs generalizing m with
  | nil => rfl
  | cons c cs ih =>
    rw [List.cons_append, run, run, ih]
    simp only [List.append_assoc]

/-- The character ends the token that is being read. -/
def Mode.Yields (m : Mode) (c : Char) : Prop :=
  step m c = (m.pending ++ (begin c).1, (begin c).2)

theorem Mode.yields_code (c : Char) : Mode.code.Yields c := rfl

/-- Nothing that is being read can go on with the character, unless it is in a literal. -/
def isBreak (c : Char) : Bool := !Identifier.isWordChar c && c != '>'

/-- Outside of literals. -/
def Mode.isDone : Mode → Bool
  | .literal _ | .escape _ => false
  | _ => true

theorem Mode.yields_of_isBreak (hm : m.isDone = true) (hc : isBreak c = true) : m.Yields c := by
  simp only [isBreak, Bool.and_eq_true, Bool.not_eq_true', bne_iff_ne] at hc
  cases m with
  | code => rfl
  | word cs | number => rw [Yields, step, hc.1, if_neg (by decide)]
  | equals => rw [Yields, step, if_neg hc.2]
  | literal q | escape q => cases hm

theorem run_of_yields (h : m.Yields c) (cs : List Char) :
    run m (c :: cs) = (m.pending ++ (run .code (c :: cs)).1, (run .code (c :: cs)).2) := by
  rw [run, run, h, Mode.yields_code c, List.append_assoc]
  rfl

theorem isBreak_of_isBlank (h : Text.isBlank c = true) : isBreak c = true := by
  have hw : Identifier.isWordChar c = false := by
    cases hw : Identifier.isWordChar c with
    | false => rfl
    | true =>
      rw [Text.not_isBlank_of_isWordChar hw] at h
      cases h
  have hg : c ≠ '>' := by
    rintro rfl
    cases h
  rw [isBreak, hw, bne_iff_ne.2 hg]
  rfl

theorem begin_blank (h : Text.isBlank c = true) : begin c = ([], .code) := by
  have hb := isBreak_of_isBlank h
  simp only [isBreak, Bool.and_eq_true, Bool.not_eq_true', bne_iff_ne] at hb
  have hne : c ≠ '"' ∧ c ≠ '\'' ∧ c ≠ '=' := by
    refine ⟨?_, ?_, ?_⟩ <;> rintro rfl <;> cases h
  rw [begin, hb.1, if_neg (by decide), if_neg hne.1, if_neg hne.2.1, if_neg hne.2.2, if_pos h]

def Mode.rested : Mode → Mode
  | .literal q | .escape q => .literal q
  | _ => .code

theorem step_blank (m : Mode) (h : Text.isBlank c = true) : step m c = (m.pending, m.rested) := by
  have hy (hm : m.isDone = true) : step m c = (m.pending, .code) := by
    rw [Mode.yields_of_isBreak hm (isBreak_of_isBlank h), begin_blank h, List.append_nil]
  have hne (q : Quote) : c ≠ '\\' ∧ c ≠ q.char := by
    constructor
    · rintro rfl
      cases h
    · rintro rfl
      cases q <;> cases h
  cases m with
  | code | word ds | number | equals => exact hy rfl
  | literal q => exact (if_neg (hne q).1).trans (if_neg (hne q).2)
  | escape q => rfl

theorem run_rested (m : Mode) (hb : ∀ c ∈ cs, Text.isBlank c = true) :
    run m.rested cs = ([], m.rested) := by
  have hm : m.rested.pending = [] ∧ m.rested.rested = m.rested := by
    cases m <;> exact ⟨rfl, rfl⟩
  induction cs with
  | nil => rfl
  | cons c cs ih =>
    obtain ⟨hc, hcs⟩ := List.forall_mem_cons.1 hb
    rw [run, step_blank _ hc, hm.1, hm.2, ih hcs]
    rfl

theorem run_blanks (m : Mode) (hb : ∀ c ∈ cs, Text.isBlank c = true) (hn : cs ≠ []) :
    run m cs = (m.pending, m.rested) := by
  obtain ⟨c, cs, rfl⟩ := List.exists_cons_of_ne_nil hn
  obtain ⟨hc, hcs⟩ := List.forall_mem_cons.1 hb
  rw [run, step_blank m hc, run_rested m hcs, List.append_nil]

theorem run_continued {margin : List Char} (hm : ∀ d ∈ margin, d = ' ') (m : Mode)
    (cs : List Char) : run m (Text.continued margin cs) = run m cs := by
  induction cs generalizing m with
  | nil => rfl
  | cons c cs ih =>
    have hs : run (step m c).2 (Text.marginAfter margin c cs) = ([], (step m c).2) := by
      rw [Text.marginAfter]
      split
      · rename_i he
        have hc : Text.isLineBreak c = true := by
          simp only [Text.endsLine, Bool.and_eq_true] at he
          exact he.1.1
        rw [step_blank m (Text.isBlank_of_isLineBreak hc)]
        apply run_rested
        intro d hd
        rw [hm d hd]
        decide
      · rfl
    rw [Text.continued, run, run, run_append, hs, ih]
    rfl

theorem run_indent {margin : List Char} (hm : ∀ d ∈ margin, d = ' ') (cs : List Char) :
    run .code (Text.indent margin cs) = run .code cs := by
  have hs : run .code (if Text.startsBlank cs then [] else margin) = ([], .code) := by
    apply run_rested .code
    intro d hd
    split at hd
    · cases hd
    · rw [hm d hd]
      decide
  rw [Text.indent_eq, run_append, hs, run_continued hm]
  rfl

theorem run_trimLeft (cs : List Char) : run .code (Text.trimLeft cs) = run .code cs := by
  have he : cs = cs.takeWhile Text.isBlank ++ Text.trimLeft cs :=
    List.takeWhile_append_dropWhile.symm
  have hb := run_rested .code
    (List.all_eq_true.1 (List.all_takeWhile (p := Text.isBlank) (l := cs)))
  conv_rhs => rw [he, run_append]
  change _ = ((run Mode.code.rested _).1 ++ (run (run Mode.code.rested _).2 _).1,
    (run (run Mode.code.rested _).2 _).2)
  rw [hb]
  rfl

theorem run_trimRight (m : Mode) (cs : List Char) :
    (run m cs).1 ++ (run m cs).2.pending =
        (run m (Text.trimRight cs)).1 ++ (run m (Text.trimRight cs)).2.pending ∧
      ((run m cs).2.isDone = (run m (Text.trimRight cs)).2.isDone) := by
  have he : cs = Text.trimRight cs ++ (cs.reverse.takeWhile Text.isBlank).reverse := by
    rw [Text.trimRight, ← List.reverse_append, List.takeWhile_append_dropWhile,
      List.reverse_reverse]
  have hb : ∀ c ∈ (cs.reverse.takeWhile Text.isBlank).reverse, Text.isBlank c = true := fun c hc =>
    List.all_eq_true.1 List.all_takeWhile c (List.mem_reverse.1 hc)
  generalize Text.trimRight cs = ds at he ⊢
  generalize (cs.reverse.takeWhile Text.isBlank).reverse = es at he hb
  subst he
  by_cases hn : es = []
  · rw [hn, List.append_nil]
    exact ⟨rfl, rfl⟩
  · rw [run_append, run_blanks _ hb hn]
    generalize run m ds = x
    obtain ⟨ts, m'⟩ := x
    cases m' <;> exact ⟨by simp [Mode.pending, Mode.rested], rfl⟩

end Run

section Texts

variable {s t : String}

/-- A text that nothing in front of it runs into. -/
def Breaks (s : String) : Prop := s.toList.head?.any isBreak = true

instance (s : String) : Decidable (Breaks s) := inferInstanceAs (Decidable (_ = true))

theorem tokens_eq (s : String) : tokens s = (run .code s.toList).1 ++ (finish s).pending := rfl

theorem tokens_append (h : run (finish s) t.toList =
      ((finish s).pending ++ (run .code t.toList).1, finish t)) :
    tokens (s ++ t) = tokens s ++ tokens t ∧ finish (s ++ t) = finish t := by
  have hr : run .code (s ++ t).toList =
      ((run .code s.toList).1 ++ ((finish s).pending ++ (run .code t.toList).1), finish t) := by
    rw [String.toList_append, run_append]
    change (_ ++ (run (finish s) _).1, (run (finish s) _).2) = _
    rw [h]
  have hf : finish (s ++ t) = finish t := by rw [finish, hr]
  refine ⟨?_, hf⟩
  rw [tokens_eq, hf, hr, tokens_eq, tokens_eq]
  simp only [List.append_assoc]

theorem tokens_of_clear (h : finish s = .code) (t : String) :
    tokens (s ++ t) = tokens s ++ tokens t ∧ finish (s ++ t) = finish t := by
  apply tokens_append
  rw [h]
  rfl

theorem tokens_of_breaks (h : (finish s).isDone = true) (ht : Breaks t) :
    tokens (s ++ t) = tokens s ++ tokens t ∧ finish (s ++ t) = finish t := by
  apply tokens_append
  rw [finish.eq_1 t]
  rw [Breaks] at ht
  cases hc : t.toList with
  | nil =>
    rw [hc] at ht
    cases ht
  | cons c cs =>
    rw [hc] at ht
    exact run_of_yields (Mode.yields_of_isBreak h ht) cs

theorem tokens_between {l r : String} (hl : finish l = .code) (hs : (finish s).isDone = true)
    (hr : Breaks r) :
    tokens (l ++ s ++ r) = tokens l ++ tokens s ++ tokens r ∧ finish (l ++ s ++ r) = finish r := by
  obtain ⟨h₁, f₁⟩ := tokens_of_clear hl s
  obtain ⟨h₂, f₂⟩ := tokens_of_breaks (by rw [f₁, hs]) hr
  exact ⟨by rw [h₂, h₁], f₂⟩

theorem tokens_indented (s : String) :
    tokens (indented s) = tokens s ∧ finish (indented s) = finish s := by
  have hl : (indented s).toList = Text.indent [' ', ' '] s.toList := String.toList_ofList
  have hi : run .code (indented s).toList = run .code s.toList := by
    rw [hl, run_indent (by simp)]
  rw [tokens_eq, tokens_eq, finish, finish, hi]
  exact ⟨rfl, rfl⟩

theorem tokens_trimmed (s : String) :
    tokens (trimmed s) = tokens s ∧ (finish (trimmed s)).isDone = (finish s).isDone := by
  have h := run_trimRight .code (Text.trimLeft s.toList)
  rw [run_trimLeft] at h
  rw [tokens_eq, tokens_eq, finish, finish, trimmed, String.toList_ofList, Text.trim]
  exact ⟨h.1.symm, h.2.symm⟩

theorem tokens_of_allBlank (h : allBlank s = true) : tokens s = [] := by
  have hr := run_rested .code (List.all_eq_true.1 h)
  rw [tokens_eq, finish]
  change (run Mode.code.rested _).1 ++ (run Mode.code.rested _).2.pending = _
  rw [hr]
  rfl

end Texts

end Outline

open Outline

/-- Symbols one after the other, and among them what stands in brackets. -/
inductive Outline where
  | nil
  | symbol (x : Symbol) (rest : Outline)
  | group (b : Bracket) (inner rest : Outline)

namespace Outline

def append : Outline → Outline → Outline
  | .nil, p => p
  | .symbol x rest, p => .symbol x (append rest p)
  | .group b inner rest, p => .group b inner (append rest p)

instance : Append Outline := ⟨append⟩

section

variable (x : Symbol) (b : Bracket) (inner rest o p q : Outline)

@[simp] theorem nil_append : .nil ++ p = p := rfl

@[simp] theorem symbol_append : .symbol x rest ++ p = .symbol x (rest ++ p) := rfl

@[simp] theorem group_append : .group b inner rest ++ p = .group b inner (rest ++ p) := rfl

@[simp] theorem append_nil : o ++ .nil = o := by
  induction o with
  | nil => rfl
  | symbol x rest ih => rw [symbol_append, ih]
  | group b inner rest _ ih => rw [group_append, ih]

@[simp] theorem append_assoc : o ++ p ++ q = o ++ (p ++ q) := by
  induction o with
  | nil => rfl
  | symbol x rest ih => rw [symbol_append, symbol_append, symbol_append, ih]
  | group b inner rest _ ih => rw [group_append, group_append, group_append, ih]

end

def flatten : Outline → List Token
  | .nil => []
  | .symbol x rest => .symbol x :: flatten rest
  | .group b inner rest => .opening b :: (flatten inner ++ .closing b :: flatten rest)

theorem flatten_append (o p : Outline) : flatten (o ++ p) = flatten o ++ flatten p := by
  induction o with
  | nil => rfl
  | symbol x rest ih => rw [symbol_append, flatten, flatten, ih, List.cons_append]
  | group b inner rest _ ih =>
    rw [group_append, flatten, flatten, ih, List.cons_append, List.append_assoc, List.cons_append]

/-- The outline of tokens behind `top`, inside of brackets that are still open. -/
def nestFrom (outer : List (Bracket × Outline)) (top : Outline) : List Token → Option Outline
  | [] => if outer.isEmpty then some top else none
  | .symbol x :: ts => nestFrom outer (top ++ .symbol x .nil) ts
  | .opening b :: ts => nestFrom ((b, top) :: outer) .nil ts
  | .closing b :: ts =>
    match outer with
    | [] => none
    | (b', before) :: outer =>
      if b' = b then nestFrom outer (before ++ .group b top .nil) ts else none

theorem nestFrom_flatten (o : Outline) (outer : List (Bracket × Outline)) (top : Outline)
    (ts : List Token) : nestFrom outer top (flatten o ++ ts) = nestFrom outer (top ++ o) ts := by
  induction o generalizing outer top ts with
  | nil => rw [flatten, List.nil_append, append_nil]
  | symbol x rest ih => rw [flatten, List.cons_append, nestFrom, ih, append_assoc, symbol_append,
      nil_append]
  | group b inner rest ihi ih =>
    rw [flatten, List.cons_append, List.append_assoc, nestFrom, ihi, nil_append, List.cons_append,
      nestFrom, if_pos rfl, ih, append_assoc, group_append, nil_append]

/-- What stands in front of the brackets that are still open, with these brackets. -/
def openTokens : List (Bracket × Outline) → List Token
  | [] => []
  | (b, before) :: outer => openTokens outer ++ flatten before ++ [.opening b]

theorem flatten_of_nestFrom {outer : List (Bracket × Outline)} {top o : Outline} {ts : List Token}
    (h : nestFrom outer top ts = some o) : flatten o = openTokens outer ++ flatten top ++ ts := by
  induction ts generalizing outer top with
  | nil =>
    rw [nestFrom] at h
    split at h
    · rename_i he
      cases h
      rw [List.isEmpty_iff.1 he, List.append_nil]
      rfl
    · cases h
  | cons t ts ih =>
    cases t with
    | symbol x =>
      rw [ih h, flatten_append]
      simp [flatten]
    | opening b =>
      rw [ih h]
      simp [openTokens, flatten]
    | closing b =>
      cases outer with
      | nil => cases h
      | cons entry outer =>
        obtain ⟨b', before⟩ := entry
        rw [nestFrom] at h
        split at h
        · rename_i hb
          rw [ih h, flatten_append, hb]
          simp [openTokens, flatten]
        · cases h

/-- The outline of a text whose brackets match. -/
def ofText? (s : String) : Option Outline := nestFrom [] .nil (tokens s)

/-- A text with the outline, and no literal left open. -/
structure Of (s : String) (o : Outline) : Prop where
  tokens : tokens s = flatten o
  done : (finish s).isDone = true

section Of

variable {s t l r : String} {o p : Outline} {b : Bracket}

theorem Of.ofText? (h : Of s o) : ofText? s = some o := by
  rw [Outline.ofText?, h.tokens, ← List.append_nil (flatten o), nestFrom_flatten]
  rfl

theorem of_ofText? (h : ofText? s = some o) (hd : (finish s).isDone = true) : Of s o :=
  ⟨(flatten_of_nestFrom h).symm, hd⟩

theorem Of.append_of_clear (h : Of s o) (hc : finish s = .code) (ht : Of t p) :
    Of (s ++ t) (o ++ p) := by
  obtain ⟨hs, hf⟩ := tokens_of_clear hc t
  exact ⟨by rw [hs, h.tokens, ht.tokens, flatten_append], by rw [hf, ht.done]⟩

theorem Of.append_of_breaks (h : Of s o) (ht : Of t p) (hb : Breaks t) :
    Of (s ++ t) (o ++ p) := by
  obtain ⟨hs, hf⟩ := tokens_of_breaks h.done hb
  exact ⟨by rw [hs, h.tokens, ht.tokens, flatten_append], by rw [hf, ht.done]⟩

theorem Of.indented (h : Of s o) : Of (indented s) o := by
  obtain ⟨hs, hf⟩ := tokens_indented s
  exact ⟨hs.trans h.tokens, by rw [hf, h.done]⟩

theorem Of.trimmed (h : Of s o) : Of (trimmed s) o := by
  obtain ⟨hs, hf⟩ := tokens_trimmed s
  exact ⟨hs.trans h.tokens, hf.trans h.done⟩

/-- A text of one bracket. -/
structure IsBracket (s : String) (t : Token) : Prop where
  tokens : tokens s = [t]
  clear : finish s = .code
  breaks : Breaks s

instance (s : String) (t : Token) : Decidable (IsBracket s t) :=
  decidable_of_iff (tokens s = [t] ∧ finish s = .code ∧ Breaks s)
    ⟨fun h => ⟨h.1, h.2.1, h.2.2⟩, fun h => ⟨h.tokens, h.clear, h.breaks⟩⟩

theorem Of.group (h : Of s o) (ht : Of t p) (hl : IsBracket l (.opening b))
    (hr : IsBracket r (.closing b)) :
    Of (s ++ l ++ t ++ r) (o ++ .group b p .nil) ∧ finish (s ++ l ++ t ++ r) = .code := by
  obtain ⟨h₁, f₁⟩ := tokens_of_breaks h.done hl.breaks
  rw [hl.clear] at f₁
  obtain ⟨h₂, f₂⟩ := tokens_of_clear f₁ t
  obtain ⟨h₃, f₃⟩ := tokens_of_breaks (by rw [f₂]; exact ht.done) hr.breaks
  rw [hr.clear] at f₃
  refine ⟨⟨?_, by rw [f₃]; rfl⟩, f₃⟩
  rw [h₃, h₂, h₁, h.tokens, ht.tokens, hl.tokens, hr.tokens, flatten_append]
  simp [flatten]

theorem run_word {cs ds : List Char} (h : ∀ c ∈ ds, Identifier.isWordChar c = true) :
    run (.word cs) ds = ([], .word (cs ++ ds)) := by
  induction ds generalizing cs with
  | nil => rw [List.append_nil, run]
  | cons d ds ih =>
    obtain ⟨hd, hds⟩ := List.forall_mem_cons.1 h
    rw [run, step, if_pos hd, ih hds, List.append_assoc]
    rfl

def ofWord (s : String) : Outline := .symbol (.word s.toList) .nil

theorem of_word (h : Identifier.Spelled s.toList) : Of s (ofWord s) := by
  have hr : run .code s.toList = ([], .word s.toList) := by
    obtain ⟨⟨c, cs, hs, hd⟩, hw⟩ := h
    rw [hs] at hw ⊢
    obtain ⟨hc, hcs⟩ := List.forall_mem_cons.1 hw
    rw [run, step, begin, if_pos hc, hd, if_neg (by decide), run_word hcs]
    rfl
  constructor
  · rw [tokens_eq, finish, hr]
    rfl
  · rw [finish, hr]
    rfl

theorem of_identifier (name : String) : Of (identifier name) (ofWord (identifier name)) :=
  of_word (Identifier.valid_identifier name).toSpelled

theorem run_escape (c : Char) :
    run (.literal .double) (Text.escape c) = ([], .literal .double) := by
  have hx (n : Nat) : ∀ d ∈ Text.hex4 n, step (.literal .double) d = ([], .literal .double) := by
    have hall : ∀ k : Fin 16, step (.literal .double) (k : Nat).digitChar =
        ([], .literal .double) := by decide
    intro d hd
    obtain ⟨k, hk, rfl⟩ := List.mem_map.1 hd
    have hlt : k < 16 := by
      simp only [List.mem_cons, List.not_mem_nil, or_false] at hk
      omega
    exact hall ⟨k, hlt⟩
  have hs {cs : List Char} (h : ∀ d ∈ cs, step (.literal .double) d = ([], .literal .double)) :
      run (.literal .double) cs = ([], .literal .double) := by
    induction cs with
    | nil => rfl
    | cons d cs ih =>
      obtain ⟨hd, hcs⟩ := List.forall_mem_cons.1 h
      rw [run, hd, ih hcs]
      rfl
  have he := Text.escaped c
  generalize Text.escape c = e at he ⊢
  cases he with
  | short => rfl
  | unit =>
    change ((run (.literal .double) (Text.hex4 c.toNat)).1,
      (run (.literal .double) (Text.hex4 c.toNat)).2) = _
    rw [hs (hx c.toNat)]
  | plain _ hq hb =>
    apply hs
    intro d hd
    rw [List.mem_singleton.1 hd]
    exact (if_neg hb).trans (if_neg hq)

def ofLiteral : Outline := .symbol .literal .nil

theorem of_quoted (text : String) : Of (quoted text) ofLiteral ∧ finish (quoted text) = .code := by
  have hs (cs : List Char) :
      run (.literal .double) (cs.flatMap Text.escape) = ([], .literal .double) := by
    induction cs with
    | nil => rfl
    | cons c cs ih =>
      rw [List.flatMap_cons, run_append, run_escape, ih]
      rfl
  have hr : run .code (quoted text).toList = ([.symbol .literal], .code) := by
    rw [quoted, String.toList_ofList, Text.quoteWith, run]
    change ((run (.literal .double) _).1, (run (.literal .double) _).2) = _
    rw [run_append, hs]
    rfl
  refine ⟨⟨?_, ?_⟩, ?_⟩
  · rw [tokens_eq, finish, hr]
    rfl
  · rw [finish, hr]
    rfl
  · rw [finish, hr]

end Of

end Outline

end BlockMachine
