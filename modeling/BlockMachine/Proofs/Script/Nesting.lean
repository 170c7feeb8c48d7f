import BlockMachine.Proofs.Number.Characters
import BlockMachine.Proofs.Text.Indentation
import BlockMachine.Proofs.Text.Literal
import BlockMachine.Script.Fragment
import BlockMachine.Text.Lines

namespace BlockMachine.Nesting

inductive Quote where
  | single
  | double
deriving DecidableEq

def Quote.char : Quote → Char
  | .single => '\x27'
  | .double => '"'

/-- Where a scan stands: in code, in a literal, or behind a backslash in a literal. -/
inductive Mode where
  | code
  | literal (q : Quote)
  | escape (q : Quote)
deriving DecidableEq

/-- The mode, and the brackets that close those that are open, the innermost first. -/
structure Cursor where
  mode : Mode
  pending : List Char
deriving DecidableEq

/-- What a character is to the scan in code. -/
inductive Sign where
  | quote (q : Quote)
  | opening (closer : Char)
  | closing
  | plain
deriving DecidableEq

def sign (c : Char) : Sign :=
  if c = '"' then .quote .double
  else if c = '\x27' then .quote .single
  else if c = '(' then .opening ')'
  else if c = '[' then .opening ']'
  else if c = '\x7b' then .opening '\x7d'
  else if c = ')' ∨ c = ']' ∨ c = '\x7d' then .closing
  else .plain

/-- One character of code. A closing bracket has to be the one that is due. -/
def inCode (pending : List Char) (c : Char) : Option Cursor :=
  match sign c with
  | .quote q => some ⟨.literal q, pending⟩
  | .opening closer => some ⟨.code, closer :: pending⟩
  | .closing => if pending.head? = some c then some ⟨.code, pending.tail⟩ else none
  | .plain => some ⟨.code, pending⟩

/-- One character of a literal, which does not go on into the next line. -/
def inLiteral (q : Quote) (c : Char) : Option Mode :=
  if c = '\\' then some (.escape q)
  else if c = q.char then some .code
  else if c = '\n' ∨ c = '\r' then none
  else some (.literal q)

def advance : Cursor → Char → Option Cursor
  | ⟨.code, pending⟩, c => inCode pending c
  | ⟨.literal q, pending⟩, c => (inLiteral q c).map (⟨·, pending⟩)
  | ⟨.escape q, pending⟩, _ => some ⟨.literal q, pending⟩

def scan (k : Cursor) (cs : List Char) : Option Cursor := cs.foldlM advance k

/-- From code to code, with one stack of open brackets before the text and another behind it. -/
def Shifts (before after : List Char) (s : String) : Prop :=
  scan ⟨.code, before⟩ s.toList = some ⟨.code, after⟩

instance (before after : List Char) (s : String) : Decidable (Shifts before after s) :=
  inferInstanceAs (Decidable (_ = _))

/-- Every bracket of the text is closed in it, and so is every literal. -/
def Nested (s : String) : Prop := Shifts [] [] s

instance (s : String) : Decidable (Nested s) := inferInstanceAs (Decidable (Shifts [] [] s))

section Scan

variable {k k' : Cursor} {c : Char} {p q : List Char}

theorem scan_cons (cs : List Char) : scan k (c :: cs) = (advance k c).bind (scan · cs) := rfl

theorem scan_append (cs ds : List Char) : scan k (cs ++ ds) = (scan k cs).bind (scan · ds) :=
  List.foldlM_append

theorem advance_frame {m m' : Mode} (h : advance ⟨m, p⟩ c = some ⟨m', q⟩) (r : List Char) :
    advance ⟨m, p ++ r⟩ c = some ⟨m', q ++ r⟩ := by
  cases m with
  | code =>
    rw [advance, inCode] at h ⊢
    cases hs : sign c with
    | closing =>
      rw [hs] at h
      change (if p.head? = some c then _ else none) = _ at h
      split at h
      · rename_i hp
        obtain ⟨p, rfl⟩ := List.head?_eq_some_iff.1 hp
        cases h
        exact if_pos rfl
      · cases h
    | quote | opening | plain =>
      rw [hs] at h
      cases h
      rfl
  | literal =>
    obtain ⟨m, hm, he⟩ := Option.map_eq_some_iff.1 h
    cases he
    exact Option.map_eq_some_iff.2 ⟨m', hm, rfl⟩
  | escape =>
    cases h
    rfl

theorem scan_frame {m m' : Mode} {cs : List Char} (h : scan ⟨m, p⟩ cs = some ⟨m', q⟩)
    (r : List Char) : scan ⟨m, p ++ r⟩ cs = some ⟨m', q ++ r⟩ := by
  induction cs generalizing m p with
  | nil =>
    cases h
    rfl
  | cons c cs ih =>
    rw [scan_cons] at h ⊢
    obtain ⟨⟨m₁, p₁⟩, h₁, h₂⟩ := Option.bind_eq_some_iff.1 h
    rw [advance_frame h₁]
    exact ih h₂

theorem sign_eq_plain {c : Char} (h : c ∉ ['"', '\x27', '(', '[', '\x7b', ')', ']', '\x7d']) :
    sign c = .plain := by
  simp only [List.mem_cons, List.not_mem_nil, or_false, not_or] at h
  simp [sign, h]

theorem sign_of_class {p : Char → Bool}
    (hall : ['"', '\x27', '(', '[', '\x7b', ')', ']', '\x7d'].all (fun d => !p d) = true)
    (h : p c = true) : sign c = .plain := by
  apply sign_eq_plain
  intro hc
  have hn := List.all_eq_true.1 hall c hc
  rw [h] at hn
  cases hn

theorem sign_of_isBlank (h : Text.isBlank c = true) : sign c = .plain :=
  sign_of_class (by decide) h

theorem advance_plain (h : sign c = .plain) : advance ⟨.code, p⟩ c = some ⟨.code, p⟩ := by
  rw [advance, inCode, h]

theorem eq_of_advance_plain (h : sign c = .plain) (ha : advance k c = some ⟨.code, p⟩) :
    k = ⟨.code, p⟩ := by
  obtain ⟨m, q⟩ := k
  cases m with
  | code =>
    rw [advance_plain h] at ha
    cases ha
    rfl
  | literal q =>
    have hq : c ≠ q.char := by
      rintro rfl
      cases q <;> exact absurd h (by decide)
    obtain ⟨m, hm, he⟩ := Option.map_eq_some_iff.1 ha
    cases he
    rw [inLiteral, if_neg hq] at hm
    split at hm
    · cases hm
    · split at hm <;> cases hm
  | escape q => cases ha

theorem scan_plain {cs : List Char} (h : ∀ c ∈ cs, sign c = .plain) :
    scan ⟨.code, p⟩ cs = some ⟨.code, p⟩ := by
  induction cs with
  | nil => rfl
  | cons c cs ih =>
    obtain ⟨hc, hcs⟩ := List.forall_mem_cons.1 h
    rw [scan_cons, advance_plain hc]
    exact ih hcs

theorem eq_of_scan_plain {cs : List Char} (h : ∀ c ∈ cs, sign c = .plain)
    (hs : scan k cs = some ⟨.code, p⟩) : k = ⟨.code, p⟩ := by
  induction cs generalizing k with
  | nil =>
    cases hs
    rfl
  | cons c cs ih =>
    obtain ⟨hc, hcs⟩ := List.forall_mem_cons.1 h
    obtain ⟨k', ha, hs⟩ := Option.bind_eq_some_iff.1 hs
    rw [ih hcs hs] at ha
    exact eq_of_advance_plain hc ha

theorem scan_spaces_of_break {margin : List Char} (hm : ∀ d ∈ margin, d = ' ')
    (hc : Text.isLineBreak c = true) (h : advance k c = some k') : scan k' margin = some k' := by
  have hmode : ∀ q, k'.mode ≠ .escape q := by
    intro q he
    obtain ⟨m, p⟩ := k
    cases m with
    | code =>
      rw [advance_plain (sign_of_isBlank (Text.isBlank_of_isLineBreak hc))] at h
      cases h
      cases he
    | literal =>
      obtain ⟨m, hm, rfl⟩ := Option.map_eq_some_iff.1 h
      cases he
      rw [inLiteral] at hm
      split at hm
      · rename_i hb
        exact absurd (hb ▸ hc) (by decide)
      · split at hm
        · cases hm
        · split at hm <;> cases hm
    | escape =>
      cases h
      cases he
  have hspace : advance k' ' ' = some k' := by
    obtain ⟨m, p⟩ := k'
    cases m with
    | code => exact advance_plain (by decide)
    | literal q => cases q <;> rfl
    | escape q => exact absurd rfl (hmode q)
  induction margin with
  | nil => rfl
  | cons d margin ih =>
    obtain ⟨hd, hm⟩ := List.forall_mem_cons.1 hm
    rw [scan_cons, hd, hspace]
    exact ih hm

theorem scan_continued {margin : List Char} (hm : ∀ d ∈ margin, d = ' ') (cs : List Char) :
    scan k (Text.continued margin cs) = scan k cs := by
  induction cs generalizing k with
  | nil => rfl
  | cons c cs ih =>
    rw [Text.continued, scan_cons, scan_cons]
    cases ha : advance k c with
    | none => rfl
    | some k' =>
      change scan k' (_ ++ _) = scan k' cs
      have hs : scan k' (Text.marginAfter margin c cs) = some k' := by
        rw [Text.marginAfter]
        split
        · rename_i he
          have hc : Text.isLineBreak c = true := by
            simp only [Text.endsLine, Bool.and_eq_true] at he
            exact he.1.1
          exact scan_spaces_of_break hm hc ha
        · rfl
      rw [scan_append, hs]
      exact ih

theorem scan_indent {margin : List Char} (hm : ∀ d ∈ margin, d = ' ') (cs : List Char) :
    scan ⟨.code, p⟩ (Text.indent margin cs) = scan ⟨.code, p⟩ cs := by
  have hs : scan ⟨.code, p⟩ (if Text.startsBlank cs then [] else margin) = some ⟨.code, p⟩ := by
    split
    · rfl
    · apply scan_plain
      intro d hd
      rw [hm d hd]
      decide
  rw [Text.indent_eq, scan_append, hs]
  exact scan_continued hm cs

theorem scan_trimLeft (cs : List Char) :
    scan ⟨.code, p⟩ (Text.trimLeft cs) = scan ⟨.code, p⟩ cs := by
  induction cs with
  | nil => rfl
  | cons c cs ih =>
    rw [Text.trimLeft, List.dropWhile_cons]
    split
    · rename_i hb
      rw [scan_cons, advance_plain (sign_of_isBlank hb)]
      exact ih
    · rfl

theorem scan_of_append_plain {cs ds : List Char} (hd : ∀ d ∈ ds, sign d = .plain)
    (h : scan k (cs ++ ds) = some ⟨.code, p⟩) : scan k cs = some ⟨.code, p⟩ := by
  rw [scan_append] at h
  obtain ⟨k', hk, hs⟩ := Option.bind_eq_some_iff.1 h
  rw [hk, eq_of_scan_plain hd hs]

theorem scan_trim {cs : List Char} (h : scan ⟨.code, p⟩ cs = some ⟨.code, q⟩) :
    scan ⟨.code, p⟩ (Text.trim cs) = some ⟨.code, q⟩ := by
  rw [← scan_trimLeft] at h
  rw [Text.trim]
  generalize Text.trimLeft cs = ds at h ⊢
  have he : ds = Text.trimRight ds ++ (ds.reverse.takeWhile Text.isBlank).reverse := by
    rw [Text.trimRight, ← List.reverse_append, List.takeWhile_append_dropWhile,
      List.reverse_reverse]
  rw [he] at h
  apply scan_of_append_plain _ h
  intro d hd
  exact sign_of_isBlank (List.all_eq_true.1 List.all_takeWhile d (List.mem_reverse.1 hd))

theorem scan_dropFinal {cs : List Char} (hc : sign c = .plain)
    (h : scan k cs = some ⟨.code, q⟩) : scan k (Text.dropFinal c cs) = some ⟨.code, q⟩ := by
  rw [Text.dropFinal]
  split
  · rename_i hl
    have he : cs = cs.dropLast ++ [c] := by
      obtain ⟨ds, rfl⟩ := List.getLast?_eq_some_iff.1 hl
      rw [List.dropLast_concat]
    rw [he] at h
    exact scan_of_append_plain (by simpa using hc) h
  · exact h

end Scan

section Texts

variable {a b c : List Char} {s t : String}

theorem Shifts.append (hs : Shifts a b s) (ht : Shifts b c t) : Shifts a c (s ++ t) := by
  rw [Shifts, String.toList_append, scan_append, hs]
  exact ht

namespace Nested

theorem shifts (h : Nested s) (a : List Char) : Shifts a a s := scan_frame h a

theorem indented (h : Nested s) : Nested (indented s) := by
  have hi : (BlockMachine.indented s).toList = Text.indent [' ', ' '] s.toList :=
    String.toList_ofList
  rw [Nested, Shifts, hi, scan_indent (by simp)]
  exact h

theorem trimmed (h : Nested s) : Nested (trimmed s) := by
  rw [Nested, Shifts, BlockMachine.trimmed, String.toList_ofList]
  exact scan_trim h

theorem bareRecord (h : Nested s) : Nested (Fragment.bareRecord s) := by
  rw [Nested, Shifts, Fragment.bareRecord, String.toList_ofList]
  exact scan_dropFinal (by decide) (scan_trim h)

end Nested

theorem scan_literal {p cs : List Char}
    (h : ∀ c ∈ cs, inLiteral .double c = some (.literal .double)) :
    scan ⟨.literal .double, p⟩ cs = some ⟨.literal .double, p⟩ := by
  induction cs with
  | nil => rfl
  | cons c cs ih =>
    obtain ⟨hc, hcs⟩ := List.forall_mem_cons.1 h
    rw [scan_cons, advance, hc]
    exact ih hcs

theorem inLiteral_hex4 (n : Nat) :
    ∀ c ∈ Text.hex4 n, inLiteral .double c = some (.literal .double) := by
  have hall : ∀ k : Fin 16, inLiteral .double (k : Nat).digitChar = some (.literal .double) := by
    decide
  intro c hc
  obtain ⟨k, hk, rfl⟩ := List.mem_map.1 hc
  have hlt : k < 16 := by
    simp only [List.mem_cons, List.not_mem_nil, or_false] at hk
    omega
  exact hall ⟨k, hlt⟩

theorem scan_escape (p : List Char) (c : Char) :
    scan ⟨.literal .double, p⟩ (Text.escape c) = some ⟨.literal .double, p⟩ := by
  have he := Text.escaped c
  generalize Text.escape c = e at he ⊢
  cases he with
  | short => rfl
  | unit =>
    rw [Text.unitEscape, scan_cons]
    exact scan_literal (inLiteral_hex4 c.toNat)
  | plain hc hq hb =>
    have hn : ¬ (c = '\n' ∨ c = '\r') := by
      rintro (rfl | rfl) <;> exact absurd hc (by decide)
    apply scan_literal
    intro d hd
    rw [List.mem_singleton.1 hd, inLiteral, if_neg hb, Quote.char, if_neg hq, if_neg hn]

theorem nested_quoted (s : String) : Nested (quoted s) := by
  have hs (p : List Char) (cs : List Char) :
      scan ⟨.literal .double, p⟩ (cs.flatMap Text.escape) = some ⟨.literal .double, p⟩ := by
    induction cs with
    | nil => rfl
    | cons c cs ih =>
      rw [List.flatMap_cons, scan_append, scan_escape]
      exact ih
  rw [Nested, Shifts, quoted, String.toList_ofList, Text.quoteWith, scan_cons]
  change scan ⟨.literal .double, []⟩ _ = _
  rw [scan_append, hs]
  rfl

theorem sign_of_isWordChar {c : Char} (h : Identifier.isWordChar c = true) : sign c = .plain :=
  sign_of_class (by decide) h

end Texts

end BlockMachine.Nesting
