import BlockMachine.Proofs.Script.Readback
import BlockMachine.Proofs.Text.Digits

namespace BlockMachine.Script

variable {α : Type} {order : α → Order}

/-- Every run of digits as one symbol; `pending` is the number of the run that was begun. -/
def numeralsFrom (pending : Option Nat) : List Char → List (Symbol Nat)
  | [] => pending.toList.map .inr
  | c :: cs =>
    if c.isDigit then numeralsFrom (some (10 * pending.getD 0 + (c.toNat - '0'.toNat))) cs
    else pending.toList.map .inr ++ .inl c :: numeralsFrom none cs

/-- A text with its operands, known by their texts and from left to right, as single symbols. -/
def mask (shown : α → List Char) (operands : List α) (cs : List Char) : List (Symbol α) :=
  match operands with
  | [] => cs.map .inl
  | a :: rest =>
    if (shown a).isPrefixOf cs then .inr a :: mask shown rest (cs.drop (shown a).length)
    else
      match cs with
      | [] => []
      | c :: cs => .inl c :: mask shown (a :: rest) cs
termination_by operands.length + cs.length
decreasing_by all_goals simp only [List.length_drop, List.length_cons]; omega

def readNumeric (text : String) : Option (Term Nat) :=
  (lex (numeralsFrom none text.toList)).bind (parse fun _ => .atomic)

/-- The term that a text is, with the given expressions as its operands. -/
def readAround (operands : List Expression) (text : String) : Option (Term Expression) :=
  (lex (mask (·.text.toList) operands text.toList)).bind (parse Expression.order)

def Separate : List (Piece α) → Prop
  | [] => True
  | .mark _ :: ps => Separate ps
  | .operand _ :: ps | .negative _ :: ps =>
    (∀ p ∈ ps.head?, ∃ m, p = .mark m) ∧ Separate ps

theorem Separate.append {ps qs : List (Piece α)} (hp : Separate ps) (m : Mark)
    (hq : Separate qs) : Separate (ps ++ .mark m :: qs) := by
  induction ps with
  | nil => exact hq
  | cons p ps ih =>
    cases p with
    | mark n => exact ih hp
    | operand a =>
      refine ⟨?_, ih hp.2⟩
      cases ps with
      | nil => simp
      | cons q ps => exact hp.1
    | negative a =>
      refine ⟨?_, ih hp.2⟩
      cases ps with
      | nil => simp
      | cons q ps => exact hp.1

theorem Separate.append_mark {ps : List (Piece α)} (hp : Separate ps) (m : Mark) :
    Separate (ps ++ [.mark m]) :=
  hp.append m trivial

theorem Separate.enclosed {ps : List (Piece α)} (h : Separate ps) (parens : Bool) :
    Separate (enclosed parens ps) := by
  cases parens with
  | true => exact h.append_mark .closing
  | false => exact h

theorem Term.separate_pieces (e : Term α) : Separate (e.pieces order) := by
  induction e with
  | operand a => simp [Term.pieces, Separate]
  | negative a => simp [Term.pieces, Separate]
  | negation e ih => exact ih.enclosed _
  | binary o a b iha ihb => exact (iha.enclosed _).append _ (ihb.enclosed _)
  | choice c a b ihc iha ihb =>
    exact (ihc.enclosed _).append _ ((iha.enclosed _).append _ (ihb.enclosed _))
  | power a b iha ihb =>
    exact (iha.enclosed _).append .comma ((ihb.enclosed _).append_mark .closing)

theorem numeralsFrom_digits {ds : List Char} (hd : ∀ c ∈ ds, c.isDigit) (n : Nat)
    (cs : List Char) :
    numeralsFrom (some n) (ds ++ cs) = numeralsFrom (some (Nat.ofDigitChars 10 ds n)) cs := by
  induction ds generalizing n with
  | nil => rfl
  | cons d ds ih =>
    rw [List.cons_append, numeralsFrom, if_pos (hd d List.mem_cons_self)]
    exact ih (fun c hc => hd c (List.mem_cons_of_mem d hc)) _

theorem numeralsFrom_toDigits (n : Nat) {cs : List Char} (h : ∀ c ∈ cs.head?, ¬ c.isDigit) :
    numeralsFrom none (Nat.toDigits 10 n ++ cs) = .inr n :: numeralsFrom none cs := by
  have hd := Text.isDigit_toDigits n
  have hv : Nat.ofDigitChars 10 (Nat.toDigits 10 n) 0 = n :=
    Nat.ofDigitChars_toDigits (by decide) (by decide)
  have hs : numeralsFrom none (Nat.toDigits 10 n ++ cs) =
      numeralsFrom (some 0) (Nat.toDigits 10 n ++ cs) := by
    cases he : Nat.toDigits 10 n with
    | nil => exact absurd he Nat.toDigits_ne_nil
    | cons d ds =>
      have hdd := hd d (by rw [he]; exact List.mem_cons_self)
      simp [numeralsFrom, hdd]
  rw [hs, numeralsFrom_digits hd, hv]
  cases cs with
  | nil => rfl
  | cons c cs =>
    have hc := h c rfl
    simp [numeralsFrom, hc]

theorem numeralsFrom_mark (m : Mark) (cs : List Char) :
    numeralsFrom none (m.spelling ++ cs) = m.spelling.map .inl ++ numeralsFrom none cs := by
  cases m with
  | operator o => cases o <;> rfl
  | _ => rfl

theorem not_isDigit_head_spell (shown : α → List Char) {ps : List (Piece α)}
    (h : ∀ p ∈ ps.head?, ∃ m, p = .mark m) :
    ∀ c ∈ (spell shown (ps.flatMap Piece.symbols)).head?, ¬ c.isDigit := by
  cases ps with
  | nil => simp [spell]
  | cons p ps =>
    obtain ⟨m, rfl⟩ := h p rfl
    cases m <;> simp [spell, Piece.symbols, Mark.spelling]

theorem numeralsFrom_spell {ps : List (Piece Nat)} (h : Separate ps) :
    numeralsFrom none (spell (Nat.toDigits 10) (ps.flatMap Piece.symbols)) =
      ps.flatMap Piece.symbols := by
  induction ps with
  | nil => rfl
  | cons p ps ih =>
    rw [List.flatMap_cons, spell_append]
    cases p with
    | mark m =>
      rw [spell_mark, numeralsFrom_mark, ih h]
      rfl
    | operand n =>
      rw [spell_operand, numeralsFrom_toDigits n (not_isDigit_head_spell _ h.1), ih h.2]
      rfl
    | negative n =>
      rw [spell_negative, List.cons_append, numeralsFrom, if_neg (by decide),
        numeralsFrom_toDigits n (not_isDigit_head_spell _ h.1), ih h.2]
      rfl

/-- The characters of which marks are made, those of powers aside. -/
def markChars : List Char :=
  [' ', '(', ')', ',', '?', ':', '*', '/', '+', '-', '<', '>', '=', '!', '&', '|']

def isMarkChar (c : Char) : Bool := markChars.contains c

def Solid (cs : List Char) : Prop := ∃ c ∈ cs, ¬ isMarkChar c

theorem Solid.takeWhile_append {cs : List Char} (h : Solid cs) (ds : List Char) :
    (cs ++ ds).takeWhile isMarkChar = cs.takeWhile isMarkChar := by
  induction cs with
  | nil =>
    obtain ⟨c, hc, _⟩ := h
    cases hc
  | cons c cs ih =>
    rw [List.cons_append]
    by_cases hc : isMarkChar c
    · have hs : Solid cs := by
        obtain ⟨d, hd, hn⟩ := h
        rcases List.mem_cons.1 hd with he | hd
        · exact absurd (he ▸ hc) hn
        · exact ⟨d, hd, hn⟩
      rw [List.takeWhile_cons_of_pos hc, List.takeWhile_cons_of_pos hc, ih hs]
    · rw [List.takeWhile_cons_of_neg hc, List.takeWhile_cons_of_neg hc]

theorem Solid.not_isPrefixOf {cs ms : List Char} (h : Solid cs) (hm : ∀ c ∈ ms, isMarkChar c)
    (hne : ms ≠ []) (ds : List Char) : cs.isPrefixOf (ms ++ (cs ++ ds)) = false := by
  -- A prefix would begin with as many marks as the text itself, and there are more.
  rw [Bool.eq_false_iff]
  intro hp
  obtain ⟨us, hu⟩ := List.isPrefixOf_iff_prefix.1 hp
  have hw := congrArg (List.takeWhile isMarkChar) hu
  rw [h.takeWhile_append, List.takeWhile_append_of_pos hm, h.takeWhile_append] at hw
  have hl := congrArg List.length hw
  have := List.length_pos_iff.2 hne
  rw [List.length_append] at hl
  omega

def operandsOf (ss : List (Symbol α)) : List α := ss.filterMap Sum.getRight?

theorem spell_eq_of_operandsOf {shown : α → List Char} {ss : List (Symbol α)} {a : α} {as : List α}
    (hm : ∀ c, .inl c ∈ ss → isMarkChar c) (h : operandsOf ss = a :: as) :
    ∃ ms ds, (∀ c ∈ ms, isMarkChar c) ∧ spell shown ss = ms ++ (shown a ++ ds) := by
  induction ss with
  | nil => cases h
  | cons s ss ih =>
    cases s with
    | inl c =>
      obtain ⟨ms, ds, hms, hs⟩ := ih (fun c hc => hm c (List.mem_cons_of_mem _ hc)) h
      refine ⟨c :: ms, ds, ?_, congrArg (List.cons c) hs⟩
      intro d hd
      rcases List.mem_cons.1 hd with he | hd
      · exact he ▸ hm c List.mem_cons_self
      · exact hms d hd
    | inr b =>
      cases h
      exact ⟨[], spell shown ss, nofun, rfl⟩

theorem map_inl_of_operandsOf {shown : α → List Char} {ss : List (Symbol α)}
    (h : operandsOf ss = []) : (spell shown ss).map .inl = ss := by
  induction ss with
  | nil => rfl
  | cons s ss ih =>
    cases s with
    | inl c => exact congrArg (List.cons (.inl c)) (ih h)
    | inr b => cases h

theorem mask_operand (shown : α → List Char) (a : α) (as : List α) (ds : List Char) :
    mask shown (a :: as) (shown a ++ ds) = .inr a :: mask shown as ds := by
  have hp : (shown a).isPrefixOf (shown a ++ ds) = true :=
    List.isPrefixOf_iff_prefix.2 (List.prefix_append _ _)
  rw [mask.eq_def]
  simp only [hp, if_true, List.drop_left]

theorem mask_char {shown : α → List Char} {a : α} {as : List α} {c : Char} {cs : List Char}
    (h : (shown a).isPrefixOf (c :: cs) = false) :
    mask shown (a :: as) (c :: cs) = .inl c :: mask shown (a :: as) cs := by
  rw [mask, if_neg (by rw [h]; decide)]

theorem mask_spell {shown : α → List Char} {ss : List (Symbol α)}
    (hm : ∀ c, .inl c ∈ ss → isMarkChar c) (hs : ∀ a ∈ operandsOf ss, Solid (shown a)) :
    mask shown (operandsOf ss) (spell shown ss) = ss := by
  induction ss with
  | nil => rw [operandsOf, List.filterMap_nil, mask, spell, List.flatMap_nil, List.map_nil]
  | cons s ss ih =>
    have hm' : ∀ c, .inl c ∈ ss → isMarkChar c := fun c hc => hm c (List.mem_cons_of_mem _ hc)
    cases s with
    | inr a =>
      change mask shown (a :: operandsOf ss) (shown a ++ spell shown ss) = _
      rw [mask_operand, ih hm' (fun b hb => hs b (List.mem_cons_of_mem a hb))]
    | inl c =>
      change mask shown (operandsOf ss) (c :: spell shown ss) = _
      have ih := ih hm' hs
      cases ho : operandsOf ss with
      | nil =>
        rw [mask, List.map_cons, map_inl_of_operandsOf ho]
      | cons a as =>
        obtain ⟨ms, ds, hms, he⟩ := spell_eq_of_operandsOf hm' ho
        have hn : (shown a).isPrefixOf (c :: spell shown ss) = false := by
          rw [he, ← List.cons_append]
          apply (hs a (ho ▸ List.mem_cons_self)).not_isPrefixOf ?_ (List.cons_ne_nil c ms)
          intro d hd
          rcases List.mem_cons.1 hd with hd | hd
          · exact hd ▸ hm c List.mem_cons_self
          · exact hms d hd
        rw [mask_char hn, ← ho, ih]

def Piece.operands : Piece α → List α
  | .mark _ => []
  | .operand a => [a]
  | .negative a => [a]

theorem Piece.operandsOf_symbols (p : Piece α) : operandsOf p.symbols = p.operands := by
  cases p with
  | mark m =>
    cases m with
    | operator o => cases o <;> rfl
    | _ => rfl
  | operand a => rfl
  | negative a => rfl

theorem operandsOf_pieces (ps : List (Piece α)) :
    operandsOf (ps.flatMap Piece.symbols) = ps.flatMap Piece.operands := by
  induction ps with
  | nil => rfl
  | cons p ps ih =>
    rw [List.flatMap_cons, List.flatMap_cons, ← p.operandsOf_symbols, ← ih]
    exact List.filterMap_append

theorem flatMap_operands_enclosed (parens : Bool) (ps : List (Piece α)) :
    (enclosed parens ps).flatMap Piece.operands = ps.flatMap Piece.operands := by
  cases parens <;> simp [enclosed, Piece.operands]

theorem Term.operandsOf_symbols (order : α → Order) (e : Term α) :
    operandsOf (e.symbols order) = e.operands := by
  rw [Term.symbols, operandsOf_pieces]
  induction e with
  | operand a => rfl
  | negative a => rfl
  | negation e ih => simp [pieces, operands, flatMap_operands_enclosed, Piece.operands, ih]
  | binary o a b iha ihb =>
    simp [pieces, operands, flatMap_operands_enclosed, Piece.operands, iha, ihb]
  | choice c a b ihc iha ihb =>
    simp [pieces, operands, flatMap_operands_enclosed, Piece.operands, ihc, iha, ihb]
  | power a b iha ihb =>
    simp [pieces, operands, flatMap_operands_enclosed, Piece.operands, iha, ihb]

/-- A piece whose characters all are mark characters. -/
def Piece.IsMarked (p : Piece α) : Prop := ∀ c, .inl c ∈ p.symbols → isMarkChar c

theorem Piece.isMarked_mark {m : Mark} (h : m ≠ .power) : (Piece.mark m : Piece α).IsMarked := by
  intro c hc
  obtain ⟨d, hd, he⟩ := List.mem_map.1 hc
  cases he
  have hall : m.spelling.all isMarkChar := by
    cases m with
    | operator o => cases o <;> decide
    | power => exact absurd rfl h
    | _ => decide
  exact List.all_eq_true.1 hall c hd

theorem Mark.operator_ne_power (o : Operator) : Mark.operator o ≠ .power := nofun

theorem isMarked_enclosed {ps : List (Piece α)} (h : ∀ p ∈ ps, p.IsMarked) (parens : Bool) :
    ∀ p ∈ enclosed parens ps, p.IsMarked := by
  cases parens with
  | false => exact h
  | true =>
    simp only [enclosed, if_true, List.cons_append, List.forall_mem_cons, List.forall_mem_append]
    exact ⟨Piece.isMarked_mark (by decide), h, Piece.isMarked_mark (by decide),
      List.forall_mem_nil _⟩

namespace Term

def IsPowerless : Term α → Prop
  | .operand _ => True
  | .negative _ => True
  | .negation e => IsPowerless e
  | .binary _ a b => IsPowerless a ∧ IsPowerless b
  | .choice c a b => IsPowerless c ∧ IsPowerless a ∧ IsPowerless b
  | .power .. => False

theorem IsPowerless.isMarked {e : Term α} (h : e.IsPowerless) :
    ∀ p ∈ e.pieces order, p.IsMarked := by
  induction e with
  | operand a => simp [pieces, Piece.IsMarked, Piece.symbols]
  | negative a => simp [pieces, Piece.IsMarked, Piece.symbols, isMarkChar, markChars]
  | negation e ih =>
    rw [pieces, List.forall_mem_cons]
    exact ⟨Piece.isMarked_mark (by decide), isMarked_enclosed (ih h) _⟩
  | binary o a b iha ihb =>
    rw [pieces, List.forall_mem_append, List.forall_mem_cons]
    exact ⟨isMarked_enclosed (iha h.1) _, Piece.isMarked_mark (Mark.operator_ne_power o),
      isMarked_enclosed (ihb h.2) _⟩
  | choice c a b ihc iha ihb =>
    rw [pieces, List.forall_mem_append, List.forall_mem_cons, List.forall_mem_append,
      List.forall_mem_cons]
    exact ⟨isMarked_enclosed (ihc h.1) _, Piece.isMarked_mark (by decide),
      isMarked_enclosed (iha h.2.1) _, Piece.isMarked_mark (by decide),
      isMarked_enclosed (ihb h.2.2) _⟩
  | power a b => exact h.elim

theorem isReadable_of_rank_eq_zero (h : ∀ a, (order a).rank = 0) (e : Term α) :
    e.IsReadable order := by
  induction e with
  | operand a => exact .inl (h a)
  | negative a => exact h a
  | negation e ih => exact ih
  | binary o a b iha ihb => exact ⟨iha, ihb⟩
  | choice c a b ihc iha ihb => exact ⟨ihc, iha, ihb⟩
  | power a b iha ihb => exact ⟨iha, ihb⟩

theorem IsReadable.parse_lex_symbols {e : Term α} (h : e.IsReadable order) :
    (lex (e.symbols order)).bind (parse order) = some (e.regrouped order) := by
  rw [symbols, lex_pieces, Option.bind_some]
  exact h.parse_tokens

theorem readNumeric_text (e : Term Nat) :
    readNumeric (.ofList (e.text (fun _ => .atomic) (Nat.toDigits 10))) =
      some (e.regrouped fun _ => .atomic) := by
  rw [readNumeric, String.toList_ofList, text, symbols, numeralsFrom_spell e.separate_pieces]
  exact (isReadable_of_rank_eq_zero (fun _ => rfl) e).parse_lex_symbols

theorem readAround_text {e : Term Expression} (hr : e.IsReadable Expression.order)
    (hp : e.IsPowerless) (hs : ∀ x ∈ e.operands, Solid x.text.toList) :
    readAround e.operands (.ofList (e.text Expression.order (·.text.toList))) =
      some (e.regrouped Expression.order) := by
  have ho := e.operandsOf_symbols Expression.order
  have hm : ∀ c, .inl c ∈ e.symbols Expression.order → isMarkChar c := by
    intro c hc
    obtain ⟨p, hpe, hpc⟩ := List.mem_flatMap.1 hc
    exact hp.isMarked p hpe c hpc
  rw [readAround, String.toList_ofList, text, ← ho, mask_spell hm (ho ▸ hs)]
  exact hr.parse_lex_symbols

end Term
end BlockMachine.Script
