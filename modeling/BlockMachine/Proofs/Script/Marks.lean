import BlockMachine.Proofs.Script.Survey

namespace BlockMachine.Outline

/-- A name that the compiler writes, a name that the author has given, which may be in a position
that is moved to, or a return with the number of asynchronous functions around it. -/
inductive Mark where
  | script (w : String)
  | author (w : String) (moved : Bool)
  | exit (depth : Nat)
deriving DecidableEq, Repr

namespace Mark

def moved : Mark → Mark
  | .author w _ => .author w true
  | k => k

/-- The mark in one more asynchronous function. -/
def deeper : Mark → Mark
  | .exit n => .exit (n + 1)
  | k => k

def isExit : Mark → Bool
  | .exit _ => true
  | _ => false

end Mark

/-- Only in a position that is moved to is an author's name bound by the compiler, and only one. -/
def Mention.Fits (outer : List FunctionKind) (m : Mention) : Mark → Prop
  | .script w => m.subject = .name w
  | .author w moved => m.subject = .name w ∧ (w ∈ m.bound ↔ w = "pos" ∧ moved = true)
  | .exit n => m.subject = .exit ∧ m.functions = List.replicate n .async ++ outer

def scripted (s : String) : List Mark := (names s).map .script

/-- An outline with the marks, which declares no constants and leads to a position. -/
structure Reads (o : Outline) (ks : List Mark) (p : Position) : Prop where
  fits : List.Forall₂ (Mention.Fits []) (survey {} o) ks
  declared : declared {} o = []
  ends : through {} o = p

/-- Nothing that was read last has an effect on the brackets that follow. -/
def Position.isIdle (p : Position) : Bool :=
  p.arrows.isEmpty && match p.cue with
    | .none | .async | .parameters _ _ => true
    | _ => false

section Reads

variable {o o' : Outline} {ks ks' : List Mark} {p q : Position}

theorem Position.layer_of_isIdle (h : p.isIdle = true) (b : Bracket) :
    p.arrows = [] ∧ p.cue.layer b = ([], []) := by
  obtain ⟨cue, arrows⟩ := p
  simp only [isIdle, Bool.and_eq_true, List.isEmpty_iff] at h
  refine ⟨h.1, ?_⟩
  cases cue with
  | body names kind => exact absurd h.2 (by simp)
  | none | const | returns | function | async | parameters names kind => cases b <;> rfl

theorem Position.isIdle_closed (h : p.isIdle = true) (b : Bracket) (words : List String) :
    Position.isIdle { p with cue := p.cue.closed b words } = true := by
  obtain ⟨cue, arrows⟩ := p
  simp only [isIdle, Bool.and_eq_true, List.isEmpty_iff] at h ⊢
  refine ⟨h.1, ?_⟩
  cases cue with
  | const | returns | function | body names kind => exact absurd h.2 (by simp)
  | none | async | parameters names kind => cases b <;> rfl

theorem Mention.inside_nil (m : Mention) : m.inside [] [] = m := by
  obtain ⟨subject, bound, functions⟩ := m
  rw [inside, List.append_nil, List.append_nil]

theorem reads_nil : Reads .nil [] {} := ⟨.nil, rfl, rfl⟩

theorem Reads.append (h : Reads o ks {}) (h' : Reads o' ks' p) :
    Reads (o ++ o') (ks ++ ks') p := by
  refine ⟨?_, ?_, ?_⟩
  · rw [survey_append, h.ends]
    exact List.rel_append h.fits h'.fits
  · rw [declared_append, h.ends, h.declared, h'.declared]
    rfl
  · rw [through_append, h.ends, h'.ends]

theorem Reads.mark (h : Reads o ks p) (hp : p.isIdle = true) (c : Char) :
    Reads (o ++ .symbol (.mark c) .nil) ks {} := by
  obtain ⟨ha, -⟩ := Position.layer_of_isIdle hp .round
  refine ⟨?_, ?_, ?_⟩
  · rw [survey_append]
    change List.Forall₂ _ (_ ++ []) _
    rw [List.append_nil]
    exact h.fits
  · rw [declared_append, h.declared]
    rfl
  · rw [through_append, h.ends, through, through, Position.read, ha, ite_self]

theorem Reads.group (h : Reads o ks p) (hp : p.isIdle = true) (h' : Reads o' ks' q)
    (b : Bracket) :
    Reads (o ++ .group b o' .nil) (ks ++ ks') { p with cue := p.cue.closed b o'.words } := by
  obtain ⟨ha, hl⟩ := Position.layer_of_isIdle hp b
  refine ⟨?_, ?_, ?_⟩
  · rw [survey_append, h.ends, survey, survey, hl, ha, h'.declared, List.append_nil]
    change List.Forall₂ _ (_ ++ (survey {} o').map (·.inside [] [])) _
    rw [funext Mention.inside_nil, List.map_id']
    exact List.rel_append h.fits h'.fits
  · rw [declared_append, h.declared]
    rfl
  · rw [through_append, h.ends]
    rfl

/-- No literal is returned. -/
def isQuiet (p : Position) : Outline → Bool
  | .nil => true
  | .symbol x rest => !(x == .literal && p.cue == .returns) && isQuiet (p.read x) rest
  | .group b inner rest =>
    isQuiet {} inner && isQuiet { p with cue := p.cue.closed b inner.words } rest

theorem fits_of_isQuiet (h : isQuiet p o = true) :
    List.Forall₂ (Mention.Fits []) (survey p o)
      (((flatten o).filterMap Token.name?).map .script) := by
  induction o generalizing p with
  | nil => exact .nil
  | symbol x rest ih =>
    rw [isQuiet, Bool.and_eq_true] at h
    obtain ⟨hx, hr⟩ := h
    cases x with
    | number | arrow | mark c => exact ih hr
    | literal =>
      have hc : p.cue ≠ .returns := by simpa using hx
      rw [survey, Position.mentions, if_neg hc]
      exact ih hr
    | word cs =>
      rw [survey, Position.mentions, flatten]
      cases hn : isName cs with
      | false =>
        rw [if_neg (by decide), List.filterMap_cons_none (by simp [Token.name?, hn])]
        exact ih hr
      | true =>
        have ht : Token.name? (.symbol (.word cs)) = some (String.ofList cs) := by
          rw [Token.name?, hn, if_pos rfl]
        rw [if_pos rfl, List.filterMap_cons_some ht]
        exact .cons rfl (ih hr)
  | group b inner rest ihi ih =>
    rw [isQuiet, Bool.and_eq_true] at h
    rw [survey, flatten, List.filterMap_cons_none rfl, List.filterMap_append,
      List.filterMap_cons_none rfl, List.map_append]
    refine List.rel_append ?_ (ih h.2)
    -- what is around a name does not matter to a mark of the compiler
    have hi := List.forall₂_map_right_iff.1 (ihi h.1)
    exact List.forall₂_map_left_iff.2 (List.forall₂_map_right_iff.2 hi)

/-- A text of the compiler: no literal is returned, and no constant is declared. -/
def isScripted (o : Outline) : Bool := isQuiet {} o && (declared {} o).isEmpty

theorem reads_of_isScripted (h : isScripted o = true) :
    Reads o (((flatten o).filterMap Token.name?).map .script) (through {} o) := by
  rw [isScripted, Bool.and_eq_true, List.isEmpty_iff] at h
  exact ⟨fits_of_isQuiet h.1, h.2, rfl⟩

end Reads

/-- A text that reads in some way. -/
def IsTold (s : String) (ks : List Mark) : Prop := ∃ o p, Of s o ∧ Reads o ks p

/-- A text that brackets and signs can follow. -/
def IsValue (s : String) (ks : List Mark) : Prop :=
  ∃ o p, Of s o ∧ Reads o ks p ∧ p.isIdle = true

def IsCode (s : String) (ks : List Mark) : Prop := ∃ o, Of s o ∧ finish s = .code ∧ Reads o ks {}

section Texts

variable {s t : String} {ks ls : List Mark}

theorem IsValue.isTold (h : IsValue s ks) : IsTold s ks := by
  obtain ⟨o, p, ho, hr, -⟩ := h
  exact ⟨o, p, ho, hr⟩

theorem IsCode.isValue (h : IsCode s ks) : IsValue s ks := by
  obtain ⟨o, ho, -, hr⟩ := h
  exact ⟨o, {}, ho, hr, rfl⟩

theorem IsCode.isTold (h : IsCode s ks) : IsTold s ks := h.isValue.isTold

theorem isCode_empty : IsCode "" [] := ⟨.nil, ⟨rfl, rfl⟩, rfl, reads_nil⟩

theorem IsCode.append (h : IsCode s ks) (h' : IsCode t ls) : IsCode (s ++ t) (ks ++ ls) := by
  obtain ⟨o, ho, hc, hr⟩ := h
  obtain ⟨o', ho', hc', hr'⟩ := h'
  exact ⟨o ++ o', ho.append_of_clear hc ho', (tokens_of_clear hc t).2.trans hc', hr.append hr'⟩

theorem IsCode.append_value (h : IsCode s ks) (h' : IsValue t ls) :
    IsValue (s ++ t) (ks ++ ls) := by
  obtain ⟨o, ho, hc, hr⟩ := h
  obtain ⟨o', p, ho', hr', hp⟩ := h'
  exact ⟨o ++ o', p, ho.append_of_clear hc ho', hr.append hr', hp⟩

/-- Characters of the compiler that are a value. -/
def isScriptValue (cs : List Char) : Bool :=
  (run .code cs).2.isDone && match nestFrom [] .nil (lexed cs) with
    | none => false
    | some o => isScripted o && (through {} o).isIdle

theorem isValue_of_script (h : isScriptValue s.toList = true) : IsValue s (scripted s) := by
  rw [isScriptValue, Bool.and_eq_true] at h
  obtain ⟨hd, h⟩ := h
  split at h
  · cases h
  · rename_i o ho
    rw [Bool.and_eq_true] at h
    have hof : Of s o := of_ofText? ho hd
    have hr := reads_of_isScripted h.1
    rw [← hof.tokens] at hr
    exact ⟨o, _, hof, hr, h.2⟩

theorem isValue_of_literal {l : List Char} (h : isScriptValue l = true) :
    IsValue (String.ofList l) (scripted (String.ofList l)) :=
  isValue_of_script (by rw [String.toList_ofList, h])

/-- Characters of the compiler that anything can follow. -/
def isScriptCode (cs : List Char) : Bool :=
  (run .code cs).2 == .code && match nestFrom [] .nil (lexed cs) with
    | none => false
    | some o => isScripted o && through {} o == {}

theorem isCode_of_script (h : isScriptCode s.toList = true) : IsCode s (scripted s) := by
  rw [isScriptCode, Bool.and_eq_true, beq_iff_eq] at h
  obtain ⟨hc, h⟩ := h
  split at h
  · cases h
  · rename_i o ho
    rw [Bool.and_eq_true, beq_iff_eq] at h
    have hof : Of s o := of_ofText? ho (by rw [finish, hc]; rfl)
    have hr := reads_of_isScripted h.1
    rw [← hof.tokens, h.2] at hr
    exact ⟨o, hof, hc, hr⟩

theorem isCode_of_literal {l : List Char} (h : isScriptCode l = true) :
    IsCode (String.ofList l) (scripted (String.ofList l)) :=
  isCode_of_script (by rw [String.toList_ofList, h])

/-- Characters of the compiler that can follow a value, and that anything can follow. -/
def isScriptCloser (cs : List Char) : Bool :=
  (run .code cs).2 == .code && cs.head?.any isBreak && match nestFrom [] .nil (lexed cs) with
    | some (.symbol (.mark _) o) => isScripted o && through {} o == {}
    | _ => false

theorem IsValue.close (h : IsValue s ks) (ht : isScriptCloser t.toList = true) :
    IsCode (s ++ t) (ks ++ scripted t) := by
  obtain ⟨o, p, ho, hr, hp⟩ := h
  rw [isScriptCloser, Bool.and_eq_true, Bool.and_eq_true, beq_iff_eq] at ht
  obtain ⟨⟨hc, hb⟩, ht⟩ := ht
  split at ht
  · rename_i c o' ho'
    rw [Bool.and_eq_true, beq_iff_eq] at ht
    have hof : Of t (.symbol (.mark c) o') := of_ofText? ho' (by rw [finish, hc]; rfl)
    have hr' := reads_of_isScripted ht.1
    rw [ht.2] at hr'
    have hk : scripted t = ((flatten o').filterMap Token.name?).map .script := by
      rw [scripted, names, hof.tokens, flatten, List.filterMap_cons_none rfl]
    have hm := (hr.mark hp c).append hr'
    rw [append_assoc, ← hk] at hm
    exact ⟨_, ho.append_of_breaks hof hb, (tokens_of_breaks ho.done hb).2.trans hc, hm⟩
  · cases ht

def leadingWords : List (List Char) :=
  [['c', 'o', 'n', 's', 't'], ['r', 'e', 't', 'u', 'r', 'n'],
    ['f', 'u', 'n', 'c', 't', 'i', 'o', 'n']]

theorem Cue.isIdle_word (q : Cue) {cs : List Char} (h : cs ∉ leadingWords) :
    Position.isIdle ⟨q.word cs, []⟩ = true := by
  simp only [leadingWords, List.mem_cons, List.not_mem_nil, or_false, not_or] at h
  rw [Cue.word, if_neg h.1, if_neg h.2.1, if_neg h.2.2]
  split
  · rfl
  · split <;> rfl

theorem isName_identifier (name : String) : isName (identifier name).toList = true := by
  rw [isName, String.ofList_toList, Bool.not_eq_true', ← Bool.not_eq_true, List.contains_iff_mem]
  exact (Identifier.valid_identifier name).unreserved

theorem names_identifier (name : String) : names (identifier name) = [identifier name] := by
  rw [names, (of_identifier name).tokens, ofWord, flatten, flatten,
    List.filterMap_cons_some (by rw [Token.name?, isName_identifier, if_pos rfl]),
    String.ofList_toList]
  rfl

theorem isValue_identifier (name : String) {k : Mark}
    (hk : k = .script (identifier name) ∨ k = .author (identifier name) false) :
    IsValue (identifier name) [k] := by
  have hw : (identifier name).toList ∉ leadingWords := by
    have hall : ∀ cs ∈ leadingWords, String.ofList cs ∈ Identifier.reserved := by decide
    intro hm
    have hr := hall _ hm
    rw [String.ofList_toList] at hr
    exact (Identifier.valid_identifier name).unreserved hr
  have hs : survey {} (ofWord (identifier name)) = [⟨.name (identifier name), [], []⟩] := by
    rw [ofWord, survey, survey, Position.mentions, if_pos (isName_identifier name),
      String.ofList_toList]
    rfl
  refine ⟨_, _, of_identifier name, ⟨?_, rfl, rfl⟩, Cue.isIdle_word .none hw⟩
  rw [hs]
  refine .cons ?_ .nil
  rcases hk with rfl | rfl
  · rfl
  · exact ⟨rfl, by simp⟩

theorem names_quoted (text : String) : names (quoted text) = [] := by
  rw [names, (of_quoted text).1.tokens]
  rfl

theorem isValue_quoted (text : String) : IsValue (quoted text) [] := by
  exact ⟨ofLiteral, {}, (of_quoted text).1, ⟨.nil, rfl, rfl⟩, rfl⟩

/-- Numbers, signs, and words of the characters that numerals have. -/
def Token.isNumeral : Token → Bool
  | .symbol (.word cs) => cs.all Numeral.isNumeralChar
  | .symbol .number | .symbol (.mark _) => true
  | _ => false

theorem run_numeral {cs : List Char} (h : ∀ c ∈ cs, Numeral.isNumeralChar c = true) {m : Mode}
    (hm : m = .code ∨ m = .number ∨
      ∃ ds : List Char, m = .word ds ∧ ds.all Numeral.isNumeralChar = true) :
    (∀ t ∈ (run m cs).1 ++ (run m cs).2.pending, t.isNumeral = true) ∧
      (run m cs).2.isDone = true := by
  induction cs generalizing m with
  | nil =>
    rcases hm with rfl | rfl | ⟨ds, rfl, hd⟩
    · exact ⟨by simp [run, Mode.pending], rfl⟩
    · exact ⟨List.forall_mem_singleton.2 rfl, rfl⟩
    · exact ⟨List.forall_mem_singleton.2 hd, rfl⟩
  | cons c cs ih =>
    obtain ⟨hc, hcs⟩ := List.forall_mem_cons.1 h
    cases hw : Identifier.isWordChar c with
    | true =>
      rcases hm with rfl | rfl | ⟨ds, rfl, hd⟩
      · rw [run, step, begin, if_pos hw]
        cases c.isDigit with
        | true => exact ih hcs (.inr (.inl rfl))
        | false => exact ih hcs (.inr (.inr ⟨[c], rfl, by simpa using hc⟩))
      · rw [run, step, if_pos hw]
        exact ih hcs (.inr (.inl rfl))
      · rw [run, step, if_pos hw]
        exact ih hcs (.inr (.inr ⟨ds ++ [c], rfl, by simp [hd, hc]⟩))
    | false =>
      -- a sign ends what is in front of it
      have hs : begin c = ([.symbol (.mark c)], .code) := by
        have hall : (['-', '+', '.', 'e', 'N', 'a', 'I', 'n', 'f', 'i', 't', 'y'].all fun c =>
            Identifier.isWordChar c || ['-', '+', '.'].contains c) = true := by decide
        rw [Numeral.isNumeralChar, Bool.or_eq_true, List.contains_iff_mem] at hc
        rcases hc with hc | hc
        · rw [Identifier.isWordChar, Char.isAlphanum, hc, Bool.or_true] at hw
          cases hw
        · have hs := List.all_eq_true.1 hall c hc
          rw [hw, Bool.false_or, List.contains_iff_mem] at hs
          simp only [List.mem_cons, List.not_mem_nil, or_false] at hs
          rcases hs with rfl | rfl | rfl <;> rfl
      obtain ⟨ht, hd⟩ := ih hcs (.inl rfl)
      rcases hm with rfl | rfl | ⟨ds, rfl, hds⟩
      · rw [run, step, hs]
        exact ⟨List.forall_mem_cons.2 ⟨rfl, ht⟩, hd⟩
      · rw [run, step, if_neg (by rw [hw]; decide), hs]
        exact ⟨List.forall_mem_cons.2 ⟨rfl, List.forall_mem_cons.2 ⟨rfl, ht⟩⟩, hd⟩
      · rw [run, step, if_neg (by rw [hw]; decide), hs]
        exact ⟨List.forall_mem_cons.2 ⟨hds, List.forall_mem_cons.2 ⟨rfl, ht⟩⟩, hd⟩

/-- The outline of symbols one after the other. -/
def ofSymbols : List Token → Outline
  | .symbol x :: ts => .symbol x (ofSymbols ts)
  | _ => .nil

theorem flatten_ofSymbols {ts : List Token} (h : ∀ t ∈ ts, t.isNumeral = true) :
    flatten (ofSymbols ts) = ts := by
  induction ts with
  | nil => rfl
  | cons t ts ih =>
    obtain ⟨ht, hts⟩ := List.forall_mem_cons.1 h
    cases t with
    | symbol x => rw [ofSymbols, flatten, ih hts]
    | opening b | closing b => cases ht

theorem Position.read_numeral {p : Position} (hp : p.isIdle = true) {x : Symbol}
    (hx : (Token.symbol x).isNumeral = true) :
    (p.read x).isIdle = true ∧ p.declares x = [] ∧ x ≠ .literal := by
  obtain ⟨cue, arrows⟩ := p
  simp only [isIdle, Bool.and_eq_true, List.isEmpty_iff] at hp
  obtain ⟨rfl, hq⟩ := hp
  cases x with
  | literal | arrow => cases hx
  | number => exact ⟨rfl, rfl, by decide⟩
  | mark c => exact ⟨by rw [read, ite_self]; rfl, rfl, by simp⟩
  | word cs =>
    have hw : cs ∉ leadingWords := by
      have hall : ∀ cs ∈ leadingWords, cs.all Numeral.isNumeralChar = false := by decide
      intro hm
      have hf := hall cs hm
      rw [show cs.all Numeral.isNumeralChar = true from hx] at hf
      cases hf
    refine ⟨Cue.isIdle_word cue hw, ?_, by simp⟩
    rw [declares, if_neg]
    rintro rfl
    cases hq

theorem isScripted_numeral {ts : List Token} (h : ∀ t ∈ ts, t.isNumeral = true) (p : Position)
    (hp : p.isIdle = true) :
    isQuiet p (ofSymbols ts) = true ∧ declared p (ofSymbols ts) = [] ∧
      (through p (ofSymbols ts)).isIdle = true := by
  induction ts generalizing p with
  | nil => exact ⟨rfl, rfl, hp⟩
  | cons t ts ih =>
    obtain ⟨ht, hts⟩ := List.forall_mem_cons.1 h
    cases t with
    | opening b | closing b => cases ht
    | symbol x =>
      obtain ⟨hi, hd, hl⟩ := Position.read_numeral hp ht
      obtain ⟨hs, hc, hi⟩ := ih hts _ hi
      refine ⟨?_, ?_, hi⟩
      · rw [ofSymbols, isQuiet, hs, beq_eq_false_iff_ne.2 hl]
        rfl
      · rw [ofSymbols, declared, hd, hc]
        rfl

theorem isValue_numeral (x : Binary64) :
    IsValue (ValueRule.numeral x) (scripted (ValueRule.numeral x)) := by
  obtain ⟨ht, hd⟩ := run_numeral (Numeral.isNumeralChar_numeral x) (.inl rfl)
  obtain ⟨hs, hc, hp⟩ := isScripted_numeral ht {} rfl
  have ho : Of (ValueRule.numeral x) (ofSymbols (tokens (ValueRule.numeral x))) :=
    ⟨(flatten_ofSymbols ht).symm, hd⟩
  have hr := reads_of_isScripted (o := ofSymbols (tokens (ValueRule.numeral x)))
    (by rw [isScripted, tokens, lexed, hs, hc]; rfl)
  rw [← ho.tokens] at hr
  exact ⟨_, _, ho, hr, hp⟩

end Texts

end BlockMachine.Outline
