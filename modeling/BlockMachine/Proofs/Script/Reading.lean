import BlockMachine.Proofs.Script.Grammar

namespace BlockMachine.Script

variable {α : Type} {order : α → Order}

theorem head?_symbols_ne (ps : List (Piece α)) :
    (ps.flatMap Piece.symbols).head? ≠ some (.inl '=') := by
  cases ps with
  | nil => simp
  | cons p ps =>
    cases p with
    | mark m => cases m <;> simp [Piece.symbols, Mark.spelling]
    | operand a => simp [Piece.symbols]
    | negative a => simp [Piece.symbols]

theorem lex_bang {ss : List (Symbol α)} (h : ss.head? ≠ some (.inl '=')) :
    lex (.inl '!' :: ss) = (lex ss).map (.mark .bang :: ·) := by
  rw [lex]
  intro us hs
  rw [hs] at h
  exact h rfl

theorem lex_piece (p : Piece α) {ss : List (Symbol α)} (h : ss.head? ≠ some (.inl '=')) :
    lex (p.symbols ++ ss) = (lex ss).map (p.tokens ++ ·) := by
  cases p with
  | operand a => rfl
  | negative a =>
    change ((lex ss).map _).map _ = _
    rw [Option.map_map]
    rfl
  | mark m =>
    cases m with
    | operator o => cases o <;> rfl
    | bang => exact lex_bang h
    | _ => rfl

theorem lex_pieces (ps : List (Piece α)) :
    lex (ps.flatMap Piece.symbols) = some (ps.flatMap Piece.tokens) := by
  induction ps with
  | nil => rfl
  | cons p ps ih =>
    rw [List.flatMap_cons, lex_piece p (head?_symbols_ne ps), ih]
    rfl

/-- No operator of a level below `level` comes next. -/
def Stops (level : Nat) (rest : List (Token α)) : Prop :=
  ∀ o ts, rest = .mark (.operator o) :: ts → level ≤ o.level

/-- Neither an operator nor a question mark comes next. -/
def Ends (rest : List (Token α)) : Prop :=
  (∀ o ts, rest ≠ .mark (.operator o) :: ts) ∧ ∀ ts, rest ≠ .mark .question :: ts

theorem Stops.mono {k l : Nat} {rest : List (Token α)} (h : Stops l rest) (hl : k ≤ l) :
    Stops k rest :=
  fun o ts he => Nat.le_trans hl (h o ts he)

theorem Ends.stops {rest : List (Token α)} (h : Ends rest) (k : Nat) : Stops k rest :=
  fun o ts he => absurd he (h.1 o ts)

theorem readChain_stop {k l : Nat} {e : Term α} {rest : List (Token α)} (h : Stops l rest)
    (hk : k < l) : readChain order k e rest = some (e, rest) := by
  unfold readChain
  split
  · rename_i below o rest
    have := h o rest rfl
    rw [if_neg (by omega)]
  · rfl

theorem readChain_zero {e : Term α} {rest : List (Token α)} :
    readChain order 0 e rest = some (e, rest) := by
  unfold readChain
  rfl

/-- Tokens that are read as a term on a level, whatever follows: the reader of the level goes on to
join the operators behind them. -/
structure Reads (order : α → Order) (level : Nat) (ts : List (Token α)) (e : Term α) : Prop where
  ne_nil : ts ≠ []
  head : ∀ a rest, ts = .operand a :: rest → (order a).rank ≤ level
  read : ∀ rest, Stops level rest →
    readLevel order level (ts ++ rest) = readChain order level e rest

/-- Tokens that are read as a term by themselves, up to a closing mark. -/
def ReadsWhole (order : α → Order) (ts : List (Token α)) (e : Term α) : Prop :=
  ∀ rest, Ends rest → readWhole order (ts ++ rest) = some (e, rest)

namespace Reads

variable {k l : Nat} {ts us : List (Token α)} {e a b c : Term α}

theorem length_lt (h : Reads order k ts e) (rest : List (Token α)) :
    rest.length < (ts ++ rest).length := by
  have := List.length_pos_iff.2 h.ne_nil
  rw [List.length_append]
  omega

theorem read_eq (h : Reads order k ts e) {rest : List (Token α)} (hs : Stops (k + 1) rest) :
    readLevel order k (ts ++ rest) = some (e, rest) := by
  rw [h.read rest (hs.mono (Nat.le_succ k))]
  exact readChain_stop hs (Nat.lt_succ_self k)

theorem readHead_eq (h : Reads order k ts e) {rest : List (Token α)} (hs : Stops (k + 1) rest) :
    readHead order k (ts ++ rest) = some (e, rest) := by
  unfold readHead
  split
  · rename_i a us he
    have hr : (order a).rank ≤ k := by
      cases hts : ts with
      | nil => exact absurd hts h.ne_nil
      | cons t ts' =>
        rw [hts] at he
        injection he with ht
        exact h.head a ts' (by rw [hts, ht])
    rw [if_neg (by omega), ← he]
    exact h.read_eq hs
  · exact h.read_eq hs

theorem succ (h : Reads order k ts e) : Reads order (k + 1) ts e where
  ne_nil := h.ne_nil
  head a rest he := Nat.le_succ_of_le (h.head a rest he)
  read rest hs := by
    rw [readLevel, h.readHead_eq hs]
    exact if_pos (h.length_lt rest)

theorem mono (h : Reads order k ts e) (hl : k ≤ l) : Reads order l ts e := by
  induction hl with
  | refl => exact h
  | step _ ih => exact ih.succ

theorem operand (x : α) : Reads order (order x).rank [.operand x] (.operand x) where
  ne_nil := List.cons_ne_nil _ _
  head a rest he := by
    cases he
    exact Nat.le_refl _
  read rest hs := by
    cases hr : (order x).rank with
    | zero => rw [readLevel, List.singleton_append, readUnary, if_pos hr, readChain_zero]
    | succ below =>
      rw [readLevel, List.singleton_append, readHead, if_pos hr]
      exact if_pos (Nat.lt_succ_self _)

theorem whole (h : Reads order k ts e) (hk : k ≤ 6) : ReadsWhole order ts e := by
  intro rest hr
  unfold readWhole
  rw [(h.mono hk).read_eq (hr.stops 7)]
  split
  · rename_i h
    injection h with h
    injection h with _ h
    exact absurd h (hr.2 _)
  · rfl

theorem binary {o : Operator} (ha : Reads order o.level ts a) (hb : Reads order k us b)
    (hk : k < o.level) :
    Reads order o.level (ts ++ .mark (.operator o) :: us) (.binary o a b) where
  ne_nil := by simp
  head x rest he := by
    cases hts : ts with
    | nil => exact absurd hts ha.ne_nil
    | cons t ts' =>
      rw [hts] at he
      injection he with ht
      exact ha.head x ts' (by rw [hts, ht])
  read rest hs := by
    -- The chain of the level has come to `a`; it takes the operator and reads `b` one level down.
    obtain ⟨j, hj⟩ := Nat.exists_eq_succ_of_ne_zero (Nat.ne_of_gt o.level_pos)
    rw [hj] at ha hs hk ⊢
    have hb' := (hb.mono (Nat.le_of_lt_succ hk)).read_eq hs
    rw [List.append_assoc, ha.read _ ?_]
    · rw [List.cons_append, readChain, if_pos hj, hb']
      exact if_pos ((hb.mono (Nat.le_of_lt_succ hk)).length_lt rest)
    · intro p ts h
      injection h with h
      cases h
      exact Nat.le_of_eq hj.symm

theorem readUnary_eq (h : Reads order 0 ts e) (rest : List (Token α)) :
    readUnary order (ts ++ rest) = some (e, rest) := by
  have hr := h.read rest (fun _ _ _ => Nat.zero_le _)
  rw [readLevel, readChain_zero] at hr
  exact hr

theorem ofUnary {m : Mark} (h : ∀ rest, readUnary order (.mark m :: ts ++ rest) = some (e, rest)) :
    Reads order 0 (.mark m :: ts) e where
  ne_nil := List.cons_ne_nil _ _
  head a rest he := by cases he
  read rest hs := by rw [readLevel, h rest, readChain_zero]

theorem negative {x : α} (hx : (order x).rank = 0) :
    Reads order 0 [.mark (.operator .minus), .operand x] (.negative x) := by
  apply ofUnary
  intro rest
  rw [List.cons_append, List.singleton_append, readUnary, if_pos hx]

theorem negation (h : Reads order 0 ts e) :
    Reads order 0 (.mark .bang :: ts) (.negation e) := by
  apply ofUnary
  intro rest
  rw [List.cons_append, readUnary, h.readUnary_eq rest]
  rfl

end Reads

theorem ends_nil : Ends ([] : List (Token α)) := by
  simp [Ends]

theorem ends_closing (rest : List (Token α)) : Ends (.mark .closing :: rest) := by
  simp [Ends]

theorem ends_comma (rest : List (Token α)) : Ends (.mark .comma :: rest) := by
  simp [Ends]

theorem ends_colon (rest : List (Token α)) : Ends (.mark .colon :: rest) := by
  simp [Ends]

namespace ReadsWhole

variable {ts us vs : List (Token α)} {a b c e : Term α}

theorem parens (h : ReadsWhole order ts e) :
    Reads order 0 (.mark .opening :: (ts ++ [.mark .closing])) e := by
  apply Reads.ofUnary
  intro rest
  rw [List.cons_append, List.append_assoc, List.singleton_append, readUnary,
    h _ (ends_closing rest)]

theorem power (ha : ReadsWhole order ts a) (hb : ReadsWhole order us b) :
    Reads order 0 (.mark .power :: (ts ++ .mark .comma :: (us ++ [.mark .closing])))
      (.power a b) := by
  apply Reads.ofUnary
  intro rest
  have hl : (us ++ .mark .closing :: rest).length <
      (ts ++ .mark .comma :: (us ++ .mark .closing :: rest)).length := by
    simp only [List.length_append, List.length_cons]
    omega
  simp only [List.cons_append, List.append_assoc, List.nil_append]
  rw [readUnary, ha _ (ends_comma _)]
  simp only [hl, if_true]
  rw [hb _ (ends_closing rest)]

theorem choice (hc : Reads order 6 ts c) (ha : ReadsWhole order us a)
    (hb : ReadsWhole order vs b) :
    ReadsWhole order (ts ++ .mark .question :: (us ++ .mark .colon :: vs)) (.choice c a b) := by
  intro rest hr
  have hq : Stops 7 (.mark .question :: (us ++ .mark .colon :: (vs ++ rest))) := by
    intro o ts h
    cases h
  have hl : (us ++ .mark .colon :: (vs ++ rest)).length <
      (ts ++ .mark .question :: (us ++ .mark .colon :: (vs ++ rest))).length := by
    simp only [List.length_append, List.length_cons]
    omega
  have hm : (vs ++ rest).length < (us ++ .mark .colon :: (vs ++ rest)).length := by
    simp only [List.length_append, List.length_cons]
    omega
  simp only [List.append_assoc, List.cons_append]
  rw [readWhole, hc.read_eq hq]
  simp only [hl, if_true]
  rw [ha _ (ends_colon _)]
  simp only [hm, if_true]
  rw [hb rest hr]
  rfl

theorem parse_eq (h : ReadsWhole order ts e) : parse order ts = some e := by
  have hr := h [] ends_nil
  rw [List.append_nil] at hr
  rw [parse, hr]

end ReadsWhole

end BlockMachine.Script
