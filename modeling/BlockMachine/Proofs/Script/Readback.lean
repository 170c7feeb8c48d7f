import BlockMachine.Proofs.Script.Reading

namespace BlockMachine

theorem Order.rank_eq_zero_of_not_needsParens {o : Order}
    (h : o.needsParens .logicalNot = false) : o.rank = 0 := by
  cases o <;> first | rfl | cases h

theorem Order.rank_le_of_not_needsParens_conditional {o : Order}
    (h : o.needsParens .conditional = false) : o.rank ≤ 6 := by
  cases o <;> first | decide | cases h

namespace Script

variable {α : Type} {order : α → Order}

theorem Operator.rank_le_of_not_needsParens {o : Operator} {p : Order}
    (h : p.needsParens o.order = false) : p.rank ≤ o.level := by
  cases o <;> cases p <;> first | decide | cases h

/-- What a term becomes behind an operator and its left operand. -/
def follow : Option (Term α × Operator) → Term α → Term α
  | none, e => e
  | some (a, o), e => .binary o a e

/-- Whether an operator goes on with the chain that is being read. -/
def continues : Option (Term α × Operator) → Operator → Bool
  | none, _ => false
  | some (_, o), p => o.level == p.level

namespace Term

/-- What the written form of a term is read as, behind an operator and what was read to its left. -/
def regroupedAfter (order : α → Order) : Option (Term α × Operator) → Term α → Term α
  | k, .operand a => follow k (.operand a)
  | k, .negative a => follow k (.negative a)
  | k, .negation e => follow k (.negation (regroupedAfter order none e))
  | k, .choice c a b =>
    follow k (.choice (regroupedAfter order none c) (regroupedAfter order none a)
      (regroupedAfter order none b))
  | k, .power a b => follow k (.power (regroupedAfter order none a) (regroupedAfter order none b))
  | k, .binary o a b =>
    let join left :=
      if b.isWrapped order o.order then .binary o left (regroupedAfter order none b)
      else regroupedAfter order (some (left, o)) b
    if continues k o then
      join (if a.isWrapped order o.order then follow k (regroupedAfter order none a)
        else regroupedAfter order k a)
    else follow k (join (regroupedAfter order none a))

/-- What the written form of a term is read as. -/
def regrouped (order : α → Order) (e : Term α) : Term α := e.regroupedAfter order none

theorem regroupedAfter_chain {k : Option (Term α × Operator)} {o : Operator} {a b : Term α}
    (h : continues k o = true) :
    (Term.binary o a b).regroupedAfter order k =
      let left := if a.isWrapped order o.order then follow k (a.regrouped order)
        else a.regroupedAfter order k
      if b.isWrapped order o.order then .binary o left (b.regrouped order)
      else b.regroupedAfter order (some (left, o)) := by
  rw [regroupedAfter, if_pos h]
  rfl

theorem regroupedAfter_other {k : Option (Term α × Operator)} {o : Operator} {a b : Term α}
    (h : continues k o = false) :
    (Term.binary o a b).regroupedAfter order k =
      follow k ((Term.binary o a b).regrouped order) := by
  rw [regroupedAfter, if_neg (by rw [h]; decide)]
  rfl

def tokens (order : α → Order) (e : Term α) : List (Token α) :=
  (e.pieces order).flatMap Piece.tokens

def wrappedTokens (order : α → Order) (e : Term α) (context : Order) : List (Token α) :=
  (enclosed (e.isWrapped order context) (e.pieces order)).flatMap Piece.tokens

/-- Operands bind like a single operand or like a comparison, and only the former take a sign. -/
def IsReadable (order : α → Order) : Term α → Prop
  | .operand a => (order a).rank = 0 ∨ order a = .relational
  | .negative a => (order a).rank = 0
  | .negation e => IsReadable order e
  | .binary _ a b => IsReadable order a ∧ IsReadable order b
  | .choice c a b => IsReadable order c ∧ IsReadable order a ∧ IsReadable order b
  | .power a b => IsReadable order a ∧ IsReadable order b

theorem wrappedTokens_true {e : Term α} {context : Order} (h : e.isWrapped order context = true) :
    e.wrappedTokens order context =
      .mark .opening :: (e.tokens order ++ [.mark .closing]) := by
  simp [wrappedTokens, enclosed, h, tokens, Piece.tokens]

theorem wrappedTokens_false {e : Term α} {context : Order}
    (h : e.isWrapped order context = false) : e.wrappedTokens order context = e.tokens order := by
  simp [wrappedTokens, enclosed, h, tokens]

theorem tokens_negation (e : Term α) :
    (Term.negation e).tokens order = .mark .bang :: e.wrappedTokens order .logicalNot := by
  simp [tokens, pieces, wrappedTokens, Piece.tokens]

theorem tokens_binary (o : Operator) (a b : Term α) :
    (Term.binary o a b).tokens order =
      a.wrappedTokens order o.order ++
        .mark (.operator o) :: b.wrappedTokens order o.order := by
  simp [tokens, pieces, wrappedTokens, Piece.tokens]

theorem tokens_choice (c a b : Term α) :
    (Term.choice c a b).tokens order =
      c.wrappedTokens order .conditional ++
        .mark .question :: (a.wrappedTokens order .conditional ++
          .mark .colon :: b.wrappedTokens order .conditional) := by
  simp [tokens, pieces, wrappedTokens, Piece.tokens]

theorem tokens_power (a b : Term α) :
    (Term.power a b).tokens order =
      .mark .power :: (a.wrappedTokens order .comma ++
        .mark .comma :: (b.wrappedTokens order .comma ++ [.mark .closing])) := by
  simp [tokens, pieces, wrappedTokens, Piece.tokens]

/-- How a term is read: as a whole, on its own level, and behind an operator. -/
structure Readings (order : α → Order) (e : Term α) : Prop where
  whole : ReadsWhole order (e.tokens order) (e.regrouped order)
  level : (e.orderBy order).rank ≤ 6 →
    Reads order (e.orderBy order).rank (e.tokens order) (e.regrouped order)
  after : ∀ (o p : Operator) ts a, p.level = o.level → e.isWrapped order p.order = false →
    Reads order o.level ts a →
    Reads order o.level (ts ++ .mark (.operator o) :: e.tokens order)
      (e.regroupedAfter order (some (a, o)))

namespace Readings

variable {e a b c : Term α} {context : Order} {k : Nat}

theorem single (hr : Reads order (e.orderBy order).rank (e.tokens order) (e.regrouped order))
    (hl : (e.orderBy order).rank ≤ 6)
    (ho : ∀ o : Operator, e.isWrapped order o.order = false → (e.orderBy order).rank < o.level)
    (hf : ∀ o a, e.regroupedAfter order (some (a, o)) = .binary o a (e.regrouped order)) :
    Readings order e where
  whole := hr.whole hl
  level _ := hr
  after o p ts a hp hw ha := by
    rw [hf]
    exact ha.binary hr (hp ▸ ho p hw)

theorem unary (hr : Reads order 0 (e.tokens order) (e.regrouped order))
    (hz : (e.orderBy order).rank = 0)
    (hf : ∀ o a, e.regroupedAfter order (some (a, o)) = .binary o a (e.regrouped order)) :
    Readings order e := by
  apply single (hz ▸ hr) (by omega) ?_ hf
  intro o _
  rw [hz]
  exact o.level_pos

theorem reads (h : Readings order e) (hk : k ≤ 6)
    (hw : e.isWrapped order context = false → (e.orderBy order).rank ≤ k) :
    Reads order k (e.wrappedTokens order context) (e.regrouped order) := by
  cases hp : e.isWrapped order context with
  | true =>
    rw [wrappedTokens_true hp]
    exact h.whole.parens.mono (Nat.zero_le k)
  | false =>
    rw [wrappedTokens_false hp]
    exact (h.level (Nat.le_trans (hw hp) hk)).mono (hw hp)

theorem readsWhole (h : Readings order e) :
    ReadsWhole order (e.wrappedTokens order context) (e.regrouped order) := by
  cases hp : e.isWrapped order context with
  | true =>
    rw [wrappedTokens_true hp]
    exact h.whole.parens.whole (Nat.zero_le 6)
  | false =>
    rw [wrappedTokens_false hp]
    exact h.whole

theorem operand {x : α} (hx : (order x).rank = 0 ∨ order x = .relational) :
    Readings order (.operand x) := by
  apply single (Reads.operand x) ?_ ?_ (fun _ _ => rfl)
  · rcases hx with h | h
    · change (order x).rank ≤ 6
      omega
    · change (order x).rank ≤ 6
      rw [h]
      decide
  · intro o hw
    rcases hx with h | h
    · change (order x).rank < o.level
      rw [h]
      exact o.level_pos
    · change (order x).needsParens o.order = false at hw
      change (order x).rank < o.level
      rw [h] at hw ⊢
      cases o <;> first | decide | cases hw

theorem negation (h : Readings order e) : Readings order (.negation e) := by
  apply unary ?_ rfl (fun _ _ => rfl)
  rw [tokens_negation]
  apply Reads.negation
  apply h.reads (Nat.zero_le 6)
  intro hw
  exact Nat.le_of_eq (Order.rank_eq_zero_of_not_needsParens hw)

theorem power (ha : Readings order a) (hb : Readings order b) :
    Readings order (.power a b) := by
  apply unary ?_ rfl (fun _ _ => rfl)
  rw [tokens_power]
  exact ha.readsWhole.power hb.readsWhole

theorem choice (hc : Readings order c) (ha : Readings order a) (hb : Readings order b) :
    Readings order (.choice c a b) where
  whole := by
    rw [tokens_choice]
    apply ReadsWhole.choice ?_ ha.readsWhole hb.readsWhole
    exact hc.reads (Nat.le_refl 6) Order.rank_le_of_not_needsParens_conditional
  level h := absurd h (show ¬ 7 ≤ 6 by decide)
  after o p ts a hp hw := by
    have hr : 7 ≤ p.level := Operator.rank_le_of_not_needsParens hw
    have hl := p.level_le
    omega

theorem join {o p : Operator} {ts : List (Token α)} (hb : Readings order b)
    (hp : p.level = o.level) (ha : Reads order o.level ts a) :
    Reads order o.level (ts ++ .mark (.operator o) :: b.wrappedTokens order p.order)
      (if b.isWrapped order p.order then .binary o a (b.regrouped order)
        else b.regroupedAfter order (some (a, o))) := by
  cases hw : b.isWrapped order p.order with
  | true =>
    rw [wrappedTokens_true hw]
    exact ha.binary hb.whole.parens o.level_pos
  | false =>
    rw [wrappedTokens_false hw]
    exact hb.after o p ts a hp hw ha

theorem reads_binary (o : Operator) (ha : Readings order a) (hb : Readings order b) :
    Reads order o.level ((Term.binary o a b).tokens order)
      ((Term.binary o a b).regrouped order) := by
  rw [tokens_binary]
  exact hb.join rfl (ha.reads o.level_le Operator.rank_le_of_not_needsParens)

theorem binary (o : Operator) (ha : Readings order a) (hb : Readings order b) :
    Readings order (.binary o a b) where
  whole := (reads_binary o ha hb).whole o.level_le
  level _ := reads_binary o ha hb
  after p q ts l hq hw hl := by
    have hle : o.level ≤ p.level := hq ▸ Operator.rank_le_of_not_needsParens hw
    by_cases he : p.level = o.level
    · -- On the level of `p` the two operands join what stands to their left one by one.
      have hleft := ha.join he.symm hl
      rw [he] at hleft
      have hright := hb.join rfl hleft
      rw [List.append_assoc, List.cons_append, ← tokens_binary] at hright
      have hc : continues (some (l, p)) o = true := beq_iff_eq.2 he
      rw [regroupedAfter_chain hc, he]
      exact hright
    · have hlt : o.level < p.level := by omega
      have hn : continues (some (l, p)) o = false := beq_false_of_ne he
      rw [regroupedAfter_other hn]
      exact hl.binary (reads_binary o ha hb) hlt

end Readings

theorem IsReadable.readings {e : Term α} (h : e.IsReadable order) : Readings order e := by
  induction e with
  | operand x => exact .operand h
  | negative x => exact .unary (Reads.negative h) rfl (fun _ _ => rfl)
  | negation e ih => exact (ih h).negation
  | binary o a b iha ihb => exact (iha h.1).binary o (ihb h.2)
  | choice c a b ihc iha ihb => exact (ihc h.1).choice (iha h.2.1) (ihb h.2.2)
  | power a b iha ihb => exact (iha h.1).power (ihb h.2)

theorem IsReadable.parse_tokens {e : Term α} (h : e.IsReadable order) :
    parse order (e.tokens order) = some (e.regrouped order) :=
  h.readings.whole.parse_eq

end Term
end Script
end BlockMachine
