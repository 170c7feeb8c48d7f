import BlockMachine.Proofs.Script.Readback

namespace BlockMachine.Script

variable {α : Type} {order : α → Order} {R : Operator → Operator → Prop}

/-- Equality up to moving parentheses inside runs: `R o p` allows to group `a o b p c` either
way. -/
inductive Regrouping (R : Operator → Operator → Prop) : Term α → Term α → Prop
  | refl (e : Term α) : Regrouping R e e
  | symm {a b : Term α} : Regrouping R a b → Regrouping R b a
  | trans {a b c : Term α} : Regrouping R a b → Regrouping R b c → Regrouping R a c
  | assoc {o p : Operator} (a b c : Term α) : R o p →
    Regrouping R (.binary p (.binary o a b) c) (.binary o a (.binary p b c))
  | negation {a b : Term α} : Regrouping R a b → Regrouping R (.negation a) (.negation b)
  | binary {a a' b b' : Term α} (o : Operator) : Regrouping R a a' → Regrouping R b b' →
    Regrouping R (.binary o a b) (.binary o a' b')
  | choice {c c' a a' b b' : Term α} : Regrouping R c c' → Regrouping R a a' →
    Regrouping R b b' → Regrouping R (.choice c a b) (.choice c' a' b')
  | power {a a' b b' : Term α} : Regrouping R a a' → Regrouping R b b' →
    Regrouping R (.power a b) (.power a' b')

theorem Regrouping.follow {a b : Term α} (h : Regrouping R a b)
    (k : Option (Term α × Operator)) : Regrouping R (follow k a) (follow k b) := by
  cases k with
  | none => exact h
  | some k => exact .binary _ (.refl _) h

namespace Term

def operator? : Term α → Option Operator
  | .binary o _ _ => some o
  | _ => none

/-- A term as the divisor of `dividend`, or on its own. -/
def dividing : Option (Term α) → Term α → Term α
  | none, e => e
  | some a, e => .binary .divide a e

/-- The term in which dividing by a product is dividing by its first factor and multiplying by the
others. The term itself may be a divisor. -/
def spreadUnder : Option (Term α) → Term α → Term α
  | dividend, .operand a => dividing dividend (.operand a)
  | dividend, .negative a => dividing dividend (.negative a)
  | dividend, .negation e => dividing dividend (.negation (spreadUnder none e))
  | dividend, .binary .times a b => .binary .times (spreadUnder dividend a) (spreadUnder none b)
  | dividend, .binary .divide a b => dividing dividend (spreadUnder (some (spreadUnder none a)) b)
  | dividend, .binary o a b =>
    dividing dividend (.binary o (spreadUnder none a) (spreadUnder none b))
  | dividend, .choice c a b =>
    dividing dividend (.choice (spreadUnder none c) (spreadUnder none a) (spreadUnder none b))
  | dividend, .power a b => dividing dividend (.power (spreadUnder none a) (spreadUnder none b))

def spread (e : Term α) : Term α := e.spreadUnder none

/-- A term behind an operator and its left operand, spread. -/
def spreadAfter : Option (Term α × Operator) → Term α → Term α
  | none, e => e.spread
  | some (a, .divide), e => e.spreadUnder (some a)
  | some (a, o), e => .binary o a e.spread

/-- Operators of one level, the second of which stands in the right operand of the first without
parentheses. -/
inductive Meets : Operator → Operator → Prop
  | product : Meets .times .times
  | quotient : Meets .divide .times
  | sum : Meets .plus .plus
  | difference : Meets .plus .minus
  | and : Meets .and .and
  | or : Meets .or .or

theorem Meets.of_not_needsParens {o p : Operator} (hl : p.level = o.level)
    (hw : p.order.needsParens o.order = false) : Meets o p := by
  cases o <;> cases p <;> first | constructor | exact absurd hl (by decide) | cases hw

theorem Meets.trans {o p q : Operator} (hp : Meets o p) (hq : Meets p q) : Meets o q := by
  cases hp <;> cases hq <;> constructor

theorem Meets.ne_divide {o p : Operator} (h : Meets o p) : p ≠ .divide := by
  cases h <;> decide

/-- Every right operand without parentheses on the level of its operator may be regrouped, products
behind a division aside. -/
def Nests (R : Operator → Operator → Prop) : Term α → Prop
  | .operand _ => True
  | .negative _ => True
  | .negation e => Nests R e
  | .binary o a b =>
    Nests R a ∧ Nests R b ∧ ∀ p, b.operator? = some p → Meets o p → o ≠ .divide → R o p
  | .choice c a b => Nests R c ∧ Nests R a ∧ Nests R b
  | .power a b => Nests R a ∧ Nests R b

theorem meets_of_operator? {e : Term α} {o p : Operator} (he : e.operator? = some p)
    (hw : e.isWrapped order o.order = false) (hl : p.level = o.level) : Meets o p := by
  cases e with
  | binary q a b =>
    cases he
    exact .of_not_needsParens hl hw
  | _ => cases he

theorem operator?_ne_times {e : Term α} {o : Operator} (hw : e.isWrapped order o.order = true)
    (ho : o = .times ∨ o = .divide) : e.operator? ≠ some .times := by
  intro he
  cases e with
  | binary q a b =>
    cases he
    rcases ho with rfl | rfl <;> cases hw
  | _ => cases he

theorem spreadAfter_of_ne_divide {o : Operator} (ho : o ≠ .divide) (a e : Term α) :
    e.spreadAfter (some (a, o)) = .binary o a e.spread := by
  cases o <;> first | rfl | exact absurd rfl ho

theorem spreadAfter_eq_follow {k : Option (Term α × Operator)} {e : Term α}
    (h : ∀ a, k = some (a, .divide) → e.operator? ≠ some .times) :
    e.spreadAfter k = follow k e.spread := by
  cases k with
  | none => rfl
  | some k =>
    obtain ⟨a, o⟩ := k
    by_cases ho : o = .divide
    · subst ho
      cases e with
      | binary p b c =>
        have hp := h a rfl
        cases p <;> first | rfl | exact absurd rfl hp
      | _ => rfl
    · exact spreadAfter_of_ne_divide ho a e

theorem spread_binary (o : Operator) (a b : Term α) :
    (Term.binary o a b).spread = b.spreadAfter (some (a.spread, o)) := by
  cases o <;> rfl

/-- Some division has a product as its right operand. -/
def DividesByProduct : Term α → Prop
  | .operand _ => False
  | .negative _ => False
  | .negation e => DividesByProduct e
  | .binary o a b =>
    (o = .divide ∧ b.operator? = some .times) ∨ DividesByProduct a ∨ DividesByProduct b
  | .choice c a b => DividesByProduct c ∨ DividesByProduct a ∨ DividesByProduct b
  | .power a b => DividesByProduct a ∨ DividesByProduct b

theorem spread_divide_product {a b : Term α} (h : b.operator? = some .times) :
    (Term.binary .divide a b).spread ≠ .binary .divide a b := by
  cases b with
  | binary o b c =>
    cases h
    exact nofun
  | _ => cases h

theorem spread_eq_self_iff {e : Term α} : e.spread = e ↔ ¬ e.DividesByProduct := by
  induction e with
  | operand _ => exact ⟨fun _ => id, fun _ => rfl⟩
  | negative _ => exact ⟨fun _ => id, fun _ => rfl⟩
  | negation e ih =>
    change Term.negation e.spread = _ ↔ _
    rw [Term.negation.injEq, ih, DividesByProduct]
  | binary o a b iha ihb =>
    by_cases hd : o = .divide ∧ b.operator? = some .times
    · obtain ⟨rfl, hb⟩ := hd
      exact iff_of_false (spread_divide_product hb) (not_not_intro (.inl ⟨rfl, hb⟩))
    · have hs : b.spreadAfter (some (a.spread, o)) = .binary o a.spread b.spread := by
        apply spreadAfter_eq_follow
        intro l hl hb
        cases hl
        exact hd ⟨rfl, hb⟩
      rw [spread_binary, hs, Term.binary.injEq, iha, ihb]
      simp only [DividesByProduct, not_or, hd, not_false_eq_true, true_and]
  | choice c a b ihc iha ihb =>
    change Term.choice c.spread a.spread b.spread = _ ↔ _
    rw [Term.choice.injEq, ihc, iha, ihb]
    simp only [DividesByProduct, not_or]
  | power a b iha ihb =>
    change Term.power a.spread b.spread = _ ↔ _
    rw [Term.power.injEq, iha, ihb]
    simp only [DividesByProduct, not_or]

/-- Terms that are alike but for their operands, which are related. -/
inductive Rel {β : Type} (S : α → β → Prop) : Term α → Term β → Prop
  | operand {x : α} {y : β} : S x y → Rel S (.operand x) (.operand y)
  | negative {x : α} {y : β} : S x y → Rel S (.negative x) (.negative y)
  | negation {a : Term α} {b : Term β} : Rel S a b → Rel S (.negation a) (.negation b)
  | binary {a c : Term α} {b d : Term β} (o : Operator) : Rel S a b → Rel S c d →
    Rel S (.binary o a c) (.binary o b d)
  | choice {a c e : Term α} {b d f : Term β} : Rel S a b → Rel S c d → Rel S e f →
    Rel S (.choice a c e) (.choice b d f)
  | power {a c : Term α} {b d : Term β} : Rel S a b → Rel S c d → Rel S (.power a c) (.power b d)

namespace Rel

variable {β : Type} {S : α → β → Prop} {a : Term α} {b b' : Term β}

theorem right_unique (hS : ∀ x y z, S x y → S x z → y = z) (h : Rel S a b) (h' : Rel S a b') :
    b = b' := by
  induction h generalizing b' with
  | operand hx =>
    cases h' with
    | operand hy => rw [hS _ _ _ hx hy]
  | negative hx =>
    cases h' with
    | negative hy => rw [hS _ _ _ hx hy]
  | negation _ ih =>
    cases h' with
    | negation h => rw [ih h]
  | binary o _ _ ih₁ ih₂ =>
    cases h' with
    | binary _ h₁ h₂ => rw [ih₁ h₁, ih₂ h₂]
  | choice _ _ _ ih₁ ih₂ ih₃ =>
    cases h' with
    | choice h₁ h₂ h₃ => rw [ih₁ h₁, ih₂ h₂, ih₃ h₃]
  | power _ _ ih₁ ih₂ =>
    cases h' with
    | power h₁ h₂ => rw [ih₁ h₁, ih₂ h₂]

theorem refl_of {S : α → α → Prop} {e : Term α} (h : ∀ x ∈ e.operands, S x x) : Rel S e e := by
  induction e with
  | operand x => exact .operand (h x (List.mem_singleton_self x))
  | negative x => exact .negative (h x (List.mem_singleton_self x))
  | negation e ih => exact .negation (ih h)
  | binary o a b iha ihb =>
    obtain ⟨ha, hb⟩ := List.forall_mem_append.1 h
    exact .binary o (iha ha) (ihb hb)
  | choice c a b ihc iha ihb =>
    obtain ⟨hca, hb⟩ := List.forall_mem_append.1 h
    obtain ⟨hc, ha⟩ := List.forall_mem_append.1 hca
    exact .choice (ihc hc) (iha ha) (ihb hb)
  | power a b iha ihb =>
    obtain ⟨ha, hb⟩ := List.forall_mem_append.1 h
    exact .power (iha ha) (ihb hb)

theorem operator?_eq (h : Rel S a b) : b.operator? = a.operator? := by
  cases h <;> rfl

theorem orderBy_eq (h : Rel S a b) (order : Order) :
    (b.orderBy fun _ => order) = a.orderBy fun _ => order := by
  cases h <;> rfl

theorem dividesByProduct_iff (h : Rel S a b) : b.DividesByProduct ↔ a.DividesByProduct := by
  induction h with
  | operand _ => rfl
  | negative _ => rfl
  | negation _ ih => exact ih
  | binary o _ h ih₁ ih₂ => simp only [DividesByProduct, h.operator?_eq, ih₁, ih₂]
  | choice _ _ _ ih₁ ih₂ ih₃ => simp only [DividesByProduct, ih₁, ih₂, ih₃]
  | power _ _ ih₁ ih₂ => simp only [DividesByProduct, ih₁, ih₂]

end Rel
end Term

namespace Regrouping

theorem spreadUnder {a a' : Term α} (h : Regrouping R a a') (e : Term α) :
    Regrouping R (e.spreadUnder (some a)) (e.spreadUnder (some a')) := by
  have divide (e : Term α) : Regrouping R (.binary .divide a e) (.binary .divide a' e) :=
    .binary .divide h (.refl e)
  induction e with
  | binary o b c ihb _ =>
    cases o with
    | times => exact .binary .times ihb (.refl _)
    | _ => exact divide _
  | _ => exact divide _

theorem spreadAfter {a a' : Term α} (h : Regrouping R a a') (o : Operator) (e : Term α) :
    Regrouping R (e.spreadAfter (some (a, o))) (e.spreadAfter (some (a', o))) := by
  cases o with
  | divide => exact h.spreadUnder e
  | _ => exact .binary _ h (.refl _)

end Regrouping

namespace Term

theorem join_regrouping {e l : Term α} {o p : Operator} (hp : Meets o p ∨ o = p)
    (wrapped : Regrouping R (e.regrouped order) e.spread)
    (bare : e.isWrapped order p.order = false →
      Regrouping R (e.regroupedAfter order (some (l, o))) (e.spreadAfter (some (l, o)))) :
    Regrouping R
      (if e.isWrapped order p.order then .binary o l (e.regrouped order)
        else e.regroupedAfter order (some (l, o)))
      (e.spreadAfter (some (l, o))) := by
  cases hw : e.isWrapped order p.order with
  | false => exact bare hw
  | true =>
    rw [spreadAfter_eq_follow]
    · exact .binary o (.refl l) wrapped
    · intro a ha
      cases ha
      apply operator?_ne_times hw
      rcases hp with hp | rfl
      · cases hp
        exact .inl rfl
      · exact .inr rfl

theorem follow_regrouping (e : Term α) {e' : Term α} (he : e.operator? = none)
    (h : Regrouping R e' e.spread) (k : Option (Term α × Operator)) :
    Regrouping R (follow k e') (e.spreadAfter k) := by
  rw [spreadAfter_eq_follow (fun _ _ => he ▸ nofun)]
  exact h.follow k

theorem chain_regrouping {o p : Operator} (hm : Meets p o) (hR : p ≠ .divide → R p o)
    (l a b : Term α) :
    Regrouping R (.binary o (a.spreadAfter (some (l, p))) b.spread)
      ((Term.binary o a b).spreadAfter (some (l, p))) := by
  by_cases hp : p = .divide
  · subst hp
    cases hm
    exact .refl _
  · rw [spreadAfter_of_ne_divide hp, spreadAfter_of_ne_divide hp, spread_binary,
      spreadAfter_of_ne_divide hm.ne_divide]
    exact .assoc l a.spread b.spread (hR hp)

theorem regroupedAfter_regrouping
    (hR : ∀ o p q, R o p → Meets p q → R o q) {e : Term α} (h : e.Nests R)
    (k : Option (Term α × Operator))
    (hk : ∀ l o p, k = some (l, o) → e.operator? = some p → p.level = o.level →
      Meets o p ∧ (o ≠ .divide → R o p)) :
    Regrouping R (e.regroupedAfter order k) (e.spreadAfter k) := by
  -- For every left neighbour `k`: the operands of a chain are read behind different ones.
  induction e generalizing k with
  | operand x => exact follow_regrouping (.operand x) rfl (.refl _) k
  | negative x => exact follow_regrouping (.negative x) rfl (.refl _) k
  | negation e ih => exact follow_regrouping (.negation e) rfl (.negation (ih h none nofun)) k
  | choice c a b ihc iha ihb =>
    exact follow_regrouping (.choice c a b) rfl
      (.choice (ihc h.1 none nofun) (iha h.2.1 none nofun) (ihb h.2.2 none nofun)) k
  | power a b iha ihb =>
    exact follow_regrouping (.power a b) rfl (.power (iha h.1 none nofun) (ihb h.2 none nofun)) k
  | binary o a b iha ihb =>
    have join (left : Term α) : Regrouping R
        (if b.isWrapped order o.order then .binary o left (b.regrouped order)
          else b.regroupedAfter order (some (left, o))) (b.spreadAfter (some (left, o))) := by
      apply join_regrouping (.inr rfl) (ihb h.2.1 none nofun)
      intro hw
      apply ihb h.2.1
      intro l q p hq hp hl
      cases hq
      have hm := meets_of_operator? hp hw hl
      exact ⟨hm, h.2.2 p hp hm⟩
    cases hc : continues k o with
    | false =>
      -- `o` starts a chain of its own.
      have hs : (Term.binary o a b).spreadAfter k = follow k (Term.binary o a b).spread := by
        apply spreadAfter_eq_follow
        intro l hl ho
        cases hl
        cases ho
        cases hc
      rw [regroupedAfter_other hc, hs, spread_binary]
      exact .follow ((join _).trans (.spreadAfter (iha h.1 none nofun) o b)) k
    | true =>
      cases k with
      | none => cases hc
      | some k =>
        -- `a` joins `l` by `p` first, and `b` joins what came of that by `o`.
        obtain ⟨l, p⟩ := k
        have hl : p.level = o.level := beq_iff_eq.1 hc
        obtain ⟨hm, hpo⟩ := hk l p o rfl rfl hl.symm
        have left : Regrouping R
            (if a.isWrapped order o.order then follow (some (l, p)) (a.regrouped order)
              else a.regroupedAfter order (some (l, p))) (a.spreadAfter (some (l, p))) := by
          apply join_regrouping (.inl hm) (iha h.1 none nofun)
          intro hw
          apply iha h.1
          intro m r q hr hq hm'
          cases hr
          have hq := meets_of_operator? hq hw (hm'.trans hl)
          exact ⟨hm.trans hq, fun hd => hR p o q (hpo hd) hq⟩
        rw [regroupedAfter_chain hc]
        apply (join _).trans
        rw [spreadAfter_of_ne_divide hm.ne_divide]
        exact (Regrouping.binary o left (.refl _)).trans (chain_regrouping hm hpo l a b)

/-- A term whose bare right operands may be regrouped is read as itself, up to regrouping and with
its divisions spread. -/
theorem Nests.regrouping (hR : ∀ o p q, R o p → Meets p q → R o q) {e : Term α}
    (h : e.Nests R) : Regrouping R (e.regrouped order) e.spread :=
  regroupedAfter_regrouping hR h none nofun

end Term
end BlockMachine.Script
