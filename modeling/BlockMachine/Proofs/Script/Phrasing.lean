import BlockMachine.Proofs.Script.Phrase

namespace BlockMachine

open Lexer

variable {bad worse : Prop} {cs ds : List Char} {ts us : List Token} {s : Lexer.State}
  {o p q : Order} {items : List Item} {v w : Bool}

/-- Characters that can stand where an expression is begun, and that other things can follow. -/
structure Stands (bad : Prop) (cs : List Char) (ts : List Token) (s : Lexer.State) : Prop where
  passes : Passes bad .ready cs ts s
  starts : ∃ c ds, cs = c :: ds ∧ isStarter c = true
  closed : s.isClosed = true

namespace Stands

theorem behind {s' : Lexer.State} (h : Stands bad cs ts s) (hs : s'.isOpen = true) :
    Passes bad s' cs ts s := by
  obtain ⟨c, ds, rfl, hc⟩ := h.starts
  exact h.passes.of_yields (State.yields_of_isOpen hs hc)

theorem before {s' : Lexer.State} (h : Stands bad cs ts s) (hd : Passes worse .ready ds us s')
    (hc : ∃ c es, ds = c :: es ∧ c ∈ followers) :
    Passes (bad ∨ worse) .ready (cs ++ ds) (ts ++ us) s' := by
  obtain ⟨c, es, rfl, hc⟩ := hc
  exact h.passes.append (hd.of_yields (State.yields_of_isClosed h.closed hc))

theorem closing {s' : Lexer.State} (h : Stands bad cs ts s) (hd : Lexes .ready ds us s')
    (hc : ∃ c es, ds = c :: es ∧ c ∈ followers) :
    Passes bad .ready (cs ++ ds) (ts ++ us) s' :=
  (h.before hd.passes hc).congr (iff_of_eq (or_false bad))

theorem enclosed {l r : Char} (h : Stands bad cs ts s) (hl : begin l = some (.mark [l]))
    (ho : (State.mark [l]).isOpen = true) (hr : begin r = some (.mark [r])) (hc : r ∈ followers) :
    Passes bad .ready (l :: cs ++ [r]) (.mark [l] :: ts ++ [.mark [r]]) (.mark [r]) := by
  have hb {c : Char} (hc : begin c = some (.mark [c])) :
      Lexes .ready [c] [.mark [c]] (.mark [c]) := by
    refine ⟨[], ?_, rfl⟩
    rw [run, State.yields_ready, hc]
    rfl
  exact ((hb hl).append_passes (h.behind ho)).append_lexes
    ((hb hr).of_yields (State.yields_of_isClosed h.closed hc))

end Stands

theorem starts_append (h : ∃ c ds, cs = c :: ds ∧ isStarter c = true) (ds : List Char) :
    ∃ c es, cs ++ ds = c :: es ∧ isStarter c = true := by
  obtain ⟨c, es, rfl, hc⟩ := h
  exact ⟨c, es ++ ds, rfl, hc⟩

/-- An expression whose text is read as a phrase that binds at least as tightly as the order says,
or is stuck if something is bad about it. The text of a whole number cannot be followed by a dot. -/
structure Legible (bad : Prop) (whole : Bool) (e : Expression) : Prop where
  reads : ∃ ts s o, Stands bad e.text.toList ts s ∧ Phrase ts o ∧ o.tenths ≤ e.order.tenths ∧
    (e.order.tenths ≤ Order.functionCall.tenths → s.takesDot = !whole)
  order : e.order.tenths ≤ Order.assignment.tenths
  atomic : whole = true → e.order = .atomic

theorem Item.list_singleton (i : Item) : list [i] = i.lead ++ i.tokens := by
  simp [list, List.intercalate]

theorem Item.list_cons {i : Item} (h : items ≠ []) :
    list (i :: items) = (i.lead ++ i.tokens) ++ .mark [','] :: list items := by
  obtain ⟨j, items, rfl⟩ := List.exists_cons_of_ne_nil h
  simp [list, List.intercalate]

theorem Order.operand_of_needsParens {m : List Char} (h : (m, p) ∈ operators)
    (hq : q.needsParens p = false) :
    q.tenths ≤ p.tenths ∧ (p = .relational → q.rank < p.rank) := by
  have hall : ∀ e ∈ operators, ∀ q ∈ Order.all, q.needsParens e.2 = false →
      q.tenths ≤ e.2.tenths ∧ (e.2 = .relational → q.rank < e.2.rank) := by decide +kernel
  exact hall _ h q q.mem_all hq

theorem Order.tenths_of_member (h : q.needsParens .member = false) :
    q.tenths ≤ functionCall.tenths := by
  have hall : ∀ q ∈ all, q.needsParens .member = false → q.tenths ≤ functionCall.tenths := by
    decide
  exact hall q q.mem_all h

theorem lexes_operator {m : List Char} (h : (m, p) ∈ operators) :
    Lexes .ready (' ' :: m ++ [' ']) [.mark m] .ready := by
  have hall : ∀ e ∈ operators, run .ready (' ' :: e.1 ++ [' ']) = some ([.mark e.1], .ready) := by
    decide +kernel
  exact ⟨[.mark m], hall _ h, rfl⟩

namespace Legible

variable {a b c e : Expression} {text : String}

theorem congr (h : Legible bad w e) (hb : bad ↔ worse) : Legible worse w e := by
  rw [← propext hb]
  exact h

theorem of_passes (hp : Passes bad .ready cs ts s) (hx : text.toList = cs)
    (hs : ∃ c ds, cs = c :: ds ∧ isStarter c = true) (hc : s.isClosed = true) (h : Phrase ts o)
    (ho : o.tenths ≤ p.tenths) (hb : p.tenths ≤ Order.assignment.tenths)
    (hd : p.tenths ≤ Order.functionCall.tenths → s.takesDot = true) :
    Legible bad false ⟨text, p⟩ := by
  subst hx
  exact ⟨⟨ts, s, o, ⟨hp, hs, hc⟩, h, ho, hd⟩, hb, nofun⟩

theorem of_run (hr : run .ready text.toList = some (ts, s))
    (hs : text.toList.head?.any isStarter = true) (hc : s.isClosed = true)
    (h : Phrase (ts ++ s.pending) o) (ho : o.tenths ≤ p.tenths)
    (hb : p.tenths ≤ Order.assignment.tenths)
    (hd : p.tenths ≤ Order.functionCall.tenths → s.takesDot = true) :
    Legible False false ⟨text, p⟩ := by
  obtain ⟨c, hh, hc'⟩ := (Option.any_eq_true _ _).1 hs
  obtain ⟨ds, hds⟩ := List.head?_eq_some_iff.1 hh
  exact of_passes (Lexes.passes ⟨ts, hr, rfl⟩) rfl ⟨c, ds, hds, hc'⟩ hc h ho hb hd

theorem word {name : String} (hs : Identifier.Spelled name.toList)
    (h : Phrase [.word name.toList] .atomic) : Legible False false ⟨name, .atomic⟩ :=
  of_passes (lexes_spelled hs).passes rfl (Spelled.isStarter hs) rfl h (Nat.le_refl _) (by decide)
    fun _ => rfl

theorem identifier (name : String) : Legible False false ⟨BlockMachine.identifier name, .atomic⟩ :=
  word (Identifier.valid_identifier name).toSpelled
    (.identifier (Identifier.valid_identifier name))

theorem string (text : String) : Legible False false ⟨quoted text, .atomic⟩ := by
  apply of_passes (lexes_quoted text).passes rfl _ rfl .string (Nat.le_refl _) (by decide)
    fun _ => rfl
  rw [quoted, String.toList_ofList]
  exact ⟨'"', _, rfl, rfl⟩

theorem of_numeral {t : Token} (hn : Numeral cs t s) (hx : text.toList = cs)
    (hd : s.takesDot = !w) : Legible False w ⟨text, .atomic⟩ := by
  subst hx
  obtain ⟨c, ds, hc, hw⟩ := hn.starts
  have hs : isStarter c = true := by rw [isStarter, hw, Bool.true_or]
  exact ⟨⟨[t], s, .atomic, ⟨hn.lexes.passes, ⟨c, ds, hc, hs⟩, hn.closed⟩, .numeral hn,
    Nat.le_refl _, fun _ => hd⟩, Nat.zero_le _, fun _ => rfl⟩

theorem digits (n : Nat) : Legible False true ⟨decimalText n, .atomic⟩ := by
  obtain ⟨s, hd, hn⟩ := numeral_toDigits n
  refine of_numeral (w := true) hn ?_ hd
  rw [decimalText, String.toList_ofList, Text.decimal, if_neg (Int.not_lt.2 n.cast_nonneg)]
  rfl

theorem numeral (x : Binary64) :
    Legible False (!x.isNegative && x.toInt?.isSome)
      ⟨ValueRule.numeral x, if x.isNegative then .unaryNegation else .atomic⟩ := by
  obtain ⟨cs, t, s, hx, hn, hd⟩ := numeral_cases x
  cases hneg : x.isNegative with
  | true =>
    rw [hneg] at hx
    have hl : Lexes .ready ['-'] [.mark ['-']] (.mark ['-']) := ⟨[], rfl, rfl⟩
    have hm : Lexes (.mark ['-']) cs [t] s := by
      have hm := hn.lexes
      obtain ⟨c, ds, rfl, hw⟩ := hn.starts
      exact hm.of_yields (State.yields_mark (by decide) hw nofun)
    apply of_passes (hl.append hm).passes hx ⟨'-', _, rfl, rfl⟩ hn.closed
      (.negative (.numeral hn) rfl) (Nat.le_refl _) (by decide)
    intro hd
    exact absurd hd (by decide)
  | false =>
    rw [hneg] at hx
    apply of_numeral hn hx
    rw [hd]
    cases x.toInt? <;> rfl

/-- Which tokens an expression is, as a member of a list. -/
theorem item (h : Legible bad w e) :
    ∃ ts s o, Stands bad e.text.toList ts s ∧ Phrase ts o ∧
      o.tenths ≤ Order.assignment.tenths := by
  obtain ⟨ts, s, o, hs, hp, ho, -⟩ := h.reads
  exact ⟨ts, s, o, hs, hp, Nat.le_trans ho h.order⟩

theorem parens (h : Legible bad w e) : Legible bad false ⟨"(" ++ e.text ++ ")", .atomic⟩ := by
  obtain ⟨ts, s, o, hs, hp, -, -⟩ := h.reads
  apply of_passes (hs.enclosed (l := '(') (r := ')') rfl rfl rfl (by decide)) _ ⟨'(', _, rfl, rfl⟩
    rfl (.parens hp) (Nat.le_refl _) (by decide) fun _ => rfl
  simp only [String.toList_append]
  rfl

theorem within (h : Legible bad w e) (context : Order) : Legible bad w (e.within context) := by
  rw [Expression.within]
  split
  · rename_i hn
    cases w with
    | false => exact h.parens
    | true =>
      -- A whole number is atomic, and so it stands bare everywhere, before a dot too.
      rw [h.atomic rfl, Order.needsParens_atomic] at hn
      cases hn
  · exact h

theorem binary {m : String} (ha : Legible bad v a) (hb : Legible worse w b)
    (hm : (m.toList, p) ∈ operators) (hl : a.order.needsParens p = false)
    (hr : b.order.needsParens p = false) :
    Legible (bad ∨ worse) false ⟨a.text ++ (" " ++ m ++ " " ++ b.text), p⟩ := by
  obtain ⟨ts, s, o, hs, hp, ho, -⟩ := ha.reads
  obtain ⟨us, s', q, hs', hp', hq, -⟩ := hb.reads
  have hl := (Order.operand_of_needsParens hm hl).1
  have hr := Order.operand_of_needsParens hm hr
  obtain ⟨r, hph, hle⟩ := Phrase.operation hm hp (Order.rank_le_rank (Nat.le_trans ho hl)) hp'
    (Nat.le_trans hq hr.1) fun he => Nat.lt_of_le_of_lt (Order.rank_le_rank hq) (hr.2 he)
  have hrest := (lexes_operator hm).append_passes hs'.passes
  have ht := tenths_of_operator hm
  apply of_passes (hs.before hrest ⟨' ', _, rfl, by decide⟩) _ (starts_append hs.starts _)
    hs'.closed hph hle ht.2
  · intro hd
    exact absurd ht.1 (Nat.not_lt.2 hd)
  · simp only [String.toList_append]
    rfl

theorem negation (h : Legible bad w e) (hn : e.order.needsParens .logicalNot = false) :
    Legible bad false ⟨"!" ++ e.text, .logicalNot⟩ := by
  obtain ⟨ts, s, o, hs, hp, ho, -⟩ := h.reads
  have hz : ∀ q ∈ Order.all, q.needsParens .logicalNot = false → q.rank = 0 := by decide
  have hr := Order.rank_le_rank ho
  rw [hz _ e.order.mem_all hn] at hr
  have hl : Lexes .ready ['!'] [.mark ['!']] (.mark ['!']) := ⟨[], rfl, rfl⟩
  apply of_passes (hl.append_passes (hs.behind rfl)) String.toList_append ⟨'!', _, rfl, rfl⟩
    hs.closed (.negation hp (Nat.le_zero.1 hr)) (Nat.le_refl _) (by decide)
  intro hd
  exact absurd hd (by decide)

theorem choice {worst : Prop} {u : Bool} (hc : Legible bad u c) (ha : Legible worse v a)
    (hb : Legible worst w b) (hn : c.order.needsParens .conditional = false) :
    Legible (bad ∨ worse ∨ worst) false
      ⟨c.text ++ (" ? " ++ (a.text ++ (" : " ++ b.text))), .conditional⟩ := by
  obtain ⟨cs, s, o, hs, hp, ho, -⟩ := hc.reads
  obtain ⟨ts, s₁, p, hs₁, hp₁, ho₁⟩ := ha.item
  obtain ⟨us, s₂, q, hs₂, hp₂, ho₂⟩ := hb.item
  have hz : ∀ q ∈ Order.all, q.needsParens .conditional = false →
      q.rank < Order.conditional.rank := by decide
  have hr := Nat.lt_of_le_of_lt (Order.rank_le_rank ho) (hz _ c.order.mem_all hn)
  have hq : Lexes .ready " ? ".toList [.mark ['?']] .ready := ⟨[.mark ['?']], rfl, rfl⟩
  have hd : Lexes .ready " : ".toList [.mark [':']] .ready := ⟨[.mark [':']], rfl, rfl⟩
  have hrest := hq.append_passes
    (hs₁.before (hd.append_passes hs₂.passes) ⟨' ', _, rfl, by decide⟩)
  apply of_passes (hs.before hrest ⟨' ', _, rfl, by decide⟩) _ (starts_append hs.starts _)
    hs₂.closed (.choice hp hr hp₁ ho₁ hp₂ ho₂) (Nat.le_refl _) (by decide)
  · intro hd
    exact absurd hd (by decide)
  · simp only [String.toList_append]

theorem member {name : String} (h : Legible bad false e)
    (hn : e.order.needsParens .member = false) (hm : Identifier.Spelled name.toList) :
    Legible bad false ⟨e.text ++ ("." ++ name), .member⟩ := by
  obtain ⟨ts, s, o, hs, hp, ho, hd⟩ := h.reads
  have ht := Order.tenths_of_member hn
  have hl : Lexes .ready ['.'] [.mark ['.']] (.mark ['.']) := ⟨[], rfl, rfl⟩
  have hw : Lexes (.mark ['.']) name.toList [.word name.toList] (.word name.toList) := by
    have hw := lexes_spelled hm
    obtain ⟨⟨c, cs, hc, hd⟩, hall⟩ := hm
    rw [hc] at hw hall ⊢
    exact hw.of_yields (State.yields_mark (by decide) (hall c List.mem_cons_self) fun _ => hd)
  apply of_passes (hs.passes.append_lexes ((hl.append hw).of_yields
    (State.yields_of_takesDot (hd ht)))) _ (starts_append hs.starts _) rfl
      (.member name.toList hp (Nat.le_trans ho ht)) (Nat.le_refl _) (by decide) fun _ => rfl
  simp only [String.toList_append]
  rfl

theorem path {object name : String} (hs : Identifier.Spelled object.toList)
    (hk : object.toList ∉ keywords) (hm : Identifier.Spelled name.toList) :
    Legible False false ⟨object ++ ("." ++ name), .member⟩ :=
  (word hs (.word hk)).member rfl hm

theorem coordinate {name : String} (h : Legible bad w e)
    (hn : e.order.needsParens .member = false) (hm : name = "x" ∨ name = "y") :
    Legible (bad ∨ w = true) false ⟨e.text ++ ("." ++ name), .member⟩ := by
  have hw : Identifier.Spelled name.toList := by
    rcases hm with rfl | rfl <;> decide
  cases w with
  | false => exact (h.member hn hw).congr (by simp)
  | true =>
    obtain ⟨ts, s, o, hs, hp, ho, hd⟩ := h.reads
    have ht := Order.tenths_of_member hn
    -- With the dot the number has become a fraction, which no letter can follow.
    have hx : run s ('.' :: name.toList) = none := by
      rcases State.whole_of_takesDot hs.closed (hd ht) with rfl | rfl <;>
        rcases hm with rfl | rfl <;> rfl
    have hstuck : Passes (true = true) s ('.' :: name.toList)
        [.mark ['.'], .word name.toList] (.word name.toList) :=
      ⟨fun hn => absurd rfl hn, fun _ => hx⟩
    apply of_passes (hs.passes.append hstuck) _ (starts_append hs.starts _) rfl
      (.member name.toList hp (Nat.le_trans ho ht)) (Nat.le_refl _) (by decide) fun _ => rfl
    simp only [String.toList_append]
    rfl

theorem index (h : Legible bad w e) (hn : e.order.needsParens .member = false)
    (hk : Legible worse v c) :
    Legible (bad ∨ worse) false ⟨e.text ++ ("[" ++ c.text ++ "]"), .member⟩ := by
  obtain ⟨ts, s, o, hs, hp, ho, -⟩ := h.reads
  obtain ⟨us, s', q, hs', hp', -⟩ := hk.reads
  have ht := Order.tenths_of_member hn
  have hl := hs'.enclosed (l := '[') (r := ']') rfl rfl rfl (by decide)
  apply of_passes (hs.before hl ⟨'[', _, rfl, by decide⟩) _ (starts_append hs.starts _) rfl
    (.index hp (Nat.le_trans ho ht) hp') (Nat.le_refl _) (by decide) fun _ => rfl
  simp only [String.toList_append]
  rfl

theorem pair (ha : Legible bad v a) (hb : Legible worse w b) :
    Legible (bad ∨ worse) false
      ⟨"\x7b x: " ++ (a.text ++ (", y: " ++ (b.text ++ " \x7d"))), .atomic⟩ := by
  obtain ⟨ts, s₁, p, hs₁, hp₁, ho₁⟩ := ha.item
  obtain ⟨us, s₂, q, hs₂, hp₂, ho₂⟩ := hb.item
  have hx : Lexes .ready "\x7b x: ".toList [.mark ['\x7b'], .word ['x'], .mark [':']] .ready :=
    ⟨[.mark ['\x7b'], .word ['x'], .mark [':']], by decide +kernel, rfl⟩
  have hy : Lexes .ready ", y: ".toList [.mark [','], .word ['y'], .mark [':']] .ready :=
    ⟨[.mark [','], .word ['y'], .mark [':']], by decide +kernel, rfl⟩
  have hc : Lexes .ready " \x7d".toList [.mark ['\x7d']] (.mark ['\x7d']) := ⟨[], rfl, rfl⟩
  have hrest := hy.append_passes (hs₂.closing hc ⟨' ', _, rfl, by decide⟩)
  have hi := @Phrase.object
    [⟨[.word ['x'], .mark [':']], ts, p⟩, ⟨[.word ['y'], .mark [':']], us, q⟩]
    (List.forall_mem_cons.2 ⟨hp₁, List.forall_mem_singleton.2 hp₂⟩)
    (List.forall_mem_cons.2 ⟨⟨⟨_, rfl⟩, ho₁⟩, List.forall_mem_singleton.2 ⟨⟨_, rfl⟩, ho₂⟩⟩)
  rw [Item.list_cons (List.cons_ne_nil _ _), Item.list_singleton] at hi
  simp only [List.cons_append, List.nil_append, List.append_assoc] at hi
  apply of_passes (hx.append_passes (hs₁.before hrest ⟨',', _, rfl, by decide⟩)) _
    ⟨'\x7b', _, rfl, rfl⟩ rfl hi (Nat.le_refl _) (by decide) fun _ => rfl
  simp only [String.toList_append]

end Legible

/-- The expressions that are listed in brackets. -/
structure Listed (bad : Prop) (text : String) (items : List Item) : Prop where
  stands : ∃ s, Stands bad text.toList (Item.list items) s
  phrase : ∀ i ∈ items, Phrase i.tokens i.order
  element : ∀ i ∈ items, i.IsElement

namespace Legible

variable {e f : Expression} {text : String}

theorem listed (h : Legible bad w e) : ∃ items, items ≠ [] ∧ Listed bad e.text items := by
  obtain ⟨ts, s, o, hs, hp, ho⟩ := h.item
  refine ⟨[⟨[], ts, o⟩], List.cons_ne_nil _ _, ⟨s, ?_⟩, List.forall_mem_singleton.2 hp,
    List.forall_mem_singleton.2 ⟨.inl rfl, ho⟩⟩
  rw [Item.list_singleton]
  exact hs

theorem call (h : Legible bad w e) (hn : e.order.tenths ≤ Order.functionCall.tenths) :
    Legible bad false ⟨e.text ++ "()", .functionCall⟩ := by
  obtain ⟨ts, s, o, hs, hp, ho, -⟩ := h.reads
  have hl : Lexes .ready "()".toList [.mark ['('], .mark [')']] (.mark [')']) := ⟨_, rfl, rfl⟩
  exact of_passes (hs.closing hl ⟨'(', _, rfl, by decide⟩) String.toList_append
    (starts_append hs.starts _) rfl (@Phrase.call _ _ [] hp (Nat.le_trans ho hn) nofun nofun)
      (Nat.le_refl _) (by decide) fun _ => rfl

theorem listed_cons (h : Legible bad w e) (hn : items ≠ []) (hl : Listed worse text items) :
    ∃ items, items ≠ [] ∧ Listed (bad ∨ worse) (e.text ++ (", " ++ text)) items := by
  obtain ⟨ts, s, o, hs, hp, ho⟩ := h.item
  obtain ⟨s', hs'⟩ := hl.stands
  have hc : Lexes .ready ", ".toList [.mark [',']] .ready := ⟨_, rfl, rfl⟩
  refine ⟨⟨[], ts, o⟩ :: items, List.cons_ne_nil _ _, ⟨s', ?_⟩,
    List.forall_mem_cons.2 ⟨hp, hl.phrase⟩, List.forall_mem_cons.2 ⟨⟨.inl rfl, ho⟩, hl.element⟩⟩
  rw [Item.list_cons hn, String.toList_append, String.toList_append]
  exact ⟨hs.before (hc.append_passes hs'.passes) ⟨',', _, rfl, by decide⟩,
    starts_append hs.starts _, hs'.closed⟩

theorem listed_spread (h : Legible bad w e) : ∃ items, Listed bad ("..." ++ e.text) items := by
  obtain ⟨ts, s, o, hs, hp, ho⟩ := h.item
  have hd : Lexes .ready "...".toList [.mark ['.', '.', '.']] (.mark ['.', '.', '.']) :=
    ⟨[], rfl, rfl⟩
  refine ⟨[⟨[.mark ['.', '.', '.']], ts, o⟩], ⟨s, ?_⟩, List.forall_mem_singleton.2 hp,
    List.forall_mem_singleton.2 ⟨.inr rfl, ho⟩⟩
  rw [Item.list_singleton, String.toList_append]
  exact ⟨hd.append_passes (hs.behind rfl), ⟨'.', _, rfl, rfl⟩, hs.closed⟩

end Legible

namespace Listed

variable {f : Expression} {text : String}

theorem congr (h : Listed bad text items) (hb : bad ↔ worse) : Listed worse text items := by
  rw [← propext hb]
  exact h

theorem array (h : Listed bad text items) : Legible bad false ⟨"[" ++ (text ++ "]"), .atomic⟩ := by
  obtain ⟨s, hs⟩ := h.stands
  apply Legible.of_passes (hs.enclosed (l := '[') (r := ']') rfl rfl rfl (by decide)) _
    ⟨'[', _, rfl, rfl⟩ rfl (.array h.phrase h.element) (Nat.le_refl _) (by decide) fun _ => rfl
  simp only [String.toList_append]
  rfl

theorem call {head : String} (h : Listed bad text items) (hf : Legible False w f)
    (hn : f.order.tenths ≤ Order.functionCall.tenths) (hh : head = f.text ++ "(") :
    Legible bad false ⟨head ++ (text ++ ")"), .functionCall⟩ := by
  obtain ⟨ts, s, o, hs, hp, ho, -⟩ := hf.reads
  obtain ⟨s', hs'⟩ := h.stands
  have hl := hs'.enclosed (l := '(') (r := ')') rfl rfl rfl (by decide)
  have hpass := (hs.before hl ⟨'(', _, rfl, by decide⟩).congr (iff_of_eq (false_or bad))
  apply Legible.of_passes hpass _ (starts_append hs.starts _) rfl
    (.call hp (Nat.le_trans ho hn) h.phrase h.element) (Nat.le_refl _) (by decide) fun _ => rfl
  simp only [hh, String.toList_append, List.append_assoc]
  rfl

end Listed

end BlockMachine
