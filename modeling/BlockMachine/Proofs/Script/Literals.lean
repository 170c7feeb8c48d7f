import BlockMachine.Compiler.Value
import BlockMachine.Proofs.Number.Integer
import BlockMachine.Proofs.Number.Leading
import BlockMachine.Proofs.Script.Identifier
import BlockMachine.Proofs.Script.Lexer
import BlockMachine.Proofs.Text.Digits

namespace BlockMachine.Lexer

open Identifier

variable {s : State} {c : Char} {cs ds : List Char} {p : Phase}

theorem run_of_steps {s : State} {cs : List Char} (h : ∀ c ∈ cs, step s c = some ([], s)) :
    run s cs = some ([], s) := by
  induction cs with
  | nil => rfl
  | cons c cs ih =>
    obtain ⟨hc, hcs⟩ := List.forall_mem_cons.1 h
    rw [run, hc]
    change (run s cs).bind _ = _
    rw [ih hcs]
    rfl

theorem run_word (h : ∀ c ∈ ds, isWordChar c = true) :
    run (.word cs) ds = some ([], .word (cs ++ ds)) := by
  induction ds generalizing cs with
  | nil => rw [List.append_nil, run]
  | cons d ds ih =>
    obtain ⟨hd, hds⟩ := List.forall_mem_cons.1 h
    rw [run, step, if_pos hd]
    change (run _ ds).bind _ = _
    rw [ih hds, List.append_assoc]
    rfl

theorem begin_word (hw : isWordChar c = true) (hd : c.isDigit = false) :
    begin c = some (.word [c]) := by
  have hb : isBlank c = false := by
    cases hb : isBlank c with
    | false => rfl
    | true =>
      simp only [isBlank, Bool.or_eq_true, beq_iff_eq] at hb
      rcases hb with ((rfl | rfl) | rfl) | rfl <;> cases hw
  have hz : c ≠ '0' := by
    rintro rfl
    cases hd
  rw [begin, hb, if_neg (by decide), if_neg hz, hd, if_neg (by decide), if_pos hw]

theorem lexes_spelled (h : Spelled cs) : Lexes .ready cs [.word cs] (.word cs) := by
  obtain ⟨⟨c, ds, rfl, hd⟩, hw⟩ := h
  obtain ⟨hc, hds⟩ := List.forall_mem_cons.1 hw
  refine ⟨[], ?_, rfl⟩
  rw [run, State.yields_ready, begin_word hc hd]
  change (run (.word [c]) ds).bind _ = _
  rw [run_word hds]
  rfl

theorem Spelled.isStarter (h : Spelled cs) : ∃ c ds, cs = c :: ds ∧ isStarter c = true := by
  obtain ⟨⟨c, ds, rfl, -⟩, hw⟩ := h
  refine ⟨c, ds, rfl, ?_⟩
  rw [Lexer.isStarter, hw c List.mem_cons_self]
  rfl

/-- Behind a mark, a word is begun. A digit behind a dot would begin a fraction. -/
theorem State.yields_mark (hm : marks.contains cs = true) (hw : isWordChar c = true)
    (hd : cs = ['.'] → c.isDigit = false) : (State.mark cs).Yields c := by
  have hall : (partialMarks.all fun ds => ds.all fun c => !isWordChar c) = true := by
    decide +kernel
  have hp : ¬ partialMarks.contains (cs ++ [c]) = true := by
    intro hp
    have hn := List.all_eq_true.1 (List.all_eq_true.1 hall _ (List.contains_iff_mem.1 hp)) c
      (List.mem_append_right cs (List.mem_singleton_self c))
    rw [hw] at hn
    cases hn
  have hf : ¬ (cs = ['.'] ∧ c.isDigit = true) := by
    rintro ⟨he, ht⟩
    rw [hd he] at ht
    cases ht
  have hc : ¬ (cs = ['/'] ∧ (c = '/' ∨ c = '*')) := by
    rintro ⟨-, rfl | rfl⟩ <;> cases hw
  rw [Yields, step, if_neg hf, if_neg hc, if_neg hp, flush]
  exact if_pos hm

theorem isHexDigit_digitChar {n : Nat} (h : n < 16) : isHexDigit n.digitChar = true := by
  revert h
  revert n
  decide

theorem run_escape (c : Char) :
    run (.string '"') (Text.escape c) = some ([], .string '"') := by
  rw [Text.escape]
  cases he : Text.shortEscape? c with
  | some e =>
    have hs : e ∈ [['\\', '"'], ['\\', '\\'], ['\\', 'n'], ['\\', 'r'], ['\\', 't'], ['\\', 'f'],
        ['\\', 'b']] := by
      rw [Text.shortEscape?] at he
      repeat' split at he
      all_goals cases he
      all_goals decide
    have hall : ∀ e ∈ [['\\', '"'], ['\\', '\\'], ['\\', 'n'], ['\\', 'r'], ['\\', 't'],
        ['\\', 'f'], ['\\', 'b']], run (.string '"') e = some ([], .string '"') := by decide
    exact hall e hs
  | none =>
    dsimp only
    split
    · have hx (n : Nat) : isHexDigit (n % 16).digitChar = true :=
        isHexDigit_digitChar (Nat.mod_lt n (by decide))
      simp only [Text.unitEscape, Text.hex4, List.map_cons, List.map_nil, run, step, hx]
      rfl
    · have hq : c ≠ '"' ∧ c ≠ '\\' ∧ c ≠ '\n' ∧ c ≠ '\r' := by
        refine ⟨?_, ?_, ?_, ?_⟩ <;> rintro rfl <;> cases he
      rw [run, step, if_neg hq.1, if_neg hq.2.1, if_neg (not_or_intro hq.2.2.1 hq.2.2.2)]
      rfl

theorem run_escapes (cs : List Char) :
    run (.string '"') (cs.flatMap Text.escape) = some ([], .string '"') := by
  induction cs with
  | nil => rfl
  | cons c cs ih =>
    rw [List.flatMap_cons, run_append, run_escape]
    change (run _ _).map _ = _
    rw [ih]
    rfl

theorem lexes_quoted (text : String) : Lexes .ready (quoted text).toList [.string] .ready := by
  refine ⟨[.string], ?_, rfl⟩
  rw [quoted, String.toList_ofList, Text.quoteWith]
  change run .ready (['"'] ++ (text.toList.flatMap Text.escape ++ ['"'])) = _
  rw [run_append]
  change (run (.string '"') _).map _ = _
  rw [run_append, run_escapes]
  rfl

theorem run_append_of_silent {s' : State} (h : run s cs = some ([], s')) (ds : List Char) :
    run s (cs ++ ds) = run s' ds := by
  rw [run_append, h]
  change (run s' ds).map _ = _
  cases run s' ds <;> rfl

theorem run_cons_of_silent {s' : State} (h : step s c = some ([], s')) (cs : List Char) :
    run s (c :: cs) = run s' cs := by
  rw [run, h]
  change (run s' cs).bind _ = _
  cases run s' cs <;> rfl

theorem begin_digit (h : c.isDigit = true) :
    begin c = some (.number (if c = '0' then .zero else .whole)) := by
  have hb : isBlank c = false := by
    cases hb : isBlank c with
    | false => rfl
    | true =>
      simp only [isBlank, Bool.or_eq_true, beq_iff_eq] at hb
      rcases hb with ((rfl | rfl) | rfl) | rfl <;> cases h
  rw [begin, hb, if_neg (by decide), if_pos h]
  split <;> rfl

theorem run_digits (hp : p = .whole ∨ p = .fraction ∨ p = .power)
    (h : ∀ c ∈ cs, c.isDigit = true) : run (.number p) cs = some ([], .number p) := by
  apply run_of_steps
  intro c hc
  have hn : p.next c = some p := by
    rw [Phase.next, if_pos (h c hc)]
    rcases hp with rfl | rfl | rfl <;> rfl
  rw [step, hn]

theorem run_whole (hn : cs ≠ []) (hh : cs.head? ≠ some '0') (h : ∀ c ∈ cs, c.isDigit = true) :
    run .ready cs = some ([], .number .whole) := by
  cases cs with
  | nil => exact absurd rfl hn
  | cons c cs =>
    obtain ⟨hc, hcs⟩ := List.forall_mem_cons.1 h
    have hz : c ≠ '0' := by
      rintro rfl
      exact hh rfl
    have hs : step .ready c = some ([], .number .whole) := by
      rw [State.yields_ready, begin_digit hc, if_neg hz]
      rfl
    rw [run_cons_of_silent hs]
    exact run_digits (.inl rfl) hcs

theorem run_toDigits (n : Nat) :
    run .ready (Nat.toDigits 10 n) = some ([], .number (if n = 0 then .zero else .whole)) := by
  by_cases hn : n = 0
  · rw [hn, Nat.toDigits_zero]
    rfl
  · rw [if_neg hn]
    have hh := head?_toDigits (Nat.pos_of_ne_zero hn)
    exact run_whole Nat.toDigits_ne_nil hh (Text.isDigit_toDigits n)

section

open Binary64

theorem isDigit_replicate (n : Nat) : ∀ c ∈ List.replicate n '0', c.isDigit = true := by
  intro c hc
  rw [List.eq_of_mem_replicate hc]
  rfl

theorem run_positionalText {digits : List Char} (hn : digits ≠ []) (hh : digits.head? ≠ some '0')
    (h : ∀ c ∈ digits, c.isDigit = true) (whole : Int) :
    run .ready (positionalText digits whole) = some ([], .number .fraction) := by
  rw [positionalText]
  split
  · have hz : run .ready ['0', '.'] = some ([], .number .fraction) := rfl
    change run .ready (['0', '.'] ++ (List.replicate _ '0' ++ digits)) = _
    rw [run_append_of_silent hz]
    apply run_digits (.inr (.inl rfl))
    intro c hc
    rcases List.mem_append.1 hc with hc | hc
    · exact isDigit_replicate _ c hc
    · exact h c hc
  · rename_i hw
    have hp : 0 < whole.toNat := by omega
    have hf : ∀ c ∈ (if (digits.drop whole.toNat).isEmpty then ['0'] else
        digits.drop whole.toNat), c.isDigit = true := by
      split
      · exact isDigit_replicate 1
      · exact fun c hc => h c (List.mem_of_mem_drop hc)
    have hw : run .ready (digits.take whole.toNat ++
        List.replicate (whole.toNat - digits.length) '0') = some ([], .number .whole) := by
      obtain ⟨d, ds, rfl⟩ := List.exists_cons_of_ne_nil hn
      obtain ⟨n, hk⟩ := Nat.exists_eq_succ_of_ne_zero (Nat.ne_of_gt hp)
      rw [hk, List.take_succ_cons, List.cons_append]
      apply run_whole
      · exact List.cons_ne_nil _ _
      · exact hh
      · rw [← List.cons_append, ← List.take_succ_cons]
        intro c hc
        rcases List.mem_append.1 hc with hc | hc
        · exact h c (List.mem_of_mem_take hc)
        · exact isDigit_replicate _ c hc
    have hp : step (.number .whole) '.' = some ([], .number .fraction) := rfl
    rw [run_append_of_silent hw, run_cons_of_silent hp]
    exact run_digits (.inr (.inl rfl)) hf

theorem run_exponentText (exponent : Int) :
    run (.number .exponent) (exponentText exponent) = some ([], .number .power) := by
  have hd : ∀ c ∈ (if (Nat.toDigits 10 exponent.natAbs).length < 2 then
      '0' :: Nat.toDigits 10 exponent.natAbs else Nat.toDigits 10 exponent.natAbs),
      c.isDigit = true := by
    split
    · exact List.forall_mem_cons.2 ⟨rfl, Text.isDigit_toDigits _⟩
    · exact Text.isDigit_toDigits _
  have hn : (if (Nat.toDigits 10 exponent.natAbs).length < 2 then
      '0' :: Nat.toDigits 10 exponent.natAbs else Nat.toDigits 10 exponent.natAbs) ≠ [] := by
    split
    · exact List.cons_ne_nil _ _
    · exact Nat.toDigits_ne_nil
  have hs : step (.number .exponent) (if exponent < 0 then '-' else '+') =
      some ([], .number .sign) := by
    split <;> rfl
  rw [exponentText, run_cons_of_silent hs]
  obtain ⟨d, ds, he⟩ := List.exists_cons_of_ne_nil hn
  rw [he] at hd ⊢
  obtain ⟨hd, hds⟩ := List.forall_mem_cons.1 hd
  have hp : step (.number .sign) d = some ([], .number .power) := by
    rw [step, Phase.next, if_pos hd]
    rfl
  rw [run_cons_of_silent hp]
  exact run_digits (.inr (.inr rfl)) hds

theorem run_scientificText (n : Nat) (exponent : Int) :
    run .ready (scientificText (Nat.toDigits 10 n) exponent) = some ([], .number .power) := by
  have hd := Text.isDigit_toDigits n
  have hr := run_toDigits n
  have he : step (.number .fraction) 'e' = some ([], .number .exponent) := rfl
  generalize Nat.toDigits 10 n = digits at hd hr ⊢
  match digits, hd, hr with
  | d :: e :: rest, hd, hr =>
    obtain ⟨hd, hds⟩ := List.forall_mem_cons.1 hd
    have hb : step .ready d = some ([], .number (if d = '0' then .zero else .whole)) := by
      rw [State.yields_ready, begin_digit hd]
      rfl
    have hp : step (.number (if d = '0' then .zero else .whole)) '.' =
        some ([], .number .fraction) := by
      split <;> rfl
    change run .ready (d :: '.' :: ((e :: rest) ++ 'e' :: _)) = _
    rw [run_cons_of_silent hb, run_cons_of_silent hp,
      run_append_of_silent (run_digits (.inr (.inl rfl)) hds), run_cons_of_silent he]
    exact run_exponentText exponent
  | [d], hd, hr =>
    have hq : step (.number (if n = 0 then .zero else .whole)) 'e' =
        some ([], .number .exponent) := by
      split <;> rfl
    change run .ready ([d] ++ 'e' :: _) = _
    rw [run_append_of_silent hr, run_cons_of_silent hq]
    exact run_exponentText exponent
  | [], hd, hr =>
    cases hr

theorem run_magnitudeText (m p : Nat) :
    ∃ q, (q = .fraction ∨ q = .power) ∧
      run .ready (magnitudeText m p) = some ([], .number q) := by
  rw [magnitudeText]
  split
  · exact ⟨.fraction, .inl rfl, rfl⟩
  · rename_i hm
    rw [Decimal.text]
    split
    · rename_i hp
      refine ⟨.fraction, .inl rfl, run_positionalText Nat.toDigits_ne_nil ?_
        (Text.isDigit_toDigits _) _⟩
      rcases shortest_coefficient (Nat.pos_of_ne_zero hm) p with hc | hc
      · exact head?_toDigits hc
      · rw [hc] at hp
        cases hp
    · exact ⟨.power, .inr rfl, run_scientificText _ _⟩

theorem starts_positionalText {digits : List Char} (hn : digits ≠ [])
    (h : ∀ c ∈ digits, c.isDigit = true) (whole : Int) :
    ∃ c ds, positionalText digits whole = c :: ds ∧ c.isDigit = true := by
  obtain ⟨d, ds, rfl⟩ := List.exists_cons_of_ne_nil hn
  rw [positionalText]
  split
  · exact ⟨'0', _, rfl, rfl⟩
  · rename_i hw
    obtain ⟨n, hk⟩ := Nat.exists_eq_succ_of_ne_zero (show whole.toNat ≠ 0 by omega)
    rw [hk]
    exact ⟨d, _, rfl, h d List.mem_cons_self⟩

theorem starts_scientificText {digits : List Char} (hn : digits ≠ [])
    (h : ∀ c ∈ digits, c.isDigit = true) (exponent : Int) :
    ∃ c ds, scientificText digits exponent = c :: ds ∧ c.isDigit = true := by
  match digits, hn, h with
  | d :: e :: rest, _, h => exact ⟨d, _, rfl, h d List.mem_cons_self⟩
  | [d], _, h => exact ⟨d, _, rfl, h d List.mem_cons_self⟩

theorem starts_magnitudeText (m p : Nat) :
    ∃ c ds, magnitudeText m p = c :: ds ∧ c.isDigit = true := by
  rw [magnitudeText]
  split
  · exact ⟨'0', _, rfl, rfl⟩
  · rw [Decimal.text]
    split
    · exact starts_positionalText Nat.toDigits_ne_nil (Text.isDigit_toDigits _) _
    · exact starts_scientificText Nat.toDigits_ne_nil (Text.isDigit_toDigits _) _

end

theorem isWordChar_of_isDigit (h : c.isDigit = true) : isWordChar c = true := by
  rw [isWordChar, Char.isAlphanum, h, Bool.or_true]
  rfl

/-- Characters that are one token, a number or a word for one. -/
structure Numeral (cs : List Char) (t : Token) (s : State) : Prop where
  lexes : Lexes .ready cs [t] s
  starts : ∃ c ds, cs = c :: ds ∧ isWordChar c = true
  closed : s.isClosed = true
  token : t ∈ [.number, .word "NaN".toList, .word "Infinity".toList]

theorem numeral_word (h : cs ∈ ["NaN".toList, "Infinity".toList]) :
    Numeral cs (.word cs) (.word cs) := by
  have hs : Spelled cs := by
    rcases List.mem_pair.1 h with rfl | rfl <;> decide
  refine ⟨lexes_spelled hs, ?_, rfl, ?_⟩
  · obtain ⟨⟨c, ds, hc, -⟩, hw⟩ := hs
    exact ⟨c, ds, hc, hw c (hc ▸ List.mem_cons_self)⟩
  · rcases List.mem_pair.1 h with rfl | rfl <;> decide

theorem numeral_number (h : run .ready cs = some ([], .number p))
    (hs : ∃ c ds, cs = c :: ds ∧ c.isDigit = true) (hp : p.isComplete = true) :
    Numeral cs .number (.number p) := by
  obtain ⟨c, ds, hc, hd⟩ := hs
  exact ⟨⟨[], h, rfl⟩, ⟨c, ds, hc, isWordChar_of_isDigit hd⟩, hp, List.mem_cons_self⟩

theorem numeral_toDigits (n : Nat) :
    ∃ s, s.takesDot = false ∧ Numeral (Nat.toDigits 10 n) .number s := by
  obtain ⟨d, ds, hd⟩ := List.exists_cons_of_ne_nil (Nat.toDigits_ne_nil (n := n) (b := 10))
  have hs : ∃ c ds, Nat.toDigits 10 n = c :: ds ∧ c.isDigit = true :=
    ⟨d, ds, hd, Text.isDigit_toDigits n d (hd ▸ List.mem_cons_self)⟩
  have hr := run_toDigits n
  split at hr
  · exact ⟨_, rfl, numeral_number hr hs rfl⟩
  · exact ⟨_, rfl, numeral_number hr hs rfl⟩

/-- Every number is written as a numeral, behind a sign if it is negative. Only whole numbers would
take a dot that follows. -/
theorem numeral_cases (x : Binary64) :
    ∃ cs t s, (ValueRule.numeral x).toList = (if x.isNegative then '-' :: cs else cs) ∧
      Numeral cs t s ∧ s.takesDot = x.toInt?.isNone := by
  cases x with
  | nan => exact ⟨_, _, _, rfl, numeral_word List.mem_cons_self, rfl⟩
  | infinite negative =>
    refine ⟨_, _, _, ?_, numeral_word (List.mem_cons_of_mem _ List.mem_cons_self), rfl⟩
    cases negative <;> rfl
  | finite negative m p =>
    cases hx : (Binary64.finite negative m p).toInt? with
    | some n =>
      obtain ⟨s, hs, hn⟩ := numeral_toDigits n.natAbs
      refine ⟨_, _, s, ?_, hn, hs⟩
      simp only [ValueRule.numeral, hx, Binary64.isNegative_eq hx, decimalText,
        String.toList_ofList, Text.decimal, decide_eq_true_eq]
    | none =>
      obtain ⟨q, hq, hr⟩ := run_magnitudeText m p
      have hm : m ≠ 0 := by
        rintro rfl
        rw [Binary64.toInt?, Nat.zero_mul, if_pos (Nat.zero_mod _)] at hx
        cases hx
      refine ⟨_, _, _, ?_, numeral_number hr (starts_magnitudeText m p) ?_, ?_⟩
      · have hn : (Binary64.finite negative m p).isNegative = negative := by
          rw [Binary64.isNegative, bne_iff_ne.2 hm, Bool.and_true]
        simp only [ValueRule.numeral, hx, hn, Binary64.display, String.toList_ofList]
      · rcases hq with rfl | rfl <;> rfl
      · rcases hq with rfl | rfl <;> rfl

end BlockMachine.Lexer
