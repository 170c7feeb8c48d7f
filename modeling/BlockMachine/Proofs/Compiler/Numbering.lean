import BlockMachine.Proofs.Compiler.Demands
import BlockMachine.Proofs.Compiler.Passage
import BlockMachine.Proofs.Number.Leading
import BlockMachine.Proofs.Workspace.RoundTrip

namespace BlockMachine

variable {ρ : Type}

namespace Catalog

variable {stem socket : String} {ds is : List Nat} {i : Nat}

/-- The number is written with plain digits, with no zero in front of it and no line feed behind
it. -/
def isPlain (stem socket : String) : Bool :=
  (socket.toList.drop stem.length).all Char.isDigit &&
    ((socket.toList.drop stem.length).length == 1 ||
      (socket.toList.drop stem.length).head? != some '0')

/-- The names that some numbers are looked up under. -/
def numbered (stem : String) (is : List Nat) : List String :=
  is.map fun i : Nat => stem ++ decimalText i

theorem toList_decimalText (i : Nat) : (decimalText i).toList = Nat.toDigits 10 i := by
  have hi : ¬ (i : Int) < 0 := by omega
  simp [decimalText, Text.decimal, hi]

theorem drop_append_decimalText (stem : String) (i : Nat) :
    (stem ++ decimalText i).toList.drop stem.length = Nat.toDigits 10 i := by
  rw [String.toList_append, ← String.length_toList, List.drop_left, toList_decimalText]

theorem isPlain_decimalText (stem : String) (i : Nat) :
    isPlain stem (stem ++ decimalText i) = true := by
  rw [isPlain, drop_append_decimalText, Bool.and_eq_true, Bool.or_eq_true]
  constructor
  · rw [List.all_eq_true]
    intro c hc
    exact Text.isDigit_toDigits i c hc
  · rcases Nat.eq_zero_or_pos i with rfl | hi
    · exact .inl rfl
    · exact .inr (bne_iff_ne.2 (head?_toDigits hi))

theorem eq_decimalText_of_isPlain (hd : socketDigits? stem socket = some ds)
    (hp : isPlain stem socket = true) : socket = stem ++ decimalText (Text.ofDigits ds) := by
  rw [socketDigits?] at hd
  split at hd
  · rename_i hs
    obtain ⟨cs, hcs⟩ := List.isPrefixOf_iff_prefix.1 hs
    have ht : socket.toList.drop stem.length = cs := by
      rw [← hcs, ← String.length_toList, List.drop_left]
    rw [isPlain, ht, Bool.and_eq_true, Bool.or_eq_true, List.all_eq_true, beq_iff_eq,
      bne_iff_ne] at hp
    obtain ⟨ha, hz⟩ := hp
    have hn : cs ≠ [] := by
      rintro rfl
      rw [ht] at hd
      cases hd
    rw [ht, Text.dropFinal_of_isDigit ha, Text.digits?, Text.mapM_digitValue? ha] at hd
    · have hv : Text.ofDigits ds = Nat.ofDigitChars 10 cs 0 := by
        rw [← Option.some.inj hd, Text.ofDigits, List.foldl_map]
        rfl
      apply String.toList_inj.1
      rw [String.toList_append, toList_decimalText, hv, Text.toDigits_ofDigitChars hn ha hz, hcs]
    · exact hn
  · cases hd

theorem eq_of_decimalText (hd : socketDigits? stem (stem ++ decimalText i) = some ds) :
    Text.ofDigits ds = i := by
  obtain ⟨ds', hd', hi⟩ := socketDigits?_decimalText stem i
  rw [hd] at hd'
  rw [Option.some.inj hd', hi]

/-- Of the sockets with a number, only the one that is looked up is read, and it is read once. -/
structure LooksUp (stem : String) (is : List Nat) (socket : String) (number : Nat) : Prop where
  counted : number ∈ is
  plain : isPlain stem socket = true →
    socket = stem ++ decimalText number ∧ (numbered stem is).count socket = 1
  other : isPlain stem socket = false → socket ∉ numbered stem is

theorem looksUp (hn : is.Nodup) (hd : socketDigits? stem socket = some ds)
    (hm : Text.ofDigits ds ∈ is) : LooksUp stem is socket (Text.ofDigits ds) := by
  refine ⟨hm, fun hp => ?_, fun hp hs => ?_⟩
  · have he := eq_decimalText_of_isPlain hd hp
    refine ⟨he, List.count_eq_one_of_mem ?_ ?_⟩
    · apply hn.map
      intro i j hij
      obtain ⟨ds, hd, hi⟩ := socketDigits?_decimalText stem i
      dsimp only at hij
      rw [← hi]
      exact eq_of_decimalText (hij ▸ hd)
    · rw [he]
      exact List.mem_map_of_mem hm
  · obtain ⟨i, -, rfl⟩ := List.mem_map.1 hs
    rw [isPlain_decimalText] at hp
    cases hp

theorem not_isBranchSocket (hd : socketDigits? "IF" socket = some ds) :
    isBranchSocket socket = false := by
  rw [socketDigits?] at hd
  split at hd
  · rename_i hs
    obtain ⟨cs, hcs⟩ := List.isPrefixOf_iff_prefix.1 hs
    have he : Text.dropFinal '\n' socket.toList ≠ "ELSE".toList := by
      rw [← hcs, Text.dropFinal]
      split
      · cases cs with
        | nil => decide
        | cons c cs =>
          intro h
          cases h
      · intro h
        cases h
    rw [isBranchSocket, socketDigits?, ← hcs, Bool.or_eq_false_iff]
    refine ⟨rfl, ?_⟩
    rw [hcs]
    exact beq_eq_false_iff_ne.2 he
  · cases hd

end Catalog

theorem ValueRule.ofDigits_lt_slotCount {b : Block ρ} {n : Nat} (h : slotCount b = .ok n)
    {socket : String} (hs : socket ∈ Table.keys b.values) {ds : List Nat}
    (hd : Catalog.socketDigits? "ADD" socket = some ds) : Text.ofDigits ds < n := by
  obtain ⟨numbers, count, hn, -, rfl⟩ := slotCount_eq_ok h
  have hm := (Block.mem_numbers_iff hn).2 ⟨socket, hs, ds, hd, rfl⟩
  exact (foldl_max_le_iff.1 (Nat.le_refl _)).2 _ hm

open Passage (Leads)

/-- The text of what a socket holds, as it stands in a context of the given order. -/
def Passage.shown (context : Order) (default : String) : Option (Passage ρ Expression) → String
  | none => default
  | some q => (q.result.within context).text

namespace Generator

variable {g : Generator ρ} {b : Block ρ} {c c' : Context ρ}

theorem value_eq_ok {child : Option ρ} {context : Order} {default : String} {e : Expression}
    (h : g.value child context default c = .ok e c') :
    ∃ q : Option (Passage ρ Expression), q.map (·.ref) = child ∧ Leads c q.toList c' ∧
      (∀ p ∈ q, p.Runs g.expression) ∧ e.text = Passage.shown context default q := by
  cases child with
  | none =>
    obtain ⟨rfl, rfl⟩ := Compile.pure_eq_ok.1 h
    exact ⟨none, rfl, .nil, by simp, rfl⟩
  | some r =>
    obtain ⟨a, c₁, hr, h⟩ := Compile.bind_eq_ok.1 h
    obtain ⟨rfl, rfl⟩ := Compile.pure_eq_ok.1 h
    refine ⟨some ⟨r, c, a, c₁⟩, rfl, .cons rfl .nil, ?_, rfl⟩
    intro p hp
    cases hp
    exact hr

/-- The text of statements that run one after the other. -/
def joinSteps (fragments : List String) : String :=
  String.join ((fragments.filter (· != "")).map Fragment.closeScope)

theorem sequence_eq_ok {top : Option ρ} {s : String} (h : g.sequence top c = .ok s c') :
    ∃ qs : List (Passage ρ String), g.diagram.stack top = .ok (qs.map (·.ref)) ∧ Leads c qs c' ∧
      (∀ q ∈ qs, q.Runs g.statement) ∧ s = joinSteps (qs.map (·.result)) := by
  obtain ⟨fragments, c₁, hf, h⟩ := Compile.bind_eq_ok.1 h
  obtain ⟨rfl, rfl⟩ := Compile.pure_eq_ok.1 h
  obtain ⟨rs, c₂, hs, hf⟩ := Compile.bind_eq_ok.1 hf
  obtain ⟨hr, rfl⟩ := Compile.lift_eq_ok.1 hs
  obtain ⟨qs, hl, hq, rfl, rfl⟩ := Compile.mapM_eq_ok hf
  exact ⟨qs, hr, hl, hq, rfl⟩

/-- The slots of a list from left to right, each compiled out of the socket with its number. -/
structure Slots (g : Generator ρ) (b : Block ρ) (c : Context ρ)
    (slots : List (Option (Passage ρ Expression))) (c' : Context ρ) : Prop where
  held : slots.map (Option.map (·.ref)) =
    (Catalog.numbered "ADD" (List.range slots.length)).map b.value?
  leads : Leads c (slots.filterMap id) c'
  runs : ∀ q ∈ slots.filterMap id, q.Runs g.expression

theorem expand_slot_eq_ok {socket default s : String} {context : Order} {parts : List Part}
    (h : g.expand b (.slot socket context default :: parts) c = .ok s c') :
    ∃ (q : Option (Passage ρ Expression)) (rest : String) (c₁ : Context ρ),
      q.map (·.ref) = b.value? socket ∧ Leads c q.toList c₁ ∧ (∀ p ∈ q, p.Runs g.expression) ∧
      g.expand b parts c₁ = .ok rest c' ∧ s = Passage.shown context default q ++ rest := by
  obtain ⟨e, c₁, hv, h⟩ := Compile.bind_eq_ok.1 h
  obtain ⟨rest, c₂, hr, h⟩ := Compile.bind_eq_ok.1 h
  obtain ⟨rfl, rfl⟩ := Compile.pure_eq_ok.1 h
  obtain ⟨q, hq, hl, hp, he⟩ := value_eq_ok hv
  exact ⟨q, rest, c₁, hq, hl, hp, hr, by rw [he]⟩

theorem filterMap_id_cons {α : Type} (x : Option α) (xs : List (Option α)) :
    (x :: xs).filterMap id = x.toList ++ xs.filterMap id := by
  cases x <;> rfl

theorem expand_listSlots_eq_ok {is : List Nat} {s : String}
    (h : g.expand b ((is.map ValueRule.listSlot).intersperse (.text ", ") ++ [.text "]"]) c =
      .ok s c') :
    ∃ slots : List (Option (Passage ρ Expression)),
      slots.map (Option.map (·.ref)) = (Catalog.numbered "ADD" is).map b.value? ∧
      Leads c (slots.filterMap id) c' ∧ (∀ q ∈ slots.filterMap id, q.Runs g.expression) ∧
      s = ", ".intercalate (slots.map (Passage.shown .comma "null")) ++ "]" := by
  induction is generalizing c s with
  | nil =>
    cases h
    exact ⟨[], rfl, .nil, by simp, rfl⟩
  | cons i is ih =>
    -- the last slot has the bracket behind it, and every other one a comma
    cases is with
    | nil =>
      obtain ⟨q, rest, c₁, hq, hl, hp, hr, rfl⟩ := expand_slot_eq_ok h
      cases hr
      refine ⟨[q], congrArg (· :: []) hq, ?_, ?_, ?_⟩
      · rw [filterMap_id_cons, List.filterMap_nil, List.append_nil]
        exact hl
      · rw [filterMap_id_cons, List.filterMap_nil, List.append_nil]
        intro p hm
        exact hp p (Option.mem_toList.1 hm)
      · rw [List.map_cons, List.map_nil, String.intercalate_singleton]
        rfl
    | cons j is =>
      obtain ⟨q, rest, c₁, hq, hl, hp, hr, rfl⟩ := expand_slot_eq_ok h
      obtain ⟨others, c₂, ho, hr⟩ := Compile.bind_eq_ok.1 hr
      obtain ⟨rfl, rfl⟩ := Compile.pure_eq_ok.1 hr
      obtain ⟨slots, hs, hls, hps, rfl⟩ := ih ho
      refine ⟨q :: slots, ?_, ?_, ?_, ?_⟩
      · rw [List.map_cons, hs, hq]
        rfl
      · rw [filterMap_id_cons]
        exact Passage.leads_append.2 ⟨c₁, hl, hls⟩
      · rw [filterMap_id_cons]
        intro p hm
        rcases List.mem_append.1 hm with hm | hm
        · exact hp p (Option.mem_toList.1 hm)
        · exact hps p hm
      · cases slots with
        | nil => cases hs
        | cons q' slots =>
          simp only [List.map_cons, String.intercalate_cons_cons, String.append_assoc]

theorem list_eq_ok {d : Diagram ρ} {n : Nat} {r : ρ} {e : Expression}
    (hk : (d.block r).kind = "lists_create_with")
    (h : (ofDepth d (n + 1)).expression r c = .ok e c') :
    ∃ slots c₁, ValueRule.slotCount (d.block r) = .ok slots.length ∧
      (ofDepth d n).Slots (d.block r) { c with active := r :: c.active } slots c₁ ∧
      c' = Compile.leave c₁ ∧
      e = ⟨"[" ++ ", ".intercalate (slots.map (Passage.shown .comma "null")) ++ "]", .atomic⟩ := by
  rw [expression_succ, hk] at h
  obtain ⟨c₁, hv, rfl⟩ := Compile.visiting_eq_ok h
  obtain ⟨t, _, hl, hf⟩ := Compile.bind_eq_ok.1 hv
  obtain ⟨ht, rfl⟩ := Compile.lift_eq_ok.1 hl
  obtain ⟨count, hc, rfl⟩ := map_eq_ok.1 ht
  obtain ⟨_, _, hx, hf⟩ := Compile.bind_eq_ok.1 hf
  obtain ⟨rfl, rfl⟩ := Compile.pure_eq_ok.1 hf
  obtain ⟨_, _, hs, hx⟩ := Compile.bind_eq_ok.1 hx
  obtain ⟨rfl, rfl⟩ := Compile.pure_eq_ok.1 hx
  obtain ⟨slots, hh, hq, hp, rfl⟩ := expand_listSlots_eq_ok hs
  have hn : slots.length = count := by
    simpa [Catalog.numbered] using congrArg List.length hh
  subst hn
  exact ⟨slots, _, hc, ⟨hh, hq, hp⟩, rfl, by rw [String.append_assoc]; rfl⟩

end Generator

/-- A branch that was compiled: its number, its condition if it has one, and its steps. -/
structure Branch (ρ : Type) where
  index : Nat
  condition : Option (Passage ρ Expression)
  body : List (Passage ρ String)

namespace Branch

variable {g : Generator ρ} {b : Block ρ} {c c' : Context ρ}

def text (x : Branch ρ) : String :=
  "if (" ++ Passage.shown .none "false" x.condition ++ ") \x7b\n" ++
    indented (Generator.joinSteps (x.body.map (·.result))) ++ "\x7d"

/-- The condition and then the steps are compiled out of the sockets with the number. -/
structure Runs (g : Generator ρ) (b : Block ρ) (c : Context ρ) (x : Branch ρ) (c' : Context ρ) :
    Prop where
  condition : x.condition.map (·.ref) = b.value? ("IF" ++ decimalText x.index)
  body : g.diagram.stack (b.head? ("DO" ++ decimalText x.index)) = .ok (x.body.map (·.ref))
  leads : ∃ c₁, Leads c x.condition.toList c₁ ∧ Leads c₁ x.body c'
  condition_runs : ∀ q ∈ x.condition, q.Runs g.expression
  body_runs : ∀ q ∈ x.body, q.Runs g.statement

/-- Branches that are compiled one after the other. -/
inductive Chain (g : Generator ρ) (b : Block ρ) : Context ρ → List (Branch ρ) → Context ρ → Prop
  | nil {c : Context ρ} : Chain g b c [] c
  | cons {x : Branch ρ} {xs : List (Branch ρ)} {c c₁ c' : Context ρ} :
    x.Runs g b c c₁ → Chain g b c₁ xs c' → Chain g b c (x :: xs) c'

theorem of_branch {i : Nat} {s : String} (h : StatementRule.branch g b i c = .ok s c') :
    ∃ x : Branch ρ, x.index = i ∧ x.Runs g b c c' ∧ s = x.text := by
  obtain ⟨e, c₁, hv, h⟩ := Compile.bind_eq_ok.1 h
  obtain ⟨body, c₂, hb, h⟩ := Compile.bind_eq_ok.1 h
  obtain ⟨rfl, rfl⟩ := Compile.pure_eq_ok.1 h
  obtain ⟨q, hq, hl, hp, he⟩ := Generator.value_eq_ok hv
  obtain ⟨qs, hs, hls, hps, rfl⟩ := Generator.sequence_eq_ok hb
  exact ⟨⟨i, q, qs⟩, rfl, ⟨hq, hs, ⟨c₁, hl, hls⟩, hp, hps⟩, by rw [he]; rfl⟩

theorem of_mapM_branch {is : List Nat} {texts : List String}
    (h : is.mapM (StatementRule.branch g b) c = .ok texts c') :
    ∃ xs : List (Branch ρ), xs.map (·.index) = is ∧ Chain g b c xs c' ∧
      texts = xs.map Branch.text := by
  induction is generalizing c texts with
  | nil =>
    cases h
    exact ⟨[], rfl, .nil, rfl⟩
  | cons i is ih =>
    rw [List.mapM_cons] at h
    obtain ⟨s, c₁, hs, h⟩ := Compile.bind_eq_ok.1 h
    obtain ⟨texts, c₂, ht, h⟩ := Compile.bind_eq_ok.1 h
    obtain ⟨rfl, rfl⟩ := Compile.pure_eq_ok.1 h
    obtain ⟨x, rfl, hx, rfl⟩ := of_branch hs
    obtain ⟨xs, rfl, hc, rfl⟩ := ih ht
    exact ⟨x :: xs, rfl, .cons hx hc, rfl⟩

def elseText : Option (List (Passage ρ String)) → String
  | none => "\n"
  | some body =>
    " else \x7b\n" ++ indented (Generator.joinSteps (body.map (·.result))) ++ "\x7d\n"

/-- The steps behind the last branch, if there are any. -/
structure Ends (g : Generator ρ) (b : Block ρ) (c : Context ρ)
    (last : Option (List (Passage ρ String))) (c' : Context ρ) : Prop where
  isSome : last.isSome = StatementRule.hasElse b
  body : ∀ qs ∈ last, g.diagram.stack (b.head? "ELSE") = .ok (qs.map (·.ref))
  leads : Leads c (last.getD []) c'
  runs : ∀ q ∈ last.getD [], q.Runs g.statement

theorem of_branches {s : String} (h : StatementRule.branches.run g b c = .ok s c') :
    ∃ xs last c₁, StatementRule.branchIndices b = .ok (xs.map (·.index)) ∧ Chain g b c xs c₁ ∧
      Ends g b c₁ last c' ∧ s = " else ".intercalate (xs.map text) ++ elseText last := by
  obtain ⟨is, _, hl, h⟩ := Compile.bind_eq_ok.1 h
  obtain ⟨hi, rfl⟩ := Compile.lift_eq_ok.1 hl
  obtain ⟨texts, c₁, ht, h⟩ := Compile.bind_eq_ok.1 h
  obtain ⟨xs, rfl, hc, rfl⟩ := of_mapM_branch ht
  split at h
  · rename_i he
    obtain ⟨body, c₂, hb, h⟩ := Compile.bind_eq_ok.1 h
    obtain ⟨rfl, rfl⟩ := Compile.pure_eq_ok.1 h
    obtain ⟨qs, hs, hl, hp, rfl⟩ := Generator.sequence_eq_ok hb
    refine ⟨xs, some qs, c₁, hi, hc, ⟨he.symm, ?_, hl, hp⟩, ?_⟩
    · intro qs' hq
      cases hq
      exact hs
    · simp only [elseText, String.append_assoc]
  · rename_i he
    obtain ⟨rfl, rfl⟩ := Compile.pure_eq_ok.1 h
    refine ⟨xs, none, c₁, hi, hc, ⟨?_, by simp, .nil, by simp⟩, rfl⟩
    rw [Bool.not_eq_true] at he
    exact he.symm

end Branch

namespace Tree

variable {t : Tree} {socket : String} {ds : List Nat}

/-- A numbered socket of a branch block holds a condition or a body, as its name says. -/
theorem Placed.branchDigits? (hp : t.Placed) (hk : t.block.kind = Catalog.branchKind)
    (hs : socket ∈ t.block.sockets) (hd : StatementRule.branchDigits? socket = some ds) :
    (socket ∈ Table.keys t.block.values ∧ Catalog.socketDigits? "IF" socket = some ds) ∨
      (socket ∈ Table.keys t.block.statements ∧ Catalog.socketDigits? "DO" socket = some ds) := by
  have hi : Catalog.isStatementSocket t.label.kind socket = Catalog.isBranchSocket socket := by
    rw [← toLabel_block, hk]
    rfl
  rw [StatementRule.branchDigits?, Option.or_eq_some_iff] at hd
  rcases List.mem_append.1 hs with hv | hv
  · left
    refine ⟨hv, ?_⟩
    rcases hd with hd | ⟨-, hd⟩
    · exact hd
    · have hb := hp.values socket hv
      rw [hi, Catalog.isBranchSocket, hd] at hb
      cases hb
  · right
    refine ⟨hv, ?_⟩
    rcases hd with hd | ⟨-, hd⟩
    · have hb := hp.statements socket hv
      rw [hi, Catalog.not_isBranchSocket hd] at hb
      cases hb
    · exact hd

end Tree

/-- A list is put together from its slots in order, and a block with branches from its branches,
whose numbers increase. Every number in the name of a socket has a slot or a branch. What the socket
holds is compiled into it, and only there, if the number is written plainly; a socket whose number
is written in any other way is never read. -/
theorem numbered_sockets_compiled :
    (∀ {d : Diagram ρ} {n : Nat} {r : ρ} {c c' : Context ρ} {e : Expression},
      (d.block r).kind = "lists_create_with" →
      (Generator.ofDepth d (n + 1)).expression r c = .ok e c' →
      ∃ slots c₁, (Generator.ofDepth d n).Slots (d.block r) { c with active := r :: c.active }
          slots c₁ ∧ c' = Compile.leave c₁ ∧
        e.text = "[" ++ ", ".intercalate (slots.map (Passage.shown .comma "null")) ++ "]" ∧
        ∀ socket ∈ Table.keys (d.block r).values, ∀ ds,
          Catalog.socketDigits? "ADD" socket = some ds →
          Catalog.LooksUp "ADD" (List.range slots.length) socket (Text.ofDigits ds)) ∧
    ∀ {document : Json} {w : Workspace} {top t : Tree} {n : Nat} {c c' : Context Tree}
        {code : String}, document.Distinct → Workspace.read document = .ok w → top ∈ w.blocks →
      t.Within top → t.block.kind = "controls_if" →
      (Generator.ofDepth w.diagram (n + 1)).statement t c = .ok code c' →
      ∃ xs last c₁ c₂,
        Branch.Chain (Generator.ofDepth w.diagram n) t.block { c with active := t :: c.active }
          xs c₁ ∧
        Branch.Ends (Generator.ofDepth w.diagram n) t.block c₁ last c₂ ∧ c' = Compile.leave c₂ ∧
        (xs.map (·.index)).Pairwise (· < ·) ∧
        code = " else ".intercalate (xs.map Branch.text) ++ Branch.elseText last ∧
        ∀ socket ∈ t.block.sockets, ∀ ds, StatementRule.branchDigits? socket = some ds →
          (socket ∈ Table.keys t.block.values ∧
            Catalog.LooksUp "IF" (xs.map (·.index)) socket (Text.ofDigits ds)) ∨
          (socket ∈ Table.keys t.block.statements ∧
            Catalog.LooksUp "DO" (xs.map (·.index)) socket (Text.ofDigits ds)) := by
  constructor
  · intro d n r c c' e hk h
    obtain ⟨slots, c₁, hn, hs, rfl, rfl⟩ := Generator.list_eq_ok hk h
    refine ⟨slots, c₁, hs, rfl, rfl, ?_⟩
    intro socket hm ds hd
    exact Catalog.looksUp List.nodup_range hd
      (List.mem_range.2 (ValueRule.ofDigits_lt_slotCount hn hm hd))
  · intro document w top t n c c' code hd hw htop ht hk h
    have hp : t.Placed := ((Workspace.isPlaced_of_read hd hw top htop).1.of_within ht).self
    obtain ⟨rule, c₂, hr, hb, rfl⟩ := Generator.statement_eq_ok h
    rw [Workspace.diagram, Tree.block_diagram, hk] at hr
    cases hr
    obtain ⟨xs, last, c₁, hi, hc, he, rfl⟩ := Branch.of_branches hb
    have hx := StatementRule.pairwise_branchIndices hi
    have hn : (xs.map (·.index)).Nodup := hx.imp Nat.ne_of_lt
    refine ⟨xs, last, c₁, c₂, hc, he, rfl, hx, rfl, ?_⟩
    intro socket hs ds hds
    have hm := StatementRule.mem_branchIndices hi hs hds
    rcases hp.branchDigits? hk hs hds with ⟨hv, hv'⟩ | ⟨hv, hv'⟩
    · exact .inl ⟨hv, Catalog.looksUp hn hv' hm⟩
    · exact .inr ⟨hv, Catalog.looksUp hn hv' hm⟩

namespace Tree

def listOf (texts : Table String) : Tree :=
  .node { kind := "lists_create_with" }
    (texts.map fun (socket, s) =>
      (socket, some (.node { kind := "text", fields := [("TEXT", .text s)] } [] [] none)))
    [] none

/-- Two texts for one slot, one of them with a zero in front of its number. -/
def contendedList : Tree := listOf [("ADD1", "x"), ("ADD01", "y")]

/-- Two branches. The body of the first one is in a socket with two zeros. -/
def branching : Tree :=
  .node { kind := "controls_if" } []
    [("DO1", some (.node { kind := "api_fire" } [] [] none)),
      ("DO00", some (.node { kind := "api_stop" } [] [] none))] none

def branchingDocument : Json :=
  .obj [("blocks", .obj [("blocks", .arr [.obj [("type", .str "controls_if"),
    ("inputs", .obj [("DO1", .obj [("block", .obj [("type", .str "api_fire")])]),
      ("DO00", .obj [("block", .obj [("type", .str "api_stop")])])])]])])]

set_option maxRecDepth 8192 in
theorem contended_sockets_compiled :
    (∃ (e : Expression) (c : Context Tree) (slots : List (Option (Passage Tree Expression))),
      (diagram [contendedList]).generator.expression contendedList {} = .ok e c ∧
      e.text = "[" ++ ", ".intercalate (slots.map (Passage.shown .comma "null")) ++ "]" ∧
      Catalog.LooksUp "ADD" (List.range slots.length) "ADD1" 1 ∧
      Catalog.LooksUp "ADD" (List.range slots.length) "ADD01" 1) ∧
    branchingDocument.Distinct ∧ Workspace.read branchingDocument = .ok ⟨[branching]⟩ ∧
    ∃ (code : String) (c : Context Tree) (xs : List (Branch Tree))
        (last : Option (List (Passage Tree String))),
      (Workspace.mk [branching]).diagram.generator.statement branching {} = .ok code c ∧
      code = " else ".intercalate (xs.map Branch.text) ++ Branch.elseText last ∧
      Catalog.LooksUp "DO" (xs.map (·.index)) "DO1" 1 ∧
      Catalog.LooksUp "DO" (xs.map (·.index)) "DO00" 0 := by
  have hd : branchingDocument.Distinct := by simp [branchingDocument, Table.keys]
  have hr : Workspace.read branchingDocument = .ok ⟨[branching]⟩ := by with_unfolding_all rfl
  obtain ⟨hlist, hbranches⟩ := numbered_sockets_compiled (ρ := Tree)
  constructor
  · have he : ∃ e c, (diagram [contendedList]).generator.expression contendedList {} = .ok e c :=
      ⟨_, _, rfl⟩
    obtain ⟨e, c, he⟩ := he
    obtain ⟨slots, c₁, -, -, ht, hs⟩ := hlist rfl he
    exact ⟨e, c, slots, he, ht, hs "ADD1" (by decide) [1] (by decide),
      hs "ADD01" (by decide) [0, 1] (by decide)⟩
  · refine ⟨hd, hr, ?_⟩
    have hb : ∃ code c, (Workspace.mk [branching]).diagram.generator.statement branching {} =
        .ok code c := ⟨_, _, rfl⟩
    obtain ⟨code, c, hb⟩ := hb
    obtain ⟨xs, last, _, _, -, -, -, -, hc, hs⟩ :=
      hbranches hd hr List.mem_cons_self .self rfl hb
    refine ⟨code, c, xs, last, hb, hc, ?_, ?_⟩
    · rcases hs "DO1" (by decide) [1] (by decide) with ⟨hv, -⟩ | ⟨-, hv⟩
      · cases hv
      · exact hv
    · rcases hs "DO00" (by decide) [0, 0] (by decide) with ⟨hv, -⟩ | ⟨-, hv⟩
      · cases hv
      · exact hv

set_option maxRecDepth 8192 in
/-- A text in a socket with a zero in front of its number is counted and dropped, and so are the
steps of a branch. -/
theorem zero_in_front_dropped :
    ((diagram [listOf [("ADD01", "x")]]).generator.expression
        (listOf [("ADD01", "x")])).start.result = .ok ⟨"[null, null]", .atomic⟩ ∧
      ((diagram [branching]).generator.statement branching).start.result =
        .ok "if (false) \x7b\n\x7d else if (false) \x7b\n  api.fire();\n\x7d\n" := by
  exact ⟨rfl, rfl⟩

end Tree

end BlockMachine
