import BlockMachine.Proofs.Compiler.Contract

namespace BlockMachine

namespace Contract

variable (k : Contract)

/-- Parts that lead from one stack of open brackets to another, whatever texts of the style come
into their slots. -/
inductive Leads : List Char → List Char → List Part → Prop
  | nil {a : List Char} : Leads a a []
  | text {a b c : List Char} {s : String} {parts : List Part} :
    k.style.leads a b s → Leads b c parts → Leads a c (.text s :: parts)
  | slot {a b : List Char} {socket default : String} {context : Order} {parts : List Part} :
    Fixed [] [] default → Leads a b parts → Leads a b (.slot socket context default :: parts)
  | fail {a b : List Char} {f : Fault} {parts : List Part} :
    k.fault f → Leads a b (.fail f :: parts)

/-- A template that closes what it opens, and reserves only what is allowed. -/
structure Fits (t : Template) : Prop where
  parts : k.Leads [] [] t.parts
  reserves : ∀ e, t.reserves = some e → k.declaration e.2

variable {k} {a b c : List Char} {s : String} {parts more : List Part}

theorem Leads.append (h : k.Leads a b parts) (hm : k.Leads b c more) :
    k.Leads a c (parts ++ more) := by
  induction h with
  | nil => exact hm
  | text hs _ ih => exact .text hs (ih hm)
  | slot hd _ ih => exact .slot hd (ih hm)
  | fail hf => exact .fail hf

theorem Leads.fixed (hs : Fixed a b s) (h : k.Leads b c parts) : k.Leads a c (.text s :: parts) :=
  .text (k.style.fixed hs) h

theorem Leads.between (hs : Fixed [] [] s) (h : k.Leads a b parts) :
    k.Leads a b (.text s :: parts) :=
  .fixed (hs.frame a) h

end Contract

namespace ValueRule

open Contract

/-- A rule that gives its parts right away closes what they open. -/
def IsNested : ValueRule → Prop
  | .inline parts _ => ∀ k : Contract, k.Leads [] [] parts
  | _ => True

theorem isNested_fixed {text : String} (h : Fixed [] [] text) (order : Order) :
    (fixed text order).IsNested :=
  fun _ => .fixed h .nil

set_option maxRecDepth 4096 in
theorem isNested_fixedTable : ∀ e ∈ fixedTable, e.2.IsNested := by
  unfold fixedTable enemyDistance turretAligned
  repeat refine List.forall_mem_cons.2 ⟨isNested_fixed (.literal (by decide +kernel)) _, ?_⟩
  nofun

theorem isNested_positionQuery {function : String} (h : Fixed [] [] function) :
    (positionQuery function).IsNested := by
  have hf : Fixed [] [')'] (function ++ "(") := h.append (by decide)
  exact fun _ => .fixed hf (.slot (by decide) (.fixed (by decide) .nil))

theorem isNested_table : ∀ e ∈ table, e.2.IsNested := by
  apply List.forall_mem_append.2 ⟨isNested_fixedTable, ?_⟩
  simp only [List.forall_mem_cons, List.not_mem_nil, false_implies, implies_true, and_true]
  refine ⟨trivial, trivial, trivial, trivial, trivial, ?negation, ?conditional, trivial, trivial,
    trivial, ?position, trivial, trivial, trivial, trivial, trivial,
    isNested_positionQuery (by decide), isNested_positionQuery (by decide), ?orbit, ?moveAndCheck,
    trivial, trivial⟩
  case negation => exact fun _ => .between (by decide) (.slot (by decide) .nil)
  case conditional =>
    exact fun _ => .slot (by decide) (.between (by decide) (.slot (by decide)
      (.between (by decide) (.slot (by decide) .nil))))
  case position =>
    exact fun _ => .fixed (b := ['\x7d']) (by decide) (.slot (by decide) (.between (by decide)
      (.slot (by decide) (.fixed (by decide) .nil))))
  case orbit =>
    exact fun _ => .fixed (b := [')']) (by decide) (.slot (by decide) (.between (by decide)
      (.slot (by decide) (.between (by decide) (.slot (by decide) (.fixed (by decide) .nil))))))
  case moveAndCheck =>
    exact fun _ => .fixed (b := [')']) (.literal (by decide +kernel)) (.slot (by decide)
      (.fixed (by decide) .nil))

theorem isNested_ofKind? {kind : String} {rule : ValueRule} (h : ofKind? kind = some rule) :
    rule.IsNested :=
  isNested_table (kind, rule) (Table.mem_of_get? h)

variable {ρ : Type} {k : Contract} {b : Block ρ}

theorem fits_text {text : String} (h : k.style.Accepts text) (order : Order) :
    k.Fits ⟨[.text text], order, none⟩ :=
  ⟨.text h .nil, nofun⟩

theorem fits_fixed {text : String} (h : Fixed [] [] text) (order : Order) :
    k.Fits ⟨[.text text], order, none⟩ :=
  fits_text (.fixed h) order

theorem fits_binary {operator default : String} (ho : Fixed [] [] operator)
    (hd : Fixed [] [] default) (order : Order) : k.Fits (binary operator order default) := by
  have ht : Fixed [] [] (" " ++ operator ++ " ") := .append (.append (by decide) ho) (by decide)
  exact ⟨.slot hd (.fixed ht (.slot hd .nil)), nofun⟩

theorem leads_slots (a : List Char) (is : List Nat) :
    k.Leads a a ((is.map listSlot).intersperse (.text ", ")) := by
  induction is with
  | nil => exact .nil
  | cons i is ih =>
    cases is with
    | nil => exact .slot (by decide) .nil
    | cons j is => exact .slot (by decide) (.between (by decide) ih)

theorem fits_listTemplate (count : Nat) : k.Fits (listTemplate count) := by
  have hl : k.Leads [] [']'] [.text "["] := .fixed (by decide) .nil
  have hr : k.Leads [']'] [] [.text "]"] := .fixed (by decide) .nil
  exact ⟨(hl.append (leads_slots _ _)).append hr, nofun⟩

theorem fits_template {rule : ValueRule} {t : Template} (hn : rule.IsNested)
    (hw : ∀ s, b.Says s → k.style.word s) (ht : rule.template b = .ok t) : k.Fits t := by
  cases makes_of_template ht with
  | inline parts order => exact ⟨hn k, by rintro _ ⟨⟩⟩
  | boolean h => rcases h with rfl | rfl <;> exact fits_fixed (by decide) _
  | number x => exact fits_fixed (.numeral x) _
  | text hs | stateName hs => exact fits_text (k.style.quoted (hw _ hs)) _
  | binary _ ho hd =>
    have hall : ∀ e ∈ operations, Fixed [] [] e.2.1 := by decide
    rcases hd with rfl | rfl | rfl <;> exact fits_binary (hall _ ho) (by decide) _
  | power =>
    exact ⟨.fixed (b := [')']) (by decide) (.slot (by decide) (.between (by decide)
      (.slot (by decide) (.fixed (by decide) .nil)))), nofun⟩
  | list count => exact fits_listTemplate count
  | gameConstant name => exact fits_fixed (.append (by decide) (.identifier name)) _
  | coordinate hc =>
    rcases hc with rfl | rfl <;>
      exact ⟨.slot (by decide) (.between (by decide) .nil), by rintro _ ⟨⟩⟩
  | property hs =>
    have hq : k.style.Accepts (quoted _) := k.style.quoted (hw _ hs)
    have hk := hq.enclose (a := [']']) (l := "[") (r := "]") (k.style.fixed (by decide)) (by decide)
    exact ⟨.slot (by decide) (.text hk .nil), by rintro _ ⟨⟩⟩
  | memory hs =>
    have hq : k.style.Accepts (quoted _) := k.style.quoted (hw _ hs)
    exact fits_text (hq.enclose (a := [']']) (k.style.fixed (by decide)) (by decide)) _
  | localVariable name => exact fits_fixed (.identifier name) _
  | constant name =>
    have hi := Fixed.identifier name
    refine ⟨.fixed hi .nil, ?_⟩
    rintro e ⟨⟩
    exact k.accepted (.fixed (.append (.append (by decide) hi) (by decide)))
  | call name =>
    have ht : Fixed [] [')'] (identifier name ++ "(...") := .append (.identifier name) (by decide)
    exact ⟨.fixed ht (.slot (by decide) (.fixed (by decide) .nil)), by rintro _ ⟨⟩⟩
  | unnamedCall => exact ⟨.slot (by decide) (.fail (k.rule _)), by rintro _ ⟨⟩⟩

end ValueRule

end BlockMachine
