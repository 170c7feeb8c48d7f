import BlockMachine.Machine.Script
import BlockMachine.Proofs.Text.Shifting

namespace BlockMachine

namespace Script

/-- What a name is to a machine. -/
inductive NameRole where
  | initialState
  | stateKey
  | target
  | description
  | interruption (first : Bool)
deriving DecidableEq

namespace NameRole

/-- What stands in front of the literal of a name. -/
def lead : NameRole → String
  | .initialState => "initialState: "
  | .stateKey => ""
  | .target => "target: "
  | .description => "description: "
  | .interruption true => "interruptibleBy: ["
  | .interruption false => ", "

/-- What stands behind the literal: a state belongs to its key. -/
def trail : NameRole → String
  | .stateKey => ": \x7b"
  | _ => ""

variable (role : NameRole)

theorem exists_lead : ∃ c cs, role.lead.toList ++ ['"'] = c :: cs ∧ Text.isBlank c = false ∧
    ∀ d ∈ cs, Text.isLineBreak d = false := by
  cases role with
  | interruption first =>
    cases first <;> exact ⟨_, _, rfl, by decide, Text.no_break_of_all (by decide)⟩
  | _ => exact ⟨_, _, rfl, by decide, Text.no_break_of_all (by decide)⟩

theorem trail_no_break : ∀ c ∈ role.trail.toList, Text.isLineBreak c = false := by
  cases role with
  | stateKey => exact Text.no_break_of_all (by decide)
  | _ => exact List.forall_mem_nil _

end NameRole

/-- The text has a literal of the name in its setting, indented so many times, and does not depend
on the name otherwise. -/
def Shows (role : NameRole) (f : String → String) (depth : Nat) : Prop :=
  ∃ before after : List Char, ∀ name : String, (f name).toList =
    before ++ (role.lead.toList ++ (Text.quoteWith Text.escape (Text.atDepth depth name.toList) ++
      (role.trail.toList ++ after)))

namespace Shows

variable {role : NameRole} {f : String → String} {depth : Nat}

theorem literal (h : ∀ name, f name = role.lead ++ quoted name ++ role.trail) : Shows role f 0 := by
  refine ⟨[], [], fun name => ?_⟩
  rw [h, String.toList_append, String.toList_append, quoted, String.toList_ofList,
    Text.atDepth_zero, List.append_nil, List.nil_append, List.append_assoc]

theorem congr {g : String → String} (h : Shows role f depth) (hg : ∀ name, g name = f name) :
    Shows role g depth :=
  funext hg ▸ h

theorem append (h : Shows role f depth) (s : String) :
    Shows role (fun name => f name ++ s) depth := by
  obtain ⟨before, after, hf⟩ := h
  refine ⟨before, after ++ s.toList, fun name => ?_⟩
  simp only [String.toList_append, hf, List.append_assoc]

theorem prepend (h : Shows role f depth) (s : String) :
    Shows role (fun name => s ++ f name) depth := by
  obtain ⟨before, after, hf⟩ := h
  refine ⟨s.toList ++ before, after, fun name => ?_⟩
  rw [String.toList_append, hf, List.append_assoc]

theorem indented (h : Shows role f depth) :
    Shows role (fun name => indented (f name)) (depth + 1) := by
  obtain ⟨before, after, hf⟩ := h
  obtain ⟨c, cs, hl, hc, hcs⟩ := role.exists_lead
  obtain ⟨before', hb⟩ := Text.exists_indent_concat hc [' ', ' '] before
  have hm : ∀ c ∈ [' ', ' '], c = ' ' := by simp
  have hlead (rest : List Char) : role.lead.toList ++ '"' :: rest = c :: (cs ++ rest) := by
    rw [← List.cons_append, ← hl, List.append_assoc, List.singleton_append]
  refine ⟨before', Text.continued [' ', ' '] after, fun name => ?_⟩
  have hi : (BlockMachine.indented (f name)).toList = Text.indent [' ', ' '] (f name).toList :=
    String.toList_ofList
  rw [hi, hf, Text.quoteWith, Text.quoteWith, List.cons_append, hlead, List.cons_append, hlead,
    Text.indent_append_visible hc, hb, Text.continued_append_of_no_break hcs, List.append_assoc,
    List.append_assoc, List.append_assoc, List.singleton_append, List.singleton_append,
    Text.continued_quoted hm, Text.continued_append_of_no_break role.trail_no_break,
    Text.shifted_atDepth, List.singleton_append]

end Shows

/-- One of the texts shows the name, and the others do not depend on it. -/
inductive ShowsAmong (role : NameRole) (depth : Nat) : (String → List String) → Prop
  | head {f : String → String} (ss : List String) :
    Shows role f depth → ShowsAmong role depth fun name => f name :: ss
  | tail {fs : String → List String} (s : String) :
    ShowsAmong role depth fs → ShowsAmong role depth fun name => s :: fs name

namespace ShowsAmong

variable {role : NameRole} {fs : String → List String} {depth : Nat}

theorem append (h : ShowsAmong role depth fs) (ss : List String) :
    ShowsAmong role depth fun name => ss ++ fs name := by
  induction ss with
  | nil => exact h
  | cons s ss ih => exact ih.tail s

theorem ne_nil (h : ShowsAmong role depth fs) (name : String) : fs name ≠ [] := by
  cases h <;> exact List.cons_ne_nil _ _

theorem intercalate (h : ShowsAmong role depth fs) (sep : String) :
    Shows role (fun name => sep.intercalate (fs name)) depth := by
  induction h with
  | head ss hf =>
    cases ss with
    | nil =>
      simp only [String.intercalate_singleton]
      exact hf
    | cons s ss =>
      simp only [String.intercalate_cons_cons, String.append_assoc]
      exact hf.append _
  | tail s hs ih =>
    simp only [String.intercalate_cons_of_ne_nil (hs.ne_nil _)]
    exact ih.prepend _

theorem braced (h : ShowsAmong role depth fs) :
    Shows role (fun name => braced (fs name)) (depth + 1) :=
  ((h.intercalate _).indented.prepend _).append _

end ShowsAmong

theorem toList_braced (entries : List String) :
    ∃ cs, (braced entries).toList = '\x7b' :: (cs ++ ['\x7d']) := by
  have hl : "\x7b\n".toList = ['\x7b', '\n'] := rfl
  have hr : "\n\x7d".toList = ['\n'] ++ ['\x7d'] := rfl
  refine ⟨'\n' :: ((indented (",\n".intercalate entries)).toList ++ ['\n']), ?_⟩
  simp only [braced, String.toList_append, hl, hr, List.cons_append, List.nil_append,
    List.append_assoc]

theorem trim_of_visible {a b : Char} (ha : Text.isBlank a = false) (hb : Text.isBlank b = false)
    (cs : List Char) : Text.trim (a :: (cs ++ [b])) = a :: (cs ++ [b]) := by
  have hl : Text.trimLeft (a :: (cs ++ [b])) = a :: (cs ++ [b]) :=
    List.dropWhile_cons_of_neg (by simp [ha])
  have hr : (a :: (cs ++ [b])).reverse = b :: (cs.reverse ++ [a]) := by simp
  rw [Text.trim, hl, Text.trimRight, hr, List.dropWhile_cons_of_neg (by simp [hb]), ← hr,
    List.reverse_reverse]

theorem bareRecord_braced (entries : List String) :
    Fragment.bareRecord (braced entries) = braced entries := by
  obtain ⟨cs, hc⟩ := toList_braced entries
  have hl : ('\x7b' :: (cs ++ ['\x7d'])).getLast? ≠ some ',' := by
    rw [← List.cons_append, List.getLast?_concat]
    decide
  rw [Fragment.bareRecord, hc, trim_of_visible (by decide) (by decide), Text.dropFinal, if_neg hl,
    ← hc, String.ofList_toList]

theorem braced_ne_empty (entries : List String) : braced entries ≠ "" := by
  intro h
  obtain ⟨cs, hc⟩ := toList_braced entries
  rw [h, String.toList_empty] at hc
  cases hc

theorem array_of_braced {records : List String} (h : ∀ r ∈ records, ∃ entries, r = braced entries)
    (hn : records ≠ []) :
    array records = "[\n" ++ indented (",\n".intercalate records) ++ "\n]" := by
  have hne : ∀ r ∈ records, r ≠ "" := by
    intro r hr
    obtain ⟨entries, rfl⟩ := h r hr
    exact braced_ne_empty entries
  have hmap : records.map Fragment.bareRecord = records := by
    refine (List.map_congr_left fun r hr => ?_).trans (List.map_id records)
    obtain ⟨entries, rfl⟩ := h r hr
    exact bareRecord_braced entries
  have hj : Fragment.joinRecords records = ",\n".intercalate records := by
    rw [Fragment.joinRecords, hmap, List.filter_eq_self.2]
    intro r hr
    simpa using hne r hr
  have hi : ",\n".intercalate records ≠ "" := by
    obtain ⟨r, rs, rfl⟩ := List.exists_cons_of_ne_nil hn
    have hr := hne r List.mem_cons_self
    intro he
    cases rs with
    | nil => exact hr (String.intercalate_singleton.symm.trans he)
    | cons s rs =>
      rw [String.intercalate_cons_cons, String.append_assoc, String.append_eq_empty_iff] at he
      exact hr he.1
  rw [array, hj]
  exact if_neg hi

theorem ShowsAmong.array {role : NameRole} {fs : String → List String} {depth : Nat}
    (h : ShowsAmong role depth fs)
    (hf : ∀ name, ∀ s ∈ fs name, ∃ entries, s = Script.braced entries) :
    Shows role (fun name => Script.array (fs name)) (depth + 1) := by
  simp only [array_of_braced (hf _) (h.ne_nil _)]
  exact ((h.intercalate _).indented.prepend _).append _

theorem shows_names (names others : List String) :
    Shows (.interruption names.isEmpty) (fun name => "interruptibleBy: " ++
      interruptionScript (some (names ++ name :: others))) 0 := by
  obtain ⟨rest, hr⟩ : ∃ rest, ∀ name, ", ".intercalate (quoted name :: others.map quoted) =
      quoted name ++ rest := by
    cases others with
    | nil => exact ⟨"", fun name => String.intercalate_singleton.trans String.append_empty.symm⟩
    | cons s ss =>
      refine ⟨", " ++ ", ".intercalate ((s :: ss).map quoted), fun name => ?_⟩
      rw [List.map_cons, String.intercalate_cons_cons, String.append_assoc]
  have hb : "interruptibleBy: [" = "interruptibleBy: " ++ "[" := by decide
  cases names with
  | nil =>
    have hq : Shows (.interruption true) (fun name => "interruptibleBy: [" ++ quoted name) 0 :=
      .literal fun _ => String.append_empty.symm
    refine ((hq.append rest).append "]").congr fun name => ?_
    rw [interruptionScript, List.nil_append, List.map_cons, hr]
    simp only [hb, String.append_assoc]
  | cons s ss =>
    have hq : Shows (.interruption false) (fun name => ", " ++ quoted name) 0 :=
      .literal fun _ => String.append_empty.symm
    have hs := (hq.append rest).prepend ("[" ++ ", ".intercalate ((s :: ss).map quoted))
    refine ((hs.append "]").prepend "interruptibleBy: ").congr fun name => ?_
    have hn : (s :: ss).map quoted ≠ [] := List.cons_ne_nil _ _
    have ho : (name :: others).map quoted ≠ [] := List.cons_ne_nil _ _
    rw [interruptionScript, List.map_append, String.intercalate_append_of_ne_nil hn ho,
      List.map_cons (l := others), hr]
    simp only [String.append_assoc]

end Script

open Script

/-- A transition with a place for a name. A transition of one state has no description in its
script. -/
inductive Transition.Place : (String → Transition) → NameRole → Prop
  | target (t : Transition) : Place (fun name => { t with target := name }) .target
  | description (t : Transition) : t.tier ≠ .ofState →
    Place (fun name => { t with description := name }) .description

/-- A state with a place for a name, so many levels down in its script. -/
inductive State.Place : (String → State) → NameRole → Nat → Prop
  | interruption (s : State) (names others : List String) :
    Place (fun name => { s with interruptibleBy := some (names ++ name :: others) })
      (.interruption names.isEmpty) 1
  | transition (s : State) (ts us : List Transition) {f : String → Transition} {role : NameRole} :
    Transition.Place f role →
    Place (fun name => { s with transitions := ts ++ f name :: us }) role 3

/-- A program with a place for a name, so many levels down in its script. -/
inductive Program.Place : (String → Program) → NameRole → Nat → Prop
  | initialState (p : Program) : Place (fun name => { p with initialState := name }) .initialState 1
  | key (p : Program) (states others : Table State) (s : State) :
    Place (fun name => { p with states := states ++ (name, s) :: others }) .stateKey 2
  | state (p : Program) (states others : Table State) (key : String) {f : String → State}
    {role : NameRole} {depth : Nat} : State.Place f role depth →
    Place (fun name => { p with states := states ++ (key, f name) :: others }) role (depth + 2)
  | tactical (p : Program) (ts us : List Transition) {f : String → Transition} {role : NameRole} :
    Transition.Place f role → Place (fun name => { p with tactical := ts ++ f name :: us }) role 3
  | emergency (p : Program) (ts us : List Transition) {f : String → Transition} {role : NameRole} :
    Transition.Place f role → Place (fun name => { p with emergency := ts ++ f name :: us }) role 3

section Transition

variable (target description : String) (c : Expression)

theorem Transition.script_ofState :
    Transition.script ⟨target, c, description, .ofState⟩ = braced
      ["target: " ++ quoted target,
        "condition: " ++ Script.condition localConditionParameters c.text] :=
  rfl

theorem Transition.script_tactical :
    Transition.script ⟨target, c, description, .tactical⟩ = braced
      ["target: " ++ quoted target,
        "condition: " ++ Script.condition globalConditionParameters c.text,
        "description: " ++ quoted description] :=
  rfl

theorem Transition.script_emergency :
    Transition.script ⟨target, c, description, .emergency⟩ = braced
      ["target: " ++ quoted target,
        "condition: " ++ Script.condition globalConditionParameters c.text,
        "description: " ++ quoted description, "isEmergency: true"] :=
  rfl

end Transition

theorem Transition.exists_script_eq (t : Transition) : ∃ entries, t.script = braced entries :=
  ⟨_, rfl⟩

theorem Transition.Place.shows {f : String → Transition} {role : NameRole} (h : Place f role) :
    Shows role (fun name => (f name).script) 1 := by
  cases h with
  | target t =>
    have hq : Shows .target (fun name => "target: " ++ quoted name) 0 :=
      .literal fun _ => String.append_empty.symm
    obtain ⟨_, c, description, tier⟩ := t
    cases tier <;> simp only [script_ofState, script_tactical, script_emergency]
      <;> exact (ShowsAmong.head _ hq).braced
  | description t ht =>
    have hq : Shows .description (fun name => "description: " ++ quoted name) 0 :=
      .literal fun _ => String.append_empty.symm
    obtain ⟨target, c, _, tier⟩ := t
    cases tier with
    | ofState => exact absurd rfl ht
    | tactical =>
      simp only [script_tactical]
      exact (((ShowsAmong.head _ hq).tail _).tail _).braced
    | emergency =>
      simp only [script_emergency]
      exact (((ShowsAmong.head _ hq).tail _).tail _).braced

theorem shows_transitions {f : String → Transition} {role : NameRole} (h : Transition.Place f role)
    (ts us : List Transition) :
    Shows role (fun name => array ((ts ++ f name :: us).map Transition.script)) 2 := by
  apply ShowsAmong.array
  · simp only [List.map_append, List.map_cons]
    exact (ShowsAmong.head _ h.shows).append _
  · intro name s hs
    obtain ⟨t, -, rfl⟩ := List.mem_map.1 hs
    exact t.exists_script_eq

theorem State.Place.shows {f : String → State} {role : NameRole} {depth : Nat}
    (h : Place f role depth) : Shows role (fun name => (f name).script) depth := by
  cases h with
  | interruption s names others =>
    simp only [State.script]
    exact ((((ShowsAmong.head _ (shows_names names others)).tail _).tail _).tail _).braced
  | transition s ts us hf =>
    have hs := (shows_transitions hf ts us).prepend "transitions: "
    simp only [State.script]
    exact (((((ShowsAmong.head _ hs).tail _).tail _).tail _).tail _).braced

theorem shows_key (s : State) :
    Shows .stateKey (fun name => quoted name ++ ": " ++ s.script) 0 := by
  obtain ⟨rest, hr⟩ : ∃ rest, s.script = "\x7b" ++ rest := by
    have hb : "\x7b\n" = "\x7b" ++ "\n" := by decide
    rw [State.script, braced, hb, String.append_assoc, String.append_assoc]
    exact ⟨_, rfl⟩
  have ht : ": \x7b" = ": " ++ "\x7b" := by decide
  have hk : Shows .stateKey (fun name => quoted name ++ ": \x7b") 0 := by
    refine .literal fun name => ?_
    rw [NameRole.lead, String.empty_append]
    rfl
  refine (hk.append rest).congr fun name => ?_
  rw [hr, ht]
  simp only [String.append_assoc]

theorem shows_states {role : NameRole} {key : String → String} {s : String → State} {depth : Nat}
    (h : Shows role (fun name => quoted (key name) ++ ": " ++ (s name).script) depth)
    (states others : Table State) :
    Shows role (fun name => statesScript (states ++ (key name, s name) :: others)) (depth + 1) := by
  have hne (name : String) : (states ++ (key name, s name) :: others).isEmpty = false := by
    simp
  simp only [statesScript, hne, Bool.false_eq_true, if_false, List.map_append, List.map_cons]
  exact ((ShowsAmong.head _ h).append _).braced

theorem shows_script {role : NameRole} {fs : String → List String} {depth : Nat}
    (h : ShowsAmong role depth fs) (definitions : List String) :
    Shows role (fun name =>
      "\n\n".intercalate (definitions ++ ["return " ++ braced (fs name) ++ ";"]) ++ "\n")
      (depth + 1) := by
  have hb := (h.braced.prepend "return ").append ";"
  exact (((ShowsAmong.head [] hb).append definitions).intercalate _).append _

theorem Program.Place.shows {f : String → Program} {role : NameRole} {depth : Nat}
    (h : Place f role depth) : Shows role (fun name => (f name).script) depth := by
  cases h with
  | initialState p =>
    have hq : Shows .initialState (fun name => "initialState: " ++ quoted name) 0 :=
      .literal fun _ => String.append_empty.symm
    simp only [Program.script]
    exact shows_script (ShowsAmong.head _ hq) _
  | key p states others s =>
    have hs := (@shows_states _ id (fun _ => s) 0 (shows_key s) states others).prepend "states: "
    simp only [Program.script]
    exact shows_script ((ShowsAmong.head _ hs).tail _) _
  | state p states others key hf =>
    have hq := hf.shows.prepend (quoted key ++ ": ")
    have hs := (shows_states hq states others).prepend "states: "
    simp only [Program.script]
    exact shows_script ((ShowsAmong.head _ hs).tail _) _
  | tactical p ts us hf =>
    have hs := (shows_transitions hf ts us).prepend "tacticalTransitions: "
    simp only [Program.script]
    exact shows_script (((ShowsAmong.head _ hs).tail _).tail _) _
  | emergency p ts us hf =>
    have hs := (shows_transitions hf ts us).prepend "emergencyTransitions: "
    simp only [Program.script]
    exact shows_script ((((ShowsAmong.head _ hs).tail _).tail _).tail _) _

theorem Program.Place.depth_ne_zero {f : String → Program} {role : NameRole} {depth : Nat}
    (h : Place f role depth) : depth ≠ 0 := by
  cases h <;> exact Nat.succ_ne_zero _

/-- The script has a literal of the name behind the key of its place, or in front of the state that
it is the key of. What is read there is the name with two spaces a level behind each line break that
is written as it is. Two places show one name alike only if they are equally deep or the name has no
such break; and only without one is the name itself read. -/
theorem Program.read_name {f : String → Program} {role : NameRole} {depth : Nat}
    (h : Place f role depth) :
    ∃ before after : List Char, ∀ name : String, ∃ literal : List Char,
      (f name).script.toList =
        before ++ (role.lead.toList ++ (literal ++ (role.trail.toList ++ after))) ∧
      (∀ rest, Text.readLiteral (literal ++ rest) = some (Text.atDepth depth name.toList, rest)) ∧
      (Text.atDepth depth name.toList = name.toList ↔
        ∀ c ∈ name.toList, c ≠ '\u0085' ∧ c ≠ '\u2028' ∧ c ≠ '\u2029') ∧
      ∀ other, Text.atDepth depth name.toList = Text.atDepth other name.toList ↔
        depth = other ∨ ∀ c ∈ name.toList, c ≠ '\u0085' ∧ c ≠ '\u2028' ∧ c ≠ '\u2029' := by
  obtain ⟨before, after, hs⟩ := h.shows
  have hb (c : Char) : Text.isRawBreak c = false ↔ c ≠ '\u0085' ∧ c ≠ '\u2028' ∧ c ≠ '\u2029' := by
    rw [Bool.eq_false_iff, ne_eq, Text.isRawBreak_iff, not_or, not_or]
  have hd (other : Nat) (cs : List Char) := Text.atDepth_eq_iff depth other cs
  simp only [hb] at hd
  refine ⟨before, after, fun name => ⟨_, hs name, ?_, ?_, ?_⟩⟩
  · exact Text.readLiteral_quoteWith _
  · have hz := hd 0 name.toList
    rwa [Text.atDepth_zero, or_iff_right h.depth_ne_zero] at hz
  · intro other
    exact hd other name.toList

/-- The target of a tactical transition is three levels down. -/
theorem Program.read_tactical_target :
    let p (name : String) : Program := { initialState := "", tactical :=
      [{ target := name, condition := ⟨"true", .atomic⟩, tier := .tactical }] }
    Place p .target 3 ∧ ∃ before after literal : List Char,
      (p "a\u2028b").script.toList = before ++ ("target: ".toList ++ (literal ++ after)) ∧
      Text.readLiteral literal = some ("a\u2028      b".toList, []) := by
  intro p
  let t : Transition := { target := "", condition := ⟨"true", .atomic⟩, tier := .tactical }
  have h : Place p .target 3 := .tactical (p "") [] [] (.target t)
  obtain ⟨before, after, hr⟩ := Program.read_name h
  obtain ⟨literal, hs, hl, -⟩ := hr "a\u2028b"
  refine ⟨h, before, after, literal, hs, ?_⟩
  rw [← List.append_nil literal, hl]
  decide

/-- The literal that comes first in a text, and what follows it. -/
def Text.firstLiteral (cs : List Char) : Option (List Char × List Char) :=
  readLiteral (cs.dropWhile (· != '"'))

/-- The initial state and the only state have one name in the machine and two in its script. -/
theorem Program.initial_state_not_found :
    let p : Program :=
      { initialState := "a\u0085b", states := [("a\u0085b", { name := "a\u0085b" })] }
    (Text.firstLiteral p.script.toList).map Prod.fst = some "a\u0085  b".toList ∧
      ((Text.firstLiteral p.script.toList).bind fun (_, rest) =>
        (Text.firstLiteral rest).map Prod.fst) = some "a\u0085    b".toList := by
  -- Only the lists of characters are left to evaluate.
  simp only [Program.script, statesScript, State.script, List.isEmpty_cons, Bool.false_eq_true,
    if_false, List.map_cons, List.map_nil, List.nil_append, String.intercalate_singleton,
    String.intercalate_cons_cons, braced, indented, indentBy, quoted, String.toList_append,
    String.toList_ofList]
  decide +kernel

end BlockMachine
