import BlockMachine.Machine.Script
import BlockMachine.Proofs.Script.Marks

namespace BlockMachine.Outline

section Brackets

variable {l r s t : String} {b : Bracket} {ks ls : List Mark}

theorem IsValue.group (h : IsValue s ks) (h' : IsTold t ls) (hl : IsBracket l (.opening b))
    (hr : IsBracket r (.closing b)) : IsValue (s ++ l ++ t ++ r) (ks ++ ls) := by
  obtain ⟨o, p, ho, hro, hp⟩ := h
  obtain ⟨o', q, ho', hro'⟩ := h'
  exact ⟨_, _, (ho.group ho' hl hr).1, hro.group hp hro' b, Position.isIdle_closed hp b _⟩

theorem IsValue.group_code (h : IsValue s ks) (h' : IsTold t ls) (hl : IsBracket l (.opening b))
    (hr : IsBracket r (.closing b)) (hb : b ≠ .round) :
    IsCode (s ++ l ++ t ++ r) (ks ++ ls) := by
  obtain ⟨o, p, ho, hro, hp⟩ := h
  obtain ⟨o', q, ho', hro'⟩ := h'
  obtain ⟨hof, hf⟩ := ho.group ho' hl hr
  refine ⟨_, hof, hf, ?_⟩
  have hg := hro.group hp hro' b
  have hn : p.cue.closed b o'.words = .none := by
    cases b with
    | round => exact absurd rfl hb
    | square | curly => rfl
  rw [(Position.layer_of_isIdle hp b).1, hn] at hg
  exact hg

theorem IsTold.braces (h : IsTold t ls) (hl : IsBracket l (.opening .curly))
    (hr : IsBracket r (.closing .curly)) : IsCode (l ++ t ++ r) ls := by
  have hg := isCode_empty.isValue.group_code h hl hr (by decide)
  rw [String.empty_append] at hg
  exact hg

theorem IsBracket.scripted (h : IsBracket s (.closing b)) : scripted s = [] := by
  rw [Outline.scripted, names, h.tokens]
  rfl

def Bracket.opener : Bracket → Char
  | .round => '('
  | .square => '['
  | .curly => '\x7b'

/-- Characters of the compiler that end with a bracket behind a value. -/
def isScriptOpener (b : Bracket) (cs : List Char) : Bool :=
  cs.getLast? == some b.opener && isScriptValue cs.dropLast

theorem IsTold.opened (h : IsTold t ls) (hl : isScriptOpener b l.toList = true)
    (hr : IsBracket r (.closing b)) : IsValue (l ++ t ++ r) (scripted l ++ ls ++ scripted r) := by
  rw [isScriptOpener, Bool.and_eq_true, beq_iff_eq, List.getLast?_eq_some_iff] at hl
  obtain ⟨⟨cs, hcs⟩, hv⟩ := hl
  rw [hcs, List.dropLast_concat] at hv
  have hb : IsBracket (.ofList [b.opener]) (.opening b) := by
    cases b <;> exact (by decide)
  have hw : l = .ofList cs ++ .ofList [b.opener] := by
    rw [← String.ofList_append, ← hcs, String.ofList_toList]
  have hs : IsValue (.ofList cs) (scripted (.ofList cs)) := isValue_of_literal hv
  have hk : scripted l = scripted (.ofList cs) := by
    obtain ⟨o, -, ho, -⟩ := hs
    rw [scripted, names, hw, (tokens_of_breaks ho.done hb.breaks).1, hb.tokens,
      List.filterMap_append, List.filterMap_cons_none rfl, List.filterMap_nil, List.append_nil]
    rfl
  rw [hk, hr.scripted, List.append_nil, hw]
  exact hs.group h hb hr

theorem IsValue.operator (h : IsValue s ks) (h' : IsValue t ls) {u : String}
    (hu : isScriptCloser u.toList = true) :
    IsValue (s ++ u ++ t) (ks ++ scripted u ++ ls) :=
  (h.close hu).append_value h'

end Brackets

section Code

variable {s t : String} {ks ls : List Mark}

theorem IsTold.indented (h : IsTold s ks) : IsTold (indented s) ks := by
  obtain ⟨o, p, ho, hr⟩ := h
  exact ⟨o, p, ho.indented, hr⟩

theorem IsCode.trimmed (h : IsCode s ks) : IsValue (trimmed s) ks := by
  obtain ⟨o, ho, -, hr⟩ := h
  exact ⟨o, {}, ho.trimmed, hr, rfl⟩

theorem IsValue.close_silent (h : IsValue s ks) (ht : isScriptCloser t.toList = true)
    (hn : scripted t = []) : IsCode (s ++ t) ks := by
  have hc := h.close ht
  rw [hn, List.append_nil] at hc
  exact hc

theorem IsCode.closeScope (h : IsCode s ks) : IsCode (Fragment.closeScope s) ks := by
  rw [Fragment.closeScope]
  split
  · exact h.trimmed.close_silent (by decide) (by decide)
  · exact h

theorem IsCode.line (h : IsCode s ks) : IsCode (BlockMachine.trimmed s ++ "\n") ks := by
  obtain ⟨o, ho, -, hr⟩ := h
  have hd := ho.trimmed.done
  obtain ⟨ht, hf⟩ := tokens_of_breaks (t := "\n") hd (by decide)
  rw [tokens_of_allBlank (s := "\n") (by decide), List.append_nil] at ht
  have hc : finish "\n" = .code := by decide
  exact ⟨o, ⟨ht.trans ho.trimmed.tokens, by rw [hf, hc]; rfl⟩, hf.trans hc, hr⟩

theorem IsCode.awaited (h : IsCode s ks) : IsCode (Fragment.awaited s) ks := by
  have ha : IsCode "await " [] := isCode_of_script (by decide)
  rw [Fragment.awaited]
  split
  · rw [String.append_assoc]
    exact ha.append h.line
  · exact h.closeScope

theorem isCode_join {ss : List String} {kss : List (List Mark)}
    (h : List.Forall₂ IsCode ss kss) : IsCode (String.join ss) kss.flatten := by
  induction h with
  | nil => exact isCode_empty
  | cons hs _ ih =>
    rw [String.join_cons, List.flatten_cons]
    exact hs.append ih

theorem isCode_intercalate (ht : IsCode t []) {ss : List String} {kss : List (List Mark)}
    (h : List.Forall₂ IsCode ss kss) : IsCode (t.intercalate ss) kss.flatten := by
  induction h with
  | nil => exact isCode_empty
  | @cons s ks ss kss hs hss ih =>
    cases hss with
    | nil =>
      rw [String.intercalate_singleton, List.flatten_singleton]
      exact hs
    | cons _ _ =>
      rw [String.intercalate_cons_cons, String.append_assoc, List.flatten_cons]
      exact hs.append (ht.append ih)

theorem isCode_else : IsCode " else " [] := isCode_of_script (by decide)

theorem IsValue.assigned (h : IsValue s ks) (name : String) :
    IsCode (identifier name ++ " = " ++ s ++ ";\n") (.author (identifier name) false :: ks) := by
  have ho := (isValue_identifier name (.inr rfl)).operator h (u := " = ") (by decide)
  have hc := ho.close_silent (t := ";\n") (by decide) (by decide)
  rw [show scripted " = " = [] by decide, List.append_nil] at hc
  exact hc

theorem IsCode.branch (h : IsCode t ls) (hs : IsValue s ks) :
    IsCode ("if (" ++ s ++ ") \x7b\n" ++ indented t ++ "\x7d") (ks ++ ls) := by
  have hi := hs.isTold.opened (b := .round) (l := "if (") (r := ")") (by decide)
    (by decide)
  have hb := hi.group_code h.isTold.indented (l := " \x7b\n") (r := "\x7d") (b := .curly)
    (by decide) (by decide) (by decide)
  have hj : "if (" ++ s ++ ")" ++ " \x7b\n" = "if (" ++ s ++ ") \x7b\n" := by
    rw [String.append_assoc]
    rfl
  have hk : scripted "if (" = [] ∧ scripted ")" = [] := by decide
  rw [hj, hk.1, hk.2, List.append_nil] at hb
  exact hb

end Code

section Wrapped

variable {l r s : String} {o : Outline} {ks : List Mark}

theorem of_between (h : Of s o) {w : Outline} (hl : finish l = .code) (hb : Breaks r)
    (hr : finish r = .code) (ht : tokens l ++ flatten o ++ tokens r = flatten w) :
    Of (l ++ s ++ r) w ∧ finish (l ++ s ++ r) = .code := by
  obtain ⟨hw, hf⟩ := tokens_between hl h.done hb
  refine ⟨⟨?_, by rw [hf, hr]; rfl⟩, hf.trans hr⟩
  rw [hw, h.tokens, ht]

theorem isCode_return (name : String) : IsCode ("return " ++ quoted name ++ ";\n") [.exit 0] := by
  have hl : tokens "return " = [.symbol (.word ['r', 'e', 't', 'u', 'r', 'n'])] := by
    decide
  have hr : tokens ";\n" = [.symbol (.mark ';')] := by decide
  obtain ⟨ho, hf⟩ := of_between (of_quoted name).1 (l := "return ") (r := ";\n")
    (w := ofWord "return" ++ ofLiteral ++ .symbol (.mark ';') .nil) (by decide) (by decide)
    (by decide) (by rw [hl, hr]; decide)
  have hs : survey {} (ofWord "return" ++ ofLiteral ++ .symbol (.mark ';') .nil) =
      [⟨.exit, [], []⟩] := by decide
  refine ⟨_, ho, hf, ⟨?_, by decide, by decide⟩⟩
  rw [hs]
  exact .cons ⟨rfl, rfl⟩ .nil

/-- Code in an asynchronous function that is called right away. -/
def asyncCall (o : Outline) : Outline :=
  .group .round (.symbol (.word ['a', 's', 'y', 'n', 'c']) (.group .round .nil
    (.symbol .arrow (.group .curly o .nil)))) (.group .round .nil (.symbol (.mark ';') .nil))

theorem survey_asyncCall (h : declared {} o = []) : survey {} (asyncCall o) =
    ⟨.name "async", [], []⟩ :: (survey {} o).map (·.inside [] [.async]) := by
  have hn : isName ['a', 's', 'y', 'n', 'c'] = true := by decide
  simp [asyncCall, survey, Position.mentions, Position.read, Cue.word, Cue.closed, Cue.layer,
    declared, Position.declares, words, h, hn, Mention.inside_nil]

theorem Mention.Fits.async {m : Mention} {k : Mark} (h : m.Fits [] k) :
    (m.inside [] [.async]).Fits [] k.deeper := by
  cases k with
  | script w => exact h
  | author w moved => exact ⟨h.1, by rw [inside, List.append_nil]; exact h.2⟩
  | exit n =>
    refine ⟨h.1, ?_⟩
    change m.functions ++ [.async] = _
    rw [h.2, List.append_nil, List.append_nil, List.replicate_succ']

theorem IsTold.async (h : IsTold s ks) :
    IsCode ("(async () => \x7b\n" ++ s ++ "\x7d)();\n") (.script "async" :: ks.map .deeper) := by
  obtain ⟨o, p, ho, hr⟩ := h
  have hopen : tokens "(async () => \x7b\n" =
      [.opening .round, .symbol (.word ['a', 's', 'y', 'n', 'c']), .opening .round,
        .closing .round, .symbol .arrow, .opening .curly] := by decide
  have hclose : tokens "\x7d)();\n" = [.closing .curly, .closing .round, .opening .round,
      .closing .round, .symbol (.mark ';')] := by decide
  obtain ⟨hof, hf⟩ := of_between ho (l := "(async () => \x7b\n") (r := "\x7d)();\n")
    (w := asyncCall o) (by decide) (by decide) (by decide)
    (by simp [hopen, hclose, asyncCall, flatten])
  refine ⟨asyncCall o, hof, hf, ⟨?_, rfl, rfl⟩⟩
  rw [survey_asyncCall hr.declared]
  refine .cons rfl (List.forall₂_map_left_iff.2 (List.forall₂_map_right_iff.2 ?_))
  exact hr.fits.imp fun _ _ h => h.async

/-- Code behind the declaration of a position. -/
def positioned (o : Outline) : Outline :=
  .group .curly (.symbol (.word ['c', 'o', 'n', 's', 't']) (.symbol (.word ['p', 'o', 's'])
    (.symbol (.mark '=') o))) .nil

theorem survey_positioned (h : declared {} o = []) : survey {} (positioned o) =
    ⟨.name "pos", ["pos"], []⟩ :: (survey {} o).map (·.inside ["pos"] []) := by
  have hn : isName ['p', 'o', 's'] = true := by decide
  have hk : isName ['c', 'o', 'n', 's', 't'] = false := by decide
  simp [positioned, survey, Position.mentions, Position.read, Cue.word, Cue.layer, declared,
    Position.declares, h, hn, hk, Mention.inside]

theorem Mention.Fits.moved {m : Mention} {k : Mark} (h : m.Fits [] k) :
    (m.inside ["pos"] []).Fits [] k.moved := by
  cases k with
  | script w => exact h
  | author w moved =>
    refine ⟨h.1, ?_⟩
    rw [inside, List.mem_append, h.2, List.mem_singleton, and_iff_left rfl]
    exact or_iff_right_of_imp And.left
  | exit n => exact ⟨h.1, by rw [inside, List.append_nil]; exact h.2⟩

theorem IsCode.positioned (h : IsCode s ks) :
    IsCode ("\x7b\n  const pos = " ++ s ++ "\x7d\n") (.script "pos" :: ks.map .moved) := by
  obtain ⟨o, ho, -, hr⟩ := h
  have hopen : tokens "\x7b\n  const pos = " =
      [.opening .curly, .symbol (.word ['c', 'o', 'n', 's', 't']), .symbol (.word ['p', 'o', 's']),
        .symbol (.mark '=')] := by decide
  have hclose : tokens "\x7d\n" = [.closing .curly] := by decide
  obtain ⟨hof, hf⟩ := of_between ho (l := "\x7b\n  const pos = ") (r := "\x7d\n")
    (w := Outline.positioned o) (by decide) (by decide) (by decide)
    (by simp [hopen, hclose, Outline.positioned, flatten])
  refine ⟨_, hof, hf, ⟨?_, rfl, rfl⟩⟩
  rw [survey_positioned hr.declared]
  refine .cons rfl (List.forall₂_map_left_iff.2 (List.forall₂_map_right_iff.2 ?_))
  exact hr.fits.imp fun _ _ h => h.moved

end Wrapped

section Functions

variable {l m r s : String} {o params : Outline} {ks : List Mark} {p : Position}

/-- A function with its parameters and its body. -/
def function (params o : Outline) : Outline :=
  .symbol (.word ['f', 'u', 'n', 'c', 't', 'i', 'o', 'n'])
    (.group .round params (.group .curly o .nil))

theorem of_function {parameters : String} (hp : Of parameters params) (ho : Of s o)
    (hl : tokens l = [.symbol (.word ['f', 'u', 'n', 'c', 't', 'i', 'o', 'n']), .opening .round] ∧
      finish l = .code)
    (hm : tokens m = [.closing .round, .opening .curly] ∧ finish m = .code) (hb : Breaks m)
    (hr : IsBracket r (.closing .curly)) :
    Of (l ++ parameters ++ m ++ s ++ r) (function params o) ∧
      finish (l ++ parameters ++ m ++ s ++ r) = .code := by
  obtain ⟨ht, hf⟩ := tokens_between hl.2 hp.done hb
  refine of_between ho (hf.trans hm.2) hr.breaks hr.clear ?_
  rw [ht, hl.1, hm.1, hr.tokens, hp.tokens]
  simp [function, flatten]

/-- Parameters whose names no identifier has. -/
structure IsParameters (params : Outline) : Prop where
  silent : survey {} params = []
  reserved : ∀ w ∈ params.words, w ∈ Identifier.reserved

theorem survey_function (hp : IsParameters params) (hd : declared {} o = []) :
    survey {} (function params o) = (survey {} o).map (·.inside params.words [.plain]) := by
  have hn : isName ['f', 'u', 'n', 'c', 't', 'i', 'o', 'n'] = false := by decide
  simp [function, survey, Position.mentions, Position.read, Cue.word, Cue.closed, Cue.layer,
    hp.silent, hd, hn]

theorem unreserved_of_mem_survey {w : String} {a : Mention} (h : a ∈ survey p o)
    (hw : a.subject = .name w) : w ∉ Identifier.reserved := by
  induction o generalizing p a with
  | nil => cases h
  | symbol x rest ih =>
    rcases List.mem_append.1 h with h | h
    · cases x with
      | number | arrow | mark c => cases h
      | literal =>
        rw [Position.mentions] at h
        split at h
        · rw [List.mem_singleton.1 h] at hw
          cases hw
        · cases h
      | word cs =>
        rw [Position.mentions] at h
        split at h
        · rename_i hn
          rw [List.mem_singleton.1 h] at hw
          cases hw
          rw [isName, Bool.not_eq_true', ← Bool.not_eq_true, List.contains_iff_mem] at hn
          exact hn
        · cases h
    · exact ih h hw
  | group b inner rest ihi ih =>
    rcases List.mem_append.1 h with h | h
    · obtain ⟨a', ha, rfl⟩ := List.mem_map.1 h
      exact ihi ha hw
    · exact ih h hw

theorem Mention.Fits.plain {a : Mention} {k : Mark} {ws : List String} (h : a.Fits [] k)
    (hw : ∀ w, a.subject = .name w → w ∉ ws) : (a.inside ws [.plain]).Fits [.plain] k := by
  cases k with
  | script w => exact h
  | author w moved =>
    refine ⟨h.1, ?_⟩
    rw [inside, List.mem_append, or_iff_left (hw w h.1)]
    exact h.2
  | exit n =>
    refine ⟨h.1, ?_⟩
    change a.functions ++ [.plain] = _
    rw [h.2, List.append_nil]

theorem fits_function (hp : IsParameters params) (h : Reads o ks p) :
    List.Forall₂ (Mention.Fits [.plain]) (survey {} (function params o)) ks := by
  rw [survey_function hp h.declared, List.forall₂_map_left_iff]
  have hu : ∀ a ∈ survey {} o, ∀ w, a.subject = .name w → w ∉ params.words := by
    intro a ha w hw hm
    exact unreserved_of_mem_survey ha hw (hp.reserved w hm)
  exact ((List.forall₂_and_left _ _).2 ⟨hu, h.fits⟩).imp fun a k h => h.2.plain h.1

def isParameterList (cs : List Char) : Bool :=
  (run .code cs).2.isDone && match nestFrom [] .nil (lexed cs) with
    | none => false
    | some params => (survey {} params).isEmpty && params.words.all Identifier.reserved.contains

theorem of_isParameterList (h : isParameterList s.toList = true) :
    ∃ params, Of s params ∧ IsParameters params := by
  rw [isParameterList, Bool.and_eq_true] at h
  obtain ⟨hd, h⟩ := h
  split at h
  · cases h
  · rename_i params hp
    rw [Bool.and_eq_true, List.isEmpty_iff, List.all_eq_true] at h
    refine ⟨params, of_ofText? hp hd, h.1, ?_⟩
    intro w hw
    exact List.contains_iff_mem.1 (h.2 w hw)

theorem isParameterList_handler : ∀ parameters ∈
    [Script.enterParameters, Script.executeParameters, Script.exitParameters],
      isParameterList parameters.toList = true := by
  decide

theorem isParameterList_condition : ∀ parameters ∈
    [Script.localConditionParameters, Script.globalConditionParameters],
      isParameterList parameters.toList = true := by
  decide

theorem Of.terminated (h : Of s o) : Of (Script.terminated s) o := by
  rw [Script.terminated]
  split
  · exact h
  · have hn : Of "\n" .nil := ⟨by decide, by decide⟩
    have ha := h.append_of_breaks hn (by decide)
    rw [append_nil] at ha
    exact ha

theorem of_handler {parameters : String} (hp : Of parameters params) (ho : Of s o) :
    Of (Script.handler parameters s) (function params o) := by
  have hl : tokens "function(" =
      [.symbol (.word ['f', 'u', 'n', 'c', 't', 'i', 'o', 'n']), .opening .round] ∧
        finish "function(" = .code := by decide
  have hr : IsBracket "\x7d" (.closing .curly) := (by decide)
  rw [Script.handler]
  split
  · rename_i hb
    have hn : flatten o = [] := ho.tokens.symm.trans (tokens_of_allBlank hb)
    have he : Of "" .nil := ⟨rfl, rfl⟩
    cases o with
    | symbol x rest | group b inner rest => cases hn
    | nil =>
      have hf := (of_function (m := ") \x7b") hp he hl (by decide) (by decide) hr).1
      rw [String.append_empty, String.append_assoc] at hf
      exact hf
  · exact (of_function hp ho.terminated.indented hl (by decide) (by decide) hr).1

def returned (o : Outline) : Outline :=
  .symbol (.word ['r', 'e', 't', 'u', 'r', 'n']) (.group .round o (.symbol (.mark ';') .nil))

theorem of_returned (h : Of s o) : Of ("return (" ++ s ++ ");") (returned o) := by
  have hl : tokens "return (" =
      [.symbol (.word ['r', 'e', 't', 'u', 'r', 'n']), .opening .round] := by decide
  have hr : tokens ");" = [.closing .round, .symbol (.mark ';')] := by decide
  refine (of_between h (by decide) (by decide) (by decide) ?_).1
  rw [hl, hr]
  simp [returned, flatten]

theorem Reads.returned (h : Reads o ks p) : Reads (returned o) ks {} := by
  have hn : isName ['r', 'e', 't', 'u', 'r', 'n'] = false := by decide
  refine ⟨?_, rfl, rfl⟩
  have hs : survey {} (Outline.returned o) = survey {} o := by
    simp [Outline.returned, survey, Position.mentions, Position.read, Cue.word, Cue.layer,
      h.declared, hn, Mention.inside_nil]
  rw [hs]
  exact h.fits

theorem of_condition {parameters : String} (hp : Of parameters params) (ho : Of s o) :
    Of (Script.condition parameters s) (function params (returned o)) ∧
      finish (Script.condition parameters s) = .code := by
  have hl : tokens "function (" =
      [.symbol (.word ['f', 'u', 'n', 'c', 't', 'i', 'o', 'n']), .opening .round] ∧
        finish "function (" = .code := by decide
  exact of_function hp (of_returned ho).indented hl (by decide) (by decide)
    (by decide)

variable {parameters : String}

theorem IsTold.mentions (h : IsTold s ks) :
    ∃ ms, Script.mentions s = some ms ∧ List.Forall₂ (Mention.Fits []) ms ks := by
  obtain ⟨o, p, ho, hr⟩ := h
  refine ⟨_, ?_, hr.fits⟩
  rw [Script.mentions, ho.ofText?]
  rfl

theorem IsCode.mentions_handler (h : IsCode s ks)
    (hp : isParameterList parameters.toList = true) :
    ∃ ms, Script.mentions (Script.handler parameters s) = some ms ∧
      List.Forall₂ (Mention.Fits [.plain]) ms ks := by
  obtain ⟨params, hof, hps⟩ := of_isParameterList hp
  obtain ⟨o, ho, -, hr⟩ := h
  refine ⟨_, ?_, fits_function hps hr⟩
  rw [Script.mentions, (of_handler hof ho).ofText?]
  rfl

theorem IsTold.mentions_condition (h : IsTold s ks)
    (hp : isParameterList parameters.toList = true) :
    ∃ ms, Script.mentions (Script.condition parameters s) = some ms ∧
      List.Forall₂ (Mention.Fits [.plain]) ms ks := by
  obtain ⟨params, hof, hps⟩ := of_isParameterList hp
  obtain ⟨o, p, ho, hr⟩ := h
  refine ⟨_, ?_, fits_function hps hr.returned⟩
  rw [Script.mentions, (of_condition hof ho).1.ofText?]
  rfl

theorem Mention.Fits.of_not_isExit {outer outer' : List FunctionKind} {a : Mention} {k : Mark}
    (h : a.Fits outer k) (hk : k.isExit = false) : a.Fits outer' k := by
  cases k with
  | script w | author w moved => exact h
  | exit n => cases hk

theorem IsTold.condition (h : IsTold s ks) (hk : ∀ k ∈ ks, k.isExit = false)
    (hp : isParameterList parameters.toList = true) :
    IsCode (Script.condition parameters s) ks := by
  obtain ⟨params, hof, hps⟩ := of_isParameterList hp
  obtain ⟨o, p, ho, hr⟩ := h
  obtain ⟨hoc, hf⟩ := of_condition hof ho
  refine ⟨_, hoc, hf, ⟨?_, rfl, rfl⟩⟩
  have hfits := (fits_function hps hr.returned).flip
  have hsame := ((List.forall₂_and_left _ _).2 ⟨hk, hfits⟩).imp
    fun k a h => (Mention.Fits.of_not_isExit h.2 h.1 : a.Fits [] k)
  exact hsame.flip

end Functions

end BlockMachine.Outline
