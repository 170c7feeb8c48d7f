import BlockMachine.Proofs.Workspace.Wording
import BlockMachine.Service.Reply

namespace BlockMachine

open Workspace (member Blames)

namespace Service

def isSendable (r : Report) : Bool := isTextOrNull r.id && isTextOrNull r.kind

/-- The id or the kind that a fault is told with is no text. Of a malformed block the kind is told
in words. -/
def isUnsayable (members : Table Json) : FormatFault → Bool
  | .malformedBlock _ _ => !isTextOrNull (member members "id")
  | _ => !isTextOrNull (member members "id") || !isTextOrNull (member members "type")

theorem isTextOrNull_ofText? (text : Option String) : isTextOrNull (.ofText? text) = true := by
  cases text <;> rfl

theorem isSendable_of_blames {members : Table Json} {f : FormatFault} (h : Blames members f) :
    isSendable f.report = !isUnsayable members f := by
  cases h with
  | inputs | socket | next =>
    rw [isUnsayable, Bool.not_or, Bool.not_not, Bool.not_not]
    · rfl
    · nofun
  | label =>
    rw [isUnsayable, Bool.not_not]
    exact Bool.and_true _

theorem isSendable_of_isFrameFault {f : FormatFault} (h : Workspace.IsFrameFault f) :
    isSendable f.report = true := by
  rcases h with rfl | rfl | rfl <;> rfl

theorem isSendable_rule (f : RuleFault) : isSendable f.report = true := by
  rw [isSendable, RuleFault.report, isTextOrNull_ofText?]
  rfl

end Service

namespace Diagram

variable {ρ : Type} {d : Diagram ρ} {tops : List ρ}

theorem isSendable_of_root {f : Fault} (h : d.root tops = .error f) :
    ∃ report, f.report? = some report ∧ Service.isSendable report = true := by
  rcases root_eq_error h with rfl | ⟨rs, -, rfl⟩
  · exact ⟨_, rfl, rfl⟩
  · refine ⟨_, rfl, ?_⟩
    rw [Service.isSendable, FormatFault.report, Service.isTextOrNull_ofText?]
    rfl

end Diagram

theorem Workspace.isSendable_of_compile {w : Workspace} {f : Fault} {report : Report}
    (h : w.compile.result = .error f) (hr : f.report? = some report) :
    Service.isSendable report = true := by
  rw [Workspace.compile, Diagram.compileAll] at h
  cases hroot : w.diagram.root w.blocks with
  | error e =>
    rw [hroot] at h
    cases h
    obtain ⟨other, ho, hs⟩ := Diagram.isSendable_of_root hroot
    rw [hr] at ho
    cases ho
    exact hs
  | ok root =>
    rw [hroot] at h
    obtain ⟨t, ht⟩ := Tree.exists_concerns_of_compile (Diagram.mem_of_root hroot)
      (fun t ht => (List.mem_filter.1 ht).1) h
    cases f with
    | format e => exact ht.elim
    | defect d => cases hr
    | rule e =>
      cases hr
      exact Service.isSendable_rule e

namespace Service

variable {ws : Table Json} {f : Fault} {report : Report}

theorem unsayable_of_compileDocument
    (h : (compileDocument (.obj ws)).result = .error f) (hr : f.report? = some report)
    (hs : isSendable report = false) :
    ∃ g block, Workspace.read (.obj ws) = .error (.format g) ∧
      (Json.obj block).Inside (.obj ws) ∧ Blames block g ∧ isUnsayable block g = true := by
  rw [compileDocument] at h
  cases hread : Workspace.read (.obj ws) with
  | ok w =>
    rw [hread] at h
    rw [Workspace.isSendable_of_compile h hr] at hs
    cases hs
  | error e =>
    rw [hread] at h
    cases h
    cases f with
    | rule e =>
      cases hr
      rw [isSendable_rule] at hs
      cases hs
    | defect d => cases hr
    | format g =>
      cases hr
      rcases Workspace.blamed_document hread with hg | hg
      · rw [isSendable_of_isFrameFault hg] at hs
        cases hs
      · cases hg with
        | untyped => cases hs
        | block hin hb =>
          rw [isSendable_of_blames hb, Bool.not_eq_false'] at hs
          exact ⟨g, _, rfl, hin, hb, hs⟩

theorem reject_eq_send (h : isSendable report = true) :
    reject report = Reply.send (.rejected report) := if_pos h

theorem reject_of_unsayable (h : isSendable report = false) : reject report = .unsendable :=
  if_neg (Bool.eq_false_iff.1 h)

theorem Reply.send_eq_self {r : Reply} (h : r.isEncodable = true) : r.send = r := if_pos h

theorem Reply.send_eq_unsendable {r : Reply} (h : r.isEncodable = false) : r.send = .unsendable :=
  if_neg (Bool.eq_false_iff.1 h)

theorem Reply.send_of_ne {r : Reply} (h : r.send ≠ .unsendable) : r.send = r := by
  cases he : r.isEncodable with
  | true => exact send_eq_self he
  | false => exact absurd (send_eq_unsendable he) h

theorem reject_eq_rejected (h : reject report ≠ .unsendable) :
    reject report = .rejected report := by
  cases hs : isSendable report with
  | true =>
    rw [reject_eq_send hs] at h ⊢
    exact Reply.send_of_ne h
  | false => exact absurd (reject_of_unsayable hs) h

theorem isEncodable_rejected (h : report.Scalar) : (Reply.rejected report).isEncodable = true := by
  have hr : (Json.obj [("message", .str report.message), ("node_id", report.id),
      ("kind", report.kind)]).Scalar := by
    refine .record ["message", "node_id", "kind"] rfl (by decide) ?_
    simp only [List.forall_mem_cons]
    exact ⟨.str h.message, h.id, h.kind, nofun⟩
  have hd : (detail (.obj [("message", .str report.message), ("node_id", report.id),
      ("kind", report.kind)])).Scalar :=
    .record ["detail"] rfl (by decide) (List.forall_mem_singleton.2 hr)
  exact hd.isEncodable_compact

theorem isEncodable_compiled {p : Program} {code : Option String} (hp : p.toJson.Scalar)
    (hc : ∀ text ∈ code, Text.Scalar text.toList) (elapsed : Binary64) :
    (Reply.compiled p code elapsed).isEncodable = true := by
  have hj : (Json.obj [("program", p.toJson), ("code", .ofText? code),
      ("duration_ms", .float elapsed)]).Scalar := by
    refine .record ["program", "code", "duration_ms"] rfl (by decide) ?_
    simp only [List.forall_mem_cons]
    exact ⟨hp, .ofText? hc, .float elapsed, nofun⟩
  exact hj.isEncodable_compact

section

variable {elapsed : Binary64} {request : CompileRequest} {p : Program}

/-- The answer for a program, before it is sent. -/
def answer (elapsed : Binary64) (request : CompileRequest) (p : Program) : Reply :=
  .compiled p (if request.includeCode then some p.script else none) elapsed

theorem send_answer_iff :
    (answer elapsed request p).send = .unsendable ↔
      (answer elapsed request p).isEncodable = false := by
  refine ⟨fun hu => ?_, Reply.send_eq_unsendable⟩
  by_contra he
  rw [Reply.send_eq_self (eq_true_of_ne_false he)] at hu
  cases hu

theorem compile_of_ok (h : (compileDocument request.workspace).result = .ok p) :
    compile elapsed request = (answer elapsed request p).send := by
  rw [compile, h]
  rfl

theorem compile_of_report (h : (compileDocument request.workspace).result = .error f)
    (hr : f.report? = some report) : compile elapsed request = reject report := by
  rw [compile, h]
  dsimp only
  rw [hr]

theorem isEncodable_answer (hw : request.workspace.Scalar)
    (h : (compileDocument request.workspace).result = .ok p) :
    (answer elapsed request p).isEncodable = true := by
  obtain ⟨hp, hs⟩ := scalar_of_compileDocument hw h
  refine isEncodable_compiled hp (fun text ht => ?_) elapsed
  split at ht
  · cases ht
    exact hs
  · cases ht

theorem status_of_error (h : (compileDocument request.workspace).result = .error f) :
    (compile elapsed request).status ≠ 200 := by
  rw [compile, h]
  dsimp only
  split
  · rename_i r _
    by_cases hr : reject r = .unsendable
    · rw [hr]
      nofun
    · rw [reject_eq_rejected hr]
      nofun
  · nofun

theorem status_iff :
    (compile elapsed request).status = 200 ↔
      ∃ p, (compileDocument request.workspace).result = .ok p ∧
        (answer elapsed request p).isEncodable = true := by
  cases h : (compileDocument request.workspace).result with
  | error f => exact iff_of_false (status_of_error h) fun ⟨_, h, _⟩ => nomatch h
  | ok p =>
    rw [compile_of_ok h]
    cases he : (answer elapsed request p).isEncodable with
    | true =>
      rw [Reply.send_eq_self he]
      exact ⟨fun _ => ⟨p, rfl, he⟩, fun _ => rfl⟩
    | false =>
      rw [Reply.send_eq_unsendable he]
      refine ⟨nofun, ?_⟩
      rintro ⟨_, ⟨⟩, ht⟩
      rw [he] at ht
      cases ht

end

section

variable {elapsed : Binary64} {includeCode : Bool}

theorem compile_of_blames {g : FormatFault} {block : Table Json}
    (hg : Workspace.read (.obj ws) = .error (.format g)) (hb : Blames block g)
    (hs : isUnsayable block g = true) : compile elapsed ⟨.obj ws, includeCode⟩ = .unsendable := by
  have hf : (compileDocument (.obj ws)).result = .error (.format g) := by
    rw [compileDocument, hg]
  rw [compile_of_report hf rfl]
  apply reject_of_unsayable
  rw [isSendable_of_blames hb, hs]
  rfl

/-- Without halves of surrogate pairs, the answer cannot be sent only if a saved block is to be
blamed whose id or kind is no text. -/
theorem exists_blames_of_unsendable (hw : (Json.obj ws).Scalar)
    (hu : compile elapsed ⟨.obj ws, includeCode⟩ = .unsendable) :
    ∃ g block, Workspace.read (.obj ws) = .error (.format g) ∧
      (Json.obj block).Inside (.obj ws) ∧ Blames block g ∧ isUnsayable block g = true := by
  cases hf : (compileDocument (.obj ws)).result with
  | ok p =>
    rw [compile_of_ok hf, Reply.send_eq_self (isEncodable_answer hw hf)] at hu
    cases hu
  | error f =>
    cases hr : f.report? with
    | none =>
      rw [compile, hf] at hu
      dsimp only at hu
      rw [hr] at hu
      cases hu
    | some report =>
      rw [compile_of_report hf hr] at hu
      cases hs : isSendable report with
      | false => exact unsayable_of_compileDocument hf hr hs
      | true =>
        have he := isEncodable_rejected (scalar_fault_of_compileDocument hw hf report hr)
        rw [reject_eq_send hs, Reply.send_eq_self he] at hu
        cases hu

theorem respond_eq_compile {target : String} {members : Table Json}
    (ht : endpoint? target = some .compile)
    (hw : Table.get? members "workspace" = some (.obj ws))
    (hi : readIncludeCode members = .ok includeCode) :
    respond elapsed .post target (some (.obj members)) =
      compile elapsed ⟨.obj ws, includeCode⟩ := by
  have hws : readWorkspace members = .ok (.obj ws) := by
    rw [readWorkspace, hw]
  have hr : readRequest (some (.obj members)) = .ok ⟨.obj ws, includeCode⟩ := by
    rw [readRequest, hws, hi]
  unfold respond
  rw [ht]
  dsimp only
  rw [hr]

/-- A workspace that compiles is answered with its machine if the answer has an encoding, and what
is to be told about one that does not is sent, if at all, with the id and the kind of the fault. An
answer that cannot be sent is due to half of a surrogate pair in the workspace, or to a saved block
that is to be blamed and whose id or kind is no text. -/
theorem respond_to_workspace {target : String} {members : Table Json}
    (ht : endpoint? target = some .compile)
    (hw : Table.get? members "workspace" = some (.obj ws))
    (hi : readIncludeCode members = .ok includeCode) :
    let result := (compileDocument (.obj ws)).result
    let reply := respond elapsed .post target (some (.obj members))
    let blamed := ∃ g block, Workspace.read (.obj ws) = .error (.format g) ∧
      (Json.obj block).Inside (.obj ws) ∧ Blames block g ∧ isUnsayable block g = true
    (∀ program, result = .ok program →
      let code := if includeCode then some program.script else none
      (reply = .unsendable ↔ (Reply.compiled program code elapsed).isEncodable = false) ∧
      (reply ≠ .unsendable → reply.status = 200 ∧
        reply.body = .inl (.obj [("program", program.toJson), ("code", .ofText? code),
          ("duration_ms", .float elapsed)]))) ∧
    (∀ f report, result = .error f → f.report? = some report → reply ≠ .unsendable →
      reply.status = 422 ∧ reply.body = .inl (detail (.obj [("message", .str report.message),
        ("node_id", report.id), ("kind", report.kind)]))) ∧
    (blamed → reply = .unsendable) ∧
    ((Json.obj ws).Scalar → reply = .unsendable → blamed) := by
  dsimp only
  rw [respond_eq_compile ht hw hi]
  refine ⟨?_, ?_, ?_, exists_blames_of_unsendable⟩
  · intro program hp
    rw [compile_of_ok hp]
    refine ⟨send_answer_iff, fun hn => ?_⟩
    rw [Reply.send_of_ne hn]
    exact ⟨rfl, rfl⟩
  · intro f report hf hr hn
    rw [compile_of_report hf hr] at hn ⊢
    rw [reject_eq_rejected hn]
    exact ⟨rfl, rfl⟩
  · rintro ⟨g, block, hg, -, hb, hs⟩
    exact compile_of_blames hg hb hs

def rootOnly (id : Json) : Table Json :=
  [("blocks", .obj [("blocks", .arr [.obj [("type", .str "ai_definition"), ("id", id)]])])]

theorem respond_to_named_root :
    (compileDocument (.obj (rootOnly (.str "r")))).result =
      .error (.rule (.missingField "INITIAL_STATE" ⟨some "r", "ai_definition"⟩)) ∧
    (respond .zero .post "/compile"
        (some (.obj [("workspace", .obj (rootOnly (.str "r")))]))).body =
      .inl (detail (.obj [("message",
          .str "Block r (ai_definition) is missing required field 'INITIAL_STATE'"),
        ("node_id", .str "r"), ("kind", .str "ai_definition")])) := by
  have hf : (compileDocument (.obj (rootOnly (.str "r")))).result =
      .error (.rule (.missingField "INITIAL_STATE" ⟨some "r", "ai_definition"⟩)) := by
    with_unfolding_all rfl
  have ht : endpoint? "/compile" = some .compile := by decide +kernel
  have hn : respond .zero .post "/compile"
      (some (.obj [("workspace", .obj (rootOnly (.str "r")))])) ≠ .unsendable := by
    have hr : (Site.mk (some "r") "ai_definition").Scalar := by
      refine ⟨.ascii (by decide), ?_⟩
      rintro _ ⟨⟩
      exact .ascii (by decide)
    have hs : (RuleFault.missingField "INITIAL_STATE" ⟨some "r", "ai_definition"⟩).Scalar :=
      ⟨.ascii (by decide), hr⟩
    rw [respond_eq_compile ht rfl rfl, compile_of_report hf rfl, reject_eq_send rfl,
      Reply.send_eq_self (isEncodable_rejected hs.report)]
    rintro ⟨⟩
  exact ⟨hf, ((respond_to_workspace ht rfl rfl).2.1 _ _ hf rfl hn).2⟩

/-- What is wrong with a root whose id is a number is known, but the author is not told. -/
theorem respond_to_numbered_root :
    (∃ f report, (compileDocument (.obj (rootOnly (.int 5)))).result = .error f ∧
      f.report? = some report ∧ report.message = "Malformed block 5 (ai_definition)") ∧
    (respond .zero .post "/compile"
      (some (.obj [("workspace", .obj (rootOnly (.int 5)))]))).status = 500 ∧
    (respond .zero .post "/compile"
      (some (.obj [("workspace", .obj (rootOnly (.int 5)))]))).body =
        .inr "Internal Server Error" := by
  have hf : (compileDocument (.obj (rootOnly (.int 5)))).result =
      .error (.format (.malformedBlock (.int 5) (.str "ai_definition"))) := by
    with_unfolding_all rfl
  have hm : (FormatFault.malformedBlock (.int 5) (.str "ai_definition")).report.message =
      "Malformed block 5 (ai_definition)" := by decide +kernel
  have ht : endpoint? "/compile" = some .compile := by decide +kernel
  have hr : respond .zero .post "/compile"
      (some (.obj [("workspace", .obj (rootOnly (.int 5)))])) = .unsendable := by
    rw [respond_eq_compile ht rfl rfl, compile_of_report hf rfl]
    exact reject_of_unsayable rfl
  rw [hr]
  exact ⟨⟨_, _, hf, rfl, hm⟩, rfl, rfl⟩

end

end Service

end BlockMachine
