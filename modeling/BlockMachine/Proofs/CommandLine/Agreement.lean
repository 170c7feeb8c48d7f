import BlockMachine.CommandLine.Run
import BlockMachine.Proofs.CommandLine.Files
import BlockMachine.Proofs.Machine.Document
import BlockMachine.Proofs.Service.Reports

namespace BlockMachine.CommandLine

namespace Run

def leaves (r : Run) (files : Files) : Files :=
  match r.written with
  | some (name, text) => files.write name text
  | none => files

/-- Nothing is printed unless the run ends well, and nothing is written, but that a file is emptied
for a text without an encoding. -/
structure Quiet (r : Run) : Prop where
  printed : r.exit ≠ .ok 0 → r.printed = ""
  written : r.exit ≠ .ok 0 →
    r.written = none ∨ r.exit = .error .unencodable ∧ ∃ name, r.written = some (name, "")

theorem quiet_of_exit {r : Run} (h : r.exit = .ok 0) : r.Quiet :=
  ⟨fun hn => absurd h hn, fun hn => absurd h hn⟩

theorem quiet_of_idle {r : Run} (hp : r.printed = "") (hw : r.written = none) : r.Quiet :=
  ⟨fun _ => hp, fun _ => .inl hw⟩

theorem leaves_of_written {r : Run} {files : Files} {name text : String} {place : List String}
    (hw : r.written = some (name, text)) (hl : (files.look name).writable = .ok ())
    (hp : Files.placeOf? name = some place) :
    (r.leaves files).look name = .file text ∧
      ∀ q ≠ place, List.lookup q (r.leaves files) = List.lookup q files := by
  have hleaves : r.leaves files = files.write name text := by
    rw [leaves, hw]
  rw [hleaves]
  refine ⟨Files.look_write hp hl text, fun q hq => ?_⟩
  rw [Files.write_of_placeOf? hp, Files.lookup_replaced, if_neg hq]

theorem leaves_of_none {r : Run} (h : r.written = none) (files : Files) :
    r.leaves files = files := by
  rw [leaves, h]

end Run

open Run (Quiet quiet_of_exit quiet_of_idle)

section Delivery

variable {look : String → Place} {options : CompileOptions} {log : List LogLine} {text : String}

theorem quiet_print : (print log text).Quiet := by
  rw [print]
  split
  · exact quiet_of_exit rfl
  · exact quiet_of_idle rfl rfl

theorem quiet_deliver (output : Option String) : (deliver look output log text).Quiet := by
  cases output with
  | none => exact quiet_print
  | some name =>
    rw [deliver]
    split
    · exact quiet_print
    · split
      · exact quiet_of_idle rfl rfl
      · split
        · exact quiet_of_exit rfl
        · exact ⟨fun _ => rfl, fun _ => .inr ⟨rfl, name, rfl⟩⟩

theorem quiet_compileJson (document : Json) : (compileJson look options document).Quiet := by
  rw [compileJson]
  split
  · exact quiet_deliver _
  · exact quiet_of_idle rfl rfl
  · exact quiet_of_idle rfl rfl

theorem quiet_compile : (compile look options).Quiet := by
  rw [compile]
  split
  · exact quiet_of_idle rfl rfl
  · exact quiet_of_idle rfl rfl
  · split
    · exact quiet_compileJson _
    · exact quiet_of_idle rfl rfl
    · exact quiet_of_idle rfl rfl

theorem quiet_run (args : List String) : (run look args).Quiet := by
  rw [run]
  split
  · exact quiet_compile
  · exact quiet_of_exit rfl
  · exact quiet_of_exit rfl
  · exact quiet_of_exit rfl
  · exact quiet_of_idle rfl rfl

theorem deliver_of_vain {output : Option String} (h : output.getD "" = "") :
    deliver look output log text = deliver look none log text := by
  cases output with
  | none => rfl
  | some name => exact if_pos h

theorem compile_of_vain (h : options.output.getD "" = "") :
    compile look options = compile look { options with output := none } := by
  have hj (document : Json) : compileJson look options document =
      compileJson look { options with output := none } document := by
    simp only [compileJson, deliver_of_vain h]
  simp only [compile, hj]

theorem compile_eq_compileJson {content : String} {document : Json}
    (hf : look (normalPath options.workspace) = .file content)
    (hr : Json.read content = .ok document) :
    compile look options = compileJson look options document := by
  rw [compile, hf]
  simp only [Place.content, hr]

theorem run_eq_compileJson {files : Files} {args : List String} {content : String} {document : Json}
    (ha : read args = .ok (.compile options)) (hf : files.look options.workspace = .file content)
    (hr : Json.read content = .ok document) :
    run files.look args = compileJson files.look options document := by
  rw [run, ha]
  exact compile_eq_compileJson (by rw [Files.look_normalPath, hf]) hr

theorem deliver_encodable {name : String} (hn : name ≠ "") (hl : (look name).writable = .ok ())
    (he : Text.isEncodable text.toList = true) :
    deliver look (some name) log text =
      { exit := .ok 0, written := some (name, text),
        log := log ++ [⟨.info, "Wrote " ++ name⟩] } := by
  rw [deliver, if_neg hn, hl]
  exact if_pos he

theorem deliver_unencodable {name : String} (hn : name ≠ "") (hl : (look name).writable = .ok ())
    (he : Text.isEncodable text.toList = false) :
    deliver look (some name) log text =
      { exit := .error .unencodable, written := some (name, ""), log } := by
  rw [deliver, if_neg hn, hl]
  exact if_neg (Bool.eq_false_iff.1 he)

section Documents

variable {document : Json} {p : Program} {name : String} {format : Format}

/-- What is printed of a document in some format has an encoding. -/
def Encodes (format : Format) (document : Json) : Prop :=
  ∀ p, (compileDocument document).result = .ok p →
    Text.isEncodable (outputText format p).toList = true

theorem encodes_document (document : Json) : Encodes .document document := by
  intro p hp
  refine (Text.Scalar.of_ascii fun c hc => ?_).isEncodable
  rcases (legible_of_compile hp).printed_indented c hc with rfl | hc
  · decide
  · exact Nat.lt_trans hc.2 (by decide)

theorem encodes_of_scalar (h : document.Scalar) : Encodes format document := by
  cases format with
  | document => exact encodes_document document
  | script => exact fun p hp => (scalar_of_compileDocument h hp).2.isEncodable

theorem compileJson_of_ok (h : (compileDocument document).result = .ok p) :
    compileJson look options document =
      deliver look options.output ((compileDocument document).events.map Event.line)
        (outputText options.format p) := by
  rw [compileJson, h]

theorem exit_of_error {f : Fault} (h : (compileDocument document).result = .error f) :
    (compileJson look options document).exit ≠ .ok 0 ∧
      (compileJson look options document).exit ≠ .error .unencodable := by
  rw [compileJson, h]
  cases f <;> exact ⟨nofun, nofun⟩

theorem compileJson_printing (h : (compileDocument document).result = .ok p)
    (he : Encodes options.format document) (ho : options.output = none) :
    compileJson look options document =
      { exit := .ok 0, printed := outputText options.format p,
        log := (compileDocument document).events.map Event.line } := by
  rw [compileJson_of_ok h, ho]
  exact if_pos (he p h)

theorem exit_printing_iff (he : Encodes options.format document) (ho : options.output = none) :
    (compileJson look options document).exit = .ok 0 ↔
      ∃ p, (compileDocument document).result = .ok p := by
  cases hr : (compileDocument document).result with
  | error f => exact iff_of_false (exit_of_error hr).1 fun ⟨_, h⟩ => nomatch h
  | ok p =>
    rw [compileJson_printing hr he ho]
    exact ⟨fun _ => ⟨p, rfl⟩, fun _ => rfl⟩

theorem exit_writing_iff (he : Encodes options.format document) (ho : options.output = some name)
    (hn : name ≠ "") :
    (compileJson look options document).exit = .ok 0 ↔
      (∃ p, (compileDocument document).result = .ok p) ∧ (look name).writable = .ok () := by
  cases hr : (compileDocument document).result with
  | error f => exact iff_of_false (exit_of_error hr).1 fun ⟨⟨_, h⟩, _⟩ => nomatch h
  | ok p =>
    rw [compileJson_of_ok hr, ho]
    cases hl : (look name).writable with
    | error f =>
      rw [deliver, if_neg hn, hl]
      exact ⟨nofun, fun h => nomatch h.2⟩
    | ok u =>
      rw [deliver_encodable hn hl (he p hr)]
      exact ⟨fun _ => ⟨⟨p, rfl⟩, rfl⟩, fun _ => rfl⟩

theorem written_of_exit (he : Encodes options.format document) (ho : options.output = some name)
    (hn : name ≠ "") (hx : (compileJson look options document).exit = .ok 0) :
    (compileJson look options document).printed = "" ∧
      (compileJson look options document).written =
        some (name, (compileJson look { options with output := none } document).printed) := by
  obtain ⟨⟨p, hr⟩, hl⟩ := (exit_writing_iff he ho hn).1 hx
  have ht : compileJson look { options with output := none } document =
      { exit := .ok 0, printed := outputText options.format p,
        log := (compileDocument document).events.map Event.line } := compileJson_printing hr he rfl
  rw [ht, compileJson_of_ok hr, ho, deliver_encodable hn hl (he p hr)]
  exact ⟨rfl, rfl⟩

theorem exit_ne_unencodable (he : Encodes options.format document) :
    (compileJson look options document).exit ≠ .error .unencodable := by
  cases hr : (compileDocument document).result with
  | error f => exact (exit_of_error hr).2
  | ok p =>
    have hp : (print ((compileDocument document).events.map Event.line)
        (outputText options.format p)).exit = .ok 0 := by
      rw [print, if_pos (he p hr)]
    rw [compileJson_of_ok hr]
    cases ho : options.output with
    | none =>
      rw [deliver, hp]
      nofun
    | some name =>
      by_cases hn : name = ""
      · rw [deliver, if_pos hn, hp]
        nofun
      · cases hl : (look name).writable with
        | error f =>
          rw [deliver, if_neg hn, hl]
          nofun
        | ok u =>
          rw [deliver_encodable hn hl (he p hr)]
          nofun

end Documents

end Delivery

/-- A file that says what a request says. A text without an encoding is answered by neither, but it
empties the file that it is to be written to, and the document of a program is printed all the same.
Where no half of a surrogate pair is in the file, the two agree in what is printed and when, and a
run that fails leaves the files as they are. -/
theorem agrees_with_service {files : Files} {path content target : String} {ws members : Table Json}
    {elapsed : Binary64} (hf : files.look path = .file content)
    (hw : Json.read content = .ok (.obj ws)) (ht : Service.endpoint? target = some .compile)
    (hm : Table.get? members "workspace" = some (.obj ws))
    (hc : Service.readIncludeCode members = .ok true) :
    let result := (compileDocument (.obj ws)).result
    let reply := Service.respond elapsed .post target (some (.obj members))
    let printing (format : Format) := compile files.look { workspace := path, format }
    ((printing .document).exit = .ok 0 ↔ ∃ p, result = .ok p) ∧
    (reply.status = 200 ↔ ∃ p, result = .ok p ∧
      (Service.Reply.compiled p (some p.script) elapsed).isEncodable = true) ∧
    (∀ args options name place p, read args = .ok (.compile options) → options.workspace = path →
      options.output = some name → name ≠ "" → (files.look name).writable = .ok () →
      Files.placeOf? name = some place → result = .ok p →
      Text.isEncodable (outputText options.format p).toList = false →
      (run files.look args).exit ≠ .ok 0 ∧
        ((run files.look args).leaves files).look name = .file "") ∧
    (∀ args, (run files.look args).exit ≠ .ok 0 → (run files.look args).printed = "" ∧
      ((run files.look args).exit ≠ .error .unencodable →
        (run files.look args).leaves files = files)) ∧
    ((Json.obj ws).Scalar →
      (∀ format, (printing format).exit = .ok 0 ↔ reply.status = 200) ∧
      (reply.status = 200 → ∃ (program : Json) (code : String),
        reply.body =
          .inl (.obj [("program", program), ("code", .str code), ("duration_ms", .float elapsed)]) ∧
        (printing .script).printed = code ∧
        (printing .document).printed = program.indented ++ "\n" ∧
        Json.read (printing .document).printed = .ok program ∧
        Json.Printed (printing .document).printed.toList) ∧
      ∀ args options, read args = .ok (.compile options) → options.workspace = path →
        (options.output.getD "" = "" → run files.look args = printing options.format) ∧
        (∀ name, options.output = some name → name ≠ "" →
          ((run files.look args).exit = .ok 0 ↔
            reply.status = 200 ∧ (files.look name).writable = .ok ()) ∧
          ((run files.look args).exit = .ok 0 →
            (run files.look args).printed = "" ∧
            (run files.look args).written = some (name, (printing options.format).printed) ∧
            ∀ place, Files.placeOf? name = some place →
              ((run files.look args).leaves files).look name =
                .file (printing options.format).printed ∧
              ∀ q ≠ place, List.lookup q ((run files.look args).leaves files) =
                List.lookup q files)) ∧
        ((run files.look args).exit ≠ .ok 0 →
          (run files.look args).printed = "" ∧ (run files.look args).leaves files = files)) := by
  intro result reply printing
  have hp : files.look (normalPath path) = .file content := by
    rw [Files.look_normalPath, hf]
  have hprinting (format : Format) : printing format =
      compileJson files.look { workspace := path, format } (.obj ws) :=
    compile_eq_compileJson hp hw
  have hrun {args : List String} {options : CompileOptions}
      (ha : read args = .ok (.compile options)) (ho : options.workspace = path) :
      run files.look args = compileJson files.look options (.obj ws) := by
    subst ho
    exact run_eq_compileJson ha hf hw
  have hreply : reply = Service.compile elapsed ⟨.obj ws, true⟩ :=
    Service.respond_eq_compile ht hm hc
  have hs : reply.status = 200 ↔ ∃ p, result = .ok p ∧
      (Service.Reply.compiled p (some p.script) elapsed).isEncodable = true :=
    hreply ▸ Service.status_iff
  have hquiet (args : List String) (he : (run files.look args).exit ≠ .ok 0)
      (hu : (run files.look args).exit ≠ .error .unencodable) :
      (run files.look args).leaves files = files := by
    rcases (quiet_run args).written he with hn | ⟨hx, -⟩
    · exact Run.leaves_of_none hn files
    · exact absurd hx hu
  refine ⟨?_, hs, ?_, fun args he => ⟨(quiet_run args).printed he, hquiet args he⟩,
    fun hscalar => ?_⟩
  · rw [hprinting]
    exact exit_printing_iff (encodes_document _) rfl
  · intro args options name place p ha ho hn hne hl hplace hr he
    have hd := hrun ha ho
    rw [compileJson_of_ok hr, hn, deliver_unencodable hne hl he] at hd
    refine ⟨?_, (Run.leaves_of_written (by rw [hd]) hl hplace).1⟩
    rw [hd]
    nofun
  · have hsc : reply.status = 200 ↔ ∃ p, result = .ok p := by
      rw [hs]
      refine exists_congr fun p => and_iff_left_of_imp fun hr => ?_
      exact @Service.isEncodable_answer elapsed ⟨.obj ws, true⟩ p hscalar hr
    have henc (format : Format) : Encodes format (.obj ws) := encodes_of_scalar hscalar
    refine ⟨fun format => ?_, fun h => ?_, fun args options ha ho => ?_⟩
    · rw [hsc, hprinting]
      exact exit_printing_iff (henc format) rfl
    · obtain ⟨p, hr, he⟩ := hs.1 h
      have hl := legible_of_compile hr
      refine ⟨p.toJson, p.script, ?_, ?_⟩
      · rw [hreply, Service.compile_of_ok hr,
          Service.Reply.send_eq_self (r := Service.answer elapsed ⟨.obj ws, true⟩ p) he]
        rfl
      · rw [hprinting, hprinting, compileJson_printing hr (henc _) rfl,
          compileJson_printing hr (henc _) rfl]
        exact ⟨rfl, rfl, hl.read_indented (scalar_of_compileDocument hscalar hr).1,
          hl.printed_indented⟩
    · subst ho
      refine ⟨fun hv => ?_, fun name hn hne => ?_, fun he => ?_⟩
      · rw [run, ha]
        exact compile_of_vain hv
      · rw [hrun ha rfl, hprinting, hsc]
        refine ⟨exit_writing_iff (henc _) hn hne, fun he => ?_⟩
        obtain ⟨hempty, htext⟩ := written_of_exit (henc _) hn hne he
        refine ⟨hempty, htext, fun place => ?_⟩
        exact Run.leaves_of_written htext ((exit_writing_iff (henc _) hn hne).1 he).2
      · refine ⟨(quiet_run args).printed he, hquiet args he ?_⟩
        rw [hrun ha rfl]
        exact exit_ne_unencodable (henc _)

/-- A program without states whose initial state is named by a letter and a character beyond the
16-bit units. -/
def waving : Table Json :=
  [("blocks", .obj [("blocks", .arr [.obj [("type", .str "ai_definition"),
    ("fields", .obj [("INITIAL_STATE", .str "é😀")])]])])]

theorem legible_waving : (Json.obj waving).Legible := by
  refine .obj (List.nodup_singleton _) (List.forall_mem_singleton.2 ?_)
  refine .obj (List.nodup_singleton _) (List.forall_mem_singleton.2 ?_)
  refine .arr (List.forall_mem_singleton.2 ?_)
  refine .obj (by decide) (List.forall_mem_cons.2 ⟨.str _, List.forall_mem_singleton.2 ?_⟩)
  exact .obj (List.nodup_singleton _) (List.forall_mem_singleton.2 (.str _))

theorem scalar_waving : (Json.obj waving).Scalar := by
  have hc : "é😀".toList.all (·.toNat < 0x10ffff) = true := by decide
  have hn : Text.Scalar "é😀".toList :=
    .of_not_mem fun c h => Text.ne_mark (of_decide_eq_true (List.all_eq_true.1 hc c h))
  simp only [waving, Json.scalar_obj_iff, Json.scalar_arr_iff, Json.scalar_str_iff,
    List.forall_mem_cons, List.not_mem_nil, false_imp_iff, implies_true, and_true, hn]
  and_intros
  all_goals exact .ascii (by decide)

def wavingText : String := (Json.obj waving).indented ++ "\n"

/-- The program is saved beside another file. -/
def wavingFiles : Files := Files.write [(["notes"], "")] "bot.json" wavingText

theorem waving_agrees :
    (Json.obj waving).Scalar ∧
    ∃ text program code,
      (Service.respond .zero .post "/compile" (some (.obj [("workspace", .obj waving)]))).body =
        .inl (.obj [("program", program), ("code", .str code), ("duration_ms", .float .zero)]) ∧
      (run wavingFiles.look ["compile", "bot.json"]).printed = code ∧
      (run wavingFiles.look ["compile", "bot.json", "--format", "json"]).printed = text ∧
      Json.read text = .ok program ∧
      ((run wavingFiles.look ["compile", "bot.json", "--format=json", "-o", "out.json"]).leaves
        wavingFiles).look "out.json" = .file text := by
  have hf : wavingFiles.look "bot.json" = .file wavingText := by
    have hp : Files.placeOf? "bot.json" = some ["bot.json"] := by decide
    exact Files.look_write hp (by decide +kernel) wavingText
  have hscript : read ["compile", "bot.json"] = .ok (.compile { workspace := "bot.json" }) := by
    decide +kernel
  have hdocument : read ["compile", "bot.json", "--format", "json"] =
      .ok (.compile { workspace := "bot.json", format := .document }) := by decide +kernel
  have hfile : read ["compile", "bot.json", "--format=json", "-o", "out.json"] =
      .ok (.compile ⟨"bot.json", some "out.json", .document⟩) := by decide +kernel
  have hl : (wavingFiles.look "out.json").writable = .ok () := by decide +kernel
  have ht : Service.endpoint? "/compile" = some .compile := by decide +kernel
  have hm : Table.get? [("workspace", Json.obj waving)] "workspace" = some (.obj waving) := rfl
  have hs : (Service.respond .zero .post "/compile"
      (some (.obj [("workspace", .obj waving)]))).status = 200 := by
    have hok : (compileDocument (.obj waving)).result.toOption.isSome = true := by decide +kernel
    obtain ⟨p, hp⟩ := Option.isSome_iff_exists.1 hok
    have hr := eq_ok_of_toOption hp
    rw [Service.respond_eq_compile ht hm rfl]
    exact Service.status_iff.2 ⟨p, hr, Service.isEncodable_answer scalar_waving hr⟩
  obtain ⟨-, -, -, -, hagree⟩ := @agrees_with_service _ _ _ _ _ _ .zero hf
    (legible_waving.read_indented scalar_waving) ht hm rfl
  obtain ⟨-, hbody, hrun⟩ := hagree scalar_waving
  obtain ⟨program, code, hb, hcode, -, hread, -⟩ := hbody hs
  obtain ⟨hexit, hwritten⟩ := (hrun _ _ hfile rfl).2.1 "out.json" rfl (by decide)
  obtain ⟨-, -, hplace⟩ := hwritten (hexit.2 ⟨hs, hl⟩)
  refine ⟨scalar_waving, _, program, code, hb, ?_, ?_, hread, (hplace ["out.json"] (by decide)).1⟩
  · rw [(hrun _ _ hscript rfl).1 rfl]
    exact hcode
  · rw [(hrun _ _ hdocument rfl).1 rfl]

/-- A program whose initial state is named by half of a surrogate pair. -/
def halved : Table Json :=
  [("blocks", .obj [("blocks", .arr [.obj [("type", .str "ai_definition"),
    ("fields", .obj [("INITIAL_STATE", .str (String.ofList (Text.spelling 0xd800)))])]])])]

/-- In the file, the half is written with an escape. -/
def halvedFiles : Files :=
  [(["bot.json"], "\x7b\"blocks\":\x7b\"blocks\":[\x7b\"type\":\"ai_definition\"," ++
    "\"fields\":\x7b\"INITIAL_STATE\":\"\\ud800\"\x7d\x7d]\x7d\x7d")]

/-- Nothing but the name of the initial state. -/
def halvedProgram : Program := { initialState := String.ofList (Text.spelling 0xd800) }

/-- The document is printed although the service has no answer, and the run that cannot write the
script leaves an empty file behind. -/
theorem halved_disagrees :
    (∃ content, halvedFiles.look "bot.json" = .file content ∧
      Json.read content = .ok (.obj halved)) ∧
    (run halvedFiles.look ["compile", "bot.json", "--format", "json"]).exit = .ok 0 ∧
    (Service.respond .zero .post "/compile" (some (.obj [("workspace", .obj halved)]))).status =
      500 ∧
    halvedFiles.look "out.js" = .vacant ∧
    (run halvedFiles.look ["compile", "bot.json", "-o", "out.js"]).exit = .error .unencodable ∧
    ((run halvedFiles.look ["compile", "bot.json", "-o", "out.js"]).leaves halvedFiles).look
      "out.js" = .file "" := by
  have hf : halvedFiles.look "bot.json" = .file (halvedFiles.headD ([], "")).2 := by
    decide +kernel
  have hread : Json.read (halvedFiles.headD ([], "")).2 = .ok (.obj halved) := by
    simp only [halvedFiles, Json.read, List.headD_cons, String.reduceAppend, String.reduceToList]
    rfl
  have hp : (compileDocument (.obj halved)).result = .ok halvedProgram :=
    eq_ok_of_toOption (by decide +kernel)
  have hdocument : read ["compile", "bot.json", "--format", "json"] =
      .ok (.compile { workspace := "bot.json", format := .document }) := by decide +kernel
  have hscript : read ["compile", "bot.json", "-o", "out.js"] =
      .ok (.compile { workspace := "bot.json", output := some "out.js" }) := by decide +kernel
  have hvacant : halvedFiles.look "out.js" = .vacant := by decide +kernel
  have hl : (halvedFiles.look "out.js").writable = .ok () := by
    rw [hvacant]
    rfl
  have ht : Service.endpoint? "/compile" = some .compile := by decide +kernel
  have hs : (Service.answer .zero ⟨.obj halved, true⟩ halvedProgram).isEncodable = false := by
    decide +kernel
  have hd := run_eq_compileJson hscript hf hread
  rw [compileJson_of_ok hp, deliver_unencodable (by decide) hl (by decide +kernel)] at hd
  refine ⟨⟨_, hf, hread⟩, ?_, ?_, hvacant, ?_, ?_⟩
  · rw [run_eq_compileJson hdocument hf hread]
    exact Iff.mpr (exit_printing_iff (encodes_document _) rfl) ⟨_, hp⟩
  · rw [Service.respond_eq_compile ht rfl rfl, Service.compile_of_ok hp,
      Service.Reply.send_eq_unsendable hs]
    rfl
  · rw [hd]
  · have hplace : Files.placeOf? "out.js" = some ["out.js"] := by decide
    exact (Run.leaves_of_written (by rw [hd]) hl hplace).1

end BlockMachine.CommandLine
