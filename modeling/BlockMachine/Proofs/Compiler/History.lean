import BlockMachine.Proofs.Compiler.Growth
import BlockMachine.Proofs.Compiler.Steps

namespace BlockMachine

namespace Deed

def key (deed : Deed) : String := identifier deed.name

def registered? (key : String) : Deed → Option String
  | .reserve _ _ => none
  | .register name text => if identifier name = key then some text else none

def reserved? (key : String) : Deed → Option String
  | .reserve name text => if identifier name = key then some text else none
  | .register _ _ => none

/-- The text under a key after some work on an empty table. -/
def text? (ds : List Deed) (key : String) : Option String :=
  (ds.filterMap (registered? key)).getLast?.or (ds.filterMap (reserved? key)).head?

theorem text?_append_register (ds : List Deed) (name text key : String) :
    text? (ds ++ [.register name text]) key =
      if key = identifier name then some text else text? ds key := by
  have hr : [Deed.register name text].filterMap (reserved? key) = [] := rfl
  rw [text?, List.filterMap_append, List.filterMap_append, hr, List.append_nil]
  split
  · rename_i h
    have hs : [Deed.register name text].filterMap (registered? key) = [text] := by
      simp [registered?, h]
    rw [hs, List.getLast?_concat]
    rfl
  · rename_i h
    have hs : [Deed.register name text].filterMap (registered? key) = [] := by
      simp [registered?, Ne.symm h]
    rw [hs, List.append_nil]
    rfl

theorem text?_append_reserve (ds : List Deed) (name text key : String) :
    text? (ds ++ [.reserve name text]) key =
      (text? ds key).or (if key = identifier name then some text else none) := by
  have hs : [Deed.reserve name text].filterMap (registered? key) = [] := rfl
  have hr : [Deed.reserve name text].filterMap (reserved? key) =
      (if key = identifier name then some text else none).toList := by
    by_cases h : key = identifier name
    · simp [reserved?, h]
    · simp [reserved?, h, Ne.symm h]
  rw [text?, text?, List.filterMap_append, List.filterMap_append, hs, hr, List.append_nil,
    List.head?_append, Option.or_assoc]
  split <;> rfl

theorem entries_apply {d d' : Definitions} (h : d.entries = d'.entries) (deed : Deed) :
    (deed.apply d).entries = (deed.apply d').entries := by
  cases deed with
  | reserve name text => exact congrArg (Table.reserve · (identifier name) text) h
  | register name text => exact congrArg (Table.put · (identifier name) text) h

end Deed

namespace Definitions

theorem after_concat (d : Definitions) (ds : List Deed) (deed : Deed) :
    d.after (ds ++ [deed]) = deed.apply (d.after ds) :=
  after_append d ds [deed]

theorem keys_of_deeds (ds : List Deed) :
    Table.keys (({} : Definitions).after ds).entries = (ds.map Deed.key).eraseDups := by
  induction ds using List.reverseRecOn with
  | nil => rfl
  | append_singleton ds deed ih =>
    rw [after_concat, keys_apply, ih, List.map_append, List.map_singleton,
      eraseDups_append_singleton]
    simp only [List.mem_eraseDups]
    rfl

theorem get?_of_deeds (ds : List Deed) (key : String) :
    Table.get? (({} : Definitions).after ds).entries key = Deed.text? ds key := by
  induction ds using List.reverseRecOn with
  | nil => rfl
  | append_singleton ds deed ih =>
    rw [after_concat]
    cases deed with
    | reserve name text =>
      rw [Deed.text?_append_reserve, ← ih]
      exact Table.get?_reserve _ _ _
    | register name text =>
      rw [Deed.text?_append_register, ← ih]
      exact Table.get?_put _ _ _

theorem text_of_mem {ds : List Deed} {key text : String}
    (h : (key, text) ∈ (({} : Definitions).after ds).entries) : Deed.text? ds key = some text := by
  rw [← get?_of_deeds]
  apply Table.get?_of_mem _ h
  rw [keys_of_deeds]
  exact nodup_eraseDups _

/-- What a table of definitions can be asked for. -/
inductive Request where
  | register (name text : String)
  | reserve (name text : String)
  | call (name arguments : String)
  | contains (name : String)
  | drain
deriving DecidableEq

inductive Answer where
  | key (k : String)
  | expression (e : Expression)
  | truth (b : Bool)
  | entries (t : Table String)

namespace Request

variable {ρ : Type}

def run : Request → Compile ρ Answer
  | register name text => do
    Compile.register name text
    return .key (identifier name)
  | reserve name text => do
    Compile.reserve name text
    return .key (identifier name)
  | call name arguments => return .expression (Definitions.call name arguments)
  | contains name => return .truth ((← get).definitions.contains name)
  | drain => return .entries (← Compile.drain)

/-- The context after some requests, one after the other, whether or not each of them succeeds. -/
def session (rs : List Request) (c : Context ρ) : Context ρ :=
  rs.foldl (fun c r => Compile.left (r.run c)) c

def deed? : Request → Option Deed
  | register name text => some (.register name text)
  | reserve name text => some (.reserve name text)
  | call _ _ | contains _ | drain => none

/-- What some requests enter, in their order. -/
def deeds (rs : List Request) : List Deed := rs.filterMap deed?

theorem drain_of_drained {c : Context ρ} (h : c.definitions.drained = true) :
    drain.run c = .error (.defect .alreadyDrained) c := by
  change EStateM.bind Compile.drain _ c = _
  rw [EStateM.bind, Compile.drain_of_drained h]

theorem drain_of_fresh {c : Context ρ} (h : c.definitions.drained = false) :
    drain.run c =
      .ok (.entries c.definitions.entries) { c with definitions.drained := true } := by
  change EStateM.bind Compile.drain _ c = _
  rw [EStateM.bind, Compile.drain_of_fresh h]
  rfl

theorem entries_left (r : Request) (c : Context ρ) :
    (Compile.left (r.run c)).definitions.entries =
      (c.definitions.after r.deed?.toList).entries := by
  cases r with
  | register | reserve | call | contains => rfl
  | drain =>
    cases h : c.definitions.drained with
    | true =>
      rw [drain_of_drained h]
      rfl
    | false =>
      rw [drain_of_fresh h]
      rfl

theorem drained_left (r : Request) (c : Context ρ) :
    (Compile.left (r.run c)).definitions.drained = true ↔
      c.definitions.drained = true ∨ r = drain := by
  cases r with
  | register | reserve | call | contains => exact (or_iff_left (by simp)).symm
  | drain =>
    cases h : c.definitions.drained with
    | true => simp [drain_of_drained h, Compile.left, h]
    | false => simp [drain_of_fresh h, Compile.left]

theorem session_concat (rs : List Request) (r : Request) (c : Context ρ) :
    session (rs ++ [r]) c = Compile.left (r.run (session rs c)) :=
  List.foldl_append

theorem entries_session (rs : List Request) (c : Context ρ) :
    (session rs c).definitions.entries = (c.definitions.after (deeds rs)).entries := by
  induction rs using List.reverseRecOn with
  | nil => rfl
  | append_singleton rs r ih =>
    rw [session_concat, entries_left, deeds, List.filterMap_append, after_append]
    cases hd : r.deed? with
    | none =>
      rw [List.filterMap_cons_none hd]
      exact ih
    | some deed =>
      rw [List.filterMap_cons_some hd]
      exact deed.entries_apply ih

theorem drained_session (rs : List Request) (c : Context ρ) :
    (session rs c).definitions.drained = true ↔ c.definitions.drained = true ∨ drain ∈ rs := by
  induction rs using List.reverseRecOn with
  | nil => simp [session]
  | append_singleton rs r ih =>
    rw [session_concat, drained_left, ih, List.mem_append, List.mem_singleton, or_assoc,
      eq_comm (a := r)]

end Request

/-- A table that was empty before some requests, whatever they were. If it was not handed out yet,
then now it is, with the names that were entered in the order in which they first came up, and with
the texts that they were given last, or that were kept for them first. If it was, this fails and
changes nothing. A name is there if one with the same identifier was entered, and a call needs no
entry and makes none. -/
theorem answers_from_history {ρ : Type} (c : Context ρ) (rs : List Request) :
    let after := Request.session rs { c with definitions := {} }
    let entered := Request.deeds rs
    (.drain ∉ rs → ∃ entries : Table String,
      Request.drain.run after =
        .ok (.entries entries) { after with definitions.drained := true } ∧
      Table.keys entries = (entered.map Deed.key).eraseDups ∧
      ∀ key text, (key, text) ∈ entries →
        some text = (entered.filterMap (Deed.registered? key)).getLast?.or
          (entered.filterMap (Deed.reserved? key)).head?) ∧
    (.drain ∈ rs → Request.drain.run after = .error (.defect .alreadyDrained) after) ∧
    (∀ name, ∃ b : Bool, (Request.contains name).run after = .ok (.truth b) after ∧
      (b = true ↔ ∃ deed ∈ entered, deed.key = identifier name)) ∧
    ∀ name arguments, (Request.call name arguments).run after =
      .ok (.expression ⟨identifier name ++ "(" ++ arguments ++ ")", .functionCall⟩) after := by
  intro after entered
  have he : after.definitions.entries = (({} : Definitions).after entered).entries :=
    Request.entries_session rs _
  have hd : after.definitions.drained = true ↔ .drain ∈ rs :=
    (Request.drained_session rs _).trans (or_iff_right Bool.false_ne_true)
  refine ⟨fun h => ?_, fun h => Request.drain_of_drained (hd.2 h), fun name => ?_, fun _ _ => rfl⟩
  · have hn : after.definitions.drained = false := by
      rw [← Bool.not_eq_true, hd]
      exact h
    refine ⟨after.definitions.entries, Request.drain_of_fresh hn, ?_, ?_⟩
    · rw [he, keys_of_deeds]
    · intro key text hm
      rw [he] at hm
      exact (text_of_mem hm).symm
  · refine ⟨after.definitions.contains name, rfl, ?_⟩
    rw [contains, Table.contains, List.contains_iff_mem, he, keys_of_deeds, List.mem_eraseDups,
      List.mem_map]

/-- Two names are each entered twice, under other spellings and in other ways. -/
def scribbled : List Request :=
  [.reserve "max range" "1", .call "aim" "x", .register "2nd" "2", .contains "2nd",
    .register "max-range" "3", .reserve "_2nd" "4"]

theorem scribbled_answers :
    let after := Request.session scribbled ({} : Context Tree)
    let later := Request.session (scribbled ++ [.drain, .register "aim" "5"]) ({} : Context Tree)
    (.drain ∉ scribbled ∧ ∃ entries : Table String,
      Request.drain.run after =
        .ok (.entries entries) { after with definitions.drained := true } ∧
      Table.keys entries = ["max_range", "_2nd"] ∧
      (∀ text, ("max_range", text) ∈ entries → text = "3") ∧
      ∀ text, ("_2nd", text) ∈ entries → text = "2") ∧
    Request.drain.run later = .error (.defect .alreadyDrained) later := by
  have hn : Request.drain ∉ scribbled := by decide
  have hl : Request.drain ∈ scribbled ++ [.drain, .register "aim" "5"] := by decide
  obtain ⟨entries, hr, hk, ht⟩ := (answers_from_history ({} : Context Tree) scribbled).1 hn
  refine ⟨⟨hn, entries, hr, hk, fun text hm => ?_, fun text hm => ?_⟩,
    (answers_from_history ({} : Context Tree) _).2.1 hl⟩
  · exact Option.some.inj (ht _ _ hm)
  · exact Option.some.inj (ht _ _ hm)

end Definitions
end BlockMachine
