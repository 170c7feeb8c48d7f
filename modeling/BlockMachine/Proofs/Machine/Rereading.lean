import BlockMachine.Machine.Script
import BlockMachine.Proofs.Machine.Document
import BlockMachine.Proofs.Service.Reports

namespace BlockMachine

namespace Json

variable {α : Type} {read? : Json → Option α} {write : α → Json}

theorem text?_str (s : String) : text? (.str s) = some s := rfl

theorem list?_map (h : ∀ a, read? (write a) = some a) (as : List α) :
    list? read? (.arr (as.map write)) = some as := by
  change (as.map write).mapM read? = some as
  induction as with
  | nil => rfl
  | cons a as ih =>
    rw [List.map_cons, List.mapM_cons, h, ih]
    rfl

theorem table?_map (h : ∀ a, read? (write a) = some a) (t : Table α) :
    table? read? (.obj (t.map fun e => (e.1, write e.2))) = some t := by
  change (t.map fun e => (e.1, write e.2)).mapM (fun e => (read? e.2).map (e.1, ·)) = some t
  induction t with
  | nil => rfl
  | cons e t ih =>
    rw [List.map_cons, List.mapM_cons, h, ih]
    rfl

theorem required_of_anyOf? {j m : Json} {keys : List String} (h : j.anyOf? keys = some m) :
    j.required read? keys = read? m := by
  rw [required, h]
  rfl

theorem optional_of_anyOf? {j m : Json} {keys : List String} (h : j.anyOf? keys = some m)
    (default : α) : j.optional read? default keys = read? m := by
  rw [optional, h]

end Json

theorem Tier.ofJson?_text (t : Tier) : ofJson? (.str t.text) = some t := by
  cases t <;> rfl

theorem Order.ofJson?_level (o : Order) : ofJson? (.float o.level) = some o := by
  have hall : ∀ o ∈ all, ofJson? (.float o.level) = some o := by decide +kernel
  exact hall o o.mem_all

theorem Expression.ofJson?_toJson (e : Expression) : ofJson? e.toJson = some e := by
  have ht : e.toJson.required Json.text? ["text"] = some e.text := rfl
  have ho : e.toJson.optional Order.ofJson? .atomic ["order"] = some e.order :=
    (Json.optional_of_anyOf? rfl _).trans e.order.ofJson?_level
  rw [ofJson?, ht, ho]
  rfl

theorem Transition.ofJson?_toJson (t : Transition) : ofJson? t.toJson = some t := by
  have hg : t.toJson.required Json.text? ["target"] = some t.target := rfl
  have hc : t.toJson.required Expression.ofJson? ["condition"] = some t.condition :=
    (Json.required_of_anyOf? rfl).trans t.condition.ofJson?_toJson
  have hd : t.toJson.optional Json.text? "" ["description"] = some t.description := rfl
  have ht : t.toJson.optional Tier.ofJson? .ofState ["tier"] = some t.tier :=
    (Json.optional_of_anyOf? rfl _).trans t.tier.ofJson?_text
  rw [ofJson?, hg, hc, hd, ht]
  rfl

theorem list?_transitions (ts : List Transition) :
    Json.list? Transition.ofJson? (.arr (ts.map Transition.toJson)) = some ts :=
  Json.list?_map Transition.ofJson?_toJson ts

theorem State.ofJson?_toJson (s : State) : ofJson? s.toJson = some s := by
  have hname : s.toJson.required Json.text? ["name"] = some s.name := rfl
  have henter : s.toJson.optional Json.text? "" ["onEnter", "on_enter"] = some s.onEnter := rfl
  have hexecute : s.toJson.optional Json.text? "" ["onExecute", "on_execute"] = some s.onExecute :=
    rfl
  have hexit : s.toJson.optional Json.text? "" ["onExit", "on_exit"] = some s.onExit := rfl
  have htransitions : s.toJson.optional (Json.list? Transition.ofJson?) [] ["transitions"] =
      some s.transitions :=
    (Json.optional_of_anyOf? rfl _).trans (list?_transitions s.transitions)
  have hnames : s.toJson.optional interruptions? none ["interruptibleBy", "interruptible_by"] =
      some s.interruptibleBy := by
    apply (Json.optional_of_anyOf? rfl _).trans
    -- A state without a list is saved with a null, and one with an empty list is not.
    cases s.interruptibleBy with
    | none => rfl
    | some names => exact congrArg (Option.map some) (Json.list?_map Json.text?_str names)
  rw [ofJson?, hname, henter, hexecute, hexit, htransitions, hnames]
  rfl

theorem Program.ofJson?_toJson (p : Program) : ofJson? p.toJson = some p := by
  have hdefinitions : p.toJson.optional (Json.table? Json.text?) [] ["definitions"] =
      some p.definitions :=
    (Json.optional_of_anyOf? rfl _).trans (Json.table?_map Json.text?_str p.definitions)
  have hinitial : p.toJson.required Json.text? ["initialState", "initial_state"] =
      some p.initialState := rfl
  have hstates : p.toJson.optional (Json.table? State.ofJson?) [] ["states"] = some p.states :=
    (Json.optional_of_anyOf? rfl _).trans (Json.table?_map State.ofJson?_toJson p.states)
  have htactical : p.toJson.optional (Json.list? Transition.ofJson?) []
      ["tacticalTransitions", "tactical_transitions"] = some p.tactical :=
    (Json.optional_of_anyOf? rfl _).trans (list?_transitions p.tactical)
  have hemergency : p.toJson.optional (Json.list? Transition.ofJson?) []
      ["emergencyTransitions", "emergency_transitions"] = some p.emergency :=
    (Json.optional_of_anyOf? rfl _).trans (list?_transitions p.emergency)
  rw [ofJson?, hdefinitions, hinitial, hstates, htactical, hemergency]
  rfl

namespace Service

variable {r : Reply} {j : Json} {p : Program} {code : String} {elapsed x : Binary64}

end Service

end BlockMachine
