import BlockMachine.Compiler.Value
import BlockMachine.Proofs.Except
import BlockMachine.Proofs.Table

namespace BlockMachine

namespace Block

variable {ρ : Type} {b : Block ρ}

/-- What the author has put into a field of the block, or nothing. -/
inductive Says (b : Block ρ) : String → Prop
  | nothing : Says b ""
  | field {name : String} {v : FieldValue} : b.field? name = some v → Says b v.display

theorem says_of_fieldText {name s : String} (h : b.fieldText name = .ok s) : b.Says s := by
  rw [fieldText, field] at h
  cases hv : b.field? name with
  | none =>
    rw [hv] at h
    cases h
  | some v =>
    rw [hv] at h
    cases h
    exact .field hv

theorem says_fieldTextD (b : Block ρ) (name : String) : b.Says (b.fieldTextD name "") := by
  rw [fieldTextD]
  cases hv : b.field? name with
  | none => exact .nothing
  | some v => exact .field hv

end Block

namespace ValueRule

variable {ρ : Type} {b : Block ρ}

/-- The operators that stand between two operands. -/
def operations : Table (String × Order) := comparisons ++ (connectives ++ arithmetics)

/-- What each rule can make of a block. -/
inductive Makes (b : Block ρ) : ValueRule → Template → Prop
  | inline (parts : List Part) (order : Order) : Makes b (.inline parts order) ⟨parts, order, none⟩
  | boolean {word : String} : word = "true" ∨ word = "false" → Makes b .boolean (atom word)
  | number (x : Binary64) : Makes b .number (numberTemplate x)
  | text {s : String} : b.Says s → Makes b .text (atom (quoted s))
  | binary {rule : ValueRule} {name operator default : String} {order : Order} :
    rule = .comparison ∨ rule = .connective ∨ rule = .arithmetic →
    (name, operator, order) ∈ operations → default = "0" ∨ default = "true" ∨ default = "false" →
    Makes b rule (binary operator order default)
  | power : Makes b .arithmetic powerTemplate
  | list (count : Nat) : Makes b .list (listTemplate count)
  | gameConstant (name : String) :
    Makes b .gameConstant ⟨[.text ("context.constants." ++ identifier name)], .member, none⟩
  | coordinate {name : String} : name = "x" ∨ name = "y" →
    Makes b .coordinate
      ⟨[.slot "POSITION" .member "\x7b x: 0, y: 0 \x7d", .text ("." ++ name)], .member, none⟩
  | property {name : String} : b.Says name →
    Makes b .property
      ⟨[.slot "OBJECT" .member "\x7b\x7d", .text ("[" ++ quoted name ++ "]")], .member, none⟩
  | memory {key : String} : b.Says key →
    Makes b .memory
      ⟨[.text ("(api.getMemory() || \x7b\x7d)[" ++ quoted key ++ "]")], .member, none⟩
  | localVariable (name : String) : Makes b .localVariable (atom (identifier name))
  | stateName {name : String} : b.Says name → Makes b .stateName (atom (quoted name))
  | constant (name : String) :
    Makes b .constant
      { atom (identifier name) with
        reserves := some (name, "const " ++ identifier name ++ " = undefined;") }
  | call (name : String) :
    Makes b .functionCall
      ⟨[.text (identifier name ++ "(..."), .slot "ARGS" .atomic "[]", .text ")"], .functionCall,
        none⟩
  | unnamedCall :
    Makes b .functionCall
      ⟨[.slot "ARGS" .atomic "[]", .fail (b.missing "NAME")], .functionCall, none⟩

theorem connectiveDefault_cases (b : Block ρ) (order : Order) :
    connectiveDefault b order = "true" ∨ connectiveDefault b order = "false" := by
  rw [connectiveDefault]
  split
  · exact .inr rfl
  · split
    · exact .inl rfl
    · exact .inr rfl

theorem makes_callTemplate (b : Block ρ) : Makes b .functionCall (callTemplate b) := by
  rw [callTemplate, Block.fieldText, Block.field]
  cases b.field? "NAME" with
  | none => exact .unnamedCall
  | some v => exact .call _

theorem makes_of_template {rule : ValueRule} {t : Template} (h : rule.template b = .ok t) :
    rule.Makes b t := by
  cases rule with
  | inline parts order =>
    cases h
    exact .inline parts order
  | boolean =>
    cases h
    refine .boolean ?_
    split
    · exact .inl rfl
    · exact .inr rfl
  | number =>
    obtain ⟨x, -, rfl⟩ := map_eq_ok.1 h
    exact .number x
  | text =>
    cases h
    exact .text (b.says_fieldTextD "TEXT")
  | comparison =>
    rw [template] at h
    split at h
    · rename_i ho
      cases h
      have hm := List.mem_append_left (connectives ++ arithmetics) (Table.mem_of_get? ho)
      exact .binary (.inl rfl) hm (.inl rfl)
    · cases h
  | connective =>
    rw [template] at h
    split at h
    · rename_i ho
      cases h
      have hm := List.mem_append_left arithmetics (Table.mem_of_get? ho)
      exact .binary (.inr (.inl rfl)) (List.mem_append_right comparisons hm)
        (.inr (connectiveDefault_cases b _))
    · cases h
  | arithmetic =>
    rw [template] at h
    split at h
    · cases h
      exact .power
    · split at h
      · rename_i ho
        cases h
        have hm := List.mem_append_right connectives (Table.mem_of_get? ho)
        exact .binary (.inr (.inr rfl)) (List.mem_append_right comparisons hm) (.inl rfl)
      · cases h
  | list =>
    obtain ⟨count, -, rfl⟩ := map_eq_ok.1 h
    exact .list count
  | gameConstant =>
    obtain ⟨name, -, rfl⟩ := map_eq_ok.1 h
    exact .gameConstant name
  | coordinate =>
    rw [template, coordinateTemplate] at h
    split at h
    · rename_i hn
      cases h
      exact .coordinate hn
    · cases h
  | property =>
    obtain ⟨name, hn, rfl⟩ := map_eq_ok.1 h
    exact .property (Block.says_of_fieldText hn)
  | memory =>
    obtain ⟨key, hk, rfl⟩ := map_eq_ok.1 h
    exact .memory (Block.says_of_fieldText hk)
  | localVariable =>
    obtain ⟨name, -, rfl⟩ := map_eq_ok.1 h
    exact .localVariable name
  | stateName =>
    obtain ⟨name, hn, rfl⟩ := map_eq_ok.1 h
    exact .stateName (Block.says_of_fieldText hn)
  | constant =>
    obtain ⟨name, -, rfl⟩ := map_eq_ok.1 h
    exact .constant name
  | functionCall =>
    cases h
    exact makes_callTemplate b

end ValueRule

end BlockMachine
