import BlockMachine.Fault

namespace BlockMachine.Block

variable {ρ : Type}

def field? (b : Block ρ) (name : String) : Option FieldValue := Table.get? b.fields name

def missing (b : Block ρ) (name : String) : Fault := .rule (.missingField name b.site)

def field (b : Block ρ) (name : String) : Except Fault FieldValue :=
  match b.field? name with
  | some v => .ok v
  | none => .error (b.missing name)

/-- The words of a field that has to be there. -/
def fieldText (b : Block ρ) (name : String) : Except Fault String :=
  (b.field name).map FieldValue.display

def fieldTextD (b : Block ρ) (name default : String) : String :=
  ((b.field? name).map FieldValue.display).getD default

def state? (b : Block ρ) (key : String) : Option Json :=
  Table.get? (b.extraState.getD []) key

/-- A count of sockets in the extra state: a natural number, zero when there is none. -/
def count (b : Block ρ) (key : String) : Except Fault Nat :=
  match b.state? key with
  | none => .ok 0
  | some (.int n) =>
    if n < 0 then .error (.rule (.invalidCount key (.int n) b.site)) else .ok n.toNat
  | some other => .error (.rule (.invalidCount key other b.site))

def socketNumber (digits : List Nat) : Except Fault Nat :=
  match Text.boundedValue? digits with
  | some n => .ok n
  | none => .error (.defect .numeralTooLong)

end BlockMachine.Block
