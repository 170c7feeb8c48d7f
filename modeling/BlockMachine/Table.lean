namespace BlockMachine

abbrev Table (α : Type) := List (String × α)

namespace Table

variable {α : Type}

def get? (t : Table α) (key : String) : Option α := List.lookup key t

def keys (t : Table α) : List String := t.map Prod.fst

def contains (t : Table α) (key : String) : Bool := t.keys.contains key

/-- The value under a key is replaced in its slot; a new key goes to the end. -/
def put (t : Table α) (key : String) (value : α) : Table α :=
  match t with
  | [] => [(key, value)]
  | (k, v) :: rest => if k = key then (key, value) :: rest else (k, v) :: put rest key value

/-- A new key goes to the end; a key that is there keeps its value. -/
def reserve (t : Table α) (key : String) (value : α) : Table α :=
  if contains t key then t else t ++ [(key, value)]

/-- All entries of `u` put into `t`, in order. -/
def putAll (t u : Table α) : Table α := u.foldl (fun acc e => put acc e.1 e.2) t

/-- Entries put one after the other into an empty table. -/
def ofEntries (es : List (String × α)) : Table α := putAll [] es

end Table
end BlockMachine
