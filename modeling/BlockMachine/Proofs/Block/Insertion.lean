import BlockMachine.Proofs.Block.Stack
import Mathlib.Data.List.Forall2

namespace BlockMachine.Tree

def withNext (t : Tree) (next : Option Tree) : Tree :=
  .node t.label t.block.values t.block.statements next

/-- The stack with a block put in below its first `i` blocks, or at its end if it has no more. -/
def insertAt (x : Tree) : Nat → Option Tree → Option Tree
  | 0, top => some (x.withNext top)
  | _ + 1, none => some (x.withNext none)
  | i + 1, some t => some (t.withNext (insertAt x i t.next))

/-- The stack with one of its blocks changed, if it has that many. -/
def changeAt (f : Tree → Tree) : Nat → Option Tree → Option Tree
  | _, none => none
  | 0, some t => some ((f t).withNext t.next)
  | i + 1, some t => some (t.withNext (changeAt f i t.next))

/-- The block with another stack in one of its sockets. -/
def changeStack (socket : String) (f : Option Tree → Option Tree) (t : Tree) : Tree :=
  .node t.label t.block.values (Table.put t.block.statements socket (f (t.block.head? socket)))
    t.next

/-- The program with a block put into its global transitions. -/
def insertGlobal (x : Tree) (i : Nat) : Tree → Tree :=
  changeStack "GLOBAL_TRANSITIONS" (insertAt x i)

/-- The program with a block put into the transitions of one of its states. -/
def insertLocal (x : Tree) (state i : Nat) : Tree → Tree :=
  changeStack "STATES" (changeAt (changeStack "TRANSITIONS" (insertAt x i)) state)

section

variable (t : Tree) (next : Option Tree)

theorem next_block : t.block.next = t.next := by
  cases t
  rfl

theorem withNext_next : t.withNext t.next = t := by
  cases t
  rfl

theorem withNext_withNext (below : Option Tree) :
    (t.withNext below).withNext next = t.withNext next := rfl

theorem head?_withNext (socket : String) :
    (t.withNext next).block.head? socket = t.block.head? socket := rfl

@[simp] theorem next_withNext : (t.withNext next).next = next := rfl

theorem stackedOption_none : stackedOption none = [] := by
  rw [stackedOption]

theorem stackedOption_some : stackedOption (some t) = t :: stackedOption t.next := by
  rw [stackedOption, stacked_eq, next_block]

end

section

variable (socket : String) (f : Option Tree → Option Tree) (t : Tree)

theorem toLabel_changeStack : (changeStack socket f t).block.toLabel = t.block.toLabel := by
  rw [toLabel_block, toLabel_block]
  rfl

theorem head?_changeStack_self :
    (changeStack socket f t).block.head? socket = f (t.block.head? socket) := by
  have hg : Table.get? (changeStack socket f t).block.statements socket =
      some (f (t.block.head? socket)) := by
    rw [changeStack, block, Table.get?_put, if_pos rfl]
  rw [Block.head?, hg]
  rfl

variable {socket} in
theorem head?_changeStack_of_ne {name : String} (h : name ≠ socket) :
    (changeStack socket f t).block.head? name = t.block.head? name := by
  have hg : Table.get? (changeStack socket f t).block.statements name =
      Table.get? t.block.statements name := by
    rw [changeStack, block, Table.get?_put, if_neg h]
  rw [Block.head?, hg]
  rfl

end

theorem stackedOption_insertAt (x : Tree) (i : Nat) (top : Option Tree) :
    ∃ before next, stackedOption (insertAt x i top) =
        before ++ x.withNext next :: (stackedOption top).drop i ∧
      List.Forall₂ (fun t t' => ∃ next, t' = t.withNext next) ((stackedOption top).take i)
        before := by
  induction i generalizing top with
  | zero =>
    refine ⟨[], top, ?_, .nil⟩
    rw [insertAt, stackedOption_some, next_withNext]
    rfl
  | succ i ih =>
    cases top with
    | none =>
      refine ⟨[], none, ?_, ?_⟩
      · rw [insertAt, stackedOption_some, next_withNext, stackedOption_none, List.drop_nil]
        rfl
      · rw [stackedOption_none, List.take_nil]
        exact .nil
    | some t =>
      obtain ⟨before, next, hs, hb⟩ := ih t.next
      refine ⟨t.withNext (insertAt x i t.next) :: before, next, ?_, ?_⟩
      · rw [insertAt, stackedOption_some, next_withNext, hs, stackedOption_some,
          List.drop_succ_cons, List.cons_append]
      · rw [stackedOption_some, List.take_succ_cons]
        exact .cons ⟨_, rfl⟩ hb

theorem stackedOption_changeAt (f : Tree → Tree) (i : Nat) (top : Option Tree) :
    List.Forall₂ (fun t t' => ∃ next, t' = t.withNext next ∨ t' = (f t).withNext next)
      (stackedOption top) (stackedOption (changeAt f i top)) := by
  have hrefl (ts : List Tree) :
      List.Forall₂ (fun t t' => ∃ next, t' = t.withNext next ∨ t' = (f t).withNext next) ts ts := by
    apply List.forall₂_same.2
    rintro ⟨label, values, statements, next⟩ -
    exact ⟨next, .inl rfl⟩
  induction i generalizing top with
  | zero =>
    cases top with
    | none => exact hrefl _
    | some t =>
      rw [changeAt, stackedOption_some, stackedOption_some, next_withNext]
      exact .cons ⟨_, .inr rfl⟩ (hrefl _)
  | succ i ih =>
    cases top with
    | none => exact hrefl _
    | some t =>
      rw [changeAt, stackedOption_some, stackedOption_some, next_withNext]
      exact .cons ⟨_, .inl rfl⟩ (ih _)

end BlockMachine.Tree
