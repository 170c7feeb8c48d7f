import BlockMachine.Proofs.Script.Term

namespace BlockMachine.Script

variable {α : Type}

inductive Token (α : Type) where
  | mark (m : Mark)
  | operand (a : α)
deriving DecidableEq, Repr

def Piece.tokens : Piece α → List (Token α)
  | .mark m => [.mark m]
  | .operand a => [.operand a]
  | .negative a => [.mark (.operator .minus), .operand a]

/-- The tokens of a row of symbols. Blanks only separate, and two minus signs together are another
operator of the script, which no term has. -/
def lex : List (Symbol α) → Option (List (Token α))
  | [] => some []
  | .inr a :: ss => (lex ss).map (.operand a :: ·)
  | .inl ' ' :: ss => lex ss
  | .inl '(' :: ss => (lex ss).map (.mark .opening :: ·)
  | .inl ')' :: ss => (lex ss).map (.mark .closing :: ·)
  | .inl ',' :: ss => (lex ss).map (.mark .comma :: ·)
  | .inl '?' :: ss => (lex ss).map (.mark .question :: ·)
  | .inl ':' :: ss => (lex ss).map (.mark .colon :: ·)
  | .inl '*' :: ss => (lex ss).map (.mark (.operator .times) :: ·)
  | .inl '/' :: ss => (lex ss).map (.mark (.operator .divide) :: ·)
  | .inl '+' :: ss => (lex ss).map (.mark (.operator .plus) :: ·)
  | .inl '-' :: .inl '-' :: _ => none
  | .inl '-' :: ss => (lex ss).map (.mark (.operator .minus) :: ·)
  | .inl '<' :: .inl '=' :: ss => (lex ss).map (.mark (.operator .atMost) :: ·)
  | .inl '<' :: ss => (lex ss).map (.mark (.operator .less) :: ·)
  | .inl '>' :: .inl '=' :: ss => (lex ss).map (.mark (.operator .atLeast) :: ·)
  | .inl '>' :: ss => (lex ss).map (.mark (.operator .greater) :: ·)
  | .inl '=' :: .inl '=' :: ss => (lex ss).map (.mark (.operator .equal) :: ·)
  | .inl '!' :: .inl '=' :: ss => (lex ss).map (.mark (.operator .unequal) :: ·)
  | .inl '!' :: ss => (lex ss).map (.mark .bang :: ·)
  | .inl '&' :: .inl '&' :: ss => (lex ss).map (.mark (.operator .and) :: ·)
  | .inl '|' :: .inl '|' :: ss => (lex ss).map (.mark (.operator .or) :: ·)
  | .inl 'M' :: .inl 'a' :: .inl 't' :: .inl 'h' :: .inl '.' :: .inl 'p' :: .inl 'o' :: .inl 'w' ::
      .inl '(' :: ss => (lex ss).map (.mark .power :: ·)
  | .inl _ :: _ => none

section Reading

variable (order : α → Order)

-- Each reader gives what it read and the tokens behind it. That these have become fewer is looked
-- at where the reading goes on, which is what makes it end.
mutual
/-- An operand, a sign and an operand, something negated, something in parentheses, or a power. -/
def readUnary (ts : List (Token α)) : Option (Term α × List (Token α)) :=
  match ts with
  | .operand a :: rest => if (order a).rank = 0 then some (.operand a, rest) else none
  | .mark (.operator .minus) :: .operand a :: rest =>
    if (order a).rank = 0 then some (.negative a, rest) else none
  | .mark .bang :: rest => (readUnary rest).map fun (e, rest) => (.negation e, rest)
  | .mark .opening :: rest =>
    match readWhole rest with
    | some (e, .mark .closing :: rest) => some (e, rest)
    | _ => none
  | .mark .power :: inner =>
    match readWhole inner with
    | some (a, .mark .comma :: rest) =>
      if rest.length < inner.length then
        match readWhole rest with
        | some (b, .mark .closing :: rest) => some (.power a b, rest)
        | _ => none
      else none
    | _ => none
  | _ => none
termination_by (ts.length, 0)

/-- A term of a level: one of the level below, or an operand of the level itself, and all that the
operators of the level join to it. -/
def readLevel (level : Nat) (ts : List (Token α)) : Option (Term α × List (Token α)) :=
  match level with
  | 0 => readUnary ts
  | below + 1 =>
    match readHead below ts with
    | some (e, rest) => if rest.length < ts.length then readChain (below + 1) e rest else none
    | none => none
termination_by (ts.length, 2 * level + 1)

def readHead (below : Nat) (ts : List (Token α)) : Option (Term α × List (Token α)) :=
  match ts with
  | .operand a :: rest =>
    if (order a).rank = below + 1 then some (.operand a, rest)
    else readLevel below (.operand a :: rest)
  | ts => readLevel below ts
termination_by (ts.length, 2 * below + 2)

/-- What the operators of a level join to a term, from left to right. -/
def readChain (level : Nat) (e : Term α) (ts : List (Token α)) :
    Option (Term α × List (Token α)) :=
  match level, ts with
  | below + 1, .mark (.operator o) :: rest =>
    if o.level = below + 1 then
      match readLevel below rest with
      | some (b, left) =>
        if left.length < rest.length then readChain (below + 1) (.binary o e b) left else none
      | none => none
    else some (e, .mark (.operator o) :: rest)
  | _, ts => some (e, ts)
termination_by (ts.length, 0)

/-- A term of any level, and the two branches behind it if it is a condition. -/
def readWhole (ts : List (Token α)) : Option (Term α × List (Token α)) :=
  match readLevel 6 ts with
  | some (c, .mark .question :: rest) =>
    if rest.length < ts.length then
      match readWhole rest with
      | some (a, .mark .colon :: left) =>
        if left.length < rest.length then
          (readWhole left).map fun (b, left) => (.choice c a b, left)
        else none
      | _ => none
    else none
  | other => other
termination_by (ts.length, 14)
end

/-- The term that a row of tokens is, as a whole. -/
def parse (ts : List (Token α)) : Option (Term α) :=
  match readWhole order ts with
  | some (e, []) => some e
  | _ => none

end Reading
end BlockMachine.Script
