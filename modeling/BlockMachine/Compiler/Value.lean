import BlockMachine.Block.Access
import BlockMachine.Compiler.Definitions
import BlockMachine.Number.Numeral
import BlockMachine.Text.Lowercase
import BlockMachine.Text.Quoted

namespace BlockMachine

/-- A part of the text of a block. A slot is filled with the block in a socket, as it stands in a
context of the given order, or with `default`. -/
inductive Part where
  | text (s : String)
  | slot (socket : String) (context : Order) (default : String)
  | fail (f : Fault)

/-- The parts of an expression from left to right, how tightly it binds, and the declaration that a
name in it needs. -/
structure Template where
  parts : List Part
  order : Order
  reserves : Option (String × String) := none

inductive ValueRule where
  | inline (parts : List Part) (order : Order)
  | boolean
  | number
  | text
  | comparison
  | connective
  | arithmetic
  | list
  | gameConstant
  | coordinate
  | property
  | memory
  | localVariable
  | stateName
  | constant
  | functionCall

namespace ValueRule

variable {ρ : Type}

def comparisons : Table (String × Order) :=
  [("EQ", "==", .equality), ("NEQ", "!=", .equality), ("LT", "<", .relational),
    ("LTE", "<=", .relational), ("GT", ">", .relational), ("GTE", ">=", .relational)]

def connectives : Table (String × Order) :=
  [("AND", "&&", .logicalAnd), ("OR", "||", .logicalOr)]

def arithmetics : Table (String × Order) :=
  [("ADD", "+", .addition), ("MINUS", "-", .subtraction), ("MULTIPLY", "*", .multiplication),
    ("DIVIDE", "/", .division)]

/-- Two operands with an operator between them. -/
def binary (operator : String) (order : Order) (default : String) : Template where
  parts := [.slot "A" order default, .text (" " ++ operator ++ " "), .slot "B" order default]
  order := order

def atom (text : String) : Template := ⟨[.text text], .atomic, none⟩

/-- An empty operand is the neutral one; with both empty the whole is false. -/
def connectiveDefault (b : Block ρ) (order : Order) : String :=
  if (b.value? "A").isNone && (b.value? "B").isNone then "false"
  else if order = .logicalAnd then "true" else "false"

/-- The number in a field; a field that is absent holds zero. -/
def numberOf (b : Block ρ) : Except Fault Binary64 :=
  match b.field? "NUM" with
  | none => .ok .zero
  | some (.int n) => (Binary64.ofInt? n).elim (.error (.defect .numberTooLarge)) .ok
  | some (.float x) => .ok x
  | some (.bool v) => .ok (.ofBool v)
  | some (.text s) =>
    match Numeral.ofField? s with
    | some x => .ok x
    | none => .error (.rule (.invalidNumber s b.site))

/-- The numeral of a number; integers are written in full. -/
def numeral : Binary64 → String
  | .nan => "NaN"
  | .infinite negative => if negative then "-Infinity" else "Infinity"
  | x =>
    match x.toInt? with
    | some n => decimalText n
    | none => x.display

def numberTemplate (x : Binary64) : Template :=
  ⟨[.text (numeral x)], if x.isNegative then .unaryNegation else .atomic, none⟩

/-- The number of slots: what the extra state says, or more if a numbered socket lies beyond. -/
def slotCount (b : Block ρ) : Except Fault Nat := do
  let numbers ←
    ((Table.keys b.values).filterMap (Catalog.socketDigits? "ADD")).mapM Block.socketNumber
  let count ← b.count "itemCount"
  return numbers.foldl (fun m i => max m (i + 1)) count

def listSlot (i : Nat) : Part := .slot ("ADD" ++ decimalText i) .comma "null"

def listTemplate (count : Nat) : Template :=
  ⟨.text "[" :: ((List.range count).map listSlot).intersperse (.text ", ") ++ [.text "]"], .atomic,
    none⟩

def coordinateTemplate (b : Block ρ) : Except Fault Template :=
  let name := lowercased (b.fieldTextD "COORDINATE" "X")
  if name = "x" ∨ name = "y" then
    .ok ⟨[.slot "POSITION" .member "\x7b x: 0, y: 0 \x7d", .text ("." ++ name)], .member, none⟩
  else .error (.rule (.unknownCoordinate name b.site))

/-- The arguments are compiled before the name is looked up. -/
def callTemplate (b : Block ρ) : Template :=
  match b.fieldText "NAME" with
  | .ok name =>
    ⟨[.text (identifier name ++ "(..."), .slot "ARGS" .atomic "[]", .text ")"], .functionCall, none⟩
  | .error f => ⟨[.slot "ARGS" .atomic "[]", .fail f], .functionCall, none⟩

def powerTemplate : Template :=
  ⟨[.text "Math.pow(", .slot "A" .comma "0", .text ", ", .slot "B" .comma "0", .text ")"],
    .functionCall, none⟩

def template (rule : ValueRule) (b : Block ρ) : Except Fault Template :=
  match rule with
  | .inline parts order => .ok ⟨parts, order, none⟩
  | .boolean =>
    .ok (atom (if (b.fieldTextD "BOOL" "TRUE").toList.map Char.toUpper = "TRUE".toList then "true"
      else "false"))
  | .number => (numberOf b).map numberTemplate
  | .text => .ok (atom (quoted (b.fieldTextD "TEXT" "")))
  | .comparison =>
    let name := b.fieldTextD "OP" "EQ"
    match Table.get? comparisons name with
    | some (operator, order) => .ok (binary operator order "0")
    | none => .error (.rule (.unknownComparison name b.site))
  | .connective =>
    let name := b.fieldTextD "OP" "AND"
    match Table.get? connectives name with
    | some (operator, order) => .ok (binary operator order (connectiveDefault b order))
    | none => .error (.rule (.unknownConnective name b.site))
  | .arithmetic =>
    let name := b.fieldTextD "OP" "ADD"
    if name = "POWER" then .ok powerTemplate
    else
      match Table.get? arithmetics name with
      | some (operator, order) => .ok (binary operator order "0")
      | none => .error (.rule (.unknownArithmetic name b.site))
  | .list => (slotCount b).map listTemplate
  | .gameConstant =>
    (b.fieldText "CONSTANT").map fun name =>
      ⟨[.text ("context.constants." ++ identifier name)], .member, none⟩
  | .coordinate => coordinateTemplate b
  | .property =>
    (b.fieldText "PROPERTY").map fun name =>
      ⟨[.slot "OBJECT" .member "\x7b\x7d", .text ("[" ++ quoted name ++ "]")], .member, none⟩
  | .memory =>
    (b.fieldText "KEY").map fun key =>
      ⟨[.text ("(api.getMemory() || \x7b\x7d)[" ++ quoted key ++ "]")], .member, none⟩
  | .localVariable => (b.fieldText "VAR_NAME").map fun name => atom (identifier name)
  | .stateName => (b.fieldText "STATE_NAME").map fun name => atom (quoted name)
  | .constant =>
    (b.fieldText "NAME").map fun name =>
      { atom (identifier name) with
        reserves := some (name, "const " ++ identifier name ++ " = undefined;") }
  | .functionCall => .ok (callTemplate b)

def enemyDistance : String := "(function() \x7b
  const enemy = api.scan();
  if (enemy) \x7b
    const dx = context.bot.x - enemy.x;
    const dy = context.bot.y - enemy.y;
    return Math.sqrt(dx * dx + dy * dy);
  \x7d
  return -1;
\x7d)()"

def turretAligned : String := "(function() \x7b
  const enemy = api.scan();
  if (enemy) \x7b
    const dx = enemy.x - context.bot.x;
    const dy = enemy.y - context.bot.y;
    const targetAngle = Math.atan2(dy, dx) * 180 / Math.PI;
    const turretAngle = (context.bot.turretAngle % 360 + 360) % 360;
    const normalizedTarget = (targetAngle % 360 + 360) % 360;
    const diff = Math.abs(turretAngle - normalizedTarget);
    return Math.min(diff, 360 - diff) < 1;
  \x7d
  return true;
\x7d)()"

def fixed (text : String) (order : Order) : ValueRule := .inline [.text text] order

/-- Values that depend on no field and no socket. -/
def fixedTable : Table ValueRule :=
  [("context_battery_percent", fixed "context.batteryPercent" .member),
    ("context_is_moving", fixed "context.bot.isMoving" .member),
    ("context_can_fire", fixed "context.bot.canFire" .member),
    ("get_arena_width", fixed "api.getArenaDimensions().width" .member),
    ("get_arena_height", fixed "api.getArenaDimensions().height" .member),
    ("get_enemy_angle", fixed "(api.scan() || \x7b angle: 0 \x7d).angle" .member),
    ("get_enemy_position", fixed "api.scan()" .functionCall),
    ("get_enemy_distance", fixed enemyDistance .functionCall),
    ("is_enemy_visible", fixed "!!api.scan()" .logicalNot),
    ("is_turret_aligned", fixed turretAligned .functionCall),
    ("is_projectile_incoming", fixed "api.scanForIncomingProjectiles().length > 0" .relational),
    ("was_hit", fixed "api.getEvents().some(e => e.type === 'HIT_BY_PROJECTILE')" .functionCall),
    ("is_wall_collision",
      fixed "api.getEvents().some(e => e.type === 'COLLISION_WITH_WALL')" .functionCall),
    ("api_is_queue_empty", fixed "api.isQueueEmpty()" .functionCall),
    ("api_is_obstacle_ahead", fixed "api.isObstacleAhead()" .functionCall),
    ("api_get_state", fixed "api.getState()" .functionCall),
    ("api_get_random_point", fixed "api.getRandomPoint()" .functionCall),
    ("api_scan_obstacles", fixed "api.scanObstacles()" .functionCall),
    ("api_get_events", fixed "api.getEvents()" .functionCall),
    ("logic_null", fixed "null" .atomic)]

def negation : ValueRule :=
  .inline [.text "!", .slot "BOOL" .logicalNot "true"] .logicalNot

def conditional : ValueRule :=
  .inline [.slot "IF" .conditional "false", .text " ? ", .slot "THEN" .conditional "null",
    .text " : ", .slot "ELSE" .conditional "null"] .conditional

def position : ValueRule :=
  .inline [.text "\x7b x: ", .slot "X" .none "0", .text ", y: ", .slot "Y" .none "0",
    .text " \x7d"] .atomic

def positionQuery (function : String) : ValueRule :=
  .inline [.text (function ++ "("), .slot "POSITION" .atomic "null", .text ")"] .functionCall

def orbit : ValueRule :=
  .inline [.text "api.getOrbitingPosition(", .slot "TARGET_POINT" .atomic "null", .text ", ",
    .slot "DISTANCE" .atomic "150", .text ", ", .slot "DIRECTION" .atomic "\"random\"",
    .text ")"] .functionCall

/-- The position is bound, so that it is evaluated once. -/
def moveAndCheck : ValueRule :=
  .inline [.text "((pos) => pos ? (api.moveTo(pos.x, pos.y) !== null) : false)(",
    .slot "POSITION" .none "null", .text ")"] .functionCall

def table : Table ValueRule :=
  fixedTable ++
  [("logic_boolean", .boolean), ("math_number", .number), ("text", .text),
    ("logic_compare", .comparison), ("logic_operation", .connective), ("logic_negate", negation),
    ("logic_ternary", conditional), ("math_arithmetic", .arithmetic), ("lists_create_with", .list),
    ("game_constant", .gameConstant), ("position_create", position),
    ("position_get_coordinate", .coordinate), ("object_get_property", .property),
    ("memory_get", .memory), ("local_get_variable", .localVariable),
    ("state_reference", .stateName),
    ("api_is_position_valid", positionQuery "api.isPositionValid"),
    ("api_is_line_of_sight_clear", positionQuery "api.isLineOfSightClear"),
    ("api_get_orbiting_position", orbit), ("actions_move_to_and_check", moveAndCheck),
    ("custom_constant_get", .constant), ("custom_function_call", .functionCall)]

def ofKind? (kind : String) : Option ValueRule := Table.get? table kind

end ValueRule
end BlockMachine
