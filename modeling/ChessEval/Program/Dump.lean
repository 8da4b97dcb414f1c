import ChessEval.Dump
import ChessEval.Number.Shortest
import ChessEval.Program.Basic
import ChessEval.Text.Quoted

/-!
# Dumps of programs

The tree of a program as the option `-ast` writes it.
-/

namespace ChessEval

def Dump.string (s : String) : Dump :=
  .atom (Text.quoted s)

/-- A type by its name, an array with its element type. -/
def Ty.dump : Ty → Dump
  | .void => .atom "Void"
  | .bool => .atom "Bool"
  | .num => .atom "Num"
  | .string => .atom "String"
  | .piece => .atom "Piece"
  | .cell => .atom "Cell"
  | .row => .atom "Row"
  | .rank => .atom "Rank"
  | .file => .atom "File"
  | .player => .atom "Player"
  | .array element => .tuple "Array" [element.dump]
  | .genericArray => .atom "GenericArray"
  | .emptyArray => .atom "EmptyArray"
  | .generic => .atom "Generic"

def BoardCollection.dump : BoardCollection → Dump
  | .cells => .atom "Cells"
  | .rows => .atom "Rows"
  | .ranks => .atom "Ranks"
  | .files => .atom "Files"

def Player.dump : Player → Dump
  | .self => .atom "SelfPlayer"
  | .rival => .atom "Rival"

def Literal.dump : Literal → Dump
  | .number value => .tuple "Number" [.atom value.dumped]
  | .boolean value => .tuple "Boolean" [.bool value]
  | .string value => .tuple "String" [.string value]
  | .cell name => .tuple "Cell" [.string name]
  | .row index => .tuple "Row" [.nat index]
  | .rank index => .tuple "Rank" [.nat index]
  | .file index => .tuple "File" [.nat index]
  | .cellRange first last => .tuple "CellRange" [.string first, .string last]
  | .rowRange first last => .tuple "RowRange" [.nat first, .nat last]
  | .rankRange first last => .tuple "RankRange" [.nat first, .nat last]
  | .fileRange first last => .tuple "FileRange" [.nat first, .nat last]
  | .board collection => .tuple "Board" [collection.dump]
  | .pieces name => .tuple "Pieces" [.string name]
  | .player side => .tuple "Player" [side.dump]

def BinaryOp.name : BinaryOp → String
  | .or => "Or"
  | .and => "And"
  | .equal => "Equal"
  | .notEqual => "NotEqual"
  | .less => "Less"
  | .lessEqual => "LessEqual"
  | .greater => "Greater"
  | .greaterEqual => "GreaterEqual"
  | .elementOf => "In"
  | .add => "Add"
  | .subtract => "Subtract"
  | .multiply => "Multiply"
  | .divide => "Divide"
  | .concat => "Concat"

def UnaryOp.name : UnaryOp → String
  | .not => "Not"
  | .negate => "Negate"
  | .absolute => "Absolute"

/-- A node with its number and its line around what it is. -/
def Mark.wrap (mark : Mark) (kind : Dump) : Dump :=
  .record "Expr" [("id", .nat mark.id), ("kind", kind), ("line", .nat mark.line)]

mutual

def Expr.dump : Expr → Dump
  | .literal m value => m.wrap (.tuple "Literal" [value.dump])
  | .identifier m name => m.wrap (.tuple "Identifier" [.string name])
  | .binary m operator left right =>
    m.wrap (.record "Binary"
      [("operator", .atom operator.name), ("left", left.dump), ("right", right.dump)])
  | .unary m operator operand =>
    m.wrap (.record "Unary" [("operator", .atom operator.name), ("operand", operand.dump)])
  | .call m name arguments =>
    m.wrap (.record "Call" [("name", .string name), ("arguments", .list (Expr.dumps arguments))])
  | .member m base field =>
    m.wrap (.record "FieldAccess" [("base", base.dump), ("field", .string field)])
  | .index m base position =>
    m.wrap (.record "Index" [("base", base.dump), ("index", position.dump)])
  | .list m elements => m.wrap (.tuple "List" [.list (Expr.dumps elements)])
  | .emptyList m => m.wrap (.atom "EmptyList")

def Expr.dumps : List Expr → List Dump
  | [] => []
  | e :: rest => e.dump :: Expr.dumps rest

end

def Declarator.dump (d : Declarator) : Dump :=
  .record "VarDeclarator"
    [("name", .string d.name), ("value", .option (d.value.map Expr.dump)), ("line", .nat d.line)]

mutual

/-- A statement with all of its parts. -/
def Stmt.dump : Stmt → Dump
  | .declare type declarators line =>
    .record "VarDecl" [("ty", type.dump), ("declarators", .list (declarators.map Declarator.dump)),
      ("line", .nat line)]
  | .assign target value line =>
    .record "Assign" [("target", target.dump), ("value", value.dump), ("line", .nat line)]
  | .ifThen condition thenBody none line =>
    .record "If" [("condition", condition.dump), ("then_body", .list (Stmt.dumps thenBody)),
      ("else_body", .option none), ("line", .nat line)]
  | .ifThen condition thenBody (some elseBody) line =>
    .record "If" [("condition", condition.dump), ("then_body", .list (Stmt.dumps thenBody)),
      ("else_body", .option (some (.list (Stmt.dumps elseBody)))), ("line", .nat line)]
  | .whileDo condition body line =>
    .record "While" [("condition", condition.dump), ("body", .list (Stmt.dumps body)),
      ("line", .nat line)]
  | .forAll name source body line =>
    .record "Forall" [("variable", .string name), ("source", source.dump),
      ("body", .list (Stmt.dumps body)), ("line", .nat line)]
  | .returns value line =>
    .record "Return" [("value", .option (value.map Expr.dump)), ("line", .nat line)]
  | .score value line => .record "Score" [("value", value.dump), ("line", .nat line)]
  | .call site line => .record "Call" [("call", site.dump), ("line", .nat line)]

def Stmt.dumps : List Stmt → List Dump
  | [] => []
  | s :: rest => s.dump :: Stmt.dumps rest

end

def ConfigValue.dump : ConfigValue → Dump
  | .number value => .tuple "Num" [.atom value.dumped]
  | .boolean value => .tuple "Bool" [.bool value]

def ConfigEntry.dump (e : ConfigEntry) : Dump :=
  .record "ConfigEntry" [("name", .string e.name), ("value", e.value.dump), ("line", .nat e.line)]

def Param.dump (p : Param) : Dump :=
  .record "Param" [("ty", p.type.dump), ("name", .string p.name),
    ("by_reference", .bool p.byReference), ("line", .nat p.line)]

def RuleOption.dump (o : RuleOption) : Dump :=
  .record "RuleOptionTag" [("name", .string o.name), ("line", .nat o.line)]

def Definition.dump : Definition → Dump
  | .global g => .tuple "Global" [.record "GlobalDef" [("ty", g.type.dump), ("name", .string g.name),
      ("value", g.value.dump), ("line", .nat g.line)]]
  | .function f => .tuple "Function" [.record "FunctionDef" [("return_type", f.returnType.dump),
      ("name", .string f.name), ("params", .list (f.params.map Param.dump)),
      ("body", .list (Stmt.dumps f.body)), ("line", .nat f.line)]]
  | .rule r => .tuple "Rule" [.record "RuleDef" [("name", .string r.name),
      ("options", .list (r.options.map RuleOption.dump)), ("guard", .option (r.guard.map Expr.dump)),
      ("body", .list (Stmt.dumps r.body)), ("line", .nat r.line)]]

def Program.dump (p : Program) : Dump :=
  .record "Program" [("file", .string p.file), ("config", .list (p.config.map ConfigEntry.dump)),
    ("definitions", .list (p.definitions.map Definition.dump)), ("expr_count", .nat p.exprCount)]

end ChessEval
