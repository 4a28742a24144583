import PyLinda.Minimal.TypeParser

/-!
# Parsing expressions

The part of the parser that reads an `expr`. No token has a precedence, so where a state could
shift or reduce it shifts, and of two reductions it takes the rule that comes first. A state in
which only one rule ends reduces at every token that it does not shift.
-/

namespace PyLinda.ExprParser

open Lib.ShiftReduce
open Grammar (Token idOrNil tupleAction tuple2Action addToTuple)
open TypeParser (stringOf valueOf)
open SyntaxTree

/-! ## Actions -/

/-- `$n`. -/
def dollar (ts : List SyntaxTree) (n : Nat) : SyntaxTree := ts.getD (n - 1) .null

/-- `$$ = $n`. -/
def pass (n : Nat) (ts : List SyntaxTree) : SyntaxTree := dollar ts n

/-- `Minimal_SyntaxTree_createOperator($2, $1, $3)`. -/
def operatorAction (ts : List SyntaxTree) : SyntaxTree :=
  .operator (stringOf (dollar ts 2)) (dollar ts 1) (dollar ts 3)

/-! ## States -/

/-- What has been read, in the rules it can belong to. -/
inductive State where
  | start -- `input .`
  | startId -- `YY_ID .`, also of a `typespec_def` or a `definition`
  | top -- `input expr .`
  | body -- `YY_ID parameter_list YY_EQ .`
  | bodyExpr -- `YY_ID parameter_list YY_EQ expr .`
  | id -- `YY_ID .`
  | integer -- `YY_INTEGER .`
  | string -- `YY_STRING .`
  | value -- `value .`
  | functionCall -- `function_call .`
  | tuple -- `tuple .`
  | ifExpr -- `if_expr .`
  | testExpr -- `test_expr .`
  | letExpr -- `let_expr .`
  | openB -- `YY_OPENB .`
  | unit -- `YY_OPENB YY_CLOSEB .`
  | inner -- `YY_OPENB expr .`
  | bracket -- `YY_OPENB expr YY_CLOSEB .`
  | openSqB -- `expr YY_OPENSQB .`
  | index -- `expr YY_OPENSQB expr .`
  | indexed -- `expr YY_OPENSQB expr YY_CLOSESQB .`
  | op -- `expr YY_OPERATOR .`
  | opExpr -- `expr YY_OPERATOR expr .`
  | testOp -- `expr YY_TESTOP .`
  | testOpExpr -- `expr YY_TESTOP expr .`
  | call -- `expr YY_OPENB .`
  | callUnit -- `expr YY_OPENB YY_CLOSEB .`
  | argument -- `expr .` of an `argument_list`
  | argumentComma -- `expr YY_COMMA .` of an `argument_list`, or of a `tuple` in brackets
  | arguments -- `expr YY_COMMA argument_list .`
  | callArguments -- `expr YY_OPENB argument_list .`
  | called -- `expr YY_OPENB argument_list YY_CLOSEB .`
  | comma -- `expr YY_COMMA .`
  | blank -- the blank in front of the `expr` of a `tuple2`
  | second -- that blank and `expr .`
  | tuple2 -- `expr YY_COMMA tuple2 .`
  | furtherComma -- `tuple2 YY_COMMA .`
  | further -- `tuple2 YY_COMMA expr .`
  | kwIf -- `YY_IF .`
  | condition -- `YY_IF expr .`
  | kwThen -- `YY_IF expr YY_THEN .`
  | thenExpr -- `YY_IF expr YY_THEN expr .`
  | kwElse -- `YY_IF expr YY_THEN expr YY_ELSE .`
  | elseExpr -- `YY_IF expr YY_THEN expr YY_ELSE expr .`
  | kwEndif -- `YY_IF expr YY_THEN expr YY_ELSE expr YY_ENDIF .`
  | kwLet -- `YY_LET .`
  | letId -- `YY_LET YY_ID .`
  | letEq -- `YY_LET YY_ID YY_EQ .`
  | letValue -- `YY_LET YY_ID YY_EQ expr .`
  | letOpenB -- `YY_OPENB .` behind that, or `expr YY_OPENB .` with its `expr`
  | letUnit -- `YY_OPENB YY_CLOSEB .` of either
  | letInner -- `YY_OPENB expr .` of either
  | letBody -- `YY_LET YY_ID YY_EQ expr expr .`

namespace State

/-- Where an `expr` leads. -/
def gotoExpr : State → Option State
  | start => some top
  | body => some bodyExpr
  | openB => some inner
  | openSqB => some index
  | op => some opExpr
  | testOp => some testOpExpr
  | call => some argument
  | argumentComma => some argument
  | blank => some second
  | furtherComma => some further
  | kwIf => some condition
  | kwThen => some thenExpr
  | kwElse => some elseExpr
  | letEq => some letValue
  | letValue => some letBody
  | letOpenB => some letInner
  | _ => none

/-- Where a `value`, `function_call`, `tuple`, `if_expr`, `test_expr` or `let_expr` leads: they
are all an `expr` of their own. -/
def gotoKind (q' : State) (q : State) : Option State := q.gotoExpr.map fun _ => q'

/-- Where an `argument_list` leads. -/
def gotoArguments : State → Option State
  | call => some callArguments
  | letOpenB => some callArguments
  | argumentComma => some arguments
  | _ => none

/-- Where a `tuple2` leads. -/
def gotoTuple2 : State → Option State
  | comma => some tuple2
  | argumentComma => some tuple2
  | _ => none

/-- Where the blank of a `tuple2` leads. -/
def gotoBlank : State → Option State
  | comma => some blank
  | argumentComma => some blank
  | _ => none

end State

/-- A token with which an `expr` can begin is shifted. -/
def beginExpr : Token → Move State SyntaxTree
  | .openB => .shift .openB
  | .id _ => .shift .id
  | .integer _ => .shift .integer
  | .string _ => .shift .string
  | .kwIf => .shift .kwIf
  | .kwLet => .shift .kwLet
  | _ => .error

/-- A token with which an `expr` can go on is shifted; what happens at the others is `last`. -/
def goOn (last : Move State SyntaxTree) : Token → Move State SyntaxTree
  | .openSqB => .shift .openSqB
  | .operator _ => .shift .op
  | .testOp _ => .shift .testOp
  | .openB => .shift .call
  | .comma => .shift .comma
  | _ => last

/-- A rule for `expr`. -/
def toExpr (n : Nat) (action : List SyntaxTree → SyntaxTree) : Move State SyntaxTree :=
  .reduce n action State.gotoExpr

/-- A rule for one of the kinds of `expr`. -/
def toKind (q : State) (n : Nat) (action : List SyntaxTree → SyntaxTree) : Move State SyntaxTree :=
  .reduce n action q.gotoKind

/-- `Minimal_SyntaxTree_createArgumentList1($1)`. -/
def argumentAction (ts : List SyntaxTree) : SyntaxTree :=
  (createArgumentList1 (dollar ts 1)).getD .null

/-- `Minimal_SyntaxTree_createArgumentList2($1, $3)`. -/
def argumentsAction (ts : List SyntaxTree) : SyntaxTree :=
  (createArgumentList2 (dollar ts 1) (dollar ts 3)).getD .null

/-- The moves of the states. -/
def move : State → Token → Move State SyntaxTree
  | .start, .id _ => .shift .startId
  | .start, t => beginExpr t
  -- a `typespec_def` and a `definition` go on from here
  | .startId, .typeSpec => .error
  | .startId, .eq => .error
  | .startId, .id _ => .error
  | .startId, _ => toKind .value 1 fun ts => idOrNil (stringOf (dollar ts 1))
  | .top, .semicolon => .accept
  | .top, t => goOn .error t
  | .body, t => beginExpr t
  | .bodyExpr, .semicolon => .accept
  | .bodyExpr, t => goOn .error t
  | .id, _ => toKind .value 1 fun ts => idOrNil (stringOf (dollar ts 1))
  | .integer, _ => toKind .value 1 (pass 1)
  | .string, _ => toKind .value 1 (pass 1)
  | .value, _ => toExpr 1 (pass 1)
  | .functionCall, _ => toExpr 1 (pass 1)
  | .tuple, _ => toExpr 1 (pass 1)
  | .ifExpr, _ => toExpr 1 (pass 1)
  | .testExpr, _ => toExpr 1 (pass 1)
  | .letExpr, _ => toExpr 1 (pass 1)
  | .openB, .closeB => .shift .unit
  | .openB, t => beginExpr t
  | .unit, _ => toExpr 2 fun _ => .tuple []
  | .inner, .closeB => .shift .bracket
  | .inner, t => goOn .error t
  | .bracket, _ => toExpr 3 (pass 2)
  | .openSqB, t => beginExpr t
  | .index, .closeSqB => .shift .indexed
  | .index, t => goOn .error t
  | .indexed, _ => toExpr 4 fun ts => .index (dollar ts 1) (dollar ts 3)
  | .op, t => beginExpr t
  | .opExpr, t => goOn (toExpr 3 operatorAction) t
  | .testOp, t => beginExpr t
  | .testOpExpr, t => goOn (toKind .testExpr 3 operatorAction) t
  | .call, .closeB => .shift .callUnit
  | .call, t => beginExpr t
  | .callUnit, _ => toKind .functionCall 3 fun ts => .functionCall (dollar ts 1) .null
  | .argument, .comma => .shift .argumentComma
  | .argument, t => goOn (.reduce 1 argumentAction State.gotoArguments) t
  -- the blank of a `tuple2` would be made at the tokens that are shifted
  | .argumentComma, t => beginExpr t
  | .arguments, _ => .reduce 3 argumentsAction State.gotoArguments
  | .callArguments, .closeB => .shift .called
  | .callArguments, _ => .error
  | .called, _ => toKind .functionCall 4 fun ts => .functionCall (dollar ts 1) (dollar ts 3)
  | .comma, _ => .reduce 0 (fun _ => .blank) State.gotoBlank
  | .blank, t => beginExpr t
  | .second, t => goOn (.reduce 2 (fun ts => tuple2Action (dollar ts 1) (dollar ts 2))
      State.gotoTuple2) t
  | .tuple2, .comma => .shift .furtherComma
  | .tuple2, _ => toKind .tuple 3 fun ts => tupleAction (dollar ts 1) (dollar ts 3)
  | .furtherComma, t => beginExpr t
  | .further, t => goOn (.reduce 3 (fun ts => addToTuple (dollar ts 1) (dollar ts 3))
      State.gotoTuple2) t
  | .kwIf, t => beginExpr t
  | .condition, .kwThen => .shift .kwThen
  | .condition, t => goOn .error t
  | .kwThen, t => beginExpr t
  | .thenExpr, .kwElse => .shift .kwElse
  | .thenExpr, t => goOn .error t
  | .kwElse, t => beginExpr t
  | .elseExpr, .kwEndif => .shift .kwEndif
  | .elseExpr, t => goOn .error t
  | .kwEndif, _ => toKind .ifExpr 7 fun ts => .ifExpr (dollar ts 2) (dollar ts 4) (dollar ts 6)
  | .kwLet, .id _ => .shift .letId
  | .kwLet, _ => .error
  | .letId, .eq => .shift .letEq
  | .letId, _ => .error
  | .letEq, t => beginExpr t
  | .letValue, .openB => .shift .letOpenB
  | .letValue, t => goOn (beginExpr t) t
  | .letOpenB, .closeB => .shift .letUnit
  | .letOpenB, t => beginExpr t
  -- a call without arguments is the later rule
  | .letUnit, _ => toExpr 2 fun _ => .tuple []
  -- the argument of a call would end at the same bracket
  | .letInner, .closeB => .shift .bracket
  | .letInner, .comma => .shift .argumentComma
  | .letInner, t => goOn .error t
  | .letBody, t => goOn (toKind .letExpr 5 fun ts =>
      .letExpr (dollar ts 2) (dollar ts 4) (dollar ts 5)) t

def machine : Machine State Token SyntaxTree := ⟨move, valueOf⟩

/-- The text in front of a semicolon is parsed to the tree, as an expression on its own. -/
def Parses (text : List Token) (t : SyntaxTree) : Prop :=
  machine.Accepts ⟨[(.start, .null)], text ++ [.semicolon]⟩ t

/-- The text between the `=` of a definition and its semicolon is parsed to the tree. -/
def ParsesBody (text : List Token) (t : SyntaxTree) : Prop :=
  machine.Accepts ⟨[(.body, .null)], text ++ [.semicolon]⟩ t

/-! ## Steps -/

theorem shift_star {q q' : State} (v : SyntaxTree) (below : List (State × SyntaxTree))
    {t : Token} (rest : List Token) (h : move q t = .shift q') :
    machine.Star ⟨(q, v) :: below, t :: rest⟩
      ⟨(q', valueOf t) :: (q, v) :: below, rest⟩ :=
  .shift h

/-- What lies on top of a state in which an `expr` can begin becomes one. -/
theorem expr_star {q p p' : State} (v w : SyntaxTree) (top below : List (State × SyntaxTree))
    {f : Token} (rest : List Token) {action : List SyntaxTree → SyntaxTree}
    (h : move q f = toExpr (top.length + 1) action) (hp : p.gotoExpr = some p') :
    machine.Star ⟨(q, v) :: (top ++ (p, w) :: below), f :: rest⟩
      ⟨(p', action (((q, v) :: top).map Prod.snd).reverse) :: (p, w) :: below, f :: rest⟩ :=
  .reduce top h hp

/-- A kind of `expr` becomes an `expr`. -/
theorem kind_star {q k p p' : State} (v w : SyntaxTree) (top below : List (State × SyntaxTree))
    {f : Token} (rest : List Token) {action : List SyntaxTree → SyntaxTree}
    (h : move q f = toKind k (top.length + 1) action) (hk : move k f = toExpr 1 (pass 1))
    (hp : p.gotoExpr = some p') :
    machine.Star ⟨(q, v) :: (top ++ (p, w) :: below), f :: rest⟩
      ⟨(p', action (((q, v) :: top).map Prod.snd).reverse) :: (p, w) :: below, f :: rest⟩ := by
  have hgoto : State.gotoKind k p = some k := by
    unfold State.gotoKind
    rw [hp]
    rfl
  exact (Machine.Star.reduce top h hgoto).trans (expr_star _ w [] below rest hk hp)

/-- Where an `expr` can begin, all of its first tokens are shifted, but a name or a bracket may
lead to another state. -/
theorem begin_integer {q q' : State} (hq : q.gotoExpr = some q') (i : Int) :
    move q (.integer i) = .shift .integer := by
  cases q <;> first | rfl | cases hq

theorem integer_star {q q' : State} (hq : q.gotoExpr = some q') (v : SyntaxTree)
    (below : List (State × SyntaxTree)) (i : Int) (f : Token) (rest : List Token) :
    machine.Star ⟨(q, v) :: below, .integer i :: f :: rest⟩
      ⟨(q', .integer i) :: (q, v) :: below, f :: rest⟩ :=
  (shift_star v below _ (begin_integer hq i)).trans
    (@kind_star .integer .value q q' (.integer i) v [] below f rest (pass 1) rfl rfl hq)

/-- An operator goes on with the expression before it. -/
theorem expr_operator {q q' : State} (hq : q.gotoExpr = some q') (s : String) :
    move q' (.operator s) = .shift .op := by
  cases q <;> cases hq <;> rfl

/-! ## Chains of integers -/

/-- `i op j op ...`. -/
def chain : Int → List (String × Int) → List Token
  | i, [] => [.integer i]
  | i, (op, j) :: rest => .integer i :: .operator op :: chain j rest

/-- The last two operands are taken together first. -/
def nested : Int → List (String × Int) → SyntaxTree
  | i, [] => .integer i
  | i, (op, j) :: rest => .operator op (.integer i) (nested j rest)

theorem chain_star (i : Int) (ops : List (String × Int)) {q q' : State}
    (hq : q.gotoExpr = some q') (v : SyntaxTree) (below : List (State × SyntaxTree))
    (rest : List Token) :
    machine.Star ⟨(q, v) :: below, chain i ops ++ .semicolon :: rest⟩
      ⟨(q', nested i ops) :: (q, v) :: below, .semicolon :: rest⟩ := by
  induction ops generalizing i q q' v below with
  | nil => exact integer_star hq v below i .semicolon rest
  | cons op ops ih =>
    obtain ⟨op, j⟩ := op
    have hfirst := integer_star hq v below i (.operator op) (chain j ops ++ .semicolon :: rest)
    have hop := shift_star (.integer i) ((q, v) :: below) (chain j ops ++ .semicolon :: rest)
      (expr_operator hq op)
    have hrest := ih j (q := .op) rfl (.identifier op none) ((q', .integer i) :: (q, v) :: below)
    have hreduce := expr_star (nested j ops) v [(.op, .identifier op none), (q', .integer i)] below
      rest (q := .opExpr) (f := .semicolon) rfl hq
    exact hfirst.trans (hop.trans (hrest.trans hreduce))

/-- A chain is read from right to left, whatever its operators are. -/
theorem chain_parses (i : Int) (ops : List (String × Int)) : Parses (chain i ops) (nested i ops) :=
  Machine.run_star (chain_star i ops rfl .null [] []) (Machine.accepts_of_accept rfl)

theorem Parses.unique {text : List Token} {t u : SyntaxTree} (ht : Parses text t)
    (hu : Parses text u) : t = u :=
  Machine.Accepts.unique ht hu

end PyLinda.ExprParser
