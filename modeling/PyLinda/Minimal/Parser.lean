import PyLinda.Lib.Run
import PyLinda.Minimal.Grammar
import PyLinda.Minimal.ParserHeap

/-!
# Parsing in memory

The rules of `minimal_parser.y` with their actions on the nodes. The parser shifts tokens and
reduces by rules; which of these it does where there is a choice is left open.
-/

namespace PyLinda.Parser

open Lib RefCount
open Grammar (Token)

/-- The `YY_*`. -/
inductive Kind where
  | id | integer | string | typeSpec | function | operator | semicolon | comma | eq | openB | closeB
  | openSqB | closeSqB | kwIf | kwThen | kwElse | kwEndif | testOp | kwLet
  deriving DecidableEq

def kind : Token → Kind
  | .id _ => .id
  | .integer _ => .integer
  | .string _ => .string
  | .typeSpec => .typeSpec
  | .function => .function
  | .operator _ => .operator
  | .semicolon => .semicolon
  | .comma => .comma
  | .eq => .eq
  | .openB => .openB
  | .closeB => .closeB
  | .openSqB => .openSqB
  | .closeSqB => .closeSqB
  | .kwIf => .kwIf
  | .kwThen => .kwThen
  | .kwElse => .kwElse
  | .kwEndif => .kwEndif
  | .testOp _ => .testOp
  | .kwLet => .kwLet

/-- What the lexer assigns to `yylval`, if it does. -/
def tokenNode : Token → Option Node
  | .id s | .operator s | .testOp s => some (.identifier s)
  | .integer i => some (.integer i)
  | .string s => some (.string s)
  | _ => none

/-- `yylex`. -/
def Memory.lex (m : Memory) (t : Token) : Memory :=
  match tokenNode t with
  | some n => { m.alloc n with yylval := some m.next }
  | none => m

/-! ## Actions -/

def made (x : Run Addr) : Run Ptr := do
  let a ← x
  pure (some a)

/-- The action of the three rules for a further definition. -/
def inputAction (d1 d2 : Ptr) : Run Ptr := do
  let n1 ← read d1
  match n1 with
  | .blank => do
    delReference d1
    pure d2
  | n1 => do
    let n2 ← read d2
    match n2 with
    | .blank => do
      delReference d2
      pure d1
    | _ =>
      match n1 with
      | .sequentialDefs _ => do
        let a ← there d1
        let b ← there d2
        addBranch a b
        pure d1
      | _ => made (createSequence2 d1 d2)

def typespecId (d1 : Ptr) : Run Ptr := do
  let s ← stringOf d1
  if s = "Nil" then do
    delReference d1
    made createNil
  else pure d1

/-- `typespec * typespec`. -/
def productAction (d1 d3 : Ptr) : Run Ptr := do
  let a ← there d1
  let c ← there d3
  let n1 ← read d1
  match n1 with
  | .productType _ => do
    addBranch a c
    pure d1
  | _ => do
    let n3 ← read d3
    match n3 with
    | .productType _ => do
      prependBranch c a
      pure d3
    | _ => do
      let tree ← createProductType
      addBranch tree a
      addBranch tree c
      pure (some tree)

/-- `typespec + typespec`. The second look is at the operator. -/
def sumAction (d1 d2 d3 : Ptr) : Run Ptr := do
  let a ← there d1
  let c ← there d3
  let n1 ← read d1
  match n1 with
  | .sumType _ => do
    addBranch a c
    pure d1
  | _ => do
    let n2 ← read d2
    match n2 with
    | .sumType _ => do
      prependBranch c a
      pure d1
    | _ => do
      let tree ← createSumType
      addBranch tree a
      addBranch tree c
      pure (some tree)

def typespecOperator (d1 d2 d3 : Ptr) : Run Ptr := do
  let s ← stringOf d2
  let v ← if s = "*" then productAction d1 d3
    else if s = "+" then sumAction d1 d2 d3
    else made createBlank
  delReference d2
  pure v

/-- `for(i = 0; i < $3->integer; i++)`. -/
def copies (tree a : Addr) : Nat → Run Unit
  | 0 => pure ()
  | n + 1 => do
    addReference a
    addBranch tree a
    copies tree a n

def multiply (create : Run Addr) (i : Int) (d1 d3 : Ptr) : Run Ptr := do
  if i = 0 then do
    delReference d1
    let v ← create
    delReference d3
    pure (some v)
  else do
    let a ← there d1
    let v ← create
    copies v a i.toNat
    delReference d3
    pure (some v)

/-- A type and a value that is no integer: also the operator is given up. -/
def noInteger (d1 d2 d3 : Ptr) : Run Ptr := do
  let v ← createBlank
  delReference d1
  delReference d2
  delReference d3
  pure (some v)

/-- Another operator. -/
def noOperator (d1 d3 : Ptr) : Run Ptr := do
  let v ← createBlank
  delReference d1
  delReference d3
  pure (some v)

def timesInteger (i : Int) (d1 d2 d3 : Ptr) : Run Ptr := do
  let s ← stringOf d2
  if s = "*" then multiply createProductType i d1 d3
  else if s = "+" then multiply createSumType i d1 d3
  else noOperator d1 d3

def typespecValue (d1 d2 d3 : Ptr) : Run Ptr := do
  let n3 ← read d3
  let v ← match n3 with
    | .integer i => timesInteger i d1 d2 d3
    | _ => noInteger d1 d2 d3
  delReference d2
  pure v

def noTypeFunction (d3 : Ptr) : Run Addr := do
  let v ← createBlank
  delReference d3
  pure v

def typespecPointer (d1 d3 : Ptr) : Run Ptr := do
  let s ← stringOf d1
  let v ← if s = "ptr" then createPointer d3 else noTypeFunction d3
  delReference d1
  pure (some v)

/-- `value: YY_ID`. The reference to `Nil` is not given up: `Minimal_delReference` is called on
the parser's stack. -/
def valueId (d1 : Ptr) : Run Ptr := do
  let s ← stringOf d1
  if s = "Nil" then Eff.raise .wild else pure d1

def parameterListId (d1 d2 : Ptr) : Run Ptr := do
  let n1 ← read d1
  match n1 with
  | .blank => do
    let v ← createParameterList1 d2
    delReference d1
    pure (some v)
  | _ => made (createParameterList2 d1 d2)

/-- `for(i=0; i<$3->size; i++)`. -/
def copyElements (tree : Addr) : List Addr → Run Unit
  | [] => pure ()
  | v :: vs => do
    addReference v
    addToTuple tree v
    copyElements tree vs

/-- The loop of the action of `tuple`, and what is behind it. -/
def splice (tree : Addr) (d3 : Ptr) : Run Ptr := do
  let n3 ← read d3
  match n3 with
  | .tuple values => do
    copyElements tree values
    delReference d3
    pure (some tree)
  | _ => Eff.raise .wrongType

def tupleAction (d1 d3 : Ptr) : Run Ptr := do
  let tree ← createTuple1 d1
  splice tree d3

def tuple2More (d1 d2 d3 : Ptr) : Run Ptr := do
  let t ← there d1
  let e ← there d3
  addToTuple t e
  delReference d2
  pure d1

def delReferences : List Ptr → Run Unit
  | [] => pure ()
  | p :: ps => do
    delReference p
    delReferences ps

def ifExprAction (d1 d2 d3 d4 d5 d6 d7 : Ptr) : Run Ptr := do
  let v ← createIfExpr d2 d4 d6
  delReferences [d1, d3, d5, d7]
  pure (some v)

/-! ## Rules -/

/-- Tokens, and what can be derived; `midTuple2` is the action in the first rule of `tuple2`. -/
inductive Symbol where
  | token (k : Kind)
  | input | typespecDef | typespec | definition | expr | value | parameterList | functionCall
  | argumentList | tuple | midTuple2 | tuple2 | ifExpr | testExpr | letExpr
  deriving DecidableEq

inductive Rule where
  | inputEmpty | inputTypespecDef | inputDefinition | inputExpr
  | typespecDef
  | typespecId | typespecUnit | typespecFunction | typespecOperator | typespecValue
  | typespecBracket | typespecPointer
  | definition
  | exprValue | exprUnit | exprBrackets | exprIndex | exprOperator | exprFunctionCall | exprTuple
  | exprIfExpr | exprTestExpr | exprLetExpr
  | valueId | valueInteger | valueString
  | parameterListEmpty | parameterListId
  | functionCallUnit | functionCallArguments
  | argumentListOne | argumentListMore
  | tuple
  | midTuple2 | tuple2First | tuple2More
  | ifExpr
  | testExpr
  | letExpr
  deriving DecidableEq

namespace Rule

def lhs : Rule → Symbol
  | inputEmpty | inputTypespecDef | inputDefinition | inputExpr => .input
  | typespecDef => .typespecDef
  | typespecId | typespecUnit | typespecFunction | typespecOperator | typespecValue
  | typespecBracket | typespecPointer => .typespec
  | definition => .definition
  | exprValue | exprUnit | exprBrackets | exprIndex | exprOperator | exprFunctionCall | exprTuple
  | exprIfExpr | exprTestExpr | exprLetExpr => .expr
  | valueId | valueInteger | valueString => .value
  | parameterListEmpty | parameterListId => .parameterList
  | functionCallUnit | functionCallArguments => .functionCall
  | argumentListOne | argumentListMore => .argumentList
  | tuple => .tuple
  | midTuple2 => .midTuple2
  | tuple2First | tuple2More => .tuple2
  | ifExpr => .ifExpr
  | testExpr => .testExpr
  | letExpr => .letExpr

def rhs : Rule → List Symbol
  | inputEmpty => []
  | inputTypespecDef => [.input, .typespecDef, .token .semicolon]
  | inputDefinition => [.input, .definition, .token .semicolon]
  | inputExpr => [.input, .expr, .token .semicolon]
  | typespecDef => [.token .id, .token .typeSpec, .typespec]
  | typespecId => [.token .id]
  | typespecUnit => [.token .openB, .token .closeB]
  | typespecFunction => [.typespec, .token .function, .typespec]
  | typespecOperator => [.typespec, .token .operator, .typespec]
  | typespecValue => [.typespec, .token .operator, .value]
  | typespecBracket => [.token .openB, .typespec, .token .closeB]
  | typespecPointer => [.token .id, .token .openB, .token .id, .token .closeB]
  | definition => [.token .id, .parameterList, .token .eq, .expr]
  | exprValue => [.value]
  | exprUnit => [.token .openB, .token .closeB]
  | exprBrackets => [.token .openB, .expr, .token .closeB]
  | exprIndex => [.expr, .token .openSqB, .expr, .token .closeSqB]
  | exprOperator => [.expr, .token .operator, .expr]
  | exprFunctionCall => [.functionCall]
  | exprTuple => [.tuple]
  | exprIfExpr => [.ifExpr]
  | exprTestExpr => [.testExpr]
  | exprLetExpr => [.letExpr]
  | valueId => [.token .id]
  | valueInteger => [.token .integer]
  | valueString => [.token .string]
  | parameterListEmpty => []
  | parameterListId => [.parameterList, .token .id]
  | functionCallUnit => [.expr, .token .openB, .token .closeB]
  | functionCallArguments => [.expr, .token .openB, .argumentList, .token .closeB]
  | argumentListOne => [.expr]
  | argumentListMore => [.expr, .token .comma, .argumentList]
  | tuple => [.expr, .token .comma, .tuple2]
  | midTuple2 => []
  | tuple2First => [.midTuple2, .expr]
  | tuple2More => [.tuple2, .token .comma, .expr]
  | ifExpr => [.token .kwIf, .expr, .token .kwThen, .expr, .token .kwElse, .expr, .token .kwEndif]
  | testExpr => [.expr, .token .testOp, .expr]
  | letExpr => [.token .kwLet, .token .id, .token .eq, .expr, .expr]

/-- What the action makes of `$1`, `$2` and so on. `yy_result` is the value of `input`. -/
def action (d : Nat → Ptr) : Rule → Run Ptr
  | inputEmpty => made createBlank
  | inputTypespecDef | inputDefinition | inputExpr => inputAction (d 1) (d 2)
  | typespecDef => made (createTypeSpec (d 1) (d 3))
  | typespecId => Parser.typespecId (d 1)
  | typespecUnit => made createProductType
  | typespecFunction => made (createFunction (d 1) (d 3))
  | typespecOperator => Parser.typespecOperator (d 1) (d 2) (d 3)
  | typespecValue => Parser.typespecValue (d 1) (d 2) (d 3)
  | typespecBracket => made (createBracket (d 2))
  | typespecPointer => Parser.typespecPointer (d 1) (d 3)
  | definition => made (createFunctionDef (d 1) (d 2) (d 4))
  | exprValue | exprFunctionCall | exprTuple | exprIfExpr | exprTestExpr | exprLetExpr => pure (d 1)
  | exprUnit => made createTuple0
  | exprBrackets => pure (d 2)
  | exprIndex => made (createIndex (d 1) (d 3))
  | exprOperator => made (createOperator (d 2) (d 1) (d 3))
  | valueId => Parser.valueId (d 1)
  | valueInteger | valueString => pure (d 1)
  | parameterListEmpty => made createBlank
  | parameterListId => Parser.parameterListId (d 1) (d 2)
  | functionCallUnit => made (createFunctionCall (d 1) none)
  | functionCallArguments => made (createFunctionCall (d 1) (d 3))
  | argumentListOne => made (createArgumentList1 (d 1))
  | argumentListMore => made (createArgumentList2 (d 1) (d 3))
  | tuple => tupleAction (d 1) (d 3)
  | midTuple2 => made createBlank
  | tuple2First => made (createTuple1 (d 1))
  | tuple2More => Parser.tuple2More (d 1) (d 2) (d 3)
  | ifExpr => ifExprAction (d 1) (d 2) (d 3) (d 4) (d 5) (d 6) (d 7)
  | testExpr => made (createOperator (d 2) (d 1) (d 3))
  | letExpr => made (createLet (d 2) (d 4) (d 5))

end Rule

/-! ## The parser -/

/-- A symbol on the stack, with its semantic value. -/
structure Entry where
  symbol : Symbol
  value : Ptr

/-- The stack from the top, the tokens to come, and the memory. -/
structure Config where
  stack : List Entry
  input : List Token
  memory : Memory

/-- What the parser does next: it shifts, or it reduces by a rule the values on top. -/
inductive Move where
  | shift
  | reduce (r : Rule) (values : List Ptr)

/-- The right side of a rule, as it lies on the stack. -/
def entries (symbols : List Symbol) (values : List Ptr) : List Entry :=
  (List.zipWith Entry.mk symbols values).reverse

/-- `$1`, `$2` and so on. -/
def dollar (values : List Ptr) (i : Nat) : Ptr := (values[i - 1]?).getD none

/-- A token that is read, and where the lexer assigns nothing gets the last `yylval`, is shifted;
or the values of a right side are replaced by what the action makes of them. -/
inductive Step : Config → Move → Config → Prop
  | shift {stack t ts m} : Step ⟨stack, t :: ts, m⟩ .shift
      ⟨⟨.token (kind t), (m.lex t).yylval⟩ :: stack, ts, m.lex t⟩
  | reduce {r : Rule} {values stack ts m v m'} : values.length = r.rhs.length →
      r.action (dollar values) m = (.ok v, m') →
      Step ⟨entries r.rhs values ++ stack, ts, m⟩ (.reduce r values) ⟨⟨r.lhs, v⟩ :: stack, ts, m'⟩

def Config.start (m : Memory) (ts : List Token) : Config := ⟨[], ts, m⟩

end PyLinda.Parser
