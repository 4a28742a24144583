import Mathlib.Algebra.Order.Ring.Int
import PyLinda.Lib.Record
import PyLinda.Minimal.NameMap
import PyLinda.Minimal.SyntaxTree

/-!
# The evaluator

`evaluate.c` with what it uses of `values.c`, `value_funcs.c`, `layer.c` and `syntax_map.c`.
Layers are shared: a function knows the layer it was defined in, and a definition changes it.
What can go wrong is a step of its own.
-/

namespace PyLinda.Evaluate

open Lib

/-- A `MinimalValue`, which may be `NULL`. Of an object that is compared by its address only
that address is kept. -/
inductive Value where
  | null
  | nil
  | boolean (b : UInt8)
  | integer (i : Int)
  | uinteger (n : Nat)
  | float (bits : Nat)
  | double (bits : Nat)
  | string (string : String) (length : Nat)
  | type (typeSpec : SyntaxTree)
  | tsref (tsid : String)
  | tuple (values : List Value)
  | sum (value : Value)
  | function (parameterList code : SyntaxTree) (layer : Nat)
  | pointer (ptr : Nat)
  | syntaxTree (address : Nat)
  | builtInFunc (argCount : Nat) (func : Nat)

namespace Value

def isNull : Value → Bool
  | null => true
  | _ => false

/-- The number of the `M_*`. -/
def number : Value → Nat
  | null | nil => 0
  | boolean _ => 1
  | integer _ => 2
  | uinteger _ => 3
  | float _ => 4
  | double _ => 5
  | string _ _ => 6
  | type _ => 7
  | tsref _ => 8
  | tuple _ => 9
  | sum _ => 10
  | function _ _ _ => 11
  | pointer _ => 12
  | syntaxTree _ => 13
  | builtInFunc _ _ => 14

end Value

/-- How an evaluation ends without a value: it went on too long, or it crashed. -/
inductive Stop where
  | depth
  | exit
  | divisionByZero
  | overflow
  | outOfBounds
  | null
  | junk -- a member of another kind of node
  deriving DecidableEq

/-- What is not up to the program: `strcmp`, floating point numbers, comparisons by address,
what the word of a union is read as, and the built-in functions. -/
structure Platform where
  strcmp : String → String → Int
  arith : String → Nat → Nat → Nat
  above : Value → Value → Bool
  same : Value → Value → Bool
  joined : String → String → String
  word : Value → Int
  builtIn : Nat → List Value → Value

/-- What is done that may go wrong. -/
inductive Step where
  | node (tree : SyntaxTree)
  | operator (operator : String) (op1 op2 : Value)
  | test (value : Value)
  | index (value index : Value)
  | branch (branches : List SyntaxTree) (i : Nat)
  | argument (tree : SyntaxTree)
  | parameter (tree : SyntaxTree)
  | variable (tree : SyntaxTree)
  | builtIn (args : List Value)
  | typeSpec (value : Value)
  | parameterList (tree : SyntaxTree)
  | addName (map : NameMap Value) (name : String) (value : Value)

/-- A `struct MinimalLayer_t`. -/
structure Layer where
  parent : Option Nat
  map : NameMap Value

/-- The layers, and the steps so far; the code keeps no record of those. -/
structure State where
  layers : Nat → Layer
  count : Nat
  steps : List Step

def State.note (s : State) (t : Step) : State := { s with steps := s.steps ++ [t] }

abbrev Run (α : Type) : Type := Eff State Stop α

/-- A step. -/
def step {α : Type} (t : Step) (x : Except Stop α) : Run α := Eff.take State.note t x

section
variable (p : Platform)

/-! ## Values -/

/-- `Minimal_getInt` and `Minimal_getLong`, which both give an `int`. -/
def getInt : Value → Except Stop Int
  | .null => .error .null
  | .integer i => .ok (i.bmod (2 ^ 32))
  | v => .ok ((p.word v).bmod (2 ^ 32))

/-- The quotient of two `int`s. -/
def divide (i j : Int) : Except Stop Int :=
  if j = 0 then .error .divisionByZero
  else if i = -2 ^ 31 ∧ j = -1 then .error .overflow
  else .ok (i.tdiv j)

/-- `Minimal_Value_add`, `sub`, `mul` and `div` on integers and floats. -/
def arithmetic (operator : String) (f : Int → Int → Except Stop Int) (op1 op2 : Value) :
    Except Stop Value :=
  match op1, op2 with
  | .null, _ => .error .null
  | _, .null => .error .null
  | .integer i, .integer j => do
    let k ← f (i.bmod (2 ^ 32)) (j.bmod (2 ^ 32))
    .ok (.integer (k.bmod (2 ^ 32)))
  | .float x, .float y => .ok (.float (p.arith operator x y))
  | _, _ => .ok .null -- "Incompatible types"

/-- `Minimal_Value_add`; the second string is put behind the end of the first. -/
def add (op1 op2 : Value) : Except Stop Value :=
  match op1, op2 with
  | .string s n, .string t m => .ok (.string (p.joined s t) (n + m))
  | _, _ => arithmetic p "+" (fun i j => .ok (i + j)) op1 op2

mutual

/-- `Minimal_Value_eq`. -/
def valueEq (op1 op2 : Value) : Except Stop Bool :=
  if op1.isNull ∨ op2.isNull then .error .null
  else if op1.number ≠ op2.number then .ok false
  else match op1, op2 with
    | .nil, .nil => .ok false
    | .boolean a, .boolean b => .ok (a = b)
    | .integer a, .integer b => .ok (a = b)
    | .uinteger a, .uinteger b => .ok (a = b)
    | .string a _, .string b _ => .ok (p.strcmp a b = 0)
    | .tsref a, .tsref b => .ok (p.strcmp a b = 0)
    | .tuple as, .tuple bs => if as.length ≠ bs.length then .ok false else eqLoop as bs
    | .sum a, .sum b => valueEq a b
    | a, b => .ok (p.same a b)

/-- The loop over the values of two tuples. -/
def eqLoop (as bs : List Value) : Except Stop Bool :=
  match as, bs with
  | a :: as, b :: bs => do
    let e ← valueEq a b
    if e then .ok true else do
      let e ← valueEq a b
      if !e then .ok false else eqLoop as bs
  | _, _ => .ok false

end

mutual

/-- `Minimal_Value_ge`. -/
def valueGe (op1 op2 : Value) : Except Stop Bool :=
  if op1.isNull ∨ op2.isNull then .error .null
  else if op1.number ≠ op2.number then .ok (op1.number > op2.number)
  else match op1, op2 with
    | .nil, .nil => .ok false
    | .boolean a, .boolean b => .ok (a ≠ 0 ∧ b = 0)
    | .integer a, .integer b => .ok (a > b)
    | .uinteger a, .uinteger b => .ok (a > b)
    | .string a _, .string b _ => .ok (p.strcmp a b = 1)
    | .tsref a, .tsref b => .ok (p.strcmp a b = 1)
    | .tuple as, .tuple bs =>
      if as.length > bs.length then .ok true
      else if as.length < bs.length then .ok false
      else geLoop as bs
    | .sum a, .sum b => valueGe a b
    | a, b => .ok (p.above a b)

/-- The loop over the values of two tuples. -/
def geLoop (as bs : List Value) : Except Stop Bool :=
  match as, bs with
  | a :: as, b :: bs => do
    let g ← valueGe a b
    if g then .ok true else do
      let e ← valueEq p a b
      if !e then .ok false else geLoop as bs
  | _, _ => .ok false

end

/-- The operators, in the order in which they are tried. -/
def operate (operator : String) (op1 op2 : Value) : Except Stop Value :=
  if operator = "+" then add p op1 op2
  else if operator = "-" then arithmetic p operator (fun i j => .ok (i - j)) op1 op2
  else if operator = "*" then arithmetic p operator (fun i j => .ok (i * j)) op1 op2
  else if operator = "/" then arithmetic p operator divide op1 op2
  else if operator = ">" then do
    let g ← valueGe p op1 op2
    .ok (.boolean (if g then 1 else 0))
  else .error .exit -- "unrecognised operator"

/-- `Minimal_isTrue`. -/
def isTrue : Value → Except Stop Bool
  | .null => .error .null
  | .nil => .ok false
  | .boolean b => .ok (b ≠ 0)
  | .integer i => .ok (i ≠ 0)
  | .uinteger n => .ok (n ≠ 0)
  | .float x => .ok (p.same (.float x) (.float 0) = false)
  | .double x => .ok (p.same (.double x) (.double 0) = false)
  | .string _ n => .ok (n ≠ 0)
  | .tuple vs => .ok (vs.length ≠ 0)
  | .sum v => isTrue v
  | .pointer ptr => .ok (ptr ≠ 0)
  | _ => .ok true

/-- What `Minimal_tupleGet` found gets a reference. -/
def referenced : Option Value → Except Stop Value
  | none => .error .outOfBounds
  | some .null => .error .null
  | some v => .ok v

/-- `Minimal_getItem`. -/
def getItem (value : Value) (index : Int) : Except Stop Value :=
  match value with
  | .null => .error .null
  | .tuple vs =>
    if index < 0 ∨ index > vs.length - 1 then .ok .null -- "invalid index"
    else referenced vs[index.toNat]?
  | _ => .ok .null -- "invalid type for index"

/-- `Minimal_getItem(val, Minimal_getLong(index))`. -/
def indexValue (value index : Value) : Except Stop Value := do
  let i ← getInt p index
  getItem value i

/-! ## Nodes -/

/-- `tree->branches[i]`. -/
def branchAt (branches : List SyntaxTree) (i : Nat) : Except Stop SyntaxTree :=
  match branches[i]? with
  | none => .error .outOfBounds
  | some t => .ok t

/-- `->argument` and `->next_arg`. -/
def argumentOf : SyntaxTree → Except Stop (SyntaxTree × SyntaxTree)
  | .argumentList argument nextArg => .ok (argument, nextArg)
  | .null => .error .null
  | _ => .error .junk

/-- `->var_name` and `->next_var`. -/
def parameterOf : SyntaxTree → Except Stop (String × SyntaxTree)
  | .parameterList varName nextVar => .ok (varName, nextVar)
  | .null => .error .null
  | _ => .error .junk

/-- `tree->var->string`. -/
def variableOf : SyntaxTree → Except Stop String
  | .identifier string _ => .ok string
  | .null => .error .null
  | _ => .error .junk

/-- `tree->type`. -/
def nodeOf : SyntaxTree → Except Stop Unit
  | .null => .error .null
  | _ => .ok ()

/-! ## Layers -/

/-- `Minimal_getName`, along at most so many layers. -/
def lookup (layers : Nat → Layer) : (depth : Nat) → Option Nat → String → Except Stop Value
  | 0, _, _ => .error .depth
  | _ + 1, none, _ => .ok .null
  | depth + 1, some layer, name =>
    match NameMap.getName2 p.strcmp (layers layer).map name with
    | some v => .ok v
    | none => lookup layers depth (layers layer).parent name

def getName (depth layer : Nat) (name : String) : Run Value :=
  Eff.look fun s => lookup p s.layers depth (some layer) name

/-- `Minimal_addName` of a value that may be `NULL`; then it only complains. -/
def nameIn (map : NameMap Value) (name : String) (value : Value) : Except Stop (NameMap Value) :=
  if name = "" then .error .null
  else if value.isNull then .ok map
  else match NameMap.addName p.strcmp map name value with
    | none => .error .null
    | some map => .ok map

def State.setMap (s : State) (layer : Nat) (map : NameMap Value) : State :=
  { s with layers := fun l => if l = layer then { s.layers layer with map := map } else s.layers l }

/-- `Minimal_addName(layer->map, name, value)`. -/
def addName (layer : Nat) (name : String) (value : Value) : Run Unit := do
  let map ← Eff.look fun s => .ok (s.layers layer).map
  let map ← step (.addName map name value) (nameIn p map name value)
  Eff.update fun s => s.setMap layer map

/-- `Minimal_createLayer2`. -/
def createLayer2 (parent : Nat) : Run Nat := do
  let layer ← Eff.look fun s => .ok s.count
  Eff.update fun s => { s with
    layers := fun l => if l = layer then ⟨some parent, NameMap.init⟩ else s.layers l
    count := s.count + 1 }
  pure layer

/-- `typespec->type_spec` of a type gets a reference. -/
def typeSpecOf : Value → Except Stop Unit
  | .type .null => .error .null
  | _ => .ok ()

/-- The part of `Minimal_Layer_addTree` that `Minimal_evaluate` uses. -/
def addTree (depth layer : Nat) (tree : SyntaxTree) : Run Unit :=
  match tree with
  | .typeSpec typeName typeDef => addName p layer typeName (.type typeDef)
  | .functionDef funcName parameterList body => do
    let typespec ← getName p depth layer funcName
    step (.typeSpec typespec) (typeSpecOf typespec)
    step (.parameterList parameterList) (nodeOf parameterList)
    addName p layer funcName (.function parameterList body layer)
  | _ => pure ()

/-! ## Evaluation -/

section
variable (eval : SyntaxTree → Nat → Run Value)

/-- Branches whose values are not used. -/
def evaluateAll (layer : Nat) : List SyntaxTree → Run Unit
  | [] => pure ()
  | t :: ts => do
    let _ ← eval t layer
    evaluateAll layer ts

/-- The values of the elements of a tuple. -/
def evaluateElements (layer : Nat) : List SyntaxTree → Run (List Value)
  | [] => pure []
  | t :: ts => do
    let v ← eval t layer
    let vs ← evaluateElements layer ts
    pure (v :: vs)

/-- The loop over the arguments of a call; `false` when it returns `NULL`. -/
def bindArguments (layer newLayer : Nat) : SyntaxTree → SyntaxTree → Run Bool
  | .null, _ => pure true
  | .blank, _ => pure true
  | .argumentList argument nextArg, param => do
    let v ← eval argument layer
    if param.isNull then pure false -- "Param is NULL."
    else if v.isNull then pure false -- "Got NULL when evalutating parameter."
    else do
      let (varName, nextVar) ← step (.parameter param) (parameterOf param)
      addName p newLayer varName v
      bindArguments layer newLayer nextArg nextVar
  | arg, _ => do
    let _ ← step (.argument arg) (argumentOf arg)
    pure true

/-- A built-in function is called with what its arguments evaluate to. -/
def callBuiltIn (layer argCount func : Nat) (arguments : SyntaxTree) : Run Value :=
  if argCount = 0 then pure (p.builtIn func [])
  else if argCount = 1 then do
    let (argument, _) ← step (.argument arguments) (argumentOf arguments)
    let v ← eval argument layer
    step (.builtIn [v]) (if v.isNull then .error .null else .ok (p.builtIn func [v]))
  else if argCount = 2 then do
    let (argument, nextArg) ← step (.argument arguments) (argumentOf arguments)
    let v ← eval argument layer
    let (argument, _) ← step (.argument nextArg) (argumentOf nextArg)
    let w ← eval argument layer
    step (.builtIn [v, w])
      (if v.isNull ∨ w.isNull then .error .null else .ok (p.builtIn func [v, w]))
  else pure .null -- "Too many parameters to built in function."

def callFunction (layer : Nat) (function : Value) (arguments : SyntaxTree) : Run Value :=
  match function with
  | .null => pure .null
  | .builtInFunc argCount func => callBuiltIn p eval layer argCount func arguments
  | .function parameterList code funcLayer => do
    let newLayer ← createLayer2 funcLayer
    if parameterList.isNull then pure .null -- "Parameter list for %s is NULL."
    else do
      let bound ← bindArguments p eval layer newLayer arguments parameterList
      if bound then eval code newLayer else pure .null
  | _ => pure .null -- "Didn't get function for function call."

end

/-- `Minimal_evaluate`. -/
def evaluate : (depth : Nat) → SyntaxTree → Nat → Run Value
  | 0, _, _ => Eff.raise .depth
  | depth + 1, tree, layer =>
    match tree with
    | .null => do
      step (.node .null) (nodeOf .null)
      pure .null
    | .blank | .nil => pure .nil
    | .identifier string _ => getName p depth layer string
    | .integer i => pure (.integer (i.bmod (2 ^ 32)))
    | .string s => pure (.string s (s.utf8ByteSize + 1))
    | .sequentialDefs branches => do
      evaluateAll (evaluate depth) layer (branches.take (branches.length - 1))
      -- the loop has left `i` at the last branch
      let t ← step (.branch branches (branches.length - 1 + 1))
        (branchAt branches (branches.length - 1 + 1))
      evaluate depth t layer
    | .typeSpec typeName typeDef => do
      addTree p depth layer (.typeSpec typeName typeDef)
      getName p depth layer typeName
    | .functionDef funcName parameterList body => do
      addTree p depth layer (.functionDef funcName parameterList body)
      getName p depth layer funcName
    | .functionCall function arguments => do
      let f ← evaluate depth function layer
      callFunction p (evaluate depth) layer f arguments
    | .letExpr var letexpr code => do
      let v ← evaluate depth letexpr layer
      let newLayer ← createLayer2 layer
      let name ← step (.variable var) (variableOf var)
      addName p newLayer name v
      evaluate depth code newLayer
    | .operator op op1 op2 => do
      let v ← evaluate depth op1 layer
      let w ← evaluate depth op2 layer
      step (.operator op v w) (operate p op v w)
    | .tuple ts => do
      let vs ← evaluateElements (evaluate depth) layer ts
      pure (.tuple vs)
    | .ifExpr test thenExpr elseExpr => do
      let t ← evaluate depth test layer
      let b ← step (.test t) (isTrue p t)
      if b then evaluate depth thenExpr layer else evaluate depth elseExpr layer
    | .bracket typeDef => evaluate depth typeDef layer
    | .index expr index => do
      let v ← evaluate depth expr layer
      let i ← evaluate depth index layer
      step (.index v i) (indexValue p v i)
    | .typeFunction _ _ | .parameterList _ _ | .argumentList _ _ | .productType _ | .sumType _
    | .pointer _ => pure .null

end

end PyLinda.Evaluate
