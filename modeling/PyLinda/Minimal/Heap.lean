import PyLinda.Minimal.NameMap

/-!
# Objects with reference counts

The structures of `minimal_c.h` and the functions that make and fill them. The members of a
union lie over each other, so an object has the words of its union, and a member is one of
them. An object refers to others by `R`.
-/

namespace PyLinda.Counted

/-- A word of a union: a pointer to an object or to characters, an array, a number, or whatever
was there before. -/
inductive Word (R : Type) where
  | null
  | ref (r : R)
  | text
  | array (elems : List (Option R))
  | number (i : Int)
  | junk

/-- A pointer to an object, which may be `NULL`. -/
def Word.of {R : Type} : Option R → Word R
  | none => .null
  | some r => .ref r

def Word.isNull {R : Type} : Word R → Bool
  | .null => true
  | _ => false

def Word.isRef {R : Type} : Word R → Bool
  | .ref _ => true
  | _ => false

/-- `for(i=0; i<size; i++)` over `array[i]`; behind the end there is whatever is there. -/
def elements {R : Type} (size array : Word R) : List (Word R) :=
  match size, array with
  | .number n, .array elems =>
    (List.range n.toNat).map fun i => (elems[i]?.map Word.of).getD .junk
  | .number n, _ => List.replicate n.toNat .junk
  | _, _ => [.junk]

/-! ## Syntax trees -/

/-- The `ST_*`. -/
inductive StType where
  | blank | nil | identifier | integer | string | sequentialDefs | typeSpec | typeFunction
  | functionDef | parameterList | functionCall | argumentList | operator | productType | sumType
  | tuple | pointer | ifExpr | bracket | index | «let»
  deriving DecidableEq

/-- A `Minimal_SyntaxTree_t`, with the words of its union. -/
structure Tree (R : Type) where
  type : StType
  u0 : Word R
  u1 : Word R
  u2 : Word R
  u3 : Word R

namespace Tree

section
variable {R : Type} (t : Tree R)

def length : Word R := t.u0
def branches : Word R := t.u1
def typeDef : Word R := t.u1
def nextVar : Word R := t.u1
def typeSpec : Word R := t.u1
def parameterList : Word R := t.u2
def body : Word R := t.u3
def function : Word R := t.u0
def arguments : Word R := t.u1
def argument : Word R := t.u0
def nextArg : Word R := t.u1
def op1 : Word R := t.u1
def op2 : Word R := t.u2
def size : Word R := t.u0
def tuple : Word R := t.u1
def «if» : Word R := t.u0
def «then» : Word R := t.u1
def «else» : Word R := t.u2
def ptr : Word R := t.u0
def expr : Word R := t.u0
def index : Word R := t.u1
def var : Word R := t.u0
def letexpr : Word R := t.u1
def code : Word R := t.u2

end

section
variable {R : Type}

def createBlank : Tree R := ⟨.blank, .junk, .junk, .junk, .junk⟩
def createNil : Tree R := ⟨.nil, .junk, .junk, .junk, .junk⟩
def createID : Tree R := ⟨.identifier, .text, .junk, .junk, .junk⟩
def createInteger (i : Int) : Tree R := ⟨.integer, .number i, .junk, .junk, .junk⟩
def createString : Tree R := ⟨.string, .text, .junk, .junk, .junk⟩
def createOperator (expr1 expr2 : Option R) : Tree R :=
  ⟨.operator, .text, .of expr1, .of expr2, .junk⟩
def createBracket (b : Option R) : Tree R := ⟨.bracket, .junk, .of b, .junk, .junk⟩
def createIndex (expr index : Option R) : Tree R := ⟨.index, .of expr, .of index, .junk, .junk⟩
def createTuple (size : Nat) : Tree R :=
  ⟨.tuple, .number size, if size = 0 then .null else .array (List.replicate size none), .junk, .junk⟩
def createIfExpr (test expr1 expr2 : Option R) : Tree R :=
  ⟨.ifExpr, .of test, .of expr1, .of expr2, .junk⟩
def createSequence : Tree R := ⟨.sequentialDefs, .number 0, .null, .junk, .junk⟩
/-- The last branch of `createSequence2`. -/
def createPair (s1 s2 : Option R) : Tree R :=
  ⟨.sequentialDefs, .number 2, .array [s1, s2], .junk, .junk⟩
def createTypeSpec (typeSpec : Option R) : Tree R := ⟨.typeSpec, .text, .of typeSpec, .junk, .junk⟩
def createProductType : Tree R := ⟨.productType, .number 0, .null, .junk, .junk⟩
def createSumType : Tree R := ⟨.sumType, .number 0, .null, .junk, .junk⟩
def createFunction (arg value : Option R) : Tree R :=
  ⟨.typeFunction, .number 2, .array [arg, value], .junk, .junk⟩
def createFunctionCall (func args : Option R) : Tree R :=
  ⟨.functionCall, .of func, .of args, .junk, .junk⟩
def createLet (var expr code : Option R) : Tree R := ⟨.let, .of var, .of expr, .of code, .junk⟩
def createFunctionDef (args expr : Option R) : Tree R :=
  ⟨.functionDef, .text, .null, .of args, .of expr⟩
def createArgumentList1 (s1 : Option R) : Tree R := ⟨.argumentList, .of s1, .null, .junk, .junk⟩
def createParameterList1 : Tree R := ⟨.parameterList, .text, .null, .junk, .junk⟩
def createPointer : Tree R := ⟨.pointer, .text, .junk, .junk, .junk⟩

/-- `tup->tuple[i] = v`. -/
def setTuple (t : Tree R) (i : Nat) (v : Option R) : Tree R :=
  match t.tuple with
  | .array elems => { t with u1 := .array (elems.set i v) }
  | _ => t

/-- `addToSequence`, `addToProductType` and `addToSumType`. -/
def addBranch (t : Tree R) (v : Option R) : Tree R :=
  match t.length, t.branches with
  | .number n, .array old => { t with u0 := .number (n + 1), u1 := .array (old ++ [v]) }
  | _, _ => { t with u0 := .number 1, u1 := .array [v] }

/-- `prependToSequence`, `prependToProductType` and `prependToSumType`. -/
def prependBranch (t : Tree R) (v : Option R) : Tree R :=
  match t.length, t.branches with
  | .number n, .array old => { t with u0 := .number (n + 1), u1 := .array (v :: old) }
  | _, _ => { t with u0 := .number 1, u1 := .array [v] }

def addToTuple (t : Tree R) (v : Option R) : Tree R :=
  match t.size, t.tuple with
  | .number n, .array old =>
    if n = 0 then { t with u0 := .number 1, u1 := .array [v] }
    else { t with u0 := .number (n + 1), u1 := .array (old ++ [v]) }
  | _, _ => { t with u0 := .number 1, u1 := .array [v] }

/-- `ptr->next_arg = s2`. -/
def setNextArg (t : Tree R) (v : Option R) : Tree R := { t with u1 := .of v }

/-- `ptr->next_var = s2`. -/
def setNextVar (t : Tree R) (v : Option R) : Tree R := { t with u1 := .of v }

/-- `tree->type_spec = …` in `Minimal_Layer_addTree`. -/
def setTypeSpec (t : Tree R) (v : Option R) : Tree R := { t with u1 := .of v }

/-- What the functions above build. -/
inductive Built : Tree R → Prop
  | blank : Built createBlank
  | nil : Built createNil
  | id : Built createID
  | integer (i : Int) : Built (createInteger i)
  | string : Built createString
  | operator (expr1 expr2 : Option R) : Built (createOperator expr1 expr2)
  | bracket (b : Option R) : Built (createBracket b)
  | index (expr index : Option R) : Built (createIndex expr index)
  | tuple (size : Nat) : Built (createTuple size)
  | setTuple (t : Tree R) (i : Nat) (v : Option R) : Built t → t.type = .tuple →
    Built (t.setTuple i v)
  | addToTuple (t : Tree R) (v : Option R) : Built t → t.type = .productType ∨ t.type = .tuple →
    Built (t.addToTuple v)
  | ifExpr (test expr1 expr2 : Option R) : Built (createIfExpr test expr1 expr2)
  | sequence : Built createSequence
  | pair (s1 s2 : Option R) : Built (createPair s1 s2)
  | productType : Built createProductType
  | sumType : Built createSumType
  | addBranch (t : Tree R) (v : Option R) : Built t →
    t.type = .sequentialDefs ∨ t.type = .productType ∨ t.type = .sumType → Built (t.addBranch v)
  | prependBranch (t : Tree R) (v : Option R) : Built t →
    t.type = .sequentialDefs ∨ t.type = .productType ∨ t.type = .sumType → Built (t.prependBranch v)
  | typeSpec (spec : Option R) : Built (createTypeSpec spec)
  | function (arg value : Option R) : Built (createFunction arg value)
  | functionCall (func args : Option R) : Built (createFunctionCall func args)
  | «let» (var expr code : Option R) : Built (createLet var expr code)
  | functionDef (args expr : Option R) : Built (createFunctionDef args expr)
  | setTypeSpec (t : Tree R) (v : Option R) : Built t → t.type = .functionDef →
    Built (t.setTypeSpec v)
  | argumentList (s1 : Option R) : Built (createArgumentList1 s1)
  | setNextArg (t : Tree R) (v : Option R) : Built t → t.type = .argumentList →
    Built (t.setNextArg v)
  | parameterList : Built createParameterList1
  | setNextVar (t : Tree R) (v : Option R) : Built t → t.type = .parameterList →
    Built (t.setNextVar v)
  | pointer : Built createPointer

/-- `Minimal_SyntaxTree_getReferences`: what it passes to `Minimal_addToCyclicGarbageList`. -/
def references (t : Tree R) : List (Word R) :=
  match t.type with
  | .blank | .nil | .identifier | .integer | .string => []
  | .sequentialDefs => elements t.size t.branches
  | .typeSpec => [t.typeDef]
  | .typeFunction => elements t.size t.branches
  | .functionDef =>
    (if t.typeSpec.isNull then [] else [t.typeSpec]) ++ [t.parameterList, t.body]
  | .parameterList => [t.nextVar]
  | .functionCall => [t.function, t.arguments]
  | .let => [t.var, t.letexpr, t.code]
  | .argumentList => [t.argument, t.nextArg]
  | .operator => [t.op1, t.op2]
  | .productType => elements t.size t.branches
  | .sumType => elements t.size t.branches
  | .tuple => elements t.size t.branches
  | .pointer => []
  | .ifExpr => [t.if, t.then, t.else]
  | .bracket => [t.typeDef]
  | .index => [t.expr, t.index]

/-- `Minimal_SyntaxTree_free`: what it passes to `Minimal_delReference`. -/
def free (t : Tree R) : List (Word R) :=
  match t.type with
  | .blank | .nil | .identifier | .integer | .string => []
  | .sequentialDefs => elements t.size t.branches
  | .typeSpec => [t.typeDef]
  | .typeFunction => elements t.size t.branches
  | .functionDef =>
    (if t.typeSpec.isNull then [] else [t.typeSpec]) ++ [t.parameterList, t.body]
  | .parameterList => if t.nextArg.isNull then [] else [t.nextVar]
  | .functionCall => [t.function, t.arguments]
  | .let => [t.var, t.letexpr, t.code]
  | .argumentList => t.argument :: if t.nextArg.isNull then [] else [t.nextArg]
  | .operator => [t.op1, t.op2]
  | .productType => elements t.size t.branches
  | .sumType => elements t.size t.branches
  | .tuple => elements t.size t.tuple
  | .pointer => [t.ptr]
  | .ifExpr => [t.if, t.then, t.else]
  | .bracket => [t.typeDef]
  | .index => [t.expr, t.index]

end

end Tree

/-! ## Values -/

/-- The `M_*`. -/
inductive MType where
  | nil | boolean | integer | uinteger | float | double | string | type | tsref | tuple | sum
  | function | pointer | syntaxTree | builtInFunc
  deriving DecidableEq

/-- A `MinimalValue_t`, with the words of its union. -/
structure Val (R : Type) where
  type : MType
  typeobj : Word R
  u0 : Word R
  u1 : Word R
  u2 : Word R
  u3 : Word R

namespace Val

section
variable {R : Type} (v : Val R)

def value : Word R := v.u0
def typeSpec : Word R := v.u1
def typemap : Word R := v.u2
def values : Word R := v.u0
def size : Word R := v.u1
def parameterList : Word R := v.u1
def code : Word R := v.u2
def layer : Word R := v.u3
def ptr : Word R := v.u0
def syntaxTree : Word R := v.u0

end

section
variable {R : Type}

/-- `Minimal_nil`, `Minimal_bool`, `Minimal_byte`, …, `Minimal_double`: a number, or none, and
the type of such values. -/
def scalar (kind : MType) (typeobj : Option R) (n : Int) : Val R :=
  ⟨kind, .of typeobj, .number n, .junk, .junk, .junk⟩
/-- `Minimal_string` and `Minimal_string2`; the second sets no type. -/
def string (typeobj : Option R) (len : Nat) : Val R :=
  ⟨.string, .of typeobj, .text, .number len, .junk, .junk⟩
def typeSpecVal (typeobj spec layer : Option R) : Val R :=
  ⟨.type, .of typeobj, .text, .of spec, .of layer, .null⟩
def typeFromId (typeobj : Option R) : Val R := ⟨.type, .of typeobj, .null, .null, .null, .text⟩
def function2 (typeobj parameterList code layer : Option R) : Val R :=
  ⟨.function, .of typeobj, .text, .of parameterList, .of code, .of layer⟩
def tuple (size : Nat) : Val R :=
  ⟨.tuple, .null, if size = 0 then .null else .array (List.replicate size none), .number size,
    .junk, .junk⟩
def ptrTo (value : Option R) : Val R := ⟨.pointer, .null, .of value, .junk, .junk, .junk⟩
def tupleSpace (typeobj : Option R) : Val R := ⟨.tsref, .of typeobj, .text, .junk, .junk, .junk⟩
def sum (val : Option R) (sumpos : Int) : Val R :=
  ⟨.sum, .null, .of val, .number sumpos, .junk, .junk⟩
def syntaxTreeVal (tree : Option R) : Val R :=
  ⟨.syntaxTree, .null, .of tree, .junk, .junk, .junk⟩
def builtInFunc (argCount : Int) : Val R :=
  ⟨.builtInFunc, .null, .text, .number argCount, .junk, .junk⟩

def setType (v : Val R) (typeobj : Option R) : Val R := { v with typeobj := .of typeobj }
def setTypeMap (v : Val R) (types : Option R) : Val R := { v with u2 := .of types }
def setPtr (v : Val R) (v2 : Option R) : Val R := { v with u0 := .of v2 }
def setSumValue (v : Val R) (val : Option R) (i : Int) : Val R :=
  { v with u0 := .of val, u1 := .number i }
def setLayer (v : Val R) (layer : Option R) : Val R := { v with u3 := .of layer }

/-- `Minimal_tupleSet`, which makes the tuple longer where it has to. -/
def tupleSet (v : Val R) (pos : Nat) (value : Option R) : Val R :=
  match v.size, v.values with
  | .number n, .array elems =>
    if (pos : Int) < n then { v with u0 := .array (elems.set pos value) }
    else { v with
      u0 := .array ((elems ++ List.replicate (pos + 1 - elems.length) none).set pos value)
      u1 := .number (pos + 1) }
  | _, _ => { v with
      u0 := .array ((List.replicate (pos + 1) none).set pos value)
      u1 := .number (pos + 1) }

/-- The kinds of `scalar`. -/
def IsScalar (kind : MType) : Prop :=
  kind = .nil ∨ kind = .boolean ∨ kind = .integer ∨ kind = .uinteger ∨ kind = .float ∨
    kind = .double

/-- What the functions above build. -/
inductive Built : Val R → Prop
  | scalar (kind : MType) (typeobj : Option R) (n : Int) : IsScalar kind →
    Built (scalar kind typeobj n)
  | string (typeobj : Option R) (len : Nat) : Built (string typeobj len)
  | typeSpec (typeobj spec layer : Option R) : Built (typeSpecVal typeobj spec layer)
  | typeFromId (typeobj : Option R) : Built (typeFromId typeobj)
  | function (typeobj parameterList code layer : Option R) :
    Built (function2 typeobj parameterList code layer)
  | tuple (size : Nat) : Built (tuple size)
  | tupleSet (v : Val R) (pos : Nat) (value : Option R) : Built v → v.type = .tuple →
    Built (v.tupleSet pos value)
  | ptr (value : Option R) : Built (ptrTo value)
  | setPtr (v : Val R) (v2 : Option R) : Built v → v.type = .pointer → Built (v.setPtr v2)
  | tupleSpace (typeobj : Option R) : Built (tupleSpace typeobj)
  | sum (val : Option R) (sumpos : Int) : Built (sum val sumpos)
  | setSumValue (v : Val R) (val : Option R) (i : Int) : Built v → v.type = .sum →
    Built (v.setSumValue val i)
  | syntaxTree (tree : Option R) : Built (syntaxTreeVal tree)
  | builtInFunc (argCount : Int) : Built (builtInFunc argCount)
  | setType (v : Val R) (typeobj : Option R) : Built v → Built (v.setType typeobj)
  | setTypeMap (v : Val R) (types : Option R) : Built v → v.type = .type → Built (v.setTypeMap types)
  | setLayer (v : Val R) (layer : Option R) : Built v → v.type = .function → Built (v.setLayer layer)

/-- `Minimal_Value_getReferences`. -/
def references (v : Val R) : List (Word R) :=
  (if v.typeobj.isNull then [] else [v.typeobj]) ++
    match v.type with
    | .nil | .boolean | .integer | .uinteger | .float | .double | .string | .tsref
    | .builtInFunc => []
    | .function => [v.layer, v.parameterList, v.code]
    | .type => [v.typemap, v.typeSpec]
    | .tuple => elements v.size v.values
    | .sum => [v.value]
    | .pointer => [v.ptr]
    | .syntaxTree => [v.syntaxTree]

/-- `Minimal_Value_free`. -/
def free (v : Val R) : List (Word R) :=
  (if v.typeobj.isNull then [] else [v.typeobj]) ++
    match v.type with
    | .nil | .boolean | .integer | .uinteger | .float | .double | .string | .tsref
    | .builtInFunc => []
    | .type => (if v.typeSpec.isNull then [] else [v.typeSpec]) ++
        if v.typemap.isNull then [] else [v.typemap]
    | .tuple => (elements v.size v.values).filter fun w => !w.isNull
    | .sum => [v.value]
    | .function => [v.parameterList, v.code, v.layer]
    | .pointer => [v.ptr]
    | .syntaxTree => [v.syntaxTree]

end

end Val

/-! ## Layers and maps -/

/-- A `MinimalLayer_t`. -/
structure Layer (R : Type) where
  parent : Word R
  map : Word R

namespace Layer

variable {R : Type}

/-- `Minimal_createLayer` and `Minimal_createLayer2`, with the map they make. -/
inductive Built : Layer R → Prop
  | create (parent : Option R) (map : R) : Built ⟨.of parent, .ref map⟩

/-- `Minimal_Layer_getReferences`. -/
def references (l : Layer R) : List (Word R) :=
  l.map :: if l.parent.isNull then [] else [l.parent]

/-- `Minimal_Layer_free`. -/
def free (l : Layer R) : List (Word R) :=
  (if l.parent.isNull then [] else [l.parent]) ++ [l.map]

end Layer

section
variable {R : Type} (strcmp : String → String → Int)

/-- What `Minimal_addName` and `Minimal_delName` build. -/
inductive MapBuilt : NameMap R → Prop
  | init : MapBuilt NameMap.init
  | add (map map' : NameMap R) (name : String) (tree : R) : MapBuilt map →
    map.addName strcmp name tree = some map' → MapBuilt map'
  | del (map : NameMap R) (name : String) : MapBuilt map → MapBuilt (map.delName strcmp name)

/-- `Minimal_SyntaxMap_getReferences`. -/
def mapReferences : NameMap R → List (Word R)
  | .null => []
  | .node name v l r => mapReferences l ++ mapReferences r ++
      if name.isSome then [Word.of v] else []

/-- `Minimal_SyntaxMap_empty`: what `Minimal_delName` drops when a node is given its own name;
by then its children are gone. -/
def mapFree : NameMap R → List (Word R)
  | .null => []
  | .node none _ l r => mapFree l ++ mapFree r
  | .node (some m) v l r => mapFree l ++ mapFree r ++
      if strcmp m m = 0 then [Word.of v] else []

end

/-! ## Objects -/

/-- An object with a reference count. -/
inductive Object (R : Type) where
  | value (v : Val R)
  | layer (l : Layer R)
  | map (m : NameMap R)
  | syntaxTree (t : Tree R)

namespace Object

variable {R : Type} (strcmp : String → String → Int)

def Built : Object R → Prop
  | value v => v.Built
  | layer l => l.Built
  | map m => MapBuilt strcmp m
  | syntaxTree t => t.Built

/-- `Minimal_getReferences`. -/
def references : Object R → List (Word R)
  | value v => v.references
  | layer l => l.references
  | map m => mapReferences m
  | syntaxTree t => t.references

/-- `Minimal_delObject`. -/
def free : Object R → List (Word R)
  | value v => v.free
  | layer l => l.free
  | map m => mapFree strcmp m
  | syntaxTree t => t.free

end Object

end PyLinda.Counted
