import PyLinda.Lib.Effect
import PyLinda.Minimal.CyclicGarbage

/-!
# Syntax trees in memory

The functions of `syntax_tree.c` that the parser calls. A node has a reference count; what is in
it stays there when it is freed, but nobody can look at it.
-/

namespace PyLinda.Parser

open Lib RefCount

/-- A pointer, which may be `NULL`. -/
abbrev Ptr : Type := Option Addr

/-- A `Minimal_SyntaxTree_t` behind its reference count. `type_id` is `NULL`. -/
inductive Node where
  | blank
  | nil
  | identifier (string : String)
  | integer (integer : Int)
  | string (string : String)
  | sequentialDefs (branches : List Addr)
  | typeSpec (typeName : String) (typeDef : Addr)
  | typeFunction (arg value : Addr)
  | functionDef (funcName : String) (parameterList body : Addr)
  | parameterList (varName : String) (nextVar : Ptr)
  | functionCall (function : Addr) (arguments : Ptr)
  | argumentList (argument : Addr) (nextArg : Ptr)
  | operator (operator : String) (op1 op2 : Addr)
  | productType (branches : List Addr)
  | sumType (branches : List Addr)
  | tuple (values : List Addr)
  | pointer (ptr : String)
  | ifExpr (test expr1 expr2 : Addr)
  | bracket (typeDef : Addr)
  | index (expr index : Addr)
  | letExpr (var letexpr code : Addr)

namespace Node

/-- `Minimal_SyntaxTree_getReferences`. -/
def refs : Node → List Addr
  | blank | nil | identifier _ | integer _ | string _ | pointer _ => []
  | sequentialDefs branches | productType branches | sumType branches | tuple branches => branches
  | typeSpec _ typeDef | bracket typeDef => [typeDef]
  | typeFunction arg value => [arg, value]
  | functionDef _ args body => [args, body]
  | parameterList _ next => next.toList
  | functionCall function arguments => function :: arguments.toList
  | argumentList argument next => argument :: next.toList
  | operator _ op1 op2 => [op1, op2]
  | ifExpr test expr1 expr2 => [test, expr1, expr2]
  | index expr i => [expr, i]
  | letExpr var letexpr code => [var, letexpr, code]

/-- Where there is never an object. -/
def nowhere : Addr := 0

/-- What `Minimal_SyntaxTree_free` drops: also the characters of a pointer type and a call's
missing arguments; and `type_id`, which `createLet` does not set, it frees. -/
def drops : Node → List Addr
  | pointer _ => [nowhere]
  | functionCall function arguments => [function, arguments.getD nowhere]
  | letExpr var letexpr code => [nowhere, var, letexpr, code]
  | node => node.refs

/-- What the lexer makes. -/
def isToken : Node → Bool
  | identifier _ | integer _ | string _ => true
  | _ => false

end Node

/-- The objects, what is in the nodes, the next address, and the lexer's `yylval`. -/
structure Memory where
  heap : RefCount.Heap
  node : Addr → Node
  next : Addr
  yylval : Ptr

inductive Stop where
  | null
  | freed
  | wrongType
  | wild
  deriving DecidableEq

abbrev Run (α : Type) : Type := Eff Memory Stop α

namespace Memory

/-- What is in the node at an address. -/
def read (m : Memory) : Ptr → Except Stop Node
  | none => .error .null
  | some a => if (m.heap.objs a).isSome then .ok (m.node a) else .error .freed

def put (m : Memory) (a : Addr) (o : Obj) (n : Node) : Memory :=
  { m with
    heap := m.heap.set a (some o)
    node := fun b => if b = a then n else m.node b }

/-- `Minimal_newReference`, and what is written into the node. -/
def alloc (m : Memory) (n : Node) : Memory :=
  { m.put m.next ⟨1, n.refs, n.drops⟩ n with next := m.next + 1 }

end Memory

def newReference (n : Node) : Run Addr := fun m => (.ok m.next, m.alloc n)

def read (p : Ptr) : Run Node := Eff.look fun m => m.read p

/-- Other contents for the node at an address. -/
def write (a : Addr) (n : Node) : Run Unit := fun m =>
  match m.heap.objs a with
  | none => (.error .freed, m)
  | some o => (.ok (), m.put a ⟨o.refCount, n.refs, n.drops⟩ n)

/-- `Minimal_addReference`. -/
def addReference (a : Addr) : Run Unit := fun m =>
  match m.heap.objs a with
  | none => (.error .freed, m)
  | some o => (.ok (), { m with heap := m.heap.set a (some { o with refCount := o.refCount + 1 }) })

/-- `Minimal_delReference`. There are fewer calls inside each other than addresses. -/
def delReference : Ptr → Run Unit
  | none => Eff.raise .null
  | some a => fun m =>
    match RefCount.delReference (m.next + 2) a m.heap with
    | none => (.error .freed, m)
    | some heap => (.ok (), { m with heap := heap })

/-- `id->string`. -/
def stringOf (p : Ptr) : Run String := do
  let n ← read p
  match n with
  | .identifier s => pure s
  | .string s => pure s
  | _ => Eff.raise .wrongType

/-- A pointer that is put into a node where `NULL` is not looked for. -/
def there (p : Ptr) : Run Addr := Eff.look fun _ => p.elim (.error .null) .ok

/-! ## `syntax_tree.c` -/

def createBlank : Run Addr := newReference .blank

def createNil : Run Addr := newReference .nil

def createOperator (op expr1 expr2 : Ptr) : Run Addr := do
  let n ← read op
  match n with
  | .identifier s => do
    let a ← there expr1
    let b ← there expr2
    let tree ← newReference (.operator s a b)
    delReference op
    pure tree
  | _ => Eff.raise .wrongType

def createBracket (b : Ptr) : Run Addr := do
  let a ← there b
  newReference (.bracket a)

def createIndex (expr index : Ptr) : Run Addr := do
  let a ← there expr
  let b ← there index
  newReference (.index a b)

/-- `createTuple(0)`. -/
def createTuple0 : Run Addr := newReference (.tuple [])

/-- `createTuple(1)`, and `setTuple` of its element. -/
def createTuple1 (v : Ptr) : Run Addr := do
  let a ← there v
  newReference (.tuple [a])

def createIfExpr (test expr1 expr2 : Ptr) : Run Addr := do
  let a ← there test
  let b ← there expr1
  let c ← there expr2
  newReference (.ifExpr a b c)

/-- `addToSequence`, `addToProductType` and `addToSumType`. -/
def addBranch (type : Addr) (v : Addr) : Run Unit := do
  let n ← read (some type)
  match n with
  | .sequentialDefs branches => write type (.sequentialDefs (branches ++ [v]))
  | .productType branches => write type (.productType (branches ++ [v]))
  | .sumType branches => write type (.sumType (branches ++ [v]))
  | _ => Eff.raise .wrongType

/-- `prependToSequence`, `prependToProductType` and `prependToSumType`. -/
def prependBranch (type : Addr) (v : Addr) : Run Unit := do
  let n ← read (some type)
  match n with
  | .sequentialDefs branches => write type (.sequentialDefs (v :: branches))
  | .productType branches => write type (.productType (v :: branches))
  | .sumType branches => write type (.sumType (v :: branches))
  | _ => Eff.raise .wrongType

/-- The loop of `createSequence2` over the branches of the second sequence. -/
def addBranches (s1 : Addr) : List Addr → Run Unit
  | [] => pure ()
  | b :: bs => do
    addReference b
    addBranch s1 b
    addBranches s1 bs

def createSequence2 (s1 s2 : Ptr) : Run Addr := do
  let a ← there s1
  let b ← there s2
  let n1 ← read s1
  let n2 ← read s2
  match n1, n2 with
  | .sequentialDefs _, .sequentialDefs branches => do
    addBranches a branches
    pure a
  | .sequentialDefs _, _ => do
    addBranch a b
    pure a
  | _, .sequentialDefs _ => do
    prependBranch b a
    pure b
  | _, _ => newReference (.sequentialDefs [a, b])

def createTypeSpec (id typeSpec : Ptr) : Run Addr := do
  let s ← stringOf id
  let a ← there typeSpec
  let tree ← newReference (.typeSpec s a)
  delReference id
  pure tree

def createProductType : Run Addr := newReference (.productType [])

def createSumType : Run Addr := newReference (.sumType [])

def createFunction (arg value : Ptr) : Run Addr := do
  let a ← there arg
  let b ← there value
  newReference (.typeFunction a b)

def createFunctionCall (func args : Ptr) : Run Addr := do
  let a ← there func
  newReference (.functionCall a args)

def createLet (var expr code : Ptr) : Run Addr := do
  let a ← there var
  let b ← there expr
  let c ← there code
  newReference (.letExpr a b c)

def createFunctionDef (name args expr : Ptr) : Run Addr := do
  let s ← stringOf name
  let a ← there args
  let b ← there expr
  let tree ← newReference (.functionDef s a b)
  delReference name
  pure tree

/-- `Minimal_SyntaxTree_addToTuple`, which only complains about other nodes. -/
def addToTuple (tuple : Addr) (tree : Addr) : Run Unit := do
  let n ← read (some tuple)
  match n with
  | .tuple ts => write tuple (.tuple (ts ++ [tree]))
  | .productType ts => write tuple (.productType (ts ++ [tree])) -- `M_SYNTAX_TREE` is `ST_PRODUCT_TYPE`
  | _ => pure ()

def createArgumentList1 (s1 : Ptr) : Run Addr := do
  let a ← there s1
  let n ← read s1
  match n with
  | .argumentList _ _ => pure a
  | _ => newReference (.argumentList a none)

/-- `while(ptr->next_arg != NULL) { ptr = ptr->next_arg; }`, at most so often, and
`ptr->next_arg = s2`. -/
def setNextArg (s2 : Addr) : (loops : Nat) → (ptr : Addr) → Run Unit
  | 0, _ => Eff.raise .wild
  | loops + 1, ptr => do
    let n ← read (some ptr)
    match n with
    | .argumentList a none => write ptr (.argumentList a (some s2))
    | .argumentList _ (some next) => setNextArg s2 loops next
    | _ => Eff.raise .wrongType

/-- What is no argument list becomes one, in each of the four cases. -/
def createArgumentList2 (s1 s2 : Ptr) : Run Addr := do
  let a1 ← createArgumentList1 s1
  let a2 ← createArgumentList1 s2
  let loops ← Eff.look fun m => .ok m.next
  setNextArg a2 loops a1
  pure a1

def createParameterList1 (s1 : Ptr) : Run Addr := do
  let a ← there s1
  let n ← read s1
  match n with
  | .parameterList _ _ => pure a
  | _ => do
    let s ← stringOf s1
    newReference (.parameterList s none)

/-- `while(ptr->next_var != NULL) { ptr = ptr->next_var; }` and `ptr->next_var = s2`. -/
def setNextVar (s2 : Addr) : (loops : Nat) → (ptr : Addr) → Run Unit
  | 0, _ => Eff.raise .wild
  | loops + 1, ptr => do
    let n ← read (some ptr)
    match n with
    | .parameterList x none => write ptr (.parameterList x (some s2))
    | .parameterList _ (some next) => setNextVar s2 loops next
    | _ => Eff.raise .wrongType

def createParameterList2 (s1 s2 : Ptr) : Run Addr := do
  let a ← there s1
  let b ← there s2
  let n1 ← read s1
  let n2 ← read s2
  let loops ← Eff.look fun m => .ok m.next
  match n1, n2 with
  | .parameterList _ _, .parameterList _ _ => do
    setNextVar b loops a
    pure a
  | .parameterList _ _, _ => do
    let b' ← createParameterList1 s2
    setNextVar b' loops a
    pure a
  | _, .parameterList _ _ => do
    let a' ← createParameterList1 s1
    setNextVar a' loops b
    pure b
  | _, _ => do
    let a' ← createParameterList1 s1
    let b' ← createParameterList1 s2
    setNextVar b' (loops + 1) a'
    pure a'

def createPointer (v1 : Ptr) : Run Addr := do
  let s ← stringOf v1
  let tree ← newReference (.pointer s)
  delReference v1
  pure tree

end PyLinda.Parser
