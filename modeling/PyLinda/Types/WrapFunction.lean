import PyLinda.Minimal.ExprParser
import PyLinda.Minimal.Lexical
import PyLinda.Types.Compare

/-!
# Wrapping functions

`wrap_function.py` writes a Minimal program that is to convert the argument, call the function
and convert the result. It runs the program of a pair on texts instead of values. A text is
given as its tokens.
-/

namespace PyLinda.Types.Wrap

open Lib
open Grammar (Token)
open Evaluate (Platform evaluate)
open ExprParser (ParsesBody)

/-- What `wrap_function.py` raises. -/
inductive WrapExc where
  | attributeError
  | indexError
  | nameError
  | recursionLimit
  | systemError
  | typeError
  deriving DecidableEq, Repr

abbrev Text := List Token

/-- `"(" + ", ".join(…) + ")"`, also with another separator. -/
def bracketed (separator : Token) (texts : List Text) : Text :=
  .openB :: (List.intercalate [separator] texts ++ [.closeB])

mutual

/-- `stringify_type`. It asks `t1`, which it does not have, whether it is a sum. -/
def stringifyType : TypeSpec → Except WrapExc Text
  | .nil => .ok [.id "Nil"]
  | .id id _ => .ok [.id id]
  | .product branches => do
    let texts ← stringifyTypes branches
    match texts with
    | [] => .ok [.openB, .closeB]
    | [text] => .ok (bracketed (.operator "*") [text, [.integer 1]])
    | texts => .ok (bracketed (.operator "*") texts)
  | .sum _ | .pointer _ _ | .function _ _ => .error .nameError

def stringifyTypes : List TypeSpec → Except WrapExc (List Text)
  | [] => .ok []
  | spec :: specs => do
    let text ← stringifyType spec
    let texts ← stringifyTypes specs
    .ok (text :: texts)

end

/-- `argname` with an index for every key. -/
def indexed (argname : String) (keys : List Nat) : Text :=
  .id argname :: keys.flatMap fun i => [.openSqB, .integer i, .closeSqB]

mutual

/-- `explode`: the names of the parts of a product. -/
def explode (argname : String) : TypeSpec → (keys : List Nat) → List Text
  | .product branches, keys => explodeFrom argname branches 0 keys
  | _, keys => [indexed argname keys]

/-- The loop over the branches from `i` on. -/
def explodeFrom (argname : String) : List TypeSpec → (i : Nat) → (keys : List Nat) → List Text
  | [], _, _ => []
  | spec :: specs, i, keys =>
    explode argname spec (keys ++ [i]) ++ explodeFrom argname specs (i + 1) keys

end

/-- `construct(type[i], vars.pop())`. The variable is a text, which is not empty and cannot
`pop`. -/
def constructPart (text : Text) : TypeSpec → Except WrapExc Text
  | .product [] => .ok [.openB, .closeB]
  | .product _ => .error .attributeError
  | _ => .ok text

/-- The loop of `construct`: a part for every branch, taken from the end of `vars`. -/
def constructParts : List TypeSpec → (vars : List Text) → Except WrapExc (List Text × List Text)
  | [], vars => .ok ([], vars)
  | spec :: specs, vars =>
    match vars.getLast? with
    | none => do
      let (r, vars) ← constructParts specs vars
      .ok ([.id "Nil"] :: r, vars)
    | some text => do
      let part ← constructPart text spec
      let (r, vars) ← constructParts specs vars.dropLast
      .ok (part :: r, vars)

/-- `vars.append(construct(type, vars))`. Of what is no product a list would come back, not a
text; the list is then appended to itself. -/
def construct (vars : List Text) : TypeSpec → Except WrapExc (List Text)
  | .product branches => do
    let (r, vars) ← constructParts branches vars
    .ok (vars ++ [bracketed .comma r])
  | _ => .error .typeError

/-- `vars[-1] = …`. -/
def replaceLast (vars : List Text) (f : Text → Except WrapExc Text) : Except WrapExc (List Text) :=
  match vars.getLast? with
  | none => .error .indexError
  | some text => do
    let text ← f text
    .ok (vars.dropLast ++ [text])

/-- One instruction. `again` runs the program of another pair. -/
def wrapInstr (again : Nat → List Text → Except WrapExc Text) (argname : String)
    (vars : List Text) : Instr → Except WrapExc (List Text)
  | .explode type => .ok (vars ++ explode argname type.typeSpec [])
  | .construct type => construct vars type.typeSpec
  | .eval code => replaceLast vars fun text => again code [text]
  | .setTypeId none => .ok vars
  | .setTypeId (some id) => replaceLast vars fun text =>
    .ok ([.id "settypeid", .openB] ++ text ++ [.comma, .string id, .closeB])
  | .rotate =>
    match vars.getLast? with
    | none => .error .indexError
    | some text => .ok (text :: vars.dropLast)
  | .sumCase _ | .createSum _ | .ptrConv _ => .error .systemError

def wrapLoop (again : Nat → List Text → Except WrapExc Text) (argname : String) :
    List Instr → (vars : List Text) → Except WrapExc Text
  | [], vars =>
    match vars.getLast? with
    | none => .error .indexError
    | some text => .ok text
  | i :: is, vars => do
    let vars ← wrapInstr again argname vars i
    wrapLoop again argname is vars

/-- `wrap`. -/
def wrap (codes : List (List Instr)) (argname : String) :
    (depth : Nat) → (code : Nat) → (vars : List Text) → Except WrapExc Text
  | 0, _, _ => .error .recursionLimit
  | depth + 1, code, vars =>
    wrapLoop (wrap codes argname depth) argname (codes.getD code []) vars

/-- The two definitions of the program: the type of `wrappedfunction`, and what it is for `x`. -/
structure Program where
  type : Text
  body : Text

/-- `let arg=… let val=…(arg) (…)`. -/
def body (arg : Text) (funcName : String) (val : Text) : Text :=
  [.kwLet, .id "arg", .eq] ++ arg ++
    [.kwLet, .id "val", .eq, .id funcName, .openB, .id "arg", .closeB, .openB] ++ val ++ [.closeB]

/-- `wrap_function`, called by a converter of functions. -/
def wrapFunction (codes : List (List Instr)) (depth : Nat) (funcName : String) :
    Converter → Except WrapExc Program
  | .wrap argType arg resultType result => do
    let argText ← stringifyType argType.typeSpec
    let resultText ← stringifyType resultType.typeSpec
    let x ← wrap codes "x" depth arg []
    let val ← wrap codes "val" depth result []
    .ok ⟨argText ++ .function :: resultText, body x funcName val⟩
  | .code _ | .table => .error .typeError -- these do not come here

/-! ## What the program should do -/

mutual

/-- Built of built-in names and products. -/
def Plain : TypeSpec → Prop
  | .id id _ => id ∈ builtin
  | .product branches => AllPlain branches
  | _ => False

def AllPlain : List TypeSpec → Prop
  | [] => True
  | spec :: specs => Plain spec ∧ AllPlain specs

end

/-- The values of a built-in type. -/
def ofBuiltin (id : String) : Evaluate.Value → Bool
  | .integer _ => id ∈ ["int8", "int16", "int32", "int64"]
  | .uinteger _ => id ∈ ["uint8", "uint16", "uint32", "uint64"]
  | .boolean _ => id = "bool"
  | .float _ => id = "ieeesingle"
  | .double _ => id = "ieeedouble"
  | .string _ _ => id = "string"
  | .type _ => id = "type"
  | _ => false

mutual

/-- The value is of the type. -/
def HasType : TypeSpec → Evaluate.Value → Prop
  | .id id _, v => ofBuiltin id v = true
  | .product branches, .tuple vs => HaveTypes branches vs
  | _, _ => False

def HaveTypes : List TypeSpec → List Evaluate.Value → Prop
  | [], [] => True
  | spec :: specs, v :: vs => HasType spec v ∧ HaveTypes specs vs
  | _, _ => False

end

mutual

/-- The components of a value of the type that are no tuples, from left to right. -/
def leaves : TypeSpec → Evaluate.Value → List Evaluate.Value
  | .product branches, .tuple vs => allLeaves branches vs
  | _, v => [v]

def allLeaves : List TypeSpec → List Evaluate.Value → List Evaluate.Value
  | spec :: specs, v :: vs => leaves spec v ++ allLeaves specs vs
  | _, _ => []

end

/-- The value of the one type becomes the one of the other that has the same components in the
same order. -/
structure Reshaped (t1 t2 : TypeSpec) (v1 v2 : Evaluate.Value) : Prop where
  source : HasType t1 v1
  target : HasType t2 v2
  kept : leaves t1 v1 = leaves t2 v2

/-- A function with one argument. -/
structure Func where
  funcName : String
  parameterList : SyntaxTree
  code : SyntaxTree
  layer : Nat

/-- Called with the argument, the function returns the result. -/
def Calls (p : Platform) (s : Evaluate.State) (f : Func) (x r : Evaluate.Value) : Prop :=
  ∃ depth, (Evaluate.enter p (evaluate p depth) f.parameterList f.code f.layer [x] s).1 = .ok r

/-- The function is one from the first type to the second. -/
def OfType (p : Platform) (s : Evaluate.State) (f : Func) (a b : TypeSpec) : Prop :=
  ∀ x, HasType a x → ∃ y, HasType b y ∧ Calls p s f x y

/-- In the layer, the name of the function stands for it. -/
def InScope (p : Platform) (s : Evaluate.State) (layer : Nat) (f : Func) : Prop :=
  ∃ depth, Evaluate.lookup p s.layers depth (some layer) f.funcName =
    .ok (.function f.parameterList f.code f.layer)

/-- The program is written and read, and in the layer what it defines does what `f` does, with
argument and result converted. -/
def Wraps (p : Platform) (s : Evaluate.State) (layer : Nat) (codes : List (List Instr))
    (conv : Converter) (a1 b1 a2 b2 : TypeSpec) (f : Func) : Prop :=
  ∃ depth program body, wrapFunction codes depth f.funcName conv = .ok program ∧
    ParsesBody program.body body ∧ ∀ x, HasType a2 x → ∃ x' y r,
      Reshaped a2 a1 x x' ∧ Calls p s f x' y ∧ Reshaped b1 b2 y r ∧
        Calls p s ⟨"wrappedfunction", .parameterList "x" .null, body, layer⟩ x r

end PyLinda.Types.Wrap
