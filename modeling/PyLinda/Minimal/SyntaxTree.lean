import PyLinda.Lib.Decimal
import PyLinda.Minimal.Document

/-!
# Syntax trees in XML

`Minimal_serialiseTypeSpec`, `Minimal_serialiseCode` and the one decoder of both,
`Minimal_xmlToSyntaxTree`. A NULL is a tree of its own; `none` is a crash.
-/

namespace PyLinda

open Lib

/-- A `struct Minimal_SyntaxTree_t*`, which may be NULL. Only identifiers carry the type
id that every node has room for; nothing writes that of another node. -/
inductive SyntaxTree where
  | null
  | blank
  | nil
  | identifier (string : String) (typeId : Option String)
  | integer (integer : Int)
  | string (string : String)
  | sequentialDefs (branches : List SyntaxTree)
  | typeSpec (typeName : String) (typeDef : SyntaxTree)
  | typeFunction (arg value : SyntaxTree)
  | functionDef (funcName : String) (parameterList body : SyntaxTree)
  | parameterList (varName : String) (nextVar : SyntaxTree)
  | functionCall (function arguments : SyntaxTree)
  | argumentList (argument nextArg : SyntaxTree)
  | operator (operator : String) (op1 op2 : SyntaxTree)
  | productType (branches : List SyntaxTree)
  | sumType (branches : List SyntaxTree)
  | tuple (tuple : List SyntaxTree)
  | pointer (ptr : String)
  | ifExpr (test thenExpr elseExpr : SyntaxTree)
  | bracket (typeDef : SyntaxTree)
  | index (expr index : SyntaxTree)
  | letExpr (var letexpr code : SyntaxTree)

namespace SyntaxTree

def isNull : SyntaxTree → Bool
  | null => true
  | _ => false

/-- `Minimal_SyntaxTree_createID` of a string that may be NULL. -/
def createID (id : Option String) : Option SyntaxTree := id.map fun id => identifier id none

/-- `Minimal_SyntaxTree_createArgumentList1`. -/
def createArgumentList1 : SyntaxTree → Option SyntaxTree
  | null => none
  | argumentList a next => some (argumentList a next)
  | s1 => some (argumentList s1 null)

/-- The end of a list is where `tail` is hung. -/
def appendArgs (tail : SyntaxTree) : SyntaxTree → SyntaxTree
  | argumentList a null => argumentList a tail
  | argumentList a next => argumentList a (appendArgs tail next)
  | t => t

/-- `Minimal_SyntaxTree_createArgumentList2`. -/
def createArgumentList2 (s1 s2 : SyntaxTree) : Option SyntaxTree :=
  match createArgumentList1 s1, createArgumentList1 s2 with
  | some l1, some l2 => some (appendArgs l2 l1)
  | _, _ => none

/-- The end of a list is where `tail` is hung. -/
def appendVars (tail : SyntaxTree) : SyntaxTree → SyntaxTree
  | parameterList v null => parameterList v tail
  | parameterList v next => parameterList v (appendVars tail next)
  | t => t

end SyntaxTree

open SyntaxTree

/-! ## Writing -/

/-- What `Minimal_getName(typemap, name)` finds, as far as its `type_id`. -/
abbrev TypeMap := String → Option (Option String)

/-- The `param` nodes of `Minimal_serialiseParameterList`; what is not a parameter list has
no `var_name`. -/
def serialiseParams : SyntaxTree → Option (List Xml)
  | .null => some []
  | .parameterList v next =>
    (serialiseParams next).map fun ps => .node "param" [("name", v)] [] :: ps
  | _ => none

/-- `Minimal_serialiseParameterList`. -/
def serialiseParameterList (l : SyntaxTree) : Option (List Xml) :=
  (serialiseParams l).map fun ps => [.node "parameter_list" [] ps]

/-- The type id that is written for an identifier. -/
def writtenTypeId (typemap : TypeMap) (name : String) : Option String → Option String
  | some id => some id
  | none => match typemap name with
    | some id => id
    | none => none

/-- The attribute `typeid`. -/
def typeIdProp : Option String → List (String × String)
  | some id => [("typeid", id)]
  | none => []

mutual

/-- `Minimal_serialiseTypeSpec`: the nodes it adds to `parent`. -/
def serialiseTypeSpec (typemap : TypeMap) : SyntaxTree → Option (List Xml)
  | .null | .blank => some []
  | .nil => some [.node "nil" [] []]
  | .identifier s id =>
    some [.node "id" (("name", s) :: typeIdProp (writtenTypeId typemap s id)) []]
  | .typeSpec _ d => serialiseTypeSpec typemap d
  | .typeFunction a v => match serialiseTypeSpec typemap a, serialiseTypeSpec typemap v with
    | some xs, some ys => some [.node "type_function" [] (xs ++ ys)]
    | _, _ => none
  | .productType bs => (serialiseTypeSpecs typemap bs).map fun xs => [.node "product_type" [] xs]
  | .sumType bs => (serialiseTypeSpecs typemap bs).map fun xs => [.node "sum_type" [] xs]
  | .pointer p => some [.node "ptr" [("name", p)] []]
  | .bracket d => serialiseTypeSpec typemap d
  | .parameterList v next => serialiseParameterList (.parameterList v next)
  | _ => some [] -- "Unknown syntax tree id"

def serialiseTypeSpecs (typemap : TypeMap) : List SyntaxTree → Option (List Xml)
  | [] => some []
  | b :: bs => match serialiseTypeSpec typemap b, serialiseTypeSpecs typemap bs with
    | some xs, some ys => some (xs ++ ys)
    | _, _ => none

end

/-- The nodes of several parts, one behind the other. -/
def joinParts : List (Option (List Xml)) → Option (List Xml)
  | [] => some []
  | p :: ps => match p, joinParts ps with
    | some xs, some ys => some (xs ++ ys)
    | _, _ => none

/-- A node with the nodes of its parts inside. -/
def nodeOf (name : String) (props : List (String × String)) (parts : List (Option (List Xml))) :
    Option (List Xml) :=
  (joinParts parts).map fun xs => [.node name props xs]

mutual

/-- `Minimal_serialiseCode`: the nodes it adds to `parent`. -/
def serialiseCode : SyntaxTree → Option (List Xml)
  | .null => none
  | .blank => some []
  | .identifier s _ => some [.node "id" [("name", s)] []]
  | .integer i => some [.node "integer" [("val", i.repr)] []]
  | .string s => some [.node "string" [("val", s)] []]
  | .operator op a b => nodeOf "operator" [("op", op)] [serialiseCode a, serialiseCode b]
  | .index e i => nodeOf "index" [] [serialiseCode e, serialiseCode i]
  | .letExpr v e c => nodeOf "let" [] [serialiseCode v, serialiseCode e, serialiseCode c]
  | .functionCall f args => nodeOf "funccall" [] [serialiseCode f, serialiseCode args]
  | .argumentList a next =>
    nodeOf "argument_list" [] (serialiseCode a ::
      if next.isNull then [] else [serialiseCode next])
  | .tuple ts =>
    nodeOf "tuple" [("size", (ts.length : Int).repr)] (serialiseCodes ts)
  | _ => some [] -- "Unknown syntax tree id"

def serialiseCodes : List SyntaxTree → List (Option (List Xml))
  | [] => []
  | t :: ts => serialiseCode t :: serialiseCodes ts

end

/-! ## Reading -/

/-- What each child that is an element is decoded to, with its name. -/
abbrev Trees := List (String × Option SyntaxTree)

/-- A loop that decodes every child and keeps all. -/
def allOf : Trees → Option (List SyntaxTree)
  | [] => some []
  | (_, r) :: rs => match r, allOf rs with
    | some t, some ts => some (t :: ts)
    | _, _ => none

/-- The loop of `type_function`. -/
def argAndValue : Trees → SyntaxTree → SyntaxTree → Option (SyntaxTree × SyntaxTree)
  | [], arg, value => some (arg, value)
  | (_, r) :: rs, arg, value =>
    if arg.isNull then r.bind fun arg => argAndValue rs arg value
    else if value.isNull then r.bind fun value => argAndValue rs arg value
    else argAndValue rs arg value

/-- A loop that keeps the last child. -/
def lastOf : Trees → SyntaxTree → Option SyntaxTree
  | [], t => some t
  | (_, r) :: rs, _ => r.bind fun t => lastOf rs t

/-- The loop of `code`. -/
def firstOf : Trees → SyntaxTree → Option SyntaxTree
  | [], t => some t
  | (_, r) :: rs, t => if t.isNull then r.bind fun t => firstOf rs t else firstOf rs t

/-- The loop of `operator`, `index`, `funccall` and `argument_list`. -/
def twoOf : Trees → SyntaxTree → SyntaxTree → Option (SyntaxTree × SyntaxTree)
  | [], op1, op2 => some (op1, op2)
  | (_, r) :: rs, op1, op2 =>
    if op1.isNull then r.bind fun op1 => twoOf rs op1 op2
    else r.bind fun op2 => twoOf rs op1 op2

/-- The loop of `let`. -/
def threeOf : Trees → SyntaxTree → SyntaxTree → SyntaxTree →
    Option (SyntaxTree × SyntaxTree × SyntaxTree)
  | [], var, letexpr, code => some (var, letexpr, code)
  | (_, r) :: rs, var, letexpr, code =>
    if var.isNull then r.bind fun var => threeOf rs var letexpr code
    else if letexpr.isNull then r.bind fun letexpr => threeOf rs var letexpr code
    else r.bind fun code => threeOf rs var letexpr code

/-- The loop of `tuple`, with room for `n` more. -/
def someOf : Trees → Int → Option (List SyntaxTree)
  | [], _ => some []
  | (_, r) :: rs, n =>
    if 0 < n then match r, someOf rs (n - 1) with
      | some t, some ts => some (t :: ts)
      | _, _ => none
    else some []

/-- The loop of `function`. -/
def paramsAndCode : Trees → SyntaxTree → SyntaxTree → Option (SyntaxTree × SyntaxTree)
  | [], params, code => some (params, code)
  | (n, r) :: rs, params, code =>
    if n = "parameter_list" then r.bind fun params => paramsAndCode rs params code
    else if n = "code" then r.bind fun code => paramsAndCode rs params code
    else paramsAndCode rs params code

/-- The loop of `parameter_list`. -/
def paramsOf : List Xml → SyntaxTree → SyntaxTree
  | [], tree => tree
  | .text _ :: xs, tree => paramsOf xs tree
  | .node n props _ :: xs, tree =>
    if n = "param" then
      match Xml.getProp props "name" with
      | none => paramsOf xs tree -- "Got a parameter without a name"
      | some name =>
        if tree.isNull then paramsOf xs (.parameterList name .null)
        else paramsOf xs (appendVars (.parameterList name .null) tree)
    else paramsOf xs tree

mutual

/-- `Minimal_xmlToSyntaxTree`. -/
def xmlToSyntaxTree : Xml → Option SyntaxTree
  | .text _ => some .null
  | .node name props children =>
    match name with
    | "minimal" => (allOf (childTrees children)).map .sequentialDefs
    | "function" => (paramsAndCode (childTrees children) .null .null).bind fun pc =>
      (Xml.getProp props "name").map fun name => .functionDef name pc.1 pc.2
    | "product_type" => (allOf (childTrees children)).map .productType
    | "sum_type" => (allOf (childTrees children)).map .sumType
    | "type_function" => (argAndValue (childTrees children) .null .null).map fun av =>
      .typeFunction av.1 av.2
    | "nil" => some .nil
    | "id" => (Xml.getProp props "name").map fun name =>
      .identifier name (Xml.getProp props "typeid")
    | "integer" => (Xml.getProp props "val").map fun val => .integer (atoi val)
    | "string" => (Xml.getProp props "val").map .string
    | "type" => (lastOf (childTrees children) .null).bind fun spec =>
      (Xml.getProp props "name").map fun name => .typeSpec name spec
    | "type_spec" => lastOf (childTrees children) .null
    | "ptr" => (Xml.getProp props "name").map .pointer
    | "parameter_list" => some (paramsOf children .null)
    | "code" => firstOf (childTrees children) .null
    | "operator" => (twoOf (childTrees children) .null .null).bind fun ops =>
      (Xml.getProp props "op").map fun op => .operator op ops.1 ops.2
    | "index" => (twoOf (childTrees children) .null .null).map fun ops => .index ops.1 ops.2
    | "let" => (threeOf (childTrees children) .null .null .null).map fun vec =>
      .letExpr vec.1 vec.2.1 vec.2.2
    | "funccall" => (twoOf (childTrees children) .null .null).map fun fa =>
      .functionCall fa.1 fa.2
    | "argument_list" => (twoOf (childTrees children) .null .null).bind fun an =>
      if an.2.isNull then createArgumentList1 an.1 else createArgumentList2 an.1 an.2
    | "tuple" => (Xml.getProp props "size").bind fun size =>
      -- `Minimal_SyntaxTree_createProductType`, whose length is the `size` of the loop
      (someOf (childTrees children) (atoi size)).map .productType
    | _ => some .null -- "Not a Minimal XML tag"

def childTrees : List Xml → Trees
  | [] => []
  | x :: xs => if x.isElement then (x.name, xmlToSyntaxTree x) :: childTrees xs else childTrees xs

end

end PyLinda
