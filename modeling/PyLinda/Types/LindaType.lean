import Mathlib.Data.List.Forall2

/-!
# Types of the server

A type is a `Value` of kind `M_TYPE`: a name, a specification and the id it was registered
under. The names in a specification carry the id of the type they stand for.
-/

namespace PyLinda.Types

/-- The `type_spec` of a type. -/
inductive TypeSpec where
  | nil
  | id (string : String) (typeId : Option String)
  | product (branches : List TypeSpec)
  | sum (branches : List TypeSpec)
  | pointer (ptr : String) (typeId : Option String)
  | function (arg result : TypeSpec)

/-- A `Value` that is a type. -/
structure LindaType where
  typeName : String
  typeSpec : TypeSpec
  typeId : Option String

/-- What the code that handles types raises. -/
inductive TypeExc where
  | noTupleMatch
  | assertionError
  | keyError
  | attributeError
  | unboundLocalError
  | indexError
  | typeError
  | systemError
  | recursionLimit
  deriving DecidableEq, Repr

mutual

/-- `Minimal_SyntaxTree_cmp` is 0. It does not look at type ids. -/
def TypeSpec.same : TypeSpec → TypeSpec → Bool
  | nil, nil => true
  | id s _, id s' _ => s == s'
  | product bs, product bs' => TypeSpec.allSame bs bs'
  | sum bs, sum bs' => TypeSpec.allSame bs bs'
  | pointer p _, pointer p' _ => p == p'
  | function a r, function a' r' => a.same a' && r.same r'
  | _, _ => false

def TypeSpec.allSame : List TypeSpec → List TypeSpec → Bool
  | [], [] => true
  | s :: ss, s' :: ss' => s.same s' && TypeSpec.allSame ss ss'
  | _, _ => false

end

namespace LindaType

/-- `linda_Value_cmp` is 0; the hash is that of the name. -/
def same (t t' : LindaType) : Bool := t.typeName == t'.typeName && t.typeSpec.same t'.typeSpec

/-- A branch of the specification as a type: it has the name of the whole, and no id. -/
def branch (t : LindaType) (spec : TypeSpec) : LindaType := ⟨t.typeName, spec, none⟩

/-- `t[0]`, `t[1]`, …: `linda_Value_item` of a product or a sum. -/
def items (t : LindaType) : List LindaType :=
  match t.typeSpec with
  | .product bs => bs.map t.branch
  | .sum bs => bs.map t.branch
  | _ => []

def isId (t : LindaType) : Bool :=
  match t.typeSpec with
  | .id _ _ => true
  | _ => false

def isProductType (t : LindaType) : Bool :=
  match t.typeSpec with
  | .product _ => true
  | _ => false

def isSumType (t : LindaType) : Bool :=
  match t.typeSpec with
  | .sum _ => true
  | _ => false

/-- `linda_Value_getidtypeid`. -/
def idTypeId (t : LindaType) : Option String :=
  match t.typeSpec with
  | .id _ i => i
  | .pointer _ i => i
  | _ => none

end LindaType

/-- The names that `match.py` takes for built in. -/
def builtin : List String :=
  ["type", "bool", "int8", "int16", "int32", "int64", "uint8", "uint16", "uint32", "uint64",
    "ieeesingle", "ieeedouble", "string"]

/-- `__cache` of `type_cache.py`: the registered types by their ids. -/
abbrev TypeCache := String → Option LindaType

/-- `lookupType`. -/
def TypeCache.lookupType (c : TypeCache) : Option String → Except TypeExc LindaType
  | none => .error .keyError
  | some id => match c id with
    | none => .error .keyError
    | some t => .ok t

end PyLinda.Types
