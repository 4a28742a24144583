/-!
# Server values

A value as the server sees it once a message is decoded: the kinds
`Minimal_xmlToValue2` builds, in the order of the `M_*` enumeration, and the
methods of `linda_ValueType` that the matcher calls (`type`, `isType`, `len`,
indexing, `==`). This is the build without types, so `type` is the switch of
`linda_Value_gettype` and a type value never carries a type id.

Ids are the strings the server makes; the letter in front of the guid is the
constructor here.
-/

namespace PyLinda

/-- `"UTS"`, or `"S"` and a guid. -/
inductive TsId where
  | uts
  | sid (guid : Nat)
  deriving DecidableEq, Repr

/-- `"P"` and a guid. -/
structure Pid where
  guid : Nat
  deriving DecidableEq, Repr

/-- A process id, `"!"` and a counter. -/
structure Tid where
  pid : Pid
  count : Nat
  deriving DecidableEq, Repr

/-- `"N"` and a guid. -/
structure NodeId where
  guid : Nat
  deriving DecidableEq, Repr

/-- The Python exceptions the modelled code raises. -/
inductive PyExc where
  | noTupleMatch
  | typeError
  | attributeError
  | assertionError
  | keyError
  | valueError
  | systemError
  deriving DecidableEq, Repr

/-- A C `float` up to the sign of zero. -/
inductive CFloat where
  | nan
  | inf (negative : Bool)
  | finite (q : Rat)
  deriving DecidableEq

/-- C's `<` on floats: false as soon as one side is NaN. -/
def CFloat.lt : CFloat → CFloat → Bool
  | nan, _ | _, nan => false
  | inf a, inf b => a && !b
  | inf a, finite _ => a
  | finite _, inf b => !b
  | finite a, finite b => decide (a < b)

/-- A type specification. A node without branches carries `word`, the int that
`type_spec->length` reads there: the union puts `length` over another member
(for an identifier the low half of the address of its name). -/
inductive TypeSpec where
  | nil (word : Int)
  | identifier (word : Int) (string : String)
  | typeFunction (arg result : TypeSpec)
  | product (branches : List TypeSpec)
  | sum (branches : List TypeSpec)
  | pointer (word : Int) (ptr : String)
  | bracket (word : Int) (typeDef : TypeSpec)

/-- The value of `type_spec->length`. -/
def TypeSpec.length : TypeSpec → Int
  | nil w | identifier w _ | pointer w _ | bracket w _ => w
  | typeFunction _ _ => 2
  | product bs | sum bs => bs.length

/-- A value of kind `M_TYPE`. -/
structure TypeVal where
  typeName : String
  typeSpec : TypeSpec

inductive Value where
  | nil
  | boolean (b : Bool)
  | integer (i : Int)
  | uinteger (n : Nat)
  | float (f : CFloat)
  | string (s : String)
  | type (t : TypeVal)
  | tsref (tsid : TsId)
  | tuple (values : List Value)
  | sum (value : Value) (sumPos : Int)
  | function (funcName : String)
  | pointer (ptr : Nat)

/-- The Python tuple a message carries. -/
abbrev Tuple := List Value

/-! ## Built-in types -/

/-- A type made by `Minimal_init`: a name bound to an identifier. Nothing reads
the `word` of these. -/
def builtinType (name id : String) : TypeVal := ⟨name, .identifier 0 id⟩

def typeType : TypeVal := builtinType "typetype" "type"
def boolType : TypeVal := builtinType "booltype" "bool"
def longType : TypeVal := builtinType "long" "int64"
def floatType : TypeVal := builtinType "float" "ieeesingle"
def stringType : TypeVal := builtinType "stringtype" "string"
def tupleSpaceType : TypeVal := builtinType "tupleSpacetype" "tuplespace"

/-- `niltype :: Nil` is not an identifier. -/
def nilType : TypeVal := ⟨"niltype", .nil 0⟩

/-- `linda_Value_gettype`; `none` is Python's `None`. -/
def Value.type? : Value → Option TypeVal
  | .nil => some nilType
  | .boolean _ => some boolType
  | .integer _ | .uinteger _ => some longType
  | .float _ => some floatType
  | .string _ => some stringType
  | .type _ => some typeType
  | .tsref _ => some tupleSpaceType
  | .tuple _ | .sum _ _ | .function _ | .pointer _ => none

def Value.isType : Value → Bool
  | .type _ => true
  | _ => false

def Value.isTuple : Value → Bool
  | .tuple _ => true
  | _ => false

/-- `linda_Value_isId`, `none` where the spec is not an identifier; on an
identifier the name that `id` returns. -/
def TypeVal.id? (t : TypeVal) : Option String :=
  match t.typeSpec with
  | .identifier _ s => some s
  | _ => none

/-- `linda_Value_len`. -/
def Value.len : Value → Except PyExc Int
  | .type t => .ok t.typeSpec.length
  | .string s => .ok s.utf8ByteSize
  | .tuple vs => .ok vs.length
  | _ => .error .typeError

/-! ## Comparison -/

/-- A three-way result from the two tests C makes. -/
def cmp3 (less greater : Bool) : Int :=
  if less then -1 else if greater then 1 else 0

def strcmp (s t : String) : Int := cmp3 (s < t) (t < s)

/-- The position of a node's kind among the `ST_*`. -/
def TypeSpec.kind : TypeSpec → Nat
  | nil _ => 1
  | identifier _ _ => 2
  | typeFunction _ _ => 7
  | product _ => 13
  | sum _ => 14
  | pointer _ _ => 16
  | bracket _ _ => 18

mutual

/-- `Minimal_SyntaxTree_cmp` on the nodes of a type specification. -/
def TypeSpec.cmp : TypeSpec → TypeSpec → Int
  | .nil _, .nil _ => 0
  | .identifier _ s, .identifier _ t => strcmp s t
  | .typeFunction a r, .typeFunction b q => if a.cmp b ≠ 0 then a.cmp b else r.cmp q
  | .product as, .product bs =>
    if as.length = bs.length then cmpBranches as bs
    else cmp3 (as.length < bs.length) (bs.length < as.length)
  | .sum as, .sum bs =>
    if as.length = bs.length then cmpBranches as bs
    else cmp3 (as.length < bs.length) (bs.length < as.length)
  | .pointer _ s, .pointer _ t => strcmp s t
  | .bracket _ a, .bracket _ b => a.cmp b
  | a, b => cmp3 (a.kind < b.kind) (b.kind < a.kind)

def TypeSpec.cmpBranches : List TypeSpec → List TypeSpec → Int
  | a :: as, b :: bs => if a.cmp b ≠ 0 then a.cmp b else cmpBranches as bs
  | _, _ => 0

end

/-- The position of a value's kind among the `M_*`. -/
def Value.kind : Value → Nat
  | .nil => 0
  | .boolean _ => 1
  | .integer _ => 2
  | .uinteger _ => 3
  | .float _ => 4
  | .string _ => 6
  | .type _ => 7
  | .tsref _ => 8
  | .tuple _ => 9
  | .sum _ _ => 10
  | .function _ => 11
  | .pointer _ => 12

/-- The string behind a tuplespace id, ordered as `strcmp` orders it: guids of
one length, then `"S…" < "UTS"`. -/
def TsId.cmp : TsId → TsId → Int
  | .sid a, .sid b => cmp3 (a < b) (b < a)
  | .sid _, .uts => -1
  | .uts, .sid _ => 1
  | .uts, .uts => 0

mutual

/-- `linda_Value_cmp`. -/
def Value.cmp : Value → Value → Int
  | .nil, .nil => 0
  | .boolean a, .boolean b => cmp3 (!a && b) (a && !b)
  | .integer a, .integer b => cmp3 (a < b) (b < a)
  | .uinteger a, .uinteger b => cmp3 (a < b) (b < a)
  | .float a, .float b => cmp3 (a.lt b) (b.lt a)
  | .string a, .string b => strcmp a b
  | .type a, .type b =>
    if strcmp a.typeName b.typeName ≠ 0 then strcmp a.typeName b.typeName
    else a.typeSpec.cmp b.typeSpec
  | .tsref a, .tsref b => a.cmp b
  | .tuple as, .tuple bs =>
    if as.length = bs.length then cmpValues as bs
    else cmp3 (as.length < bs.length) (bs.length < as.length)
  | .sum a _, .sum b _ => a.cmp b
  | .function a, .function b => strcmp a b
  | .pointer a, .pointer b => cmp3 (a < b) (b < a)
  | a, b => cmp3 (a.kind < b.kind) (b.kind < a.kind)

def Value.cmpValues : List Value → List Value → Int
  | a :: as, b :: bs => if a.cmp b ≠ 0 then a.cmp b else cmpValues as bs
  | _, _ => 0

end

/-- Python's `==` on two values. -/
def Value.pyEq (a b : Value) : Bool := a.cmp b = 0

/-- Python's `==` on two tuples of values. -/
def Tuple.pyEq (s t : Tuple) : Bool := s.length = t.length && Value.cmpValues s t = 0

@[simp] theorem cmp3_eq_zero {p q : Bool} : cmp3 p q = 0 ↔ p = false ∧ q = false := by
  cases p <;> cases q <;> simp [cmp3]

theorem strcmp_eq_zero {s t : String} : strcmp s t = 0 ↔ s = t := by
  simp only [strcmp, cmp3_eq_zero, decide_eq_false_iff_not]
  constructor
  · rintro ⟨h1, h2⟩
    exact String.le_antisymm h2 h1
  · rintro rfl
    exact ⟨String.lt_irrefl s, String.lt_irrefl s⟩

@[simp] theorem TsId.cmp_eq_zero {a b : TsId} : a.cmp b = 0 ↔ a = b := by
  cases a <;> cases b <;> simp [TsId.cmp]
  omega

end PyLinda
