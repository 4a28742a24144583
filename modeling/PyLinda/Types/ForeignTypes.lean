import PyLinda.Lib.Effect
import PyLinda.Types.LindaType

/-!
# Types of templates from other servers

`interserver_types.py` and the part of `type_cache.py` that it calls, in the build with
registered types. Values are objects, of which the code looks at the kind and at the id of the
type.
-/

namespace PyLinda.Types.Foreign

open Lib

/-- What goes wrong. -/
inductive Exc where
  | assertionError
  | attributeError
  | keyError
  | nameError
  | recursionLimit
  | systemError
  deriving DecidableEq, Repr

/-- A `Value` that is a type. One that was made from an id has no specification. -/
structure TypeValue where
  typeSpec : Option TypeSpec
  typeId : Option String

/-- The kinds of a `Value`; `isLong` is true of every signed integer. -/
inductive Content where
  | nil
  | boolean
  | long
  | uinteger
  | float
  | string
  | tsref
  | type (t : TypeValue)
  | tuple (values : List Nat)
  | ptr (value : Option Nat)
  | sum (value : Nat)
  | function

/-- A `Value`, and the `type_id` of its type if it has one. -/
structure Obj where
  content : Content
  type : Option (Option String)

/-- The objects by their addresses. -/
abbrev Objects := Nat → Obj

/-! ## Collecting ids -/

mutual

/-- `getTypesFromType` of a part of a type: the part has no id, but `None` is not 0. -/
def getTypesFromPart : TypeSpec → Except Exc (List (Option String))
  | .nil => .ok [none]
  | .id n i => .ok (none :: if n ∈ builtin then [] else [i])
  | .product branches | .sum branches => do
    let l ← getTypesFromParts branches
    .ok (none :: l)
  | .pointer _ _ => .error .attributeError -- `ptrtype` is a string
  | .function arg result => do
    let l ← getTypesFromPart arg
    let l' ← getTypesFromPart result
    .ok (none :: l ++ l')

def getTypesFromParts : List TypeSpec → Except Exc (List (Option String))
  | [] => .ok []
  | spec :: specs => do
    let l ← getTypesFromPart spec
    let l' ← getTypesFromParts specs
    .ok (l ++ l')

end

/-- `getTypesFromType`: the id of the type itself in the first place. -/
def getTypesFromType (t : TypeValue) : Except Exc (List (Option String)) :=
  match t.typeSpec with
  | none => .ok [t.typeId]
  | some spec => do
    let l ← getTypesFromPart spec
    .ok (t.typeId :: l.tail)

section
variable (objs : Objects)

/-- `getTypesFromValue`. -/
def getTypesFromValue : (depth : Nat) → Nat → Except Exc (List (Option String))
  | 0, _ => .error .recursionLimit
  | depth + 1, r =>
    match (objs r).type with
    | none => .error .attributeError -- `None.type_id`
    | some id =>
      match (objs r).content with
      | .type t => do
        let l ← getTypesFromType t
        .ok (id :: l)
      | .long => .ok [id]
      | .tuple [] => .ok [id]
      | .tuple (_ :: _) => .error .nameError -- `convertValueTypes` is not defined
      | .ptr none => .error .attributeError -- `None.type`
      | .ptr (some r) => do
        let l ← getTypesFromValue depth r
        .ok (id :: l)
      | .nil | .boolean | .uinteger | .float | .string | .tsref | .sum _ | .function =>
        .error .systemError

def getTypesFromValues (depth : Nat) : List Nat → Except Exc (List (Option String))
  | [] => .ok []
  | v :: tup => do
    let l ← getTypesFromValue objs depth v
    let l' ← getTypesFromValues depth tup
    .ok (l ++ l')

end

/-! ## Looking them up -/

/-- `__cache`, and how many ids have been generated. -/
structure State where
  cache : String → Option TypeValue
  generated : Nat

abbrev Run (α : Type) : Type := Eff State Exc α

/-- `lookupType`. -/
def lookupType (tid : Option String) : Run TypeValue := Eff.look fun s =>
  match tid.bind s.cache with
  | none => .error .keyError
  | some t => .ok t

section
variable (generate : Nat → String) (remote : Option String → TypeValue)

/-- `registerType`; what it collects as the references of the type fails without a
specification. -/
def registerType (t : TypeValue) : Run String := do
  let n ← Eff.look fun s => .ok s.generated
  let id := "T" ++ generate n
  Eff.update fun s => { s with generated := n + 1 }
  if t.typeSpec.isNone then Eff.raise .systemError
  else do
    Eff.update fun s => { s with cache := fun i => if i = id then some t else s.cache i }
    pure id

/-- `lookupForeignType`. What the server answers is registered under an id of its own, and
`type_cache.py` does not import `getTypesFromServer`. -/
def lookupForeignType (tid : Option String) : Run TypeValue := do
  let found ← Eff.attempt (fun e => e = .keyError) (lookupType tid)
  match found with
  | some t => pure t
  | none => do
    let _ ← registerType generate (remote tid)
    Eff.raise .nameError

def lookupForeignTypes : List (Option String) → Run Unit
  | [] => pure ()
  | t :: l => do
    let _ ← lookupForeignType generate remote t
    lookupForeignTypes l

/-- `getTypesFromServer_registered`. -/
def getTypesFromServer (objs : Objects) (depth : Nat) (tup : List Nat) : Run (List Nat) := do
  let l ← Eff.look fun _ => getTypesFromValues objs depth tup
  lookupForeignTypes generate remote l
  pure tup

end

/-! ## What it is for -/

mutual

/-- The ids in a specification. -/
def TypeSpec.ids : TypeSpec → List String
  | .nil => []
  | .id _ i => i.toList
  | .product branches | .sum branches => TypeSpec.allIds branches
  | .pointer _ i => i.toList
  | .function arg result => TypeSpec.ids arg ++ TypeSpec.ids result

def TypeSpec.allIds : List TypeSpec → List String
  | [] => []
  | spec :: specs => TypeSpec.ids spec ++ TypeSpec.allIds specs

end

/-- The ids in a type. -/
def TypeValue.ids (t : TypeValue) : List String :=
  t.typeId.toList ++ (t.typeSpec.map TypeSpec.ids).getD []

section
variable (objs : Objects)

/-- The value leads to the other one. -/
inductive Leads : Nat → Nat → Prop
  | here (r : Nat) : Leads r r
  | tuple {r v r' : Nat} {values : List Nat} : (objs r).content = .tuple values → v ∈ values →
    Leads v r' → Leads r r'
  | ptr {r v r' : Nat} : (objs r).content = .ptr (some v) → Leads v r' → Leads r r'
  | sum {r v r' : Nat} : (objs r).content = .sum v → Leads v r' → Leads r r'

/-- The id occurs in the value: a type in it has it, or the type of a part of it. -/
def OccursIn (r : Nat) (i : String) : Prop :=
  ∃ r', Leads objs r r' ∧
    ((objs r').type = some (some i) ∨ ∃ t, (objs r').content = .type t ∧ i ∈ t.ids)

/-- The ids that the template needs: those that occur in it, and those that occur in the
definition of one that it needs. -/
inductive Needs (definition : String → TypeValue) (tup : List Nat) : String → Prop
  | here {r : Nat} {i : String} : r ∈ tup → OccursIn objs r i → Needs definition tup i
  | there {i j : String} : Needs definition tup i → j ∈ (definition i).ids → Needs definition tup j

end

/-- What an id stands for: what is registered under it, or what the remote server calls so. -/
def definition (remote : Option String → TypeValue) (s : State) (i : String) : TypeValue :=
  (s.cache i).getD (remote (some i))

/-- The call returns the template, and then everything that it needs is there. -/
def Imports (generate : Nat → String) (remote : Option String → TypeValue) (objs : Objects)
    (tup : List Nat) (s : State) : Prop :=
  ∃ depth s', getTypesFromServer generate remote objs depth tup s = (.ok tup, s') ∧
    ∀ i, Needs objs (definition remote s) tup i → (s'.cache i).isSome = true

/-! ## When it does -/

/-- A specification without parts, and with the id of the name that it is. -/
def Bare : TypeSpec → Prop
  | .nil => True
  | .id n i => n ∈ builtin ∨ i.isSome = true
  | .product branches | .sum branches => branches = []
  | .pointer _ _ | .function _ _ => False

/-- A signed integer, an empty tuple or a type without parts, behind any number of pointers;
each with a type that has an id. -/
inductive Simple (objs : Objects) : Nat → Prop
  | long {r : Nat} {i : String} : (objs r).type = some (some i) → (objs r).content = .long →
    Simple objs r
  | unit {r : Nat} {i : String} : (objs r).type = some (some i) →
    (objs r).content = .tuple [] → Simple objs r
  | type {r : Nat} {i : String} {t : TypeValue} : (objs r).type = some (some i) →
    (objs r).content = .type t → t.typeId.isSome = true →
    (∀ spec, t.typeSpec = some spec → Bare spec) → Simple objs r
  | ptr {r v : Nat} {i : String} : (objs r).type = some (some i) →
    (objs r).content = .ptr (some v) → Simple objs v → Simple objs r

end PyLinda.Types.Foreign
