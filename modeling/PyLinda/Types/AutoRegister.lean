import PyLinda.Lib.Effect
import PyLinda.Types.LindaType

/-!
# Automatic registration of types

`autoregister.py`, in the build with types that clients do not register. A received type has a
`typemap`, the types in the cache have ids. The state also tells which comparisons answered out of
the memo.
-/

namespace PyLinda.Types.Auto

open Lib

/-- A received type. The `typemap` tells what its names stand for. -/
structure Received where
  typeName : String
  typeSpec : TypeSpec
  typemap : String → Option Nat

/-- The received types by their addresses. -/
abbrev Objects := Nat → Received

/-- A received type or a part of it: the object, and the way to the part. -/
structure Part where
  addr : Nat
  path : List Nat
  typeSpec : TypeSpec

/-- `type1[0]`, `type1[1]`, …. -/
def Part.items (p : Part) (branches : List TypeSpec) : List Part :=
  branches.mapIdx fun k spec => ⟨p.addr, p.path ++ [k], spec⟩

/-- A type in the cache or a part of it; received types get there when they are registered. -/
inductive Known where
  | old (t : LindaType)
  | new (p : Part)

def Known.typeSpec : Known → TypeSpec
  | old t => t.typeSpec
  | new p => p.typeSpec

def Known.items : Known → List TypeSpec → List Known
  | old t, branches => branches.map fun spec => old (t.branch spec)
  | new p, branches => (p.items branches).map new

/-- A part of a received type, and a type that was in the cache. -/
structure Pair where
  addr : Nat
  typeSpec : TypeSpec
  known : LindaType

def pairOf (type1 : Part) : Known → Option Pair
  | .old t => some ⟨type1.addr, type1.typeSpec, t⟩
  | .new _ => none

structure State where
  /-- `__cache`. -/
  cache : String → Option Known
  /-- Its keys, in the order of their insertion. -/
  inserted : List String
  generated : Nat
  /-- The ids at the names in the received types. -/
  ids : Nat → List Nat → Option String
  typeIds : Nat → Option String
  memo : List (Part × Known)
  /-- The pairs that are compared, or were found equal inside of such a comparison. -/
  live : List Pair
  /-- The pairs that were answered out of the memo, and what was live then. What is noted during
  a comparison that fails is forgotten. -/
  answered : List (Pair × List Pair)

abbrev Run (α : Type) : Type := Eff State TypeExc α

section
variable (objs : Objects)

def Known.typeName : Known → String
  | old t => t.typeName
  | new p => (objs p.addr).typeName

/-- `id_type_id`. -/
def Known.idTypeId (s : State) : Known → Option String
  | old t => t.idTypeId
  | new p => s.ids p.addr p.path

/-- The types that the names of a received type stand for. -/
def subscript (a : Nat) (name : String) : Except TypeExc Nat :=
  match (objs a).typemap name with
  | some b => .ok b
  | none => .error .indexError

def root (a : Nat) : Part := ⟨a, [], (objs a).typeSpec⟩

/-! ## The cache -/

def put (id : String) (t : Known) (s : State) : State :=
  { s with cache := fun i => if i = id then some t else s.cache i }

section
variable (generate : Nat → String)

/-- `registerType`. -/
def registerType (a : Nat) : Run String := do
  let n ← Eff.look fun s => .ok s.generated
  let id := "T" ++ generate n
  Eff.update fun s =>
    put id (.new (root objs a)) { s with generated := n + 1, inserted := s.inserted ++ [id] }
  pure id

/-- `updateType`. -/
def updateType (id : String) (a : Nat) : Run Unit := do
  let _ ← Eff.look fun s => match s.cache id with
    | some t => .ok t
    | none => .error .keyError
  Eff.update (put id (.new (root objs a)))

/-- `lookupType`. -/
def lookupType (id : String) : Run Known := Eff.look fun s =>
  match s.cache id with
  | some t => .ok t
  | none => .error .keyError

/-! ## Registering -/

def setIdTypeId (a : Nat) (path : List Nat) (id : String) : Run Unit := Eff.update fun s =>
  { s with ids := fun b q => if b = a ∧ q = path then some id else s.ids b q }

/-- The names whose types are registered, with the ids. -/
abbrev Names := List (String × String)

/-- `type.id_type_id = registerAllTypes(type.typemap[n], memo)`. -/
def registerName (register : Nat → Names → Run (String × Names)) (a : Nat) (path : List Nat)
    (n : String) (memo : Names) : Run Names := do
  let b ← Eff.look fun _ => subscript objs a n
  let r ← register b memo
  setIdTypeId a path r.1
  pure r.2

mutual

/-- `registerAllTypes2`. -/
def registerAllTypes2 (register : Nat → Names → Run (String × Names)) (a : Nat)
    (path : List Nat) : TypeSpec → Names → Run Names
  | .nil, memo => pure memo
  | .id n _, memo =>
    if n ∈ builtin then pure memo
    else registerName objs register a path n memo
  | .product branches, memo | .sum branches, memo =>
    registerBranches register a path 0 branches memo
  | .pointer n _, memo => registerName objs register a path n memo
  | .function _ _, _ => Eff.raise .systemError

def registerBranches (register : Nat → Names → Run (String × Names)) (a : Nat)
    (path : List Nat) (k : Nat) : List TypeSpec → Names → Run Names
  | [], memo => pure memo
  | spec :: specs, memo => do
    let memo ← registerAllTypes2 register a (path ++ [k]) spec memo
    registerBranches register a path (k + 1) specs memo

end

/-- `registerAllTypes` with its memo. -/
def registerAllTypes : (depth : Nat) → Nat → Names → Run (String × Names)
  | 0, _, _ => Eff.raise .recursionLimit
  | depth + 1, a, memo =>
    match memo.lookup (objs a).typeName with
    | some id => pure (id, memo)
    | none => do
      let id ← registerType objs generate a
      let memo ← registerAllTypes2 objs (registerAllTypes depth) a [] (objs a).typeSpec
        (((objs a).typeName, id) :: memo)
      Eff.update fun s => { s with typeIds := fun b => if b = a then some id else s.typeIds b }
      updateType objs id a
      pure (id, memo)

/-! ## Comparing -/

/-- Two keys of the memo are the same: the ids do not count. -/
def sameKey (type1 : Part) (type2 : Known) (key : Part × Known) : Bool :=
  (objs type1.addr).typeName == (objs key.1.addr).typeName &&
    type1.typeSpec.same key.1.typeSpec &&
    type2.typeName objs == key.2.typeName objs && type2.typeSpec.same key.2.typeSpec

/-- `(type1, type2) in memo`. -/
def inMemo (type1 : Part) (type2 : Known) : Run Bool := Eff.look fun s =>
  .ok (s.memo.any (sameKey objs type1 type2))

/-- The comparison begins. -/
def remember (type1 : Part) (type2 : Known) : Run Unit := Eff.update fun s =>
  { s with memo := (type1, type2) :: s.memo, live := (pairOf type1 type2).toList ++ s.live }

/-- It is answered out of the memo. -/
def answer (type1 : Part) (type2 : Known) : Run Unit := Eff.update fun s =>
  { s with answered := (pairOf type1 type2).toList.map (fun p => (p, s.live)) ++ s.answered }

/-- It has failed. -/
def forget (live : List Pair) (answered : List (Pair × List Pair)) : Run Unit :=
  Eff.update fun s => { s with live := live, answered := answered }

/-- The loop over the parts. -/
def eachEq (eq : Part → Known → Run Bool) : List (Part × Known) → Run Bool
  | [] => pure true
  | (type1, type2) :: rest => do
    let r ← eq type1 type2
    if r then eachEq eq rest else pure false

/-- The loop of `findType`. -/
def search (eq : Part → Known → Run Bool) (type : Part) : List String → Run (Option String)
  | [] => pure none
  | t :: ts => do
    let type2 ← lookupType t
    let r ← eq type type2
    if r then pure (some t) else search eq type ts

variable (order : List String → List String)

/-- `findType`, the keys of the cache in the order in which they come; `eq` compares. -/
def findTypeBy (eq : Part → Known → Run Bool) (depth a : Nat) : Run String := do
  let ts ← Eff.look fun s => .ok (order s.inserted)
  let found ← search eq (root objs a) ts
  match found with
  | some t => pure t
  | none => do
    let r ← registerAllTypes objs generate depth a []
    pure r.1

/-- The names `n` and `type2` stand for one type. -/
def typeEqName (find : Nat → Run String) (type1 : Part) (n : String) (type2 : Known) :
    Run Bool := do
  let b ← Eff.look fun _ => subscript objs type1.addr n
  let t ← find b
  let id ← Eff.look fun s => .ok (type2.idTypeId s)
  if some t = id then do
    setIdTypeId type1.addr type1.path t
    pure true
  else pure false

/-- The branches of `typeEq`. -/
def typeEqSpecs (eq : Part → Known → Run Bool) (find : Nat → Run String) (type1 : Part)
    (type2 : Known) : TypeSpec → TypeSpec → Run Bool
  | .nil, .nil => pure true
  | .id n _, .id m _ =>
    if n ∈ builtin then pure (n == m) else typeEqName objs find type1 n type2
  | .product branches, .product branches' | .sum branches, .sum branches' =>
    if branches.length ≠ branches'.length then pure false
    else eachEq eq ((type1.items branches).zip (type2.items branches'))
  | _, _ => pure false -- also two pointers, and two functions

/-- The part of `typeEq` behind the memo. -/
def typeEqBy (eq : Part → Known → Run Bool) (find : Nat → Run String) (type1 : Part)
    (type2 : Known) : Run Bool :=
  if (objs type1.addr).typeName ≠ type2.typeName objs then pure false
  else typeEqSpecs objs eq find type1 type2 type1.typeSpec type2.typeSpec

/-- `typeEq` with a memo. -/
def typeEq : (depth : Nat) → Part → Known → Run Bool
  | 0, _, _ => Eff.raise .recursionLimit
  | depth + 1, type1, type2 => do
    let known ← inMemo objs type1 type2
    if known then do
      answer type1 type2
      pure true
    else do
      let noted ← Eff.look fun s => .ok (s.live, s.answered)
      remember type1 type2
      let r ← typeEqBy objs (typeEq depth)
        (findTypeBy objs generate order (typeEq depth) depth) type1 type2
      if r then pure true
      else do
        forget noted.1 noted.2
        pure false

/-- `typeEq` without a memo. -/
def typeEqAnew (depth : Nat) (type1 : Part) (type2 : Known) : Run Bool := do
  Eff.update fun s => { s with memo := [], live := [], answered := [] }
  typeEq objs generate order depth type1 type2

/-- `findType` without a memo. -/
def findType (depth : Nat) (type : Nat) : Run String :=
  findTypeBy objs generate order (typeEqAnew objs generate order depth) depth type

end

end

/-! ## What it is for -/

mutual

/-- The specifications are made alike, and their names stand for types in the relation. -/
def Matches (R : Nat → String → Prop) (typemap : String → Option Nat) :
    TypeSpec → TypeSpec → Prop
  | .nil, .nil => True
  | .id n _, .id m i =>
    if n ∈ builtin then n = m
    else m ∉ builtin ∧ ∃ a j, typemap n = some a ∧ i = some j ∧ R a j
  | .product branches, .product branches' | .sum branches, .sum branches' =>
    AllMatch R typemap branches branches'
  | .pointer n _, .pointer _ i => ∃ a j, typemap n = some a ∧ i = some j ∧ R a j
  | .function arg result, .function arg' result' =>
    Matches R typemap arg arg' ∧ Matches R typemap result result'
  | _, _ => False

def AllMatch (R : Nat → String → Prop) (typemap : String → Option Nat) :
    List TypeSpec → List TypeSpec → Prop
  | [], [] => True
  | spec :: specs, spec' :: specs' =>
    Matches R typemap spec spec' ∧ AllMatch R typemap specs specs'
  | _, _ => False

end

mutual

/-- What `registerAllTypes` leaves: a built-in name has no id, and no id is generated again. -/
def Settled (generate : Nat → String) : TypeSpec → Prop
  | .nil => True
  | .id n i => (n ∈ builtin → i = none) ∧ ∀ k, i ≠ some ("T" ++ generate k)
  | .product branches | .sum branches => AllSettled generate branches
  | .pointer _ i => ∀ k, i ≠ some ("T" ++ generate k)
  | .function arg result => Settled generate arg ∧ Settled generate result

def AllSettled (generate : Nat → String) : List TypeSpec → Prop
  | [] => True
  | spec :: specs => Settled generate spec ∧ AllSettled generate specs

end

/-- A cache of registered types, and the ids that are still to be generated. -/
structure Registry where
  types : List (String × LindaType)
  generate : Nat → String
  unused : ∀ e ∈ types, ∀ k, e.1 ≠ "T" ++ generate k
  settled : ∀ e ∈ types, Settled generate e.2.typeSpec

namespace Registry

variable (g : Registry)

/-- The state when a type is received; `ids` are the ids that came with it. -/
def start (ids : Nat → List Nat → Option String) : State where
  cache := fun i => (g.types.lookup i).map .old
  inserted := g.types.map Prod.fst
  generated := 0
  ids := ids
  typeIds := fun _ => none
  memo := []
  live := []
  answered := []

variable (objs : Objects)

/-- Related types have one name and are made alike. -/
def Closed (R : Nat → String → Prop) : Prop :=
  ∀ a i, R a i → ∃ t, g.types.lookup i = some t ∧ (objs a).typeName = t.typeName ∧
    Matches R (objs a).typemap (objs a).typeSpec t.typeSpec

/-- The received type is structurally equal to the registered one. -/
def Equal (a : Nat) (i : String) : Prop := ∃ R, g.Closed objs R ∧ R a i

/-- The parts of types are structurally equal. -/
def PairEqual (p : Pair) : Prop :=
  (objs p.addr).typeName = p.known.typeName ∧
    Matches (g.Equal objs) (objs p.addr).typemap p.typeSpec p.known.typeSpec

end Registry

/-- The pair was answered out of the memo, and it was left there by a comparison that had failed,
or by one of other types. -/
def State.Stale (s : State) (p : Pair) : Prop := ∃ live, (p, live) ∈ s.answered ∧ p ∉ live

section
variable (g : Registry) (objs : Objects) (order : List String → List String)

/-- `findType` returns the id of a type that was there. -/
def Finds (ids : Nat → List Nat → Option String) (depth a : Nat) (i : String) (s' : State) :
    Prop :=
  findType objs g.generate order depth a (g.start ids) = (.ok i, s') ∧
    ∃ t, g.types.lookup i = some t

/-- What is found is structurally equal. -/
def Sound (ids : Nat → List Nat → Option String) (a : Nat) : Prop :=
  ∀ depth i s', Finds g objs order ids depth a i s' → g.Equal objs a i

/-- Where a type is found, no wrong pair was answered out of the memo. -/
def Untainted (ids : Nat → List Nat → Option String) (a : Nat) : Prop :=
  ∀ depth i s', Finds g objs order ids depth a i s' → ∀ p, s'.Stale p → g.PairEqual objs p

end

end PyLinda.Types.Auto
