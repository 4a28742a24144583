import PyLinda.Lib.Effect
import PyLinda.Types.Compare

/-!
# Converting values

`convertvalue.py`. A `Value` is an object with an identity: the Python objects only point to
it, and what is taken out of a tuple or a sum is the object that is in it. `settypeid`
changes the object, the constructors make new ones.
-/

namespace PyLinda.Types

open Lib

/-- The identity of a `Value`. -/
abbrev Ref := Nat

/-- What a `Value` holds. `δ` are the data of all other kinds. -/
inductive Content (δ : Type) where
  | data (d : δ)
  | type (t : LindaType)
  | tuple (values : List Ref)
  | sum (value : Ref) (sumPos : Int)

/-- A `Value`. The inner `none` is a type without an id, the outer one no type at all. -/
structure Obj (δ : Type) where
  content : Content δ
  type : Option (Option String)

/-- What `lookupIso` returns, with the programs it may run. -/
structure SavedIso where
  converter : Converter
  codes : List (List Instr)

/-- `linda_Value_settypeid`: a type gets the id, another value a type with the id. -/
def Obj.setTypeId {δ : Type} (o : Obj δ) (id : String) : Obj δ :=
  match o.content with
  | .type t => { o with content := .type { t with typeId := some id } }
  | _ => { o with type := some (some id) }

/-- The objects, `__cache` of `iso_cache.py`, and which type ids were set on which objects;
the code keeps no record of that. -/
structure Objects (δ : Type) where
  objs : List (Obj δ)
  isos : List (Option String × Option String × Option SavedIso)
  settings : List (Ref × String)

abbrev Run (δ α : Type) : Type := Eff (Objects δ) TypeExc α

section
variable {δ : Type}

/-- The object of a reference; there is one. -/
def load (r : Ref) : Run δ (Obj δ) := Eff.look fun s =>
  match s.objs[r]? with
  | none => .error .systemError
  | some o => .ok o

/-- A new `Value`. -/
def alloc (o : Obj δ) : Run δ Ref := do
  let r ← Eff.look fun s => .ok s.objs.length
  Eff.update fun s => { s with objs := s.objs ++ [o] }
  pure r

/-- `value.type_id = id`; `None` is not a string. -/
def setTypeId (r : Ref) : Option String → Run δ Unit
  | none => Eff.raise .typeError
  | some id => do
    let o ← load r
    Eff.update fun s =>
      { s with objs := s.objs.set r (o.setTypeId id), settings := s.settings ++ [(r, id)] }

/-- `l[i]`; a negative index counts from the end. -/
def pyIndex {α : Type} (l : List α) (i : Int) : Except TypeExc α :=
  match l[(if i < 0 then i + l.length else i).toNat]? with
  | none => .error .indexError
  | some a => if i + l.length < 0 then .error .indexError else .ok a

/-- The loop of `explode`. -/
def explodeAll (inner : List Ref → Run δ (List Ref)) : List Ref → Run δ (List Ref)
  | [] => pure []
  | e :: reg => do
    let o ← load e
    match o.content with
    | .tuple values => do
      let l ← inner values
      let r ← explodeAll inner reg
      pure (l ++ r)
    | _ => do
      let r ← explodeAll inner reg
      pure (e :: r)

def explode : (depth : Nat) → List Ref → Run δ (List Ref)
  | 0, _ => Eff.raise .recursionLimit
  | depth + 1, reg => explodeAll (explode depth) reg

/-- `v = reg[0]; del reg[0]`. -/
def takeFirst : List Ref → Run δ (Ref × List Ref)
  | [] => Eff.raise .indexError
  | v :: reg => pure (v, reg)

/-- The loop of `construct`; the registers are used up from the front. -/
def constructAll (construct : LindaType → List Ref → Run δ (Ref × List Ref)) :
    List LindaType → List Ref → Run δ (List Ref × List Ref)
  | [], reg => pure ([], reg)
  | t :: ts, reg => do
    let (v, reg) ← construct t reg
    let (vs, reg) ← constructAll construct ts reg
    pure (v :: vs, reg)

section
variable (c : TypeCache)

def construct : (depth : Nat) → LindaType → List Ref → Run δ (Ref × List Ref)
  | 0, _, _ => Eff.raise .recursionLimit
  | depth + 1, type, reg =>
    match type.typeSpec with
    | .product _ => do
      let (v, reg) ← constructAll (construct depth) type.items reg
      let r ← alloc ⟨.tuple v, none⟩
      pure (r, reg)
    | .id n i =>
      if n ∉ builtin then do
        let t ← Eff.look fun _ => c.lookupType i
        if t.isProductType then construct depth t reg else takeFirst reg
      else takeFirst reg
    | _ => takeFirst reg

/-- One instruction. The registers are in the order in which `pop` takes them. -/
def runInstr (depth : Nat) (convertValue : Nat → Ref → Run δ Ref) :
    Instr → List Ref → Run δ (List Ref)
  | .construct type, regs => do
    let (v, _) ← construct c depth type regs
    pure [v]
  | _, [] => Eff.raise .indexError
  | .setTypeId id, v :: regs => do
    setTypeId v id
    pure (v :: regs)
  | .eval code, v :: regs => do
    let v ← convertValue code v
    pure (v :: regs)
  | .explode _, v :: regs => do
    let l ← explode depth [v]
    pure (l ++ regs)
  | .rotate, v :: regs => pure (regs ++ [v])
  | .sumCase funcs, v :: regs => do
    let o ← load v
    match o.content with
    | .sum value sumPos => do
      let code ← Eff.look fun _ => pyIndex funcs sumPos
      let v ← convertValue code value
      pure (v :: regs)
    | _ => Eff.raise .typeError
  | .createSum pos, v :: regs => do
    let v ← alloc ⟨.sum v pos, none⟩
    pure (v :: regs)
  | .ptrConv _, _ :: _ => Eff.raise .systemError

def runCode (depth : Nat) (convertValue : Nat → Ref → Run δ Ref) :
    List Instr → List Ref → Run δ (List Ref)
  | [], regs => pure regs
  | i :: is, regs => do
    let regs ← runInstr c depth convertValue i regs
    runCode depth convertValue is regs

/-- `convertValue`. -/
def convertValue (codes : List (List Instr)) : (depth : Nat) → (code : Nat) → Ref → Run δ Ref
  | 0, _, _ => Eff.raise .recursionLimit
  | depth + 1, code, val => do
    let is ← Eff.look fun _ => pyIndex codes code
    let regs ← runCode c depth (convertValue codes depth) is [val]
    let (v, _) ← takeFirst regs
    pure v

end

end

end PyLinda.Types
