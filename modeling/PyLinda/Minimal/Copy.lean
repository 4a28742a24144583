import Mathlib.Data.List.Basic
import PyLinda.Lib.Effect

/-!
# Copying values

`Minimal_copy`: a walk over the graph of a value that remembers which value it has made of which.
A new value is filled in when its parts are there; nobody reads it before.
-/

namespace PyLinda.Copy

open Lib

/-- A pointer, which may be `NULL`. -/
abbrev Ptr : Type := Option Nat

/-- The part of a `MinimalValue` that its type says is there. -/
inductive Content where
  | nil
  | boolean (b : UInt8)
  | integer (i : Int)
  | uinteger (n : Nat)
  | float (bits : Nat)
  | double (bits : Nat)
  | string (bytes : List UInt8)
  | type (typeName : Option String) (typeSpec typemap : Ptr) (typeId : Option String)
  | tsref (string : String)
  | tuple (values : List Ptr)
  | sum (value : Ptr) (sumPos : Int)
  | function (funcName : String) (parameterList code layer : Ptr)
  | pointer (ptr : Ptr)
  | syntaxTree (syntaxTree : Ptr)
  | builtInFunc (builtInName : Nat) (argCount : Int) (funcPtr : Nat)

structure Node where
  typeobj : Ptr
  content : Content

/-- The values, the reference counts of all objects, the first address that was never given
out, and the tuple spaces the server was told of. -/
structure Heap where
  node : Nat → Option Node
  refCount : Nat → Int
  next : Nat
  told : List String

/-- The heap, and the pairs of values and copies. -/
structure State where
  heap : Heap
  memo : List (Nat × Nat)

inductive Stop where
  | depth
  | null
  | dangling
  | uninitialised
  deriving DecidableEq

abbrev Run (α : Type) : Type := Eff State Stop α

namespace State

def addRef (s : State) (a : Nat) : State :=
  { s with heap := { s.heap with
    refCount := fun b => if b = a then s.heap.refCount b + 1 else s.heap.refCount b } }

/-- `Minimal_newReference`, and the new entry of the memo. -/
def alloc (s : State) (v : Nat) : State where
  heap := { s.heap with
    refCount := fun a => if a = s.heap.next then 1 else s.heap.refCount a
    next := s.heap.next + 1 }
  memo := s.memo ++ [(v, s.heap.next)]

def store (s : State) (a : Nat) (n : Node) : State :=
  { s with heap := { s.heap with node := fun b => if b = a then some n else s.heap.node b } }

def tell (s : State) (ts : List String) : State :=
  { s with heap := { s.heap with told := s.heap.told ++ ts } }

end State

/-- `Minimal_addReference`. -/
def addReference : Ptr → Run Unit
  | none => Eff.raise .null
  | some a => Eff.update fun s => s.addRef a

/-- With a look whether there is something to refer to. -/
def addReferenceIf : Ptr → Run Unit
  | none => pure ()
  | some a => addReference (some a)

section
variable (linda : Bool) (copy : Ptr → Run Ptr)

/-- The loop over the values of a tuple. -/
def copyValues : List Ptr → Run (List Ptr)
  | [] => pure []
  | v :: vs => do
    let nv ← copy v
    let nvs ← copyValues vs
    pure (nv :: nvs)

/-- `Minimal_linda_ts_addref_func`, which liblinda sets. -/
def tsAddRef (ts : String) : Run Unit :=
  if linda then Eff.update fun s => s.tell [ts] else Eff.raise .null

/-- The `switch`. -/
def copyContent : Content → Run Content
  | .type typeName typeSpec typemap typeId => do
    addReference typeSpec
    addReferenceIf typemap
    pure (.type typeName typeSpec typemap typeId)
  | .tsref string => do
    tsAddRef linda string
    pure (.tsref string)
  | .tuple values => do
    let nvs ← copyValues copy values
    pure (.tuple nvs)
  | .function funcName parameterList code layer => do
    addReference parameterList
    addReference code
    addReference layer
    pure (.function funcName parameterList code layer)
  | .pointer ptr => do
    let np ← copy ptr
    pure (.pointer np)
  -- "Unknown value type": the new value is deleted, with the parts it does not have yet
  | .sum _ _ => Eff.raise .uninitialised
  | .syntaxTree _ => Eff.raise .uninitialised
  | content => pure content

end

/-- `*v`. -/
def nodeAt (h : Heap) (v : Nat) : Except Stop Node :=
  match h.node v with
  | none => .error .dangling
  | some n => .ok n

/-- A value that is not in the memo is copied. -/
def copyNew (linda : Bool) (copy : Ptr → Run Ptr) (v : Nat) : Run Ptr := do
  let n ← Eff.look fun s => nodeAt s.heap v
  let nv ← Eff.look fun s => .ok s.heap.next
  Eff.update fun s => s.alloc v
  addReferenceIf n.typeobj
  let content ← copyContent linda copy n.content
  Eff.update fun s => s.store nv ⟨n.typeobj, content⟩
  pure (some nv)

/-- `Minimal_copy_internal`. -/
def copyInternal (linda : Bool) : (depth : Nat) → Ptr → Run Ptr
  | _, none => pure none
  | 0, some _ => Eff.raise .depth
  | depth + 1, some v => do
    let found ← Eff.look fun s => .ok (s.memo.lookup v)
    match found with
    | some nv => do
      addReference (some nv)
      pure (some nv)
    | none => copyNew linda (copyInternal linda depth) v

/-- `Minimal_copy`. -/
def copy (linda : Bool) (depth : Nat) (v : Ptr) (h : Heap) : Except Stop Ptr × Heap :=
  let r := copyInternal linda depth v ⟨h, []⟩
  (r.1, r.2.heap)

/-! ## What a copy is -/

namespace Content

/-- The values in the value. -/
def kids : Content → List Ptr
  | tuple vs => vs
  | sum v _ => [v]
  | pointer p => [p]
  | _ => []

/-- The other objects it refers to. -/
def outs : Content → List Nat
  | type _ typeSpec typemap _ => typeSpec.toList ++ typemap.toList
  | function _ parameterList code layer => parameterList.toList ++ code.toList ++ layer.toList
  | syntaxTree t => t.toList
  | _ => []

def tsids : Content → List String
  | tsref ts => [ts]
  | _ => []

/-- With other values in it. -/
def map (f : Nat → Nat) : Content → Content
  | tuple vs => tuple (vs.map (Option.map f))
  | sum v i => sum (v.map f) i
  | pointer p => pointer (p.map f)
  | c => c

/-- `Minimal_copy_internal` has a case for it, and what the case needs is there. -/
def Copyable (linda : Bool) : Content → Prop
  | sum _ _ | syntaxTree _ => False
  | type _ typeSpec _ _ => typeSpec.isSome
  | tsref _ => linda = true
  | function _ parameterList code layer => parameterList.isSome ∧ code.isSome ∧ layer.isSome
  | _ => True

end Content

def Node.kids (n : Node) : List Ptr := n.content.kids

def Node.outs (n : Node) : List Nat := n.typeobj.toList ++ n.content.outs

def Node.map (f : Nat → Nat) (n : Node) : Node := ⟨n.typeobj, n.content.map f⟩

namespace Heap
variable (h : Heap)

def kids (v : Nat) : List Ptr := ((h.node v).map Node.kids).getD []

def outs (v : Nat) : List Nat := ((h.node v).map Node.outs).getD []

def tsids (v : Nat) : List String := ((h.node v).map fun n => n.content.tsids).getD []

/-- There are no dangling pointers. -/
structure Valid : Prop where
  used : ∀ {v n}, h.node v = some n → v < h.next
  kids : ∀ {v n w}, h.node v = some n → some w ∈ n.kids → (h.node w).isSome
  outs : ∀ {v n a}, h.node v = some n → a ∈ n.outs → a < h.next

/-- The values that can be reached from a pointer. -/
inductive Reach (root : Ptr) : Nat → Prop
  | root {v} : root = some v → Reach root v
  | kid {v n w} : Reach root v → h.node v = some n → some w ∈ n.kids → Reach root w

end Heap

/-- `h'` is `h` with a copy of what can be reached from `root`: `f` gives the copy of each of
the values `vs`. -/
structure Copied (h : Heap) (root : Ptr) (h' : Heap) (r : Ptr) (vs : List Nat) (f : Nat → Nat) :
    Prop where
  nodup : vs.Nodup
  reached : ∀ v, v ∈ vs ↔ h.Reach root v
  result : r = root.map f
  injective : ∀ v ∈ vs, ∀ w ∈ vs, f v = f w → v = w
  fresh : ∀ a, h.next ≤ a ∧ a < h'.next ↔ ∃ v ∈ vs, f v = a
  copies : ∀ v ∈ vs, h'.node (f v) = (h.node v).map (Node.map f)
  same : ∀ a < h.next, h'.node a = h.node a
  references : ∀ a < h.next, h'.refCount a = h.refCount a + ((vs.flatMap h.outs).count a : Nat)
  newReferences : ∀ v ∈ vs, h'.refCount (f v) =
    ((vs.flatMap h.kids).count (some v) : Nat) + if root = some v then 1 else 0
  told : h'.told = h.told ++ vs.flatMap h.tsids

end PyLinda.Copy
