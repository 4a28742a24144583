import Mathlib.Algebra.Ring.Nat
import PyLinda.Lib.Effect
import PyLinda.Lib.Visited

/-!
# References in a tuple that goes out

`Linda_out` tells the server of each reference to a tuple space in the tuple before it sends the
tuple. `Linda_scanTuple` follows tuples, sums and pointers, and remembers the tuples only.
-/

namespace PyLinda.Scan

open Lib

/-- A pointer, which may be `NULL`. -/
abbrev Ptr : Type := Option Nat

/-- What the scan and the serialiser follow of a value. A tuple has the address of its array. -/
inductive Content where
  | other
  | tsref (string : String)
  | tuple (values : Ptr)
  | sum (value : Ptr)
  | pointer (ptr : Ptr)

/-- The values and the arrays of the tuples, which lie below `next`. -/
structure Heap where
  content : Nat → Option Content
  array : Nat → List Ptr
  next : Nat
  below : ∀ {v a}, content v = some (.tuple (some a)) → a < next

/-- The values of a tuple; an empty one has no array. -/
def Heap.elements (h : Heap) (values : Ptr) : List Ptr := values.elim [] h.array

inductive Stop where
  | depth
  | null
  | dangling
  deriving DecidableEq

/-- `v->type`. -/
def Heap.typeOf (h : Heap) : Ptr → Except Stop Content
  | none => .error .null
  | some v => (h.content v).elim (.error .dangling) .ok

/-! ## `refcount.c` -/

/-- `Message_addReference2`. -/
structure AddReference where
  ts : String
  ref : String
  deriving DecidableEq

/-- The arrays of the tuples met so far, and the messages. -/
structure State where
  scanned : List Nat
  sent : List AddReference

abbrev Run : Type := Eff State Stop Unit

namespace State

/-- `NULL` would be the end of the list. -/
def enter (s : State) (values : Ptr) : State := { s with scanned := s.scanned ++ values.toList }

def send (s : State) (m : AddReference) : State := { s with sent := s.sent ++ [m] }

/-- The loop over `*scanned`. -/
def met (s : State) (values : Ptr) : Bool := values.any s.scanned.contains

end State

/-- The loop over the values of a tuple. -/
def scanElements (scan : Ptr → Run) : List Ptr → Run
  | [] => pure ()
  | v :: vs => do
    scan v
    scanElements scan vs

section
variable (h : Heap) (ref : String)

/-- `Linda_scanTuple2`. -/
def scanTuple2 (scan : Ptr → Run) (values : Ptr) : Run := do
  let met ← Eff.look fun s => .ok (s.met values)
  if met then pure ()
  else do
    Eff.update fun s => s.enter values
    scanElements scan (h.elements values)

/-- The `switch`. -/
def scanContent (scan : Ptr → Run) : Content → Run
  | .other => pure ()
  | .tsref ts => Eff.update fun s => s.send ⟨ts, ref⟩
  | .tuple values => scanTuple2 h scan values
  | .sum value => scan value
  | .pointer ptr => scan ptr

/-- `Linda_scanValueForTSRef`. -/
def scanValueForTSRef : (depth : Nat) → Ptr → Run
  | 0, _ => Eff.raise .depth
  | depth + 1, v => do
    let content ← Eff.look fun _ => h.typeOf v
    scanContent h ref (scanValueForTSRef depth) content

/-- `Linda_scanTuple`, for a tuple with these values: the messages it sends. -/
def scanTuple (depth : Nat) (values : Ptr) : Except Stop (List AddReference) :=
  let r := scanTuple2 h (scanValueForTSRef h ref depth) values ⟨[], []⟩
  r.1.map fun _ => r.2.sent

end

/-! ## `serialise.c` -/

/-- The memo, and the tuple spaces of the `tsid` nodes. -/
structure Written where
  memo : List Nat
  tsids : List String

abbrev Writing : Type := Eff Written Stop Unit

namespace Written

def enter (s : Written) (v : Ptr) : Written := { s with memo := s.memo ++ v.toList }

def write (s : Written) (ts : String) : Written := { s with tsids := s.tsids ++ [ts] }

end Written

/-- The loop over the values of a tuple, which stops at `NULL`. -/
def serialiseElements (serialise : Ptr → Writing) : List Ptr → Writing
  | [] => pure ()
  | none :: _ => pure ()
  | some v :: vs => do
    serialise (some v)
    serialiseElements serialise vs

/-- The `switch`. -/
def serialiseContent (h : Heap) (serialise : Ptr → Writing) : Content → Writing
  | .other => pure ()
  | .tsref ts => Eff.update fun s => s.write ts
  | .tuple values => serialiseElements serialise (h.elements values)
  | .sum value => serialise value
  | .pointer ptr => do
    let found ← Eff.look fun s => .ok (ptr.any s.memo.contains)
    if found then pure ()
    else do
      Eff.update fun s => s.enter ptr
      serialise ptr

/-- `Minimal_serialiseValue`. -/
def serialiseValue (h : Heap) : (depth : Nat) → Ptr → Writing
  | 0, _ => Eff.raise .depth
  | depth + 1, v => do
    Eff.update fun s => s.enter v
    let content ← Eff.look fun _ => h.typeOf v
    serialiseContent h (serialiseValue h depth) content

/-- `Minimal_serialise`: the tuple spaces of the `tsid` nodes of the document. -/
def serialise (h : Heap) (depth : Nat) (v : Ptr) : Except Stop (List String) :=
  let r := serialiseValue h depth v ⟨[], []⟩
  r.1.map fun _ => r.2.tsids

/-! ## What the scan is for -/

/-- The server receives a tuple with these references. -/
def Received (h : Heap) (t : Nat) (tsids : List String) : Prop :=
  ∃ depth, serialise h depth (some t) = .ok tsids

/-- The scan comes to an end and sends one message for each reference that the server receives. -/
def Counts (h : Heap) (ref : String) (t : Nat) (values : Ptr) : Prop :=
  ∃ depth sent tsids, scanTuple h ref depth values = .ok sent ∧ Received h t tsids ∧
    sent.Perm (tsids.map fun ts => ⟨ts, ref⟩)

/-- What a pointer or a sum leads to. -/
def Content.onward : Content → Option Ptr
  | sum value => some value
  | pointer ptr => some ptr
  | _ => none

namespace Heap
variable (h : Heap)

/-- Through pointers and sums alone there is a way from the pointer to a value of this content. -/
inductive Leads : Ptr → Content → Prop
  | here {v c} : h.content v = some c → c.onward = none → Leads (some v) c
  | on {v c p d} : h.content v = some c → c.onward = some p → Leads p d → Leads (some v) d

/-- The arrays of the tuples that can be reached from a tuple with these values. -/
inductive Met (values : Ptr) : Nat → Prop
  | root {a} : values = some a → Met values a
  | element {a e b} : Met values a → e ∈ h.array a → h.Leads e (.tuple (some b)) → Met values b

open Classical in
/-- How many values of a tuple lead to a reference to the tuple space. -/
noncomputable def leading (ts : String) (es : List Ptr) : Nat :=
  es.countP fun e => decide (h.Leads e (.tsref ts))

open Classical in
/-- How many values of the tuples do that, each tuple taken once. -/
noncomputable def references (values : Ptr) (ts : String) : Nat :=
  (((List.range h.next).filter fun a => decide (h.Met values a)).map
    fun a => h.leading ts (h.array a)).sum

end Heap

end PyLinda.Scan
