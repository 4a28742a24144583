import PyLinda.Minimal.CyclicGarbage
import PyLinda.Minimal.Heap

/-!
# Values on the heap

The functions of `values.c` that make values and put values into others. A reference to a value
is owned by whoever will drop it: some arguments of these functions are borrowed, and a reference
to them is added, and some are taken over.
-/

namespace PyLinda.Values

open Counted RefCount

/-- Where there is never an object. -/
def nowhere : Addr := 0

/-- What `Minimal_addToCyclicGarbageList` finds at a word; it passes over `NULL`. -/
def listed : Word Addr → Option Addr
  | .null => none
  | .ref r => some r
  | _ => some nowhere

/-- What `Minimal_delReference` finds at a word. -/
def dropped : Word Addr → Addr
  | .ref r => r
  | _ => nowhere

/-- `Minimal_Value_getReferences`. -/
def refs (v : Val Addr) : List Addr := v.references.filterMap listed

/-- `Minimal_Value_free`. -/
def drops (v : Val Addr) : List Addr := v.free.map dropped

/-- `tuple->values[pos]`, after the tuple was made longer where it has to be. -/
def slot (v : Val Addr) (pos : Nat) : Word Addr := (elements v.size v.values)[pos]?.getD .null

/-- The objects, the contents of those that are values, and how many were made. -/
structure Memory where
  heap : RefCount.Heap
  val : Addr → Option (Val Addr)
  made : Nat

namespace Memory

/-- The value at an address, if there still is one. -/
def read (m : Memory) (p : Addr) : Option (Val Addr) := do
  let _ ← m.heap.objs p
  m.val p

/-- What is written into a value. -/
def write (p : Addr) (v : Val Addr) (m : Memory) : Option Memory := do
  let o ← m.heap.objs p
  some { m with
    heap := m.heap.set p (some ⟨o.refCount, refs v, drops v⟩)
    val := fun q => if q = p then some v else m.val q }

/-- `Minimal_newReference` where `malloc` returns `p`, and what is written into the value. -/
def newReference (p : Addr) (v : Val Addr) (m : Memory) : Memory where
  heap := m.heap.set p (some ⟨1, refs v, drops v⟩)
  val q := if q = p then some v else m.val q
  made := m.made + 1

/-- `Minimal_addReference`. -/
def addReference (p : Addr) (m : Memory) : Option Memory := do
  let o ← m.heap.objs p
  some { m with heap := m.heap.set p (some { o with refCount := o.refCount + 1 }) }

/-- `Minimal_delReference`. There are fewer calls inside each other than objects. -/
def delReference (p : Addr) (m : Memory) : Option Memory := do
  let heap ← RefCount.delReference (m.made + 2) p m.heap
  some { m with heap := heap }

/-- `if(w != NULL) { Minimal_delReference(w); }` -/
def delIfThere (w : Word Addr) (m : Memory) : Option Memory :=
  if w.isNull then some m else m.delReference (dropped w)

/-! ## Putting values into others -/

/-- `Minimal_setType`. -/
def setType (value type : Addr) (m : Memory) : Option Memory := do
  let v ← m.read value
  let m ← m.addReference type
  let m ← m.write value (v.setType (some type))
  m.delIfThere v.typeobj

/-- `Minimal_setPtr`. -/
def setPtr (p v2 : Addr) (m : Memory) : Option Memory := do
  let v ← m.read p
  let m ← m.delIfThere v.ptr
  m.write p (v.setPtr (some v2))

/-- `Minimal_setSumValue`. -/
def setSumValue (p v2 : Addr) (i : Int) (m : Memory) : Option Memory := do
  let v ← m.read p
  let m ← m.delReference (dropped v.value)
  m.write p (v.setSumValue (some v2) i)

/-- `Minimal_tupleSet`, and with the size of the tuple `Minimal_tupleAdd`. -/
def tupleSet (p : Addr) (pos : Nat) (value : Option Addr) (m : Memory) : Option Memory := do
  let v ← m.read p
  let m ← m.delIfThere (slot v pos)
  m.write p (v.tupleSet pos value)

/-! ## Making values -/

/-- `Minimal_nil`, `Minimal_bool`, `Minimal_byte`, …, `Minimal_double`, `Minimal_string` and
`Minimal_tupleSpace`: what has no references but to its type. -/
def newTyped (p : Addr) (v : Val Addr) (type : Addr) (m : Memory) : Option Memory :=
  (m.newReference p v).setType p type

/-- `Minimal_typeFromId`; there is no `Minimal_typeType` at first. -/
def typeFromId (p : Addr) (type : Option Addr) (m : Memory) : Option Memory :=
  let m := m.newReference p (Val.typeFromId none)
  type.elim (some m) fun type => m.setType p type

/-- `Minimal_typeSpec`, if it is not called with an `ST_TYPE_SPEC`; `layer` is what
`Minimal_getCurrentLayer` returns. -/
def typeSpec (p spec layer : Addr) (type : Option Addr) (m : Memory) : Option Memory := do
  let m ← m.addReference layer
  let m := m.newReference p (Val.typeSpecVal none (some spec) (some layer))
  type.elim (some m) fun type => m.setType p type

/-- `Minimal_function2` without a type. -/
def function2 (p parameterList code layer : Addr) (m : Memory) : Option Memory := do
  let m ← m.addReference layer
  some (m.newReference p (Val.function2 none (some parameterList) (some code) (some layer)))

/-- `Minimal_ptr`. -/
def ptr (p value : Addr) (m : Memory) : Option Memory := do
  let m ← m.addReference value
  some (m.newReference p (Val.ptrTo (some value)))

end Memory

/-- A value without references. -/
inductive Plain where
  | scalar (kind : MType) (n : Int) (isScalar : Val.IsScalar kind)
  | string (len : Nat)
  | tupleSpace

def Plain.val : Plain → Val Addr
  | scalar kind n _ => Val.scalar kind none n
  | string len => Val.string none len
  | tupleSpace => Val.tupleSpace none

/-- A call. What `malloc` returns comes first. -/
inductive Op where
  | addReference (p : Addr)
  | delReference (p : Addr)
  | plain (p : Addr) (v : Plain) (type : Addr)
  | string2 (p : Addr) (len : Nat)
  | typeFromId (p : Addr) (type : Option Addr)
  | typeSpec (p spec layer : Addr) (type : Option Addr)
  | function2 (p parameterList code layer : Addr)
  | tuple (p : Addr) (size : Nat)
  | ptr (p value : Addr)
  | sum (p val : Addr) (sumpos : Int)
  | setType (value type : Addr)
  | setPtr (p v2 : Addr)
  | setSumValue (p v2 : Addr) (i : Int)
  | tupleSet (p : Addr) (pos : Nat) (value : Option Addr)

namespace Op

def exec : Op → Memory → Option Memory
  | addReference p => Memory.addReference p
  | delReference p => Memory.delReference p
  | plain p v type => Memory.newTyped p v.val type
  | string2 p len => fun m => some (m.newReference p (Val.string none len))
  | typeFromId p type => Memory.typeFromId p type
  | typeSpec p spec layer type => Memory.typeSpec p spec layer type
  | function2 p parameterList code layer => Memory.function2 p parameterList code layer
  | tuple p size => fun m => some (m.newReference p (Val.tuple size))
  | ptr p value => Memory.ptr p value
  | sum p val sumpos => fun m => some (m.newReference p (Val.sum (some val) sumpos))
  | setType value type => Memory.setType value type
  | setPtr p v2 => Memory.setPtr p v2
  | setSumValue p v2 i => Memory.setSumValue p v2 i
  | tupleSet p pos value => Memory.tupleSet p pos value

/-- The references of the caller that the call takes over. -/
def takes : Op → List Addr
  | delReference p => [p]
  | typeSpec _ spec _ _ => [spec]
  | function2 _ parameterList code _ => [parameterList, code]
  | sum _ val _ => [val]
  | setPtr _ v2 => [v2]
  | setSumValue _ v2 _ => [v2]
  | tupleSet _ _ value => value.toList
  | _ => []

/-- The references that the caller has afterwards. -/
def gives : Op → List Addr
  | addReference p => [p]
  | plain p _ _ | string2 p _ | typeFromId p _ | typeSpec p _ _ _ | function2 p _ _ _ | tuple p _
  | ptr p _ | sum p _ _ => [p]
  | _ => []

end Op

end PyLinda.Values
