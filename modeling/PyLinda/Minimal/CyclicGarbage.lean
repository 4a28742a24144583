/-!
# Counting references

`refcount.c` and `cyclic_garbage.c`. An object has its count, the references that
`Minimal_getReferences` enumerates and the ones that its free function drops. `none` is a use of
memory that is not an object, the write to `NULL`, or that the calls were not let go deep
enough.
-/

namespace PyLinda.RefCount

abbrev Addr := Nat

/-- An object behind its `MINIMAL_REF_COUNT`. -/
structure Obj where
  refCount : Int
  refs : List Addr
  drops : List Addr

/-- The objects, and what was passed to `free`; the code keeps no record of that. -/
structure Heap where
  objs : Addr → Option Obj
  freed : List Addr

namespace Heap

def getReferenceCount (h : Heap) (ptr : Addr) : Option Int := (h.objs ptr).map Obj.refCount

/-- What is at an address. -/
def set (h : Heap) (ptr : Addr) (o : Option Obj) : Heap :=
  { h with objs := fun q => if q = ptr then o else h.objs q }

theorem set_same (h : Heap) (ptr : Addr) (o : Option Obj) : (h.set ptr o).objs ptr = o := if_pos rfl

theorem set_other (h : Heap) {ptr q : Addr} (hq : q ≠ ptr) (o : Option Obj) :
    (h.set ptr o).objs q = h.objs q := if_neg hq

def setReferenceCount (h : Heap) (ptr : Addr) (i : Int) : Option Heap := do
  let o ← h.objs ptr
  some (h.set ptr (some { o with refCount := i }))

/-- `free`. -/
def free (h : Heap) (ptr : Addr) : Option Heap := do
  let _ ← h.objs ptr
  some { h.set ptr none with freed := h.freed ++ [ptr] }

theorem setReferenceCount_some {h : Heap} {ptr : Addr} {o : Obj} (ho : h.objs ptr = some o)
    (i : Int) : h.setReferenceCount ptr i = some (h.set ptr (some { o with refCount := i })) := by
  unfold setReferenceCount
  rw [ho]
  rfl

theorem free_some {h : Heap} {ptr : Addr} {o : Obj} (ho : h.objs ptr = some o) :
    h.free ptr = some { h.set ptr none with freed := h.freed ++ [ptr] } := by
  unfold free
  rw [ho]
  rfl

end Heap

/-! ## The list of what can be reached -/

/-- `struct CyclicGarbage`. -/
structure CyclicGarbage where
  ptr : Addr
  count : Nat
  refcount : Int
  ptrtos : List Nat
  inClique : Bool

section
variable (h : Heap)

/-- `Minimal_addToCyclicGarbageList`, while the object at `current` is looked at. -/
def addToCyclicGarbageList (current : Nat) (list : List CyclicGarbage) (ptr : Addr) :
    Option (List CyclicGarbage) := do
  let refcount ← h.getReferenceCount ptr
  let k := list.findIdx fun item => item.ptr == ptr
  let list :=
    if k < list.length then list.modify k fun item => { item with count := item.count + 1 }
    else list ++ [⟨ptr, 1, refcount, [], false⟩]
  some (list.modify current fun item => { item with ptrtos := item.ptrtos ++ [k] })

/-- `Minimal_getReferences`: every reference is put on the list. -/
def getReferences (current : Nat) : List Addr → List CyclicGarbage → Option (List CyclicGarbage)
  | [], list => some list
  | r :: rs, list => do
    let list ← addToCyclicGarbageList h current list r
    getReferences current rs list

/-- "Calculate the maximum possible clique". -/
def possibleClique : (loops : Nat) → (i : Nat) → List CyclicGarbage → Option (List CyclicGarbage)
  | 0, _, _ => none
  | loops + 1, i, list =>
    match list[i]? with
    | none => some list
    | some item => do
      let o ← h.objs item.ptr
      let list ← getReferences h i o.refs list
      possibleClique loops (i + 1) list

end

/-- The first object outside of the clique that points into it. -/
def nextMember (list : List CyclicGarbage) : Option Nat :=
  list.findIdx? fun item =>
    !item.inClique && item.ptrtos.any fun l => list[l]?.any CyclicGarbage.inClique

/-- "Calculate the clique". The inner `none`: an object in it is referred to from elsewhere. -/
def calculateClique : (loops : Nat) → List CyclicGarbage → Option (Option (List CyclicGarbage))
  | 0, _ => none
  | loops + 1, list =>
    match nextMember list with
    | none => some (some list)
    | some j => do
      let item ← list[j]?
      if item.refcount > item.count then some none
      else if item.refcount < item.count then none -- "This should not happen!"
      else calculateClique loops (list.modify j fun item => { item with inClique := true })

/-! ## Deleting -/

/-- One object after the other. -/
def each (f : Addr → Heap → Option Heap) : List Addr → Heap → Option Heap
  | [], h => some h
  | r :: rs, h => do
    let h ← f r h
    each f rs h

section
variable (delReference : Addr → Heap → Option Heap)

/-- `Minimal_delObject`. The free functions drop the references one after the other. -/
def delObject (doFree : Bool) (ptr : Addr) (h : Heap) : Option Heap := do
  let o ← h.objs ptr
  let h ← each delReference o.drops h
  if doFree then h.free ptr else some h

/-- "Destroy them all!" -/
def destroy (clique : List Addr) (h : Heap) : Option Heap := do
  let h ← each (fun ptr h => h.setReferenceCount ptr (-1)) clique h
  let h ← each (delObject delReference false) clique h
  each (fun ptr h => h.free ptr) clique h

def destroyClique (h : Heap) : Option (List CyclicGarbage) → Option Heap
  | none => some h
  | some list => destroy delReference ((list.filter CyclicGarbage.inClique).map CyclicGarbage.ptr) h

/-- `Minimal_performCyclicCollection`. -/
def performCyclicCollection (loops : Nat) (ptr : Addr) (h : Heap) : Option Heap := do
  let refcount ← h.getReferenceCount ptr
  if refcount < 0 then some h else do
    let list ← possibleClique h loops 0 [⟨ptr, 0, refcount, [], true⟩]
    let item ← list.head?
    if item.refcount > item.count then some h
    else if item.refcount < item.count then none -- "This should not happen!"
    else do
      let clique ← calculateClique loops list
      destroyClique delReference h clique

end

/-- `Minimal_delReference`. The first argument bounds how deep it calls itself, and how often
the loops of the collection run. -/
def delReference : (depth : Nat) → Addr → Heap → Option Heap
  | 0, _, _ => none
  | depth + 1, ptr, h => do
    let o ← h.objs ptr
    if o.refCount < 0 then some h else do
      let h ← h.setReferenceCount ptr (o.refCount - 1)
      if o.refCount - 1 = 0 then delObject (delReference depth) true ptr h
      else performCyclicCollection (delReference depth) depth ptr h

end PyLinda.RefCount
