import PyLinda.Lib.Except

/-!
# The types of what a read returns

`Linda_in`, `Linda_rd`, `Linda_inp` and `Linda_rdp` of `linda.c` in the build with types, after
the request was sent. The elements of the tuple that comes back are given the types that the
template has.
-/

namespace PyLinda.Client

open Lib

/-- The address of a value. -/
abbrev Addr := Nat

/-- What a value is, apart from its type; `α` is what the reads do not look at. -/
inductive Content (α : Type) where
  | type (definition : α)
  | tuple (values : List Addr)
  | other (data : α)

/-- A `MinimalValue_t`. -/
structure Value (α : Type) where
  content : Content α
  typeobj : Option Addr

/-- The values of a client. -/
structure Heap (α : Type) where
  objs : Addr → Option (Value α)
  next : Addr
  fresh : ∀ a, next ≤ a → objs a = none

/-- How a read goes wrong: it follows `NULL`, a pointer to nothing, or one that was not set. -/
inductive Stop where
  | nullPointer
  | wildPointer
  | uninitialised

section
variable {α : Type}

namespace Heap

def get (h : Heap α) (a : Addr) : Except Stop (Value α) :=
  match h.objs a with
  | none => .error .wildPointer
  | some v => .ok v

/-- A new value. -/
def alloc (h : Heap α) (v : Value α) : Heap α where
  objs a := if a = h.next then some v else h.objs a
  next := h.next + 1
  fresh a ha := by
    rw [if_neg (Nat.ne_of_gt ha)]
    exact h.fresh a (Nat.le_of_succ_le ha)

/-- New values, in their order, from `next` on. -/
def allocAll (h : Heap α) (vs : List (Value α)) : Heap α := vs.foldl alloc h

/-- `Minimal_setType`, which counts a reference to the new type first. -/
def setType (h : Heap α) (value : Addr) : Option Addr → Except Stop (Heap α)
  | none => .error .nullPointer
  | some type =>
    match hv : h.objs value with
    | none => .error .wildPointer
    | some v => .ok {
        objs := fun a => if a = value then some { v with typeobj := some type } else h.objs a
        next := h.next
        fresh := fun a ha => by
          have hne : a ≠ value := fun he => by
            rw [← he, h.fresh a ha] at hv
            cases hv
          rw [if_neg hne]
          exact h.fresh a ha }

/-- `Minimal_isType`. -/
def isType (h : Heap α) (a : Addr) : Except Stop Bool := do
  let v ← h.get a
  match v.content with
  | .type _ => .ok true
  | _ => .ok false

/-- `Minimal_getTupleSize`. -/
def getTupleSize (h : Heap α) (a : Addr) : Except Stop Nat := do
  let v ← h.get a
  match v.content with
  | .tuple values => .ok values.length
  | _ => .error .uninitialised

/-- `Minimal_tupleGet`, followed at once by the caller. -/
def tupleGet (h : Heap α) (a : Addr) (pos : Nat) : Except Stop Addr := do
  let v ← h.get a
  match v.content with
  | .tuple values =>
    match values[pos]? with
    | none => .error .nullPointer
    | some value => .ok value
  | _ => .error .uninitialised

end Heap

/-- What the server answers: nothing, that there is no tuple, or a tuple. -/
inductive Reply (α : Type) where
  | lost
  | unblock
  | tuple (values : List (Value α))

/-- `Message_recv` of a tuple: its elements and the tuple are made anew. -/
def receive (h : Heap α) (values : List (Value α)) : Heap α × Addr :=
  let elements := h.allocAll values
  (elements.alloc ⟨.tuple ((List.range values.length).map (h.next + ·)), none⟩, elements.next)

/-- A loop over the elements of the template `t` and of the tuple `r`. -/
def eachElement (body : Heap α → Addr → Addr → Except Stop (Heap α)) (t r : Addr) (h : Heap α) :
    Except Stop (Heap α) := do
  let size ← h.getTupleSize r
  (List.range size).foldlM (fun h i => do
    let v1 ← h.tupleGet t i
    let v2 ← h.tupleGet r i
    body h v1 v2) h

/-- The body of the loop in `Linda_in`. -/
def inElement (h : Heap α) (v1 v2 : Addr) : Except Stop (Heap α) := do
  if (← h.isType v1) then h.setType v2 (some v1)
  else h.setType v2 (← h.get v1).typeobj

/-- The body of the loop in `Linda_rd`, `Linda_inp` and `Linda_rdp`. -/
def rdElement (h : Heap α) (v1 v2 : Addr) : Except Stop (Heap α) := do
  h.setType v2 (← h.get v1).typeobj

/-- The tuple is received and given its types. -/
def retype (body : Heap α → Addr → Addr → Except Stop (Heap α)) (h : Heap α) (t : Addr)
    (values : List (Value α)) : Except Stop (Heap α × Option Addr) := do
  let (h, r) := receive h values
  let h ← eachElement body t r h
  .ok (h, some r)

/-- `Linda_in`. The reply has to be a tuple: no other reply has the member that is read. -/
def lindaIn (h : Heap α) (t : Addr) : Reply α → Except Stop (Heap α × Option Addr)
  | .lost => .ok (h, none)
  | .unblock => .error .uninitialised
  | .tuple values => retype inElement h t values

/-- `Linda_rd`. -/
def lindaRd (h : Heap α) (t : Addr) : Reply α → Except Stop (Heap α × Option Addr)
  | .lost => .ok (h, none)
  | .unblock => .error .uninitialised
  | .tuple values => retype rdElement h t values

/-- `Linda_inp`. -/
def lindaInp (h : Heap α) (t : Addr) : Reply α → Except Stop (Heap α × Option Addr)
  | .lost => .ok (h, none)
  | .unblock => .ok (h, none)
  | .tuple values => retype rdElement h t values

/-- `Linda_rdp`. -/
def lindaRdp (h : Heap α) (t : Addr) : Reply α → Except Stop (Heap α × Option Addr)
  | .lost => .ok (h, none)
  | .unblock => .ok (h, none)
  | .tuple values => retype rdElement h t values

/-- The reads. -/
inductive Read where
  | «in» | rd | inp | rdp

def Read.run : Read → Heap α → Addr → Reply α → Except Stop (Heap α × Option Addr)
  | .in => lindaIn
  | .rd => lindaRd
  | .inp => lindaInp
  | .rdp => lindaRdp

/-! ## What the reads are for -/

/-- The value is a type: a formal. -/
def Heap.IsFormal (h : Heap α) (a : Addr) : Prop := ∃ d o, h.objs a = some ⟨.type d, o⟩

/-- The address is that of a tuple with these elements, all of which are there. -/
structure Heap.IsTuple (h : Heap α) (a : Addr) (values : List Addr) : Prop where
  tuple : ∃ o, h.objs a = some ⟨.tuple values, o⟩
  elements : ∀ v ∈ values, ∃ o, h.objs v = some o

/-- The type that an element of the template asks for: itself if it is a formal, its own type
otherwise. -/
inductive Asked (h : Heap α) (a : Addr) : Option Addr → Prop
  | formal : h.IsFormal a → Asked h a (some a)
  | actual (v : Value α) : h.objs a = some v → ¬ h.IsFormal a → Asked h a v.typeobj

/-- The read returns a tuple with the values that came, each with the type that the element of
the template asks for. -/
def Retyped (read : Read) (h : Heap α) (t : Addr) (ts : List Addr) (values : List (Value α)) :
    Prop :=
  ∃ h' r rs, read.run h t (.tuple values) = .ok (h', some r) ∧ h'.IsTuple r rs ∧
    rs.length = values.length ∧ ∀ (i : Nat) (v1 v2 : Addr) (v : Value α), ts[i]? = some v1 →
      rs[i]? = some v2 → values[i]? = some v → ∃ o, Asked h v1 o ∧ h'.objs v2 = some ⟨v.content, o⟩

end

end PyLinda.Client
