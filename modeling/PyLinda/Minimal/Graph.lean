import PyLinda.Lib.Renaming
import PyLinda.Minimal.ValueXml

/-!
# Values with pointers

`Minimal_serialise` and `Minimal_parseXMLValue` with types off, on memory: values lie at
addresses and hold addresses. The encoder keeps a memo of the values it has written, the
decoder two arrays: where the values it has read are, and which pointers wait for one.
-/

namespace PyLinda

open Lib

/-- A value at an address: integers, strings, tuples and pointers. `none` is NULL. -/
inductive Cell (A : Type) where
  | integer (i : BitVec 64)
  | string (s : String)
  | tuple (values : List (Option A))
  | pointer (ptr : Option A)

/-- What a cell is, but for the addresses in it. -/
inductive CellLabel where
  | integer (i : BitVec 64)
  | string (s : String)
  | tuple (isSet : List Bool)
  | pointer (isSet : Bool)

def Cell.label {A : Type} : Cell A → CellLabel
  | .integer i => .integer i
  | .string s => .string s
  | .tuple vs => .tuple (vs.map Option.isSome)
  | .pointer p => .pointer p.isSome

/-- The addresses in a cell. -/
def Cell.targets {A : Type} : Cell A → List A
  | .integer _ | .string _ => []
  | .tuple vs => vs.filterMap id
  | .pointer p => p.toList

/-- A memory as a graph. -/
def graphOf {A : Type} (cell : A → Option (Cell A)) (a : A) : Option (CellLabel × List A) :=
  (cell a).map fun c => (c.label, c.targets)

/-- An `unsigned long` that holds an address; NULL is 0. -/
abbrev Address := BitVec 64

/-- The values of a graph. Nothing lies at NULL, and a tuple has all its values. -/
structure ValueGraph where
  cell : Address → Option (Cell Address)
  root : Address
  null : cell 0 = none
  pointers : ∀ a, cell a ≠ some (.pointer (some 0))
  elements : ∀ a vs, cell a = some (.tuple vs) → none ∉ vs

/-! ## `serialise.c` -/

/-- Why nothing was written. -/
inductive Fault where
  | crash
  | endless

/-- What `Minimal_serialiseValue` writes: the node for its parent, the nodes it adds to the
root, and the memo. -/
structure WrittenValue where
  node : Xml
  pointees : List Xml
  memo : List Address

/-- `%li` of an `unsigned long`. -/
def printLong (n : BitVec 64) : String := n.toInt.repr

/-- The loop over the elements of a tuple. -/
def writeElements (write : List Address → Option Address → Except Fault WrittenValue) :
    List Address → List (Option Address) → Except Fault (List Xml × List Xml × List Address)
  | memo, [] => .ok ([], [], memo)
  | memo, none :: _ => .ok ([], [], memo)
  | memo, some v :: vs =>
    match write memo (some v) with
    | .error e => .error e
    | .ok w => match writeElements write w.memo vs with
      | .error e => .error e
      | .ok (es, ps, memo) => .ok (.node "element" [] [w.node] :: es, w.pointees ++ ps, memo)

/-- `Minimal_serialiseValue`, cut off after `fuel` calls inside each other. -/
def writeValue (cell : Address → Option (Cell Address)) :
    (fuel : Nat) → List Address → Option Address → Except Fault WrittenValue
  | 0, _, _ => .error .endless
  | _ + 1, _, none => .error .crash
  | fuel + 1, memo, some f =>
    match cell f with
    | none => .error .crash
    | some (.integer i) =>
      .ok ⟨.node "integer" [("id", printLong f), ("val", printLong i)] [], [], memo ++ [f]⟩
    | some (.string s) => .ok ⟨.node "string" [("id", printLong f)] [.text s], [], memo ++ [f]⟩
    | some (.tuple vs) =>
      match writeElements (writeValue cell fuel) (memo ++ [f]) vs with
      | .error e => .error e
      | .ok (es, ps, memo) => .ok ⟨.node "tuple" [("id", printLong f)] es, ps, memo⟩
    | some (.pointer none) => .error .crash -- the value at NULL is read
    | some (.pointer (some ptr)) =>
      let node := Xml.node "ptr" [("id", printLong f), ("val", printLong ptr)] []
      if ptr ∈ memo ++ [f] then .ok ⟨node, [], memo ++ [f]⟩
      else match writeValue cell fuel (memo ++ [f, ptr]) (some ptr) with
        | .error e => .error e
        | .ok w => .ok ⟨node, w.node :: w.pointees, w.memo⟩

/-- `Minimal_serialise`. -/
def ValueGraph.serialise (g : ValueGraph) (fuel : Nat) : Except Fault Xml :=
  match writeValue g.cell fuel [] (some g.root) with
  | .error e => .error e
  | .ok w => .ok (.node "minimal" [] (w.node :: w.pointees))

/-! ## `parsexml.c` -/

/-- The memory of the decoder, where the next value goes to `next`, and its `ValueMemo`.
An array is NULL exactly when it is empty. -/
structure Reader where
  next : Nat
  cell : Nat → Option (Cell Nat)
  found : List (Address × Option Nat)
  waiting : List (Address × Nat)

def Reader.init : Reader := ⟨1, fun _ => none, [], []⟩

namespace Reader

def set (r : Reader) (n : Nat) (c : Cell Nat) : Reader :=
  { r with cell := fun x => if x = n then some c else r.cell x }

/-- `Minimal_newReference`. -/
def alloc (r : Reader) (c : Cell Nat) : Reader :=
  { r.set r.next c with next := r.next + 1 }

/-- `Minimal_tupleAdd`. -/
def tupleAdd (r : Reader) (tuple : Nat) (value : Option Nat) : Reader :=
  match r.cell tuple with
  | some (.tuple vs) => r.set tuple (.tuple (vs ++ [value]))
  | _ => r

/-- A pointer starts to wait: every free slot is taken, a new one if there is none. -/
def wait (r : Reader) (ptrid : Address) (value : Nat) : Reader :=
  { r with waiting :=
      if ∃ w ∈ r.waiting, w.1 = 0
      then r.waiting.map fun w => if w.1 = 0 then (ptrid, value) else w
      else r.waiting ++ [(ptrid, value)] }

/-- The end of `Minimal_xmlToValue2`: the pointers that wait for the value get it. -/
def complete (r : Reader) (id : Address) : Option Nat → Option Reader
  | none => if ∃ w ∈ r.waiting, w.1 = id then none else some { r with found := r.found ++ [(id, none)] }
  | some value => some { r with
      cell := fun x => if (id, x) ∈ r.waiting then some (.pointer (some value)) else r.cell x
      found := r.found ++ [(id, some value)]
      waiting := r.waiting.map fun w => if w.1 = id then (0, w.2) else w }

end Reader

/-- `sscanf(s, "%li", &n)` on a decimal. -/
def scanLong (s : String) : BitVec 64 := BitVec.ofInt 64 (atoi s)

/-- The attribute `id`, where there is one. -/
def finish (props : List (String × String)) (value : Option Nat) (r : Reader) :
    Option (Option Nat × Reader) :=
  match Xml.getProp props "id" with
  | none => some (value, r)
  | some cid => (r.complete (scanLong cid) value).map fun r => (value, r)

section
variable (foundSize : Int) (other : Xml → Reader → Option (Option Nat × Reader))

/-- The `ptr` branch; `found_size` has no value until there is something in `found`. -/
def readPtr (r : Reader) (ptr : Address) : Option Reader :=
  match r.found with
  | [] => if foundSize > 0 then none else some ((r.alloc (.pointer none)).wait ptr r.next)
  | found => match found.lookup ptr with
    | some (some value) => some (r.alloc (.pointer (some value)))
    | some none => none
    | none => some ((r.alloc (.pointer none)).wait ptr r.next)

mutual

/-- `Minimal_xmlToValue2`; `none` is a crash. -/
def readValue : Xml → Reader → Option (Option Nat × Reader)
  | .text _, r => some (none, r)
  | .node name props children, r =>
    match name with
    | "minimal" => readMinimal props children none r
    | "string" =>
      finish props (some r.next) (r.alloc (.string ((Xml.lastText children).getD "")))
    | "tuple" => readTuple props r.next children (r.alloc (.tuple []))
    | "element" => (readSeries children none r).bind fun (value, r) => finish props value r
    | "integer" => (Xml.getProp props "val").bind fun val =>
      finish props (some r.next) (r.alloc (.integer (.ofInt 64 (scanInt val))))
    | "ptr" => (Xml.getProp props "val").bind fun val =>
      (readPtr foundSize r (scanLong val)).bind fun r' => finish props (some r.next) r'
    | _ => other (.node name props children) r

/-- The loop of the `minimal` branch. -/
def readMinimal (props : List (String × String)) : List Xml → Option Nat → Reader →
    Option (Option Nat × Reader)
  | [], value, r => finish props value r
  | x :: xs, value, r =>
    if x.isElement ∧ value = none ∧ x.name ≠ "type" then
      (readValue x r).bind fun (value, r) => readMinimal props xs value r
    else if x.isElement ∧ value ≠ none then some (none, r) -- "can only parse one value"
    else readMinimal props xs value r

/-- The loop of the `tuple` branch. -/
def readTuple (props : List (String × String)) (tuple : Nat) : List Xml → Reader →
    Option (Option Nat × Reader)
  | [], r => finish props (some tuple) r
  | x :: xs, r =>
    if x.isElement ∧ x.name = "type" then
      (readValue x r).bind fun (_, r) => readTuple props tuple xs r
    else if x.isElement ∧ x.name = "element" then
      (readValue x r).bind fun (value, r) => readTuple props tuple xs (r.tupleAdd tuple value)
    else readTuple props tuple xs r

/-- `Minimal_xmlSeriesToValue`. -/
def readSeries : List Xml → Option Nat → Reader → Option (Option Nat × Reader)
  | [], root, r => some (root, r)
  | x :: xs, root, r =>
    if x.isElement then
      (readValue x r).bind fun (value, r) =>
        readSeries xs (if x.name = "type" then root else root <|> value) r
    else readSeries xs root r

end

/-- `Minimal_parseXMLValue`. -/
def parseGraph (doc : Xml) : Option (Option Nat × Reader) :=
  if doc.name = "minimal" then readValue foundSize other doc .init else some (none, .init)

end

/-- The encoder ends, and whatever document the XML library makes of what it writes is read
as the same graph. -/
def ValueGraph.Returns (g : ValueGraph) (foundSize : Int)
    (other : Xml → Reader → Option (Option Nat × Reader)) : Prop :=
  ∃ fuel doc, g.serialise fuel = .ok doc ∧ ∀ y, doc.Reparsed y →
    ∃ v r, parseGraph foundSize other y = some (some v, r) ∧
      Iso (graphOf g.cell) g.root (graphOf r.cell) v

end PyLinda
