import Mathlib.Algebra.Order.Ring.Int
import PyLinda.Lib.Decimal
import PyLinda.Minimal.Document

/-!
# Values in XML

`Minimal_serialise` and `Minimal_parseXMLValue` with types off, on the values without
pointers. The kinds of `enum` that are not here (floats, types, functions, pointers) are
`other` for the decoder. A NULL is a value of its own; `none` is a crash.
-/

namespace PyLinda

open Lib

/-- A `struct MinimalValue_t*`, which may be NULL. -/
inductive MinimalValue where
  | null
  | nil
  | boolean (b : Bool)
  | integer (i : Int)
  | uinteger (n : Nat)
  | string (s : String)
  | tsref (s : String)
  | tuple (values : List MinimalValue)
  | sum (value : MinimalValue) (sumPos : Int)

/-- Where the value at a path (from the root inwards, last step first) lies, and its
memory read as a C string. -/
structure Memory where
  address : List Nat → Nat
  text : List Nat → String

/-- `AddId`. -/
def Memory.idProp (m : Memory) (path : List Nat) : String × String :=
  ("id", (m.address path).repr)

/-- `AddSumPos`. -/
def addSumPos (sumPos : Int) : List (String × String) :=
  if sumPos = -1 then [] else [("sum_pos", sumPos.repr)]

mutual

/-- `Minimal_serialiseValue`: the nodes it adds to `parent`. -/
def MinimalValue.serialiseValue (m : Memory) (path : List Nat) : MinimalValue → Option (List Xml)
  | .null => none
  | .nil => some [.node "nil" [m.idProp path] []]
  | .boolean _ => some [] -- the node is made, but never added to `parent`
  | .integer i => some [.node "integer" [m.idProp path, ("val", i.repr)] []]
  | .uinteger n =>
    some [.node "uinteger" [m.idProp path, ("val", (BitVec.ofNat 64 n).toInt.repr)] []]
  | .string s => some [.node "string" [m.idProp path] [.text s]]
  | .tuple vs => (serialiseElements m path 0 vs).map fun es =>
    [.node "tuple" [m.idProp path] es]
  | .sum v sumPos => (v.serialiseValue m (0 :: path)).map fun xs =>
    -- the content is `f->string`, which is where `f->value` is
    [.node "sum" (addSumPos sumPos ++ [m.idProp path, ("val", sumPos.repr)])
      (.text (m.text (0 :: path)) :: xs)]
  | .tsref s => some [.node "tsid" [m.idProp path] [.text s]]

/-- The loop over the elements of a tuple, from element `i` on. -/
def MinimalValue.serialiseElements (m : Memory) (path : List Nat) (i : Nat) :
    List MinimalValue → Option (List Xml)
  | [] => some []
  | v :: vs => match v with
    | .null => some []
    | v => match v.serialiseValue m (i :: path), serialiseElements m path (i + 1) vs with
      | some xs, some es => some (.node "element" [] xs :: es)
      | _, _ => none

end

/-- `Minimal_serialise`. -/
def MinimalValue.serialise (m : Memory) (v : MinimalValue) : Option Xml :=
  (v.serialiseValue m []).map fun xs => .node "minimal" [] xs

def MinimalValue.isNull : MinimalValue → Bool
  | .null => true
  | _ => false

/-- `sscanf(s, "%i", &i)` on a decimal. -/
def scanInt (s : String) : Int := (BitVec.ofInt 32 (atoi s)).toInt

/-- What each child that is an element is decoded to, with its name. -/
abbrev Results := List (String × Option MinimalValue)

/-- The loop of the `minimal` branch. -/
def onlyValue : Results → MinimalValue → Option MinimalValue
  | [], value => some value
  | (n, r) :: rs, value =>
    if value.isNull && n ≠ "type" then r.bind fun v => onlyValue rs v
    else if value.isNull then onlyValue rs value
    else some .null -- "can only parse one value"

/-- The loop of the `tuple` branch. -/
def tupleElements : Results → Option (List MinimalValue)
  | [] => some []
  | (n, r) :: rs =>
    if n = "type" then r.bind fun _ => tupleElements rs
    else if n = "element" then r.bind fun v => (tupleElements rs).map fun vs => v :: vs
    else tupleElements rs

/-- The loop of the `sum` branch; a child that is no element decodes to NULL. -/
def sumValue : Results → MinimalValue → Option MinimalValue
  | [], v => some v
  | (_, r) :: rs, v => if v.isNull then r.bind fun v => sumValue rs v else sumValue rs v

/-- `Minimal_xmlSeriesToValue`. -/
def xmlSeriesToValue : Results → MinimalValue → Option MinimalValue
  | [], root => some root
  | (n, r) :: rs, root =>
    if n = "type" then r.bind fun _ => xmlSeriesToValue rs root
    else if root.isNull then r.bind fun v => xmlSeriesToValue rs v
    else r.bind fun _ => xmlSeriesToValue rs root

section

variable (other : Xml → Option MinimalValue)

mutual

/-- `Minimal_xmlToValue2`. -/
def xmlToValue2 : Xml → Option MinimalValue
  | .text _ => some .null
  | .node name props children =>
    match name with
    | "minimal" => onlyValue (childResults children) .null
    | "nil" => some .nil
    | "string" => match Xml.lastText children with
      | some text => some (.string text)
      | none => some (.string "")
    | "tuple" => (tupleElements (childResults children)).map .tuple
    | "sum" => (sumValue (childResults children) .null).bind fun v =>
      (Xml.getProp props "sum_pos").map fun sumPos => .sum v (atoi sumPos)
    | "element" => xmlSeriesToValue (childResults children) .null
    | "false" => some (.boolean false)
    | "true" => some (.boolean true)
    | "integer" => (Xml.getProp props "val").map fun val => .integer (scanInt val)
    | "uinteger" => (Xml.getProp props "val").map fun val =>
      .uinteger (BitVec.ofInt 32 (scanInt val)).toNat
    | "tsid" => match Xml.lastText children with
      | some text => some (.tsref text)
      | none => some .nil
    | _ => other (.node name props children)

def childResults : List Xml → Results
  | [] => []
  | x :: xs => if x.isElement then (x.name, xmlToValue2 x) :: childResults xs else childResults xs

end

/-- `Minimal_parseXMLValue`. -/
def parseXMLValue (doc : Xml) : Option MinimalValue :=
  if doc.name = "minimal" then xmlToValue2 other doc else some .null

end

/-! ## What arrives -/

mutual

/-- What a value is after it has been written and read. -/
def MinimalValue.received : MinimalValue → Option MinimalValue
  | .boolean _ => some .null
  | .tsref s => if s = "" then some .nil else some (.tsref s)
  | .tuple vs => (receivedAll vs).map .tuple
  | .sum v sumPos => v.received.bind fun v => if sumPos = -1 then none else some (.sum v sumPos)
  | v => some v

def MinimalValue.receivedAll : List MinimalValue → Option (List MinimalValue)
  | [] => some []
  | v :: vs => v.received.bind fun v => (receivedAll vs).map fun vs => v :: vs

end

mutual

/-- Nil, booleans, C ints, strings, tuplespace references, and sums and tuples of these. -/
def MinimalValue.Storable : MinimalValue → Prop
  | .null | .uinteger _ => False
  | .nil | .boolean _ | .string _ | .tsref _ => True
  | .integer i => -2 ^ 31 ≤ i ∧ i < 2 ^ 31
  | .tuple vs => AllStorable vs
  | .sum v _ => v.Storable

def MinimalValue.AllStorable : List MinimalValue → Prop
  | [] => True
  | v :: vs => v.Storable ∧ AllStorable vs

end

mutual

/-- No boolean in it, no sum at -1 and no tuplespace without an id. -/
def MinimalValue.Faithful : MinimalValue → Prop
  | .boolean _ => False
  | .tsref s => s ≠ ""
  | .tuple vs => AllFaithful vs
  | .sum v sumPos => v.Faithful ∧ sumPos ≠ -1
  | _ => True

def MinimalValue.AllFaithful : List MinimalValue → Prop
  | [] => True
  | v :: vs => v.Faithful ∧ AllFaithful vs

end

theorem scanInt_repr {i : Int} (h : -2 ^ 31 ≤ i ∧ i < 2 ^ 31) : scanInt i.repr = i := by
  unfold scanInt
  rw [atoi_repr, BitVec.toInt_ofInt]
  exact Int.bmod_eq_of_le (by omega) (by omega)

theorem lastText_readText (s : String) :
    Xml.lastText (Xml.readText s) = if s = "" then none else some s := by
  unfold Xml.readText
  split <;> rfl

section

variable {other : Xml → Option MinimalValue}

theorem childResults_eq (xs : List Xml) :
    childResults other xs = (Xml.elements xs).map fun x => (x.name, xmlToValue2 other x) := by
  induction xs with
  | nil => rfl
  | cons x xs ih =>
    unfold childResults
    cases x with
    | node n ps cs =>
      rw [ih]
      rfl
    | text s =>
      rw [ih]
      rfl

/-- The nodes `xs` that a value adds to its parent are read as `r`, whatever reads the parent. -/
def ReadAs (other : Xml → Option MinimalValue) (xs : List Xml) (r : Option MinimalValue) : Prop :=
  (xs = [] ∧ r = some .null) ∨
    ∃ n ps cs, xs = [.node n ps cs] ∧ n ≠ "type" ∧
      ∀ y, Xml.Reparsed (.node n ps cs) y → xmlToValue2 other y = r

theorem ReadAs.of_node {n : String} {ps : List (String × String)} {cs : List Xml}
    {r : Option MinimalValue} (hn : n ≠ "type")
    (h : ∀ y, Xml.Reparsed (.node n ps cs) y → xmlToValue2 other y = r) :
    ReadAs other [.node n ps cs] r :=
  Or.inr ⟨n, ps, cs, rfl, hn, h⟩

theorem readAs_elements {xs : List Xml} {r : Option MinimalValue} (h : ReadAs other xs r) :
    Xml.elements xs = xs := by
  rcases h with ⟨rfl, _⟩ | ⟨n, ps, cs, rfl, _⟩ <;> rfl

/-- The parent has nothing else in it: no child, or the one that is read. -/
theorem readAs_childResults {xs ds : List Xml} {r : Option MinimalValue} (h : ReadAs other xs r)
    (hr : List.Forall₂ Xml.Reparsed xs (Xml.elements ds)) :
    (childResults other ds = [] ∧ r = some .null) ∨
      ∃ n, n ≠ "type" ∧ childResults other ds = [(n, r)] := by
  rw [childResults_eq]
  rcases h with ⟨rfl, hnull⟩ | ⟨n, ps, cs, rfl, hn, hread⟩
  · cases hr' : Xml.elements ds with
    | nil => exact Or.inl ⟨rfl, hnull⟩
    | cons _ _ => rw [hr'] at hr; cases hr
  · cases hr' : Xml.elements ds with
    | nil => rw [hr'] at hr; cases hr
    | cons y ys =>
      rw [hr'] at hr
      cases hr with
      | cons hy hys =>
        cases hys
        obtain ⟨ds', rfl, _⟩ := hy.node_inv
        exact Or.inr ⟨n, hn, by rw [← hread _ hy]; rfl⟩

theorem readAs_series {xs ds : List Xml} {r : Option MinimalValue} (h : ReadAs other xs r)
    (hr : List.Forall₂ Xml.Reparsed xs (Xml.elements ds)) :
    xmlSeriesToValue (childResults other ds) .null = r := by
  rcases readAs_childResults h hr with ⟨he, hnull⟩ | ⟨n, hn, he⟩
  · rw [he, hnull]
    rfl
  · rw [he]
    unfold xmlSeriesToValue
    rw [if_neg hn]
    cases r <;> rfl

theorem readAs_sumValue {xs ds : List Xml} {r : Option MinimalValue} (h : ReadAs other xs r)
    (hr : List.Forall₂ Xml.Reparsed xs (Xml.elements ds)) :
    sumValue (childResults other ds) .null = r := by
  rcases readAs_childResults h hr with ⟨he, hnull⟩ | ⟨n, hn, he⟩
  · rw [he, hnull]
    rfl
  · rw [he]
    cases r <;> rfl

theorem readAs_onlyValue {xs ds : List Xml} {r : Option MinimalValue} (h : ReadAs other xs r)
    (hr : List.Forall₂ Xml.Reparsed xs (Xml.elements ds)) :
    onlyValue (childResults other ds) .null = r := by
  rcases readAs_childResults h hr with ⟨he, hnull⟩ | ⟨n, hn, he⟩
  · rw [he, hnull]
    rfl
  · rw [he]
    unfold onlyValue
    rw [if_pos (by simp [MinimalValue.isNull, hn])]
    cases r <;> rfl

theorem getProp_sum_pos (sumPos : Int) (id : String × String) (hid : id.1 = "id") :
    Xml.getProp (addSumPos sumPos ++ [id, ("val", sumPos.repr)]) "sum_pos" =
      if sumPos = -1 then none else some sumPos.repr := by
  obtain ⟨k, v⟩ := id
  cases hid
  unfold addSumPos
  split <;> rfl

mutual

/-- Encoder and decoder agree on every value: what is read of the document is `received`. -/
theorem serialiseValue_readAs (m : Memory) : (v : MinimalValue) → v.Storable → (path : List Nat) →
    ∃ xs, v.serialiseValue m path = some xs ∧ ReadAs other xs v.received
  | .nil, _, path => ⟨_, rfl, .of_node (by decide) fun y hy => by
      obtain ⟨ds, rfl, _⟩ := hy.node_inv
      rfl⟩
  | .boolean b, _, path => ⟨_, rfl, Or.inl ⟨rfl, rfl⟩⟩
  | .integer i, h, path => ⟨_, rfl, .of_node (by decide) fun y hy => by
      obtain ⟨ds, rfl, _⟩ := hy.node_inv
      show some (MinimalValue.integer (scanInt i.repr)) = _
      rw [scanInt_repr h]
      rfl⟩
  | .string s, _, path => ⟨_, rfl, .of_node (by decide) fun y hy => by
      rw [hy.text_inv]
      unfold xmlToValue2
      simp only [lastText_readText]
      by_cases hs : s = ""
      · rw [if_pos hs, hs]
        rfl
      · rw [if_neg hs]
        rfl⟩
  | .tsref s, _, path => ⟨_, rfl, .of_node (by decide) fun y hy => by
      rw [hy.text_inv]
      unfold xmlToValue2
      simp only [lastText_readText]
      unfold MinimalValue.received
      by_cases hs : s = ""
      · rw [if_pos hs, if_pos hs]
      · rw [if_neg hs, if_neg hs]⟩
  | .tuple vs, h, path => by
    obtain ⟨es, hes, hel, hread⟩ := serialiseElements_readAs m vs h path 0
    refine ⟨[.node "tuple" [m.idProp path] es], ?_, .of_node (by decide) fun y hy => ?_⟩
    · unfold MinimalValue.serialiseValue
      rw [hes]
      rfl
    · obtain ⟨ds, rfl, hds⟩ := hy.node_inv
      rw [hel] at hds
      show (tupleElements (childResults other ds)).map MinimalValue.tuple = _
      rw [childResults_eq, hread _ hds]
      rfl
  | .sum v sumPos, h, path => by
    obtain ⟨xs, hxs, hread⟩ := serialiseValue_readAs m v h (0 :: path)
    refine ⟨[.node "sum" (addSumPos sumPos ++ [m.idProp path, ("val", sumPos.repr)])
      (.text (m.text (0 :: path)) :: xs)], ?_, .of_node (by decide) fun y hy => ?_⟩
    · unfold MinimalValue.serialiseValue
      rw [hxs]
      rfl
    · obtain ⟨ds, rfl, hds⟩ := hy.node_inv
      rw [Xml.elements_text, readAs_elements hread] at hds
      show ((sumValue (childResults other ds) .null).bind fun v =>
        (Xml.getProp (addSumPos sumPos ++ [m.idProp path, ("val", sumPos.repr)]) "sum_pos").map
          fun pos => MinimalValue.sum v (atoi pos)) = _
      rw [readAs_sumValue hread hds, getProp_sum_pos sumPos _ rfl]
      show _ = v.received.bind fun v => if sumPos = -1 then none else some (MinimalValue.sum v sumPos)
      by_cases hp : sumPos = -1
      · rw [if_pos hp]
        simp only [if_pos hp, Option.map_none]
      · rw [if_neg hp]
        simp only [if_neg hp, Option.map_some, atoi_repr]

theorem serialiseElements_readAs (m : Memory) : (vs : List MinimalValue) →
    MinimalValue.AllStorable vs → (path : List Nat) → (i : Nat) →
    ∃ es, MinimalValue.serialiseElements m path i vs = some es ∧ Xml.elements es = es ∧
      ∀ ys, List.Forall₂ Xml.Reparsed es ys →
        tupleElements (ys.map fun y => (y.name, xmlToValue2 other y)) = MinimalValue.receivedAll vs
  | [], _, path, i => ⟨[], rfl, rfl, fun ys hys => by cases hys; rfl⟩
  | v :: vs, h, path, i => by
    obtain ⟨xs, hxs, hread⟩ := serialiseValue_readAs m v h.1 (i :: path)
    obtain ⟨es, hes, hel, hall⟩ := serialiseElements_readAs m vs h.2 path (i + 1)
    refine ⟨.node "element" [] xs :: es, ?_, ?_, fun ys hys => ?_⟩
    · unfold MinimalValue.serialiseElements
      cases v with
      | null => exact h.1.elim
      | _ => simp only [hxs, hes]
    · rw [Xml.elements_node, hel]
    · cases hys with
      | cons hy hys =>
        obtain ⟨ds, rfl, hds⟩ := hy.node_inv
        rw [readAs_elements hread] at hds
        have hv : xmlToValue2 other (.node "element" [] ds) = v.received := readAs_series hread hds
        rw [List.map_cons, hv]
        show (v.received.bind fun v => (tupleElements _).map fun vs => v :: vs) = _
        rw [hall _ hys]
        rfl

end

/-- The whole document. -/
theorem parse_serialise (m : Memory) {v : MinimalValue} (h : v.Storable) :
    ∃ doc, v.serialise m = some doc ∧ doc.isElement ∧
      ∀ y, doc.Reparsed y → parseXMLValue other y = v.received := by
  obtain ⟨xs, hxs, hread⟩ := @serialiseValue_readAs other m v h []
  refine ⟨.node "minimal" [] xs, ?_, rfl, fun y hy => ?_⟩
  · unfold MinimalValue.serialise
    rw [hxs]
    rfl
  · obtain ⟨ds, rfl, hds⟩ := hy.node_inv
    rw [readAs_elements hread] at hds
    exact readAs_onlyValue hread hds

end

mutual

theorem received_eq_iff : (v : MinimalValue) → v.Storable → (v.received = some v ↔ v.Faithful)
  | .nil, _ => by simp [MinimalValue.received, MinimalValue.Faithful]
  | .boolean b, _ => by simp [MinimalValue.received, MinimalValue.Faithful]
  | .integer i, _ => by simp [MinimalValue.received, MinimalValue.Faithful]
  | .string s, _ => by simp [MinimalValue.received, MinimalValue.Faithful]
  | .tsref s, _ => by
    unfold MinimalValue.received MinimalValue.Faithful
    by_cases hs : s = "" <;> simp [hs]
  | .tuple vs, h => by
    unfold MinimalValue.received MinimalValue.Faithful
    rw [← receivedAll_eq_iff vs h]
    simp
  | .sum v sumPos, h => by
    show (v.received.bind fun v => if sumPos = -1 then none else some (MinimalValue.sum v sumPos)) =
      some (MinimalValue.sum v sumPos) ↔ v.Faithful ∧ sumPos ≠ -1
    rw [← received_eq_iff v h]
    by_cases hp : sumPos = -1
    · cases v.received <;> simp [hp]
    · cases v.received <;> simp [hp]

theorem receivedAll_eq_iff : (vs : List MinimalValue) → MinimalValue.AllStorable vs →
    (MinimalValue.receivedAll vs = some vs ↔ MinimalValue.AllFaithful vs)
  | [], _ => by simp [MinimalValue.receivedAll, MinimalValue.AllFaithful]
  | v :: vs, h => by
    unfold MinimalValue.receivedAll MinimalValue.AllFaithful
    rw [← received_eq_iff v h.1, ← receivedAll_eq_iff vs h.2]
    cases v.received <;> cases MinimalValue.receivedAll vs <;> simp

end

/-- Written and read again, a value is itself. -/
def MinimalValue.RoundTrips (v : MinimalValue) : Prop :=
  ∀ (m : Memory) (other : Xml → Option MinimalValue),
    ∃ doc, v.serialise m = some doc ∧ ∀ y, doc.Reparsed y → parseXMLValue other y = some v

/-- Exactly the values without a boolean, a sum at -1 and an unnamed tuplespace come back. -/
theorem roundTrips_iff (v : MinimalValue) (h : v.Storable) : v.RoundTrips ↔ v.Faithful := by
  rw [← received_eq_iff v h]
  constructor
  · intro hr
    obtain ⟨doc, hdoc, he, hread⟩ :=
      @parse_serialise (fun _ => none) ⟨fun _ => 0, fun _ => ""⟩ v h
    obtain ⟨doc', hdoc', hback⟩ := hr ⟨fun _ => 0, fun _ => ""⟩ fun _ => none
    rw [hdoc] at hdoc'
    cases hdoc'
    have hy := doc.reparsed_compact he
    rw [← hread _ hy, hback _ hy]
  · intro hv m other
    obtain ⟨doc, hdoc, _, hread⟩ := @parse_serialise other m v h
    exact ⟨doc, hdoc, fun y hy => by rw [hread y hy, hv]⟩

theorem roundTrips_pair :
    (MinimalValue.tuple [.integer 1, .sum (.string "a") 2]).RoundTrips ↔
      (MinimalValue.tuple [.integer 1, .sum (.string "a") 2]).Faithful :=
  roundTrips_iff _ (by simp [MinimalValue.Storable, MinimalValue.AllStorable])

/-- A boolean in a tuple is lost. -/
theorem boolean_lost :
    (MinimalValue.tuple [.boolean true]).Storable ∧
      ¬ (MinimalValue.tuple [.boolean true]).RoundTrips := by
  have hs : (MinimalValue.tuple [.boolean true]).Storable := by
    simp [MinimalValue.Storable, MinimalValue.AllStorable]
  refine ⟨hs, fun hr => ?_⟩
  obtain ⟨doc, hdoc, hread⟩ := hr ⟨fun _ => 0, fun _ => ""⟩ fun _ => none
  cases hdoc
  have hp := hread _ (Xml.reparsed_compact _ rfl)
  cases hp

end PyLinda
