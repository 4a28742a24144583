import PyLinda.Minimal.Graph

/-!
# What the encoder writes of a graph

A tree: the values in tuples inside them, and a pointer without what it points at. What a
pointer points at is added to the root unless it has been written before.
-/

namespace PyLinda

open Lib

/-- The tree of a value through the tuples. -/
inductive ValueTree where
  | integer (a : Address) (i : BitVec 64)
  | string (a : Address) (s : String)
  | pointer (a ptr : Address)
  | tuple (a : Address) (ts : List ValueTree)

namespace ValueTree

def address : ValueTree → Address
  | integer a _ | string a _ | pointer a _ | tuple a _ => a

mutual

/-- The addresses in the order in which they are written. -/
def order : ValueTree → List Address
  | integer a _ | string a _ | pointer a _ => [a]
  | tuple a ts => a :: orderAll ts

def orderAll : List ValueTree → List Address
  | [] => []
  | t :: ts => t.order ++ orderAll ts

end

mutual

/-- The tree is what lies at its address. -/
def In (cell : Address → Option (Cell Address)) : ValueTree → Prop
  | integer a i => cell a = some (.integer i)
  | string a s => cell a = some (.string s)
  | pointer a ptr => cell a = some (.pointer (some ptr))
  | tuple a ts => cell a = some (.tuple (ts.map fun t => some t.address)) ∧ AllIn cell ts

def AllIn (cell : Address → Option (Cell Address)) : List ValueTree → Prop
  | [] => True
  | t :: ts => t.In cell ∧ AllIn cell ts

end

mutual

/-- A pointer points at itself or at what is written before it. -/
def Backward : List Address → ValueTree → Prop
  | _, integer _ _ | _, string _ _ => True
  | memo, pointer a ptr => ptr ∈ memo ++ [a]
  | memo, tuple a ts => AllBackward (memo ++ [a]) ts

def AllBackward : List Address → List ValueTree → Prop
  | _, [] => True
  | memo, t :: ts => Backward memo t ∧ AllBackward (memo ++ t.order) ts

end

mutual

/-- The integers fit in an `int`. -/
def Ints : ValueTree → Prop
  | integer _ i => -2 ^ 31 ≤ i.toInt ∧ i.toInt < 2 ^ 31
  | string _ _ | pointer _ _ => True
  | tuple _ ts => AllInts ts

def AllInts : List ValueTree → Prop
  | [] => True
  | t :: ts => t.Ints ∧ AllInts ts

end

/-- The first value that is read to its end is a pointer. -/
def StartsWithPointer : ValueTree → Prop
  | integer _ _ | string _ _ | tuple _ [] => False
  | pointer _ _ => True
  | tuple _ (t :: _) => t.StartsWithPointer

end ValueTree

/-! ## The encoder -/

namespace ValueTree

mutual

/-- What is written of a tree. -/
def toXml : ValueTree → Xml
  | integer a i => .node "integer" [("id", printLong a), ("val", printLong i)] []
  | string a s => .node "string" [("id", printLong a)] [.text s]
  | pointer a ptr => .node "ptr" [("id", printLong a), ("val", printLong ptr)] []
  | tuple a ts => .node "tuple" [("id", printLong a)] (toElements ts)

def toElements : List ValueTree → List Xml
  | [] => []
  | t :: ts => .node "element" [] [t.toXml] :: toElements ts

end

end ValueTree

theorem elements_toElements (ts : List ValueTree) :
    Xml.elements (ValueTree.toElements ts) = ValueTree.toElements ts := by
  induction ts with
  | nil => rfl
  | cons t ts ih =>
    unfold ValueTree.toElements
    rw [Xml.elements_node, ih]

theorem elements_toXml (t : ValueTree) (xs : List Xml) :
    Xml.elements (t.toXml :: xs) = t.toXml :: Xml.elements xs := by
  cases t <;> rfl

section
variable {cell : Address → Option (Cell Address)}

/-- The memo at the end of the list. -/
theorem writeElements_cons {write : List Address → Option Address → Except Fault WrittenValue}
    {memo : List Address} {v : Address} {vs : List (Option Address)}
    {out : List Xml × List Xml × List Address}
    (h : writeElements write memo (some v :: vs) = .ok out) :
    ∃ w es ps memo', write memo (some v) = .ok w ∧ writeElements write w.memo vs = .ok (es, ps, memo') ∧
      out = (.node "element" [] [w.node] :: es, w.pointees ++ ps, memo') := by
  unfold writeElements at h
  cases hw : write memo (some v) with
  | error e => rw [hw] at h; cases h
  | ok w =>
    rw [hw] at h
    cases hes : writeElements write w.memo vs with
    | error e => simp only [hes] at h; cases h
    | ok out' =>
      obtain ⟨es, ps, memo'⟩ := out'
      simp only [hes] at h
      cases h
      exact ⟨w, es, ps, memo', rfl, hes, rfl⟩

/-- What is written is a tree, and if nothing is added to the root every pointer of it points
back. -/
def WritesTree (cell : Address → Option (Cell Address)) (memo : List Address) (f : Address)
    (w : WrittenValue) : Prop :=
  Xml.elements w.pointees = w.pointees ∧
    ∃ t : ValueTree, t.address = f ∧ t.In cell ∧ w.node = t.toXml ∧
      (w.pointees = [] → t.Backward memo ∧ w.memo = memo ++ t.order)

theorem trees_of_writeElements {write : List Address → Option Address → Except Fault WrittenValue}
    (hwrite : ∀ memo f w, write memo (some f) = .ok w → WritesTree cell memo f w)
    (vs : List (Option Address)) :
    ∀ (memo : List Address) (es ps : List Xml) (memo' : List Address), none ∉ vs →
      writeElements write memo vs = .ok (es, ps, memo') →
      Xml.elements ps = ps ∧ ∃ ts : List ValueTree, ts.map (fun t => some t.address) = vs ∧ ValueTree.AllIn cell ts ∧
        es = ValueTree.toElements ts ∧
        (ps = [] → ValueTree.AllBackward memo ts ∧ memo' = memo ++ ValueTree.orderAll ts) := by
  induction vs with
  | nil =>
    intro memo es ps memo' _ h
    cases h
    exact ⟨rfl, [], rfl, trivial, rfl, fun _ => ⟨trivial, (List.append_nil _).symm⟩⟩
  | cons v vs ih =>
    intro memo es ps memo' hn h
    cases v with
    | none => exact absurd List.mem_cons_self hn
    | some v =>
      obtain ⟨w, es', ps', memo₂, hw, hes, hout⟩ := writeElements_cons h
      cases hout
      obtain ⟨hel, t, ht, hin, hxml, hback⟩ := hwrite memo v w hw
      obtain ⟨hels, ts, hts, hins, hxmls, hbacks⟩ := ih w.memo es' ps' memo'
        (fun hv => hn (List.mem_cons_of_mem _ hv)) hes
      refine ⟨?_, t :: ts, ?_, ⟨hin, hins⟩, ?_, fun he => ?_⟩
      · rw [Xml.elements_append, hel, hels]
      · rw [List.map_cons, hts, ht]
      · unfold ValueTree.toElements
        rw [hxml, hxmls]
      · obtain ⟨he1, he2⟩ := List.append_eq_nil_iff.1 he
        obtain ⟨hb, hm⟩ := hback he1
        obtain ⟨hbs, hms⟩ := hbacks he2
        rw [hm] at hbs hms
        refine ⟨⟨hb, hbs⟩, ?_⟩
        rw [hms, List.append_assoc]
        rfl

theorem tree_of_writeValue (hset : ∀ a vs, cell a = some (.tuple vs) → none ∉ vs) (fuel : Nat) :
    ∀ memo f w, writeValue cell fuel memo (some f) = .ok w → WritesTree cell memo f w := by
  induction fuel with
  | zero =>
    intro memo f w h
    cases h
  | succ fuel ih =>
    intro memo f w h
    unfold writeValue at h
    cases hc : cell f with
    | none => simp only [hc] at h; cases h
    | some c =>
      simp only [hc] at h
      cases c with
      | integer i =>
        cases h
        exact ⟨rfl, .integer f i, rfl, hc, rfl, fun _ => ⟨trivial, rfl⟩⟩
      | string s =>
        cases h
        exact ⟨rfl, .string f s, rfl, hc, rfl, fun _ => ⟨trivial, rfl⟩⟩
      | pointer p =>
        cases p with
        | none => cases h
        | some ptr =>
          dsimp only at h
          split at h
          · rename_i hmem
            cases h
            exact ⟨rfl, .pointer f ptr, rfl, hc, rfl, fun _ => ⟨hmem, rfl⟩⟩
          · cases hw : writeValue cell fuel (memo ++ [f, ptr]) (some ptr) with
            | error e => rw [hw] at h; cases h
            | ok w' =>
              rw [hw] at h
              cases h
              obtain ⟨hel, t, _, _, hxml, _⟩ := ih _ _ _ hw
              refine ⟨?_, .pointer f ptr, rfl, hc, rfl, fun he => by cases he⟩
              show Xml.elements (w'.node :: w'.pointees) = w'.node :: w'.pointees
              rw [hxml, elements_toXml, hel]
      | tuple vs =>
        dsimp only at h
        cases hes : writeElements (writeValue cell fuel) (memo ++ [f]) vs with
        | error e => rw [hes] at h; cases h
        | ok out =>
          obtain ⟨es, ps, memo'⟩ := out
          rw [hes] at h
          cases h
          obtain ⟨hel, ts, hts, hin, hxml, hback⟩ :=
            trees_of_writeElements ih vs (memo ++ [f]) es ps memo' (hset f vs hc) hes
          refine ⟨hel, .tuple f ts, rfl, ⟨by rw [hts]; exact hc, hin⟩, ?_, fun he => ?_⟩
          · unfold ValueTree.toXml
            rw [hxml]
          · obtain ⟨hb, hm⟩ := hback he
            refine ⟨hb, ?_⟩
            show memo' = memo ++ (f :: ValueTree.orderAll ts)
            rw [hm, List.append_assoc]
            rfl

mutual

/-- Enough fuel for a tree. -/
def ValueTree.depth : ValueTree → Nat
  | .integer _ _ | .string _ _ | .pointer _ _ => 1
  | .tuple _ ts => ValueTree.depthAll ts + 1

def ValueTree.depthAll : List ValueTree → Nat
  | [] => 0
  | t :: ts => max t.depth (ValueTree.depthAll ts)

end

mutual

/-- A tree whose pointers point back is written as it is, and nothing is added to the root. -/
theorem writeValue_tree : (t : ValueTree) → (memo : List Address) → t.In cell → t.Backward memo →
    (fuel : Nat) → t.depth ≤ fuel →
    writeValue cell fuel memo (some t.address) = .ok ⟨t.toXml, [], memo ++ t.order⟩
  | .integer a i, memo, hin, _, fuel + 1, _ => by
    have hc : cell a = some (.integer i) := hin
    show writeValue cell (fuel + 1) memo (some a) = _
    unfold writeValue
    simp only [hc]
    rfl
  | .string a s, memo, hin, _, fuel + 1, _ => by
    have hc : cell a = some (.string s) := hin
    show writeValue cell (fuel + 1) memo (some a) = _
    unfold writeValue
    simp only [hc]
    rfl
  | .pointer a ptr, memo, hin, hb, fuel + 1, _ => by
    have hc : cell a = some (.pointer (some ptr)) := hin
    have hmem : ptr ∈ memo ++ [a] := hb
    show writeValue cell (fuel + 1) memo (some a) = _
    unfold writeValue
    simp only [hc, if_pos hmem]
    rfl
  | .tuple a ts, memo, hin, hb, fuel + 1, hd => by
    have hc : cell a = some (.tuple (ts.map fun t => some t.address)) := hin.1
    have hes := writeElements_trees ts (memo ++ [a]) hin.2 hb fuel (Nat.le_of_succ_le_succ hd)
    show writeValue cell (fuel + 1) memo (some a) = _
    unfold writeValue
    simp only [hc, hes]
    rw [List.append_assoc]
    rfl
  | .integer _ _, _, _, _, 0, hd | .string _ _, _, _, _, 0, hd | .pointer _ _, _, _, _, 0, hd
  | .tuple _ _, _, _, _, 0, hd => absurd hd (Nat.not_succ_le_zero _)

theorem writeElements_trees : (ts : List ValueTree) → (memo : List Address) →
    ValueTree.AllIn cell ts → ValueTree.AllBackward memo ts →
    (fuel : Nat) → ValueTree.depthAll ts ≤ fuel →
    writeElements (writeValue cell fuel) memo (ts.map fun t => some t.address) =
      .ok (ValueTree.toElements ts, [], memo ++ ValueTree.orderAll ts)
  | [], memo, _, _, fuel, _ => by
    show Except.ok ([], [], memo) = _
    rw [ValueTree.orderAll, List.append_nil]
    rfl
  | t :: ts, memo, hin, hb, fuel, hd => by
    have hd' : max t.depth (ValueTree.depthAll ts) ≤ fuel := hd
    have hw := writeValue_tree t memo hin.1 hb.1 fuel (by omega)
    have hes := writeElements_trees ts (memo ++ t.order) hin.2 hb.2 fuel (by omega)
    rw [List.map_cons]
    unfold writeElements
    simp only [hw, hes, List.append_assoc]
    rfl

end

end

end PyLinda
