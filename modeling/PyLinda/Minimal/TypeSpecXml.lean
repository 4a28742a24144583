import PyLinda.Minimal.SyntaxTree

/-!
# Type specifications come back

What `Minimal_xmlToSyntaxTree` makes of the XML of `Minimal_serialiseTypeSpec`: the same
type without the brackets, with the type ids filled in.
-/

namespace PyLinda

open SyntaxTree

mutual

/-- A type: Nil, names, products, sums, pointers, functions and brackets. -/
def SyntaxTree.IsType : SyntaxTree → Prop
  | .nil | .identifier _ _ | .pointer _ => True
  | .productType bs | .sumType bs => AreTypes bs
  | .typeFunction a v => a.IsType ∧ v.IsType
  | .bracket d => d.IsType
  | _ => False

def SyntaxTree.AreTypes : List SyntaxTree → Prop
  | [] => True
  | b :: bs => b.IsType ∧ AreTypes bs

end

mutual

/-- The type without brackets; a name has its own type id, else the one the map binds to it. -/
def SyntaxTree.resolved (typemap : TypeMap) : SyntaxTree → SyntaxTree
  | .identifier s id => .identifier s (id.or (typemap s).join)
  | .productType bs => .productType (resolvedAll typemap bs)
  | .sumType bs => .sumType (resolvedAll typemap bs)
  | .typeFunction a v => .typeFunction (a.resolved typemap) (v.resolved typemap)
  | .bracket d => d.resolved typemap
  | t => t

def SyntaxTree.resolvedAll (typemap : TypeMap) : List SyntaxTree → List SyntaxTree
  | [] => []
  | b :: bs => b.resolved typemap :: resolvedAll typemap bs

end

theorem writtenTypeId_eq (typemap : TypeMap) (s : String) (id : Option String) :
    writtenTypeId typemap s id = id.or (typemap s).join := by
  unfold writtenTypeId
  cases id with
  | some id => rfl
  | none => cases typemap s <;> rfl

theorem childTrees_eq (xs : List Xml) :
    childTrees xs = (Xml.elements xs).map fun x => (x.name, xmlToSyntaxTree x) := by
  induction xs with
  | nil => rfl
  | cons x xs ih =>
    unfold childTrees
    cases x with
    | node n ps cs =>
      rw [ih]
      rfl
    | text s =>
      rw [ih]
      rfl

/-- One element that is read as the tree `t`. -/
def TreeNode (x : Xml) (t : SyntaxTree) : Prop :=
  x.isElement ∧ ∀ y, x.Reparsed y → xmlToSyntaxTree y = some t

theorem TreeNode.of_node {n : String} {ps : List (String × String)} {cs : List Xml}
    {t : SyntaxTree}
    (h : ∀ ds, List.Forall₂ Xml.Reparsed (Xml.elements cs) (Xml.elements ds) →
      xmlToSyntaxTree (.node n ps ds) = some t) : TreeNode (.node n ps cs) t := by
  refine ⟨rfl, fun y hy => ?_⟩
  obtain ⟨ds, rfl, hds⟩ := hy.node_inv
  exact h ds hds

/-- The children that are read of nodes for `ts`. -/
theorem results_of_treeNodes {xs ys : List Xml} {ts : List SyntaxTree}
    (h : List.Forall₂ TreeNode xs ts) (hr : List.Forall₂ Xml.Reparsed xs ys) :
    ys.map (fun y => xmlToSyntaxTree y) = ts.map some := by
  induction h generalizing ys with
  | nil => cases hr; rfl
  | cons hx _ ih =>
    cases hr with
    | cons hy hys => rw [List.map_cons, hx.2 _ hy, ih hys]; rfl

theorem elements_of_treeNodes {xs : List Xml} {ts : List SyntaxTree}
    (h : List.Forall₂ TreeNode xs ts) : Xml.elements xs = xs := by
  induction h with
  | nil => rfl
  | cons hx _ ih =>
    unfold Xml.elements at ih ⊢
    rw [List.filter_cons_of_pos hx.1, ih]

/-- What the loops over the children get. -/
theorem snd_childTrees {xs ds : List Xml} {ts : List SyntaxTree} (h : List.Forall₂ TreeNode xs ts)
    (hr : List.Forall₂ Xml.Reparsed (Xml.elements xs) (Xml.elements ds)) :
    (childTrees ds).map (·.2) = ts.map some := by
  rw [elements_of_treeNodes h] at hr
  rw [childTrees_eq, List.map_map]
  exact results_of_treeNodes h hr

theorem allOf_eq {rs : Trees} {ts : List SyntaxTree} (h : rs.map (·.2) = ts.map some) :
    allOf rs = some ts := by
  induction rs generalizing ts with
  | nil =>
    cases ts with
    | nil => rfl
    | cons => cases h
  | cons r rs ih =>
    cases ts with
    | nil => cases h
    | cons t ts =>
      obtain ⟨hr, hrs⟩ := List.cons.inj h
      unfold allOf
      rw [ih hrs]
      obtain ⟨n, r⟩ := r
      cases hr
      rfl

theorem argAndValue_eq {rs : Trees} {a v : SyntaxTree} (h : rs.map (·.2) = [some a, some v])
    (ha : a.isNull = false) : argAndValue rs .null .null = some (a, v) := by
  obtain ⟨⟨n1, r1⟩, rs1, rfl, h1, h⟩ := List.map_eq_cons_iff.1 h
  obtain ⟨⟨n2, r2⟩, rs2, rfl, h2, h⟩ := List.map_eq_cons_iff.1 h
  obtain rfl := List.map_eq_nil_iff.1 h
  cases h1
  cases h2
  show (if a.isNull then _ else _) = _
  rw [if_neg (by rw [ha]; decide)]
  rfl

theorem isNull_resolved {typemap : TypeMap} : {t : SyntaxTree} → t.IsType →
    (t.resolved typemap).isNull = false
  | .nil, _ => rfl
  | .identifier _ _, _ => rfl
  | .pointer _, _ => rfl
  | .productType _, _ => rfl
  | .sumType _, _ => rfl
  | .typeFunction _ _, _ => rfl
  | .bracket d, h => isNull_resolved (t := d) h

mutual

/-- Every type is written as one element, which is read as the resolved type. -/
theorem serialiseTypeSpec_treeNode (typemap : TypeMap) : (t : SyntaxTree) → t.IsType →
    ∃ x, serialiseTypeSpec typemap t = some [x] ∧ TreeNode x (t.resolved typemap)
  | .nil, _ => ⟨_, rfl, .of_node fun _ _ => rfl⟩
  | .identifier s id, _ => ⟨_, rfl, .of_node fun ds _ => by
      rw [writtenTypeId_eq]
      show some (SyntaxTree.identifier s
        (Xml.getProp (("name", s) :: typeIdProp (id.or (typemap s).join)) "typeid")) = _
      unfold SyntaxTree.resolved
      cases id.or (typemap s).join <;> rfl⟩
  | .pointer p, _ => ⟨_, rfl, .of_node fun _ _ => rfl⟩
  | .productType bs, h => by
    obtain ⟨xs, hxs, hread⟩ := serialiseTypeSpecs_treeNodes typemap bs h
    refine ⟨.node "product_type" [] xs, ?_, .of_node fun ds hds => ?_⟩
    · unfold serialiseTypeSpec
      rw [hxs]
      rfl
    · show (allOf (childTrees ds)).map SyntaxTree.productType = _
      rw [allOf_eq (snd_childTrees hread hds)]
      rfl
  | .sumType bs, h => by
    obtain ⟨xs, hxs, hread⟩ := serialiseTypeSpecs_treeNodes typemap bs h
    refine ⟨.node "sum_type" [] xs, ?_, .of_node fun ds hds => ?_⟩
    · unfold serialiseTypeSpec
      rw [hxs]
      rfl
    · show (allOf (childTrees ds)).map SyntaxTree.sumType = _
      rw [allOf_eq (snd_childTrees hread hds)]
      rfl
  | .typeFunction a v, h => by
    obtain ⟨x, hx, hax⟩ := serialiseTypeSpec_treeNode typemap a h.1
    obtain ⟨y, hy, hvy⟩ := serialiseTypeSpec_treeNode typemap v h.2
    refine ⟨.node "type_function" [] [x, y], ?_, .of_node fun ds hds => ?_⟩
    · unfold serialiseTypeSpec
      rw [hx, hy]
      rfl
    · have hrs := snd_childTrees (.cons hax (.cons hvy .nil)) hds
      show (argAndValue (childTrees ds) .null .null).map
        (fun av => SyntaxTree.typeFunction av.1 av.2) = _
      rw [argAndValue_eq hrs (isNull_resolved h.1)]
      rfl
  | .bracket d, h => serialiseTypeSpec_treeNode typemap d h

theorem serialiseTypeSpecs_treeNodes (typemap : TypeMap) : (bs : List SyntaxTree) →
    SyntaxTree.AreTypes bs → ∃ xs, serialiseTypeSpecs typemap bs = some xs ∧
      List.Forall₂ TreeNode xs (SyntaxTree.resolvedAll typemap bs)
  | [], _ => ⟨[], rfl, .nil⟩
  | b :: bs, h => by
    obtain ⟨x, hx, hb⟩ := serialiseTypeSpec_treeNode typemap b h.1
    obtain ⟨xs, hxs, hbs⟩ := serialiseTypeSpecs_treeNodes typemap bs h.2
    refine ⟨x :: xs, ?_, .cons hb hbs⟩
    unfold serialiseTypeSpecs
    rw [hx, hxs]
    rfl

end

end PyLinda
