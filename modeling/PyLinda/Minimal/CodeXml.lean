import PyLinda.Minimal.TypeSpecXml

/-!
# Function bodies come back in part

What `Minimal_xmlToSyntaxTree` makes of the XML of `Minimal_serialiseCode`, for the trees
that the grammar builds.
-/

namespace PyLinda

open SyntaxTree

mutual

/-- The trees of `expr` in the grammar. A tuple may hold the blank that `tuple2` puts in. -/
inductive SyntaxTree.Expr : SyntaxTree → Prop
  | nil : Expr .nil
  | identifier (s : String) : Expr (.identifier s none)
  | integer (i : Int) : Expr (.integer i)
  | string (s : String) : Expr (.string s)
  | index {e i : SyntaxTree} : e.Expr → i.Expr → Expr (.index e i)
  | operator (op : String) {a b : SyntaxTree} : a.Expr → b.Expr → Expr (.operator op a b)
  | call {f : SyntaxTree} : f.Expr → Expr (.functionCall f .null)
  | callArgs {f args : SyntaxTree} : f.Expr → args.Args → Expr (.functionCall f args)
  | tuple {ts : List SyntaxTree} : Elements ts → Expr (.tuple ts)
  | ifExpr {c a b : SyntaxTree} : c.Expr → a.Expr → b.Expr → Expr (.ifExpr c a b)
  | letExpr (v : String) {e c : SyntaxTree} : e.Expr → c.Expr →
    Expr (.letExpr (.identifier v none) e c)

/-- The trees of `argument_list`. -/
inductive SyntaxTree.Args : SyntaxTree → Prop
  | one {a : SyntaxTree} : a.Expr → Args (.argumentList a .null)
  | more {a next : SyntaxTree} : a.Expr → next.Args → Args (.argumentList a next)

/-- The trees in a tuple. -/
inductive SyntaxTree.Elements : List SyntaxTree → Prop
  | nil : Elements []
  | cons {t : SyntaxTree} {ts : List SyntaxTree} : t.Expr → Elements ts → Elements (t :: ts)
  | blank {ts : List SyntaxTree} : Elements ts → Elements (.blank :: ts)

end

/-- No Nil, no if-expression, no tuple and no call without arguments in it. -/
def SyntaxTree.Sendable : SyntaxTree → Prop
  | .identifier _ _ | .integer _ | .string _ => True
  | .index e i => e.Sendable ∧ i.Sendable
  | .operator _ a b => a.Sendable ∧ b.Sendable
  | .functionCall f args => f.Sendable ∧ args.Sendable
  | .argumentList a next => a.Sendable ∧ (next = .null ∨ next.Sendable)
  | .letExpr v e c => v.Sendable ∧ e.Sendable ∧ c.Sendable
  | _ => False

/-- The code of a function sent and received: `<code>` and what is in it. -/
def SyntaxTree.CodeReturns (t : SyntaxTree) : Prop :=
  ∃ xs, serialiseCode t = some xs ∧
    ∀ y, Xml.Reparsed (.node "code" [] xs) y → xmlToSyntaxTree y = some t

/-! ## What is sent arrives -/

theorem firstOf_eq {rs : Trees} {t : SyntaxTree} (h : rs.map (·.2) = [some t]) :
    firstOf rs .null = some t := by
  obtain ⟨⟨n1, r1⟩, rs1, rfl, h1, h⟩ := List.map_eq_cons_iff.1 h
  obtain rfl := List.map_eq_nil_iff.1 h
  cases h1
  rfl

theorem twoOf_eq {rs : Trees} {a b : SyntaxTree} (h : rs.map (·.2) = [some a, some b])
    (ha : a.isNull = false) : twoOf rs .null .null = some (a, b) := by
  obtain ⟨⟨n1, r1⟩, rs1, rfl, h1, h⟩ := List.map_eq_cons_iff.1 h
  obtain ⟨⟨n2, r2⟩, rs2, rfl, h2, h⟩ := List.map_eq_cons_iff.1 h
  obtain rfl := List.map_eq_nil_iff.1 h
  cases h1
  cases h2
  show (if a.isNull then _ else _) = _
  rw [if_neg (by rw [ha]; decide)]
  rfl

theorem threeOf_eq {rs : Trees} {a b c : SyntaxTree} (h : rs.map (·.2) = [some a, some b, some c])
    (ha : a.isNull = false) (hb : b.isNull = false) :
    threeOf rs .null .null .null = some (a, b, c) := by
  obtain ⟨⟨n1, r1⟩, rs1, rfl, h1, h⟩ := List.map_eq_cons_iff.1 h
  obtain ⟨⟨n2, r2⟩, rs2, rfl, h2, h⟩ := List.map_eq_cons_iff.1 h
  obtain ⟨⟨n3, r3⟩, rs3, rfl, h3, h⟩ := List.map_eq_cons_iff.1 h
  obtain rfl := List.map_eq_nil_iff.1 h
  cases h1
  cases h2
  cases h3
  show (if a.isNull then _ else _) = _
  rw [if_neg (by rw [ha]; decide)]
  show (if a.isNull then _ else _) = _
  rw [if_neg (by rw [ha]; decide), if_neg (by rw [hb]; decide)]
  rfl

theorem isNull_of_sendable {t : SyntaxTree} (h : t.Sendable) : t.isNull = false := by
  cases t <;> first | rfl | exact h.elim

theorem args_inv {args : SyntaxTree} (h : args.Args) :
    ∃ a next, args = .argumentList a next ∧ a.Expr ∧ (next = .null ∨ next.Args) := by
  cases h with
  | one ha => exact ⟨_, _, rfl, ha, Or.inl rfl⟩
  | more ha hn => exact ⟨_, _, rfl, ha, Or.inr hn⟩

theorem createArgumentList1_expr {a : SyntaxTree} (h : a.Expr) :
    createArgumentList1 a = some (.argumentList a .null) := by
  cases h <;> rfl

theorem createArgumentList2_args {a next : SyntaxTree} (ha : a.Expr) (hn : next.Args) :
    createArgumentList2 a next = some (.argumentList a next) := by
  obtain ⟨b, next', rfl, _, _⟩ := args_inv hn
  unfold createArgumentList2
  rw [createArgumentList1_expr ha]
  rfl

/-- The node of a tree of two parts. -/
theorem twoOf_read {xs ds : List Xml} {a b : SyntaxTree} (h : List.Forall₂ TreeNode xs [a, b])
    (hds : List.Forall₂ Xml.Reparsed (Xml.elements xs) (Xml.elements ds)) (ha : a.isNull = false) :
    twoOf (childTrees ds) .null .null = some (a, b) :=
  twoOf_eq (snd_childTrees h hds) ha

/-- Sendable code, argument lists included, is written as one element and read as it was. -/
theorem serialiseCode_treeNode : (t : SyntaxTree) → t.Expr ∨ t.Args → t.Sendable →
    ∃ x, serialiseCode t = some [x] ∧ TreeNode x t
  | .identifier s id, ht, _ => by
    have hid : id = none := by
      rcases ht with ht | ht <;> cases ht
      rfl
    subst hid
    exact ⟨_, rfl, .of_node fun _ _ => rfl⟩
  | .integer i, _, _ => by
    refine ⟨_, rfl, .of_node fun ds _ => ?_⟩
    show some (SyntaxTree.integer (Lib.atoi i.repr)) = _
    rw [Lib.atoi_repr]
  | .string s, _, _ => ⟨_, rfl, .of_node fun _ _ => rfl⟩
  | .index e i, ht, hs => by
    have hp : e.Expr ∧ i.Expr := by
      rcases ht with ht | ht <;> cases ht
      exact ⟨‹_›, ‹_›⟩
    obtain ⟨x, hx, hxe⟩ := serialiseCode_treeNode e (Or.inl hp.1) hs.1
    obtain ⟨z, hz, hzi⟩ := serialiseCode_treeNode i (Or.inl hp.2) hs.2
    refine ⟨.node "index" [] [x, z], ?_, .of_node fun ds hds => ?_⟩
    · unfold serialiseCode
      rw [hx, hz]
      rfl
    · show (twoOf (childTrees ds) .null .null).map (fun ops => SyntaxTree.index ops.1 ops.2) = _
      rw [twoOf_read (.cons hxe (.cons hzi .nil)) hds (isNull_of_sendable hs.1)]
      rfl
  | .operator op a b, ht, hs => by
    have hp : a.Expr ∧ b.Expr := by
      rcases ht with ht | ht <;> cases ht
      exact ⟨‹_›, ‹_›⟩
    obtain ⟨x, hx, hxa⟩ := serialiseCode_treeNode a (Or.inl hp.1) hs.1
    obtain ⟨z, hz, hzb⟩ := serialiseCode_treeNode b (Or.inl hp.2) hs.2
    refine ⟨.node "operator" [("op", op)] [x, z], ?_, .of_node fun ds hds => ?_⟩
    · unfold serialiseCode
      rw [hx, hz]
      rfl
    · show ((twoOf (childTrees ds) .null .null).bind fun ops =>
        some (SyntaxTree.operator op ops.1 ops.2)) = _
      rw [twoOf_read (.cons hxa (.cons hzb .nil)) hds (isNull_of_sendable hs.1)]
      rfl
  | .functionCall f args, ht, hs => by
    have hp : f.Expr ∧ args.Args := by
      rcases ht with ht | ht
      · cases ht with
        | call hf => exact hs.2.elim
        | callArgs hf ha => exact ⟨hf, ha⟩
      · cases ht
    obtain ⟨x, hx, hxf⟩ := serialiseCode_treeNode f (Or.inl hp.1) hs.1
    obtain ⟨z, hz, hza⟩ := serialiseCode_treeNode args (Or.inr hp.2) hs.2
    refine ⟨.node "funccall" [] [x, z], ?_, .of_node fun ds hds => ?_⟩
    · unfold serialiseCode
      rw [hx, hz]
      rfl
    · show (twoOf (childTrees ds) .null .null).map (fun fa => SyntaxTree.functionCall fa.1 fa.2) = _
      rw [twoOf_read (.cons hxf (.cons hza .nil)) hds (isNull_of_sendable hs.1)]
      rfl
  | .argumentList a next, ht, hs => by
    have hp : a.Expr ∧ (next = .null ∨ next.Args) := by
      rcases ht with ht | ht
      · cases ht
      · obtain ⟨_, _, he, ha, hn⟩ := args_inv ht
        cases he
        exact ⟨ha, hn⟩
    obtain ⟨x, hx, hxa⟩ := serialiseCode_treeNode a (Or.inl hp.1) hs.1
    rcases hp.2 with rfl | hn
    · refine ⟨.node "argument_list" [] [x], ?_, .of_node fun ds hds => ?_⟩
      · unfold serialiseCode
        rw [hx]
        rfl
      · have hr := snd_childTrees (.cons hxa .nil) hds
        obtain ⟨⟨n1, r1⟩, rs1, hcs, h1, hr⟩ := List.map_eq_cons_iff.1 hr
        obtain rfl := List.map_eq_nil_iff.1 hr
        cases h1
        show ((twoOf (childTrees ds) .null .null).bind fun an =>
          if an.2.isNull then createArgumentList1 an.1 else createArgumentList2 an.1 an.2) = _
        rw [hcs]
        exact createArgumentList1_expr hp.1
    · have hns : next.Sendable := by
        rcases hs.2 with rfl | h
        · cases hn
        · exact h
      obtain ⟨z, hz, hzn⟩ := serialiseCode_treeNode next (Or.inr hn) hns
      refine ⟨.node "argument_list" [] [x, z], ?_, .of_node fun ds hds => ?_⟩
      · unfold serialiseCode
        rw [hx, if_neg (by rw [isNull_of_sendable hns]; decide), hz]
        rfl
      · show ((twoOf (childTrees ds) .null .null).bind fun an =>
          if an.2.isNull then createArgumentList1 an.1 else createArgumentList2 an.1 an.2) = _
        rw [twoOf_read (.cons hxa (.cons hzn .nil)) hds (isNull_of_sendable hs.1)]
        show (if next.isNull then _ else createArgumentList2 a next) = _
        rw [if_neg (by rw [isNull_of_sendable hns]; decide), createArgumentList2_args hp.1 hn]
  | .letExpr v e c, ht, hs => by
    have hp : v.Expr ∧ e.Expr ∧ c.Expr := by
      rcases ht with ht | ht <;> cases ht
      exact ⟨.identifier _, ‹_›, ‹_›⟩
    obtain ⟨x, hx, hxv⟩ := serialiseCode_treeNode v (Or.inl hp.1) hs.1
    obtain ⟨z, hz, hze⟩ := serialiseCode_treeNode e (Or.inl hp.2.1) hs.2.1
    obtain ⟨w, hw, hwc⟩ := serialiseCode_treeNode c (Or.inl hp.2.2) hs.2.2
    refine ⟨.node "let" [] [x, z, w], ?_, .of_node fun ds hds => ?_⟩
    · unfold serialiseCode
      rw [hx, hz, hw]
      rfl
    · show (threeOf (childTrees ds) .null .null .null).map
        (fun vec => SyntaxTree.letExpr vec.1 vec.2.1 vec.2.2) = _
      rw [threeOf_eq (snd_childTrees (.cons hxv (.cons hze (.cons hwc .nil))) hds)
        (isNull_of_sendable hs.1) (isNull_of_sendable hs.2.1)]
      rfl
  | .null, _, hs | .blank, _, hs | .nil, _, hs | .tuple _, _, hs | .ifExpr _ _ _, _, hs => hs.elim
  | .sequentialDefs _, _, hs | .typeSpec _ _, _, hs | .typeFunction _ _, _, hs => hs.elim
  | .functionDef _ _ _, _, hs | .parameterList _ _, _, hs | .productType _, _, hs => hs.elim
  | .sumType _, _, hs | .pointer _, _, hs | .bracket _, _, hs => hs.elim

/-! ## What cannot arrive -/

/-- The decoder builds no Nil here, no if-expression, no tuple and no blank. -/
def SyntaxTree.Clean : SyntaxTree → Prop
  | .blank | .nil | .tuple _ | .ifExpr _ _ _ => False
  | .operator _ a b | .index a b | .functionCall a b | .argumentList a b => a.Clean ∧ b.Clean
  | .letExpr v e c => v.Clean ∧ e.Clean ∧ c.Clean
  | _ => True

theorem clean_null : SyntaxTree.null.Clean := trivial

/-- Whatever these nodes are read as is clean. -/
def CleanNodes (xs : List Xml) : Prop :=
  ∀ x ∈ xs, x.isElement ∧ ∀ y, x.Reparsed y → ∀ d, xmlToSyntaxTree y = some d → d.Clean

def CleanTrees (rs : Trees) : Prop := ∀ r ∈ rs, ∀ d, r.2 = some d → d.Clean

theorem cleanTrees_of_nodes {xs ds : List Xml} (h : CleanNodes xs)
    (hr : List.Forall₂ Xml.Reparsed (Xml.elements xs) (Xml.elements ds)) :
    CleanTrees (childTrees ds) := by
  have hx : Xml.elements xs = xs := List.filter_eq_self.2 fun x hx => (h x hx).1
  rw [hx] at hr
  rw [childTrees_eq]
  intro r hmem d hd
  obtain ⟨y, hy, rfl⟩ := List.mem_map.1 hmem
  obtain ⟨x, hx, hxy⟩ : ∃ x ∈ xs, x.Reparsed y := by
    generalize Xml.elements ds = ys at hr hy
    clear h hx hmem
    induction hr with
    | nil => cases hy
    | cons hxy _ ih =>
      rcases List.mem_cons.1 hy with rfl | hy
      · exact ⟨_, List.mem_cons_self, hxy⟩
      · obtain ⟨x, hx, hxy⟩ := ih hy
        exact ⟨x, List.mem_cons_of_mem _ hx, hxy⟩
  exact (h x hx).2 y hxy d hd

theorem CleanTrees.tail {r : String × Option SyntaxTree} {rs : Trees} (h : CleanTrees (r :: rs)) :
    CleanTrees rs :=
  fun r' hr' => h r' (List.mem_cons_of_mem _ hr')

theorem clean_firstOf {rs : Trees} (h : CleanTrees rs) {t d : SyntaxTree} (ht : t.Clean)
    (hd : firstOf rs t = some d) : d.Clean := by
  induction rs generalizing t with
  | nil =>
    cases hd
    exact ht
  | cons r rs ih =>
    obtain ⟨n, r⟩ := r
    unfold firstOf at hd
    by_cases hn : t.isNull
    · rw [if_pos hn] at hd
      obtain ⟨t', rfl, hd⟩ := Option.bind_eq_some_iff.1 hd
      exact ih h.tail (h _ List.mem_cons_self _ rfl) hd
    · rw [if_neg hn] at hd
      exact ih h.tail ht hd

theorem clean_twoOf {rs : Trees} (h : CleanTrees rs) {a b : SyntaxTree} {d : SyntaxTree × SyntaxTree}
    (ha : a.Clean) (hb : b.Clean) (hd : twoOf rs a b = some d) : d.1.Clean ∧ d.2.Clean := by
  induction rs generalizing a b with
  | nil =>
    cases hd
    exact ⟨ha, hb⟩
  | cons r rs ih =>
    obtain ⟨n, r⟩ := r
    unfold twoOf at hd
    by_cases hn : a.isNull
    · rw [if_pos hn] at hd
      obtain ⟨a', rfl, hd⟩ := Option.bind_eq_some_iff.1 hd
      exact ih h.tail (h _ List.mem_cons_self _ rfl) hb hd
    · rw [if_neg hn] at hd
      obtain ⟨b', rfl, hd⟩ := Option.bind_eq_some_iff.1 hd
      exact ih h.tail ha (h _ List.mem_cons_self _ rfl) hd

theorem clean_threeOf {rs : Trees} (h : CleanTrees rs) {a b c : SyntaxTree}
    {d : SyntaxTree × SyntaxTree × SyntaxTree} (ha : a.Clean) (hb : b.Clean) (hc : c.Clean)
    (hd : threeOf rs a b c = some d) : d.1.Clean ∧ d.2.1.Clean ∧ d.2.2.Clean := by
  induction rs generalizing a b c with
  | nil =>
    cases hd
    exact ⟨ha, hb, hc⟩
  | cons r rs ih =>
    obtain ⟨n, r⟩ := r
    unfold threeOf at hd
    by_cases hn : a.isNull
    · rw [if_pos hn] at hd
      obtain ⟨a', rfl, hd⟩ := Option.bind_eq_some_iff.1 hd
      exact ih h.tail (h _ List.mem_cons_self _ rfl) hb hc hd
    · rw [if_neg hn] at hd
      by_cases hm : b.isNull
      · rw [if_pos hm] at hd
        obtain ⟨b', rfl, hd⟩ := Option.bind_eq_some_iff.1 hd
        exact ih h.tail ha (h _ List.mem_cons_self _ rfl) hc hd
      · rw [if_neg hm] at hd
        obtain ⟨c', rfl, hd⟩ := Option.bind_eq_some_iff.1 hd
        exact ih h.tail ha hb (h _ List.mem_cons_self _ rfl) hd

theorem clean_createArgumentList1 {a d : SyntaxTree} (ha : a.Clean)
    (hd : createArgumentList1 a = some d) : d.Clean := by
  cases a <;> cases hd <;> first | exact ha | exact ⟨ha, trivial⟩

theorem clean_appendArgs {tail : SyntaxTree} (ht : tail.Clean) : (t : SyntaxTree) → t.Clean →
    (appendArgs tail t).Clean
  | .argumentList a next, h => by
    have ih := clean_appendArgs ht next h.2
    cases next <;> first | exact ⟨h.1, ht⟩ | exact ⟨h.1, ih⟩
  | .null, h | .blank, h | .nil, h | .identifier _ _, h | .integer _, h | .string _, h => h
  | .sequentialDefs _, h | .typeSpec _ _, h | .typeFunction _ _, h | .functionDef _ _ _, h => h
  | .parameterList _ _, h | .functionCall _ _, h | .operator _ _ _, h | .productType _, h => h
  | .sumType _, h | .tuple _, h | .pointer _, h | .ifExpr _ _ _, h | .bracket _, h => h
  | .index _ _, h | .letExpr _ _ _, h => h

theorem clean_createArgumentList2 {a b d : SyntaxTree} (ha : a.Clean) (hb : b.Clean)
    (hd : createArgumentList2 a b = some d) : d.Clean := by
  unfold createArgumentList2 at hd
  cases h1 : createArgumentList1 a with
  | none => rw [h1] at hd; cases hd
  | some l1 =>
    cases h2 : createArgumentList1 b with
    | none => rw [h1, h2] at hd; cases hd
    | some l2 =>
      rw [h1, h2] at hd
      cases hd
      exact clean_appendArgs (clean_createArgumentList1 hb h2) _ (clean_createArgumentList1 ha h1)

/-- The parts of a node that was made were made, and are what is in it. -/
theorem nodeOf_inv {name : String} {props : List (String × String)}
    {parts : List (Option (List Xml))} {xs : List Xml} (h : nodeOf name props parts = some xs) :
    ∃ cs, xs = [.node name props cs] ∧ (∀ p ∈ parts, ∃ ys, p = some ys) ∧
      ∀ x ∈ cs, ∃ ys, some ys ∈ parts ∧ x ∈ ys := by
  unfold nodeOf at h
  obtain ⟨cs, hcs, rfl⟩ := Option.map_eq_some_iff.1 h
  refine ⟨cs, rfl, ?_⟩
  clear h
  induction parts generalizing cs with
  | nil =>
    cases hcs
    exact ⟨by simp, by simp⟩
  | cons p parts ih =>
    unfold joinParts at hcs
    cases p with
    | none => cases hcs
    | some ys =>
      cases hr : joinParts parts with
      | none => rw [hr] at hcs; cases hcs
      | some zs =>
        rw [hr] at hcs
        cases hcs
        obtain ⟨h1, h2⟩ := ih zs hr
        refine ⟨fun p hp => ?_, fun x hx => ?_⟩
        · rcases List.mem_cons.1 hp with rfl | hp
          · exact ⟨ys, rfl⟩
          · exact h1 p hp
        · rcases List.mem_append.1 hx with hx | hx
          · exact ⟨ys, List.mem_cons_self, hx⟩
          · obtain ⟨zs', hz, hx⟩ := h2 x hx
            exact ⟨zs', List.mem_cons_of_mem _ hz, hx⟩

/-- A node is clean when what its decoder makes of clean children is. -/
theorem cleanNodes_nodeOf {name : String} {props : List (String × String)}
    {parts : List (Option (List Xml))} {xs : List Xml} (h : nodeOf name props parts = some xs)
    (hparts : ∀ ys, some ys ∈ parts → CleanNodes ys)
    (hread : ∀ ds, CleanTrees (childTrees ds) → ∀ d,
      xmlToSyntaxTree (.node name props ds) = some d → d.Clean) : CleanNodes xs := by
  obtain ⟨cs, rfl, _, hcs⟩ := nodeOf_inv h
  intro x hx
  obtain rfl := List.mem_singleton.1 hx
  refine ⟨rfl, fun y hy d hd => ?_⟩
  obtain ⟨ds, rfl, hds⟩ := hy.node_inv
  refine hread ds (cleanTrees_of_nodes (fun x hx => ?_) hds) d hd
  obtain ⟨ys, hys, hx⟩ := hcs x hx
  exact hparts ys hys x hx

theorem cleanNodes_leaf {name : String} {props : List (String × String)}
    (h : ∀ ds, ∀ d, xmlToSyntaxTree (.node name props ds) = some d → d.Clean) :
    CleanNodes [.node name props []] := by
  intro x hx
  obtain rfl := List.mem_singleton.1 hx
  refine ⟨rfl, fun y hy d hd => ?_⟩
  obtain ⟨ds, rfl, _⟩ := hy.node_inv
  exact h ds d hd

theorem cleanNodes_nil : CleanNodes [] := fun x hx => by cases hx

theorem cleanNodes_parts {parts : List (Option (List Xml))}
    (h : ∀ p ∈ parts, ∀ ys, p = some ys → CleanNodes ys) : ∀ ys, some ys ∈ parts → CleanNodes ys :=
  fun ys hys => h _ hys ys rfl

/-- Whatever tree is written, what is read of it is clean. -/
theorem serialiseCode_clean : (t : SyntaxTree) → ∀ xs, serialiseCode t = some xs → CleanNodes xs
  | .null, xs, h => by cases h
  | .identifier s id, xs, h => by
    cases h
    exact cleanNodes_leaf fun ds d hd => by cases hd; trivial
  | .integer i, xs, h => by
    cases h
    exact cleanNodes_leaf fun ds d hd => by cases hd; trivial
  | .string s, xs, h => by
    cases h
    exact cleanNodes_leaf fun ds d hd => by cases hd; trivial
  | .operator op a b, xs, h => by
    refine cleanNodes_nodeOf h (cleanNodes_parts ?_) fun ds hds d hd => ?_
    · simp only [List.mem_cons, List.not_mem_nil, or_false, forall_eq_or_imp, forall_eq]
      exact ⟨serialiseCode_clean a, serialiseCode_clean b⟩
    · obtain ⟨ops, hops, hd⟩ := Option.bind_eq_some_iff.1 hd
      cases hd
      exact clean_twoOf hds clean_null clean_null hops
  | .index e i, xs, h => by
    refine cleanNodes_nodeOf h (cleanNodes_parts ?_) fun ds hds d hd => ?_
    · simp only [List.mem_cons, List.not_mem_nil, or_false, forall_eq_or_imp, forall_eq]
      exact ⟨serialiseCode_clean e, serialiseCode_clean i⟩
    · obtain ⟨ops, hops, rfl⟩ := Option.map_eq_some_iff.1 hd
      exact clean_twoOf hds clean_null clean_null hops
  | .functionCall f args, xs, h => by
    refine cleanNodes_nodeOf h (cleanNodes_parts ?_) fun ds hds d hd => ?_
    · simp only [List.mem_cons, List.not_mem_nil, or_false, forall_eq_or_imp, forall_eq]
      exact ⟨serialiseCode_clean f, serialiseCode_clean args⟩
    · obtain ⟨fa, hfa, rfl⟩ := Option.map_eq_some_iff.1 hd
      exact clean_twoOf hds clean_null clean_null hfa
  | .argumentList a next, xs, h => by
    refine cleanNodes_nodeOf h (cleanNodes_parts ?_) fun ds hds d hd => ?_
    · intro p hp ys hys
      rcases List.mem_cons.1 hp with rfl | hp
      · exact serialiseCode_clean a ys hys
      · by_cases hn : next.isNull
        · rw [if_pos hn] at hp
          cases hp
        · rw [if_neg hn] at hp
          obtain rfl := List.mem_singleton.1 hp
          exact serialiseCode_clean next ys hys
    · obtain ⟨an, han, hd⟩ := Option.bind_eq_some_iff.1 hd
      have hc := clean_twoOf hds clean_null clean_null han
      by_cases hn : an.2.isNull
      · rw [if_pos hn] at hd
        exact clean_createArgumentList1 hc.1 hd
      · rw [if_neg hn] at hd
        exact clean_createArgumentList2 hc.1 hc.2 hd
  | .letExpr v e c, xs, h => by
    refine cleanNodes_nodeOf h (cleanNodes_parts ?_) fun ds hds d hd => ?_
    · simp only [List.mem_cons, List.not_mem_nil, or_false, forall_eq_or_imp, forall_eq]
      exact ⟨serialiseCode_clean v, serialiseCode_clean e, serialiseCode_clean c⟩
    · obtain ⟨vec, hvec, rfl⟩ := Option.map_eq_some_iff.1 hd
      exact clean_threeOf hds clean_null clean_null clean_null hvec
  | .tuple ts, xs, h => by
    obtain ⟨cs, rfl, _, _⟩ := nodeOf_inv h
    intro x hx
    obtain rfl := List.mem_singleton.1 hx
    refine ⟨rfl, fun y hy d hd => ?_⟩
    obtain ⟨ds, rfl, _⟩ := hy.node_inv
    have hmap : (someOf (childTrees ds) (Lib.atoi (ts.length : Int).repr)).map
      SyntaxTree.productType = some d := hd
    obtain ⟨us, _, rfl⟩ := Option.map_eq_some_iff.1 hmap
    trivial
  | .blank, xs, h | .nil, xs, h | .ifExpr _ _ _, xs, h | .sequentialDefs _, xs, h => by
    cases h
    exact cleanNodes_nil
  | .typeSpec _ _, xs, h | .typeFunction _ _, xs, h | .functionDef _ _ _, xs, h => by
    cases h
    exact cleanNodes_nil
  | .parameterList _ _, xs, h | .productType _, xs, h | .sumType _, xs, h => by
    cases h
    exact cleanNodes_nil
  | .pointer _, xs, h | .bracket _, xs, h => by
    cases h
    exact cleanNodes_nil

/-- A clean tree of the grammar that is written without a crash is sendable. -/
theorem sendable_of_clean : (t : SyntaxTree) → t.Expr ∨ t.Args → t.Clean →
    (∃ xs, serialiseCode t = some xs) → t.Sendable
  | .identifier _ _, _, _, _ | .integer _, _, _, _ | .string _, _, _, _ => trivial
  | .operator op a b, ht, hc, ⟨xs, hxs⟩ => by
    obtain ⟨_, _, hp, _⟩ := nodeOf_inv hxs
    rcases ht with ht | ht
    · cases ht with
      | operator _ ha hb =>
        exact ⟨sendable_of_clean a (Or.inl ha) hc.1 (hp _ (by simp)),
          sendable_of_clean b (Or.inl hb) hc.2 (hp _ (by simp))⟩
    · cases ht
  | .index e i, ht, hc, ⟨xs, hxs⟩ => by
    obtain ⟨_, _, hp, _⟩ := nodeOf_inv hxs
    rcases ht with ht | ht
    · cases ht with
      | index he hi =>
        exact ⟨sendable_of_clean e (Or.inl he) hc.1 (hp _ (by simp)),
          sendable_of_clean i (Or.inl hi) hc.2 (hp _ (by simp))⟩
    · cases ht
  | .functionCall f args, ht, hc, ⟨xs, hxs⟩ => by
    obtain ⟨_, _, hp, _⟩ := nodeOf_inv hxs
    rcases ht with ht | ht
    · cases ht with
      | call hf =>
        obtain ⟨ys, hys⟩ := hp (serialiseCode .null) (by simp)
        cases hys
      | callArgs hf ha =>
        exact ⟨sendable_of_clean f (Or.inl hf) hc.1 (hp _ (by simp)),
          sendable_of_clean args (Or.inr ha) hc.2 (hp _ (by simp))⟩
    · cases ht
  | .argumentList a next, ht, hc, ⟨xs, hxs⟩ => by
    obtain ⟨_, _, hp, _⟩ := nodeOf_inv hxs
    rcases ht with ht | ht
    · cases ht
    · obtain ⟨_, _, he, ha, hn⟩ := args_inv ht
      cases he
      refine ⟨sendable_of_clean a (Or.inl ha) hc.1 (hp _ (by simp)), hn.imp_right fun hn => ?_⟩
      refine sendable_of_clean next (Or.inr hn) hc.2 (hp _ ?_)
      obtain ⟨_, _, rfl, _, _⟩ := args_inv hn
      simp [SyntaxTree.isNull]
  | .letExpr v e c, ht, hc, ⟨xs, hxs⟩ => by
    obtain ⟨_, _, hp, _⟩ := nodeOf_inv hxs
    rcases ht with ht | ht
    · cases ht with
      | letExpr s he hec =>
        exact ⟨trivial, sendable_of_clean e (Or.inl he) hc.2.1 (hp _ (by simp)),
          sendable_of_clean c (Or.inl hec) hc.2.2 (hp _ (by simp))⟩
    · cases ht
  | .blank, _, hc, _ | .nil, _, hc, _ | .tuple _, _, hc, _ | .ifExpr _ _ _, _, hc, _ => hc.elim
  | .null, ht, _, _ | .sequentialDefs _, ht, _, _ | .typeSpec _ _, ht, _, _ => by
    rcases ht with ht | ht <;> cases ht
  | .typeFunction _ _, ht, _, _ | .functionDef _ _ _, ht, _, _ => by
    rcases ht with ht | ht <;> cases ht
  | .parameterList _ _, ht, _, _ | .productType _, ht, _, _ | .sumType _, ht, _, _ => by
    rcases ht with ht | ht <;> cases ht
  | .pointer _, ht, _, _ | .bracket _, ht, _, _ => by
    rcases ht with ht | ht <;> cases ht

/-- Exactly the code without Nil, if-expressions, tuples and empty calls comes back. -/
theorem codeReturns_iff (t : SyntaxTree) (h : t.Expr) : t.CodeReturns ↔ t.Sendable := by
  constructor
  · rintro ⟨xs, hxs, hread⟩
    have hclean := serialiseCode_clean t xs hxs
    obtain ⟨ds, hcomp, hds⟩ := (Xml.reparsed_compact (.node "code" [] xs) rfl).node_inv
    have hback := hread _ (Xml.reparsed_compact (.node "code" [] xs) rfl)
    rw [hcomp] at hback
    have ht : t.Clean := clean_firstOf (cleanTrees_of_nodes hclean hds) clean_null hback
    exact sendable_of_clean t (Or.inl h) ht ⟨xs, hxs⟩
  · intro hs
    obtain ⟨x, hx, hn⟩ := serialiseCode_treeNode t (Or.inl h) hs
    refine ⟨[x], hx, fun y hy => ?_⟩
    obtain ⟨ds, rfl, hds⟩ := hy.node_inv
    exact firstOf_eq (snd_childTrees (.cons hn .nil) hds)

theorem codeReturns_sum :
    (SyntaxTree.operator "+" (.identifier "x" none) (.integer 1)).CodeReturns ↔
      (SyntaxTree.operator "+" (.identifier "x" none) (.integer 1)).Sendable :=
  codeReturns_iff _ (.operator "+" (.identifier "x") (.integer 1))

/-- A function that returns Nil comes back without a body. -/
theorem nil_lost : SyntaxTree.nil.Expr ∧ ¬ SyntaxTree.nil.CodeReturns := by
  refine ⟨.nil, fun h => ?_⟩
  obtain ⟨xs, hxs, hread⟩ := h
  cases hxs
  have hback := hread _ (Xml.reparsed_compact _ rfl)
  cases hback

end PyLinda
