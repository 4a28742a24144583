import PyLinda.Minimal.ParserTuple

/-!
# What the rules own

Each rule takes over the nodes that are the values of its right side, and its value owns what has
become of them. Three of the rules do so under a condition.
-/

namespace PyLinda.Parser

open Lib RefCount

section
variable {m : Memory} {vs us loose : List Addr} {a b c v : Addr} {n : Node} {x : Run Addr}

theorem Leaves.made (h : Leaves m x vs (fun t => [t]) loose) :
    Leaves m (Parser.made x) vs theNode loose := by
  intro r m' hx
  obtain ⟨t, m1, hx, hr⟩ := Eff.ok_of_andThen hx
  cases hr
  exact h t m' hx

/-- A new node that refers to nothing; what was there before is nobody's. -/
theorem leaf_leaves (hc : m.Coherent) (hleaf : n.refs = []) :
    Leaves m (newReference n) vs (fun t => [t]) [] := by
  have how : m.Owned n.refs := by
    rw [hleaf]
    exact Memory.owned_nil
  refine (newReference_leaves hc how).take fun v hv => ?_
  rw [hleaf] at hv
  cases hv

theorem Leaves.same (hc : m.Coherent) (how : m.Owned [a]) (ha : a ∈ vs) :
    Leaves m (pure (some a)) vs theNode loose :=
  .ret hc how fun w hw => by
    rw [List.mem_singleton.1 hw]
    exact ha

theorem addBranch_same (hc : m.Coherent) (how : m.Owned [a, b]) :
    Leaves m (do
      addBranch a b
      pure (some a)) [a, b] theNode [] :=
  (addBranch_leaves hc how).bind fun _ _ hf how1 => .same hf.coherent how1 List.mem_cons_self

theorem prependBranch_same (hc : m.Coherent) (how : m.Owned [a, b]) :
    Leaves m (do
      prependBranch b a
      pure (some b)) [a, b] theNode [] :=
  .perm (List.Perm.swap b a []) how fun how => (prependBranch_leaves hc how).bind
    fun _ _ hf how1 => .same hf.coherent how1 List.mem_cons_self

/-! ## Definitions -/

theorem inputAction_leaves (hc : m.Coherent) (how : m.Owned [a, b]) :
    Leaves m (inputAction (some a) (some b)) [a, b] theNode [] := by
  refine .read fun _ ha => ?_
  cases ha
  split
  · exact .drop hc how fun m1 hc1 how1 => .same hc1 how1 List.mem_cons_self
  · refine .read fun _ hb => ?_
    cases hb
    split
    · refine .perm (List.Perm.swap b a []) how fun how => ?_
      exact .drop hc how fun m1 hc1 how1 => .same hc1 how1 List.mem_cons_self
    · split
      · exact addBranch_same hc how
      · exact .made (createSequence2_leaves hc how fun branches hn => by simp_all)

/-! ## Types -/

theorem typespecId_leaves (hc : m.Coherent) (how : m.Owned [a]) :
    Leaves m (typespecId (some a)) [a] theNode [] := by
  refine .stringOf fun s _ => ?_
  split
  · exact .drop hc how fun m1 hc1 _ => .made (leaf_leaves hc1 rfl)
  · exact .same hc how List.mem_cons_self

/-- Two branches of a new node. -/
theorem pair_leaves (hn : n.refs = []) (hc : m.Coherent) (how : m.Owned [a, b]) :
    Leaves m (do
      let tree ← newReference n
      addBranch tree a
      addBranch tree b
      pure (some tree)) [a, b] theNode [] := by
  refine .leaf hn hc how fun t m1 hc1 how1 => ?_
  have hta : m1.Owned [t, a] := (Memory.owned_append.1 (show m1.Owned ([t, a] ++ [b]) from how1)).1
  exact .step [b] (addBranch_leaves hc1 hta) hc1 how1 fun _ m2 hc2 how2 => addBranch_same hc2 how2

theorem productAction_leaves (hc : m.Coherent) (how : m.Owned [a, b]) :
    Leaves m (productAction (some a) (some b)) [a, b] theNode [] := by
  refine .read fun _ ha => ?_
  cases ha
  split
  · exact addBranch_same hc how
  · refine .read fun _ hb => ?_
    cases hb
    split
    · exact prependBranch_same hc how
    · exact pair_leaves (n := .productType []) rfl hc how

/-- The operator is a token, so the second look finds no sum. -/
theorem sumAction_leaves (hc : m.Coherent) (how : m.Owned [a, b]) (hv : (m.node v).isToken = true) :
    Leaves m (sumAction (some a) (some v) (some b)) [a, b] theNode [] := by
  refine .read fun _ ha => ?_
  cases ha
  split
  · exact addBranch_same hc how
  · refine .read fun _ hp => ?_
    cases hp
    split
    · rename_i hn
      rw [hn] at hv
      cases hv
    · exact pair_leaves (n := .sumType []) rfl hc how

/-- Beside its other nodes an action had the operator, which is given up last. -/
theorem Leaves.then_drop {y : Run Ptr} (h : Leaves m y vs theNode []) (hc : m.Coherent)
    (how : m.Owned (vs ++ [v])) :
    Leaves m (do
      let r ← y
      delReference (some v)
      pure r) (vs ++ [v]) theNode [] := by
  refine .step [v] h hc how fun r m1 hc1 how1 => ?_
  refine .perm List.perm_append_comm how1 fun how1 => ?_
  exact .drop hc1 how1 fun m2 hc2 how2 => .ret hc2 how2 fun _ hw => hw

theorem typespecOperator_leaves (hc : m.Coherent) (how : m.Owned [a, v, b])
    (hv : (m.node v).isToken = true) :
    Leaves m (typespecOperator (some a) (some v) (some b)) [a, v, b] theNode [] := by
  refine .stringOf fun s _ => .perm ((List.Perm.swap b v []).cons a) how fun how => ?_
  have hab : m.Owned [a, b] := (Memory.owned_append.1 (show m.Owned ([a, b] ++ [v]) from how)).1
  split
  · exact (productAction_leaves hc hab).then_drop hc how
  · split
    · exact (sumAction_leaves hc hab hv).then_drop hc how
    · have hblank : Leaves m (made createBlank) [a, b] theNode [] := .made (leaf_leaves hc rfl)
      exact hblank.then_drop hc how

/-- A node that is given up is followed by the value. -/
theorem drop_same (hc : m.Coherent) (how : m.Owned [b, a]) :
    Leaves m (do
      delReference (some a)
      pure (some b)) [b, a] theNode [] :=
  .perm (List.Perm.swap a b []) how fun how =>
    .drop hc how fun _ hc1 how1 => .same hc1 how1 List.mem_cons_self

/-- The type is not made once or more. -/
theorem multiply_leaves {i : Int} (hn : n.refs = []) (hc : m.Coherent) (how : m.Owned [a, c])
    (hi : i ≤ 0) :
    Leaves m (multiply (newReference n) i (some a) (some c)) [a, c] theNode [] := by
  unfold multiply
  split
  · exact .drop hc how fun m1 hc1 how1 => .leaf hn hc1 how1 fun t m2 hc2 how2 => drop_same hc2 how2
  · rw [Int.toNat_of_nonpos hi]
    have hcown : m.Owned [c] := (Memory.owned_cons.1 how).2.1
    refine Leaves.take (.leaf hn hc hcown fun t m1 hc1 how1 => drop_same hc1 how1) fun x hx => ?_
    exact List.mem_cons_of_mem _ hx

theorem noOperator_leaves (hc : m.Coherent) (how : m.Owned [a, c]) :
    Leaves m (noOperator (some a) (some c)) [a, c] theNode [] := by
  refine .leaf (n := .blank) rfl hc how fun t m1 hc1 how1 => ?_
  refine .perm (List.Perm.swap a t [c]) how1 fun how1 => ?_
  exact .drop hc1 how1 fun m2 hc2 how2 => drop_same hc2 how2

/-- A type and this value, with this operator between them, neither share nodes nor give one up
twice. -/
def Node.Harmless (op value : Node) : Prop :=
  ∃ i, value = .integer i ∧ (i ≤ 0 ∨ op.text ≠ some "*" ∧ op.text ≠ some "+")

theorem typespecValue_leaves (hc : m.Coherent) (how : m.Owned [a, v, c])
    (hharmless : (m.node v).Harmless (m.node c)) :
    Leaves m (typespecValue (some a) (some v) (some c)) [a, v, c] theNode [] := by
  refine .read fun _ hp => ?_
  cases hp
  obtain ⟨i, hi, hop⟩ := hharmless
  rw [hi]
  refine .perm ((List.Perm.swap c v []).cons a) how fun how => ?_
  have hac : m.Owned [a, c] := (Memory.owned_append.1 (show m.Owned ([a, c] ++ [v]) from how)).1
  have htimes : Leaves m (timesInteger i (some a) (some v) (some c)) [a, c] theNode [] := by
    refine .stringOf fun s hs => ?_
    have hs : (m.node v).text = some s := hs v rfl
    split
    · rename_i hstar
      refine multiply_leaves (n := .productType []) rfl hc hac (hop.resolve_right fun hop => hop.1 ?_)
      rw [hs, hstar]
    · split
      · rename_i hplus
        refine multiply_leaves (n := .sumType []) rfl hc hac (hop.resolve_right fun hop => hop.2 ?_)
        rw [hs, hplus]
      · exact noOperator_leaves hc hac
  exact htimes.then_drop hc how

theorem noTypeFunction_leaves (hc : m.Coherent) (how : m.Owned [a]) :
    Leaves m (noTypeFunction (some a)) [a] (fun t => [t]) [] := by
  refine .leaf (n := .blank) rfl hc how fun t m1 hc1 how1 => ?_
  refine .perm (List.Perm.swap a t []) how1 fun how1 => ?_
  exact .drop hc1 how1 fun m2 hc2 how2 => .ret hc2 how2 fun _ hw => hw

theorem typespecPointer_leaves (hc : m.Coherent) (how : m.Owned [v, a]) :
    Leaves m (typespecPointer (some v) (some a)) [v, a] theNode [] := by
  refine .stringOf fun s _ => .perm (List.Perm.swap a v []) how fun how => ?_
  have ha : m.Owned [a] := (Memory.owned_cons.1 how).1
  split
  · exact .step [v] (createPointer_leaves hc ha) hc how fun t m1 hc1 how1 => drop_same hc1 how1
  · exact .step [v] (noTypeFunction_leaves hc ha) hc how fun t m1 hc1 how1 => drop_same hc1 how1

/-! ## Expressions -/

/-- `Nil` does not get past this rule. -/
theorem valueId_leaves (hc : m.Coherent) (how : m.Owned [a]) :
    Leaves m (valueId (some a)) [a] theNode [] := by
  refine .stringOf fun s _ => ?_
  split
  · exact .raise _
  · exact .same hc how List.mem_cons_self

theorem parameterListId_leaves (hc : m.Coherent) (how : m.Owned [a, b]) :
    Leaves m (parameterListId (some a) (some b)) [a, b] theNode [] := by
  refine .read fun _ hp => ?_
  cases hp
  split
  · refine .perm (List.Perm.swap b a []) how fun how => ?_
    have hb : m.Owned [b] := (Memory.owned_cons.1 how).1
    exact .step [a] (createParameterList1_leaves hc hb) hc how fun t m1 hc1 how1 => drop_same hc1 how1
  · exact .made (createParameterList2_leaves hc how)

/-! ## Values that the lexer did not assign -/

variable (m us) in
/-- A token that is in none of the nodes. -/
structure Memory.Apart (a : Addr) : Prop where
  lt : a < m.next
  token : (m.node a).isToken = true
  apart : ¬ m.Under us a

theorem Memory.Apart.framed {m' : Memory} (h : m.Apart vs a) (hf : Framed m m' vs us loose) :
    m'.Apart us a where
  lt := Nat.lt_of_lt_of_le h.lt hf.next
  token := (hf.token a h.lt).trans h.token
  apart hu := (hf.inside a hu).elim h.apart (Nat.not_le_of_lt h.lt)

theorem delReferences_leaves {ps : List Ptr} (hc : m.Coherent) (how : m.Owned us)
    (hapart : ∀ p ∈ ps, ∀ a, p = some a → a ∈ loose ∧ m.Apart us a) :
    Leaves m (delReferences ps) us (fun _ => us) loose := by
  induction ps generalizing m with
  | nil => exact .ret hc how fun _ hw => hw
  | cons p ps ih =>
    cases p with
    | none => exact .raise _
    | some a =>
      obtain ⟨ha, hap⟩ := hapart (some a) List.mem_cons_self a rfl
      refine ((delReference_loose hc how hap.token hap.apart).loosen fun b hb => ?_).bind ?_
      · rw [List.mem_singleton.1 hb]
        exact ha
      · intro _ m1 hf how1
        refine ih hf.coherent how1 fun p hp b hb => ?_
        obtain ⟨hb, hbp⟩ := hapart p (List.mem_cons_of_mem _ hp) b hb
        exact ⟨hb, hbp.framed hf⟩

theorem tuple2More_leaves {p : Ptr} (hc : m.Coherent) (how : m.Owned [a, b])
    (hapart : ∀ x, p = some x → m.Apart [a, b] x) :
    Leaves m (tuple2More (some a) p (some b)) [a, b] theNode p.toList := by
  refine ((addToTuple_leaves hc how).loosen fun x hx => absurd hx List.not_mem_nil).bind ?_
  intro _ m1 hf how1
  cases p with
  | none => exact .raise _
  | some x =>
    have hx := (hapart x rfl).framed hf
    exact (delReference_loose hf.coherent how1 hx.token hx.apart).bind fun _ m2 hf2 how2 =>
      .same hf2.coherent how2 List.mem_cons_self

theorem ifExprAction_leaves {p1 p3 p5 p7 : Ptr} (hc : m.Coherent) (how : m.Owned [a, b, c])
    (hapart : ∀ p ∈ [p1, p3, p5, p7], ∀ x, p = some x → x ∈ loose ∧ m.Apart [a, b, c] x) :
    Leaves m (ifExprAction p1 (some a) p3 (some b) p5 (some c) p7) [a, b, c] theNode loose := by
  refine ((newReference_leaves (n := .ifExpr a b c) hc how).loosen fun x hx => by cases hx).bind ?_
  intro t m1 hf how1
  refine Leaves.bind (delReferences_leaves hf.coherent how1 fun p hp x hx => ?_) ?_
  · exact ⟨(hapart p hp x hx).1, (hapart p hp x hx).2.framed hf⟩
  · exact fun _ m2 hf2 how2 => .same hf2.coherent how2 List.mem_cons_self

end

end PyLinda.Parser
