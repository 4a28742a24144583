import PyLinda.Minimal.ParserOwns

/-!
# What the actions own

A program takes over the nodes that it is given, and what it returns owns what has become of them.
-/

namespace PyLinda.Parser

open Lib RefCount

section
variable {m m' m1 : Memory} {vs us loose : List Addr} {a b v w : Addr} {n : Node} {p : Ptr}
  {α β : Type} {x : Run α} {f : α → Run β} {ws : α → List Addr} {xs : β → List Addr}

/-! ## Looking -/

/-- The `string` of a token that has one. -/
def Node.text : Node → Option String
  | .identifier s | .string s => some s
  | _ => none

theorem read_inv (h : read p m = (.ok n, m')) : ∃ a, p = some a ∧ m.node a = n ∧ m' = m := by
  obtain ⟨hn, rfl⟩ := Prod.mk.inj h
  cases p with
  | none => cases hn
  | some a =>
    refine ⟨a, rfl, ?_, rfl⟩
    unfold Memory.read at hn
    simp only at hn
    split at hn
    · exact Except.ok.inj hn
    · cases hn

theorem stringOf_inv {s : String} (h : stringOf p m = (.ok s, m')) :
    (∀ a, p = some a → (m.node a).text = some s) ∧ m' = m := by
  obtain ⟨n, m1, hr, h⟩ := Eff.ok_of_andThen h
  obtain ⟨a, rfl, hn, rfl⟩ := read_inv hr
  cases n with
  | identifier t | string t =>
    cases h
    refine ⟨fun b hb => ?_, rfl⟩
    cases hb
    exact congrArg Node.text hn
  | _ => cases h

/-! ## Programs that return -/

/-- Where the program returns, it has made of the nodes `vs` those of what it returns. -/
def Leaves (m : Memory) (x : Run α) (vs : List Addr) (ws : α → List Addr) (loose : List Addr) : Prop :=
  ∀ r m', x m = (.ok r, m') → m'.Owned (ws r) ∧ Framed m m' vs (ws r) loose

/-- The node that an action returns. Nobody owns what is never there. -/
def theNode (p : Ptr) : List Addr := [p.getD Node.nowhere]

theorem Memory.Owned.node {p : Ptr} (hc : m.Coherent) (h : m.Owned (theNode p)) : ∃ a, p = some a := by
  cases p with
  | some a => exact ⟨a, rfl⟩
  | none =>
    have hsole : m.Sole Node.nowhere := h.sole (.of_mem List.mem_cons_self)
    exact absurd rfl (hsole.ne_nowhere hc)

theorem Leaves.ret {r : α} (hc : m.Coherent) (how : m.Owned (ws r)) (hsub : ∀ w ∈ ws r, w ∈ vs) :
    Leaves m (pure r) vs ws loose := by
  intro r' m' h
  cases h
  exact ⟨how, .refl hc hsub⟩

theorem Leaves.raise (e : Stop) : Leaves m (Eff.raise e) vs ws loose := by
  intro r m' h
  cases h

theorem Leaves.bind (h : Leaves m x vs ws loose)
    (hf : ∀ r m1, Framed m m1 vs (ws r) loose → m1.Owned (ws r) → Leaves m1 (f r) (ws r) xs loose) :
    Leaves m (x >>= f) vs xs loose := by
  intro r m' hx
  obtain ⟨r1, m1, hx, hr⟩ := Eff.ok_of_andThen hx
  obtain ⟨how1, hframed⟩ := h r1 m1 hx
  obtain ⟨how, hframed'⟩ := hf r1 m1 hframed how1 r m' hr
  exact ⟨how, hframed.trans hframed'⟩

theorem Leaves.read {f : Node → Run β} (h : ∀ a, p = some a → Leaves m (f (m.node a)) vs xs loose) :
    Leaves m (Parser.read p >>= f) vs xs loose := by
  intro r m' hx
  obtain ⟨n, m1, hx, hr⟩ := Eff.ok_of_andThen hx
  obtain ⟨a, hp, rfl, rfl⟩ := read_inv hx
  exact h a hp r m' hr

theorem Leaves.stringOf {f : String → Run β}
    (h : ∀ s, (∀ a, p = some a → (m.node a).text = some s) → Leaves m (f s) vs xs loose) :
    Leaves m (Parser.stringOf p >>= f) vs xs loose := by
  intro r m' hx
  obtain ⟨s, m1, hx, hr⟩ := Eff.ok_of_andThen hx
  obtain ⟨hs, rfl⟩ := stringOf_inv hx
  exact h s hs r m' hr

theorem Leaves.look {g : Memory → Except Stop α} (h : ∀ r, Leaves m (f r) vs xs loose) :
    Leaves m (Eff.look g >>= f) vs xs loose := by
  intro r m' hx
  obtain ⟨r1, m1, hx, hr⟩ := Eff.ok_of_andThen hx
  obtain ⟨-, rfl⟩ := Prod.mk.inj hx
  exact h r1 r m' hr

theorem Leaves.loosen {loose' : List Addr} (h : Leaves m x vs ws loose)
    (hsub : ∀ a ∈ loose, a ∈ loose') : Leaves m x vs ws loose' := fun r m' hx =>
  ⟨(h r m' hx).1, (h r m' hx).2.loosen hsub⟩

/-- More nodes are taken over, and in another order. -/
theorem Leaves.take (h : Leaves m x vs ws loose) (hsub : ∀ v ∈ vs, v ∈ us) :
    Leaves m x us ws loose := fun r m' hx =>
  ⟨(h r m' hx).1, (h r m' hx).2.weaken hsub fun _ hw => hw⟩

/-- Beside nodes that are not used. -/
theorem Leaves.beside (h : Leaves m x vs ws []) (hc : m.Coherent) (how : m.Owned (vs ++ us)) :
    Leaves m x (vs ++ us) (fun r => ws r ++ us) [] := fun r m' hx =>
  (h r m' hx).2.beside hc how (h r m' hx).1 fun _ ha => absurd ha List.not_mem_nil

/-! ## Steps of programs -/

theorem newReference_leaves (hc : m.Coherent) (how : m.Owned n.refs) :
    Leaves m (newReference n) n.refs (fun t => [t]) [] := by
  intro t m' h
  cases h
  exact how.alloc hc

theorem delReference_leaves (hc : m.Coherent) (how : m.Owned [v]) :
    Leaves m (delReference (some v)) [v] (fun _ => []) [] := fun _ _ h =>
  ⟨Memory.owned_nil, (how.drop hc h).2⟩

/-- A node is put into one of those below `w`. -/
theorem write_leaves (hc : m.Coherent) (how : m.Owned [w, v]) (hb : m.Under [w] b)
    (hrefs : n.refs.Perm (v :: m.refs b)) (htoken : n.isToken = (m.node b).isToken) :
    Leaves m (write b n) [w, v] (fun _ => [w]) [] := by
  intro r m' h
  have hsole : m.Sole b := how.sole (hb.mono fun x hx => by
    rw [List.mem_singleton.1 hx]
    exact List.mem_cons_self)
  rw [write_sole hsole] at h
  cases h
  exact Memory.Owned.put (v := v) hc how hb hrefs htoken

/-- A token that nobody owns loses a reference. -/
theorem delReference_loose (hc : m.Coherent) (how : m.Owned us) (htoken : (m.node a).isToken = true)
    (hapart : ¬ m.Under us a) : Leaves m (delReference (some a)) us (fun _ => us) [a] := by
  intro r m' h
  have hf : Framed m m' [] [] [a] := (Framed.drop_leaf hc (Node.leaf_of_token htoken) h).2
  have hf' : Framed m m' us us [a] := (Framed.drop_leaf hc (Node.leaf_of_token htoken) h).2
  refine ⟨(hf.rest hc how (fun x hx => ?_) fun x hx => ?_).1, hf'⟩
  · obtain ⟨v, hv, _⟩ := hx
    cases hv
  · rw [List.mem_singleton.1 hx]
    exact hapart

/-- The nodes are taken in another order. -/
theorem Leaves.perm (hp : vs.Perm us) (how : m.Owned vs) (h : m.Owned us → Leaves m x us ws loose) :
    Leaves m x vs ws loose :=
  (h (how.perm hp)).take fun _ hu => hp.mem_iff.2 hu

/-- First a program that uses some of the nodes. -/
theorem Leaves.step (us : List Addr) (h : Leaves m x vs ws []) (hc : m.Coherent) (how : m.Owned (vs ++ us))
    (hf : ∀ r m1, m1.Coherent → m1.Owned (ws r ++ us) → Leaves m1 (f r) (ws r ++ us) xs []) :
    Leaves m (x >>= f) (vs ++ us) xs [] :=
  (h.beside hc how).bind fun r m1 hframed how1 => hf r m1 hframed.coherent how1

theorem Leaves.new {f : Addr → Run β} (hc : m.Coherent) (how : m.Owned (n.refs ++ us))
    (hf : ∀ t m1, m1.Coherent → m1.Owned (t :: us) → Leaves m1 (f t) (t :: us) xs []) :
    Leaves m (newReference n >>= f) (n.refs ++ us) xs [] :=
  .step us (newReference_leaves hc (Memory.owned_append.1 how).1) hc how hf

/-- First a new node that refers to nothing. -/
theorem Leaves.leaf {f : Addr → Run β} (hn : n.refs = []) (hc : m.Coherent)
    (how : m.Owned us)
    (hf : ∀ t m1, m1.Coherent → m1.Owned (t :: us) → Leaves m1 (f t) (t :: us) xs []) :
    Leaves m (newReference n >>= f) us xs [] := by
  have hnew : Leaves m (newReference n >>= f) (n.refs ++ us) xs [] := by
    refine .new hc ?_ hf
    rw [hn]
    exact how
  rw [hn] at hnew
  exact hnew

theorem Leaves.drop {f : Run β} (hc : m.Coherent) (how : m.Owned (v :: us))
    (hf : ∀ m1, m1.Coherent → m1.Owned us → Leaves m1 f us xs []) :
    Leaves m (delReference (some v) >>= fun _ => f) (v :: us) xs [] :=
  .step us (delReference_leaves hc (Memory.owned_cons.1 how).1) hc how fun _ m1 => hf m1

/-! ## `syntax_tree.c` -/

/-- A node is made of some nodes, and the one its name came from is given up. -/
theorem named_leaves (hc : m.Coherent) (how : m.Owned (n.refs ++ [v])) :
    Leaves m (do
      let tree ← newReference n
      delReference (some v)
      pure tree) (n.refs ++ [v]) (fun t => [t]) [] := by
  refine .new hc how fun t m1 hc1 how1 => ?_
  refine .perm (List.Perm.swap v t []) how1 fun how1 => ?_
  exact .drop hc1 how1 fun m2 hc2 how2 => .ret hc2 how2 fun w hw => hw

theorem createTypeSpec_leaves (hc : m.Coherent) (how : m.Owned [v, a]) :
    Leaves m (createTypeSpec (some v) (some a)) [v, a] (fun t => [t]) [] := by
  refine .stringOf fun s _ => ?_
  refine .perm (List.Perm.swap a v []) how fun how => ?_
  exact named_leaves (n := .typeSpec s a) hc how

theorem createOperator_leaves (hc : m.Coherent) (how : m.Owned [a, v, b]) :
    Leaves m (createOperator (some v) (some a) (some b)) [a, v, b] (fun t => [t]) [] := by
  refine .read fun _ hv => ?_
  cases hv
  cases m.node v with
  | identifier s =>
    refine .perm ((List.Perm.swap b v []).cons a) how fun how => ?_
    exact named_leaves (n := .operator s a b) hc how
  | _ => exact .raise _

theorem createFunctionDef_leaves (hc : m.Coherent) (how : m.Owned [v, a, b]) :
    Leaves m (createFunctionDef (some v) (some a) (some b)) [v, a, b] (fun t => [t]) [] := by
  refine .stringOf fun s _ => ?_
  refine .perm (List.perm_append_comm : ([v] ++ [a, b]).Perm ([a, b] ++ [v])) how fun how => ?_
  exact named_leaves (n := .functionDef s a b) hc how

theorem createPointer_leaves (hc : m.Coherent) (how : m.Owned [v]) :
    Leaves m (createPointer (some v)) [v] (fun t => [t]) [] :=
  .stringOf fun s _ => named_leaves (n := .pointer s) hc how

/-- `addToSequence`, `addToProductType` and `addToSumType`. -/
theorem addBranch_leaves (hc : m.Coherent) (how : m.Owned [w, v]) :
    Leaves m (addBranch w v) [w, v] (fun _ => [w]) [] := by
  refine .read fun _ hw => ?_
  cases hw
  cases hn : m.node w with
  | sequentialDefs branches | productType branches | sumType branches =>
    refine write_leaves hc how (.of_mem List.mem_cons_self) ?_ (by rw [hn]; rfl)
    rw [Memory.refs, hn]
    exact (List.perm_append_comm : (branches ++ [v]).Perm ([v] ++ branches))
  | _ => exact .raise _

theorem prependBranch_leaves (hc : m.Coherent) (how : m.Owned [w, v]) :
    Leaves m (prependBranch w v) [w, v] (fun _ => [w]) [] := by
  refine .read fun _ hw => ?_
  cases hw
  cases hn : m.node w with
  | sequentialDefs branches | productType branches | sumType branches =>
    refine write_leaves hc how (.of_mem List.mem_cons_self) ?_ (by rw [hn]; rfl)
    rw [Memory.refs, hn]
    exact .refl _
  | _ => exact .raise _

/-- Where the first node is no sequence. -/
theorem createSequence2_leaves (hc : m.Coherent) (how : m.Owned [a, b])
    (hfirst : ∀ branches, m.node a ≠ .sequentialDefs branches) :
    Leaves m (createSequence2 (some a) (some b)) [a, b] (fun t => [t]) [] := by
  refine .read fun _ ha => .read fun _ hb => ?_
  cases ha
  cases hb
  split
  · exact absurd ‹_› (hfirst _)
  · exact absurd ‹_› (hfirst _)
  · refine .perm (List.Perm.swap b a []) how fun how => ?_
    exact (prependBranch_leaves hc how).bind fun _ m1 hf how1 => .ret hf.coherent how1 fun _ hw => hw
  · exact newReference_leaves (n := .sequentialDefs [a, b]) hc how

theorem addToTuple_leaves (hc : m.Coherent) (how : m.Owned [w, v]) :
    Leaves m (addToTuple w v) [w, v] (fun _ => [w]) [] := by
  refine .read fun _ hw => ?_
  cases hw
  cases hn : m.node w with
  | productType values | tuple values =>
    refine write_leaves hc how (.of_mem List.mem_cons_self) ?_ (by rw [hn]; rfl)
    rw [Memory.refs, hn]
    exact (List.perm_append_comm : (values ++ [v]).Perm ([v] ++ values))
  | _ =>
    exact .ret hc (Memory.owned_cons.1 how).1 fun x hx => by
      rw [List.mem_singleton.1 hx]
      exact List.mem_cons_self

/-! ## Lists -/

theorem createArgumentList1_leaves (hc : m.Coherent) (how : m.Owned [a]) :
    Leaves m (createArgumentList1 (some a)) [a] (fun t => [t]) [] := by
  refine .read fun _ ha => ?_
  cases ha
  cases m.node a with
  | argumentList argument next => exact .ret hc how fun _ hw => hw
  | _ => exact newReference_leaves (n := .argumentList a none) hc how

/-- The last list is found below the first one. -/
theorem setNextArg_leaves {loops : Nat} (hc : m.Coherent) (how : m.Owned [w, v]) (hb : m.Under [w] b) :
    Leaves m (setNextArg v loops b) [w, v] (fun _ => [w]) [] := by
  induction loops generalizing b with
  | zero => exact .raise _
  | succ loops ih =>
    refine .read fun _ hp => ?_
    cases hp
    cases hn : m.node b with
    | argumentList argument next =>
      cases next with
      | none =>
        refine write_leaves hc how hb ?_ (by rw [hn]; rfl)
        rw [Memory.refs, hn]
        exact List.Perm.swap v argument []
      | some next =>
        refine ih ?_
        obtain ⟨x, hx, hl⟩ := hb
        refine ⟨x, hx, hl.tail ?_⟩
        rw [Memory.refs, hn]
        exact List.mem_cons_of_mem _ List.mem_cons_self
    | _ => exact .raise _

theorem createArgumentList2_leaves (hc : m.Coherent) (how : m.Owned [a, b]) :
    Leaves m (createArgumentList2 (some a) (some b)) [a, b] (fun t => [t]) [] := by
  refine .step [b] (createArgumentList1_leaves hc (Memory.owned_cons.1 how).1) hc how ?_
  intro a1 m1 hc1 how1
  refine .perm (List.Perm.swap b a1 []) how1 fun how1 => ?_
  refine .step [a1] (createArgumentList1_leaves hc1 (Memory.owned_cons.1 how1).1) hc1 how1 ?_
  intro a2 m2 hc2 how2
  refine .look fun loops => ?_
  refine .perm (List.Perm.swap a1 a2 []) how2 fun how2 => ?_
  exact (setNextArg_leaves hc2 how2 (.of_mem List.mem_cons_self)).bind
    fun _ m3 hf how3 => .ret hf.coherent how3 fun _ hw => hw

/-- A name that is made a parameter list is nobody's. -/
theorem createParameterList1_leaves (hc : m.Coherent) (how : m.Owned [a]) :
    Leaves m (createParameterList1 (some a)) [a] (fun t => [t]) [] := by
  refine .read fun _ ha => ?_
  cases ha
  cases m.node a with
  | parameterList varName nextVar => exact .ret hc how fun _ hw => hw
  | _ =>
    refine .stringOf fun s _ => ?_
    exact (newReference_leaves (n := .parameterList s none) hc Memory.owned_nil).take fun v hv => by
      cases hv

theorem setNextVar_leaves {loops : Nat} (hc : m.Coherent) (how : m.Owned [w, v]) (hb : m.Under [w] b) :
    Leaves m (setNextVar v loops b) [w, v] (fun _ => [w]) [] := by
  induction loops generalizing b with
  | zero => exact .raise _
  | succ loops ih =>
    refine .read fun _ hp => ?_
    cases hp
    cases hn : m.node b with
    | parameterList varName nextVar =>
      cases nextVar with
      | none =>
        refine write_leaves hc how hb ?_ (by rw [hn]; rfl)
        rw [Memory.refs, hn]
        exact .refl _
      | some next =>
        refine ih ?_
        obtain ⟨x, hx, hl⟩ := hb
        refine ⟨x, hx, hl.tail ?_⟩
        rw [Memory.refs, hn]
        exact List.mem_cons_self
    | _ => exact .raise _

/-- The second parameter list is put behind the first. -/
theorem appendVar_leaves {loops : Nat} (hc : m.Coherent) (how : m.Owned [w, v]) :
    Leaves m (do
      setNextVar v loops w
      pure w) [w, v] (fun t => [t]) [] :=
  (setNextVar_leaves hc how (.of_mem List.mem_cons_self)).bind
    fun _ m1 hf how1 => .ret hf.coherent how1 fun _ hw => hw

theorem createParameterList2_leaves (hc : m.Coherent) (how : m.Owned [a, b]) :
    Leaves m (createParameterList2 (some a) (some b)) [a, b] (fun t => [t]) [] := by
  have hb : m.Owned [b] := (Memory.owned_cons.1 how).2.1
  have ha : m.Owned [a] := (Memory.owned_cons.1 how).1
  refine .read fun _ hp => .read fun _ hq => .look fun loops => ?_
  cases hp
  cases hq
  split
  · exact appendVar_leaves hc how
  · refine .perm (List.Perm.swap b a []) how fun how => ?_
    refine .step [a] (createParameterList1_leaves hc hb) hc how fun b1 m1 hc1 how1 => ?_
    refine .perm (List.Perm.swap a b1 []) how1 fun how1 => ?_
    exact appendVar_leaves hc1 how1
  · refine .step [b] (createParameterList1_leaves hc ha) hc how fun a1 m1 hc1 how1 => ?_
    refine .perm (List.Perm.swap b a1 []) how1 fun how1 => ?_
    exact appendVar_leaves hc1 how1
  · refine .step [b] (createParameterList1_leaves hc ha) hc how fun a1 m1 hc1 how1 => ?_
    refine .perm (List.Perm.swap b a1 []) how1 fun how1 => ?_
    refine .step [a1] (createParameterList1_leaves hc1 (Memory.owned_cons.1 how1).1) hc1 how1 ?_
    intro b1 m2 hc2 how2
    refine .perm (List.Perm.swap a1 b1 []) how2 fun how2 => ?_
    exact appendVar_leaves hc2 how2

end

end PyLinda.Parser
