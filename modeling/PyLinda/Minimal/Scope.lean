import PyLinda.Lib.TwoRuns
import PyLinda.Minimal.EvaluateSafe
import PyLinda.Minimal.TreeOrder

/-!
# Scopes

What an evaluation may change, and what its result depends on: not on the layer of the caller,
only on the layer a function was defined in and on the layers around that.
-/

namespace PyLinda

namespace SyntaxTree

/-- The node binds a name in the layer it is evaluated in. -/
def defines : SyntaxTree → Bool
  | typeSpec _ _ | functionDef _ _ _ => true
  | _ => false

/-- There are no definitions in the tree. -/
inductive Plain : SyntaxTree → Prop
  | node (t : SyntaxTree) : t.defines = false → (∀ k ∈ t.kids, Plain k) → Plain t

theorem Plain.kid {t k : SyntaxTree} (h : t.Plain) (hk : k ∈ t.kids) : k.Plain := by
  cases h with
  | node _ _ hkids => exact hkids k hk

theorem Plain.free {t : SyntaxTree} (h : t.Plain) : t.defines = false := by
  cases h with
  | node _ hfree _ => exact hfree

end SyntaxTree

namespace Evaluate

open Lib

/-! ## What changes -/

/-- Of the first `n` layers none has changed, and none has gone. -/
def Frame (n : Nat) (s s' : State) : Prop :=
  n ≤ s.count → s.count ≤ s'.count ∧ ∀ k < n, s'.layers k = s.layers k

section
variable {n : Nat}

theorem Frame.refl (s : State) : Frame n s s := fun _ => ⟨Nat.le_refl _, fun _ _ => rfl⟩

theorem Frame.trans (a b c : State) (hab : Frame n a b) (hbc : Frame n b c) : Frame n a c := by
  intro hn
  obtain ⟨hle, hsame⟩ := hab hn
  obtain ⟨hle', hsame'⟩ := hbc (by omega)
  exact ⟨by omega, fun k hk => (hsame' k hk).trans (hsame k hk)⟩

/-- The tree does not define a name, or the layer is not one of the first `n`. -/
def Free (n : Nat) (t : SyntaxTree) (layer : Nat) : Prop := t.Plain ∨ n ≤ layer

theorem Free.kid {t k : SyntaxTree} {layer : Nat} (h : Free n t layer) (hk : k ∈ t.kids) :
    Free n k layer := by
  cases h with
  | inl h => exact .inl (h.kid hk)
  | inr h => exact .inr h

/-- A state with one more layer. -/
def State.push (s : State) (parent : Nat) : State :=
  { s with
    layers := fun l => if l = s.count then ⟨some parent, NameMap.init⟩ else s.layers l
    count := s.count + 1 }

theorem createLayer2_run {α : Type} (parent : Nat) (f : Nat → Run α) (s : State) :
    (createLayer2 parent >>= f) s = f s.count (s.push parent) := rfl

theorem State.push_frame (s : State) (parent : Nat) (hn : n ≤ s.count) :
    Frame n s (s.push parent) := by
  refine fun _ => ⟨Nat.le_succ _, fun k hk => ?_⟩
  have hne : ¬ k = s.count := by omega
  exact if_neg hne

theorem State.setMap_other (s : State) {layer k : Nat} (map : NameMap Value) (h : k ≠ layer) :
    (s.setMap layer map).layers k = s.layers k := if_neg h

/-- The argument and the rest of a list are parts of it. -/
theorem argumentOf_kids {args : SyntaxTree} {r : SyntaxTree × SyntaxTree}
    (hr : argumentOf args = .ok r) : r.1 ∈ args.kids ∧ r.2 ∈ args.kids := by
  cases args <;> first
    | cases hr
      exact ⟨List.mem_cons_self, List.mem_cons_of_mem _ List.mem_cons_self⟩
    | cases hr

theorem branchAt_mem {branches : List SyntaxTree} {i : Nat} {t : SyntaxTree}
    (h : branchAt branches i = .ok t) : t ∈ branches := by
  unfold branchAt at h
  cases hi : branches[i]? with
  | none =>
    rw [hi] at h
    cases h
  | some u =>
    rw [hi] at h
    cases h
    exact List.mem_of_getElem? hi

variable {p : Platform}

/-- The program leaves the first `n` layers as they are. -/
abbrev Leaves (n : Nat) {α : Type} (x : Run α) : Prop := Eff.Keeps (Frame n) x

theorem Leaves.ret {α : Type} (a : α) : Leaves n (pure a : Run α) :=
  Eff.Keeps.ret Frame.refl a

theorem Leaves.look {α : Type} (f : State → Except Stop α) : Leaves n (Eff.look f) :=
  Eff.Keeps.look Frame.refl f

theorem Leaves.step {α : Type} (t : Step) (x : Except Stop α) : Leaves n (step t x) :=
  fun _ _ => ⟨Nat.le_refl _, fun _ _ => rfl⟩

theorem Leaves.andThen {α β : Type} {x : Run α} {f : α → Run β} (hx : Leaves n x)
    (hf : ∀ a, Leaves n (f a)) : Leaves n (x >>= f) := Eff.Keeps.andThen Frame.trans hx hf

theorem Leaves.stepThen {α β : Type} {t : Step} {x : Except Stop α} {f : α → Run β}
    (hf : ∀ a, x = .ok a → Leaves n (f a)) : Leaves n (Evaluate.step t x >>= f) := by
  intro s
  cases x with
  | error e => exact fun _ => ⟨Nat.le_refl _, fun _ _ => rfl⟩
  | ok a => exact hf a rfl (s.note t)

theorem Leaves.create {α : Type} {parent : Nat} {f : Nat → Run α}
    (hf : ∀ q, n ≤ q → Leaves n (f q)) : Leaves n (createLayer2 parent >>= f) := by
  intro s hn
  rw [createLayer2_run]
  exact Frame.trans _ _ _ (s.push_frame parent hn) (hf s.count hn _) hn

theorem addName_leaves {layer : Nat} (h : n ≤ layer) (name : String) (value : Value) :
    Leaves n (addName p layer name value) := by
  refine .andThen (.look _) fun map => .andThen (.step _ _) fun m => ?_
  refine fun s _ => ⟨Nat.le_refl _, fun k hk => ?_⟩
  exact s.setMap_other m (by omega)

theorem getName_leaves (depth layer : Nat) (name : String) :
    Leaves n (getName p depth layer name) := .look _

theorem addTree_leaves {layer : Nat} (h : n ≤ layer) (depth : Nat) (tree : SyntaxTree) :
    Leaves n (addTree p depth layer tree) := by
  unfold addTree
  split
  · exact addName_leaves h _ _
  · refine .andThen (getName_leaves depth layer _) fun typespec => ?_
    refine .andThen (.step _ _) fun _ => .andThen (.step _ _) fun _ => ?_
    exact addName_leaves h _ _
  · exact .ret ()

section
variable {eval : SyntaxTree → Nat → Run Value}
  (heval : ∀ t layer, Free n t layer → Leaves n (eval t layer))
include heval

theorem evaluateAll_leaves {layer : Nat} {ts : List SyntaxTree}
    (h : ∀ t ∈ ts, Free n t layer) : Leaves n (evaluateAll eval layer ts) := by
  induction ts with
  | nil => exact .ret ()
  | cons t ts ih =>
    have hts := ih fun u hu => h u (List.mem_cons_of_mem t hu)
    exact .andThen (heval t layer (h t List.mem_cons_self)) fun _ => hts

theorem evaluateElements_leaves {layer : Nat} {ts : List SyntaxTree}
    (h : ∀ t ∈ ts, Free n t layer) : Leaves n (evaluateElements eval layer ts) := by
  induction ts with
  | nil => exact .ret []
  | cons t ts ih =>
    have hts := ih fun u hu => h u (List.mem_cons_of_mem t hu)
    exact .andThen (heval t layer (h t List.mem_cons_self)) fun v =>
      .andThen hts fun vs => .ret (v :: vs)

theorem bindArguments_leaves {layer newLayer : Nat} {args param : SyntaxTree}
    (h : Free n args layer) (hnew : n ≤ newLayer) :
    Leaves n (bindArguments p eval layer newLayer args param) := by
  induction args, param using bindArguments.induct with
  | case1 => exact .ret true
  | case2 => exact .ret true
  | case3 argument nextArg param ih =>
    unfold bindArguments
    refine .andThen (heval argument layer (h.kid List.mem_cons_self)) fun v => ?_
    by_cases hparam : param.isNull = true
    · rw [if_pos hparam]
      exact .ret false
    · rw [if_neg hparam]
      by_cases hv : v.isNull = true
      · rw [if_pos hv]
        exact .ret false
      · rw [if_neg hv]
        refine .andThen (.step _ _) fun r => .andThen (addName_leaves hnew r.1 v) fun _ => ?_
        exact ih r.2 (h.kid (List.mem_cons_of_mem _ List.mem_cons_self))
  | case4 arg param hnull hblank hlist =>
    rw [bindArguments.eq_4 p eval layer newLayer arg param hnull hblank hlist]
    exact .andThen (.step _ _) fun _ => .ret true

theorem callBuiltIn_leaves {layer : Nat} {arguments : SyntaxTree} (h : Free n arguments layer)
    (argCount func : Nat) : Leaves n (callBuiltIn p eval layer argCount func arguments) := by
  unfold callBuiltIn
  by_cases h0 : argCount = 0
  · rw [if_pos h0]
    exact .ret _
  rw [if_neg h0]
  by_cases h1 : argCount = 1
  · rw [if_pos h1]
    refine .stepThen fun r hr => ?_
    exact .andThen (heval r.1 layer (h.kid (argumentOf_kids hr).1)) fun v => .step _ _
  rw [if_neg h1]
  by_cases h2 : argCount = 2
  · rw [if_pos h2]
    refine .stepThen fun r hr => ?_
    have hnext := h.kid (argumentOf_kids hr).2
    refine .andThen (heval r.1 layer (h.kid (argumentOf_kids hr).1)) fun v => ?_
    refine .stepThen fun r' hr' => ?_
    exact .andThen (heval r'.1 layer (hnext.kid (argumentOf_kids hr').1)) fun w => .step _ _
  · rw [if_neg h2]
    exact .ret _

theorem callFunction_leaves {layer : Nat} {arguments : SyntaxTree} (h : Free n arguments layer)
    (function : Value) : Leaves n (callFunction p eval layer function arguments) := by
  unfold callFunction
  split
  · exact .ret _
  · exact callBuiltIn_leaves heval h _ _
  · rename_i parameterList code funcLayer
    refine .create fun q hq => ?_
    by_cases hnull : parameterList.isNull = true
    · rw [if_pos hnull]
      exact .ret _
    · rw [if_neg hnull]
      refine .andThen (bindArguments_leaves heval h hq) fun bound => ?_
      by_cases hb : bound = true
      · rw [if_pos hb]
        exact heval code q (.inr hq)
      · rw [if_neg hb]
        exact .ret _
  · exact .ret _

end

/-- An evaluation changes no layer but new ones and, if there are definitions in the tree, the
one it is in. -/
theorem evaluate_leaves (depth : Nat) {t : SyntaxTree} {layer : Nat} (h : Free n t layer) :
    Leaves n (evaluate p depth t layer) := by
  induction depth generalizing t layer with
  | zero => exact Eff.Keeps.raise Frame.refl _
  | succ depth ih =>
    have heval : ∀ t layer, Free n t layer → Leaves n (evaluate p depth t layer) :=
      fun _ _ h => ih h
    cases t with
    | null => exact .andThen (.step _ _) fun _ => .ret _
    | identifier string _ => exact getName_leaves depth layer string
    | sequentialDefs branches =>
      have hkids : ∀ t ∈ branches, Free n t layer := fun t ht => h.kid ht
      refine .andThen (evaluateAll_leaves heval fun t ht => hkids t (List.mem_of_mem_take ht))
        fun _ => ?_
      exact .stepThen fun t ht => heval t layer (hkids t (branchAt_mem ht))
    | typeSpec typeName typeDef =>
      have hn : n ≤ layer := h.resolve_left fun h => by cases h.free
      exact .andThen (addTree_leaves hn depth _) fun _ => getName_leaves depth layer _
    | functionDef funcName parameterList body =>
      have hn : n ≤ layer := h.resolve_left fun h => by cases h.free
      exact .andThen (addTree_leaves hn depth _) fun _ => getName_leaves depth layer _
    | functionCall function arguments =>
      refine .andThen (heval function layer (h.kid List.mem_cons_self)) fun f => ?_
      exact callFunction_leaves heval (h.kid (List.mem_cons_of_mem _ List.mem_cons_self)) f
    | letExpr var letexpr code =>
      have hlet := h.kid (List.mem_cons_of_mem _ List.mem_cons_self)
      refine .andThen (heval letexpr layer hlet) fun v => .create fun q hq => ?_
      refine .andThen (.step _ _) fun name => .andThen (addName_leaves hq name v) fun _ => ?_
      exact heval code q (.inr hq)
    | operator op op1 op2 =>
      refine .andThen (heval op1 layer (h.kid List.mem_cons_self)) fun v => ?_
      refine .andThen (heval op2 layer (h.kid (List.mem_cons_of_mem _ List.mem_cons_self)))
        fun w => .step _ _
    | tuple ts =>
      exact .andThen (evaluateElements_leaves heval fun t ht => h.kid ht) fun vs => .ret _
    | ifExpr test thenExpr elseExpr =>
      refine .andThen (heval test layer (h.kid List.mem_cons_self)) fun t => ?_
      refine .andThen (.step _ _) fun b => ?_
      have hthen := h.kid (List.mem_cons_of_mem _ List.mem_cons_self)
      have helse := h.kid (List.mem_cons_of_mem _ (List.mem_cons_of_mem _ List.mem_cons_self))
      cases b with
      | true => exact heval thenExpr layer hthen
      | false => exact heval elseExpr layer helse
    | bracket typeDef => exact heval typeDef layer (h.kid List.mem_cons_self)
    | index expr index =>
      refine .andThen (heval expr layer (h.kid List.mem_cons_self)) fun v => ?_
      refine .andThen (heval index layer (h.kid (List.mem_cons_of_mem _ List.mem_cons_self)))
        fun i => .step _ _
    | _ => exact .ret _

end

end Evaluate

end PyLinda
