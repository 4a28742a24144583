import PyLinda.Lib.Except
import PyLinda.Minimal.CodeXml
import PyLinda.Minimal.Evaluate

/-!
# What must not happen in an evaluation

An evaluation that comes to an end returns a value or `NULL` exactly if each of its steps has
what it needs.
-/

namespace PyLinda.Evaluate

open Lib

/-- Two integers that can be divided as `int`s. -/
def Divides (op1 op2 : Value) : Prop := ∀ i j, op1 = .integer i → op2 = .integer j →
  j.bmod (2 ^ 32) ≠ 0 ∧ ¬ (i.bmod (2 ^ 32) = -2 ^ 31 ∧ j.bmod (2 ^ 32) = -1)

/-- Comparing the two does not get to a `NULL` in a tuple or a sum. -/
def Compares (p : Platform) (op1 op2 : Value) : Prop := ∃ g, valueGe p op1 op2 = .ok g

/-- What is in a sum, in a sum in it, and so on. -/
def Value.innermost : Value → Value
  | .sum v => v.innermost
  | v => v

/-- The step has what it needs. -/
def Step.Safe (p : Platform) : Step → Prop
  | .node tree => tree.isNull = false
  | .operator op op1 op2 => op1.isNull = false ∧ op2.isNull = false ∧
    (op = "+" ∨ op = "-" ∨ op = "*" ∨ op = "/" ∧ Divides op1 op2 ∨ op = ">" ∧ Compares p op1 op2)
  | .test value => value.innermost.isNull = false
  | .index v i => v.isNull = false ∧ i.isNull = false ∧
    ∀ vs k, v = .tuple vs → getInt p i = .ok k → 0 ≤ k → vs[k.toNat]? ≠ some .null
  | .branch branches i => i < branches.length
  | .argument tree => ∃ argument nextArg, tree = .argumentList argument nextArg
  | .parameter tree => ∃ varName nextVar, tree = .parameterList varName nextVar
  | .variable tree => ∃ string typeId, tree = .identifier string typeId
  | .builtIn args => ∀ v ∈ args, v.isNull = false
  | .typeSpec value => ∀ typeSpec, value = .type typeSpec → typeSpec.isNull = false
  | .parameterList tree => tree.isNull = false
  | .addName map name value =>
    name ≠ "" ∧ (value.isNull = false → (NameMap.addName p.strcmp map name value).isSome)

section
variable {p : Platform}

/-! ## Single steps -/

theorem not_ok {α : Type} {e : Stop} : ¬ ∃ a : α, (.error e : Except Stop α) = .ok a := by
  intro ⟨a, ha⟩
  cases ha

theorem node_iff (tree : SyntaxTree) :
    (Step.node tree).Safe p ↔ ∃ u, nodeOf tree = .ok u := by
  cases tree <;> simp [Step.Safe, nodeOf, SyntaxTree.isNull]

theorem parameterList_iff (tree : SyntaxTree) :
    (Step.parameterList tree).Safe p ↔ ∃ u, nodeOf tree = .ok u := by
  cases tree <;> simp [Step.Safe, nodeOf, SyntaxTree.isNull]

theorem argument_iff (tree : SyntaxTree) :
    (Step.argument tree).Safe p ↔ ∃ r, argumentOf tree = .ok r := by
  cases tree <;> simp [Step.Safe, argumentOf]

theorem parameter_iff (tree : SyntaxTree) :
    (Step.parameter tree).Safe p ↔ ∃ r, parameterOf tree = .ok r := by
  cases tree <;> simp [Step.Safe, parameterOf]

theorem variable_iff (tree : SyntaxTree) :
    (Step.variable tree).Safe p ↔ ∃ s, variableOf tree = .ok s := by
  cases tree <;> simp [Step.Safe, variableOf]

theorem branch_iff (branches : List SyntaxTree) (i : Nat) :
    (Step.branch branches i).Safe p ↔ ∃ t, branchAt branches i = .ok t := by
  show i < branches.length ↔ _
  unfold branchAt
  cases h : branches[i]? with
  | none =>
    have hlen := List.getElem?_eq_none_iff.1 h
    constructor
    · intro hlt
      omega
    · intro ⟨t, ht⟩
      cases ht
  | some t => exact ⟨fun _ => ⟨t, rfl⟩, fun _ => (List.getElem?_eq_some_iff.1 h).1⟩

theorem typeSpec_iff (value : Value) :
    (Step.typeSpec value).Safe p ↔ ∃ u, typeSpecOf value = .ok u := by
  cases value with
  | type typeSpec =>
    cases typeSpec <;> simp [Step.Safe, typeSpecOf, SyntaxTree.isNull]
  | _ => simp [Step.Safe, typeSpecOf]

theorem isTrue_iff (value : Value) : (Step.test value).Safe p ↔ ∃ b, isTrue p value = .ok b := by
  show value.innermost.isNull = false ↔ _
  induction value using Value.innermost.induct with
  | case1 v ih =>
    rw [Value.innermost, isTrue]
    exact ih
  | case2 v hsum =>
    cases v with
    | sum v => exact (hsum v rfl).elim
    | null => simp [Value.innermost, isTrue, Value.isNull]
    | _ => exact ⟨fun _ => ⟨_, rfl⟩, fun _ => rfl⟩

theorem addName_iff (map : NameMap Value) (name : String) (value : Value) :
    (Step.addName map name value).Safe p ↔ ∃ m, nameIn p map name value = .ok m := by
  show name ≠ "" ∧ (value.isNull = false → _) ↔ _
  unfold nameIn
  by_cases hname : name = ""
  · rw [if_pos hname]
    constructor
    · intro ⟨hne, _⟩
      exact absurd hname hne
    · intro ⟨m, hm⟩
      cases hm
  · rw [if_neg hname]
    cases hv : value.isNull with
    | true => exact ⟨fun _ => ⟨map, rfl⟩, fun _ => ⟨hname, fun h => by cases h⟩⟩
    | false =>
      cases ha : NameMap.addName p.strcmp map name value with
      | none =>
        constructor
        · intro ⟨_, h⟩
          cases h rfl
        · intro ⟨m, hm⟩
          cases hm
      | some m => exact ⟨fun _ => ⟨m, rfl⟩, fun _ => ⟨hname, fun _ => rfl⟩⟩

theorem getItem_tuple (vs : List Value) (k : Int) : getItem (.tuple vs) k =
    if k < 0 ∨ k > vs.length - 1 then .ok .null else referenced vs[k.toNat]? := rfl

theorem referenced_iff {vs : List Value} {i : Nat} (hi : i < vs.length) :
    (∃ r, referenced vs[i]? = .ok r) ↔ vs[i]? ≠ some .null := by
  rw [List.getElem?_eq_getElem hi]
  cases vs[i] with
  | null => exact ⟨fun h => absurd h not_ok, fun h => absurd rfl h⟩
  | _ => exact ⟨fun _ h => by (cases h), fun _ => ⟨_, rfl⟩⟩

theorem index_iff (v i : Value) : (Step.index v i).Safe p ↔ ∃ r, indexValue p v i = .ok r := by
  show v.isNull = false ∧ i.isNull = false ∧ _ ↔ _
  unfold indexValue
  cases hi : getInt p i with
  | error e =>
    have hnull : i.isNull = true := by
      cases i <;> first | rfl | cases hi
    constructor
    · intro ⟨_, hi', _⟩
      rw [hnull] at hi'
      cases hi'
    · intro ⟨r, hr⟩
      cases hr
  | ok k =>
    have hnull : i.isNull = false := by
      cases i <;> first | rfl | cases hi
    show _ ↔ ∃ r, getItem v k = .ok r
    cases v with
    | null =>
      constructor
      · intro ⟨hv, _⟩
        cases hv
      · intro ⟨r, hr⟩
        cases hr
    | tuple vs =>
      rw [getItem_tuple]
      by_cases hk : k < 0 ∨ k > (vs.length : Int) - 1
      · rw [if_pos hk]
        refine ⟨fun _ => ⟨.null, rfl⟩, fun _ => ⟨rfl, hnull, fun ws j hws hj h0 => ?_⟩⟩
        cases hws
        cases hj
        rw [List.getElem?_eq_none (by omega)]
        exact fun h => by cases h
      · rw [if_neg hk, referenced_iff (by omega)]
        constructor
        · intro ⟨_, _, h⟩
          exact h vs k rfl rfl (by omega)
        · intro h
          refine ⟨rfl, hnull, fun ws j hws hj h0 => ?_⟩
          cases hws
          cases hj
          exact h
    | _ =>
      exact ⟨fun _ => ⟨.null, rfl⟩, fun _ => ⟨rfl, hnull, fun vs j h => by cases h⟩⟩

/-- An arithmetic operation needs two values, and its function on integers. -/
theorem arithmetic_iff (op : String) (f : Int → Int → Except Stop Int) (a b : Value) :
    (∃ v, arithmetic p op f a b = .ok v) ↔ a.isNull = false ∧ b.isNull = false ∧
      ∀ i j, a = .integer i → b = .integer j →
        ∃ k, f (i.bmod (2 ^ 32)) (j.bmod (2 ^ 32)) = .ok k := by
  unfold arithmetic
  split
  · constructor
    · intro ⟨v, hv⟩
      cases hv
    · intro ⟨h, _⟩
      cases h
  · constructor
    · intro ⟨v, hv⟩
      cases hv
    · intro ⟨_, h, _⟩
      cases h
  · rename_i i j
    constructor
    · intro ⟨v, hv⟩
      obtain ⟨k, hk, _⟩ := ok_of_bind hv
      refine ⟨rfl, rfl, fun i' j' hi hj => ?_⟩
      cases hi
      cases hj
      exact ⟨k, hk⟩
    · intro ⟨_, _, h⟩
      obtain ⟨k, hk⟩ := h i j rfl rfl
      rw [hk]
      exact ⟨_, rfl⟩
  · exact ⟨fun _ => ⟨rfl, rfl, fun i j hi => by cases hi⟩, fun _ => ⟨_, rfl⟩⟩
  · rename_i ha hb hint hfloat
    refine ⟨fun _ => ⟨?_, ?_, fun i j hi hj => (hint i j hi hj).elim⟩, fun _ => ⟨_, rfl⟩⟩
    · cases a <;> first | rfl | exact (ha rfl).elim
    · cases b <;> first | rfl | exact (hb rfl).elim

theorem add_iff (a b : Value) :
    (∃ v, add p a b = .ok v) ↔ a.isNull = false ∧ b.isNull = false := by
  unfold add
  split
  · exact ⟨fun _ => ⟨rfl, rfl⟩, fun _ => ⟨_, rfl⟩⟩
  · rw [arithmetic_iff]
    exact ⟨fun h => ⟨h.1, h.2.1⟩, fun h => ⟨h.1, h.2, fun _ _ _ _ => ⟨_, rfl⟩⟩⟩

theorem divide_iff (i j : Int) :
    (∃ k, divide i j = .ok k) ↔ j ≠ 0 ∧ ¬ (i = -2 ^ 31 ∧ j = -1) := by
  unfold divide
  by_cases hj : j = 0
  · rw [if_pos hj]
    exact ⟨fun h => absurd h not_ok, fun h => absurd hj h.1⟩
  · rw [if_neg hj]
    by_cases hi : i = -2 ^ 31 ∧ j = -1
    · rw [if_pos hi]
      exact ⟨fun h => absurd h not_ok, fun h => absurd hi h.2⟩
    · rw [if_neg hi]
      exact ⟨fun _ => ⟨hj, hi⟩, fun _ => ⟨_, rfl⟩⟩

/-- A comparison needs two values. -/
theorem Compares.notNull {a b : Value} (h : Compares p a b) :
    a.isNull = false ∧ b.isNull = false := by
  obtain ⟨g, hg⟩ := h
  unfold valueGe at hg
  by_cases hn : a.isNull = true ∨ b.isNull = true
  · rw [if_pos hn] at hg
    cases hg
  · exact ⟨Bool.eq_false_iff.2 fun ha => hn (.inl ha), Bool.eq_false_iff.2 fun hb => hn (.inr hb)⟩

theorem operator_iff (op : String) (a b : Value) :
    (Step.operator op a b).Safe p ↔ ∃ v, operate p op a b = .ok v := by
  show a.isNull = false ∧ b.isNull = false ∧ _ ↔ _
  unfold operate
  by_cases hadd : op = "+"
  · rw [if_pos hadd, add_iff]
    exact ⟨fun h => ⟨h.1, h.2.1⟩, fun h => ⟨h.1, h.2, .inl hadd⟩⟩
  rw [if_neg hadd]
  by_cases hsub : op = "-"
  · rw [if_pos hsub, arithmetic_iff]
    exact ⟨fun h => ⟨h.1, h.2.1, fun _ _ _ _ => ⟨_, rfl⟩⟩,
      fun h => ⟨h.1, h.2.1, .inr (.inl hsub)⟩⟩
  rw [if_neg hsub]
  by_cases hmul : op = "*"
  · rw [if_pos hmul, arithmetic_iff]
    exact ⟨fun h => ⟨h.1, h.2.1, fun _ _ _ _ => ⟨_, rfl⟩⟩,
      fun h => ⟨h.1, h.2.1, .inr (.inr (.inl hmul))⟩⟩
  rw [if_neg hmul]
  by_cases hdiv : op = "/"
  · have hne : ¬ op = ">" := by
      rw [hdiv]
      decide
    rw [if_pos hdiv, arithmetic_iff]
    constructor
    · intro ⟨ha, hb, h⟩
      have hd : Divides a b := by
        obtain h | h | h | h | h := h
        · exact absurd h hadd
        · exact absurd h hsub
        · exact absurd h hmul
        · exact h.2
        · exact absurd h.1 hne
      exact ⟨ha, hb, fun i j hi hj => (divide_iff _ _).2 (hd i j hi hj)⟩
    · intro ⟨ha, hb, h⟩
      refine ⟨ha, hb, .inr (.inr (.inr (.inl ⟨hdiv, fun i j hi hj => ?_⟩)))⟩
      exact (divide_iff _ _).1 (h i j hi hj)
  rw [if_neg hdiv]
  by_cases hgt : op = ">"
  · rw [if_pos hgt]
    constructor
    · intro ⟨_, _, h⟩
      obtain h | h | h | h | h := h
      · exact absurd h hadd
      · exact absurd h hsub
      · exact absurd h hmul
      · exact absurd h.1 hdiv
      · obtain ⟨g, hg⟩ := h.2
        rw [hg]
        exact ⟨_, rfl⟩
    · intro ⟨v, hv⟩
      obtain ⟨g, hg, _⟩ := ok_of_bind hv
      have hc : Compares p a b := ⟨g, hg⟩
      exact ⟨hc.notNull.1, hc.notNull.2, .inr (.inr (.inr (.inr ⟨hgt, hc⟩)))⟩
  · rw [if_neg hgt]
    refine ⟨fun ⟨_, _, h⟩ => ?_, fun h => absurd h not_ok⟩
    obtain h | h | h | h | h := h
    · exact absurd h hadd
    · exact absurd h hsub
    · exact absurd h hmul
    · exact absurd h.1 hdiv
    · exact absurd h.1 hgt

/-! ## The evaluation -/

/-- The program goes wrong exactly if one of its steps is not safe. -/
abbrev Told (p : Platform) {α : Type} (x : Run α) : Prop :=
  Eff.Judged State.steps (Step.Safe p) Stop.depth x

theorem step_told {α : Type} {t : Step} {x : Except Stop α}
    (h : t.Safe p ↔ ∃ a, x = .ok a) : Told p (step t x) :=
  .take (fun _ _ => rfl) h

theorem lookup_error (layers : Nat → Layer) (depth : Nat) (layer : Option Nat) (name : String)
    (e : Stop) (h : lookup p layers depth layer name = .error e) : e = .depth := by
  induction depth generalizing layer with
  | zero =>
    cases h
    rfl
  | succ depth ih =>
    cases layer with
    | none => cases h
    | some layer =>
      unfold lookup at h
      cases hn : NameMap.getName2 p.strcmp (layers layer).map name with
      | none =>
        rw [hn] at h
        exact ih _ h
      | some v =>
        rw [hn] at h
        cases h

theorem getName_told (depth layer : Nat) (name : String) : Told p (getName p depth layer name) :=
  .look fun s e h => lookup_error s.layers depth (some layer) name e h

theorem addName_told (layer : Nat) (name : String) (value : Value) :
    Told p (addName p layer name value) := by
  refine .andThen (.look fun s e h => by cases h) fun map => ?_
  exact .andThen (step_told (addName_iff map name value)) fun m => .update fun s => rfl

theorem createLayer2_told (parent : Nat) : Told p (createLayer2 parent) := by
  refine .andThen (.look fun s e h => by cases h) fun layer => ?_
  exact .andThen (.update fun s => rfl) fun _ => .ret layer

theorem addTree_told (depth layer : Nat) (tree : SyntaxTree) :
    Told p (addTree p depth layer tree) := by
  unfold addTree
  split
  · exact addName_told layer _ _
  · refine .andThen (getName_told depth layer _) fun typespec => ?_
    refine .andThen (step_told (typeSpec_iff typespec)) fun _ => ?_
    refine .andThen (step_told (parameterList_iff _)) fun _ => ?_
    exact addName_told layer _ _
  · exact .ret ()

section
variable {eval : SyntaxTree → Nat → Run Value} (heval : ∀ t layer, Told p (eval t layer))
include heval

theorem evaluateAll_told (layer : Nat) (ts : List SyntaxTree) :
    Told p (evaluateAll eval layer ts) := by
  induction ts with
  | nil => exact .ret ()
  | cons t ts ih => exact .andThen (heval t layer) fun _ => ih

theorem evaluateElements_told (layer : Nat) (ts : List SyntaxTree) :
    Told p (evaluateElements eval layer ts) := by
  induction ts with
  | nil => exact .ret []
  | cons t ts ih =>
    exact .andThen (heval t layer) fun v => .andThen ih fun vs => .ret (v :: vs)

theorem bindArguments_told (layer newLayer : Nat) (args param : SyntaxTree) :
    Told p (bindArguments p eval layer newLayer args param) := by
  induction args, param using bindArguments.induct with
  | case1 => exact .ret true
  | case2 => exact .ret true
  | case3 argument nextArg param ih =>
    unfold bindArguments
    refine .andThen (heval argument layer) fun v => ?_
    by_cases hparam : param.isNull = true
    · rw [if_pos hparam]
      exact .ret false
    · rw [if_neg hparam]
      by_cases hv : v.isNull = true
      · rw [if_pos hv]
        exact .ret false
      · rw [if_neg hv]
        refine .andThen (step_told (parameter_iff param)) fun r => ?_
        exact .andThen (addName_told newLayer r.1 v) fun _ => ih r.2
  | case4 arg param hnull hblank hlist =>
    rw [bindArguments.eq_4 p eval layer newLayer arg param hnull hblank hlist]
    exact .andThen (step_told (argument_iff arg)) fun _ => .ret true

theorem callBuiltIn_told (layer argCount func : Nat) (arguments : SyntaxTree) :
    Told p (callBuiltIn p eval layer argCount func arguments) := by
  unfold callBuiltIn
  by_cases h0 : argCount = 0
  · rw [if_pos h0]
    exact .ret _
  rw [if_neg h0]
  by_cases h1 : argCount = 1
  · rw [if_pos h1]
    refine .andThen (step_told (argument_iff arguments)) fun r => ?_
    refine .andThen (heval r.1 layer) fun v => step_told ?_
    show (∀ w ∈ [v], w.isNull = false) ↔ _
    cases hv : v.isNull <;> simp [hv]
  rw [if_neg h1]
  by_cases h2 : argCount = 2
  · rw [if_pos h2]
    refine .andThen (step_told (argument_iff arguments)) fun r => ?_
    refine .andThen (heval r.1 layer) fun v => ?_
    refine .andThen (step_told (argument_iff r.2)) fun r' => ?_
    refine .andThen (heval r'.1 layer) fun w => step_told ?_
    show (∀ u ∈ [v, w], u.isNull = false) ↔ _
    cases hv : v.isNull <;> cases hw : w.isNull <;> simp [hv, hw]
  · rw [if_neg h2]
    exact .ret Value.null

theorem callFunction_told (layer : Nat) (function : Value) (arguments : SyntaxTree) :
    Told p (callFunction p eval layer function arguments) := by
  unfold callFunction
  split
  · exact .ret Value.null
  · exact callBuiltIn_told heval layer _ _ arguments
  · rename_i params code funcLayer
    refine .andThen (createLayer2_told funcLayer) fun newLayer => ?_
    by_cases hparams : params.isNull = true
    · rw [if_pos hparams]
      exact .ret Value.null
    · rw [if_neg hparams]
      refine .andThen (bindArguments_told heval layer newLayer arguments params) fun bound => ?_
      by_cases hb : bound = true
      · rw [if_pos hb]
        exact heval code newLayer
      · rw [if_neg hb]
        exact .ret Value.null
  · exact .ret Value.null

end

theorem evaluate_told (depth : Nat) : ∀ tree layer, Told p (evaluate p depth tree layer) := by
  induction depth with
  | zero =>
    intro tree layer
    exact .raise
  | succ depth ih =>
    intro tree layer
    unfold evaluate
    cases tree with
    | null => exact .andThen (step_told (node_iff .null)) fun _ => .ret Value.null
    | blank => exact .ret Value.nil
    | nil => exact .ret Value.nil
    | identifier s i => exact getName_told depth layer s
    | integer i => exact .ret _
    | string s => exact .ret _
    | sequentialDefs bs =>
      refine .andThen (evaluateAll_told ih layer _) fun _ => ?_
      exact .andThen (step_told (branch_iff bs _)) fun t => ih t layer
    | typeSpec n d =>
      exact .andThen (addTree_told depth layer _) fun _ => getName_told depth layer n
    | functionDef n ps b =>
      exact .andThen (addTree_told depth layer _) fun _ => getName_told depth layer n
    | functionCall f args =>
      exact .andThen (ih f layer) fun v => callFunction_told ih layer v args
    | letExpr var e c =>
      refine .andThen (ih e layer) fun v => ?_
      refine .andThen (createLayer2_told layer) fun newLayer => ?_
      refine .andThen (step_told (variable_iff var)) fun name => ?_
      exact .andThen (addName_told newLayer name v) fun _ => ih c newLayer
    | operator op a b =>
      refine .andThen (ih a layer) fun v => ?_
      exact .andThen (ih b layer) fun w => step_told (operator_iff op v w)
    | tuple ts => exact .andThen (evaluateElements_told ih layer ts) fun vs => .ret (Value.tuple vs)
    | ifExpr c a b =>
      refine .andThen (ih c layer) fun t => ?_
      refine .andThen (step_told (isTrue_iff t)) fun r => ?_
      cases r with
      | true => exact ih a layer
      | false => exact ih b layer
    | bracket d => exact ih d layer
    | index e i =>
      refine .andThen (ih e layer) fun v => ?_
      exact .andThen (ih i layer) fun w => step_told (index_iff v w)
    | _ => exact .ret Value.null

end

/-! ## Sequences -/

/-- The branches evaluated in one layer, one after the other; the last one gives the value. -/
def inOrder (eval : SyntaxTree → Nat → Run Value) (layer : Nat) : List SyntaxTree → Run Value
  | [] => Eff.raise .outOfBounds
  | [t] => eval t layer
  | t :: u :: ts => do
    let _ ← eval t layer
    inOrder eval layer (u :: ts)

/-- The sequence gives what its last branch gives in the layer that the others leave. -/
def InOrder (p : Platform) (branches : List SyntaxTree) (layer : Nat) (s : State) : Prop :=
  ∃ depth v, (inOrder (evaluate p depth) layer branches s).1 = .ok v ∧
    ∃ depth', (evaluate p depth' (.sequentialDefs branches) layer s).1 = .ok v

section
variable {p : Platform}

theorem branchAt_length (branches : List SyntaxTree) :
    branchAt branches (branches.length - 1 + 1) = .error .outOfBounds := by
  unfold branchAt
  rw [List.getElem?_eq_none (by omega)]

/-- Once the other branches are evaluated, the branch behind the last one is read. -/
theorem sequence_outOfBounds {depth layer : Nat} {branches : List SyntaxTree} {s s' : State}
    (h : evaluateAll (evaluate p depth) layer (branches.take (branches.length - 1)) s =
      (.ok (), s')) :
    (evaluate p (depth + 1) (.sequentialDefs branches) layer s).1 = .error .outOfBounds := by
  show ((evaluateAll (evaluate p depth) layer (branches.take (branches.length - 1)) >>= fun _ =>
    step (.branch branches (branches.length - 1 + 1))
      (branchAt branches (branches.length - 1 + 1)) >>= fun t => evaluate p depth t layer) s).1 = _
  rw [Eff.andThen_ok h, branchAt_length]
  rfl

/-- No sequence is evaluated to the value of its last branch. -/
theorem sequence_not_inOrder (branches : List SyntaxTree) (layer : Nat) (s : State) :
    ¬ InOrder p branches layer s := by
  intro ⟨_, v, _, depth', h⟩
  cases depth' with
  | zero => cases h
  | succ depth =>
    cases hall : evaluateAll (evaluate p depth) layer (branches.take (branches.length - 1)) s with
    | mk r s' =>
      cases r with
      | ok u =>
        rw [sequence_outOfBounds hall] at h
        cases h
      | error e =>
        have herr := Eff.andThen_error hall fun _ =>
          step (.branch branches (branches.length - 1 + 1))
            (branchAt branches (branches.length - 1 + 1)) >>= fun t => evaluate p depth t layer
        rw [show evaluate p (depth + 1) (.sequentialDefs branches) layer s = _ from herr] at h
        cases h

end

/-! ## Some expressions -/

/-- One empty layer. -/
def start : State := ⟨fun _ => ⟨none, NameMap.init⟩, 1, []⟩

/-- A platform without floats, built-in functions and comparisons by address. -/
def plain : Platform where
  strcmp := NameMap.signs
  arith _ _ _ := 0
  above _ _ := false
  same _ _ := false
  joined s t := s ++ t
  word _ := 0
  builtIn _ _ := .null

/-- `1; 2;` should give 2. -/
theorem sequence_of_two :
    (inOrder (evaluate plain 1) 0 [.integer 1, .integer 2] start).1 = .ok (.integer 2) ∧
      (evaluate plain 2 (.sequentialDefs [.integer 1, .integer 2]) 0 start).1 =
        .error .outOfBounds :=
  ⟨rfl, rfl⟩

end PyLinda.Evaluate
