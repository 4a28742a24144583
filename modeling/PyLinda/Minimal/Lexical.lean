import Mathlib.Data.List.Forall2
import PyLinda.Minimal.Programs

/-!
# Lexical scoping

A call depends on the layer the function was defined in and on the values of the arguments. An
expression changes nothing outside, and a name bound in it hides another one in its body only.
-/

namespace PyLinda

namespace SyntaxTree

/-- `e1, ..., en` in a call. -/
def argumentChain : List SyntaxTree → SyntaxTree
  | [] => null
  | e :: es => argumentList e (argumentChain es)

/-- `x1 ... xk` in a definition, from one on. -/
def parameterChain : List String → SyntaxTree
  | [] => null
  | x :: xs => parameterList x (parameterChain xs)

/-- `x1 ... xk` in a definition. -/
def parameters : List String → SyntaxTree
  | [] => blank
  | x :: xs => parameterChain (x :: xs)

end SyntaxTree

namespace NameMap

section
variable {V : Type} {strcmp : String → String → Int}

/-- `strcmp` says only on which side a name is. -/
def Signs (strcmp : String → String → Int) : Prop :=
  ∀ a b, strcmp a b = -1 ∨ strcmp a b = 0 ∨ strcmp a b = 1

/-- No node has lost its name. -/
def Named : NameMap V → Prop
  | .null => True
  | .node none _ _ _ => False
  | .node (some _) _ l r => Named l ∧ Named r

theorem Named.addOk (hc : Conforming strcmp) (hsigns : Signs strcmp) {map : NameMap V}
    (h : Named map) (name : String) : AddOk strcmp map name := by
  induction map with
  | null => trivial
  | node n v l r ihl ihr =>
    cases n with
    | none => exact h.elim
    | some m =>
      cases lt_cases m name with
      | inl he => exact .inl he
      | inr hne =>
        have hs := hsigns m name
        cases hne with
        | inl hlt =>
          have hneg := (hc.neg m name).2 hlt
          exact .inr (.inl ⟨hlt, by omega, ihl h.1⟩)
        | inr hgt =>
          have hpos := hc.pos.2 hgt
          exact .inr (.inr ⟨hgt, by omega, ihr h.2⟩)

theorem Named.add {map map' : NameMap V} (h : Named map) {name : String} {v : V}
    (ha : addName strcmp map name v = some map') : Named map' := by
  induction map generalizing map' with
  | null =>
    cases ha
    trivial
  | node n w l r ihl ihr =>
    cases n with
    | none => exact h.elim
    | some m =>
      unfold addName at ha
      split at ha
      · cases ha
      split at ha
      · cases ha
        exact h
      split at ha
      · split at ha
        · cases ha
          exact ⟨⟨trivial, trivial⟩, h.2⟩
        · obtain ⟨l', hl', rfl⟩ := Option.map_eq_some_iff.1 ha
          exact ⟨ihl h.1 hl', h.2⟩
      split at ha
      · split at ha
        · cases ha
          exact ⟨h.1, trivial, trivial⟩
        · obtain ⟨r', hr', rfl⟩ := Option.map_eq_some_iff.1 ha
          exact ⟨h.1, ihr h.2 hr'⟩
      · cases ha
        exact h

theorem addName_init {name : String} (hne : name ≠ "") (v : V) :
    addName strcmp init name v = some (.node (some name) (some v) .null .null) := by
  unfold init addName
  rw [if_neg hne]
  rfl

/-- The map is what names have been added to, and holds what they stand for. -/
structure Grown (strcmp : String → String → Int) (map : NameMap V) (f : String → Option V) :
    Prop where
  holds : Holds strcmp map f
  named : map = init ∨ Named map

theorem Grown.init : Grown strcmp (init : NameMap V) fun _ => none :=
  ⟨⟨(fun h => by cases h), ⟨(fun _ h => by cases h), trivial, trivial⟩, fun _ => rfl⟩, .inl rfl⟩

theorem Grown.add (hc : Conforming strcmp) (hsigns : Signs strcmp) {map : NameMap V}
    {f : String → Option V} (h : Grown strcmp map f) {name : String} (hne : name ≠ "") (v : V) :
    ∃ map', addName strcmp map name v = some map' ∧
      Grown strcmp map' ((Op.add name v).after f) := by
  have hok : AddOk strcmp map name := by
    cases h.named with
    | inl hinit =>
      subst hinit
      exact .inr (.inr ⟨rfl, rfl, (fun _ h => by cases h), fun _ h => by cases h⟩)
    | inr hnamed => exact hnamed.addOk hc hsigns name
  obtain ⟨map', hmap', hholds⟩ := h.holds.step hc (show (Op.add name v).name ≠ "" from hne) hok
  refine ⟨map', hmap', hholds, .inr ?_⟩
  cases h.named with
  | inl hinit =>
    subst hinit
    have hadd : addName strcmp NameMap.init name v = some map' := hmap'
    rw [addName_init hne] at hadd
    cases hadd
    exact ⟨trivial, trivial⟩
  | inr hnamed => exact hnamed.add hmap'

end

end NameMap

namespace Evaluate

open Lib SyntaxTree

section
variable (p : Platform)

/-! ## A call with values -/

/-- The loop over the arguments of a call, when their values are known. -/
def bindValues (newLayer : Nat) : List Value → SyntaxTree → Run Bool
  | [], _ => pure true
  | v :: vs, param =>
    if param.isNull then pure false
    else if v.isNull then pure false
    else do
      let (varName, nextVar) ← step (.parameter param) (parameterOf param)
      addName p newLayer varName v
      bindValues newLayer vs nextVar

/-- A call of a function with these values. -/
def enter (eval : SyntaxTree → Nat → Run Value) (parameterList code : SyntaxTree)
    (funcLayer : Nat) (vs : List Value) : Run Value := do
  let newLayer ← createLayer2 funcLayer
  if parameterList.isNull then pure .null
  else do
    let bound ← bindValues p newLayer vs parameterList
    if bound then eval code newLayer else pure .null

/-- In the layer, these are the values of the expressions, each evaluated on its own. -/
def Values (depth : Nat) (s : State) (layer : Nat) (es : List SyntaxTree) (vs : List Value) :
    Prop := List.Forall₂ (fun e v => (evaluate p depth e layer s).1 = .ok v) es vs

/-- In the layer, the tree is a call of this function with these values. -/
def IsCall (depth : Nat) (s : State) (layer : Nat) (t : SyntaxTree) (function : Value)
    (vs : List Value) : Prop :=
  ∃ fe es, t = .functionCall fe (argumentChain es) ∧ fe.Plain ∧ (∀ e ∈ es, e.Plain) ∧
    (evaluate p depth fe layer s).1 = .ok function ∧ Values p depth s layer es vs

end

section
variable {p : Platform} {K : Nat → Prop} {s1 s2 b b1 b2 : State} {l1 l2 q1 q2 r1 r2 : Nat}

theorem bindValues_meets {vs : List Value} (h : ∀ v ∈ vs, v.Within K) (param : SyntaxTree) :
    Eff.Meets (Entered K b1 b2 q1 q2 r1 r2) (fun _ => True) (bindValues p q1 vs param)
      (bindValues p q2 vs param) := by
  induction vs generalizing param with
  | nil => exact .ret trivial
  | cons v vs ih =>
    unfold bindValues
    by_cases hparam : param.isNull = true
    · rw [if_pos hparam, if_pos hparam]
      exact .ret trivial
    rw [if_neg hparam, if_neg hparam]
    by_cases hnull : v.isNull = true
    · rw [if_pos hnull, if_pos hnull]
      exact .ret trivial
    rw [if_neg hnull, if_neg hnull]
    refine .andThen (step_meets Entered.lasting fun _ _ => trivial) fun r _ => ?_
    refine .andThen (addName_entered r.1 (h v List.mem_cons_self)) fun _ _ => ?_
    exact ih (fun u hu => h u (List.mem_cons_of_mem v hu)) r.2

/-- A call depends on what the layer of the function says only. -/
theorem enter_meets (hp : p.Honest) (depth : Nat) {parameterList code : SyntaxTree}
    {funcLayer : Nat} (hK : K funcLayer) (hcode : code.Plain) {vs : List Value}
    (hvs : ∀ v ∈ vs, v.Within K) :
    Eff.Meets (Linked K funcLayer funcLayer) (Value.Within K)
      (enter p (evaluate p depth) parameterList code funcLayer vs)
      (enter p (evaluate p depth) parameterList code funcLayer vs) := by
  refine create_meets (K := K) Linked.lasting fun b1 b2 hb => ?_
  by_cases hnull : parameterList.isNull = true
  · rw [if_pos hnull, if_pos hnull]
    exact .ret Within.null
  rw [if_neg hnull, if_neg hnull]
  refine .andThen (bindValues_meets hvs parameterList) fun bound _ => ?_
  by_cases hbound : bound = true
  · rw [if_pos hbound, if_pos hbound]
    exact meets_entered (evaluate_meets hp depth hcode _ _)
      (fun s1 s2 hs => hs.linked hb.shared (.shared funcLayer hK))
      (fun n => evaluate_leaves depth (.inl hcode)) fun n => evaluate_leaves depth (.inl hcode)
  · rw [if_neg hbound, if_neg hbound]
    exact .ret Within.null

/-- Two states that go on from one. -/
def After (b s1 s2 : State) : Prop := Extends b s1 ∧ Extends b s2

theorem After.lasting : Lasting (After b) := fun _ _ _ _ h h1 h2 => ⟨h.1.trans h1, h.2.trans h2⟩

section
variable (hp : p.Honest) (hb : Shared K b b) {depth layer : Nat} (hlayer : K layer)
include hp hb hlayer

/-- An expression has the value it had before. -/
theorem evaluate_later {e : SyntaxTree} (he : e.Plain) {v : Value}
    (hv : (evaluate p depth e layer b).1 = .ok v) {s : State} (hs : Extends b s) :
    (evaluate p depth e layer s).1 = .ok v ∧ v.Within K := by
  have hlinked : Linked K layer layer b s :=
    ⟨hb.extend (Extends.refl b) hs, .shared layer hlayer⟩
  obtain ⟨heq, hq, _⟩ := evaluate_meets hp depth he layer layer b s hlinked
  exact ⟨heq ▸ hv, hq v hv⟩

/-- The loop over the arguments is the one over their values. -/
theorem bindArguments_values (hs : After b b1 b2) {es : List SyntaxTree} {vs : List Value}
    (hes : ∀ e ∈ es, e.Plain) (hvs : Values p depth b layer es vs) (param : SyntaxTree) :
    Eff.Meets (Entered K b1 b2 q1 q2 r1 r2) (fun _ => True)
      (bindArguments p (evaluate p depth) layer q1 (argumentChain es) param)
      (bindValues p q2 vs param) := by
  induction hvs generalizing param with
  | nil => exact .ret trivial
  | @cons e v es vs hv _ ih =>
    have he : e.Plain := hes e List.mem_cons_self
    have hwithin := (evaluate_later hp hb hlayer he hv (Extends.refl b)).2
    unfold argumentChain bindArguments bindValues
    refine Eff.Meets.left (a := v) (fun s1 s2 hs' => ⟨?_, ?_⟩) ?_
    · exact (evaluate_later hp hb hlayer he hv (hs.1.trans hs'.left)).1
    · exact hs'.extend (evaluate_leaves depth (.inl he) s1).extends (Extends.refl s2)
    by_cases hparam : param.isNull = true
    · rw [if_pos hparam, if_pos hparam]
      exact .ret trivial
    rw [if_neg hparam, if_neg hparam]
    by_cases hnull : v.isNull = true
    · rw [if_pos hnull, if_pos hnull]
      exact .ret trivial
    rw [if_neg hnull, if_neg hnull]
    refine .andThen (step_meets Entered.lasting fun _ _ => trivial) fun r _ => ?_
    refine .andThen (addName_entered r.1 hwithin) fun _ _ => ?_
    exact ih (fun x hx => hes x (List.mem_cons_of_mem e hx)) r.2

/-- Calling with arguments is calling with their values. -/
theorem callFunction_enter {es : List SyntaxTree} {vs : List Value} (hes : ∀ e ∈ es, e.Plain)
    (hvs : Values p depth b layer es vs) {parameterList code : SyntaxTree} {funcLayer : Nat}
    (hf : (Value.function parameterList code funcLayer).Within K) :
    Eff.Meets (After b) (Value.Within K)
      (callFunction p (evaluate p depth) layer (.function parameterList code funcLayer)
        (argumentChain es))
      (enter p (evaluate p depth) parameterList code funcLayer vs) := by
  obtain ⟨hK, hcode⟩ := hf.closure
  refine create_meets (K := K) After.lasting fun b1 b2 hs => ?_
  by_cases hnull : parameterList.isNull = true
  · rw [if_pos hnull, if_pos hnull]
    exact .ret Within.null
  rw [if_neg hnull, if_neg hnull]
  refine .andThen (bindArguments_values hp hb hlayer hs hes hvs parameterList) fun bound _ => ?_
  by_cases hbound : bound = true
  · rw [if_pos hbound, if_pos hbound]
    exact meets_entered (evaluate_meets hp depth hcode _ _)
      (fun s1 s2 hs' => hs'.linked (hb.extend hs.1 hs.2) (.shared funcLayer hK))
      (fun n => evaluate_leaves depth (.inl hcode)) fun n => evaluate_leaves depth (.inl hcode)
  · rw [if_neg hbound, if_neg hbound]
    exact .ret Within.null

/-- A call is a call with the values of its arguments. -/
theorem evaluate_call {t : SyntaxTree} {parameterList code : SyntaxTree} {funcLayer : Nat}
    {vs : List Value}
    (h : IsCall p depth b layer t (.function parameterList code funcLayer) vs) :
    (evaluate p (depth + 1) t layer b).1 =
      (enter p (evaluate p depth) parameterList code funcLayer vs b).1 := by
  obtain ⟨fe, es, rfl, hfe, hes, hf, hvs⟩ := h
  have hwithin := (evaluate_later hp hb hlayer hfe hf (Extends.refl b)).2
  have hrun : evaluate p depth fe layer b = (.ok (.function parameterList code funcLayer),
      (evaluate p depth fe layer b).2) := by
    rw [← hf]
  have hext : Extends b (evaluate p depth fe layer b).2 :=
    (evaluate_leaves depth (.inl hfe) b).extends
  show ((evaluate p depth fe layer >>= fun f => callFunction p (evaluate p depth) layer f
    (argumentChain es)) b).1 = _
  rw [Eff.andThen_ok hrun]
  exact (callFunction_enter hp hb hlayer hes hvs hwithin _ b ⟨hext, Extends.refl b⟩).1

end

/-! ## Names that hide others -/

theorem evaluate_extends (depth : Nat) {e : SyntaxTree} (he : e.Plain) (layer : Nat) (s : State) :
    Extends s (evaluate p depth e layer s).2 :=
  (evaluate_leaves depth (.inl he) s).extends

/-- What a name stands for in a layer whose own names are known. -/
theorem lookup_layer {s : State} {layer r : Nat} {map : NameMap Value}
    (h : s.layers layer = ⟨some r, map⟩) (depth : Nat) (name : String) :
    lookup p s.layers (depth + 1) (some layer) name =
      (NameMap.getName2 p.strcmp map name).elim (lookup p s.layers depth (some r) name) .ok := by
  rw [lookup, h]
  cases NameMap.getName2 p.strcmp map name <;> rfl

/-- Names in the layers of a state are the same in a later one. -/
theorem lookup_later (hb : Shared K b b) {layer : Nat} (hlayer : K layer) {s : State}
    (hs : Extends b s) (depth : Nat) (name : String) :
    lookup p s.layers depth (some layer) name = lookup p b.layers depth (some layer) name :=
  (lookup_twins (hb.extend (Extends.refl b) hs) depth (.shared layer hlayer) name).1.symm

theorem nameIn_ok {map map' : NameMap Value} {name : String} {v : Value} (hne : name ≠ "")
    (hv : v.isNull = false) (h : NameMap.addName p.strcmp map name v = some map') :
    nameIn p map name v = .ok map' := by
  unfold nameIn
  rw [if_neg hne, hv, h]
  rfl

theorem addName_ok {map : NameMap Value} {name : String} {v : Value} {layer : Nat} {s : State}
    (h : nameIn p (s.layers layer).map name v = .ok map) :
    addName p layer name v s =
      (.ok (), (s.note (.addName (s.layers layer).map name v)).setMap layer map) := by
  rw [addName_run, h]
  rfl

/-- What a layer is after a name has been bound in it. -/
theorem setMap_same {s : State} {layer r : Nat} {map map' : NameMap Value} {t : Step}
    (h : s.layers layer = ⟨some r, map⟩) :
    ((s.note t).setMap layer map').layers layer = ⟨some r, map'⟩ := by
  show (if layer = layer then { s.layers layer with map := map' } else _) = _
  rw [if_pos rfl, h]

/-- A name is bound in a layer that is not in the first state. -/
theorem setMap_extends {s : State} (h : Extends b s) {layer : Nat} (hl : b.count ≤ layer)
    (t : Step) (map : NameMap Value) : Extends b ((s.note t).setMap layer map) :=
  ⟨h.1, fun k hk => ((s.note t).setMap_other map (by omega)).trans (h.2 k hk)⟩

theorem getName2_leaf (hc : Conforming p.strcmp) (x name : String) (v : Value) :
    NameMap.getName2 p.strcmp (.node (some x) (some v) .null .null) name =
      if name = x then some v else none := (NameMap.Added.leaf hc).get name

/-- The body of a `let` is evaluated in a new layer with this name. -/
theorem let_run {depth layer : Nat} {x : String} {typeId : Option String} {e code : SyntaxTree}
    {v : Value} {b s : State} {map : NameMap Value} (hname : nameIn p NameMap.init x v = .ok map)
    (h : evaluate p depth e layer b = (.ok v, s)) :
    ∃ s', evaluate p (depth + 1) (.letExpr (.identifier x typeId) e code) layer b =
        evaluate p depth code s.count s' ∧
      s'.count = s.count + 1 ∧ s'.layers s.count = ⟨some layer, map⟩ ∧
      ∀ l, l ≠ s.count → s'.layers l = s.layers l := by
  let t := (s.push layer).note (.variable (.identifier x typeId))
  have hinit : t.layers s.count = ⟨some layer, NameMap.init⟩ := if_pos rfl
  have hadd : nameIn p (t.layers s.count).map x v = .ok map := by
    rw [hinit]
    exact hname
  let u := (t.note (.addName (t.layers s.count).map x v)).setMap s.count map
  refine ⟨u, ?_, rfl, setMap_same hinit, fun l hl => ?_⟩
  · show (evaluate p depth e layer >>= fun v => createLayer2 layer >>= fun q =>
      step (.variable (.identifier x typeId)) (.ok x) >>= fun name =>
        addName p q name v >>= fun _ => evaluate p depth code q) b = _
    rw [Eff.andThen_ok h, createLayer2_run]
    show (addName p s.count x v >>= fun _ => evaluate p depth code s.count) t = _
    rw [Eff.andThen_ok (addName_ok hadd)]
  · exact (if_neg hl).trans (if_neg hl)

/-- The new layer of a `let` is the old one with one name more. -/
theorem evaluate_let (hc : Conforming p.strcmp) (hb : Shared K b b) {depth layer : Nat}
    (hlayer : K layer) {x : String} {typeId : Option String} {e code : SyntaxTree} {v : Value}
    {s : State} (he : e.Plain) (hx : x ≠ "") (hv : v.isNull = false)
    (h : evaluate p depth e layer b = (.ok v, s)) :
    ∃ s', evaluate p (depth + 1) (.letExpr (.identifier x typeId) e code) layer b =
        evaluate p depth code s.count s' ∧
      ∀ d name, lookup p s'.layers (d + 1) (some s.count) name =
        if name = x then .ok v else lookup p b.layers d (some layer) name := by
  have hs : Extends b s := by
    have hext := evaluate_extends (p := p) depth he layer b
    rw [h] at hext
    exact hext
  obtain ⟨u, hrun, hcount, hu, hother⟩ :=
    let_run (nameIn_ok hx hv (NameMap.addName_init hx v)) h
  have hlater : Extends b u := by
    refine ⟨by rw [hcount]; exact Nat.le_succ_of_le hs.1, fun k hk => ?_⟩
    exact (hother k (Nat.ne_of_lt (Nat.lt_of_lt_of_le hk hs.1))).trans (hs.2 k hk)
  refine ⟨u, hrun, fun d name => ?_⟩
  rw [lookup_layer hu, getName2_leaf hc, lookup_later hb hlayer hlater]
  by_cases hn : name = x
  · rw [if_pos hn, if_pos hn]
    rfl
  · rw [if_neg hn, if_neg hn]
    rfl

/-- The binding of a parameter. -/
def binding (b : String × Value) : NameMap.Op Value := .add b.1 b.2

/-- The parameters are bound one after the other. -/
theorem bindValues_run (hc : Conforming p.strcmp) (hsigns : NameMap.Signs p.strcmp) {q r : Nat}
    (hq : b.count ≤ q) {vs : List Value} (hvs : ∀ v ∈ vs, v.isNull = false) {xs : List String}
    (hxs : ∀ x ∈ xs, x ≠ "") (hlen : vs.length ≤ xs.length) {s : State} (hs : Extends b s)
    {map : NameMap Value} {f : String → Option Value} (hl : s.layers q = ⟨some r, map⟩)
    (hg : NameMap.Grown p.strcmp map f) :
    ∃ s' map', bindValues p q vs (parameterChain xs) s = (.ok true, s') ∧ Extends b s' ∧
      s'.layers q = ⟨some r, map'⟩ ∧
      NameMap.Grown p.strcmp map' (((xs.zip vs).map binding).foldl NameMap.Op.after f) := by
  induction vs generalizing xs s map f with
  | nil =>
    rw [List.zip_nil_right]
    exact ⟨s, map, rfl, hs, hl, hg⟩
  | cons v vs ih =>
    cases xs with
    | nil => cases hlen
    | cons x xs =>
      have hx := hxs x List.mem_cons_self
      have hv := hvs v List.mem_cons_self
      obtain ⟨map₁, hmap₁, hg₁⟩ := hg.add hc hsigns hx v
      let t := s.note (.parameter (parameterChain (x :: xs)))
      have ht : t.layers q = ⟨some r, map⟩ := hl
      have hname : nameIn p (t.layers q).map x v = .ok map₁ := by
        rw [ht]
        exact nameIn_ok hx hv hmap₁
      have hs₁ := setMap_extends (s := t) hs hq (.addName (t.layers q).map x v) map₁
      obtain ⟨s', map', hrun, hrest⟩ := ih (fun u hu => hvs u (List.mem_cons_of_mem v hu))
        (fun y hy => hxs y (List.mem_cons_of_mem x hy)) (Nat.le_of_succ_le_succ hlen) hs₁
        (setMap_same ht) hg₁
      refine ⟨s', map', ?_, hrest⟩
      unfold bindValues
      rw [if_neg (show ¬ (parameterChain (x :: xs)).isNull = true from fun h => by cases h),
        if_neg (show ¬ v.isNull = true by rw [hv]; exact fun h => by cases h)]
      show (addName p q x v >>= fun _ => bindValues p q vs (parameterChain xs)) t = _
      rw [Eff.andThen_ok (addName_ok hname)]
      exact hrun

/-- The new layer of a call is the one of the function with the parameters. -/
theorem evaluate_parameters (hp : p.Honest) (hc : Conforming p.strcmp)
    (hsigns : NameMap.Signs p.strcmp) (hb : Shared K b b) {depth layer : Nat} (hlayer : K layer)
    {t code : SyntaxTree} {xs : List String} {funcLayer : Nat} {vs : List Value}
    (h : IsCall p depth b layer t (.function (parameters xs) code funcLayer) vs)
    (hxs : ∀ x ∈ xs, x ≠ "") (hvs : ∀ v ∈ vs, v.isNull = false) (hlen : vs.length ≤ xs.length) :
    ∃ s', (evaluate p (depth + 1) t layer b).1 = (evaluate p depth code b.count s').1 ∧
      ∀ d name, lookup p s'.layers (d + 1) (some b.count) name =
        (NameMap.bound ((xs.zip vs).map binding) name).elim
          (lookup p b.layers d (some funcLayer) name) .ok := by
  have hK : K funcLayer := by
    obtain ⟨fe, _, _, hfe, _, hf, _⟩ := h
    exact (evaluate_later hp hb hlayer hfe hf (Extends.refl b)).2.closure.1
  have hpush : Extends b (b.push funcLayer) := (b.push_frame funcLayer (Nat.le_refl _)).extends
  have hinit : (b.push funcLayer).layers b.count = ⟨some funcLayer, NameMap.init⟩ := if_pos rfl
  obtain ⟨s', map', hrun, hs', hl, hg⟩ :=
    bindValues_run hc hsigns (Nat.le_refl _) hvs hxs hlen hpush hinit NameMap.Grown.init
  have hrun' : bindValues p b.count vs (parameters xs) (b.push funcLayer) = (.ok true, s') := by
    cases xs with
    | cons x xs => exact hrun
    | nil =>
      cases vs with
      | nil => exact hrun
      | cons v vs => cases hlen
  have hnull : (parameters xs).isNull = false := by
    cases xs <;> rfl
  refine ⟨s', ?_, fun d name => ?_⟩
  · rw [evaluate_call hp hb hlayer h]
    unfold enter
    rw [createLayer2_run, hnull]
    show ((bindValues p b.count vs (parameters xs) >>= fun bound =>
      if bound = true then evaluate p depth code b.count else pure Value.null)
        (b.push funcLayer)).1 = _
    rw [Eff.andThen_ok hrun']
    rfl
  · rw [lookup_layer hl, lookup_later hb hK hs', hg.holds.get]
    rfl

end

/-! ## The scopes of a program -/

/-- Scoping is lexical. -/
structure Lexical (p : Platform) : Prop where
  /-- A call gives the same in all layers. -/
  calls : ∀ {s : State}, Sound s → ∀ {depth l1 l2 : Nat}, l1 < s.count → l2 < s.count →
    ∀ {t1 t2 parameterList code : SyntaxTree} {funcLayer : Nat} {vs : List Value},
    IsCall p depth s l1 t1 (.function parameterList code funcLayer) vs →
    IsCall p depth s l2 t2 (.function parameterList code funcLayer) vs →
    (evaluate p (depth + 1) t1 l1 s).1 = (evaluate p (depth + 1) t2 l2 s).1
  /-- It depends only on what the layer of the function says. -/
  depends : ∀ {s1 s2 : State}, Sound s1 → Sound s2 → ∀ {K : Nat → Prop}, Shared K s1 s2 →
    ∀ {depth l1 l2 : Nat}, l1 < s1.count → l2 < s2.count →
    ∀ {t1 t2 parameterList code : SyntaxTree} {funcLayer : Nat} {vs : List Value},
    (Value.function parameterList code funcLayer).Within K → (∀ v ∈ vs, v.Within K) →
    IsCall p depth s1 l1 t1 (.function parameterList code funcLayer) vs →
    IsCall p depth s2 l2 t2 (.function parameterList code funcLayer) vs →
    (evaluate p (depth + 1) t1 l1 s1).1 = (evaluate p (depth + 1) t2 l2 s2).1
  /-- An expression changes no layer there is. -/
  frame : ∀ {t : SyntaxTree}, t.Plain → ∀ (depth layer : Nat) (s : State) {l : Nat}, l < s.count →
    (evaluate p depth t layer s).2.layers l = s.layers l
  /-- In the body of a `let` there is one name more. -/
  letScope : ∀ {s : State}, Sound s → ∀ {depth layer : Nat}, layer < s.count →
    ∀ {x : String} {typeId : Option String} {e code : SyntaxTree} {v : Value} {s' : State},
    e.Plain → x ≠ "" → v.isNull = false → evaluate p depth e layer s = (.ok v, s') →
    ∃ s'' newLayer, evaluate p (depth + 1) (.letExpr (.identifier x typeId) e code) layer s =
        evaluate p depth code newLayer s'' ∧
      ∀ d name, lookup p s''.layers (d + 1) (some newLayer) name =
        if name = x then .ok v else lookup p s.layers d (some layer) name
  /-- In the body of a function there are its parameters, and what the layer of the function
  says. -/
  parameterScope : NameMap.Signs p.strcmp → ∀ {s : State}, Sound s → ∀ {depth layer : Nat},
    layer < s.count → ∀ {t code : SyntaxTree} {xs : List String} {funcLayer : Nat}
    {vs : List Value}, IsCall p depth s layer t (.function (parameters xs) code funcLayer) vs →
    (∀ x ∈ xs, x ≠ "") → (∀ v ∈ vs, v.isNull = false) → vs.length ≤ xs.length →
    ∃ s' newLayer, (evaluate p (depth + 1) t layer s).1 = (evaluate p depth code newLayer s').1 ∧
      ∀ d name, lookup p s'.layers (d + 1) (some newLayer) name =
        (NameMap.bound ((xs.zip vs).map binding) name).elim
          (lookup p s.layers d (some funcLayer) name) .ok

theorem plain_honest : plain.Honest := fun _ _ _ _ => Within.null

end Evaluate

end PyLinda
