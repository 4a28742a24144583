import PyLinda.Minimal.Scope

/-!
# Layers that say the same

Two evaluations of the same expression, in layers that say the same, give the same value. The
layers they make have different numbers, but no value knows of one: without definitions no
function is made.
-/

namespace PyLinda

namespace NameMap

section
variable {V : Type} {P : V → Prop} {strcmp : String → String → Int}

/-- All values in the map have the property. -/
def All (P : V → Prop) : NameMap V → Prop
  | .null => True
  | .node _ v l r => (∀ x, v = some x → P x) ∧ All P l ∧ All P r

theorem All.init : All P (init : NameMap V) := ⟨(fun _ h => by cases h), trivial, trivial⟩

theorem All.mono {Q : V → Prop} (hPQ : ∀ v, P v → Q v) {map : NameMap V} (h : All P map) :
    All Q map := by
  induction map with
  | null => trivial
  | node n v l r ihl ihr => exact ⟨fun x hx => hPQ x (h.1 x hx), ihl h.2.1, ihr h.2.2⟩

theorem All.get {map : NameMap V} (h : All P map) {name : String} {v : V}
    (hv : getName2 strcmp map name = some v) : P v := by
  induction map with
  | null => cases hv
  | node n w l r ihl ihr =>
    obtain ⟨hw, hl, hr⟩ := h
    cases n with
    | none =>
      rw [getName2_free] at hv
      cases hg : getName2 strcmp l name with
      | none =>
        rw [hg, Option.none_or] at hv
        exact ihr hr hv
      | some u =>
        rw [hg, Option.some_or] at hv
        exact ihl hl (hg.trans hv)
    | some m =>
      unfold getName2 at hv
      by_cases h0 : strcmp m name = 0
      · rw [if_pos h0] at hv
        exact hw v hv
      rw [if_neg h0] at hv
      by_cases hneg : strcmp m name < 0
      · rw [if_pos hneg] at hv
        exact ihl hl hv
      rw [if_neg hneg] at hv
      by_cases hpos : strcmp m name > 0
      · rw [if_pos hpos] at hv
        exact ihr hr hv
      · rw [if_neg hpos] at hv
        cases hv

theorem All.leaf {name : String} {v : V} (hv : P v) :
    All P (.node (some name) (some v) .null .null) :=
  ⟨fun x hx => by cases hx; exact hv, trivial, trivial⟩

theorem All.add {map map' : NameMap V} (h : All P map) {name : String} {v : V} (hv : P v)
    (ha : addName strcmp map name v = some map') : All P map' := by
  have hnew : ∀ x, some v = some x → P x := fun x hx => by
    cases hx
    exact hv
  induction map generalizing map' with
  | null =>
    cases ha
    exact trivial
  | node n w l r ihl ihr =>
    obtain ⟨hw, hl, hr⟩ := h
    cases n with
    | none =>
      unfold addName at ha
      split at ha
      · cases ha
      split at ha
      · cases ha
      · obtain ⟨l', hl', rfl⟩ := Option.map_eq_some_iff.1 ha
        exact ⟨hw, ihl hl hl', hr⟩
      · split at ha
        · cases ha
        · obtain ⟨r', hr', rfl⟩ := Option.map_eq_some_iff.1 ha
          exact ⟨hw, hl, ihr hr hr'⟩
        · cases ha
          exact ⟨hnew, hl, hr⟩
    | some m =>
      unfold addName at ha
      split at ha
      · cases ha
      split at ha
      · cases ha
        exact ⟨hnew, hl, hr⟩
      split at ha
      · split at ha
        · cases ha
          exact ⟨hw, .leaf hv, hr⟩
        · obtain ⟨l', hl', rfl⟩ := Option.map_eq_some_iff.1 ha
          exact ⟨hw, ihl hl hl', hr⟩
      split at ha
      · split at ha
        · cases ha
          exact ⟨hw, hl, .leaf hv⟩
        · obtain ⟨r', hr', rfl⟩ := Option.map_eq_some_iff.1 ha
          exact ⟨hw, hl, ihr hr hr'⟩
      · cases ha
        exact ⟨hw, hl, hr⟩

end

end NameMap

namespace Evaluate

open Lib

/-! ## Values that know certain layers -/

/-- What is in a tuple or in a sum. -/
def Value.parts : Value → List Value
  | .tuple vs => vs
  | .sum v => [v]
  | _ => []

/-- Every function in the value was defined in one of these layers, and its code is an
expression. -/
inductive Value.Within (K : Nat → Prop) : Value → Prop
  | node (v : Value) :
    (∀ parameterList code layer, v = .function parameterList code layer → K layer ∧ code.Plain) →
    (∀ u ∈ v.parts, Within K u) → Within K v

section
variable {K : Nat → Prop}

theorem Value.Within.part {v u : Value} (h : v.Within K) (hu : u ∈ v.parts) : u.Within K := by
  cases h with
  | node _ _ hparts => exact hparts u hu

theorem Value.Within.closure {parameterList code : SyntaxTree} {layer : Nat}
    (h : (Value.function parameterList code layer).Within K) : K layer ∧ code.Plain := by
  cases h with
  | node _ hf _ => exact hf _ _ _ rfl

theorem Value.Within.tuple {vs : List Value} (h : ∀ v ∈ vs, v.Within K) :
    (Value.tuple vs).Within K := .node _ (fun _ _ _ h => by cases h) h

/-- A value that is neither a function nor made of others. -/
theorem Value.Within.leaf {v : Value} (hparts : v.parts = [])
    (hf : ∀ parameterList code layer, v ≠ .function parameterList code layer) : v.Within K := by
  refine .node v (fun _ _ _ h => absurd h (hf _ _ _)) fun u hu => ?_
  rw [hparts] at hu
  cases hu

theorem Value.Within.mono {K' : Nat → Prop} (hK : ∀ l, K l → K' l) {v : Value}
    (h : v.Within K) : v.Within K' := by
  induction h with
  | node v hf _ ih => exact .node v (fun _ _ _ he => (hf _ _ _ he).imp (hK _) id) ih

end

/-- Built-in functions make no functions of their own. -/
def Platform.Honest (p : Platform) : Prop := ∀ (K : Nat → Prop) (func : Nat) (args : List Value),
  (∀ v ∈ args, v.Within K) → (p.builtIn func args).Within K

/-- The layers in `K` are in both states, and the same in both; the layers around them and the
functions in them are of that kind too. -/
structure Shared (K : Nat → Prop) (s1 s2 : State) : Prop where
  left : ∀ l, K l → l < s1.count
  right : ∀ l, K l → l < s2.count
  same : ∀ l, K l → s1.layers l = s2.layers l
  parent : ∀ l, K l → ∀ r, (s1.layers l).parent = some r → K r
  values : ∀ l, K l → (s1.layers l).map.All (Value.Within K)

/-- All layers are like this. -/
def Sound (s : State) : Prop := Shared (· < s.count) s s

/-- The two layers say the same: they are one layer in `K`, or they bind the same names to the
same values, in layers that say the same. -/
inductive Twin (K : Nat → Prop) (s1 s2 : State) : Nat → Nat → Prop
  | shared (l : Nat) : K l → Twin K s1 s2 l l
  | fresh (q1 q2 r1 r2 : Nat) (map : NameMap Value) : q1 < s1.count → q2 < s2.count →
    s1.layers q1 = ⟨some r1, map⟩ → s2.layers q2 = ⟨some r2, map⟩ → map.All (Value.Within K) →
    Twin K s1 s2 r1 r2 → Twin K s1 s2 q1 q2

/-- The current layers of two evaluations. -/
structure Linked (K : Nat → Prop) (l1 l2 : Nat) (s1 s2 : State) : Prop where
  shared : Shared K s1 s2
  twin : Twin K s1 s2 l1 l2

section
variable {p : Platform} {K : Nat → Prop} {s1 s2 b1 b2 : State} {l1 l2 : Nat}

/-- The layers of the first state, and maybe more. -/
def Extends (b s : State) : Prop := b.count ≤ s.count ∧ ∀ k < b.count, s.layers k = b.layers k

theorem Extends.refl (s : State) : Extends s s := ⟨Nat.le_refl _, fun _ _ => rfl⟩

theorem Extends.trans {a b c : State} (hab : Extends a b) (hbc : Extends b c) : Extends a c :=
  ⟨Nat.le_trans hab.1 hbc.1, fun k hk =>
    (hbc.2 k (Nat.lt_of_lt_of_le hk hab.1)).trans (hab.2 k hk)⟩

theorem Frame.extends {s s' : State} (h : Frame s.count s s') : Extends s s' :=
  h (Nat.le_refl _)

theorem Shared.extend (h : Shared K b1 b2) (h1 : Extends b1 s1) (h2 : Extends b2 s2) :
    Shared K s1 s2 where
  left l hl := Nat.lt_of_lt_of_le (h.left l hl) h1.1
  right l hl := Nat.lt_of_lt_of_le (h.right l hl) h2.1
  same l hl := by
    rw [h1.2 l (h.left l hl), h2.2 l (h.right l hl)]
    exact h.same l hl
  parent l hl := by
    rw [h1.2 l (h.left l hl)]
    exact h.parent l hl
  values l hl := by
    rw [h1.2 l (h.left l hl)]
    exact h.values l hl

theorem Twin.extend (h : Twin K b1 b2 l1 l2) (h1 : Extends b1 s1) (h2 : Extends b2 s2) :
    Twin K s1 s2 l1 l2 := by
  induction h with
  | shared l hl => exact .shared l hl
  | fresh q1 q2 r1 r2 map hq1 hq2 he1 he2 hmap _ ih =>
    have he1' := (h1.2 q1 hq1).trans he1
    have he2' := (h2.2 q2 hq2).trans he2
    exact .fresh q1 q2 r1 r2 map (Nat.lt_of_lt_of_le hq1 h1.1) (Nat.lt_of_lt_of_le hq2 h2.1)
      he1' he2' hmap ih

theorem Linked.extend (h : Linked K l1 l2 b1 b2) (h1 : Extends b1 s1) (h2 : Extends b2 s2) :
    Linked K l1 l2 s1 s2 := ⟨h.shared.extend h1 h2, h.twin.extend h1 h2⟩

/-- Looking up in layers that say the same gives the same. -/
theorem lookup_twins (hs : Shared K s1 s2) (depth : Nat) (ht : Twin K s1 s2 l1 l2)
    (name : String) :
    lookup p s1.layers depth (some l1) name = lookup p s2.layers depth (some l2) name ∧
      ∀ v, lookup p s1.layers depth (some l1) name = .ok v → v.Within K := by
  induction depth generalizing l1 l2 with
  | zero => exact ⟨rfl, fun v hv => by cases hv⟩
  | succ depth ih =>
    have hnone : ∀ v, lookup p s1.layers depth none name = .ok v → v.Within K := by
      intro v hv
      cases depth with
      | zero => cases hv
      | succ depth =>
        cases hv
        exact .leaf rfl (fun _ _ _ h => by cases h)
    unfold lookup
    cases ht with
    | shared l hl =>
      rw [← hs.same l1 hl]
      cases hg : NameMap.getName2 p.strcmp (s1.layers l1).map name with
      | some v =>
        refine ⟨rfl, fun u hu => ?_⟩
        cases hu
        exact (hs.values l1 hl).get hg
      | none =>
        cases hp : (s1.layers l1).parent with
        | none =>
          refine ⟨?_, hnone⟩
          cases depth <;> rfl
        | some r => exact ih (.shared r (hs.parent l1 hl r hp))
    | fresh _ _ r1 r2 map _ _ he1 he2 hmap hr =>
      rw [he1, he2]
      cases hg : NameMap.getName2 p.strcmp map name with
      | some v =>
        refine ⟨rfl, fun u hu => ?_⟩
        cases hu
        exact hmap.get hg
      | none => exact ih hr

/-! ## Steps -/

theorem Within.null : Value.null.Within K := .leaf rfl (fun _ _ _ h => by cases h)

theorem arithmetic_within {op : String} {f : Int → Int → Except Stop Int} {a b v : Value}
    (h : arithmetic p op f a b = .ok v) : v.Within K := by
  unfold arithmetic at h
  split at h
  · cases h
  · cases h
  · obtain ⟨k, _, hv⟩ := ok_of_bind h
    cases hv
    exact .leaf rfl (fun _ _ _ h => by cases h)
  · cases h
    exact .leaf rfl (fun _ _ _ h => by cases h)
  · cases h
    exact Within.null

/-- The operators make numbers, strings and booleans only. -/
theorem operate_within {op : String} {a b v : Value} (h : operate p op a b = .ok v) :
    v.Within K := by
  unfold operate at h
  split at h
  · unfold add at h
    split at h
    · cases h
      exact .leaf rfl (fun _ _ _ h => by cases h)
    · exact arithmetic_within h
  split at h
  · exact arithmetic_within h
  split at h
  · exact arithmetic_within h
  split at h
  · exact arithmetic_within h
  split at h
  · obtain ⟨g, _, hv⟩ := ok_of_bind h
    cases hv
    exact .leaf rfl (fun _ _ _ h => by cases h)
  · cases h

theorem referenced_ok {o : Option Value} {v : Value} (h : referenced o = .ok v) : o = some v := by
  cases o with
  | none => cases h
  | some u => cases u <;> cases h <;> rfl

/-- What is taken out of a tuple was in it. -/
theorem indexValue_within {v i r : Value} (hv : v.Within K) (h : indexValue p v i = .ok r) :
    r.Within K := by
  obtain ⟨k, _, hr⟩ := ok_of_bind h
  cases v with
  | null => cases hr
  | tuple vs =>
    rw [getItem_tuple] at hr
    split at hr
    · cases hr
      exact Within.null
    · exact hv.part (List.mem_of_getElem? (referenced_ok hr))
  | _ =>
    cases hr
    exact Within.null

theorem nameIn_all {map map' : NameMap Value} (h : map.All (Value.Within K)) {name : String}
    {v : Value} (hv : v.Within K) (hm : nameIn p map name v = .ok map') :
    map'.All (Value.Within K) := by
  unfold nameIn at hm
  split at hm
  · cases hm
  split at hm
  · cases hm
    exact h
  · cases ha : NameMap.addName p.strcmp map name v with
    | none =>
      rw [ha] at hm
      cases hm
    | some m =>
      rw [ha] at hm
      cases hm
      exact h.add hv ha

/-- Two new layers with the same names in them, made in these states. -/
structure Entered (K : Nat → Prop) (b1 b2 : State) (q1 q2 r1 r2 : Nat) (s1 s2 : State) :
    Prop where
  left : Extends b1 s1
  right : Extends b2 s2
  new1 : b1.count ≤ q1 ∧ q1 < s1.count
  new2 : b2.count ≤ q2 ∧ q2 < s2.count
  names : ∃ map, s1.layers q1 = ⟨some r1, map⟩ ∧ s2.layers q2 = ⟨some r2, map⟩ ∧
    map.All (Value.Within K)

section
variable {q1 q2 r1 r2 : Nat}

theorem Entered.push (b1 b2 : State) : Entered K b1 b2 b1.count b2.count r1 r2 (b1.push r1)
    (b2.push r2) where
  left := (b1.push_frame r1 (Nat.le_refl _)).extends
  right := (b2.push_frame r2 (Nat.le_refl _)).extends
  new1 := ⟨Nat.le_refl _, Nat.lt_succ_self _⟩
  new2 := ⟨Nat.le_refl _, Nat.lt_succ_self _⟩
  names := ⟨.init, if_pos rfl, if_pos rfl, .init⟩

theorem Entered.extend {t1 t2 : State} (h : Entered K b1 b2 q1 q2 r1 r2 s1 s2)
    (h1 : Extends s1 t1) (h2 : Extends s2 t2) : Entered K b1 b2 q1 q2 r1 r2 t1 t2 where
  left := h.left.trans h1
  right := h.right.trans h2
  new1 := ⟨h.new1.1, Nat.lt_of_lt_of_le h.new1.2 h1.1⟩
  new2 := ⟨h.new2.1, Nat.lt_of_lt_of_le h.new2.2 h2.1⟩
  names := by
    rw [h1.2 q1 h.new1.2, h2.2 q2 h.new2.2]
    exact h.names

theorem Entered.linked (h : Entered K b1 b2 q1 q2 r1 r2 s1 s2) (hs : Shared K b1 b2)
    (ht : Twin K b1 b2 r1 r2) : Linked K q1 q2 s1 s2 := by
  obtain ⟨map, he1, he2, hmap⟩ := h.names
  have hr := ht.extend h.left h.right
  exact ⟨hs.extend h.left h.right, .fresh q1 q2 r1 r2 map h.new1.2 h.new2.2 he1 he2 hmap hr⟩

/-- A name is bound in both new layers. -/
theorem Entered.setMap (h : Entered K b1 b2 q1 q2 r1 r2 s1 s2) {map : NameMap Value}
    (hmap : map.All (Value.Within K)) :
    Entered K b1 b2 q1 q2 r1 r2 (s1.setMap q1 map) (s2.setMap q2 map) where
  left := ⟨h.left.1, fun k hk => by
    have hne : k ≠ q1 := by
      have := h.new1.1
      omega
    rw [s1.setMap_other map hne]
    exact h.left.2 k hk⟩
  right := ⟨h.right.1, fun k hk => by
    have hne : k ≠ q2 := by
      have := h.new2.1
      omega
    rw [s2.setMap_other map hne]
    exact h.right.2 k hk⟩
  new1 := h.new1
  new2 := h.new2
  names := by
    obtain ⟨m, he1, he2, _⟩ := h.names
    refine ⟨map, ?_, ?_, hmap⟩
    · show (if q1 = q1 then { s1.layers q1 with map := map } else _) = _
      rw [if_pos rfl, he1]
    · show (if q2 = q2 then { s2.layers q2 with map := map } else _) = _
      rw [if_pos rfl, he2]

/-- A relation that lasts while layers are made and new layers get names. -/
def Lasting (R : State → State → Prop) : Prop :=
  ∀ b1 b2 s1 s2, R b1 b2 → Extends b1 s1 → Extends b2 s2 → R s1 s2

theorem Entered.lasting : Lasting (Entered K b1 b2 q1 q2 r1 r2) :=
  fun _ _ _ _ h h1 h2 => h.extend h1 h2

theorem Linked.lasting : Lasting (Linked K l1 l2) := fun _ _ _ _ h h1 h2 => h.extend h1 h2

theorem note_extends (s : State) (t : Step) : Extends s (s.note t) :=
  ⟨Nat.le_refl _, fun _ _ => rfl⟩

theorem step_meets {α : Type} {R : State → State → Prop} {Q : α → Prop} {t u : Step}
    {x : Except Stop α} (hR : Lasting R) (hq : ∀ a, x = .ok a → Q a) :
    Eff.Meets R Q (step t x) (step u x) :=
  .take (fun s1 s2 t u h => hR s1 s2 _ _ h (note_extends s1 t) (note_extends s2 u)) hq

theorem addName_run (layer : Nat) (name : String) (v : Value) (s : State) :
    addName p layer name v s = (step (.addName (s.layers layer).map name v)
      (nameIn p (s.layers layer).map name v) >>= fun map =>
        Eff.update fun s => s.setMap layer map) s := rfl

theorem addName_entered (name : String) {v : Value} (hv : v.Within K) :
    Eff.Meets (Entered K b1 b2 q1 q2 r1 r2) (fun _ => True) (addName p q1 name v)
      (addName p q2 name v) := by
  intro s1 s2 hs
  obtain ⟨map, he1, he2, hmap⟩ := hs.names
  have hm1 : (s1.layers q1).map = map := congrArg Layer.map he1
  have hm2 : (s2.layers q2).map = map := congrArg Layer.map he2
  rw [addName_run, addName_run, hm1, hm2]
  have hstep : Eff.Meets (Entered K b1 b2 q1 q2 r1 r2) (NameMap.All (Value.Within K))
      (step (.addName map name v) (nameIn p map name v))
      (step (.addName map name v) (nameIn p map name v)) :=
    step_meets Entered.lasting fun m hm => nameIn_all hmap hv hm
  refine Eff.Meets.andThen hstep (fun m hm => ?_) s1 s2 hs
  exact .update trivial fun s1 s2 h => h.setMap hm

theorem create_meets {α : Type} {R : State → State → Prop} (hR : Lasting R) {Q : α → Prop}
    {f g : Nat → Run α} (h : ∀ b1 b2, R b1 b2 →
      Eff.Meets (Entered K b1 b2 b1.count b2.count r1 r2) Q (f b1.count) (g b2.count)) :
    Eff.Meets R Q (createLayer2 r1 >>= f) (createLayer2 r2 >>= g) := by
  intro b1 b2 hb
  rw [createLayer2_run, createLayer2_run]
  obtain ⟨heq, hq, hs⟩ := h b1 b2 hb _ _ (Entered.push b1 b2)
  exact ⟨heq, hq, hR b1 b2 _ _ hb hs.left hs.right⟩

/-- What goes on in linked layers while there are new ones. -/
theorem meets_entered {α : Type} {Q : α → Prop} {x y : Run α}
    (h : Eff.Meets (Linked K l1 l2) Q x y)
    (hlink : ∀ s1 s2, Entered K b1 b2 q1 q2 r1 r2 s1 s2 → Linked K l1 l2 s1 s2)
    (hx : ∀ n, Leaves n x) (hy : ∀ n, Leaves n y) :
    Eff.Meets (Entered K b1 b2 q1 q2 r1 r2) Q x y :=
  h.under hlink fun s1 s2 hs => hs.extend (Frame.extends (hx s1.count s1))
    (Frame.extends (hy s2.count s2))

/-! ## Evaluations -/

section
variable {eval : SyntaxTree → Nat → Run Value}
  (heval : ∀ t l1 l2, t.Plain →
    Eff.Meets (Linked K l1 l2) (Value.Within K) (eval t l1) (eval t l2))
  (hleaves : ∀ n t l, t.Plain → Leaves n (eval t l))

theorem linked_step {α : Type} {Q : α → Prop} {t : Step} {x : Except Stop α}
    (hq : ∀ a, x = .ok a → Q a) : Eff.Meets (Linked K l1 l2) Q (step t x) (step t x) :=
  step_meets Linked.lasting hq

include heval in
theorem evaluateAll_meets {ts : List SyntaxTree} (h : ∀ t ∈ ts, t.Plain) :
    Eff.Meets (Linked K l1 l2) (fun _ => True) (evaluateAll eval l1 ts)
      (evaluateAll eval l2 ts) := by
  induction ts with
  | nil => exact .ret trivial
  | cons t ts ih =>
    have hts := ih fun u hu => h u (List.mem_cons_of_mem t hu)
    exact .andThen (heval t l1 l2 (h t List.mem_cons_self)) fun _ _ => hts

include heval in
theorem evaluateElements_meets {ts : List SyntaxTree} (h : ∀ t ∈ ts, t.Plain) :
    Eff.Meets (Linked K l1 l2) (fun vs => ∀ v ∈ vs, v.Within K) (evaluateElements eval l1 ts)
      (evaluateElements eval l2 ts) := by
  induction ts with
  | nil => exact .ret (fun v hv => by cases hv)
  | cons t ts ih =>
    have hts := ih fun u hu => h u (List.mem_cons_of_mem t hu)
    refine .andThen (heval t l1 l2 (h t List.mem_cons_self)) fun v hv => ?_
    refine .andThen hts fun vs hvs => .ret fun u hu => ?_
    cases List.mem_cons.1 hu with
    | inl he => exact he ▸ hv
    | inr hu => exact hvs u hu

include heval hleaves in
theorem bindArguments_meets (hb : Linked K l1 l2 b1 b2) {args : SyntaxTree} (h : args.Plain)
    (param : SyntaxTree) :
    Eff.Meets (Entered K b1 b2 q1 q2 r1 r2) (fun _ => True)
      (bindArguments p eval l1 q1 args param) (bindArguments p eval l2 q2 args param) := by
  induction args, param using bindArguments.induct with
  | case1 => exact .ret trivial
  | case2 => exact .ret trivial
  | case3 argument nextArg param ih =>
    have ha := h.kid List.mem_cons_self
    have heval' : Eff.Meets (Entered K b1 b2 q1 q2 r1 r2) (Value.Within K) (eval argument l1)
        (eval argument l2) :=
      meets_entered (heval argument l1 l2 ha) (fun s1 s2 hs => hb.extend hs.left hs.right)
        (fun n => hleaves n argument l1 ha) fun n => hleaves n argument l2 ha
    unfold bindArguments
    refine .andThen heval' fun v hv => ?_
    by_cases hparam : param.isNull = true
    · rw [if_pos hparam, if_pos hparam]
      exact .ret trivial
    rw [if_neg hparam, if_neg hparam]
    by_cases hnull : v.isNull = true
    · rw [if_pos hnull, if_pos hnull]
      exact .ret trivial
    rw [if_neg hnull, if_neg hnull]
    have hstep : Eff.Meets (Entered K b1 b2 q1 q2 r1 r2) (fun _ => True)
        (step (.parameter param) (parameterOf param)) (step (.parameter param) (parameterOf param)) :=
      step_meets Entered.lasting fun _ _ => trivial
    refine .andThen hstep fun r _ => .andThen (addName_entered r.1 hv) fun _ _ => ?_
    exact ih r.2 (h.kid (List.mem_cons_of_mem _ List.mem_cons_self))
  | case4 arg param hnull hblank hlist =>
    rw [bindArguments.eq_4 p eval l1 q1 arg param hnull hblank hlist,
      bindArguments.eq_4 p eval l2 q2 arg param hnull hblank hlist]
    have hstep : Eff.Meets (Entered K b1 b2 q1 q2 r1 r2) (fun _ => True)
        (step (.argument arg) (argumentOf arg)) (step (.argument arg) (argumentOf arg)) :=
      step_meets Entered.lasting fun _ _ => trivial
    exact .andThen hstep fun _ _ => .ret trivial

theorem arguments_meets {args : SyntaxTree} (h : args.Plain) :
    Eff.Meets (Linked K l1 l2) (fun r => r.1.Plain ∧ r.2.Plain)
      (step (.argument args) (argumentOf args)) (step (.argument args) (argumentOf args)) :=
  linked_step fun _ hr => ⟨h.kid (argumentOf_kids hr).1, h.kid (argumentOf_kids hr).2⟩

/-- The result of a built-in function. -/
theorem builtIn_meets (hp : p.Honest) {func : Nat} {args : List Value} {failed : Prop}
    [Decidable failed] (h : ∀ v ∈ args, v.Within K) :
    Eff.Meets (Linked K l1 l2) (Value.Within K)
      (step (.builtIn args) (if failed then .error .null else .ok (p.builtIn func args)))
      (step (.builtIn args) (if failed then .error .null else .ok (p.builtIn func args))) := by
  refine linked_step fun v hv => ?_
  split at hv
  · cases hv
  · cases hv
    exact hp K func args h

include heval in
theorem callBuiltIn_meets (hp : p.Honest) {arguments : SyntaxTree} (h : arguments.Plain)
    (argCount func : Nat) :
    Eff.Meets (Linked K l1 l2) (Value.Within K) (callBuiltIn p eval l1 argCount func arguments)
      (callBuiltIn p eval l2 argCount func arguments) := by
  unfold callBuiltIn
  by_cases h0 : argCount = 0
  · rw [if_pos h0, if_pos h0]
    exact .ret (hp K func [] fun v hv => by cases hv)
  rw [if_neg h0, if_neg h0]
  by_cases h1 : argCount = 1
  · rw [if_pos h1, if_pos h1]
    refine .andThen (arguments_meets h) fun r hr => ?_
    refine .andThen (heval r.1 l1 l2 hr.1) fun v hv => builtIn_meets hp fun u hu => ?_
    exact List.mem_singleton.1 hu ▸ hv
  rw [if_neg h1, if_neg h1]
  by_cases h2 : argCount = 2
  · rw [if_pos h2, if_pos h2]
    refine .andThen (arguments_meets h) fun r hr => ?_
    refine .andThen (heval r.1 l1 l2 hr.1) fun v hv => ?_
    refine .andThen (arguments_meets hr.2) fun r' hr' => ?_
    refine .andThen (heval r'.1 l1 l2 hr'.1) fun w hw => builtIn_meets hp fun u hu => ?_
    cases List.mem_cons.1 hu with
    | inl he => exact he ▸ hv
    | inr hu => exact List.mem_singleton.1 hu ▸ hw
  · rw [if_neg h2, if_neg h2]
    exact .ret Within.null

include heval hleaves in
theorem callFunction_meets (hp : p.Honest) {arguments : SyntaxTree} (h : arguments.Plain)
    {function : Value} (hf : function.Within K) :
    Eff.Meets (Linked K l1 l2) (Value.Within K) (callFunction p eval l1 function arguments)
      (callFunction p eval l2 function arguments) := by
  unfold callFunction
  split
  · exact .ret Within.null
  · exact callBuiltIn_meets heval hp h _ _
  · rename_i parameterList code funcLayer
    obtain ⟨hK, hcode⟩ := hf.closure
    refine create_meets (K := K) Linked.lasting fun b1 b2 hb => ?_
    by_cases hnull : parameterList.isNull = true
    · rw [if_pos hnull, if_pos hnull]
      exact .ret Within.null
    rw [if_neg hnull, if_neg hnull]
    refine .andThen (bindArguments_meets heval hleaves hb h parameterList) fun bound _ => ?_
    by_cases hbound : bound = true
    · rw [if_pos hbound, if_pos hbound]
      exact meets_entered (heval code _ _ hcode)
        (fun s1 s2 hs => hs.linked hb.shared (.shared funcLayer hK))
        (fun n => hleaves n code _ hcode) fun n => hleaves n code _ hcode
    · rw [if_neg hbound, if_neg hbound]
      exact .ret Within.null
  · exact .ret Within.null

end

theorem getName_meets (depth : Nat) (name : String) :
    Eff.Meets (Linked K l1 l2) (Value.Within K) (getName p depth l1 name)
      (getName p depth l2 name) :=
  .look (fun _ _ h => (lookup_twins h.shared depth h.twin name).1)
    fun _ _ h => (lookup_twins h.shared depth h.twin name).2

/-- An expression has the same value in layers that say the same. -/
theorem evaluate_meets (hp : p.Honest) (depth : Nat) {t : SyntaxTree} (h : t.Plain)
    (l1 l2 : Nat) :
    Eff.Meets (Linked K l1 l2) (Value.Within K) (evaluate p depth t l1)
      (evaluate p depth t l2) := by
  induction depth generalizing t l1 l2 with
  | zero => exact .raise _
  | succ depth ih =>
    have heval : ∀ t l1 l2, t.Plain → Eff.Meets (Linked K l1 l2) (Value.Within K)
        (evaluate p depth t l1) (evaluate p depth t l2) := fun t l1 l2 h => ih h l1 l2
    have hleaves : ∀ n t l, t.Plain → Leaves n (evaluate p depth t l) :=
      fun _ _ _ h => evaluate_leaves depth (.inl h)
    cases t with
    | null => exact .andThen (linked_step fun _ _ => trivial) fun _ _ => .ret Within.null
    | blank => exact .ret (.leaf rfl (fun _ _ _ h => by cases h))
    | nil => exact .ret (.leaf rfl (fun _ _ _ h => by cases h))
    | identifier string _ => exact getName_meets depth string
    | integer i => exact .ret (.leaf rfl (fun _ _ _ h => by cases h))
    | string s => exact .ret (.leaf rfl (fun _ _ _ h => by cases h))
    | sequentialDefs branches =>
      refine .andThen (evaluateAll_meets heval fun t ht => h.kid (List.mem_of_mem_take ht))
        fun _ _ => ?_
      exact .andThen (linked_step fun t ht => h.kid (branchAt_mem ht)) fun t ht =>
        heval t l1 l2 ht
    | typeSpec typeName typeDef => cases h.free
    | functionDef funcName parameterList body => cases h.free
    | functionCall function arguments =>
      refine .andThen (heval function l1 l2 (h.kid List.mem_cons_self)) fun f hf => ?_
      exact callFunction_meets heval hleaves hp
        (h.kid (List.mem_cons_of_mem _ List.mem_cons_self)) hf
    | letExpr var letexpr code =>
      have hlet := h.kid (List.mem_cons_of_mem _ List.mem_cons_self)
      have hcode : code.Plain :=
        h.kid (List.mem_cons_of_mem _ (List.mem_cons_of_mem _ List.mem_cons_self))
      refine .andThen (heval letexpr l1 l2 hlet) fun v hv => ?_
      refine create_meets (K := K) Linked.lasting fun b1 b2 hb => ?_
      refine .andThen (step_meets Entered.lasting fun _ _ => trivial)
        fun name _ => ?_
      refine .andThen (addName_entered name hv) fun _ _ => ?_
      exact meets_entered (heval code _ _ hcode) (fun s1 s2 hs => hs.linked hb.shared hb.twin)
        (fun n => hleaves n code _ hcode) fun n => hleaves n code _ hcode
    | operator op op1 op2 =>
      refine .andThen (heval op1 l1 l2 (h.kid List.mem_cons_self)) fun v _ => ?_
      refine .andThen (heval op2 l1 l2 (h.kid (List.mem_cons_of_mem _ List.mem_cons_self)))
        fun w _ => linked_step fun _ hr => operate_within hr
    | tuple ts =>
      refine .andThen (evaluateElements_meets heval fun t ht => h.kid ht) fun vs hvs => ?_
      exact .ret (.tuple hvs)
    | ifExpr test thenExpr elseExpr =>
      have hthen := h.kid (List.mem_cons_of_mem _ List.mem_cons_self)
      have helse := h.kid (List.mem_cons_of_mem _ (List.mem_cons_of_mem _ List.mem_cons_self))
      refine .andThen (heval test l1 l2 (h.kid List.mem_cons_self)) fun t _ => ?_
      refine .andThen (linked_step fun _ _ => trivial) fun b _ => ?_
      cases b with
      | true => exact heval thenExpr l1 l2 hthen
      | false => exact heval elseExpr l1 l2 helse
    | bracket typeDef => exact heval typeDef l1 l2 (h.kid List.mem_cons_self)
    | index expr index =>
      refine .andThen (heval expr l1 l2 (h.kid List.mem_cons_self)) fun v hv => ?_
      refine .andThen (heval index l1 l2 (h.kid (List.mem_cons_of_mem _ List.mem_cons_self)))
        fun i _ => linked_step fun _ hr => indexValue_within hv hr
    | _ => exact .ret Within.null

end

end

end Evaluate

end PyLinda
