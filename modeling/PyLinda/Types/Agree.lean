import PyLinda.Lib.Except
import PyLinda.Types.Compare

/-!
# What a comparison depends on

Two tables that hold the same types under the ids that the comparison of two types can get to:
what `compare_types` returns with one, it returns with the other.
-/

namespace PyLinda.Types

open Lib

/-- What the names in the types of `U` are looked up as in `c` is the same in `c'`, and `U` has
what comes out and what is in its types. -/
structure Agrees (c c' : TypeCache) (U : LindaType → Prop) : Prop where
  lookup : ∀ t n i u, U t → t.typeSpec = .id n i → n ∉ builtin → c.lookupType i = .ok u →
    c'.lookupType i = .ok u ∧ U u
  items : ∀ t, U t → ∀ e ∈ t.items, U e
  arg : ∀ t a r, U t → t.typeSpec = .function a r → U (t.branch a)
  result : ∀ t a r, U t → t.typeSpec = .function a r → U (t.branch r)

section
variable {c c' : TypeCache} {U : LindaType → Prop}

theorem Agrees.follows (h : Agrees c c' U) {t : LindaType} {n : String} {i : Option String}
    (ht : U t) (hspec : t.typeSpec = .id n i) (hn : n ∉ builtin) :
    Follows U (c.lookupType i) (c'.lookupType i) :=
  fun u hu => h.lookup t n i u ht hspec hn hu

/-! ## Products -/

section
variable {flatten flatten' : LindaType → TypeMemo → Except TypeExc (List LindaType × TypeMemo)}

theorem flattenStale_follows {memo : TypeMemo} {t : Option LindaType} (ht : ∀ u ∈ t, U u) :
    Follows (fun r => (∀ e ∈ r.1, U e) ∧ ∀ u ∈ r.2.2, U u) (flattenStale memo t)
      (flattenStale memo t) := by
  cases t with
  | none => exact .error _ _
  | some t =>
    refine .ok ⟨fun e he => ?_, ht⟩
    rw [List.mem_singleton.1 he]
    exact ht t rfl

theorem flattenProductItem_follows (h : Agrees c c' U)
    (hrec : ∀ p memo, U p → Follows (fun r => ∀ e ∈ r.1, U e) (flatten p memo) (flatten' p memo))
    {e : LindaType} (he : U e) {memo : TypeMemo} {t : Option LindaType} (ht : ∀ u ∈ t, U u) :
    Follows (fun r => (∀ e ∈ r.1, U e) ∧ ∀ u ∈ r.2.2, U u)
      (flattenProductItem c flatten e memo t) (flattenProductItem c' flatten' e memo t) := by
  unfold flattenProductItem
  cases hspec : e.typeSpec with
  | product bs =>
    refine (hrec e memo he).bind fun r hr => ?_
    exact .ok ⟨hr, ht⟩
  | id n i =>
    refine .ite (fun hn => ?_) fun _ => flattenStale_follows ht
    refine (h.follows he hspec hn).bind fun u hu => ?_
    have hsome : ∀ v ∈ some u, U v := by
      intro v hv
      cases hv
      exact hu
    refine .ite (fun _ => ?_) fun _ => ?_
    · refine (hrec u memo hu).bind fun r hr => ?_
      exact .ok ⟨hr, hsome⟩
    · refine .ok ⟨fun v hv => ?_, hsome⟩
      rw [List.mem_singleton.1 hv]
      exact hu
  | nil => exact flattenStale_follows ht
  | sum bs => exact flattenStale_follows ht
  | pointer p i => exact flattenStale_follows ht
  | function a r => exact flattenStale_follows ht

theorem flattenProductLoop_follows (h : Agrees c c' U)
    (hrec : ∀ p memo, U p → Follows (fun r => ∀ e ∈ r.1, U e) (flatten p memo) (flatten' p memo))
    (es : List LindaType) : (∀ e ∈ es, U e) → ∀ memo t, (∀ u ∈ t, U u) →
      Follows (fun r => ∀ e ∈ r.1, U e) (flattenProductLoop c flatten es memo t)
        (flattenProductLoop c' flatten' es memo t) := by
  induction es with
  | nil =>
    intro _ memo t _
    exact .ok fun e he => by cases he
  | cons e es ih =>
    intro hes memo t ht
    unfold flattenProductLoop
    refine (flattenProductItem_follows h hrec (hes e List.mem_cons_self) ht).bind fun r hr => ?_
    refine (ih (fun v hv => hes v (List.mem_cons_of_mem _ hv)) r.2.1 r.2.2 hr.2).bind
      fun r' hr' => ?_
    refine .ok fun u hu => ?_
    cases List.mem_append.1 hu with
    | inl hu => exact hr.1 u hu
    | inr hu => exact hr' u hu

end

theorem flattenProductMemo_follows (h : Agrees c c' U) (depth : Nat) : ∀ p memo, U p →
    Follows (fun r => ∀ e ∈ r.1, U e) (flattenProductMemo c depth p memo)
      (flattenProductMemo c' depth p memo) := by
  induction depth with
  | zero =>
    intro p memo _
    exact .error _ _
  | succ depth ih =>
    intro p memo hp
    exact flattenProductLoop_follows h ih p.items (h.items p hp) _ none fun u hu => by cases hu

theorem flattenProductType_follows (h : Agrees c c' U) (depth : Nat) {p : LindaType} (hp : U p) :
    Follows (fun l => ∀ e ∈ l, U e) (flattenProductType c depth p)
      (flattenProductType c' depth p) :=
  (flattenProductMemo_follows h depth p [] hp).map fun _ hr => hr

/-! ## Sums -/

section
variable {flatten flatten' :
  LindaType → TypeMemo → List Nat → Except TypeExc (List SumPart × TypeMemo)}

theorem flattenSumItem_follows (h : Agrees c c' U)
    (hrec : ∀ p memo history, U p →
      Follows (fun r => ∀ e ∈ r.1, U e.1) (flatten p memo history) (flatten' p memo history))
    {e : LindaType} (he : U e) (i : Nat) (memo : TypeMemo) (history : List Nat) :
    Follows (fun r => ∀ e ∈ r.1, U e.1) (flattenSumItem c flatten e i memo history)
      (flattenSumItem c' flatten' e i memo history) := by
  have hone (u : LindaType) (hist : List Nat) (hu : U u) : ∀ v ∈ [(u, hist)], U v.1 := by
    intro v hv
    rw [List.mem_singleton.1 hv]
    exact hu
  unfold flattenSumItem
  cases hspec : e.typeSpec with
  | sum bs => exact hrec e memo _ he
  | id n typeId =>
    refine .ite (fun hn => ?_) fun _ => .ok (hone e _ he)
    refine (h.follows he hspec hn).bind fun u hu => ?_
    exact .ite (fun _ => hrec u memo _ hu) fun _ => .ok (hone u _ hu)
  | nil => exact .ok (hone e _ he)
  | product bs => exact .ok (hone e _ he)
  | pointer p i => exact .ok (hone e _ he)
  | function a r => exact .ok (hone e _ he)

theorem flattenSumLoop_follows (h : Agrees c c' U)
    (hrec : ∀ p memo history, U p →
      Follows (fun r => ∀ e ∈ r.1, U e.1) (flatten p memo history) (flatten' p memo history))
    (history : List Nat) (es : List LindaType) : (∀ e ∈ es, U e) → ∀ i memo,
      Follows (fun r => ∀ e ∈ r.1, U e.1) (flattenSumLoop c flatten history es i memo)
        (flattenSumLoop c' flatten' history es i memo) := by
  induction es with
  | nil =>
    intro _ i memo
    exact .ok fun e he => by cases he
  | cons e es ih =>
    intro hes i memo
    unfold flattenSumLoop
    refine (flattenSumItem_follows h hrec (hes e List.mem_cons_self) i memo history).bind
      fun r hr => ?_
    refine (ih (fun v hv => hes v (List.mem_cons_of_mem _ hv)) (i + 1) r.2).bind fun r' hr' => ?_
    refine .ok fun u hu => ?_
    cases List.mem_append.1 hu with
    | inl hu => exact hr u hu
    | inr hu => exact hr' u hu

end

theorem flattenSumMemo_follows (h : Agrees c c' U) (depth : Nat) : ∀ p memo history, U p →
    Follows (fun r => ∀ e ∈ r.1, U e.1) (flattenSumMemo c depth p memo history)
      (flattenSumMemo c' depth p memo history) := by
  induction depth with
  | zero =>
    intro p memo history _
    exact .error _ _
  | succ depth ih =>
    intro p memo history hp
    exact flattenSumLoop_follows h ih history p.items (h.items p hp) 0 _

theorem flattenSumType_follows (h : Agrees c c' U) (depth : Nat) {p : LindaType} (hp : U p) :
    Follows (fun l => ∀ e ∈ l, U e.1) (flattenSumType c depth p) (flattenSumType c' depth p) :=
  (flattenSumMemo_follows h depth p [] [] hp).map fun _ hr => hr

/-! ## The comparison -/

section
variable {ask ask' : LindaType → LindaType → Checked → Except TypeExc (Option Converter × Checked)}

theorem unfolded_follows
    (hask : ∀ t1 t2 s, U t1 → U t2 → Follows (fun _ => True) (ask t1 t2 s) (ask' t1 t2 s))
    (code : Nat) {t1 t2 : LindaType} (h1 : U t1) (h2 : U t2) (s : Checked) :
    Follows (fun _ => True) (unfolded ask code t1 t2 s) (unfolded ask' code t1 t2 s) := by
  unfold unfolded
  exact (hask t1 t2 s h1 h2).bind fun _ _ => .same _

theorem compareLeft_follows (h : Agrees c c' U)
    (hask : ∀ t1 t2 s, U t1 → U t2 → Follows (fun _ => True) (ask t1 t2 s) (ask' t1 t2 s))
    (code : Nat) {t1 t2 : LindaType} {id1 : String} {i1 : Option String}
    (hspec : t1.typeSpec = .id id1 i1) (h1 : U t1) (h2 : U t2) (s : Checked) :
    Follows (fun _ => True) (compareLeft c ask code t2 id1 i1 s)
      (compareLeft c' ask' code t2 id1 i1 s) := by
  unfold compareLeft
  refine .ite (fun hn => ?_) fun _ => .same _
  exact (h.follows h1 hspec hn).bind fun nt hnt => unfolded_follows hask code hnt h2 s

theorem compareRight_follows (h : Agrees c c' U)
    (hask : ∀ t1 t2 s, U t1 → U t2 → Follows (fun _ => True) (ask t1 t2 s) (ask' t1 t2 s))
    (code : Nat) {t1 t2 : LindaType} {id2 : String} {i2 : Option String}
    (hspec : t2.typeSpec = .id id2 i2) (h1 : U t1) (h2 : U t2) (s : Checked) :
    Follows (fun _ => True) (compareRight c ask code t1 id2 i2 s)
      (compareRight c' ask' code t1 id2 i2 s) := by
  unfold compareRight
  refine .ite (fun hn => ?_) fun _ => .same _
  exact (h.follows h2 hspec hn).bind fun nt hnt => unfolded_follows hask code h1 hnt s

theorem compareBoth_follows (h : Agrees c c' U)
    (hask : ∀ t1 t2 s, U t1 → U t2 → Follows (fun _ => True) (ask t1 t2 s) (ask' t1 t2 s))
    (code : Nat) {t1 t2 : LindaType} {id1 id2 : String} {i1 i2 : Option String}
    (hs1 : t1.typeSpec = .id id1 i1) (hs2 : t2.typeSpec = .id id2 i2) (h1 : U t1) (h2 : U t2)
    (s : Checked) : Follows (fun _ => True) (compareBoth c ask code id1 id2 i1 i2 s)
      (compareBoth c' ask' code id1 id2 i1 i2 s) := by
  unfold compareBoth
  refine .ite (fun hn => ?_) fun _ => .same _
  refine (h.follows h1 hs1 hn.1).bind fun nt1 hnt1 => ?_
  exact (h.follows h2 hs2 hn.2).bind fun nt2 hnt2 => unfolded_follows hask code hnt1 hnt2 s

theorem compareNames_follows (h : Agrees c c' U)
    (hask : ∀ t1 t2 s, U t1 → U t2 → Follows (fun _ => True) (ask t1 t2 s) (ask' t1 t2 s))
    (code : Nat) {t1 t2 : LindaType} {id1 id2 : String} {i1 i2 : Option String}
    (hs1 : t1.typeSpec = .id id1 i1) (hs2 : t2.typeSpec = .id id2 i2) (h1 : U t1) (h2 : U t2)
    (s : Checked) : Follows (fun _ => True) (compareNames c ask code t1 t2 id1 id2 i1 i2 s)
      (compareNames c' ask' code t1 t2 id1 id2 i1 i2 s) := by
  unfold compareNames
  refine (compareLeft_follows h hask code hs1 h1 h2 s).bind fun r _ => ?_
  refine .ite (fun _ => .same _) fun _ => ?_
  refine (compareRight_follows h hask code hs2 h1 h2 r.2).bind fun r' _ => ?_
  exact .ite (fun _ => .same _) fun _ => compareBoth_follows h hask code hs1 hs2 h1 h2 r'.2

theorem compareParts_follows
    (hask : ∀ t1 t2 s, U t1 → U t2 → Follows (fun _ => True) (ask t1 t2 s) (ask' t1 t2 s))
    (es1 : List LindaType) : ∀ es2 s, (∀ e ∈ es1, U e) → (∀ e ∈ es2, U e) →
      Follows (fun _ => True) (compareParts ask es1 es2 s) (compareParts ask' es1 es2 s) := by
  induction es1 with
  | nil =>
    intro es2 s _ _
    exact .same _
  | cons e1 es1 ih =>
    intro es2 s hes1 hes2
    cases es2 with
    | nil => exact .same _
    | cons e2 es2 =>
      refine (hask e1 e2 s (hes1 e1 List.mem_cons_self) (hes2 e2 List.mem_cons_self)).bind
        fun r _ => ?_
      cases r with
      | mk f s =>
        cases f with
        | none => exact .same _
        | some f =>
          refine (Follows.same (s.codeOf e1 e2)).bind fun code _ => ?_
          exact (ih es2 s (fun v hv => hes1 v (List.mem_cons_of_mem _ hv))
            fun v hv => hes2 v (List.mem_cons_of_mem _ hv)).bind fun _ _ => .same _

theorem comparePerm_follows
    (hask : ∀ t1 t2 s, U t1 → U t2 → Follows (fun _ => True) (ask t1 t2 s) (ask' t1 t2 s))
    {t1e t2e : List SumPart} (h1 : ∀ e ∈ t1e, U e.1) (h2 : ∀ e ∈ t2e, U e.1) (perm : List Nat) :
    ∀ i s, Follows (fun _ => True) (comparePerm ask t1e t2e i perm s)
      (comparePerm ask' t1e t2e i perm s) := by
  induction perm with
  | nil =>
    intro i s
    exact .same _
  | cons p perm ih =>
    intro i s
    unfold comparePerm
    cases he1 : t1e[i]? with
    | none => exact .same _
    | some e1 =>
      cases he2 : t2e[p]? with
      | none => exact .same _
      | some e2 =>
        refine (hask e1.1 e2.1 s (h1 e1 (List.mem_of_getElem? he1))
          (h2 e2 (List.mem_of_getElem? he2))).bind fun r _ => ?_
        cases r with
        | mk f s =>
          cases f with
          | none => exact .same _
          | some f =>
            refine (Follows.same (s.codeOf e1.1 e2.1)).bind fun code _ => ?_
            exact (ih (i + 1) _).bind fun _ _ => .same _

theorem comparePerms_follows
    (hask : ∀ t1 t2 s, U t1 → U t2 → Follows (fun _ => True) (ask t1 t2 s) (ask' t1 t2 s))
    (code : Nat) {t1e t2e : List SumPart} (h1 : ∀ e ∈ t1e, U e.1) (h2 : ∀ e ∈ t2e, U e.1)
    (perms : List (List Nat)) : ∀ s, Follows (fun _ => True)
      (comparePerms ask code t1e t2e perms s) (comparePerms ask' code t1e t2e perms s) := by
  induction perms with
  | nil =>
    intro s
    exact .same _
  | cons perm perms ih =>
    intro s
    unfold comparePerms
    exact (comparePerm_follows hask h1 h2 perm 0 s).bind fun r _ => ih _

theorem compareBody_follows (h : Agrees c c' U)
    (hask : ∀ t1 t2 s, U t1 → U t2 → Follows (fun _ => True) (ask t1 t2 s) (ask' t1 t2 s))
    (depth code : Nat) {t1 t2 : LindaType} (h1 : U t1) (h2 : U t2) (s : Checked) :
    Follows (fun _ => True) (compareBody c depth ask code t1 t2 s)
      (compareBody c' depth ask' code t1 t2 s) := by
  unfold compareBody
  split
  · exact .same _
  · rename_i id1 i1 id2 i2 hs1 hs2
    refine .ite (fun _ => .same _) fun _ => ?_
    exact (compareNames_follows h hask code hs1 hs2 h1 h2 s).bind fun _ _ => .same _
  · refine (flattenProductType_follows h depth h1).bind fun l1 hl1 => ?_
    refine (flattenProductType_follows h depth h2).bind fun l2 hl2 => ?_
    refine .ite (fun _ => .same _) fun _ => ?_
    exact (compareParts_follows hask l1 l2 s hl1 hl2).bind fun _ _ => .same _
  · rename_i bs1 bs2 hs1 hs2
    refine (flattenSumType_follows h depth h1).bind fun l1 hl1 => ?_
    refine (flattenSumType_follows h depth h2).bind fun l2 hl2 => ?_
    refine .ite (fun _ => .same _) fun _ => ?_
    exact (comparePerms_follows hask code hl1 hl2 _ s).bind fun _ _ => .same _
  · exact .same _
  · rename_i a1 r1 a2 r2 hs1 hs2
    refine (hask _ _ s (h.arg t1 a1 r1 h1 hs1) (h.arg t2 a2 r2 h2 hs2)).bind fun r _ => ?_
    cases r with
    | mk f s =>
      cases f with
      | none => exact .same _
      | some f =>
        exact (hask _ _ s (h.result t2 a2 r2 h2 hs2) (h.result t1 a1 r1 h1 hs1)).bind
          fun _ _ => .same _
  · exact .same _

end

/-- The comparison of two types does not notice what happens to the types it does not get to. -/
theorem compareTypes_follows (h : Agrees c c' U) (depth : Nat) : ∀ t1 t2 s, U t1 → U t2 →
    Follows (fun _ => True) (compareTypes c depth t1 t2 s) (compareTypes c' depth t1 t2 s) := by
  induction depth with
  | zero =>
    intro t1 t2 s _ _
    exact .error _ _
  | succ depth ih =>
    intro t1 t2 s h1 h2
    unfold compareTypes
    cases s.find t1 t2 with
    | some e => exact .same _
    | none => exact (compareBody_follows h ih depth _ h1 h2 _).bind fun _ _ => .same _

end

end PyLinda.Types
