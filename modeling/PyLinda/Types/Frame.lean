import PyLinda.Types.TypedMatch

/-!
# What matching changes

Matching makes new objects and sets type ids; nothing else of an object that was there
changes, however the match ends. So a stored value is as before if the last type id that a
converter gave it is its own.
-/

namespace PyLinda.Types

open Lib

section
variable {δ : Type}

/-- The object after the settings that are for it. -/
def Obj.setAll (o : Obj δ) (r : Ref) (settings : List (Ref × String)) : Obj δ :=
  settings.foldl (fun o x => if x.1 = r then o.setTypeId x.2 else o) o

/-- The last type id that was set on the object. -/
def lastSet (settings : List (Ref × String)) (r : Ref) : Option String :=
  settings.foldl (fun last x => if x.1 = r then some x.2 else last) none

/-- The type id that `settypeid` sets. -/
def Obj.ownId (o : Obj δ) : Option String :=
  match o.content with
  | .type t => t.typeId
  | _ => o.type.join

/-- What is in a value, through tuples and sums. -/
inductive Within (objs : List (Obj δ)) : Ref → Ref → Prop
  | self (r : Ref) : Within objs r r
  | item (r v u : Ref) (values : List Ref) (type : Option (Option String)) :
    objs[r]? = some ⟨.tuple values, type⟩ → v ∈ values → Within objs v u → Within objs r u
  | inner (r v u : Ref) (pos : Int) (type : Option (Option String)) :
    objs[r]? = some ⟨.sum v pos, type⟩ → Within objs v u → Within objs r u

/-- A value in a stored tuple. -/
def Stored (objs : List (Obj δ)) (contain : List (List Ref)) (r : Ref) : Prop :=
  ∃ t ∈ contain, ∃ e ∈ t, Within objs e r

/-- The objects that were there are as the settings since then have left them. -/
def Traced (s s' : Objects δ) : Prop :=
  ∃ l, s'.settings = s.settings ++ l ∧
    ∀ (r : Ref) (o : Obj δ), s.objs[r]? = some o → s'.objs[r]? = some (o.setAll r l)

theorem Traced.refl (s : Objects δ) : Traced s s :=
  ⟨[], (List.append_nil _).symm, fun _ _ h => h⟩

theorem Traced.trans (s s' s'' : Objects δ) (h : Traced s s') (h' : Traced s' s'') :
    Traced s s'' := by
  obtain ⟨l, hl, ho⟩ := h
  obtain ⟨l', hl', ho'⟩ := h'
  refine ⟨l ++ l', by rw [hl', hl, List.append_assoc], fun r o hr => ?_⟩
  rw [ho' r _ (ho r o hr)]
  unfold Obj.setAll
  rw [List.foldl_append]

/-! ## Every step -/

theorem load_some {r : Ref} {s : Objects δ} {o : Obj δ} (h : s.objs[r]? = some o) :
    load r s = (.ok o, s) := by
  unfold load Eff.look
  simp only [h]

theorem load_none {r : Ref} {s : Objects δ} (h : s.objs[r]? = none) :
    load r s = (.error .systemError, s) := by
  unfold load Eff.look
  simp only [h]

theorem load_traced (r : Ref) : Eff.Keeps Traced (load r : Run δ (Obj δ)) :=
  Eff.Keeps.look Traced.refl _

theorem alloc_traced (o : Obj δ) : Eff.Keeps Traced (alloc o) := by
  intro s
  refine ⟨[], (List.append_nil _).symm, fun r u hr => ?_⟩
  exact (List.getElem?_append_left (List.getElem?_eq_some_iff.1 hr).1).trans hr

theorem setTypeId_traced (r : Ref) (id : Option String) :
    Eff.Keeps Traced (setTypeId r id : Run δ Unit) := by
  intro s
  cases id with
  | none => exact Traced.refl s
  | some id =>
    cases hr : s.objs[r]? with
    | none =>
      have hs : setTypeId r (some id) s = (.error .systemError, s) :=
        Eff.andThen_error (load_none hr) _
      rw [hs]
      exact Traced.refl s
    | some o =>
      have hs : setTypeId r (some id) s = (.ok (), { s with
          objs := s.objs.set r (o.setTypeId id), settings := s.settings ++ [(r, id)] }) :=
        Eff.andThen_ok (load_some hr) _
      rw [hs]
      refine ⟨[(r, id)], rfl, fun q u hq => ?_⟩
      show (s.objs.set r (o.setTypeId id))[q]? = some (if r = q then u.setTypeId id else u)
      by_cases h : r = q
      · subst h
        rw [hr] at hq
        cases hq
        rw [if_pos rfl]
        exact List.getElem?_set_self (List.getElem?_eq_some_iff.1 hr).1
      · rw [if_neg h, List.getElem?_set_ne h]
        exact hq

/-- One step after the other. -/
theorem traced_bind {α β : Type} {x : Run δ α} {f : α → Run δ β} (hx : Eff.Keeps Traced x)
    (hf : ∀ a, Eff.Keeps Traced (f a)) : Eff.Keeps Traced (x >>= f) :=
  Eff.Keeps.andThen Traced.trans hx hf

theorem traced_pure {α : Type} (a : α) : Eff.Keeps Traced (pure a : Run δ α) :=
  Eff.Keeps.ret Traced.refl a

theorem traced_look {α : Type} (f : Objects δ → Except TypeExc α) :
    Eff.Keeps Traced (Eff.look f) :=
  Eff.Keeps.look Traced.refl f

theorem traced_raise {α : Type} (e : TypeExc) : Eff.Keeps Traced (Eff.raise e : Run δ α) :=
  Eff.Keeps.raise Traced.refl e

theorem explodeAll_traced {inner : List Ref → Run δ (List Ref)}
    (hinner : ∀ l, Eff.Keeps Traced (inner l)) (reg : List Ref) :
    Eff.Keeps Traced (explodeAll inner reg) := by
  induction reg with
  | nil => exact traced_pure _
  | cons e reg ih =>
    refine traced_bind (load_traced e) fun o => ?_
    split
    · exact traced_bind (hinner _) fun l => traced_bind ih fun r => traced_pure _
    · exact traced_bind ih fun r => traced_pure _

theorem explode_traced (depth : Nat) (reg : List Ref) :
    Eff.Keeps Traced (explode depth reg : Run δ (List Ref)) := by
  induction depth generalizing reg with
  | zero => exact traced_raise _
  | succ depth ih => exact explodeAll_traced ih reg

theorem takeFirst_traced (reg : List Ref) :
    Eff.Keeps Traced (takeFirst reg : Run δ (Ref × List Ref)) := by
  cases reg with
  | nil => exact traced_raise _
  | cons v reg => exact traced_pure _

theorem constructAll_traced {inner : LindaType → List Ref → Run δ (Ref × List Ref)}
    (hinner : ∀ t reg, Eff.Keeps Traced (inner t reg)) (ts : List LindaType) (reg : List Ref) :
    Eff.Keeps Traced (constructAll inner ts reg) := by
  induction ts generalizing reg with
  | nil => exact traced_pure _
  | cons t ts ih =>
    exact traced_bind (hinner t reg) fun v => traced_bind (ih v.2) fun vs => traced_pure _

section
variable (c : TypeCache)

theorem construct_traced (depth : Nat) (type : LindaType) (reg : List Ref) :
    Eff.Keeps Traced (construct c depth type reg : Run δ (Ref × List Ref)) := by
  induction depth generalizing type reg with
  | zero => exact traced_raise _
  | succ depth ih =>
    unfold construct
    split
    · exact traced_bind (constructAll_traced ih _ reg) fun v =>
        traced_bind (alloc_traced _) fun r => traced_pure _
    · split
      · refine traced_bind (traced_look _) fun t => ?_
        split
        · exact ih t reg
        · exact takeFirst_traced reg
      · exact takeFirst_traced reg
    · exact takeFirst_traced reg

theorem runInstr_traced (depth : Nat) {inner : Nat → Ref → Run δ Ref}
    (hinner : ∀ code v, Eff.Keeps Traced (inner code v)) (i : Instr) (regs : List Ref) :
    Eff.Keeps Traced (runInstr c depth inner i regs) := by
  unfold runInstr
  split
  · exact traced_bind (construct_traced c depth _ regs) fun v => traced_pure _
  · exact traced_raise _
  · exact traced_bind (setTypeId_traced _ _) fun _ => traced_pure _
  · exact traced_bind (hinner _ _) fun v => traced_pure _
  · exact traced_bind (explode_traced depth _) fun l => traced_pure _
  · exact traced_pure _
  · refine traced_bind (load_traced _) fun o => ?_
    split
    · exact traced_bind (traced_look _) fun code => traced_bind (hinner _ _) fun v => traced_pure _
    · exact traced_raise _
  · exact traced_bind (alloc_traced _) fun v => traced_pure _
  · exact traced_raise _

theorem runCode_traced (depth : Nat) {inner : Nat → Ref → Run δ Ref}
    (hinner : ∀ code v, Eff.Keeps Traced (inner code v)) (is : List Instr) (regs : List Ref) :
    Eff.Keeps Traced (runCode c depth inner is regs) := by
  induction is generalizing regs with
  | nil => exact traced_pure _
  | cons i is ih => exact traced_bind (runInstr_traced c depth hinner i regs) ih

theorem convertValue_traced (codes : List (List Instr)) (depth code : Nat) (v : Ref) :
    Eff.Keeps Traced (convertValue c codes depth code v : Run δ Ref) := by
  induction depth generalizing code v with
  | zero => exact traced_raise _
  | succ depth ih =>
    exact traced_bind (traced_look _) fun is => traced_bind (runCode_traced c depth ih is [v])
      fun regs => traced_bind (takeFirst_traced regs) fun v => traced_pure _

section
variable (depth : Nat)
  (wrapFunction : Converter → List (List Instr) → Content δ → Except TypeExc (Obj δ))

theorem lookupIso_traced (t1 t2 : Option String) :
    Eff.Keeps Traced (lookupIso c depth t1 t2 : Run δ (Option SavedIso)) := by
  refine traced_bind (traced_look _) fun saved => ?_
  cases saved with
  | some v => exact traced_pure v
  | none =>
    refine traced_bind (traced_look _) fun t => traced_bind (traced_look _) fun t' =>
      traced_bind (traced_look _) fun f => traced_bind ?_ fun _ => traced_pure _
    exact fun s => ⟨[], (List.append_nil _).symm, fun _ _ h => h⟩

theorem applyIso_traced (iso : SavedIso) (tup : Ref) :
    Eff.Keeps Traced (applyIso c depth wrapFunction iso tup) := by
  unfold applyIso
  split
  · exact convertValue_traced c _ depth _ tup
  · exact traced_raise _
  · exact traced_bind (load_traced tup) fun o => traced_bind (traced_look _) fun f => alloc_traced f

theorem convertFrom_traced (t1 t2 : Option String) (tup : Ref) :
    Eff.Keeps Traced (convertFrom c depth wrapFunction t1 t2 tup) := by
  refine traced_bind (traced_look _) fun templE => traced_bind (traced_look _) fun tupE =>
    traced_bind (lookupIso_traced c depth _ _) fun iso => ?_
  cases iso with
  | none => exact traced_raise _
  | some iso => exact applyIso_traced c depth wrapFunction iso tup

variable [DecidableEq δ]

theorem doesMatchElem_traced (tup templ : Ref) :
    Eff.Keeps Traced (doesMatchElem c depth wrapFunction tup templ) := by
  refine traced_bind (load_traced tup) fun v => traced_bind (load_traced templ) fun p => ?_
  split
  · split
    · exact traced_raise _
    · refine traced_bind (traced_look _) fun i => ?_
      split
      · exact traced_pure _
      · exact convertFrom_traced c depth wrapFunction _ _ tup
  · refine traced_bind (traced_look _) fun i => traced_bind (traced_look _) fun j => ?_
    split
    · refine traced_bind (traced_look _) fun same => ?_
      split
      · exact traced_pure _
      · exact traced_raise _
    · refine traced_bind (convertFrom_traced c depth wrapFunction _ _ tup) fun v =>
        traced_bind (traced_look _) fun same => ?_
      split
      · exact traced_pure _
      · exact traced_raise _

theorem doesMatchElems_traced (tups : List Ref) :
    ∀ templs, Eff.Keeps Traced (doesMatchElems c depth wrapFunction tups templs) := by
  induction tups with
  | nil =>
    intro templs
    exact traced_pure _
  | cons tup tups ih =>
    intro templs
    cases templs with
    | nil => exact traced_pure _
    | cons templ templs =>
      exact traced_bind (doesMatchElem_traced c depth wrapFunction tup templ) fun e =>
        traced_bind (ih templs) fun l => traced_pure _

theorem matchTuples_traced (template : List Ref) (contain : List (List Ref)) :
    Eff.Keeps Traced (matchTuples c depth wrapFunction template contain) := by
  induction contain with
  | nil => exact traced_pure _
  | cons t ts ih =>
    unfold matchTuples
    split
    · exact ih
    · refine traced_bind (Eff.Keeps.attempt _ ?_) fun r => traced_bind ih fun l => traced_pure _
      unfold doesMatchTypes
      split
      · exact traced_raise _
      · exact doesMatchElems_traced c depth wrapFunction t template

end

end

/-! ## The last setting decides -/

theorem Obj.setTypeId_setTypeId (o : Obj δ) (a b : String) :
    (o.setTypeId a).setTypeId b = o.setTypeId b := by
  cases o with
  | mk content type => cases content <;> rfl

theorem Obj.setTypeId_eq_iff (o : Obj δ) (id : String) : o.setTypeId id = o ↔ o.ownId = some id := by
  have hjoin : ∀ i : Option (Option String), some (some id) = i ↔ i.join = some id := by
    intro i
    cases i with
    | none => simp
    | some i => simp [eq_comm]
  cases o with
  | mk content type =>
    cases content with
    | type t =>
      show (⟨.type { t with typeId := some id }, type⟩ : Obj δ) = ⟨.type t, type⟩ ↔ t.typeId = some id
      cases t
      simp [eq_comm]
    | data d =>
      show (⟨.data d, some (some id)⟩ : Obj δ) = ⟨.data d, type⟩ ↔ type.join = some id
      rw [← hjoin, Obj.mk.injEq, and_iff_right rfl]
    | tuple values =>
      show (⟨.tuple values, some (some id)⟩ : Obj δ) = ⟨.tuple values, type⟩ ↔ type.join = some id
      rw [← hjoin, Obj.mk.injEq, and_iff_right rfl]
    | sum value pos =>
      show (⟨.sum value pos, some (some id)⟩ : Obj δ) = ⟨.sum value pos, type⟩ ↔ type.join = some id
      rw [← hjoin, Obj.mk.injEq, and_iff_right rfl]

/-- Only the last setting for the object counts. -/
theorem Obj.setAll_eq (o : Obj δ) (r : Ref) (l : List (Ref × String)) :
    o.setAll r l = (lastSet l r).elim o o.setTypeId := by
  have hgen : ∀ (last : Option String), l.foldl (fun o x => if x.1 = r then o.setTypeId x.2 else o)
      (last.elim o o.setTypeId) =
        (l.foldl (fun last x => if x.1 = r then some x.2 else last) last).elim o o.setTypeId := by
    induction l with
    | nil =>
      intro last
      rfl
    | cons x l ih =>
      intro last
      rw [List.foldl_cons, List.foldl_cons, ← ih]
      congr 1
      by_cases h : x.1 = r
      · rw [if_pos h, if_pos h]
        cases last with
        | none => rfl
        | some id => exact o.setTypeId_setTypeId id x.2
      · rw [if_neg h, if_neg h]
  exact hgen none

/-- The search for a template, over the stored tuples up to a point. -/
def searched [DecidableEq δ] (c : TypeCache) (depth : Nat)
    (wrapFunction : Converter → List (List Instr) → Content δ → Except TypeExc (Obj δ))
    (objs : List (Obj δ)) (isos : List (Option String × Option String × Option SavedIso))
    (template : List Ref) (contain : List (List Ref)) (n : Nat) : Objects δ :=
  (matchTuples c depth wrapFunction template (contain.take n) ⟨objs, isos, []⟩).2

end

/-- `A :: int32; B :: int32;`. -/
def twoInts : TypeCache
  | "A" => some ⟨"A", .id "int32" (some "int32"), some "A"⟩
  | "B" => some ⟨"B", .id "int32" (some "int32"), some "B"⟩
  | _ => none

end PyLinda.Types
