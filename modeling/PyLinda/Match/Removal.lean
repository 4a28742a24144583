import PyLinda.TupleSpace

/-!
# Removing what was found

`delete` is given the tuple that was found and searches for it as if it were a template, so a
stored tuple with a type in it may stand for another tuple, or not even for itself. `collect`
deletes one tuple after the other in this way.
-/

namespace PyLinda

/-- No element is a tuple. -/
def Tuple.IsFlat (t : Tuple) : Prop := ∀ v ∈ t, v.isTuple = false

/-! ## Stored tuples as templates -/

/-- The name that `compare` looks at. -/
def Value.typeName? (v : Value) : Option String := v.type?.bind TypeVal.id?

theorem doesMatchLeaf_formal_ok {v : Value} {t : TypeVal}
    (h : doesMatchLeaf v (.val (.type t)) = .ok ()) : ∃ s, v.typeName? = some s ∧ t.id? = some s := by
  unfold Value.typeName?
  simp only [doesMatchLeaf, compare, Option.bind_some] at h
  cases hv : v.type?.bind TypeVal.id? with
  | none =>
    simp only [hv] at h
    cases h
  | some a =>
    cases ht : t.id? with
    | none =>
      simp only [hv, ht] at h
      cases h
    | some b =>
      simp only [hv, ht] at h
      by_cases hab : a = b
      · exact ⟨a, rfl, congrArg some hab.symm⟩
      · simp only [hab, decide_false] at h
        cases h

/-- How a leaf against a value ends once the types are compared. -/
def leafEnd (v w : Value) : Except PyExc Bool → Except PyExc Unit
  | .ok true => if v.pyEq w then .ok () else .error .noTupleMatch
  | .ok false => .error .noTupleMatch
  | .error e => .error e

theorem doesMatchLeaf_value {v w : Value} (hw : w.isType = false) :
    doesMatchLeaf v (.val w) = leafEnd v w (compare v.type? w.type?) := by
  cases w with
  | type t => cases hw
  | _ => rfl

theorem doesMatchLeaf_value_ok {v w : Value} (hw : w.isType = false)
    (h : doesMatchLeaf v (.val w) = .ok ()) :
    ∃ s, v.typeName? = some s ∧ w.typeName? = some s ∧ v.pyEq w = true := by
  have hbody := (doesMatchLeaf_value hw).symm.trans h
  unfold Value.typeName?
  unfold compare at hbody
  cases hv : v.type?.bind TypeVal.id? with
  | none =>
    simp only [hv] at hbody
    cases hbody
  | some a =>
    cases ht : w.type?.bind TypeVal.id? with
    | none =>
      simp only [hv, ht] at hbody
      cases hbody
    | some b =>
      simp only [hv, ht] at hbody
      by_cases hab : a = b
      · subst hab
        simp only [decide_true, leafEnd] at hbody
        by_cases heq : v.pyEq w = true
        · exact ⟨a, rfl, rfl, heq⟩
        · rw [if_neg heq] at hbody
          cases hbody
      · simp only [hab, decide_false] at hbody
        cases hbody

/-- What names itself is a type. -/
theorem isType_of_typeName {v : Value} (h : v.typeName? = some "type") : v.isType = true := by
  cases v with
  | type t => rfl
  | nil => cases h
  | boolean b => exact absurd (Option.some.inj h) (by decide)
  | integer i => exact absurd (Option.some.inj h) (by decide)
  | uinteger n => exact absurd (Option.some.inj h) (by decide)
  | float f => exact absurd (Option.some.inj h) (by decide)
  | string s => exact absurd (Option.some.inj h) (by decide)
  | tsref i => exact absurd (Option.some.inj h) (by decide)
  | _ => cases h

theorem CFloat.lt_irrefl (f : CFloat) : f.lt f = false := by
  cases f with
  | nan => rfl
  | inf b => cases b <;> rfl
  | finite q => simp [CFloat.lt]

/-- A value that is not a type equals itself if its type has a name. -/
theorem pyEq_self {v : Value} {s : String} (hv : v.isType = false) (h : v.typeName? = some s) :
    v.pyEq v = true := by
  cases v with
  | boolean b => cases b <;> rfl
  | integer i => simp [Value.pyEq, Value.cmp, cmp3]
  | uinteger n => simp [Value.pyEq, Value.cmp, cmp3]
  | float f => simp [Value.pyEq, Value.cmp, cmp3, CFloat.lt_irrefl]
  | string s => simp [Value.pyEq, Value.cmp, strcmp_eq_zero]
  | tsref i => simp [Value.pyEq, Value.cmp]
  | type t => cases hv
  | _ => cases h

theorem doesMatchLeaf_self {v : Value} {s : String} (hv : v.isType = false)
    (h : v.typeName? = some s) : doesMatchLeaf v (.val v) = .ok () := by
  have hself := pyEq_self hv h
  have hcompare : compare v.type? v.type? = .ok true := by
    unfold Value.typeName? at h
    unfold compare
    simp only [h, decide_true]
  cases v with
  | type t => cases hv
  | _ => simp only [doesMatchLeaf, hcompare, hself, if_true]

/-- If what `v` is found with also finds `w`, and `w` is found with `v`, then `v` is found
with itself: a type in `v` stands for a type. -/
theorem doesMatchValue_self_of {v w q : Value} (hv : v.isTuple = false) (hw : w.isTuple = false)
    (hwv : doesMatchValue w (.val v) = .ok ()) (hvq : doesMatchValue v (.val q) = .ok ())
    (hwq : doesMatchValue w (.val q) = .ok ()) : doesMatchValue v (.val v) = .ok () := by
  rw [doesMatchValue_leaf hw] at hwv hwq
  rw [doesMatchValue_leaf hv] at hvq ⊢
  cases hq : q.isType with
  | false =>
    obtain ⟨s, hvs, hqs, heq⟩ := doesMatchLeaf_value_ok hq hvq
    cases hvt : v.isType with
    | false => exact doesMatchLeaf_self hvt hvs
    | true =>
      -- the type of a type is a name of `type`, and only types have it
      obtain ⟨t, rfl⟩ : ∃ t, v = .type t := by
        cases v with
        | type t => exact ⟨t, rfl⟩
        | _ => cases hvt
      cases hvs
      rw [isType_of_typeName hqs] at hq
      cases hq
  | true =>
    obtain ⟨tq, rfl⟩ : ∃ t, q = .type t := by
      cases q with
      | type t => exact ⟨t, rfl⟩
      | _ => cases hq
    obtain ⟨s, hvs, htq⟩ := doesMatchLeaf_formal_ok hvq
    obtain ⟨s', hws, htq'⟩ := doesMatchLeaf_formal_ok hwq
    obtain rfl : s = s' := Option.some.inj (htq.symm.trans htq')
    cases hvt : v.isType with
    | false => exact doesMatchLeaf_self hvt hvs
    | true =>
      obtain ⟨t, rfl⟩ : ∃ t, v = .type t := by
        cases v with
        | type t => exact ⟨t, rfl⟩
        | _ => cases hvt
      obtain ⟨s', hws', ht⟩ := doesMatchLeaf_formal_ok hwv
      obtain rfl : s = s' := Option.some.inj (hws.symm.trans hws')
      cases hvs
      have hcompare : compare (some typeType) (some t) = .ok true := by
        rw [compare_some (s := "type") (t := "type") rfl ht, decide_eq_true rfl]
      simp only [doesMatchLeaf, Value.type?, hcompare]

theorem matches_self_of {t u p : Tuple} (ht : t.IsFlat) (hu : u.IsFlat) (hut : Matches u t)
    (htp : Matches t p) (hup : Matches u p) : Matches t t := by
  induction t generalizing u p with
  | nil => exact matches_iff.2 ⟨rfl, rfl⟩
  | cons v t ih =>
    cases u with
    | nil => cases hut.length_eq
    | cons w u =>
      cases p with
      | nil => cases htp.length_eq
      | cons q p =>
        obtain ⟨hwv, hut⟩ := matches_cons_iff.1 hut
        obtain ⟨hvq, htp⟩ := matches_cons_iff.1 htp
        obtain ⟨hwq, hup⟩ := matches_cons_iff.1 hup
        refine matches_cons_iff.2 ⟨?_, ?_⟩
        · exact doesMatchValue_self_of (ht v List.mem_cons_self) (hu w List.mem_cons_self) hwv hvq hwq
        · exact ih (fun x hx => ht x (List.mem_cons_of_mem _ hx))
            (fun x hx => hu x (List.mem_cons_of_mem _ hx)) hut htp hup

/-! ## Deleting what was found -/

/-- `p` finds `t` behind `before`: as the first match, or as one of many in a search that
does not fail. -/
structure Found (l : List Tuple) (p : Tuple) (before : List Tuple) (t : Tuple) : Prop where
  split : ∃ after, l = before ++ t :: after
  matched : Matches t p
  reached : (∀ x ∈ before, Skips x p) ∨ ∀ x ∈ l, Matches x p ∨ Skips x p

/-- What is found is found with itself too, and what was skipped is skipped with it. -/
def Replayed (l : List Tuple) (p : Tuple) : Prop :=
  ∀ before t, Found l p before t → Matches t t ∧ ∀ x ∈ before, Skips x p → Skips x t

/-- After a search, deleting removes what was found; collecting leaves what does not match. -/
structure Removes (s : TupleSpace) (p : Tuple) : Prop where
  one : ∀ real matched, s.ts.matchOneTuple p = .ok (some (real, matched)) →
    ∃ c, s.ts.delete real = .ok c ∧ ∃ before after,
      s.ts.contain = before ++ real :: after ∧ c.contain = before ++ after
  all : ∀ m, s.ts.matchTuples p = .ok m → (∃ r, (s.collect p).result = .ok r) ∧
    (s.collect p).ts.ts.contain = s.ts.contain.filter fun t => ¬ Matches t p

/-- A search that does not fail returns all matches. -/
theorem matchAll_total {p : Tuple} {l : List Tuple} (h : ∀ x ∈ l, Matches x p ∨ Skips x p) :
    ∃ m, matchAll p l = .ok m := by
  induction l with
  | nil => exact ⟨[], rfl⟩
  | cons x l ih =>
    obtain ⟨m, hm⟩ := ih fun y hy => h y (List.mem_cons_of_mem _ hy)
    rcases h x List.mem_cons_self with hx | hx
    · exact ⟨_, by simp only [matchAll, tryMatch_some.2 ⟨hx, rfl⟩, hm]; rfl⟩
    · exact ⟨_, by simp only [matchAll, tryMatch_none.2 hx, hm]; rfl⟩

/-- The deletions of `collect`, for these tuples. -/
def deleteEach (l : List Tuple) (ms : List Tuple) : TupleContainer × Option PyExc :=
  deleteAll ⟨l⟩ (ms.map fun t => (t, t))

theorem deleteEach_cons {l l' ms : List Tuple} {t : Tuple} (h : deleteFirst t l = .ok l') :
    deleteEach l (t :: ms) = deleteEach l' ms := by
  unfold deleteEach
  rw [List.map_cons, deleteAll]
  simp only [TupleContainer.delete, h]

theorem deleteEach_error {l ms : List Tuple} {t : Tuple} {e : PyExc}
    (h : deleteFirst t l = .error e) : deleteEach l (t :: ms) = (⟨l⟩, some e) := by
  unfold deleteEach
  rw [List.map_cons, deleteAll]
  simp only [TupleContainer.delete, h]

/-- Deleting takes away at most as many tuples as it is given, and adds none. -/
theorem deleteEach_bounds (ms : List Tuple) : ∀ l c, deleteEach l ms = (c, none) →
    c.contain.Sublist l ∧ l.length ≤ c.contain.length + ms.length := by
  induction ms with
  | nil =>
    intro l c h
    cases h
    exact ⟨List.Sublist.refl l, Nat.le_refl _⟩
  | cons t ms ih =>
    intro l c h
    cases hd : deleteFirst t l with
    | error e =>
      rw [deleteEach_error hd] at h
      cases congrArg Prod.snd h
    | ok l' =>
      rw [deleteEach_cons hd] at h
      obtain ⟨hsub, hlen⟩ := ih l' c h
      have hshort : l.length ≤ l'.length + 1 := by
        rcases deleteFirst_cases t l with ⟨_, hd'⟩ | ⟨before, u, after, hl, _, _, hd'⟩ | ⟨e, _, hd'⟩
        · rw [hd] at hd'
          cases hd'
          omega
        · rw [hd] at hd'
          cases hd'
          subst hl
          simp only [List.length_append, List.length_cons]
          omega
        · rw [hd] at hd'
          cases hd'
      refine ⟨hsub.trans (deleteFirst_sublist hd), ?_⟩
      simp only [List.length_cons]
      omega

/-- The tuples that are found in `rest` can be deleted again one by one, behind what is kept. -/
def Replays (p : Tuple) (kept rest : List Tuple) : Prop :=
  ∀ between t after, rest = between ++ t :: after → Matches t p →
    Matches t t ∧ ∀ x ∈ kept ++ between, ¬ Matches x p → Skips x t

/-- The matches of `rest` in front, and behind, a tuple that stays. -/
theorem Replays.pass {p x : Tuple} {kept rest : List Tuple} (hx : ¬ Matches x p) :
    Replays p kept (x :: rest) ↔ Replays p (kept ++ [x]) rest := by
  constructor
  · intro h between t after hrest ht
    obtain ⟨htt, hskip⟩ := h (x :: between) t after (congrArg (x :: ·) hrest) ht
    refine ⟨htt, fun y hy => hskip y ?_⟩
    rw [List.append_assoc] at hy
    exact hy
  · intro h between t after hrest ht
    cases between with
    | nil =>
      cases hrest
      exact absurd ht hx
    | cons y between =>
      cases hrest
      obtain ⟨htt, hskip⟩ := h between t after rfl ht
      refine ⟨htt, fun y hy => hskip y ?_⟩
      rw [List.append_assoc]
      exact hy

theorem Replays.take {p x : Tuple} {kept rest : List Tuple} (hx : Matches x p) :
    Replays p kept (x :: rest) ↔
      (Matches x x ∧ ∀ y ∈ kept, ¬ Matches y p → Skips y x) ∧ Replays p kept rest := by
  constructor
  · intro h
    have hhead := h [] x rest rfl hx
    rw [List.append_nil] at hhead
    refine ⟨hhead, fun between t after hrest ht => ?_⟩
    obtain ⟨htt, hskip⟩ := h (x :: between) t after (congrArg (x :: ·) hrest) ht
    refine ⟨htt, fun y hy => hskip y ?_⟩
    rcases List.mem_append.1 hy with hy | hy
    · exact List.mem_append_left _ hy
    · exact List.mem_append_right _ (List.mem_cons_of_mem _ hy)
  · intro h between t after hrest ht
    cases between with
    | nil =>
      cases hrest
      rw [List.append_nil]
      exact h.1
    | cons y between =>
      cases hrest
      obtain ⟨htt, hskip⟩ := h.2 between t after rfl ht
      refine ⟨htt, fun y hy hn => ?_⟩
      rcases List.mem_append.1 hy with hy | hy
      · exact hskip y (List.mem_append_left _ hy) hn
      · rcases List.mem_cons.1 hy with rfl | hy
        · exact absurd hx hn
        · exact hskip y (List.mem_append_right _ hy) hn

/-- If the deletions end as they should, the first of them takes the tuple that was found:
taking another one that matches shows that the tuple is found with itself. -/
theorem deleteEach_head {p x : Tuple} {kept rest : List Tuple} (hkept : ∀ y ∈ kept, ¬ Matches y p)
    (hflat : ∀ y ∈ kept ++ x :: rest, y.IsFlat) (hx : Matches x p)
    (h : deleteEach (kept ++ x :: rest) (x :: rest.filter fun t => Matches t p) =
      (⟨kept ++ rest.filter fun t => ¬ Matches t p⟩, none)) :
    Matches x x ∧ ∀ y ∈ kept, Skips y x := by
  rcases deleteFirst_cases x (kept ++ x :: rest) with
    ⟨_, hd⟩ | ⟨before, y, after, hl, hskip, hyx, hd⟩ | ⟨e, _, hd⟩
  · -- nothing was deleted, so too much is left at the end
    rw [deleteEach_cons hd] at h
    have hlen := (deleteEach_bounds _ _ _ h).2
    have hcount := List.length_eq_countP_add_countP (fun t => decide (Matches t p)) (l := rest)
    simp only [List.countP_eq_length_filter, decide_eq_true_eq] at hcount
    simp only [List.length_append, List.length_cons] at hlen
    omega
  · rw [deleteEach_cons hd] at h
    have hyp : Matches y p := by
      refine Decidable.byContradiction fun hn => ?_
      -- a tuple that stays was deleted, and does not come back
      have hsub := List.Sublist.countP_le (p := fun t => decide (¬ Matches t p))
        (deleteEach_bounds _ _ _ h).1
      have hall := congrArg (List.countP fun t => decide (¬ Matches t p)) hl
      simp only [List.countP_append, List.countP_cons, List.countP_filter, hn, hx,
        not_true_eq_false, not_false_eq_true, decide_true, decide_false, if_true,
        Bool.false_eq_true, if_false, Bool.and_self] at hsub hall
      omega
    have hymem : y ∈ kept ++ x :: rest := hl ▸ List.mem_append_right _ List.mem_cons_self
    have hxmem : x ∈ kept ++ x :: rest := List.mem_append_right _ List.mem_cons_self
    have hself := matches_self_of (hflat x hxmem) (hflat y hymem) hyx hx hyp
    refine ⟨hself, fun z hz => ?_⟩
    rcases List.append_eq_append_iff.1 hl with ⟨as, hbefore, _⟩ | ⟨cs, hk, hcs⟩
    · exact hskip z (hbefore ▸ List.mem_append_left _ hz)
    · cases cs with
      | nil =>
        rw [List.append_nil] at hk
        exact hskip z (hk ▸ hz)
      | cons u cs =>
        cases hcs
        exact absurd hyp (hkept _ (hk ▸ List.mem_append_right _ List.mem_cons_self))
  · rw [deleteEach_error hd] at h
    cases congrArg Prod.snd h

/-- `collect` leaves what does not match exactly if what it found can be deleted again. -/
theorem deleteEach_iff (p : Tuple) (rest : List Tuple) : ∀ kept, (∀ x ∈ kept, ¬ Matches x p) →
    (∀ x ∈ kept ++ rest, x.IsFlat) →
    (deleteEach (kept ++ rest) (rest.filter fun t => Matches t p) =
        (⟨kept ++ rest.filter fun t => ¬ Matches t p⟩, none) ↔ Replays p kept rest) := by
  induction rest with
  | nil =>
    intro kept _ _
    refine iff_of_true rfl fun between t after hrest => ?_
    cases between <;> cases hrest
  | cons x rest ih =>
    intro kept hkept hflat
    by_cases hx : Matches x p
    · have hmatch : (x :: rest).filter (fun t => Matches t p) =
          x :: rest.filter fun t => Matches t p := List.filter_cons_of_pos (decide_eq_true hx)
      have hstay : (x :: rest).filter (fun t => ¬ Matches t p) =
          rest.filter fun t => ¬ Matches t p :=
        List.filter_cons_of_neg (by simpa using hx)
      have hflat' : ∀ y ∈ kept ++ rest, y.IsFlat := by
        intro y hy
        rcases List.mem_append.1 hy with hy | hy
        · exact hflat y (List.mem_append_left _ hy)
        · exact hflat y (List.mem_append_right _ (List.mem_cons_of_mem _ hy))
      have hxflat : x.IsFlat := hflat x (List.mem_append_right _ List.mem_cons_self)
      rw [hmatch, hstay, Replays.take hx, ← ih kept hkept hflat']
      constructor
      · intro h
        obtain ⟨hself, hskip⟩ := deleteEach_head hkept hflat hx h
        refine ⟨⟨hself, fun y hy _ => hskip y hy⟩, ?_⟩
        rw [deleteEach_cons (deleteFirst_append hskip hself)] at h
        exact h
      · rintro ⟨⟨hself, hskip⟩, h⟩
        rw [deleteEach_cons (deleteFirst_append (fun y hy => hskip y hy (hkept y hy)) hself)]
        exact h
    · have hmatch : (x :: rest).filter (fun t => Matches t p) = rest.filter fun t => Matches t p :=
        List.filter_cons_of_neg (by simpa using hx)
      have hstay : (x :: rest).filter (fun t => ¬ Matches t p) =
          x :: rest.filter fun t => ¬ Matches t p :=
        List.filter_cons_of_pos (decide_eq_true hx)
      have hkept' : ∀ y ∈ kept ++ [x], ¬ Matches y p := by
        intro y hy
        rcases List.mem_append.1 hy with hy | hy
        · exact hkept y hy
        · exact List.mem_singleton.1 hy ▸ hx
      have hmove : ∀ l : List Tuple, kept ++ [x] ++ l = kept ++ x :: l := fun l => by
        rw [List.append_assoc]
        rfl
      have hih := ih (kept ++ [x]) hkept' (by rw [hmove]; exact hflat)
      rw [hmove, hmove] at hih
      rw [Replays.pass hx, hmatch, hstay]
      exact hih

/-- A tuple taken out of a list, and one that could have been taken with the same effect, agree
on every property. -/
theorem countP_of_erased {q : Tuple → Bool} {l before after before' after' : List Tuple} {t y : Tuple}
    (hl : l = before ++ y :: after) (hl' : l = before' ++ t :: after')
    (h : before ++ after = before' ++ after') : q y = q t := by
  have hc := congrArg (List.countP q) (hl.symm.trans hl')
  have hr := congrArg (List.countP q) h
  simp only [List.countP_append, List.countP_cons] at hc hr
  cases hy : q y <;> cases ht : q t <;> simp [hy, ht] at hc ⊢ <;> omega

/-- The first match is deleted again, and nothing in front of it. -/
theorem Removes.first {s : TupleSpace} {p t : Tuple} {before after : List Tuple} (h : Removes s p)
    (hl : s.ts.contain = before ++ t :: after) (hb : ∀ x ∈ before, Skips x p)
    (ht : Matches t p) : Matches t t ∧ ∀ x ∈ before, Skips x t := by
  have hfirst : s.ts.matchOneTuple p = .ok (some (t, t)) := by
    unfold TupleContainer.matchOneTuple
    rw [hl]
    exact matchFirst_append hb ht
  obtain ⟨c, hc, before', after', hl', hc'⟩ := h.one t t hfirst
  unfold TupleContainer.delete at hc
  rcases deleteFirst_cases t s.ts.contain with
    ⟨_, hd⟩ | ⟨b, y, a, hy, hskip, hyt, hd⟩ | ⟨e, _, hd⟩
  · rw [hd] at hc
    cases hc
    have hlen := congrArg List.length (hl'.symm.trans hc')
    simp only [List.length_append, List.length_cons] at hlen
    omega
  · rw [hd] at hc
    cases hc
    have hself := countP_of_erased (q := fun u => decide (Matches u t)) hy hl' hc'
    have hfound := countP_of_erased (q := fun u => decide (Matches u p)) hy hl' hc'
    have hyp : Matches y p := of_decide_eq_true (hfound.trans (decide_eq_true ht))
    refine ⟨of_decide_eq_true (hself.symm.trans (decide_eq_true hyt)), fun x hx => ?_⟩
    rcases List.append_eq_append_iff.1 (hl.symm.trans hy) with ⟨as, hbs, _⟩ | ⟨cs, hbs, hcs⟩
    · exact hskip x (hbs ▸ List.mem_append_left _ hx)
    · cases cs with
      | nil =>
        rw [List.append_nil] at hbs
        exact hskip x (hbs ▸ hx)
      | cons u cs =>
        -- the tuple that was deleted would be one that does not match
        cases hcs
        exact absurd (hb _ (hbs ▸ List.mem_append_right _ List.mem_cons_self)) hyp.not_skips
  · rw [hd] at hc
    cases hc

theorem collect_eq {s : TupleSpace} {p : Tuple} {m : List (Tuple × Tuple)}
    (h : s.ts.matchTuples p = .ok m) :
    ((∃ r, (s.collect p).result = .ok r) ∧
      (s.collect p).ts.ts.contain = s.ts.contain.filter fun t => ¬ Matches t p) ↔
      deleteEach s.ts.contain (s.ts.contain.filter fun t => Matches t p) =
        (⟨s.ts.contain.filter fun t => ¬ Matches t p⟩, none) := by
  obtain ⟨rfl, _⟩ := matchAll_ok h
  show _ ↔ deleteAll s.ts _ = _
  unfold TupleSpace.collect
  simp only [h]
  generalize deleteAll s.ts _ = d
  obtain ⟨c, e⟩ := d
  cases e with
  | none =>
    constructor
    · rintro ⟨_, hc⟩
      exact congrArg (fun l => (TupleContainer.mk l, none)) hc
    · intro hc
      exact ⟨⟨_, rfl⟩, congrArg (fun d => d.1.contain) hc⟩
  | some e =>
    constructor
    · rintro ⟨⟨r, hr⟩, _⟩
      cases hr
    · intro hc
      cases congrArg Prod.snd hc

/-- Removing is exact exactly if what the template finds is found with itself, and the tuples
in front of it that the template skips are skipped with it. -/
theorem removal_exact_iff (s : TupleSpace) (p : Tuple) (hflat : ∀ t ∈ s.ts.contain, t.IsFlat) :
    Removes s p ↔ Replayed s.ts.contain p := by
  have hreplays := deleteEach_iff p s.ts.contain [] (fun x hx => by cases hx) hflat
  rw [List.nil_append, List.nil_append] at hreplays
  constructor
  · intro h before t hf
    obtain ⟨after, hl⟩ := hf.split
    rcases hf.reached with hb | hall
    · obtain ⟨hself, hskip⟩ := h.first hl hb hf.matched
      exact ⟨hself, fun x hx _ => hskip x hx⟩
    · obtain ⟨m, hm⟩ := matchAll_total hall
      obtain ⟨hself, hskip⟩ := hreplays.1 ((collect_eq hm).1 (h.all m hm)) before t after hl hf.matched
      exact ⟨hself, fun x hx hs => hskip x hx fun hn => hn.not_skips hs⟩
  · intro h
    refine ⟨?_, ?_⟩
    · intro real matched hm
      obtain ⟨rfl, hreal, before, after, hl, hb⟩ := matchFirst_some hm
      obtain ⟨hself, hskip⟩ := h before matched ⟨⟨after, hl⟩, hreal, Or.inl hb⟩
      have hd : deleteFirst matched s.ts.contain = .ok (before ++ after) := by
        rw [hl]
        exact deleteFirst_append (fun x hx => hskip x hx (hb x hx)) hself
      refine ⟨⟨before ++ after⟩, ?_, before, after, hl, rfl⟩
      unfold TupleContainer.delete
      rw [hd]
    · intro m hm
      obtain ⟨_, hall⟩ := matchAll_ok hm
      refine (collect_eq hm).2 (hreplays.2 fun between t after hl ht => ?_)
      obtain ⟨hself, hskip⟩ := h between t ⟨⟨after, hl⟩, ht, Or.inr hall⟩
      refine ⟨hself, fun x hx hn => ?_⟩
      rw [List.nil_append] at hx
      have hmem : x ∈ s.ts.contain := hl ▸ List.mem_append_left _ hx
      exact hskip x hx ((hall x hmem).resolve_left hn)

theorem removal_exact_numbers :
    Removes { TupleSpace.init .uts with ts := ⟨[[.integer 4], [.integer 5]]⟩ } [.integer 5] := by
  refine (removal_exact_iff _ _ fun t ht v hv => ?_).2 fun before t hf => ?_
  · rcases List.mem_cons.1 ht with rfl | ht
    · obtain rfl := List.mem_singleton.1 hv
      rfl
    · obtain rfl := List.mem_singleton.1 ht
      obtain rfl := List.mem_singleton.1 hv
      rfl
  · obtain ⟨after, hl⟩ := hf.split
    have hfour : Skips [.integer 4] [.integer 5] := rfl
    cases before with
    | nil =>
      cases hl
      exact absurd hfour hf.matched.not_skips
    | cons x before =>
      cases before with
      | nil =>
        cases hl
        exact ⟨rfl, fun x hx _ => List.mem_singleton.1 hx ▸ hfour⟩
      | cons y before =>
        have hlen := congrArg List.length hl
        simp at hlen

/-- Taking the type `int64` out takes the number away. -/
theorem type_not_removed :
    ¬ ∀ (s : TupleSpace) (p : Tuple), (∀ t ∈ s.ts.contain, t.IsFlat) → Removes s p := by
  intro h
  have hflat : ∀ t ∈ [[Value.integer 5], [.type longType]], Tuple.IsFlat t := by
    intro t ht v hv
    rcases List.mem_cons.1 ht with rfl | ht
    · obtain rfl := List.mem_singleton.1 hv
      rfl
    · obtain rfl := List.mem_singleton.1 ht
      obtain rfl := List.mem_singleton.1 hv
      rfl
  have hr := (h { TupleSpace.init .uts with ts := ⟨[[.integer 5], [.type longType]]⟩ }
    [.type typeType] hflat).all _ rfl
  have hhead := congrArg (fun l => l.head?.bind List.head?) hr.2
  exact absurd hhead (fun hc => by cases hc)

end PyLinda
