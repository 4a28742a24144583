import PyLinda.Partition.Missed

/-!
# Conservation of tuples

A ledger of the tuples that went in and out. `delete` removes the first stored
tuple that matches the one it is given, and `collect` deletes its finds one by
one, so a tuple stays on the books only where these searches come to the tuple
they were started for.
-/

namespace PyLinda

open Lib

structure Ledger where
  ts : TupleSpace
  /-- Passed to an `_out` that returned normally. -/
  accepted : List Tuple
  /-- Handed to a destructive reader or returned by `collect`. -/
  delivered : List Tuple

def Ledger.init (id : TsId) : Ledger := ⟨.init id, [], []⟩

/-- The tuple a woken reader gets, when it issued a destructive request. -/
def Spawn.consumed (s : TupleSpace) : Spawn → Option Tuple
  | .returnTuple tid matched _ =>
    if (s.blockedList.get? tid).any Blocked.destructive then some matched else none
  | _ => none

/-- The tuples a step delivers destructively. -/
def Op.delivered (s : TupleSpace) : Op → List Tuple
  | out tup => (s._out tup).spawned.filterMap (Spawn.consumed s)
  | take tid pattern u =>
    match (s._in tid pattern u).result with
    | .ok (some r) => [r]
    | _ => []
  | collect pattern =>
    match (s.collect pattern).result with
    | .ok l => l
    | .error _ => []
  | _ => []

def Ledger.after (l : Ledger) (op : Op) : Ledger :=
  ⟨op.after l.ts, l.accepted ++ op.accepted l.ts, l.delivered ++ op.delivered l.ts⟩

/-- Every accepted tuple is in store or was delivered, as often as it was accepted. -/
def Balanced (l : Ledger) : Prop := l.accepted.Perm (l.ts.ts.contain ++ l.delivered)

/-- Data in tuples, data and type formals in templates. -/
def DataOp (s : TupleSpace) : Op → Prop
  | .out tup => ∀ v ∈ tup, v.IsData
  | .rd _ pattern _ | .take _ pattern _ | .collect pattern | .copyCollect pattern =>
    ∀ v ∈ pattern, v.IsPattern
  | .tupleRequest _ _ | .cancelRequest _ _ => False
  | .unblockRandom => True
  | .rehash blocked => s.blockedList.Rehash blocked

def LedgerStep (l : Ledger) (op : Op) (l' : Ledger) : Prop := DataOp l.ts op ∧ l' = l.after op

/-! ## When a step keeps the books -/

/-- A search of `l` for `t` comes to `t` itself. -/
def FindsItself (l : List Tuple) (t : Tuple) : Prop :=
  ∃ pre post, l = pre ++ t :: post ∧ ∀ x ∈ pre, Skips x t

/-- A search of `l` for `t` raises. -/
def SearchFails (l : List Tuple) (t : Tuple) : Prop := ∃ e, matchFirst t l = .error e

/-- `t` is what a search of `l` for `pattern` comes to. -/
def FirstMatch (pattern : Tuple) (l : List Tuple) (t : Tuple) : Prop :=
  ∃ pre post, l = pre ++ t :: post ∧ (∀ x ∈ pre, Skips x pattern) ∧ Matches t pattern

/-- Every match of `pattern` in `l` is told apart from the tuples in front of it
that do not match `pattern`; `seen` is what stands in front of `l`. -/
def ToldApart (pattern : Tuple) (seen l : List Tuple) : Prop :=
  ∀ pre r post, l = pre ++ r :: post → Matches r pattern →
    ∀ t ∈ seen ++ pre, ¬ Matches t pattern → Skips t r

/-- The condition on a step: a taker that `out` wakes asked for the tuple itself,
`in` deletes the tuple it found or nothing, and `collect` deletes just the tuples
it found or nothing. -/
def KeepsBooks (s : TupleSpace) : Op → Prop
  | .out tup => ∀ x, Visited tup s.blockedList.entries x → x.2.destructive = true →
      Matches x.2.pattern tup → x.2.pattern = tup
  | .take _ pattern _ => ∀ t, FirstMatch pattern s.ts.contain t →
      FindsItself s.ts.contain t ∨ SearchFails s.ts.contain t
  | .collect pattern =>
      (∃ e, s.ts.matchTuples pattern = .error e) ∨ ToldApart pattern [] s.ts.contain ∨
        ∃ r l, s.ts.contain.filter (fun t => Matches t pattern) = r :: l ∧
          SearchFails s.ts.contain r
  | _ => True

/-! ## Deleting what was found -/

variable {p : Tuple}

/-- The finds of `collect` in `l`. -/
abbrev finds (p : Tuple) (l : List Tuple) : List Tuple := l.filter fun t => Matches t p

/-- `collect`'s deletions from `l` of the tuples in `fs`. -/
abbrev deleteFound (l fs : List Tuple) : TupleContainer × Option PyExc :=
  deleteAll ⟨l⟩ (fs.map fun t => (t, t))

theorem deleteFound_cons {l c : List Tuple} {r : Tuple} {fs : List Tuple}
    (h : deleteFirst r l = .ok c) : deleteFound l (r :: fs) = deleteFound c fs := by
  simp [deleteFound, deleteAll, TupleContainer.delete, h]

/-- With the finds told apart, exactly they are deleted. -/
theorem deleteFound_toldApart {seen l : List Tuple} (hself : ∀ t ∈ l, Matches t t)
    (hseen : ∀ t ∈ seen, ¬ Matches t p) (h : ToldApart p seen l) :
    deleteFound (seen ++ l) (finds p l) = (⟨seen ++ l.filter fun t => ¬ Matches t p⟩, none) := by
  induction l generalizing seen with
  | nil => simp [deleteFound, deleteAll]
  | cons a l ih =>
    rw [List.forall_mem_cons] at hself
    by_cases ha : Matches a p
    · have hskip : ∀ x ∈ seen, Skips x a := fun x hx =>
        h [] a l rfl ha x (by simpa using hx) (hseen x hx)
      have hd : deleteFirst a (seen ++ a :: l) = .ok (seen ++ l) :=
        deleteFirst_append hskip hself.1
      have hrest : ToldApart p seen l := fun pre r post hl hr t ht hnt =>
        h (a :: pre) r post (by rw [hl]; rfl) hr t
          (by rcases List.mem_append.1 ht with ht | ht <;> simp [ht]) hnt
      have hf : finds p (a :: l) = a :: finds p l := by simp [ha]
      rw [hf, deleteFound_cons hd, ih hself.2 hseen hrest]
      simp [ha]
    · have hrest : ToldApart p (seen ++ [a]) l := fun pre r post hl hr t ht hnt =>
        h (a :: pre) r post (by rw [hl]; rfl) hr t (by simpa using ht) hnt
      have hseen' : ∀ t ∈ seen ++ [a], ¬ Matches t p := by
        simpa [or_imp, forall_and] using ⟨hseen, ha⟩
      have := ih hself.2 hseen' hrest
      simpa [ha] using this

/-- A search that is not passed along by everything in front of it stops there. -/
theorem deleteFirst_of_not_skips {a : Tuple} {seen l : List Tuple}
    (h : ¬ ∀ x ∈ seen, Skips x a) :
    (∃ e, deleteFirst a (seen ++ l) = .error e) ∨
      ∃ pre t post, seen = pre ++ t :: post ∧
        deleteFirst a (seen ++ l) = .ok (pre ++ (post ++ l)) := by
  induction seen with
  | nil => simp at h
  | cons b seen ih =>
    rcases hb : tryMatch b a with e | _ | r
    · exact .inl ⟨e, by simp [deleteFirst, hb]⟩
    · have hb' := tryMatch_none.1 hb
      rw [List.forall_mem_cons, and_iff_right hb'] at h
      rcases ih h with ⟨e, he⟩ | ⟨pre, t, post, rfl, he⟩
      · exact .inl ⟨e, by simp [deleteFirst, hb, he]⟩
      · exact .inr ⟨b :: pre, t, post, rfl, by simp_all [deleteFirst]⟩
    · exact .inr ⟨[], b, seen, rfl, by simp [deleteFirst, hb]⟩

/-- When the finds are not told apart and nothing is raised, something else was
deleted in the place of a find. -/
theorem deleteFound_not_toldApart {seen l : List Tuple} (hself : ∀ t ∈ l, Matches t t)
    (hseen : ∀ t ∈ seen, ¬ Matches t p) (h : ¬ ToldApart p seen l)
    (hok : (deleteFound (seen ++ l) (finds p l)).2 = none) :
    ¬ (seen ++ l).Perm ((deleteFound (seen ++ l) (finds p l)).1.contain ++ finds p l) := by
  induction l generalizing seen with
  | nil =>
    refine absurd (fun pre r post hl => ?_) h
    simp at hl
  | cons a l ih =>
    rw [List.forall_mem_cons] at hself
    by_cases ha : Matches a p
    · have hf : finds p (a :: l) = a :: finds p l := by simp [ha]
      rw [hf] at hok ⊢
      by_cases hskip : ∀ x ∈ seen, Skips x a
      · -- the search for `a` comes to `a`; the slip is further on
        have hd : deleteFirst a (seen ++ a :: l) = .ok (seen ++ l) :=
          deleteFirst_append hskip hself.1
        have hrest : ¬ ToldApart p seen l := by
          refine fun hrest => h fun pre r post hl hr t ht hnt => ?_
          rcases pre with _ | ⟨b, pre⟩
          · cases hl
            exact hskip t (by simpa using ht)
          · cases hl
            rcases List.mem_append.1 ht with ht | ht
            · exact hrest pre r post rfl hr t (by simp [ht]) hnt
            · rcases List.mem_cons.1 ht with rfl | ht
              · exact absurd ha hnt
              · exact hrest pre r post rfl hr t (by simp [ht]) hnt
        rw [deleteFound_cons hd] at hok ⊢
        intro hp
        exact ih hself.2 hseen hrest hok
          ((List.perm_middle.symm.trans (hp.trans List.perm_middle)).cons_inv)
      · -- it deletes some `t` in front, which is no find
        rcases deleteFirst_of_not_skips (l := a :: l) hskip with ⟨e, he⟩ | ⟨pre, t, post, hs, he⟩
        · simp [deleteFound, deleteAll, TupleContainer.delete, he] at hok
        · rw [deleteFound_cons he]
          intro hp
          obtain ⟨d, hd⟩ := (deleteAll_sublist ⟨pre ++ (post ++ a :: l)⟩
            ((finds p l).map fun t => (t, t))).exists_perm_append
          have hall : (t :: (pre ++ (post ++ a :: l))).Perm (seen ++ a :: l) := by
            rw [hs, List.append_assoc, List.cons_append]
            exact List.perm_middle.symm
          have hcancel : (t :: d).Perm (a :: finds p l) :=
            (List.perm_append_left_iff _).1
              (List.perm_middle.trans ((hd.symm.cons t).trans (hall.trans hp)))
          have ht : t ∈ a :: finds p l := hcancel.subset List.mem_cons_self
          have hnt : ¬ Matches t p := hseen t (by simp [hs])
          rcases List.mem_cons.1 ht with rfl | ht
          · exact hnt ha
          · exact hnt (by simpa using (List.mem_filter.1 ht).2)
    · have hf : finds p (a :: l) = finds p l := by simp [ha]
      have hrest : ¬ ToldApart p (seen ++ [a]) l := by
        refine fun hrest => h fun pre r post hl hr t ht hnt => ?_
        rcases pre with _ | ⟨b, pre⟩
        · cases hl
          exact absurd hr ha
        · cases hl
          exact hrest pre r post rfl hr t (by simpa using ht) hnt
      have hseen' : ∀ t ∈ seen ++ [a], ¬ Matches t p := by
        simpa [or_imp, forall_and] using ⟨hseen, ha⟩
      have happ : seen ++ a :: l = (seen ++ [a]) ++ l := by simp
      rw [hf, happ] at hok ⊢
      exact ih hself.2 hseen' hrest hok

/-- Once `collect` has deleted a tuple, an exception loses it. -/
theorem deleteFound_raised {l fs : List Tuple} (hself : ∀ t ∈ l, Matches t t)
    (hfs : ∀ t ∈ fs, t ∈ l) {e : PyExc} (he : (deleteFound l fs).2 = some e) :
    l.Perm (deleteFound l fs).1.contain ↔ ∃ r rest, fs = r :: rest ∧ SearchFails l r := by
  rcases fs with _ | ⟨r, fs⟩
  · simp [deleteFound, deleteAll] at he
  rcases deleteFirst_cases r l with ⟨h, -⟩ | ⟨pre, t, post, rfl, hpre, hm, hd⟩ | ⟨e', h, hd⟩
  · have hr : r ∈ l := hfs r (by simp)
    exact absurd (matchFirst_none h r hr) (hself r hr).not_skips
  · rw [deleteFound_cons hd]
    refine iff_of_false (fun hp => ?_) ?_
    · have h1 := hp.length_eq
      have h2 : (deleteFound (pre ++ post) fs).1.contain.length ≤ (pre ++ post).length :=
        (deleteAll_sublist ⟨pre ++ post⟩ (fs.map fun t => (t, t))).length_le
      simp only [List.length_append, List.length_cons] at h1 h2
      omega
    · rintro ⟨r', rest, h, e', he'⟩
      cases h
      rw [matchFirst_append hpre hm] at he'
      cases he'
  · refine iff_of_true ?_ ⟨r, fs, rfl, e', h⟩
    simp [deleteFound, deleteAll, TupleContainer.delete, hd]

/-! ## What the steps do to the books -/

variable {s : TupleSpace} {l : Ledger} {op : Op}

/-- What the steps keep without any condition. -/
structure DataOnly (s : TupleSpace) : Prop where
  requests : s.requests = []
  contain : ∀ t ∈ s.ts.contain, ∀ v ∈ t, v.IsData

theorem DataOnly.self (h : DataOnly s) : ∀ t ∈ s.ts.contain, Matches t t := fun t ht =>
  matches_self fun v hv => doesMatchValue_self (h.contain t ht v hv)

theorem DataOp.isLocal (h : DataOp s op) : op.IsLocal := by
  cases op <;> first | exact trivial | exact h

theorem DataOnly.after (hs : DataOnly s) (hop : DataOp s op) : DataOnly (op.after s) where
  requests := by rw [after_requests hop.isLocal, hs.requests]
  contain t ht := by
    rcases mem_after_contain ht with h | ⟨rfl, -, -⟩
    · exact hs.contain t h
    · exact hop

/-- Nothing is consumed unless a taker ends the scan; then it gets its pattern. -/
theorem consumed_woken (tup : Tuple) {es : List (Tid × Blocked)} {f : Spawn → Option Tuple}
    (hf : ∀ x ∈ es, f (.returnTuple x.1 x.2.pattern x.2.pattern) =
      if x.2.destructive then some x.2.pattern else none) :
    ((checkBlocked tup es).2.2 ≠ .taken ∧ (checkBlocked tup es).2.1.filterMap f = []) ∨
      ∃ x, Visited tup es x ∧ x.2.destructive = true ∧ Matches x.2.pattern tup ∧
        (checkBlocked tup es).2.2 = .taken ∧
        (checkBlocked tup es).2.1.filterMap f = [x.2.pattern] := by
  induction es with
  | nil => exact .inl ⟨by simp [checkBlocked], rfl⟩
  | cons y es ih =>
    obtain ⟨tid, b⟩ := y
    rw [List.forall_mem_cons] at hf
    have hfb : f (.returnTuple tid b.pattern b.pattern) =
      if b.destructive then some b.pattern else none := hf.1
    rcases checkBlocked_cons tup tid b es with ⟨hs, he⟩ | ⟨e, -, he⟩ | ⟨hm, hd, he⟩ | ⟨hm, hd, he⟩
    · rw [he]
      rcases ih hf.2 with h | ⟨x, hv, h⟩
      · exact .inl h
      · exact .inr ⟨x, hv.cons (Skips.not_stops hs), h⟩
    · exact .inl (by simp [he])
    · exact .inr ⟨(tid, b), visited_cons_self tup _ es, hd, hm, by simp [he, hfb, hd]⟩
    · rw [he, List.filterMap_cons_none (by rw [hfb, hd]; rfl)]
      rcases ih hf.2 with h | ⟨x, hv, h⟩
      · exact .inl h
      · exact .inr ⟨x, hv.cons (not_stops_of_read (x := (tid, b)) hm hd), h⟩

theorem consumed_returnTuple {x : Tid × Blocked} (hx : x ∈ s.blockedList.entries) :
    Spawn.consumed s (.returnTuple x.1 x.2.pattern x.2.pattern) =
      if x.2.destructive then some x.2.pattern else none := by
  simp [Spawn.consumed, Dict.get?_eq_some (v := x.2) hx]

/-- The books of an `out` balance exactly when the taker it wakes asked for the
tuple itself. -/
theorem balanced_out_iff (hs : DataOnly l.ts) (hb : Balanced l) (tup : Tuple) :
    Balanced (l.after (.out tup)) ↔ KeepsBooks l.ts (.out tup) := by
  rw [Balanced] at hb
  have hcons := consumed_woken tup (f := Spawn.consumed l.ts)
    fun x hx => consumed_returnTuple (s := l.ts) hx
  simp only [Balanced, Ledger.after, Op.after, Op.delivered, Op.accepted, KeepsBooks,
    TupleSpace._out_spawned hs.requests]
  rcases hcons with ⟨hnt, hnil⟩ | ⟨x, hv, hd, hm, htaken, hone⟩
  · refine iff_of_true ?_ ?_
    · rw [hnil, List.append_nil]
      rcases TupleSpace._out_cases hs.requests tup with ⟨-, hc, hr⟩ | ⟨ht, -⟩ | ⟨e, -, hc, hr⟩
      · rw [hc, hr]
        exact (hb.append_right [tup]).trans (by
          rw [List.append_assoc, List.append_assoc]
          exact List.perm_append_comm.append_left _)
      · exact absurd ht hnt
      · rw [hc, hr]
        simpa using hb
    · intro x hv hd hm
      have hst : Stops tup x := .inl ⟨hm, hd⟩
      rcases checkBlocked_end tup l.ts.blockedList.entries with
        ⟨-, hno, -⟩ | ⟨_, _, _, -, -, -, -, he⟩ | ⟨pre, y, post, e, hl, hpre, hr, -⟩
      · exact absurd hst (hno x hv.mem)
      · exact absurd he hnt
      · obtain rfl := hv.stops_unique ⟨pre, post, hl, hpre⟩ hst (.inr ⟨e, hr⟩)
        rw [Matches, hr.2] at hm
        cases hm
  · rw [hone]
    rcases TupleSpace._out_cases hs.requests tup with ⟨ht, -⟩ | ⟨-, hc, hr⟩ | ⟨e, ht, -⟩
    · rw [htaken] at ht; cases ht
    · rw [hc, hr]
      constructor
      · intro hp y hy hyd hym
        obtain rfl := hv.stops_unique hy (.inl ⟨hm, hd⟩) (.inl ⟨hym, hyd⟩)
        have := (List.perm_append_left_iff _).1 ((hb.append_right [tup]).symm.trans
          (hp.trans (by rw [← List.append_assoc])))
        simpa [eq_comm] using this
      · intro h
        rw [h x hv hd hm, ← List.append_assoc]
        exact hb.append_right [tup]
    · rw [htaken] at ht; cases ht

/-- Delivering `fs` keeps the books when what is left in store makes up for it. -/
theorem perm_deliver_iff {acc store del store' fs : List Tuple} (hb : acc.Perm (store ++ del)) :
    acc.Perm (store' ++ (del ++ fs)) ↔ store.Perm (store' ++ fs) := by
  have hcomm : (store' ++ (del ++ fs)).Perm ((store' ++ fs) ++ del) := by
    rw [List.append_assoc]
    exact List.perm_append_comm.append_left _
  refine Iff.trans ?_ (List.perm_append_right_iff del)
  exact ⟨fun h => hb.symm.trans (h.trans hcomm), fun h => hb.trans (h.trans hcomm.symm)⟩

theorem FirstMatch.eq {t : Tuple} {c : List Tuple} (h : FirstMatch p c t) :
    matchFirst p c = .ok (some (t, t)) := by
  obtain ⟨pre, post, rfl, hpre, hm⟩ := h
  exact matchFirst_append hpre hm

/-- Deleting the find `t` takes `t` out exactly when the search comes to it. -/
theorem perm_deleteFirst_iff {t : Tuple} {c c' : List Tuple} (ht : t ∈ c) (hself : Matches t t)
    (hd : deleteFirst t c = .ok c') : c.Perm (c' ++ [t]) ↔ FindsItself c t := by
  rcases deleteFirst_cases t c with ⟨h, -⟩ | ⟨pre, t', post, rfl, hpre, hm, hd'⟩ | ⟨e, -, hd'⟩
  · exact absurd (matchFirst_none h t ht) hself.not_skips
  · rw [hd'] at hd
    cases hd
    constructor
    · intro hp
      have h1 : (t' :: (pre ++ post)).Perm (t :: (pre ++ post)) :=
        List.perm_middle.symm.trans (hp.trans (List.perm_append_singleton t _))
      have h2 : t' = t := by
        have h3 : [t'].Perm [t] := (List.perm_append_right_iff (pre ++ post)).1 h1
        simpa using h3
      exact ⟨pre, post, by rw [h2], hpre⟩
    · rintro ⟨pre', post', hl, hpre'⟩
      have h1 : matchFirst t (pre' ++ t :: post') = .ok (some (t, t)) :=
        matchFirst_append hpre' hself
      rw [← hl, matchFirst_append hpre hm] at h1
      cases h1
      exact List.perm_middle.trans (List.perm_append_singleton _ _).symm
  · rw [hd'] at hd; cases hd

theorem balanced_take_iff (hs : DataOnly l.ts) (hb : Balanced l) (tid : Tid) (q : Tuple)
    (u : Bool) : Balanced (l.after (.take tid q u)) ↔ KeepsBooks l.ts (.take tid q u) := by
  rw [Balanced] at hb
  simp only [Balanced, Ledger.after, Op.after, Op.delivered, Op.accepted, KeepsBooks,
    List.append_nil]
  rcases TupleSpace._in_cases (s := l.ts) tid q u with
    ⟨hskip, hx⟩ | ⟨pre, t, post, c, hl, hpre, hm, hd, hx⟩ | ⟨e, hdel, hx⟩
  · refine iff_of_true (by simpa [hx, TupleSpace.block] using hb) ?_
    rintro t ⟨pre, post, hl, -, hm⟩
    exact absurd (hskip t (by simp [hl])) hm.not_skips
  · have ht : t ∈ l.ts.ts.contain := by simp [hl]
    have hfirst : ∀ t', FirstMatch q l.ts.ts.contain t' ↔ t' = t := by
      intro t'
      constructor
      · intro h
        have h1 := h.eq
        rw [hl, matchFirst_append hpre hm] at h1
        cases h1
        rfl
      · rintro rfl
        exact ⟨pre, post, hl, hpre, hm⟩
    have hok : ¬ SearchFails l.ts.ts.contain t := by
      rintro ⟨e, he⟩
      rw [deleteFirst_error_iff.2 he] at hd
      cases hd
    simp only [hx, hfirst, forall_eq, hok, or_false]
    rw [perm_deliver_iff hb]
    exact perm_deleteFirst_iff ht (hs.self t ht) hd
  · refine iff_of_true (by simpa [hx] using hb) ?_
    intro t hfirst
    exact .inr ⟨e, deleteFirst_error_iff.1 (hdel t hfirst.eq)⟩

theorem filter_perm (p : Tuple) (c : List Tuple) :
    c.Perm ((c.filter fun t => ¬ Matches t p) ++ finds p c) := by
  have h := (List.filter_append_perm (fun t => decide (Matches t p)) c).symm
  refine h.trans (List.perm_append_comm.trans ?_)
  simp [finds]

theorem balanced_collect_iff (hs : DataOnly l.ts) (hb : Balanced l) (q : Tuple) :
    Balanced (l.after (.collect q)) ↔ KeepsBooks l.ts (.collect q) := by
  rw [Balanced] at hb
  simp only [Balanced, Ledger.after, Op.after, Op.delivered, Op.accepted, KeepsBooks,
    List.append_nil]
  rcases hm : l.ts.ts.matchTuples q with e | found
  · rw [TupleSpace.collect_error hm]
    exact iff_of_true (by simpa using hb) (.inl ⟨e, rfl⟩)
  obtain ⟨rfl, -⟩ := matchAll_ok hm
  have hmem : ∀ t ∈ finds q l.ts.ts.contain, t ∈ l.ts.ts.contain := fun t ht =>
    (List.mem_filter.1 ht).1
  have hnil : ∀ t ∈ ([] : List Tuple), ¬ Matches t q := by simp
  have hread : ¬ ∃ e, (Except.ok ((finds q l.ts.ts.contain).map fun t => (t, t)) :
      Except PyExc (List (Tuple × Tuple))) = .error e := by simp
  rw [TupleSpace.collect_ok hm, or_iff_right hread]
  rcases hd : deleteFound l.ts.ts.contain (finds q l.ts.ts.contain) with ⟨c, _ | e⟩
  · -- everything found is handed over; what was deleted for it decides
    have hfail : ¬ ∃ r rest, finds q l.ts.ts.contain = r :: rest ∧
        SearchFails l.ts.ts.contain r := by
      rintro ⟨r, rest, hf, e, he⟩
      rw [hf] at hd
      simp [deleteFound, deleteAll, TupleContainer.delete, deleteFirst_error_iff.2 he] at hd
    rw [or_iff_left hfail]
    simp only [deleteFound] at hd
    simp only [hd, List.map_map]
    rw [show (Prod.snd ∘ fun t : Tuple => (t, t)) = id from rfl, List.map_id, perm_deliver_iff hb]
    constructor
    · intro hp
      refine Classical.byContradiction fun hn => deleteFound_not_toldApart hs.self hnil hn ?_ ?_
      all_goals simp [deleteFound, hd, hp]
    · intro ht
      have := deleteFound_toldApart hs.self hnil ht
      simp only [List.nil_append, deleteFound, hd] at this
      cases this
      exact filter_perm q _
  · -- `collect` raises and returns nothing
    have hnt : ¬ ToldApart q [] l.ts.ts.contain := by
      intro ht
      have := deleteFound_toldApart hs.self hnil ht
      rw [List.nil_append, hd] at this
      cases this
    rw [or_iff_right hnt]
    have hraised := deleteFound_raised hs.self hmem (by rw [hd])
    simp only [deleteFound] at hd hraised
    simp only [hd, List.append_nil] at hraised ⊢
    rw [← hraised]
    refine Iff.trans ?_ (List.perm_append_right_iff l.delivered)
    exact ⟨fun h => hb.symm.trans h, fun h => hb.trans h⟩

/-- One step keeps the books exactly when it meets its condition. -/
theorem balanced_after_iff (hs : DataOnly l.ts) (hb : Balanced l) (hop : DataOp l.ts op) :
    Balanced (l.after op) ↔ KeepsBooks l.ts op := by
  cases op with
  | out tup => exact balanced_out_iff hs hb tup
  | take tid q u => exact balanced_take_iff hs hb tid q u
  | collect q => exact balanced_collect_iff hs hb q
  | rd tid q u =>
    refine iff_of_true ?_ trivial
    rw [Balanced] at hb ⊢
    rcases TupleSpace._rd_cases (s := l.ts) tid q u with ⟨-, h⟩ | ⟨_, _, _, -, -, -, h⟩ | ⟨_, h⟩ <;>
      simpa [Ledger.after, Op.after, Op.accepted, Op.delivered, h] using hb
  | copyCollect q =>
    refine iff_of_true ?_ trivial
    simpa [Balanced, Ledger.after, Op.after, Op.accepted, Op.delivered, copyCollect_ts] using hb
  | unblockRandom =>
    refine iff_of_true ?_ trivial
    simpa [Balanced, Ledger.after, Op.after, Op.accepted, Op.delivered, unblockRandom_frame.1]
      using hb
  | rehash d =>
    refine iff_of_true ?_ trivial
    simpa [Balanced, Ledger.after, Op.after, Op.accepted, Op.delivered] using hb
  | tupleRequest | cancelRequest => cases hop

/-- A run from the empty partition keeps the books throughout exactly when each
of its steps meets its condition. -/
theorem balanced_throughout_iff {id : TsId} {tr : List (Ledger × Op)} {l' : Ledger}
    (h : Run LedgerStep (Ledger.init id) tr l') :
    Throughout Balanced tr l' ↔ ∀ x ∈ tr, KeepsBooks x.1.ts x.2 := by
  have hinit : DataOnly (Ledger.init id).ts := ⟨rfl, by simp [Ledger.init, TupleSpace.init]⟩
  have hb : Balanced (Ledger.init id) := List.Perm.refl []
  refine h.throughout_iff (I := fun l => DataOnly l.ts) (C := fun l op => KeepsBooks l.ts op)
    ?_ ?_ hinit hb
  · rintro l op _ hs - - ⟨hop, rfl⟩
    exact hs.after hop
  · rintro l op _ hs hb ⟨hop, rfl⟩
    exact balanced_after_iff hs hb hop

/-! ## Atoms -/

/-- Tuples of atoms are told apart by every search, so no step loses any. -/
theorem keepsBooks_atoms (hs : Atomic s) (hop : AtomOp s op) : KeepsBooks s op := by
  have hskip : ∀ t ∈ s.ts.contain, ∀ r ∈ s.ts.contain, t ≠ r → Skips t r := by
    intro t ht r hr hne
    rcases doesMatch_atoms (hs.contain t ht).isTemplate (hs.contain r hr) with ⟨-, h⟩ | ⟨h, -⟩
    · exact absurd h hne
    · exact h
  cases op with
  | out tup => exact fun x hv _ hm => (matches_atoms_iff (hs.blocked x hv.mem) hop).1 hm
  | take tid p u =>
    rintro t ⟨pre, post, hl, hpre, hm⟩
    refine .inl ⟨pre, post, hl, fun x hx => hskip x (by simp [hl, hx]) t (by simp [hl]) ?_⟩
    rintro rfl
    exact hm.not_skips (hpre x hx)
  | collect p =>
    refine .inr (.inl fun pre r post hl hr t ht hnt => ?_)
    refine hskip t (by simp only [hl]; simp_all) r (by simp [hl]) ?_
    rintro rfl
    exact hnt hr
  | _ => trivial

/-! ## Nested tuples -/

def tidC : Tid := ⟨⟨3⟩, 1⟩

/-- The store `(1,)`, `((1, 2),)`, `(5,)`. -/
def nestedOuts : List Op :=
  [.out [.integer 1], .out [.tuple [.integer 1, .integer 2]], .out [.integer 5]]

/-- `collect((int,))` finds `(1,)` and `(5,)`, deletes `(1,)` and raises on the way
to `(5,)`, where `delete` compares the nested tuple with `5`. -/
theorem collect_loses :
    let ops := nestedOuts ++ [.collect [.type longType]]
    Run LedgerStep (.init .uts) (trace Ledger.after (.init .uts) ops)
      (exec Ledger.after (.init .uts) ops) ∧
    ¬ Balanced (exec Ledger.after (.init .uts) ops) := by
  refine ⟨.of_exec ?_, fun h => ?_⟩
  · simp only [nestedOuts, List.cons_append, List.nil_append, trace, List.forall_mem_cons,
      LedgerStep, DataOp, and_true]
    refine ⟨⟨?_, by simp⟩, ⟨?_, by simp⟩, ⟨?_, by simp⟩, ⟨?_, by simp⟩, by simp⟩
    · exact .atom trivial
    · exact .tuple (by simpa using ⟨.atom trivial, .atom trivial⟩)
    · exact .atom trivial
    · exact .formal longType
  · have h1 := h.length_eq
    revert h1
    decide

/-- `in((5,))` keeps the books of a store of atoms. -/
theorem balanced_take :
    let ops := [.out [.integer 1], .out [.integer 5], .take tidC [.integer 5] false]
    Throughout Balanced (trace Ledger.after (.init .uts) ops)
      (exec Ledger.after (.init .uts) ops) := by
  refine (balanced_throughout_iff (.of_exec ?_)).2 ?_
  · simp only [trace, List.forall_mem_cons, LedgerStep, DataOp, and_true]
    exact ⟨⟨.atom trivial, by simp⟩, ⟨.atom trivial, by simp⟩, ⟨.atom trivial, by simp⟩, by simp⟩
  · simp only [trace, List.forall_mem_cons]
    refine ⟨fun x hx => (List.not_mem_nil hx.mem).elim, fun x hx => (List.not_mem_nil hx.mem).elim,
      fun t ht => ?_, by simp⟩
    obtain rfl : t = [.integer 5] := by
      have h := ht.eq
      have h1 : matchFirst [.integer 5] [[.integer 1], [.integer 5]] =
        .ok (some ([.integer 5], [.integer 5])) := rfl
      exact congrArg Prod.fst (Option.some.inj (Except.ok.inj (h.symm.trans h1)))
    have hskip : Skips [.integer 1] [.integer 5] := rfl
    exact .inl ⟨[[.integer 1]], [], rfl, by simpa using hskip⟩

end PyLinda
