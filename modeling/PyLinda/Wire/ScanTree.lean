import PyLinda.Wire.ScanExact

/-!
# Tuples in which nothing is met twice

A value that unfolds to a finite tree, in which no tuple is met twice and no value that a pointer
leads to is met in another way, is scanned and written along the same way.
-/

namespace PyLinda.Scan

open Lib

/-- A way through values: the arrays of the tuples, the values, the values below pointers, and the
tuple spaces of the references, all in the order in which they are met. -/
structure Walk where
  arrays : List Nat
  visits : List Nat
  pointees : List Nat
  tsids : List String

namespace Content

def arrays : Content → List Nat
  | tuple values => values.toList
  | _ => []

def pointees : Content → List Nat
  | pointer ptr => ptr.toList
  | _ => []

def tsids : Content → List String
  | tsref ts => [ts]
  | _ => []

end Content

namespace Walk

def empty : Walk := ⟨[], [], [], []⟩

def append (u w : Walk) : Walk :=
  ⟨u.arrays ++ w.arrays, u.visits ++ w.visits, u.pointees ++ w.pointees, u.tsids ++ w.tsids⟩

/-- The way through a value, from the one through what is in it. -/
def under (v : Nat) (c : Content) (u : Walk) : Walk :=
  ⟨c.arrays ++ u.arrays, v :: u.visits, c.pointees ++ u.pointees, c.tsids ++ u.tsids⟩

end Walk

/-- What is in a value. -/
def Heap.kids (h : Heap) : Content → List Ptr
  | .tuple values => h.elements values
  | .sum value => [value]
  | .pointer ptr => [ptr]
  | _ => []

/-- The values unfold to finite trees, and nothing in them is `NULL`. -/
inductive Heap.Unfolds (h : Heap) : List Ptr → Walk → Prop
  | nil : Unfolds h [] .empty
  | cons {v c es u w} : h.content v = some c → Unfolds h (h.kids c) u → Unfolds h es w →
      Unfolds h (some v :: es) ((u.under v c).append w)

section
variable {h : Heap} {ref : String} {es : List Ptr} {u : Walk} {c : Content}

/-! ## The scan -/

section
variable {scan : Ptr → Run} {s s' : State}

/-- What is done at a value before what is in it is scanned. -/
def State.after (s : State) (ref : String) (c : Content) : State :=
  ⟨s.scanned ++ c.arrays, s.sent ++ c.tsids.map fun ts => ⟨ts, ref⟩⟩

theorem State.after_none (hc : c.arrays = [] ∧ c.tsids = []) : s.after ref c = s := by
  unfold State.after
  rw [hc.1, hc.2, List.map_nil, List.append_nil, List.append_nil]

theorem scan_of_one {p : Ptr} (hrun : scanElements scan [p] s = (.ok (), s')) :
    scan p s = (.ok (), s') := by
  obtain ⟨_, t, hp, ht⟩ := Eff.ok_of_andThen hrun
  cases ht
  exact hp

theorem scanContent_kids (hnew : ∀ a ∈ c.arrays, a ∉ s.scanned)
    (hrun : scanElements scan (h.kids c) (s.after ref c) = (.ok (), s')) :
    scanContent h ref scan c s = (.ok (), s') := by
  cases c with
  | other =>
    rw [State.after_none ⟨rfl, rfl⟩] at hrun
    exact hrun
  | tsref ts =>
    have hsame : s.after ref (.tsref ts) = s.send ⟨ts, ref⟩ := by
      show (⟨s.scanned ++ [], s.sent ++ _⟩ : State) = _
      rw [List.append_nil]
      rfl
    rw [hsame] at hrun
    exact hrun
  | sum value =>
    rw [State.after_none ⟨rfl, rfl⟩] at hrun
    exact scan_of_one hrun
  | pointer ptr =>
    rw [State.after_none ⟨rfl, rfl⟩] at hrun
    exact scan_of_one hrun
  | tuple values =>
    have hsame : s.after ref (.tuple values) = s.enter values := by
      show (⟨s.scanned ++ values.toList, s.sent ++ []⟩ : State) = _
      rw [List.append_nil]
      rfl
    rw [hsame] at hrun
    cases values with
    | none => exact hrun
    | some a =>
      have ha : a ∉ s.scanned := hnew a List.mem_cons_self
      exact (scanTuple2_new ha).trans hrun

theorem scanElements_unfolds (hu : h.Unfolds es u) (hnodup : u.arrays.Nodup)
    (hnew : ∀ a ∈ u.arrays, a ∉ s.scanned) :
    ∃ d, scanElements (scanValueForTSRef h ref d) es s =
      (.ok (), ⟨s.scanned ++ u.arrays, s.sent ++ u.tsids.map fun ts => ⟨ts, ref⟩⟩) := by
  induction hu generalizing s with
  | nil =>
    refine ⟨0, ?_⟩
    show (Except.ok (), s) = (Except.ok (), (⟨s.scanned ++ [], s.sent ++ []⟩ : State))
    rw [List.append_nil, List.append_nil]
  | @cons v c es u w hv _ _ ihu ihw =>
    have hsplit : (c.arrays ++ u.arrays) ++ w.arrays = ((u.under v c).append w).arrays := rfl
    rw [← hsplit] at hnodup hnew
    obtain ⟨hfirst, hw, hdisjoint⟩ := List.nodup_append.1 hnodup
    obtain ⟨_, hu, hcu⟩ := List.nodup_append.1 hfirst
    have hc : ∀ a ∈ c.arrays, a ∉ s.scanned := fun a ha =>
      hnew a (List.mem_append_left _ (List.mem_append_left _ ha))
    obtain ⟨d1, h1⟩ := ihu (s := s.after ref c) hu fun a ha hs => by
      cases List.mem_append.1 hs with
      | inl hs => exact hnew a (List.mem_append_left _ (List.mem_append_right _ ha)) hs
      | inr hs => exact hcu a hs a ha rfl
    have hvalue := (scanValueForTSRef_some hv).trans (scanContent_kids hc h1)
    obtain ⟨d2, h2⟩ := ihw (s := ⟨(s.after ref c).scanned ++ u.arrays,
        (s.after ref c).sent ++ u.tsids.map fun ts => ⟨ts, ref⟩⟩) hw fun a ha hs => by
      have hs' : a ∈ s.scanned ++ (c.arrays ++ u.arrays) := by
        rw [← List.append_assoc]
        exact hs
      cases List.mem_append.1 hs' with
      | inl hs => exact hnew a (List.mem_append_right _ ha) hs
      | inr hs => exact hdisjoint a hs a ha rfl
    refine ⟨max (d1 + 1) d2, ?_⟩
    show ((scanValueForTSRef h ref (max (d1 + 1) d2) (some v) >>= fun _ =>
      scanElements _ es) : Run) s = _
    rw [Eff.andThen_ok (scanValueForTSRef_deeper (Nat.le_max_left (d1 + 1) d2) _ _ _ _ hvalue),
      scanElements_below (scanValueForTSRef_deeper (Nat.le_max_right (d1 + 1) d2)) es _ () _ h2]
    show (Except.ok (), (⟨((s.scanned ++ c.arrays) ++ u.arrays) ++ w.arrays,
      ((s.sent ++ c.tsids.map _) ++ u.tsids.map _) ++ w.tsids.map _⟩ : State)) =
      (Except.ok (), ⟨s.scanned ++ ((c.arrays ++ u.arrays) ++ w.arrays),
        s.sent ++ ((c.tsids ++ u.tsids) ++ w.tsids).map _⟩)
    rw [List.map_append, List.map_append, List.append_assoc, List.append_assoc, List.append_assoc,
      List.append_assoc, List.append_assoc, List.append_assoc]

end

/-! ## The document -/

section
variable {x y : Ptr → Writing} {s s' : Written}

theorem serialiseElements_below (hxy : ∀ p, Eff.Below (x p) (y p)) (es : List Ptr) :
    Eff.Below (serialiseElements x es) (serialiseElements y es) := by
  induction es with
  | nil => exact .refl _
  | cons e es ih =>
    cases e with
    | none => exact .refl _
    | some v => exact .andThen (hxy (some v)) fun _ => ih

theorem serialiseContent_below (hxy : ∀ p, Eff.Below (x p) (y p)) (c : Content) :
    Eff.Below (serialiseContent h x c) (serialiseContent h y c) := by
  cases c with
  | other => exact .refl _
  | tsref ts => exact .refl _
  | tuple values => exact serialiseElements_below hxy _
  | sum value => exact hxy value
  | pointer ptr =>
    refine .andThen (.refl _) fun found => ?_
    cases found with
    | true => exact .refl _
    | false => exact .andThen (.refl _) fun _ => hxy ptr

theorem serialiseValue_deeper {d d' : Nat} (hle : d ≤ d') (p : Ptr) :
    Eff.Below (serialiseValue h d p) (serialiseValue h d' p) := by
  induction d generalizing d' p with
  | zero => exact .raise _ _
  | succ d ih =>
    obtain ⟨d', rfl⟩ := Nat.exists_eq_add_of_le' (Nat.lt_of_lt_of_le (Nat.succ_pos d) hle)
    exact .andThen (.refl _) fun _ => .andThen (.refl _) fun c =>
      serialiseContent_below (ih (Nat.le_of_succ_le_succ hle)) c

theorem serialiseValue_some {v d : Nat} (hv : h.content v = some c) :
    serialiseValue h (d + 1) (some v) s =
      serialiseContent h (serialiseValue h d) c (s.enter (some v)) :=
  Eff.constant_ok (typeOf_some hv) _ _

theorem serialise_of_one {v : Nat} (hrun : serialiseElements x [some v] s = (.ok (), s')) :
    x (some v) s = (.ok (), s') := by
  obtain ⟨_, t, hp, ht⟩ := Eff.ok_of_andThen hrun
  cases ht
  exact hp

/-- What is done at a value before what is in it is written. -/
def Written.after (s : Written) (c : Content) : Written :=
  ⟨s.memo ++ c.pointees, s.tsids ++ c.tsids⟩

theorem Written.after_none (hc : c.pointees = [] ∧ c.tsids = []) : s.after c = s := by
  unfold Written.after
  rw [hc.1, hc.2, List.append_nil, List.append_nil]

theorem serialiseContent_kids (hu : h.Unfolds (h.kids c) u) (hnew : ∀ p ∈ c.pointees, p ∉ s.memo)
    (hrun : serialiseElements x (h.kids c) (s.after c) = (.ok (), s')) :
    serialiseContent h x c s = (.ok (), s') := by
  cases c with
  | other =>
    rw [Written.after_none ⟨rfl, rfl⟩] at hrun
    exact hrun
  | tsref ts =>
    have hsame : s.after (.tsref ts) = s.write ts := by
      show (⟨s.memo ++ [], s.tsids ++ [ts]⟩ : Written) = _
      rw [List.append_nil]
      rfl
    rw [hsame] at hrun
    exact hrun
  | tuple values =>
    rw [Written.after_none ⟨rfl, rfl⟩] at hrun
    exact hrun
  | sum value =>
    rw [Written.after_none ⟨rfl, rfl⟩] at hrun
    cases hu with
    | cons _ _ _ => exact serialise_of_one hrun
  | pointer ptr =>
    have hsame : s.after (.pointer ptr) = s.enter ptr := by
      show (⟨s.memo ++ ptr.toList, s.tsids ++ []⟩ : Written) = _
      rw [List.append_nil]
      rfl
    rw [hsame] at hrun
    cases hu with
    | @cons p _ _ _ _ _ _ _ =>
      have hp : s.memo.contains p = false := by
        cases hc : s.memo.contains p with
        | false => rfl
        | true => exact absurd (List.contains_iff_mem.1 hc) (hnew p List.mem_cons_self)
      show (if s.memo.contains p then (pure () : Writing) else _) s = _
      rw [hp]
      exact serialise_of_one hrun

theorem pointees_le (q : Nat) : c.pointees.count q ≤ (h.kids c).count (some q) := by
  cases c with
  | pointer ptr =>
    cases ptr with
    | none => exact Nat.zero_le _
    | some p =>
      show List.count q [p] ≤ List.count (some q) [some p]
      rw [List.count_singleton, List.count_singleton]
      by_cases hq : p = q
      · subst hq
        exact Nat.le_of_eq (by rw [if_pos (beq_self_eq_true p), if_pos (beq_self_eq_true (some p))])
      · rw [if_neg fun he => hq (beq_iff_eq.1 he)]
        exact Nat.zero_le _
  | _ => exact Nat.zero_le _

theorem count_visits (q v : Nat) (vs ws : List Nat) :
    (v :: vs ++ ws).count q = List.count q [v] + vs.count q + ws.count q := by
  rw [List.count_append]
  exact congrArg (· + ws.count q) (List.count_append : ([v] ++ vs).count q = _)

/-- Each pointer and each pointee is met. -/
theorem Heap.Unfolds.count_le (hu : h.Unfolds es u) (q : Nat) :
    es.count (some q) + u.pointees.count q ≤ u.visits.count q := by
  induction hu with
  | nil => exact Nat.le_refl _
  | @cons v c es u w hv _ _ ihu ihw =>
    have hkids : c.pointees.count q ≤ (h.kids c).count (some q) := pointees_le q
    have hvisit : (some v :: es).count (some q) = es.count (some q) + List.count q [v] := by
      rw [List.count_cons, List.count_singleton]
      by_cases hq : v = q
      · subst hq
        rw [if_pos (beq_self_eq_true v), if_pos (beq_self_eq_true (some v))]
      · rw [if_neg fun he => hq (beq_iff_eq.1 he), if_neg fun he => hq (Option.some.inj (beq_iff_eq.1 he))]
    show _ + ((c.pointees ++ u.pointees) ++ w.pointees).count q ≤
      (v :: u.visits ++ w.visits).count q
    rw [hvisit, List.count_append, List.count_append, count_visits]
    omega

/-- Nothing that a pointer leads to is met twice. -/
def Walk.Single (u : Walk) : Prop := ∀ p ∈ u.pointees, u.visits.count p ≤ 1

/-- Something that a pointer leads to is met there and nowhere else. -/
theorem Walk.Single.parts {v : Nat} {w : Walk} (hu : h.Unfolds (h.kids c) u) (hw : h.Unfolds es w)
    (hsingle : ((u.under v c).append w).Single) (q : Nat) :
    c.pointees.count q + u.pointees.count q ≤ u.visits.count q ∧
      w.pointees.count q ≤ w.visits.count q ∧
      (1 ≤ c.pointees.count q + u.pointees.count q + w.pointees.count q →
        q ∈ ((u.under v c).append w).pointees ∧
          List.count q [v] + u.visits.count q + w.visits.count q ≤ 1) := by
  have hkids : c.pointees.count q ≤ (h.kids c).count (some q) := pointees_le q
  have hu_le := hu.count_le q
  have hw_le := hw.count_le q
  refine ⟨by omega, by omega, fun hq => ?_⟩
  have hin : q ∈ ((u.under v c).append w).pointees := by
    show q ∈ (c.pointees ++ u.pointees) ++ w.pointees
    rw [← List.count_pos_iff, List.count_append, List.count_append]
    exact hq
  have hcount : (v :: u.visits ++ w.visits).count q ≤ 1 := hsingle q hin
  rw [count_visits] at hcount
  exact ⟨hin, hcount⟩

theorem serialiseElements_unfolds (hu : h.Unfolds es u) (hsingle : u.Single)
    (hnew : ∀ p ∈ u.pointees, s.memo.count p = 0) :
    ∃ d memo, serialiseElements (serialiseValue h d) es s = (.ok (), ⟨memo, s.tsids ++ u.tsids⟩) ∧
      ∀ q, s.memo.count q = 0 → u.visits.count q = 0 → memo.count q = 0 := by
  induction hu generalizing s with
  | nil =>
    refine ⟨0, s.memo, ?_, fun q hq _ => hq⟩
    show (Except.ok (), s) = (Except.ok (), (⟨s.memo, s.tsids ++ []⟩ : Written))
    rw [List.append_nil]
  | @cons v c es u w hv hu hw ihu ihw =>
    have hparts := hsingle.parts hu hw
    have henter : ∀ q, (s.enter (some v)).memo.count q = s.memo.count q + List.count q [v] :=
      fun q => List.count_append
    have hafter : ∀ q, ((s.enter (some v)).after c).memo.count q =
        s.memo.count q + List.count q [v] + c.pointees.count q := by
      intro q
      rw [← henter]
      exact List.count_append
    have hvalue : ∀ q ∈ c.pointees, q ∉ (s.enter (some v)).memo := by
      intro q hq
      have hpos := List.count_pos_iff.2 hq
      obtain ⟨hle, _, honce⟩ := hparts q
      obtain ⟨hin, hcount⟩ := honce (by omega)
      have hold := hnew q hin
      rw [← List.count_eq_zero, henter]
      omega
    have hkids : ∀ q ∈ u.pointees, ((s.enter (some v)).after c).memo.count q = 0 := by
      intro q hq
      have hpos := List.count_pos_iff.2 hq
      obtain ⟨hle, _, honce⟩ := hparts q
      obtain ⟨hin, hcount⟩ := honce (by omega)
      have hold := hnew q hin
      rw [hafter]
      omega
    have hsingle_u : u.Single := by
      intro q hq
      have hpos := List.count_pos_iff.2 hq
      have hcount := ((hparts q).2.2 (by omega)).2
      omega
    obtain ⟨d1, memo1, h1, hmemo1⟩ := ihu hsingle_u hkids
    have hrun := (serialiseValue_some hv).trans (serialiseContent_kids hu hvalue h1)
    have hrest : ∀ q ∈ w.pointees, memo1.count q = 0 := by
      intro q hq
      have hpos := List.count_pos_iff.2 hq
      obtain ⟨hle, hle', honce⟩ := hparts q
      obtain ⟨hin, hcount⟩ := honce (by omega)
      have hold := hnew q hin
      refine hmemo1 q ?_ (by omega)
      rw [hafter]
      omega
    have hsingle_w : w.Single := by
      intro q hq
      have hpos := List.count_pos_iff.2 hq
      have hcount := ((hparts q).2.2 (by omega)).2
      omega
    obtain ⟨d2, memo2, h2, hmemo2⟩ :=
      ihw (s := ⟨memo1, ((s.enter (some v)).after c).tsids ++ u.tsids⟩) hsingle_w hrest
    refine ⟨max (d1 + 1) d2, memo2, ?_, fun q hq hvisits => ?_⟩
    · show ((serialiseValue h (max (d1 + 1) d2) (some v) >>= fun _ =>
        serialiseElements _ es) : Writing) s = _
      rw [Eff.andThen_ok (serialiseValue_deeper (Nat.le_max_left (d1 + 1) d2) _ _ _ _ hrun),
        serialiseElements_below (serialiseValue_deeper (Nat.le_max_right (d1 + 1) d2)) es _ () _ h2]
      show (Except.ok (), (⟨memo2, ((s.tsids ++ c.tsids) ++ u.tsids) ++ w.tsids⟩ : Written)) =
        (Except.ok (), ⟨memo2, s.tsids ++ ((c.tsids ++ u.tsids) ++ w.tsids)⟩)
      rw [List.append_assoc, List.append_assoc, List.append_assoc]
    · have hcount : (v :: u.visits ++ w.visits).count q = 0 := hvisits
      rw [count_visits] at hcount
      have hle := (hparts q).1
      refine hmemo2 q (hmemo1 q ?_ (by omega)) (by omega)
      rw [hafter]
      omega

end

/-- The references in a tuple are counted right if no tuple in it is met twice, and nothing that a
pointer leads to. -/
theorem counts_of_unfolds {t : Nat} {values : Ptr} (ht : h.content t = some (.tuple values))
    (hu : h.Unfolds [some t] u) (hnodup : u.arrays.Nodup) (hsingle : u.Single) :
    Counts h ref t values := by
  obtain ⟨d, hscan⟩ : ∃ d, scanElements (scanValueForTSRef h ref d) [some t] ⟨[], []⟩ =
      (.ok (), ⟨[] ++ u.arrays, [] ++ u.tsids.map fun ts => ⟨ts, ref⟩⟩) :=
    scanElements_unfolds hu hnodup fun a _ => List.not_mem_nil
  obtain ⟨d', memo, hwrite, _⟩ := serialiseElements_unfolds (s := ⟨[], []⟩) hu hsingle
    fun p _ => rfl
  have hvalue := scan_of_one hscan
  cases d with
  | zero => cases hvalue
  | succ d =>
    rw [scanValueForTSRef_some ht] at hvalue
    refine ⟨d, u.tsids.map fun ts => ⟨ts, ref⟩, u.tsids, ?_, ⟨d', ?_⟩, List.Perm.refl _⟩
    · have htuple : scanTuple2 h (scanValueForTSRef h ref d) values ⟨[], []⟩ =
          (.ok (), ⟨[] ++ u.arrays, [] ++ u.tsids.map fun ts => ⟨ts, ref⟩⟩) := hvalue
      unfold scanTuple
      rw [htuple]
      rfl
    · unfold serialise
      rw [serialise_of_one hwrite]
      rfl

end

end PyLinda.Scan
