import Mathlib.Data.List.Count
import Mathlib.Data.List.Perm.Basic
import PyLinda.Wire.Scan

/-!
# What the scan counts

When the scan of a tuple comes to an end it has taken each tuple once, and has sent a message for
each value in one that leads to a reference.
-/

namespace PyLinda.Scan

open Lib

/-! ## Leading -/

section
variable {h : Heap} {v a : Nat} {p : Ptr} {c d : Content} {ts : String}

theorem leads_here (hv : h.content v = some c) (hc : c.onward = none) :
    h.Leads (some v) d ↔ d = c := by
  constructor
  · intro hl
    cases hl with
    | here hv' _ => exact Option.some.inj (hv'.symm.trans hv)
    | on hv' hon _ =>
      cases hv.symm.trans hv'
      rw [hc] at hon
      cases hon
  · intro hd
    subst hd
    exact .here hv hc

theorem leads_on (hv : h.content v = some c) (hc : c.onward = some p) :
    h.Leads (some v) d ↔ h.Leads p d := by
  constructor
  · intro hl
    cases hl with
    | here hv' hon =>
      cases hv.symm.trans hv'
      rw [hc] at hon
      cases hon
    | on hv' hon hl =>
      cases hv.symm.trans hv'
      rw [hc] at hon
      cases hon
      exact hl
  · exact .on hv hc

theorem Heap.leading_append (es es' : List Ptr) :
    h.leading ts (es ++ es') = h.leading ts es + h.leading ts es' := List.countP_append

theorem Heap.leading_one_of {e : Ptr} (hl : h.Leads e (.tsref ts)) : h.leading ts [e] = 1 := by
  classical
  unfold Heap.leading
  rw [List.countP_cons, if_pos (decide_eq_true hl)]
  rfl

theorem Heap.leading_one_not {e : Ptr} (hl : ¬ h.Leads e (.tsref ts)) : h.leading ts [e] = 0 := by
  classical
  unfold Heap.leading
  rw [List.countP_cons, if_neg fun hd => hl (of_decide_eq_true hd)]
  rfl

theorem Heap.leading_congr {e e' : Ptr} (hl : h.Leads e (.tsref ts) ↔ h.Leads e' (.tsref ts)) :
    h.leading ts [e] = h.leading ts [e'] := by
  by_cases he : h.Leads e (.tsref ts)
  · rw [h.leading_one_of he, h.leading_one_of (hl.1 he)]
  · rw [h.leading_one_not he, h.leading_one_not fun he' => he (hl.2 he')]

end

/-! ## What a scan does -/

/-- The messages for a tuple space. -/
def State.count (s : State) (ref ts : String) : Nat := s.sent.count ⟨ts, ref⟩

/-- The scan of the pointers `es` takes `s` to `s'`. It enters the arrays `new`. -/
structure Did (h : Heap) (ref : String) (values : Ptr) (es : List Ptr) (s s' : State)
    (new : List Nat) : Prop where
  leads : ∀ e ∈ es, ∃ c, h.Leads e c
  scanned : s'.scanned = s.scanned ++ new
  fresh : ∀ a ∈ new, a ∉ s.scanned
  nodup : new.Nodup
  entered : ∀ e ∈ es, ∀ a, h.Leads e (.tuple (some a)) → a ∈ s'.scanned
  met : (∀ e ∈ es, ∀ a, h.Leads e (.tuple (some a)) → h.Met values a) → ∀ a ∈ new, h.Met values a
  below : ∀ a ∈ new, a < h.next
  inside : ∀ a ∈ new, ∀ e ∈ h.array a,
    (∃ c, h.Leads e c) ∧ ∀ b, h.Leads e (.tuple (some b)) → b ∈ s'.scanned
  count : ∀ ts, s'.count ref ts =
    s.count ref ts + h.leading ts es + (new.map fun a => h.leading ts (h.array a)).sum
  refs : (∀ m ∈ s.sent, m.ref = ref) → ∀ m ∈ s'.sent, m.ref = ref

section
variable {h : Heap} {ref : String} {values : Ptr} {es es1 es2 : List Ptr} {s s1 s2 s' : State}
  {new new1 new2 : List Nat} {v a : Nat} {p : Ptr} {c : Content}

theorem Did.nil : Did h ref values [] s s [] where
  leads _ he := absurd he List.not_mem_nil
  scanned := (List.append_nil _).symm
  fresh _ ha := absurd ha List.not_mem_nil
  nodup := List.nodup_nil
  entered _ he := absurd he List.not_mem_nil
  met _ _ ha := absurd ha List.not_mem_nil
  below _ ha := absurd ha List.not_mem_nil
  inside _ ha := absurd ha List.not_mem_nil
  count _ := rfl
  refs hs := hs

theorem Did.append (h1 : Did h ref values es1 s s1 new1) (h2 : Did h ref values es2 s1 s2 new2) :
    Did h ref values (es1 ++ es2) s s2 (new1 ++ new2) := by
  have hgrown : ∀ a, a ∈ s1.scanned → a ∈ s2.scanned := by
    intro a ha
    rw [h2.scanned]
    exact List.mem_append_left _ ha
  have hold : ∀ a, a ∈ s.scanned ∨ a ∈ new1 ↔ a ∈ s1.scanned := by
    intro a
    rw [h1.scanned, List.mem_append]
  refine ⟨?_, ?_, ?_, ?_, ?_, ?_, ?_, ?_, fun ts => ?_, fun hs => h2.refs (h1.refs hs)⟩
  · intro e he
    exact (List.mem_append.1 he).elim (h1.leads e) (h2.leads e)
  · rw [h2.scanned, h1.scanned, List.append_assoc]
  · intro a ha hs
    cases List.mem_append.1 ha with
    | inl ha => exact h1.fresh a ha hs
    | inr ha => exact h2.fresh a ha ((hold a).1 (.inl hs))
  · refine List.nodup_append.2 ⟨h1.nodup, h2.nodup, fun a ha b hb hab => ?_⟩
    exact h2.fresh b hb ((hold b).1 (.inr (hab ▸ ha)))
  · intro e he a hl
    cases List.mem_append.1 he with
    | inl he => exact hgrown a (h1.entered e he a hl)
    | inr he => exact h2.entered e he a hl
  · intro hes a ha
    cases List.mem_append.1 ha with
    | inl ha => exact h1.met (fun e he => hes e (List.mem_append_left _ he)) a ha
    | inr ha => exact h2.met (fun e he => hes e (List.mem_append_right _ he)) a ha
  · intro a ha
    exact (List.mem_append.1 ha).elim (h1.below a) (h2.below a)
  · intro a ha e he
    cases List.mem_append.1 ha with
    | inl ha => exact ⟨(h1.inside a ha e he).1, fun b hb => hgrown b ((h1.inside a ha e he).2 b hb)⟩
    | inr ha => exact h2.inside a ha e he
  · rw [h2.count, h1.count, h.leading_append, List.map_append, List.sum_append]
    omega

/-- A value is scanned as what it leads to is. -/
theorem Did.congr {e e' : Ptr} (hl : ∀ c, h.Leads e' c ↔ h.Leads e c)
    (hd : Did h ref values [e] s s' new) : Did h ref values [e'] s s' new where
  leads x hx := by
    obtain ⟨c, hc⟩ := hd.leads e List.mem_cons_self
    rw [List.mem_singleton.1 hx]
    exact ⟨c, (hl c).2 hc⟩
  scanned := hd.scanned
  fresh := hd.fresh
  nodup := hd.nodup
  entered x hx a ha := by
    rw [List.mem_singleton.1 hx] at ha
    exact hd.entered e List.mem_cons_self a ((hl _).1 ha)
  met hes := hd.met fun x hx a ha => by
    rw [List.mem_singleton.1 hx] at ha
    exact hes e' List.mem_cons_self a ((hl _).2 ha)
  below := hd.below
  inside := hd.inside
  count ts := by
    rw [hd.count, h.leading_congr (hl _)]
  refs := hd.refs

/-- Nothing is done at a value that is no reference and no new tuple. -/
theorem Did.quiet (hv : h.content v = some c) (hc : c.onward = none)
    (href : ∀ ts, c ≠ .tsref ts) (hmet : ∀ a, c = .tuple (some a) → a ∈ s.scanned) :
    Did h ref values [some v] s s [] where
  leads x hx := ⟨c, by rw [List.mem_singleton.1 hx]; exact .here hv hc⟩
  scanned := (List.append_nil _).symm
  fresh _ ha := absurd ha List.not_mem_nil
  nodup := List.nodup_nil
  entered x hx a ha := by
    rw [List.mem_singleton.1 hx] at ha
    exact hmet a ((leads_here hv hc).1 ha).symm
  met _ _ ha := absurd ha List.not_mem_nil
  below _ ha := absurd ha List.not_mem_nil
  inside _ ha := absurd ha List.not_mem_nil
  count ts := by
    rw [h.leading_one_not fun hl => href ts ((leads_here hv hc).1 hl).symm]
    rfl
  refs hs := hs

/-- A message is sent at a reference. -/
theorem Did.send {ts : String} (hv : h.content v = some (.tsref ts)) :
    Did h ref values [some v] s (s.send ⟨ts, ref⟩) [] where
  leads x hx := ⟨.tsref ts, by rw [List.mem_singleton.1 hx]; exact .here hv rfl⟩
  scanned := (List.append_nil _).symm
  fresh _ ha := absurd ha List.not_mem_nil
  nodup := List.nodup_nil
  entered x hx a ha := by
    rw [List.mem_singleton.1 hx] at ha
    cases (leads_here hv rfl).1 ha
  met _ _ ha := absurd ha List.not_mem_nil
  below _ ha := absurd ha List.not_mem_nil
  inside _ ha := absurd ha List.not_mem_nil
  count ts' := by
    have hsent : (s.send ⟨ts, ref⟩).count ref ts' =
        s.count ref ts' + List.count ⟨ts', ref⟩ [(⟨ts, ref⟩ : AddReference)] := List.count_append
    rw [hsent]
    by_cases hts : ts' = ts
    · subst hts
      rw [h.leading_one_of (.here hv rfl), List.count_singleton_self]
      rfl
    · rw [h.leading_one_not fun hl => hts (by cases (leads_here hv rfl).1 hl; rfl),
        List.count_singleton, if_neg fun he => hts (by cases beq_iff_eq.1 he; rfl)]
      rfl
  refs hs m hm := by
    cases List.mem_append.1 hm with
    | inl hm => exact hs m hm
    | inr hm => rw [List.mem_singleton.1 hm]

/-- A new tuple is entered before its values are scanned. -/
theorem Did.enter (hv : h.content v = some (.tuple (some a))) (hnew : a ∉ s.scanned)
    (hd : Did h ref values (h.array a) (s.enter (some a)) s' new) :
    Did h ref values [some v] s s' (a :: new) := by
  have hscanned : s'.scanned = s.scanned ++ a :: new := by
    rw [hd.scanned]
    exact List.append_assoc _ [a] new
  have ha : a ∈ s'.scanned := by
    rw [hscanned]
    exact List.mem_append_right _ List.mem_cons_self
  have hfresh : ∀ b ∈ new, b ∉ s.scanned ∧ b ≠ a := by
    intro b hb
    have hnot := hd.fresh b hb
    exact ⟨fun hs => hnot (List.mem_append_left _ hs), fun he => hnot
      (List.mem_append_right _ (he ▸ List.mem_cons_self))⟩
  refine ⟨fun x hx => ⟨.tuple (some a), ?_⟩, hscanned, fun b hb => ?_,
    List.nodup_cons.2 ⟨fun ha => (hfresh a ha).2 rfl, hd.nodup⟩, fun x hx b hb => ?_,
    fun hes b hb => ?_, fun b hb => ?_, fun b hb e he => ?_, fun ts => ?_, hd.refs⟩
  · rw [List.mem_singleton.1 hx]
    exact .here hv rfl
  · cases List.mem_cons.1 hb with
    | inl hb => exact hb ▸ hnew
    | inr hb => exact (hfresh b hb).1
  · rw [List.mem_singleton.1 hx] at hb
    cases (leads_here hv rfl).1 hb
    exact ha
  · have hmet : h.Met values a := hes _ List.mem_cons_self a (.here hv rfl)
    cases List.mem_cons.1 hb with
    | inl hb => exact hb ▸ hmet
    | inr hb => exact hd.met (fun e he b hb => .element hmet he hb) b hb
  · cases List.mem_cons.1 hb with
    | inl hb => exact hb ▸ h.below hv
    | inr hb => exact hd.below b hb
  · cases List.mem_cons.1 hb with
    | inl hb =>
      subst hb
      exact ⟨hd.leads e he, hd.entered e he⟩
    | inr hb => exact hd.inside b hb e he
  · have hnone : h.leading ts [some v] = 0 :=
      h.leading_one_not fun hl => by cases (leads_here hv rfl).1 hl
    have hcount := hd.count ts
    rw [hcount, hnone, List.map_cons, List.sum_cons]
    show s.count ref ts + _ + _ = _
    omega

end

/-! ## The scan -/

section
variable {h : Heap} {ref : String} {values p : Ptr} {es : List Ptr} {s s' : State} {v a : Nat}
  {scan : Ptr → Run}

theorem scanElements_did (hscan : ∀ {p s s'}, scan p s = (.ok (), s') →
      ∃ new, Did h ref values [p] s s' new)
    (hrun : scanElements scan es s = (.ok (), s')) : ∃ new, Did h ref values es s s' new := by
  induction es generalizing s with
  | nil =>
    cases hrun
    exact ⟨[], .nil⟩
  | cons e es ih =>
    obtain ⟨_, t, he, hes⟩ := Eff.ok_of_andThen hrun
    obtain ⟨new1, h1⟩ := hscan he
    obtain ⟨new2, h2⟩ := ih hes
    exact ⟨new1 ++ new2, h1.append h2⟩

theorem State.met_iff : s.met (some a) = true ↔ a ∈ s.scanned := List.contains_iff_mem

theorem scanTuple2_met (ha : a ∈ s.scanned) : scanTuple2 h scan (some a) s = (.ok (), s) := by
  show (if s.met (some a) then (pure () : Run) else _) s = _
  rw [if_pos (State.met_iff.2 ha)]
  rfl

theorem scanTuple2_new (ha : a ∉ s.scanned) :
    scanTuple2 h scan (some a) s = scanElements scan (h.array a) (s.enter (some a)) := by
  show (if s.met (some a) then (pure () : Run) else _) s = _
  rw [if_neg fun hm => ha (State.met_iff.1 hm)]
  rfl

theorem scanTuple2_none : scanTuple2 h scan none s = (.ok (), s.enter none) := rfl

theorem State.enter_none : s.enter none = s := by
  show (⟨s.scanned ++ [], s.sent⟩ : State) = s
  rw [List.append_nil]

theorem typeOf_value : h.typeOf (some v) = (h.content v).elim (.error .dangling) .ok := rfl

theorem typeOf_ok {c : Content} (hp : h.typeOf p = .ok c) : ∃ v, p = some v ∧ h.content v = some c := by
  cases p with
  | none => cases hp
  | some v =>
    refine ⟨v, rfl, ?_⟩
    rw [typeOf_value] at hp
    cases hc : h.content v with
    | none =>
      rw [hc] at hp
      cases hp
    | some d =>
      rw [hc] at hp
      cases hp
      rfl

theorem scanContent_did {c : Content} (hscan : ∀ {p s s'}, scan p s = (.ok (), s') →
      ∃ new, Did h ref values [p] s s' new)
    (hv : h.content v = some c) (hrun : scanContent h ref scan c s = (.ok (), s')) :
    ∃ new, Did h ref values [some v] s s' new := by
  cases c with
  | other =>
    cases hrun
    exact ⟨[], .quiet hv rfl (fun _ hc => by cases hc) fun _ hc => by cases hc⟩
  | tsref ts =>
    cases hrun
    exact ⟨[], .send hv⟩
  | tuple values' =>
    have hrun' : scanTuple2 h scan values' s = (.ok (), s') := hrun
    cases values' with
    | none =>
      rw [scanTuple2_none, State.enter_none] at hrun'
      cases hrun'
      exact ⟨[], .quiet hv rfl (fun _ hc => by cases hc) fun _ hc => by cases hc⟩
    | some a =>
      by_cases ha : a ∈ s.scanned
      · rw [scanTuple2_met ha] at hrun'
        cases hrun'
        exact ⟨[], .quiet hv rfl (fun _ hc => by cases hc) fun b hc => by cases hc; exact ha⟩
      · rw [scanTuple2_new ha] at hrun'
        obtain ⟨new, hd⟩ := scanElements_did hscan hrun'
        exact ⟨a :: new, .enter hv ha hd⟩
  | sum value =>
    obtain ⟨new, hd⟩ := hscan (show scan value s = (.ok (), s') from hrun)
    exact ⟨new, hd.congr fun c => leads_on hv rfl⟩
  | pointer ptr =>
    obtain ⟨new, hd⟩ := hscan (show scan ptr s = (.ok (), s') from hrun)
    exact ⟨new, hd.congr fun c => leads_on hv rfl⟩

theorem scanValueForTSRef_did {depth : Nat} (hrun : scanValueForTSRef h ref depth p s = (.ok (), s')) :
    ∃ new, Did h ref values [p] s s' new := by
  induction depth generalizing p s s' with
  | zero => cases hrun
  | succ depth ih =>
    obtain ⟨c, t, hlook, hcontent⟩ := Eff.ok_of_andThen hrun
    obtain ⟨v, rfl, hv⟩ := typeOf_ok (congrArg Prod.fst hlook)
    cases congrArg Prod.snd hlook
    exact scanContent_did ih hv hcontent

end

/-! ## Where the scan ends -/

section
variable {h : Heap} {ref : String} {values p : Ptr} {es : List Ptr} {s s' : State} {c : Content}
  {x y : Ptr → Run}

theorem scanElements_below (hxy : ∀ p, Eff.Below (x p) (y p)) (es : List Ptr) :
    Eff.Below (scanElements x es) (scanElements y es) := by
  induction es with
  | nil => exact .refl _
  | cons e es ih => exact .andThen (hxy e) fun _ => ih

theorem scanContent_below (hxy : ∀ p, Eff.Below (x p) (y p)) (c : Content) :
    Eff.Below (scanContent h ref x c) (scanContent h ref y c) := by
  cases c with
  | other => exact .refl _
  | tsref ts => exact .refl _
  | sum value => exact hxy value
  | pointer ptr => exact hxy ptr
  | tuple values =>
    refine .andThen (.refl _) fun met => ?_
    cases met with
    | true => exact .refl _
    | false => exact .andThen (.refl _) fun _ => scanElements_below hxy _

/-- A deeper stack changes nothing for a scan that came to an end. -/
theorem scanValueForTSRef_deeper {d d' : Nat} (hle : d ≤ d') (p : Ptr) :
    Eff.Below (scanValueForTSRef h ref d p) (scanValueForTSRef h ref d' p) := by
  induction d generalizing d' p with
  | zero => exact .raise _ _
  | succ d ih =>
    obtain ⟨d', rfl⟩ := Nat.exists_eq_add_of_le' (Nat.lt_of_lt_of_le (Nat.succ_pos d) hle)
    exact .andThen (.refl _) fun c => scanContent_below (ih (Nat.le_of_succ_le_succ hle)) c

/-- How many arrays have not been met. -/
def left (h : Heap) (s : State) : Nat := unvisited (List.range h.next) s.scanned.contains

theorem Did.left_le {new : List Nat} (hd : Did h ref values es s s' new) : left h s' ≤ left h s := by
  refine unvisited_mono fun a ha => ?_
  rw [hd.scanned]
  exact List.contains_iff_mem.2 (List.mem_append_left _ (List.contains_iff_mem.1 ha))

theorem left_enter {a : Nat} (hlt : a < h.next) (ha : a ∉ s.scanned) :
    left h (s.enter (some a)) < left h s := by
  have hgrown : ∀ b, s.scanned.contains b = true → (s.enter (some a)).scanned.contains b = true :=
    fun b hb => List.contains_iff_mem.2 (List.mem_append_left _ (List.contains_iff_mem.1 hb))
  refine unvisited_lt hgrown (List.mem_range.2 hlt) ?_ (List.contains_iff_mem.2 ?_)
  · cases hc : s.scanned.contains a with
    | false => rfl
    | true => exact absurd (List.contains_iff_mem.1 hc) ha
  · exact List.mem_append_right _ List.mem_cons_self

/-- The pointer leads to a value, and to a tuple only if it can be reached. -/
def Good (h : Heap) (values p : Ptr) : Prop :=
  ∃ c, h.Leads p c ∧ ∀ a, c = .tuple (some a) → h.Met values a

theorem scanElements_ends {k : Nat}
    (hscan : ∀ {p s}, left h s < k → Good h values p →
      ∃ d s', scanValueForTSRef h ref d p s = (.ok (), s'))
    (hleft : left h s < k) (hes : ∀ e ∈ es, Good h values e) :
    ∃ d s', scanElements (scanValueForTSRef h ref d) es s = (.ok (), s') := by
  induction es generalizing s with
  | nil => exact ⟨0, s, rfl⟩
  | cons e es ih =>
    obtain ⟨d1, s1, h1⟩ := hscan hleft (hes e List.mem_cons_self)
    obtain ⟨new, hd⟩ : ∃ new, Did h ref values [e] s s1 new := scanValueForTSRef_did h1
    obtain ⟨d2, s2, h2⟩ := ih (Nat.lt_of_le_of_lt hd.left_le hleft)
      fun e' he' => hes e' (List.mem_cons_of_mem e he')
    refine ⟨max d1 d2, s2, ?_⟩
    show ((scanValueForTSRef h ref (max d1 d2) e >>= fun _ => scanElements _ es) : Run) s = _
    rw [Eff.andThen_ok (scanValueForTSRef_deeper (Nat.le_max_left d1 d2) e s () s1 h1)]
    exact scanElements_below (scanValueForTSRef_deeper (Nat.le_max_right d1 d2)) es s1 () s2 h2

theorem typeOf_some {v : Nat} (hv : h.content v = some c) : h.typeOf (some v) = .ok c := by
  rw [typeOf_value, hv]
  rfl

theorem scanValueForTSRef_some {v d : Nat} (hv : h.content v = some c) :
    scanValueForTSRef h ref (d + 1) (some v) s =
      scanContent h ref (scanValueForTSRef h ref d) c s :=
  Eff.constant_ok (typeOf_some hv) _ s

/-- From a pointer that leads somewhere the scan ends if from all tuples in reach it does. -/
theorem scanValueForTSRef_ends
    (hall : ∀ a, h.Met values a → ∀ e ∈ h.array a, ∃ c, h.Leads e c) (k : Nat)
    (hleft : left h s < k) (hp : Good h values p) :
    ∃ d s', scanValueForTSRef h ref d p s = (.ok (), s') := by
  induction k generalizing p s with
  | zero => exact absurd hleft (Nat.not_lt_zero _)
  | succ k ih =>
    obtain ⟨c, hl, hmet⟩ := hp
    induction hl with
    | on hv hon _ ihl =>
      obtain ⟨d, s', hrun⟩ := ihl hmet
      refine ⟨d + 1, s', ?_⟩
      rw [scanValueForTSRef_some hv, ← hrun]
      rename_i c' _ _ _
      cases c' with
      | sum value =>
        cases hon
        rfl
      | pointer ptr =>
        cases hon
        rfl
      | _ => cases hon
    | @here v c hv hon =>
      cases c with
      | other => exact ⟨1, s, scanValueForTSRef_some hv⟩
      | tsref ts => exact ⟨1, s.send ⟨ts, ref⟩, scanValueForTSRef_some hv⟩
      | sum value => cases hon
      | pointer ptr => cases hon
      | tuple values' =>
        cases values' with
        | none => exact ⟨1, s.enter none, scanValueForTSRef_some hv⟩
        | some a =>
          by_cases ha : a ∈ s.scanned
          · exact ⟨1, s, (scanValueForTSRef_some hv).trans (scanTuple2_met ha)⟩
          · have hless := left_enter (h.below hv) ha
            have hm : h.Met values a := hmet a rfl
            have hgood : ∀ e ∈ h.array a, Good h values e := by
              intro e he
              obtain ⟨c, hc⟩ := hall a hm e he
              exact ⟨c, hc, fun b hb => .element hm he (hb ▸ hc)⟩
            obtain ⟨d, s', hrun⟩ := scanElements_ends ih
              (Nat.lt_of_lt_of_le hless (Nat.le_of_lt_succ hleft)) hgood
            refine ⟨d + 1, s', ?_⟩
            rw [scanValueForTSRef_some hv]
            exact (scanTuple2_new ha).trans hrun

end

/-! ## What is counted -/

section
variable {h : Heap} {ref : String} {values : Ptr} {sent : List AddReference} {ts : String}

/-- The scan of a tuple enters the tuples in reach, and each of their values leads somewhere. -/
structure Complete (h : Heap) (values : Ptr) (scanned : List Nat) : Prop where
  nodup : scanned.Nodup
  met : ∀ a, a ∈ scanned ↔ h.Met values a
  below : ∀ a ∈ scanned, a < h.next
  leads : ∀ a, h.Met values a → ∀ e ∈ h.array a, ∃ c, h.Leads e c

theorem not_met_none {a : Nat} : ¬ h.Met none a := by
  intro hm
  induction hm with
  | root ha => cases ha
  | element _ _ _ ih => exact ih

theorem Complete.references_eq {scanned : List Nat} (hc : Complete h values scanned) (ts : String) :
    h.references values ts = (scanned.map fun a => h.leading ts (h.array a)).sum := by
  classical
  unfold Heap.references
  refine List.Perm.sum_nat (List.Perm.map _ ?_)
  refine (List.perm_ext_iff_of_nodup (List.nodup_range.filter _) hc.nodup).2 fun a => ?_
  rw [List.mem_filter, List.mem_range, decide_eq_true_iff, hc.met]
  exact ⟨And.right, fun hm => ⟨hc.below a ((hc.met a).2 hm), hm⟩⟩

/-- A tuple that is scanned to the end. -/
theorem scanTuple_ok {depth : Nat} (hrun : scanTuple h ref depth values = .ok sent)
    (hbelow : ∀ a, values = some a → a < h.next) :
    ∃ scanned, Complete h values scanned ∧ (∀ m ∈ sent, m.ref = ref) ∧
      ∀ ts, sent.count ⟨ts, ref⟩ = (scanned.map fun a => h.leading ts (h.array a)).sum := by
  cases hscan : scanTuple2 h (scanValueForTSRef h ref depth) values ⟨[], []⟩ with
  | mk r s =>
    have hsent : r.map (fun _ => s.sent) = .ok sent := by
      rw [← hrun]
      unfold scanTuple
      rw [hscan]
    cases r with
    | error e => cases hsent
    | ok u =>
      cases hsent
      cases values with
      | none =>
        rw [scanTuple2_none, State.enter_none] at hscan
        cases hscan
        exact ⟨[], ⟨List.nodup_nil, fun a => iff_of_false List.not_mem_nil not_met_none,
          fun a ha => absurd ha List.not_mem_nil, fun a ha => absurd ha not_met_none⟩,
          fun m hm => absurd hm List.not_mem_nil, fun ts => rfl⟩
      | some a =>
        rw [scanTuple2_new List.not_mem_nil] at hscan
        obtain ⟨new, hd⟩ : ∃ new, Did h ref (some a) (h.array a) _ s new :=
          scanElements_did scanValueForTSRef_did hscan
        have hscanned : s.scanned = a :: new := hd.scanned
        have hclosed : ∀ b ∈ a :: new, ∀ e ∈ h.array b,
            (∃ c, h.Leads e c) ∧ ∀ c, h.Leads e (.tuple (some c)) → c ∈ a :: new := by
          intro b hb e he
          rw [← hscanned]
          cases List.mem_cons.1 hb with
          | inl hb =>
            subst hb
            exact ⟨hd.leads e he, hd.entered e he⟩
          | inr hb => exact hd.inside b hb e he
        have hin : ∀ b, h.Met (some a) b → b ∈ a :: new := by
          intro b hb
          induction hb with
          | root ha =>
            cases ha
            exact List.mem_cons_self
          | element _ he hl ih => exact (hclosed _ ih _ he).2 _ hl
        have hmet : ∀ b ∈ a :: new, h.Met (some a) b := by
          intro b hb
          cases List.mem_cons.1 hb with
          | inl hb => exact .root (hb ▸ rfl)
          | inr hb => exact hd.met (fun e he b hb => .element (.root rfl) he hb) b hb
        refine ⟨a :: new, ⟨?_, fun b => ⟨hmet b, hin b⟩, ?_, ?_⟩, ?_, fun ts => ?_⟩
        · exact List.nodup_cons.2 ⟨fun ha => hd.fresh a ha List.mem_cons_self, hd.nodup⟩
        · intro b hb
          cases List.mem_cons.1 hb with
          | inl hb => exact hb ▸ hbelow a rfl
          | inr hb => exact hd.below b hb
        · exact fun b hb e he => (hclosed b (hin b hb) e he).1
        · exact hd.refs fun m hm => absurd hm List.not_mem_nil
        · have hcount : s.sent.count ⟨ts, ref⟩ = 0 + _ + _ := hd.count ts
          rw [hcount, List.map_cons, List.sum_cons, Nat.zero_add]

/-- The scan comes to an end if each value of the tuples in reach leads somewhere. -/
theorem scanTuple_ends (hall : ∀ a, h.Met values a → ∀ e ∈ h.array a, ∃ c, h.Leads e c) :
    ∃ depth sent, scanTuple h ref depth values = .ok sent := by
  cases values with
  | none => exact ⟨0, [], rfl⟩
  | some a =>
    have hgood : ∀ e ∈ h.array a, Good h (some a) e := by
      intro e he
      obtain ⟨c, hc⟩ := hall a (.root rfl) e he
      exact ⟨c, hc, fun b hb => .element (.root rfl) he (hb ▸ hc)⟩
    obtain ⟨depth, s', hrun⟩ : ∃ d s', scanElements (scanValueForTSRef h ref d) (h.array a)
        (State.enter ⟨[], []⟩ (some a)) = (.ok (), s') :=
      scanElements_ends (fun hleft hp => scanValueForTSRef_ends hall _ hleft hp)
        (Nat.lt_succ_self _) hgood
    refine ⟨depth, s'.sent, ?_⟩
    unfold scanTuple
    rw [scanTuple2_new List.not_mem_nil, hrun]
    rfl

end

/-- The references of a tuple are counted right if each value of the tuples in reach leads
somewhere, and as many of them, each tuple taken once, lead to a tuple space as the document has
references to it. -/
theorem counts_iff {h : Heap} {t : Nat} {values : Ptr} (ht : h.content t = some (.tuple values))
    (ref : String) :
    Counts h ref t values ↔ (∀ a, h.Met values a → ∀ e ∈ h.array a, ∃ c, h.Leads e c) ∧
      ∃ tsids, Received h t tsids ∧ ∀ ts, h.references values ts = tsids.count ts := by
  have hbelow : ∀ a, values = some a → a < h.next := fun a ha => h.below (ha ▸ ht)
  have hinj : Function.Injective fun ts => (⟨ts, ref⟩ : AddReference) := by
    intro ts ts' he
    cases he
    rfl
  have hcount : ∀ (tsids : List String) ts, (tsids.map fun ts => (⟨ts, ref⟩ : AddReference)).count ⟨ts, ref⟩ =
      tsids.count ts := fun tsids ts => List.count_map_of_injective tsids _ hinj ts
  constructor
  · intro ⟨depth, sent, tsids, hrun, hrec, hperm⟩
    obtain ⟨scanned, hc, _, hsent⟩ := scanTuple_ok hrun hbelow
    refine ⟨hc.leads, tsids, hrec, fun ts => ?_⟩
    rw [hc.references_eq, ← hsent, hperm.count_eq, hcount]
  · intro ⟨hall, tsids, hrec, heq⟩
    obtain ⟨depth, sent, hrun⟩ : ∃ depth sent, scanTuple h ref depth values = .ok sent :=
      scanTuple_ends hall
    obtain ⟨scanned, hc, href, hsent⟩ := scanTuple_ok hrun hbelow
    refine ⟨depth, sent, tsids, hrun, hrec, List.perm_iff_count.2 fun m => ?_⟩
    by_cases hm : m.ref = ref
    · have hms : m = ⟨m.ts, ref⟩ := by
        rw [← hm]
      rw [hms, hsent, hcount, ← heq, hc.references_eq]
    · have hnot : ∀ l : List AddReference, (∀ m ∈ l, m.ref = ref) → l.count m = 0 :=
        fun l hl => List.count_eq_zero.2 fun hin => hm (hl m hin)
      rw [hnot sent href, hnot _ fun m hm => ?_]
      obtain ⟨ts, _, rfl⟩ := List.mem_map.1 hm
      rfl

/-- Address 0 is a tuple that holds the pointer at address 1, which points to itself. -/
def selfPointer : Heap where
  content v := if v = 0 then some (.tuple (some 0)) else if v = 1 then some (.pointer (some 1)) else none
  array a := if a = 0 then [some 1] else []
  next := 1
  below := by
    intro v a hv
    split at hv
    · cases hv
      decide
    · split at hv <;> cases hv

theorem selfPointer_endless (ref : String) (depth : Nat) (s : State) :
    scanValueForTSRef selfPointer ref depth (some 1) s = (.error .depth, s) := by
  induction depth with
  | zero => rfl
  | succ depth ih =>
    have hv : selfPointer.content 1 = some (.pointer (some 1)) := rfl
    rw [scanValueForTSRef_some hv]
    exact ih

theorem selfPointer_not_counted : ¬ Counts selfPointer "uts" 0 (some 0) := by
  intro ⟨depth, sent, tsids, hrun, _⟩
  unfold scanTuple at hrun
  have hscan : scanTuple2 selfPointer (scanValueForTSRef selfPointer "uts" depth) (some 0) ⟨[], []⟩ =
      (.error .depth, ⟨[0], []⟩) :=
    (scanTuple2_new List.not_mem_nil).trans (Eff.andThen_error (selfPointer_endless _ _ _) _)
  rw [hscan] at hrun
  cases hrun

theorem selfPointer_counts_iff :
    Counts selfPointer "uts" 0 (some 0) ↔
      (∀ a, selfPointer.Met (some 0) a → ∀ e ∈ selfPointer.array a, ∃ c, selfPointer.Leads e c) ∧
      ∃ tsids, Received selfPointer 0 tsids ∧
        ∀ ts, selfPointer.references (some 0) ts = tsids.count ts :=
  counts_iff rfl "uts"

/-- Address 0 is a tuple that holds the tuple at address 1 twice, with a reference in it. -/
def sharedTuple : Heap where
  content v := if v = 0 then some (.tuple (some 0)) else if v = 1 then some (.tuple (some 1))
    else if v = 2 then some (.tsref "a") else none
  array a := if a = 0 then [some 1, some 1] else if a = 1 then [some 2] else []
  next := 2
  below := by
    intro v a hv
    split at hv
    · cases hv
      decide
    · split at hv
      · cases hv
        decide
      · split at hv <;> cases hv

example : scanTuple sharedTuple "uts" 3 (some 0) = .ok [⟨"a", "uts"⟩] ∧
    serialise sharedTuple 3 (some 0) = .ok ["a", "a"] := ⟨rfl, rfl⟩

end PyLinda.Scan
