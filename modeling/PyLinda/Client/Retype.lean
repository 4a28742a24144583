import PyLinda.Client.Reads

/-!
# When the four reads give the same types

The elements of the tuple are new, so giving them types changes neither the template nor each
other. `Linda_in` sets the formal itself; the others set the type of the formal.
-/

namespace PyLinda.Client

open Lib

section
variable {α : Type}

theorem Heap.get_ok {h : Heap α} {a : Addr} {v : Value α} (ha : h.objs a = some v) :
    h.get a = .ok v := by
  unfold Heap.get
  rw [ha]

/-- What is there was made before the next one. -/
theorem Heap.lt_next {h : Heap α} {a : Addr} {v : Value α} (ha : h.objs a = some v) :
    a < h.next := by
  apply Nat.lt_of_not_le
  intro hle
  rw [h.fresh a hle] at ha
  cases ha

theorem Heap.isType_formal {h : Heap α} {a : Addr} (ha : h.IsFormal a) : h.isType a = .ok true := by
  obtain ⟨d, o, ha⟩ := ha
  unfold Heap.isType
  rw [Heap.get_ok ha]
  rfl

theorem Heap.isType_actual {h : Heap α} {a : Addr} {v : Value α} (ha : h.objs a = some v)
    (hn : ¬ h.IsFormal a) : h.isType a = .ok false := by
  unfold Heap.isType
  rw [Heap.get_ok ha]
  obtain ⟨content, o⟩ := v
  cases content with
  | type d => exact absurd ⟨d, o, ha⟩ hn
  | tuple values => rfl
  | other data => rfl

theorem Heap.tupleGet_ok {h : Heap α} {a : Addr} {values : List Addr} {o : Option Addr}
    (ha : h.objs a = some ⟨.tuple values, o⟩) {i : Nat} {v : Addr} (hi : values[i]? = some v) :
    h.tupleGet a i = .ok v := by
  unfold Heap.tupleGet
  rw [Heap.get_ok ha]
  simp only [bind, Except.bind, hi]

/-- One value has another type; nothing else has changed. -/
structure TypeSet (h h' : Heap α) (a : Addr) (content : Content α) (type : Addr) : Prop where
  here : h'.objs a = some ⟨content, some type⟩
  elsewhere : ∀ b, b ≠ a → h'.objs b = h.objs b

theorem Heap.setType_ok {h : Heap α} {a : Addr} {v : Value α} (ha : h.objs a = some v)
    (type : Addr) : ∃ h', h.setType a (some type) = .ok h' ∧ TypeSet h h' a v.content type := by
  unfold Heap.setType
  split
  · rename_i hn
    cases hn
  · rename_i heq
    cases heq
    split
    · rename_i hn
      rw [ha] at hn
      cases hn
    · rename_i w hw
      cases ha.symm.trans hw
      exact ⟨_, rfl, if_pos rfl, fun b hb => if_neg hb⟩

/-! ## The bodies of the loops -/

theorem inElement_formal {h : Heap α} {v1 v2 : Addr} {w : Value α} (h1 : h.IsFormal v1)
    (h2 : h.objs v2 = some w) :
    ∃ h', inElement h v1 v2 = .ok h' ∧ TypeSet h h' v2 w.content v1 := by
  unfold inElement
  rw [Heap.isType_formal h1]
  exact Heap.setType_ok h2 v1

theorem inElement_actual {h : Heap α} {v1 v2 o : Addr} {v w : Value α} (hv : h.objs v1 = some v)
    (hn : ¬ h.IsFormal v1) (ho : v.typeobj = some o) (h2 : h.objs v2 = some w) :
    ∃ h', inElement h v1 v2 = .ok h' ∧ TypeSet h h' v2 w.content o := by
  unfold inElement
  rw [Heap.isType_actual hv hn, Heap.get_ok hv]
  show ∃ h', h.setType v2 v.typeobj = .ok h' ∧ _
  rw [ho]
  exact Heap.setType_ok h2 o

theorem rdElement_typed {h : Heap α} {v1 v2 o : Addr} {v w : Value α} (hv : h.objs v1 = some v)
    (ho : v.typeobj = some o) (h2 : h.objs v2 = some w) :
    ∃ h', rdElement h v1 v2 = .ok h' ∧ TypeSet h h' v2 w.content o := by
  unfold rdElement
  rw [Heap.get_ok hv]
  show ∃ h', h.setType v2 v.typeobj = .ok h' ∧ _
  rw [ho]
  exact Heap.setType_ok h2 o

theorem rdElement_untyped {h : Heap α} {v1 v2 : Addr} {v : Value α} (hv : h.objs v1 = some v)
    (ho : v.typeobj = none) : rdElement h v1 v2 = .error .nullPointer := by
  unfold rdElement
  rw [Heap.get_ok hv]
  show h.setType v2 v.typeobj = _
  rw [ho]
  rfl

/-! ## The tuple that comes back -/

/-- The new values stand one after the other. -/
theorem Heap.allocAll_objs (vs : List (Value α)) : ∀ h : Heap α,
    (h.allocAll vs).next = h.next + vs.length ∧
      (∀ i v, vs[i]? = some v → (h.allocAll vs).objs (h.next + i) = some v) ∧
        ∀ a, a < h.next → (h.allocAll vs).objs a = h.objs a := by
  induction vs with
  | nil => exact fun h => ⟨rfl, fun i v hv => absurd hv (by simp), fun _ _ => rfl⟩
  | cons v vs ih =>
    intro h
    obtain ⟨hnext, hnew, hold⟩ := ih (h.alloc v)
    have hn : (h.alloc v).next = h.next + 1 := rfl
    have heq : h.allocAll (v :: vs) = (h.alloc v).allocAll vs := rfl
    rw [heq]
    refine ⟨?_, fun i w hw => ?_, fun a ha => ?_⟩
    · rw [hnext, hn, List.length_cons]
      exact Nat.add_right_comm _ _ _
    · cases i with
      | zero =>
        cases hw
        rw [Nat.add_zero, hold h.next (Nat.lt_succ_self _)]
        exact if_pos rfl
      | succ i =>
        have := hnew i w hw
        rw [hn, Nat.add_right_comm] at this
        exact this
    · rw [hold a (Nat.lt_succ_of_lt ha)]
      exact if_neg (Nat.ne_of_lt ha)

/-- After `k` rounds over a tuple of which the elements are the values from `base` on. -/
structure Rounds (h hk : Heap α) (base k : Nat) (vs : List (Value α)) (types : Nat → Addr) :
    Prop where
  below : ∀ a, a < base → hk.objs a = h.objs a
  done : ∀ i v, i < k → vs[i]? = some v →
    hk.objs (base + i) = some ⟨v.content, some (types i)⟩
  todo : ∀ i v, k ≤ i → vs[i]? = some v → hk.objs (base + i) = some v
  tuple : hk.objs (base + vs.length) =
    some ⟨.tuple ((List.range vs.length).map (base + ·)), none⟩

theorem receive_rounds (h : Heap α) (vs : List (Value α)) (types : Nat → Addr) :
    (receive h vs).2 = h.next + vs.length ∧ Rounds h (receive h vs).1 h.next 0 vs types := by
  obtain ⟨hnext, hnew, hold⟩ := Heap.allocAll_objs vs h
  refine ⟨hnext, fun a ha => ?_, fun i _ hi => absurd hi (Nat.not_lt_zero _), fun i v _ hv => ?_, ?_⟩
  · rw [← hold a ha]
    exact if_neg (Nat.ne_of_lt (Nat.lt_of_lt_of_le ha (hnext ▸ Nat.le_add_right _ _)))
  · rw [← hnew i v hv]
    have hi := (List.getElem?_eq_some_iff.1 hv).1
    exact if_neg (Nat.ne_of_lt (hnext ▸ Nat.add_lt_add_left hi _))
  · rw [← hnext]
    exact if_pos rfl

/-- A round that sets the type of the next element. -/
theorem Rounds.next {h hk h' : Heap α} {base k : Nat} {vs : List (Value α)} {types : Nat → Addr}
    (hr : Rounds h hk base k vs types) {v : Value α} (hv : vs[k]? = some v)
    (hs : TypeSet hk h' (base + k) v.content (types k)) : Rounds h h' base (k + 1) vs types where
  below a ha := by
    rw [hs.elsewhere a (Nat.ne_of_lt (Nat.lt_of_lt_of_le ha (Nat.le_add_right _ _)))]
    exact hr.below a ha
  done i w hi hw := by
    rcases Nat.lt_succ_iff_lt_or_eq.1 hi with hi | rfl
    · rw [hs.elsewhere _ fun he => Nat.ne_of_lt hi (Nat.add_left_cancel he)]
      exact hr.done i w hi hw
    · cases hv.symm.trans hw
      exact hs.here
  todo i w hi hw := by
    rw [hs.elsewhere _ fun he => Nat.ne_of_gt hi (Nat.add_left_cancel he)]
    exact hr.todo i w (Nat.le_of_succ_le hi) hw
  tuple := by
    have hlt := (List.getElem?_eq_some_iff.1 hv).1
    rw [hs.elsewhere _ fun he => Nat.ne_of_gt hlt (Nat.add_left_cancel he)]
    exact hr.tuple

section
variable {h : Heap α} {t : Addr} {ts : List Addr} {vs : List (Value α)}
  {body : Heap α → Addr → Addr → Except Stop (Heap α)}

/-- One round of the loop, as `eachElement` makes it. -/
def round (body : Heap α → Addr → Addr → Except Stop (Heap α)) (t r : Addr) (h : Heap α)
    (i : Nat) : Except Stop (Heap α) := do
  let v1 ← h.tupleGet t i
  let v2 ← h.tupleGet r i
  body h v1 v2

/-- A round looks up the next elements of both tuples. -/
theorem round_eq (ht : h.IsTuple t ts) {hk : Heap α} {k i : Nat} {types : Nat → Addr}
    (hr : Rounds h hk h.next k vs types) {v1 : Addr} (h1 : ts[i]? = some v1)
    (hi : i < vs.length) :
    round body t (h.next + vs.length) hk i = body hk v1 (h.next + i) := by
  obtain ⟨o, ho⟩ := ht.tuple
  have h1' : hk.tupleGet t i = .ok v1 :=
    Heap.tupleGet_ok ((hr.below t (Heap.lt_next ho)).trans ho) h1
  have h2 : hk.tupleGet (h.next + vs.length) i = .ok (h.next + i) := by
    refine Heap.tupleGet_ok hr.tuple ?_
    rw [List.getElem?_map, List.getElem?_range hi]
    rfl
  unfold round
  rw [bind_ok h1', bind_ok h2]

/-- The loop gives the elements the types that its body asks for. -/
theorem rounds_typed (ht : h.IsTuple t ts) (hlen : vs.length = ts.length) {types : Nat → Addr}
    (hbody : ∀ hk k v1 w, Rounds h hk h.next k vs types → ts[k]? = some v1 →
      hk.objs (h.next + k) = some w →
        ∃ h', body hk v1 (h.next + k) = .ok h' ∧ TypeSet hk h' (h.next + k) w.content (types k))
    (k : Nat) : k ≤ vs.length → ∃ hk,
      (List.range k).foldlM (round body t (h.next + vs.length)) (receive h vs).1 = .ok hk ∧
        Rounds h hk h.next k vs types := by
  induction k with
  | zero => exact fun _ => ⟨_, rfl, (receive_rounds h vs types).2⟩
  | succ k ih =>
    intro hk
    obtain ⟨hk', hfold, hr⟩ := ih (Nat.le_of_succ_le hk)
    have h1 : ts[k]? = some ts[k] := List.getElem?_eq_getElem (hlen ▸ hk)
    have hv : vs[k]? = some vs[k] := List.getElem?_eq_getElem hk
    obtain ⟨h', hb, hs⟩ := hbody hk' k _ _ hr h1 (hr.todo k _ (Nat.le_refl _) hv)
    refine ⟨h', ?_, hr.next hv hs⟩
    rw [List.range_succ, List.foldlM_append, bind_ok hfold]
    show (round body t (h.next + vs.length) hk' k >>= _) = _
    rw [round_eq ht hr h1 hk, bind_ok hb]
    rfl

/-- What a read returns when its loop comes to an end. -/
theorem retype_eq : retype body h t vs =
    ((List.range vs.length).foldlM (round body t (h.next + vs.length)) (receive h vs).1 >>=
      fun h' => .ok (h', some (h.next + vs.length))) := by
  have hr := receive_rounds h vs fun _ => 0
  have hsize : (receive h vs).1.getTupleSize (receive h vs).2 = .ok vs.length := by
    unfold Heap.getTupleSize
    rw [hr.1, Heap.get_ok hr.2.tuple]
    show Except.ok _ = _
    rw [List.length_map, List.length_range]
  have hloop : eachElement body t (receive h vs).2 (receive h vs).1 =
      (List.range vs.length).foldlM (round body t (receive h vs).2) (receive h vs).1 := by
    unfold eachElement
    rw [bind_ok hsize]
    rfl
  unfold retype
  show (eachElement body t (receive h vs).2 (receive h vs).1 >>= fun h' =>
    Except.ok (h', some (receive h vs).2)) = _
  rw [hloop, hr.1]

theorem retype_typed (ht : h.IsTuple t ts) (hlen : vs.length = ts.length) {types : Nat → Addr}
    (hbody : ∀ hk k v1 w, Rounds h hk h.next k vs types → ts[k]? = some v1 →
      hk.objs (h.next + k) = some w →
        ∃ h', body hk v1 (h.next + k) = .ok h' ∧
          TypeSet hk h' (h.next + k) w.content (types k)) :
    ∃ h', retype body h t vs = .ok (h', some (h.next + vs.length)) ∧
      Rounds h h' h.next vs.length vs types := by
  obtain ⟨h', hfold, hr⟩ := rounds_typed ht hlen hbody vs.length (Nat.le_refl _)
  refine ⟨h', ?_, hr⟩
  rw [retype_eq, bind_ok hfold]

/-- After the last round the tuple is as it should be, if the types are those asked for. -/
theorem Rounds.retyped {read : Read} {h' : Heap α} {types : Nat → Addr}
    (hr : Rounds h h' h.next vs.length vs types)
    (hrun : read.run h t (.tuple vs) = .ok (h', some (h.next + vs.length)))
    (hask : ∀ i v1, ts[i]? = some v1 → Asked h v1 (some (types i))) : Retyped read h t ts vs := by
  refine ⟨h', _, _, hrun, ⟨⟨_, hr.tuple⟩, fun v2 hv2 => ?_⟩, by
    rw [List.length_map, List.length_range], fun i v1 v2 v h1 h2 hv => ?_⟩
  · obtain ⟨i, hi, rfl⟩ := List.mem_map.1 hv2
    have hi := List.mem_range.1 hi
    exact ⟨_, hr.done i _ hi (List.getElem?_eq_getElem hi)⟩
  · have hi := (List.getElem?_eq_some_iff.1 hv).1
    rw [List.getElem?_map, List.getElem?_range hi] at h2
    cases h2
    exact ⟨_, hask i v1 h1, hr.done i v hi hv⟩

end

/-! ## The reads -/

/-- Every formal is its own type, and every actual has a type. -/
structure Uniform (h : Heap α) (ts : List Addr) : Prop where
  formals : ∀ v1 ∈ ts, ∀ v, h.objs v1 = some v → h.IsFormal v1 → v.typeobj = some v1
  actuals : ∀ v1 ∈ ts, ∀ v, h.objs v1 = some v → ¬ h.IsFormal v1 → v.typeobj ≠ none

/-- The type of an element of the template. -/
def ownType (h : Heap α) (ts : List Addr) (i : Nat) : Addr :=
  (((ts[i]?).bind h.objs).bind Value.typeobj).getD 0

theorem ownType_eq {h : Heap α} {ts : List Addr} {i : Nat} {v1 o : Addr} {v : Value α}
    (h1 : ts[i]? = some v1) (hv : h.objs v1 = some v) (ho : v.typeobj = some o) :
    ownType h ts i = o := by
  unfold ownType
  rw [h1, Option.bind_some, hv, Option.bind_some, ho]
  rfl

section
variable {h : Heap α} {t : Addr} {ts : List Addr} {vs : List (Value α)}

/-- An element of the template is there in every round, and it does not change. -/
theorem Rounds.template {hk : Heap α} {k : Nat} {types : Nat → Addr}
    (hr : Rounds h hk h.next k vs types) {v1 : Addr} {v : Value α} (hv : h.objs v1 = some v) :
    hk.objs v1 = some v :=
  (hr.below v1 (Heap.lt_next hv)).trans hv

theorem Rounds.formal_iff {hk : Heap α} {k : Nat} {types : Nat → Addr}
    (hr : Rounds h hk h.next k vs types) {v1 : Addr} {v : Value α} (hv : h.objs v1 = some v) :
    hk.IsFormal v1 ↔ h.IsFormal v1 := by
  unfold Heap.IsFormal
  rw [hr.template hv, hv]

/-- What an element that is typed where it has to be asks for. -/
theorem exists_asked (ht : h.IsTuple t ts)
    (hact : ∀ v1 ∈ ts, ∀ v, h.objs v1 = some v → ¬ h.IsFormal v1 → v.typeobj ≠ none) (i : Nat) :
    ∃ o, ∀ v1, ts[i]? = some v1 → Asked h v1 (some o) := by
  cases h1 : ts[i]? with
  | none => exact ⟨0, fun v1 hv1 => by cases hv1⟩
  | some v1 =>
    have hmem := List.mem_of_getElem? h1
    obtain ⟨v, hv⟩ := ht.elements v1 hmem
    by_cases hf : h.IsFormal v1
    · exact ⟨v1, fun u hu => by cases hu; exact .formal hf⟩
    · cases ho : v.typeobj with
      | none => exact absurd ho (hact v1 hmem v hv hf)
      | some o =>
        refine ⟨o, fun u hu => ?_⟩
        cases hu
        rw [← ho]
        exact .actual v hv hf

/-- One round of `Linda_in`. -/
theorem inElement_asked {hk : Heap α} {k : Nat} {types : Nat → Addr}
    (hr : Rounds h hk h.next k vs types) {v1 v2 o : Addr} {v w : Value α}
    (hv : h.objs v1 = some v) (hw : hk.objs v2 = some w) {asked : Option Addr}
    (ho : Asked h v1 asked) (hto : asked = some o) :
    ∃ h', inElement hk v1 v2 = .ok h' ∧ TypeSet hk h' v2 w.content o := by
  cases ho with
  | formal hf =>
    cases hto
    exact inElement_formal ((hr.formal_iff hv).2 hf) hw
  | actual v' hv' hn =>
    exact inElement_actual (hr.template hv') (fun hf => hn ((hr.formal_iff hv).1 hf)) hto hw

/-- `Linda_in` gives every element the type it should have, unless an actual has none. -/
theorem lindaIn_retyped (ht : h.IsTuple t ts) (hlen : vs.length = ts.length)
    (hact : ∀ v1 ∈ ts, ∀ v, h.objs v1 = some v → ¬ h.IsFormal v1 → v.typeobj ≠ none) :
    Retyped .in h t ts vs := by
  obtain ⟨types, htypes⟩ := Classical.axiomOfChoice (exists_asked ht hact)
  have hbody : ∀ hk k v1 w, Rounds h hk h.next k vs types → ts[k]? = some v1 →
      hk.objs (h.next + k) = some w →
        ∃ h', inElement hk v1 (h.next + k) = .ok h' ∧
          TypeSet hk h' (h.next + k) w.content (types k) :=
    fun hk k v1 w hr h1 hw => by
      obtain ⟨v, hv⟩ := ht.elements v1 (List.mem_of_getElem? h1)
      exact inElement_asked hr hv hw (htypes k v1 h1) rfl
  obtain ⟨h', hrun, hr⟩ := retype_typed ht hlen hbody
  exact hr.retyped hrun htypes

/-- The rounds of the other three give every element the type of the element of the template. -/
theorem rd_typed (ht : h.IsTuple t ts) (hlen : vs.length = ts.length)
    (htyped : ∀ v1 ∈ ts, ∀ v, h.objs v1 = some v → v.typeobj ≠ none) :
    ∃ h', retype rdElement h t vs = .ok (h', some (h.next + vs.length)) ∧
      Rounds h h' h.next vs.length vs (ownType h ts) := by
  refine retype_typed ht hlen fun hk k v1 w hr h1 hw => ?_
  have hmem := List.mem_of_getElem? h1
  obtain ⟨v, hv⟩ := ht.elements v1 hmem
  cases ho : v.typeobj with
  | none => exact absurd ho (htyped v1 hmem v hv)
  | some o =>
    rw [ownType_eq h1 hv ho]
    exact rdElement_typed (hr.template hv) ho hw

/-- If they come to an end, the elements of the template had types. -/
theorem rd_ends (ht : h.IsTuple t ts) (hlen : vs.length = ts.length) (k : Nat) :
    k ≤ vs.length → ∀ hk,
      (List.range k).foldlM (round rdElement t (h.next + vs.length)) (receive h vs).1 = .ok hk →
        Rounds h hk h.next k vs (ownType h ts) ∧
          ∀ i v1 v, i < k → ts[i]? = some v1 → h.objs v1 = some v → v.typeobj ≠ none := by
  induction k with
  | zero =>
    intro _ hk hfold
    cases hfold
    exact ⟨(receive_rounds h vs _).2, fun i _ _ hi => absurd hi (Nat.not_lt_zero _)⟩
  | succ k ih =>
    intro hk h' hfold
    rw [List.range_succ, List.foldlM_append] at hfold
    obtain ⟨hk', hfold', hround⟩ := ok_of_bind hfold
    obtain ⟨hr, htyped⟩ := ih (Nat.le_of_succ_le hk) hk' hfold'
    have h1 : ts[k]? = some ts[k] := List.getElem?_eq_getElem (hlen ▸ hk)
    have hv : vs[k]? = some vs[k] := List.getElem?_eq_getElem hk
    obtain ⟨v, hv1⟩ := ht.elements ts[k] (List.mem_of_getElem? h1)
    obtain ⟨h'', hround, hnil⟩ := ok_of_bind hround
    cases hnil
    rw [round_eq ht hr h1 hk] at hround
    cases ho : v.typeobj with
    | none =>
      rw [rdElement_untyped (hr.template hv1) ho] at hround
      cases hround
    | some o =>
      obtain ⟨h₃, hb, hs⟩ :=
        rdElement_typed (hr.template hv1) ho (hr.todo k _ (Nat.le_refl _) hv)
      cases hb.symm.trans hround
      rw [← ownType_eq h1 hv1 ho] at hs
      refine ⟨hr.next hv hs, fun i u w hi hu hw => ?_⟩
      rcases Nat.lt_succ_iff_lt_or_eq.1 hi with hi | rfl
      · exact htyped i u w hi hu hw
      · cases h1.symm.trans hu
        cases hv1.symm.trans hw
        rw [ho]
        exact Option.some_ne_none o

/-- What `Linda_rd` gave to an element, against what the element should have. -/
theorem rd_asked (ht : h.IsTuple t ts) (hlen : vs.length = ts.length)
    (hrd : Retyped .rd h t ts vs) {i : Nat} {v1 : Addr} {v : Value α} (h1 : ts[i]? = some v1)
    (hv : h.objs v1 = some v) : ∃ o, v.typeobj = some o ∧ Asked h v1 (some o) := by
  obtain ⟨h', r, rs, hrun, hrs, _, htypes⟩ := hrd
  have hret : retype rdElement h t vs = .ok (h', some r) := hrun
  rw [retype_eq] at hret
  obtain ⟨h'', hfold, hret⟩ := ok_of_bind hret
  cases hret
  obtain ⟨hr, htyped⟩ := rd_ends ht hlen vs.length (Nat.le_refl _) h' hfold
  have hi : i < vs.length := hlen ▸ (List.getElem?_eq_some_iff.1 h1).1
  cases ho : v.typeobj with
  | none => exact absurd ho (htyped i v1 v hi h1 hv)
  | some o =>
    have hrs' : rs = (List.range vs.length).map (h.next + ·) := by
      obtain ⟨o', ho'⟩ := hrs.tuple
      cases ho'.symm.trans hr.tuple
      rfl
    have h2 : rs[i]? = some (h.next + i) := by
      rw [hrs', List.getElem?_map, List.getElem?_range hi]
      rfl
    have hvs := List.getElem?_eq_getElem hi
    obtain ⟨o', hask, hobj⟩ := htypes i v1 _ _ h1 h2 hvs
    rw [hr.done i _ hi hvs, ownType_eq h1 hv ho] at hobj
    cases hobj
    exact ⟨o, rfl, hask⟩

theorem Asked.formal_eq {v1 : Addr} {asked : Option Addr} (h1 : Asked h v1 asked)
    (hf : h.IsFormal v1) : asked = some v1 := by
  cases h1 with
  | formal => rfl
  | actual _ _ hn => exact absurd hf hn

theorem Uniform.of_retyped (ht : h.IsTuple t ts) (hlen : vs.length = ts.length)
    (hrd : Retyped .rd h t ts vs) : Uniform h ts where
  formals v1 hv1 v hv hf := by
    obtain ⟨i, h1⟩ := List.mem_iff_getElem?.1 hv1
    obtain ⟨o, ho, hask⟩ := rd_asked ht hlen hrd h1 hv
    exact ho.trans (hask.formal_eq hf)
  actuals v1 hv1 v hv _ := by
    obtain ⟨i, h1⟩ := List.mem_iff_getElem?.1 hv1
    obtain ⟨o, ho, _⟩ := rd_asked ht hlen hrd h1 hv
    rw [ho]
    exact Option.some_ne_none o

theorem Uniform.typed (hu : Uniform h ts) {v1 : Addr} (hv1 : v1 ∈ ts) {v : Value α}
    (hv : h.objs v1 = some v) : v.typeobj ≠ none := by
  by_cases hf : h.IsFormal v1
  · rw [hu.formals v1 hv1 v hv hf]
    exact Option.some_ne_none v1
  · exact hu.actuals v1 hv1 v hv hf

theorem Uniform.asked (hu : Uniform h ts) (ht : h.IsTuple t ts) {i : Nat} {v1 : Addr}
    (h1 : ts[i]? = some v1) : Asked h v1 (some (ownType h ts i)) := by
  have hmem := List.mem_of_getElem? h1
  obtain ⟨v, hv⟩ := ht.elements v1 hmem
  by_cases hf : h.IsFormal v1
  · rw [ownType_eq h1 hv (hu.formals v1 hmem v hv hf)]
    exact .formal hf
  · cases ho : v.typeobj with
    | none => exact absurd ho (hu.typed hmem hv)
    | some o =>
      rw [ownType_eq h1 hv ho, ← ho]
      exact .actual v hv hf

/-- All four reads give the elements the types that they should have exactly if every formal
of the template is its own type and every actual has a type. -/
theorem retyped_iff (h : Heap α) (t : Addr) (ts : List Addr) (vs : List (Value α))
    (ht : h.IsTuple t ts) (hlen : vs.length = ts.length) :
    (∀ read : Read, Retyped read h t ts vs) ↔ Uniform h ts := by
  refine ⟨fun hall => Uniform.of_retyped ht hlen (hall .rd), fun hu read => ?_⟩
  obtain ⟨h', hrun, hr⟩ := rd_typed ht hlen fun v1 hv1 v hv => hu.typed hv1 hv
  cases read with
  | «in» => exact lindaIn_retyped ht hlen hu.actuals
  | rd => exact hr.retyped hrun fun i v1 => hu.asked ht
  | inp => exact hr.retyped hrun fun i v1 => hu.asked ht
  | rdp => exact hr.retyped hrun fun i v1 => hu.asked ht

end

end

/-! ## A client with two templates -/

/-- The type of types, the type of integers, an integer, and the templates `(int,)` and
`(5, type)`. -/
def clientObjs : List (Value String) :=
  [⟨.type "typetype", some 0⟩, ⟨.type "int", some 0⟩, ⟨.other "5", some 1⟩, ⟨.tuple [1], none⟩,
    ⟨.tuple [2, 0], none⟩]

def clientHeap : Heap String where
  objs a := clientObjs[a]?
  next := 5
  fresh _ ha := List.getElem?_eq_none ha

theorem clientHeap_formals : clientHeap.IsTuple 3 [1] :=
  ⟨⟨none, rfl⟩, fun v hv => by
    obtain rfl := List.mem_singleton.1 hv
    exact ⟨_, rfl⟩⟩

theorem clientHeap_actuals : clientHeap.IsTuple 4 [2, 0] :=
  ⟨⟨none, rfl⟩, fun v hv => by
    rcases List.mem_cons.1 hv with rfl | hv
    · exact ⟨_, rfl⟩
    · obtain rfl := List.mem_singleton.1 hv
      exact ⟨_, rfl⟩⟩

theorem clientHeap_retyped :
    Retyped .in clientHeap 4 [2, 0] [⟨.other "5", none⟩, ⟨.type "byte", none⟩] ∧
      Retyped .rd clientHeap 4 [2, 0] [⟨.other "5", none⟩, ⟨.type "byte", none⟩] := by
  suffices hu : Uniform clientHeap [2, 0] from
    have hall := (retyped_iff clientHeap 4 [2, 0] _ clientHeap_actuals rfl).2 hu
    ⟨hall .in, hall .rd⟩
  refine ⟨?_, ?_⟩
  · intro v1 hv1 v hv hf
    rcases List.mem_cons.1 hv1 with rfl | hv1
    · obtain ⟨d, o, hd⟩ := hf
      cases hd
    · obtain rfl := List.mem_singleton.1 hv1
      cases hv
      rfl
  · intro v1 hv1 v hv hf
    rcases List.mem_cons.1 hv1 with rfl | hv1
    · cases hv
      exact Option.some_ne_none 1
    · obtain rfl := List.mem_singleton.1 hv1
      exact absurd ⟨_, _, rfl⟩ hf

/-- `Linda_rd` gives the integer that matched `int` the type of `int`, which is `typetype`. -/
theorem clientHeap_not_retyped :
    ¬ ∀ read : Read, Retyped read clientHeap 3 [1] [⟨.other "5", none⟩] := by
  intro hall
  obtain ⟨o, ho, hask⟩ :=
    @rd_asked _ clientHeap 3 [1] _ clientHeap_formals rfl (hall .rd) 0 1 _ rfl rfl
  cases ho
  cases hask.formal_eq ⟨_, _, rfl⟩

end PyLinda.Client
