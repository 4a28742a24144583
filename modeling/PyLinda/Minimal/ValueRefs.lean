import PyLinda.Minimal.CountMoves
import PyLinda.Minimal.References
import PyLinda.Minimal.Values

/-!
# What values refer to

When a value is put into another one, that refers to the new one instead of the old one, and to
everything else as before.
-/

namespace PyLinda.Values

open Counted RefCount

section
variable {v : Val Addr} {a : Option Addr}

/-- The children that must be there are there. -/
def Good (v : Val Addr) : Prop := v.Built ∧ v.Complete

theorem Good.slots (h : Good v) : v.Slots := h.1.slots

/-- A value that is freed drops what it refers to. -/
theorem Good.perm (h : Good v) : (drops v).Perm (refs v) := by
  obtain ⟨hp, href⟩ := (Val.drops_iff_complete h.slots).2 h.2
  have hlisted : refs v = (v.references.filter fun w => !w.isNull).map dropped := by
    unfold refs
    have hw : ∀ w ∈ v.references, w.isNull = true ∨ w.isRef = true := fun w hw => by
      cases hn : w.isNull with
      | true => exact .inl rfl
      | false =>
        refine .inr (href w (hp.mem_iff.2 (List.mem_filter.2 ⟨hw, ?_⟩)))
        rw [hn]
        rfl
    clear hp href
    generalize v.references = ws at hw
    induction ws with
    | nil => rfl
    | cons w ws ih =>
      have ih := ih fun w' hw' => hw w' (List.mem_cons_of_mem w hw')
      cases w with
      | null => exact ih
      | ref r => exact congrArg (r :: ·) ih
      | text | array elems | number i | junk => cases hw _ List.mem_cons_self with
        | inl h => cases h
        | inr h => cases h
  rw [hlisted]
  exact hp.map dropped

theorem filterMap_of (as : List (Option Addr)) :
    (as.map Word.of).filterMap listed = as.filterMap id := by
  induction as with
  | nil => rfl
  | cons a as ih =>
    cases a with
    | none => exact ih
    | some r => exact congrArg (r :: ·) ih

/-- What the value refers to apart from its type. -/
def inner (v : Val Addr) : List Addr := refs { v with typeobj := .null }

theorem refs_eq (h : v.typeobj = .of a) : refs v = a.toList ++ inner v := by
  obtain ⟨kind, typeobj, u0, u1, u2, u3⟩ := v
  cases h
  cases a <;> rfl

theorem Good.typeobj (h : Good v) : ∃ a, v.typeobj = .of a :=
  h.slots.1 _ List.mem_cons_self

theorem refs_setType (type : Addr) : refs (v.setType (some type)) = type :: inner v := rfl

theorem Good.setType (h : Good v) (type : Addr) : Good (v.setType (some type)) :=
  ⟨.setType v _ h.1, h.2⟩

/-! ## Pointers and sums -/

/-- The one value in a pointer or a sum. -/
theorem inner_one (h : v.type = .pointer ∨ v.type = .sum) {r : Addr} (hr : v.u0 = .ref r) :
    inner v = [r] := by
  obtain ⟨kind, typeobj, u0, u1, u2, u3⟩ := v
  cases hr
  cases h with
  | inl h =>
    cases h
    rfl
  | inr h =>
    cases h
    rfl

theorem Good.one (h : Good v) (hkind : v.type = .pointer ∨ v.type = .sum) :
    ∃ r, v.u0 = .ref r := by
  have hslots := h.slots
  have hcomplete := h.2
  have hw : (∃ a, v.u0 = .of a) ∧ v.u0.isNull = false := by
    unfold Val.Slots at hslots
    unfold Val.Complete at hcomplete
    cases hkind with
    | inl hk =>
      rw [hk] at hslots hcomplete
      exact ⟨hslots.2 _ List.mem_cons_self, hcomplete _ List.mem_cons_self⟩
    | inr hk =>
      rw [hk] at hslots hcomplete
      exact ⟨hslots.2 _ List.mem_cons_self, hcomplete _ List.mem_cons_self⟩
  obtain ⟨⟨a, ha⟩, hn⟩ := hw
  cases a with
  | none =>
    rw [ha] at hn
    cases hn
  | some r => exact ⟨r, ha⟩

theorem Good.setPtr (h : Good v) (hkind : v.type = .pointer) (v2 : Addr) :
    Good (v.setPtr (some v2)) := by
  refine ⟨.setPtr v _ h.1 hkind, ?_⟩
  unfold Val.Complete
  rw [Val.type_setPtr, hkind]
  exact nonNull_cons.2 ⟨rfl, fun w hw => by cases hw⟩

theorem Good.setSumValue (h : Good v) (hkind : v.type = .sum) (v2 : Addr) (i : Int) :
    Good (v.setSumValue (some v2) i) := by
  refine ⟨.setSumValue v _ i h.1 hkind, ?_⟩
  unfold Val.Complete
  rw [Val.type_setSumValue, hkind]
  exact nonNull_cons.2 ⟨rfl, fun w hw => by cases hw⟩

/-! ## Tuples -/

/-- A list of references in which one is replaced. -/
theorem filterMap_set (as : List (Option Addr)) {pos : Nat} (hpos : pos < as.length)
    (value : Option Addr) : ∃ rest, (as.filterMap id).Perm (as[pos].toList ++ rest) ∧
      ((as.set pos value).filterMap id).Perm (value.toList ++ rest) := by
  refine ⟨(as.eraseIdx pos).filterMap id, ?_, ?_⟩
  · have h := (List.getElem_cons_eraseIdx_perm hpos).symm.filterMap id
    refine h.trans (List.Perm.of_eq ?_)
    cases as[pos] <;> rfl
  · have h := (List.set_perm_cons_eraseIdx hpos value).filterMap id
    refine h.trans (List.Perm.of_eq ?_)
    cases value <;> rfl

/-- A tuple with `NULL` up to where it is set. -/
def padded (elems : List (Option Addr)) (pos : Nat) : List (Option Addr) :=
  elems ++ List.replicate (pos + 1 - elems.length) none

theorem padded_lt (elems : List (Option Addr)) (pos : Nat) : pos < (padded elems pos).length := by
  unfold padded
  rw [List.length_append, List.length_replicate]
  omega

theorem filterMap_padded (elems : List (Option Addr)) (pos : Nat) :
    (padded elems pos).filterMap id = elems.filterMap id := by
  unfold padded
  simp [List.filterMap_append]

theorem padded_of_lt {elems : List (Option Addr)} {pos : Nat} (h : pos < elems.length) :
    padded elems pos = elems := by
  unfold padded
  rw [Nat.sub_eq_zero_of_le h]
  exact List.append_nil elems

theorem slot_eq {elems : List (Option Addr)} (h : elements v.size v.values = elems.map Word.of)
    (pos : Nat) : slot v pos = .of ((padded elems pos).get ⟨pos, padded_lt elems pos⟩) := by
  unfold slot
  rw [h]
  by_cases hpos : pos < elems.length
  · simp [padded, hpos]
  · have hnone : (padded elems pos)[pos]? = some none := by
      unfold padded
      rw [List.getElem?_append_right (Nat.le_of_not_lt hpos)]
      exact List.getElem?_replicate_of_lt (by omega)
    rw [List.get_eq_getElem, (List.getElem?_eq_some_iff.1 hnone).2, List.getElem?_map,
      List.getElem?_eq_none (Nat.le_of_not_lt hpos)]
    rfl

theorem elements_tupleSet {elems : List (Option Addr)} (hsize : v.size = .number elems.length)
    (hvalues : v.values = .array elems ∨ elems = [] ∧ v.values = .null) (pos : Nat)
    (value : Option Addr) : elements (v.tupleSet pos value).size (v.tupleSet pos value).values =
      ((padded elems pos).set pos value).map Word.of := by
  have hlen : ((padded elems pos).set pos value).length = max (pos + 1) elems.length := by
    simp only [padded, List.length_set, List.length_append, List.length_replicate]
    omega
  rw [← elements_array, hlen]
  unfold Val.tupleSet
  cases hvalues with
  | inl hvalues =>
    simp only [hsize, hvalues]
    by_cases hpos : pos < elems.length
    · rw [if_pos (by omega), padded_of_lt hpos]
      show elements v.size (.array (elems.set pos value)) = _
      rw [hsize, Nat.max_eq_right hpos]
    · rw [if_neg (by omega), Nat.max_eq_left (by omega)]
      rfl
  | inr hvalues =>
    obtain ⟨rfl, hvalues⟩ := hvalues
    simp only [hsize, hvalues]
    rfl

theorem inner_tuple (h : v.type = .tuple) {elems : List (Option Addr)}
    (he : elements v.size v.values = elems.map Word.of) : inner v = elems.filterMap id := by
  obtain ⟨kind, typeobj, u0, u1, u2, u3⟩ := v
  cases h
  rw [← filterMap_of, ← he]
  rfl

theorem Good.tupleSet (h : Good v) (hkind : v.type = .tuple) (pos : Nat) (value : Option Addr) :
    Good (v.tupleSet pos value) := by
  refine ⟨.tupleSet v pos value h.1 hkind, ?_⟩
  unfold Val.Complete
  rw [Val.type_tupleSet, hkind]
  trivial

/-- The element that was there is given up, and the new one taken over. -/
theorem Good.refs_tupleSet (h : Good v) (hkind : v.type = .tuple) (pos : Nat)
    (value : Option Addr) : ∃ old rest, slot v pos = .of old ∧ (refs v).Perm (old.toList ++ rest) ∧
      (refs (v.tupleSet pos value)).Perm (value.toList ++ rest) := by
  obtain ⟨a, ha⟩ := h.typeobj
  have hsized : Sized v.size v.values := by
    have hslots := h.slots
    unfold Val.Slots at hslots
    rw [hkind] at hslots
    exact hslots.2
  obtain ⟨elems, hsize, hvalues⟩ := hsized
  have he : elements v.size v.values = elems.map Word.of := by
    rw [hsize]
    cases hvalues with
    | inl hvalues =>
      rw [hvalues]
      exact elements_array elems
    | inr hvalues =>
      rw [hvalues.2, hvalues.1]
      rfl
  obtain ⟨rest, hold, hnew⟩ := filterMap_set (padded elems pos) (padded_lt elems pos) value
  refine ⟨_, a.toList ++ rest, slot_eq he pos, ?_, ?_⟩
  · rw [refs_eq ha, inner_tuple hkind he, ← filterMap_padded elems pos]
    exact (hold.append_left _).trans (List.perm_append_comm_assoc _ _ _)
  · rw [refs_eq ((Val.typeobj_tupleSet v pos value).trans ha),
      inner_tuple ((Val.type_tupleSet v pos value).trans hkind)
        (elements_tupleSet hsize hvalues pos value)]
    exact (hnew.append_left _).trans (List.perm_append_comm_assoc _ _ _)

end

end PyLinda.Values
