import PyLinda.Minimal.ValueTree

/-!
# Reading a tree with pointers

The values of a tree are read into the places that follow each other in memory. A pointer
gets its target when it is read, or when the target has been read to its end.
-/

namespace PyLinda

open Lib

theorem scanLong_printLong (n : BitVec 64) : scanLong (printLong n) = n := by
  unfold scanLong printLong
  rw [atoi_repr, BitVec.ofInt_toInt]

theorem finish_id (a : Address) (props : List (String × String)) (value : Option Nat) (r : Reader) :
    finish (("id", printLong a) :: props) value r =
      (r.complete a value).map fun r => (value, r) := by
  show ((r.complete (scanLong (printLong a)) value).map fun r => (value, r)) = _
  rw [scanLong_printLong]

/-- A memory with new cells, where the old ones stay but for what pointers point at. -/
def Keeps (c c' : Nat → Option (Cell Nat)) (P : Nat → Prop) : Prop :=
  ∀ x, P x → c' x = c x ∨ ∃ q q', c x = some (.pointer q) ∧ c' x = some (.pointer q')

theorem Keeps.refl (c : Nat → Option (Cell Nat)) (P : Nat → Prop) : Keeps c c P :=
  fun _ _ => Or.inl rfl

theorem Keeps.trans {c c' c'' : Nat → Option (Cell Nat)} {P Q : Nat → Prop} (h : Keeps c c' P)
    (h' : Keeps c' c'' Q) (hpq : ∀ x, P x → Q x) : Keeps c c'' P := by
  intro x hx
  rcases h x hx with he | ⟨q, q', hq, hq'⟩
  · rw [← he]
    exact h' x (hpq x hx)
  · rcases h' x (hpq x hx) with he' | ⟨_, q'', _, hq''⟩
    · exact Or.inr ⟨q, q', hq, by rw [he', hq']⟩
    · exact Or.inr ⟨q, q'', hq, hq''⟩

namespace ValueTree

/-- Where the elements of a tuple come to lie, the first at `n`. -/
def places : List ValueTree → Nat → List (Option Nat)
  | [], _ => []
  | t :: ts, n => some n :: places ts (n + t.order.length)

mutual

/-- The tree as it is read, from `n` on; of a pointer only that it is one. -/
def At (c : Nat → Option (Cell Nat)) : ValueTree → Nat → Prop
  | integer _ i, n => c n = some (.integer (.ofInt 64 (scanInt (printLong i))))
  | string _ s, n => c n = some (.string s)
  | pointer _ _, n => ∃ q, c n = some (.pointer q)
  | tuple _ ts, n => c n = some (.tuple (places ts (n + 1))) ∧ AllAt c ts (n + 1)

def AllAt (c : Nat → Option (Cell Nat)) : List ValueTree → Nat → Prop
  | [], _ => True
  | t :: ts, n => t.At c n ∧ AllAt c ts (n + t.order.length)

end

mutual

/-- `orig` is where the values came from and `target` what the pointers pointed at. -/
def Placed (orig : Nat → Option Address) (target : Nat → Address) : ValueTree → Nat → Prop
  | integer a _, n | string a _, n => orig n = some a
  | pointer a ptr, n => orig n = some a ∧ target n = ptr
  | tuple a ts, n => orig n = some a ∧ AllPlaced orig target ts (n + 1)

def AllPlaced (orig : Nat → Option Address) (target : Nat → Address) : List ValueTree → Nat → Prop
  | [], _ => True
  | t :: ts, n => t.Placed orig target n ∧ AllPlaced orig target ts (n + t.order.length)

end

mutual

theorem at_keeps {c c' : Nat → Option (Cell Nat)} : (t : ValueTree) → (n : Nat) → t.At c n →
    Keeps c c' (fun x => n ≤ x ∧ x < n + t.order.length) → t.At c' n
  | integer _ i, n, h, hk => by
    rcases hk n ⟨Nat.le_refl n, Nat.lt_succ_self n⟩ with he | ⟨q, _, hq, _⟩
    · exact he.trans h
    · rw [show c n = _ from h] at hq
      cases hq
  | string _ s, n, h, hk => by
    rcases hk n ⟨Nat.le_refl n, Nat.lt_succ_self n⟩ with he | ⟨q, _, hq, _⟩
    · exact he.trans h
    · rw [show c n = _ from h] at hq
      cases hq
  | pointer _ _, n, h, hk => by
    obtain ⟨q, hq⟩ := h
    rcases hk n ⟨Nat.le_refl n, Nat.lt_succ_self n⟩ with he | ⟨_, q', _, hq'⟩
    · exact ⟨q, he.trans hq⟩
    · exact ⟨q', hq'⟩
  | tuple a ts, n, h, hk => by
    have hlen : (tuple a ts).order.length = (orderAll ts).length + 1 := rfl
    refine ⟨?_, allAt_keeps ts (n + 1) h.2 fun x hx => hk x ⟨by omega, by omega⟩⟩
    rcases hk n ⟨Nat.le_refl n, by omega⟩ with he | ⟨q, _, hq, _⟩
    · exact he.trans h.1
    · rw [h.1] at hq
      cases hq

theorem allAt_keeps {c c' : Nat → Option (Cell Nat)} : (ts : List ValueTree) → (n : Nat) →
    AllAt c ts n → Keeps c c' (fun x => n ≤ x ∧ x < n + (orderAll ts).length) → AllAt c' ts n
  | [], _, _, _ => trivial
  | t :: ts, n, h, hk => by
    have hlen : (orderAll (t :: ts)).length = t.order.length + (orderAll ts).length :=
      List.length_append
    exact ⟨at_keeps t n h.1 fun x hx => hk x ⟨hx.1, by omega⟩,
      allAt_keeps ts _ h.2 fun x hx => hk x ⟨by omega, by omega⟩⟩

end

end ValueTree

namespace Reader

section
variable (orig : Nat → Option Address) (target : Nat → Address)

/-- What is found is where it should be, and a pointer points where it should or waits. -/
structure Sound (r : Reader) : Prop where
  found : ∀ p ∈ r.found, ∃ x, p.2 = some x ∧ orig x = some p.1
  isPointer : ∀ w ∈ r.waiting, w.2 < r.next ∧ ∃ q, r.cell w.2 = some (.pointer q)
  waits : ∀ w ∈ r.waiting, w.1 ≠ 0 → w.1 = target w.2 ∧ ∀ p ∈ r.found, p.1 ≠ w.1
  pointer : ∀ x q, r.cell x = some (.pointer q) →
    (∃ y, q = some y ∧ orig y = some (target x)) ∨ (q = none ∧ (target x, x) ∈ r.waiting)

end

section
variable {orig : Nat → Option Address} {target : Nat → Address} {r : Reader}

@[simp] theorem alloc_next (c : Cell Nat) : (r.alloc c).next = r.next + 1 := rfl

@[simp] theorem alloc_found (c : Cell Nat) : (r.alloc c).found = r.found := rfl

@[simp] theorem alloc_waiting (c : Cell Nat) : (r.alloc c).waiting = r.waiting := rfl

@[simp] theorem alloc_self (c : Cell Nat) : (r.alloc c).cell r.next = some c := if_pos rfl

theorem alloc_ne (c : Cell Nat) {x : Nat} (h : x ≠ r.next) : (r.alloc c).cell x = r.cell x :=
  if_neg h

theorem keeps_alloc (c : Cell Nat) : Keeps r.cell (r.alloc c).cell (· < r.next) :=
  fun _ hx => Or.inl (alloc_ne c (Nat.ne_of_lt hx))

theorem Sound.alloc (h : r.Sound orig target) (c : Cell Nat)
    (hc : ∀ q, c = .pointer q → ∃ y, q = some y ∧ orig y = some (target r.next)) :
    (r.alloc c).Sound orig target where
  found := h.found
  isPointer w hw := by
    obtain ⟨hlt, q, hq⟩ := h.isPointer w hw
    exact ⟨Nat.lt_succ_of_lt hlt, q, by rw [alloc_ne c (Nat.ne_of_lt hlt), hq]⟩
  waits := h.waits
  pointer x q hx := by
    by_cases he : x = r.next
    · subst he
      rw [alloc_self] at hx
      exact Or.inl (hc q (Option.some.inj hx))
    · rw [alloc_ne c he] at hx
      exact h.pointer x q hx

/-- A slot of `waiting` after a pointer started to wait. -/
theorem mem_wait {ptrid : Address} {value : Nat} {w : Address × Nat}
    (hw : w ∈ (r.wait ptrid value).waiting) : w = (ptrid, value) ∨ w ∈ r.waiting := by
  unfold wait at hw
  dsimp only at hw
  split at hw
  · obtain ⟨u, hu, rfl⟩ := List.mem_map.1 hw
    by_cases h0 : u.1 = 0
    · rw [if_pos h0]
      exact Or.inl rfl
    · rw [if_neg h0]
      exact Or.inr hu
  · rcases List.mem_append.1 hw with hw | hw
    · exact Or.inr hw
    · exact Or.inl (List.mem_singleton.1 hw)

theorem wait_self (ptrid : Address) (value : Nat) :
    (ptrid, value) ∈ (r.wait ptrid value).waiting := by
  unfold wait
  dsimp only
  split
  · rename_i hfree
    obtain ⟨w, hw, h0⟩ := hfree
    exact List.mem_map.2 ⟨w, hw, if_pos h0⟩
  · exact List.mem_append_right _ (List.mem_singleton.2 rfl)

theorem wait_kept {ptrid : Address} {value : Nat} {w : Address × Nat} (hw : w ∈ r.waiting)
    (h0 : w.1 ≠ 0) : w ∈ (r.wait ptrid value).waiting := by
  unfold wait
  dsimp only
  split
  · exact List.mem_map.2 ⟨w, hw, if_neg h0⟩
  · exact List.mem_append_left _ hw

/-- A new pointer that waits for what has not been found. -/
theorem Sound.wait (h : r.Sound orig target) (hnz : ∀ x, target x ≠ 0)
    (hnot : ∀ p ∈ r.found, p.1 ≠ target r.next) :
    ((r.alloc (.pointer none)).wait (target r.next) r.next).Sound orig target where
  found := h.found
  isPointer w hw := by
    rcases mem_wait hw with rfl | hw
    · exact ⟨Nat.lt_succ_self _, none, Reader.alloc_self _⟩
    · obtain ⟨hlt, q, hq⟩ := h.isPointer w hw
      exact ⟨Nat.lt_succ_of_lt hlt, q, (alloc_ne _ (Nat.ne_of_lt hlt)).trans hq⟩
  waits w hw h0 := by
    rcases mem_wait hw with rfl | hw
    · exact ⟨rfl, hnot⟩
    · exact h.waits w hw h0
  pointer x q hx := by
    have hx' : (r.alloc (.pointer none)).cell x = some (.pointer q) := hx
    by_cases he : x = r.next
    · subst he
      rw [alloc_self] at hx'
      cases hx'
      exact Or.inr ⟨rfl, wait_self _ _⟩
    · rw [alloc_ne _ he] at hx'
      rcases h.pointer x q hx' with hy | ⟨hq, hw⟩
      · exact Or.inl hy
      · exact Or.inr ⟨hq, wait_kept hw (hnz x)⟩

/-- The pointers that wait for a value get it. -/
theorem Sound.complete (h : r.Sound orig target) {a : Address} {n : Nat} (ha : a ≠ 0)
    (hn : orig n = some a) :
    ∃ r', r.complete a (some n) = some r' ∧ r'.Sound orig target ∧ r'.next = r.next ∧
      r'.found = r.found ++ [(a, some n)] ∧ ∀ P, Keeps r.cell r'.cell P := by
  refine ⟨_, rfl, ⟨?_, ?_, ?_, ?_⟩, rfl, rfl, ?_⟩
  · intro p hp
    rcases List.mem_append.1 hp with hp | hp
    · exact h.found p hp
    · obtain rfl := List.mem_singleton.1 hp
      exact ⟨n, rfl, hn⟩
  · intro w hw
    obtain ⟨u, hu, rfl⟩ := List.mem_map.1 hw
    have hcell : (if u.1 = a then ((0 : Address), u.2) else u).2 = u.2 := by split <;> rfl
    rw [hcell]
    obtain ⟨hlt, q, hq⟩ := h.isPointer u hu
    refine ⟨hlt, ?_⟩
    dsimp only
    split
    · exact ⟨_, rfl⟩
    · exact ⟨q, hq⟩
  · intro w hw h0
    obtain ⟨u, hu, rfl⟩ := List.mem_map.1 hw
    by_cases hua : u.1 = a
    · rw [if_pos hua] at h0
      exact absurd rfl h0
    · rw [if_neg hua] at h0 ⊢
      obtain ⟨ht, hnot⟩ := h.waits u hu h0
      refine ⟨ht, fun p hp => ?_⟩
      rcases List.mem_append.1 hp with hp | hp
      · exact hnot p hp
      · obtain rfl := List.mem_singleton.1 hp
        exact fun he => hua he.symm
  · intro x q hx
    dsimp only at hx
    split at hx
    · rename_i hw
      cases hx
      exact Or.inl ⟨n, rfl, hn.trans (congrArg some (h.waits _ hw ha).1)⟩
    · rename_i hw
      rcases h.pointer x q hx with hy | ⟨hq, hmem⟩
      · exact Or.inl hy
      · refine Or.inr ⟨hq, List.mem_map.2 ⟨_, hmem, if_neg fun he => hw ?_⟩⟩
        have he' : target x = a := he
        rwa [he'] at hmem
  · intro P x _
    dsimp only
    split
    · rename_i hw
      obtain ⟨_, q, hq⟩ := h.isPointer _ hw
      exact Or.inr ⟨q, some n, hq, rfl⟩
    · exact Or.inl rfl

theorem tupleAdd_eq {v : Nat} {vs : List (Option Nat)} (hv : r.cell v = some (.tuple vs))
    (value : Option Nat) : r.tupleAdd v value = r.set v (.tuple (vs ++ [value])) := by
  unfold tupleAdd
  rw [hv]

theorem Sound.set (h : r.Sound orig target) {v : Nat} {vs : List (Option Nat)}
    (hv : r.cell v = some (.tuple vs)) (ws : List (Option Nat)) :
    (r.set v (.tuple ws)).Sound orig target where
  found := h.found
  isPointer w hw := by
    obtain ⟨hlt, q, hq⟩ := h.isPointer w hw
    refine ⟨hlt, q, ?_⟩
    have hne : w.2 ≠ v := by
      intro he
      rw [he, hv] at hq
      cases hq
    exact (if_neg hne).trans hq
  waits := h.waits
  pointer x q hx := by
    by_cases he : x = v
    · rw [he] at hx
      have hs : (r.set v (.tuple ws)).cell v = some (.tuple ws) := if_pos rfl
      rw [hs] at hx
      cases hx
    · exact h.pointer x q ((if_neg he).symm.trans hx)

end

end Reader

section
variable {foundSize : Int} {other : Xml → Reader → Option (Option Nat × Reader)}

theorem readMinimal_elements (props : List (String × String)) (xs : List Xml) :
    ∀ (value : Option Nat) (r : Reader), readMinimal foundSize other props xs value r =
      readMinimal foundSize other props (Xml.elements xs) value r := by
  induction xs with
  | nil => exact fun _ _ => rfl
  | cons x xs ih =>
    intro value r
    cases x with
    | text s =>
      have htext : readMinimal foundSize other props (.text s :: xs) value r =
          readMinimal foundSize other props xs value r := by
        rw [readMinimal]
        simp [Xml.isElement]
      rw [htext, Xml.elements_text, ih]
    | node n ps cs =>
      rw [Xml.elements_node]
      unfold readMinimal
      simp only [ih]

theorem readTuple_elements (props : List (String × String)) (v : Nat) (xs : List Xml) :
    ∀ r : Reader, readTuple foundSize other props v xs r =
      readTuple foundSize other props v (Xml.elements xs) r := by
  induction xs with
  | nil => exact fun _ => rfl
  | cons x xs ih =>
    intro r
    cases x with
    | text s =>
      have htext : readTuple foundSize other props v (.text s :: xs) r =
          readTuple foundSize other props v xs r := by
        rw [readTuple]
        simp [Xml.isElement]
      rw [htext, Xml.elements_text, ih]
    | node n ps cs =>
      rw [Xml.elements_node]
      unfold readTuple
      simp only [ih]

theorem readSeries_elements (xs : List Xml) :
    ∀ (root : Option Nat) (r : Reader), readSeries foundSize other xs root r =
      readSeries foundSize other (Xml.elements xs) root r := by
  induction xs with
  | nil => exact fun _ _ => rfl
  | cons x xs ih =>
    intro root r
    cases x with
    | text s =>
      have htext : readSeries foundSize other (.text s :: xs) root r =
          readSeries foundSize other xs root r := by
        rw [readSeries]
        simp [Xml.isElement]
      rw [htext, Xml.elements_text, ih]
    | node n ps cs =>
      rw [Xml.elements_node]
      unfold readSeries
      simp only [ih]

/-- No value is written as a `type`. -/
theorem reparsed_toXml {t : ValueTree} {y : Xml} (h : t.toXml.Reparsed y) :
    y.isElement ∧ y.name ≠ "type" := by
  cases t <;> obtain ⟨ds, rfl, _⟩ := h.node_inv <;> simp [Xml.isElement, Xml.name]

/-- An element of a tuple is read as the value in it. -/
theorem readValue_element {t : ValueTree} {y : Xml}
    (h : (Xml.node "element" [] [t.toXml]).Reparsed y) :
    y.isElement ∧ y.name = "element" ∧ ∃ y', t.toXml.Reparsed y' ∧
      ∀ r, readValue foundSize other y r = readValue foundSize other y' r := by
  obtain ⟨ds, rfl, hds⟩ := h.node_inv
  rw [elements_toXml] at hds
  refine ⟨rfl, rfl, ?_⟩
  cases hel : Xml.elements ds with
  | nil => rw [hel] at hds; cases hds
  | cons y' ys =>
    rw [hel] at hds
    cases hds with
    | cons hy hys =>
      cases hys
      obtain ⟨he, hn⟩ := reparsed_toXml hy
      refine ⟨y', hy, fun r => ?_⟩
      show (readSeries foundSize other ds none r).bind
        (fun u => finish [] u.1 u.2) = _
      rw [readSeries_elements, hel]
      unfold readSeries
      rw [if_pos he]
      simp only [if_neg hn]
      cases readValue foundSize other y' r with
      | none => rfl
      | some u => rfl

/-- The tree was read at `n`: the values are there, and all are found. -/
structure ReadTree (orig : Nat → Option Address) (target : Nat → Address) (t : ValueTree) (n : Nat)
    (r r' : Reader) : Prop where
  sound : r'.Sound orig target
  next : r'.next = n + t.order.length
  tree : t.At r'.cell n
  keeps : Keeps r.cell r'.cell (· < n)
  found : r.found ⊆ r'.found
  all : ∀ a ∈ t.order, ∃ x, (a, some x) ∈ r'.found

/-- The same of the elements of the tuple at `v`. -/
structure ReadTrees (orig : Nat → Option Address) (target : Nat → Address) (ts : List ValueTree)
    (n v : Nat) (vs : List (Option Nat)) (r r' : Reader) : Prop where
  sound : r'.Sound orig target
  next : r'.next = n + (ValueTree.orderAll ts).length
  tuple : r'.cell v = some (.tuple (vs ++ ValueTree.places ts n))
  trees : ValueTree.AllAt r'.cell ts n
  keeps : Keeps r.cell r'.cell (fun x => x < n ∧ x ≠ v)
  found : r.found ⊆ r'.found
  all : ∀ a ∈ ValueTree.orderAll ts, ∃ x, (a, some x) ∈ r'.found

/-- The pointer is not read while `found_size` has no value. -/
def ValueTree.Starts (foundSize : Int) (r : Reader) (t : ValueTree) : Prop :=
  r.found = [] → t.StartsWithPointer → foundSize ≤ 0

variable {orig : Nat → Option Address} {target : Nat → Address}

/-- A value without elements, in its cell at `r.next`. -/
theorem readTree_leaf {r r₁ : Reader} {t : ValueTree} {a : Address} {c : Cell Nat}
    {props : List (String × String)} (ht : t.order = [a]) (ha : a ≠ 0) (horig : orig r.next = some a)
    (hs : r₁.Sound orig target) (hnext : r₁.next = r.next + 1) (hfound : r₁.found = r.found)
    (hcell : r₁.cell = (r.alloc c).cell)
    (hat : ∀ c' : Nat → Option (Cell Nat), Keeps r₁.cell c' (fun _ => True) → t.At c' r.next) :
    ∃ r', finish (("id", printLong a) :: props) (some r.next) r₁ = some (some r.next, r') ∧
      ReadTree orig target t r.next r r' := by
  obtain ⟨r', hr', hs', hn', hf', hk'⟩ := hs.complete ha horig
  refine ⟨r', ?_, hs', ?_, hat _ (hk' _), ?_, ?_, ?_⟩
  · rw [finish_id, hr']
    rfl
  · rw [hn', hnext, ht]
    rfl
  · have hk : Keeps r.cell r₁.cell (· < r.next) := by
      rw [hcell]
      exact r.keeps_alloc c
    exact hk.trans (hk' (fun _ => True)) fun _ _ => trivial
  · rw [hf', hfound]
    exact List.subset_append_left _ _
  · intro b hb
    rw [ht] at hb
    obtain rfl := List.mem_singleton.1 hb
    exact ⟨r.next, by rw [hf']; exact List.mem_append_right _ (List.mem_singleton.2 rfl)⟩

/-- A pointer is set, or waits, or reads memory that is not there. -/
theorem readPtr_sound {r : Reader} {ptr : Address} (hs : r.Sound orig target)
    (hnz : ∀ x, target x ≠ 0) (ht : target r.next = ptr)
    (hstart : r.found = [] → foundSize ≤ 0) :
    ∃ r₁ q, readPtr foundSize r ptr = some r₁ ∧ r₁.Sound orig target ∧ r₁.next = r.next + 1 ∧
      r₁.found = r.found ∧ r₁.cell = (r.alloc (.pointer q)).cell := by
  subst ht
  unfold readPtr
  cases hf : r.found with
  | nil =>
    have hnot : ∀ p ∈ r.found, p.1 ≠ target r.next := by
      intro p hp
      rw [hf] at hp
      cases hp
    dsimp only
    rw [if_neg (Int.not_lt.2 (hstart hf))]
    exact ⟨_, none, rfl, hs.wait hnz hnot, rfl, hf, rfl⟩
  | cons p ps =>
    dsimp only
    rw [← hf]
    cases hl : r.found.lookup (target r.next) with
    | none =>
      have hnot : ∀ p ∈ r.found, p.1 ≠ target r.next := by
        intro p hp he
        have hn := List.lookup_eq_none_iff.1 hl p hp
        rw [he] at hn
        simp at hn
      exact ⟨_, none, rfl, hs.wait hnz hnot, rfl, rfl, rfl⟩
    | some v =>
      have hmem : (target r.next, v) ∈ r.found := by
        obtain ⟨l₁, l₂, hl', _⟩ := List.lookup_eq_some_iff.1 hl
        rw [hl']
        exact List.mem_append_right _ List.mem_cons_self
      obtain ⟨x, hx, hox⟩ := hs.found _ hmem
      have hv : v = some x := hx
      subst hv
      refine ⟨r.alloc (.pointer (some x)), some x, rfl, ?_, rfl, rfl, rfl⟩
      refine hs.alloc _ fun q hq => ?_
      cases hq
      exact ⟨x, rfl, hox⟩

/-- A cell that is no pointer stays what it is. -/
theorem Keeps.eq {c c' : Nat → Option (Cell Nat)} {P : Nat → Prop} (h : Keeps c c' P) {x : Nat}
    (hx : P x) {d : Cell Nat} (hc : c x = some d) (hd : ∀ q, d ≠ .pointer q) : c' x = some d := by
  rcases h x hx with he | ⟨q, _, hq, _⟩
  · rw [he, hc]
  · rw [hc] at hq
    exact absurd (Option.some.inj hq) (hd q)

/-- A memory in which nothing lies at NULL and no pointer is the address NULL. -/
structure NullFree (cell : Address → Option (Cell Address)) : Prop where
  null : cell 0 = none
  pointers : ∀ a, cell a ≠ some (.pointer (some 0))

theorem NullFree.ne {cell : Address → Option (Cell Address)} (h : NullFree cell) {a : Address}
    {c : Cell Address} (hc : cell a = some c) : a ≠ 0 := by
  intro he
  rw [he, h.null] at hc
  cases hc

section
variable {cell : Address → Option (Cell Address)}

mutual

/-- Whatever the XML library makes of a tree, it is read at the next free place. -/
theorem readValue_tree (hcell : NullFree cell) (hnz : ∀ x, target x ≠ 0) : (t : ValueTree) →
    t.In cell → (r : Reader) → r.Sound orig target → t.Placed orig target r.next →
    t.Starts foundSize r → (y : Xml) → t.toXml.Reparsed y →
    ∃ r', readValue foundSize other y r = some (some r.next, r') ∧
      ReadTree orig target t r.next r r'
  | .integer a i, hin, r, hs, hp, _, y, hy => by
    obtain ⟨ds, rfl, _⟩ := hy.node_inv
    have hc : cell a = some (.integer i) := hin
    have ha := hs.alloc (.integer (.ofInt 64 (scanInt (printLong i)))) fun q hq => by cases hq
    have hread : readValue foundSize other
        (.node "integer" [("id", printLong a), ("val", printLong i)] ds) r =
        finish (("id", printLong a) :: [("val", printLong i)]) (some r.next)
          (r.alloc (.integer (.ofInt 64 (scanInt (printLong i))))) := rfl
    rw [hread]
    exact readTree_leaf rfl (hcell.ne hc) hp ha rfl rfl rfl fun c' hk =>
      hk.eq trivial (Reader.alloc_self _) fun q hq => by cases hq
  | .string a s, hin, r, hs, hp, _, y, hy => by
    have hyt : y = _ := hy.text_inv
    subst hyt
    have hc : cell a = some (.string s) := hin
    have hlast : (Xml.lastText (Xml.readText s)).getD "" = s := by
      rw [lastText_readText]
      by_cases he : s = ""
      · rw [if_pos he, he]
        rfl
      · rw [if_neg he]
        rfl
    have ha := hs.alloc (.string s) fun q hq => by cases hq
    have hread : readValue foundSize other (.node "string" [("id", printLong a)] (Xml.readText s)) r =
        finish (("id", printLong a) :: []) (some r.next)
          (r.alloc (.string ((Xml.lastText (Xml.readText s)).getD ""))) := rfl
    rw [hread, hlast]
    exact readTree_leaf rfl (hcell.ne hc) hp ha rfl rfl rfl fun c' hk =>
      hk.eq trivial (Reader.alloc_self _) fun q hq => by cases hq
  | .pointer a ptr, hin, r, hs, hp, hstart, y, hy => by
    obtain ⟨ds, rfl, _⟩ := hy.node_inv
    have hc : cell a = some (.pointer (some ptr)) := hin
    obtain ⟨r₁, q, hr₁, hs₁, hn₁, hf₁, hc₁⟩ := @readPtr_sound foundSize _ _ r ptr hs hnz hp.2
      fun hf => hstart hf trivial
    have hread : readValue foundSize other
        (.node "ptr" [("id", printLong a), ("val", printLong ptr)] ds) r =
        (readPtr foundSize r (scanLong (printLong ptr))).bind fun r' =>
          finish (("id", printLong a) :: [("val", printLong ptr)]) (some r.next) r' := rfl
    rw [hread, scanLong_printLong, hr₁, Option.bind_some]
    refine readTree_leaf rfl (hcell.ne hc) hp.1 hs₁ hn₁ hf₁ hc₁ fun c' hk => ?_
    rcases hk r.next trivial with he | ⟨_, q', _, hq'⟩
    · exact ⟨q, by rw [he, hc₁, Reader.alloc_self]⟩
    · exact ⟨q', hq'⟩
  | .tuple a ts, hin, r, hs, hp, hstart, y, hy => by
    obtain ⟨ds, rfl, hds⟩ := hy.node_inv
    have ha := hs.alloc (.tuple []) fun q hq => by cases hq
    rw [elements_toElements] at hds
    obtain ⟨r', hr', hall⟩ := readTuple_trees hcell hnz ts hin.2 (r.alloc (.tuple [])) r.next []
      (("id", printLong a) :: []) ha hp.2 (Reader.alloc_self _) (Nat.lt_succ_self _)
      (fun hf t ht hsp => hstart hf (by cases ts with
        | nil => cases ht
        | cons u us => cases ht; exact hsp)) (Xml.elements ds) hds
    obtain ⟨r'', hr'', hs'', hn'', hf'', hk''⟩ := hall.sound.complete (hcell.ne hin.1) hp.1
    refine ⟨r'', ?_, hs'', ?_, ⟨?_, ?_⟩, ?_, ?_, ?_⟩
    · show readTuple foundSize other _ r.next ds (r.alloc (.tuple [])) = _
      rw [readTuple_elements, hr', finish_id, hr'']
      rfl
    · rw [hn'', hall.next]
      show r.next + 1 + _ = r.next + (_ + 1)
      omega
    · exact (hk'' (fun _ => True)).eq trivial hall.tuple fun q hq => by cases hq
    · exact ValueTree.allAt_keeps ts _ hall.trees (hk'' _)
    · have hk : Keeps r.cell r'.cell (· < r.next) := (r.keeps_alloc (.tuple [])).trans hall.keeps
        fun x hx => ⟨Nat.lt_succ_of_lt hx, Nat.ne_of_lt hx⟩
      exact hk.trans (hk'' (fun _ => True)) fun _ _ => trivial
    · intro p hp
      rw [hf'']
      exact List.mem_append_left _ (hall.found hp)
    · intro b hb
      rw [hf'']
      rcases List.mem_cons.1 hb with rfl | hb
      · exact ⟨r.next, List.mem_append_right _ (List.mem_singleton.2 rfl)⟩
      · obtain ⟨x, hx⟩ := hall.all b hb
        exact ⟨x, List.mem_append_left _ hx⟩

/-- The elements of a tuple, one after the other. -/
theorem readTuple_trees (hcell : NullFree cell) (hnz : ∀ x, target x ≠ 0) :
    (ts : List ValueTree) → ValueTree.AllIn cell ts → (r : Reader) → (v : Nat) →
    (vs : List (Option Nat)) → (props : List (String × String)) → r.Sound orig target →
    ValueTree.AllPlaced orig target ts r.next → r.cell v = some (.tuple vs) → v < r.next →
    (r.found = [] → ∀ t, ts.head? = some t → t.StartsWithPointer → foundSize ≤ 0) →
    (ys : List Xml) → List.Forall₂ Xml.Reparsed (ValueTree.toElements ts) ys →
    ∃ r', readTuple foundSize other props v ys r = finish props (some v) r' ∧
      ReadTrees orig target ts r.next v vs r r'
  | [], _, r, v, vs, props, hs, _, hv, _, _, ys, hys => by
    cases hys
    exact ⟨r, rfl, hs, rfl, by rw [hv, ValueTree.places, List.append_nil], trivial,
      Keeps.refl _ _, List.Subset.refl _, fun a ha => by cases ha⟩
  | t :: ts, hin, r, v, vs, props, hs, hp, hv, hlt, hstart, y :: ys, hys => by
    obtain ⟨hy, hys⟩ := List.forall₂_cons.1 hys
    obtain ⟨hel, hname, y', hy', hread⟩ := @readValue_element foundSize other t y hy
    obtain ⟨r₁, hr₁, h₁⟩ := readValue_tree hcell hnz t hin.1 r hs hp.1
      (fun hf hsp => hstart hf t rfl hsp) y' hy'
    have hv₁ : r₁.cell v = some (.tuple vs) := h₁.keeps.eq hlt hv fun q hq => by cases hq
    have hn₁ := h₁.next
    have hne : r₁.found ≠ [] := by
      intro he
      have hmem : t.address ∈ t.order := by cases t <;> exact List.mem_cons_self
      obtain ⟨x, hx⟩ := h₁.all _ hmem
      rw [he] at hx
      cases hx
    have hset : ∀ x, x ≠ v → (r₁.set v (.tuple (vs ++ [some r.next]))).cell x = r₁.cell x :=
      fun x hx => if_neg hx
    obtain ⟨r₂, hr₂, h₂⟩ := readTuple_trees hcell hnz ts hin.2
      (r₁.set v (.tuple (vs ++ [some r.next]))) v (vs ++ [some r.next]) props (h₁.sound.set hv₁ _)
      (by show ValueTree.AllPlaced orig target ts r₁.next; rw [hn₁]; exact hp.2) (if_pos rfl)
      (by show v < r₁.next; omega) (fun hf => absurd hf hne) ys hys
    have hlen : (ValueTree.orderAll (t :: ts)).length =
        t.order.length + (ValueTree.orderAll ts).length := List.length_append
    have hn₂ : r₂.next = r₁.next + (ValueTree.orderAll ts).length := h₂.next
    have hk₂ : Keeps r₁.cell r₂.cell (fun x => x < r₁.next ∧ x ≠ v) := fun x hx => by
      have hk := h₂.keeps x hx
      rwa [hset x hx.2] at hk
    refine ⟨r₂, ?_, h₂.sound, ?_, ?_, ⟨?_, ?_⟩, ?_, ?_, ?_⟩
    · rw [← hr₂, readTuple]
      have htype : ¬ (y.isElement ∧ y.name = "type") := fun h => by
        rw [hname] at h
        exact absurd h.2 (by decide)
      rw [if_neg htype, if_pos ⟨hel, hname⟩, hread, hr₁, Option.bind_some]
      show readTuple foundSize other props v ys (r₁.tupleAdd v (some r.next)) = _
      rw [Reader.tupleAdd_eq hv₁]
    · omega
    · have ht := h₂.tuple
      rw [List.append_assoc] at ht
      rw [ht]
      show some (Cell.tuple (vs ++ ([some r.next] ++ ValueTree.places ts r₁.next))) = _
      rw [hn₁]
      rfl
    · exact ValueTree.at_keeps t _ h₁.tree fun x hx => hk₂ x ⟨by omega, by omega⟩
    · have ht : ValueTree.AllAt r₂.cell ts r₁.next := h₂.trees
      rwa [hn₁] at ht
    · exact Keeps.trans (fun x hx => h₁.keeps x hx.1) hk₂ fun x hx => ⟨by omega, hx.2⟩
    · exact fun p hp => h₂.found (h₁.found hp)
    · intro a ha
      rcases List.mem_append.1 ha with ha | ha
      · obtain ⟨x, hx⟩ := h₁.all a ha
        exact ⟨x, h₂.found hx⟩
      · exact h₂.all a ha

end

end

end

section
variable {foundSize : Int} {other : Xml → Reader → Option (Option Nat × Reader)}

/-- A pointer that is read first reads `found` where it is NULL. -/
theorem readValue_crash (hsize : 0 < foundSize) : (t : ValueTree) → t.StartsWithPointer →
    (r : Reader) → r.found = [] → (y : Xml) → t.toXml.Reparsed y →
    readValue foundSize other y r = none
  | .pointer a ptr, _, r, hf, y, hy => by
    obtain ⟨ds, rfl, _⟩ := hy.node_inv
    have hread : readValue foundSize other
        (.node "ptr" [("id", printLong a), ("val", printLong ptr)] ds) r =
        (readPtr foundSize r (scanLong (printLong ptr))).bind fun r' =>
          finish (("id", printLong a) :: [("val", printLong ptr)]) (some r.next) r' := rfl
    rw [hread]
    unfold readPtr
    rw [hf]
    dsimp only
    rw [if_pos hsize]
    rfl
  | .tuple a (t :: ts), ht, r, hf, y, hy => by
    obtain ⟨ds, rfl, hds⟩ := hy.node_inv
    rw [elements_toElements] at hds
    have hread : readValue foundSize other (.node "tuple" [("id", printLong a)] ds) r =
        readTuple foundSize other [("id", printLong a)] r.next ds (r.alloc (.tuple [])) := rfl
    rw [hread, readTuple_elements]
    cases hel : Xml.elements ds with
    | nil => rw [hel] at hds; cases hds
    | cons u us =>
      rw [hel] at hds
      obtain ⟨hu, -⟩ := List.forall₂_cons.1 hds
      obtain ⟨hue, hname, y', hy', hval⟩ := @readValue_element foundSize other t u hu
      rw [readTuple]
      have htype : ¬ (u.isElement ∧ u.name = "type") := fun h => by
        rw [hname] at h
        exact absurd h.2 (by decide)
      rw [if_neg htype, if_pos ⟨hue, hname⟩, hval,
        readValue_crash hsize t ht (r.alloc (.tuple [])) hf y' hy']
      rfl
  | .integer _ _, h, _, _, _, _ | .string _ _, h, _, _, _, _ | .tuple _ [], h, _, _, _, _ => h.elim

end

end PyLinda
