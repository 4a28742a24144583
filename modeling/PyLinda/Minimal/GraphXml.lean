import PyLinda.Minimal.GraphRead

/-!
# Which graphs come back

A graph comes back if its values make a tree and every pointer points at something that is
written before it.
-/

namespace PyLinda

open Lib

/-! ## The places of a tree -/

namespace ValueTree

mutual

/-- The addresses, and what the pointers among them point at. -/
def slots : ValueTree → List (Address × Address)
  | integer a _ | string a _ => [(a, 1)]
  | pointer a ptr => [(a, ptr)]
  | tuple a ts => (a, 1) :: slotsAll ts

def slotsAll : List ValueTree → List (Address × Address)
  | [] => []
  | t :: ts => t.slots ++ slotsAll ts

end

mutual

theorem map_slots : (t : ValueTree) → t.slots.map Prod.fst = t.order
  | integer _ _ | string _ _ | pointer _ _ => rfl
  | tuple a ts => by
    show a :: (slotsAll ts).map Prod.fst = a :: orderAll ts
    rw [map_slotsAll]

theorem map_slotsAll : (ts : List ValueTree) → (slotsAll ts).map Prod.fst = orderAll ts
  | [] => rfl
  | t :: ts => by
    show (t.slots ++ slotsAll ts).map Prod.fst = t.order ++ orderAll ts
    rw [List.map_append, map_slots, map_slotsAll]

end

theorem length_slots (t : ValueTree) : t.slots.length = t.order.length := by
  rw [← map_slots, List.length_map]

mutual

/-- No pointer points at NULL. -/
theorem slots_ne {cell : Address → Option (Cell Address)} (h : NullFree cell) : (t : ValueTree) →
    t.In cell → ∀ p ∈ t.slots, p.2 ≠ 0
  | integer a _, _, p, hp | string a _, _, p, hp => by
    obtain rfl := List.mem_singleton.1 hp
    exact (by decide : (1 : Address) ≠ 0)
  | pointer a ptr, hin, p, hp => by
    obtain rfl := List.mem_singleton.1 hp
    intro he
    have hc : cell a = some (.pointer (some ptr)) := hin
    have hz : ptr = 0 := he
    rw [hz] at hc
    exact h.pointers a hc
  | tuple a ts, hin, p, hp => by
    rcases List.mem_cons.1 hp with rfl | hp
    · exact (by decide : (1 : Address) ≠ 0)
    · exact slotsAll_ne h ts hin.2 p hp

theorem slotsAll_ne {cell : Address → Option (Cell Address)} (h : NullFree cell) :
    (ts : List ValueTree) → AllIn cell ts → ∀ p ∈ slotsAll ts, p.2 ≠ 0
  | t :: ts, hin, p, hp => by
    rcases List.mem_append.1 hp with hp | hp
    · exact slots_ne h t hin.1 p hp
    · exact slotsAll_ne h ts hin.2 p hp

end

end ValueTree

/-- Where the value at a place came from. -/
def origOf (slots : List (Address × Address)) : Nat → Option Address
  | 0 => none
  | n + 1 => (slots[n]?).map Prod.fst

/-- What the pointer at a place pointed at. -/
def targetOf (slots : List (Address × Address)) : Nat → Address
  | 0 => 1
  | n + 1 => ((slots[n]?).map Prod.snd).getD 1

theorem targetOf_ne {slots : List (Address × Address)} (h : ∀ p ∈ slots, p.2 ≠ 0) (x : Nat) :
    targetOf slots x ≠ 0 := by
  cases x with
  | zero => exact (by decide : (1 : Address) ≠ 0)
  | succ n =>
    show ((slots[n]?).map Prod.snd).getD 1 ≠ 0
    cases hn : slots[n]? with
    | none => exact (by decide : (1 : Address) ≠ 0)
    | some p => exact h p (List.mem_of_getElem? hn)

mutual

theorem placed_slots (S : List (Address × Address)) : (t : ValueTree) → (n : Nat) →
    (∀ i < t.slots.length, S[n + i]? = t.slots[i]?) →
    t.Placed (origOf S) (targetOf S) (n + 1)
  | .integer a _, n, h => by
    have h0 : S[n]? = some (a, 1) := h 0 Nat.one_pos
    show (S[n]?).map Prod.fst = some a
    rw [h0]
    rfl
  | .string a _, n, h => by
    have h0 : S[n]? = some (a, 1) := h 0 Nat.one_pos
    show (S[n]?).map Prod.fst = some a
    rw [h0]
    rfl
  | .pointer a ptr, n, h => by
    have h0 : S[n]? = some (a, ptr) := h 0 Nat.one_pos
    show (S[n]?).map Prod.fst = some a ∧ ((S[n]?).map Prod.snd).getD 1 = ptr
    rw [h0]
    exact ⟨rfl, rfl⟩
  | .tuple a ts, n, h => by
    refine ⟨?_, placedAll_slots S ts (n + 1) fun i hi => ?_⟩
    · have h0 : S[n]? = some (a, 1) := h 0 (Nat.succ_pos _)
      show (S[n]?).map Prod.fst = some a
      rw [h0]
      rfl
    · have hs := h (i + 1) (Nat.succ_lt_succ hi)
      rw [show n + 1 + i = n + (i + 1) by omega]
      exact hs

theorem placedAll_slots (S : List (Address × Address)) : (ts : List ValueTree) → (n : Nat) →
    (∀ i < (ValueTree.slotsAll ts).length, S[n + i]? = (ValueTree.slotsAll ts)[i]?) →
    ValueTree.AllPlaced (origOf S) (targetOf S) ts (n + 1)
  | [], _, _ => trivial
  | t :: ts, n, h => by
    have hall : ValueTree.slotsAll (t :: ts) = t.slots ++ ValueTree.slotsAll ts := rfl
    rw [hall, List.length_append] at h
    refine ⟨placed_slots S t n fun i hi => ?_, ?_⟩
    · rw [h i (by omega), List.getElem?_append_left hi]
    · have hn : n + 1 + t.order.length = n + t.slots.length + 1 := by
        rw [ValueTree.length_slots]
        omega
      rw [hn]
      refine placedAll_slots S ts _ fun i hi => ?_
      have hs := h (t.slots.length + i) (by omega)
      rw [List.getElem?_append_right (by omega), Nat.add_sub_cancel_left] at hs
      rw [Nat.add_assoc]
      exact hs

end

/-- A tree has its own places, from 1 on. -/
theorem placed_self (t : ValueTree) : t.Placed (origOf t.slots) (targetOf t.slots) 1 :=
  placed_slots t.slots t 0 fun i _ => by rw [Nat.zero_add]

theorem origOf_succ (t : ValueTree) (n : Nat) : origOf t.slots (n + 1) = t.order[n]? := by
  show (t.slots[n]?).map Prod.fst = _
  rw [← List.getElem?_map, ValueTree.map_slots]

theorem origOf_eq_some {t : ValueTree} {x : Nat} {a : Address} (h : origOf t.slots x = some a) :
    1 ≤ x ∧ x < 1 + t.order.length ∧ a ∈ t.order := by
  cases x with
  | zero => cases h
  | succ n =>
    rw [origOf_succ] at h
    obtain ⟨hn, _⟩ := List.getElem?_eq_some_iff.1 h
    exact ⟨by omega, by omega, List.mem_of_getElem? h⟩

/-! ## Up to renaming -/

namespace ValueTree

theorem isSome_places (ts : List ValueTree) (n : Nat) :
    (places ts n).map Option.isSome = ts.map fun _ => true := by
  induction ts generalizing n with
  | nil => rfl
  | cons t ts ih =>
    unfold places
    rw [List.map_cons, List.map_cons, ih]
    rfl

theorem placed_address {orig : Nat → Option Address} {target : Nat → Address} {t : ValueTree}
    {n : Nat} (h : t.Placed orig target n) : orig n = some t.address := by
  cases t with
  | integer | string => exact h
  | pointer | tuple => exact h.1

end ValueTree

/-- A C int is written and read as it is. -/
theorem scanInt_printLong (i : BitVec 64) :
    BitVec.ofInt 64 (scanInt (printLong i)) = i ↔ -2 ^ 31 ≤ i.toInt ∧ i.toInt < 2 ^ 31 := by
  constructor
  · intro h
    have hi : i.toInt = (BitVec.ofInt 32 (atoi (printLong i))).toInt := by
      have ht := congrArg BitVec.toInt h
      rw [← ht]
      unfold scanInt
      have hr : 2 * (BitVec.ofInt 32 (atoi (printLong i))).toInt < 2 ^ 32 := BitVec.two_mul_toInt_lt
      have hl : -2 ^ 32 ≤ 2 * (BitVec.ofInt 32 (atoi (printLong i))).toInt :=
        BitVec.le_two_mul_toInt
      rw [BitVec.toInt_ofInt]
      exact Int.bmod_eq_of_le (by omega) (by omega)
    rw [hi]
    have hr : 2 * (BitVec.ofInt 32 (atoi (printLong i))).toInt < 2 ^ 32 := BitVec.two_mul_toInt_lt
    have hl : -2 ^ 32 ≤ 2 * (BitVec.ofInt 32 (atoi (printLong i))).toInt :=
      BitVec.le_two_mul_toInt
    omega
  · intro h
    unfold printLong
    rw [scanInt_repr h, BitVec.ofInt_toInt]

section
variable {cell : Address → Option (Cell Address)} {c : Nat → Option (Cell Nat)}
  {orig : Nat → Option Address} {target : Nat → Address}

/-- Both nodes are known, and are the same but for the names. -/
def Agree (cell : Address → Option (Cell Address)) (c : Nat → Option (Cell Nat))
    (R : Address → Nat → Prop) (a : Address) (n : Nat) : Prop :=
  ∃ l xs ys, graphOf cell a = some (l, xs) ∧ graphOf c n = some (l, ys) ∧ List.Forall₂ R xs ys

theorem graphOf_eq {A : Type} {cell : A → Option (Cell A)} {a : A} {d : Cell A}
    (h : cell a = some d) : graphOf cell a = some (d.label, d.targets) := by
  unfold graphOf
  rw [h]
  rfl

theorem forall₂_places (ts : List ValueTree) (n : Nat)
    (h : ValueTree.AllPlaced orig target ts n) :
    List.Forall₂ (fun a x => orig x = some a)
      ((ts.map fun t => some t.address).filterMap id) ((ValueTree.places ts n).filterMap id) := by
  induction ts generalizing n with
  | nil => exact .nil
  | cons t ts ih =>
    exact .cons (ValueTree.placed_address h.1) (ih _ h.2)

mutual

/-- Every place of a tree that was read, with its pointers set, agrees with where it came from. -/
theorem agree_tree {O : List Address} (hptr : ∀ x q, c x = some (.pointer q) → target x ∈ O →
      ∃ y, q = some y ∧ orig y = some (target x)) : (t : ValueTree) → (n : Nat) →
    (memo : List Address) → memo ++ t.order ⊆ O → t.Backward memo → t.In cell →
    t.Placed orig target n → t.At c n → t.Ints →
    ∀ k a, n ≤ k → k < n + t.order.length → orig k = some a →
      Agree cell c (fun a x => orig x = some a) a k
  | .integer a i, n, memo, _, _, hin, hp, hat, hint, k, b, hk, hk', hb => by
    obtain rfl : k = n := Nat.le_antisymm (Nat.le_of_lt_succ hk') hk
    have hpl : orig k = some a := hp
    obtain rfl : a = b := Option.some.inj (hpl.symm.trans hb)
    have hc : c k = some (.integer (.ofInt 64 (scanInt (printLong i)))) := hat
    rw [(scanInt_printLong i).2 hint] at hc
    exact ⟨_, _, _, graphOf_eq hin, graphOf_eq hc, .nil⟩
  | .string a s, n, memo, _, _, hin, hp, hat, _, k, b, hk, hk', hb => by
    obtain rfl : k = n := Nat.le_antisymm (Nat.le_of_lt_succ hk') hk
    have hpl : orig k = some a := hp
    obtain rfl : a = b := Option.some.inj (hpl.symm.trans hb)
    have hc : c k = some (.string s) := hat
    exact ⟨_, _, _, graphOf_eq hin, graphOf_eq hc, .nil⟩
  | .pointer a ptr, n, memo, hO, hback, hin, hp, hat, _, k, b, hk, hk', hb => by
    obtain rfl : k = n := Nat.le_antisymm (Nat.le_of_lt_succ hk') hk
    obtain rfl : a = b := Option.some.inj (hp.1.symm.trans hb)
    obtain ⟨q, hq⟩ := hat
    obtain ⟨y, rfl, hy⟩ := hptr k q hq (by rw [hp.2]; exact hO hback)
    rw [hp.2] at hy
    exact ⟨_, _, _, graphOf_eq hin, graphOf_eq hq, .cons hy .nil⟩
  | .tuple a ts, n, memo, hO, hback, hin, hp, hat, hint, k, b, hk, hk', hb => by
    have hlen : (ValueTree.tuple a ts).order.length = (ValueTree.orderAll ts).length + 1 := rfl
    by_cases he : k = n
    · subst he
      obtain rfl : a = b := Option.some.inj (hp.1.symm.trans hb)
      have hl : (Cell.tuple (ValueTree.places ts (k + 1))).label =
          (Cell.tuple (ts.map fun t => some t.address)).label := by
        show CellLabel.tuple _ = CellLabel.tuple _
        rw [ValueTree.isSome_places, List.map_map]
        rfl
      exact ⟨_, _, _, graphOf_eq hin.1, by rw [graphOf_eq hat.1, hl]; rfl,
        forall₂_places ts (k + 1) hp.2⟩
    · have hO' : memo ++ [a] ++ ValueTree.orderAll ts ⊆ O := by
        rw [List.append_assoc]
        exact hO
      exact agree_trees hptr ts (n + 1) (memo ++ [a]) hO' hback hin.2 hp.2 hat.2 hint k b (by omega)
        (by omega) hb

theorem agree_trees {O : List Address} (hptr : ∀ x q, c x = some (.pointer q) → target x ∈ O →
      ∃ y, q = some y ∧ orig y = some (target x)) : (ts : List ValueTree) → (n : Nat) →
    (memo : List Address) → memo ++ ValueTree.orderAll ts ⊆ O → ValueTree.AllBackward memo ts →
    ValueTree.AllIn cell ts → ValueTree.AllPlaced orig target ts n → ValueTree.AllAt c ts n →
    ValueTree.AllInts ts → ∀ k a, n ≤ k → k < n + (ValueTree.orderAll ts).length →
      orig k = some a → Agree cell c (fun a x => orig x = some a) a k
  | [], n, _, _, _, _, _, _, _, k, b, hk, hk', _ => absurd hk' (Nat.not_lt.2 hk)
  | t :: ts, n, memo, hO, hback, hin, hp, hat, hint, k, b, hk, hk', hb => by
    have hlen : (ValueTree.orderAll (t :: ts)).length =
        t.order.length + (ValueTree.orderAll ts).length := List.length_append
    have hO' : memo ++ t.order ++ ValueTree.orderAll ts ⊆ O := by
      rw [List.append_assoc]
      exact hO
    by_cases hlt : k < n + t.order.length
    · exact agree_tree hptr t n memo (fun x hx => hO' (List.mem_append_left _ hx)) hback.1 hin.1 hp.1
        hat.1 hint.1 k b hk hlt hb
    · exact agree_trees hptr ts _ (memo ++ t.order) hO' hback.2 hin.2 hp.2 hat.2 hint.2 k b (by omega)
        (by omega) hb

end

variable {R : Address → Nat → Prop}

mutual

/-- A renaming of what was read takes every place to where it came from. -/
theorem renamed_tree (hR : Renaming (graphOf cell) (graphOf c) R) : (t : ValueTree) → (n : Nat) →
    t.In cell → t.Placed orig target n → t.At c n → R t.address n →
    (∀ k a, n ≤ k → k < n + t.order.length → orig k = some a → R a k) ∧ t.Ints
  | .integer a i, n, hin, hp, hat, hr => by
    have hpl : orig n = some a := hp
    have hc : c n = some (.integer (.ofInt 64 (scanInt (printLong i)))) := hat
    obtain ⟨hl, _⟩ := hR.agree hr (graphOf_eq hin) (graphOf_eq hc)
    refine ⟨fun k b hk hk' hb => ?_, (scanInt_printLong i).1 (CellLabel.integer.inj hl).symm⟩
    obtain rfl : k = n := Nat.le_antisymm (Nat.le_of_lt_succ hk') hk
    rwa [← Option.some.inj (hpl.symm.trans hb)]
  | .string a s, n, hin, hp, hat, hr => by
    have hpl : orig n = some a := hp
    refine ⟨fun k b hk hk' hb => ?_, trivial⟩
    obtain rfl : k = n := Nat.le_antisymm (Nat.le_of_lt_succ hk') hk
    rwa [← Option.some.inj (hpl.symm.trans hb)]
  | .pointer a ptr, n, hin, hp, hat, hr => by
    refine ⟨fun k b hk hk' hb => ?_, trivial⟩
    obtain rfl : k = n := Nat.le_antisymm (Nat.le_of_lt_succ hk') hk
    rwa [← Option.some.inj (hp.1.symm.trans hb)]
  | .tuple a ts, n, hin, hp, hat, hr => by
    obtain ⟨_, hf⟩ := hR.agree hr (graphOf_eq hin.1) (graphOf_eq hat.1)
    obtain ⟨hall, hints⟩ := renamed_trees hR ts (n + 1) hin.2 hp.2 hat.2 hf
    refine ⟨fun k b hk hk' hb => ?_, hints⟩
    have hlen : (ValueTree.tuple a ts).order.length = (ValueTree.orderAll ts).length + 1 := rfl
    by_cases he : k = n
    · subst he
      rwa [← Option.some.inj (hp.1.symm.trans hb)]
    · exact hall k b (by omega) (by omega) hb

theorem renamed_trees (hR : Renaming (graphOf cell) (graphOf c) R) : (ts : List ValueTree) →
    (n : Nat) → ValueTree.AllIn cell ts → ValueTree.AllPlaced orig target ts n →
    ValueTree.AllAt c ts n →
    List.Forall₂ R ((ts.map fun t => some t.address).filterMap id)
      ((ValueTree.places ts n).filterMap id) →
    (∀ k a, n ≤ k → k < n + (ValueTree.orderAll ts).length → orig k = some a → R a k) ∧
      ValueTree.AllInts ts
  | [], n, _, _, _, _ => ⟨fun k a hk hk' _ => absurd hk' (Nat.not_lt.2 hk), trivial⟩
  | t :: ts, n, hin, hp, hat, hf => by
    have hf' : List.Forall₂ R (t.address :: (ts.map fun t => some t.address).filterMap id)
      (n :: (ValueTree.places ts (n + t.order.length)).filterMap id) := hf
    obtain ⟨hr, hfs⟩ := List.forall₂_cons.1 hf'
    obtain ⟨hall, hint⟩ := renamed_tree hR t n hin.1 hp.1 hat.1 hr
    obtain ⟨halls, hints⟩ := renamed_trees hR ts _ hin.2 hp.2 hat.2 hfs
    have hlen : (ValueTree.orderAll (t :: ts)).length =
        t.order.length + (ValueTree.orderAll ts).length := List.length_append
    refine ⟨fun k b hk hk' hb => ?_, hint, hints⟩
    by_cases hlt : k < n + t.order.length
    · exact hall k b hk hlt hb
    · exact halls k b (by omega) (by omega) hb

end

end

/-! ## Round trips -/

/-- The graphs that come back. -/
def ValueGraph.Writable (g : ValueGraph) (foundSize : Int) : Prop :=
  ∃ t : ValueTree, t.address = g.root ∧ t.In g.cell ∧ t.order.Nodup ∧ t.Backward [] ∧ t.Ints ∧
    (t.StartsWithPointer → foundSize ≤ 0)

section
variable {foundSize : Int} {other : Xml → Reader → Option (Option Nat × Reader)}

theorem ValueGraph.nullFree (g : ValueGraph) : NullFree g.cell := ⟨g.null, g.pointers⟩

theorem reader_sound_init (orig : Nat → Option Address) (target : Nat → Address) :
    Reader.init.Sound orig target where
  found p hp := by cases hp
  isPointer w hw := by cases hw
  waits w hw := by cases hw
  pointer x q hx := by cases hx

/-- What is read of a document with one value, and with more. -/
theorem parseGraph_written {t : ValueTree} {ps : List Xml} (hps : Xml.elements ps = ps) {y : Xml}
    (hy : (Xml.node "minimal" [] (t.toXml :: ps)).Reparsed y) :
    ∃ y', t.toXml.Reparsed y' ∧
      (ps = [] → parseGraph foundSize other y = readValue foundSize other y' .init) ∧
      (ps ≠ [] → ∀ v r r', readValue foundSize other y' .init = some (some v, r) →
        ∀ v', parseGraph foundSize other y ≠ some (some v', r')) ∧
      (ps ≠ [] → readValue foundSize other y' .init = none →
        parseGraph foundSize other y = none) := by
  obtain ⟨ds, rfl, hds⟩ := hy.node_inv
  rw [elements_toXml, hps] at hds
  cases hel : Xml.elements ds with
  | nil => rw [hel] at hds; cases hds
  | cons y' ys =>
    rw [hel] at hds
    obtain ⟨hy', hys⟩ := List.forall₂_cons.1 hds
    obtain ⟨he, hn⟩ := reparsed_toXml hy'
    have hparse : parseGraph foundSize other (.node "minimal" [] ds) =
        (readValue foundSize other y' .init).bind
          fun u => readMinimal foundSize other [] ys u.1 u.2 := by
      show readMinimal foundSize other [] ds none .init = _
      rw [readMinimal_elements, hel, readMinimal, if_pos ⟨he, rfl, hn⟩]
    refine ⟨y', hy', fun hnil => ?_, fun hne v r r' hr v' => ?_, fun hne hr => ?_⟩
    · subst hnil
      cases hys
      rw [hparse]
      cases readValue foundSize other y' .init with
      | none => rfl
      | some u => rfl
    · rw [hparse, hr, Option.bind_some]
      cases hys with
      | nil => exact absurd rfl hne
      | @cons x z xs zs hz hzs =>
        have hmem : x ∈ Xml.elements (x :: xs) := by
          rw [hps]
          exact List.mem_cons_self
        have hxe : x.isElement := (List.mem_filter.1 hmem).2
        have hze : z.isElement := by
          cases x with
          | text s => cases hxe
          | node n qs cs =>
            obtain ⟨es, rfl, _⟩ := hz.node_inv
            rfl
        rw [readMinimal, if_neg (fun h => by cases h.2.1), if_pos ⟨hze, by simp⟩]
        intro h
        cases h
    · rw [hparse, hr]
      rfl

/-- The root of a written tree starts with a pointer that cannot be read. -/
theorem read_root {g : ValueGraph} {t : ValueTree} (hin : t.In g.cell) {y : Xml}
    (hy : t.toXml.Reparsed y) :
    (t.StartsWithPointer ∧ 0 < foundSize ∧ readValue foundSize other y .init = none) ∨
      ((t.StartsWithPointer → foundSize ≤ 0) ∧ ∃ r, readValue foundSize other y .init =
        some (some 1, r) ∧ ReadTree (origOf t.slots) (targetOf t.slots) t 1 .init r) := by
  by_cases hstart : t.StartsWithPointer → foundSize ≤ 0
  · exact Or.inr ⟨hstart, readValue_tree g.nullFree
      (targetOf_ne (ValueTree.slots_ne g.nullFree t hin)) t hin .init (reader_sound_init _ _)
      (placed_self t) (fun _ => hstart) y hy⟩
  · rw [Classical.not_imp] at hstart
    exact Or.inl ⟨hstart.1, Int.not_le.1 hstart.2,
      readValue_crash (Int.not_le.1 hstart.2) t hstart.1 .init rfl y hy⟩

theorem nodup_of_origOf {t : ValueTree}
    (h : ∀ i j a, origOf t.slots i = some a → origOf t.slots j = some a → i = j) :
    t.order.Nodup := by
  refine List.pairwise_iff_getElem.2 fun i j hi hj hij he => ?_
  have hoi : origOf t.slots (i + 1) = some t.order[i] := by
    rw [origOf_succ, List.getElem?_eq_getElem hi]
  have hoj : origOf t.slots (j + 1) = some t.order[i] := by
    rw [origOf_succ, List.getElem?_eq_getElem hj, he]
  have hs := h _ _ _ hoi hoj
  omega

theorem origOf_inj {t : ValueTree} (h : t.order.Nodup) {i j : Nat} {a : Address}
    (hi : origOf t.slots i = some a) (hj : origOf t.slots j = some a) : i = j := by
  cases i with
  | zero => cases hi
  | succ i =>
    cases j with
    | zero => cases hj
    | succ j =>
      rw [origOf_succ] at hi hj
      obtain ⟨hlt, _⟩ := List.getElem?_eq_some_iff.1 hi
      rw [(List.getElem?_inj hlt h).1 (hi.trans hj.symm)]

/-- A tree that was read with its pointers set is the graph. -/
theorem iso_of_read {g : ValueGraph} {t : ValueTree} (haddr : t.address = g.root)
    (hin : t.In g.cell) (hnd : t.order.Nodup) (hback : t.Backward []) (hints : t.Ints)
    {r r' : Reader} (h : ReadTree (origOf t.slots) (targetOf t.slots) t 1 r r') :
    Iso (graphOf g.cell) g.root (graphOf r'.cell) 1 := by
  have hnz := targetOf_ne (ValueTree.slots_ne g.nullFree t hin)
  have hptr : ∀ x q, r'.cell x = some (.pointer q) → targetOf t.slots x ∈ t.order →
      ∃ y, q = some y ∧ origOf t.slots y = some (targetOf t.slots x) := by
    intro x q hx hmem
    rcases h.sound.pointer x q hx with hy | ⟨_, hw⟩
    · exact hy
    · -- everything in the tree has been found, so nothing waits for it
      obtain ⟨y, hy⟩ := h.all _ hmem
      exact absurd rfl ((h.sound.waits _ hw (hnz x)).2 _ hy)
  refine ⟨fun a x => origOf t.slots x = some a, ⟨?_, ?_, ?_⟩, ?_⟩
  · exact fun a x x' hx hx' => origOf_inj hnd hx hx'
  · exact fun a a' x hx hx' => Option.some.inj (hx.symm.trans hx')
  · intro a x hx
    obtain ⟨hle, hlt, _⟩ := origOf_eq_some hx
    exact agree_tree hptr t 1 [] (List.Subset.refl _) hback hin (placed_self t) h.tree hints x a hle
      hlt hx
  · rw [← haddr]
    exact ValueTree.placed_address (placed_self t)

/-- A graph comes back exactly if its values make a tree, every pointer points back, the
integers are C ints, and `found_size` is not read before it has a value. -/
theorem graphReturns_iff (g : ValueGraph) (foundSize : Int)
    (other : Xml → Reader → Option (Option Nat × Reader)) :
    g.Returns foundSize other ↔ g.Writable foundSize := by
  constructor
  · rintro ⟨fuel, doc, hdoc, hread⟩
    unfold ValueGraph.serialise at hdoc
    cases hw : writeValue g.cell fuel [] (some g.root) with
    | error e => rw [hw] at hdoc; cases hdoc
    | ok w =>
      rw [hw] at hdoc
      cases hdoc
      obtain ⟨hel, t, haddr, hin, hxml, hback⟩ := tree_of_writeValue g.elements fuel [] g.root w hw
      rw [hxml] at hread
      have hy := Xml.reparsed_compact (.node "minimal" [] (t.toXml :: w.pointees)) rfl
      obtain ⟨v, r, hpg, hiso⟩ := hread _ hy
      obtain ⟨y', hy', hone, hmore, hcrash⟩ := @parseGraph_written foundSize other t w.pointees hel _ hy
      have hroot := @read_root foundSize other g t hin y' hy'
      by_cases hp : w.pointees = []
      · rw [hone hp] at hpg
        obtain ⟨hb, _⟩ := hback hp
        rcases hroot with ⟨_, _, hnone⟩ | ⟨hstart, r', hr', hrt⟩
        · rw [hnone] at hpg
          cases hpg
        · rw [hr'] at hpg
          cases hpg
          obtain ⟨R, hR, hrel⟩ := hiso
          rw [← haddr] at hrel
          obtain ⟨hall, hints⟩ := renamed_tree hR t 1 hin (placed_self t) hrt.tree hrel
          refine ⟨t, haddr, hin, nodup_of_origOf fun i j a hi hj => ?_, hb, hints, hstart⟩
          obtain ⟨hi1, hi2, _⟩ := origOf_eq_some hi
          obtain ⟨hj1, hj2, _⟩ := origOf_eq_some hj
          exact hR.right_unique a i j (hall i a hi1 hi2 hi) (hall j a hj1 hj2 hj)
      · rcases hroot with ⟨_, _, hnone⟩ | ⟨_, r', hr', _⟩
        · rw [hcrash hp hnone] at hpg
          cases hpg
        · exact absurd hpg (hmore hp 1 r' r hr' v)
  · rintro ⟨t, haddr, hin, hnd, hback, hints, hstart⟩
    have hw := writeValue_tree t [] hin hback t.depth (Nat.le_refl _)
    refine ⟨t.depth, .node "minimal" [] [t.toXml], ?_, fun y hy => ?_⟩
    · unfold ValueGraph.serialise
      rw [← haddr, hw]
    · obtain ⟨y', hy', hone, _, _⟩ := @parseGraph_written foundSize other t [] rfl y hy
      rcases @read_root foundSize other g t hin y' hy' with ⟨hs, hpos, _⟩ | ⟨_, r, hr, hrt⟩
      · exact absurd (hstart hs) (Int.not_le.2 hpos)
      · exact ⟨1, r, (hone rfl).trans hr, iso_of_read haddr hin hnd hback hints hrt⟩

end

/-- A tuple with a number and a pointer to itself. -/
def recursiveTuple : ValueGraph where
  cell a := if a = 1 then some (.tuple [some 2, some 3]) else if a = 2 then some (.integer 1)
    else if a = 3 then some (.pointer (some 1)) else none
  root := 1
  null := rfl
  pointers a h := by
    split at h
    · cases h
    · split at h
      · cases h
      · split at h <;> cases h
  elements a vs h hn := by
    split at h
    · cases h
      simp at hn
    · split at h
      · cases h
      · split at h <;> cases h

example : recursiveTuple.Writable 1 :=
  ⟨.tuple 1 [.integer 2 1, .pointer 3 1], rfl, ⟨rfl, rfl, rfl, trivial⟩, by decide,
    ⟨trivial, List.mem_cons_self, trivial⟩, ⟨⟨by decide, by decide⟩, trivial, trivial⟩,
    fun h => h.elim⟩

/-- A pointer to an integer. -/
def pointerToInt : ValueGraph where
  cell a := if a = 1 then some (.pointer (some 2)) else if a = 2 then some (.integer 7) else none
  root := 1
  null := rfl
  pointers a h := by
    split at h
    · cases h
    · split at h <;> cases h
  elements a vs h := by
    split at h
    · cases h
    · split at h <;> cases h

/-- The integer becomes a second child of the root, and the decoder wants one. -/
theorem pointee_rejected : ¬ pointerToInt.Returns 0 fun _ _ => none := by
  rintro ⟨fuel, doc, hdoc, hread⟩
  cases fuel with
  | zero => cases hdoc
  | succ fuel =>
    cases fuel with
    | zero => cases hdoc
    | succ fuel =>
      have hdoc' : pointerToInt.serialise (fuel + 2) = .ok (.node "minimal" []
          [(ValueTree.pointer 1 2).toXml, (ValueTree.integer 2 7).toXml]) := rfl
      rw [hdoc'] at hdoc
      cases hdoc
      have hy := Xml.reparsed_compact (.node "minimal" []
        [(ValueTree.pointer 1 2).toXml, (ValueTree.integer 2 7).toXml]) rfl
      obtain ⟨v, r, hpg, _⟩ := hread _ hy
      obtain ⟨y', hy', _, hmore, _⟩ :=
        @parseGraph_written 0 (fun _ _ => none) (.pointer 1 2) _ rfl _ hy
      have hin : (ValueTree.pointer 1 2).In pointerToInt.cell := rfl
      rcases @read_root 0 (fun _ _ => none) _ _ hin y' hy' with ⟨_, hpos, _⟩ | ⟨_, r', hr', _⟩
      · exact absurd hpos (by decide)
      · exact hmore (List.cons_ne_nil _ _) 1 r' r hr' v hpg

end PyLinda
