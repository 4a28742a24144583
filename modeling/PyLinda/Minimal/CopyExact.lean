import PyLinda.Minimal.CopyGraph

/-!
# What can be copied

`Minimal_copy` comes to an end on every graph, and makes a copy exactly if it has a case for
each value in it.
-/

namespace PyLinda.Copy

open Lib Lib.Memo

section
variable {linda : Bool} {h : Heap} {root : Ptr} {s s' : State} {ps rs : List Ptr} {new : List Nat}

/-! ## The end of the walk -/

/-- How many values of the heap have no copy yet. -/
def left (h : Heap) (s : State) : Nat :=
  unvisited (List.range h.next) fun v => decide (v ∈ keys s.memo)

theorem Did.left_le (hd : Did linda h s ps s' rs new) : left h s' ≤ left h s := by
  refine unvisited_mono fun v hv => ?_
  exact decide_eq_true (keys_grown hd.grown (of_decide_eq_true hv))

theorem left_enter {v : Nat} {n : Node} (hv : v ∉ keys s.memo) (hlt : v < h.next) :
    left h (s.enter v n) < left h s := by
  have hkeys : keys (s.enter v n).memo = keys s.memo ++ [v] := keys_append
  refine unvisited_lt (fun w hw => ?_) (List.mem_range.2 hlt) (decide_eq_false hv) ?_
  · refine decide_eq_true ?_
    rw [hkeys]
    exact List.mem_append_left _ (of_decide_eq_true hw)
  · refine decide_eq_true ?_
    rw [hkeys]
    exact List.mem_append_right _ List.mem_cons_self

/-- There is a value that cannot be copied. -/
def Stuck (linda : Bool) (h : Heap) (root : Ptr) : Prop :=
  ∃ v n, h.Reach root v ∧ h.node v = some n ∧ ¬ n.content.Copyable linda

/-- The walk returns, or it crashes and had to. -/
def Ends {α : Type} (linda : Bool) (h : Heap) (root : Ptr) (x : Run α) (s : State) : Prop :=
  (∃ a t, x s = (.ok a, t)) ∨ (∃ e, (x s).1 = .error e ∧ e ≠ .depth) ∧ Stuck linda h root

theorem Ends.andThen {α β : Type} {x : Run α} {f : α → Run β} (hx : Ends linda h root x s)
    (hf : ∀ a t, x s = (.ok a, t) → Ends linda h root (f a) t) :
    Ends linda h root (x >>= f) s := by
  cases hx with
  | inl hok =>
    obtain ⟨a, t, hr⟩ := hok
    have hrest := hf a t hr
    unfold Ends at hrest ⊢
    rw [Eff.andThen_ok hr]
    exact hrest
  | inr herr =>
    obtain ⟨⟨e, he, hne⟩, hstuck⟩ := herr
    refine .inr ⟨⟨e, ?_, hne⟩, hstuck⟩
    have hr : x s = (.error e, (x s).2) := Prod.ext he rfl
    rw [Eff.andThen_error hr]

section
variable (hvalid : h.Valid) (hroot : ∀ v, root = some v → (h.node v).isSome)
include hvalid hroot

theorem copyValues_ends {depth : Nat}
    (hcopy : ∀ {p s}, left h s < depth → Inv h root s → (∀ v, p = some v → h.Reach root v) →
      Ends linda h root (copyInternal linda depth p) s)
    (hleft : left h s < depth) (hinv : Inv h root s) (hps : ∀ v, some v ∈ ps → h.Reach root v) :
    Ends linda h root (copyValues (copyInternal linda depth) ps) s := by
  induction ps generalizing s with
  | nil => exact .inl ⟨[], s, rfl⟩
  | cons p ps ih =>
    have hp : ∀ v, p = some v → h.Reach root v := fun v hv => hps v (hv ▸ List.mem_cons_self)
    refine .andThen (hcopy hleft hinv hp) fun r t hr => ?_
    obtain ⟨new, hd, hinv1⟩ := copyInternal_did hvalid hroot depth hr hinv hp
    have hrest := ih (Nat.lt_of_le_of_lt hd.left_le hleft) hinv1
      fun v hv => hps v (List.mem_cons_of_mem p hv)
    exact .andThen hrest fun rs t' _ => .inl ⟨r :: rs, t', rfl⟩

/-- Going deeper than there are values without a copy, the walk comes to an end. -/
theorem copyInternal_ends (depth : Nat) {p : Ptr} (hleft : left h s < depth) (hinv : Inv h root s)
    (hp : ∀ v, p = some v → h.Reach root v) :
    Ends linda h root (copyInternal linda depth p) s := by
  induction depth generalizing p s with
  | zero => exact absurd hleft (Nat.not_lt_zero _)
  | succ depth ih =>
    cases p with
    | none => exact .inl ⟨none, s, rfl⟩
    | some v =>
      cases hl : s.memo.lookup v with
      | some nv => exact .inl ⟨some nv, _, copyInternal_found hl⟩
      | none =>
        have hr := hp v rfl
        have hv := lookup_none.1 hl
        obtain ⟨n, hn, hsn⟩ := hinv.node hvalid hroot hr
        unfold Ends
        rw [copyInternal_new hl]
        by_cases hc : n.content.Copyable linda
        · rw [copyNew_run hsn hc]
          have hless := left_enter (h := h) (n := n) hv (hvalid.used hn)
          have hvalues := copyValues_ends hvalid hroot ih
            (Nat.lt_of_lt_of_le hless (Nat.le_of_lt_succ hleft)) (hinv.enter hv hr)
            fun w hw => .kid hr hn hw
          exact Ends.andThen hvalues fun rs t _ => .inl ⟨_, _, rfl⟩
        · exact .inr ⟨copyNew_fails hsn hc, v, n, hr, hn, hc⟩

end

/-! ## The copy -/

theorem start_inv (h : Heap) (root : Ptr) : Inv h root ⟨h, []⟩ where
  le := Nat.le_refl _
  same _ _ := rfl
  numbers := .empty _
  reached _ hv := by cases hv

/-- References to copies are as many as to what they are copies of. -/
theorem count_copies {f : Nat → Nat} {ks : List Nat} (hinj : ∀ v ∈ ks, ∀ w ∈ ks, f v = f w → v = w)
    {v : Nat} (hv : v ∈ ks) {ps : List Ptr} (hps : ∀ w, some w ∈ ps → w ∈ ks) :
    (ps.map (Option.map f)).count (some (f v)) = ps.count (some v) := by
  induction ps with
  | nil => rfl
  | cons p ps ih =>
    have hrest := ih fun w hw => hps w (List.mem_cons_of_mem p hw)
    rw [List.map_cons, List.count_cons, List.count_cons, hrest]
    by_cases he : p = some v
    · subst he
      have hself : (Option.map f (some v) == some (f v)) = true := beq_self_eq_true (some (f v))
      rw [if_pos hself, if_pos (beq_self_eq_true _)]
    · have hne : ¬ (p.map f == some (f v)) = true := fun hb => by
        obtain ⟨w, rfl, hw⟩ := Option.map_eq_some_iff.1 (eq_of_beq hb)
        exact he (congrArg some (hinj w (hps w List.mem_cons_self) v hv hw))
      rw [if_neg hne, if_neg fun hb => he (eq_of_beq hb)]

/-- A whole walk makes a copy. -/
theorem Did.copied (hvalid : h.Valid) {r : Ptr} (hinv : Inv h root s')
    (hd : Did linda h ⟨h, []⟩ [root] s' [r] new) :
    Copied h root s'.heap r new (place s'.memo) := by
  have hkeys : Memo.keys s'.memo = new := hd.keys
  have hrange : ∀ v ∈ new, h.next ≤ place s'.memo v ∧ place s'.memo v < s'.heap.next :=
    fun v hv => hinv.numbers.range (hkeys ▸ hv)
  have hseen : ∀ v, some v ∈ [root] ++ new.flatMap h.kids → v ∈ new :=
    fun v hv => hkeys ▸ hd.seen_all hv
  have hinj : ∀ v ∈ new, ∀ w ∈ new, place s'.memo v = place s'.memo w → v = w :=
    fun v hv w hw => hinv.numbers.injective v (hkeys ▸ hv) w (hkeys ▸ hw)
  refine ⟨hkeys ▸ hinv.numbers.nodup, fun v => ⟨fun hv => hinv.reached v (hkeys ▸ hv), fun hr => ?_⟩,
    (List.cons.inj hd.results).1, hinj, fun a => ?_, fun v hv => ?_, hinv.same, fun a ha => ?_,
    fun v hv => ?_, hd.told⟩
  · induction hr with
    | root he => exact hseen _ (List.mem_append_left _ (he ▸ List.mem_cons_self))
    | @kid u n w _ hn hw ih =>
      obtain ⟨n', hn', _, hkids, _⟩ := hd.copies u ih
      rw [hn] at hn'
      cases hn'
      exact hkeys ▸ hkids w hw
  · rw [← hkeys]
    exact hinv.numbers.onto a
  · obtain ⟨n, hn, _, _, hcopy⟩ := hd.copies v hv
    rw [hcopy, hn]
    rfl
  · have hnone : (([root] ++ new.flatMap h.kids).map (Option.map (place s'.memo))).count (some a) =
        0 := by
      refine List.count_eq_zero_of_not_mem fun hmem => ?_
      obtain ⟨p, hp, he⟩ := List.mem_map.1 hmem
      obtain ⟨v, rfl, hplace⟩ := Option.map_eq_some_iff.1 he
      have hle := (hrange v (hseen v hp)).1
      omega
    have hlt : a < s'.heap.next := Nat.lt_of_lt_of_le ha hinv.le
    rw [hd.counts a hlt, if_pos (show a < h.next from ha), hnone]
    exact Int.add_zero _
  · have hnew := hrange v hv
    have hout : (new.flatMap h.outs).count (place s'.memo v) = 0 := by
      refine List.count_eq_zero_of_not_mem fun hmem => ?_
      obtain ⟨w, hw, hout⟩ := List.mem_flatMap.1 hmem
      obtain ⟨n, hn, _⟩ := hd.copies w hw
      rw [h.outs_node hn] at hout
      have hused := hvalid.outs hn hout
      omega
    have hnot : ¬ place s'.memo v < h.next := by omega
    rw [hd.counts _ hnew.2, if_neg (show ¬ place s'.memo v < (⟨h, []⟩ : State).heap.next from hnot),
      hout, count_copies hinj hv hseen, List.count_append, List.count_singleton]
    by_cases he : root = some v
    · rw [if_pos he, if_pos (beq_iff_eq.2 he)]
      omega
    · rw [if_neg he, if_neg fun hb => he (beq_iff_eq.1 hb)]
      omega

end

/-- A graph without dangling pointers is copied exactly if there is a case for each of its
values; with or without, the walk comes to an end. -/
theorem copy_iff (linda : Bool) {h : Heap} (hvalid : h.Valid) {root : Ptr}
    (hroot : ∀ v, root = some v → (h.node v).isSome) :
    (∃ depth, (copy linda depth root h).1 ≠ .error .depth) ∧
      ((∃ depth r h' vs f, copy linda depth root h = (.ok r, h') ∧ Copied h root h' r vs f) ↔
        ∀ v n, h.Reach root v → h.node v = some n → n.content.Copyable linda) := by
  have hp : ∀ v, root = some v → h.Reach root v := fun v hv => .root hv
  have hleft : left h ⟨h, []⟩ < h.next + 1 := by
    have hle := List.countP_le_length (p := fun v => !decide (v ∈ keys ([] : List (Nat × Nat))))
      (l := List.range h.next)
    rw [List.length_range] at hle
    exact Nat.lt_succ_of_le hle
  have hends : Ends linda h root (copyInternal linda (h.next + 1) root) ⟨h, []⟩ :=
    copyInternal_ends hvalid hroot _ hleft (start_inv h root) hp
  have hfst : ∀ d, (copy linda d root h).1 = (copyInternal linda d root ⟨h, []⟩).1 := fun _ => rfl
  refine ⟨⟨h.next + 1, fun herr => ?_⟩, ⟨fun hcopy v n hr hn => ?_, fun hall => ?_⟩⟩
  · cases hends with
    | inl hok =>
      obtain ⟨r, t, hrun⟩ := hok
      rw [hfst, hrun] at herr
      cases herr
    | inr hstuck =>
      obtain ⟨⟨e, he, hne⟩, _⟩ := hstuck
      rw [hfst, he] at herr
      cases herr
      exact hne rfl
  · obtain ⟨depth, r, h', vs, f, hrun, _⟩ := hcopy
    have hinternal : copyInternal linda depth root ⟨h, []⟩ =
        (.ok r, (copyInternal linda depth root ⟨h, []⟩).2) :=
      Prod.ext ((hfst depth).symm.trans (congrArg Prod.fst hrun)) rfl
    obtain ⟨new, hd, hinv⟩ := copyInternal_did hvalid hroot depth hinternal (start_inv h root) hp
    obtain ⟨n', hn', hc, _⟩ := hd.copies v (((hd.copied hvalid hinv).reached v).2 hr)
    rw [hn] at hn'
    cases hn'
    exact hc
  · cases hends with
    | inl hok =>
      obtain ⟨r, t, hrun⟩ := hok
      obtain ⟨new, hd, hinv⟩ := copyInternal_did hvalid hroot _ hrun (start_inv h root) hp
      refine ⟨h.next + 1, r, t.heap, new, _, ?_, hd.copied hvalid hinv⟩
      unfold copy
      rw [hrun]
    | inr hstuck =>
      obtain ⟨_, v, n, hr, hn, hc⟩ := hstuck
      exact absurd (hall v n hr hn) hc

/-- A pointer to itself. -/
def selfPointer : Heap where
  node
    | 0 => some ⟨none, .pointer (some 0)⟩
    | _ => none
  refCount _ := 1
  next := 1
  told := []

theorem selfPointer_valid : selfPointer.Valid where
  used {v n} hn := by
    cases v with
    | zero => exact Nat.zero_lt_one
    | succ v => cases hn
  kids {v n w} hn hw := by
    cases v with
    | zero =>
      cases hn
      cases List.mem_singleton.1 hw
      rfl
    | succ v => cases hn
  outs {v n a} hn ha := by
    cases v with
    | zero =>
      cases hn
      cases ha
    | succ v => cases hn

theorem copy_selfPointer :
    (∃ depth, (copy true depth (some 0) selfPointer).1 ≠ .error .depth) ∧
      ((∃ depth r h' vs f, copy true depth (some 0) selfPointer = (.ok r, h') ∧
          Copied selfPointer (some 0) h' r vs f) ↔
        ∀ v n, selfPointer.Reach (some 0) v → selfPointer.node v = some n →
          n.content.Copyable true) :=
  copy_iff true selfPointer_valid fun v hv => by
    cases hv
    rfl

/-- `Nil` as a value of a sum type. -/
def sumOfNil : Heap where
  node
    | 0 => some ⟨none, .sum (some 1) 0⟩
    | 1 => some ⟨none, .nil⟩
    | _ => none
  refCount _ := 1
  next := 2
  told := []

theorem sumOfNil_valid : sumOfNil.Valid where
  used {v n} hn := by
    cases v with
    | zero => exact Nat.zero_lt_two
    | succ v =>
      cases v with
      | zero => exact Nat.one_lt_two
      | succ v => cases hn
  kids {v n w} hn hw := by
    cases v with
    | zero =>
      cases hn
      cases List.mem_singleton.1 hw
      rfl
    | succ v =>
      cases v with
      | zero =>
        cases hn
        cases hw
      | succ v => cases hn
  outs {v n a} hn ha := by
    cases v with
    | zero =>
      cases hn
      cases ha
    | succ v =>
      cases v with
      | zero =>
        cases hn
        cases ha
      | succ v => cases hn

/-- Sums are not copied. -/
theorem sum_not_copied : sumOfNil.Valid ∧ (sumOfNil.node 0).isSome ∧
    ∀ depth r h', copy true depth (some 0) sumOfNil ≠ (.ok r, h') := by
  refine ⟨sumOfNil_valid, rfl, fun depth r h' hrun => ?_⟩
  have hr := congrArg Prod.fst hrun
  cases depth with
  | zero => cases hr
  | succ depth => cases hr

end PyLinda.Copy
