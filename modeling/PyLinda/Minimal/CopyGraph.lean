import PyLinda.Lib.Memo
import PyLinda.Lib.Visited
import PyLinda.Minimal.Copy

/-!
# Copies are copies

What `Minimal_copy_internal` does from any point of the walk on, as what it adds: the values it
makes a copy of, and the references that are new.
-/

namespace PyLinda.Copy

open Lib Lib.Memo

/-! ## Steps -/

namespace State

/-- With other reference counts. -/
def setCounts (s : State) (f : Nat → Int) : State :=
  { s with heap := { s.heap with refCount := f } }

/-- A reference more to each of these objects. -/
def addRefs (s : State) (as : List Nat) : State :=
  s.setCounts fun a => s.heap.refCount a + (as.count a : Nat)

theorem addRef_eq (s : State) (a : Nat) : s.addRef a = s.addRefs [a] := by
  have hcount : (fun b => if b = a then s.heap.refCount b + 1 else s.heap.refCount b) =
      fun b => s.heap.refCount b + (([a].count b : Nat) : Int) := by
    funext b
    by_cases hb : b = a
    · subst hb
      rw [if_pos rfl, List.count_cons_self, List.count_nil]
      rfl
    · rw [if_neg hb, List.count_cons_of_ne fun h => hb h.symm, List.count_nil]
      exact (Int.add_zero _).symm
  exact congrArg s.setCounts hcount

theorem addRefs_nil (s : State) : s.addRefs [] = s :=
  congrArg s.setCounts (funext fun a => Int.add_zero (s.heap.refCount a))

theorem addRefs_append (s : State) (as bs : List Nat) :
    (s.addRefs as).addRefs bs = s.addRefs (as ++ bs) := by
  have hcount : (fun a => s.heap.refCount a + ((as.count a : Nat) : Int) + ((bs.count a : Nat) : Int)) =
      fun a => s.heap.refCount a + (((as ++ bs).count a : Nat) : Int) := by
    funext a
    rw [List.count_append]
    omega
  exact congrArg s.setCounts hcount

theorem tell_nil (s : State) : s.tell [] = s := by
  unfold tell
  rw [List.append_nil]

/-- A new value, and what its copy refers to. -/
def enter (s : State) (v : Nat) (n : Node) : State :=
  ((s.alloc v).addRefs n.outs).tell n.content.tsids

end State

theorem addReference_run (a : Nat) (s : State) :
    addReference (some a) s = (.ok (), s.addRefs [a]) := by
  rw [← s.addRef_eq]
  rfl

theorem addReferenceIf_run (p : Ptr) (s : State) :
    addReferenceIf p s = (.ok (), s.addRefs p.toList) := by
  cases p with
  | none =>
    rw [show (none : Ptr).toList = [] from rfl, s.addRefs_nil]
    rfl
  | some a => exact addReference_run a s

/-- With these values in it. -/
def Content.withKids : Content → List Ptr → Content
  | tuple _, rs => tuple rs
  | pointer _, [r] => pointer r
  | c, _ => c

theorem Content.withKids_map (c : Content) {linda : Bool} (hc : c.Copyable linda) (f : Nat → Nat) :
    c.withKids (c.kids.map (Option.map f)) = c.map f := by
  cases c with
  | sum => exact hc.elim
  | _ => rfl

section
variable {linda : Bool} {copy : Ptr → Run Ptr}

/-- First the other objects get their references, then the values are copied. -/
theorem copyContent_run (c : Content) (hc : c.Copyable linda) (s : State) :
    copyContent linda copy c s = (copyValues copy c.kids >>= fun rs => pure (c.withKids rs))
      ((s.addRefs c.outs).tell c.tsids) := by
  cases c with
  | type typeName typeSpec typemap typeId =>
    cases typeSpec with
    | none => cases hc
    | some a =>
      show (addReference (some a) >>= fun _ => addReferenceIf typemap >>= fun _ => pure _) s = _
      rw [Eff.andThen_ok (addReference_run a s), Eff.andThen_ok (addReferenceIf_run typemap _),
        State.addRefs_append]
      show _ = (_, (s.addRefs ([a] ++ typemap.toList)).tell [])
      rw [State.tell_nil]
      rfl
  | tsref ts =>
    have hl : linda = true := hc
    subst hl
    show (_, s.tell [ts]) = (_, (s.addRefs []).tell [ts])
    rw [State.addRefs_nil]
    rfl
  | tuple vs =>
    show (copyValues copy vs >>= fun rs => pure (Content.tuple rs)) s =
      (copyValues copy vs >>= fun rs => pure (Content.tuple rs)) ((s.addRefs []).tell [])
    rw [State.addRefs_nil, State.tell_nil]
  | function funcName parameterList code layer =>
    obtain ⟨h1, h2, h3⟩ := hc
    obtain ⟨a, rfl⟩ := Option.isSome_iff_exists.1 h1
    obtain ⟨b, rfl⟩ := Option.isSome_iff_exists.1 h2
    obtain ⟨c, rfl⟩ := Option.isSome_iff_exists.1 h3
    show (addReference (some a) >>= fun _ => addReference (some b) >>= fun _ =>
      addReference (some c) >>= fun _ => pure _) s = _
    rw [Eff.andThen_ok (addReference_run a s), Eff.andThen_ok (addReference_run b _),
      Eff.andThen_ok (addReference_run c _), State.addRefs_append, State.addRefs_append]
    show _ = (_, (s.addRefs ([a] ++ [b] ++ [c])).tell [])
    rw [State.tell_nil]
    rfl
  | pointer p =>
    show (copy p >>= fun r => pure (Content.pointer r)) s =
      ((copy p >>= fun r => pure [r]) >>= fun rs => pure ((Content.pointer p).withKids rs))
        ((s.addRefs []).tell [])
    rw [State.addRefs_nil, State.tell_nil, Eff.andThen_assoc]
    rfl
  | sum => exact hc.elim
  | syntaxTree => exact hc.elim
  | _ =>
    show (_, s) = (_, (s.addRefs []).tell [])
    rw [State.addRefs_nil, State.tell_nil]
    rfl

theorem copyContent_fails (c : Content) (hc : ¬ c.Copyable linda) (s : State) :
    ∃ e, (copyContent linda copy c s).1 = .error e ∧ e ≠ .depth := by
  cases c with
  | type typeName typeSpec typemap typeId =>
    cases typeSpec with
    | none => exact ⟨.null, rfl, by decide⟩
    | some a => exact absurd rfl hc
  | tsref ts =>
    cases linda with
    | true => exact absurd rfl hc
    | false => exact ⟨.null, rfl, by decide⟩
  | function funcName parameterList code layer =>
    cases parameterList with
    | none => exact ⟨.null, rfl, by decide⟩
    | some a =>
      cases code with
      | none => exact ⟨.null, rfl, by decide⟩
      | some b =>
        cases layer with
        | none => exact ⟨.null, rfl, by decide⟩
        | some c => exact absurd ⟨rfl, rfl, rfl⟩ hc
  | sum => exact ⟨.uninitialised, rfl, by decide⟩
  | syntaxTree => exact ⟨.uninitialised, rfl, by decide⟩
  | _ => exact absurd trivial hc

theorem nodeAt_run {v : Nat} {s : State} {n : Node} (hn : s.heap.node v = some n) :
    (Eff.look (fun s : State => nodeAt s.heap v) : Run Node) s = (.ok n, s) := by
  have hlook : nodeAt s.heap v = .ok n := by
    unfold nodeAt
    rw [hn]
  exact congrArg (fun r => (r, s)) hlook

theorem copyNew_run {v : Nat} {s : State} {n : Node} (hn : s.heap.node v = some n)
    (hc : n.content.Copyable linda) :
    copyNew linda copy v s = (copyValues copy n.kids >>= fun rs =>
      Eff.update (fun s' => s'.store s.heap.next ⟨n.typeobj, n.content.withKids rs⟩) >>= fun _ =>
        pure (some s.heap.next)) (s.enter v n) := by
  have hcontent : copyContent linda copy n.content ((s.alloc v).addRefs n.typeobj.toList) =
      (copyValues copy n.kids >>= fun rs => pure (n.content.withKids rs)) (s.enter v n) := by
    rw [copyContent_run n.content hc, State.addRefs_append]
    rfl
  unfold copyNew
  rw [Eff.andThen_ok (nodeAt_run hn)]
  show (addReferenceIf n.typeobj >>= fun _ => copyContent linda copy n.content >>= fun content =>
    Eff.update (fun s' => s'.store s.heap.next ⟨n.typeobj, content⟩) >>= fun _ =>
      pure (some s.heap.next)) (s.alloc v) = _
  rw [Eff.andThen_ok (addReferenceIf_run n.typeobj _), Eff.andThen_congr hcontent,
    Eff.andThen_assoc]
  rfl

theorem copyNew_fails {v : Nat} {s : State} {n : Node} (hn : s.heap.node v = some n)
    (hc : ¬ n.content.Copyable linda) :
    ∃ e, (copyNew linda copy v s).1 = .error e ∧ e ≠ .depth := by
  obtain ⟨e, he, hne⟩ := @copyContent_fails linda copy n.content hc
    ((s.alloc v).addRefs n.typeobj.toList)
  refine ⟨e, ?_, hne⟩
  have hcontent : copyContent linda copy n.content ((s.alloc v).addRefs n.typeobj.toList) =
      (.error e, _) := Prod.ext he rfl
  unfold copyNew
  rw [Eff.andThen_ok (nodeAt_run hn)]
  show ((addReferenceIf n.typeobj >>= fun _ => copyContent linda copy n.content >>= fun content =>
    Eff.update (fun s' => s'.store s.heap.next ⟨n.typeobj, content⟩) >>= fun _ =>
      pure (some s.heap.next)) (s.alloc v)).1 = _
  rw [Eff.andThen_ok (addReferenceIf_run n.typeobj _), Eff.andThen_error hcontent]

theorem lookup_run {v : Nat} {s : State} {o : Option Nat} (hl : s.memo.lookup v = o) :
    (Eff.look (fun s : State => .ok (s.memo.lookup v)) : Run (Option Nat)) s = (.ok o, s) :=
  congrArg (fun r => (Except.ok r, s)) hl

theorem copyInternal_found {depth v nv : Nat} {s : State} (hl : s.memo.lookup v = some nv) :
    copyInternal linda (depth + 1) (some v) s = (.ok (some nv), s.addRefs [nv]) := by
  unfold copyInternal
  rw [Eff.andThen_ok (lookup_run hl)]
  show (addReference (some nv) >>= fun _ => pure (some nv)) s = _
  rw [Eff.andThen_ok (addReference_run nv s)]
  rfl

theorem copyInternal_new {depth v : Nat} {s : State} (hl : s.memo.lookup v = none) :
    copyInternal linda (depth + 1) (some v) s = copyNew linda (copyInternal linda depth) v s := by
  unfold copyInternal
  rw [Eff.andThen_ok (lookup_run hl)]

end

/-! ## What a part of the walk adds -/

/-- The values of the heap are as they were, and there is a number for each copy. -/
structure Inv (h : Heap) (root : Ptr) (s : State) : Prop where
  le : h.next ≤ s.heap.next
  same : ∀ a < h.next, s.heap.node a = h.node a
  numbers : Numbers s.memo h.next s.heap.next
  reached : ∀ v ∈ keys s.memo, h.Reach root v

/-- The pointers `ps` have been copied to `rs`, and the values `new` for that. -/
structure Did (linda : Bool) (h : Heap) (s : State) (ps : List Ptr) (s' : State) (rs : List Ptr)
    (new : List Nat) : Prop where
  grown : s.memo <+: s'.memo
  keys : keys s'.memo = keys s.memo ++ new
  next : s.heap.next ≤ s'.heap.next
  seen : ∀ v, some v ∈ ps → v ∈ Memo.keys s'.memo
  results : rs = ps.map (Option.map (place s'.memo))
  copies : ∀ v ∈ new, ∃ n, h.node v = some n ∧ n.content.Copyable linda ∧
    (∀ w, some w ∈ n.kids → w ∈ Memo.keys s'.memo) ∧
    s'.heap.node (place s'.memo v) = some (n.map (place s'.memo))
  same : ∀ a < s.heap.next, s'.heap.node a = s.heap.node a
  counts : ∀ a < s'.heap.next, s'.heap.refCount a =
    (if a < s.heap.next then s.heap.refCount a else 0) + ((new.flatMap h.outs).count a : Nat) +
      (((ps ++ new.flatMap h.kids).map (Option.map (place s'.memo))).count (some a) : Nat)
  told : s'.heap.told = s.heap.told ++ new.flatMap h.tsids

section
variable {linda : Bool} {h : Heap} {root : Ptr} {s s1 s2 : State} {ps ps1 ps2 rs rs1 rs2 : List Ptr}
  {new new1 new2 : List Nat}

theorem map_place_congr {f g : Nat → Nat} {ps : List Ptr} (hfg : ∀ v, some v ∈ ps → f v = g v) :
    ps.map (Option.map f) = ps.map (Option.map g) := by
  refine List.map_congr_left fun p hp => ?_
  cases p with
  | none => rfl
  | some v => exact congrArg some (hfg v hp)

theorem Node.map_congr {n : Node} {f g : Nat → Nat} (hfg : ∀ v, some v ∈ n.kids → f v = g v) :
    n.map f = n.map g := by
  obtain ⟨typeobj, c⟩ := n
  have hc : c.map f = c.map g := by
    cases c with
    | tuple vs => exact congrArg Content.tuple (map_place_congr hfg)
    | sum p i =>
      have hp := @map_place_congr f g [p] hfg
      exact congrArg (fun q => Content.sum q i) (List.cons.inj hp).1
    | pointer p =>
      have hp := @map_place_congr f g [p] hfg
      exact congrArg Content.pointer (List.cons.inj hp).1
    | _ => rfl
  exact congrArg (Node.mk typeobj) hc

theorem Heap.kids_node {v : Nat} {n : Node} (hn : h.node v = some n) : h.kids v = n.kids := by
  unfold Heap.kids
  rw [hn]
  rfl

theorem Heap.outs_node {v : Nat} {n : Node} (hn : h.node v = some n) : h.outs v = n.outs := by
  unfold Heap.outs
  rw [hn]
  rfl

theorem Heap.tsids_node {v : Nat} {n : Node} (hn : h.node v = some n) :
    h.tsids v = n.content.tsids := by
  unfold Heap.tsids
  rw [hn]
  rfl

theorem Did.nil (s : State) : Did linda h s [] s [] [] where
  grown := List.prefix_rfl
  keys := (List.append_nil _).symm
  next := Nat.le_refl _
  seen _ hv := by cases hv
  results := rfl
  copies _ hv := by cases hv
  same _ _ := rfl
  counts a ha := by
    rw [if_pos ha]
    show _ = s.heap.refCount a + ((0 : Nat) : Int) + ((0 : Nat) : Int)
    omega
  told := (List.append_nil _).symm

theorem Did.null (s : State) : Did linda h s [none] s [none] [] where
  grown := List.prefix_rfl
  keys := (List.append_nil _).symm
  next := Nat.le_refl _
  seen _ hv := by cases List.mem_singleton.1 hv
  results := rfl
  copies _ hv := by cases hv
  same _ _ := rfl
  counts a ha := by
    rw [if_pos ha]
    show _ = s.heap.refCount a + ((0 : Nat) : Int) + ((0 : Nat) : Int)
    omega
  told := (List.append_nil _).symm

/-- What was copied on the way has been entered. -/
theorem Did.seen_all (hd : Did linda h s ps s1 rs new) {v : Nat}
    (hv : some v ∈ ps ++ new.flatMap h.kids) : v ∈ Memo.keys s1.memo := by
  cases List.mem_append.1 hv with
  | inl hv => exact hd.seen v hv
  | inr hv =>
    obtain ⟨u, hu, hv⟩ := List.mem_flatMap.1 hv
    obtain ⟨n, hn, _, hkids, _⟩ := hd.copies u hu
    rw [h.kids_node hn] at hv
    exact hkids v hv

/-- No reference goes to an address that is not in use. -/
theorem Did.unused (hvalid : h.Valid) (hd : Did linda h s ps s1 rs new) (hinv : Inv h root s1)
    {a : Nat} (ha : s1.heap.next ≤ a) : (new.flatMap h.outs).count a = 0 ∧
      ((ps ++ new.flatMap h.kids).map (Option.map (place s1.memo))).count (some a) = 0 := by
  constructor
  · refine List.count_eq_zero_of_not_mem fun hmem => ?_
    obtain ⟨v, hv, hout⟩ := List.mem_flatMap.1 hmem
    obtain ⟨n, hn, _⟩ := hd.copies v hv
    rw [h.outs_node hn] at hout
    have hlt := hvalid.outs hn hout
    have hle := hinv.le
    omega
  · refine List.count_eq_zero_of_not_mem fun hmem => ?_
    obtain ⟨p, hp, he⟩ := List.mem_map.1 hmem
    obtain ⟨v, rfl, hplace⟩ := Option.map_eq_some_iff.1 he
    have hrange := hinv.numbers.range (hd.seen_all hp)
    omega

/-- One part after the other. -/
theorem Did.append (hvalid : h.Valid) (h1 : Did linda h s ps1 s1 rs1 new1) (hinv : Inv h root s1)
    (h2 : Did linda h s1 ps2 s2 rs2 new2) :
    Did linda h s (ps1 ++ ps2) s2 (rs1 ++ rs2) (new1 ++ new2) := by
  have hplace : ∀ v, some v ∈ ps1 ++ new1.flatMap h.kids → place s1.memo v = place s2.memo v :=
    fun v hv => (place_grown h2.grown (h1.seen_all hv)).symm
  have hmap := map_place_congr hplace
  refine ⟨h1.grown.trans h2.grown, ?_, Nat.le_trans h1.next h2.next, fun v hv => ?_, ?_,
    fun v hv => ?_, fun a ha => ?_, fun a ha => ?_, ?_⟩
  · rw [h2.keys, h1.keys, List.append_assoc]
  · cases List.mem_append.1 hv with
    | inl hv => exact keys_grown h2.grown (h1.seen v hv)
    | inr hv => exact h2.seen v hv
  · rw [List.map_append, h2.results, h1.results]
    exact congrArg (· ++ _) (map_place_congr fun v hv => hplace v (List.mem_append_left _ hv))
  · cases List.mem_append.1 hv with
    | inr hv => exact h2.copies v hv
    | inl hv =>
      obtain ⟨n, hn, hc, hkids, hcopy⟩ := h1.copies v hv
      have hkey : v ∈ Memo.keys s1.memo := by
        rw [h1.keys]
        exact List.mem_append_right _ hv
      have hrange := hinv.numbers.range hkey
      refine ⟨n, hn, hc, fun w hw => keys_grown h2.grown (hkids w hw), ?_⟩
      rw [place_grown h2.grown hkey, h2.same _ hrange.2, hcopy]
      exact congrArg some (Node.map_congr fun w hw => (place_grown h2.grown (hkids w hw)).symm)
  · rw [h2.same a (Nat.lt_of_lt_of_le ha h1.next), h1.same a ha]
  · have hsplit : ((ps1 ++ ps2 ++ (new1 ++ new2).flatMap h.kids).map
          (Option.map (place s2.memo))).count (some a) =
        ((ps1 ++ new1.flatMap h.kids).map (Option.map (place s1.memo))).count (some a) +
          ((ps2 ++ new2.flatMap h.kids).map (Option.map (place s2.memo))).count (some a) := by
      rw [hmap, List.flatMap_append]
      simp only [List.map_append, List.count_append]
      omega
    rw [h2.counts a ha, hsplit, List.flatMap_append, List.count_append]
    by_cases hlt : a < s1.heap.next
    · rw [if_pos hlt, h1.counts a hlt]
      omega
    · obtain ⟨hz1, hz2⟩ := h1.unused hvalid hinv (Nat.le_of_not_lt hlt)
      have hnot : ¬ a < s.heap.next := fun hs => hlt (Nat.lt_of_lt_of_le hs h1.next)
      rw [if_neg hlt, if_neg hnot, hz1, hz2]
      omega
  · rw [h2.told, h1.told, List.flatMap_append, List.append_assoc]

/-- A value that has a copy. -/
theorem Did.found {v nv : Nat} (hl : s.memo.lookup v = some nv) :
    Did linda h s [some v] (s.addRefs [nv]) [some nv] [] where
  grown := List.prefix_rfl
  keys := (List.append_nil _).symm
  next := Nat.le_refl _
  seen w hw := by
    cases List.mem_singleton.1 hw
    exact lookup_some hl
  results := by
    have hplace := lookup_place (lookup_some hl)
    rw [hl] at hplace
    exact congrArg (fun p => [p]) hplace
  copies _ hv := by cases hv
  same _ _ := rfl
  counts a ha := by
    have hplace := lookup_place (lookup_some hl)
    rw [hl] at hplace
    cases hplace
    have hlt : a < s.heap.next := ha
    rw [if_pos hlt]
    show s.heap.refCount a + (([place s.memo v].count a : Nat) : Int) =
      s.heap.refCount a + ((0 : Nat) : Int) + (([some (place s.memo v)].count (some a) : Nat) : Int)
    rw [List.count_singleton, List.count_singleton]
    by_cases he : place s.memo v = a
    · subst he
      rw [if_pos (beq_self_eq_true _), if_pos (beq_self_eq_true _)]
      omega
    · have hne : ¬ (some (place s.memo v) == some a) = true := fun hb => by
        cases eq_of_beq hb
        exact he rfl
      rw [if_neg (fun hb => he (eq_of_beq hb)), if_neg hne]
      omega
  told := (List.append_nil _).symm

theorem Inv.enter {v : Nat} {n : Node} (hinv : Inv h root s) (hv : v ∉ Memo.keys s.memo)
    (hr : h.Reach root v) : Inv h root (s.enter v n) where
  le := Nat.le_succ_of_le hinv.le
  same := hinv.same
  numbers := hinv.numbers.snoc hinv.le hv
  reached w hw := by
    have hkeys : Memo.keys (s.enter v n).memo = Memo.keys s.memo ++ [v] := keys_append
    rw [hkeys] at hw
    cases List.mem_append.1 hw with
    | inl hw => exact hinv.reached w hw
    | inr hw => exact List.mem_singleton.1 hw ▸ hr

theorem Inv.store {a : Nat} {n : Node} (hinv : Inv h root s) (ha : h.next ≤ a) :
    Inv h root (s.store a n) where
  le := hinv.le
  same b hb := by
    have hne : b ≠ a := by omega
    exact (if_neg hne).trans (hinv.same b hb)
  numbers := hinv.numbers
  reached := hinv.reached

/-- A value that is copied now: after it is entered its values are copied, and then it is
filled in. -/
theorem Did.made (hvalid : h.Valid) {v : Nat} {n : Node} (hn : h.node v = some n)
    (hc : n.content.Copyable linda) (hinv : Inv h root s) (hv : v ∉ Memo.keys s.memo)
    (hinv2 : Inv h root s2) (hd : Did linda h (s.enter v n) n.kids s2 rs new) :
    Did linda h s [some v] (s2.store s.heap.next ⟨n.typeobj, n.content.withKids rs⟩)
      [some s.heap.next] (v :: new) := by
  have hkeys : Memo.keys s2.memo = Memo.keys s.memo ++ v :: new := by
    rw [hd.keys]
    show Memo.keys (s.memo ++ [(v, s.heap.next)]) ++ new = _
    rw [keys_append, List.append_assoc]
    rfl
  have hmem : v ∈ Memo.keys s2.memo := by
    rw [hkeys]
    exact List.mem_append_right _ List.mem_cons_self
  have hentered : v ∈ Memo.keys (s.enter v n).memo := by
    show v ∈ Memo.keys (s.memo ++ [(v, s.heap.next)])
    rw [keys_append]
    exact List.mem_append_right _ List.mem_cons_self
  have hplace : place s2.memo v = s.heap.next :=
    (place_grown hd.grown hentered).trans (place_snoc hv s.heap.next)
  have hnext : s.heap.next + 1 ≤ s2.heap.next := hd.next
  have hnode : n.content.withKids rs = n.content.map (place s2.memo) := by
    rw [hd.results]
    exact n.content.withKids_map hc (place s2.memo)
  have hnot : v ∉ new := by
    have hnodup := hinv2.numbers.nodup
    rw [hkeys] at hnodup
    exact (List.nodup_cons.1 (List.nodup_append.1 hnodup).2.1).1
  refine ⟨(List.prefix_append _ _).trans hd.grown, hkeys, Nat.le_of_succ_le hnext, fun w hw => ?_, ?_,
    fun w hw => ?_, fun a ha => ?_, fun a ha => ?_, ?_⟩
  · cases List.mem_singleton.1 hw
    exact hmem
  · exact congrArg (fun a => [some a]) hplace.symm
  · cases List.mem_cons.1 hw with
    | inl he =>
      subst he
      refine ⟨n, hn, hc, hd.seen, ?_⟩
      rw [show (s2.store s.heap.next ⟨n.typeobj, n.content.withKids rs⟩).memo = s2.memo from rfl,
        hplace, hnode]
      exact if_pos rfl
    | inr hw =>
      obtain ⟨m, hm, hcm, hkids, hcopy⟩ := hd.copies w hw
      refine ⟨m, hm, hcm, hkids, ?_⟩
      have hwkey : w ∈ Memo.keys s2.memo := by
        rw [hkeys]
        exact List.mem_append_right _ (List.mem_cons_of_mem v hw)
      have hne : place s2.memo w ≠ s.heap.next := fun he => by
        have heq := hinv2.numbers.injective w hwkey v hmem (he.trans hplace.symm)
        exact hnot (heq ▸ hw)
      exact (if_neg hne).trans hcopy
  · have hne : a ≠ s.heap.next := by omega
    have hlt : a < (s.enter v n).heap.next := Nat.lt_succ_of_lt ha
    exact (if_neg hne).trans (hd.same a hlt)
  · have hlt2 : a < s2.heap.next := ha
    have hsplit : (([some v] ++ (v :: new).flatMap h.kids).map
          (Option.map (place s2.memo))).count (some a) =
        [some s.heap.next].count (some a) +
          ((n.kids ++ new.flatMap h.kids).map (Option.map (place s2.memo))).count (some a) := by
      rw [List.flatMap_cons, h.kids_node hn, List.map_append, List.count_append]
      show [some (place s2.memo v)].count (some a) + _ = _
      rw [hplace]
    have hout : ((v :: new).flatMap h.outs).count a =
        n.outs.count a + (new.flatMap h.outs).count a := by
      rw [List.flatMap_cons, h.outs_node hn, List.count_append]
    have hrefs : s2.heap.refCount a = (if a < s.heap.next + 1 then (s.enter v n).heap.refCount a
        else 0) + ((new.flatMap h.outs).count a : Nat) +
        (((n.kids ++ new.flatMap h.kids).map (Option.map (place s2.memo))).count (some a) : Nat) :=
      hd.counts a hlt2
    have hentry : (s.enter v n).heap.refCount a =
        (if a = s.heap.next then 1 else s.heap.refCount a) + ((n.outs.count a : Nat) : Int) := rfl
    show s2.heap.refCount a = _ + (((v :: new).flatMap h.outs).count a : Nat) +
      ((([some v] ++ (v :: new).flatMap h.kids).map (Option.map (place s2.memo))).count (some a) :
        Nat)
    rw [hrefs, hsplit, hout, hentry]
    by_cases hlast : a = s.heap.next
    · subst hlast
      rw [if_pos (Nat.lt_succ_self _), if_pos rfl, if_neg (Nat.lt_irrefl _), List.count_singleton_self]
      omega
    · have hne : ¬ (some s.heap.next == some a) = true := fun hb => by
        cases eq_of_beq hb
        exact hlast rfl
      rw [if_neg hlast, List.count_singleton, if_neg hne]
      by_cases hlt : a < s.heap.next
      · rw [if_pos hlt, if_pos (Nat.lt_succ_of_lt hlt)]
        omega
      · have hzero : n.outs.count a = 0 := by
          refine List.count_eq_zero_of_not_mem fun hmem => ?_
          have hused := hvalid.outs hn hmem
          have hle := hinv.le
          omega
        rw [if_neg hlt, if_neg (by omega), hzero]
        omega
  · have htold : (s.enter v n).heap.told = s.heap.told ++ n.content.tsids := rfl
    show s2.heap.told = _
    rw [hd.told, htold, List.flatMap_cons, h.tsids_node hn, List.append_assoc]

/-! ## The whole walk -/

theorem copyValues_did (hvalid : h.Valid) {copy : Ptr → Run Ptr}
    (hcopy : ∀ {p r s s'}, copy p s = (.ok r, s') → Inv h root s →
      (∀ v, p = some v → h.Reach root v) → ∃ new, Did linda h s [p] s' [r] new ∧ Inv h root s')
    {s' : State} (hrun : copyValues copy ps s = (.ok rs, s')) (hinv : Inv h root s)
    (hps : ∀ v, some v ∈ ps → h.Reach root v) :
    ∃ new, Did linda h s ps s' rs new ∧ Inv h root s' := by
  induction ps generalizing s rs with
  | nil =>
    cases hrun
    exact ⟨[], .nil _, hinv⟩
  | cons p ps ih =>
    obtain ⟨r, t, hr, hrest⟩ := Eff.ok_of_andThen hrun
    obtain ⟨rs', t', hrs, hpure⟩ := Eff.ok_of_andThen hrest
    cases hpure
    obtain ⟨new1, hd1, hinv1⟩ := hcopy hr hinv fun v hv => hps v (hv ▸ List.mem_cons_self)
    obtain ⟨new2, hd2, hinv2⟩ := ih hrs hinv1 fun v hv => hps v (List.mem_cons_of_mem p hv)
    exact ⟨new1 ++ new2, hd1.append hvalid hinv1 hd2, hinv2⟩

/-- What is known of a value that the walk gets to. -/
theorem node_of_reach (hvalid : h.Valid) (hroot : ∀ v, root = some v → (h.node v).isSome) {v : Nat}
    (hr : h.Reach root v) : ∃ n, h.node v = some n := by
  refine Option.isSome_iff_exists.1 ?_
  cases hr with
  | root he => exact hroot v he
  | kid _ hn hkid => exact hvalid.kids hn hkid

section
variable (hvalid : h.Valid) (hroot : ∀ v, root = some v → (h.node v).isSome)
include hvalid hroot

/-- The value at hand, while the walk goes on. -/
theorem Inv.node (hinv : Inv h root s) {v : Nat} (hr : h.Reach root v) :
    ∃ n, h.node v = some n ∧ s.heap.node v = some n := by
  obtain ⟨n, hn⟩ := node_of_reach hvalid hroot hr
  exact ⟨n, hn, (hinv.same v (hvalid.used hn)).trans hn⟩

/-- If the walk comes to an end, it has made copies. -/
theorem copyInternal_did (depth : Nat) {p r : Ptr} {s' : State}
    (hrun : copyInternal linda depth p s = (.ok r, s')) (hinv : Inv h root s)
    (hp : ∀ v, p = some v → h.Reach root v) :
    ∃ new, Did linda h s [p] s' [r] new ∧ Inv h root s' := by
  induction depth generalizing p r s s' with
  | zero =>
    cases p with
    | some v => cases hrun
    | none =>
      cases hrun
      exact ⟨[], .null _, hinv⟩
  | succ depth ih =>
    cases p with
    | none =>
      cases hrun
      exact ⟨[], .null _, hinv⟩
    | some v =>
      cases hl : s.memo.lookup v with
      | some nv =>
        rw [copyInternal_found hl] at hrun
        cases hrun
        exact ⟨[], .found hl, hinv.le, hinv.same, hinv.numbers, hinv.reached⟩
      | none =>
        rw [copyInternal_new hl] at hrun
        have hr := hp v rfl
        have hv := lookup_none.1 hl
        obtain ⟨n, hn, hsn⟩ := hinv.node hvalid hroot hr
        by_cases hc : n.content.Copyable linda
        · rw [copyNew_run hsn hc] at hrun
          obtain ⟨rs, t, hrs, hstore⟩ := Eff.ok_of_andThen hrun
          cases hstore
          obtain ⟨new, hd, hinv2⟩ := copyValues_did hvalid ih hrs (hinv.enter hv hr)
            fun w hw => .kid hr hn hw
          exact ⟨v :: new, .made hvalid hn hc hinv hv hinv2 hd, hinv2.store hinv.le⟩
        · obtain ⟨e, he, _⟩ := @copyNew_fails linda (copyInternal linda depth) _ _ _ hsn hc
          rw [hrun] at he
          cases he

end

end

end PyLinda.Copy
