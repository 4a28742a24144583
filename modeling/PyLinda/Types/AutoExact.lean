import PyLinda.Types.AutoSound

/-!
# When what is found is structurally equal

The comparison by induction on the depth; the structural equality of what was found from the pairs
that it left behind.
-/

namespace PyLinda.Types.Auto

open Lib

section
variable {g : Registry} {objs : Objects}

/-! ## The parts -/

theorem mem_zip_items {type1 : Part} {t : LindaType} {specs specs' : List TypeSpec} {k : Nat}
    {spec spec' : TypeSpec} (hk : specs[k]? = some spec) (hk' : specs'[k]? = some spec') :
    ((⟨type1.addr, type1.path ++ [k], spec⟩, .old (t.branch spec')) : Part × Known) ∈
      (type1.items specs).zip ((Known.old t).items specs') := by
  apply List.mem_iff_getElem?.mpr
  refine ⟨k, List.getElem?_zip_eq_some.mpr ⟨?_, ?_⟩⟩
  · unfold Part.items
    rw [List.getElem?_mapIdx, hk]
    rfl
  · unfold Known.items
    rw [List.getElem?_map, hk']
    rfl

theorem of_mem_zip_items {type1 : Part} {t : LindaType} {specs specs' : List TypeSpec}
    {e : Part × Known} (h : e ∈ (type1.items specs).zip ((Known.old t).items specs')) :
    ∃ (k : Nat) (spec spec' : TypeSpec), specs[k]? = some spec ∧ specs'[k]? = some spec' ∧
      e = (⟨type1.addr, type1.path ++ [k], spec⟩, .old (t.branch spec')) := by
  obtain ⟨k, hk⟩ := List.mem_iff_getElem?.mp h
  obtain ⟨h₁, h₂⟩ := List.getElem?_zip_eq_some.mp hk
  unfold Part.items at h₁
  unfold Known.items at h₂
  rw [List.getElem?_mapIdx] at h₁
  rw [List.getElem?_map] at h₂
  cases hs : specs[k]? with
  | none =>
    rw [hs] at h₁
    cases h₁
  | some spec =>
    cases hs' : specs'[k]? with
    | none =>
      rw [hs'] at h₂
      cases h₂
    | some spec' =>
      rw [hs] at h₁
      rw [hs'] at h₂
      refine ⟨k, spec, spec', hs, hs', ?_⟩
      exact Prod.ext (Option.some.inj h₁).symm (Option.some.inj h₂).symm

theorem fits_items {type2 : Known} {specs specs' : List TypeSpec} {type1 : Part}
    (h : ∀ t, type2 = .old t → AllSettled g.generate specs') :
    ∀ e ∈ (type1.items specs).zip (type2.items specs'), Fits g e.2 := by
  intro e he
  cases type2 with
  | new p =>
    have hm : e.2 ∈ (p.items specs').map Known.new := (List.of_mem_zip he).2
    obtain ⟨q, -, hq⟩ := List.mem_map.mp hm
    rw [← hq]
    trivial
  | old t =>
    obtain ⟨k, spec, spec', -, hk', rfl⟩ := of_mem_zip_items he
    exact (h t rfl).get hk'

/-- The loop over the parts. -/
theorem eachEq_inv {eq : Part → Known → Run Bool} (heq : Decides g objs eq) :
    ∀ {l : List (Part × Known)} {s s' : State} {r : Bool}, (∀ e ∈ l, Fits g e.2) → Kept g s →
    eachEq eq l s = (.ok r, s') → Kept g s' ∧ (r = true → Grows g objs s s' ∧
      (∀ e ∈ l, ∀ t, e.2 = .old t → Backed s' ⟨e.1.addr, e.1.typeSpec, t⟩) ∧
      ((∀ e ∈ l, ∃ t, e.2 = .old t ∧ g.PairEqual objs ⟨e.1.addr, e.1.typeSpec, t⟩) →
        NewEqual g objs s s')) := by
  intro l
  induction l with
  | nil =>
    intro s s' r _ hk h
    cases h
    exact ⟨hk, fun _ => ⟨.same rfl rfl, fun e he => (List.not_mem_nil he).elim,
      fun _ => .same rfl⟩⟩
  | cons e l ih =>
    intro s s' r hf hk h
    obtain ⟨type1, type2⟩ := e
    rw [eachEq] at h
    obtain ⟨r₁, s₁, h₁, h₂⟩ := Eff.ok_of_andThen h
    have hd := heq type1 type2 s r₁ s₁ (hf _ List.mem_cons_self) hk h₁
    cases r₁ with
    | false =>
      cases h₂
      exact ⟨hd.kept, fun hr => by cases hr⟩
    | true =>
      obtain ⟨hk', hr⟩ := ih (fun e he => hf e (List.mem_cons_of_mem _ he)) hd.kept h₂
      refine ⟨hk', fun hr' => ?_⟩
      obtain ⟨hg, hb, he⟩ := hr hr'
      refine ⟨(hd.grows rfl).trans hg, fun e hm t ht => ?_, fun hp => ?_⟩
      · rcases List.mem_cons.mp hm with rfl | hm
        · exact hg.backed (hd.backed rfl t ht)
        · exact hb e hm t ht
      · obtain ⟨t, ht, hp₁⟩ := hp _ List.mem_cons_self
        exact (hd.equal rfl t ht hp₁).trans (he fun e hm => hp e (List.mem_cons_of_mem _ hm))

variable (g objs) in
/-- What is known of a comparison of specifications that ends. -/
structure Judged (type1 : Part) (type2 : Known) (spec spec' : TypeSpec) (s : State) (r : Bool)
    (s' : State) : Prop where
  kept : Kept g s'
  grows : r = true → Grows g objs s s'
  stands : r = true → ∀ t, type2 = .old t →
    StandsOn g objs (Backed s') type1.addr t spec spec'
  equal : r = true → ∀ t, type2 = .old t → (objs type1.addr).typeName = t.typeName →
    Matches (g.Equal objs) (objs type1.addr).typemap spec spec' → NewEqual g objs s s'

theorem Judged.no {type1 : Part} {type2 : Known} {spec spec' : TypeSpec} {s s' : State}
    (hk : Kept g s') : Judged g objs type1 type2 spec spec' s false s' where
  kept := hk
  grows h := by cases h
  stands h := by cases h
  equal h := by cases h

/-- Where nothing is compared any further. -/
theorem Judged.here {type1 : Part} {type2 : Known} {spec spec' : TypeSpec} {s : State} {r : Bool}
    (hk : Kept g s)
    (h : r = true → ∀ t, StandsOn g objs (Backed s) type1.addr t spec spec') :
    Judged g objs type1 type2 spec spec' s r s where
  kept := hk
  grows _ := .same rfl rfl
  stands hr t _ := h hr t
  equal _ _ _ _ _ := .same rfl

/-- Products and sums. -/
theorem Judged.of_branches {eq : Part → Known → Run Bool} (heq : Decides g objs eq) {type1 : Part}
    {type2 : Known} {spec spec' : TypeSpec} {specs specs' : List TypeSpec}
    (hset : ∀ t, type2 = .old t → AllSettled g.generate specs')
    (hstand : ∀ B a t, (specs.length = specs'.length ∧ ∀ (k : Nat) spec spec',
      specs[k]? = some spec → specs'[k]? = some spec' → B ⟨a, spec, t.branch spec'⟩) →
      StandsOn g objs B a t spec spec')
    (hmatch : ∀ R typemap, Matches R typemap spec spec' → AllMatch R typemap specs specs')
    {s s' : State} {r : Bool} (hk : Kept g s)
    (h : (if specs.length ≠ specs'.length then pure false
      else eachEq eq ((type1.items specs).zip (type2.items specs')) : Run Bool) s = (.ok r, s')) :
    Judged g objs type1 type2 spec spec' s r s' := by
  by_cases hl : specs.length = specs'.length
  · rw [if_neg (not_not_intro hl)] at h
    obtain ⟨hk', hr⟩ := eachEq_inv heq (fits_items hset) hk h
    refine ⟨hk', fun ht => (hr ht).1, ?_, ?_⟩
    · rintro ht t rfl
      apply hstand
      refine ⟨hl, fun k a a' ha ha' => ?_⟩
      exact (hr ht).2.1 _ (mem_zip_items ha ha') _ rfl
    · rintro ht t rfl hn hm
      refine (hr ht).2.2 fun e he => ?_
      obtain ⟨k, a, a', ha, ha', rfl⟩ := of_mem_zip_items he
      exact ⟨t.branch a', rfl, hn, (hmatch _ _ hm).get ha ha'⟩
  · rw [if_pos hl] at h
    cases h
    exact .no hk

theorem subscript_inv {a b : Nat} {n : String} {s s' : State}
    (h : (Eff.look fun _ => subscript objs a n) s = (.ok b, s')) :
    (objs a).typemap n = some b ∧ s' = s := by
  obtain ⟨hb, rfl⟩ := Prod.mk.inj h
  refine ⟨?_, rfl⟩
  unfold subscript at hb
  cases hn : (objs a).typemap n with
  | none =>
    simp only [hn] at hb
    cases hb
  | some c =>
    simp only [hn] at hb
    cases hb
    rfl

/-- Names: what the first one stands for is found under the id of the second one. -/
theorem Judged.of_find {find : Nat → Run String} (hfind : Finder g objs find) {type1 : Part}
    {type2 : Known} {n m : String} {i j : Option String} (hn : n ∉ builtin)
    (hset : ∀ t, type2 = .old t → Settled g.generate (.id m j))
    (hid : ∀ s t, type2 = .old t → type2.idTypeId s = j) {s s' : State} {r : Bool}
    (hk : Kept g s)
    (h : typeEqName objs find type1 n type2 s = (.ok r, s')) :
    Judged g objs type1 type2 (.id n i) (.id m j) s r s' := by
  unfold typeEqName at h
  obtain ⟨b, s₁, hs, h₁⟩ := Eff.ok_of_andThen h
  obtain ⟨hb, rfl⟩ := subscript_inv hs
  obtain ⟨x, s₂, hx, h₂⟩ := Eff.ok_of_andThen h₁
  have hx := hfind b s₁ x s₂ hk hx
  obtain ⟨id, s₃, hi, h₃⟩ := Eff.ok_of_andThen h₂
  cases hi
  by_cases he : some x = type2.idTypeId s₂
  · rw [if_pos he] at h₃
    obtain ⟨u, s₄, hs, h₄⟩ := Eff.ok_of_andThen h₃
    cases hs
    cases h₄
    refine ⟨hx.kept.congr rfl, fun _ => hx.grows.trans (.same rfl rfl), ?_, ?_⟩
    · intro _ t ht
      rw [hid s₂ t ht] at he
      subst he
      obtain ⟨hbu, hgen⟩ := hset t ht
      rw [StandsOn, if_neg hn]
      refine ⟨fun hm => (Option.some_ne_none x (hbu hm)).elim, b, x, ?_⟩
      cases hl : g.types.lookup x with
      | none =>
        obtain ⟨k, hk⟩ := hx.generated hl
        exact absurd (congrArg some hk) (hgen k)
      | some u => exact ⟨u, hb, rfl, rfl, hx.backed u hl⟩
    · intro _ t ht _ hm
      rw [hid s₂ t ht] at he
      subst he
      rw [Matches, if_neg hn] at hm
      obtain ⟨-, a, y, ha, hy, hq⟩ := hm
      rw [hb] at ha
      cases ha
      cases hy
      obtain ⟨u, hu, hp⟩ := Registry.pairEqual_of_equal objs hq
      exact (hx.equal u hu hp).trans (.same rfl)
  · rw [if_neg he] at h₃
    cases h₃
    exact .no hx.kept

theorem typeEqSpecs_judged {eq : Part → Known → Run Bool} {find : Nat → Run String}
    (heq : Decides g objs eq) (hfind : Finder g objs find) {type1 : Part} {type2 : Known}
    {spec spec' : TypeSpec} {s s' : State} {r : Bool}
    (hset : ∀ t, type2 = .old t → t.typeSpec = spec' ∧ Settled g.generate spec')
    (hk : Kept g s) (h : typeEqSpecs objs eq find type1 type2 spec spec' s = (.ok r, s')) :
    Judged g objs type1 type2 spec spec' s r s' := by
  cases spec with
  | nil =>
    cases spec' with
    | nil =>
      cases h
      exact .here hk fun _ _ => trivial
    | _ =>
      cases h
      exact .no hk
  | id n i =>
    cases spec' with
    | id m j =>
      rw [typeEqSpecs] at h
      by_cases hb : n ∈ builtin
      · rw [if_pos hb] at h
        cases h
        refine .here hk fun hr t => ?_
        rw [StandsOn, if_pos hb]
        exact eq_of_beq hr
      · rw [if_neg hb] at h
        refine .of_find hfind hb (fun t ht => (hset t ht).2) (fun s t ht => ?_) hk h
        obtain ⟨hspec, -⟩ := hset t ht
        subst ht
        show t.idTypeId = j
        unfold LindaType.idTypeId
        rw [hspec]
    | _ =>
      cases h
      exact .no hk
  | product branches =>
    cases spec' with
    | product branches' =>
      have hall : ∀ t, type2 = .old t → AllSettled g.generate branches' :=
        fun t ht => (hset t ht).2
      refine Judged.of_branches heq hall (fun B a t hs => ?_) (fun R typemap hm => ?_) hk h
      · exact hs
      · exact hm
    | _ =>
      cases h
      exact .no hk
  | sum branches =>
    cases spec' with
    | sum branches' =>
      have hall : ∀ t, type2 = .old t → AllSettled g.generate branches' :=
        fun t ht => (hset t ht).2
      refine Judged.of_branches heq hall (fun B a t hs => ?_) (fun R typemap hm => ?_) hk h
      · exact hs
      · exact hm
    | _ =>
      cases h
      exact .no hk
  | pointer n i =>
    cases h
    exact .no hk
  | function arg result =>
    cases h
    exact .no hk

theorem typeEqBy_judged {eq : Part → Known → Run Bool} {find : Nat → Run String}
    (heq : Decides g objs eq) (hfind : Finder g objs find) {type1 : Part} {type2 : Known}
    {s s' : State} {r : Bool} (hf : Fits g type2) (hk : Kept g s)
    (h : typeEqBy objs eq find type1 type2 s = (.ok r, s')) :
    (r = true → (objs type1.addr).typeName = type2.typeName objs) ∧
      Judged g objs type1 type2 type1.typeSpec type2.typeSpec s r s' := by
  unfold typeEqBy at h
  by_cases hn : (objs type1.addr).typeName = type2.typeName objs
  · rw [if_neg (not_not_intro hn)] at h
    refine ⟨fun _ => hn, typeEqSpecs_judged heq hfind ?_ hk h⟩
    rintro t rfl
    exact ⟨rfl, hf⟩
  · rw [if_pos hn] at h
    cases h
    refine ⟨fun hr => ?_, .no hk⟩
    cases hr

/-! ## The comparison -/

theorem Decided.of_answer {type1 : Part} {type2 : Known} {s : State} (hk : Kept g s) :
    Decided g objs type1 type2 s true { s with
      answered := (pairOf type1 type2).toList.map (fun p => (p, s.live)) ++ s.answered } where
  kept := hk.congr rfl
  failed h := by cases h
  grows _ := {
    live := fun _ hp => hp
    answered := fun _ hx => List.mem_append_right _ hx
    stands := fun _ hp => .inl hp }
  backed _ t ht := by
    subst ht
    by_cases hp : (⟨type1.addr, type1.typeSpec, t⟩ : Pair) ∈ s.live
    · exact .inl hp
    · exact .inr ⟨s.live, List.mem_append_left _ (List.mem_singleton.mpr rfl), hp⟩
  equal _ t ht hp := by
    subst ht
    intro q ⟨live, hx, hn⟩
    rcases List.mem_append.mp hx with hx | hx
    · cases List.mem_singleton.mp hx
      exact .inr hp
    · exact .inl ⟨live, hx, hn⟩

theorem Decided.of_forget {type1 : Part} {type2 : Known} {s s' : State} (hk : Kept g s') :
    Decided g objs type1 type2 s false
      { s' with live := s.live, answered := s.answered } where
  kept := hk.congr rfl
  failed _ := ⟨rfl, rfl⟩
  grows h := by cases h
  backed h := by cases h
  equal h := by cases h

theorem Decided.of_judged {type1 : Part} {type2 : Known} {s s₁ s' : State}
    (h : Judged g objs type1 type2 type1.typeSpec type2.typeSpec s₁ true s')
    (hl : s₁.live = (pairOf type1 type2).toList ++ s.live) (ha : s₁.answered = s.answered)
    (hn : (objs type1.addr).typeName = type2.typeName objs) :
    Decided g objs type1 type2 s true s' where
  kept := h.kept
  failed hr := by cases hr
  grows _ := {
    live := fun p hp => (h.grows rfl).live p (by rw [hl]; exact List.mem_append_right _ hp)
    answered := fun x hx => (h.grows rfl).answered x (by rwa [ha])
    stands := fun p hp => by
      rcases (h.grows rfl).stands p hp with hp | hp
      · rw [hl] at hp
        rcases List.mem_append.mp hp with hp | hp
        · cases type2 with
          | new q => exact (List.not_mem_nil hp).elim
          | old t =>
            rw [List.mem_singleton.mp hp]
            exact .inr ⟨hn, h.stands rfl t rfl⟩
        · exact .inl hp
      · exact .inr hp }
  backed _ t ht := by
    subst ht
    refine .inl ((h.grows rfl).live _ ?_)
    rw [hl]
    exact List.mem_append_left _ (List.mem_singleton.mpr rfl)
  equal _ t ht hp := by
    subst ht
    exact (NewEqual.same ha).trans (h.equal rfl t rfl hp.1 hp.2)

/-- Every comparison leaves only pairs behind that stand. -/
theorem typeEq_decides (order : List String → List String) (depth : Nat) :
    Decides g objs (typeEq objs g.generate order depth) := by
  induction depth with
  | zero =>
    intro type1 type2 s r s' _ _ h
    cases h
  | succ depth ih =>
    intro type1 type2 s r s' hf hk h
    rw [typeEq] at h
    obtain ⟨known, s₁, hm, h₁⟩ := Eff.ok_of_andThen h
    obtain ⟨-, rfl⟩ := Prod.mk.inj hm
    cases known with
    | true =>
      obtain ⟨u, s₂, ha, h₂⟩ := Eff.ok_of_andThen h₁
      cases ha
      cases h₂
      exact .of_answer hk
    | false =>
      obtain ⟨noted, s₂, hs, h₂⟩ := Eff.ok_of_andThen h₁
      cases hs
      obtain ⟨u, s₃, hr, h₃⟩ := Eff.ok_of_andThen h₂
      cases hr
      obtain ⟨r', s₄, hb, h₄⟩ := Eff.ok_of_andThen h₃
      have hk₃ : Kept g { s with
          memo := (type1, type2) :: s.memo, live := (pairOf type1 type2).toList ++ s.live } :=
        hk.congr rfl
      obtain ⟨hn, hj⟩ := typeEqBy_judged ih (findTypeBy_found ih depth) hf hk₃ hb
      cases r' with
      | true =>
        cases h₄
        exact .of_judged hj rfl rfl (hn rfl)
      | false =>
        obtain ⟨u, s₅, hfo, h₅⟩ := Eff.ok_of_andThen h₄
        cases hfo
        cases h₅
        exact .of_forget hj.kept

/-! ## What is found -/

/-- Types that are there are related where they are structurally equal or live. -/
def Related (g : Registry) (objs : Objects) (s : State) (a : Nat) (i : String) : Prop :=
  ∃ t, g.types.lookup i = some t ∧
    (g.Equal objs a i ∨ (⟨a, (objs a).typeSpec, t⟩ : Pair) ∈ s.live)

section
variable {s : State}

theorem related_of_backed (hstale : ∀ p, s.Stale p → g.PairEqual objs p) {a : Nat} {i : String}
    {t : LindaType} (ht : g.types.lookup i = some t) (h : Backed s ⟨a, (objs a).typeSpec, t⟩) :
    Related g objs s a i := by
  refine ⟨t, ht, ?_⟩
  rcases h with h | h
  · exact .inr h
  · exact .inl (Registry.equal_of_pairEqual objs ht (hstale _ h))

theorem Related.of_equal {a : Nat} {i : String} (h : g.Equal objs a i) : Related g objs s a i := by
  obtain ⟨t, ht, -⟩ := Registry.pairEqual_of_equal objs h
  exact ⟨t, ht, .inl h⟩

mutual

/-- By induction on the specification: a pair that is backed is made alike of related types. -/
theorem matches_of_backed (hstand : ∀ p ∈ s.live, Stands g objs (Backed s) p)
    (hstale : ∀ p, s.Stale p → g.PairEqual objs p) : ∀ (spec : TypeSpec) (a : Nat) (t : LindaType),
    Backed s ⟨a, spec, t⟩ → Matches (Related g objs s) (objs a).typemap spec t.typeSpec
  | spec, a, t, .inr h => (hstale _ h).2.mono fun _ _ => Related.of_equal
  | .nil, a, t, .inl h => by
    have hs : StandsOn g objs (Backed s) a t .nil t.typeSpec := (hstand _ h).2
    cases ht : t.typeSpec with
    | nil => trivial
    | _ =>
      rw [ht] at hs
      exact hs.elim
  | .id n i, a, t, .inl h => by
    have hs : StandsOn g objs (Backed s) a t (.id n i) t.typeSpec := (hstand _ h).2
    cases ht : t.typeSpec with
    | id m j =>
      rw [ht, StandsOn] at hs
      rw [Matches]
      by_cases hn : n ∈ builtin
      · rw [if_pos hn] at hs ⊢
        exact hs
      · rw [if_neg hn] at hs ⊢
        obtain ⟨hm, b, j', u, hb, hj, hu, hB⟩ := hs
        exact ⟨hm, b, j', hb, hj, related_of_backed hstale hu hB⟩
    | _ =>
      rw [ht] at hs
      exact hs.elim
  | .product branches, a, t, .inl h => by
    have hs : StandsOn g objs (Backed s) a t (.product branches) t.typeSpec := (hstand _ h).2
    cases ht : t.typeSpec with
    | product branches' =>
      rw [ht] at hs
      exact allMatch_of_backed hstand hstale branches branches' a t hs.1 hs.2
    | _ =>
      rw [ht] at hs
      exact hs.elim
  | .sum branches, a, t, .inl h => by
    have hs : StandsOn g objs (Backed s) a t (.sum branches) t.typeSpec := (hstand _ h).2
    cases ht : t.typeSpec with
    | sum branches' =>
      rw [ht] at hs
      exact allMatch_of_backed hstand hstale branches branches' a t hs.1 hs.2
    | _ =>
      rw [ht] at hs
      exact hs.elim
  | .pointer n i, a, t, .inl h => by
    have hs : StandsOn g objs (Backed s) a t (.pointer n i) t.typeSpec := (hstand _ h).2
    exact hs.elim
  | .function arg result, a, t, .inl h => by
    have hs : StandsOn g objs (Backed s) a t (.function arg result) t.typeSpec := (hstand _ h).2
    exact hs.elim

theorem allMatch_of_backed (hstand : ∀ p ∈ s.live, Stands g objs (Backed s) p)
    (hstale : ∀ p, s.Stale p → g.PairEqual objs p) : ∀ (specs specs' : List TypeSpec) (a : Nat)
    (t : LindaType),
    specs.length = specs'.length →
    (∀ (k : Nat) spec spec', specs[k]? = some spec → specs'[k]? = some spec' →
      Backed s ⟨a, spec, t.branch spec'⟩) →
    AllMatch (Related g objs s) (objs a).typemap specs specs'
  | [], [], _, _, _, _ => trivial
  | spec :: specs, spec' :: specs', a, t, hl, h =>
    ⟨matches_of_backed hstand hstale spec a (t.branch spec') (h 0 spec spec' rfl rfl),
      allMatch_of_backed hstand hstale specs specs' a t (Nat.succ.inj hl) fun k x y hx hy =>
        h (k + 1) x y hx hy⟩

end

theorem closed_related (hstand : ∀ p ∈ s.live, Stands g objs (Backed s) p)
    (hstale : ∀ p, s.Stale p → g.PairEqual objs p) : g.Closed objs (Related g objs s) := by
  intro a i ⟨t, ht, h⟩
  rcases h with h | h
  · obtain ⟨u, hu, hn, hm⟩ := Registry.pairEqual_of_equal objs h
    exact ⟨u, hu, hn, hm.mono fun _ _ => Related.of_equal⟩
  · exact ⟨t, ht, (hstand _ h).1, matches_of_backed hstand hstale _ a t (.inl h)⟩

end

/-- The comparison that succeeds last is the one that counts: it begins with an empty memo. -/
theorem decided_of_finds {order : List String → List String} {ids : Nat → List Nat → Option String}
    {depth a : Nat} {i : String} {s' : State} (h : Finds g objs order ids depth a i s') :
    ∃ s t, s.live = [] ∧ s.answered = [] ∧ g.types.lookup i = some t ∧
      Decided g objs (root objs a) (.old t) s true s' := by
  obtain ⟨h, t, ht⟩ := h
  have hstep : ∀ k s s' r, Kept g s → Fits g k →
      typeEqAnew objs g.generate order depth (root objs a) k s = (.ok r, s') →
      Decided g objs (root objs a) k { s with memo := [], live := [], answered := [] } r s' := by
    intro k s s' r hk hf he
    obtain ⟨u, s₁, hu, he⟩ := Eff.ok_of_andThen he
    cases hu
    exact typeEq_decides order depth _ k _ r s' hf (hk.congr rfl) he
  unfold findType findTypeBy at h
  obtain ⟨ts, s₁, hts, h₁⟩ := Eff.ok_of_andThen h
  cases hts
  obtain ⟨found, s₂, hs, h₂⟩ := Eff.ok_of_andThen h₁
  rcases search_inv (R := fun _ _ => True) (fun _ => trivial) (fun _ _ _ _ _ => trivial)
    (fun k s s' hk hf he => ⟨(hstep k s s' false hk hf he).kept, trivial⟩)
    (kept_start g ids) hs with ⟨rfl, hk, -⟩ | ⟨j, s₃, k, rfl, hk, -, hc, he⟩
  · obtain ⟨r, s₃, hreg, h₃⟩ := Eff.ok_of_andThen h₂
    cases h₃
    obtain ⟨-, hi, -⟩ := registerAllTypes_registers objs depth a []
      (fun e he => (List.not_mem_nil he).elim) s₂ r s' hreg
    rw [hi.lookup] at ht
    cases ht
  · cases h₂
    have hf := fits_of_cache hk hc
    rw [hk.old i t ht] at hc
    cases hc
    exact ⟨_, t, rfl, rfl, ht, hstep _ s₃ s' true hk hf he⟩

end

/-! ## A type that is not the one that is found -/

/-- `A` was registered twice, the second time with `T`. -/
def twice : Registry where
  types := [("Tt", ⟨"T", .id "A" (some "Tb"), some "Tt"⟩),
    ("Ta", ⟨"A", .id "int16" none, some "Ta"⟩), ("Tb", ⟨"A", .id "int16" none, some "Tb"⟩)]
  generate := fun _ => "0"
  unused := by
    intro e he k
    simp only [List.mem_cons, List.not_mem_nil, or_false] at he
    rcases he with rfl | rfl | rfl <;> decide
  settled := by
    intro e he
    simp only [List.mem_cons, List.not_mem_nil, or_false] at he
    rcases he with rfl | rfl | rfl
    · refine ⟨by decide, fun k => ?_⟩
      show some "Tb" ≠ some "T0"
      decide
    · exact ⟨fun _ => rfl, fun k => (Option.some_ne_none _).symm⟩
    · exact ⟨fun _ => rfl, fun k => (Option.some_ne_none _).symm⟩

/-- `T` again, but with another `A`. -/
def other : Objects
  | 0 => ⟨"T", .id "A" none, fun n => if n = "A" then some 1 else none⟩
  | _ => ⟨"A", .id "int8" none, fun _ => none⟩

theorem other_found : ∃ s', Finds twice other id (fun _ _ => none) 3 0 "Tt" s' :=
  ⟨_, rfl, _, rfl⟩

end PyLinda.Types.Auto
