import Mathlib.Data.List.Forall2

/-!
# Comparisons

A comparison gives a number with a sign. `sign` reads it, and what is said here about signs
holds of comparisons that look at one thing after the other.
-/

namespace Lib

/-- The sign of the number a comparison gives. -/
def sign (c : Int) : Ordering := if c < 0 then .lt else if c = 0 then .eq else .gt

theorem sign_eq {c : Int} : sign c = .eq ↔ c = 0 := by
  unfold sign
  split
  · exact iff_of_false (by decide) (by omega)
  · split
    · exact iff_of_true rfl ‹_›
    · exact iff_of_false (by decide) ‹_›

theorem sign_lt {c : Int} : sign c = .lt ↔ c < 0 := by
  unfold sign
  split
  · exact iff_of_true rfl ‹_›
  · split
    · exact iff_of_false (by decide) ‹_›
    · exact iff_of_false (by decide) ‹_›

theorem sign_gt {c : Int} : sign c = .gt ↔ c > 0 := by
  unfold sign
  split
  · exact iff_of_false (by decide) (by omega)
  · split
    · exact iff_of_false (by decide) (by omega)
    · exact iff_of_true rfl (by omega)

/-- One comparison, and where it finds nothing another. -/
theorem sign_ite (x y : Int) : sign (if x ≠ 0 then x else y) = (sign x).then (sign y) := by
  by_cases hx : x = 0
  · rw [if_neg (not_not_intro hx), sign_eq.2 hx]
    rfl
  · rw [if_pos hx]
    cases h : sign x with
    | eq => exact absurd (sign_eq.1 h) hx
    | lt => rfl
    | gt => rfl

/-- Where one thing is less, greater or the same, seen from both sides. -/
theorem sign_swap {x y : Int} (hlt : x < 0 ↔ 0 < y) (hgt : y < 0 ↔ 0 < x) :
    sign y = (sign x).swap := by
  cases h : sign x with
  | lt =>
    have := sign_lt.1 h
    exact sign_gt.2 (hlt.1 this)
  | eq =>
    have := sign_eq.1 h
    refine sign_eq.2 ?_
    omega
  | gt =>
    have := sign_gt.1 h
    exact sign_lt.2 (hgt.2 this)

/-- `if a < b then -1, if a > b then 1, else 0`. -/
def threeWay (a b : Int) : Int := if a < b then -1 else if a > b then 1 else 0

theorem threeWay_lt {a b : Int} : threeWay a b < 0 ↔ a < b := by
  unfold threeWay
  split
  · omega
  · split <;> omega

theorem threeWay_eq {a b : Int} : threeWay a b = 0 ↔ a = b := by
  unfold threeWay
  split
  · omega
  · split <;> omega

theorem threeWay_gt {a b : Int} : threeWay a b > 0 ↔ b < a := by
  unfold threeWay
  split
  · omega
  · split <;> omega

/-! ## Three things compared -/

/-- Of three things that are compared with each other, what is equal is equal to the third in
the same way, and what is less than the less is less. -/
def Coherent (ab bc ac : Ordering) : Prop :=
  (ab = .eq → ac = bc) ∧ (bc = .eq → ac = ab) ∧ (ab = bc → ac = ab)

theorem Coherent.le_trans {ab bc ac : Ordering} (h : Coherent ab bc ac) (hab : ab ≠ .gt)
    (hbc : bc ≠ .gt) : ac ≠ .gt := by
  cases ab with
  | gt => exact absurd rfl hab
  | eq =>
    rw [h.1 rfl]
    exact hbc
  | lt =>
    cases bc with
    | gt => exact absurd rfl hbc
    | eq =>
      rw [h.2.1 rfl]
      exact hab
    | lt =>
      rw [h.2.2 rfl]
      exact hab

/-- The second comparison only counts where the first finds nothing between the three. -/
theorem Coherent.then {ab bc ac ab' bc' ac' : Ordering} (h : Coherent ab bc ac)
    (h' : ab = .eq → bc = .eq → ac = .eq → Coherent ab' bc' ac') :
    Coherent (ab.then ab') (bc.then bc') (ac.then ac') := by
  obtain ⟨hl, hr, hs⟩ := h
  cases ab with
  | eq =>
    obtain rfl := hl rfl
    cases ac with
    | eq => exact h' rfl rfl rfl
    | lt => cases ab' <;> simp [Coherent, Ordering.then]
    | gt => cases ab' <;> simp [Coherent, Ordering.then]
  | lt =>
    cases bc with
    | eq =>
      obtain rfl := hr rfl
      cases bc' <;> simp [Coherent, Ordering.then]
    | lt =>
      obtain rfl := hs rfl
      simp [Coherent, Ordering.then]
    | gt => simp [Coherent, Ordering.then]
  | gt =>
    cases bc with
    | eq =>
      obtain rfl := hr rfl
      cases bc' <;> simp [Coherent, Ordering.then]
    | gt =>
      obtain rfl := hs rfl
      simp [Coherent, Ordering.then]
    | lt => simp [Coherent, Ordering.then]

/-- The first two are the same. -/
theorem coherent_left (o : Ordering) : Coherent .eq o o := by
  cases o <;> simp [Coherent]

/-- The last two are the same. -/
theorem coherent_right (o : Ordering) : Coherent o .eq o := by
  cases o <;> simp [Coherent]

/-- The outer two are the same. -/
theorem coherent_outer (o : Ordering) : Coherent o o.swap .eq := by
  cases o <;> simp [Coherent]

theorem coherent_eq : Coherent .eq .eq .eq := ⟨fun _ => rfl, fun _ => rfl, fun _ => rfl⟩

/-- The number says how two things lie in an order. -/
structure Orders {α : Type} (lt : α → α → Prop) (c : α → α → Int) : Prop where
  trans : ∀ x y z, lt x y → lt y z → lt x z
  neg : ∀ x y, c x y < 0 ↔ lt x y
  zero : ∀ x y, c x y = 0 ↔ x = y
  pos : ∀ x y, c x y > 0 ↔ lt y x

theorem Orders.swap {α : Type} {lt : α → α → Prop} {c : α → α → Int} (h : Orders lt c) (x y : α) :
    sign (c y x) = (sign (c x y)).swap :=
  sign_swap ((h.neg x y).trans (h.pos y x).symm) ((h.neg y x).trans (h.pos x y).symm)

theorem Orders.coherent {α : Type} {lt : α → α → Prop} {c : α → α → Int} (h : Orders lt c)
    (x y z : α) : Coherent (sign (c x y)) (sign (c y z)) (sign (c x z)) := by
  refine ⟨fun hxy => ?_, fun hyz => ?_, fun hs => ?_⟩
  · cases (h.zero x y).1 (sign_eq.1 hxy)
    rfl
  · cases (h.zero y z).1 (sign_eq.1 hyz)
    rfl
  · cases hxy : sign (c x y) with
    | eq =>
      cases (h.zero x y).1 (sign_eq.1 hxy)
      rw [← hs, hxy]
    | lt =>
      have hyz := sign_lt.1 (hs.symm.trans hxy)
      exact sign_lt.2 ((h.neg x z).2
        (h.trans x y z ((h.neg x y).1 (sign_lt.1 hxy)) ((h.neg y z).1 hyz)))
    | gt =>
      have hyz := sign_gt.1 (hs.symm.trans hxy)
      exact sign_gt.2 ((h.pos x z).2
        (h.trans z y x ((h.pos y z).1 hyz) ((h.pos x y).1 (sign_gt.1 hxy))))

theorem threeWay_orders : Orders (· < ·) threeWay where
  trans _ _ _ := Int.lt_trans
  neg _ _ := threeWay_lt
  zero _ _ := threeWay_eq
  pos _ _ := threeWay_gt

/-! ## Lists -/

/-- Two lists side by side: `P` as far as the elements are alike, and for the first that are
not. -/
inductive Along {α : Type} (P alike : α → α → Prop) : List α → List α → Prop
  | nil (bs : List α) : Along P alike [] bs
  | short (as : List α) : Along P alike as []
  | cons (a b : α) (as bs : List α) : P a b → (alike a b → Along P alike as bs) →
    Along P alike (a :: as) (b :: bs)

section
variable {α : Type} (c : α → α → Ordering)

/-- One element after the other, to the end of the shorter list. -/
def lexi : List α → List α → Ordering
  | a :: as, b :: bs => (c a b).then (lexi as bs)
  | _, _ => .eq

variable {c}

theorem lexi_swap {as bs : List α} (h : ∀ a ∈ as, ∀ b, c b a = (c a b).swap) :
    lexi c bs as = (lexi c as bs).swap := by
  induction as generalizing bs with
  | nil => cases bs <;> rfl
  | cons a as ih =>
    cases bs with
    | nil => rfl
    | cons b bs =>
      have hhead := h a (List.mem_cons_self ..) b
      have htail := @ih bs fun a ha => h a (List.mem_cons_of_mem _ ha)
      show (c b a).then (lexi c bs as) = ((c a b).then (lexi c as bs)).swap
      rw [hhead, htail]
      cases c a b <;> rfl

theorem lexi_eq_iff {alike : α → α → Prop} {as bs : List α}
    (h : ∀ a ∈ as, ∀ b, c a b = .eq ↔ alike a b) (hlen : as.length = bs.length) :
    lexi c as bs = .eq ↔ List.Forall₂ alike as bs := by
  induction as generalizing bs with
  | nil =>
    cases bs with
    | nil => exact iff_of_true rfl .nil
    | cons b bs => cases hlen
  | cons a as ih =>
    cases bs with
    | nil => cases hlen
    | cons b bs =>
      have htail := @ih bs (fun a ha => h a (List.mem_cons_of_mem _ ha)) (Nat.succ.inj hlen)
      have hhead := h a (List.mem_cons_self ..) b
      show (c a b).then (lexi c as bs) = .eq ↔ _
      rw [Ordering.then_eq_eq, hhead, htail]
      constructor
      · intro h
        exact .cons h.1 h.2
      · intro h
        cases h with
        | cons h h' => exact ⟨h, h'⟩

theorem lexi_map {c' : α → α → Ordering} {f : α → α} {as bs : List α}
    (h : ∀ a ∈ as, ∀ b, c (f a) (f b) = c' a b) :
    lexi c (as.map f) (bs.map f) = lexi c' as bs := by
  induction as generalizing bs with
  | nil => cases bs <;> rfl
  | cons a as ih =>
    cases bs with
    | nil => rfl
    | cons b bs =>
      have htail := @ih bs fun a ha => h a (List.mem_cons_of_mem _ ha)
      show (c (f a) (f b)).then (lexi c (as.map f) (bs.map f)) = (c' a b).then (lexi c' as bs)
      rw [h a (List.mem_cons_self ..) b, htail]

theorem along_of_forall {P alike : α → α → Prop} {as bs : List α}
    (h : ∀ a ∈ as, ∀ b ∈ bs, P a b) : Along P alike as bs := by
  induction as generalizing bs with
  | nil => exact .nil bs
  | cons a as ih =>
    cases bs with
    | nil => exact .short _
    | cons b bs =>
      refine .cons a b as bs (h a (List.mem_cons_self ..) b (List.mem_cons_self ..)) fun _ => ?_
      exact ih fun a ha b hb => h a (List.mem_cons_of_mem _ ha) b (List.mem_cons_of_mem _ hb)

theorem lexi_coherent {P alike : α → α → Prop} {as bs ds : List α}
    (h : ∀ a ∈ as, ∀ b d, P a b → P b d → P a d → Coherent (c a b) (c b d) (c a d))
    (heq : ∀ a b, c a b = .eq → alike a b) (hab : Along P alike as bs) (hbd : Along P alike bs ds)
    (had : Along P alike as ds) (hlen : as.length = bs.length) (hlen' : bs.length = ds.length) :
    Coherent (lexi c as bs) (lexi c bs ds) (lexi c as ds) := by
  induction as generalizing bs ds with
  | nil =>
    cases bs with
    | nil => exact coherent_eq
    | cons b bs => cases hlen
  | cons a as ih =>
    cases hab with
    | short => cases hlen
    | cons _ b _ bs hPab hab =>
      cases hbd with
      | short => cases hlen'
      | cons _ d _ ds hPbd hbd =>
        cases had with
        | cons _ _ _ _ hPad had =>
          refine (h a (List.mem_cons_self ..) b d hPab hPbd hPad).then fun h1 h2 h3 => ?_
          exact ih (fun a ha => h a (List.mem_cons_of_mem _ ha)) (hab (heq a b h1))
            (hbd (heq b d h2)) (had (heq a d h3)) (Nat.succ.inj hlen) (Nat.succ.inj hlen')

end

end Lib
