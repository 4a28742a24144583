import Mathlib.Data.List.Perm.Basic
import PyLinda.Types.LindaType

/-!
# Isomorphic types

What the comparison is for. Two types are isomorphic if a relation holds of them under which
names stand for what they denote, products are lists of parts in their order, sums are
collections of parts, and pointers and functions are compared component by component.
-/

namespace PyLinda.Types

/-- `Minimal_isBuiltIn`. -/
def isBuiltIn (typeName : String) : Prop :=
  typeName ∈ ["int8", "int16", "int32", "int64", "uint8", "uint16", "uint32", "uint64",
    "ieeesingle", "ieeedouble", "bool", "asciichar", "unicodechar", "string", "type", "tuplespace"]

instance (typeName : String) : Decidable (isBuiltIn typeName) :=
  inferInstanceAs (Decidable (typeName ∈ _))

section
variable (c : TypeCache)

/-- The type that a user's name stands for. -/
def denoted (t : LindaType) : Option LindaType :=
  match t.typeSpec with
  | .id id (some i) => if id ∈ builtin then none else c i
  | _ => none

/-- `t` with the names in front of it unfolded. -/
inductive Unfolds : LindaType → LindaType → Prop
  | done (t : LindaType) : denoted c t = none → Unfolds t t
  | name (t nt s : LindaType) : denoted c t = some nt → Unfolds nt s → Unfolds t s

/-- `l` are the parts of `t`, where a part that is itself a product (or a sum, as `items`
says), or the name of one, may have been replaced by its parts. -/
inductive Parts (items : LindaType → Option (List LindaType)) : LindaType → List LindaType → Prop
  | whole (t : LindaType) : Parts items t [t]
  | name (t nt : LindaType) (l : List LindaType) : denoted c t = some nt → Parts items nt l →
    Parts items t l
  | nested (t : LindaType) (ts : List LindaType) (ls : List (List LindaType)) :
    items t = some ts → List.Forall₂ (Parts items) ts ls → Parts items t ls.flatten

/-- The parts of the items of `t`. -/
def ItemParts (items : LindaType → Option (List LindaType)) (t : LindaType) (l : List LindaType) :
    Prop :=
  ∃ ts ls, items t = some ts ∧ List.Forall₂ (Parts c items) ts ls ∧ l = ls.flatten

end

def productItems (t : LindaType) : Option (List LindaType) :=
  if t.isProductType then some t.items else none

def sumItems (t : LindaType) : Option (List LindaType) :=
  if t.isSumType then some t.items else none

section
variable (c : TypeCache) (R : LindaType → LindaType → Prop)

/-- The types agree, neither of them a user's name, and what is in them is related. -/
inductive Heads : LindaType → LindaType → Prop
  | builtIn (t1 t2 : LindaType) (id : String) (i1 i2 : Option String) : t1.typeSpec = .id id i1 →
    t2.typeSpec = .id id i2 → isBuiltIn id → Heads t1 t2
  | nil (t1 t2 : LindaType) : t1.typeSpec = .nil → t2.typeSpec = .nil → Heads t1 t2
  | product (t1 t2 : LindaType) (l1 l2 : List LindaType) : ItemParts c productItems t1 l1 →
    ItemParts c productItems t2 l2 → List.Forall₂ R l1 l2 → Heads t1 t2
  | sum (t1 t2 : LindaType) (l1 l2 l : List LindaType) : ItemParts c sumItems t1 l1 →
    ItemParts c sumItems t2 l2 → l.Perm l2 → List.Forall₂ R l1 l → Heads t1 t2
  | pointer (t1 t2 n1 n2 : LindaType) (ptr1 ptr2 i1 i2 : String) :
    t1.typeSpec = .pointer ptr1 (some i1) → t2.typeSpec = .pointer ptr2 (some i2) →
    c i1 = some n1 → c i2 = some n2 → R n1 n2 → Heads t1 t2
  | function (t1 t2 : LindaType) (arg1 result1 arg2 result2 : TypeSpec) :
    t1.typeSpec = .function arg1 result1 → t2.typeSpec = .function arg2 result2 →
    R (t1.branch arg1) (t2.branch arg2) → R (t1.branch result1) (t2.branch result2) → Heads t1 t2

/-- The names in front are unfolded, finitely many, and then the types agree. -/
def IsoStep (t1 t2 : LindaType) : Prop :=
  ∃ s1 s2, Unfolds c t1 s1 ∧ Unfolds c t2 s2 ∧ Heads c R s1 s2

end

/-- Isomorphism of types: the greatest relation that keeps on agreeing. -/
def Iso (c : TypeCache) (t1 t2 : LindaType) : Prop :=
  ∃ R, (∀ u1 u2, R u1 u2 → IsoStep c R u1 u2) ∧ R t1 t2

section
variable {c : TypeCache}

/-- Unfolding names is deterministic. -/
theorem Unfolds.unique {t s s' : LindaType} (h : Unfolds c t s) (h' : Unfolds c t s') : s = s' := by
  induction h with
  | done t hd =>
    cases h' with
    | done => rfl
    | name _ nt _ hn => rw [hd] at hn; cases hn
  | name t nt s hn _ ih =>
    cases h' with
    | done _ hd => rw [hn] at hd; cases hd
    | name _ nt' _ hn' hu' =>
      rw [hn] at hn'
      cases hn'
      exact ih hu'

/-- Agreement goes both ways if the relation does. -/
theorem Heads.symm {R : LindaType → LindaType → Prop} (hR : ∀ u1 u2, R u1 u2 → R u2 u1)
    {t1 t2 : LindaType} (h : Heads c R t1 t2) : Heads c R t2 t1 := by
  have hflip : ∀ l1 l2, List.Forall₂ R l1 l2 → List.Forall₂ R l2 l1 := fun l1 l2 hl =>
    (hl.flip).imp fun a b hab => hR b a hab
  cases h with
  | builtIn id i1 i2 h1 h2 hb => exact .builtIn _ _ id i2 i1 h2 h1 hb
  | nil h1 h2 => exact .nil _ _ h2 h1
  | product l1 l2 h1 h2 hl => exact .product _ _ l2 l1 h2 h1 (hflip _ _ hl)
  | sum l1 l2 l h1 h2 hp hl =>
    obtain ⟨l', hl', hp'⟩ := List.perm_comp_forall₂ hp.symm (hflip _ _ hl)
    exact .sum _ _ l2 l1 l' h2 h1 hp' hl'
  | pointer n1 n2 p1 p2 i1 i2 h1 h2 hn1 hn2 hr =>
    exact .pointer _ _ n2 n1 p2 p1 i2 i1 h2 h1 hn2 hn1 (hR _ _ hr)
  | function a1 r1 a2 r2 h1 h2 ha hr =>
    exact .function _ _ a2 r2 a1 r1 h2 h1 (hR _ _ ha) (hR _ _ hr)

theorem Heads.mono {R R' : LindaType → LindaType → Prop} (hR : ∀ u1 u2, R u1 u2 → R' u1 u2)
    {t1 t2 : LindaType} (h : Heads c R t1 t2) : Heads c R' t1 t2 := by
  cases h with
  | builtIn id i1 i2 h1 h2 hb => exact .builtIn _ _ id i1 i2 h1 h2 hb
  | nil h1 h2 => exact .nil _ _ h1 h2
  | product l1 l2 h1 h2 hl => exact .product _ _ l1 l2 h1 h2 (hl.imp hR)
  | sum l1 l2 l h1 h2 hp hl => exact .sum _ _ l1 l2 l h1 h2 hp (hl.imp hR)
  | pointer n1 n2 p1 p2 i1 i2 h1 h2 hn1 hn2 hr =>
    exact .pointer _ _ n1 n2 p1 p2 i1 i2 h1 h2 hn1 hn2 (hR _ _ hr)
  | function a1 r1 a2 r2 h1 h2 ha hr =>
    exact .function _ _ a1 r1 a2 r2 h1 h2 (hR _ _ ha) (hR _ _ hr)

/-- What agrees with a name is a name, and the same one. -/
theorem Heads.id {R : LindaType → LindaType → Prop} {t1 t2 : LindaType} (h : Heads c R t1 t2)
    {n : String} {i : Option String} (h2 : t2.typeSpec = .id n i) :
    ∃ i', t1.typeSpec = .id n i' := by
  cases h with
  | builtIn id i1 i2 h1 h2' =>
    rw [h2'] at h2
    cases h2
    exact ⟨i1, h1⟩
  | nil h1 h2' => rw [h2'] at h2; cases h2
  | product l1 l2 h1 h2' =>
    obtain ⟨ts, _, hts, _⟩ := h2'
    unfold productItems LindaType.isProductType at hts
    rw [h2] at hts
    cases hts
  | sum l1 l2 l h1 h2' =>
    obtain ⟨ts, _, hts, _⟩ := h2'
    unfold sumItems LindaType.isSumType at hts
    rw [h2] at hts
    cases hts
  | pointer n1 n2 p1 p2 i1 i2 h1 h2' => rw [h2'] at h2; cases h2
  | function a1 r1 a2 r2 h1 h2' => rw [h2'] at h2; cases h2

/-- Isomorphic types agree up to isomorphism. -/
theorem Iso.step {t1 t2 : LindaType} (h : Iso c t1 t2) : IsoStep c (Iso c) t1 t2 := by
  obtain ⟨R, hR, hr⟩ := h
  obtain ⟨s1, s2, hs1, hs2, hh⟩ := hR t1 t2 hr
  exact ⟨s1, s2, hs1, hs2, hh.mono fun u1 u2 hu => ⟨R, hR, hu⟩⟩

theorem Iso.of_step {t1 t2 : LindaType} (h : IsoStep c (Iso c) t1 t2) : Iso c t1 t2 := by
  refine ⟨fun u1 u2 => Iso c u1 u2 ∨ (u1 = t1 ∧ u2 = t2), ?_, Or.inr ⟨rfl, rfl⟩⟩
  intro u1 u2 hu
  have hstep : IsoStep c (Iso c) u1 u2 := by
    rcases hu with hu | ⟨rfl, rfl⟩
    · exact hu.step
    · exact h
  obtain ⟨s1, s2, hs1, hs2, hh⟩ := hstep
  exact ⟨s1, s2, hs1, hs2, hh.mono fun _ _ => Or.inl⟩

theorem Iso.symm {t1 t2 : LindaType} (h : Iso c t1 t2) : Iso c t2 t1 := by
  refine ⟨fun u1 u2 => Iso c u1 u2 ∨ Iso c u2 u1, ?_, Or.inr h⟩
  intro u1 u2 hu
  rcases hu with hu | hu
  · obtain ⟨s1, s2, hs1, hs2, hh⟩ := hu.step
    exact ⟨s1, s2, hs1, hs2, hh.mono fun _ _ => Or.inl⟩
  · obtain ⟨s2, s1, hs2, hs1, hh⟩ := hu.step
    exact ⟨s1, s2, hs1, hs2, (hh.mono fun _ _ => Or.inl).symm fun _ _ hr => hr.elim Or.inr Or.inl⟩

/-- A name on the left may be looked up. -/
theorem Iso.unfold_left {t1 t2 nt : LindaType} (h : Iso c t1 t2) (hd : denoted c t1 = some nt) :
    Iso c nt t2 := by
  obtain ⟨s1, s2, hs1, hs2, hh⟩ := h.step
  apply Iso.of_step
  cases hs1 with
  | done _ hn => rw [hd] at hn; cases hn
  | name _ nt' _ hn hs1 =>
    rw [hd] at hn
    cases hn
    exact ⟨s1, s2, hs1, hs2, hh⟩

theorem Iso.unfold_right {t1 t2 nt : LindaType} (h : Iso c t1 t2) (hd : denoted c t2 = some nt) :
    Iso c t1 nt :=
  (h.symm.unfold_left hd).symm

end

end PyLinda.Types
