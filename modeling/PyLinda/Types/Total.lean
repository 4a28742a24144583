import Mathlib.Data.List.ProdSigma
import Mathlib.Logic.Relation
import PyLinda.Lib.Visited
import PyLinda.Types.Perms
import PyLinda.Types.Sound
import PyLinda.Types.Universe

/-!
# When the comparison comes to an end with the right answer

The pairs that a comparison may come to ask for are followed; none of them may be one that
the comparison has no branch for, or whose branch gives up although the types are isomorphic.
-/

namespace PyLinda.Types

open Lib

/-- One is a name and the other is not. -/
def Mixed (t1 t2 : LindaType) : Prop := t1.isId ≠ t2.isId

section
variable (c : TypeCache)

/-- Answering for a pair may take asking for the other. -/
inductive Asks : LindaType × LindaType → LindaType × LindaType → Prop
  | left (t1 t2 nt : LindaType) : t1.isId → t2.isId → denoted c t1 = some nt →
    Asks (t1, t2) (nt, t2)
  | right (t1 t2 nt : LindaType) : t1.isId → t2.isId → denoted c t2 = some nt →
    Asks (t1, t2) (t1, nt)
  | both (t1 t2 nt1 nt2 : LindaType) : t1.isId → t2.isId → denoted c t1 = some nt1 →
    denoted c t2 = some nt2 → Asks (t1, t2) (nt1, nt2)
  | product (t1 t2 : LindaType) (depth : Nat) (l1 l2 : List LindaType) (e1 e2 : LindaType) :
    t1.isProductType → t2.isProductType → flattenProductType c depth t1 = .ok l1 →
    flattenProductType c depth t2 = .ok l2 → l1.length = l2.length → (e1, e2) ∈ l1.zip l2 →
    Asks (t1, t2) (e1, e2)
  | sum (t1 t2 : LindaType) (depth : Nat) (p1 p2 : List SumPart) (e1 e2 : SumPart) :
    t1.isSumType → t2.isSumType → flattenSumType c depth t1 = .ok p1 →
    flattenSumType c depth t2 = .ok p2 → p1.length = p2.length → e1 ∈ p1 → e2 ∈ p2 →
    Asks (t1, t2) (e1.1, e2.1)
  | arg (t1 t2 : LindaType) (arg1 result1 arg2 result2 : TypeSpec) :
    t1.typeSpec = .function arg1 result1 → t2.typeSpec = .function arg2 result2 →
    Asks (t1, t2) (t1.branch arg1, t2.branch arg2)
  | result (t1 t2 : LindaType) (arg1 result1 arg2 result2 : TypeSpec) :
    t1.typeSpec = .function arg1 result1 → t2.typeSpec = .function arg2 result2 →
    Asks (t1, t2) (t2.branch result2, t1.branch result1)

/-- A name that the server does not take for built in is that of a registered type. -/
def Registered (t : LindaType) : Prop :=
  ∀ n i, t.typeSpec = .id n i → n ∉ builtin → ∃ nt, denoted c t = some nt

/-- The pair is one that `compare_types` has a branch for, which does not give up too early. -/
structure Fair (depth : Nat) (t1 t2 : LindaType) : Prop where
  nil : t1.typeSpec = .nil → t2.typeSpec ≠ .nil
  pointer : ∀ p1 i1 p2 i2, t1.typeSpec = .pointer p1 i1 → t2.typeSpec ≠ .pointer p2 i2
  names : t1.isId → t2.isId → Registered c t1 ∧ Registered c t2
  products : t1.isProductType → t2.isProductType → ∃ l1 l2,
    flattenProductType c depth t1 = .ok l1 ∧ flattenProductType c depth t2 = .ok l2 ∧
      (Iso c t1 t2 → List.Forall₂ (fun e1 e2 => Iso c e1 e2 ∧ ¬ Mixed e1 e2) l1 l2)
  sums : t1.isSumType → t2.isSumType → ∃ p1 p2,
    flattenSumType c depth t1 = .ok p1 ∧ flattenSumType c depth t2 = .ok p2 ∧
      (p1.length = p2.length → t2.items.length ≤ p2.length) ∧ (Iso c t1 t2 → p1.length = p2.length)
  functions : ∀ arg1 result1 arg2 result2, t1.typeSpec = .function arg1 result1 →
    t2.typeSpec = .function arg2 result2 → Iso c t1 t2 →
      ¬ Mixed (t1.branch arg1) (t2.branch arg2) ∧ ¬ Mixed (t2.branch result2) (t1.branch result1)

end

section
variable {c : TypeCache}

theorem Mixed.symm {t1 t2 : LindaType} (h : Mixed t1 t2) : Mixed t2 t1 := fun he => h he.symm

theorem Fair.mono {depth depth' : Nat} (hle : depth ≤ depth') {t1 t2 : LindaType}
    (h : Fair c depth t1 t2) : Fair c depth' t1 t2 where
  nil := h.nil
  pointer := h.pointer
  names := h.names
  products h1 h2 := by
    obtain ⟨l1, l2, hl1, hl2, hiso⟩ := h.products h1 h2
    exact ⟨l1, l2, flattenProductType_mono hle hl1, flattenProductType_mono hle hl2, hiso⟩
  sums h1 h2 := by
    obtain ⟨p1, p2, hp1, hp2, hlen⟩ := h.sums h1 h2
    exact ⟨p1, p2, flattenSumType_mono hle hp1, flattenSumType_mono hle hp2, hlen⟩
  functions := h.functions

mutual

theorem TypeSpec.same_refl (s : TypeSpec) : s.same s = true := by
  match s with
  | .nil => rfl
  | .id n _ => exact beq_self_eq_true n
  | .product bs => exact TypeSpec.allSame_refl bs
  | .sum bs => exact TypeSpec.allSame_refl bs
  | .pointer p _ => exact beq_self_eq_true p
  | .function a r =>
    show (a.same a && r.same r) = true
    rw [TypeSpec.same_refl a, TypeSpec.same_refl r]
    rfl

theorem TypeSpec.allSame_refl (bs : List TypeSpec) : TypeSpec.allSame bs bs = true := by
  match bs with
  | [] => rfl
  | b :: bs =>
    show (b.same b && TypeSpec.allSame bs bs) = true
    rw [TypeSpec.same_refl b, TypeSpec.allSame_refl bs]
    rfl

end

theorem LindaType.same_refl (t : LindaType) : t.same t = true := by
  unfold LindaType.same
  rw [TypeSpec.same_refl, beq_self_eq_true]
  rfl

/-- The pair is in the table. -/
def Checked.has (s : Checked) (p : LindaType × LindaType) : Bool := (s.find p.1 p.2).isSome

theorem Checked.has_iff (s : Checked) (p : LindaType × LindaType) :
    s.has p = true ↔ ∃ e ∈ s.entries, (e.t1.same p.1 && e.t2.same p.2) = true := by
  unfold Checked.has Checked.find
  exact List.find?_isSome

theorem Checked.has_mono {s s' : Checked} (h : s.entries ⊆ s'.entries)
    (p : LindaType × LindaType) (hp : s.has p = true) : s'.has p = true := by
  obtain ⟨e, he, hs⟩ := (s.has_iff p).1 hp
  exact (s'.has_iff p).2 ⟨e, h he, hs⟩

theorem Checked.has_enter (s : Checked) (t1 t2 : LindaType) :
    (s.enter t1 t2).has (t1, t2) = true := by
  refine ((s.enter t1 t2).has_iff (t1, t2)).2
    ⟨⟨t1, t2, s.codes.length⟩, List.mem_append_right _ (List.mem_singleton.2 rfl), ?_⟩
  rw [LindaType.same_refl, LindaType.same_refl]
  rfl

/-- What is in the table has a program. -/
theorem Checked.codeOf_ok {s : Checked} {t1 t2 : LindaType} (h : s.has (t1, t2) = true) :
    ∃ code, s.codeOf t1 t2 = .ok code := by
  unfold Checked.codeOf
  cases hf : s.find t1 t2 with
  | none =>
    unfold Checked.has at h
    rw [hf] at h
    cases h
  | some e => exact ⟨e.code, rfl⟩

theorem isId_of_spec {t : LindaType} {n : String} {i : Option String} (h : t.typeSpec = .id n i) :
    t.isId = true := by
  unfold LindaType.isId
  rw [h]

theorem spec_of_isId {t : LindaType} (h : t.isId = true) : ∃ n i, t.typeSpec = .id n i := by
  unfold LindaType.isId at h
  split at h
  · exact ⟨_, _, ‹_›⟩
  · cases h

theorem isId_of_denoted {t nt : LindaType} (h : denoted c t = some nt) : t.isId = true := by
  unfold denoted at h
  split at h
  · exact isId_of_spec ‹_›
  · cases h

/-- Only a name is isomorphic to a built-in name, and if it is built in too it is the same. -/
theorem isId_of_iso {t1 t2 : LindaType} (h : Iso c t1 t2) {n : String} {i : Option String}
    (h2 : t2.typeSpec = .id n i) (hb : n ∈ builtin) : t1.isId = true := by
  obtain ⟨s1, s2, hs1, hs2, hh⟩ := h.step
  obtain rfl := hs2.unique (.done t2 (denoted_builtin h2 hb))
  obtain ⟨i', h1⟩ := hh.id h2
  cases hs1 with
  | done => exact isId_of_spec h1
  | name _ nt _ hd => exact isId_of_denoted hd

theorem id_eq_of_iso {t1 t2 : LindaType} (h : Iso c t1 t2) {n1 n2 : String}
    {i1 i2 : Option String} (h1 : t1.typeSpec = .id n1 i1) (h2 : t2.typeSpec = .id n2 i2)
    (hb1 : n1 ∈ builtin) (hb2 : n2 ∈ builtin) : n1 = n2 := by
  obtain ⟨s1, s2, hs1, hs2, hh⟩ := h.step
  obtain rfl := hs1.unique (.done t1 (denoted_builtin h1 hb1))
  obtain rfl := hs2.unique (.done t2 (denoted_builtin h2 hb2))
  obtain ⟨i', h⟩ := hh.id h2
  rw [h] at h1
  cases h1
  rfl

/-- The components of isomorphic functions. -/
theorem Iso.function {t1 t2 : LindaType} (h : Iso c t1 t2) {arg1 result1 arg2 result2 : TypeSpec}
    (h1 : t1.typeSpec = .function arg1 result1) (h2 : t2.typeSpec = .function arg2 result2) :
    Iso c (t1.branch arg1) (t2.branch arg2) ∧ Iso c (t1.branch result1) (t2.branch result2) := by
  have hd : ∀ (t : LindaType) (a r : TypeSpec), t.typeSpec = .function a r → denoted c t = none := by
    intro t a r ht
    unfold denoted
    rw [ht]
  have hitems : ∀ (t : LindaType) (a r : TypeSpec), t.typeSpec = .function a r →
      productItems t = none ∧ sumItems t = none := by
    intro t a r ht
    unfold productItems sumItems LindaType.isProductType LindaType.isSumType
    rw [ht]
    exact ⟨rfl, rfl⟩
  obtain ⟨s1, s2, hs1, hs2, hh⟩ := h.step
  obtain rfl := hs1.unique (.done t1 (hd t1 _ _ h1))
  obtain rfl := hs2.unique (.done t2 (hd t2 _ _ h2))
  cases hh with
  | builtIn id i1 i2 h1' => rw [h1] at h1'; cases h1'
  | nil h1' => rw [h1] at h1'; cases h1'
  | product l1 l2 h1' =>
    obtain ⟨ts, _, hts, _⟩ := h1'
    rw [(hitems _ _ _ h1).1] at hts
    cases hts
  | sum l1 l2 l h1' =>
    obtain ⟨ts, _, hts, _⟩ := h1'
    rw [(hitems _ _ _ h1).2] at hts
    cases hts
  | pointer n1 n2 p1 p2 i1 i2 h1' => rw [h1] at h1'; cases h1'
  | function a1 r1 a2 r2 h1' h2' ha hr =>
    rw [h1] at h1'
    rw [h2] at h2'
    cases h1'
    cases h2'
    exact ⟨ha, hr⟩

/-- Looking up a registered name. -/
theorem lookup_registered {t : LindaType} {n : String} {i : Option String}
    (h : t.typeSpec = .id n i) (hn : n ∉ builtin) (hreg : Registered c t) :
    ∃ nt, c.lookupType i = .ok nt ∧ denoted c t = some nt := by
  obtain ⟨nt, hd⟩ := hreg n i h hn
  refine ⟨nt, ?_, hd⟩
  unfold denoted at hd
  rw [h] at hd
  cases i with
  | none => cases hd
  | some i =>
    have hc : c i = some nt := by simpa only [if_neg hn] using hd
    simp only [TypeCache.lookupType, hc]

/-! ## The search -/

/-- The questions that the search for `root` may come to. -/
def Reaches (c : TypeCache) (root p : LindaType × LindaType) : Prop :=
  Relation.ReflTransGen (Asks c) root p

/-- The pairs of types of `U` that are not in the table. -/
def openPairs (U : List LindaType) (s : Checked) : Nat := unvisited (U ×ˢ U) s.has

/-- The call returns, with the pair in the table; with a converter if the types are isomorphic. -/
def Returns (c : TypeCache)
    (ask : LindaType → LindaType → Checked → Except TypeExc (Option Converter × Checked))
    (t1 t2 : LindaType) (s : Checked) : Prop :=
  ∃ r s', ask t1 t2 s = .ok (r, s') ∧ s.entries ⊆ s'.entries ∧ s'.has (t1, t2) = true ∧
    (Iso c t1 t2 → ¬ Mixed t1 t2 → r.isSome = true)

/-- The calls inside return, if not more than `m` pairs are open. -/
def AskReturns (c : TypeCache) (root : LindaType × LindaType) (U : List LindaType) (m : Nat)
    (ask : LindaType → LindaType → Checked → Except TypeExc (Option Converter × Checked)) : Prop :=
  ∀ t1 t2 s, t1 ∈ U → t2 ∈ U → Reaches c root (t1, t2) → openPairs U s ≤ m → Returns c ask t1 t2 s

theorem openPairs_le {U : List LindaType} {s s' : Checked} {m : Nat}
    (h : s.entries ⊆ s'.entries) (hm : openPairs U s ≤ m) : openPairs U s' ≤ m :=
  Nat.le_trans (unvisited_mono fun p hp => Checked.has_mono h p hp) hm

section
variable {root : LindaType × LindaType} {U : List LindaType} {m : Nat}
  {ask : LindaType → LindaType → Checked → Except TypeExc (Option Converter × Checked)}

theorem unfolded_returns (hask : AskReturns c root U m ask) (code : Nat) {t1 t2 : LindaType}
    {s : Checked} (h1 : t1 ∈ U) (h2 : t2 ∈ U) (hr : Reaches c root (t1, t2))
    (hm : openPairs U s ≤ m) :
    ∃ b s', unfolded ask code t1 t2 s = .ok (b, s') ∧ s.entries ⊆ s'.entries ∧
      (Iso c t1 t2 → ¬ Mixed t1 t2 → b = true) := by
  obtain ⟨r, s₁, ha, hsub, hhas, hiso⟩ := hask t1 t2 s h1 h2 hr hm
  unfold unfolded
  rw [bind_ok ha]
  cases r with
  | none => exact ⟨false, s₁, rfl, hsub, fun hi hx => hiso hi hx⟩
  | some f =>
    obtain ⟨inner, hc⟩ := Checked.codeOf_ok hhas
    show ∃ b s', (s₁.codeOf t1 t2 >>= _) = _ ∧ _
    rw [bind_ok hc]
    exact ⟨true, s₁.append code [.eval inner], rfl, hsub, fun _ _ => rfl⟩

theorem compareLeft_returns (hU : Closed c (· ∈ U)) (hask : AskReturns c root U m ask) (code : Nat)
    {t1 t2 : LindaType} {id1 : String} {i1 : Option String} (h1 : t1.typeSpec = .id id1 i1)
    (hid2 : t2.isId) (hreg : Registered c t1) (h2 : t2 ∈ U) (hr : Reaches c root (t1, t2))
    {s : Checked} (hm : openPairs U s ≤ m) :
    ∃ b s', compareLeft c ask code t2 id1 i1 s = .ok (b, s') ∧ s.entries ⊆ s'.entries ∧
      (∀ nt, denoted c t1 = some nt → Iso c t1 t2 → nt.isId → b = true) := by
  unfold compareLeft
  by_cases hb : id1 ∉ builtin
  · obtain ⟨nt, hl, hd⟩ := lookup_registered h1 hb hreg
    rw [if_pos hb, bind_ok hl]
    obtain ⟨b, s', ho, hsub, hiso⟩ := unfolded_returns hask code (hU.denoted hd) h2
      (hr.tail (.left t1 t2 nt (isId_of_spec h1) hid2 hd)) hm
    refine ⟨b, s', ho, hsub, fun nt' hd' hi hn => hiso (hi.unfold_left hd) ?_⟩
    obtain rfl : nt = nt' := Option.some.inj (hd.symm.trans hd')
    exact fun hx => hx (hn.trans hid2.symm)
  · rw [if_neg hb]
    refine ⟨false, s, rfl, List.Subset.refl _, fun nt hd => ?_⟩
    rw [denoted_builtin h1 (not_not.1 hb)] at hd
    cases hd

theorem compareRight_returns (hU : Closed c (· ∈ U)) (hask : AskReturns c root U m ask)
    (code : Nat) {t1 t2 : LindaType} {id2 : String} {i2 : Option String}
    (h2 : t2.typeSpec = .id id2 i2) (hid1 : t1.isId) (hreg : Registered c t2) (h1 : t1 ∈ U)
    (hr : Reaches c root (t1, t2)) {s : Checked} (hm : openPairs U s ≤ m) :
    ∃ b s', compareRight c ask code t1 id2 i2 s = .ok (b, s') ∧ s.entries ⊆ s'.entries ∧
      (∀ nt, denoted c t2 = some nt → Iso c t1 t2 → nt.isId → b = true) := by
  unfold compareRight
  by_cases hb : id2 ∉ builtin
  · obtain ⟨nt, hl, hd⟩ := lookup_registered h2 hb hreg
    rw [if_pos hb, bind_ok hl]
    obtain ⟨b, s', ho, hsub, hiso⟩ := unfolded_returns hask code h1 (hU.denoted hd)
      (hr.tail (.right t1 t2 nt hid1 (isId_of_spec h2) hd)) hm
    refine ⟨b, s', ho, hsub, fun nt' hd' hi hn => hiso (hi.unfold_right hd) ?_⟩
    obtain rfl : nt = nt' := Option.some.inj (hd.symm.trans hd')
    exact fun hx => hx (hid1.trans hn.symm)
  · rw [if_neg hb]
    refine ⟨false, s, rfl, List.Subset.refl _, fun nt hd => ?_⟩
    rw [denoted_builtin h2 (not_not.1 hb)] at hd
    cases hd

theorem compareBoth_returns (hU : Closed c (· ∈ U)) (hask : AskReturns c root U m ask)
    (code : Nat) {t1 t2 : LindaType} {id1 id2 : String} {i1 i2 : Option String}
    (h1 : t1.typeSpec = .id id1 i1) (h2 : t2.typeSpec = .id id2 i2) (hreg1 : Registered c t1)
    (hreg2 : Registered c t2) (hr : Reaches c root (t1, t2)) {s : Checked}
    (hm : openPairs U s ≤ m) :
    ∃ b s', compareBoth c ask code id1 id2 i1 i2 s = .ok (b, s') ∧ s.entries ⊆ s'.entries ∧
      (∀ nt1 nt2, denoted c t1 = some nt1 → denoted c t2 = some nt2 → Iso c t1 t2 →
        ¬ Mixed nt1 nt2 → b = true) := by
  unfold compareBoth
  by_cases hb : id1 ∉ builtin ∧ id2 ∉ builtin
  · obtain ⟨nt1, hl1, hd1⟩ := lookup_registered h1 hb.1 hreg1
    obtain ⟨nt2, hl2, hd2⟩ := lookup_registered h2 hb.2 hreg2
    rw [if_pos hb, bind_ok hl1, bind_ok hl2]
    obtain ⟨b, s', ho, hsub, hiso⟩ := unfolded_returns hask code (hU.denoted hd1)
      (hU.denoted hd2) (hr.tail (.both t1 t2 nt1 nt2 (isId_of_spec h1) (isId_of_spec h2) hd1 hd2)) hm
    refine ⟨b, s', ho, hsub, fun n1 n2 hn1 hn2 hi hx => ?_⟩
    obtain rfl : nt1 = n1 := Option.some.inj (hd1.symm.trans hn1)
    obtain rfl : nt2 = n2 := Option.some.inj (hd2.symm.trans hn2)
    exact hiso ((hi.unfold_left hd1).unfold_right hd2) hx
  · rw [if_neg hb]
    refine ⟨false, s, rfl, List.Subset.refl _, fun nt1 nt2 hd1 hd2 => ?_⟩
    by_cases hb1 : id1 ∈ builtin
    · rw [denoted_builtin h1 hb1] at hd1
      cases hd1
    · by_cases hb2 : id2 ∈ builtin
      · rw [denoted_builtin h2 hb2] at hd2
        cases hd2
      · exact absurd ⟨hb1, hb2⟩ hb

/-- Isomorphic names are accepted one way or another. -/
theorem compareNames_returns (hU : Closed c (· ∈ U)) (hask : AskReturns c root U m ask)
    (code : Nat) {t1 t2 : LindaType} {id1 id2 : String} {i1 i2 : Option String}
    (h1 : t1.typeSpec = .id id1 i1) (h2 : t2.typeSpec = .id id2 i2)
    (hno : ¬ (id1 ∈ builtin ∧ id2 ∈ builtin)) (hreg1 : Registered c t1)
    (hreg2 : Registered c t2) (hu1 : t1 ∈ U) (hu2 : t2 ∈ U) (hr : Reaches c root (t1, t2))
    {s : Checked} (hm : openPairs U s ≤ m) :
    ∃ b s', compareNames c ask code t1 t2 id1 id2 i1 i2 s = .ok (b, s') ∧
      s.entries ⊆ s'.entries ∧ (Iso c t1 t2 → b = true) := by
  obtain ⟨b₁, s₁, ho₁, hsub₁, hiso₁⟩ :=
    compareLeft_returns hU hask code h1 (isId_of_spec h2) hreg1 hu2 hr hm
  unfold compareNames
  rw [bind_ok ho₁]
  cases b₁ with
  | true => exact ⟨true, s₁, rfl, hsub₁, fun _ => rfl⟩
  | false =>
    obtain ⟨b₂, s₂, ho₂, hsub₂, hiso₂⟩ := compareRight_returns hU hask code h2
      (isId_of_spec h1) hreg2 hu1 hr (openPairs_le hsub₁ hm)
    show ∃ b s', (compareRight c ask code t1 id2 i2 s₁ >>= _) = _ ∧ _
    rw [bind_ok ho₂]
    cases b₂ with
    | true => exact ⟨true, s₂, rfl, List.Subset.trans hsub₁ hsub₂, fun _ => rfl⟩
    | false =>
      obtain ⟨b₃, s₃, ho₃, hsub₃, hiso₃⟩ := compareBoth_returns hU hask code h1 h2 hreg1
        hreg2 hr (openPairs_le (List.Subset.trans hsub₁ hsub₂) hm)
      refine ⟨b₃, s₃, ho₃, List.Subset.trans (List.Subset.trans hsub₁ hsub₂) hsub₃, fun hi => ?_⟩
      have hleft : ∀ nt, denoted c t1 = some nt → nt.isId = false := fun nt hd =>
        Bool.eq_false_iff.2 fun hn => Bool.false_ne_true (hiso₁ nt hd hi hn)
      have hright : ∀ nt, denoted c t2 = some nt → nt.isId = false := fun nt hd =>
        Bool.eq_false_iff.2 fun hn => Bool.false_ne_true (hiso₂ nt hd hi hn)
      by_cases hb1 : id1 ∈ builtin
      · -- the other name stands for a name, too
        obtain ⟨nt, hd⟩ := hreg2 id2 i2 h2 fun hb2 => hno ⟨hb1, hb2⟩
        have hn := isId_of_iso (hi.unfold_right hd).symm h1 hb1
        rw [hright nt hd] at hn
        cases hn
      · obtain ⟨nt1, hd1⟩ := hreg1 id1 i1 h1 hb1
        by_cases hb2 : id2 ∈ builtin
        · have hn := isId_of_iso (hi.unfold_left hd1) h2 hb2
          rw [hleft nt1 hd1] at hn
          cases hn
        · obtain ⟨nt2, hd2⟩ := hreg2 id2 i2 h2 hb2
          exact hiso₃ nt1 nt2 hd1 hd2 hi fun hx =>
            hx ((hleft nt1 hd1).trans (hright nt2 hd2).symm)

theorem compareParts_returns (hask : AskReturns c root U m ask) (l1 : List LindaType) :
    ∀ l2 s, (∀ e1 e2, (e1, e2) ∈ l1.zip l2 → e1 ∈ U ∧ e2 ∈ U ∧ Reaches c root (e1, e2)) →
      openPairs U s ≤ m →
      ∃ r s', compareParts ask l1 l2 s = .ok (r, s') ∧ s.entries ⊆ s'.entries ∧
        (List.Forall₂ (fun e1 e2 => Iso c e1 e2 ∧ ¬ Mixed e1 e2) l1 l2 → r.isSome = true) := by
  induction l1 with
  | nil =>
    intro l2 s _ _
    exact ⟨some [], s, rfl, List.Subset.refl _, fun _ => rfl⟩
  | cons e1 l1 ih =>
    intro l2 s hz hm
    cases l2 with
    | nil => exact ⟨some [], s, rfl, List.Subset.refl _, fun _ => rfl⟩
    | cons e2 l2 =>
      obtain ⟨hu1, hu2, hr⟩ := hz e1 e2 List.mem_cons_self
      obtain ⟨f, s₁, ha, hsub, hhas, hiso⟩ := hask e1 e2 s hu1 hu2 hr hm
      unfold compareParts
      rw [bind_ok ha]
      cases f with
      | none =>
        refine ⟨none, s₁, rfl, hsub, fun hl => ?_⟩
        cases hl with
        | cons he _ => exact hiso he.1 he.2
      | some f =>
        obtain ⟨code, hc⟩ := Checked.codeOf_ok hhas
        obtain ⟨funcs, s₂, ho, hsub₂, hiso₂⟩ := ih l2 s₁
          (fun a b hab => hz a b (List.mem_cons_of_mem _ hab)) (openPairs_le hsub hm)
        show ∃ r s', (s₁.codeOf e1 e2 >>= _) = _ ∧ _
        rw [bind_ok hc]
        show ∃ r s', (compareParts ask l1 l2 s₁ >>= _) = _ ∧ _
        rw [bind_ok ho]
        refine ⟨funcs.map (code :: ·), s₂, rfl, List.Subset.trans hsub hsub₂, fun hl => ?_⟩
        cases hl with
        | cons _ hl =>
          rw [Option.isSome_map]
          exact hiso₂ hl

theorem comparePerm_returns (hask : AskReturns c root U m ask) {t1e t2e : List SumPart}
    (hparts : ∀ e1 ∈ t1e, ∀ e2 ∈ t2e, e1.1 ∈ U ∧ e2.1 ∈ U ∧ Reaches c root (e1.1, e2.1))
    (perm : List Nat) :
    ∀ i s, i + perm.length ≤ t1e.length → (∀ p ∈ perm, p < t2e.length) → openPairs U s ≤ m →
      ∃ r s', comparePerm ask t1e t2e i perm s = .ok (r, s') ∧ s.entries ⊆ s'.entries := by
  induction perm with
  | nil =>
    intro i s _ _ _
    exact ⟨[], s, rfl, List.Subset.refl _⟩
  | cons p perm ih =>
    intro i s hlen hp hm
    have hi : i < t1e.length := by
      have h : (p :: perm).length = perm.length + 1 := rfl
      omega
    have hp' : p < t2e.length := hp p List.mem_cons_self
    obtain ⟨hu1, hu2, hr⟩ := hparts _ (List.getElem_mem hi) _ (List.getElem_mem hp')
    obtain ⟨f, s₁, ha, hsub, hhas, _⟩ := hask _ _ s hu1 hu2 hr hm
    unfold comparePerm
    rw [List.getElem?_eq_getElem hi, List.getElem?_eq_getElem hp']
    show ∃ r s', (ask t1e[i].1 t2e[p].1 s >>= _) = _ ∧ _
    rw [bind_ok ha]
    cases f with
    | none => exact ⟨[], s₁, rfl, hsub⟩
    | some f =>
      obtain ⟨code, hc⟩ := Checked.codeOf_ok hhas
      show ∃ r s', (s₁.codeOf t1e[i].1 t2e[p].1 >>= _) = _ ∧ _
      rw [bind_ok hc]
      obtain ⟨funcs, s₂, ho, hsub₂⟩ := ih (i + 1)
        (s₁.append code (t2e[p].2.map fun _ => .createSum p))
        (by have h : (p :: perm).length = perm.length + 1 := rfl; omega)
        (fun q hq => hp q (List.mem_cons_of_mem _ hq))
        (openPairs_le hsub hm)
      show ∃ r s', (comparePerm ask t1e t2e (i + 1) perm _ >>= _) = _ ∧ _
      rw [bind_ok ho]
      exact ⟨code :: funcs, s₂, rfl, fun e he => hsub₂ (hsub he)⟩

theorem comparePerms_returns (hask : AskReturns c root U m ask) (code : Nat)
    {t1e t2e : List SumPart}
    (hparts : ∀ e1 ∈ t1e, ∀ e2 ∈ t2e, e1.1 ∈ U ∧ e2.1 ∈ U ∧ Reaches c root (e1.1, e2.1))
    (perms : List (List Nat)) :
    ∀ s, (∀ perm ∈ perms, perm.length ≤ t1e.length ∧ ∀ p ∈ perm, p < t2e.length) →
      openPairs U s ≤ m →
      ∃ s', comparePerms ask code t1e t2e perms s = .ok s' ∧ s.entries ⊆ s'.entries := by
  induction perms with
  | nil =>
    intro s _ _
    exact ⟨s, rfl, List.Subset.refl _⟩
  | cons perm perms ih =>
    intro s hperms hm
    obtain ⟨hlen, hp⟩ := hperms perm List.mem_cons_self
    obtain ⟨funcs, s₁, ho, hsub⟩ := comparePerm_returns hask hparts perm 0 s (by omega) hp hm
    unfold comparePerms
    rw [bind_ok ho]
    have hsub₁ : s.entries ⊆
        (if funcs.length = perm.length then s₁.append code [.sumCase funcs] else s₁).entries := by
      split
      · exact hsub
      · exact hsub
    obtain ⟨s₂, ho₂, hsub₂⟩ := ih _ (fun q hq => hperms q (List.mem_cons_of_mem _ hq))
      (openPairs_le hsub₁ hm)
    exact ⟨s₂, ho₂, List.Subset.trans hsub₁ hsub₂⟩

/-- Isomorphic types that are not names have the same form. -/
theorem Iso.heads {t1 t2 : LindaType} (h : Iso c t1 t2) (h1 : t1.isId = false)
    (h2 : t2.isId = false) : Heads c (Iso c) t1 t2 := by
  have hd : ∀ t : LindaType, t.isId = false → denoted c t = none := by
    intro t ht
    cases hd : denoted c t with
    | none => rfl
    | some nt =>
      rw [isId_of_denoted hd] at ht
      cases ht
  obtain ⟨s1, s2, hs1, hs2, hh⟩ := h.step
  obtain rfl := hs1.unique (.done t1 (hd t1 h1))
  obtain rfl := hs2.unique (.done t2 (hd t2 h2))
  exact hh

theorem spec_of_isProductType {t : LindaType} (h : t.isProductType) :
    ∃ bs, t.typeSpec = .product bs := by
  unfold LindaType.isProductType at h
  split at h
  · exact ⟨_, ‹_›⟩
  · cases h

theorem spec_of_isSumType {t : LindaType} (h : t.isSumType) : ∃ bs, t.typeSpec = .sum bs := by
  unfold LindaType.isSumType at h
  split at h
  · exact ⟨_, ‹_›⟩
  · cases h

theorem spec_of_productItems {t : LindaType} {l : List LindaType}
    (h : ItemParts c productItems t l) : ∃ bs, t.typeSpec = .product bs := by
  obtain ⟨ts, _, hts, _⟩ := h
  by_cases hp : t.isProductType
  · exact spec_of_isProductType hp
  · unfold productItems at hts
    rw [if_neg hp] at hts
    cases hts

theorem spec_of_sumItems {t : LindaType} {l : List LindaType}
    (h : ItemParts c sumItems t l) : ∃ bs, t.typeSpec = .sum bs := by
  obtain ⟨ts, _, hts, _⟩ := h
  by_cases hp : t.isSumType
  · exact spec_of_isSumType hp
  · unfold sumItems at hts
    rw [if_neg hp] at hts
    cases hts

/-- The comparison of a fair pair returns. -/
theorem compareBody_returns (hU : Closed c (· ∈ U)) (hask : AskReturns c root U m ask)
    {depth : Nat} (code : Nat) {t1 t2 : LindaType} (hfair : Fair c depth t1 t2) (hu1 : t1 ∈ U)
    (hu2 : t2 ∈ U) (hr : Reaches c root (t1, t2)) {s : Checked} (hm : openPairs U s ≤ m) :
    ∃ r s', compareBody c depth ask code t1 t2 s = .ok (r, s') ∧ s.entries ⊆ s'.entries ∧
      (Iso c t1 t2 → ¬ Mixed t1 t2 → r.isSome = true) := by
  unfold compareBody
  split
  · rename_i h1 h2
    exact absurd h2 (hfair.nil h1)
  · rename_i id1 i1 id2 i2 h1 h2
    by_cases hb : id1 ∈ builtin ∧ id2 ∈ builtin
    · rw [if_pos hb]
      by_cases he : id1 = id2
      · rw [if_pos he]
        exact ⟨_, _, rfl, List.Subset.refl _, fun _ _ => rfl⟩
      · rw [if_neg he]
        exact ⟨_, _, rfl, List.Subset.refl _, fun hi _ =>
          absurd (id_eq_of_iso hi h1 h2 hb.1 hb.2) he⟩
    · rw [if_neg hb]
      obtain ⟨hreg1, hreg2⟩ := hfair.names (isId_of_spec h1) (isId_of_spec h2)
      obtain ⟨b, s', ho, hsub, hiso⟩ :=
        compareNames_returns hU hask code h1 h2 hb hreg1 hreg2 hu1 hu2 hr hm
      rw [bind_ok ho]
      refine ⟨_, s', rfl, hsub, fun hi _ => ?_⟩
      rw [hiso hi]
      rfl
  · rename_i bs1 bs2 h1 h2
    have hp1 := isProductType_of h1
    have hp2 := isProductType_of h2
    obtain ⟨l1, l2, hl1, hl2, hiso⟩ := hfair.products hp1 hp2
    rw [bind_ok hl1, bind_ok hl2]
    by_cases hlen : l1.length ≠ l2.length
    · rw [if_pos hlen]
      exact ⟨_, _, rfl, List.Subset.refl _, fun hi _ => absurd (hiso hi).length_eq hlen⟩
    · rw [if_neg hlen]
      have hz : ∀ e1 e2, (e1, e2) ∈ l1.zip l2 → e1 ∈ U ∧ e2 ∈ U ∧ Reaches c root (e1, e2) := by
        intro e1 e2 he
        exact ⟨flattenProductType_closed hU hu1 hl1 e1 (List.of_mem_zip he).1,
          flattenProductType_closed hU hu2 hl2 e2 (List.of_mem_zip he).2,
          hr.tail (.product t1 t2 depth l1 l2 e1 e2 hp1 hp2 hl1 hl2 (not_not.1 hlen) he)⟩
      obtain ⟨funcs, s', ho, hsub, hparts⟩ := compareParts_returns hask l1 l2 s hz hm
      rw [bind_ok ho]
      cases funcs with
      | none =>
        refine ⟨none, s', rfl, hsub, fun hi _ => ?_⟩
        have hn := hparts (hiso hi)
        cases hn
      | some funcs => exact ⟨_, _, rfl, hsub, fun _ _ => rfl⟩
  · rename_i bs1 bs2 h1 h2
    have hs1 := isSumType_of h1
    have hs2 := isSumType_of h2
    obtain ⟨p1, p2, hp1, hp2, hitems, hiso⟩ := hfair.sums hs1 hs2
    rw [bind_ok hp1, bind_ok hp2]
    by_cases hlen : p1.length ≠ p2.length
    · rw [if_pos hlen]
      exact ⟨_, _, rfl, List.Subset.refl _, fun hi _ => absurd (hiso hi) hlen⟩
    · rw [if_neg hlen]
      have hparts : ∀ e1 ∈ p1, ∀ e2 ∈ p2, e1.1 ∈ U ∧ e2.1 ∈ U ∧ Reaches c root (e1.1, e2.1) := by
        intro e1 he1 e2 he2
        exact ⟨flattenSumType_closed hU hu1 hp1 e1 he1, flattenSumType_closed hU hu2 hp2 e2 he2,
          hr.tail (.sum t1 t2 depth p1 p2 e1 e2 hs1 hs2 hp1 hp2 (not_not.1 hlen) he1 he2)⟩
      have hcount : bs2.length ≤ p2.length := by
        have h := hitems (not_not.1 hlen)
        unfold LindaType.items at h
        simp only [h2, List.length_map] at h
        exact h
      have hperms : ∀ perm ∈ allPerms (List.range bs2.length),
          perm.length ≤ p1.length ∧ ∀ p ∈ perm, p < p2.length := by
        intro perm hperm
        have hp := mem_allPerms.1 hperm
        refine ⟨?_, fun p hmem => ?_⟩
        · rw [hp.length_eq, List.length_range, not_not.1 hlen]
          exact hcount
        · have hlt := List.mem_range.1 (hp.mem_iff.1 hmem)
          omega
      obtain ⟨s', ho, hsub⟩ := comparePerms_returns hask code hparts _ s hperms hm
      rw [bind_ok ho]
      exact ⟨_, _, rfl, hsub, fun _ _ => rfl⟩
  · rename_i p1 i1 p2 i2 h1 h2
    exact absurd h2 (hfair.pointer p1 i1 p2 i2 h1)
  · rename_i arg1 result1 arg2 result2 h1 h2
    have hfun := hfair.functions arg1 result1 arg2 result2 h1 h2
    obtain ⟨f, s₁, ho₁, hsub₁, hhas₁, hiso₁⟩ := hask _ _ s (hU.arg t1 _ _ hu1 h1)
      (hU.arg t2 _ _ hu2 h2) (hr.tail (.arg t1 t2 arg1 result1 arg2 result2 h1 h2)) hm
    rw [bind_ok ho₁]
    cases f with
    | none =>
      refine ⟨none, s₁, rfl, hsub₁, fun hi _ => ?_⟩
      have hn := hiso₁ (hi.function h1 h2).1 (hfun hi).1
      cases hn
    | some f =>
      obtain ⟨g, s₂, ho₂, hsub₂, hhas₂, hiso₂⟩ := hask _ _ s₁ (hU.result t2 _ _ hu2 h2)
        (hU.result t1 _ _ hu1 h1) (hr.tail (.result t1 t2 arg1 result1 arg2 result2 h1 h2))
        (openPairs_le hsub₁ hm)
      show ∃ r s', (ask (t2.branch result2) (t1.branch result1) s₁ >>= _) = _ ∧ _
      rw [bind_ok ho₂]
      cases g with
      | none =>
        refine ⟨none, s₂, rfl, List.Subset.trans hsub₁ hsub₂, fun hi _ => ?_⟩
        have hn := hiso₂ (hi.function h1 h2).2.symm (hfun hi).2
        cases hn
      | some g =>
        obtain ⟨argCode, hc₁⟩ := Checked.codeOf_ok (Checked.has_mono hsub₂ _ hhas₁)
        obtain ⟨resultCode, hc₂⟩ := Checked.codeOf_ok hhas₂
        show ∃ r s', (s₂.codeOf (t1.branch arg1) (t2.branch arg2) >>= _) = _ ∧ _
        rw [bind_ok hc₁]
        show ∃ r s', (s₂.codeOf (t2.branch result2) (t1.branch result1) >>= _) = _ ∧ _
        rw [bind_ok hc₂]
        exact ⟨_, _, rfl, List.Subset.trans hsub₁ hsub₂, fun _ _ => rfl⟩
  · rename_i hnil hid hprod hsum hptr hfun
    refine ⟨none, s, rfl, List.Subset.refl _, fun hi hx => ?_⟩
    have heq : t1.isId = t2.isId := not_not.1 hx
    cases h1 : t1.isId with
    | true =>
      obtain ⟨n1, i1, hs1⟩ := spec_of_isId h1
      obtain ⟨n2, i2, hs2⟩ := spec_of_isId (heq.symm.trans h1)
      exact absurd hs2 (hid n1 i1 n2 i2 hs1)
    | false =>
      cases hi.heads h1 (heq.symm.trans h1) with
      | builtIn id i1 i2 hs1 hs2 => exact absurd hs2 (hid _ _ _ _ hs1)
      | nil hs1 hs2 => exact absurd hs2 (hnil hs1)
      | product l1 l2 hp1 hp2 =>
        obtain ⟨bs1, hb1⟩ := spec_of_productItems hp1
        obtain ⟨bs2, hb2⟩ := spec_of_productItems hp2
        exact absurd hb2 (hprod _ _ hb1)
      | sum l1 l2 l hp1 hp2 =>
        obtain ⟨bs1, hb1⟩ := spec_of_sumItems hp1
        obtain ⟨bs2, hb2⟩ := spec_of_sumItems hp2
        exact absurd hb2 (hsum _ _ hb1)
      | pointer n1 n2 p1 p2 i1 i2 hs1 hs2 => exact absurd hs2 (hptr _ _ _ _ hs1)
      | function a1 r1 a2 r2 hs1 hs2 => exact absurd hs2 (hfun _ _ _ _ hs1)

end

/-- With more depth than there are open pairs, every call returns. -/
theorem compareTypes_returns {root : LindaType × LindaType} {U : List LindaType} {K : Nat}
    (hU : Closed c (· ∈ U))
    (hfair : ∀ t1 t2, t1 ∈ U → t2 ∈ U → Reaches c root (t1, t2) → Fair c K t1 t2) (depth : Nat) :
    ∀ m, m + K < depth → AskReturns c root U m (compareTypes c depth) := by
  induction depth with
  | zero =>
    intro m hd
    omega
  | succ depth ih =>
    intro m hd t1 t2 s hu1 hu2 hr hm
    unfold Returns compareTypes
    cases hf : s.find t1 t2 with
    | some e =>
      refine ⟨some .table, s.note t1 t2 (.table e.t1 e.t2), rfl, List.Subset.refl _, ?_,
        fun _ _ => rfl⟩
      show (s.find t1 t2).isSome = true
      rw [hf]
      rfl
    | none =>
      have hsub : s.entries ⊆ (s.enter t1 t2).entries := List.subset_append_left _ _
      have hlt : openPairs U (s.enter t1 t2) < openPairs U s := by
        refine unvisited_lt (fun p hp => Checked.has_mono hsub p hp)
          (List.mem_product.2 ⟨hu1, hu2⟩) ?_ (s.has_enter t1 t2)
        show (s.find t1 t2).isSome = false
        rw [hf]
        rfl
      obtain ⟨r, s', ho, hsub', hiso⟩ := compareBody_returns hU (ih (m - 1) (by omega))
        s.codes.length ((hfair t1 t2 hu1 hu2 hr).mono (show K ≤ depth by omega)) hu1 hu2 hr
        (show openPairs U (s.enter t1 t2) ≤ m - 1 by omega)
      show ∃ r s', (compareBody c depth (compareTypes c depth) s.codes.length t1 t2
        (s.enter t1 t2) >>= _) = _ ∧ _
      rw [bind_ok ho]
      exact ⟨r, s'.note t1 t2 (if r.isSome then .accepted else .refused), rfl,
        fun e he => hsub' (hsub he),
        Checked.has_mono (s := s.enter t1 t2) hsub' _ (s.has_enter t1 t2), hiso⟩

/-- `compare_types(t1, t2)` ends, and with a converter if the types are isomorphic. -/
def Decided (c : TypeCache) (t1 t2 : LindaType) : Prop :=
  ∃ depth r s, compareTypes c depth t1 t2 .init = .ok (r, s) ∧ (Iso c t1 t2 → r.isSome = true)

/-- `A :: int32; P :: A * A;`. -/
def pairs : TypeCache
  | "A" => some ⟨"A", .id "int32" (some "int32"), some "A"⟩
  | "P" => some ⟨"P", .product [.id "A" (some "A"), .id "A" (some "A")], some "P"⟩
  | _ => none

end

end PyLinda.Types
