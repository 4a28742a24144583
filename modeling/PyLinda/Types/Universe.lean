import PyLinda.Lib.Except
import PyLinda.Types.FlattenParts

/-!
# The types of an environment

A finite environment has finitely many types, those inside the registered ones included.
Flattening stays among them, and it returns the same however deep it may call itself.
-/

namespace PyLinda.Types

open Lib

mutual

/-- The specifications in a specification. -/
def TypeSpec.subterms : TypeSpec → List TypeSpec
  | nil => [nil]
  | id s i => [id s i]
  | product bs => product bs :: TypeSpec.allSubterms bs
  | sum bs => sum bs :: TypeSpec.allSubterms bs
  | pointer p i => [pointer p i]
  | function a r => function a r :: (a.subterms ++ r.subterms)

def TypeSpec.allSubterms : List TypeSpec → List TypeSpec
  | [] => []
  | b :: bs => b.subterms ++ TypeSpec.allSubterms bs

end

/-- The type and the types in it. -/
def LindaType.within (t : LindaType) : List LindaType := t :: t.typeSpec.subterms.map t.branch

/-- The types that are in the given ones. -/
def typesWithin (env : List LindaType) : List LindaType := env.flatMap LindaType.within

/-- A set of types that looking into a type does not lead out of. -/
structure Closed (c : TypeCache) (U : LindaType → Prop) : Prop where
  registered : ∀ i t, c i = some t → U t
  items : ∀ t, U t → ∀ e ∈ t.items, U e
  arg : ∀ t a r, U t → t.typeSpec = .function a r → U (t.branch a)
  result : ∀ t a r, U t → t.typeSpec = .function a r → U (t.branch r)

theorem TypeSpec.self_mem_subterms (s : TypeSpec) : s ∈ s.subterms := by
  cases s <;> exact List.mem_cons_self

theorem TypeSpec.mem_allSubterms {s b : TypeSpec} {bs : List TypeSpec} (hb : b ∈ bs)
    (hs : s ∈ b.subterms) : s ∈ TypeSpec.allSubterms bs := by
  induction bs with
  | nil => cases hb
  | cons b' bs ih =>
    rcases List.mem_cons.1 hb with rfl | hb
    · exact List.mem_append_left _ hs
    · exact List.mem_append_right _ (ih hb)

mutual

/-- What is in a part is in the whole. -/
theorem TypeSpec.subterms_trans (s u : TypeSpec) (h : u ∈ s.subterms) :
    u.subterms ⊆ s.subterms := by
  match s with
  | .nil =>
    obtain rfl := List.mem_singleton.1 h
    exact List.Subset.refl _
  | .id _ _ =>
    obtain rfl := List.mem_singleton.1 h
    exact List.Subset.refl _
  | .pointer _ _ =>
    obtain rfl := List.mem_singleton.1 h
    exact List.Subset.refl _
  | .product bs =>
    rcases List.mem_cons.1 h with rfl | h
    · exact List.Subset.refl _
    · exact fun v hv => List.mem_cons_of_mem _ (TypeSpec.allSubterms_trans bs u h hv)
  | .sum bs =>
    rcases List.mem_cons.1 h with rfl | h
    · exact List.Subset.refl _
    · exact fun v hv => List.mem_cons_of_mem _ (TypeSpec.allSubterms_trans bs u h hv)
  | .function a r =>
    rcases List.mem_cons.1 h with rfl | h
    · exact List.Subset.refl _
    · rcases List.mem_append.1 h with h | h
      · exact fun v hv => List.mem_cons_of_mem _
          (List.mem_append_left _ (TypeSpec.subterms_trans a u h hv))
      · exact fun v hv => List.mem_cons_of_mem _
          (List.mem_append_right _ (TypeSpec.subterms_trans r u h hv))

theorem TypeSpec.allSubterms_trans (bs : List TypeSpec) (u : TypeSpec)
    (h : u ∈ TypeSpec.allSubterms bs) : u.subterms ⊆ TypeSpec.allSubterms bs := by
  match bs with
  | [] => cases h
  | b :: bs =>
    rcases List.mem_append.1 h with h | h
    · exact fun v hv => List.mem_append_left _ (TypeSpec.subterms_trans b u h hv)
    · exact fun v hv => List.mem_append_right _ (TypeSpec.allSubterms_trans bs u h hv)

end

theorem mem_typesWithin {env : List LindaType} {t : LindaType} (h : t ∈ env) :
    t ∈ typesWithin env :=
  List.mem_flatMap.2 ⟨t, h, List.mem_cons_self⟩

/-- A specification in a type of the environment. -/
theorem branch_mem {env : List LindaType} {t : LindaType} (h : t ∈ typesWithin env)
    {s : TypeSpec} (hs : s ∈ t.typeSpec.subterms) : t.branch s ∈ typesWithin env := by
  obtain ⟨root, hroot, ht⟩ := List.mem_flatMap.1 h
  refine List.mem_flatMap.2 ⟨root, hroot, ?_⟩
  rcases List.mem_cons.1 ht with rfl | ht
  · exact List.mem_cons_of_mem _ (List.mem_map.2 ⟨s, hs, rfl⟩)
  · obtain ⟨u, hu, rfl⟩ := List.mem_map.1 ht
    exact List.mem_cons_of_mem _
      (List.mem_map.2 ⟨s, TypeSpec.subterms_trans root.typeSpec u hu hs, rfl⟩)

/-- An item is a branch of the specification. -/
theorem mem_items {t e : LindaType} (h : e ∈ t.items) :
    ∃ s ∈ t.typeSpec.subterms, e = t.branch s := by
  unfold LindaType.items at h
  split at h
  · rename_i bs hbs
    obtain ⟨s, hs, rfl⟩ := List.mem_map.1 h
    rw [hbs]
    exact ⟨s, List.mem_cons_of_mem _ (TypeSpec.mem_allSubterms hs s.self_mem_subterms), rfl⟩
  · rename_i bs hbs
    obtain ⟨s, hs, rfl⟩ := List.mem_map.1 h
    rw [hbs]
    exact ⟨s, List.mem_cons_of_mem _ (TypeSpec.mem_allSubterms hs s.self_mem_subterms), rfl⟩
  · cases h

/-- The types in the registered ones and some others are closed. -/
theorem typesWithin_closed {c : TypeCache} {env : List LindaType}
    (hc : ∀ i t, c i = some t → t ∈ env) : Closed c (· ∈ typesWithin env) where
  registered i t h := mem_typesWithin (hc i t h)
  items t ht e he := by
    obtain ⟨s, hs, rfl⟩ := mem_items he
    exact branch_mem ht hs
  arg t a r ht h := by
    refine branch_mem ht ?_
    rw [h]
    exact List.mem_cons_of_mem _ (List.mem_append_left _ a.self_mem_subterms)
  result t a r ht h := by
    refine branch_mem ht ?_
    rw [h]
    exact List.mem_cons_of_mem _ (List.mem_append_right _ r.self_mem_subterms)

section
variable {c : TypeCache} {U : LindaType → Prop}

theorem Closed.lookup (hU : Closed c U) {i : Option String} {t : LindaType}
    (h : c.lookupType i = .ok t) : U t := by
  obtain ⟨id, _, hc⟩ := lookupType_ok h
  exact hU.registered id t hc

theorem Closed.denoted (hU : Closed c U) {t nt : LindaType} (h : denoted c t = some nt) : U nt := by
  unfold Types.denoted at h
  split at h
  · rename_i id i _
    by_cases hb : id ∈ builtin
    · rw [if_pos hb] at h
      cases h
    · rw [if_neg hb] at h
      exact hU.registered i nt h
  · cases h

/-! ## Products -/

section
variable {flatten flatten' : LindaType → TypeMemo → Except TypeExc (List LindaType × TypeMemo)}

theorem flattenStale_closed {memo : TypeMemo} {t : Option LindaType} (ht : ∀ u ∈ t, U u)
    {r : List LindaType × TypeMemo × Option LindaType} (h : flattenStale memo t = .ok r) :
    (∀ e ∈ r.1, U e) ∧ ∀ u ∈ r.2.2, U u := by
  cases t with
  | none => cases h
  | some t =>
    cases h
    refine ⟨fun e he => ?_, ht⟩
    obtain rfl := List.mem_singleton.1 he
    exact ht _ rfl

theorem flattenProductItem_closed (hU : Closed c U)
    (hrec : ∀ p memo r, U p → flatten p memo = .ok r → ∀ e ∈ r.1, U e)
    {e : LindaType} (he : U e) {memo : TypeMemo} {t : Option LindaType} (ht : ∀ u ∈ t, U u)
    {r : List LindaType × TypeMemo × Option LindaType}
    (h : flattenProductItem c flatten e memo t = .ok r) :
    (∀ e ∈ r.1, U e) ∧ ∀ u ∈ r.2.2, U u := by
  unfold flattenProductItem at h
  split at h
  · obtain ⟨r', hr, h⟩ := ok_of_bind h
    cases h
    exact ⟨hrec e memo r' he hr, ht⟩
  · rename_i n i _
    by_cases hn : n ∉ builtin
    · rw [if_pos hn] at h
      obtain ⟨u, hu, h⟩ := ok_of_bind h
      have hUu : ∀ v ∈ some u, U v := by
        intro v hv
        cases hv
        exact hU.lookup hu
      by_cases hm : (memo.misses u && u.isProductType) = true
      · rw [if_pos hm] at h
        obtain ⟨r', hr, h⟩ := ok_of_bind h
        cases h
        exact ⟨hrec u memo r' (hU.lookup hu) hr, hUu⟩
      · rw [if_neg hm] at h
        cases h
        refine ⟨fun e he => ?_, hUu⟩
        obtain rfl := List.mem_singleton.1 he
        exact hU.lookup hu
    · rw [if_neg hn] at h
      exact flattenStale_closed ht h
  · exact flattenStale_closed ht h

theorem flattenProductLoop_closed (hU : Closed c U)
    (hrec : ∀ p memo r, U p → flatten p memo = .ok r → ∀ e ∈ r.1, U e) (es : List LindaType) :
    (∀ e ∈ es, U e) → ∀ memo t r, (∀ u ∈ t, U u) → flattenProductLoop c flatten es memo t = .ok r →
      ∀ e ∈ r.1, U e := by
  induction es with
  | nil =>
    intro _ memo t r _ h e he
    cases h
    cases he
  | cons e es ih =>
    intro hes memo t r ht h u hu
    unfold flattenProductLoop at h
    obtain ⟨⟨l₁, m₁, t₁⟩, h₁, h⟩ := ok_of_bind h
    obtain ⟨⟨l₂, m₂⟩, h₂, h⟩ := ok_of_bind h
    cases h
    obtain ⟨hl₁, ht₁⟩ := flattenProductItem_closed hU hrec (hes e List.mem_cons_self) ht h₁
    rcases List.mem_append.1 hu with hu | hu
    · exact hl₁ u hu
    · exact ih (fun v hv => hes v (List.mem_cons_of_mem _ hv)) m₁ t₁ _ ht₁ h₂ u hu

theorem flattenProductMemo_closed (hU : Closed c U) (depth : Nat) : ∀ p memo r, U p →
    flattenProductMemo c depth p memo = .ok r → ∀ e ∈ r.1, U e := by
  induction depth with
  | zero =>
    intro p memo r _ h
    cases h
  | succ depth ih =>
    intro p memo r hp h
    exact flattenProductLoop_closed hU ih p.items (hU.items p hp) _ none r
      (fun u hu => by cases hu) h

theorem flattenProductType_closed (hU : Closed c U) {depth : Nat} {p : LindaType}
    {l : List LindaType} (hp : U p) (h : flattenProductType c depth p = .ok l) : ∀ e ∈ l, U e := by
  unfold flattenProductType at h
  obtain ⟨r, hr, rfl⟩ := ok_of_map h
  exact flattenProductMemo_closed hU depth p [] r hp hr

theorem flattenProductItem_mono
    (hle : ∀ p memo r, flatten p memo = .ok r → flatten' p memo = .ok r)
    {e : LindaType} {memo : TypeMemo} {t : Option LindaType}
    {r : List LindaType × TypeMemo × Option LindaType}
    (h : flattenProductItem c flatten e memo t = .ok r) :
    flattenProductItem c flatten' e memo t = .ok r := by
  unfold flattenProductItem at h ⊢
  split at h
  · obtain ⟨r', hr, h⟩ := ok_of_bind h
    rw [bind_ok (hle _ _ _ hr)]
    exact h
  · rename_i n i _
    by_cases hn : n ∉ builtin
    · rw [if_pos hn] at h ⊢
      obtain ⟨u, hu, h⟩ := ok_of_bind h
      rw [bind_ok hu]
      by_cases hm : (memo.misses u && u.isProductType) = true
      · rw [if_pos hm] at h ⊢
        obtain ⟨r', hr, h⟩ := ok_of_bind h
        rw [bind_ok (hle _ _ _ hr)]
        exact h
      · rw [if_neg hm] at h ⊢
        exact h
    · rw [if_neg hn] at h ⊢
      exact h
  · exact h

theorem flattenProductLoop_mono
    (hle : ∀ p memo r, flatten p memo = .ok r → flatten' p memo = .ok r) (es : List LindaType) :
    ∀ memo t r, flattenProductLoop c flatten es memo t = .ok r →
      flattenProductLoop c flatten' es memo t = .ok r := by
  induction es with
  | nil =>
    intro memo t r h
    exact h
  | cons e es ih =>
    intro memo t r h
    unfold flattenProductLoop at h ⊢
    obtain ⟨⟨l₁, m₁, t₁⟩, h₁, h⟩ := ok_of_bind h
    obtain ⟨⟨l₂, m₂⟩, h₂, h⟩ := ok_of_bind h
    rw [bind_ok (flattenProductItem_mono hle h₁)]
    show (flattenProductLoop c flatten' es m₁ t₁ >>= _) = _
    rw [bind_ok (ih m₁ t₁ _ h₂)]
    exact h

end

theorem flattenProductMemo_mono {depth depth' : Nat} (hle : depth ≤ depth') : ∀ p memo r,
    flattenProductMemo c depth p memo = .ok r → flattenProductMemo c depth' p memo = .ok r := by
  induction depth generalizing depth' with
  | zero =>
    intro p memo r h
    cases h
  | succ depth ih =>
    intro p memo r h
    obtain ⟨d, rfl⟩ : ∃ d, depth' = d + 1 := ⟨depth' - 1, by omega⟩
    exact flattenProductLoop_mono (ih (by omega)) p.items _ none r h

/-- Deeper calls do not change what is returned. -/
theorem flattenProductType_mono {depth depth' : Nat} (hle : depth ≤ depth') {p : LindaType}
    {l : List LindaType} (h : flattenProductType c depth p = .ok l) :
    flattenProductType c depth' p = .ok l := by
  unfold flattenProductType at h ⊢
  obtain ⟨r, hr, rfl⟩ := ok_of_map h
  rw [flattenProductMemo_mono hle p [] r hr]
  rfl

/-! ## Sums -/

section
variable {flatten flatten' :
  LindaType → TypeMemo → List Nat → Except TypeExc (List SumPart × TypeMemo)}

theorem flattenSumItem_closed (hU : Closed c U)
    (hrec : ∀ p memo history r, U p → flatten p memo history = .ok r → ∀ e ∈ r.1, U e.1)
    {e : LindaType} (he : U e) {i : Nat} {memo : TypeMemo} {history : List Nat}
    {r : List SumPart × TypeMemo} (h : flattenSumItem c flatten e i memo history = .ok r) :
    ∀ e ∈ r.1, U e.1 := by
  have hone : ∀ (u : LindaType) (hist : List Nat), U u → ∀ v ∈ [(u, hist)], U v.1 := by
    intro u hist hu v hv
    obtain rfl := List.mem_singleton.1 hv
    exact hu
  unfold flattenSumItem at h
  split at h
  · exact hrec e memo _ r he h
  · rename_i n i' _
    by_cases hn : n ∉ builtin
    · rw [if_pos hn] at h
      obtain ⟨u, hu, h⟩ := ok_of_bind h
      by_cases hm : (memo.misses u && u.isSumType) = true
      · rw [if_pos hm] at h
        exact hrec u memo _ r (hU.lookup hu) h
      · rw [if_neg hm] at h
        cases h
        exact hone u _ (hU.lookup hu)
    · rw [if_neg hn] at h
      cases h
      exact hone e _ he
  · cases h
    exact hone e _ he

theorem flattenSumLoop_closed (hU : Closed c U)
    (hrec : ∀ p memo history r, U p → flatten p memo history = .ok r → ∀ e ∈ r.1, U e.1)
    (history : List Nat) (es : List LindaType) :
    (∀ e ∈ es, U e) → ∀ i memo r, flattenSumLoop c flatten history es i memo = .ok r →
      ∀ e ∈ r.1, U e.1 := by
  induction es with
  | nil =>
    intro _ i memo r h e he
    cases h
    cases he
  | cons e es ih =>
    intro hes i memo r h u hu
    unfold flattenSumLoop at h
    obtain ⟨⟨l₁, m₁⟩, h₁, h⟩ := ok_of_bind h
    obtain ⟨⟨l₂, m₂⟩, h₂, h⟩ := ok_of_bind h
    cases h
    rcases List.mem_append.1 hu with hu | hu
    · exact flattenSumItem_closed hU hrec (hes e List.mem_cons_self) h₁ u hu
    · exact ih (fun v hv => hes v (List.mem_cons_of_mem _ hv)) (i + 1) m₁ _ h₂ u hu

theorem flattenSumMemo_closed (hU : Closed c U) (depth : Nat) : ∀ p memo history r, U p →
    flattenSumMemo c depth p memo history = .ok r → ∀ e ∈ r.1, U e.1 := by
  induction depth with
  | zero =>
    intro p memo history r _ h
    cases h
  | succ depth ih =>
    intro p memo history r hp h
    exact flattenSumLoop_closed hU ih history p.items (hU.items p hp) 0 _ r h

theorem flattenSumType_closed (hU : Closed c U) {depth : Nat} {p : LindaType} {l : List SumPart}
    (hp : U p) (h : flattenSumType c depth p = .ok l) : ∀ e ∈ l, U e.1 := by
  unfold flattenSumType at h
  obtain ⟨r, hr, rfl⟩ := ok_of_map h
  exact flattenSumMemo_closed hU depth p [] [] r hp hr

theorem flattenSumItem_mono
    (hle : ∀ p memo history r, flatten p memo history = .ok r → flatten' p memo history = .ok r)
    {e : LindaType} {i : Nat} {memo : TypeMemo} {history : List Nat}
    {r : List SumPart × TypeMemo} (h : flattenSumItem c flatten e i memo history = .ok r) :
    flattenSumItem c flatten' e i memo history = .ok r := by
  unfold flattenSumItem at h ⊢
  split at h
  · exact hle _ _ _ r h
  · rename_i n i' _
    by_cases hn : n ∉ builtin
    · rw [if_pos hn] at h ⊢
      obtain ⟨u, hu, h⟩ := ok_of_bind h
      rw [bind_ok hu]
      by_cases hm : (memo.misses u && u.isSumType) = true
      · rw [if_pos hm] at h ⊢
        exact hle _ _ _ r h
      · rw [if_neg hm] at h ⊢
        exact h
    · rw [if_neg hn] at h ⊢
      exact h
  · exact h

theorem flattenSumLoop_mono
    (hle : ∀ p memo history r, flatten p memo history = .ok r → flatten' p memo history = .ok r)
    (history : List Nat) (es : List LindaType) :
    ∀ i memo r, flattenSumLoop c flatten history es i memo = .ok r →
      flattenSumLoop c flatten' history es i memo = .ok r := by
  induction es with
  | nil =>
    intro i memo r h
    exact h
  | cons e es ih =>
    intro i memo r h
    unfold flattenSumLoop at h ⊢
    obtain ⟨⟨l₁, m₁⟩, h₁, h⟩ := ok_of_bind h
    obtain ⟨⟨l₂, m₂⟩, h₂, h⟩ := ok_of_bind h
    rw [bind_ok (flattenSumItem_mono hle h₁)]
    show (flattenSumLoop c flatten' history es (i + 1) m₁ >>= _) = _
    rw [bind_ok (ih (i + 1) m₁ _ h₂)]
    exact h

theorem flattenSumMemo_mono {depth depth' : Nat} (hle : depth ≤ depth') : ∀ p memo history r,
    flattenSumMemo c depth p memo history = .ok r →
      flattenSumMemo c depth' p memo history = .ok r := by
  induction depth generalizing depth' with
  | zero =>
    intro p memo history r h
    cases h
  | succ depth ih =>
    intro p memo history r h
    obtain ⟨d, rfl⟩ : ∃ d, depth' = d + 1 := ⟨depth' - 1, by omega⟩
    exact flattenSumLoop_mono (ih (by omega)) history p.items 0 _ r h

theorem flattenSumType_mono {depth depth' : Nat} (hle : depth ≤ depth') {p : LindaType}
    {l : List SumPart} (h : flattenSumType c depth p = .ok l) :
    flattenSumType c depth' p = .ok l := by
  unfold flattenSumType at h ⊢
  obtain ⟨r, hr, rfl⟩ := ok_of_map h
  rw [flattenSumMemo_mono hle p [] [] r hr]
  rfl

end

end

end PyLinda.Types
