import PyLinda.Lib.Except
import PyLinda.Types.Flatten
import PyLinda.Types.Iso

/-!
# What flattening returns

`flattenProductType` returns the parts of a product if all of them are products or names;
`flattenSumType` returns the parts of a sum.
-/

namespace PyLinda.Types

open Lib

section
variable (c : TypeCache)

/-- All parts of the product are products or registered names, and so inside them. -/
def NamedProduct (p : LindaType) : Prop :=
  ∃ S : LindaType → Prop, S p ∧ ∀ q, S q → ∀ e ∈ q.items,
    (e.isProductType → S e) ∧
      (¬ e.isProductType → ∃ nt, denoted c e = some nt ∧ (nt.isProductType → S nt))

/-- The types of the list, one after the other, with the products among them and the products
that are behind names taken apart; other names are replaced by what they denote. -/
inductive Flattens : List LindaType → List LindaType → Prop
  | nil : Flattens [] []
  | nested (e : LindaType) (es l l' : List LindaType) : e.isProductType → Flattens e.items l →
    Flattens es l' → Flattens (e :: es) (l ++ l')
  | name (e nt : LindaType) (es l l' : List LindaType) : denoted c e = some nt →
    nt.isProductType → Flattens nt.items l → Flattens es l' → Flattens (e :: es) (l ++ l')
  | part (e nt : LindaType) (es l' : List LindaType) : denoted c e = some nt →
    ¬ nt.isProductType → Flattens es l' → Flattens (e :: es) (nt :: l')

end

section
variable {c : TypeCache}

theorem lookupType_ok {i : Option String} {t : LindaType} (h : c.lookupType i = .ok t) :
    ∃ id, i = some id ∧ c id = some t := by
  cases i with
  | none => cases h
  | some id =>
    unfold TypeCache.lookupType at h
    cases hc : c id with
    | none => simp only [hc] at h; cases h
    | some u =>
      simp only [hc] at h
      cases h
      exact ⟨id, rfl, hc⟩

/-- A name that is looked up denotes what is found. -/
theorem denoted_of_lookup {e t : LindaType} {n : String} {i : Option String}
    (he : e.typeSpec = .id n i) (hn : n ∉ builtin) (ht : c.lookupType i = .ok t) :
    denoted c e = some t := by
  obtain ⟨id, rfl, hc⟩ := lookupType_ok ht
  unfold denoted
  simp only [he, if_neg hn, hc]

/-- The name of an alias, and where it leads. -/
theorem spec_of_denoted {t nt : LindaType} (h : denoted c t = some nt) :
    ∃ id i, t.typeSpec = .id id (some i) ∧ id ∉ builtin ∧ c i = some nt := by
  unfold denoted at h
  split at h
  · rename_i id i hs
    by_cases hb : id ∈ builtin
    · rw [if_pos hb] at h
      cases h
    · rw [if_neg hb] at h
      exact ⟨id, i, hs, hb, h⟩
  · cases h

theorem productItems_eq {t : LindaType} (h : t.isProductType) : productItems t = some t.items :=
  if_pos h

theorem sumItems_eq {t : LindaType} (h : t.isSumType) : sumItems t = some t.items := if_pos h

theorem ItemParts.parts {items : LindaType → Option (List LindaType)} {t : LindaType}
    {l : List LindaType} (h : ItemParts c items t l) : Parts c items t l := by
  obtain ⟨ts, ls, hts, hls, rfl⟩ := h
  exact .nested t ts ls hts hls

/-! ## Products -/

/-- A product has no id of a name, so it is never in the memo. -/
theorem misses_product (memo : TypeMemo) {t : LindaType} (h : t.isProductType) :
    memo.misses t = true := by
  unfold LindaType.isProductType at h
  unfold TypeMemo.misses LindaType.idTypeId
  split at h
  · rename_i bs hbs
    rw [hbs]
    rfl
  · cases h

section
variable {S : LindaType → Prop}
  {flatten : LindaType → TypeMemo → Except TypeExc (List LindaType × TypeMemo)}

theorem flattenProductItem_flattens
    (hrec : ∀ p memo l memo', S p → flatten p memo = .ok (l, memo') → Flattens c p.items l)
    {e : LindaType} (hprod : e.isProductType → S e)
    (hname : ¬ e.isProductType → ∃ nt, denoted c e = some nt ∧ (nt.isProductType → S nt))
    {memo memo' : TypeMemo} {t t' : Option LindaType} {l : List LindaType}
    (h : flattenProductItem c flatten e memo t = .ok (l, memo', t')) {es l' : List LindaType}
    (hes : Flattens c es l') : Flattens c (e :: es) (l ++ l') := by
  by_cases hp : e.isProductType
  · have hspec : ∃ bs, e.typeSpec = .product bs := by
      unfold LindaType.isProductType at hp
      split at hp
      · exact ⟨_, ‹_›⟩
      · cases hp
    obtain ⟨bs, hbs⟩ := hspec
    unfold flattenProductItem at h
    simp only [hbs] at h
    obtain ⟨r, hr, h⟩ := ok_of_bind h
    cases h
    exact .nested e es _ l' hp (hrec e memo _ _ (hprod hp) hr) hes
  · obtain ⟨nt, hd, hS⟩ := hname hp
    obtain ⟨n, i, he, hn, hc⟩ := spec_of_denoted hd
    unfold flattenProductItem at h
    simp only [he, if_pos hn] at h
    obtain ⟨u, hu, h⟩ := ok_of_bind h
    obtain ⟨_, hi, hcu⟩ := lookupType_ok hu
    cases hi
    obtain rfl : nt = u := Option.some.inj (hc.symm.trans hcu)
    by_cases hpt : nt.isProductType
    · rw [if_pos (by rw [misses_product memo hpt, hpt]; rfl)] at h
      obtain ⟨r, hr, h⟩ := ok_of_bind h
      cases h
      exact .name e nt es _ l' hd hpt (hrec nt memo _ _ (hS hpt) hr) hes
    · rw [if_neg (fun hm => hpt (Bool.and_eq_true _ _ ▸ hm).2)] at h
      cases h
      exact .part e nt es l' hd hpt hes

theorem flattenProductLoop_flattens
    (hrec : ∀ p memo l memo', S p → flatten p memo = .ok (l, memo') → Flattens c p.items l)
    (es : List LindaType) :
    (∀ e ∈ es, (e.isProductType → S e) ∧
      (¬ e.isProductType → ∃ nt, denoted c e = some nt ∧ (nt.isProductType → S nt))) →
    ∀ memo memo' t l, flattenProductLoop c flatten es memo t = .ok (l, memo') →
      Flattens c es l := by
  induction es with
  | nil =>
    intro _ memo memo' t l h
    cases h
    exact .nil
  | cons e es ih =>
    intro hS memo memo' t l h
    unfold flattenProductLoop at h
    obtain ⟨⟨l₁, m₁, t₁⟩, h₁, h⟩ := ok_of_bind h
    obtain ⟨⟨l₂, m₂⟩, h₂, h⟩ := ok_of_bind h
    cases h
    have he := hS e List.mem_cons_self
    exact flattenProductItem_flattens hrec he.1 he.2 h₁
      (ih (fun u hu => hS u (List.mem_cons_of_mem _ hu)) m₁ _ t₁ l₂ h₂)

end

theorem flattenProductMemo_flattens {S : LindaType → Prop}
    (hS : ∀ q, S q → ∀ e ∈ q.items, (e.isProductType → S e) ∧
      (¬ e.isProductType → ∃ nt, denoted c e = some nt ∧ (nt.isProductType → S nt)))
    (depth : Nat) : ∀ p memo l memo', S p → flattenProductMemo c depth p memo = .ok (l, memo') →
      Flattens c p.items l := by
  induction depth with
  | zero =>
    intro p memo l memo' _ h
    cases h
  | succ depth ih =>
    intro p memo l memo' hp h
    exact flattenProductLoop_flattens ih p.items (hS p hp) _ _ none l h

/-- What flattening a product returns, if all its parts are products or names. -/
theorem flattenProductType_flattens {depth : Nat} {p : LindaType} {l : List LindaType}
    (hn : NamedProduct c p) (h : flattenProductType c depth p = .ok l) : Flattens c p.items l := by
  obtain ⟨S, hSp, hS⟩ := hn
  unfold flattenProductType at h
  obtain ⟨r, hr, rfl⟩ := ok_of_map h
  exact flattenProductMemo_flattens hS depth p [] r.1 r.2 hSp hr

theorem Flattens.parts {es l : List LindaType} (h : Flattens c es l) :
    ∃ ls, List.Forall₂ (Parts c productItems) es ls ∧ l = ls.flatten := by
  induction h with
  | nil => exact ⟨[], .nil, rfl⟩
  | nested e es l l' hp _ _ ih ih' =>
    obtain ⟨ls, hls, rfl⟩ := ih
    obtain ⟨ls', hls', rfl⟩ := ih'
    exact ⟨_ :: ls', .cons (.nested e _ ls (productItems_eq hp) hls) hls', rfl⟩
  | name e nt es l l' hd hp _ _ ih ih' =>
    obtain ⟨ls, hls, rfl⟩ := ih
    obtain ⟨ls', hls', rfl⟩ := ih'
    exact ⟨_ :: ls', .cons (.name e nt _ hd (.nested nt _ ls (productItems_eq hp) hls)) hls', rfl⟩
  | part e nt es l' hd _ _ ih' =>
    obtain ⟨ls', hls', rfl⟩ := ih'
    exact ⟨[nt] :: ls', .cons (.name e nt _ hd (.whole nt)) hls', rfl⟩

/-- The flattened product is its parts. -/
theorem flattenProductType_parts {depth : Nat} {p : LindaType} {l : List LindaType}
    (hn : NamedProduct c p) (hp : p.isProductType) (h : flattenProductType c depth p = .ok l) :
    ItemParts c productItems p l := by
  obtain ⟨ls, hls, rfl⟩ := (flattenProductType_flattens hn h).parts
  exact ⟨p.items, ls, productItems_eq hp, hls, rfl⟩

/-! ## Sums -/

section
variable {flatten : LindaType → TypeMemo → List Nat → Except TypeExc (List SumPart × TypeMemo)}

theorem flattenSumItem_parts
    (hrec : ∀ p memo history l memo', p.isSumType → flatten p memo history = .ok (l, memo') →
      ItemParts c sumItems p (l.map Prod.fst))
    {e : LindaType} {i : Nat} {memo memo' : TypeMemo} {history : List Nat} {l : List SumPart}
    (h : flattenSumItem c flatten e i memo history = .ok (l, memo')) :
    Parts c sumItems e (l.map Prod.fst) := by
  unfold flattenSumItem at h
  split at h
  · rename_i bs he
    have hs : e.isSumType := by
      unfold LindaType.isSumType
      rw [he]
    exact (hrec e memo _ _ _ hs h).parts
  · rename_i n typeId he
    by_cases hn : n ∉ builtin
    · rw [if_pos hn] at h
      obtain ⟨t, ht, h⟩ := ok_of_bind h
      have hd := denoted_of_lookup he hn ht
      by_cases hm : (memo.misses t && t.isSumType) = true
      · rw [if_pos hm] at h
        have hst : t.isSumType := (Bool.and_eq_true _ _ ▸ hm).2
        exact .name e t _ hd (hrec t memo _ _ _ hst h).parts
      · rw [if_neg hm] at h
        cases h
        exact .name e t _ hd (.whole t)
    · rw [if_neg hn] at h
      cases h
      exact .whole e
  · cases h
    exact .whole e

theorem flattenSumLoop_parts
    (hrec : ∀ p memo history l memo', p.isSumType → flatten p memo history = .ok (l, memo') →
      ItemParts c sumItems p (l.map Prod.fst))
    (history : List Nat) (es : List LindaType) :
    ∀ i memo memo' l, flattenSumLoop c flatten history es i memo = .ok (l, memo') →
      ∃ ls, List.Forall₂ (Parts c sumItems) es ls ∧ l.map Prod.fst = ls.flatten := by
  induction es with
  | nil =>
    intro i memo memo' l h
    cases h
    exact ⟨[], .nil, rfl⟩
  | cons e es ih =>
    intro i memo memo' l h
    unfold flattenSumLoop at h
    obtain ⟨⟨l₁, m₁⟩, h₁, h⟩ := ok_of_bind h
    obtain ⟨⟨l₂, m₂⟩, h₂, h⟩ := ok_of_bind h
    cases h
    obtain ⟨ls, hls, he⟩ := ih (i + 1) m₁ _ l₂ h₂
    refine ⟨l₁.map Prod.fst :: ls, .cons (flattenSumItem_parts hrec h₁) hls, ?_⟩
    rw [List.map_append, he]
    rfl

end

theorem flattenSumMemo_parts (depth : Nat) : ∀ p memo history l memo', p.isSumType →
    flattenSumMemo c depth p memo history = .ok (l, memo') →
      ItemParts c sumItems p (l.map Prod.fst) := by
  induction depth with
  | zero =>
    intro p memo history l memo' _ h
    cases h
  | succ depth ih =>
    intro p memo history l memo' hs h
    obtain ⟨ls, hls, he⟩ := flattenSumLoop_parts ih history p.items 0 _ _ l h
    exact ⟨p.items, ls, sumItems_eq hs, hls, he⟩

/-- The flattened sum is its parts. -/
theorem flattenSumType_parts {depth : Nat} {p : LindaType} {l : List SumPart} (hp : p.isSumType)
    (h : flattenSumType c depth p = .ok l) : ItemParts c sumItems p (l.map Prod.fst) := by
  unfold flattenSumType at h
  obtain ⟨r, hr, rfl⟩ := ok_of_map h
  exact flattenSumMemo_parts depth p [] [] r.1 r.2 hp hr

end

end PyLinda.Types
