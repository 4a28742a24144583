import PyLinda.Lib.Acyclic
import PyLinda.Types.Universe

/-!
# What flattening is for

The leaves of a product or a sum, left to right, each with the positions that lead to it.
Nested types of the kind are taken apart, and so are names of such types unless the type they
stand for is being taken apart already.
-/

namespace PyLinda.Types

open Lib

/-- A name that the server does not take for built in. -/
def LindaType.IsName (e : LindaType) : Prop := ∃ n i, e.typeSpec = .id n i ∧ n ∉ builtin

section
variable (kind : LindaType → Bool) (c : TypeCache)

/-- Taking `q` apart leads to `q'`, which is an item or what a name among the items denotes. -/
def Opens (q q' : LindaType) : Prop :=
  kind q' = true ∧ ∃ e ∈ q.items, e = q' ∨ denoted c e = some q'

/-- The leaves of a list of items, the first of which has position `i` below `history`; the
types of `path` are being taken apart. -/
inductive Leaves : List LindaType → List Nat → Nat → List LindaType → List SumPart → Prop
  | nil (path : List LindaType) (history : List Nat) (i : Nat) : Leaves path history i [] []
  | nested (path : List LindaType) (history : List Nat) (i : Nat) (e : LindaType)
    (es : List LindaType) (l l' : List SumPart) : kind e = true →
    Leaves path (history ++ [i]) 0 e.items l → Leaves path history (i + 1) es l' →
    Leaves path history i (e :: es) (l ++ l')
  | opened (path : List LindaType) (history : List Nat) (i : Nat) (e nt : LindaType)
    (es : List LindaType) (l l' : List SumPart) : denoted c e = some nt → kind nt = true →
    nt ∉ path → Leaves (nt :: path) (history ++ [i]) 0 nt.items l →
    Leaves path history (i + 1) es l' → Leaves path history i (e :: es) (l ++ l')
  | named (path : List LindaType) (history : List Nat) (i : Nat) (e nt : LindaType)
    (es : List LindaType) (l' : List SumPart) : denoted c e = some nt →
    (kind nt = true → nt ∈ path) → Leaves path history (i + 1) es l' →
    Leaves path history i (e :: es) ((nt, history ++ [i]) :: l')
  | leaf (path : List LindaType) (history : List Nat) (i : Nat) (e : LindaType)
    (es : List LindaType) (l' : List SumPart) : kind e = false → ¬ e.IsName →
    Leaves path history (i + 1) es l' →
    Leaves path history i (e :: es) ((e, history ++ [i]) :: l')

end

section
variable (c : TypeCache)

/-- Flattening the product comes to an end and returns the leaves. -/
def FlattensProduct (p : LindaType) : Prop :=
  ∃ l, Leaves LindaType.isProductType c [p] [] 0 p.items l ∧
    ∃ depth, flattenProductType c depth p = .ok (l.map Prod.fst)

/-- Flattening the sum comes to an end and returns the leaves with the positions. -/
def FlattensSum (s : LindaType) : Prop :=
  ∃ l, Leaves LindaType.isSumType c [s] [] 0 s.items l ∧
    ∃ depth, flattenSumType c depth s = .ok l

end

section
variable {c : TypeCache}

theorem isName_of_denoted {e nt : LindaType} (h : denoted c e = some nt) : e.IsName := by
  obtain ⟨n, i, he, hn, _⟩ := spec_of_denoted h
  exact ⟨n, some i, he, hn⟩

theorem denoted_of_not_isName {e : LindaType} (h : ¬ e.IsName) : denoted c e = none := by
  cases hd : denoted c e with
  | none => rfl
  | some nt => exact absurd (isName_of_denoted hd) h

/-- A name that is not registered is not found. -/
theorem lookupType_unbound {e : LindaType} {n : String} {i : Option String}
    (he : e.typeSpec = .id n i) (hn : n ∉ builtin) (hd : denoted c e = none) :
    c.lookupType i = .error .keyError := by
  cases i with
  | none => rfl
  | some i =>
    unfold denoted at hd
    simp only [he, if_neg hn] at hd
    unfold TypeCache.lookupType
    simp only [hd]

theorem not_isName_of_product {e : LindaType} (h : e.isProductType = true) : ¬ e.IsName := by
  rintro ⟨n, i, he, _⟩
  unfold LindaType.isProductType at h
  rw [he] at h
  cases h

theorem not_isName_of_sum {e : LindaType} (h : e.isSumType = true) : ¬ e.IsName := by
  rintro ⟨n, i, he, _⟩
  unfold LindaType.isSumType at h
  rw [he] at h
  cases h

/-! ## The rounds of the loop over a product -/

section
variable {flatten : LindaType → TypeMemo → Except TypeExc (List LindaType × TypeMemo)}
  {e nt : LindaType} (memo : TypeMemo) (t : Option LindaType)

theorem flattenProductItem_nested (h : e.isProductType = true) :
    flattenProductItem c flatten e memo t =
      (flatten e memo >>= fun r => .ok (r.1, r.2, t)) := by
  unfold LindaType.isProductType at h
  unfold flattenProductItem
  split at h
  · rename_i bs hbs
    rw [hbs]
  · cases h

theorem flattenProductItem_opened (h : denoted c e = some nt) (hp : nt.isProductType = true) :
    flattenProductItem c flatten e memo t =
      (flatten nt memo >>= fun r => .ok (r.1, r.2, some nt)) := by
  obtain ⟨n, i, he, hn, hc⟩ := spec_of_denoted h
  unfold flattenProductItem TypeCache.lookupType
  simp only [he, if_pos hn, hc]
  show (if (memo.misses nt && nt.isProductType) = true then _ else _) = _
  rw [misses_product memo hp, hp]
  rfl

theorem flattenProductItem_named (h : denoted c e = some nt) (hp : nt.isProductType = false) :
    flattenProductItem c flatten e memo t = .ok ([nt], memo, some nt) := by
  obtain ⟨n, i, he, hn, hc⟩ := spec_of_denoted h
  unfold flattenProductItem TypeCache.lookupType
  simp only [he, if_pos hn, hc]
  show (if (memo.misses nt && nt.isProductType) = true then _ else _) = _
  rw [hp, Bool.and_false]
  rfl

theorem flattenProductItem_unbound (h : e.IsName) (hd : denoted c e = none) :
    flattenProductItem c flatten e memo t = .error .keyError := by
  obtain ⟨n, i, he, hn⟩ := h
  unfold flattenProductItem
  simp only [he, if_pos hn, lookupType_unbound he hn hd]
  rfl

theorem flattenProductItem_leaf (hp : e.isProductType = false) (h : ¬ e.IsName) :
    flattenProductItem c flatten e memo t = flattenStale memo t := by
  unfold flattenProductItem
  unfold LindaType.isProductType at hp
  split at hp
  · cases hp
  · rename_i hnp
    split
    · exact absurd ‹_› (hnp _)
    · rename_i n i he
      rw [if_neg fun hn => h ⟨n, i, he, hn⟩]
    · rfl

end

/-! ## The rounds of the loop over a sum -/

/-- A sum has no id of a name, so it is never in the memo. -/
theorem misses_sum (memo : TypeMemo) {t : LindaType} (h : t.isSumType = true) :
    memo.misses t = true := by
  unfold LindaType.isSumType at h
  unfold TypeMemo.misses LindaType.idTypeId
  split at h
  · rename_i bs hbs
    rw [hbs]
    rfl
  · cases h

section
variable {flatten : LindaType → TypeMemo → List Nat → Except TypeExc (List SumPart × TypeMemo)}
  {e nt : LindaType} (i : Nat) (memo : TypeMemo) (history : List Nat)

theorem flattenSumItem_nested (h : e.isSumType = true) :
    flattenSumItem c flatten e i memo history = flatten e memo (history ++ [i]) := by
  unfold LindaType.isSumType at h
  unfold flattenSumItem
  split at h
  · rename_i bs hbs
    rw [hbs]
  · cases h

theorem flattenSumItem_opened (h : denoted c e = some nt) (hs : nt.isSumType = true) :
    flattenSumItem c flatten e i memo history = flatten nt memo [] := by
  obtain ⟨n, id, he, hn, hc⟩ := spec_of_denoted h
  unfold flattenSumItem TypeCache.lookupType
  simp only [he, if_pos hn, hc]
  show (if (memo.misses nt && nt.isSumType) = true then _ else _) = _
  rw [misses_sum memo hs, hs]
  rfl

theorem flattenSumItem_named (h : denoted c e = some nt) (hs : nt.isSumType = false) :
    flattenSumItem c flatten e i memo history = .ok ([(nt, history ++ [i])], memo) := by
  obtain ⟨n, id, he, hn, hc⟩ := spec_of_denoted h
  unfold flattenSumItem TypeCache.lookupType
  simp only [he, if_pos hn, hc]
  show (if (memo.misses nt && nt.isSumType) = true then _ else _) = _
  rw [hs, Bool.and_false]
  rfl

theorem flattenSumItem_unbound (h : e.IsName) (hd : denoted c e = none) :
    flattenSumItem c flatten e i memo history = .error .keyError := by
  obtain ⟨n, id, he, hn⟩ := h
  unfold flattenSumItem
  simp only [he, if_pos hn, lookupType_unbound he hn hd]
  rfl

theorem flattenSumItem_leaf (hs : e.isSumType = false) (h : ¬ e.IsName) :
    flattenSumItem c flatten e i memo history = .ok ([(e, history ++ [i])], memo) := by
  unfold flattenSumItem
  unfold LindaType.isSumType at hs
  split at hs
  · cases hs
  · rename_i hns
    split
    · exact absurd ‹_› (hns _)
    · rename_i n id he
      rw [if_neg fun hn => h ⟨n, id, he, hn⟩]
    · rfl

end

end

end PyLinda.Types
