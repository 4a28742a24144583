/-!
# Dictionaries

A Python dictionary as its entries in iteration order, no key twice. Where a new
key lands among the others is up to the hash table; `set` puts it first and
`Rehash` lets the order change.
-/

namespace Lib

structure Dict (κ ν : Type) where
  entries : List (κ × ν)
  nodup : (entries.map Prod.fst).Nodup

namespace Dict

variable {κ ν : Type}

def empty : Dict κ ν := ⟨[], by simp⟩

def keys (d : Dict κ ν) : List κ := d.entries.map Prod.fst

/-- A sublist of the entries in their order. -/
def restrict (d : Dict κ ν) (l : List (κ × ν)) (h : l.Sublist d.entries) : Dict κ ν :=
  ⟨l, d.nodup.sublist (h.map _)⟩

/-- The same entries in another order. -/
def Rehash (d d' : Dict κ ν) : Prop := d.entries.Perm d'.entries

theorem Rehash.mem_iff {d d' : Dict κ ν} (h : d.Rehash d') {e : κ × ν} :
    e ∈ d'.entries ↔ e ∈ d.entries :=
  (List.Perm.mem_iff h).symm

theorem ext {d d' : Dict κ ν} (h : d.entries = d'.entries) : d = d' := by
  cases d; cases d'; simp_all

theorem mem_keys {d : Dict κ ν} {k : κ} : k ∈ d.keys ↔ ∃ v, (k, v) ∈ d.entries := by
  simp [keys]

variable [DecidableEq κ]

/-- `del d[k]`. -/
def erase (d : Dict κ ν) (k : κ) : Dict κ ν :=
  d.restrict (d.entries.filter fun e => e.1 ≠ k) List.filter_sublist

/-- `d[k] = v`. -/
def set (d : Dict κ ν) (k : κ) (v : ν) : Dict κ ν where
  entries := (k, v) :: (d.erase k).entries
  nodup := by
    refine List.nodup_cons.2 ⟨?_, (d.erase k).nodup⟩
    simp [erase, restrict]

/-- `d.get(k)`. -/
def get? (d : Dict κ ν) (k : κ) : Option ν :=
  (d.entries.find? fun e => e.1 = k).map Prod.snd

theorem mem_erase {d : Dict κ ν} {k : κ} {e : κ × ν} :
    e ∈ (d.erase k).entries ↔ e ∈ d.entries ∧ e.1 ≠ k := by
  simp [erase, restrict]

theorem mem_set {d : Dict κ ν} {k : κ} {v : ν} {e : κ × ν} :
    e ∈ (d.set k v).entries ↔ e = (k, v) ∨ e ∈ d.entries ∧ e.1 ≠ k := by
  simp [set, mem_erase]

theorem get?_eq_some {d : Dict κ ν} {k : κ} {v : ν} (h : (k, v) ∈ d.entries) :
    d.get? k = some v := by
  obtain ⟨l, hl⟩ := d
  simp only [get?]
  induction l with
  | nil => cases h
  | cons e l ih =>
    rw [List.map_cons, List.nodup_cons] at hl
    rw [List.find?_cons]
    rcases List.mem_cons.1 h with rfl | hm
    · simp
    · have hne : e.1 ≠ k := by
        rintro rfl
        exact hl.1 (List.mem_map.2 ⟨_, hm, rfl⟩)
      simpa [hne] using ih hl.2 hm

theorem get?_eq_some_iff {d : Dict κ ν} {k : κ} {v : ν} :
    d.get? k = some v ↔ (k, v) ∈ d.entries := by
  constructor
  · intro h
    obtain ⟨e, he, rfl⟩ := Option.map_eq_some_iff.1 h
    have hk := List.find?_some he
    rw [decide_eq_true_eq] at hk
    rw [← hk]
    exact List.mem_of_find?_eq_some he
  · exact get?_eq_some

theorem mem_keys_of_get? {d : Dict κ ν} {k : κ} {v : ν} (h : d.get? k = some v) : k ∈ d.keys :=
  mem_keys.2 ⟨v, get?_eq_some_iff.1 h⟩

theorem get?_erase_self {d : Dict κ ν} {k : κ} : (d.erase k).get? k = none := by
  simp [get?, erase, restrict]

theorem get?_erase_ne {d : Dict κ ν} {k k' : κ} (h : k' ≠ k) : (d.erase k).get? k' = d.get? k' := by
  refine Option.ext fun v => ?_
  rw [get?_eq_some_iff, get?_eq_some_iff, mem_erase]
  simp [h]

theorem erase_of_notMem {d : Dict κ ν} {k : κ} (h : k ∉ d.keys) : (d.erase k).entries = d.entries := by
  refine List.filter_eq_self.2 fun e he => ?_
  have hne : e.1 ≠ k := fun heq => h (heq ▸ List.mem_map_of_mem he)
  simpa using hne

/-- An entry and the others. -/
theorem perm_erase {d : Dict κ ν} {k : κ} {v : ν} (h : d.get? k = some v) :
    d.entries.Perm ((k, v) :: (d.erase k).entries) := by
  have hmem : (k, v) ∈ d.entries := get?_eq_some_iff.1 h
  obtain ⟨l, hl⟩ := d
  simp only [erase, restrict] at hmem ⊢
  clear h
  induction l with
  | nil => cases hmem
  | cons e l ih =>
    rw [List.map_cons, List.nodup_cons] at hl
    rcases List.mem_cons.1 hmem with rfl | hm
    · have hrest : l.filter (fun e => e.1 ≠ k) = l := by
        refine List.filter_eq_self.2 fun e he => ?_
        have hne : e.1 ≠ k := by
          rintro rfl
          exact hl.1 (List.mem_map.2 ⟨e, he, rfl⟩)
        simpa using hne
      rw [List.filter_cons_of_neg (by simp), hrest]
    · have hne : e.1 ≠ k := by
        rintro rfl
        exact hl.1 (List.mem_map.2 ⟨_, hm, rfl⟩)
      rw [List.filter_cons_of_pos (by simpa using hne)]
      exact ((ih hl.2 hm).cons e).trans (.swap _ _ _)

theorem get?_set_self {d : Dict κ ν} {k : κ} {v : ν} : (d.set k v).get? k = some v := by
  simp [get?, set]

theorem get?_set_ne {d : Dict κ ν} {k k' : κ} {v : ν} (h : k' ≠ k) :
    (d.set k v).get? k' = d.get? k' := by
  refine Option.ext fun v => ?_
  rw [get?_eq_some_iff, get?_eq_some_iff, mem_set]
  simp [h]

end Dict

end Lib
