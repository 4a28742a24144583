/-!
# Buffers

Copies between buffers of bytes that stay inside both, and the C string at the start of a
buffer.
-/

namespace Lib

/-- `malloc`; what is in the new buffer is up to chance. -/
def malloc (junk : Nat → UInt8) (size : Nat) : List UInt8 := (List.range size).map junk

/-- `memcpy(&dst[off], src, n)`, which may not leave the buffers. -/
def memcpy (dst : List UInt8) (off : Nat) (src : List UInt8) (n : Nat) : Option (List UInt8) :=
  if off + n ≤ dst.length ∧ n ≤ src.length then
    some (dst.take off ++ (src.take n ++ dst.drop (off + n)))
  else none

/-- `dst[i] = b`, which may not leave the buffer. -/
def setByte (dst : List UInt8) (i : Nat) (b : UInt8) : Option (List UInt8) :=
  if i < dst.length then some (dst.set i b) else none

/-- The characters up to the first NUL, where there is one. -/
def cString (buf : List UInt8) : Option (List UInt8) :=
  if 0 ∈ buf then some (buf.takeWhile (· ≠ 0)) else none

@[simp] theorem malloc_length (junk : Nat → UInt8) (size : Nat) :
    (malloc junk size).length = size := by
  unfold malloc
  rw [List.length_map, List.length_range]

/-! ## Copies -/

theorem memcpy_inside {dst src : List UInt8} {off n : Nat} (hdst : off + n ≤ dst.length)
    (hsrc : n ≤ src.length) :
    memcpy dst off src n = some (dst.take off ++ (src.take n ++ dst.drop (off + n))) :=
  if_pos ⟨hdst, hsrc⟩

theorem memcpy_outside {dst src : List UInt8} {off n : Nat} (h : dst.length < off + n) :
    memcpy dst off src n = none :=
  if_neg fun h' => by omega

theorem setByte_inside {dst : List UInt8} {i : Nat} {b : UInt8} (h : i < dst.length) :
    setByte dst i b = some (dst.set i b) :=
  if_pos h

/-- A buffer that is copied over from end to end. -/
theorem memcpy_whole {dst src : List UInt8} {n : Nat} (hdst : dst.length = n)
    (hsrc : n ≤ src.length) : memcpy dst 0 src n = some (src.take n) := by
  rw [memcpy_inside (by omega) hsrc, List.take_zero, List.nil_append, Nat.zero_add, ← hdst,
    List.drop_length, List.append_nil]

theorem memcpy_length {dst src r : List UInt8} {off n : Nat}
    (h : memcpy dst off src n = some r) : r.length = dst.length := by
  unfold memcpy at h
  split at h
  · rename_i hin
    cases h
    simp only [List.length_append, List.length_take, List.length_drop]
    omega
  · cases h

theorem memcpy_in {dst src r : List UInt8} {off n : Nat} (h : memcpy dst off src n = some r) :
    off + n ≤ dst.length ∧ n ≤ src.length := by
  unfold memcpy at h
  split at h
  · assumption
  · cases h

/-- What is copied is there. -/
theorem memcpy_copied {dst src r : List UInt8} {off n : Nat} (h : memcpy dst off src n = some r) :
    (r.drop off).take n = src.take n := by
  have hin := memcpy_in h
  rw [memcpy_inside hin.1 hin.2] at h
  cases h
  rw [List.drop_append_of_le_length (by rw [List.length_take]; omega),
    List.drop_of_length_le (by rw [List.length_take]; omega), List.nil_append,
    List.take_append_of_le_length (by rw [List.length_take]; omega), List.take_take, Nat.min_self]

/-- What lies before the place that is copied to stays. -/
theorem memcpy_take {dst src r : List UInt8} {off n k : Nat} (h : memcpy dst off src n = some r)
    (hk : k ≤ off) : r.take k = dst.take k := by
  unfold memcpy at h
  split at h
  · rename_i hin
    cases h
    rw [List.take_append_of_le_length (by rw [List.length_take]; omega), List.take_take,
      Nat.min_eq_left hk]
  · cases h

theorem setByte_length {dst r : List UInt8} {i : Nat} {b : UInt8} (h : setByte dst i b = some r) :
    r.length = dst.length := by
  unfold setByte at h
  split at h
  · cases h
    exact List.length_set
  · cases h

theorem setByte_take {dst r : List UInt8} {i k : Nat} {b : UInt8} (h : setByte dst i b = some r)
    (hk : k ≤ i) : r.take k = dst.take k := by
  unfold setByte at h
  split at h
  · cases h
    exact List.take_set_of_le hk
  · cases h

/-! ## C strings -/

/-- A buffer with a C string is the string, a NUL and something behind it. -/
theorem cString_iff {buf s : List UInt8} :
    cString buf = some s ↔ 0 ∉ s ∧ ∃ rest, buf = s ++ 0 :: rest := by
  induction buf generalizing s with
  | nil =>
    constructor
    · intro h
      cases h
    · intro ⟨_, rest, h⟩
      exact absurd h.symm (List.append_ne_nil_of_right_ne_nil _ (List.cons_ne_nil _ _))
  | cons c buf ih =>
    by_cases hc : c = 0
    · have hstring : cString (c :: buf) = some [] := by
        unfold cString
        rw [if_pos (by rw [hc]; exact List.mem_cons_self), List.takeWhile_cons_of_neg]
        simp [hc]
      rw [hstring]
      constructor
      · intro h
        cases h
        exact ⟨List.not_mem_nil, buf, by rw [hc]; rfl⟩
      · intro ⟨hs, rest, h⟩
        cases s with
        | nil => rfl
        | cons d s =>
          injection h with hd
          exact absurd (hd ▸ hc ▸ List.mem_cons_self) hs
    · have hstring : cString (c :: buf) = (cString buf).map (c :: ·) := by
        unfold cString
        by_cases hmem : 0 ∈ buf
        · rw [if_pos hmem, if_pos (List.mem_cons_of_mem _ hmem), List.takeWhile_cons_of_pos]
          · rfl
          · simp [hc]
        · rw [if_neg hmem, if_neg]
          · rfl
          · intro h
            cases List.mem_cons.1 h with
            | inl h => exact hc h.symm
            | inr h => exact hmem h
      rw [hstring, Option.map_eq_some_iff]
      constructor
      · intro ⟨t, ht, hs⟩
        obtain ⟨hnot, rest, hrest⟩ := ih.1 ht
        subst hs
        refine ⟨fun h => ?_, rest, by rw [hrest]; rfl⟩
        cases List.mem_cons.1 h with
        | inl h => exact hc h.symm
        | inr h => exact hnot h
      · intro ⟨hs, rest, h⟩
        cases s with
        | nil =>
          injection h with hd
          exact absurd hd hc
        | cons d s =>
          injection h with hd h
          subst hd
          exact ⟨s, ih.2 ⟨fun hm => hs (List.mem_cons_of_mem _ hm), rest, h⟩, rfl⟩

/-- What lies behind a C string does not matter. -/
theorem cString_append {buf s : List UInt8} (h : cString buf = some s) (rest : List UInt8) :
    cString (buf ++ rest) = some s := by
  obtain ⟨hs, tail, rfl⟩ := cString_iff.1 h
  exact cString_iff.2 ⟨hs, tail ++ rest, by rw [List.append_assoc]; rfl⟩

/-- A buffer that starts with a buffer has its C string. -/
theorem cString_of_take {buf buf' s : List UInt8} {n : Nat} (h : cString buf = some s)
    (hn : buf'.take n = buf) : cString buf' = some s := by
  have h' := cString_append h (buf'.drop n)
  rw [← hn, List.take_append_drop] at h'
  exact h'

theorem cString_length {buf s : List UInt8} (h : cString buf = some s) :
    s.length < buf.length := by
  obtain ⟨_, rest, rfl⟩ := cString_iff.1 h
  rw [List.length_append, List.length_cons]
  omega

/-- A buffer that is cut keeps its C string with the NUL, or has none. -/
theorem cString_cut {buf s : List UInt8} (h : cString buf = some s) (n : Nat) :
    cString (buf.take n) = if s.length < n then some s else none := by
  obtain ⟨hs, rest, rfl⟩ := cString_iff.1 h
  by_cases hn : s.length < n
  · rw [if_pos hn]
    obtain ⟨k, rfl⟩ : ∃ k, n = s.length + (k + 1) := ⟨n - s.length - 1, by omega⟩
    rw [List.take_length_add_append]
    exact cString_iff.2 ⟨hs, rest.take k, rfl⟩
  · rw [if_neg hn, List.take_append_of_le_length (by omega)]
    exact if_neg fun hmem => hs (List.mem_of_mem_take hmem)

end Lib
