import Mathlib.Algebra.Order.Ring.Int
import PyLinda.Lib.Buffer

/-!
# Adding strings

`Minimal_string`, `Minimal_string2` and the part of `Minimal_Value_add` for strings, on bytes.
The length of a string counts its NUL; the second operand goes behind it.
-/

namespace PyLinda.Concat

open Lib

/-- The `string` and the `length` of a value, an `unsigned int`. -/
structure StringValue where
  string : List UInt8
  length : Nat

/-- What `unsigned int` makes of a number. -/
def uint (n : Nat) : Nat := n % 2 ^ 32

/-- The text of a value, where there is a NUL in its buffer. -/
def StringValue.text (v : StringValue) : Option (List UInt8) := cString v.string

/-- `Minimal_string2` on a buffer. -/
def string2 (junk : Nat → UInt8) (s : List UInt8) (len : Nat) : Option StringValue := do
  let string ← memcpy (malloc junk (uint len)) 0 s (uint len)
  some ⟨string, uint len⟩

/-- `Minimal_string` on a C string. -/
def string (junk : Nat → UInt8) (s : List UInt8) : Option StringValue := do
  let length := uint (s.length + 1)
  let string ← memcpy (malloc junk length) 0 (s ++ [0]) length
  some ⟨string, length⟩

/-- `Minimal_Value_add` on strings; what is left of its buffer stays allocated. -/
def add (junk junk' : Nat → UInt8) (op1 op2 : StringValue) : Option StringValue := do
  let r := malloc junk (uint (op1.length + op2.length + 1))
  let r ← memcpy r 0 op1.string op1.length
  let r ← memcpy r (uint (op1.length + 1)) op2.string op2.length
  let r ← setByte r (uint (op1.length + op2.length)) 0
  string2 junk' r (uint (op1.length + op2.length))

/-- The strings that `Minimal_string` and any additions make. -/
inductive Made : StringValue → Prop
  | string (junk : Nat → UInt8) (s : List UInt8) (v : StringValue) :
    0 ∉ s → string junk s = some v → Made v
  | add (junk junk' : Nat → UInt8) (a b v : StringValue) :
    Made a → Made b → add junk junk' a b = some v → Made v

/-! ## Every string -/

/-- The buffer is as long as the length says. -/
structure StringValue.Sized (v : StringValue) : Prop where
  size : v.string.length = v.length
  bound : v.length < 2 ^ 32

theorem uint_lt (n : Nat) : uint n < 2 ^ 32 := Nat.mod_lt _ (by decide)

theorem string2_sized {junk : Nat → UInt8} {s : List UInt8} {len : Nat} {v : StringValue}
    (h : string2 junk s len = some v) : v.Sized := by
  obtain ⟨string, hcopy, hv⟩ := Option.bind_eq_some_iff.1 h
  cases hv
  exact ⟨(memcpy_length hcopy).trans (malloc_length junk _), uint_lt len⟩

theorem string_sized {junk : Nat → UInt8} {s : List UInt8} {v : StringValue}
    (h : string junk s = some v) : v.Sized := by
  obtain ⟨string, hcopy, hv⟩ := Option.bind_eq_some_iff.1 h
  cases hv
  exact ⟨(memcpy_length hcopy).trans (malloc_length junk _), uint_lt _⟩

theorem add_sized {junk junk' : Nat → UInt8} {a b v : StringValue}
    (h : add junk junk' a b = some v) : v.Sized := by
  obtain ⟨_, _, h⟩ := Option.bind_eq_some_iff.1 h
  obtain ⟨_, _, h⟩ := Option.bind_eq_some_iff.1 h
  obtain ⟨_, _, h⟩ := Option.bind_eq_some_iff.1 h
  exact string2_sized h

theorem Made.sized {v : StringValue} (h : Made v) : v.Sized := by
  cases h with
  | string _ _ _ _ h => exact string_sized h
  | add _ _ _ _ _ _ _ h => exact add_sized h

/-! ## The text of a sum -/

/-- All copies stay inside their buffers, and the text is one text followed by the other. -/
def Concatenates (a b : StringValue) (s t : List UInt8) : Prop := ∀ junk junk', ∃ r,
  add junk junk' a b = some r ∧ r.text = some (s ++ t)

/-- The second text is empty, and the lengths do not go beyond an `unsigned int`; or they are as
great as can be, and the copies happen to hit the same place. -/
def Concatenable (a b : StringValue) (s t : List UInt8) : Prop :=
  a.length + b.length + 1 < 2 ^ 32 ∧ t = [] ∨
    a.length = 2 ^ 32 - 1 ∧ b.length = 2 ^ 32 - 1 ∧ s = [] ∧ t.length < 2 ^ 32 - 2

section
variable {a b : StringValue} {s t : List UInt8}

theorem StringValue.Sized.length_pos (ha : a.Sized) (hs : a.text = some s) :
    0 < a.length := by
  have := cString_length hs
  have := ha.size
  omega

theorem string2_whole (junk : Nat → UInt8) {buf : List UInt8} {len : Nat}
    (h : uint len ≤ buf.length) :
    string2 junk buf len = some ⟨buf.take (uint len), uint len⟩ := by
  unfold string2
  rw [memcpy_whole (malloc_length junk _) h]
  rfl

theorem add_of_steps {junk : Nat → UInt8} (junk' : Nat → UInt8) {r1 r2 r3 : List UInt8}
    (h1 : memcpy (malloc junk (uint (a.length + b.length + 1))) 0 a.string a.length = some r1)
    (h2 : memcpy r1 (uint (a.length + 1)) b.string b.length = some r2)
    (h3 : setByte r2 (uint (a.length + b.length)) 0 = some r3) :
    add junk junk' a b = string2 junk' r3 (uint (a.length + b.length)) := by
  simp only [add, h1, h2, h3, Option.bind_eq_bind, Option.bind_some]

/-- Where the lengths fit, the sum starts with the first operand. -/
theorem add_fits (ha : a.Sized) (hb : b.Sized) (hfit : a.length + b.length + 1 < 2 ^ 32)
    (junk junk' : Nat → UInt8) :
    ∃ r, add junk junk' a b = some r ∧ r.string.take a.length = a.string := by
  have hfull : uint (a.length + b.length + 1) = a.length + b.length + 1 := Nat.mod_eq_of_lt hfit
  have hlen : uint (a.length + b.length) = a.length + b.length := Nat.mod_eq_of_lt (by omega)
  have hoff : uint (a.length + 1) = a.length + 1 := Nat.mod_eq_of_lt (by omega)
  have hsize := malloc_length junk (a.length + b.length + 1)
  have hsa := ha.size
  have hsb := hb.size
  obtain ⟨r1, h1⟩ : ∃ r1, memcpy (malloc junk (a.length + b.length + 1)) 0 a.string a.length =
      some r1 := ⟨_, memcpy_inside (by omega) (by omega)⟩
  have hr1 := memcpy_length h1
  obtain ⟨r2, h2⟩ : ∃ r2, memcpy r1 (a.length + 1) b.string b.length = some r2 :=
    ⟨_, memcpy_inside (by omega) (by omega)⟩
  have hr2 := memcpy_length h2
  obtain ⟨r3, h3⟩ : ∃ r3, setByte r2 (a.length + b.length) 0 = some r3 :=
    ⟨_, setByte_inside (by omega)⟩
  have hr3 := setByte_length h3
  have hadd := add_of_steps junk' (hfull.symm ▸ h1) (hoff.symm ▸ h2) (hlen.symm ▸ h3)
  rw [hlen, string2_whole junk' (by rw [hlen]; omega), hlen] at hadd
  refine ⟨_, hadd, ?_⟩
  have hfirst : r1.take a.length = a.string := by
    have hcopy := memcpy_copied h1
    rw [List.drop_zero, ← hsa, List.take_length] at hcopy
    rw [← hsa]
    exact hcopy
  show (r3.take (a.length + b.length)).take a.length = a.string
  rw [List.take_take, Nat.min_eq_left (by omega), setByte_take h3 (by omega),
    memcpy_take h2 (by omega), hfirst]

/-- Where both are as long as can be, the second operand takes the place of the first. -/
theorem add_longest (ha : a.Sized) (hb : b.Sized) (hla : a.length = 2 ^ 32 - 1)
    (hlb : b.length = 2 ^ 32 - 1) (junk junk' : Nat → UInt8) :
    ∃ r, add junk junk' a b = some r ∧ r.string = b.string.take (2 ^ 32 - 2) := by
  have hsa := ha.size
  have hsb := hb.size
  have hfull : uint (a.length + b.length + 1) = a.length := by
    unfold uint
    omega
  have hoff : uint (a.length + 1) = 0 := by
    unfold uint
    omega
  have hlen : uint (a.length + b.length) = 2 ^ 32 - 2 := by
    unfold uint
    omega
  have huint : uint (2 ^ 32 - 2) = 2 ^ 32 - 2 := rfl
  have h1 : memcpy (malloc junk (uint (a.length + b.length + 1))) 0 a.string a.length =
      some a.string := by
    rw [hfull, memcpy_whole (malloc_length junk _) (by omega), ← hsa, List.take_length]
  have h2 : memcpy a.string 0 b.string b.length = some b.string := by
    rw [memcpy_whole (by omega) (by omega), ← hsb, List.take_length]
  have h3 : setByte b.string (2 ^ 32 - 2) 0 = some (b.string.set (2 ^ 32 - 2) 0) :=
    setByte_inside (by omega)
  have hadd := add_of_steps junk' h1 (hoff.symm ▸ h2) (hlen.symm ▸ h3)
  rw [hlen, string2_whole junk' (by rw [huint, List.length_set]; omega), huint,
    List.take_set_of_le (Nat.le_refl _)] at hadd
  exact ⟨_, hadd, rfl⟩

/-- Otherwise a copy leaves its buffer where the lengths do not fit. -/
theorem add_outside (ha : a.Sized) (hb : b.Sized) (hfit : ¬ a.length + b.length + 1 < 2 ^ 32)
    (hpos : 0 < b.length) (hnot : ¬ (a.length = 2 ^ 32 - 1 ∧ b.length = 2 ^ 32 - 1))
    (junk junk' : Nat → UInt8) : add junk junk' a b = none := by
  have hba := ha.bound
  have hbb := hb.bound
  have hfull : uint (a.length + b.length + 1) = a.length + b.length + 1 - 2 ^ 32 := by
    unfold uint
    omega
  have hsize := malloc_length junk (a.length + b.length + 1 - 2 ^ 32)
  cases h1 : memcpy (malloc junk (a.length + b.length + 1 - 2 ^ 32)) 0 a.string a.length with
  | none => simp only [add, hfull, h1, Option.bind_eq_bind, Option.bind_none]
  | some r1 =>
    have hin := (memcpy_in h1).1
    have hr1 := memcpy_length h1
    have hoff : uint (a.length + 1) = a.length + 1 := Nat.mod_eq_of_lt (by omega)
    have h2 : memcpy r1 (a.length + 1) b.string b.length = none := memcpy_outside (by omega)
    simp only [add, hfull, h1, hoff, h2, Option.bind_eq_bind, Option.bind_some, Option.bind_none]

/-- One run of an addition is like any other: what was in the memory does not matter. -/
theorem concatenates_of_run {o : Option (List UInt8)}
    (h : ∀ junk junk', ∃ r, add junk junk' a b = some r ∧ r.text = o) :
    Concatenates a b s t ↔ o = some (s ++ t) := by
  constructor
  · intro hc
    obtain ⟨r, hr, htext⟩ := hc (fun _ => 0) (fun _ => 0)
    obtain ⟨r', hr', ho⟩ := h (fun _ => 0) (fun _ => 0)
    rw [hr] at hr'
    cases hr'
    exact ho.symm.trans htext
  · intro ho junk junk'
    obtain ⟨r, hr, htext⟩ := h junk junk'
    exact ⟨r, hr, htext.trans ho⟩

/-- The sum of two strings is their concatenation exactly if the second is empty and the lengths
fit, up to one place where all lengths are as great as can be. -/
theorem add_concatenates_iff (ha : Made a) (hb : Made b) (hs : a.text = some s)
    (ht : b.text = some t) : Concatenates a b s t ↔ Concatenable a b s t := by
  have hpos : 0 < b.length := hb.sized.length_pos ht
  by_cases hfit : a.length + b.length + 1 < 2 ^ 32
  · have hrun : Concatenates a b s t ↔ some s = some (s ++ t) := by
      refine concatenates_of_run fun junk junk' => ?_
      obtain ⟨r, hr, htake⟩ := add_fits ha.sized hb.sized hfit junk junk'
      exact ⟨r, hr, cString_of_take hs htake⟩
    rw [hrun, Option.some_inj, List.self_eq_append_right]
    constructor
    · intro h
      exact .inl ⟨hfit, h⟩
    · intro h
      cases h with
      | inl h => exact h.2
      | inr h => omega
  · by_cases hlong : a.length = 2 ^ 32 - 1 ∧ b.length = 2 ^ 32 - 1
    · have hrun : Concatenates a b s t ↔
          (if t.length < 2 ^ 32 - 2 then some t else none) = some (s ++ t) := by
        refine concatenates_of_run fun junk junk' => ?_
        obtain ⟨r, hr, hstring⟩ := add_longest ha.sized hb.sized hlong.1 hlong.2 junk junk'
        refine ⟨r, hr, ?_⟩
        unfold StringValue.text
        rw [hstring, cString_cut ht]
      rw [hrun]
      constructor
      · intro h
        by_cases hlt : t.length < 2 ^ 32 - 2
        · rw [if_pos hlt, Option.some_inj, List.self_eq_append_left] at h
          exact .inr ⟨hlong.1, hlong.2, h, hlt⟩
        · rw [if_neg hlt] at h
          cases h
      · intro h
        cases h with
        | inl h => exact absurd h.1 hfit
        | inr h =>
          rw [if_pos h.2.2.2, h.2.2.1]
          rfl
    · have hnone := add_outside ha.sized hb.sized hfit hpos hlong
      constructor
      · intro h
        obtain ⟨r, hr, _⟩ := h (fun _ => 0) (fun _ => 0)
        rw [hnone] at hr
        cases hr
      · intro h
        cases h with
        | inl h => exact absurd h.1 hfit
        | inr h => exact absurd ⟨h.1, h.2.1⟩ hlong

end

/-- A string is made of its characters. -/
theorem string_short (junk : Nat → UInt8) {s : List UInt8} (h : s.length + 1 < 2 ^ 32) :
    string junk s = some ⟨s ++ [0], s.length + 1⟩ := by
  have huint : uint (s.length + 1) = s.length + 1 := Nat.mod_eq_of_lt h
  have hlen : (s ++ [(0 : UInt8)]).length = s.length + 1 := List.length_append
  have hcopy : memcpy (malloc junk (s.length + 1)) 0 (s ++ [0]) (s.length + 1) =
      some (s ++ [0]) := by
    rw [memcpy_whole (malloc_length junk _) (by omega), ← hlen, List.take_length]
  simp only [string, huint, hcopy, Option.bind_eq_bind, Option.bind_some]

/-- `"a" + ""`. -/
theorem add_concatenates_empty :
    Concatenates ⟨[97, 0], 2⟩ ⟨[0], 1⟩ [97] [] ↔ Concatenable ⟨[97, 0], 2⟩ ⟨[0], 1⟩ [97] [] :=
  add_concatenates_iff
    (.string (fun _ => 0) [97] _ (by decide) (string_short _ (by decide)))
    (.string (fun _ => 0) [] _ (by decide) (string_short _ (by decide))) rfl rfl

/-- `"" + "b"` has no text. -/
theorem empty_no_unit : string (fun _ => 0) [] = some ⟨[0], 1⟩ ∧
    string (fun _ => 0) [98] = some ⟨[98, 0], 2⟩ ∧
      (add (fun _ => 0) (fun _ => 0) ⟨[0], 1⟩ ⟨[98, 0], 2⟩).map StringValue.text = some (some []) :=
  ⟨rfl, rfl, rfl⟩

end PyLinda.Concat
