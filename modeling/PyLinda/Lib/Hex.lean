import Mathlib.Data.Char
import Mathlib.Data.List.Lex
import Mathlib.Data.Nat.Digits.Defs

/-!
# Hexadecimal numbers

`%0wx` of `printf`, the `int(s, 16)` that reads it, and the order of the texts.
-/

namespace Lib

/-- `%0wx`. -/
def hex (w n : Nat) : List Char := (Nat.toDigits 16 n).leftpad w '0'

def hexValue (c : Char) : Option Nat :=
  if '0' ≤ c ∧ c ≤ '9' then some (c.toNat - '0'.toNat)
  else if 'a' ≤ c ∧ c ≤ 'f' then some (c.toNat - 'a'.toNat + 10)
  else if 'A' ≤ c ∧ c ≤ 'F' then some (c.toNat - 'A'.toNat + 10)
  else none

/-- The digits behind those that stand for `n`. -/
def ofHexFrom (n : Nat) : List Char → Option Nat
  | [] => some n
  | c :: cs => (hexValue c).bind fun d => ofHexFrom (16 * n + d) cs

/-- Numbers in fields of one width. -/
def hexFields (w : Nat) (ns : List Nat) : List Char := ns.flatMap (hex w)

/-- `int(s, 16)` of a text of digits. -/
def ofHex : List Char → Option Nat
  | [] => none
  | cs => ofHexFrom 0 cs

/-! ## Digits -/

theorem hexValue_digitChar {d : Nat} (h : d < 16) : hexValue d.digitChar = some d := by
  have hall : ∀ d < 16, hexValue d.digitChar = some d := by decide
  exact hall d h

theorem digitChar_lt {d e : Nat} (hlt : d < e) (he : e < 16) : d.digitChar < e.digitChar := by
  have hall : ∀ e < 16, ∀ d < e, d.digitChar < e.digitChar := by decide
  exact hall e he d hlt

theorem digitChar_ne {c : Char} (hc : hexValue c = none) {d : Nat} (h : d < 16) : d.digitChar ≠ c := by
  rintro rfl
  rw [hexValue_digitChar h] at hc
  cases hc

/-- Only digits stand in a number. -/
theorem not_mem_toDigits {c : Char} (hc : hexValue c = none) (n : Nat) : c ∉ Nat.toDigits 16 n := by
  induction n using Nat.strong_induction_on with
  | _ n ih =>
    rw [Nat.toDigits_eq_if (by decide)]
    split
    · rename_i h
      rw [List.mem_singleton]
      exact (digitChar_ne hc h).symm
    · rename_i h
      rw [List.mem_append, List.mem_singleton]
      rintro (hmem | heq)
      · exact ih _ (Nat.div_lt_self (by omega) (by decide)) hmem
      · exact digitChar_ne hc (Nat.mod_lt n (by decide)) heq.symm

theorem not_mem_hex {c : Char} (hc : hexValue c = none) (w n : Nat) : c ∉ hex w n := by
  unfold hex List.leftpad
  rw [List.mem_append, List.mem_replicate]
  rintro (⟨-, rfl⟩ | hmem)
  · cases hc
  · exact not_mem_toDigits hc n hmem

/-! ## Reading -/

theorem ofHexFrom_append (n : Nat) (cs ds : List Char) :
    ofHexFrom n (cs ++ ds) = (ofHexFrom n cs).bind fun m => ofHexFrom m ds := by
  induction cs generalizing n with
  | nil => rfl
  | cons c cs ih =>
    cases hc : hexValue c with
    | none => simp [ofHexFrom, hc]
    | some d => simp [ofHexFrom, hc, ih]

theorem ofHexFrom_digit {d : Nat} (n : Nat) (h : d < 16) :
    ofHexFrom n [d.digitChar] = some (16 * n + d) := by
  simp [ofHexFrom, hexValue_digitChar h]

theorem ofHexFrom_toDigits (n : Nat) : ofHexFrom 0 (Nat.toDigits 16 n) = some n := by
  induction n using Nat.strong_induction_on with
  | _ n ih =>
    rw [Nat.toDigits_eq_if (by decide)]
    split
    · rename_i h
      rw [ofHexFrom_digit 0 h]
      simp
    · rename_i h
      have hdiv := ih (n / 16) (Nat.div_lt_self (by omega) (by decide))
      have hmod : n % 16 < 16 := Nat.mod_lt n (by decide)
      rw [ofHexFrom_append, hdiv, Option.bind_some, ofHexFrom_digit _ hmod, Nat.div_add_mod]

theorem ofHexFrom_zeros (w : Nat) : ofHexFrom 0 (List.replicate w '0') = some 0 := by
  induction w with
  | zero => rfl
  | succ w ih => exact ih

theorem hex_ne_nil (w n : Nat) : hex w n ≠ [] := by
  unfold hex List.leftpad
  rw [Ne, List.append_eq_nil_iff]
  exact fun h => Nat.toDigits_ne_nil h.2

/-- `int(s, 16)` reads what `%0wx` writes. -/
theorem ofHex_hex (w n : Nat) : ofHex (hex w n) = some n := by
  have hfrom : ofHexFrom 0 (hex w n) = some n := by
    unfold hex List.leftpad
    rw [ofHexFrom_append, ofHexFrom_zeros, Option.bind_some, ofHexFrom_toDigits]
  cases h : hex w n with
  | nil => exact absurd h (hex_ne_nil w n)
  | cons c cs =>
    rw [h] at hfrom
    exact hfrom

theorem hex_injective (w : Nat) : Function.Injective (hex w) := by
  intro m n h
  have hread := ofHex_hex w m
  rw [h, ofHex_hex] at hread
  exact (Option.some.inj hread).symm

/-! ## A fixed width -/

theorem hex_length {w n : Nat} (hw : 0 < w) (h : n < 16 ^ w) : (hex w n).length = w := by
  have hle : (Nat.toDigits 16 n).length ≤ w := (Nat.length_toDigits_le_iff (by decide) hw).2 h
  rw [hex, List.length_leftpad]
  exact Nat.max_eq_left hle

theorem hex_succ {w n : Nat} (hw : 0 < w) (h : n < 16 ^ (w + 1)) :
    hex (w + 1) n = hex w (n / 16) ++ [(n % 16).digitChar] := by
  have hdiv : n / 16 < 16 ^ w := by
    rw [Nat.div_lt_iff_lt_mul (by decide), ← Nat.pow_succ]
    exact h
  have hlen : (Nat.toDigits 16 (n / 16)).length ≤ w := (Nat.length_toDigits_le_iff (by decide) hw).2 hdiv
  unfold hex List.leftpad
  rcases Nat.lt_or_ge n 16 with hn | hn
  · rw [Nat.div_eq_of_lt hn, Nat.mod_eq_of_lt hn, Nat.toDigits_of_lt_base hn,
      Nat.toDigits_of_lt_base (by decide : 0 < 16)]
    obtain ⟨k, rfl⟩ : ∃ k, w = k + 1 := ⟨w - 1, by omega⟩
    simp [List.replicate_succ']
  · rw [Nat.toDigits_of_base_le (by decide) hn, List.length_append, List.length_singleton,
      Nat.add_sub_add_right, List.append_assoc]

/-! ## Order -/

section
variable {α : Type*} [LinearOrder α] {as bs cs ds : List α}

theorem append_lt_append (hlen : as.length = bs.length) (h : as < bs) : as ++ cs < bs ++ ds := by
  induction as generalizing bs with
  | nil =>
    cases bs with
    | nil => exact absurd h (lt_irrefl _)
    | cons => cases hlen
  | cons a as ih =>
    cases bs with
    | nil => cases hlen
    | cons b bs =>
      rw [List.cons_append, List.cons_append, List.cons_lt_cons_iff]
      rcases List.cons_lt_cons_iff.1 h with hab | ⟨rfl, hlt⟩
      · exact .inl hab
      · exact .inr ⟨rfl, ih (Nat.succ.inj hlen) hlt⟩

/-- Texts with a field of one width in front are ordered by that field first. -/
theorem append_lt_append_iff (hlen : as.length = bs.length) :
    as ++ cs < bs ++ ds ↔ as < bs ∨ as = bs ∧ cs < ds := by
  constructor
  · intro h
    rcases lt_trichotomy as bs with hlt | rfl | hgt
    · exact .inl hlt
    · refine .inr ⟨rfl, ?_⟩
      rcases lt_trichotomy cs ds with hlt | rfl | hgt
      · exact hlt
      · exact absurd h (lt_irrefl _)
      · exact absurd h (lt_asymm (List.append_left_lt hgt))
    · exact absurd h (lt_asymm (append_lt_append hlen.symm hgt))
  · rintro (h | ⟨rfl, h⟩)
    · exact append_lt_append hlen h
    · exact List.append_left_lt h

end

theorem hex_lt_hex {w m n : Nat} (hw : 0 < w) (hmn : m < n) (hn : n < 16 ^ w) : hex w m < hex w n := by
  induction w, hw using Nat.le_induction generalizing m n with
  | base =>
    have hn : n < 16 := hn
    have hm : m < 16 := hmn.trans hn
    unfold hex List.leftpad
    rw [Nat.toDigits_of_lt_base hm, Nat.toDigits_of_lt_base hn]
    exact List.Lex.rel (digitChar_lt hmn hn)
  | succ w hw ih =>
    rw [hex_succ hw (hmn.trans hn), hex_succ hw hn]
    have hdiv : n / 16 < 16 ^ w := by
      rw [Nat.div_lt_iff_lt_mul (by decide), ← Nat.pow_succ]
      exact hn
    rcases Nat.lt_or_eq_of_le (Nat.div_le_div_right (c := 16) hmn.le) with hlt | heq
    · refine append_lt_append ?_ (ih hlt hdiv)
      rw [hex_length hw (hlt.trans hdiv), hex_length hw hdiv]
    · rw [heq]
      refine List.append_left_lt (List.Lex.rel (digitChar_lt ?_ (Nat.mod_lt n (by decide))))
      have hm' := Nat.div_add_mod m 16
      have hn' := Nat.div_add_mod n 16
      omega

/-- Numbers of one width are ordered as their texts are. -/
theorem hex_lt_iff {w m n : Nat} (hw : 0 < w) (hm : m < 16 ^ w) (hn : n < 16 ^ w) :
    hex w m < hex w n ↔ m < n := by
  constructor
  · intro h
    rcases Nat.lt_trichotomy m n with hlt | rfl | hgt
    · exact hlt
    · exact absurd h (lt_irrefl _)
    · exact absurd h (lt_asymm (hex_lt_hex hw hgt hm))
  · exact fun h => hex_lt_hex hw h hn

/-! ## Fields -/

theorem hexFields_cons (w n : Nat) (ns : List Nat) : hexFields w (n :: ns) = hex w n ++ hexFields w ns :=
  List.flatMap_cons

section
variable {w : Nat} {ms ns : List Nat}

theorem not_mem_hexFields {c : Char} (hc : hexValue c = none) (w : Nat) (ns : List Nat) :
    c ∉ hexFields w ns := by
  unfold hexFields
  rw [List.mem_flatMap]
  rintro ⟨n, -, hmem⟩
  exact not_mem_hex hc w n hmem

theorem hexFields_length (hw : 0 < w) (h : ∀ n ∈ ns, n < 16 ^ w) :
    (hexFields w ns).length = w * ns.length := by
  induction ns with
  | nil => rfl
  | cons n ns ih =>
    rw [List.forall_mem_cons] at h
    rw [hexFields_cons, List.length_append, hex_length hw h.1, ih h.2, List.length_cons,
      Nat.mul_succ, Nat.add_comm]

theorem hexFields_lt_iff (hw : 0 < w) (hlen : ms.length = ns.length) (hm : ∀ m ∈ ms, m < 16 ^ w)
    (hn : ∀ n ∈ ns, n < 16 ^ w) : hexFields w ms < hexFields w ns ↔ ms < ns := by
  induction ms generalizing ns with
  | nil =>
    cases ns with
    | nil => exact iff_of_false (List.not_lt_nil _) (List.not_lt_nil _)
    | cons => cases hlen
  | cons m ms ih =>
    cases ns with
    | nil => cases hlen
    | cons n ns =>
      rw [List.forall_mem_cons] at hm hn
      have hwidth : (hex w m).length = (hex w n).length := by
        rw [hex_length hw hm.1, hex_length hw hn.1]
      rw [hexFields_cons, hexFields_cons, append_lt_append_iff hwidth, hex_lt_iff hw hm.1 hn.1,
        (hex_injective w).eq_iff, ih (Nat.succ.inj hlen) hm.2 hn.2, List.cons_lt_cons_iff]

theorem hexFields_inj (hw : 0 < w) (hlen : ms.length = ns.length) (hm : ∀ m ∈ ms, m < 16 ^ w)
    (hn : ∀ n ∈ ns, n < 16 ^ w) (h : hexFields w ms = hexFields w ns) : ms = ns := by
  rcases lt_trichotomy ms ns with hlt | heq | hgt
  · exact absurd h ((hexFields_lt_iff hw hlen hm hn).2 hlt).ne
  · exact heq
  · exact absurd h ((hexFields_lt_iff hw hlen.symm hn hm).2 hgt).ne'

/-- The field that is `n` fields behind `s`. -/
theorem hexFields_field (hw : 0 < w) (h : ∀ n ∈ ns, n < 16 ^ w) {n i m : Nat} (s : List Char)
    (hn : ns[n]? = some m) (hi : i = s.length + w * n) : ((s ++ hexFields w ns).drop i).take w = hex w m := by
  subst hi
  induction ns generalizing s n with
  | nil => cases hn
  | cons k ns ih =>
    rw [List.forall_mem_cons] at h
    have hk : (hex w k).length = w := hex_length hw h.1
    cases n with
    | zero =>
      cases hn
      rw [hexFields_cons, Nat.mul_zero, Nat.add_zero, List.drop_left, List.take_left' hk]
    | succ n =>
      have hrest := ih h.2 (s ++ hex w k) hn
      rw [List.length_append, hk, List.append_assoc] at hrest
      rw [hexFields_cons, ← hrest, Nat.mul_succ, Nat.add_comm (w * n), Nat.add_assoc]

end

end Lib
