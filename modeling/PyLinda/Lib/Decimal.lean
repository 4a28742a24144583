import Mathlib.Data.List.TakeWhile

/-!
# Decimal integers

`%i` of `printf` and the `atoi` that reads it.
-/

namespace Lib

/-- `atoi`: an optional sign and the digits behind it. -/
def atoi (s : String) : Int :=
  match s.toList with
  | '-' :: ds => -(Nat.ofDigitChars 10 (ds.takeWhile Char.isDigit) 0)
  | ds => Nat.ofDigitChars 10 (ds.takeWhile Char.isDigit) 0

theorem takeWhile_toDigits (n : Nat) :
    (Nat.toDigits 10 n).takeWhile Char.isDigit = Nat.toDigits 10 n :=
  List.takeWhile_eq_self_iff.2 fun _ => Nat.isDigit_of_mem_toDigits (by decide) (by decide)

/-- `atoi` reads what `%i` writes. -/
theorem atoi_repr (i : Int) : atoi i.repr = i := by
  cases i with
  | ofNat n =>
    have hl : (Int.ofNat n).repr.toList = Nat.toDigits 10 n := Nat.toList_repr
    unfold atoi
    rw [hl]
    split
    · rename_i ds heq
      have hd : Char.isDigit '-' := Nat.isDigit_of_mem_toDigits (b := 10) (n := n) (by decide)
        (by decide) (by rw [heq]; exact List.mem_cons_self)
      exact absurd hd (by decide)
    · rw [takeWhile_toDigits, Nat.ofDigitChars_ten_toDigits]
      rfl
  | negSucc n =>
    have hl : (Int.negSucc n).repr.toList = '-' :: Nat.toDigits 10 (n + 1) := by
      simp [Int.repr, Nat.toList_repr]
    unfold atoi
    rw [hl]
    simp only [takeWhile_toDigits, Nat.ofDigitChars_ten_toDigits]
    omega

end Lib
