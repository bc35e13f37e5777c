import Mathlib.Data.Nat.Digits.Lemmas
import Mathlib.Tactic.Common

/-!
# Positional numerals, and reversing in place

`numeral r n`: the digits of `n` to the base `r`, the most significant one first, with one digit for
zero. Its laws are those of Mathlib's `Nat.digits`, read from the other end: the digits are below
the base (`numeral_lt`), the first is not zero unless the number is (`numeral_head`), there are at
most as many as the number has bits (`length_numeral_le`), and they denote the number
(`positional_numeral`), so that no two numbers share a numeral (`numeral_injective`).

A division loop produces digits in the other order. `swapLoop` is the loop of two indices that
reverses a stretch of an array in place; **`swapLoop_apply`** is what it leaves at each index, for
stretches of either parity.
-/

namespace MyOS.Machine

/-! ## Numerals -/

/-- The digits of `n` to the base `r`, most significant first. -/
def numeral (r n : Nat) : List Nat := if n = 0 then [0] else (Nat.digits r n).reverse

/-- What digits denote, most significant first. -/
def positional (r : Nat) (ds : List Nat) : Nat := ds.foldl (fun n d => r * n + d) 0

variable {r n : Nat}

theorem numeral_zero (r : Nat) : numeral r 0 = [0] := rfl

theorem numeral_of_pos (hn : n ≠ 0) : numeral r n = (Nat.digits r n).reverse := if_neg hn

theorem numeral_lt (hr : 2 ≤ r) {d : Nat} (hd : d ∈ numeral r n) : d < r := by
  unfold numeral at hd
  split at hd
  · rw [List.mem_singleton] at hd
    omega
  · exact Nat.digits_lt_base hr (List.mem_reverse.mp hd)

theorem numeral_ne_nil (r n : Nat) : numeral r n ≠ [] := by
  unfold numeral
  split
  · exact List.cons_ne_nil 0 []
  · rename_i hn
    rw [Ne, List.reverse_eq_nil_iff]
    exact Nat.digits_ne_nil_iff_ne_zero.mpr hn

/-- Only zero has a numeral that starts with zero. -/
theorem numeral_head (hn : n ≠ 0) : (numeral r n).head? ≠ some 0 := by
  rw [numeral_of_pos hn, List.head?_reverse,
    List.getLast?_eq_some_getLast (Nat.digits_ne_nil_iff_ne_zero.mpr hn)]
  intro h
  exact Nat.getLast_digit_ne_zero r hn (Option.some.inj h)

/-- A number of `k` bits has at most `k` digits, and fewer to a larger base. -/
theorem length_numeral_le (hr : 2 ≤ r) {k : Nat} (hk : 1 ≤ k) (hn : n < r ^ k) :
    (numeral r n).length ≤ k := by
  unfold numeral
  split
  · exact hk
  · rw [List.length_reverse]
    exact (Nat.digits_length_le_iff hr n).mpr hn

/-- **A numeral denotes its number.** -/
theorem positional_numeral (r n : Nat) : positional r (numeral r n) = n := by
  unfold positional
  by_cases hn : n = 0
  · subst hn
    simp [numeral_zero]
  · rw [numeral_of_pos hn, List.foldl_reverse]
    refine Eq.trans ?_ (Nat.ofDigits_digits r n)
    rw [Nat.ofDigits_eq_foldr]
    congr 1
    funext d acc
    exact Nat.add_comm _ _

theorem numeral_injective (r : Nat) : Function.Injective (numeral r) := by
  intro n n' h
  rw [← positional_numeral r n, h, positional_numeral]

/-! ## Reversing in place -/

variable {α : Type*}

/-- The array after `tmp = s[j]; s[j] = s[i]; s[i] = tmp`. -/
def swapAt (m : Nat → α) (i j : Nat) : Nat → α :=
  Function.update (Function.update m j (m i)) i (m j)

/-- The loop `while (b < e)` that swaps `s[b]` and `s[e]` and moves the two indices towards each
other, for an array that starts at `s`. -/
def swapLoop (m : Nat → α) (s b : Nat) (e : Int) : Nat → α :=
  if (b : Int) < e then swapLoop (swapAt m (s + b) (s + e.toNat)) s (b + 1) (e - 1) else m
termination_by (e - b).toNat

/-- **What the loop leaves**: the stretch from `b` to `e` reversed, and the rest as it was. -/
theorem swapLoop_apply (m : Nat → α) (s b : Nat) (e : Int) (x : Nat) : swapLoop m s b e x =
    if s + b ≤ x ∧ (x : Int) ≤ s + e then m (s + b + (s + e.toNat) - x) else m x := by
  fun_induction swapLoop m s b e generalizing x with
  | case1 m b e hlt ih =>
    rw [ih]
    unfold swapAt
    -- the two ends were swapped by this turn, the middle is the hypothesis
    by_cases hin : s + b ≤ x ∧ (x : Int) ≤ s + e
    · rw [if_pos hin]
      by_cases hmid : s + (b + 1) ≤ x ∧ (x : Int) ≤ s + (e - 1)
      · rw [if_pos hmid, Function.update_of_ne (by omega), Function.update_of_ne (by omega)]
        congr 1
        omega
      · rw [if_neg hmid]
        by_cases hb : x = s + b
        · subst hb
          rw [Function.update_self]
          congr 1
          omega
        · obtain rfl : x = s + e.toNat := by omega
          rw [Function.update_of_ne hb, Function.update_self]
          congr 1
          omega
    · rw [if_neg hin, if_neg (by omega), Function.update_of_ne (by omega),
        Function.update_of_ne (by omega)]
  | case2 m b e hle =>
    split
    · congr 1
      omega
    · rfl

end MyOS.Machine
