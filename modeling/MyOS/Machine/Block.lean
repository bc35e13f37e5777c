import Mathlib.Tactic.Common

/-!
# Blocks of memory

A block copied or filled, as a function of the memory there was: `copied` reads every cell before it
writes one, whatever the overlap, and `filled` writes the same value everywhere.

* `copied_append`: a copy may be made in two parts, the lower one first, when that does not write
  what the other has still to read. `copied_append_back`: the upper one first.
* `filled_append`: a block filled in two parts.
-/

namespace MyOS.Machine

variable {β : Type*} {m : Nat → β} {d s a k n : Nat}

/-- The `n` cells at `s` copied to `d`. -/
def copied (m : Nat → β) (d s n : Nat) : Nat → β := fun x =>
  if d ≤ x ∧ x < d + n then m (s + (x - d)) else m x

/-- The `n` cells at `a` filled with `b`. -/
def filled (m : Nat → β) (a n : Nat) (b : β) : Nat → β := fun x =>
  if a ≤ x ∧ x < a + n then b else m x

theorem copied_zero (m : Nat → β) (d s : Nat) : copied m d s 0 = m := by
  funext x
  exact if_neg (by omega)

theorem filled_zero (m : Nat → β) (a : Nat) (b : β) : filled m a 0 b = m := by
  funext x
  exact if_neg (by omega)

theorem copied_inside (m : Nat → β) (d s : Nat) {i : Nat} (h : i < n) :
    copied m d s n (d + i) = m (s + i) := by
  unfold copied
  rw [if_pos (by omega), Nat.add_sub_cancel_left]

theorem copied_outside (m : Nat → β) (s : Nat) {x : Nat} (h : x < d ∨ d + n ≤ x) :
    copied m d s n x = m x := if_neg (by omega)

theorem filled_inside (m : Nat → β) (a : Nat) (b : β) {i : Nat} (h : i < n) :
    filled m a n b (a + i) = b := if_pos (by omega)

theorem filled_outside (m : Nat → β) (b : β) {x : Nat} (h : x < a ∨ a + n ≤ x) :
    filled m a n b x = m x := if_neg (by omega)

/-- **The lower part first**: it ends below what the upper part reads, or starts above it. -/
theorem copied_append (h : d ≤ s ∨ s + (k + n) ≤ d) :
    copied (copied m d s k) (d + k) (s + k) n = copied m d s (k + n) := by
  funext x
  by_cases hupper : d + k ≤ x ∧ x < d + k + n
  · obtain ⟨i, rfl⟩ := Nat.exists_eq_add_of_le hupper.1
    rw [copied_inside _ _ _ (by omega), copied_outside _ _ (by omega), Nat.add_assoc d,
      copied_inside _ _ _ (by omega), Nat.add_assoc s]
  · rw [copied_outside _ _ (by omega)]
    unfold copied
    by_cases hlower : d ≤ x ∧ x < d + k
    · rw [if_pos hlower, if_pos (by omega)]
    · rw [if_neg hlower, if_neg (by omega)]

/-- **The upper part first**: it starts above what the lower part reads. -/
theorem copied_append_back (h : s ≤ d) :
    copied (copied m (d + k) (s + k) n) d s k = copied m d s (k + n) := by
  funext x
  by_cases hlower : d ≤ x ∧ x < d + k
  · obtain ⟨i, rfl⟩ := Nat.exists_eq_add_of_le hlower.1
    rw [copied_inside _ _ _ (by omega), copied_outside _ _ (by omega),
      copied_inside _ _ _ (by omega)]
  · rw [copied_outside _ _ (by omega)]
    by_cases hupper : d + k ≤ x ∧ x < d + k + n
    · obtain ⟨i, rfl⟩ := Nat.exists_eq_add_of_le hupper.1
      rw [copied_inside _ _ _ (by omega), Nat.add_assoc d, copied_inside _ _ _ (by omega),
        Nat.add_assoc s]
    · rw [copied_outside _ _ (by omega), copied_outside _ _ (by omega)]

theorem filled_append (m : Nat → β) (a k n : Nat) (b : β) :
    filled (filled m a k b) (a + k) n b = filled m a (k + n) b := by
  funext x
  unfold filled
  by_cases hupper : a + k ≤ x ∧ x < a + k + n
  · rw [if_pos hupper, if_pos (by omega)]
  · rw [if_neg hupper]
    by_cases hlower : a ≤ x ∧ x < a + k
    · rw [if_pos hlower, if_pos (by omega)]
    · rw [if_neg hlower, if_neg (by omega)]

end MyOS.Machine
