import Mathlib.Data.Nat.Bitwise
import Mathlib.Tactic.Common

/-!
# Bit fields of a 32-bit word, and the two-level page walk

A C bit field is a run of `len` bits from bit `lo` of its word. `field` reads one, `setField`
stores one and leaves the other bits of the word alone; unions of bit-field structs are words
written through several layouts. Two laws carry every proof about them: a field reads back what
was last stored in it (`field_setField_same`), and a store does not change a field it does not
overlap (`field_setField_disjoint`).

`walk` is the address translation of 32-bit x86 without PAE: the directory entry of the top ten
bits of the address maps a 4 MB page when its page-size bit is set, else names a page table whose
entry maps a 4 KB page. User access and write access need the bit in both levels. Entries are read
through a function from physical addresses to words, so the walk says nothing about where tables
live.
-/

namespace MyOS.Machine

/-- A word of the machine. -/
abbrev Word := BitVec 32

/-- The `len`-bit field of `w` from bit `lo`. -/
def field (w : Word) (lo len : Nat) : Nat := (w.toNat >>> lo) % 2 ^ len

/-- `w` with `v` stored in the `len`-bit field from bit `lo`, truncated to the field. -/
def setField (w : Word) (lo len v : Nat) : Word :=
  (w &&& ~~~(BitVec.ofNat 32 ((2 ^ len - 1) <<< lo))) ||| BitVec.ofNat 32 ((v % 2 ^ len) <<< lo)

theorem testBit_field (w : Word) (lo len i : Nat) :
    (field w lo len).testBit i = (decide (i < len) && w.getLsbD (lo + i)) := by
  unfold field
  rw [Nat.testBit_mod_two_pow, Nat.testBit_shiftRight]
  rfl

theorem getLsbD_setField (w : Word) (lo len v : Nat) {i : Nat} (hi : i < 32) :
    (setField w lo len v).getLsbD i =
      if lo ≤ i ∧ i < lo + len then v.testBit (i - lo) else w.getLsbD i := by
  unfold setField
  rw [BitVec.getLsbD_or, BitVec.getLsbD_and, BitVec.getLsbD_not, BitVec.getLsbD_ofNat,
    BitVec.getLsbD_ofNat, Nat.testBit_shiftLeft, Nat.testBit_shiftLeft, Nat.testBit_two_pow_sub_one,
    Nat.testBit_mod_two_pow]
  by_cases hlo : lo ≤ i
  · by_cases hlen : i < lo + len
    · have : i - lo < len := by omega
      simp [hi, hlo, hlen, this]
    · have : ¬ i - lo < len := by omega
      simp [hi, hlo, hlen, this]
  · simp [hi, hlo]

/-- **A field reads back what was stored in it.** -/
@[simp] theorem field_setField_same (w : Word) {lo len : Nat} (v : Nat) (h : lo + len ≤ 32) :
    field (setField w lo len v) lo len = v % 2 ^ len := by
  apply Nat.eq_of_testBit_eq
  intro i
  rw [testBit_field, Nat.testBit_mod_two_pow]
  by_cases hi : i < len
  · rw [getLsbD_setField w lo len v (by omega), if_pos ⟨by omega, by omega⟩,
      Nat.add_sub_cancel_left]
  · simp [hi]

/-- **A store leaves the fields it does not overlap.** -/
theorem field_setField_disjoint (w : Word) {lo len lo' len' : Nat} (v : Nat)
    (h : lo' + len' ≤ 32) (hd : lo' + len' ≤ lo ∨ lo + len ≤ lo') :
    field (setField w lo len v) lo' len' = field w lo' len' := by
  apply Nat.eq_of_testBit_eq
  intro i
  rw [testBit_field, testBit_field]
  by_cases hi : i < len'
  · rw [getLsbD_setField w lo len v (by omega), if_neg (by omega)]
  · simp [hi]

/-- Masking off the low `k` bits rounds an address down to a multiple of `2 ^ k`. -/
theorem land_high_mask {a k : Nat} (hk : k ≤ 32) (ha : a < 2 ^ 32) :
    a &&& (2 ^ (32 - k) - 1) * 2 ^ k = a / 2 ^ k * 2 ^ k := by
  apply Nat.eq_of_testBit_eq
  intro i
  rw [Nat.testBit_and, Nat.testBit_mul_two_pow, Nat.testBit_mul_two_pow, Nat.testBit_div_two_pow,
    Nat.testBit_two_pow_sub_one]
  by_cases hi : k ≤ i
  · rw [Nat.sub_add_cancel hi]
    by_cases hi' : i < 32
    · have : i - k < 32 - k := by omega
      simp [hi, this]
    · rw [Nat.testBit_lt_two_pow
        (Nat.lt_of_lt_of_le ha (Nat.pow_le_pow_right (by decide) (by omega)))]
      simp
  · simp [hi]

/-- A mask whose cleared bits lie below bit `k` does nothing to a multiple of `2 ^ k`. -/
theorem land_eq_self_of_aligned {a m k : Nat} (ha : a < 2 ^ 32) (hal : 2 ^ k ∣ a)
    (hm : ∀ i, k ≤ i → i < 32 → m.testBit i = true) : a &&& m = a := by
  obtain ⟨c, rfl⟩ := hal
  apply Nat.eq_of_testBit_eq
  intro i
  rw [Nat.testBit_and]
  by_cases hi : k ≤ i
  · by_cases hi' : i < 32
    · rw [hm i hi hi', Bool.and_true]
    · rw [Nat.testBit_lt_two_pow
        (Nat.lt_of_lt_of_le ha (Nat.pow_le_pow_right (by decide) (by omega)))]
      rfl
  · rw [Nat.testBit_two_pow_mul]
    simp [hi]

/-! ## The walk -/

/-- What a virtual address maps to. -/
structure Mapping where
  phys : Nat
  user : Bool
  write : Bool
  deriving DecidableEq, Repr

/-- The page-table entry for `va`: the 4 KB page it maps, if present, with the rights the
directory entry leaves it. -/
def walkTable (pte : Word) (user write : Bool) (va : Nat) : Option Mapping :=
  if field pte 0 1 = 0 then none
  else some
    { phys := field pte 12 20 * 2 ^ 12 + va % 2 ^ 12
      user := user && field pte 2 1 == 1
      write := write && field pte 1 1 == 1 }

/-- What the directory entry `pde` maps `va` to: a 4 MB page, or through a page table in `mem`. -/
def walkEntry (mem : Nat → Word) (pde : Word) (va : Nat) : Option Mapping :=
  if field pde 0 1 = 0 then none
  else if field pde 7 1 = 1 then some
    { phys := field pde 22 10 * 2 ^ 22 + va % 2 ^ 22
      user := field pde 2 1 == 1
      write := field pde 1 1 == 1 }
  else
    walkTable (mem (field pde 12 20 * 2 ^ 12 + 4 * (va / 2 ^ 12 % 2 ^ 10)))
      (field pde 2 1 == 1) (field pde 1 1 == 1) va

/-- **The two-level walk** from `cr3` over the words `mem` of physical memory. -/
def walk (mem : Nat → Word) (cr3 va : Nat) : Option Mapping :=
  walkEntry mem (mem (cr3 / 2 ^ 12 * 2 ^ 12 + 4 * (va / 2 ^ 22 % 2 ^ 10))) va

section Walk

variable {mem : Nat → Word} {pde : Word} {va : Nat}

theorem walkEntry_absent (h : field pde 0 1 = 0) : walkEntry mem pde va = none := by
  unfold walkEntry
  rw [if_pos h]

theorem walkEntry_large (hp : field pde 0 1 = 1) (hs : field pde 7 1 = 1) :
    walkEntry mem pde va = some
      { phys := field pde 22 10 * 2 ^ 22 + va % 2 ^ 22
        user := field pde 2 1 == 1
        write := field pde 1 1 == 1 } := by
  unfold walkEntry
  rw [if_neg (by omega), if_pos hs]

theorem walkEntry_table (hp : field pde 0 1 = 1) (hs : field pde 7 1 = 0) :
    walkEntry mem pde va =
      walkTable (mem (field pde 12 20 * 2 ^ 12 + 4 * (va / 2 ^ 12 % 2 ^ 10)))
        (field pde 2 1 == 1) (field pde 1 1 == 1) va := by
  unfold walkEntry
  rw [if_neg (by omega), if_neg (by omega)]

end Walk

end MyOS.Machine
