import Mathlib.Algebra.Group.Int.Defs
import Mathlib.Algebra.Group.Nat.Defs
import Mathlib.Data.List.GetD
import Mathlib.Data.List.TakeWhile
import Mathlib.Logic.Function.Basic
import Mathlib.Tactic.Common

/-!
# Bytes, little-endian words and C strings

Byte-addressed memory (`Mem`), the little-endian 32-bit word at an address (`le32`), the two
readings of a 32-bit pattern (`toInt32`, `toUInt32`) and NUL-terminated strings. A `CString`
carries the proof that none of its bytes is NUL, so its length is where `strlen` stops, and `get`
is what a pointer to it reads: the bytes, then the terminator.

* `CString.eq_of_get`: two strings that read the same through a pointer, up to the longer of
  their lengths, are equal.
* `CString.ofMem`: the string a pointer into memory reads, at most `fuel` bytes of it.
  `StringAt`: the string that lies at an address; `StringAt.readString_eq` reads it.
* `overlay`, `store`: what an array, or memory, holds after bytes have been stored in it. `Holds`:
  some bytes lie at an address.
* `peek`, `pokes`: loads and stores through 32-bit pointers, which wrap. `pokes_inside` and
  `pokes_outside` say what a run of stores leaves where.
-/

namespace MyOS.Machine

/-- Byte-addressed memory. -/
abbrev Mem := Nat → UInt8

/-- The little-endian 32-bit word at `a`. -/
def le32 (m : Mem) (a : Nat) : Nat :=
  (m a).toNat + 256 * (m (a + 1)).toNat + 65536 * (m (a + 2)).toNat +
    16777216 * (m (a + 3)).toNat

theorem le32_lt (m : Mem) (a : Nat) : le32 m a < 2 ^ 32 := by
  have h0 := (m a).toNat_lt
  have h1 := (m (a + 1)).toNat_lt
  have h2 := (m (a + 2)).toNat_lt
  have h3 := (m (a + 3)).toNat_lt
  unfold le32
  omega

/-- The 32-bit pattern `n` read as a signed `int`. -/
def toInt32 (n : Nat) : Int := if n < 2 ^ 31 then (n : Int) else (n : Int) - 2 ^ 32

/-- An `int` read as an unsigned 32-bit value. -/
def toUInt32 (n : Int) : Nat := (n % 2 ^ 32).toNat

theorem toUInt32_of_lt {n : Int} (h0 : 0 ≤ n) (h : n < 2 ^ 32) : toUInt32 n = n.toNat := by
  unfold toUInt32
  rw [Int.emod_eq_of_lt h0 h]

/-! ## C strings -/

/-- The bytes of a NUL-terminated string, terminator left out. -/
@[ext] structure CString where
  bytes : List UInt8
  nul_free : (0 : UInt8) ∉ bytes
  deriving DecidableEq

namespace CString

/-- `strlen`. -/
def length (s : CString) : Nat := s.bytes.length

/-- What a pointer to the string reads at index `i`: its bytes, then the terminator. -/
def get (s : CString) (i : Nat) : UInt8 := s.bytes.getD i 0

theorem get_eq_zero_iff (s : CString) (i : Nat) : s.get i = 0 ↔ s.length ≤ i := by
  unfold CString.get CString.length
  constructor
  · intro h
    by_contra hlt
    rw [List.getD_eq_getElem _ _ (by omega)] at h
    exact s.nul_free (h ▸ List.getElem_mem _)
  · intro h
    exact List.getD_eq_default _ _ h

/-- What a pointer reads before the terminator is a byte of the string. -/
theorem mem_of_get {s : CString} {i : Nat} (h : s.get i ≠ 0) : s.get i ∈ s.bytes := by
  have hlt : i < s.bytes.length := by
    by_contra hge
    exact h ((s.get_eq_zero_iff i).mpr (Nat.le_of_not_lt hge))
  unfold CString.get
  rw [List.getD_eq_getElem _ _ hlt]
  exact List.getElem_mem _

/-- **A string is what its pointer reads.** -/
theorem eq_of_get {s t : CString} (h : ∀ i, s.get i = t.get i) : s = t := by
  have hlen : s.length = t.length := by
    have hs : t.length ≤ s.length := by
      rw [← get_eq_zero_iff, ← h, get_eq_zero_iff]
    have ht : s.length ≤ t.length := by
      rw [← get_eq_zero_iff, h, get_eq_zero_iff]
    omega
  have hbytes : s.bytes = t.bytes := by
    apply List.ext_getElem hlen
    intro i h1 h2
    have := h i
    unfold CString.get at this
    rwa [List.getD_eq_getElem _ _ h1, List.getD_eq_getElem _ _ h2] at this
  exact CString.ext hbytes

/-- The string from index `n` on. -/
def drop (s : CString) (n : Nat) : CString :=
  ⟨s.bytes.drop n, fun h => s.nul_free (List.mem_of_mem_drop h)⟩

/-- The empty string. -/
def empty : CString := ⟨[], by simp⟩

end CString

/-- The bytes from `a` on up to the first NUL, at most `fuel` of them. -/
def readString (m : Mem) : Nat → Nat → List UInt8
  | 0, _ => []
  | fuel + 1, a => if m a = 0 then [] else m a :: readString m fuel (a + 1)

theorem readString_nul_free (m : Mem) : ∀ fuel a, (0 : UInt8) ∉ readString m fuel a
  | 0, _ => by simp [readString]
  | fuel + 1, a => by
    unfold readString
    split
    · simp
    · rename_i h
      rw [List.mem_cons, not_or]
      exact ⟨fun e => h e.symm, readString_nul_free m fuel (a + 1)⟩

theorem readString_length_le (m : Mem) : ∀ fuel a, (readString m fuel a).length ≤ fuel
  | 0, _ => by simp [readString]
  | fuel + 1, a => by
    unfold readString
    split
    · simp
    · simp only [List.length_cons, Nat.add_le_add_iff_right]
      exact readString_length_le m fuel (a + 1)

/-- A string ends at the first NUL. -/
theorem readString_length_le_of_nul (m : Mem) : ∀ fuel a j, m (a + j) = 0 →
    (readString m fuel a).length ≤ j
  | 0, _, _, _ => by simp [readString]
  | fuel + 1, a, 0, h => by
    rw [Nat.add_zero] at h
    unfold readString
    rw [if_pos h]
    rfl
  | fuel + 1, a, j + 1, h => by
    unfold readString
    split
    · simp
    · simp only [List.length_cons, Nat.add_le_add_iff_right]
      exact readString_length_le_of_nul m fuel (a + 1) j (by rwa [Nat.add_right_comm])

/-- A string that ends before the fuel does ends at a NUL. -/
theorem readString_nul (m : Mem) : ∀ fuel a, (readString m fuel a).length < fuel →
    m (a + (readString m fuel a).length) = 0
  | 0, _, h => absurd h (Nat.not_lt_zero _)
  | fuel + 1, a, h => by
    unfold readString at h ⊢
    split
    · rename_i h0
      exact h0
    · rename_i hne
      rw [if_neg hne, List.length_cons] at h
      have ih := readString_nul m fuel (a + 1) (by omega)
      rwa [List.length_cons, Nat.add_comm _ 1, ← Nat.add_assoc]

/-- The first bytes of a string are the string read with less fuel. -/
theorem readString_take (m : Mem) : ∀ n fuel a,
    (readString m fuel a).take n = readString m (min n fuel) a
  | 0, fuel, a => by rw [List.take_zero, Nat.zero_min, readString]
  | n + 1, 0, a => by simp [readString]
  | n + 1, fuel + 1, a => by
    rw [Nat.succ_min_succ]
    unfold readString
    split
    · rw [List.take_nil]
    · rw [List.take_succ_cons, readString_take m n fuel (a + 1)]

/-- A string goes on past its first `n` bytes when none of them is NUL. -/
theorem readString_add (m : Mem) : ∀ n fuel a, readString m (n + fuel) a =
    readString m n a ++ if (readString m n a).length = n then readString m fuel (a + n) else []
  | 0, fuel, a => by simp [readString]
  | n + 1, fuel, a => by
    rw [Nat.add_right_comm, readString, readString]
    split
    · simp
    · rw [readString_add m n fuel (a + 1), List.length_cons, List.cons_append,
        Nat.add_right_comm, Nat.add_assoc a]
      simp only [Nat.add_right_cancel_iff]

/-- The C string at `a`. -/
def CString.ofMem (m : Mem) (fuel a : Nat) : CString :=
  ⟨readString m fuel a, readString_nul_free m fuel a⟩

/-- The bytes of `xs` before its first NUL, as a string. -/
def CString.ofBytes (xs : List UInt8) : CString :=
  ⟨xs.takeWhile (· != 0), fun h => by simpa using List.mem_takeWhile_imp h⟩

/-- The string `s` and its terminator lie at `a`. -/
def StringAt (m : Mem) (a : Nat) (s : CString) : Prop := ∀ i ≤ s.length, m (a + i) = s.get i

theorem readString_of_bytes (m : Mem) : ∀ (bs : List UInt8) (fuel a : Nat), (0 : UInt8) ∉ bs →
    (∀ i ≤ bs.length, m (a + i) = bs.getD i 0) → readString m fuel a = bs.take fuel
  | _, 0, _, _, _ => by simp [readString]
  | [], fuel + 1, a, _, h => by
    have h0 : m a = 0 := h 0 (Nat.le_refl 0)
    rw [readString, if_pos h0, List.take_nil]
  | b :: bs, fuel + 1, a, hnul, h => by
    rw [List.mem_cons, not_or] at hnul
    have h0 : m a = b := h 0 (Nat.zero_le _)
    have htail : ∀ i ≤ bs.length, m (a + 1 + i) = bs.getD i 0 := by
      intro i hi
      have := h (i + 1) (by simpa using hi)
      rwa [show a + (i + 1) = a + 1 + i by omega] at this
    rw [readString, if_neg (by rw [h0]; exact fun h => hnul.1 h.symm), h0,
      readString_of_bytes m bs fuel (a + 1) hnul.2 htail, List.take_succ_cons]

/-- **The string at an address is what is read there**, as far as the fuel goes. -/
theorem StringAt.readString_eq {m : Mem} {a : Nat} {s : CString} (h : StringAt m a s)
    (fuel : Nat) : readString m fuel a = s.bytes.take fuel :=
  readString_of_bytes m s.bytes fuel a s.nul_free h

/-- The rest of a string is a string. -/
theorem StringAt.drop {m : Mem} {a : Nat} {s : CString} (h : StringAt m a s) {n : Nat}
    (hn : n ≤ s.length) : StringAt m (a + n) (s.drop n) := by
  intro i hi
  have hlen : (s.drop n).length = s.length - n := List.length_drop
  rw [Nat.add_assoc, h (n + i) (by omega)]
  simp [CString.get, CString.drop, List.getD_eq_getElem?_getD]

/-- The first bytes of a string, read one by one. -/
theorem StringAt.map_range {m : Mem} {s : CString} (h : StringAt m 0 s) {n : Nat}
    (hn : n ≤ s.length) : (List.range n).map m = s.bytes.take n := by
  have hlen : n ≤ s.bytes.length := hn
  refine List.ext_getElem (by simp [hlen]) fun i h1 h2 => ?_
  have hi : i < n := by simpa using h1
  have hget := h i (by omega)
  rw [Nat.zero_add, CString.get, List.getD_eq_getElem _ _ (by omega)] at hget
  rw [List.getElem_map, List.getElem_range, List.getElem_take, hget]

/-- The array `old` after the bytes `new` have been stored at its start. -/
def overlay (new old : List UInt8) : List UInt8 := new ++ old.drop new.length

/-- The memory `m` after the bytes `bs` have been stored from `a` on. -/
def store (m : Mem) (a : Nat) (bs : List UInt8) : Mem := fun i =>
  if a ≤ i then bs.getD (i - a) (m i) else m i

theorem store_zeros (bs : List UInt8) (i : Nat) : store (fun _ => 0) 0 bs i = bs.getD i 0 := by
  unfold store
  rw [if_pos (Nat.zero_le i), Nat.sub_zero]

/-- A string stored over zeros lies there with its terminator. -/
theorem stringAt_store (s : CString) : StringAt (store (fun _ => 0) 0 s.bytes) 0 s := by
  intro i _
  rw [Nat.zero_add, store_zeros]
  rfl

/-- A store leaves the rest of memory alone. -/
theorem store_of_outside (m : Mem) {a i : Nat} {bs : List UInt8} (h : i < a ∨ a + bs.length ≤ i) :
    store m a bs i = m i := by
  unfold store
  split
  · rw [List.getD_eq_default _ _ (by omega)]
  · rfl

/-- What was stored is read back. -/
theorem store_of_inside (m : Mem) (a : Nat) {bs : List UInt8} {j : Nat} (h : j < bs.length) :
    store m a bs (a + j) = bs.getD j 0 := by
  unfold store
  rw [if_pos (Nat.le_add_right a j), Nat.add_sub_cancel_left, List.getD_eq_getElem _ _ h,
    List.getD_eq_getElem _ _ h]

theorem le32_eq_zero {m : Mem} {a : Nat} (h : ∀ i, a ≤ i → i < a + 4 → m i = 0) :
    le32 m a = 0 := by
  unfold le32
  rw [h a (by omega) (by omega), h (a + 1) (by omega) (by omega), h (a + 2) (by omega) (by omega),
    h (a + 3) (by omega) (by omega)]
  rfl

/-! ## Bytes at an address -/

section Holds

variable {m : Mem} {a : Nat} {bs : List UInt8}

/-- The bytes `bs` lie at `a`. -/
def Holds (m : Mem) (a : Nat) (bs : List UInt8) : Prop :=
  ∀ j < bs.length, m (a + j) = bs.getD j 0

theorem holds_nil : Holds m a [] := fun _ hj => absurd hj (Nat.not_lt_zero _)

theorem holds_cons {b : UInt8} : Holds m a (b :: bs) ↔ m a = b ∧ Holds m (a + 1) bs := by
  constructor
  · intro h
    refine ⟨h 0 (Nat.succ_pos _), fun j hj => ?_⟩
    have := h (j + 1) (Nat.succ_lt_succ hj)
    rwa [show a + (j + 1) = a + 1 + j by omega, List.getD_cons_succ] at this
  · rintro ⟨hb, h⟩ j hj
    cases j with
    | zero => exact hb
    | succ j =>
      rw [show a + (j + 1) = a + 1 + j by omega, List.getD_cons_succ]
      exact h j (Nat.lt_of_succ_lt_succ hj)

theorem holds_append {cs : List UInt8} :
    Holds m a (bs ++ cs) ↔ Holds m a bs ∧ Holds m (a + bs.length) cs := by
  induction bs generalizing a with
  | nil => exact ⟨fun h => ⟨holds_nil, h⟩, fun h => h.2⟩
  | cons b bs ih =>
    rw [List.cons_append, holds_cons, holds_cons, ih, List.length_cons, and_assoc,
      show a + 1 + bs.length = a + (bs.length + 1) by omega]

/-- A store elsewhere leaves the bytes. -/
theorem Holds.update (h : Holds m a bs) {x : Nat} (hx : x < a ∨ a + bs.length ≤ x) (b : UInt8) :
    Holds (Function.update m x b) a bs := by
  intro j hj
  rw [Function.update_of_ne (by omega)]
  exact h j hj

/-- Bytes stored behind others lie there with them. -/
theorem Holds.store (h : Holds m a bs) (cs : List UInt8) :
    Holds (Machine.store m (a + bs.length) cs) a (bs ++ cs) := by
  rw [holds_append]
  constructor
  · intro j hj
    rw [store_of_outside _ (Or.inl (by omega))]
    exact h j hj
  · exact fun j hj => store_of_inside m (a + bs.length) hj

/-- With a NUL behind them, bytes without one are a string. -/
theorem Holds.readString_eq (h : Holds m a bs) (hnul : (0 : UInt8) ∉ bs)
    (hend : m (a + bs.length) = 0) {fuel : Nat} (hf : bs.length ≤ fuel) :
    readString m fuel a = bs := by
  rw [readString_of_bytes m bs _ a hnul, List.take_of_length_le hf]
  intro i hi
  rcases Nat.lt_or_eq_of_le hi with hlt | rfl
  · exact h i hlt
  · rw [hend, List.getD_eq_default _ _ (Nat.le_refl _)]

end Holds

/-! ## Through pointers -/

/-- The byte a 32-bit pointer `a` reads. -/
def peek (m : Mem) (a : Nat) : UInt8 := m (a % 2 ^ 32)

/-- The memory after a byte has been stored through the pointer `a`. -/
def poke (m : Mem) (a : Nat) (b : UInt8) : Mem := Function.update m (a % 2 ^ 32) b

/-- The memory after bytes have been stored one after the other from `a` on. -/
def pokes : Mem → Nat → List UInt8 → Mem
  | m, _, [] => m
  | m, a, b :: bs => pokes (poke m a b) (a + 1) bs

/-- Stores leave every other address alone. -/
theorem pokes_outside : ∀ (m : Mem) (a : Nat) (bs : List UInt8) {x : Nat},
    (∀ j < bs.length, x ≠ (a + j) % 2 ^ 32) → pokes m a bs x = m x
  | _, _, [], _, _ => rfl
  | m, a, b :: bs, x, h => by
    have hhead : x ≠ a % 2 ^ 32 := h 0 (by simp)
    have htail : ∀ j < bs.length, x ≠ (a + 1 + j) % 2 ^ 32 := by
      intro j hj
      have := h (j + 1) (by simpa using hj)
      rwa [show a + (j + 1) = a + 1 + j by omega] at this
    rw [pokes, pokes_outside _ _ bs htail, poke, Function.update_of_ne hhead]

/-- Stores that do not run around the address space leave what they stored. -/
theorem pokes_inside : ∀ (m : Mem) (a : Nat) (bs : List UInt8) {j : Nat}, bs.length ≤ 2 ^ 32 →
    j < bs.length → pokes m a bs ((a + j) % 2 ^ 32) = bs.getD j 0
  | _, _, [], _, _, hj => absurd hj (Nat.not_lt_zero _)
  | m, a, b :: bs, 0, hlen, _ => by
    rw [List.length_cons] at hlen
    have hout : ∀ j < bs.length, (a + 0) % 2 ^ 32 ≠ (a + 1 + j) % 2 ^ 32 := by
      intro j hj
      omega
    rw [pokes, pokes_outside _ _ bs hout]
    exact Function.update_self _ _ _
  | m, a, b :: bs, j + 1, hlen, hj => by
    rw [List.length_cons] at hlen hj
    rw [pokes, show a + (j + 1) = a + 1 + j by omega,
      pokes_inside _ _ bs (by omega) (by omega)]
    rfl

/-- Below the end of the address space, stores through a pointer are stores to memory. -/
theorem pokes_eq_store (m : Mem) {a : Nat} {bs : List UInt8} (h : a + bs.length ≤ 2 ^ 32) :
    pokes m a bs = store m a bs := by
  funext x
  by_cases hx : a ≤ x ∧ x < a + bs.length
  · obtain ⟨j, rfl⟩ := Nat.exists_eq_add_of_le hx.1
    have hinside := pokes_inside m a bs (j := j) (by omega) (by omega)
    rw [Nat.mod_eq_of_lt (by omega)] at hinside
    rw [hinside, store_of_inside m a (by omega)]
  · rw [store_of_outside m (by omega), pokes_outside]
    intro j hj
    rw [Nat.mod_eq_of_lt (by omega)]
    omega

end MyOS.Machine
