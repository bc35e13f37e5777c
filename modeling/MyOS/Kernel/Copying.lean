import Mathlib.Tactic.IntervalCases
import MyOS.Machine.Block
import MyOS.Machine.Memory

/-!
# `lib.c`: `memset`, `memcpy`, `memmove`

Model of the three routines (`lib.c:428-602`), which are inline assembly.

* Pointers are 32-bit registers, and a load or store of four bytes wraps with its pointer. The
  counts in `ecx` and `edx` only go down to zero.
* One unit that is moved, a byte through `al` or a double word by `movsl`, is read as a whole before
  it is written. `moveLoop` moves so many units, and the loops and string instructions of the source
  are its instances.
* `memcpy` and `memset` move single bytes until `edi` is aligned, then double words, then the bytes
  left over. `memmove` goes down from the ends when `src` is below `dest`.
* Each routine sets the direction flag itself before a string instruction, so the flag `memmove`
  leaves set is not read by any of them.

`moveLoop_up`, `moveLoop_down` and `storeLoop_eq` say what the loops leave, through `copied` and
`filled`: the order in which units are moved matters, and the alignment does not. From them
`memcpyTop_eq`, `memmove_eq` and `memsetTop_eq`, and **`memory_routines`** for the three together.
-/

namespace MyOS.Kernel

open MyOS.Machine

/-! ## Copying -/

/-- Memory and the two pointers of a copy. -/
structure CopyRegs where
  mem : Mem
  esi : UInt32
  edi : UInt32

/-- The `width` bytes at `esi` moved to `edi`, and the pointers moved by `step`. -/
def moveUnit (width : Nat) (step : UInt32) (r : CopyRegs) : CopyRegs where
  mem := pokes r.mem r.edi.toNat ((List.range width).map fun i => peek r.mem (r.esi.toNat + i))
  esi := r.esi + step
  edi := r.edi + step

/-- So many units moved. -/
def moveLoop (width : Nat) (step : UInt32) : Nat → CopyRegs → CopyRegs
  | 0, r => r
  | n + 1, r => moveLoop width step n (moveUnit width step r)

/-- `rep movsl`, with the direction flag clear. -/
def repMovsl : Nat → CopyRegs → CopyRegs := moveLoop 4 4

/-- `rep movsb`, in the direction of the flag. -/
def repMovsb (directionFlag : Bool) : Nat → CopyRegs → CopyRegs :=
  moveLoop 1 (if directionFlag then -1 else 1)

/-- The loop at `.memcpy_bottom`. -/
def memcpyBottom : Nat → CopyRegs → CopyRegs := moveLoop 1 1

/-- The loop at `.memcpy_top`, and what follows once `edi` is aligned. -/
def memcpyTop : Nat → CopyRegs → Mem
  | 0, r => r.mem
  | n + 1, r =>
    if r.edi &&& 3 = 0 then (memcpyBottom ((n + 1) &&& 3) (repMovsl ((n + 1) >>> 2) r)).mem
    else memcpyTop n (moveUnit 1 1 r)

/-- `memcpy(dest, src, n)`: the memory it leaves, and what it returns. -/
def memcpy (m : Mem) (dest src n : UInt32) : Mem × UInt32 :=
  (memcpyTop n.toNat ⟨m, src, dest⟩, dest)

/-- `memmove(dest, src, n)`. -/
def memmove (m : Mem) (dest src n : UInt32) : Mem × UInt32 :=
  if dest ≤ src then ((repMovsb false n.toNat ⟨m, src, dest⟩).mem, dest) -- jae
  else ((repMovsb true n.toNat ⟨m, src + n - 1, dest + n - 1⟩).mem, dest)

/-! ## Filling -/

/-- The bytes of a register, as they are stored. -/
def leBytes (w : UInt32) : List UInt8 :=
  [w.toUInt8, (w >>> 8).toUInt8, (w >>> 16).toUInt8, (w >>> 24).toUInt8]

/-- Some bytes stored so many times over, from `edi` on. -/
def storeLoop (bytes : List UInt8) : Nat → Mem → UInt32 → Mem × UInt32
  | 0, m, edi => (m, edi)
  | n + 1, m, edi =>
    storeLoop bytes n (pokes m edi.toNat bytes) (edi + UInt32.ofNat bytes.length)

/-- `rep stosl`, with the direction flag clear. -/
def repStosl (eax : UInt32) : Nat → Mem → UInt32 → Mem × UInt32 := storeLoop (leBytes eax)

/-- The loop at `.memset_bottom`. -/
def memsetBottom (eax : UInt32) : Nat → Mem → UInt32 → Mem × UInt32 := storeLoop [eax.toUInt8]

/-- The loop at `.memset_top`, and what follows once `edi` is aligned. -/
def memsetTop (eax : UInt32) : Nat → Mem → UInt32 → Mem
  | 0, m, _ => m
  | n + 1, m, edi =>
    if edi &&& 3 = 0 then
      let r := repStosl eax ((n + 1) >>> 2) m edi
      (memsetBottom eax ((n + 1) &&& 3) r.1 r.2).1
    else memsetTop eax n (pokes m edi.toNat [eax.toUInt8]) (edi + 1)

/-- What `memset` loads into `eax`. -/
def memsetEax (c : Int32) : UInt32 :=
  let c := c &&& 0xFF
  (c <<< 24 ||| c <<< 16 ||| c <<< 8 ||| c).toUInt32

/-- `memset(s, c, n)`: the memory it leaves, and what it returns. -/
def memset (m : Mem) (s : UInt32) (c : Int32) (n : UInt32) : Mem × UInt32 :=
  (memsetTop (memsetEax c) n.toNat m s, s)

/-! ## What a copy leaves -/

variable {m : Mem} {d s n : Nat}

theorem toNat_pointer {a : Nat} (h : a < 2 ^ 32) : (UInt32.ofNat a).toNat = a := by
  rw [UInt32.toNat_ofNat']
  exact Nat.mod_eq_of_lt h

/-- Away from the end of the address space a unit is stored as it was read. -/
theorem moveUnit_mem_eq {width : Nat} (step esi : UInt32) (hw : 0 < width)
    (hd : d + width ≤ 2 ^ 32) : (moveUnit width step ⟨m, esi, UInt32.ofNat d⟩).mem =
      store m d ((List.range width).map fun i => peek m (esi.toNat + i)) := by
  change pokes m (UInt32.ofNat d).toNat _ = _
  rw [toNat_pointer (by omega)]
  apply pokes_eq_store
  rwa [List.length_map, List.length_range]

/-- **One unit moved.** -/
theorem moveUnit_mem {width : Nat} (step : UInt32) (hw : 0 < width) (hd : d + width ≤ 2 ^ 32)
    (hs : s + width ≤ 2 ^ 32) :
    (moveUnit width step ⟨m, UInt32.ofNat s, UInt32.ofNat d⟩).mem = copied m d s width := by
  rw [moveUnit_mem_eq step _ hw hd, toNat_pointer (by omega)]
  funext x
  by_cases hx : d ≤ x ∧ x < d + width
  · obtain ⟨i, rfl⟩ := Nat.exists_eq_add_of_le hx.1
    have hi : i < ((List.range width).map fun i => peek m (s + i)).length := by
      rw [List.length_map, List.length_range]
      omega
    rw [copied_inside m d s (by omega), store_of_inside m d hi, List.getD_eq_getElem _ _ hi,
      List.getElem_map, List.getElem_range]
    unfold peek
    rw [Nat.mod_eq_of_lt (by omega)]
  · rw [copied_outside m s (by omega), store_of_outside m]
    rw [List.length_map, List.length_range]
    omega

/-- A unit moved writes nowhere else, whatever is read. -/
theorem moveUnit_outside {width : Nat} {r : CopyRegs} (step : UInt32) (hw : 0 < width)
    (hedi : r.edi = UInt32.ofNat d) (hd : d + width ≤ 2 ^ 32) {x : Nat}
    (hx : x < d ∨ d + width ≤ x) : (moveUnit width step r).mem x = r.mem x := by
  obtain ⟨m, esi, edi⟩ := r
  obtain rfl : edi = UInt32.ofNat d := hedi
  rw [moveUnit_mem_eq step esi hw hd]
  apply store_of_outside
  rwa [List.length_map, List.length_range]

/-- The pointers after a unit, upwards. -/
theorem moveUnit_up (m : Mem) (s d width : Nat) :
    moveUnit width (UInt32.ofNat width) ⟨m, UInt32.ofNat s, UInt32.ofNat d⟩ =
      ⟨(moveUnit width (UInt32.ofNat width) ⟨m, UInt32.ofNat s, UInt32.ofNat d⟩).mem,
        UInt32.ofNat (s + width), UInt32.ofNat (d + width)⟩ := by
  rw [UInt32.ofNat_add, UInt32.ofNat_add]
  rfl

/-- **Units moved upwards**, where no unit writes what a later one reads. -/
theorem moveLoop_up {width : Nat} (hw : 0 < width) (hd : d + n * width ≤ 2 ^ 32)
    (hs : s + n * width ≤ 2 ^ 32) (hsafe : d ≤ s ∨ s + n * width ≤ d) :
    moveLoop width (UInt32.ofNat width) n ⟨m, UInt32.ofNat s, UInt32.ofNat d⟩ =
      ⟨copied m d s (n * width), UInt32.ofNat (s + n * width), UInt32.ofNat (d + n * width)⟩ := by
  induction n generalizing m d s with
  | zero => rw [moveLoop, Nat.zero_mul, copied_zero, Nat.add_zero, Nat.add_zero]
  | succ n ih =>
    have hmul : (n + 1) * width = width + n * width := by
      rw [Nat.succ_mul, Nat.add_comm]
    rw [hmul] at hd hs hsafe ⊢
    rw [moveLoop, moveUnit_up, moveUnit_mem _ hw (by omega) (by omega),
      ih (by omega) (by omega) (by omega), copied_append hsafe, Nat.add_assoc, Nat.add_assoc]

/-- **Units moved upwards write nowhere else.** -/
theorem moveLoop_outside {width : Nat} {r : CopyRegs} (hw : 0 < width)
    (hedi : r.edi = UInt32.ofNat d) (hd : d + n * width ≤ 2 ^ 32) {x : Nat}
    (hx : x < d ∨ d + n * width ≤ x) :
    (moveLoop width (UInt32.ofNat width) n r).mem x = r.mem x ∧
      (moveLoop width (UInt32.ofNat width) n r).edi = UInt32.ofNat (d + n * width) := by
  induction n generalizing d r with
  | zero =>
    rw [moveLoop, Nat.zero_mul, Nat.add_zero]
    exact ⟨rfl, hedi⟩
  | succ n ih =>
    have hmul : (n + 1) * width = width + n * width := by
      rw [Nat.succ_mul, Nat.add_comm]
    rw [hmul] at hd hx ⊢
    have hnext : (moveUnit width (UInt32.ofNat width) r).edi = UInt32.ofNat (d + width) := by
      rw [UInt32.ofNat_add, ← hedi]
      rfl
    obtain ⟨hmem, hedi'⟩ := ih hnext (by omega) (by omega)
    rw [moveLoop, ← Nat.add_assoc]
    refine ⟨?_, hedi'⟩
    rw [hmem]
    exact moveUnit_outside _ hw hedi (by omega) (by omega)

/-- **Bytes moved downwards**, from the ends of the two blocks. -/
theorem moveLoop_down (hd : d + n ≤ 2 ^ 32) (hs : s + n ≤ 2 ^ 32) (hsafe : s ≤ d) :
    (moveLoop 1 (-1) n ⟨m, UInt32.ofNat (s + n) - 1, UInt32.ofNat (d + n) - 1⟩).mem =
      copied m d s n := by
  induction n generalizing m with
  | zero => rw [moveLoop, copied_zero]
  | succ n ih =>
    have hback : ∀ a, UInt32.ofNat (a + (n + 1)) - 1 = UInt32.ofNat (a + n) := by
      intro a
      rw [← Nat.add_assoc, UInt32.ofNat_add]
      exact UInt32.add_sub_cancel _ _
    have hunit : moveUnit 1 (-1) ⟨m, UInt32.ofNat (s + n), UInt32.ofNat (d + n)⟩ =
        ⟨copied m (d + n) (s + n) 1, UInt32.ofNat (s + n) - 1, UInt32.ofNat (d + n) - 1⟩ := by
      rw [← moveUnit_mem (-1) Nat.one_pos (by omega) (by omega), UInt32.sub_eq_add_neg,
        UInt32.sub_eq_add_neg]
      rfl
    rw [hback, hback, moveLoop, hunit, ih (by omega) (by omega), copied_append_back hsafe]

/-! ## The three routines -/

/-- The double words and the bytes left over make up the count. -/
theorem words_add_rest (n : Nat) : (n >>> 2) * 4 + (n &&& 3) * 1 = n := by
  have hrest : n &&& 3 = n % 4 := Nat.and_two_pow_sub_one_eq_mod n 2
  rw [hrest, Nat.shiftRight_eq_div_pow]
  omega

/-- **`memcpy` copies**, where the lower end of a block may be written before the rest is read. -/
theorem memcpyTop_eq (hd : d + n ≤ 2 ^ 32) (hs : s + n ≤ 2 ^ 32) (hsafe : d ≤ s ∨ s + n ≤ d) :
    memcpyTop n ⟨m, UInt32.ofNat s, UInt32.ofNat d⟩ = copied m d s n := by
  induction n generalizing m d s with
  | zero => rw [memcpyTop, copied_zero]
  | succ n ih =>
    rw [memcpyTop]
    split
    · have hsum := words_add_rest (n + 1)
      have hwords : repMovsl ((n + 1) >>> 2) ⟨m, UInt32.ofNat s, UInt32.ofNat d⟩ = _ :=
        moveLoop_up (show 0 < 4 by decide) (by omega) (by omega) (by omega)
      have hrest := moveLoop_up (m := copied m d s (((n + 1) >>> 2) * 4))
        (s := s + ((n + 1) >>> 2) * 4) (d := d + ((n + 1) >>> 2) * 4) (n := (n + 1) &&& 3)
        Nat.one_pos (by omega) (by omega) (by omega)
      rw [hwords]
      refine (congrArg CopyRegs.mem hrest).trans ?_
      rw [copied_append (by rwa [hsum]), hsum]
    · have hunit := moveUnit_up m s d 1
      rw [moveUnit_mem _ Nat.one_pos (by omega) (by omega)] at hunit
      refine (congrArg (memcpyTop n) hunit).trans ?_
      rw [ih (by omega) (by omega) (by omega), copied_append (by omega), Nat.add_comm 1]

/-- **`memcpy` writes nowhere else**, whatever the overlap. -/
theorem memcpyTop_outside {r : CopyRegs} (hedi : r.edi = UInt32.ofNat d) (hd : d + n ≤ 2 ^ 32)
    {x : Nat} (hx : x < d ∨ d + n ≤ x) : memcpyTop n r x = r.mem x := by
  induction n generalizing d r with
  | zero => rfl
  | succ n ih =>
    rw [memcpyTop]
    split
    · have hsum := words_add_rest (n + 1)
      have hfour : d + ((n + 1) >>> 2) * 4 ≤ 2 ^ 32 := by omega
      obtain ⟨hwords, hedi'⟩ :=
        moveLoop_outside (x := x) (show 0 < 4 by decide) hedi hfour (by omega)
      have hrest : d + ((n + 1) >>> 2) * 4 + ((n + 1) &&& 3) * 1 ≤ 2 ^ 32 := by omega
      exact (moveLoop_outside Nat.one_pos hedi' hrest (by omega)).1.trans hwords
    · have hnext : (moveUnit 1 1 r).edi = UInt32.ofNat (d + 1) := by
        rw [UInt32.ofNat_add, ← hedi]
        rfl
      rw [ih hnext (by omega) (by omega)]
      exact moveUnit_outside 1 Nat.one_pos hedi (by omega) (by omega)

/-- **`memmove` copies, whatever the overlap.** -/
theorem memmove_eq (m : Mem) (dest src n : UInt32) (hd : dest.toNat + n.toNat ≤ 2 ^ 32)
    (hs : src.toNat + n.toNat ≤ 2 ^ 32) :
    memmove m dest src n = (copied m dest.toNat src.toNat n.toNat, dest) := by
  unfold memmove
  split
  · rename_i hle
    have hup := moveLoop_up (m := m) (n := n.toNat) (s := src.toNat) (d := dest.toNat) Nat.one_pos
      (by omega) (by omega) (Or.inl (UInt32.le_iff_toNat_le.mp hle))
    rw [UInt32.ofNat_toNat, UInt32.ofNat_toNat, Nat.mul_one] at hup
    exact Prod.ext (congrArg CopyRegs.mem hup) rfl
  · rename_i hlt
    have hdown := moveLoop_down (m := m) (n := n.toNat) (s := src.toNat) (d := dest.toNat) hd hs
      (by rw [UInt32.le_iff_toNat_le] at hlt; omega)
    rw [UInt32.ofNat_add, UInt32.ofNat_add, UInt32.ofNat_toNat, UInt32.ofNat_toNat,
      UInt32.ofNat_toNat] at hdown
    exact Prod.ext hdown rfl

/-! ## `memset` -/

variable {a : Nat} {b : UInt8}

/-- A byte repeated, stored once. -/
theorem pokes_replicate {width : Nat} (hw : 0 < width) (ha : a + width ≤ 2 ^ 32) :
    pokes m (UInt32.ofNat a).toNat (List.replicate width b) = filled m a width b := by
  rw [toNat_pointer (by omega), pokes_eq_store m (by rwa [List.length_replicate])]
  funext x
  by_cases hx : a ≤ x ∧ x < a + width
  · obtain ⟨i, rfl⟩ := Nat.exists_eq_add_of_le hx.1
    have hi : i < (List.replicate width b).length := by
      rw [List.length_replicate]
      omega
    rw [filled_inside m a b (by omega), store_of_inside m a hi, List.getD_eq_getElem _ _ hi,
      List.getElem_replicate]
  · rw [filled_outside m b (by omega), store_of_outside m]
    rw [List.length_replicate]
    omega

/-- **A byte repeated, stored over and over.** -/
theorem storeLoop_eq {width : Nat} (hw : 0 < width) (ha : a + n * width ≤ 2 ^ 32) :
    storeLoop (List.replicate width b) n m (UInt32.ofNat a) =
      (filled m a (n * width) b, UInt32.ofNat (a + n * width)) := by
  induction n generalizing m a with
  | zero => rw [storeLoop, Nat.zero_mul, filled_zero, Nat.add_zero]
  | succ n ih =>
    have hmul : (n + 1) * width = width + n * width := by
      rw [Nat.succ_mul, Nat.add_comm]
    rw [hmul] at ha ⊢
    rw [storeLoop, pokes_replicate hw (by omega), List.length_replicate, ← UInt32.ofNat_add,
      ih (by omega), filled_append, Nat.add_assoc]

/-- **`memset` fills**, where all bytes of `eax` are the same. -/
theorem memsetTop_eq {eax : UInt32} (heax : leBytes eax = List.replicate 4 b)
    (ha : a + n ≤ 2 ^ 32) : memsetTop eax n m (UInt32.ofNat a) = filled m a n b := by
  have hal : [eax.toUInt8] = List.replicate 1 b := congrArg (List.take 1) heax
  induction n generalizing m a with
  | zero => rw [memsetTop, filled_zero]
  | succ n ih =>
    rw [memsetTop]
    split
    · have hsum := words_add_rest (n + 1)
      unfold repStosl memsetBottom
      rw [heax, hal, storeLoop_eq (by decide) (by omega)]
      dsimp only
      rw [storeLoop_eq Nat.one_pos (by omega), filled_append, hsum]
    · have hnext : UInt32.ofNat a + 1 = UInt32.ofNat (a + 1) := by
        rw [UInt32.ofNat_add]
        rfl
      rw [hal, pokes_replicate Nat.one_pos (by omega), hnext, ih (by omega), filled_append,
        Nat.add_comm 1]

/-- The low byte of a word, repeated four times, in each of its bytes. -/
theorem byte_of_repeated (c : BitVec 32) {k : Nat} (hk : k < 4) :
    (((c &&& 255#32) <<< 24 ||| (c &&& 255#32) <<< 16 ||| (c &&& 255#32) <<< 8 |||
      (c &&& 255#32)) >>> (8 * k)).setWidth 8 = c.setWidth 8 := by
  apply BitVec.eq_of_getLsbD_eq
  intro i hi
  have hmask : ∀ j, (255#32).getLsbD j = decide (j < 8) := by
    intro j
    rw [show (255#32) = BitVec.ofNat 32 (2 ^ 8 - 1) from rfl, BitVec.getLsbD_ofNat,
      Nat.testBit_two_pow_sub_one]
    by_cases h : j < 8 <;> simp [h]
    omega
  simp only [BitVec.getLsbD_setWidth, BitVec.getLsbD_ushiftRight, BitVec.getLsbD_or,
    BitVec.getLsbD_shiftLeft, BitVec.getLsbD_and, hmask]
  interval_cases k <;> interval_cases i <;> simp

theorem leBytes_memsetEax (c : Int32) :
    leBytes (memsetEax c) = List.replicate 4 c.toUInt32.toUInt8 := by
  have hbyte : ∀ k < 4, ((memsetEax c).toBitVec >>> (8 * k)).setWidth 8 =
      c.toBitVec.setWidth 8 := fun k hk => byte_of_repeated c.toBitVec hk
  have h0 : (memsetEax c).toUInt8 = c.toUInt32.toUInt8 :=
    UInt8.toBitVec_inj.mp (hbyte 0 (by decide))
  have h1 : (memsetEax c >>> 8).toUInt8 = c.toUInt32.toUInt8 :=
    UInt8.toBitVec_inj.mp (hbyte 1 (by decide))
  have h2 : (memsetEax c >>> 16).toUInt8 = c.toUInt32.toUInt8 :=
    UInt8.toBitVec_inj.mp (hbyte 2 (by decide))
  have h3 : (memsetEax c >>> 24).toUInt8 = c.toUInt32.toUInt8 :=
    UInt8.toBitVec_inj.mp (hbyte 3 (by decide))
  unfold leBytes
  rw [h0, h1, h2, h3]
  rfl

/-- The byte that is stored. -/
theorem toNat_low_byte (c : Int32) : (c.toUInt32.toUInt8.toNat : Int) = c.toInt % 256 := by
  have hlow : c.toUInt32.toUInt8.toNat = c.toBitVec.toNat % 256 := rfl
  have hint : c.toInt = c.toBitVec.toInt := rfl
  rw [hlow, hint, BitVec.toInt_eq_toNat_cond]
  split <;> omega

/-! ## All three -/

/-- The bytes at `src` are at `dest`, as they were, and no other byte has changed. -/
def Moved (m m' : Mem) (dest src n : UInt32) : Prop :=
  (∀ i < n.toNat, m' (dest.toNat + i) = m (src.toNat + i)) ∧
    ∀ x, x < dest.toNat ∨ dest.toNat + n.toNat ≤ x → m' x = m x

/-- The bytes at `s` are `c` modulo 256, and no other byte has changed. -/
def SetTo (m m' : Mem) (s : UInt32) (c : Int32) (n : UInt32) : Prop :=
  (∀ i < n.toNat, ((m' (s.toNat + i)).toNat : Int) = c.toInt % 256) ∧
    ∀ x, x < s.toNat ∨ s.toNat + n.toNat ≤ x → m' x = m x

theorem moved_copied (m : Mem) (dest src n : UInt32) :
    Moved m (copied m dest.toNat src.toNat n.toNat) dest src n :=
  ⟨fun _ hi => copied_inside m _ _ hi, fun _ hx => copied_outside m _ hx⟩

theorem memcpy_eq (m : Mem) (dest src n : UInt32) (hd : dest.toNat + n.toNat ≤ 2 ^ 32)
    (hs : src.toNat + n.toNat ≤ 2 ^ 32)
    (hsafe : dest.toNat ≤ src.toNat ∨ src.toNat + n.toNat ≤ dest.toNat) :
    memcpy m dest src n = (copied m dest.toNat src.toNat n.toNat, dest) := by
  have hcopy := memcpyTop_eq (m := m) hd hs hsafe
  rw [UInt32.ofNat_toNat, UInt32.ofNat_toNat] at hcopy
  exact Prod.ext hcopy rfl

theorem memset_eq (m : Mem) (s : UInt32) (c : Int32) (n : UInt32)
    (hs : s.toNat + n.toNat ≤ 2 ^ 32) :
    memset m s c n = (filled m s.toNat n.toNat c.toUInt32.toUInt8, s) := by
  have hfill := memsetTop_eq (m := m) (leBytes_memsetEax c) hs
  rw [UInt32.ofNat_toNat] at hfill
  exact Prod.ext hfill rfl

/-- **The memory routines do what byte loops would.** For every memory, all addresses and every
count that does not run past the end of the address space: `memmove` moves its bytes whatever the
overlap; `memcpy` does the same where `dest` is not above `src` or the blocks are disjoint, and
writes nowhere else in any case; `memset` sets its bytes. -/
theorem memory_routines (m : Mem) (dest src s n : UInt32) (c : Int32)
    (hdest : dest.toNat + n.toNat ≤ 2 ^ 32) (hsrc : src.toNat + n.toNat ≤ 2 ^ 32)
    (hs : s.toNat + n.toNat ≤ 2 ^ 32) :
    Moved m (memmove m dest src n).1 dest src n ∧
    (dest.toNat ≤ src.toNat ∨ dest.toNat + n.toNat ≤ src.toNat ∨
        src.toNat + n.toNat ≤ dest.toNat →
      Moved m (memcpy m dest src n).1 dest src n ∧ memcpy m dest src n = memmove m dest src n) ∧
    (∀ x, x < dest.toNat ∨ dest.toNat + n.toNat ≤ x → (memcpy m dest src n).1 x = m x) ∧
    SetTo m (memset m s c n).1 s c n := by
  have hmove := memmove_eq m dest src n hdest hsrc
  refine ⟨?_, fun hsafe => ?_, fun x hx => ?_, ?_⟩
  · rw [hmove]
    exact moved_copied m dest src n
  · have hcopy := memcpy_eq m dest src n hdest hsrc (by omega)
    rw [hcopy, hmove]
    exact ⟨moved_copied m dest src n, rfl⟩
  · refine memcpyTop_outside ?_ hdest hx
    exact UInt32.ofNat_toNat.symm
  · rw [memset_eq m s c n hs]
    refine ⟨fun i hi => ?_, fun x hx => filled_outside m _ hx⟩
    have hbyte := filled_inside m s.toNat c.toUInt32.toUInt8 hi
    dsimp only
    rw [hbyte]
    exact toNat_low_byte c

/-- Six bytes moved up by two over themselves, and six set to -1. -/
theorem memory_routines_overlap :
    (memmove (fun i => UInt8.ofNat i) 5 3 6).1 7 = 5 ∧
      (((memset (fun i => UInt8.ofNat i) 5 (-1) 6).1 9).toNat : Int) = 255 := by
  obtain ⟨hmove, -, -, hset⟩ := memory_routines (fun i => UInt8.ofNat i) 5 3 5 6 (-1) (by decide)
    (by decide) (by decide)
  exact ⟨hmove.1 2 (by decide), hset.1 4 (by decide)⟩

end MyOS.Kernel
