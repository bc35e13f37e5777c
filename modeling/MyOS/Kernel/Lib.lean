import MyOS.Machine.Memory

/-!
# `lib.c`: string routines and the text screen

Model of the part of `student-distrib/lib.c` the kernel's other files call.

* `strncmp` (`lib.c:618-636`) and `strncpy` (`lib.c:668-683`) run over what a pointer reads
  (`Nat → UInt8`), byte by byte as the loops do. `strlen` is `CString.length`.
* The screen is the 4000 bytes at `VIDEO`, the two statics `screen_x` and `screen_y`, and the two
  bytes `update_terminal_cursor` last sent to the CRT controller. `videoMem` is indexed by the
  offset from `VIDEO` that the C computes, as an `int`.
* `terminal_scroll_down` (`lib.c:26-44`) and `clear` (`lib.c:114-125`) write each byte once, and
  a row is read before it is overwritten, so their loops are written as the map they compute.

Results: `strncmp_eq_zero_iff` (on C strings the comparison finds the first difference, whichever
string ends first) and `strncmp_max_eq_zero_iff`: compared up to the longer length, only equal
strings match.
-/

namespace MyOS.Kernel

open MyOS.Machine

/-! ## Strings -/

/-- A `char` in an arithmetic expression: signed on this target. -/
def charVal (b : UInt8) : Int := b.toBitVec.toInt

/-- The loop of `strncmp` from index `i`, with `n` bytes left to compare. -/
def strncmpFrom (s1 s2 : Nat → UInt8) : Nat → Nat → Int
  | 0, _ => 0
  | n + 1, i =>
    if s1 i ≠ s2 i ∨ s1 i = 0 then charVal (s1 i) - charVal (s2 i) else strncmpFrom s1 s2 n (i + 1)

/-- `strncmp(s1, s2, n)`. -/
def strncmp (s1 s2 : Nat → UInt8) (n : Nat) : Int := strncmpFrom s1 s2 n 0

/-- The `n` bytes `strncpy` stores from index `i` on: the source up to its NUL, then zeros. -/
def strncpyFrom (src : Nat → UInt8) : Nat → Nat → List UInt8
  | 0, _ => []
  | n + 1, i => if src i = 0 then List.replicate (n + 1) 0 else src i :: strncpyFrom src n (i + 1)

/-- `strncpy(dest, src, n)`, as the bytes it leaves in `dest[0..n)`. -/
def strncpy (src : Nat → UInt8) (n : Nat) : List UInt8 := strncpyFrom src n 0

theorem charVal_sub_eq_zero_iff (a b : UInt8) : charVal a - charVal b = 0 ↔ a = b := by
  unfold charVal
  rw [Int.sub_eq_zero, BitVec.toInt_inj, UInt8.toBitVec_inj]

theorem strncmpFrom_eq_zero_iff (s t : CString) : ∀ n i,
    strncmpFrom s.get t.get n i = 0 ↔ ∀ j, i ≤ j → j < i + n → s.get j = t.get j
  | 0, i => by
    simp only [strncmpFrom, true_iff]
    intro j h1 h2
    omega
  | n + 1, i => by
    unfold strncmpFrom
    split
    · rename_i h
      rw [charVal_sub_eq_zero_iff]
      constructor
      · intro he j hij _
        -- the loop stopped at a common terminator, and both strings read 0 from there on
        have h0 : s.get i = 0 := h.resolve_left (not_not_intro he)
        have hs : s.length ≤ i := (s.get_eq_zero_iff i).mp h0
        have ht : t.length ≤ i := (t.get_eq_zero_iff i).mp (he ▸ h0)
        rw [(s.get_eq_zero_iff j).mpr (by omega), (t.get_eq_zero_iff j).mpr (by omega)]
      · intro hall
        exact hall i (le_refl i) (by omega)
    · rename_i h
      have heq : s.get i = t.get i := by
        by_contra hne
        exact h (Or.inl hne)
      rw [strncmpFrom_eq_zero_iff s t n (i + 1)]
      constructor
      · intro hall j hij hj
        rcases Nat.eq_or_lt_of_le hij with rfl | hlt
        · exact heq
        · exact hall j hlt (by omega)
      · intro hall j hij hj
        exact hall j (by omega) (by omega)

/-- **`strncmp` on C strings** is zero iff the first `n` bytes read agree. -/
theorem strncmp_eq_zero_iff (s t : CString) (n : Nat) :
    strncmp s.get t.get n = 0 ↔ ∀ j, j < n → s.get j = t.get j := by
  unfold strncmp
  rw [strncmpFrom_eq_zero_iff]
  simp

/-- **Compared up to the longer length, only equal strings match.** -/
theorem strncmp_max_eq_zero_iff (s t : CString) {n : Nat} (hs : s.length ≤ n)
    (ht : t.length ≤ n) : strncmp s.get t.get n = 0 ↔ s = t := by
  rw [strncmp_eq_zero_iff]
  constructor
  · intro h
    apply CString.eq_of_get
    intro i
    by_cases hi : i < n
    · exact h i hi
    · rw [(s.get_eq_zero_iff i).mpr (by omega), (t.get_eq_zero_iff i).mpr (by omega)]
  · rintro rfl j _
    rfl

/-- **Compared up to less than the first string, beginnings match.** -/
theorem strncmp_eq_zero_iff_begins (s t : CString) {n : Nat} (hn : n ≤ s.length) :
    strncmp s.get t.get n = 0 ↔ s.bytes.take n <+: t.bytes := by
  have hlen : n ≤ s.bytes.length := hn
  rw [strncmp_eq_zero_iff, List.prefix_iff_getElem?]
  constructor
  · intro h i hi
    rw [List.length_take, Nat.min_eq_left hlen] at hi
    have hs : i < s.bytes.length := by omega
    have ht : i < t.bytes.length := by
      by_contra hge
      have := h i hi
      rw [(t.get_eq_zero_iff i).mpr (Nat.le_of_not_lt hge), s.get_eq_zero_iff] at this
      omega
    have := h i hi
    unfold CString.get at this
    rw [List.getD_eq_getElem _ _ hs, List.getD_eq_getElem _ _ ht] at this
    rw [List.getElem_take, List.getElem?_eq_getElem ht, this]
  · intro h i hi
    have hs : i < s.bytes.length := by omega
    have hget := h i (by rw [List.length_take, Nat.min_eq_left hlen]; exact hi)
    rw [List.getElem_take] at hget
    unfold CString.get
    rw [List.getD_eq_getElem _ _ hs, List.getD_eq_getElem?_getD, hget]
    rfl

theorem length_strncpyFrom (src : Nat → UInt8) : ∀ n i, (strncpyFrom src n i).length = n
  | 0, _ => rfl
  | n + 1, i => by
    unfold strncpyFrom
    split
    · exact List.length_replicate
    · rw [List.length_cons, length_strncpyFrom src n (i + 1)]

theorem strncpyFrom_eq (s : CString) : ∀ n i, i + n ≤ s.length →
    strncpyFrom s.get n i = (s.bytes.drop i).take n
  | 0, i, _ => by simp [strncpyFrom]
  | n + 1, i, h => by
    have hlt : i < s.bytes.length := by
      unfold CString.length at h
      omega
    have hne : s.get i ≠ 0 := by
      rw [Ne, CString.get_eq_zero_iff]
      omega
    unfold strncpyFrom
    rw [if_neg hne, strncpyFrom_eq s n (i + 1) (by omega), List.drop_eq_getElem_cons hlt,
      List.take_succ_cons, CString.get, List.getD_eq_getElem _ _ hlt]

/-- A copy of no more than the string is its first bytes. -/
theorem strncpy_eq_take (s : CString) {n : Nat} (h : n ≤ s.length) :
    strncpy s.get n = s.bytes.take n := by
  unfold strncpy
  rw [strncpyFrom_eq s n 0 (by omega), List.drop_zero]

theorem strncpyFrom_past (s : CString) : ∀ n i, s.length ≤ i →
    strncpyFrom s.get n i = List.replicate n 0
  | 0, _, _ => rfl
  | n + 1, i, h => by
    unfold strncpyFrom
    rw [if_pos ((s.get_eq_zero_iff i).mpr h)]

theorem strncpyFrom_add (src : Nat → UInt8) : ∀ n m i, (∀ j < n, src (i + j) ≠ 0) →
    strncpyFrom src (n + m) i = strncpyFrom src n i ++ strncpyFrom src m (i + n)
  | 0, m, i, _ => by simp [strncpyFrom]
  | n + 1, m, i, h => by
    have hi : src i ≠ 0 := h 0 (Nat.succ_pos n)
    rw [Nat.add_right_comm, strncpyFrom, strncpyFrom, if_neg hi, if_neg hi, List.cons_append,
      strncpyFrom_add src n m (i + 1) (fun j hj => ?_), Nat.add_assoc i, Nat.add_comm 1 n]
    have := h (j + 1) (by omega)
    rwa [show i + (j + 1) = i + 1 + j by omega] at this

/-- A longer copy is the string and zeros behind it. -/
theorem strncpy_eq_pad (s : CString) (m : Nat) :
    strncpy s.get (s.length + m) = s.bytes ++ List.replicate m 0 := by
  have hne : ∀ j < s.length, s.get (0 + j) ≠ 0 := by
    intro j hj
    rw [Ne, CString.get_eq_zero_iff]
    omega
  have hcopy := strncpy_eq_take s (Nat.le_refl _)
  unfold strncpy at hcopy ⊢
  rw [strncpyFrom_add _ _ _ _ hne, hcopy, strncpyFrom_past s _ _ (by omega)]
  exact congrArg (· ++ _) (List.take_length)

/-! ## The screen -/

/-- The statics of `lib.c` and the video memory they index. -/
structure Screen where
  videoMem : Int → UInt8
  screenX : Int
  screenY : Int
  cursorLow : UInt8
  cursorHigh : UInt8

/-- `NUM_COLS`. -/
def numCols : Int := 80

/-- `NUM_ROWS`. -/
def numRows : Int := 25

/-- A blank cell, byte by byte: a space, then `ATTRIB`. -/
def blankByte (o : Int) : UInt8 := if o % 2 = 0 then 32 else 7

/-- `terminal_scroll_down()`. -/
def terminalScrollDown (s : Screen) : Screen :=
  { s with
    videoMem := fun o =>
      if 0 ≤ o ∧ o < 2 * ((numRows - 1) * numCols) then s.videoMem (o + 2 * numCols)
      else if 0 ≤ o ∧ o < 2 * (numRows * numCols) then blankByte o
      else s.videoMem o
    screenY := if 0 < s.screenY then s.screenY - 1 else s.screenY }

/-- `update_terminal_cursor()`: the low and the high byte of the position, as sent. -/
def updateTerminalCursor (s : Screen) : Screen :=
  let pos := ((s.screenY * numCols + s.screenX) % 2 ^ 16).toNat
  { s with
    cursorLow := UInt8.ofNat (pos % 256)
    cursorHigh := UInt8.ofNat (pos / 256 % 256) }

/-- Store a character and its attribute at the cursor. -/
def storeCell (s : Screen) (c : UInt8) : Screen :=
  let o := 2 * (numCols * s.screenY + s.screenX)
  { s with videoMem := Function.update (Function.update s.videoMem o c) (o + 1) 7 }

/-- `back_space()`. -/
def backSpace (s : Screen) : Screen :=
  if s.screenX = 0 then
    if s.screenY = 0 then s
    else storeCell { s with screenY := s.screenY - 1, screenX := numCols - 1 } 32
  else storeCell { s with screenX := s.screenX - 1 } 32

/-- `init_screen_x_and_y()`. -/
def initScreenXAndY (s : Screen) : Screen := { s with screenX := 0, screenY := 0 }

/-- `clear()`. -/
def clear (s : Screen) : Screen :=
  { s with
    videoMem := fun o => if 0 ≤ o ∧ o < 2 * (numRows * numCols) then blankByte o else s.videoMem o
    screenX := 0
    screenY := 0 }

/-- `clear_screen()`. -/
def clearScreen (s : Screen) : Screen := clear { s with screenX := 0, screenY := 0 }

/-- `putc(c)`. Division and remainder are C's, which truncate. -/
def putc (s : Screen) (c : UInt8) : Screen :=
  let s' :=
    if c = 10 ∨ c = 13 then { s with screenY := s.screenY + 1, screenX := 0 }
    else
      let t := storeCell s c
      { t with
        screenY := t.screenY + Int.tdiv (t.screenX + 1) numCols
        screenX := Int.tmod (t.screenX + 1) numCols }
  if numRows ≤ s'.screenY then terminalScrollDown s' else s'

/-- `puts(s)`: the screen after each byte in order. A `printf` of a text without `%` is the
same. -/
def puts (s : Screen) (text : List UInt8) : Screen := text.foldl putc s

end MyOS.Kernel
