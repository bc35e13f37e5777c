import Mathlib.Algebra.Order.BigOperators.Group.List
import Mathlib.Algebra.Order.Group.Nat
import Mathlib.Data.List.GetD
import MyOS.Programs.BlinkSteps

/-!
# `fish.c`: the frames

`add_frames` (`fish.c:79-149`) reads two files side by side, a byte of each at a time, and adds a
blinking element for every position at which one of them has a visible character. A line that ends
first is blank from there on, and so is a file.

* `nextChar`, `rowLoop`, `addFramesLoop`: the reads and the two loops. A file is what is left to be
  read of it; a read at its end gives 0. The loops have fuel.
* `frameAdds`: the elements that are to be added, from the lines of the two files.
* `Delivers`: what a file still has to give in a row. `rowLoop_eq` is one row,
  **`addFrames_eq`** the whole: the loops end, and have added those elements, in order.
* `charAt`: the two files as pictures. `mem_frameAdds`: which elements are added,
  `frameAdds_increasing`: each further on the screen than the one before.
-/

namespace MyOS.Programs

open MyOS.Machine

/-! ## The loops -/

/-- `if (c != '\n')`: the next byte, or a newline at the end of the file. -/
def nextChar (f : List UInt8) (c : UInt8) (eof : Bool) : List UInt8 × UInt8 × Bool :=
  if c = 10 then (f, c, eof)
  else
    match f with
    | [] => ([], 10, true)
    | b :: f => (f, b, eof)

/-- The variables of `add_frames`, what is left of the two files, and the blink list. -/
structure Frames where
  f0 : List UInt8
  f1 : List UInt8
  c0 : UInt8
  c1 : UInt8
  eof0 : Bool
  eof1 : Bool
  row : Nat
  col : Nat
  blink : Blink

/-- `blink_struct`, for two characters. What is not set here is overwritten by `RTC_ADD`. -/
def frameElement (row col : Nat) (onChar offChar : UInt8) : Element :=
  ⟨UInt16.ofNat (row * 80 + col + 40), onChar, offChar, 15, 15, 0, 0, none⟩

/-- A newline is displayed as a blank. -/
def blankNewline (c : UInt8) : UInt8 := if c = 10 then 32 else c

/-- The inner loop. -/
def rowLoop : Nat → Frames → Option Frames
  | 0, _ => none
  | fuel + 1, s =>
    let r0 := nextChar s.f0 s.c0 s.eof0
    let r1 := nextChar s.f1 s.c1 s.eof1
    let s := { s with
      f0 := r0.1
      c0 := r0.2.1
      eof0 := r0.2.2
      f1 := r1.1
      c1 := r1.2.1
      eof1 := r1.2.2 }
    if s.c0 = 10 ∧ s.c1 = 10 then some s
    else
      let e := frameElement s.row s.col (blankNewline s.c0) (blankNewline s.c1)
      let blink :=
        if (s.c0 ≠ 32 ∧ s.c0 ≠ 10) ∨ (s.c1 ≠ 32 ∧ s.c1 ≠ 10) then (mp1IoctlAdd s.blink e).1
        else s.blink
      rowLoop fuel { s with
        blink := blink
        col := s.col + 1 }

/-- The outer loop. -/
def addFramesLoop : Nat → Frames → Option Frames
  | 0, _ => none
  | fuel + 1, s =>
    if s.eof0 ∧ s.eof1 then some s
    else
      match rowLoop fuel { s with col := 0 } with
      | none => none
      | some s =>
        addFramesLoop fuel { s with
          c0 := if s.eof0 then 10 else 48
          c1 := if s.eof1 then 10 else 48
          row := s.row + 1 }

/-- `add_frames(f0, f1, rtc_fd)`, for files that can be opened. -/
def addFrames (fuel : Nat) (blink : Blink) (f0 f1 : List UInt8) : Option Blink :=
  (addFramesLoop fuel ⟨f0, f1, 48, 48, false, false, 0, 0, blink⟩).map Frames.blink

/-! ## What is to be added -/

/-- The element at a position, if there is something to see. -/
def cell (row col : Nat) (a b : UInt8) : Option Element :=
  if a ≠ 32 ∨ b ≠ 32 then some (frameElement row col a b) else none

/-- The elements of a row, from column `col` on, for what is left of its two lines. -/
def rowCells (row col : Nat) (l0 l1 : List UInt8) : List Element :=
  (List.range (max l0.length l1.length)).filterMap fun j =>
    cell row (col + j) (l0.getD j 32) (l1.getD j 32)

/-- The elements of the rows from `row` on. -/
def rowsCells (row : Nat) (rows0 rows1 : List (List UInt8)) : List Element :=
  (List.range (max rows0.length rows1.length)).flatMap fun i =>
    rowCells (row + i) 0 (rows0.getD i []) (rows1.getD i [])

/-- The elements for two files. -/
def frameAdds (f0 f1 : List UInt8) : List Element := rowsCells 0 (f0.splitOn 10) (f1.splitOn 10)

/-- `RTC_ADD` for one element after the other. -/
def addAll (blink : Blink) (es : List Element) : Blink :=
  es.foldl (fun σ e => (mp1IoctlAdd σ e).1) blink

theorem addAll_append (blink : Blink) (es es' : List Element) :
    addAll blink (es ++ es') = addAll (addAll blink es) es' := List.foldl_append

theorem rowCells_nil (row col : Nat) : rowCells row col [] [] = [] := rfl

theorem getD_tail {α : Type} (l : List α) (j : Nat) (d : α) :
    l.tail.getD j d = l.getD (j + 1) d := by
  cases l <;> rfl

/-- The first column of a row, and the others. -/
theorem rowCells_cons (row col : Nat) {l0 l1 : List UInt8} (h : 0 < max l0.length l1.length) :
    rowCells row col l0 l1 =
      (cell row col (l0.getD 0 32) (l1.getD 0 32)).toList ++
        rowCells row (col + 1) l0.tail l1.tail := by
  unfold rowCells
  have hlen : max l0.length l1.length = max l0.tail.length l1.tail.length + 1 := by
    rw [List.length_tail, List.length_tail]
    omega
  rw [hlen, List.range_succ_eq_map, List.filterMap_cons, List.filterMap_map]
  have hrest : (fun j => cell row (col + 1 + j) (l0.tail.getD j 32) (l1.tail.getD j 32)) =
      (fun j => cell row (col + j) (l0.getD j 32) (l1.getD j 32)) ∘ Nat.succ := by
    funext j
    rw [Function.comp_apply, getD_tail, getD_tail, Nat.add_right_comm]
    rfl
  rw [hrest]
  simp only [Nat.add_zero]
  cases cell row col (l0.getD 0 32) (l1.getD 0 32) <;> rfl

/-- The first row, and the others. -/
theorem rowsCells_cons (row : Nat) {rows0 rows1 : List (List UInt8)}
    (h : 0 < max rows0.length rows1.length) :
    rowsCells row rows0 rows1 = rowCells row 0 (rows0.getD 0 []) (rows1.getD 0 []) ++
      rowsCells (row + 1) rows0.tail rows1.tail := by
  unfold rowsCells
  have hlen : max rows0.length rows1.length = max rows0.tail.length rows1.tail.length + 1 := by
    rw [List.length_tail, List.length_tail]
    omega
  rw [hlen, List.range_succ_eq_map, List.flatMap_cons, List.flatMap_map]
  simp only [getD_tail, Nat.add_zero]
  have hrow : ∀ j, row + 1 + j = row + j.succ := by omega
  simp only [hrow]

/-! ## One row -/

/-- In this row a file gives `line` and a newline; `f'` and `eof'` is how it leaves it. Behind its
end a file gives empty lines. -/
inductive Delivers : List UInt8 → UInt8 → Bool → List UInt8 → List UInt8 → Bool → Prop
  | ended {f : List UInt8} {eof : Bool} : Delivers f 10 eof [] f eof
  | line {c : UInt8} {eof : Bool} {line f : List UInt8} (hc : c ≠ 10) (hline : 10 ∉ line) :
      Delivers (line ++ 10 :: f) c eof line f eof
  | last {c : UInt8} {eof : Bool} {line : List UInt8} (hc : c ≠ 10) (hline : 10 ∉ line) :
      Delivers line c eof line [] true

variable {f f' line : List UInt8} {c : UInt8} {eof eof' : Bool}

theorem Delivers.next_nil (h : Delivers f c eof [] f' eof') :
    nextChar f c eof = (f', 10, eof') := by
  generalize hl : ([] : List UInt8) = l at h
  cases h with
  | ended => rfl
  | line hc hline =>
    subst hl
    exact if_neg hc
  | last hc hline =>
    subst hl
    exact if_neg hc

theorem Delivers.next_cons {b : UInt8} (h : Delivers f c eof (b :: line) f' eof') :
    b ≠ 10 ∧ ∃ f₁, nextChar f c eof = (f₁, b, eof) ∧ Delivers f₁ b eof line f' eof' := by
  cases h with
  | line hc hline =>
    rw [List.mem_cons, not_or] at hline
    have hb : b ≠ 10 := fun h => hline.1 h.symm
    exact ⟨hb, _, if_neg hc, .line hb hline.2⟩
  | last hc hline =>
    rw [List.mem_cons, not_or] at hline
    have hb : b ≠ 10 := fun h => hline.1 h.symm
    exact ⟨hb, _, if_neg hc, .last hb hline.2⟩

/-- **One read**: the next character of the line, or a newline. -/
theorem Delivers.next (h : Delivers f c eof line f' eof') : ∃ f₁ c₁ eof₁,
    nextChar f c eof = (f₁, c₁, eof₁) ∧ (c₁ = 10 ↔ line = []) ∧
    blankNewline c₁ = line.getD 0 32 ∧ Delivers f₁ c₁ eof₁ line.tail f' eof' ∧
    (line = [] → f₁ = f' ∧ eof₁ = eof') := by
  cases line with
  | nil => exact ⟨f', 10, eof', h.next_nil, by simp, rfl, .ended, fun _ => ⟨rfl, rfl⟩⟩
  | cons b line =>
    obtain ⟨hb, f₁, hnext, hrest⟩ := h.next_cons
    exact ⟨f₁, b, eof, hnext, by simp [hb], if_neg hb, hrest, nofun⟩

theorem visible_iff (c : UInt8) : (c ≠ 32 ∧ c ≠ 10) ↔ blankNewline c ≠ 32 := by
  unfold blankNewline
  split
  · rename_i hc
    simp [hc]
  · rename_i hc
    simp [hc]

/-- **One row**: its elements are added, and both files stand at their next lines. -/
theorem rowLoop_eq : ∀ (fuel : Nat) (s : Frames) {l0 l1 f0' f1' : List UInt8} {eof0' eof1' : Bool},
    Delivers s.f0 s.c0 s.eof0 l0 f0' eof0' → Delivers s.f1 s.c1 s.eof1 l1 f1' eof1' →
    max l0.length l1.length < fuel →
    ∃ col, rowLoop fuel s =
      some ⟨f0', f1', 10, 10, eof0', eof1', s.row, col, addAll s.blink (rowCells s.row s.col l0 l1)⟩
  | 0, _, _, _, _, _, _, _, _, _, hfuel => absurd hfuel (Nat.not_lt_zero _)
  | fuel + 1, s, l0, l1, f0', f1', eof0', eof1', h0, h1, hfuel => by
    obtain ⟨g0, c0, e0, hn0, hc0, hb0, hd0, hend0⟩ := h0.next
    obtain ⟨g1, c1, e1, hn1, hc1, hb1, hd1, hend1⟩ := h1.next
    unfold rowLoop
    simp only [hn0, hn1]
    by_cases hboth : c0 = 10 ∧ c1 = 10
    · have hl0 := hc0.mp hboth.1
      have hl1 := hc1.mp hboth.2
      obtain ⟨rfl, rfl⟩ := hend0 hl0
      obtain ⟨rfl, rfl⟩ := hend1 hl1
      rw [if_pos hboth, hl0, hl1, rowCells_nil, hboth.1, hboth.2]
      exact ⟨s.col, rfl⟩
    · have hpos : 0 < max l0.length l1.length := by
        rw [hc0, hc1, ← List.length_eq_zero_iff, ← List.length_eq_zero_iff] at hboth
        omega
      rw [if_neg hboth, rowCells_cons s.row s.col hpos, addAll_append]
      have hadd : (if (c0 ≠ 32 ∧ c0 ≠ 10) ∨ (c1 ≠ 32 ∧ c1 ≠ 10)
            then (mp1IoctlAdd s.blink
              (frameElement s.row s.col (blankNewline c0) (blankNewline c1))).1
            else s.blink) =
          addAll s.blink (cell s.row s.col (l0.getD 0 32) (l1.getD 0 32)).toList := by
        simp only [visible_iff, hb0, hb1]
        unfold cell
        split <;> rfl
      rw [hadd]
      refine rowLoop_eq fuel _ hd0 hd1 ?_
      rw [List.length_tail, List.length_tail]
      omega

/-! ## All rows -/

/-- The lines a file still has to give. -/
def rowsLeft (f : List UInt8) (eof : Bool) : List (List UInt8) := if eof then [] else f.splitOn 10

/-- At the start of a row. -/
theorem delivers_row (f : List UInt8) (eof : Bool) : ∃ f' eof',
    Delivers f (if eof then 10 else 48) eof ((rowsLeft f eof).getD 0 []) f' eof' ∧
    rowsLeft f' eof' = (rowsLeft f eof).tail := by
  cases eof with
  | true => exact ⟨f, true, .ended, rfl⟩
  | false =>
    unfold rowsLeft
    by_cases hmem : 10 ∈ f
    · obtain ⟨pre, post, rfl, hpre⟩ := List.eq_append_cons_of_mem hmem
      refine ⟨post, false, ?_, ?_⟩
      · rw [if_neg Bool.false_ne_true, List.splitOn_append_cons_self_of_not_mem hpre]
        exact .line (by decide) hpre
      · rw [if_neg Bool.false_ne_true, List.splitOn_append_cons_self_of_not_mem hpre]
        rfl
    · refine ⟨[], true, ?_, ?_⟩
      · rw [if_neg Bool.false_ne_true, List.splitOn_eq_singleton hmem]
        exact .last (by decide) hmem
      · rw [if_neg Bool.false_ne_true, List.splitOn_eq_singleton hmem]
        rfl

theorem rowsLeft_eq_nil_iff (f : List UInt8) (eof : Bool) : rowsLeft f eof = [] ↔ eof = true := by
  unfold rowsLeft
  cases eof
  · simp [List.splitOn_ne_nil]
  · simp

theorem length_getD_le {rows : List (List UInt8)} {M : Nat} (h : ∀ l ∈ rows, l.length ≤ M) :
    (rows.getD 0 []).length ≤ M := by
  cases rows with
  | nil => exact Nat.zero_le M
  | cons l rows => exact h l List.mem_cons_self

/-- **All rows**, with fuel for the rows and for the longest of their lines. -/
theorem addFramesLoop_eq {M : Nat} : ∀ (fuel : Nat) (s : Frames),
    s.c0 = (if s.eof0 then 10 else 48) → s.c1 = (if s.eof1 then 10 else 48) →
    (∀ l ∈ rowsLeft s.f0 s.eof0, l.length ≤ M) → (∀ l ∈ rowsLeft s.f1 s.eof1, l.length ≤ M) →
    max (rowsLeft s.f0 s.eof0).length (rowsLeft s.f1 s.eof1).length + M < fuel →
    (addFramesLoop fuel s).map Frames.blink = some (addAll s.blink
      (rowsCells s.row (rowsLeft s.f0 s.eof0) (rowsLeft s.f1 s.eof1)))
  | 0, _, _, _, _, _, hfuel => absurd hfuel (Nat.not_lt_zero _)
  | fuel + 1, s, hc0, hc1, hM0, hM1, hfuel => by
    unfold addFramesLoop
    by_cases hend : s.eof0 = true ∧ s.eof1 = true
    · rw [if_pos hend, (rowsLeft_eq_nil_iff s.f0 s.eof0).mpr hend.1,
        (rowsLeft_eq_nil_iff s.f1 s.eof1).mpr hend.2]
      rfl
    · obtain ⟨f0', eof0', hd0, hrest0⟩ := delivers_row s.f0 s.eof0
      obtain ⟨f1', eof1', hd1, hrest1⟩ := delivers_row s.f1 s.eof1
      rw [← hc0] at hd0
      rw [← hc1] at hd1
      have hpos : 0 < max (rowsLeft s.f0 s.eof0).length (rowsLeft s.f1 s.eof1).length := by
        rw [← rowsLeft_eq_nil_iff s.f0, ← rowsLeft_eq_nil_iff s.f1, ← List.length_eq_zero_iff,
          ← List.length_eq_zero_iff] at hend
        omega
      have hlen0 := length_getD_le hM0
      have hlen1 := length_getD_le hM1
      obtain ⟨col, hrow⟩ := rowLoop_eq fuel { s with col := 0 } hd0 hd1 (by omega)
      rw [if_neg hend, hrow]
      simp only
      rw [addFramesLoop_eq fuel _ rfl rfl, rowsCells_cons s.row hpos, addAll_append]
      · simp only [hrest0, hrest1]
      · rw [hrest0]
        exact fun l hl => hM0 l (List.mem_of_mem_tail hl)
      · rw [hrest1]
        exact fun l hl => hM1 l (List.mem_of_mem_tail hl)
      · simp only [hrest0, hrest1, List.length_tail]
        omega

/-- **`add_frames` ends, and adds the elements of the two files in order.** -/
theorem addFrames_eq (f0 f1 : List UInt8) : ∃ N, ∀ fuel, N < fuel → ∀ blink,
    addFrames fuel blink f0 f1 = some (addAll blink (frameAdds f0 f1)) := by
  let M := ((f0.splitOn 10 ++ f1.splitOn 10).map List.length).sum
  have hM : ∀ l ∈ f0.splitOn 10 ++ f1.splitOn 10, l.length ≤ M := fun l hl =>
    List.le_sum_of_mem (List.mem_map_of_mem hl)
  refine ⟨max (f0.splitOn 10).length (f1.splitOn 10).length + M, fun fuel hfuel blink => ?_⟩
  exact addFramesLoop_eq fuel ⟨f0, f1, 48, 48, false, false, 0, 0, blink⟩ rfl rfl
    (fun l hl => hM l (List.mem_append_left _ hl)) (fun l hl => hM l (List.mem_append_right _ hl))
    hfuel

/-! ## Pictures -/

/-- The character of a text at a row and a column, a blank where there is none. -/
def charAt (f : List UInt8) (row col : Nat) : UInt8 := ((f.splitOn 10).getD row []).getD col 32

/-- The lines of a text fit the width of the screen, and there are not so many that the 16 bits of a
location would not tell them apart. -/
structure Fits (f : List UInt8) : Prop where
  width : ∀ l ∈ f.splitOn 10, l.length ≤ 80
  height : (f.splitOn 10).length ≤ 818

theorem charAt_of_width {f : List UInt8} (h : Fits f) {row col : Nat} (hcol : 80 ≤ col) :
    charAt f row col = 32 := by
  unfold charAt
  refine List.getD_eq_default _ _ (Nat.le_trans ?_ hcol)
  by_cases hrow : row < (f.splitOn 10).length
  · rw [List.getD_eq_getElem _ _ hrow]
    exact h.width _ (List.getElem_mem hrow)
  · rw [List.getD_eq_default _ _ (Nat.le_of_not_lt hrow)]
    exact Nat.zero_le 80

theorem charAt_of_height {f : List UInt8} {row : Nat} (hrow : (f.splitOn 10).length ≤ row)
    (col : Nat) : charAt f row col = 32 := by
  unfold charAt
  rw [List.getD_eq_default _ _ hrow]
  rfl

/-- The element at a position of two pictures. -/
def frameCell (f0 f1 : List UInt8) (row col : Nat) : Option Element :=
  cell row col (charAt f0 row col) (charAt f1 row col)

variable {f0 f1 : List UInt8}

/-- Where there is something to see. -/
theorem frameCell_bounds (h0 : Fits f0) (h1 : Fits f1) {row col : Nat} {e : Element}
    (h : frameCell f0 f1 row col = some e) : row < 818 ∧ col < 80 := by
  unfold frameCell cell at h
  split at h
  · rename_i hvisible
    refine ⟨?_, ?_⟩
    · by_contra hrow
      have := h0.height
      have := h1.height
      rw [charAt_of_height (by omega), charAt_of_height (by omega)] at hvisible
      simp at hvisible
    · by_contra hcol
      rw [charAt_of_width h0 (by omega), charAt_of_width h1 (by omega)] at hvisible
      simp at hvisible
  · cases h

theorem frameCell_location (h0 : Fits f0) (h1 : Fits f1) {row col : Nat} {e : Element}
    (h : frameCell f0 f1 row col = some e) : e.location.toNat = row * 80 + col + 40 := by
  obtain ⟨hrow, hcol⟩ := frameCell_bounds h0 h1 h
  unfold frameCell cell at h
  split at h
  · cases h
    change (UInt16.ofNat _).toNat = _
    rw [UInt16.toNat_ofNat_of_lt']
    change _ < 65536
    omega
  · cases h

/-- **The elements that are added** are those of the positions where there is something to see. -/
theorem mem_frameAdds {e : Element} :
    e ∈ frameAdds f0 f1 ↔ ∃ row col, frameCell f0 f1 row col = some e := by
  unfold frameAdds rowsCells rowCells
  simp only [List.mem_flatMap, List.mem_filterMap, List.mem_range, Nat.zero_add]
  constructor
  · rintro ⟨row, -, col, -, h⟩
    exact ⟨row, col, h⟩
  · rintro ⟨row, col, h⟩
    refine ⟨row, ?_, col, ?_, h⟩
    · by_contra hrow
      have hblank : frameCell f0 f1 row col = none := by
        unfold frameCell
        rw [charAt_of_height (by omega), charAt_of_height (by omega)]
        rfl
      rw [hblank] at h
      cases h
    · by_contra hcol
      have hblank : frameCell f0 f1 row col = none := by
        unfold frameCell charAt
        rw [List.getD_eq_default _ _ (by omega), List.getD_eq_default _ _ (by omega)]
        rfl
      rw [hblank] at h
      cases h

/-- Each element is further on the screen than the one before. -/
theorem frameAdds_increasing (h0 : Fits f0) (h1 : Fits f1) :
    (frameAdds f0 f1).Pairwise fun e e' => e.location.toNat < e'.location.toNat := by
  unfold frameAdds rowsCells rowCells
  rw [List.pairwise_flatMap]
  simp only [List.pairwise_filterMap, List.mem_filterMap, Nat.zero_add]
  refine ⟨fun row _ => ?_, ?_⟩
  · refine List.pairwise_lt_range.imp ?_
    intro col col' hlt e he e' he'
    have hloc : frameCell f0 f1 row col = some e := he
    have hloc' : frameCell f0 f1 row col' = some e' := he'
    rw [frameCell_location h0 h1 hloc, frameCell_location h0 h1 hloc']
    omega
  · refine List.pairwise_lt_range.imp ?_
    rintro row row' hlt e ⟨col, -, he⟩ e' ⟨col', -, he'⟩
    have hloc : frameCell f0 f1 row col = some e := he
    have hloc' : frameCell f0 f1 row' col' = some e' := he'
    obtain ⟨-, hcol⟩ := frameCell_bounds h0 h1 hloc
    rw [frameCell_location h0 h1 hloc, frameCell_location h0 h1 hloc']
    omega

end MyOS.Programs
