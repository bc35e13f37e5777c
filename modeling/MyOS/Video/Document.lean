import Mathlib.Data.List.Induction
import MyOS.Machine.Rows
import MyOS.Video.Stores

/-!
# The screen shows the end of the document

What is sent through `putc` (`lib.c:310-331`) is a document: the rows of `Machine.layout`, 80 cells
wide, broken by `'\n'` and `'\r'`. The screen is a window of 25 rows on it.

* `charAt`, `attrAt`: the two bytes of a cell. What the routines do to the screen is said cell by
  cell (`charAt_advance`, `charAt_scroll`, `charAt_clear`).
* `Shows`: the screen is the window whose first row is `top`, with the cursor at the end of the
  document.
* **`Shows.putc`**: `putc` writes the document, and moves the window by a row when its end leaves
  it. **`Shows.backSpace`**: `back_space` takes the last character back.
* **`screen_shows_last_rows`**: after `clear()` and any text, the screen is the last 25 rows.
-/

namespace MyOS.Video

open MyOS.Machine MyOS.Kernel

/-- The character in column `j` of row `i` of the screen. -/
def charAt (s : Screen) (i j : Nat) : UInt8 := s.videoMem (2 * (numCols * i + j))

/-- The attribute of that cell. -/
def attrAt (s : Screen) (i j : Nat) : UInt8 := s.videoMem (2 * (numCols * i + j) + 1)

variable {s : Screen} {i j : Nat} (c : UInt8)

/-! ## Cell by cell -/

theorem charAt_storeCell (h : InBounds s) (hj : j < 80) : charAt (storeCell s c) i j =
    if (i : Int) = s.screenY ∧ (j : Int) = s.screenX then c else charAt s i j := by
  obtain ⟨hx, -⟩ := inBounds_iff.mp h
  unfold charAt storeCell
  simp only
  rw [Function.update_of_ne (by omega), Function.update_apply]
  -- columns are below 80, so a cell's offset tells its row
  refine if_congr ?_ rfl rfl
  unfold numCols
  omega

theorem attrAt_storeCell (h : attrAt s i j = 7) : attrAt (storeCell s c) i j = 7 := by
  unfold attrAt storeCell at *
  simp only
  rw [Function.update_apply]
  split
  · rfl
  · rw [Function.update_of_ne (by omega)]
    exact h

theorem charAt_advance (h : InBounds s) (hj : j < 80) : charAt (advance s c) i j =
    if ¬ isBreak c ∧ (i : Int) = s.screenY ∧ (j : Int) = s.screenX then c else charAt s i j := by
  unfold advance isBreak
  by_cases hc : c = 10 ∨ c = 13
  · simp [hc, charAt]
  · simp only [hc, if_false, decide_false, Bool.false_eq_true, not_false_eq_true, true_and]
    exact charAt_storeCell c h hj

theorem attrAt_advance (h : attrAt s i j = 7) : attrAt (advance s c) i j = 7 := by
  unfold advance
  split
  · exact h
  · exact attrAt_storeCell c h

theorem scroll_videoMem {o : Int} (h0 : 0 ≤ o) (h : o < 4000) :
    (Kernel.terminalScrollDown s).videoMem o =
      if o < 3840 then s.videoMem (o + 160) else blankByte o := by
  have hlast : 2 * ((numRows - 1) * numCols) = 3840 := rfl
  have hend : 2 * (numRows * numCols) = 4000 := rfl
  unfold Kernel.terminalScrollDown
  simp only
  rw [hlast, hend]
  by_cases ho : o < 3840
  · rw [if_pos ⟨h0, ho⟩, if_pos ho]
    rfl
  · rw [if_neg (by omega), if_pos ⟨h0, h⟩, if_neg ho]

theorem charAt_scroll (hi : i < 25) (hj : j < 80) : charAt (Kernel.terminalScrollDown s) i j =
    if i < 24 then charAt s (i + 1) j else 32 := by
  unfold charAt numCols
  rw [scroll_videoMem (by omega) (by omega)]
  by_cases h : i < 24
  · rw [if_pos (by omega), if_pos h]
    congr 1
    omega
  · rw [if_neg (by omega), if_neg h]
    exact if_pos (by omega)

theorem attrAt_scroll (hi : i < 25) (hj : j < 80) : attrAt (Kernel.terminalScrollDown s) i j =
    if i < 24 then attrAt s (i + 1) j else 7 := by
  unfold attrAt numCols
  rw [scroll_videoMem (by omega) (by omega)]
  by_cases h : i < 24
  · rw [if_pos (by omega), if_pos h]
    congr 1
    omega
  · rw [if_neg (by omega), if_neg h]
    exact if_neg (by omega)

theorem charAt_clear (hi : i < 25) (hj : j < 80) : charAt (Kernel.clear s) i j = 32 := by
  unfold charAt Kernel.clear
  simp only
  rw [if_pos (by unfold numRows numCols; omega)]
  exact if_pos (by omega)

theorem attrAt_clear (hi : i < 25) (hj : j < 80) : attrAt (Kernel.clear s) i j = 7 := by
  unfold attrAt Kernel.clear
  simp only
  rw [if_pos (by unfold numRows numCols; omega)]
  exact if_neg (by omega)

/-! ## The window -/

/-- The screen is the window on `p` from row `top`, and the cursor is at the end of `p`. -/
structure Shows (s : Screen) (p : Page UInt8) (top : Nat) : Prop where
  top_le : top ≤ p.done.length
  end_lt : p.done.length < top + 25
  last_lt : p.last.length < 80
  screenX_eq : s.screenX = p.last.length
  screenY_eq : s.screenY = (p.done.length : Int) - top
  charAt_eq : ∀ i j, i < 25 → j < 80 → charAt s i j = p.cell 32 (top + i) j
  attrAt_eq : ∀ i j, i < 25 → j < 80 → attrAt s i j = 7

variable {p : Page UInt8} {top : Nat}

theorem Shows.inBounds (h : Shows s p top) : InBounds s := by
  have h1 := h.top_le
  have h2 := h.end_lt
  have h3 := h.last_lt
  rw [inBounds_iff, h.screenX_eq, h.screenY_eq]
  omega

/-- The screen before the scroll check has the new document in the old window. -/
theorem Shows.charAt_advance_eq (h : Shows s p top) (hi : i < 25) (hj : j < 80) :
    charAt (advance s c) i j = (p.push isBreak 80 c).cell 32 (top + i) j := by
  have htop := h.top_le
  rw [charAt_advance c h.inBounds hj, Page.cell_push, h.charAt_eq i j hi hj, h.screenX_eq,
    h.screenY_eq]
  refine if_congr ?_ rfl rfl
  refine and_congr_right fun _ => ?_
  omega

/-- Where the row below the window comes in, nothing has been written. -/
theorem Shows.cell_below (h : Shows s p top) :
    (p.push isBreak 80 c).cell 32 (top + 25) j = 32 := by
  have hend := h.end_lt
  rw [Page.cell_push, if_neg (by omega)]
  exact Page.cell_of_length_le _ (by rw [Page.length_rows]; omega) j

theorem breaks_iff (n : Nat) :
    (isBreak c ∨ (n : Int) + 1 = numCols) ↔ (isBreak c ∨ n + 1 = 80) := by
  refine or_congr_right ?_
  unfold numCols
  omega

theorem Shows.screenX_advance (h : Shows s p top) :
    (advance s c).screenX = (p.push isBreak 80 c).last.length := by
  rw [advance_screenX c h.inBounds, Page.length_last_push, h.screenX_eq]
  simp only [breaks_iff]
  split <;> rfl

theorem Shows.screenY_advance (h : Shows s p top) :
    (advance s c).screenY = ((p.push isBreak 80 c).done.length : Int) - top := by
  rw [advance_screenY c h.inBounds, Page.length_done_push, h.screenX_eq, h.screenY_eq]
  simp only [breaks_iff]
  split <;> omega

/-- **`putc` writes the document.** The window moves by a row when the end of the document leaves
it. -/
theorem Shows.putc (h : Shows s p top) : Shows (Kernel.putc s c) (p.push isBreak 80 c)
    (if (p.push isBreak 80 c).done.length = top + 25 then top + 1 else top) := by
  have hx := h.screenX_advance c
  have hy := h.screenY_advance c
  have hchar : ∀ i j, i < 25 → j < 80 → charAt (advance s c) i j =
      (p.push isBreak 80 c).cell 32 (top + i) j := fun i j => h.charAt_advance_eq c
  have hattr : ∀ i j, i < 25 → j < 80 → attrAt (advance s c) i j = 7 := fun i j hi hj =>
    attrAt_advance c (h.attrAt_eq i j hi hj)
  have hbelow : ∀ j, (p.push isBreak 80 c).cell 32 (top + 25) j = 32 := fun j => h.cell_below c
  have hlast := Page.length_last_push_lt isBreak c (by decide : 0 < 80) h.last_lt
  have hdone : p.done.length ≤ (p.push isBreak 80 c).done.length ∧
      (p.push isBreak 80 c).done.length ≤ p.done.length + 1 := by
    rw [Page.length_done_push]
    split <;> omega
  have htop := h.top_le
  have hend := h.end_lt
  rw [putc_eq]
  generalize p.push isBreak 80 c = p' at *
  generalize advance s c = s' at *
  have hrows : numRows = 25 := rfl
  by_cases hfull : p'.done.length = top + 25
  · rw [if_pos (by omega), if_pos hfull]
    refine ⟨by omega, by omega, hlast, hx, ?_, ?_, ?_⟩
    · unfold Kernel.terminalScrollDown
      simp only
      rw [if_pos (by omega)]
      omega
    · intro i j hi hj
      rw [charAt_scroll hi hj]
      split
      · rw [hchar (i + 1) j (by omega) hj]
        congr 1
        omega
      · obtain rfl : i = 24 := by omega
        exact (hbelow j).symm
    · intro i j hi hj
      rw [attrAt_scroll hi hj]
      split
      · exact hattr (i + 1) j (by omega) hj
      · rfl
  · rw [if_neg (by omega), if_neg hfull]
    exact ⟨by omega, by omega, hlast, hx, hy, hchar, hattr⟩

/-- The screen with the cursor in the cell before it, as `back_space` moves it. -/
def retreat (s : Screen) : Screen :=
  if s.screenX = 0 then { s with screenY := s.screenY - 1, screenX := numCols - 1 }
  else { s with screenX := s.screenX - 1 }

theorem retreat_videoMem (s : Screen) : (retreat s).videoMem = s.videoMem := by
  unfold retreat
  split <;> rfl

theorem backSpace_eq (h : ¬ (s.screenX = 0 ∧ s.screenY = 0)) :
    Kernel.backSpace s = storeCell (retreat s) 32 := by
  unfold Kernel.backSpace retreat
  split
  · rename_i hx
    rw [if_neg fun hy => h ⟨hx, hy⟩]
  · rfl

/-- The cursor moves back to where the document ended before its last character. -/
theorem Shows.retreat (h : Shows s (p.push isBreak 80 c) top) (hb : isBreak c = false)
    (hlast : p.last.length < 80) :
    (retreat s).screenX = p.last.length ∧ (retreat s).screenY = (p.done.length : Int) - top := by
  have hx := h.screenX_eq
  have hy := h.screenY_eq
  rw [Page.length_last_push] at hx
  rw [Page.length_done_push] at hy
  simp only [hb, Bool.false_eq_true, false_or] at hx hy
  unfold Video.retreat
  by_cases hfull : p.last.length + 1 = 80
  · rw [if_pos hfull] at hx hy
    rw [if_pos (by omega)]
    simp only [numCols]
    omega
  · rw [if_neg hfull] at hx hy
    rw [if_neg (by omega)]
    simp only
    omega

/-- **`back_space` takes the last character back**, unless it has left the window. -/
theorem Shows.backSpace (h : Shows s (p.push isBreak 80 c) top) (hb : isBreak c = false)
    (hlast : p.last.length < 80) (htop : top ≤ p.done.length) :
    Shows (Kernel.backSpace s) p top := by
  obtain ⟨hx, hy⟩ := h.retreat c hb hlast
  have hend := h.end_lt
  have hdone := Page.length_done_push isBreak 80 p c
  have hin : InBounds (Video.retreat s) := by
    rw [inBounds_iff, hx, hy]
    split at hdone <;> omega
  have horigin : ¬ (s.screenX = 0 ∧ s.screenY = 0) := by
    rintro ⟨h1, h2⟩
    have hback : (Video.retreat s).screenY = s.screenY - 1 := by
      unfold Video.retreat
      rw [if_pos h1]
    omega
  rw [backSpace_eq horigin]
  refine ⟨htop, by split at hdone <;> omega, hlast, hx, hy, ?_, ?_⟩
  · intro i j hi hj
    rw [charAt_storeCell 32 hin hj, hx, hy]
    by_cases hcell : top + i = p.done.length ∧ j = p.last.length
    · rw [if_pos (by omega), hcell.1, hcell.2, Page.cell_next]
    · have hchar := h.charAt_eq i j hi hj
      rw [Page.cell_push, if_neg fun hpush => hcell hpush.2] at hchar
      rw [if_neg (by omega), ← hchar]
      unfold charAt
      rw [retreat_videoMem]
  · intro i j hi hj
    refine attrAt_storeCell 32 ?_
    unfold attrAt
    rw [retreat_videoMem]
    exact h.attrAt_eq i j hi hj

theorem shows_clear (s : Screen) : Shows (Kernel.clear s) Page.empty 0 := by
  refine ⟨by decide, by decide, by decide, rfl, rfl, ?_, ?_⟩
  · intro i j hi hj
    rw [charAt_clear hi hj, Page.cell_empty]
  · exact fun i j hi hj => attrAt_clear hi hj

/-! ## Texts of any length -/

/-- The screen after a text: the window ends with the document, or starts with it. -/
theorem shows_puts (s : Screen) (text : List UInt8) :
    Shows (puts (Kernel.clear s) text) (layout isBreak 80 text)
      ((layout isBreak 80 text).done.length - 24) := by
  induction text using List.reverseRecOn with
  | nil => exact shows_clear s
  | append_singleton text c ih =>
    have h := ih.putc c
    have htop := h.top_le
    have hend := h.end_lt
    have hgrow : (layout isBreak 80 text).done.length ≤
        ((layout isBreak 80 text).push isBreak 80 c).done.length := by
      rw [Page.length_done_push]
      split <;> omega
    have hputs : puts (Kernel.clear s) (text ++ [c]) =
        Kernel.putc (puts (Kernel.clear s) text) c := by
      unfold puts
      rw [List.foldl_append]
      rfl
    rw [hputs, layout_snoc]
    generalize (layout isBreak 80 text).push isBreak 80 c = p' at *
    generalize (layout isBreak 80 text).done.length = n at *
    by_cases hfull : p'.done.length = n - 24 + 25
    · rw [if_pos hfull] at h
      rwa [show p'.done.length - 24 = n - 24 + 1 by omega]
    · rw [if_neg hfull] at h hend
      rwa [show p'.done.length - 24 = n - 24 by omega]

/-- **The screen shows the last 25 rows of the output.** After `clear()` and any text, video memory
holds the last rows of its layout from the top, padded with blanks, and blank rows below; every
attribute is `ATTRIB`; the cursor is at the end of the last row. -/
theorem screen_shows_last_rows (s : Screen) (text : List UInt8) :
    let rows := (layout isBreak 80 text).rows
    let shown := rows.drop (rows.length - min 25 rows.length)
    let s' := puts (Kernel.clear s) text
    shown.length = min 25 rows.length ∧
    (∀ i j : Nat, i < 25 → j < 80 →
      s'.videoMem (2 * (80 * i + j)) = (shown.getD i []).getD j 32 ∧
      s'.videoMem (2 * (80 * i + j) + 1) = 7) ∧
    s'.screenY = (min 25 rows.length : Int) - 1 ∧
    s'.screenX = (rows.getLastD []).length := by
  have h := shows_puts s text
  intro rows shown s'
  have hlen : rows.length = (layout isBreak 80 text).done.length + 1 := Page.length_rows _
  have hshown : ∀ i, shown.getD i [] =
      rows.getD ((layout isBreak 80 text).done.length - 24 + i) [] := by
    intro i
    rw [List.getD_eq_getElem?_getD, List.getD_eq_getElem?_getD, List.getElem?_drop]
    congr 2
    omega
  refine ⟨?_, ?_, ?_, ?_⟩
  · rw [List.length_drop]
    omega
  · intro i j hi hj
    refine ⟨?_, h.attrAt_eq i j hi hj⟩
    rw [hshown]
    exact h.charAt_eq i j hi hj
  · rw [h.screenY_eq]
    omega
  · rw [h.screenX_eq]
    unfold rows Page.rows
    rw [List.getLastD_concat]

end MyOS.Video
