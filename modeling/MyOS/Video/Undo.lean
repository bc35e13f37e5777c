import Mathlib.Algebra.Order.Ring.Int
import Mathlib.Logic.Function.Iterate
import MyOS.Video.Document

/-!
# Deleting what was echoed

`putc` (`lib.c:310-331`) wraps at the end of a row and scrolls below the last one; `back_space`
(`lib.c:73-89`) goes back over the end of a row, but a scroll is not undone, and at the top left
corner it stays where it is.

* `scrollUp`: what a scroll does to the cells. `blanked`: a run of cells blanked.
* `putc_plain`, `backSpace_at`: one character, and one `back_space`, at a linear position
  `80 * y + x`.
* `scrolls`: how often the echo of a text scrolls. After a scroll the cursor is in the last row
  (`last_row_of_scrolls`), so that the start of a text of 128 characters is still on the screen.
* **`backSpace_undoes_echo`**: after the echo of such a text and as many `back_space`s the cursor is
  where the text started, and the cells are those there were, scrolled as often as the echo did,
  with the text's own blanked.
-/

namespace MyOS.Video

open MyOS.Machine MyOS.Kernel

variable {s : Screen} {c : UInt8} {m m' : Int → UInt8}

/-- The cells moved up by a row, with a blank row entering. -/
def scrollUp (m : Int → UInt8) (o : Int) : UInt8 :=
  if 0 ≤ o ∧ o < 3840 then m (o + 160) else if 0 ≤ o ∧ o < 4000 then blankByte o else m o

/-- `n` cells blanked from linear position `p` on. -/
def blanked (m : Int → UInt8) (p : Int) (n : Nat) (o : Int) : UInt8 :=
  if 2 * p ≤ o ∧ o < 2 * (p + n) then blankByte o else m o

/-- The character `c` in the cell at position `p`. -/
def withCell (m : Int → UInt8) (p : Int) (c : UInt8) : Int → UInt8 :=
  Function.update (Function.update m (2 * p) c) (2 * p + 1) 7

theorem withCell_outside (p : Int) (c : UInt8) {o : Int} (h : ¬ (2 * p ≤ o ∧ o < 2 * p + 2)) :
    withCell m p c o = m o := by
  unfold withCell
  rw [Function.update_of_ne (by omega), Function.update_of_ne (by omega)]

theorem withCell_blank (p : Int) {o : Int} (h : 2 * p ≤ o ∧ o < 2 * p + 2) :
    withCell m p 32 o = blankByte o := by
  unfold withCell blankByte
  obtain rfl | rfl : o = 2 * p ∨ o = 2 * p + 1 := by omega
  · rw [Function.update_of_ne (by omega), Function.update_self, if_pos (by omega)]
  · rw [Function.update_self, if_neg (by omega)]

/-- **Scrolled, a cell is found a row higher each time**: memories that differ in one cell differ
there only. -/
theorem scrollUp_iterate_congr {p : Int} (hp : p < 2000)
    (hm : ∀ o, ¬ (2 * p ≤ o ∧ o < 2 * p + 2) → m o = m' o) (k : Nat) (h0 : 0 ≤ p - 80 * k) {o : Int}
    (ho : ¬ (2 * (p - 80 * k) ≤ o ∧ o < 2 * (p - 80 * k) + 2)) :
    scrollUp^[k] m o = scrollUp^[k] m' o := by
  induction k generalizing o with
  | zero => exact hm o (by simpa using ho)
  | succ k ih =>
    rw [Function.iterate_succ_apply', Function.iterate_succ_apply']
    unfold scrollUp
    rw [Nat.cast_succ] at h0 ho
    split
    · exact ih (by omega) (by omega)
    · split
      · rfl
      · exact ih (by omega) (by omega)

/-! ## One character -/

/-- Whether a character scrolls the screen, as a number. -/
def scrollsAt (s : Screen) (c : UInt8) : Nat := if numRows ≤ (advance s c).screenY then 1 else 0

/-- **One character** goes to the cell at the cursor, and the cursor to the next one. -/
theorem putc_plain (h : InBounds s) (hc : isBreak c = false) : ∃ x y,
    putc s c = { s with
      videoMem := scrollUp^[scrollsAt s c] (withCell s.videoMem (80 * s.screenY + s.screenX) c)
      screenX := x
      screenY := y } ∧
    (0 ≤ x ∧ x < 80) ∧ (0 ≤ y ∧ y < 25) ∧
    80 * y + x = 80 * s.screenY + s.screenX + 1 - 80 * scrollsAt s c ∧
    (scrollsAt s c = 1 → y = 24) := by
  have hx := advance_screenX c h
  have hy := advance_screenY c h
  have hadv : advance s c = { s with
      videoMem := withCell s.videoMem (80 * s.screenY + s.screenX) c
      screenX := (advance s c).screenX
      screenY := (advance s c).screenY } := by
    unfold advance
    rw [if_neg (of_decide_eq_false hc)]
    rfl
  rw [inBounds_iff] at h
  obtain ⟨⟨h1, h2⟩, h3, h4⟩ := h
  unfold scrollsAt
  rw [putc_eq]
  generalize advance s c = t at *
  simp only [hc, Bool.false_eq_true, false_or, numCols] at hx hy
  unfold numRows
  by_cases hfull : 25 ≤ t.screenY
  · -- the row below the last one was entered by this character
    rw [if_pos hfull, if_pos hfull, hadv]
    refine ⟨t.screenX, t.screenY - 1, ?_, ?_⟩
    · unfold terminalScrollDown
      simp only
      rw [if_pos (by omega)]
      rfl
    · split at hx <;> split at hy <;> omega
  · rw [if_neg hfull, if_neg hfull]
    refine ⟨t.screenX, t.screenY, hadv, ?_⟩
    split at hx <;> split at hy <;> omega

/-- **One `back_space`** blanks the cell before the cursor, unless that is at the top left. -/
theorem backSpace_at {t : Screen} {x y : Int} (ht : 0 ≤ t.screenX ∧ t.screenX < 80)
    (hx : 0 ≤ x ∧ x < 80) (hpos : 80 * t.screenY + t.screenX = 80 * y + x + 1)
    (h0 : 0 ≤ 80 * y + x) :
    backSpace t = { t with
      videoMem := withCell t.videoMem (80 * y + x) 32, screenX := x, screenY := y } := by
  rw [backSpace_eq (by omega)]
  have hretreat : retreat t = { t with screenX := x, screenY := y } := by
    unfold retreat numCols
    split
    · rw [show t.screenY - 1 = y by omega, show (80 : Int) - 1 = x by omega]
    · rw [show t.screenX - 1 = x by omega, show y = t.screenY by omega]
  rw [hretreat]
  rfl

/-- The cell before a blanked run joins it. -/
theorem withCell_blanked (p : Int) (n : Nat)
    (hm : ∀ o, ¬ (2 * p ≤ o ∧ o < 2 * p + 2) → m o = m' o) :
    withCell (blanked m (p + 1) n) p 32 = blanked m' p (n + 1) := by
  funext o
  by_cases hcell : 2 * p ≤ o ∧ o < 2 * p + 2
  · rw [withCell_blank p hcell]
    unfold blanked
    rw [if_pos (by omega)]
  · rw [withCell_outside p 32 hcell]
    unfold blanked
    by_cases hrun : 2 * (p + 1) ≤ o ∧ o < 2 * (p + 1 + n)
    · rw [if_pos hrun, if_pos (by omega)]
    · rw [if_neg hrun, if_neg (by omega), hm o hcell]

/-! ## A text -/

/-- How often the echo of a text scrolls the screen. -/
def scrolls (s : Screen) : List UInt8 → Nat
  | [] => 0
  | c :: text => scrollsAt s c + scrolls (putc s c) text

/-- After a scroll the cursor stays in the last row, so the echo ends there. -/
theorem last_row_of_scrolls {text : List UInt8} (h : InBounds s)
    (htext : ∀ c ∈ text, isBreak c = false) (hk : 0 < scrolls s text) :
    80 * 24 ≤ 80 * (s.screenY - scrolls s text) + s.screenX + text.length := by
  induction text generalizing s with
  | nil => exact absurd hk (Nat.lt_irrefl 0)
  | cons c text ih =>
    rw [List.forall_mem_cons] at htext
    obtain ⟨x, y, hputc, hx, hy, hpos, hlast⟩ := putc_plain h htext.1
    have ih := ih (h.putc c) htext.2
    have hpx : (putc s c).screenX = x := by rw [hputc]
    have hpy : (putc s c).screenY = y := by rw [hputc]
    rw [hpx, hpy] at ih
    rw [scrolls] at hk ⊢
    rw [List.length_cons]
    rcases Nat.eq_zero_or_pos (scrolls (putc s c) text) with hzero | hmore
    · -- the scroll was this character's
      have hone : scrollsAt s c = 1 := by
        unfold scrollsAt at hk ⊢
        split <;> simp_all
      have := hlast hone
      omega
    · have := ih hmore
      omega

/-- **`back_space` undoes the echo, across wraps and scrolls.** For a text of at most 128 characters
that breaks no row, echoed from anywhere on the screen: after as many `back_space`s the cursor is
back where the text started, `scrolls s text` rows higher, and the screen is the one there was,
scrolled up by as many rows, with the cells of the text blanked. -/
theorem backSpace_undoes_echo (s : Screen) (text : List UInt8) (h : InBounds s)
    (hlen : text.length ≤ 128) (htext : ∀ c ∈ text, isBreak c = false) :
    backSpace^[text.length] (puts s text) = { s with
      videoMem := blanked (scrollUp^[scrolls s text] s.videoMem)
        (80 * (s.screenY - scrolls s text) + s.screenX) text.length
      screenY := s.screenY - scrolls s text } := by
  have hlast := last_row_of_scrolls h htext
  induction text generalizing s with
  | nil =>
    have hnone : blanked s.videoMem (80 * s.screenY + s.screenX) 0 = s.videoMem := by
      funext o
      exact if_neg (by omega)
    simp only [List.length_nil, scrolls, Function.iterate_zero, id_eq, puts, List.foldl_nil,
      Nat.cast_zero, Int.sub_zero, hnone]
  | cons c text ih =>
    rw [List.forall_mem_cons] at htext
    rw [List.length_cons] at hlen hlast ⊢
    obtain ⟨x, y, hputc, hx, hy, hpos, -⟩ := putc_plain h htext.1
    have ih := ih (putc s c) (h.putc c) (by omega) htext.2 (last_row_of_scrolls (h.putc c) htext.2)
    rw [Function.iterate_succ_apply', show puts s (c :: text) = puts (putc s c) text from rfl, ih]
    rw [inBounds_iff] at h
    rw [scrolls] at hlast ⊢
    generalize scrolls (putc s c) text = k at *
    rw [hputc]
    have hk : (80 : Int) * (y - k) + x =
        80 * (s.screenY - (scrollsAt s c + k : Nat)) + s.screenX + 1 := by
      push_cast
      omega
    have h0 : 0 ≤ 80 * (s.screenY - (scrollsAt s c + k : Nat)) + s.screenX := by
      rcases Nat.eq_zero_or_pos (scrollsAt s c + k) with hz | hp
      · rw [hz]
        omega
      · have := hlast hp
        omega
    rw [backSpace_at (x := s.screenX) (y := s.screenY - (scrollsAt s c + k : Nat)) hx h.1 hk h0]
    simp only [hk]
    rw [← Function.iterate_add_apply, Nat.add_comm k]
    -- the cells differ in the one that took `c`, scrolled with the rest
    have hcells := withCell_blanked (80 * (s.screenY - (scrollsAt s c + k : Nat)) + s.screenX)
      text.length (fun o ho => scrollUp_iterate_congr (p := 80 * s.screenY + s.screenX) (by omega)
        (fun o ho => withCell_outside (m := s.videoMem) _ c ho) (scrollsAt s c + k) (by omega)
        (o := o) (by omega))
    rw [hcells]

/-- Two characters from the last cell of the screen: the echo scrolls once, and the cursor ends in
the last cell of the row above, which is blank. -/
theorem backSpace_undoes_echo_corner :
    backSpace (backSpace (puts ⟨fun _ => 65, 79, 24, 0, 0⟩ [97, 98])) =
      ⟨blanked (scrollUp fun _ => 65) 1919 2, 79, 23, 0, 0⟩ := by
  have h := backSpace_undoes_echo ⟨fun _ => 65, 79, 24, 0, 0⟩ [97, 98]
    (inBounds_iff.mpr (by decide)) (by decide) (by simp [isBreak])
  have hk : scrolls ⟨fun _ => 65, 79, 24, 0, 0⟩ [97, 98] = 1 := by decide
  rw [hk] at h
  exact h

end MyOS.Video
