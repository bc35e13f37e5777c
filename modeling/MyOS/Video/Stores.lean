import MyOS.Kernel.Lib

/-!
# The loops of the screen routines, store by store

`Kernel.Lib` writes the loops of `terminal_scroll_down` (`lib.c:26-44`) and `clear`
(`lib.c:114-125`) as the maps they compute. Here they are the loops of the source, on a screen that
also keeps the offsets from `VIDEO` at which bytes were stored (`Logged`).

* `Stored`: what a stretch of stores does, to the memory and to the log.
* `applyOp_screen`: each routine of the source leaves the screen `Kernel.Lib` says.
* `InBounds`: the cursor is on the screen. Every routine keeps it (`apply_inBounds`), and from there
  stores on the screen only (`applyOp_stores`).
* **`screen_writes_on_screen`**: both over every sequence of calls from boot, with the bytes
  `update_terminal_cursor` (`lib.c:54-61`) sends.
-/

namespace MyOS.Video

open MyOS.Kernel

/-- A screen, with the offsets at which bytes were stored so far. -/
structure Logged where
  screen : Screen
  stores : List Int

namespace Logged

/-- `*(video_mem + o) = b`. -/
def store (t : Logged) (o : Int) (b : UInt8) : Logged :=
  ⟨{ t.screen with videoMem := Function.update t.screen.videoMem o b }, t.stores ++ [o]⟩

/-- `screen_x` and `screen_y` set, nothing stored. -/
def moveTo (t : Logged) (x y : Int) : Logged :=
  ⟨{ t.screen with screenX := x, screenY := y }, t.stores⟩

end Logged

/-! ## The routines, as the source writes them -/

/-- One turn of the loop that moves the rows up. -/
def copyTurn (t : Logged) (i : Int) : Logged :=
  let t := t.store (2 * i) (t.screen.videoMem (2 * (i + numCols)))
  t.store (2 * i + 1) (t.screen.videoMem (2 * (i + numCols) + 1))

/-- A blank in cell `i`. -/
def blankTurn (t : Logged) (i : Int) : Logged := (t.store (2 * i) 32).store (2 * i + 1) 7

/-- `n` turns of a loop whose counter starts at `start`. -/
def turns (turn : Logged → Int → Logged) (start : Int) : Nat → Logged → Logged
  | 0, t => t
  | n + 1, t => turn (turns turn start n t) (start + n)

/-- The two loops of `terminal_scroll_down`: the rows move up, the last one is blanked. -/
def scrollLoops (t : Logged) : Logged :=
  turns blankTurn ((numRows - 1) * numCols) 80 (turns copyTurn 0 ((25 - 1) * 80) t)

/-- `terminal_scroll_down()`. -/
def scrollDownLoops (t : Logged) : Logged :=
  let t := scrollLoops t
  if 0 < t.screen.screenY then t.moveTo t.screen.screenX (t.screen.screenY - 1) else t

/-- `clear()`. -/
def clearLoop (t : Logged) : Logged := (turns blankTurn 0 (25 * 80) t).moveTo 0 0

/-- A character and its attribute at the cursor. -/
def storeAtCursor (t : Logged) (c : UInt8) : Logged :=
  let o := 2 * (numCols * t.screen.screenY + t.screen.screenX)
  (t.store o c).store (o + 1) 7

/-- `back_space()`. -/
def backSpaceStores (t : Logged) : Logged :=
  if t.screen.screenX = 0 then
    if t.screen.screenY = 0 then t
    else storeAtCursor (t.moveTo (numCols - 1) (t.screen.screenY - 1)) 32
  else storeAtCursor (t.moveTo (t.screen.screenX - 1) t.screen.screenY) 32

/-- `putc(c)`. -/
def putcStores (t : Logged) (c : UInt8) : Logged :=
  let t :=
    if c = 10 ∨ c = 13 then t.moveTo 0 (t.screen.screenY + 1)
    else
      let t := storeAtCursor t c
      let x := t.screen.screenX + 1
      t.moveTo (Int.tmod x numCols) (t.screen.screenY + Int.tdiv x numCols)
  if numRows ≤ t.screen.screenY then scrollDownLoops t else t

/-- The routines of `lib.c` that move the cursor or store in video memory. -/
inductive ScreenOp where
  | putc (c : UInt8)
  | backSpace
  | clear
  | clearScreen
  | initScreenXAndY
  | terminalScrollDown
  | updateTerminalCursor

/-- A routine, store by store. -/
def applyOp (t : Logged) : ScreenOp → Logged
  | .putc c => putcStores t c
  | .backSpace => backSpaceStores t
  | .clear => clearLoop t
  | .clearScreen => clearLoop (t.moveTo 0 0)
  | .initScreenXAndY => t.moveTo 0 0
  | .terminalScrollDown => scrollDownLoops t
  | .updateTerminalCursor => ⟨Kernel.updateTerminalCursor t.screen, t.stores⟩

/-- A routine, as the kernel's model has it. -/
def ScreenOp.apply (s : Screen) : ScreenOp → Screen
  | .putc c => Kernel.putc s c
  | .backSpace => Kernel.backSpace s
  | .clear => Kernel.clear s
  | .clearScreen => Kernel.clearScreen s
  | .initScreenXAndY => Kernel.initScreenXAndY s
  | .terminalScrollDown => Kernel.terminalScrollDown s
  | .updateTerminalCursor => Kernel.updateTerminalCursor s

/-! ## What the loops do -/

/-- From `t` to `t'` exactly the bytes from `lo` to `hi` were stored, each with its value in `f`. -/
structure Stored (lo hi : Int) (f : Int → UInt8) (t t' : Logged) : Prop where
  screen_eq : t'.screen = { t.screen with
    videoMem := fun o => if lo ≤ o ∧ o < hi then f o else t.screen.videoMem o }
  mem_stores : ∀ o, o ∈ t'.stores ↔ o ∈ t.stores ∨ lo ≤ o ∧ o < hi

variable {t t' u : Logged} {lo mid hi : Int} {f : Int → UInt8}

theorem Stored.refl (f : Int → UInt8) (lo : Int) (t : Logged) : Stored lo lo f t t := by
  have hnone : ∀ o : Int, ¬ (lo ≤ o ∧ o < lo) := fun o h => by omega
  refine ⟨?_, fun o => by simp [hnone o]⟩
  simp only [hnone, if_false]

/-- Two stores in a row after a stretch make it two bytes longer. -/
theorem Stored.two (h : Stored lo hi f t t') (hle : lo ≤ hi) {b b' : UInt8} (hb : f hi = b)
    (hb' : f (hi + 1) = b') : Stored lo (hi + 2) f t ((t'.store hi b).store (hi + 1) b') := by
  obtain ⟨hs, hm⟩ := h
  refine ⟨?_, ?_⟩
  · unfold Logged.store
    rw [hs]
    simp only [Screen.mk.injEq, and_true]
    funext o
    by_cases h1 : o = hi + 1
    · rw [h1, Function.update_self, if_pos (by omega), hb']
    · rw [Function.update_of_ne h1]
      by_cases h0 : o = hi
      · rw [h0, Function.update_self, if_pos (by omega), hb]
      · rw [Function.update_of_ne h0]
        by_cases hin : lo ≤ o ∧ o < hi
        · rw [if_pos hin, if_pos (by omega)]
        · rw [if_neg hin, if_neg (by omega)]
  · intro o
    unfold Logged.store
    simp only [List.mem_append, List.mem_singleton, hm]
    by_cases ho : o ∈ t.stores
    · simp only [ho, true_or]
    · simp only [ho, false_or]
      omega

/-- The second load of a turn comes after its first store, which is 161 bytes below. -/
theorem copyTurn_eq (t : Logged) (i : Int) : copyTurn t i =
    (t.store (2 * i) (t.screen.videoMem (2 * i + 2 * numCols))).store (2 * i + 1)
      (t.screen.videoMem (2 * i + 1 + 2 * numCols)) := by
  have hne : 2 * (i + numCols) + 1 ≠ 2 * i := by
    unfold numCols
    omega
  have hload : ∀ b, (t.store (2 * i) b).screen.videoMem (2 * (i + numCols) + 1) =
      t.screen.videoMem (2 * (i + numCols) + 1) := fun b => Function.update_of_ne hne _ _
  unfold copyTurn
  simp only
  rw [hload, show 2 * (i + numCols) = 2 * i + 2 * numCols by omega,
    show 2 * i + 2 * numCols + 1 = 2 * i + 1 + 2 * numCols by omega]

/-- The copy goes upwards: a row is read before it is overwritten. -/
theorem copyTurns (t : Logged) (n : Nat) :
    Stored 0 (2 * n) (fun o => t.screen.videoMem (o + 2 * numCols)) t (turns copyTurn 0 n t) := by
  induction n with
  | zero => exact Stored.refl _ _ t
  | succ n ih =>
    have hread : ∀ o : Int, 2 * n ≤ o → (turns copyTurn 0 n t).screen.videoMem o =
        t.screen.videoMem o := by
      intro o ho
      rw [ih.screen_eq]
      exact if_neg (by omega)
    have h := ih.two (by omega) (hread (2 * n + 2 * numCols) (by unfold numCols; omega)).symm
      (hread (2 * n + 1 + 2 * numCols) (by unfold numCols; omega)).symm
    unfold turns
    rw [copyTurn_eq, Int.zero_add, show 2 * ((n + 1 : Nat) : Int) = 2 * n + 2 by omega]
    exact h

theorem blankTurns (t : Logged) (start : Int) (n : Nat) :
    Stored (2 * start) (2 * (start + n)) blankByte t (turns blankTurn start n t) := by
  induction n with
  | zero =>
    rw [show start + ((0 : Nat) : Int) = start by omega]
    exact Stored.refl _ _ t
  | succ n ih =>
    have heven : blankByte (2 * (start + n)) = 32 := if_pos (by omega)
    have hodd : blankByte (2 * (start + n) + 1) = 7 := if_neg (by omega)
    have h := ih.two (by omega) heven hodd
    rw [show 2 * (start + ((n + 1 : Nat) : Int)) = 2 * (start + n) + 2 by omega]
    exact h

/-- A stretch of stores, and one that goes on where it ended. -/
theorem Stored.trans {g : Int → UInt8} (h : Stored lo mid f t t') (h' : Stored mid hi g t' u)
    (hlm : lo ≤ mid) (hmh : mid ≤ hi) :
    Stored lo hi (fun o => if o < mid then f o else g o) t u := by
  obtain ⟨hs, hm⟩ := h
  obtain ⟨hs', hm'⟩ := h'
  refine ⟨?_, ?_⟩
  · rw [hs', hs]
    simp only [Screen.mk.injEq, and_true]
    funext o
    by_cases h1 : mid ≤ o ∧ o < hi
    · rw [if_pos h1, if_pos (by omega), if_neg (by omega)]
    · rw [if_neg h1]
      by_cases h2 : lo ≤ o ∧ o < mid
      · rw [if_pos h2, if_pos (by omega), if_pos h2.2]
      · rw [if_neg h2, if_neg (by omega)]
  · intro o
    rw [hm', hm]
    by_cases ho : o ∈ t.stores
    · simp only [ho, true_or]
    · simp only [ho, false_or]
      omega

/-- The two loops of `terminal_scroll_down` store every byte of the screen. -/
theorem scrollLoops_stored (t : Logged) :
    Stored 0 4000 (fun o => if o < 3840 then t.screen.videoMem (o + 2 * numCols) else blankByte o) t
      (scrollLoops t) := by
  have hcopy := copyTurns t ((25 - 1) * 80)
  have hblank := blankTurns (turns copyTurn 0 ((25 - 1) * 80) t) ((numRows - 1) * numCols) 80
  have hmid : 2 * ((numRows - 1) * numCols) = 3840 := by decide
  have hend : 2 * ((numRows - 1) * numCols + ((80 : Nat) : Int)) = 4000 := by decide
  rw [show 2 * (((25 - 1) * 80 : Nat) : Int) = 3840 by decide] at hcopy
  rw [hmid, hend] at hblank
  exact hcopy.trans hblank (by decide) (by decide)

theorem clearLoop_stored (t : Logged) :
    Stored 0 4000 blankByte t (turns blankTurn 0 (25 * 80) t) := by
  have h := blankTurns t 0 (25 * 80)
  rw [show 2 * (0 + ((25 * 80 : Nat) : Int)) = 4000 by decide] at h
  exact h

/-! ## The routines and the kernel's model of them -/

theorem scrollDownLoops_screen (t : Logged) :
    (scrollDownLoops t).screen = Kernel.terminalScrollDown t.screen := by
  have h := (scrollLoops_stored t).screen_eq
  unfold scrollDownLoops Kernel.terminalScrollDown
  simp only
  generalize scrollLoops t = t₂ at *
  obtain ⟨scr, stores⟩ := t₂
  simp only at h
  have hmem : scr.videoMem = fun o =>
      if 0 ≤ o ∧ o < 2 * ((numRows - 1) * numCols) then t.screen.videoMem (o + 2 * numCols)
      else if 0 ≤ o ∧ o < 2 * (numRows * numCols) then blankByte o
      else t.screen.videoMem o := by
    have hlast : 2 * ((numRows - 1) * numCols) = 3840 := rfl
    have hend : 2 * (numRows * numCols) = 4000 := rfl
    rw [h]
    funext o
    simp only
    rw [hlast, hend]
    by_cases h1 : 0 ≤ o ∧ o < 4000
    · by_cases h2 : o < 3840
      · rw [if_pos h1, if_pos h2, if_pos (by omega)]
      · rw [if_pos h1, if_neg h2, if_neg (by omega), if_pos (by omega)]
    · rw [if_neg h1, if_neg (by omega), if_neg (by omega)]
  rw [← hmem, h]
  unfold Logged.moveTo
  split <;> rfl

theorem clearLoop_screen (t : Logged) : (clearLoop t).screen = Kernel.clear t.screen := by
  unfold clearLoop Logged.moveTo
  rw [(clearLoop_stored t).screen_eq]
  rfl

theorem backSpaceStores_screen (t : Logged) :
    (backSpaceStores t).screen = Kernel.backSpace t.screen := by
  unfold backSpaceStores Kernel.backSpace
  split
  · split <;> rfl
  · rfl

theorem putcStores_screen (t : Logged) (c : UInt8) :
    (putcStores t c).screen = Kernel.putc t.screen c := by
  unfold putcStores Kernel.putc
  simp only
  split
  · rw [apply_ite Logged.screen, scrollDownLoops_screen]
    rfl
  · rw [apply_ite Logged.screen, scrollDownLoops_screen]
    rfl

/-- **The source's stores leave the screen the kernel's model says.** -/
theorem applyOp_screen (t : Logged) (op : ScreenOp) :
    (applyOp t op).screen = op.apply t.screen := by
  cases op with
  | putc c => exact putcStores_screen t c
  | backSpace => exact backSpaceStores_screen t
  | clear => exact clearLoop_screen t
  | clearScreen => exact clearLoop_screen (t.moveTo 0 0)
  | initScreenXAndY => rfl
  | terminalScrollDown => exact scrollDownLoops_screen t
  | updateTerminalCursor => rfl

/-! ## The cursor -/

/-- The cursor is on the screen. -/
structure InBounds (s : Screen) : Prop where
  x_nonneg : 0 ≤ s.screenX
  x_lt : s.screenX < numCols
  y_nonneg : 0 ≤ s.screenY
  y_lt : s.screenY < numRows

/-- The characters that end a row. -/
def isBreak (c : UInt8) : Bool := c = 10 ∨ c = 13

/-- The screen after a character, before it is checked whether the cursor has left it. -/
def advance (s : Screen) (c : UInt8) : Screen :=
  if c = 10 ∨ c = 13 then { s with screenY := s.screenY + 1, screenX := 0 }
  else
    let t := storeCell s c
    { t with
      screenY := t.screenY + Int.tdiv (t.screenX + 1) numCols
      screenX := Int.tmod (t.screenX + 1) numCols }

variable {s : Screen} (c : UInt8)

theorem putc_eq (s : Screen) : Kernel.putc s c =
    if numRows ≤ (advance s c).screenY then Kernel.terminalScrollDown (advance s c)
    else advance s c := rfl

/-- C's division and remainder at the end of a row. -/
theorem wrap_eq {x : Int} (h0 : 0 ≤ x) (h : x < numCols) :
    Int.tdiv (x + 1) numCols = (if x + 1 = numCols then 1 else 0) ∧
      Int.tmod (x + 1) numCols = if x + 1 = numCols then 0 else x + 1 := by
  unfold numCols at *
  rw [Int.tdiv_eq_ediv_of_nonneg (by omega), Int.tmod_eq_emod_of_nonneg (by omega)]
  split <;> constructor <;> omega

theorem advance_screenX (h : InBounds s) : (advance s c).screenX =
    if isBreak c ∨ s.screenX + 1 = numCols then 0 else s.screenX + 1 := by
  unfold advance isBreak
  by_cases hc : c = 10 ∨ c = 13
  · simp [hc]
  · simp only [hc, if_false, decide_false, Bool.false_eq_true, false_or]
    exact (wrap_eq h.x_nonneg h.x_lt).2

theorem advance_screenY (h : InBounds s) : (advance s c).screenY =
    if isBreak c ∨ s.screenX + 1 = numCols then s.screenY + 1 else s.screenY := by
  unfold advance isBreak
  by_cases hc : c = 10 ∨ c = 13
  · simp [hc]
  · simp only [hc, if_false, decide_false, Bool.false_eq_true, false_or]
    have hw := (wrap_eq h.x_nonneg h.x_lt).1
    simp only [storeCell]
    rw [hw]
    split <;> omega

/-! ## The bounds -/

theorem inBounds_iff : InBounds s ↔
    (0 ≤ s.screenX ∧ s.screenX < 80) ∧ 0 ≤ s.screenY ∧ s.screenY < 25 :=
  ⟨fun ⟨h1, h2, h3, h4⟩ => ⟨⟨h1, h2⟩, h3, h4⟩, fun ⟨⟨h1, h2⟩, h3, h4⟩ => ⟨h1, h2, h3, h4⟩⟩

theorem InBounds.putc (h : InBounds s) : InBounds (Kernel.putc s c) := by
  have hx := advance_screenX c h
  have hy := advance_screenY c h
  rw [inBounds_iff] at h
  obtain ⟨⟨h1, h2⟩, h3, h4⟩ := h
  rw [putc_eq, inBounds_iff]
  generalize advance s c = s' at *
  unfold numCols at hx hy
  unfold numRows
  split
  · -- the row below the last one was entered by this character: the scroll brings it back
    unfold Kernel.terminalScrollDown
    simp only
    rw [if_pos (by omega)]
    split at hx <;> split at hy <;> omega
  · split at hx <;> split at hy <;> omega

theorem InBounds.backSpace (h : InBounds s) : InBounds (Kernel.backSpace s) := by
  rw [inBounds_iff] at h ⊢
  unfold Kernel.backSpace
  split
  · split
    · exact h
    · simp only [storeCell, numCols]
      omega
  · simp only [storeCell]
    omega

theorem InBounds.terminalScrollDown (h : InBounds s) :
    InBounds (Kernel.terminalScrollDown s) := by
  rw [inBounds_iff] at h ⊢
  unfold Kernel.terminalScrollDown
  simp only
  split <;> omega

theorem inBounds_origin (h : s.screenX = 0 ∧ s.screenY = 0) : InBounds s := by
  rw [inBounds_iff]
  omega

/-- **Every routine leaves the cursor on the screen.** -/
theorem apply_inBounds (h : InBounds s) (op : ScreenOp) : InBounds (op.apply s) := by
  cases op with
  | putc c => exact h.putc c
  | backSpace => exact h.backSpace
  | clear => exact inBounds_origin ⟨rfl, rfl⟩
  | clearScreen => exact inBounds_origin ⟨rfl, rfl⟩
  | initScreenXAndY => exact inBounds_origin ⟨rfl, rfl⟩
  | terminalScrollDown => exact h.terminalScrollDown
  | updateTerminalCursor => exact ⟨h.x_nonneg, h.x_lt, h.y_nonneg, h.y_lt⟩

/-- The offsets of the 25 rows of 80 cells. -/
def OnScreen (o : Int) : Prop := 0 ≤ o ∧ o < 4000

theorem storeAtCursor_stores (h : InBounds t.screen) :
    ∀ o ∈ (storeAtCursor t c).stores, o ∈ t.stores ∨ OnScreen o := by
  rw [inBounds_iff] at h
  intro o ho
  simp only [storeAtCursor, Logged.store, List.mem_append, List.mem_singleton, numCols] at ho
  rcases ho with (ho | ho) | ho
  · exact Or.inl ho
  · exact Or.inr (by unfold OnScreen; omega)
  · exact Or.inr (by unfold OnScreen; omega)

theorem scrollDownLoops_stores (t : Logged) :
    ∀ o ∈ (scrollDownLoops t).stores, o ∈ t.stores ∨ OnScreen o := by
  intro o ho
  have hmem : o ∈ (scrollLoops t).stores := by
    unfold scrollDownLoops Logged.moveTo at ho
    simp only at ho
    split at ho <;> exact ho
  exact ((scrollLoops_stored t).mem_stores o).mp hmem

theorem clearLoop_stores (t : Logged) :
    ∀ o ∈ (clearLoop t).stores, o ∈ t.stores ∨ OnScreen o := by
  intro o ho
  exact ((clearLoop_stored t).mem_stores o).mp ho

theorem backSpaceStores_stores (h : InBounds t.screen) :
    ∀ o ∈ (backSpaceStores t).stores, o ∈ t.stores ∨ OnScreen o := by
  rw [inBounds_iff] at h
  unfold backSpaceStores
  split
  · split
    · exact fun o ho => Or.inl ho
    · refine storeAtCursor_stores 32 (t := t.moveTo _ _) (inBounds_iff.mpr ?_)
      simp only [Logged.moveTo, numCols]
      omega
  · refine storeAtCursor_stores 32 (t := t.moveTo _ _) (inBounds_iff.mpr ?_)
    simp only [Logged.moveTo]
    omega

theorem putcStores_stores (h : InBounds t.screen) :
    ∀ o ∈ (putcStores t c).stores, o ∈ t.stores ∨ OnScreen o := by
  -- a scroll adds offsets of its own to those of the store at the cursor
  have hscroll : ∀ u : Logged, (∀ o ∈ u.stores, o ∈ t.stores ∨ OnScreen o) →
      ∀ o ∈ (if numRows ≤ u.screen.screenY then scrollDownLoops u else u).stores,
        o ∈ t.stores ∨ OnScreen o := by
    intro u hu o ho
    split at ho
    · rcases scrollDownLoops_stores u o ho with ho | ho
      · exact hu o ho
      · exact Or.inr ho
    · exact hu o ho
  unfold putcStores
  simp only
  apply hscroll
  split
  · exact fun o ho => Or.inl ho
  · exact storeAtCursor_stores c h

/-- **From a cursor on the screen, a routine stores on the screen only.** -/
theorem applyOp_stores (h : InBounds t.screen) (op : ScreenOp) :
    ∀ o ∈ (applyOp t op).stores, o ∈ t.stores ∨ OnScreen o := by
  cases op with
  | putc c => exact putcStores_stores c h
  | backSpace => exact backSpaceStores_stores h
  | clear => exact clearLoop_stores t
  | clearScreen => exact clearLoop_stores (t.moveTo 0 0)
  | initScreenXAndY => exact fun o ho => Or.inl ho
  | terminalScrollDown => exact scrollDownLoops_stores t
  | updateTerminalCursor => exact fun o ho => Or.inl ho

/-! ## Whole runs -/

/-- The screen and the log after a sequence of calls. -/
def runOps (t : Logged) (ops : List ScreenOp) : Logged := ops.foldl applyOp t

/-- The statics are zero at boot; video memory and the CRT controller hold anything. -/
def bootScreen (videoMem : Int → UInt8) (low high : UInt8) : Logged :=
  ⟨⟨videoMem, 0, 0, low, high⟩, []⟩

theorem runOps_bounds (ops : List ScreenOp) (h : InBounds t.screen)
    (hs : ∀ o ∈ t.stores, OnScreen o) :
    InBounds (runOps t ops).screen ∧ ∀ o ∈ (runOps t ops).stores, OnScreen o := by
  induction ops generalizing t with
  | nil => exact ⟨h, hs⟩
  | cons op ops ih =>
    refine ih (t := applyOp t op) ?_ ?_
    · rw [applyOp_screen]
      exact apply_inBounds h op
    · intro o ho
      exact (applyOp_stores h op o ho).elim (hs o) id

theorem runOps_screen (ops : List ScreenOp) (t : Logged) :
    (runOps t ops).screen = ops.foldl ScreenOp.apply t.screen := by
  induction ops generalizing t with
  | nil => rfl
  | cons op ops ih =>
    have h := ih (applyOp t op)
    rw [applyOp_screen] at h
    exact h

/-- The bytes sent to the CRT controller are those of a position on the screen. -/
theorem InBounds.cursor (h : InBounds s) : ∃ pos : Nat, (pos : Int) = s.screenY * 80 + s.screenX ∧
    pos ≤ 1999 ∧ (Kernel.updateTerminalCursor s).cursorLow = UInt8.ofNat (pos % 256) ∧
    (Kernel.updateTerminalCursor s).cursorHigh = UInt8.ofNat (pos / 256) := by
  rw [inBounds_iff] at h
  refine ⟨(s.screenY * 80 + s.screenX).toNat, by omega, by omega, ?_, ?_⟩
  · unfold Kernel.updateTerminalCursor
    simp only [numCols]
    rw [Int.emod_eq_of_lt (by omega) (by omega)]
  · unfold Kernel.updateTerminalCursor
    simp only [numCols]
    rw [Int.emod_eq_of_lt (by omega) (by omega), Nat.mod_eq_of_lt (by omega)]

/-- **Screen writes stay on screen.** After any sequence of calls from boot the cursor is on the
screen, every byte was stored at one of the screen's offsets, the memory is what the kernel's model
says, and `update_terminal_cursor` sends the low and the high byte of a position up to 1999. -/
theorem screen_writes_on_screen (videoMem : Int → UInt8) (low high : UInt8)
    (ops : List ScreenOp) :
    let t := runOps (bootScreen videoMem low high) ops
    t.screen = ops.foldl ScreenOp.apply (bootScreen videoMem low high).screen ∧
    (0 ≤ t.screen.screenX ∧ t.screen.screenX < 80) ∧
    (0 ≤ t.screen.screenY ∧ t.screen.screenY < 25) ∧
    (∀ o ∈ t.stores, 0 ≤ o ∧ o < 4000) ∧
    ∃ pos : Nat, (pos : Int) = t.screen.screenY * 80 + t.screen.screenX ∧ pos ≤ 1999 ∧
      (Kernel.updateTerminalCursor t.screen).cursorLow = UInt8.ofNat (pos % 256) ∧
      (Kernel.updateTerminalCursor t.screen).cursorHigh = UInt8.ofNat (pos / 256) := by
  obtain ⟨hin, hstores⟩ := runOps_bounds (t := bootScreen videoMem low high) ops
    (inBounds_origin ⟨rfl, rfl⟩) (fun o ho => by cases ho)
  obtain ⟨hx, hy⟩ := inBounds_iff.mp hin
  exact ⟨runOps_screen ops _, hx, hy, hstores, hin.cursor⟩

end MyOS.Video
