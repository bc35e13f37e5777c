import Mathlib.Data.List.GetD
import Mathlib.Data.List.Induction
import Mathlib.Tactic.Common

/-!
# Text laid out in rows of a fixed width

A `Page` is a text that has been laid out so far: the rows that are finished and the row that is
being filled. `push` adds one character. A character that breaks the row (`brk`) ends it and takes
no cell; any other character takes the next cell, and the one that fills the row also ends it.

* `Page.write`: a text behind what is there; `layout`: the rows of a text from the start.
* `Page.cell`: the character in a cell, a blank where nothing was written.
* **`Page.cell_push`**: `push` changes one cell, the one at the end of the open row, or none.
  `Page.length_done_push` and `Page.length_last_push` are where the open row ends after it;
  `Page.position_write`: without breaks, a text moves the end on by its length.
-/

namespace MyOS.Machine

variable {α : Type*}

/-- The finished rows, and the one being filled. -/
structure Page (α : Type*) where
  done : List (List α)
  last : List α

namespace Page

/-- Nothing written: one empty row. -/
def empty : Page α := ⟨[], []⟩

/-- The finished rows and the last one. -/
def rows (p : Page α) : List (List α) := p.done ++ [p.last]

/-- One more character, in rows of `w` cells. -/
def push (brk : α → Bool) (w : Nat) (p : Page α) (c : α) : Page α :=
  if brk c then ⟨p.done ++ [p.last], []⟩
  else if p.last.length + 1 = w then ⟨p.done ++ [p.last ++ [c]], []⟩
  else ⟨p.done, p.last ++ [c]⟩

/-- The character in column `j` of row `i`. -/
def cell (blank : α) (p : Page α) (i j : Nat) : α := (p.rows.getD i []).getD j blank

variable (brk : α → Bool) (w : Nat) (blank : α) (p : Page α) (c : α)

theorem length_rows : p.rows.length = p.done.length + 1 := by
  unfold rows
  rw [List.length_append, List.length_singleton]

/-- Below the last row everything is blank. -/
theorem cell_of_length_le {p : Page α} {i : Nat} (h : p.rows.length ≤ i) (j : Nat) :
    p.cell blank i j = blank := by
  unfold cell
  rw [List.getD_eq_default _ _ h]
  rfl

theorem length_done_push : (p.push brk w c).done.length =
    if brk c ∨ p.last.length + 1 = w then p.done.length + 1 else p.done.length := by
  unfold push
  by_cases hb : brk c
  · simp [hb]
  · by_cases hw : p.last.length + 1 = w <;> simp [hb, hw]

theorem length_last_push : (p.push brk w c).last.length =
    if brk c ∨ p.last.length + 1 = w then 0 else p.last.length + 1 := by
  unfold push
  by_cases hb : brk c
  · simp [hb]
  · by_cases hw : p.last.length + 1 = w <;> simp [hb, hw]

/-- The open row stays shorter than a full one. -/
theorem length_last_push_lt {w : Nat} (hw : 0 < w) {p : Page α} (hp : p.last.length < w) :
    (p.push brk w c).last.length < w := by
  rw [length_last_push]
  split
  · exact hw
  · omega

theorem getD_concat {β : Type*} (l : List β) (b d : β) (i : Nat) :
    (l ++ [b]).getD i d = if i = l.length then b else l.getD i d := by
  rcases Nat.lt_trichotomy i l.length with h | h | h
  · rw [List.getD_append _ _ _ _ h, if_neg (by omega)]
  · rw [if_pos h, List.getD_append_right _ _ _ _ (by omega), h, Nat.sub_self]
    rfl
  · rw [if_neg (by omega), List.getD_eq_default l _ (by omega)]
    exact List.getD_eq_default _ _ (by rw [List.length_append, List.length_singleton]; omega)

/-- An empty row at the end holds blanks, as a row that is not there does. -/
theorem getD_append_nil (rows : List (List α)) (i : Nat) :
    (rows ++ [[]]).getD i [] = rows.getD i [] := by
  rw [getD_concat]
  split
  · rw [List.getD_eq_default rows _ (by omega)]
  · rfl

theorem cell_empty (i j : Nat) : (empty : Page α).cell blank i j = blank := by
  unfold cell rows empty
  rw [getD_append_nil]
  rfl

/-- A character at the end of the open row. -/
theorem getD_snoc (done : List (List α)) (last : List α) (i j : Nat) :
    ((done ++ [last ++ [c]]).getD i []).getD j blank =
      if i = done.length ∧ j = last.length then c
      else ((done ++ [last]).getD i []).getD j blank := by
  rw [getD_concat, getD_concat]
  by_cases hi : i = done.length
  · rw [if_pos hi, if_pos hi, getD_concat]
    simp only [hi, true_and]
  · simp only [hi, false_and, if_false]

/-- **`push` writes the cell at the end of the open row, or none.** -/
theorem cell_push (i j : Nat) : (p.push brk w c).cell blank i j =
    if ¬ brk c ∧ i = p.done.length ∧ j = p.last.length then c else p.cell blank i j := by
  unfold push cell rows
  by_cases hb : brk c
  · rw [if_pos hb, if_neg (fun h => h.1 hb), getD_append_nil]
  · rw [if_neg hb]
    simp only [hb, Bool.false_eq_true, not_false_eq_true, true_and]
    rw [← getD_snoc blank c]
    split
    · rw [getD_append_nil]
    · rfl

/-- The next cell to be written is blank. -/
theorem cell_next : p.cell blank p.done.length p.last.length = blank := by
  unfold cell rows
  rw [getD_concat, if_pos rfl]
  exact List.getD_eq_default _ _ (Nat.le_refl _)

/-- Without breaks, the end of the text moves on by one cell. -/
theorem position_push {brk : α → Bool} {c : α} (hb : brk c = false) (w : Nat) (p : Page α) :
    w * (p.push brk w c).done.length + (p.push brk w c).last.length =
      w * p.done.length + p.last.length + 1 := by
  rw [length_done_push, length_last_push]
  by_cases hw : p.last.length + 1 = w
  · rw [if_pos (Or.inr hw), if_pos (Or.inr hw), Nat.mul_add, Nat.mul_one]
    omega
  · rw [if_neg (by simp [hb, hw]), if_neg (by simp [hb, hw])]
    omega

/-- A text behind what is there. -/
def write (brk : α → Bool) (w : Nat) (p : Page α) (text : List α) : Page α :=
  text.foldl (push brk w) p

theorem write_snoc (text : List α) (c : α) :
    p.write brk w (text ++ [c]) = (p.write brk w text).push brk w c := by
  unfold write
  rw [List.foldl_append]
  rfl

theorem length_last_write_lt {w : Nat} (hw : 0 < w) {p : Page α} (hp : p.last.length < w)
    (text : List α) : (p.write brk w text).last.length < w := by
  induction text using List.reverseRecOn with
  | nil => exact hp
  | append_singleton text c ih =>
    rw [write_snoc]
    exact length_last_push_lt brk c hw ih

theorem position_write {brk : α → Bool} {text : List α} (hb : ∀ c ∈ text, brk c = false) (w : Nat)
    (p : Page α) : w * (p.write brk w text).done.length + (p.write brk w text).last.length =
      w * p.done.length + p.last.length + text.length := by
  induction text using List.reverseRecOn with
  | nil => rfl
  | append_singleton text c ih =>
    rw [List.forall_mem_append] at hb
    rw [write_snoc, position_push (hb.2 c (List.mem_singleton_self c)), ih hb.1, List.length_append]
    rfl

end Page

/-- The rows of a text. -/
def layout (brk : α → Bool) (w : Nat) (text : List α) : Page α := Page.empty.write brk w text

theorem layout_snoc (brk : α → Bool) (w : Nat) (text : List α) (c : α) :
    layout brk w (text ++ [c]) = (layout brk w text).push brk w c :=
  Page.write_snoc brk w Page.empty text c

end MyOS.Machine
