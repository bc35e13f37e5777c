import MyOS.Machine.Run
import Mathlib.Data.List.Flatten
import Mathlib.Data.List.Forall2

/-!
# A mailbox with one slot

A writer puts words (lists) into a box, a reader takes the first `n` letters of what is there. The
box has one slot: putting into a full box replaces its word, taking empties it, and what was not
taken is gone.

* `contents`: what is in the box after a history. `Fair`: every take got what `contents` says.
* `Fair.sublist`: the words taken from are a subsequence of the words put, each taken from once.
* **`Fair.flatten_eq`**: when no put finds a word in the box and no take asks for less than the word
  (`Lossless`), what was taken and what is left in the box are exactly what was put.
-/

namespace MyOS.Machine

variable {α : Type*}

/-- What happens to the box. -/
inductive BoxEvent (α : Type*)
  | put (x : List α)
  | take (n : Nat) (out : List α)
  deriving DecidableEq

namespace BoxEvent

/-- The box after an event. -/
def after : BoxEvent α → Option (List α)
  | put x => some x
  | take _ _ => none

/-- The box after a history that starts with it empty: the last event decides. -/
def contents (es : List (BoxEvent α)) : Option (List α) := es.getLast?.bind after

@[simp] theorem contents_snoc (es : List (BoxEvent α)) (e : BoxEvent α) :
    contents (es ++ [e]) = after e := by
  unfold contents
  rw [List.getLast?_concat]
  rfl

/-- The words put, oldest first. -/
def puts (es : List (BoxEvent α)) : List (List α) :=
  es.filterMap fun
    | put x => some x
    | take _ _ => none

/-- What each take asked for and got, oldest first. -/
def takes (es : List (BoxEvent α)) : List (Nat × List α) :=
  es.filterMap fun
    | put _ => none
    | take n out => some (n, out)

@[simp] theorem puts_snoc_put (es : List (BoxEvent α)) (x : List α) :
    puts (es ++ [put x]) = puts es ++ [x] := by
  simp [puts]

@[simp] theorem puts_snoc_take (es : List (BoxEvent α)) (n : Nat) (out : List α) :
    puts (es ++ [take n out]) = puts es := by
  simp [puts]

@[simp] theorem takes_snoc_put (es : List (BoxEvent α)) (x : List α) :
    takes (es ++ [put x]) = takes es := by
  simp [takes]

@[simp] theorem takes_snoc_take (es : List (BoxEvent α)) (n : Nat) (out : List α) :
    takes (es ++ [take n out]) = takes es ++ [(n, out)] := by
  simp [takes]

/-- **Every take gets the first letters of the word in the box.** -/
def Fair (es : List (BoxEvent α)) : Prop :=
  Always (fun before e => match e with
    | put _ => True
    | take n out => ∃ x, contents before = some x ∧ out = x.take n) es

/-- No put replaces a word, no take leaves a rest. -/
def Lossless (es : List (BoxEvent α)) : Prop :=
  Always (fun before e => match e with
    | put _ => contents before = none
    | take n _ => ∀ x, contents before = some x → x.length ≤ n) es

/-- The words taken from, followed by the one in the box, are a subsequence of the words put. -/
theorem Fair.sublist {es : List (BoxEvent α)} (h : Fair es) :
    ∃ xs : List (List α), (xs ++ (contents es).toList).Sublist (puts es) ∧
      List.Forall₂ (fun x t => t.2 = x.take t.1) xs (takes es) := by
  induction es using List.reverseRecOn with
  | nil => exact ⟨[], List.Sublist.refl _, List.Forall₂.nil⟩
  | append_singleton es e ih =>
    obtain ⟨hes, he⟩ := always_snoc.mp h
    obtain ⟨xs, hsub, hall⟩ := ih hes
    cases e with
    | put x =>
      refine ⟨xs, ?_, by rw [takes_snoc_put]; exact hall⟩
      rw [contents_snoc, puts_snoc_put]
      exact ((List.sublist_append_left _ _).trans hsub).append (List.Sublist.refl _)
    | take n out =>
      obtain ⟨x, hx, rfl⟩ := he
      rw [hx] at hsub
      refine ⟨xs ++ [x], ?_, ?_⟩
      · rw [contents_snoc, puts_snoc_take]
        simpa [after] using hsub
      · rw [takes_snoc_take]
        exact List.rel_append hall (List.Forall₂.cons rfl List.Forall₂.nil)

/-- **Nothing is lost, cut or duplicated** in a lossless history. -/
theorem Fair.flatten_eq {es : List (BoxEvent α)} (h : Fair es) (hl : Lossless es) :
    ((takes es).map Prod.snd).flatten ++ (contents es).toList.flatten = (puts es).flatten := by
  induction es using List.reverseRecOn with
  | nil => rfl
  | append_singleton es e ih =>
    obtain ⟨hes, he⟩ := always_snoc.mp h
    obtain ⟨hles, hle⟩ := always_snoc.mp hl
    have heq := ih hes hles
    cases e with
    | put x =>
      rw [show contents es = none from hle] at heq
      rw [contents_snoc, puts_snoc_put, takes_snoc_put, List.flatten_append, ← heq]
      simp [after]
    | take n out =>
      obtain ⟨x, hx, rfl⟩ := he
      have hlen := hle x hx
      rw [hx] at heq
      rw [contents_snoc, puts_snoc_take, takes_snoc_take, ← heq, List.take_of_length_le hlen]
      simp [after]

end BoxEvent

end MyOS.Machine
