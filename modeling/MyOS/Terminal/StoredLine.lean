import MyOS.Terminal.Editor
import MyOS.Terminal.Lines

/-!
# What a stored line looks like

The shell takes what `terminal_read` returns for a line of text: some characters and a newline.
Three operations write the storage and its flag: ENTER (`keyboard.c:380-397`) stores the pending
line and raises the flag, `terminal_read` (`keyboard.c:219-237`) clears both, and Ctrl-L
(`keyboard.c:298-305`) clears the storage but leaves the flag as it is. The pending line comes from
the key tables (`keyboard.c:58-152`), which hold a zero for every key that is not a character;
Shift, Ctrl and CapsLock are taken out before the table is read, Alt is not.

* `LineIntegrity`: a raised flag means a stored line, no newline but the last byte, no NUL; a
  lowered one means an empty storage.
* `NoNewline`: no branch puts a newline in the pending line.
* `lineIntegrity_step_iff`: the operations that keep `LineIntegrity` are the `Clean` ones.
* **`stored_line_integrity_iff`**: the runs that stay in `LineIntegrity` are those of `Clean` steps.
-/

namespace MyOS.Terminal

open MyOS.Machine MyOS.Kernel

variable {k k' : Keyboard}

/-- **The stored line is a line of text.** -/
structure LineIntegrity (k : Keyboard) : Prop where
  full : k.readableFlag = true → 1 ≤ k.storageBufferCounter ∧
    ∃ line, stored k = line ++ [10] ∧ 0 ∉ line ∧ 10 ∉ line
  empty : k.readableFlag = false → k.storageBufferCounter = 0

theorem LineIntegrity.of_sameStore (h : LineIntegrity k) (hs : SameStore k k') :
    LineIntegrity k' := by
  obtain ⟨hfull, hempty⟩ := h
  refine ⟨?_, ?_⟩
  · rw [hs.flag, hs.counter, hs.stored]
    exact hfull
  · rw [hs.flag, hs.counter]
    exact hempty

/-! ## The pending line -/

/-- No newline is pending. -/
def NoNewline (k : Keyboard) : Prop :=
  ∀ j : Nat, (j : Int) < k.bufferContentCounter → k.buffer j ≠ 10

theorem NoNewline.handleKey (h : NoNewline k) (h0 : 0 ≤ k.bufferContentCounter) (sc : UInt8)
    (text : List UInt8) : NoNewline (handleKey k sc text (keyKind k sc)) := by
  cases hkind : keyKind k sc with
  | ctrlL =>
    intro j hj
    exact absurd hj (by change ¬ (j : Int) < 0; omega)
  | printout => exact h
  | enter =>
    intro j hj
    exact absurd hj (by change ¬ (j : Int) < 0; omega)
  | backspace =>
    unfold Terminal.handleKey backspaceKey
    simp only
    split
    · intro j hj
      simp only at hj ⊢
      rw [Function.update_of_ne (by omega)]
      exact h j (by omega)
    · split <;> exact h
  | tab => exact h
  | char =>
    unfold Terminal.handleKey charKey
    simp only
    split
    · intro j hj
      simp only at hj ⊢
      rw [Function.update_apply]
      split
      · exact (char_ne_break hkind).1
      · exact h j (by omega)
    · exact h
  | ignored => exact h

theorem NoNewline.step {op : TermOp} (h : NoNewline k) (h0 : 0 ≤ k.bufferContentCounter)
    (hr : TermRuns k op k') : NoNewline k' := by
  cases op with
  | key sc text =>
    obtain rfl := Option.some.inj hr
    rw [processKeyboardInput_eq]
    exact NoNewline.handleKey (k := setModifiers k sc) h h0 sc text
  | read nbytes =>
    obtain ⟨-, rfl⟩ := read_runs hr
    exact h
  | write buf past nbytes =>
    obtain ⟨-, hk⟩ := write_runs hr
    rw [hk]
    intro j hj
    exact absurd hj (by change ¬ (j : Int) < 0; omega)

theorem NoNewline.not_mem_pending (h : NoNewline k) : 10 ∉ pending k := by
  unfold pending
  rw [List.mem_map]
  rintro ⟨j, hj, h10⟩
  rw [List.mem_range] at hj
  exact h j (by omega) h10

/-! ## One operation -/

/-- The keys that keep the stored line a line of text: not Ctrl-L while a line waits to be read, and
not ENTER with a NUL pending. -/
def CleanKey (k : Keyboard) : KeyKind → Prop
  | .ctrlL => k.readableFlag = false
  | .enter => 0 ∉ pending k
  | _ => True

/-- The operations that do: those keys, all reads and all writes. -/
def Clean (k : Keyboard) : TermOp → Prop
  | .key sc _ => CleanKey k (keyKind (setModifiers k sc) sc)
  | _ => True

/-- Ctrl-L empties the storage and leaves the flag. -/
theorem lineIntegrity_ctrlL_iff : LineIntegrity (ctrlL k) ↔ k.readableFlag = false := by
  constructor
  · intro h
    by_contra hf
    rw [Bool.not_eq_false] at hf
    have hpos : (1 : Int) ≤ 0 := (h.full hf).1
    omega
  · intro hf
    exact ⟨fun ht => absurd (hf.symm.trans ht) (by decide), fun _ => rfl⟩

/-- ENTER stores the pending line as it is. -/
theorem lineIntegrity_enterKey_iff (hn : NoNewline k) :
    LineIntegrity (enterKey k) ↔ 0 ∉ pending k := by
  obtain ⟨hstored, hflag⟩ := stored_enterKey k
  constructor
  · intro h
    obtain ⟨-, line, hline, hnul, -⟩ := h.full hflag
    rw [hstored] at hline
    rw [List.append_cancel_right hline]
    exact hnul
  · intro hnul
    refine ⟨fun _ => ⟨?_, pending k, hstored, hnul, hn.not_mem_pending⟩, fun hf => ?_⟩
    · change (1 : Int) ≤ 0 + k.bufferContentCounter.toNat + 1
      omega
    · exact absurd (hflag.symm.trans hf) (by decide)

/-- **The operations that keep the stored line a line of text are the clean ones.** -/
theorem lineIntegrity_step_iff {op : TermOp} (hn : NoNewline k) (h : LineIntegrity k)
    (hr : TermRuns k op k') : LineIntegrity k' ↔ Clean k op := by
  cases op with
  | key sc text =>
    obtain rfl := Option.some.inj hr
    have hm : LineIntegrity (setModifiers k sc) := h.of_sameStore ⟨rfl, rfl, rfl⟩
    rw [processKeyboardInput_eq]
    change _ ↔ CleanKey k (keyKind (setModifiers k sc) sc)
    cases keyKind (setModifiers k sc) sc with
    | ctrlL => exact lineIntegrity_ctrlL_iff (k := setModifiers k sc)
    | enter => exact lineIntegrity_enterKey_iff (k := setModifiers k sc) hn
    | _ =>
      refine iff_of_true (hm.of_sameStore ?_) trivial
      exact handleKey_sameStore (by decide) (by decide) sc text
  | read nbytes =>
    obtain ⟨-, rfl⟩ := read_runs hr
    exact iff_of_true ⟨nofun, fun _ => rfl⟩ trivial
  | write buf past nbytes =>
    obtain ⟨-, hk⟩ := write_runs hr
    rw [hk]
    exact iff_of_true (h.of_sameStore ⟨rfl, rfl, rfl⟩) trivial

/-! ## Runs -/

/-- **When a stored line is a line of text.** It is so after `keyboard_init`, and the runs of scan
codes, reads and writes that stay so are exactly those in which Ctrl-L is not pressed while a line
waits to be read and ENTER is not pressed with a NUL pending. -/
theorem stored_line_integrity_iff (s : Screen) (tr : List TermOp) (k : Keyboard) :
    LineIntegrity (bootTerminal s) ∧
    (Trace (fun k op k' => TermRuns k op k' ∧ LineIntegrity k') (bootTerminal s) tr k ↔
      Trace (fun k op k' => TermRuns k op k' ∧ Clean k op) (bootTerminal s) tr k) := by
  have hboot : LineIntegrity (bootTerminal s) := ⟨nofun, fun _ => rfl⟩
  refine ⟨hboot, Trace.stays_iff (J := fun k => Counters k ∧ NoNewline k) ?_ ?_ ?_ hboot⟩
  · exact fun k op k' hJ hr => ⟨hJ.1.step hr, hJ.2.step hJ.1.nonneg hr⟩
  · exact fun k op k' hJ hI hr => lineIntegrity_step_iff hJ.2 hI hr
  · exact ⟨counters_bootTerminal s, fun j hj => absurd hj (by change ¬ (j : Int) < 0; omega)⟩

/-- The keys `a`, ENTER, Ctrl and L: the flag stays raised over an empty storage. The keys Alt and
ENTER: the stored line is a NUL and a newline. -/
theorem stored_line_broken :
    (∃ k, Trace TermRuns (bootTerminal bootKeyboard.screen)
        [.key 0x1E [], .key 0x1C [], .key 0x1D [], .key 0x26 []] k ∧
      k.readableFlag = true ∧ k.storageBufferCounter = 0) ∧
    ∃ k, Trace TermRuns (bootTerminal bootKeyboard.screen) [.key 0x38 [], .key 0x1C []] k ∧
      k.readableFlag = true ∧ stored k = [0, 10] := by
  refine ⟨⟨_, .cons rfl (.cons rfl (.cons rfl (.single rfl))), ?_, ?_⟩,
    ⟨_, .cons rfl (.single rfl), ?_, ?_⟩⟩
  all_goals decide

end MyOS.Terminal
