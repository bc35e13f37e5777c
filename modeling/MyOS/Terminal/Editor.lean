import MyOS.Descriptor.Calls
import MyOS.Process.Execute

/-!
# The line editor: its counters and its array accesses

The keyboard as a state machine: scan codes, `terminal_read`s and `terminal_write`s, each run to its
end (`TermOp`, `termOp`). `terminal_write` stages its bytes in the array that holds the pending line
(`keyboard.c:245-258`) without a look at what is there, so `print_buf` may read past the array; what
it reads there is an argument of the operation.

* `KeyKind` / `processKeyboardInput_eq`: which branch of `process_keyboard_input` handles a key,
  said once, and `keyFacts`: what the branch says of the key. The rest is by cases on it.
* `Counters`: the counters and what is zero. `Counters.step` is one operation.
* **`counters_consistent`**: they hold after every run, and the branch of BACKSPACE that reports a
  negative counter is never reached.
* `accesses`: the indices at which an operation reads or writes `buffer` and `storage_buffer`;
  `termOp_frame` ties it to what the operation changes.
* **`accesses_in_bounds_iff`**: after every run, which operations stay inside the arrays.
* `step_terminal`: the system calls and interrupts of `Kernel.Syscall` change the keyboard by these
  operations only, so that what they keep holds in every run of the system (`system_counters`).
-/

namespace MyOS.Terminal

open MyOS.Machine MyOS.Kernel MyOS.Descriptor MyOS.Process

/-! ## Which branch handles a key -/

/-- The branches of `process_keyboard_input`. -/
inductive KeyKind where
  | ctrlL
  /-- Ctrl with 1, 2 or 3. -/
  | printout
  | enter
  | backspace
  | tab
  | char
  /-- Nothing is done but the modifier flags. -/
  | ignored
  deriving DecidableEq

/-- The branch a key takes, with the modifier flags set. -/
def keyKind (k : Keyboard) (sc : UInt8) : KeyKind :=
  let ctrl := k.ctrlLeftFlag || k.ctrlRightFlag
  if ctrl ∧ sc = 0x26 then .ctrlL
  else if ctrl ∧ (sc = 2 ∨ sc = 3 ∨ sc = 4) then .printout
  else if 0x3A < sc then .ignored
  else if keyOf norm sc = 10 then .enter
  else if keyOf norm sc = 8 ∧ 0 < k.backspacableCounter then .backspace
  else if keyOf norm sc = 8 then .ignored
  else if keyOf norm sc = 9 then .tab
  else if sc = 0x36 ∨ sc = 0x2A ∨ sc = 0x1D ∨ sc = 0x3A then .ignored
  else .char

/-- What a branch does. -/
def handleKey (k : Keyboard) (sc : UInt8) (text : List UInt8) : KeyKind → Keyboard
  | .ctrlL => ctrlL k
  | .printout => { k with screen := puts (clear k.screen) text }
  | .enter => enterKey k
  | .backspace => backspaceKey k
  | .tab => tabKey k
  | .char => charKey k sc
  | .ignored => k

theorem processKeyboardInput_eq (k : Keyboard) (sc : UInt8) (text : List UInt8) :
    processKeyboardInput k sc text =
      handleKey (setModifiers k sc) sc text (keyKind (setModifiers k sc) sc) := by
  unfold processKeyboardInput keyKind
  generalize setModifiers k sc = k₁
  dsimp only
  split
  · rfl
  · split
    · rfl
    · split
      · rfl
      · split
        · rfl
        · split
          · rfl
          · split
            · rfl
            · split
              · rfl
              · split <;> rfl

/-- What the branch a key takes says of the key and of the keyboard. -/
def KeyFacts (k : Keyboard) (sc : UInt8) : KeyKind → Prop
  | .ctrlL => (k.ctrlLeftFlag || k.ctrlRightFlag) ∧ sc = 0x26
  | .printout => k.ctrlLeftFlag || k.ctrlRightFlag
  | .enter => ¬ 0x3A < sc ∧ keyOf norm sc = 10
  | .backspace => 0 < k.backspacableCounter
  | .tab => keyOf norm sc = 9
  | .char => keyOf norm sc ≠ 10
  | .ignored => True

theorem keyFacts (k : Keyboard) (sc : UInt8) : KeyFacts k sc (keyKind k sc) := by
  unfold keyKind
  dsimp only
  split
  · rename_i h
    exact h
  · split
    · rename_i h
      exact h.1
    · split
      · trivial
      · rename_i hlow
        split
        · rename_i h
          exact ⟨hlow, h⟩
        · rename_i hne
          split
          · rename_i h
            exact h.2
          · split
            · trivial
            · split
              · rename_i h
                exact h
              · split
                · trivial
                · exact hne

theorem keyFacts_of {k : Keyboard} {sc : UInt8} {kind : KeyKind} (h : keyKind k sc = kind) :
    KeyFacts k sc kind := h ▸ keyFacts k sc

/-- The table of plain keys has a byte at one key only, when it does. -/
theorem keyOf_norm_eq_iff {b c : UInt8} (hb : b ≠ 0) (hc : c.toNat < 58)
    (hat : ∀ n < 58, norm.getD n 0 = b ↔ n = c.toNat) (sc : UInt8) :
    keyOf norm sc = b ↔ sc = c := by
  rw [← UInt8.toNat_inj (a := sc)]
  unfold keyOf
  by_cases hn : sc.toNat < 58
  · exact hat sc.toNat hn
  · have hlen : norm.length = 58 := by decide
    rw [List.getD_eq_default _ _ (by omega)]
    exact iff_of_false hb.symm (by omega)

/-- ENTER, TAB and BACKSPACE in it. -/
theorem keyOf_norm_iff (sc : UInt8) : (keyOf norm sc = 10 ↔ sc = 0x1C) ∧
    (keyOf norm sc = 9 ↔ sc = 0x0F) ∧ (keyOf norm sc = 8 ↔ sc = 0x0E) :=
  ⟨keyOf_norm_eq_iff (by decide) (by decide) (by decide) sc,
    keyOf_norm_eq_iff (by decide) (by decide) (by decide) sc,
    keyOf_norm_eq_iff (by decide) (by decide) (by decide) sc⟩

theorem keyKind_ctrlL_iff {k : Keyboard} {sc : UInt8} :
    keyKind k sc = .ctrlL ↔ (k.ctrlLeftFlag || k.ctrlRightFlag) ∧ sc = 0x26 := by
  constructor
  · exact fun h => keyFacts_of h
  · intro h
    unfold keyKind
    dsimp only
    rw [if_pos h]

theorem keyKind_enter_iff {k : Keyboard} {sc : UInt8} :
    keyKind k sc = .enter ↔ ¬ 0x3A < sc ∧ keyOf norm sc = 10 := by
  constructor
  · exact fun h => keyFacts_of h
  · rintro ⟨hlow, h10⟩
    have hsc := (keyOf_norm_iff sc).1.mp h10
    unfold keyKind
    dsimp only
    rw [if_neg (fun h => absurd (hsc.symm.trans h.2) (by decide)), if_neg (fun h => ?_),
      if_neg hlow, if_pos h10]
    rcases h.2 with h | h | h <;> exact absurd (hsc.symm.trans h) (by decide)

/-- In every table the entry of ENTER is the newline, and no other entry ends a row. -/
theorem break_at {table : List UInt8} (ht : table ∈ [norm, capNorm, shiftNorm, capShift]) {n : Nat}
    (h : table.getD n 0 = 10 ∨ table.getD n 0 = 13) : n = 28 := by
  have hlen : ∀ t ∈ [norm, capNorm, shiftNorm, capShift], t.length = 58 := by decide
  have hat : ∀ t ∈ [norm, capNorm, shiftNorm, capShift], ∀ n < 58,
      t.getD n 0 = 10 ∨ t.getD n 0 = 13 → n = 28 := by
    decide
  by_cases hn : n < 58
  · exact hat table ht n hn h
  · rw [List.getD_eq_default _ _ (by rw [hlen table ht]; omega)] at h
    exact absurd h (by decide)

theorem charTable_mem (k : Keyboard) : charTable k ∈ [norm, capNorm, shiftNorm, capShift] := by
  unfold charTable
  split_ifs <;> simp

/-- A key that is echoed and kept does not end a row. -/
theorem char_ne_break {k : Keyboard} {sc : UInt8} (h : keyKind k sc = .char) :
    keyOf (charTable k) sc ≠ 10 ∧ keyOf (charTable k) sc ≠ 13 := by
  have hne : keyOf norm sc ≠ 10 := keyFacts_of h
  rw [← not_or]
  intro hbreak
  apply hne
  unfold keyOf at *
  rw [break_at (charTable_mem k) hbreak]
  decide

/-! ## The storage -/

/-- The stored line and its flag are the same in both. -/
structure SameStore (k k' : Keyboard) : Prop where
  buffer : k'.storageBuffer = k.storageBuffer
  counter : k'.storageBufferCounter = k.storageBufferCounter
  flag : k'.readableFlag = k.readableFlag

theorem SameStore.stored {k k' : Keyboard} (h : SameStore k k') : stored k' = stored k := by
  unfold Kernel.stored
  rw [h.buffer, h.counter]

/-- The other branches of `process_keyboard_input` do not touch the storage. -/
theorem handleKey_sameStore {k : Keyboard} {kind : KeyKind} (hl : kind ≠ .ctrlL)
    (he : kind ≠ .enter) (sc : UInt8) (text : List UInt8) :
    SameStore k (handleKey k sc text kind) := by
  cases kind with
  | ctrlL => exact absurd rfl hl
  | enter => exact absurd rfl he
  | printout => exact ⟨rfl, rfl, rfl⟩
  | backspace =>
    unfold handleKey backspaceKey
    simp only
    split
    · exact ⟨rfl, rfl, rfl⟩
    · split <;> exact ⟨rfl, rfl, rfl⟩
  | tab => exact ⟨rfl, rfl, rfl⟩
  | char =>
    unfold handleKey charKey
    simp only
    split <;> exact ⟨rfl, rfl, rfl⟩
  | ignored => exact ⟨rfl, rfl, rfl⟩

/-! ## Runs -/

/-- What can happen at the terminal. -/
inductive TermOp where
  | key (sc : UInt8) (text : List UInt8)
  | read (nbytes : Int)
  /-- The bytes at `buf`, and those `print_buf` finds past the array. -/
  | write (buf past : Nat → UInt8) (nbytes : Int)

/-- The keyboard after an operation; `none` while a read waits and for a store past the array. -/
def termOp (k : Keyboard) : TermOp → Option Keyboard
  | .key sc text => some (processKeyboardInput k sc text)
  | .read nbytes => (terminalRead k nbytes).map Prod.fst
  | .write buf past nbytes => (terminalWritePast k buf past nbytes).map Prod.fst

/-- One operation, as a step. -/
def TermRuns (k : Keyboard) (op : TermOp) (k' : Keyboard) : Prop := termOp k op = some k'

/-- The keyboard as `keyboard_init` leaves it at boot, whatever is on the screen. -/
def bootTerminal (s : Screen) : Keyboard := keyboardInit { bootKeyboard with screen := s }

variable {k k' : Keyboard}

theorem read_runs {nbytes : Int} (h : TermRuns k (.read nbytes) k') :
    k.readableFlag = true ∧ k' = { clearStorageBuf k with readableFlag := false } := by
  change (terminalRead k nbytes).map Prod.fst = some k' at h
  unfold terminalRead at h
  split at h
  · rename_i hf
    exact ⟨hf, (Option.some.inj h).symm⟩
  · cases h

/-- A write leaves no pending line, and touches nothing else but the screen. -/
theorem write_runs {buf past : Nat → UInt8} {nbytes : Int}
    (h : TermRuns k (.write buf past nbytes) k') : nbytes ≤ bufSize ∧
      k' = { clearBuf k with backspacableCounter := 0, screen := k'.screen } := by
  change (terminalWritePast k buf past nbytes).map Prod.fst = some k' at h
  unfold terminalWritePast at h
  simp only at h
  split at h
  · cases h
  · rename_i hn
    refine ⟨by omega, ?_⟩
    rw [← Option.some.inj h]
    simp only [clearBuf, Keyboard.mk.injEq, true_and, and_true]
    -- what was staged lies below the end of the array, and all of that is cleared
    funext i
    split
    · rfl
    · rw [if_neg (by omega)]

/-! ## The counters -/

/-- **The counters and the buffer agree**, with the counters as integers. -/
structure Counters (k : Keyboard) : Prop where
  nonneg : 0 ≤ k.bufferContentCounter
  le : k.bufferContentCounter ≤ 128
  buffer_zero : ∀ j : Nat, k.bufferContentCounter ≤ j → j < bufSize → k.buffer j = 0
  backspacable : k.bufferContentCounter ≤ k.backspacableCounter
  storage_nonneg : 0 ≤ k.storageBufferCounter
  storage_le : k.storageBufferCounter ≤ 129

/-- An emptied buffer. -/
theorem counters_of_empty (hc : k.bufferContentCounter = 0)
    (hb : ∀ j, j < bufSize → k.buffer j = 0) (hp : k.backspacableCounter = 0)
    (hs : 0 ≤ k.storageBufferCounter ∧ k.storageBufferCounter ≤ 129) : Counters k :=
  ⟨by omega, by omega, fun j _ hj => hb j hj, by omega, hs.1, hs.2⟩

/-- An emptied buffer and an emptied storage. -/
theorem counters_of_clear (hc : k.bufferContentCounter = 0)
    (hb : ∀ j, j < bufSize → k.buffer j = 0) (hp : k.backspacableCounter = 0)
    (hs : k.storageBufferCounter = 0) : Counters k :=
  counters_of_empty hc hb hp (by omega)

theorem counters_bootTerminal (s : Screen) : Counters (bootTerminal s) :=
  counters_of_clear rfl (fun _ hj => if_pos hj) rfl rfl

theorem Counters.setModifiers (h : Counters k) (sc : UInt8) : Counters (setModifiers k sc) :=
  ⟨h.nonneg, h.le, h.buffer_zero, h.backspacable, h.storage_nonneg, h.storage_le⟩

/-- The counters do not depend on the screen. -/
theorem Counters.screen (h : Counters k) (s : Screen) : Counters { k with screen := s } :=
  ⟨h.nonneg, h.le, h.buffer_zero, h.backspacable, h.storage_nonneg, h.storage_le⟩

theorem Counters.enterKey (h : Counters k) : Counters (enterKey k) := by
  have h0 := h.nonneg
  have h1 := h.le
  refine counters_of_empty rfl (fun _ hj => if_pos hj) rfl ?_
  change 0 ≤ (0 : Int) + k.bufferContentCounter.toNat + 1 ∧
    (0 : Int) + k.bufferContentCounter.toNat + 1 ≤ 129
  omega

theorem Counters.backspaceKey (h : Counters k) (hpos : 0 < k.backspacableCounter) :
    Counters (backspaceKey k) := by
  obtain ⟨h0, h1, hz, hb, hs, hs'⟩ := h
  unfold Kernel.backspaceKey
  simp only
  split
  · rename_i hc
    refine ⟨by simp only; omega, by simp only; omega, ?_, by simp only; omega, hs, hs'⟩
    intro j hj hlt
    simp only at hj ⊢
    rw [Function.update_apply]
    split
    · rfl
    · exact hz j (by omega) hlt
  · rename_i hc
    -- the counter is not negative, so the line is empty here
    rw [if_pos (by omega)]
    exact ⟨h0, h1, hz, by simp only; omega, hs, hs'⟩

theorem Counters.charKey (h : Counters k) (sc : UInt8) : Counters (charKey k sc) := by
  unfold Kernel.charKey
  split
  · rename_i hc
    obtain ⟨h0, h1, hz, hb, hs, hs'⟩ := h
    refine ⟨by simp only; omega, by simp only; omega, ?_, by simp only; omega, hs, hs'⟩
    intro j hj hlt
    simp only at hj ⊢
    rw [Function.update_of_ne (by omega)]
    exact hz j (by omega) hlt
  · exact h

theorem Counters.tabKey (h : Counters k) : Counters (tabKey k) :=
  ⟨h.nonneg, h.le, h.buffer_zero, by have := h.backspacable; simp only [Kernel.tabKey]; omega,
    h.storage_nonneg, h.storage_le⟩

theorem Counters.key (h : Counters k) (sc : UInt8) (text : List UInt8) :
    Counters (processKeyboardInput k sc text) := by
  rw [processKeyboardInput_eq]
  have hm := h.setModifiers sc
  cases hkind : keyKind (Kernel.setModifiers k sc) sc with
  | ctrlL => exact counters_of_clear rfl (fun _ hj => if_pos hj) rfl rfl
  | printout => exact hm.screen _
  | enter => exact hm.enterKey
  | backspace => exact hm.backspaceKey (keyFacts_of hkind)
  | tab => exact hm.tabKey
  | char => exact hm.charKey sc
  | ignored => exact hm

/-- **Every operation keeps the counters.** -/
theorem Counters.step {op : TermOp} (h : Counters k) (hr : TermRuns k op k') : Counters k' := by
  cases op with
  | key sc text =>
    obtain rfl := Option.some.inj hr
    exact h.key sc text
  | read nbytes =>
    obtain ⟨-, rfl⟩ := read_runs hr
    exact ⟨h.nonneg, h.le, h.buffer_zero, h.backspacable, Int.le_refl 0,
      (by decide : (0 : Int) ≤ 129)⟩
  | write buf past nbytes =>
    obtain ⟨-, hk⟩ := write_runs hr
    rw [hk]
    exact counters_of_empty rfl (fun _ hj => if_pos hj) rfl ⟨h.storage_nonneg, h.storage_le⟩

theorem run_counters {s : Screen} {tr : List TermOp} (h : Trace TermRuns (bootTerminal s) tr k) :
    Counters k :=
  h.invariant (fun _ _ _ hk hr => hk.step hr) (counters_bootTerminal s)

/-- A key takes the branch of BACKSPACE that reports a negative counter. -/
def ReportsException (k : Keyboard) (sc : UInt8) : Prop :=
  keyKind (setModifiers k sc) sc = .backspace ∧ ¬ 0 < k.bufferContentCounter ∧
    k.bufferContentCounter ≠ 0

/-- **The keyboard counters stay consistent**: after every run of scan codes, reads and writes of at
most 1024 bytes, and whatever key comes next, the branch that should never happen does not. -/
theorem counters_consistent (s : Screen) (tr : List TermOp) (k : Keyboard)
    (h : Trace TermRuns (bootTerminal s) tr k) :
    (0 ≤ k.bufferContentCounter ∧ k.bufferContentCounter ≤ 128) ∧
    (∀ j : Nat, k.bufferContentCounter ≤ j → j < 1024 → k.buffer j = 0) ∧
    k.bufferContentCounter ≤ k.backspacableCounter ∧
    (0 ≤ k.storageBufferCounter ∧ k.storageBufferCounter ≤ 129) ∧
    ∀ sc, ¬ ReportsException k sc := by
  have hk := run_counters h
  refine ⟨⟨hk.nonneg, hk.le⟩, hk.buffer_zero, hk.backspacable, ⟨hk.storage_nonneg, hk.storage_le⟩,
    ?_⟩
  rintro sc ⟨-, hneg, hne⟩
  have h0 := hk.nonneg
  omega

/-- `a` is typed, then BACKSPACE is pressed. -/
theorem counters_consistent_typed :
    (processKeyboardInput (bootTerminal bootKeyboard.screen) 0x1E []).bufferContentCounter = 1 ∧
    ¬ ReportsException (processKeyboardInput (bootTerminal bootKeyboard.screen) 0x1E []) 0x0E := by
  have hrun : Trace TermRuns (bootTerminal bootKeyboard.screen) [.key 0x1E []]
      (processKeyboardInput (bootTerminal bootKeyboard.screen) 0x1E []) := .single rfl
  exact ⟨by decide, (counters_consistent _ _ _ hrun).2.2.2.2 0x0E⟩

/-! ## The array accesses -/

/-- The values of `i` in `for (i = 0; i < n; i++)`. -/
def countTo (n : Int) : List Int := (List.range n.toNat).map Int.ofNat

/-- The indices at which a branch of `process_keyboard_input` accesses `buffer` and
`storage_buffer`. -/
def keyAccesses (k : Keyboard) : KeyKind → List Int
  -- clear_buf, clear_storage_buf
  | .ctrlL => countTo bufSize ++ countTo bufSize
  -- clear_storage_buf, the copy, the newline after it, clear_buf
  | .enter => countTo bufSize ++ countTo k.bufferContentCounter ++ [max 0 k.bufferContentCounter] ++
      countTo bufSize
  | .backspace => if 0 < k.bufferContentCounter then [k.bufferContentCounter - 1] else []
  | .char => if k.bufferContentCounter < 128 then [k.bufferContentCounter] else []
  | _ => []

/-- The indices at which an operation accesses `buffer` and `storage_buffer`. -/
def accesses (k : Keyboard) : TermOp → List Int
  | .key sc _ => keyAccesses k (keyKind (setModifiers k sc) sc)
  -- the copy, clear_storage_buf
  | .read nbytes => countTo (min k.storageBufferCounter nbytes) ++ countTo bufSize
  -- the staging loop, print_buf, clear_buf
  | .write _ _ nbytes => countTo nbytes ++ countTo (k.bufferContentCounter + max 0 nbytes) ++
      countTo bufSize

theorem mem_countTo {n i : Int} : i ∈ countTo n ↔ 0 ≤ i ∧ i < n := by
  unfold countTo
  simp only [List.mem_map, List.mem_range]
  constructor
  · rintro ⟨a, ha, rfl⟩
    exact ⟨Int.natCast_nonneg a, by simp only [Int.ofNat_eq_natCast]; omega⟩
  · rintro ⟨h0, h1⟩
    exact ⟨i.toNat, by omega, by simp only [Int.ofNat_eq_natCast]; omega⟩

/-- What a key stores to is among its accesses. -/
theorem key_frame {sc : UInt8} {text : List UInt8} {kind : KeyKind}
    (h0 : 0 ≤ k.bufferContentCounter) {i : Nat} (hi : (i : Int) ∉ keyAccesses k kind) :
    (handleKey k sc text kind).buffer i = k.buffer i ∧
      (handleKey k sc text kind).storageBuffer i = k.storageBuffer i := by
  cases kind with
  | ctrlL =>
    simp only [keyAccesses, List.mem_append, mem_countTo, or_self] at hi
    exact ⟨if_neg (by omega), if_neg (by omega)⟩
  | printout => exact ⟨rfl, rfl⟩
  | enter =>
    simp only [keyAccesses, List.mem_append, mem_countTo, List.mem_singleton] at hi
    refine ⟨if_neg (by omega), ?_⟩
    change (enterKey k).storageBuffer i = _
    rw [enterKey_storageBuffer, Function.update_of_ne (by omega), if_neg (by omega),
      if_neg (by omega)]
  | backspace =>
    unfold handleKey backspaceKey
    simp only [keyAccesses] at hi ⊢
    split
    · rename_i hc
      rw [if_pos hc, List.mem_singleton] at hi
      exact ⟨Function.update_of_ne (by omega) _ _, rfl⟩
    · split <;> exact ⟨rfl, rfl⟩
  | tab => exact ⟨rfl, rfl⟩
  | char =>
    unfold handleKey charKey
    simp only [keyAccesses] at hi ⊢
    split
    · rename_i hc
      rw [if_pos hc, List.mem_singleton] at hi
      exact ⟨Function.update_of_ne (by omega) _ _, rfl⟩
    · exact ⟨rfl, rfl⟩
  | ignored => exact ⟨rfl, rfl⟩

/-- What an operation stores to is among its accesses. -/
theorem termOp_frame {op : TermOp} (hk : Counters k) (h : TermRuns k op k') {i : Nat}
    (hi : (i : Int) ∉ accesses k op) :
    k'.buffer i = k.buffer i ∧ k'.storageBuffer i = k.storageBuffer i := by
  cases op with
  | key sc text =>
    obtain rfl := Option.some.inj h
    rw [processKeyboardInput_eq]
    exact key_frame (k := setModifiers k sc) hk.nonneg hi
  | read nbytes =>
    obtain ⟨-, rfl⟩ := read_runs h
    simp only [accesses, List.mem_append, mem_countTo] at hi
    exact ⟨rfl, if_neg (by omega)⟩
  | write buf past nbytes =>
    obtain ⟨-, hk'⟩ := write_runs h
    rw [hk']
    simp only [accesses, List.mem_append, mem_countTo] at hi
    exact ⟨if_neg (by omega), rfl⟩

/-- The operations that stay inside the arrays: a write fits behind what is pending. -/
def Fits (k : Keyboard) : TermOp → Prop
  | .write _ _ nbytes => k.bufferContentCounter + max 0 nbytes ≤ bufSize
  | _ => True

theorem keyAccesses_in_bounds (hk : Counters k) (kind : KeyKind) :
    ∀ i ∈ keyAccesses k kind, 0 ≤ i ∧ i < bufSize := by
  have h0 := hk.nonneg
  have h1 := hk.le
  have hsize : (bufSize : Int) = 1024 := rfl
  intro i hi
  cases kind with
  | ctrlL =>
    simp only [keyAccesses, List.mem_append, mem_countTo, or_self] at hi
    exact hi
  | enter =>
    simp only [keyAccesses, List.mem_append, mem_countTo, List.mem_singleton] at hi
    omega
  | backspace =>
    simp only [keyAccesses] at hi
    split at hi
    · rw [List.mem_singleton] at hi
      omega
    · cases hi
  | char =>
    simp only [keyAccesses] at hi
    split at hi
    · rw [List.mem_singleton] at hi
      omega
    · cases hi
  | _ => cases hi

/-- **Which operations stay inside the arrays**, after every run of scan codes, reads and writes:
all keys and all reads, and the writes that fit behind the pending line. -/
theorem accesses_in_bounds_iff (s : Screen) (tr : List TermOp) (k : Keyboard)
    (h : Trace TermRuns (bootTerminal s) tr k) (op : TermOp) :
    (∀ i ∈ accesses k op, 0 ≤ i ∧ i < 1024) ↔ Fits k op := by
  have hk := run_counters h
  have h0 := hk.nonneg
  have hsize : (bufSize : Int) = 1024 := rfl
  cases op with
  | key sc text =>
    refine iff_of_true ?_ trivial
    exact keyAccesses_in_bounds hk _
  | read nbytes =>
    refine iff_of_true ?_ trivial
    intro i hi
    have hs := hk.storage_le
    simp only [accesses, List.mem_append, mem_countTo] at hi
    omega
  | write buf past nbytes =>
    unfold Fits
    simp only [accesses, List.mem_append, mem_countTo]
    constructor
    · intro hall
      by_contra hout
      have := hall (k.bufferContentCounter + max 0 nbytes - 1) (by omega)
      omega
    · intro hfit i hi
      omega

/-- `a` is typed and a program writes 1023 bytes: the last one is read at index 1023. -/
theorem accesses_in_bounds_iff_typed :
    (processKeyboardInput (bootTerminal bootKeyboard.screen) 0x1E []).bufferContentCounter = 1 ∧
    ∀ i ∈ accesses (processKeyboardInput (bootTerminal bootKeyboard.screen) 0x1E [])
      (.write (fun _ => 32) (fun _ => 0) 1023), 0 ≤ i ∧ i < 1024 := by
  refine ⟨by decide, ?_⟩
  refine (accesses_in_bounds_iff bootKeyboard.screen [.key 0x1E []] _ (.single rfl) _).mpr ?_
  change (1 : Int) + max 0 1023 ≤ 1024
  decide

/-- With `a` typed, a write of 1024 bytes makes `print_buf` read `buffer[1024]`; a write of 1025
bytes stores there at once. -/
theorem write_leaves_array :
    Trace TermRuns (bootTerminal bootKeyboard.screen) [.key 0x1E []]
      (processKeyboardInput (bootTerminal bootKeyboard.screen) 0x1E []) ∧
    (1024 : Int) ∈ accesses (processKeyboardInput (bootTerminal bootKeyboard.screen) 0x1E [])
      (.write (fun _ => 32) (fun _ => 0) 1024) ∧
    (1024 : Int) ∈ accesses (bootTerminal bootKeyboard.screen)
      (.write (fun _ => 32) (fun _ => 0) 1025) := by
  refine ⟨.single rfl, ?_, ?_⟩
  · refine List.mem_append_left _ (List.mem_append_right _ (mem_countTo.mpr ⟨by decide, ?_⟩))
    change (1024 : Int) < 1 + max 0 1024
    decide
  · exact List.mem_append_left _ (List.mem_append_left _ (mem_countTo.mpr (by decide)))

/-! ## The terminal of the system -/

/-- The keyboard changes by an operation of the terminal, or on screen only. -/
inductive TermEffect (k : Keyboard) : Keyboard → Prop
  | screen (s : Screen) : TermEffect k { k with screen := s }
  | runs (op : TermOp) {k' : Keyboard} (h : TermRuns k op k') : TermEffect k k'

theorem Counters.effect (h : Counters k) (he : TermEffect k k') : Counters k' := by
  cases he with
  | screen s => exact h.screen s
  | runs op hr => exact h.step hr

variable {L : Layout} {img : Image} {σ σ' : State} {r : Reply}

theorem execute_terminal {e : ExecArgs} (h : execute L img σ e = .ok (σ', r)) :
    TermEffect σ.keyboard σ'.keyboard := by
  cases execute_inv h with
  | full hk => exact .screen _
  | null hk hc => exact .screen _
  | rejected hk hc ha hh => exact .screen _
  | unloadable hk hc ha hh hl => exact .screen _
  | started hk hc ha hh hr hl => exact .screen _

theorem read_terminal {fd : Int} {buf : Nat} {nbytes : Int}
    (h : Kernel.read img σ fd buf nbytes = .ok (σ', r)) :
    TermEffect σ.keyboard σ'.keyboard := by
  cases read_inv h with
  | refused hn => exact .screen _
  | @done t fn σ₁ v out hc ht hfn hcall =>
    change TermEffect σ.keyboard σ₁.keyboard
    cases fn with
    | terminalRead =>
      simp only [callRead] at hcall
      split at hcall
      · cases hcall
      · rename_i kb v' out' hread
        cases hcall
        refine .runs (.read nbytes) ?_
        change (terminalRead σ.keyboard nbytes).map Prod.fst = _
        rw [hread]
        rfl
    | _ =>
      cases hcall
      exact .screen _

theorem write_terminal {fd : Int} {buf : Nat} {data : Mem} {nbytes : Int}
    (h : write σ fd buf data nbytes = .ok (σ', r)) : TermEffect σ.keyboard σ'.keyboard := by
  cases write_inv h with
  | refused hn => exact .screen _
  | @done t fn σ₁ v hc ht hfn hcall =>
    cases fn with
    | terminalWrite =>
      simp only [callWrite] at hcall
      split at hcall
      · cases hcall
      · rename_i kb v' hwrite
        cases hcall
        refine .runs (.write data (fun _ => 0) nbytes) ?_
        change (terminalWritePast σ.keyboard data (fun _ => 0) nbytes).map Prod.fst = _
        rw [terminalWrite_eq_past hwrite]
        rfl
    | _ =>
      cases hcall
      exact .screen _

/-- **A step of the system** does to the keyboard what an operation of the terminal does, or
prints. -/
theorem step_terminal {c : Call} (h : step L img σ c = .ok (σ', r)) :
    TermEffect σ.keyboard σ'.keyboard := by
  cases c with
  | halt status =>
    simp only [step, halt] at h
    split at h <;> (cases h; exact .screen _)
  | execute e => exact execute_terminal h
  | read fd buf nbytes => exact read_terminal h
  | write fd buf data nbytes => exact write_terminal h
  | openFile filename =>
    cases openFile_inv h with
    | stdin => exact .screen _
    | stdout => exact .screen _
    | refused => exact .screen _
    | opened hd h2 hfree => exact .screen _
  | close fd =>
    cases close_inv h with
    | refused hn => exact .screen _
    | closed hc => exact .screen _
  | getargs buf nbytes =>
    simp only [step, getargs] at h
    split at h <;> (cases h; exact .screen _)
  | vidmap screenStart =>
    simp only [step, vidmap] at h
    split at h <;> (cases h; exact .screen _)
  | key sc text =>
    cases h
    exact .runs (.key sc text) rfl
  | _ =>
    cases h
    exact .screen _

/-- The counters hold in every state the system reaches from one in which they hold, such as the one
`keyboard_init` leaves. -/
theorem system_counters {tr : List Event} (h : Trace (KStep L img) σ tr σ')
    (h0 : Counters σ.keyboard) : Counters σ'.keyboard := by
  refine h.invariant (I := fun σ => Counters σ.keyboard) ?_ h0
  exact fun σ₁ ev σ₂ hk hstep => hk.effect (step_terminal hstep.2.2)

end MyOS.Terminal
