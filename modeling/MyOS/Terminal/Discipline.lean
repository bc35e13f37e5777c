import MyOS.Terminal.Echo

/-!
# The terminal as its users see it

What a program gets from `terminal_read` and what it puts on the screen with `terminal_write`, said
without the buffers, the counters and the screen of `keyboard.c`.

* `Line`: a line being typed, as its text and the state of CapsLock and Shift. `Line.key` is one
  scan code.
* `Follows`: the keyboard holds that line. `Follows.key` is one key of a line other than TAB, with
  the branch it takes from `keyKind_line_eq`.
* **`line_discipline`**: `terminal_read` returns the line that was typed.
* `staged` / `sent`: `terminal_write` (`keyboard.c:245-258`) stores its bytes from index 0 of
  `buffer`, but counts them on top of the characters that are pending there, prints as many as it
  has then counted, and clears the buffer (`sent_eq_iff`).
* **`write_faithful_iff`**: so it prints its bytes and leaves the pending line alone exactly when
  nothing is pending.
-/

namespace MyOS.Terminal

open MyOS.Machine MyOS.Kernel

variable {k k' : Keyboard} {sc : UInt8}

/-! ## A line being typed -/

/-- The text typed so far, CapsLock and the two Shift keys. -/
structure Line where
  capsFlag : Bool
  shiftLeftFlag : Bool
  shiftRightFlag : Bool
  text : List UInt8
  deriving DecidableEq

/-- CapsLock toggles; a Shift key is pressed or released. -/
def Line.modify (l : Line) (sc : UInt8) : Line :=
  { l with
    capsFlag := if sc = 0x3A then !l.capsFlag else l.capsFlag
    shiftLeftFlag := if sc = 0x2A then true else if sc = 0xAA then false else l.shiftLeftFlag
    shiftRightFlag := if sc = 0x36 then true else if sc = 0xB6 then false else l.shiftRightFlag }

/-- The table CapsLock and Shift choose. -/
def Line.table (l : Line) : List UInt8 :=
  match l.capsFlag, l.shiftLeftFlag || l.shiftRightFlag with
  | false, false => norm
  | false, true => shiftNorm
  | true, false => capNorm
  | true, true => capShift

/-- The codes that type a character: the make codes up to 0x39 other than BACKSPACE and Shift. -/
def isChar (sc : UInt8) : Bool := sc ≤ 0x39 && sc != 0x0E && sc != 0x2A && sc != 0x36

/-- A scan code other than TAB, Ctrl and ENTER: it deletes the last character, adds one to a line
of fewer than 128, or leaves the text alone. -/
def Line.key (l : Line) (sc : UInt8) : Line :=
  let l := l.modify sc
  if sc = 0x0E then { l with text := l.text.dropLast }
  else if isChar sc ∧ l.text.length < 128 then { l with text := l.text ++ [keyOf l.table sc] }
  else l

/-- The empty line, with CapsLock and Shift as the keyboard has them. -/
def emptyLine (k : Keyboard) : Line := ⟨k.capsFlag, k.shiftLeftFlag, k.shiftRightFlag, []⟩

/-- The line typed by some keys. -/
def lineTyped (k : Keyboard) (keys : List UInt8) : List UInt8 :=
  (keys.foldl Line.key (emptyLine k)).text

/-! ## The keyboard holds it -/

/-- The keyboard holds the line `l`, all of which can be deleted, and agrees on the modifiers. -/
structure Follows (k : Keyboard) (l : Line) : Prop where
  synced : Synced k l.text
  caps : k.capsFlag = l.capsFlag
  shiftLeft : k.shiftLeftFlag = l.shiftLeftFlag
  shiftRight : k.shiftRightFlag = l.shiftRightFlag

variable {l : Line}

theorem LineStart.follows (h : LineStart k) : Follows k (emptyLine k) := ⟨h.synced, rfl, rfl, rfl⟩

theorem Follows.setModifiers (h : Follows k l) (hsc : sc ≠ 0x1D) :
    Follows (setModifiers k sc) (l.modify sc) := by
  obtain ⟨hs, hcaps, hleft, hright⟩ := h
  refine ⟨hs.setModifiers hsc, ?_, ?_, ?_⟩
  · simp only [Kernel.setModifiers, Line.modify, hcaps]
  · simp only [Kernel.setModifiers, Line.modify, hleft]
  · simp only [Kernel.setModifiers, Line.modify, hright]

theorem Follows.charTable_eq (h : Follows k l) : charTable k = l.table := by
  unfold charTable Line.table
  rw [h.caps, h.shiftLeft, h.shiftRight]
  cases l.capsFlag <;> cases l.shiftLeftFlag || l.shiftRightFlag <;> rfl

/-- The codes that type a character are those the last branch is left with. -/
theorem isChar_iff (hback : sc ≠ 0x0E) (hctrl : sc ≠ 0x1D) :
    isChar sc = true ↔ ¬ 0x3A < sc ∧ ¬ (sc = 0x36 ∨ sc = 0x2A ∨ sc = 0x1D ∨ sc = 0x3A) := by
  unfold isChar
  simp only [← UInt8.toNat_inj, UInt8.reduceToNat, Ne] at hback hctrl
  simp only [Bool.and_eq_true, bne_iff_ne, decide_eq_true_eq, UInt8.le_iff_toNat_le,
    UInt8.lt_iff_toNat_lt, ← UInt8.toNat_inj, Ne, UInt8.reduceToNat]
  omega

/-- The branch of a key of a line other than TAB. -/
theorem keyKind_line_eq (hctrl : k.ctrlLeftFlag = false ∧ k.ctrlRightFlag = false)
    (hsc : LineKey sc) (htab : sc ≠ 0x0F) :
    keyKind k sc = if sc = 0x0E then (if 0 < k.backspacableCounter then .backspace else .ignored)
      else if isChar sc then .char else .ignored := by
  obtain ⟨h10, h9, h8⟩ := keyOf_norm_iff sc
  unfold keyKind
  simp only [hctrl.1, hctrl.2, Bool.or_self, Bool.false_eq_true, false_and, if_false, h10, h9, h8,
    hsc.2, htab]
  by_cases hback : sc = 0x0E
  · subst hback
    rw [if_neg (by decide), if_pos rfl]
    simp only [true_and, if_true]
  · have hiff := isChar_iff hback hsc.1
    simp only [hback, false_and, if_false]
    by_cases hchar : isChar sc = true
    · obtain ⟨hlow, hnot⟩ := hiff.mp hchar
      rw [if_neg hlow, if_neg hnot, if_pos hchar]
    · rw [if_neg hchar]
      split
      · rfl
      · rename_i hlow
        rw [if_pos]
        by_contra hnot
        exact hchar (hiff.mpr ⟨hlow, hnot⟩)

/-- The branches a line goes through leave the modifiers alone. -/
theorem Follows.withText (h : Follows k l) {t : List UInt8} (hs : Synced k' t)
    (hcaps : k'.capsFlag = k.capsFlag) (hleft : k'.shiftLeftFlag = k.shiftLeftFlag)
    (hright : k'.shiftRightFlag = k.shiftRightFlag) : Follows k' { l with text := t } :=
  ⟨hs, hcaps.trans h.caps, hleft.trans h.shiftLeft, hright.trans h.shiftRight⟩

theorem Follows.backspaceKey (h : Follows k l) (hpos : 0 < k.backspacableCounter) :
    Follows (backspaceKey k) { l with text := l.text.dropLast } := by
  refine h.withText (h.synced.backspaceKey hpos) ?_ ?_ ?_ <;> (
    unfold Kernel.backspaceKey
    simp only
    split
    · rfl
    · split <;> rfl)

theorem Follows.charKey (h : Follows k l) (sc : UInt8) :
    Follows (charKey k sc) (if l.text.length < 128 then
      { l with text := l.text ++ [keyOf l.table sc] } else l) := by
  have hlen := h.synced.length_eq
  have hs := h.synced.charKey sc
  rw [h.charTable_eq] at hs
  by_cases hroom : k.bufferContentCounter < 128
  · rw [if_pos hroom] at hs
    rw [if_pos (by omega)]
    refine h.withText hs ?_ ?_ ?_ <;> (unfold Kernel.charKey; rw [if_pos hroom])
  · rw [if_neg (by omega)]
    unfold Kernel.charKey
    rw [if_neg hroom]
    exact h

/-- **A key of a line other than TAB.** -/
theorem Follows.key (h : Follows k l) (hsc : LineKey sc) (htab : sc ≠ 0x0F) :
    Follows (processKeyboardInput k sc []) (l.key sc) := by
  have hm := h.setModifiers hsc.1
  rw [processKeyboardInput_eq, keyKind_line_eq hm.synced.ctrl_up hsc htab]
  unfold Line.key
  generalize Kernel.setModifiers k sc = k₁ at hm
  generalize l.modify sc = l₁ at hm
  simp only
  split
  · by_cases hpos : 0 < k₁.backspacableCounter
    · rw [if_pos hpos]
      exact hm.backspaceKey hpos
    · -- nothing to delete, in the buffer or on the line
      rw [if_neg hpos]
      have hlen := hm.synced.length_eq
      have hb := hm.synced.backspacable
      have hnil : l₁.text.dropLast = l₁.text := by
        rw [List.length_eq_zero_iff.mp (by omega : l₁.text.length = 0)]
        rfl
      rw [hnil]
      exact hm
  · by_cases hchar : isChar sc = true
    · simp only [hchar, if_true, true_and]
      exact hm.charKey sc
    · simp only [hchar, Bool.false_eq_true, if_false, false_and]
      exact hm

theorem Follows.typed {keys : List UInt8} (h : Follows k l) (hkeys : ∀ sc ∈ keys, LineKey sc)
    (htab : 0x0F ∉ keys) : Follows (typed k keys) (keys.foldl Line.key l) := by
  induction keys generalizing k l with
  | nil => exact h
  | cons sc keys ih =>
    rw [List.forall_mem_cons] at hkeys
    rw [List.mem_cons, not_or] at htab
    exact ih (h.key hkeys.1 (Ne.symm htab.1)) hkeys.2 htab.2

theorem Line.length_key_le (l : Line) (sc : UInt8) (h : l.text.length ≤ 128) :
    (l.key sc).text.length ≤ 128 := by
  unfold Line.key
  have htext : (l.modify sc).text = l.text := rfl
  simp only [htext]
  split
  · simp only [List.length_dropLast]
    omega
  · split
    · rename_i hroom
      simp only [List.length_append, List.length_singleton]
      omega
    · exact h

theorem length_lineTyped_le (k : Keyboard) (keys : List UInt8) :
    (lineTyped k keys).length ≤ 128 := by
  unfold lineTyped
  induction keys using List.reverseRecOn with
  | nil => exact Nat.zero_le 128
  | append_singleton keys sc ih =>
    rw [List.foldl_append]
    exact Line.length_key_le _ sc ih

/-- **`terminal_read` returns the line that was typed.** From the start of a line, for any keys but
TAB, Ctrl and ENTER, and then ENTER: a read of at least 129 bytes returns the line they typed and a
newline. -/
theorem line_discipline (k : Keyboard) (keys : List UInt8) (nbytes : Int) (hstart : LineStart k)
    (hkeys : ∀ sc ∈ keys, LineKey sc) (htab : 0x0F ∉ keys) (hn : 129 ≤ nbytes) :
    ∃ k', terminalRead (typed k (keys ++ [0x1C])) nbytes =
      some (k', ((lineTyped k keys).length : Int) + 1, lineTyped k keys ++ [10]) := by
  have hf := hstart.follows.typed hkeys htab
  have hlen := length_lineTyped_le k keys
  have hline : completed (typed k keys) 0x1C = some (pending (typed k keys) ++ [10]) :=
    if_pos (by decide)
  obtain ⟨hstored, hflag⟩ := key_enter [] hline
  have htyped : typed k (keys ++ [0x1C]) = processKeyboardInput (typed k keys) 0x1C [] := by
    unfold typed
    rw [List.foldl_append]
    rfl
  have hout : (stored (typed k (keys ++ [0x1C]))).take nbytes.toNat = lineTyped k keys ++ [10] := by
    rw [htyped, hstored, hf.synced.pending_eq, List.take_of_length_le]
    · rfl
    · change (lineTyped k keys ++ [10]).length ≤ _
      rw [List.length_append, List.length_singleton]
      omega
  unfold terminalRead
  simp only [hout]
  rw [if_pos (by rw [htyped]; exact hflag)]
  exact ⟨_, by rw [List.length_append, List.length_singleton]; rfl⟩

/-- CapsLock, `a`, Shift pressed, `a`, `1`, BACKSPACE, Shift released, `b` and ENTER: the line is
`AaB`. -/
theorem line_discipline_modifiers :
    ∃ k', terminalRead (typed (bootTerminal bootKeyboard.screen)
      ([0x3A, 0x1E, 0x2A, 0x1E, 0x02, 0x0E, 0xAA, 0x30] ++ [0x1C])) 129 =
        some (k', 4, [65, 97, 66, 10]) := by
  have hkeys : ∀ sc ∈ [0x3A, 0x1E, 0x2A, 0x1E, 0x02, 0x0E, 0xAA, 0x30], LineKey sc := by
    intro sc hsc
    simp only [List.mem_cons, List.not_mem_nil, or_false] at hsc
    rcases hsc with rfl | rfl | rfl | rfl | rfl | rfl | rfl | rfl <;>
      exact ⟨by decide, by decide⟩
  have hline : lineTyped (bootTerminal bootKeyboard.screen)
      [0x3A, 0x1E, 0x2A, 0x1E, 0x02, 0x0E, 0xAA, 0x30] = [65, 97, 66] := by decide
  have h := line_discipline _ _ 129 (lineStart_bootTerminal bootKeyboard.screen) hkeys (by decide)
    (by decide)
  rw [hline] at h
  exact h

/-! ## Writing -/

/-- The keyboard after the loop of `terminal_write`. -/
def staged (k : Keyboard) (buf : Nat → UInt8) (n : Nat) : Keyboard :=
  { k with
    buffer := fun i => if i < n then buf i else k.buffer i
    bufferContentCounter := k.bufferContentCounter + n }

/-- The bytes a `terminal_write` of `n` bytes sends to `putc`. -/
def sent (k : Keyboard) (buf past : Nat → UInt8) (n : Nat) : List UInt8 :=
  printed (staged k buf n) past

/-- The bytes sent are those the screen gets, and their number is returned. -/
theorem terminalWritePast_sent {n : Nat} (hn : n ≤ bufSize) (buf past : Nat → UInt8) :
    ∃ k', terminalWritePast k buf past n = some (k', ((sent k buf past n).length : Int)) ∧
      k'.screen = updateTerminalCursor (puts k.screen (sent k buf past n)) ∧
      k'.bufferContentCounter = 0 ∧ ∀ i < bufSize, k'.buffer i = 0 := by
  have hlen : (sent k buf past n).length = (staged k buf n).bufferContentCounter.toNat := by
    unfold sent printed
    rw [List.length_map, List.length_range]
  unfold terminalWritePast
  simp only [Int.toNat_natCast]
  rw [if_neg (Nat.not_lt.mpr hn), hlen]
  refine ⟨_, rfl, rfl, rfl, fun i hi => ?_⟩
  simp only [clearBuf, if_pos hi]

/-- They are the bytes of `buf`, as long as nothing is pending. -/
theorem sent_eq_iff (h0 : 0 ≤ k.bufferContentCounter) {n : Nat} (hn : n ≤ bufSize)
    (buf past : Nat → UInt8) :
    sent k buf past n = (List.range n).map buf ↔ k.bufferContentCounter = 0 := by
  unfold sent printed staged
  simp only
  constructor
  · intro h
    have hlen := congrArg List.length h
    rw [List.length_map, List.length_map, List.length_range, List.length_range] at hlen
    omega
  · intro h
    rw [h, Int.zero_add, Int.toNat_natCast]
    apply List.map_congr_left
    intro i hi
    rw [List.mem_range] at hi
    rw [if_pos (by omega), if_pos hi]

/-- `terminal_write(fd, buf, n)` prints its bytes, returns their number and leaves the pending line
as it is: the counter and the array. -/
def WriteFaithful (k : Keyboard) (buf past : Nat → UInt8) (n : Nat) : Prop :=
  ∃ k', terminalWritePast k buf past n = some (k', (n : Int)) ∧
    sent k buf past n = (List.range n).map buf ∧
    k'.bufferContentCounter = k.bufferContentCounter ∧ ∀ i < bufSize, k'.buffer i = k.buffer i

/-- **A write prints its bytes and leaves the pending line alone exactly when nothing is pending**,
in every state of every run of keys, reads and writes. -/
theorem write_faithful_iff {s : Screen} {tr : List TermOp}
    (h : Trace TermRuns (bootTerminal s) tr k) (buf past : Nat → UInt8) {n : Nat}
    (hn : n ≤ bufSize) : WriteFaithful k buf past n ↔ k.bufferContentCounter = 0 := by
  have hk := run_counters h
  obtain ⟨k', hw, -, hc, hb⟩ := terminalWritePast_sent (k := k) hn buf past
  constructor
  · rintro ⟨-, -, hsent, -⟩
    exact (sent_eq_iff hk.nonneg hn buf past).mp hsent
  · intro h0
    have hsent := (sent_eq_iff hk.nonneg hn buf past).mpr h0
    refine ⟨k', ?_, hsent, hc.trans h0.symm, fun i hi => ?_⟩
    · rw [hw, hsent, List.length_map, List.length_range]
    · rw [hb i hi, hk.buffer_zero i (by omega) hi]

/-- After `a`, BACKSPACE and ENTER a write of two bytes prints them. -/
theorem write_faithful_iff_empty :
    ∃ k, Trace TermRuns (bootTerminal bootKeyboard.screen)
        [.key 0x1E [], .key 0x0E [], .key 0x1C []] k ∧
      WriteFaithful k (fun i => [104, 105].getD i 0) (fun _ => 0) 2 := by
  have hrun : Trace TermRuns (bootTerminal bootKeyboard.screen)
      [.key 0x1E [], .key 0x0E [], .key 0x1C []]
      (typed (bootTerminal bootKeyboard.screen) [0x1E, 0x0E, 0x1C]) :=
    .cons rfl (.cons rfl (.cons rfl (.nil _)))
  exact ⟨_, hrun, (write_faithful_iff hrun _ _ (by decide)).mpr (by decide)⟩

/-- With `a` typed and not entered, a write of `b` sends `b` and a zero to the screen, returns 2 and
leaves nothing pending. -/
theorem type_ahead_spoils_write :
    ∃ k k', Trace TermRuns (bootTerminal bootKeyboard.screen) [.key 0x1E []] k ∧
      pending k = [97] ∧
      terminalWritePast k (fun _ => 98) (fun _ => 0) 1 = some (k', 2) ∧
      sent k (fun _ => 98) (fun _ => 0) 1 = [98, 0] ∧ pending k' = [] ∧
      ¬ WriteFaithful k (fun _ => 98) (fun _ => 0) 1 := by
  have hsent : sent (typed (bootTerminal bootKeyboard.screen) [0x1E]) (fun _ => 98) (fun _ => 0) 1 =
      [98, 0] := by
    decide
  refine ⟨typed (bootTerminal bootKeyboard.screen) [0x1E], _, .cons rfl (.nil _),
    by decide, rfl, hsent, rfl, ?_⟩
  rintro ⟨-, -, h, -⟩
  rw [hsent] at h
  exact absurd h (by decide)

end MyOS.Terminal
