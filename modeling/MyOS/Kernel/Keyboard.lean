import MyOS.Kernel.Lib

/-!
# `keyboard.c`: the line editor and the terminal calls

Model of `student-distrib/keyboard.c`.

* The flags hold 0 or 1 and are `Bool`s. The counters are `int`s and stay integers here; an array
  is indexed with what the C computes. `storage_buffer` is an array of `int` whose elements are
  `char`s stored and cut back to bytes when read, so it holds bytes.
* `process_keyboard_input` (`keyboard.c:269-478`) runs with interrupts off, from the scan code to
  the end of interrupt. Ctrl with 1, 2 or 3 runs a printout of `files.c` that clears the screen and
  prints; what it prints is the argument `text`.
* `terminal_read` (`keyboard.c:219-237`) spins until a line is stored; `terminalRead` is the call
  from there on, `none` while there is no line.
* An array index past `BUF_SIZE` in `terminal_write` or in the `print_buf` it calls has no defined
  result: `terminalWrite` is then `none`.
-/

namespace MyOS.Kernel

open MyOS.Machine

/-- The globals of `keyboard.c` that its routines read, with the screen they echo to. -/
structure Keyboard where
  capsFlag : Bool
  shiftLeftFlag : Bool
  shiftRightFlag : Bool
  ctrlLeftFlag : Bool
  ctrlRightFlag : Bool
  buffer : Nat → UInt8
  storageBuffer : Nat → UInt8
  bufferContentCounter : Int
  storageBufferCounter : Int
  backspacableCounter : Int
  readableFlag : Bool
  screen : Screen

/-- `BUF_SIZE`. -/
def bufSize : Nat := 1024

/-! ## The scan-code tables

Each table is 128 bytes; the entries past the space bar are zero. -/

/-- The bytes of a run of characters. -/
def ascii (cs : List Char) : List UInt8 := cs.map fun c => UInt8.ofNat c.toNat

/-- `norm`: the characters of the scan codes. -/
def norm : List UInt8 :=
  [0, 27] ++ ascii ['1', '2', '3', '4', '5', '6', '7', '8', '9', '0', '-', '='] ++ [8, 9] ++
    ascii ['q', 'w', 'e', 'r', 't', 'y', 'u', 'i', 'o', 'p', '[', ']'] ++ [10, 0] ++
    ascii ['a', 's', 'd', 'f', 'g', 'h', 'j', 'k', 'l', ';'] ++ [39, 96, 0, 92] ++
    ascii ['z', 'x', 'c', 'v', 'b', 'n', 'm', ',', '.', '/'] ++ [0, 42, 0, 32]

/-- `cap_norm`: with caps lock. -/
def capNorm : List UInt8 :=
  [0, 27] ++ ascii ['1', '2', '3', '4', '5', '6', '7', '8', '9', '0', '-', '='] ++ [8, 9] ++
    ascii ['Q', 'W', 'E', 'R', 'T', 'Y', 'U', 'I', 'O', 'P', '[', ']'] ++ [10, 0] ++
    ascii ['A', 'S', 'D', 'F', 'G', 'H', 'J', 'K', 'L', ':'] ++ [39, 96, 0, 92] ++
    ascii ['Z', 'X', 'C', 'V', 'B', 'N', 'M', ',', '.', '/'] ++ [0, 42, 0, 32]

/-- `shift_norm`: with shift held. -/
def shiftNorm : List UInt8 :=
  [0, 27] ++ ascii ['!', '@', '#', '$', '%', '^', '&', '*', '(', ')', '_', '+'] ++ [8, 9] ++
    ascii ['Q', 'W', 'E', 'R', 'T', 'Y', 'U', 'I', 'O', 'P'] ++ [123, 125, 10, 0] ++
    ascii ['A', 'S', 'D', 'F', 'G', 'H', 'J', 'K', 'L', ':'] ++ [34, 126, 0, 92] ++
    ascii ['Z', 'X', 'C', 'V', 'B', 'N', 'M', '<', '>', '?'] ++ [0, 42, 0, 32]

/-- `cap_shift`: with both. -/
def capShift : List UInt8 :=
  [0, 27] ++ ascii ['!', '@', '#', '$', '%', '^', '&', '*', '(', ')', '_', '+'] ++ [8, 9] ++
    ascii ['q', 'w', 'e', 'r', 't', 'y', 'u', 'i', 'o', 'p'] ++ [123, 125, 10, 0] ++
    ascii ['a', 's', 'd', 'f', 'g', 'h', 'j', 'k', 'l', ':'] ++ [34, 126, 0, 92] ++
    ascii ['z', 'x', 'c', 'v', 'b', 'n', 'm', '<', '>', '?'] ++ [0, 42, 0, 32]

/-- `table[character_info]`. -/
def keyOf (table : List UInt8) (sc : UInt8) : UInt8 := table.getD sc.toNat 0

/-! ## The buffers -/

/-- The statics as the program is loaded: all zero. -/
def bootKeyboard : Keyboard :=
  ⟨false, false, false, false, false, fun _ => 0, fun _ => 0, 0, 0, 0, false,
    ⟨fun _ => 0, 0, 0, 0, 0⟩⟩

/-- `keyboard_init()`. The counter of the storage buffer is left as it is. -/
def keyboardInit (k : Keyboard) : Keyboard :=
  { k with
    buffer := fun i => if i < bufSize then 0 else k.buffer i
    storageBuffer := fun i => if i < bufSize then 0 else k.storageBuffer i
    bufferContentCounter := 0
    readableFlag := false
    backspacableCounter := 0
    screen := updateTerminalCursor (initScreenXAndY k.screen) }

/-- `clear_buf()`. -/
def clearBuf (k : Keyboard) : Keyboard :=
  { k with
    buffer := fun i => if i < bufSize then 0 else k.buffer i
    bufferContentCounter := 0 }

/-- `clear_storage_buf()`. -/
def clearStorageBuf (k : Keyboard) : Keyboard :=
  { k with
    storageBuffer := fun i => if i < bufSize then 0 else k.storageBuffer i
    storageBufferCounter := 0 }

/-- The pending input, `buffer[0..buffer_content_counter)`. -/
def pending (k : Keyboard) : List UInt8 := (List.range k.bufferContentCounter.toNat).map k.buffer

/-- The stored line, `storage_buffer[0..storage_buffer_counter)`. -/
def stored (k : Keyboard) : List UInt8 :=
  (List.range k.storageBufferCounter.toNat).map k.storageBuffer

/-- `print_buf()`: the keyboard after it and the number of bytes printed. -/
def printBuf (k : Keyboard) : Keyboard × Int :=
  ({ k with
      screen := updateTerminalCursor (puts k.screen (pending k))
      backspacableCounter := 0 },
    (k.bufferContentCounter.toNat : Int))

/-- `terminal_read(buf, offset, nbytes, name)` once `readable_flag` is seen set: the keyboard
after it, the return value and the bytes copied. -/
def terminalRead (k : Keyboard) (nbytes : Int) : Option (Keyboard × Int × List UInt8) :=
  if k.readableFlag then
    let out := (stored k).take nbytes.toNat
    some ({ clearStorageBuf k with readableFlag := false }, (out.length : Int), out)
  else none

/-- `terminal_write(fd, buf, nbytes)`, with `buf` as the bytes it reads. -/
def terminalWrite (k : Keyboard) (buf : Nat → UInt8) (nbytes : Int) : Option (Keyboard × Int) :=
  let n := nbytes.toNat
  let k1 :=
    { k with
      buffer := fun i => if i < n then buf i else k.buffer i
      bufferContentCounter := k.bufferContentCounter + n }
  if bufSize < n ∨ (bufSize : Int) < k1.bufferContentCounter then none
  else
    let r := printBuf k1
    some ({ clearBuf r.1 with backspacableCounter := 0 }, r.2)

/-- What `print_buf` prints when the counter may have passed `BUF_SIZE`: `past` is what is read
there. -/
def printed (k : Keyboard) (past : Nat → UInt8) : List UInt8 :=
  (List.range k.bufferContentCounter.toNat).map fun i =>
    if i < bufSize then k.buffer i else past i

/-- `terminal_write` when only `print_buf` may leave the array, by reading; a store past its end
still has no result. -/
def terminalWritePast (k : Keyboard) (buf past : Nat → UInt8) (nbytes : Int) :
    Option (Keyboard × Int) :=
  let n := nbytes.toNat
  let k1 :=
    { k with
      buffer := fun i => if i < n then buf i else k.buffer i
      bufferContentCounter := k.bufferContentCounter + n }
  if bufSize < n then none
  else
    let k2 :=
      { k1 with
        screen := updateTerminalCursor (puts k1.screen (printed k1 past))
        backspacableCounter := 0 }
    some ({ clearBuf k2 with backspacableCounter := 0 }, (k1.bufferContentCounter.toNat : Int))

theorem printed_eq_pending {k : Keyboard} (h : k.bufferContentCounter ≤ bufSize)
    (past : Nat → UInt8) : printed k past = pending k := by
  unfold printed pending
  apply List.map_congr_left
  intro i hi
  rw [List.mem_range] at hi
  rw [if_pos (by omega)]

/-- Inside the array the two are one. -/
theorem terminalWrite_eq_past {k : Keyboard} {buf : Nat → UInt8} {nbytes : Int}
    {r : Keyboard × Int} (h : terminalWrite k buf nbytes = some r) (past : Nat → UInt8) :
    terminalWritePast k buf past nbytes = some r := by
  unfold terminalWrite at h
  unfold terminalWritePast
  simp only at h ⊢
  split at h
  · cases h
  · rename_i hin
    rw [if_neg (by omega), printed_eq_pending (by simp only; omega), ← h]
    rfl

/-! ## Scan codes -/

/-- The modifier flags after a scan code: presses, CapsLock toggles, releases. -/
def setModifiers (k : Keyboard) (sc : UInt8) : Keyboard :=
  { k with
    shiftRightFlag := if sc = 0x36 then true else if sc = 0xB6 then false else k.shiftRightFlag
    shiftLeftFlag := if sc = 0x2A then true else if sc = 0xAA then false else k.shiftLeftFlag
    ctrlLeftFlag := if sc = 0x1D then true else if sc = 0x9D then false else k.ctrlLeftFlag
    capsFlag := if sc = 0x3A then !k.capsFlag else k.capsFlag }

/-- ENTER: the pending line and a newline become the stored line. -/
def enterKey (k : Keyboard) : Keyboard :=
  let k1 := clearStorageBuf
    { k with
      screen := updateTerminalCursor (putc k.screen 10)
      backspacableCounter := 0
      readableFlag := false }
  let n := k1.bufferContentCounter.toNat
  clearBuf
    { k1 with
      storageBuffer := Function.update
        (fun i => if i < n then k1.buffer i else k1.storageBuffer i) n 10
      storageBufferCounter := k1.storageBufferCounter + n + 1
      readableFlag := true }

theorem enterKey_storageBuffer (k : Keyboard) :
    (enterKey k).storageBuffer = Function.update
      (fun i => if i < k.bufferContentCounter.toNat then k.buffer i
        else if i < bufSize then 0 else k.storageBuffer i) k.bufferContentCounter.toNat 10 := rfl

/-- The message of the branch of BACKSPACE that should never run. -/
def backspaceExceptionText : List UInt8 :=
  [230, 157, 156, 229, 187, 186, 233, 156, 150, 239, 188, 154] ++
    ascii ['E', 'x', 'c', 'e', 'p', 't', 'i', 'o', 'n', ':', ' ',
      'k', 'e', 'y', 'b', 'o', 'a', 'r', 'd', '.', 'c', ':', ' ',
      'p', 'r', 'o', 'c', 'e', 's', 's', '_', 'k', 'e', 'y', 'b', 'o', 'a', 'r', 'd', '_',
      'i', 'n', 'p', 'u', 't', '(', ')', ' ', 'w', 'h', 'e', 'n', ' ',
      'B', 'A', 'C', 'K', 'S', 'P', 'A', 'C', 'E', ' ', 'i', 's', ' ',
      'p', 'r', 'e', 's', 's', 'e', 'd'] ++ [10]

/-- BACKSPACE with something to delete on screen. The pending line may already be empty; a counter
below zero is reported. -/
def backspaceKey (k : Keyboard) : Keyboard :=
  let k1 :=
    { k with
      screen := updateTerminalCursor (backSpace k.screen)
      backspacableCounter := k.backspacableCounter - 1 }
  if 0 < k1.bufferContentCounter then
    let n := k1.bufferContentCounter - 1
    { k1 with bufferContentCounter := n, buffer := Function.update k1.buffer n.toNat 0 }
  else if k1.bufferContentCounter = 0 then k1
  else { k1 with screen := puts k1.screen backspaceExceptionText }

/-- TAB: two blanks on screen, nothing in the buffer. -/
def tabKey (k : Keyboard) : Keyboard :=
  { k with
    screen := updateTerminalCursor (putc (putc k.screen 32) 32)
    backspacableCounter := k.backspacableCounter + 2 }

/-- The table the CapsLock and Shift state select. -/
def charTable (k : Keyboard) : List UInt8 :=
  if k.capsFlag then (if k.shiftLeftFlag || k.shiftRightFlag then capShift else capNorm)
  else (if k.shiftLeftFlag || k.shiftRightFlag then shiftNorm else norm)

/-- Any other key up to 0x39: echoed and appended while fewer than 128 bytes are pending. -/
def charKey (k : Keyboard) (sc : UInt8) : Keyboard :=
  if k.bufferContentCounter < 128 then
    let c := keyOf (charTable k) sc
    { k with
      screen := updateTerminalCursor (putc k.screen c)
      buffer := Function.update k.buffer k.bufferContentCounter.toNat c
      bufferContentCounter := k.bufferContentCounter + 1
      backspacableCounter := k.backspacableCounter + 1 }
  else k

/-- Ctrl-L. -/
def ctrlL (k : Keyboard) : Keyboard :=
  let k1 := clearStorageBuf { clearBuf { k with screen := clearScreen k.screen } with
    backspacableCounter := 0 }
  { k1 with screen := updateTerminalCursor k1.screen }

/-- `process_keyboard_input(character_info)`. -/
def processKeyboardInput (k : Keyboard) (sc : UInt8) (text : List UInt8) : Keyboard :=
  let k := setModifiers k sc
  let ctrl := k.ctrlLeftFlag || k.ctrlRightFlag
  if ctrl ∧ sc = 0x26 then ctrlL k
  -- files_test, print_allfile_name, file_index: clear the screen and print
  else if ctrl ∧ (sc = 2 ∨ sc = 3 ∨ sc = 4) then { k with screen := puts (clear k.screen) text }
  else if 0x3A < sc then k
  else if keyOf norm sc = 10 then enterKey k
  else if keyOf norm sc = 8 ∧ 0 < k.backspacableCounter then backspaceKey k
  else if keyOf norm sc = 8 then k
  else if keyOf norm sc = 9 then tabKey k
  else if sc = 0x36 ∨ sc = 0x2A ∨ sc = 0x1D ∨ sc = 0x3A then k
  else charKey k sc

end MyOS.Kernel
