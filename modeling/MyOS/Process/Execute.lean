import MyOS.Kernel.Syscall

/-!
# What one `execute` can do, and what a failed one leaves behind

`Execution` lists the ways `execute` (`systemcall.c:54-204`) returns or starts a program, with the
state it leaves in each; `execute_iff` says the list is exact. Every later result about `execute`
goes through it.

A failed `execute` should leave the caller where it was. It does not:

* `arg_size` is overwritten by the parse (`systemcall.c:82`), before the program is looked up;
* an argument of 1024 bytes or more is stored past `arg_buf` (`systemcall.c:84-90`), also before the
  program is looked up;
* a file that passes `check_executable` but cannot be loaded is found out after `counter` has been
  incremented and `create_paging` has switched CR3 (`systemcall.c:104-124`), and neither is undone.

**`execute_failure_frame_iff`** is the exact condition (`FailsCleanly`) under which `execute` stays
in `arg_buf` and a failure leaves the process state alone. `unloadable_execute_moves_counter` is a
file with a damaged block list on which it does not.
-/

namespace MyOS.Process

open MyOS.Machine MyOS.Kernel

/-- The file passes `check_executable` and its entry address can be read. -/
def HeaderOk (img : Image) (e : ExecArgs) (name : CString) : Prop :=
  checkExecutable img e.temp name ≠ -1 ∧ (fileRead img localBuf 24 4 name).1 ≠ -1

/-- `entry_addr`. -/
def entryAddr (img : Image) (e : ExecArgs) (name : CString) : Nat :=
  le32 (store e.buf 0 (fileRead img localBuf 24 4 name).2) 0

/-- `file_load` returns -1, before it has run out of the program's page. -/
def LoadFails (img : Image) (name : CString) : Prop :=
  (fileLoad img name).2.length ≤ loadRoom ∧ (fileLoad img name).1 = -1

/-- The state in which a program starts at `entry`. -/
def launched (L : Layout) (k : State) (e : ExecArgs) (arg : List UInt8) (entry : Nat) : State :=
  startProcess (enterProcess L { k with argSize := arg.length } entry) e arg

/-- **The ways `execute` comes back**, with the state and the reply of each. -/
inductive Execution (L : Layout) (img : Image) (k : State) (e : ExecArgs) : State → Reply → Prop
  /-- Six processes run already. -/
  | full (hk : 6 ≤ k.counter) :
      Execution L img k e
        { k with keyboard := { k.keyboard with screen := puts k.keyboard.screen tooManyText } }
        (.ret (-1) [])
  | null (hk : k.counter < 6) (hc : e.command = none) : Execution L img k e k (.ret (-1) [])
  /-- No such executable. -/
  | rejected (hk : k.counter < 6) {cmd : Mem} {arg : List UInt8} (hc : e.command = some cmd)
      (ha : argument cmd = some arg) (hh : ¬ HeaderOk img e (commandName cmd e.past)) :
      Execution L img k e { k with argSize := arg.length } (.ret (-1) [])
  /-- The executable cannot be loaded: the new process is half made. -/
  | unloadable (hk : k.counter < 6) {cmd : Mem} {arg : List UInt8} (hc : e.command = some cmd)
      (ha : argument cmd = some arg) (hh : HeaderOk img e (commandName cmd e.past))
      (hl : LoadFails img (commandName cmd e.past)) :
      Execution L img k e
        (enterProcess L { k with argSize := arg.length } (entryAddr img e (commandName cmd e.past)))
        (.ret (-1) [])
  | started (hk : k.counter < 6) {cmd : Mem} {arg : List UInt8} (hc : e.command = some cmd)
      (ha : argument cmd = some arg) (hh : HeaderOk img e (commandName cmd e.past))
      (hr : (fileLoad img (commandName cmd e.past)).2.length ≤ loadRoom)
      (hl : (fileLoad img (commandName cmd e.past)).1 ≠ -1) :
      Execution L img k e (launched L k e arg (entryAddr img e (commandName cmd e.past)))
        (.iret (entryAddr img e (commandName cmd e.past)))

variable {L : Layout} {img : Image} {k k' : State} {e : ExecArgs} {r : Reply}

theorem execute_inv (h : execute L img k e = .ok (k', r)) : Execution L img k e k' r := by
  unfold execute at h
  split at h
  · rename_i hk
    cases h
    exact .full hk
  · rename_i hk
    split at h
    · rename_i hc
      cases h
      exact .null (by omega) hc
    · rename_i cmd hc
      split at h
      · cases h
      · rename_i arg ha
        simp only at h
        split at h
        · rename_i hx
          cases h
          exact .rejected (by omega) hc ha fun hh => hh.1 hx
        · rename_i hx
          split at h
          · rename_i hy
            cases h
            exact .rejected (by omega) hc ha fun hh => hh.2 hy
          · rename_i hy
            split at h
            · cases h
            · rename_i hroom
              split at h
              · rename_i hl
                cases h
                exact .unloadable (by omega) hc ha ⟨hx, hy⟩ ⟨by omega, hl⟩
              · rename_i hl
                cases h
                exact .started (by omega) hc ha ⟨hx, hy⟩ (by omega) hl

/-- `started`, with the name and the entry address computed. -/
theorem Execution.started_at {cmd : Mem} {arg : List UInt8} {name : CString} {entry : Nat}
    (hk : k.counter < 6) (hc : e.command = some cmd) (ha : argument cmd = some arg)
    (hn : commandName cmd e.past = name) (hh : HeaderOk img e name)
    (hr : (fileLoad img name).2.length ≤ loadRoom) (hl : (fileLoad img name).1 ≠ -1)
    (he : entryAddr img e name = entry) :
    Execution L img k e (launched L k e arg entry) (.iret entry) := by
  subst hn he
  exact .started hk hc ha hh hr hl

/-- `unloadable`, with the name computed. -/
theorem Execution.unloadable_at {cmd : Mem} {arg : List UInt8} {name : CString}
    (hk : k.counter < 6) (hc : e.command = some cmd) (ha : argument cmd = some arg)
    (hn : commandName cmd e.past = name) (hh : HeaderOk img e name) (hl : LoadFails img name) :
    Execution L img k e
      (enterProcess L { k with argSize := arg.length } (entryAddr img e name)) (.ret (-1) []) := by
  subst hn
  exact .unloadable hk hc ha hh hl

theorem Execution.execute_eq (h : Execution L img k e k' r) :
    execute L img k e = .ok (k', r) := by
  unfold execute
  cases h with
  | full hk => rw [if_pos hk]
  | null hk hc => rw [if_neg (by omega), hc]
  | @rejected hk cmd arg hc ha hh =>
    rw [if_neg (by omega), hc]
    simp only [ha]
    by_cases hx : checkExecutable img e.temp (commandName cmd e.past) = -1
    · rw [if_pos hx]
    · rw [if_neg hx, if_pos (by by_contra hy; exact hh ⟨hx, hy⟩)]
  | unloadable hk hc ha hh hl =>
    rw [if_neg (by omega), hc]
    simp only [ha]
    rw [if_neg hh.1, if_neg hh.2, if_neg (by have := hl.1; omega), if_pos hl.2]
    rfl
  | started hk hc ha hh hr hl =>
    rw [if_neg (by omega), hc]
    simp only [ha]
    rw [if_neg hh.1, if_neg hh.2, if_neg (by omega), if_neg hl]
    rfl

/-- **`Execution` is exactly what `execute` does.** -/
theorem execute_iff : execute L img k e = .ok (k', r) ↔ Execution L img k e k' r :=
  ⟨execute_inv, Execution.execute_eq⟩

/-! ## Failure -/

/-- The process state is what it was: `counter`, CR3, the page directories, `tss.esp0`, every PCB
and `arg_size`. -/
structure SameProcesses (k k' : State) : Prop where
  counter : k'.counter = k.counter
  cr3 : k'.paging.cr3 = k.paging.cr3
  directories : k'.paging.pageDirectories = k.paging.pageDirectories
  esp0 : k'.esp0 = k.esp0
  pcb : k'.pcb = k.pcb
  argSize : k'.argSize = k.argSize

/-- The caller's next system call finds the PCB it would have found. -/
theorem SameProcesses.current (h : SameProcesses k k') : k'.current = k.current := by
  unfold State.current
  rw [h.pcb, h.counter]

/-- When a failure is clean: the limit of six is reached, or the argument fits `arg_buf`, its length
is the one `arg_size` had if the program is rejected, and an accepted program can be loaded. -/
def FailsCleanly (img : Image) (k : State) (e : ExecArgs) : Prop :=
  6 ≤ k.counter ∨ ∀ cmd, e.command = some cmd → ∃ arg, argument cmd = some arg ∧
    (¬ HeaderOk img e (commandName cmd e.past) → arg.length = k.argSize) ∧
    (HeaderOk img e (commandName cmd e.past) → ¬ LoadFails img (commandName cmd e.past))

/-- `execute` runs past `arg_buf` exactly when it parses an argument that does not fit. -/
theorem execute_overrun_iff (L : Layout) (img : Image) (k : State) (e : ExecArgs) :
    execute L img k e = .error .overrun ↔
      k.counter < 6 ∧ ∃ cmd, e.command = some cmd ∧ argument cmd = none := by
  unfold execute
  by_cases hk : 6 ≤ k.counter
  · rw [if_pos hk]
    exact iff_of_false nofun (by omega)
  · rw [if_neg hk]
    cases hc : e.command with
    | none => exact iff_of_false nofun (by rintro ⟨-, cmd, hcmd, -⟩; cases hcmd)
    | some cmd =>
      simp only
      cases ha : argument cmd with
      | none => exact iff_of_true rfl ⟨by omega, cmd, rfl, ha⟩
      | some arg =>
        refine iff_of_false ?_ ?_
        · simp only
          repeat' split
          all_goals nofun
        · rintro ⟨-, cmd', hcmd, harg⟩
          obtain rfl := Option.some.inj hcmd
          rw [ha] at harg
          cases harg

/-- **`execute` stays in `arg_buf` and, if it fails, leaves the process state alone exactly when it
`FailsCleanly`.** -/
theorem execute_failure_frame_iff (L : Layout) (img : Image) (k : State) (e : ExecArgs) :
    (execute L img k e ≠ .error .overrun ∧
      ∀ k' out, execute L img k e = .ok (k', .ret (-1) out) →
        SameProcesses k k' ∧ k'.current = k.current) ↔ FailsCleanly img k e := by
  constructor
  · rintro ⟨hfits, h⟩
    by_contra hn
    unfold FailsCleanly at hn
    rw [not_or, not_le] at hn
    obtain ⟨hk, hn⟩ := hn
    apply hn
    intro cmd hc
    cases ha : argument cmd with
    | none => exact absurd ((execute_overrun_iff L img k e).mpr ⟨hk, cmd, hc, ha⟩) hfits
    | some arg =>
      refine ⟨arg, rfl, fun hh => ?_, fun hh hl => ?_⟩
      · exact (h _ _ (Execution.rejected hk hc ha hh).execute_eq).1.argSize
      · have hcounter := (h _ _ (Execution.unloadable hk hc ha hh hl).execute_eq).1.counter
        simp only [enterProcess] at hcounter
        omega
  · intro hclean
    refine ⟨fun hover => ?_, fun k' out h => ?_⟩
    · obtain ⟨hk, cmd, hc, hnone⟩ := (execute_overrun_iff L img k e).mp hover
      obtain ⟨arg, ha, -⟩ := hclean.resolve_left (by omega) cmd hc
      rw [hnone] at ha
      cases ha
    · suffices hs : SameProcesses k k' from ⟨hs, hs.current⟩
      cases execute_inv h with
      | full hk => exact ⟨rfl, rfl, rfl, rfl, rfl, rfl⟩
      | null hk hc => exact ⟨rfl, rfl, rfl, rfl, rfl, rfl⟩
      | @rejected hk cmd arg hc ha hh =>
        obtain ⟨arg', ha', hsize, -⟩ := hclean.resolve_left (by omega) cmd hc
        obtain rfl := Option.some.inj (ha.symm.trans ha')
        exact ⟨rfl, rfl, rfl, rfl, rfl, hsize hh⟩
      | @unloadable hk cmd arg hc ha hh hl =>
        obtain ⟨arg', ha', -, hload⟩ := hclean.resolve_left (by omega) cmd hc
        exact absurd hl (hload hh)

/-! ## A small image

A directory `.`, a 28-byte executable `shell` and an executable `torn` of 4097 bytes, whose second
block entry is a parameter: there are two data blocks. -/

/-- The bytes of the image. -/
def demoMem (blk : UInt8) : Mem :=
  let m : Mem := fun _ => 0
  -- boot block: three entries, three inodes, two data blocks
  let m := store m 0 [3, 0, 0, 0, 3, 0, 0, 0, 2]
  let m := store m 64 (ascii ['.'])
  let m := store m 96 [1]
  let m := store m 128 (ascii ['s', 'h', 'e', 'l', 'l'])
  let m := store m 160 [2, 0, 0, 0, 1]
  let m := store m 192 (ascii ['t', 'o', 'r', 'n'])
  let m := store m 224 [2, 0, 0, 0, 2]
  -- inodes 1 and 2: length, then block entries
  let m := store m 8192 [28]
  let m := store m 12288 [1, 16, 0, 0, 0, 0, 0, 0, blk]
  -- data block 0: the magic number and the entry address
  let m := store m 16384 [0x7f, 0x45, 0x4c, 0x46]
  store m 16408 [0x80, 0x80, 0x04, 0x08]

/-- The image. -/
def demoImage (blk : UInt8) : Image := ⟨demoMem blk⟩

/-- Where its kernel has the page directories and the two page tables. -/
def demoLayout : Layout where
  pageDirectories := 0x410000
  pageTableShell := 0x420000
  pageTableVideo := 0x421000
  directories_aligned := by decide
  shell_aligned := by decide
  video_aligned := by decide
  directories_mem := by decide
  shell_mem := by decide
  video_mem := by decide
  shell_disjoint := by decide
  video_disjoint := by decide
  tables_disjoint := by decide

/-- Nothing runs yet. -/
def demoBoot : State where
  counter := 0
  shellEntryAddr := 0
  argSize := 0
  esp0 := 0x800000
  paging := initPaging demoLayout ⟨0, fun _ _ => 0, fun _ => 0, fun _ => 0⟩
  pcb := fun _ => ⟨0, 0, 0, 0, fun _ => freeDescriptor, fun _ => 0⟩
  entryCounter := 0
  keyboard := keyboardInit bootKeyboard
  rtcRegA := 0

/-- A command followed by zeros, called with the kernel stack pointer at `esp`. -/
def demoArgs (cmd : List UInt8) (esp : Nat) : ExecArgs where
  command := some (store (fun _ => 0) 0 cmd)
  past := CString.empty
  temp := fun _ => 0
  buf := fun _ => 0
  esp := esp
  ebp := esp

/-- The command `shell`. -/
def shellText : List UInt8 := ascii ['s', 'h', 'e', 'l', 'l']

/-- The command `torn`. -/
def tornText : List UInt8 := ascii ['t', 'o', 'r', 'n']

/-- The name `shell`. -/
def shellName : CString := ⟨shellText, by decide⟩

/-- The name `torn`. -/
def tornName : CString := ⟨tornText, by decide⟩

/-- The kernel with its shell running. -/
def demoShell : State :=
  launched demoLayout demoBoot (demoArgs shellText 0x7ffff0) [] 0x08048080

theorem commandName_shell :
    commandName (store (fun _ => 0) 0 shellText) CString.empty = shellName := by
  decide

theorem commandName_torn :
    commandName (store (fun _ => 0) 0 tornText) CString.empty = tornName := by
  decide

/-- Below the limit of six, `shell` can be started from any state, with any argument. -/
theorem shell_started_with {k : State} (hk : k.counter < 6) (esp : Nat) {blk : UInt8}
    (hblk : blk = 1 ∨ blk = 9) {text arg : List UInt8}
    (hn : commandName (store (fun _ => 0) 0 text) CString.empty = shellName)
    (ha : argument (store (fun _ => 0) 0 text) = some arg) :
    execute demoLayout (demoImage blk) k (demoArgs text esp) =
      .ok (launched demoLayout k (demoArgs text esp) arg 0x08048080, .iret 0x08048080) := by
  refine (Execution.started_at (e := demoArgs text esp) hk rfl ha hn ⟨?_, ?_⟩ ?_ ?_ ?_).execute_eq
  · change checkExecutable (demoImage blk) (fun _ => 0) shellName ≠ -1
    rcases hblk with rfl | rfl <;> decide
  · rcases hblk with rfl | rfl <;> decide
  · rcases hblk with rfl | rfl <;> decide
  · rcases hblk with rfl | rfl <;> decide
  · change le32 (store (fun _ => 0) 0 (fileRead (demoImage blk) localBuf 24 4 shellName).2) 0 = _
    rcases hblk with rfl | rfl <;> decide

theorem shell_started {k : State} (hk : k.counter < 6) (esp : Nat) {blk : UInt8}
    (hblk : blk = 1 ∨ blk = 9) :
    execute demoLayout (demoImage blk) k (demoArgs shellText esp) =
      .ok (launched demoLayout k (demoArgs shellText esp) [] 0x08048080, .iret 0x08048080) :=
  shell_started_with hk esp hblk commandName_shell (by decide)

/-- The shell of `demoShell` was started by the boot code. -/
theorem demoShell_booted {blk : UInt8} (hblk : blk = 1 ∨ blk = 9) :
    Booted demoLayout (demoImage blk) demoShell := by
  refine ⟨demoBoot, demoArgs shellText 0x7ffff0, 0x08048080, ⟨rfl, _, rfl⟩, ⟨_, rfl, ?_⟩, ?_⟩
  · decide
  · exact shell_started (by decide) _ hblk

theorem torn_loadFails : LoadFails (demoImage 9) tornName := by
  have hd : readDentryByName (demoImage 9) tornName =
      some ⟨tornName, 2, 2⟩ := by decide
  have hlen : (demoImage 9).inodeLength 2 = 4097 := by decide
  have hload : fileLoad (demoImage 9) tornName =
      readData (demoImage 9) 2 0 4097 := by
    rw [fileLoad_found hd, hlen]
  unfold LoadFails
  rw [hload, readData_fails_iff]
  refine ⟨(length_readData_le _ _ _ _).trans (by decide), by omega, Or.inr ⟨1, ?_, Or.inr ?_⟩⟩
  · decide
  · exact ⟨by decide, by omega, by omega⟩

/-- The shell runs and asks for `torn`, whose second block entry is 9: the request is refused, and
the kernel is left with a second process that was never made. -/
theorem unloadable_execute_moves_counter :
    Booted demoLayout (demoImage 9) demoShell ∧
    ∃ k', execute demoLayout (demoImage 9) demoShell (demoArgs tornText 0x7ffe00) =
        .ok (k', .ret (-1) []) ∧ k'.counter = 2 ∧ ¬ SameProcesses demoShell k' := by
  have hx := Execution.unloadable_at (L := demoLayout) (k := demoShell)
    (e := demoArgs tornText 0x7ffe00) (by decide) rfl (by decide : argument _ = some [])
    commandName_torn ⟨by decide, by decide⟩ torn_loadFails
  refine ⟨demoShell_booted (Or.inr rfl), _, hx.execute_eq, rfl, fun h => ?_⟩
  exact absurd h.counter (by decide)

end MyOS.Process
