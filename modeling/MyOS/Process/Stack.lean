import MyOS.Process.Execute
import MyOS.Descriptor.Calls
import MyOS.Kernel.Pointers

/-!
# The process stack

Nothing stores which process runs. Six system calls recompute it from `counter`, `execute` from the
stack pointer (`systemcall.c:139`) and `halt` from `parent_pid` (`systemcall.c:246`). `StackInv` is
what makes the three agree: processes `1..counter` are stacked, each the child of the one below,
and CR3 and `tss.esp0` belong to the top one.

* `Effect` / `step_effect`: the four things a step can do to the processes. Every result about runs
  goes through it.
* `StackInv.step` / `reaches_stackInv`: the invariant is kept, by every step and so by every run.
* **`process_stack`**: the invariant and what `execute` and `halt` do to the stack, in every state a
  booted system reaches on an image whose files can be loaded (`EntriesOk`), as long as `read` and
  `getargs` store in the program's page. `getargs_over_pid` is a `getargs` that does not.
-/

namespace MyOS.Process

open MyOS.Machine MyOS.Kernel MyOS.Descriptor

/-- Every named directory entry has an inode, and the blocks its length needs are there. -/
structure EntriesOk (img : Image) : Prop where
  inode_lt : ∀ i < sizeFsDentries, img.filename i ≠ CString.empty →
    img.dentryInode i < img.inodesNum
  block_lt : ∀ i < sizeFsDentries, img.filename i ≠ CString.empty →
    ∀ b, 4096 * b < img.inodeLength (img.dentryInode i) →
      img.dataBlock (img.dentryInode i) b < img.datablocksNum

/-- **The processes form a stack.** -/
structure StackInv (L : Layout) (k : State) : Prop where
  counter_pos : 1 ≤ k.counter
  counter_le : k.counter ≤ 6
  pid_eq : ∀ j, 1 ≤ j → j ≤ k.counter → (k.pcb (pcbAddr j)).pid = j
  parentPid_eq : ∀ j, 1 ≤ j → j ≤ k.counter → (k.pcb (pcbAddr j)).parentPid = j - 1
  cr3_eq : k.paging.cr3 = L.pageDirectories + 4096 * (k.counter - 1)
  esp0_eq : k.esp0 = 0x800000 - (k.counter - 1) * 0x2000 - 4

variable {L : Layout} {img : Image} {k k' : State}

/-! ## What a step can do -/

/-- Only the running process's descriptors and the devices changed. -/
structure OwnFiles (k k' : State) : Prop where
  counter : k'.counter = k.counter
  paging : k'.paging = k.paging
  esp0 : k'.esp0 = k.esp0
  pcb : ∃ files, k'.pcb =
    Function.update k.pcb (pcbAddr k.counter) { k.current with fileArray := files }

theorem OwnFiles.of_device (h : DeviceOnly k k') : OwnFiles k k' := by
  refine ⟨h.counter, h.paging, h.esp0, k.current.fileArray, ?_⟩
  rw [h.pcb]
  exact (Function.update_eq_self _ _).symm

theorem OwnFiles.refl (k : State) : OwnFiles k k := .of_device (.refl k)

theorem OwnFiles.setFile (h : OwnFiles k k') (fd : Fin 8) (f : FileDescriptor) :
    OwnFiles k (k'.setFile fd f) := by
  obtain ⟨hc, hp, he, files, hpcb⟩ := h
  refine ⟨hc, hp, he, Function.update files fd f, ?_⟩
  unfold State.setFile State.current
  rw [hc, hpcb]
  simp
  rfl

/-- PCBs other than the running process's are not touched. -/
theorem OwnFiles.pcb_of_ne (h : OwnFiles k k') {a : Nat} (ha : a ≠ pcbAddr k.counter) :
    k'.pcb a = k.pcb a := by
  obtain ⟨files, hpcb⟩ := h.pcb
  rw [hpcb, Function.update_of_ne ha]

theorem OwnFiles.pid (h : OwnFiles k k') (a : Nat) : (k'.pcb a).pid = (k.pcb a).pid := by
  obtain ⟨files, hpcb⟩ := h.pcb
  by_cases ha : a = pcbAddr k.counter
  · rw [hpcb, ha, Function.update_self]
    rfl
  · rw [h.pcb_of_ne ha]

theorem OwnFiles.parentPid (h : OwnFiles k k') (a : Nat) :
    (k'.pcb a).parentPid = (k.pcb a).parentPid := by
  obtain ⟨files, hpcb⟩ := h.pcb
  by_cases ha : a = pcbAddr k.counter
  · rw [hpcb, ha, Function.update_self]
    rfl
  · rw [h.pcb_of_ne ha]

variable {r : Reply}

theorem read_own {fd : Int} {buf : Nat} {nbytes : Int}
    (h : Kernel.read img k fd buf nbytes = .ok (k', r)) : OwnFiles k k' := by
  cases read_inv h with
  | refused h => exact .refl k
  | done h ht hfn hcall => exact (OwnFiles.of_device (callRead_device hcall)).setFile _ _

theorem openFile_own {filename : CString} (h : openFile img k filename = .ok (k', r)) :
    OwnFiles k k' := by
  cases openFile_inv h with
  | stdin => exact (OwnFiles.refl k).setFile _ _
  | stdout => exact (OwnFiles.refl k).setFile _ _
  | refused => exact .refl k
  | opened hd h2 hfree => exact (OwnFiles.refl k).setFile _ _

theorem close_own {fd : Int} (h : close k fd = .ok (k', r)) : OwnFiles k k' := by
  cases close_inv h with
  | refused h => exact .refl k
  | closed h => exact (OwnFiles.refl k).setFile _ _

/-- Calls that leave the stack and the address spaces alone; a `vidmap` does when it is refused. -/
def Quiet : Call → Reply → Prop
  | .halt _, _ => False
  | .execute _, _ => False
  | .vidmap _, r => r = .ret (-1) []
  | _, _ => True

/-- **The four things a step can do to the processes.** -/
inductive Effect (L : Layout) (img : Image) (k : State) : Call → State → Reply → Prop
  | halted {status : UInt8} {k' : State} {r : Reply} (h : halt L k status = (k', r)) :
      Effect L img k (.halt status) k' r
  | executed {e : ExecArgs} {k' : State} {r : Reply} (h : Execution L img k e k' r) :
      Effect L img k (.execute e) k' r
  | mapped {screenStart : Nat} (h : 0x08000000 ≤ screenStart ∧ screenStart < 0x08400000) :
      Effect L img k (.vidmap screenStart) { k with paging := mapVideo L k.counter k.paging }
        (.ret 0 [0x00, 0x00, 0x40, 0x08])
  | own {c : Call} {k' : State} {r : Reply} (hc : Quiet c r) (h : OwnFiles k k') :
      Effect L img k c k' r

theorem step_effect {c : Call} (h : step L img k c = .ok (k', r)) : Effect L img k c k' r := by
  cases c with
  | halt status => exact .halted (Except.ok.inj h)
  | execute e => exact .executed (execute_inv h)
  | read fd buf nbytes => exact .own trivial (read_own h)
  | write fd buf data nbytes => exact .own trivial (.of_device (write_inv h).device)
  | openFile filename => exact .own trivial (openFile_own h)
  | close fd => exact .own trivial (close_own h)
  | getargs buf nbytes =>
    refine .own trivial ?_
    simp only [step, getargs] at h
    split at h <;> (cases h; exact .refl k)
  | vidmap screenStart =>
    simp only [step, vidmap] at h
    split at h
    · cases h
      exact .own rfl (.refl k)
    · cases h
      exact .mapped (by omega)
  | setHandler =>
    cases h
    exact .own trivial (.refl k)
  | sigreturn =>
    cases h
    exact .own trivial (.refl k)
  | invalid =>
    cases h
    exact .own trivial (.refl k)
  | key sc text =>
    cases h
    exact .own trivial (.of_device ⟨rfl, rfl, rfl, rfl⟩)

/-! ## Starting a process -/

theorem pcbAddr_ne {i j : Nat} (hi : i ≤ 6) (hj : j ≤ 6) (hij : i ≠ j) : pcbAddr i ≠ pcbAddr j := by
  unfold pcbAddr
  omega

/-- Masking the low 13 bits of a stack pointer finds the PCB below it. -/
theorem land_stack_mask {c esp : Nat} (hc : c ≤ 6) (h : pcbAddr c ≤ esp)
    (h' : esp < pcbAddr c + 0x2000) : esp &&& 0xffffe000 = pcbAddr c := by
  unfold pcbAddr at h h' ⊢
  have hmask : (0xffffe000 : Nat) = (2 ^ (32 - 13) - 1) * 2 ^ 13 := by decide
  rw [hmask, land_high_mask (by omega) (by omega)]
  omega

section Launched

variable (L k) (e : ExecArgs) (arg : List UInt8) (entry : Nat)

@[simp] theorem launched_counter : (launched L k e arg entry).counter = k.counter + 1 := rfl

@[simp] theorem launched_esp0 : (launched L k e arg entry).esp0 = kernelEsp0 (k.counter + 1) := rfl

@[simp] theorem launched_paging :
    (launched L k e arg entry).paging = createPaging L (k.counter + 1) k.paging := rfl

/-- A start leaves every other PCB alone. -/
theorem launched_pcb_of_ne {a : Nat} (ha : a ≠ pcbAddr (k.counter + 1)) :
    (launched L k e arg entry).pcb a = k.pcb a := by
  unfold launched startProcess enterProcess
  simp only
  rw [Function.update_of_ne ha, Function.update_of_ne ha]

/-- The PCB a start makes owes nothing to what the slot held. -/
theorem launched_pcb_self
    (he : k.counter = 0 ∨ e.esp &&& 0xffffe000 ≠ pcbAddr (k.counter + 1)) :
    (launched L k e arg entry).pcb (pcbAddr (k.counter + 1)) =
      { pid := (k.counter + 1) % 256
        parentPid := if k.counter = 0 then 0 else (k.pcb (e.esp &&& 0xffffe000)).pid
        parentKernelSp := e.esp
        parentKernelBp := e.ebp
        fileArray := freshFiles
        arg := store (fun _ => 0) 0 (strncpy (fun i => arg.getD i 0) arg.length) } := by
  unfold launched startProcess enterProcess
  simp only
  rw [Function.update_self]
  rcases he with he | he
  · rw [if_pos he, if_pos (by omega)]
  · rw [Function.update_of_ne he]
    simp only [Nat.add_eq_right]

end Launched

theorem halt_pcb (L : Layout) (k : State) (status : UInt8) : (halt L k status).1.pcb = k.pcb := by
  unfold halt
  simp only
  split <;> rfl

/-- **Frame of `execute`**: the PCBs that are not the next process's. -/
theorem Execution.pcb_of_ne {e : ExecArgs} (h : Execution L img k e k' r) {a : Nat}
    (ha : k.counter < 6 → a ≠ pcbAddr (k.counter + 1)) : k'.pcb a = k.pcb a := by
  cases h with
  | full hk => rfl
  | null hk hc => rfl
  | rejected hk hc harg hh => rfl
  | unloadable hk hc harg hh hl => rfl
  | started hk hc harg hh hr hl => exact launched_pcb_of_ne _ _ _ _ _ (ha hk)

/-- **Frame of a step**: the PCBs that are neither the running process's nor the next one's. -/
theorem Effect.pcb_of_ne {c : Call} (h : Effect L img k c k' r) {a : Nat}
    (ha : a ≠ pcbAddr k.counter) (ha' : a ≠ pcbAddr (k.counter + 1)) : k'.pcb a = k.pcb a := by
  cases h with
  | @halted status _ _ hh => rw [← halt_pcb L k status, hh]
  | executed hx => exact hx.pcb_of_ne fun _ => ha'
  | mapped ha => rfl
  | own hc ho => exact ho.pcb_of_ne ha

/-- No step takes `counter` past 6, whatever the image. -/
theorem Effect.counter_le {c : Call} (h : Effect L img k c k' r) (hk : k.counter ≤ 6) :
    k'.counter ≤ 6 := by
  cases h with
  | halted hh =>
    unfold halt at hh
    simp only at hh
    split at hh
    · cases hh
      exact hk
    · cases hh
      exact (Nat.sub_le _ _).trans hk
  | executed hx =>
    cases hx with
    | full hk' => exact hk
    | null hk' hc => exact hk
    | rejected hk' hc ha hh => exact hk
    | unloadable hk' hc ha hh hl => exact hk'
    | started hk' hc ha hh hr hl => exact hk'
  | mapped ha => exact hk
  | own hc ho =>
    rw [ho.counter]
    exact hk

theorem reaches_counter_le {tr : List Event} (h : Reaches L img tr k) : k.counter ≤ 6 := by
  obtain ⟨k₀, ⟨kb, e, entry, hb, -, hx⟩, ht⟩ := h
  refine ht.invariant (I := fun k => k.counter ≤ 6) ?_ ?_
  · exact fun s ev t hs hst => (step_effect hst.2.2).counter_le hs
  · refine (Effect.executed (execute_inv hx)).counter_le ?_
    rw [hb.counter_zero]
    exact Nat.zero_le _

/-- On an image whose files can be loaded, a program with a good header is loaded. -/
theorem EntriesOk.fileLoad_ne (himg : EntriesOk img) {e : ExecArgs} {name : CString}
    (hh : HeaderOk img e name) : (fileLoad img name).1 ≠ -1 := by
  have hread := hh.2
  rw [Ne, fileRead_fails_iff img localBuf_ne_zero] at hread
  unfold FileReadFails at hread
  rw [not_or, not_or] at hread
  obtain ⟨-, hfound, -⟩ := hread
  obtain ⟨d, hd⟩ := Option.ne_none_iff_exists'.mp hfound
  obtain ⟨i, hi, -, hne, rfl⟩ := readDentryByName_named hd
  rw [fileLoad_found hd]
  rw [Ne, readData_fails_iff]
  rintro ⟨hpos, hbad | ⟨b, hbad, hb | ⟨-, hb, -⟩⟩⟩
  · exact absurd (himg.inode_lt i hi hne) (by simpa [dentryCopy] using hbad)
  all_goals
    have := himg.block_lt i hi hne b (by simp only [dentryCopy] at *; omega)
    simp only [dentryCopy] at hbad
    omega

/-- The processes are stacked; nothing is said of CR3 and `tss.esp0`. At boot there is none. -/
structure Stacked (k : State) : Prop where
  pid_eq : ∀ j, 1 ≤ j → j ≤ k.counter → (k.pcb (pcbAddr j)).pid = j
  parentPid_eq : ∀ j, 1 ≤ j → j ≤ k.counter → (k.pcb (pcbAddr j)).parentPid = j - 1

theorem StackInv.stacked (h : StackInv L k) : Stacked k := ⟨h.pid_eq, h.parentPid_eq⟩

/-- **Starting a process puts it on top.** -/
theorem launched_stackInv {e : ExecArgs} {arg : List UInt8} {entry : Nat} (hk : k.counter < 6)
    (h : Stacked k) (hesp : 1 ≤ k.counter → EspOk k (.execute e)) :
    StackInv L (launched L k e arg entry) := by
  have hmask : k.counter = 0 ∨ e.esp &&& 0xffffe000 = pcbAddr k.counter := by
    rcases Nat.eq_zero_or_pos k.counter with h0 | h0
    · exact Or.inl h0
    · exact Or.inr (land_stack_mask (by omega) (hesp h0).1 (hesp h0).2)
  have hself := launched_pcb_self L k e arg entry
    (hmask.imp_right fun hm => by rw [hm]; exact pcbAddr_ne (by omega) (by omega) (by omega))
  have hbelow : ∀ j, j ≤ k.counter →
      (launched L k e arg entry).pcb (pcbAddr j) = k.pcb (pcbAddr j) := fun j hj =>
    launched_pcb_of_ne L k e arg entry (pcbAddr_ne (by omega) (by omega) (by omega))
  refine ⟨by simp, by rw [launched_counter]; omega, ?_, ?_, ?_, ?_⟩
  · intro j hj hj'
    rw [launched_counter] at hj'
    rcases Nat.lt_or_ge k.counter j with hlt | hle
    · obtain rfl : j = k.counter + 1 := by omega
      rw [hself]
      exact Nat.mod_eq_of_lt (by omega)
    · rw [hbelow j hle, h.pid_eq j hj hle]
  · intro j hj hj'
    rw [launched_counter] at hj'
    rcases Nat.lt_or_ge k.counter j with hlt | hle
    · obtain rfl : j = k.counter + 1 := by omega
      rw [hself]
      simp only
      split
      · omega
      · rename_i h0
        rw [hmask.resolve_left h0, h.pid_eq _ (by omega) (by omega)]
        rfl
    · rw [hbelow j hle, h.parentPid_eq j hj hle]
  · rw [launched_paging, launched_counter]
    unfold createPaging
    rw [if_neg (by omega)]
    simp only
    rw [show ((k.counter + 1 : Nat) : Int) - 1 = ((k.counter : Nat) : Int) by omega,
      loadCr3_dirAddr hk]
    rfl
  · rw [launched_esp0, launched_counter]
    unfold kernelEsp0
    omega

/-! ## The invariant over runs -/

theorem StackInv.of_own (h : StackInv L k) (ho : OwnFiles k k') : StackInv L k' := by
  obtain ⟨h1, h2, h3, h4, h5, h6⟩ := h
  refine ⟨?_, ?_, ?_, ?_, ?_, ?_⟩
  · rwa [ho.counter]
  · rwa [ho.counter]
  · intro j hj hj'
    rw [ho.pid, h3 j hj (ho.counter ▸ hj')]
  · intro j hj hj'
    rw [ho.parentPid, h4 j hj (ho.counter ▸ hj')]
  · rw [ho.paging, h5, ho.counter]
  · rw [ho.esp0, h6, ho.counter]

/-- `halt` in the shell starts it again; `halt` above it returns to the process below. -/
theorem halt_eq (h : StackInv L k) (status : UInt8) :
    halt L k status =
      if k.counter = 1 then
        ({ k with keyboard := { k.keyboard with screen := clearScreen k.keyboard.screen } },
          .iret k.shellEntryAddr)
      else
        ({ k with
            counter := k.counter - 1
            paging := { k.paging with cr3 := L.pageDirectories + 4096 * (k.counter - 2) }
            esp0 := kernelEsp0 (k.counter - 1) },
          .resume k.current.parentKernelSp k.current.parentKernelBp) := by
  have h1 := h.counter_pos
  have h6 := h.counter_le
  unfold halt
  simp only
  have hpid : k.current.pid = k.counter := h.pid_eq _ h1 le_rfl
  have hpar : k.current.parentPid = k.counter - 1 := h.parentPid_eq _ h1 le_rfl
  rw [hpid, hpar]
  by_cases hone : k.counter = 1
  · rw [if_pos hone, if_pos hone]
  · rw [if_neg hone, if_neg hone,
      show ((k.counter - 1 : Nat) : Int) - 1 = ((k.counter - 2 : Nat) : Int) by omega,
      loadCr3_dirAddr (by omega)]

/-- The `halt` of a process above the shell, as a step. -/
theorem StackInv.halts (img : Image) (h : StackInv L k) (hk : 1 < k.counter) (status : UInt8) :
    ∃ k', KStep L img k ⟨k.counter, .halt status,
      .resume k.current.parentKernelSp k.current.parentKernelBp⟩ k' ∧
      k'.counter = k.counter - 1 := by
  have hh := halt_eq h status
  rw [if_neg (by omega)] at hh
  exact ⟨_, ⟨rfl, ⟨trivial, Or.inl rfl⟩, congrArg Except.ok hh⟩, rfl⟩

theorem StackInv.step {ev : Event} (himg : EntriesOk img) (h : StackInv L k)
    (hs : KStep L img k ev k') : StackInv L k' := by
  obtain ⟨-, hesp, hstep⟩ := hs
  obtain ⟨pid, c, r⟩ := ev
  cases step_effect hstep with
  | halted hh =>
    rw [halt_eq h] at hh
    split at hh
    · cases hh
      exact h.of_own (.of_device ⟨rfl, rfl, rfl, rfl⟩)
    · cases hh
      obtain ⟨h1, h2, h3, h4, h5, h6⟩ := h
      refine ⟨by simp only; omega, by simp only; omega, ?_, ?_, ?_, ?_⟩
      · exact fun j hj hj' => h3 j hj (hj'.trans (Nat.sub_le _ _))
      · exact fun j hj hj' => h4 j hj (hj'.trans (Nat.sub_le _ _))
      · rfl
      · simp only [kernelEsp0]
        omega
  | executed hx =>
    cases hx with
    | full hk => exact h.of_own (.of_device ⟨rfl, rfl, rfl, rfl⟩)
    | null hk hc => exact h
    | rejected hk hc ha hh => exact h.of_own (.of_device ⟨rfl, rfl, rfl, rfl⟩)
    | unloadable hk hc ha hh hl => exact absurd hl.2 (himg.fileLoad_ne hh)
    | started hk hc ha hh hr hl => exact launched_stackInv hk h.stacked fun _ => hesp.1
  | mapped ha => exact ⟨h.1, h.2, h.3, h.4, h.5, h.6⟩
  | own hc ho => exact h.of_own ho

theorem booted_stackInv (h : Booted L img k) : StackInv L k := by
  obtain ⟨k0, e, entry, hb, -, hx⟩ := h
  have h0 := hb.counter_zero
  have hst : Stacked k0 := ⟨fun j hj hj' => by omega, fun j hj hj' => by omega⟩
  cases execute_inv hx with
  | started hk hc ha hh hr hl => exact launched_stackInv hk hst fun _ => by omega

/-- **Every reachable state is a stack of processes.** -/
theorem reaches_stackInv (himg : EntriesOk img) {tr : List Event} (h : Reaches L img tr k) :
    StackInv L k := by
  obtain ⟨k0, hb, ht⟩ := h
  exact ht.invariant (fun s e t hs hst => hs.step himg hst) (booted_stackInv hb)

/-- What `execute` and `halt` do to the stack. -/
structure StackStep (k : State) (ev : Event) (k' : State) : Prop where
  /-- A successful `execute` pushes one process with a fresh descriptor table. -/
  pushed : ∀ e eip, ev.call = .execute e → ev.reply = .iret eip →
    k'.counter = k.counter + 1 ∧
    (∀ j, 1 ≤ j → j ≤ k.counter → k'.pcb (pcbAddr j) = k.pcb (pcbAddr j)) ∧
    (k'.file 0).flags = 1 ∧ (k'.file 1).flags = 1 ∧
    ∀ fd : Fin 8, 2 ≤ fd → (k'.file fd).flags = 0 ∧ (k'.file fd).fileposition = 0
  /-- Any other `execute` pushes nothing. -/
  refused : ∀ e v out, ev.call = .execute e → ev.reply = .ret v out → k'.counter = k.counter
  /-- With six processes, `execute` only prints its message. -/
  full : ∀ e, ev.call = .execute e → k.counter = 6 → ev.reply = .ret (-1) [] ∧
    k' = { k with keyboard := { k.keyboard with screen := puts k.keyboard.screen tooManyText } }
  popped : ∀ status, ev.call = .halt status → 1 < k.counter → k'.counter = k.counter - 1
  restarted : ∀ status, ev.call = .halt status → k.counter = 1 → k'.counter = 1

/-- The descriptor table of a process that was just launched. -/
theorem launched_file (L : Layout) (k : State) (e : ExecArgs) (arg : List UInt8) (entry : Nat) :
    (launched L k e arg entry).file = freshFiles := by
  rw [file_eq, launched_counter]
  unfold launched startProcess enterProcess
  simp only
  rw [Function.update_self]

theorem StackInv.stackStep {ev : Event} (himg : EntriesOk img) (h : StackInv L k)
    (hs : KStep L img k ev k') : StackStep k ev k' := by
  obtain ⟨-, hesp, hstep⟩ := hs
  obtain ⟨pid, c, r⟩ := ev
  cases step_effect hstep with
  | halted hh =>
    have hk' : k'.counter = if k.counter = 1 then 1 else k.counter - 1 := by
      rw [halt_eq h] at hh
      split at hh <;> (cases hh; simp_all)
    refine ⟨nofun, nofun, nofun, ?_, ?_⟩
    · intro _ _ hk
      rw [hk', if_neg (by omega)]
    · intro _ _ hk
      rw [hk', if_pos hk]
  | executed hx =>
    cases hx with
    | full hk => exact ⟨nofun, fun _ _ _ _ _ => rfl, fun _ _ _ => ⟨rfl, rfl⟩, nofun, nofun⟩
    | null hk hc =>
      exact ⟨nofun, fun _ _ _ _ _ => rfl, fun _ _ hk' => absurd hk' (by omega), nofun, nofun⟩
    | rejected hk hc ha hh =>
      exact ⟨nofun, fun _ _ _ _ _ => rfl, fun _ _ hk' => absurd hk' (by omega), nofun, nofun⟩
    | unloadable hk hc ha hh hl => exact absurd hl.2 (himg.fileLoad_ne hh)
    | started hk hc ha hh hr hl =>
      refine ⟨fun _ _ _ _ => ⟨rfl, ?_, ?_⟩, nofun, fun _ _ hk' => absurd hk' (by omega), nofun,
        nofun⟩
      · intro j _ hj
        exact launched_pcb_of_ne _ _ _ _ _ (pcbAddr_ne (by omega) (by omega) (by omega))
      · rw [launched_file]
        exact ⟨rfl, rfl, by decide⟩
  | mapped ha => exact ⟨nofun, nofun, nofun, nofun, nofun⟩
  | own hc ho =>
    refine ⟨?_, ?_, ?_, ?_, ?_⟩ <;> (intros; simp_all [Quiet])

/-- **The process stack**: in every state a booted system reaches the processes are stacked, and
every further step works on the stack as `StackStep` says. -/
theorem process_stack (L : Layout) (img : Image) (himg : EntriesOk img) (tr : List Event)
    (k : State) (h : Reaches L img tr k) :
    StackInv L k ∧ ∀ ev k', KStep L img k ev k' → StackStep k ev k' := by
  have hinv := reaches_stackInv himg h
  exact ⟨hinv, fun ev k' hs => hinv.stackStep himg hs⟩

/-- The small image with both blocks in place can be loaded. -/
theorem demoImage_entriesOk : EntriesOk (demoImage 1) := by
  have hnames : ∀ i < sizeFsDentries, (demoImage 1).filename i ≠ CString.empty → i < 3 := by
    decide
  refine ⟨?_, ?_⟩
  · have hinode : ∀ i < 3, (demoImage 1).dentryInode i < (demoImage 1).inodesNum := by
      decide
    exact fun i hi hne => hinode i (hnames i hi hne)
  · intro i hi hne b hb
    have hlen : ∀ i < 3, (demoImage 1).inodeLength ((demoImage 1).dentryInode i) ≤ 4097 := by
      decide
    have hblock : ∀ i < 3, ∀ b < 2, (demoImage 1).dataBlock ((demoImage 1).dentryInode i) b <
        (demoImage 1).datablocksNum := by
      decide
    have := hlen i (hnames i hi hne)
    exact hblock i (hnames i hi hne) b (by omega)

/-- The shell starts a second one, which halts. -/
theorem process_stack_shell : ∃ k, Trace (KStep demoLayout (demoImage 1)) demoShell
      [⟨1, .execute (demoArgs shellText 0x7fff00), .iret 0x08048080⟩,
        ⟨2, .halt 0, .resume 0x7fff00 0x7fff00⟩] k ∧
    StackInv demoLayout k ∧
      ∀ ev k', KStep demoLayout (demoImage 1) k ev k' → StackStep k ev k' := by
  have hstart : KStep demoLayout (demoImage 1) demoShell
      ⟨1, .execute (demoArgs shellText 0x7fff00), .iret 0x08048080⟩
      (launched demoLayout demoShell (demoArgs shellText 0x7fff00) [] 0x08048080) :=
    ⟨rfl, ⟨⟨by decide, by decide⟩, Or.inl rfl⟩, shell_started (by decide) _ (Or.inl rfl)⟩
  have hboot : Booted demoLayout (demoImage 1) demoShell := demoShell_booted (Or.inl rfl)
  have hstack := reaches_stackInv demoImage_entriesOk ⟨_, hboot, .single hstart⟩
  obtain ⟨k, hhalt, -⟩ := hstack.halts (demoImage 1) (by decide) 0
  have hrun := Trace.cons hstart (.single hhalt)
  exact ⟨k, hrun, process_stack demoLayout (demoImage 1) demoImage_entriesOk _ k ⟨_, hboot, hrun⟩⟩

/-- Right after boot the shell, which has no argument, calls `getargs(0x7FE000, 1)`: the NUL goes
over the `pid` of its own PCB, and its next `halt` takes it for a child. -/
theorem getargs_over_pid : EntriesOk (demoImage 1) ∧ Booted demoLayout (demoImage 1) demoShell ∧
    ∃ k, RawStep demoLayout (demoImage 1) demoShell ⟨1, .getargs 0x7FE000 1, .ret 0 [0]⟩ k ∧
      ¬ StackInv demoLayout k ∧ (halt demoLayout k 0).1.counter = 0 := by
  have hgetargs : getargs demoShell 0x7FE000 1 = (demoShell, .ret 0 [0]) := by
    unfold getargs
    rw [if_neg (by decide)]
    exact congrArg (fun out => (demoShell, Reply.ret 0 out)) (by decide)
  refine ⟨demoImage_entriesOk, demoShell_booted (Or.inl rfl), _, ⟨rfl, trivial, ?_, demoShell,
    congrArg Except.ok hgetargs, rfl⟩, fun h => ?_, by decide⟩
  · rintro ⟨i, hi, hle, -⟩
    have hpcb : pcbAddr demoShell.counter = 0x7FE000 := by decide
    simp only [List.length_singleton] at hi
    omega
  · have hpid := h.pid_eq 1 le_rfl (by decide)
    revert hpid
    decide

end MyOS.Process
