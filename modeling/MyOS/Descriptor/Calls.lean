import MyOS.Kernel.Syscall

/-!
# What `open`, `read`, `write` and `close` do to a descriptor table

One list of outcomes per call, each with the state it leaves: `Opening`, `Reading`, `Writing`,
`Closing`. The inversion theorems `openFile_inv`, `read_inv`, `write_inv`, `close_inv` say that a
call that returns is one of them; results about descriptors use these and never unfold the calls.

* `Checked k c`: the call gets past its own checks of `fd`, `buf` and `flags`.
* `Dispatches k c`: the entry it then calls through is not `NULL`.
* `pageFault_iff`: a checked call through `NULL` is the page fault of the model.
* `step_bystander`: the calls that work on no PCB at all.
* **`step_bufOk`**: a call whose buffer has room for what it may store keeps to the program's page.
-/

namespace MyOS.Descriptor

open MyOS.Machine MyOS.Kernel

variable {L : Layout} {img : Image} {k k' : State} {r : Reply}

/-! ## The table of the running process -/

theorem file_eq (k : State) : k.file = (k.pcb (pcbAddr k.counter)).fileArray := rfl

@[simp] theorem setFile_counter (fd : Fin 8) (f : FileDescriptor) :
    (k.setFile fd f).counter = k.counter := rfl

theorem setFile_pcb (fd : Fin 8) (f : FileDescriptor) :
    (k.setFile fd f).pcb = Function.update k.pcb (pcbAddr k.counter)
      { k.current with fileArray := Function.update k.file fd f } := rfl

@[simp] theorem file_setFile (fd : Fin 8) (f : FileDescriptor) :
    (k.setFile fd f).file = Function.update k.file fd f := by
  rw [file_eq, setFile_counter, setFile_pcb, Function.update_self]

theorem file_setFile_self (fd : Fin 8) (f : FileDescriptor) : (k.setFile fd f).file fd = f := by
  rw [file_setFile, Function.update_self]

/-- The last store to a descriptor counts. -/
theorem setFile_setFile (fd : Fin 8) (f g : FileDescriptor) :
    (k.setFile fd f).setFile fd g = k.setFile fd g := by
  unfold State.setFile State.current
  simp

theorem setFile_self (fd : Fin 8) : k.setFile fd (k.file fd) = k := by
  unfold State.setFile State.file State.current
  simp

/-- Only devices changed: the screen, the keyboard, the clock, the scan of the directory. -/
structure DeviceOnly (k k' : State) : Prop where
  counter : k'.counter = k.counter
  paging : k'.paging = k.paging
  esp0 : k'.esp0 = k.esp0
  pcb : k'.pcb = k.pcb

theorem DeviceOnly.refl (k : State) : DeviceOnly k k := ⟨rfl, rfl, rfl, rfl⟩

theorem DeviceOnly.file (h : DeviceOnly k k') : k'.file = k.file := by
  rw [file_eq, file_eq, h.counter, h.pcb]

theorem fdIndex_val {fd : Int} (h : 0 ≤ fd) (h' : fd ≤ 7) : ((fdIndex fd).val : Int) = fd := by
  unfold fdIndex
  simp only [Fin.ofNat]
  omega

theorem two_le_fdIndex {fd : Int} (h : 2 ≤ fd) (h' : fd ≤ 7) : 2 ≤ fdIndex fd := by
  have := fdIndex_val (by omega) h'
  change 2 ≤ (fdIndex fd).val
  omega

theorem fdIndex_natCast (i : Fin 8) : fdIndex (i.val : Int) = i := by
  apply Fin.ext
  have : ((fdIndex (i.val : Int)).val : Int) = i.val := fdIndex_val (by omega) (by omega)
  omega

/-! ## Checks and dispatch -/

/-- The call gets past its own checks. -/
def Checked (k : State) : Call → Prop
  | .read fd buf _ => 0 ≤ fd ∧ fd ≤ 7 ∧ buf ≠ 0 ∧ (k.file (fdIndex fd)).flags ≠ 0
  | .write fd buf _ _ => 0 ≤ fd ∧ fd ≤ 7 ∧ buf ≠ 0 ∧ (k.file (fdIndex fd)).flags ≠ 0
  | .close fd => 2 ≤ fd ∧ fd ≤ 7 ∧ (k.file (fdIndex fd)).flags = 1
  | _ => False

/-- The entry the call dispatches through is not `NULL`. -/
def Dispatches (k : State) : Call → Prop
  | .read fd _ _ => ∃ t fn, (k.file (fdIndex fd)).fileOperation = some t ∧ t.read = some fn
  | .write fd _ _ _ => ∃ t fn, (k.file (fdIndex fd)).fileOperation = some t ∧ t.write = some fn
  | .close fd => ∃ t fn, (k.file (fdIndex fd)).fileOperation = some t ∧ t.close = some fn
  | _ => True

/-! ## `read` -/

/-- **The ways `read` returns.** -/
inductive Reading (img : Image) (k : State) (fd : Int) (buf : Nat) (nbytes : Int) :
    State → Reply → Prop
  | refused (h : ¬ Checked k (.read fd buf nbytes)) : Reading img k fd buf nbytes k (.ret (-1) [])
  /-- The device answers; its value is added to the position. -/
  | done {t : OpTable} {fn : ReadFn} {k₁ : State} {v : Int} {out : List UInt8}
      (h : Checked k (.read fd buf nbytes)) (ht : (k.file (fdIndex fd)).fileOperation = some t)
      (hfn : t.read = some fn)
      (hcall : callRead img k (k.file (fdIndex fd)) buf nbytes fn = .ok (k₁, v, out)) :
      Reading img k fd buf nbytes
        (k₁.setFile (fdIndex fd) { k.file (fdIndex fd) with
          fileposition := toUInt32 (((k.file (fdIndex fd)).fileposition : Int) + v) })
        (.ret v out)

theorem read_inv {fd : Int} {buf : Nat} {nbytes : Int}
    (h : Kernel.read img k fd buf nbytes = .ok (k', r)) : Reading img k fd buf nbytes k' r := by
  unfold Kernel.read at h
  split at h
  · rename_i hfd
    cases h
    exact .refused fun hc => by simp only [Checked] at hc; omega
  · rename_i hfd
    simp only at h
    split at h
    · rename_i hflags
      cases h
      exact .refused fun hc => hc.2.2.2 hflags
    · rename_i hflags
      split at h
      · cases h
      · rename_i fn hop
        split at h
        · cases h
        · rename_i hcall
          cases h
          obtain ⟨t, ht, hfn⟩ := Option.bind_eq_some_iff.mp hop
          exact .done ⟨by omega, by omega, by omega, hflags⟩ ht hfn hcall

theorem Reading.read_eq {fd : Int} {buf : Nat} {nbytes : Int}
    (h : Reading img k fd buf nbytes k' r) : Kernel.read img k fd buf nbytes = .ok (k', r) := by
  unfold Kernel.read
  cases h with
  | refused h =>
    split
    · rfl
    · rename_i hfd
      simp only
      rw [if_pos]
      by_contra hflags
      exact h ⟨by omega, by omega, by omega, hflags⟩
  | done h ht hfn hcall =>
    obtain ⟨h0, h7, hb, hflags⟩ := h
    rw [if_neg (by omega)]
    simp only
    rw [if_neg hflags, ht]
    simp only [Option.bind_some, hfn, hcall]

/-- A `read` of a descriptor in use, with a buffer, passes its checks. -/
theorem checked_read {i : Fin 8} (hflags : (k.file i).flags ≠ 0) {buf : Nat} (hbuf : buf ≠ 0)
    (nbytes : Int) : Checked k (.read i.val buf nbytes) := by
  refine ⟨by omega, by omega, hbuf, ?_⟩
  rwa [fdIndex_natCast]

/-- A `read` without a buffer is refused. -/
theorem read_null (img : Image) (k : State) (fd nbytes : Int) :
    Kernel.read img k fd 0 nbytes = .ok (k, .ret (-1) []) :=
  (Reading.refused fun hc => hc.2.2.1 rfl).read_eq

/-- What the device of a `read` changes: the keyboard, and the scan if it is the directory's. -/
theorem callRead_inv {f : FileDescriptor} {buf : Nat} {nbytes : Int} {fn : ReadFn} {v : Int}
    {out : List UInt8} (h : callRead img k f buf nbytes fn = .ok (k', v, out)) :
    ∃ kb n, k' = { k with keyboard := kb, entryCounter := n } ∧
      (fn ≠ .directoryRead → n = k.entryCounter) := by
  cases fn with
  | terminalRead =>
    simp only [callRead] at h
    split at h
    · cases h
    · cases h
      exact ⟨_, _, rfl, fun _ => rfl⟩
  | rtcRead =>
    cases h
    exact ⟨_, _, rfl, fun _ => rfl⟩
  | fileRead =>
    cases h
    exact ⟨_, _, rfl, fun _ => rfl⟩
  | directoryRead =>
    cases h
    exact ⟨_, _, rfl, fun hn => absurd rfl hn⟩

theorem callRead_device {f : FileDescriptor} {buf : Nat} {nbytes : Int} {fn : ReadFn} {v : Int}
    {out : List UInt8} (h : callRead img k f buf nbytes fn = .ok (k', v, out)) :
    DeviceOnly k k' := by
  obtain ⟨kb, n, rfl, -⟩ := callRead_inv h
  exact ⟨rfl, rfl, rfl, rfl⟩

/-- A device stores at most the count asked for, or the 33 bytes of a name. -/
theorem length_callRead_le {f : FileDescriptor} {buf : Nat} {nbytes : Int} {fn : ReadFn} {v : Int}
    {out : List UInt8} (h : callRead img k f buf nbytes fn = .ok (k', v, out)) :
    out.length ≤ max 33 (max nbytes.toNat (toUInt32 nbytes)) := by
  cases fn with
  | terminalRead =>
    simp only [callRead] at h
    split at h
    · cases h
    · rename_i hread
      cases h
      unfold terminalRead at hread
      split at hread
      · cases hread
        have := List.length_take_le nbytes.toNat (stored k.keyboard)
        omega
      · cases hread
  | rtcRead =>
    cases h
    exact Nat.zero_le _
  | fileRead =>
    cases h
    unfold fileRead
    split
    · exact Nat.zero_le _
    · split
      · exact Nat.zero_le _
      · rename_i d hd
        have := length_readData_le img d.inode f.fileposition (toUInt32 nbytes)
        omega
  | directoryRead =>
    cases h
    by_cases hend : k.entryCounter < img.dirCount
    · have hname : (img.shortName k.entryCounter).bytes.length ≤ 32 := List.length_take_le _ _
      rw [directoryRead_entry hend, List.length_append, List.length_replicate]
      change _ + (33 - (img.shortName k.entryCounter).bytes.length) ≤ _
      omega
    · rw [directoryRead_end (by omega), List.length_replicate]
      exact le_max_left _ _

/-! ## `write` -/

/-- **The ways `write` returns.** -/
inductive Writing (k : State) (fd : Int) (buf : Nat) (data : Mem) (nbytes : Int) :
    State → Reply → Prop
  | refused (h : ¬ Checked k (.write fd buf data nbytes)) :
      Writing k fd buf data nbytes k (.ret (-1) [])
  | done {t : OpTable} {fn : WriteFn} {k₁ : State} {v : Int}
      (h : Checked k (.write fd buf data nbytes))
      (ht : (k.file (fdIndex fd)).fileOperation = some t) (hfn : t.write = some fn)
      (hcall : callWrite k data nbytes fn = .ok (k₁, v)) :
      Writing k fd buf data nbytes k₁ (.ret v [])

theorem write_inv {fd : Int} {buf : Nat} {data : Mem} {nbytes : Int}
    (h : write k fd buf data nbytes = .ok (k', r)) : Writing k fd buf data nbytes k' r := by
  unfold write at h
  split at h
  · rename_i hfd
    cases h
    exact .refused fun hc => by simp only [Checked] at hc; omega
  · rename_i hfd
    simp only at h
    split at h
    · rename_i hflags
      cases h
      exact .refused fun hc => hc.2.2.2 hflags
    · rename_i hflags
      split at h
      · cases h
      · rename_i fn hop
        split at h
        · cases h
        · rename_i hcall
          cases h
          obtain ⟨t, ht, hfn⟩ := Option.bind_eq_some_iff.mp hop
          exact .done ⟨by omega, by omega, by omega, hflags⟩ ht hfn hcall

/-- What the device of a `write` changes: the keyboard or the clock. -/
theorem callWrite_inv {data : Mem} {nbytes : Int} {fn : WriteFn} {v : Int}
    (h : callWrite k data nbytes fn = .ok (k', v)) :
    ∃ kb a, k' = { k with keyboard := kb, rtcRegA := a } := by
  cases fn with
  | terminalWrite =>
    simp only [callWrite] at h
    split at h
    · cases h
    · cases h
      exact ⟨_, _, rfl⟩
  | rtcWrite =>
    cases h
    exact ⟨_, _, rfl⟩
  | fileWrite =>
    cases h
    exact ⟨_, _, rfl⟩
  | directoryWrite =>
    cases h
    exact ⟨_, _, rfl⟩

theorem Writing.devices {fd : Int} {buf : Nat} {data : Mem} {nbytes : Int}
    (h : Writing k fd buf data nbytes k' r) :
    ∃ kb a, k' = { k with keyboard := kb, rtcRegA := a } := by
  cases h with
  | refused h => exact ⟨_, _, rfl⟩
  | done h ht hfn hcall => exact callWrite_inv hcall

theorem Writing.device {fd : Int} {buf : Nat} {data : Mem} {nbytes : Int}
    (h : Writing k fd buf data nbytes k' r) : DeviceOnly k k' := by
  obtain ⟨kb, a, rfl⟩ := h.devices
  exact ⟨rfl, rfl, rfl, rfl⟩

/-! ## `open` -/

/-- **The ways `open` returns.** -/
inductive Opening (img : Image) (k : State) (filename : CString) : State → Reply → Prop
  | stdin : Opening img k filename
      (k.setFile 0 { k.file 0 with fileOperation := some .stdinT, flags := 1 }) (.ret 0 [])
  | stdout : Opening img k filename
      (k.setFile 1 { k.file 1 with fileOperation := some .stdoutT, flags := 1 }) (.ret 0 [])
  | refused : Opening img k filename k (.ret (-1) [])
  | opened {d : Dentry} {i : Fin 8} (hd : readDentryByName img filename = some d) (h2 : 2 ≤ i)
      (hfree : (k.file i).flags = 0) :
      Opening img k filename
        (k.setFile i
          { fileOperation := tableFor d.filetype (k.file i).fileOperation
            fileName := filename
            inode := d.inode
            fileposition := 0
            flags := 1 }) (.ret (i.val : Int) [])

theorem vacantFd_some {i : Fin 8} (h : vacantFd k = some i) : 2 ≤ i ∧ (k.file i).flags = 0 := by
  unfold vacantFd at h
  have hmem := List.mem_of_find?_eq_some h
  have hlist : ∀ i : Fin 8, i ∈ [2, 3, 4, 5, 6, 7] → 2 ≤ i := by decide
  exact ⟨hlist i hmem, by simpa using List.find?_some h⟩

theorem openFile_inv {filename : CString} (h : openFile img k filename = .ok (k', r)) :
    Opening img k filename k' r := by
  unfold openFile at h
  split at h
  · cases h
    exact .stdin
  · split at h
    · cases h
      exact .stdout
    · split at h
      · cases h
        exact .refused
      · rename_i d hd
        split at h
        · cases h
          exact .refused
        · rename_i i hi
          split at h
          · cases h
          · cases h
            exact .opened hd (vacantFd_some hi).1 (vacantFd_some hi).2

/-- `opened`, for a name that is not one of the two special ones and fits. -/
theorem openFile_eq {filename : CString} {d : Dentry} {i : Fin 8}
    (hin : strncmp stdinName.get filename.get 5 ≠ 0)
    (hout : strncmp stdoutName.get filename.get 5 ≠ 0)
    (hd : readDentryByName img filename = some d) (hi : vacantFd k = some i)
    (hlen : filename.length < 32) :
    openFile img k filename = .ok
      (k.setFile i
        { fileOperation := tableFor d.filetype (k.file i).fileOperation
          fileName := filename
          inode := d.inode
          fileposition := 0
          flags := 1 }, .ret (i.val : Int) []) := by
  unfold openFile
  rw [if_neg hin, if_neg hout, hd]
  simp only [hi]
  rw [if_neg (by omega)]

/-! ## `close` -/

/-- **The ways `close` returns.** -/
inductive Closing (k : State) (fd : Int) : State → Reply → Prop
  | refused (h : ¬ Checked k (.close fd)) : Closing k fd k (.ret (-1) [])
  | closed (h : Checked k (.close fd)) :
      Closing k fd (k.setFile (fdIndex fd) freeDescriptor) (.ret 0 [])

theorem close_inv {fd : Int} (h : close k fd = .ok (k', r)) : Closing k fd k' r := by
  unfold close at h
  split at h
  · rename_i hfd
    cases h
    exact .refused fun hc => by simp only [Checked] at hc; omega
  · rename_i hfd
    simp only at h
    split at h
    · rename_i hflags
      split at h
      · cases h
      · cases h
        exact .closed ⟨by omega, by omega, hflags⟩
    · rename_i hflags
      cases h
      exact .refused fun hc => hflags hc.2.2

/-- `closed`, when the entry called is there. -/
theorem close_eq {fd : Int} {t : OpTable} {fn : CloseFn} (h : Checked k (.close fd))
    (ht : (k.file (fdIndex fd)).fileOperation = some t) (hfn : t.close = some fn) :
    close k fd = .ok (k.setFile (fdIndex fd) freeDescriptor, .ret 0 []) := by
  obtain ⟨h2, h7, hflags⟩ := h
  unfold close
  rw [if_neg (by omega)]
  simp only
  rw [if_pos hflags, ht]
  simp only [Option.bind_some, hfn]

/-! ## Calls through `NULL` -/

theorem read_pageFault_iff {fd : Int} {buf : Nat} {nbytes : Int} :
    Kernel.read img k fd buf nbytes = .error .pageFault ↔
      Checked k (.read fd buf nbytes) ∧ ¬ Dispatches k (.read fd buf nbytes) := by
  by_cases hc : Checked k (.read fd buf nbytes)
  · have hc' := hc
    obtain ⟨h0, h7, hb, hflags⟩ := hc'
    unfold Kernel.read
    rw [if_neg (by omega)]
    simp only
    rw [if_neg hflags]
    simp only [hc, true_and, Dispatches]
    cases hop : (k.file (fdIndex fd)).fileOperation with
    | none => simp
    | some t =>
      cases t with
      | stdinT =>
        cases hread : terminalRead k.keyboard nbytes <;> simp [OpTable.read, callRead, hread]
      | stdoutT => simp [OpTable.read]
      | rtcT => simp [OpTable.read, callRead]
      | fileT => simp [OpTable.read, callRead]
      | directoryT => simp [OpTable.read, callRead]
  · rw [(Reading.refused hc).read_eq]
    simp [hc]

theorem write_pageFault_iff {fd : Int} {buf : Nat} {data : Mem} {nbytes : Int} :
    write k fd buf data nbytes = .error .pageFault ↔
      Checked k (.write fd buf data nbytes) ∧ ¬ Dispatches k (.write fd buf data nbytes) := by
  unfold write
  by_cases hfd : fd < 0 ∨ 7 < fd ∨ buf = 0
  · rw [if_pos hfd]
    simp only [Checked, reduceCtorEq, false_iff]
    omega
  · rw [if_neg hfd]
    simp only
    by_cases hflags : (k.file (fdIndex fd)).flags = 0
    · rw [if_pos hflags]
      simp [Checked, hflags]
    · rw [if_neg hflags]
      have hc : Checked k (.write fd buf data nbytes) := ⟨by omega, by omega, by omega, hflags⟩
      simp only [hc, true_and, Dispatches]
      cases hop : (k.file (fdIndex fd)).fileOperation with
      | none => simp
      | some t =>
        cases t with
        | stdinT => simp [OpTable.write]
        | stdoutT =>
          cases hwrite : terminalWrite k.keyboard data nbytes <;>
            simp [OpTable.write, callWrite, hwrite]
        | rtcT => simp [OpTable.write, callWrite]
        | fileT => simp [OpTable.write, callWrite]
        | directoryT => simp [OpTable.write, callWrite]

theorem close_pageFault_iff {fd : Int} :
    close k fd = .error .pageFault ↔ Checked k (.close fd) ∧ ¬ Dispatches k (.close fd) := by
  unfold close
  by_cases hfd : fd < 2 ∨ 7 < fd
  · rw [if_pos hfd]
    simp only [Checked, reduceCtorEq, false_iff]
    omega
  · rw [if_neg hfd]
    simp only
    by_cases hflags : (k.file (fdIndex fd)).flags = 1
    · rw [if_pos hflags]
      have hc : Checked k (.close fd) := ⟨by omega, by omega, hflags⟩
      simp only [hc, true_and, Dispatches]
      cases hop : (k.file (fdIndex fd)).fileOperation with
      | none => simp
      | some t => cases t <;> simp [OpTable.close]
    · rw [if_neg hflags]
      simp [Checked, hflags]

/-- **A checked call through `NULL` is the page fault of the model.** -/
theorem pageFault_iff (L : Layout) (img : Image) (k : State) {c : Call} (hc : Checked k c) :
    step L img k c = .error .pageFault ↔ ¬ Dispatches k c := by
  cases c with
  | read fd buf nbytes =>
    simp only [step]
    rw [read_pageFault_iff]
    simp [hc]
  | write fd buf data nbytes =>
    simp only [step]
    rw [write_pageFault_iff]
    simp [hc]
  | close fd =>
    simp only [step]
    rw [close_pageFault_iff]
    simp [hc]
  | _ => exact hc.elim

/-! ## The other calls -/

/-- The calls that work on no PCB. -/
def Bystander : Call → Prop
  | .getargs _ _ => True
  | .vidmap _ => True
  | .setHandler => True
  | .sigreturn => True
  | .invalid => True
  | .key _ _ => True
  | _ => False

/-- They change at most the address space and the keyboard. -/
theorem step_bystander {c : Call} (h : step L img k c = .ok (k', r)) (hc : Bystander c) :
    ∃ p kb, k' = { k with paging := p, keyboard := kb } := by
  cases c with
  | getargs buf nbytes =>
    simp only [step, getargs] at h
    split at h <;> (cases h; exact ⟨k.paging, k.keyboard, rfl⟩)
  | vidmap screenStart =>
    simp only [step, vidmap] at h
    split at h
    · cases h
      exact ⟨k.paging, k.keyboard, rfl⟩
    · cases h
      exact ⟨mapVideo L k.counter k.paging, k.keyboard, rfl⟩
  | setHandler =>
    cases h
    exact ⟨k.paging, k.keyboard, rfl⟩
  | sigreturn =>
    cases h
    exact ⟨k.paging, k.keyboard, rfl⟩
  | invalid =>
    cases h
    exact ⟨k.paging, k.keyboard, rfl⟩
  | key sc text =>
    cases h
    exact ⟨k.paging, processKeyboardInput k.keyboard sc text, rfl⟩
  | _ => exact hc.elim

/-! ## Buffers with room -/

/-- The caller's buffer lies in the program's page and holds what the call may store. -/
def HasRoom : Call → Prop
  | .read _ buf nbytes => 0 ≤ nbytes ∧ InProgram buf (max 33 nbytes.toNat)
  | .getargs buf nbytes => 0 ≤ nbytes ∧ InProgram buf nbytes.toNat
  | _ => True

/-- **A call whose buffer has room stores in the program's page.** -/
theorem step_bufOk {c : Call} (hroom : HasRoom c) (h : step L img k c = .ok (k', r)) :
    BufOk c r := by
  cases c with
  | read fd buf nbytes =>
    obtain ⟨hnn, hlo, hhi⟩ := hroom
    have hcount : toUInt32 nbytes = nbytes.toNat := by
      unfold toUInt32
      omega
    cases read_inv h with
    | refused _ => exact Or.inl rfl
    | @done t fn k₁ v out hc ht hfn hcall =>
      have hlen := length_callRead_le hcall
      rw [hcount, max_self] at hlen
      change out = [] ∨ InProgram buf out.length
      exact Or.inr ⟨hlo, by omega⟩
  | getargs buf nbytes =>
    obtain ⟨hnn, hlo, hhi⟩ := hroom
    have hcount : toUInt32 nbytes = nbytes.toNat := by
      unfold toUInt32
      omega
    simp only [step, getargs] at h
    split at h
    · cases h
      exact Or.inl rfl
    · cases h
      refine Or.inr ⟨hlo, ?_⟩
      change buf + (strncpyFrom k.current.arg (toUInt32 nbytes) 0).length ≤ 0x08400000
      rw [length_strncpyFrom, hcount]
      exact hhi
  | _ => exact Or.inl rfl

end MyOS.Descriptor
