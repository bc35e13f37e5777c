import MyOS.Descriptor.DirStream

/-!
# `read` and its byte count

`read` (`systemcall.c:279-302`) hands its signed `nbytes` to the read function of the descriptor's
table, and the four functions take it in different ways: `terminal_read` compares it as an `int`,
`rtc_read` stores nothing, `file_read` (`files.c:169-174`) takes it as a `uint32_t`, so that its
test `length <= 0` lets a negative count through, and `directory_read` (`files.c:224-261`) does not
look at it and fills 33 bytes. The entry of `stdout` is `NULL`.

* `Within`: an answer that keeps to the count, in its value and in the bytes stored.
* `fileRead_within_iff`, `directoryRead_within_iff`: when the two functions of `files.c` do.
* **`read_count_iff`**: in any state, `read` keeps to its count exactly when the descriptor is of
  the terminal or the clock, or is a directory and 33 bytes fit, or a file and the count is not
  negative or there is nothing to read.
-/

namespace MyOS.Descriptor

open MyOS.Machine MyOS.Kernel MyOS.Process

variable {img : Image} {k k' : State} {fd : Int} {buf : Nat} {nbytes : Int}

/-- The value is -1 or a count within `nbytes`, and the stores end there too. -/
def Within (nbytes v : Int) (out : List UInt8) : Prop :=
  (v = -1 ∨ 0 ≤ v ∧ v ≤ max nbytes 0) ∧ (out.length : Int) ≤ max nbytes 0

/-- A refusal is within any count, and so is an answer without bytes. -/
theorem within_refused (nbytes : Int) : Within nbytes (-1) [] :=
  ⟨Or.inl rfl, le_max_right _ _⟩

theorem within_nothing (nbytes : Int) : Within nbytes 0 [] :=
  ⟨Or.inr ⟨le_rfl, le_max_right _ _⟩, le_max_right _ _⟩

/-! ## The four read functions -/

/-- `read_data` returns at once, or with its first step. -/
def NothingToRead (img : Image) (inode offset : Nat) : Prop :=
  img.inodeLength inode ≤ offset ∨ img.inodesNum ≤ inode ∨
    img.datablocksNum ≤ img.dataBlock inode (offset / 4096)

theorem readData_nothing {inode offset : Nat} (h : NothingToRead img inode offset) (length : Nat) :
    readData img inode offset length = (0, []) ∨ readData img inode offset length = (-1, []) := by
  unfold readData
  simp only
  by_cases heof : img.inodeLength inode ≤ offset
  · rw [if_pos heof]
    exact Or.inl rfl
  · rw [if_neg heof, if_pos (h.resolve_left heof)]
    exact Or.inr rfl

/-- Otherwise it stores a byte if it is asked for one. -/
theorem readData_something {inode offset length : Nat} (h : ¬ NothingToRead img inode offset)
    (hpos : 0 < length) : 0 < (readData img inode offset length).2.length := by
  unfold NothingToRead at h
  rw [not_or] at h
  have hlt := inodeLength_lt img inode
  unfold readData
  simp only
  rw [if_neg h.1, if_neg h.2]
  obtain ⟨n, rfl⟩ : ∃ n, length = n + 1 := ⟨length - 1, by omega⟩
  unfold readLoop
  simp only
  rw [if_neg, if_neg]
  · simp
  · omega
  · simp only [decide_eq_true_eq]
    omega

/-- A failed or successful `read_data` counts what it stores. -/
theorem readData_value (img : Image) (inode offset length : Nat) :
    (readData img inode offset length).1 = -1 ∨
      0 ≤ (readData img inode offset length).1 ∧
        (readData img inode offset length).1 ≤ (length : Int) := by
  by_cases h : ReadFails img inode offset length
  · exact Or.inl ((readData_fails_iff img inode offset length).mpr h)
  · rw [readData_ok h]
    simp only
    omega

/-- The file has no bytes at the position. -/
def NothingAt (img : Image) (name : CString) (pos : Nat) : Prop :=
  ∀ d, readDentryByName img name = some d → NothingToRead img d.inode pos

/-- **`file_read` keeps to a count that is not negative**, and to a negative one only if there is
nothing to read: it takes that for one of 2^31 or more. -/
theorem fileRead_within_iff (hbuf : buf ≠ 0) (hlo : -2 ^ 31 ≤ nbytes) (hhi : nbytes < 2 ^ 31)
    (name : CString) (pos : Nat) :
    Within nbytes (fileRead img buf pos (toUInt32 nbytes) name).1
      (fileRead img buf pos (toUInt32 nbytes) name).2 ↔ 0 ≤ nbytes ∨ NothingAt img name pos := by
  unfold fileRead NothingAt
  by_cases hzero : toUInt32 nbytes = 0
  · rw [if_pos (Or.inr hzero)]
    unfold toUInt32 at hzero
    exact iff_of_true (within_refused _) (Or.inl (by omega))
  rw [if_neg (by rintro (h | h); exacts [hbuf h, hzero h])]
  cases hd : readDentryByName img name with
  | none => exact iff_of_true (within_refused _) (Or.inr nofun)
  | some d =>
    simp only [Option.some.injEq, forall_eq']
    by_cases hnot : NothingToRead img d.inode pos
    · refine iff_of_true ?_ (Or.inr hnot)
      rcases readData_nothing hnot (toUInt32 nbytes) with h | h
      · rw [h]
        exact within_nothing _
      · rw [h]
        exact within_refused _
    · have hsome := readData_something hnot (Nat.pos_of_ne_zero hzero)
      have hlen := length_readData_le img d.inode pos (toUInt32 nbytes)
      have hval := readData_value img d.inode pos (toUInt32 nbytes)
      simp only [hnot, or_false]
      constructor
      · rintro ⟨-, hle⟩
        omega
      · intro hnn
        have hcount : (toUInt32 nbytes : Int) = nbytes := by
          unfold toUInt32
          omega
        rw [hcount] at hval
        unfold Within
        rw [max_eq_left hnn]
        exact ⟨hval, by omega⟩

/-- **`directory_read` keeps to counts from 33 on.** -/
theorem directoryRead_within_iff (img : Image) (n : Nat) :
    Within nbytes (directoryRead img n).2.1 (directoryRead img n).2.2 ↔ 33 ≤ nbytes := by
  by_cases h : n < img.dirCount
  · have hle : (img.shortName n).length ≤ 32 := List.length_take_le _ _
    have hout : (directoryRead img n).2.2.length = 33 := by
      rw [directoryRead_entry h, List.length_append, List.length_replicate]
      change (img.shortName n).length + _ = _
      omega
    have hval : (directoryRead img n).2.1 = (img.shortName n).length := by
      rw [directoryRead_entry h]
    unfold Within
    rw [hout, hval]
    omega
  · rw [directoryRead_end (by omega)]
    unfold Within
    simp only [List.length_replicate]
    omega

theorem terminalRead_within {kb kb' : Keyboard} {v : Int} {out : List UInt8}
    (h : terminalRead kb nbytes = some (kb', v, out)) : Within nbytes v out := by
  unfold terminalRead at h
  split at h
  · cases h
    have hlen := List.length_take_le nbytes.toNat (stored kb)
    unfold Within
    omega
  · cases h

/-! ## The system call -/

/-- `read` returns, unless it still waits for a line, and its answer is within its count. -/
def RespectsCount (img : Image) (k : State) (fd : Int) (buf : Nat) (nbytes : Int) : Prop :=
  Kernel.read img k fd buf nbytes ≠ .error .pageFault ∧
  ∀ k' v out, Kernel.read img k fd buf nbytes = .ok (k', .ret v out) → Within nbytes v out

/-- By the table of the descriptor, the counts that are kept to. -/
def CountOk (img : Image) (f : FileDescriptor) (nbytes : Int) : Prop :=
  match f.fileOperation with
  | some .stdinT => True
  | some .rtcT => True
  | some .directoryT => 33 ≤ nbytes
  | some .fileT => 0 ≤ nbytes ∨ NothingAt img f.fileName f.fileposition
  | some .stdoutT => False
  | none => False

/-- A read that is refused keeps to its count. -/
theorem respectsCount_refused (h : ¬ Checked k (.read fd buf nbytes)) :
    RespectsCount img k fd buf nbytes := by
  unfold RespectsCount
  rw [(Reading.refused h).read_eq]
  refine ⟨nofun, ?_⟩
  rintro k' v out heq
  cases heq
  exact within_refused nbytes

/-- Through an entry of a table it is the device's answer that counts. -/
theorem respectsCount_iff_device {t : OpTable} {fn : ReadFn}
    (hc : Checked k (.read fd buf nbytes))
    (ht : (k.file (fdIndex fd)).fileOperation = some t) (hfn : t.read = some fn) :
    RespectsCount img k fd buf nbytes ↔ ∀ k₁ v out,
      callRead img k (k.file (fdIndex fd)) buf nbytes fn = .ok (k₁, v, out) →
        Within nbytes v out := by
  constructor
  · exact fun h k₁ v out hcall => h.2 _ v out (Reading.done hc ht hfn hcall).read_eq
  · intro h
    refine ⟨fun hfault => (read_pageFault_iff.mp hfault).2 ⟨t, fn, ht, hfn⟩, ?_⟩
    intro k' v out hread
    cases read_inv hread with
    | refused hn => exact absurd hc hn
    | done _ ht' hfn' hcall =>
      obtain rfl := Option.some.inj (ht.symm.trans ht')
      obtain rfl := Option.some.inj (hfn.symm.trans hfn')
      exact h _ _ _ hcall

/-- What the device answers is within the count, table by table. -/
theorem callRead_within_iff {f : FileDescriptor} {t : OpTable} {fn : ReadFn} (hbuf : buf ≠ 0)
    (hlo : -2 ^ 31 ≤ nbytes) (hhi : nbytes < 2 ^ 31) (ht : f.fileOperation = some t)
    (hfn : t.read = some fn) :
    (∀ k₁ v out, callRead img k f buf nbytes fn = .ok (k₁, v, out) → Within nbytes v out) ↔
      CountOk img f nbytes := by
  unfold CountOk
  rw [ht]
  cases t with
  | stdinT =>
    cases hfn
    refine iff_of_true (fun k₁ v out hcall => ?_) trivial
    simp only [callRead] at hcall
    split at hcall
    · cases hcall
    · rename_i hterm
      cases hcall
      exact terminalRead_within hterm
  | stdoutT => cases hfn
  | rtcT =>
    cases hfn
    refine iff_of_true (fun k₁ v out hcall => ?_) trivial
    cases hcall
    exact within_nothing nbytes
  | directoryT =>
    cases hfn
    simp only
    rw [← directoryRead_within_iff img k.entryCounter]
    refine ⟨fun h => h _ _ _ rfl, fun h k₁ v out hcall => ?_⟩
    cases hcall
    exact h
  | fileT =>
    cases hfn
    simp only
    rw [← fileRead_within_iff hbuf hlo hhi]
    refine ⟨fun h => h _ _ _ rfl, fun h k₁ v out hcall => ?_⟩
    cases hcall
    exact h

/-- Every table with a count to keep to has an entry for `read`. -/
theorem CountOk.dispatches (h : CountOk img (k.file (fdIndex fd)) nbytes) :
    Dispatches k (.read fd buf nbytes) := by
  unfold CountOk at h
  cases ht : (k.file (fdIndex fd)).fileOperation with
  | none =>
    rw [ht] at h
    exact h.elim
  | some t =>
    rw [ht] at h
    cases t with
    | stdoutT => exact h.elim
    | _ => exact ⟨_, _, ht, rfl⟩

/-- **When `read` keeps to its byte count.** -/
theorem read_count_iff (img : Image) (k : State) (fd : Int) (buf : Nat) (nbytes : Int)
    (hlo : -2 ^ 31 ≤ nbytes) (hhi : nbytes < 2 ^ 31) :
    RespectsCount img k fd buf nbytes ↔
      (Checked k (.read fd buf nbytes) → CountOk img (k.file (fdIndex fd)) nbytes) := by
  by_cases hc : Checked k (.read fd buf nbytes)
  · simp only [hc, true_imp_iff]
    by_cases hd : Dispatches k (.read fd buf nbytes)
    · obtain ⟨t, fn, ht, hfn⟩ := hd
      rw [respectsCount_iff_device hc ht hfn, callRead_within_iff hc.2.2.1 hlo hhi ht hfn]
    · exact iff_of_false (fun h => h.1 (read_pageFault_iff.mpr ⟨hc, hd⟩))
        fun h => hd h.dispatches
  · exact iff_of_true (respectsCount_refused hc) fun h => absurd h hc

/-- The shell's first read of its own file keeps to its count. -/
theorem read_count_iff_shell : RespectsCount (demoImage 1)
    (demoShell.setFile 2 (openAt shellName shellEntry 0)) 2 0x08048000 100 := by
  refine (read_count_iff _ _ _ _ _ (by decide) (by decide)).mpr fun _ => ?_
  rw [show fdIndex 2 = 2 from rfl, file_setFile_self]
  exact Or.inl (by decide)

/-- The shell opens the directory and asks for no bytes: 33 are stored. It opens its own file and
asks for -1: all 28 are. -/
theorem count_not_respected :
    execute demoLayout (demoImage 1) demoBoot (demoArgs shellText 0x7ffff0) =
      .ok (demoShell, .iret 0x08048080) ∧
    openFile (demoImage 1) demoShell dotName = .ok (demoShell.setFile 2 dotFile, .ret 2 []) ∧
    (∃ k out, Kernel.read (demoImage 1) (demoShell.setFile 2 dotFile) 2 0x08048000 0 =
      .ok (k, .ret 1 out) ∧ out.length = 33) ∧
    openFile (demoImage 1) demoShell shellName =
      .ok (demoShell.setFile 2 (openAt shellName shellEntry 0), .ret 2 []) ∧
    (∃ k out, Kernel.read (demoImage 1) (demoShell.setFile 2 (openAt shellName shellEntry 0)) 2
      0x08048000 (-1) = .ok (k, .ret 28 out) ∧ out.length = 28) ∧
    ¬ RespectsCount (demoImage 1) (demoShell.setFile 2 dotFile) 2 0x08048000 0 ∧
    ¬ RespectsCount (demoImage 1) (demoShell.setFile 2 (openAt shellName shellEntry 0)) 2
      0x08048000 (-1) := by
  have hdot : ∃ k out, Kernel.read (demoImage 1) (demoShell.setFile 2 dotFile) 2 0x08048000 0 =
      .ok (k, .ret 1 out) ∧ out.length = 33 := by
    obtain ⟨pos, hread⟩ : ∃ pos, Kernel.read (demoImage 1) (demoShell.setFile 2 dotFile) 2
        0x08048000 0 = _ :=
      read_directory (i := 2) (by decide) 0 (by rw [file_setFile_self]; rfl)
        (by rw [file_setFile_self]; rfl)
    exact ⟨_, _, hread, rfl⟩
  have hfile : ∃ k out, Kernel.read (demoImage 1)
      (demoShell.setFile 2 (openAt shellName shellEntry 0)) 2 0x08048000 (-1) =
        .ok (k, .ret 28 out) ∧ out.length = 28 := by
    have hlen : (demoImage 1).inodeLength shellEntry.inode = 28 := by decide
    have hdata := fileRead_eq demoImage_blocksOk readDentryByName_shell
      (by decide : 0x08048000 ≠ 0) 0 (by decide : toUInt32 (-1) ≠ 0)
    rw [hlen, show min (toUInt32 (-1)) (28 - 0) = 28 by decide] at hdata
    exact ⟨_, _, read_openAt (i := 2) (file_setFile_self _ _) (by decide) hdata,
      length_fileSlice _ _ _ _⟩
  refine ⟨shell_started (by decide) _ (Or.inl rfl), open_dot demoShell_file, hdot,
    demoShell_open_shell, hfile, ?_, ?_⟩
  · obtain ⟨k, out, hread, -⟩ := hdot
    intro h
    exact absurd (h.2 _ _ _ hread).1 (by decide)
  · obtain ⟨k, out, hread, -⟩ := hfile
    intro h
    exact absurd (h.2 _ _ _ hread).1 (by decide)

end MyOS.Descriptor
