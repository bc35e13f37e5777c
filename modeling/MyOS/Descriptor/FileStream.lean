import MyOS.Descriptor.Table

/-!
# Reading a regular file through a descriptor

A `read` of a regular file goes from the descriptor to the stored name, from there by directory
search to the inode and through its block list (`systemcall.c:286-298`, `files.c:96-174`). The
position is a running sum of what the reads returned.

* `Streaming`: the descriptor is open on the file and its position is the number of bytes delivered,
  which are that prefix of the file. `Streaming.step` is one call, `run_streaming` a run.
* **`file_stream`**: from a successful `open` on, whatever the process does with its other
  descriptors, the reads deliver the file in order, and 0 once it is all delivered, as long as what
  it reads goes to the program's page. `read_over_position` is a `read` through one descriptor that
  moves another.

A failing `file_read` returns -1, and `read` adds that to the position as it adds any other value
(`systemcall.c:298`):

* **`failed_read_frame_iff`** says exactly which failing reads leave the table alone: those refused
  before the device is called. `read_zero_moves_position` is a `read` of 0 bytes.
-/

namespace MyOS.Descriptor

open MyOS.Machine MyOS.Kernel MyOS.Process

variable {L : Layout} {img : Image} {k k' : State} {r : Reply}

/-! ## Delivery -/

/-- Every named entry has an inode, a length the block list can hold and a good block list. -/
def BlocksOk (img : Image) : Prop :=
  ∀ i < sizeFsDentries, img.filename i ≠ CString.empty →
    img.dentryInode i < img.inodesNum ∧ img.inodeLength (img.dentryInode i) < 1023 * 4096 ∧
    ∀ b < 1023, img.dataBlock (img.dentryInode i) b < img.datablocksNum

/-- On such images `file_read` delivers the slice of the file at the position. -/
theorem fileRead_eq (himg : BlocksOk img) {name : CString} {d : Dentry}
    (hd : readDentryByName img name = some d) {buf : Nat} (hbuf : buf ≠ 0) (pos : Nat)
    {length : Nat} (hlen : length ≠ 0) :
    fileRead img buf pos length name =
      (((min length (img.inodeLength d.inode - pos) : Nat) : Int),
        img.fileSlice d.inode pos (min length (img.inodeLength d.inode - pos))) := by
  obtain ⟨i, hi, hname, hne, rfl⟩ := readDentryByName_named hd
  obtain ⟨hinode, hmax, hblocks⟩ := himg i hi hne
  rw [fileRead_found hd hbuf pos hlen]
  refine readData_ok ?_
  simp only [dentryCopy]
  rintro ⟨hpos, hbad | ⟨b, hbad, hb | ⟨-, -, hb⟩⟩⟩
  · omega
  all_goals
    have := hblocks b (by omega)
    omega

/-- The bytes the reads on `fd` returned, in order. -/
def delivered (fd : Int) (tr : List Event) : List UInt8 :=
  tr.flatMap fun ev =>
    match ev.call, ev.reply with
    | .read fd' _ _, .ret _ out => if fd' = fd then out else []
    | _, _ => []

/-- A read asks for 1 byte or more, as a positive `int`. -/
def AsksSome (fd : Int) : Call → Prop
  | .read fd' _ nbytes => fd' = fd → 1 ≤ nbytes ∧ nbytes < 2 ^ 31
  | _ => True

/-- What the process may do while the descriptor stays open: anything but switch processes, close it
or read nothing from it. -/
def KeepsOpen (fd : Int) (ev : Event) : Prop :=
  ¬ Switches ev.call ∧ ev.call ≠ .close fd ∧ AsksSome fd ev.call

/-- **The stream of descriptor `i`**: what was delivered is the file up to the position. -/
def Streaming (img : Image) (i : Fin 8) (name : CString) (d : Dentry) (tr : List Event)
    (k : State) : Prop :=
  ∃ pos ≤ img.inodeLength d.inode, k.file i = openAt name d pos ∧
    delivered i.val tr = img.fileSlice d.inode 0 pos

variable {i : Fin 8} {name : CString} {d : Dentry}

/-- **One read of the stream** with a buffer. -/
theorem read_stream (himg : BlocksOk img) (hd : readDentryByName img name = some d) {pos : Nat}
    (hpos : pos ≤ img.inodeLength d.inode) (hi : k.file i = openAt name d pos) {buf : Nat}
    (hbuf : buf ≠ 0) {nbytes : Int} (h1 : 1 ≤ nbytes) (hmax : nbytes < 2 ^ 31) :
    Kernel.read img k i.val buf nbytes =
      .ok (k.setFile i (openAt name d (pos + min nbytes.toNat (img.inodeLength d.inode - pos))),
        .ret ((min nbytes.toNat (img.inodeLength d.inode - pos) : Nat) : Int)
          (img.fileSlice d.inode pos (min nbytes.toNat (img.inodeLength d.inode - pos)))) := by
  have hlen := inodeLength_lt img d.inode
  have hn : toUInt32 nbytes = nbytes.toNat := toUInt32_of_lt (by omega) (by omega)
  have hr := fileRead_eq himg hd hbuf pos (by omega : nbytes.toNat ≠ 0)
  rw [← hn] at hr
  rw [read_openAt hi hbuf hr, toUInt32_of_lt (by omega) (by omega), hn]
  congr

theorem delivered_snoc (fd : Int) (tr : List Event) (ev : Event) :
    delivered fd (tr ++ [ev]) = delivered fd tr ++ delivered fd [ev] := by
  unfold delivered
  rw [List.flatMap_append]

theorem delivered_read (pid : Nat) (fd : Int) (buf : Nat) (nbytes v : Int) (out : List UInt8) :
    delivered fd [⟨pid, .read fd buf nbytes, .ret v out⟩] = out := by
  simp [delivered]

theorem delivered_of_ne {fd : Int} {ev : Event} (h : ∀ buf nbytes, ev.call ≠ .read fd buf nbytes) :
    delivered fd [ev] = [] := by
  unfold delivered
  rw [List.flatMap_singleton]
  split
  · rename_i fd' buf nbytes v out hcall hreply
    refine if_neg ?_
    rintro rfl
    exact h _ _ hcall
  · rfl

/-- **One call keeps the stream.** -/
theorem Streaming.step {tr : List Event} {ev : Event} (himg : BlocksOk img) (h2 : 2 ≤ i)
    (hd : readDentryByName img name = some d) (h : Streaming img i name d tr k)
    (hkeep : KeepsOpen i.val ev) (hs : KStep L img k ev k') :
    Streaming img i name d (tr ++ [ev]) k' := by
  obtain ⟨pos, hpos, hi, hdel⟩ := h
  obtain ⟨-, -, hstep⟩ := hs
  obtain ⟨hswitch, hclose, hasks⟩ := hkeep
  rw [Streaming, delivered_snoc, hdel]
  by_cases hread : ∃ buf nbytes, ev.call = .read i.val buf nbytes
  · obtain ⟨buf, nbytes, hcall⟩ := hread
    obtain ⟨pid, c, r⟩ := ev
    simp only at hcall hstep hasks
    subst hcall
    by_cases hbuf : buf = 0
    · -- refused: nothing moves
      simp only [Kernel.step] at hstep
      rw [hbuf, read_null] at hstep
      cases hstep
      exact ⟨pos, hpos, hi, by rw [delivered_read, List.append_nil]⟩
    · obtain ⟨h1, hmax⟩ := hasks rfl
      simp only [Kernel.step] at hstep
      rw [read_stream himg hd hpos hi hbuf h1 hmax] at hstep
      cases hstep
      refine ⟨pos + min nbytes.toNat (img.inodeLength d.inode - pos), by omega, ?_, ?_⟩
      · rw [file_setFile_self]
      · rw [delivered_read]
        have := fileSlice_append img d.inode 0 pos
          (min nbytes.toNat (img.inodeLength d.inode - pos))
        rwa [Nat.zero_add] at this
  · have hne : ∀ buf nbytes, ev.call ≠ .read i.val buf nbytes :=
      fun buf nbytes h => hread ⟨buf, nbytes, h⟩
    have hflags : (k.file i).flags ≠ 0 := by
      rw [hi]
      exact one_ne_zero
    refine ⟨pos, hpos, ?_, ?_⟩
    · rw [step_file_of_ne h2 hflags hswitch hne hclose hstep, hi]
    · rw [delivered_of_ne hne, List.append_nil]

/-- An `open` that answers `i` leaves descriptor `i` on the file, at its start. -/
theorem openFile_start (h2 : 2 ≤ i) (hd : readDentryByName img name = some d)
    (h : openFile img k name = .ok (k', .ret (i.val : Int) [])) :
    k'.file i = ⟨tableFor d.filetype (k.file i).fileOperation, name, d.inode, 0, 1⟩ := by
  cases hi : i.val with
  | zero => exact absurd h2 (by rw [Fin.le_def, hi]; decide)
  | succ n =>
    rw [hi] at h
    generalize hr : Reply.ret ((n + 1 : Nat) : Int) [] = r at h
    cases openFile_inv h with
    | stdin =>
      cases hr
    | stdout => cases hr
    | refused => cases hr
    | @opened d' j hd' hj hfree =>
      rw [hd] at hd'
      obtain rfl := Option.some.inj hd'
      obtain rfl : i = j := by
        apply Fin.ext
        have : ((n + 1 : Nat) : Int) = j.val := by injection hr
        omega
      rw [file_setFile_self]

/-- **The stream over a run**, from the `open` on. -/
theorem run_streaming {k₀ : State} {tr : List Event} (himg : BlocksOk img) (h2 : 2 ≤ i)
    (hd : readDentryByName img name = some d) (htype : d.filetype = 2)
    (hopen : openFile img k name = .ok (k₀, .ret (i.val : Int) []))
    (ht : Trace (KStep L img) k₀ tr k') (hkeep : ∀ ev ∈ tr, KeepsOpen i.val ev) :
    Streaming img i name d tr k' := by
  have hstart : Streaming img i name d [] k₀ := by
    refine ⟨0, Nat.zero_le _, ?_, rfl⟩
    rw [openFile_start h2 hd hopen, htype]
    rfl
  refine Trace.snoc_induction
    (P := fun tr k' => (∀ ev ∈ tr, KeepsOpen i.val ev) → Streaming img i name d tr k')
    (fun _ => hstart) ?_ ht hkeep
  intro tr k₁ ev k₂ _ ih hs hkeep
  rw [List.forall_mem_append, List.forall_mem_singleton] at hkeep
  exact (ih hkeep.1).step himg h2 hd hkeep.2 hs

/-- **Reads of a regular file deliver the file.** After an `open` of the regular file `d` that
answered `i`, in any run of the process that keeps the descriptor open: what the reads on it
returned is the file up to the descriptor's position; the next read returns as much as it asks for
or as is left; and that is 0 exactly when the whole file has been delivered. -/
theorem file_stream (L : Layout) (img : Image) (himg : BlocksOk img) (k k₀ k' : State) (i : Fin 8)
    (h2 : 2 ≤ i) (name : CString) (d : Dentry) (hd : readDentryByName img name = some d)
    (htype : d.filetype = 2) (hopen : openFile img k name = .ok (k₀, .ret (i.val : Int) []))
    (tr : List Event) (ht : Trace (KStep L img) k₀ tr k') (hkeep : ∀ ev ∈ tr, KeepsOpen i.val ev) :
    (k'.file i).fileposition ≤ img.inodeLength d.inode ∧
    delivered i.val tr = img.fileSlice d.inode 0 (k'.file i).fileposition ∧
    ∀ buf nbytes, buf ≠ 0 → 1 ≤ nbytes → nbytes < 2 ^ 31 →
      ∃ k'' v out, Kernel.read img k' i.val buf nbytes = .ok (k'', .ret v out) ∧
        v = min nbytes ((img.inodeLength d.inode : Int) - (k'.file i).fileposition) ∧
        (v = 0 ↔ delivered i.val tr = img.fileSlice d.inode 0 (img.inodeLength d.inode)) := by
  obtain ⟨pos, hpos, hi, hdel⟩ := run_streaming himg h2 hd htype hopen ht hkeep
  have hp : (k'.file i).fileposition = pos := by
    rw [hi]
    rfl
  rw [hp]
  refine ⟨hpos, hdel, ?_⟩
  intro buf nbytes hbuf h1 hmax
  refine ⟨_, _, _, read_stream himg hd hpos hi hbuf h1 hmax, by omega, ?_⟩
  rw [hdel]
  constructor
  · intro h0
    rw [show pos = img.inodeLength d.inode by omega]
  · intro heq
    have := congrArg List.length heq
    rw [length_fileSlice, length_fileSlice] at this
    omega

/-- Between the lengths and first block entries of the inodes there are zeros. -/
theorem demoImage_byte {a : Nat} (h : 4096 ≤ a ∧ a < 8192 ∨ 8193 ≤ a ∧ a < 12288 ∨
    12297 ≤ a ∧ a < 16384) : (demoImage 1).byte a = 0 := by
  change demoMem 1 (a % 2 ^ 32) = 0
  rw [Nat.mod_eq_of_lt (by omega)]
  unfold demoMem
  repeat rw [store_of_outside _ (by simp [ascii]; omega)]

theorem demoImage_dataBlock {n b : Nat} (hn : n < 3) (hb : b < 1023) :
    (demoImage 1).dataBlock n b < 2 := by
  by_cases hzero : n < 2 ∨ 2 ≤ b
  · have h0 : (demoImage 1).dataBlock n b = 0 :=
      le32_eq_zero fun i hi hi' => demoImage_byte (by omega)
    omega
  · have hlast : ∀ b < 2, (demoImage 1).dataBlock 2 b < 2 := by decide
    obtain rfl : n = 2 := by omega
    exact hlast b (by omega)

theorem demoImage_blocksOk : BlocksOk (demoImage 1) := by
  have hnames : ∀ i < sizeFsDentries, (demoImage 1).filename i ≠ CString.empty → i < 3 := by
    decide
  have hinodes : ∀ i < 3, (demoImage 1).dentryInode i < 3 ∧
      (demoImage 1).inodeLength ((demoImage 1).dentryInode i) < 1023 * 4096 := by
    decide
  have hcounts : (demoImage 1).inodesNum = 3 ∧ (demoImage 1).datablocksNum = 2 := by
    decide
  intro i hi hne
  rw [hcounts.1, hcounts.2]
  obtain ⟨hinode, hlen⟩ := hinodes i (hnames i hi hne)
  exact ⟨hinode, hlen, fun b hb => demoImage_dataBlock hinode hb⟩

/-- The shell has opened its own file and read ten bytes of it: a read of 100 bytes returns the 18
that are left. -/
theorem file_stream_shell : ∃ k out k' out',
    KStep demoLayout (demoImage 1) (demoShell.setFile 2 (openAt shellName shellEntry 0))
      ⟨1, .read 2 0x08048000 10, .ret 10 out⟩ k ∧
    out = (demoImage 1).fileSlice 1 0 10 ∧
    Kernel.read (demoImage 1) k 2 0x08048000 100 = .ok (k', .ret 18 out') := by
  have hlen : (demoImage 1).inodeLength shellEntry.inode = 28 := by decide
  have hbuf : 0x08048000 ≠ 0 := by decide
  have hcount : (1 : Int) ≤ 10 := by decide
  have hread := read_stream demoImage_blocksOk readDentryByName_shell (Nat.zero_le _)
    (file_setFile_self (k := demoShell) 2 (openAt shellName shellEntry 0)) hbuf hcount (by decide)
  rw [hlen] at hread
  have hstep : KStep demoLayout (demoImage 1)
      (demoShell.setFile 2 (openAt shellName shellEntry 0))
      ⟨1, .read 2 0x08048000 10, .ret 10 ((demoImage 1).fileSlice 1 0 10)⟩
      ((demoShell.setFile 2 (openAt shellName shellEntry 0)).setFile 2
        (openAt shellName shellEntry 10)) := by
    refine ⟨rfl, ⟨trivial, Or.inr ⟨by decide, ?_⟩⟩, hread⟩
    change 0x08048000 + ((demoImage 1).fileSlice 1 0 10).length ≤ _
    rw [length_fileSlice]
    decide
  obtain ⟨-, -, h⟩ := file_stream demoLayout (demoImage 1) demoImage_blocksOk demoShell _ _ 2
    (by decide) shellName shellEntry readDentryByName_shell rfl demoShell_open_shell _
    (.single hstep) (by simp [KeepsOpen, Switches, AsksSome])
  obtain ⟨k', v, out', hnext, hv, -⟩ := h 0x08048000 100 (by decide) (by decide) (by decide)
  rw [hlen, file_setFile_self] at hv
  obtain rfl : v = 18 := hv
  exact ⟨_, _, k', out', hstep, rfl, hnext⟩

/-- The shell has opened its own file twice. A `read` of four bytes through descriptor 3, with the
address of `file_array[2].fileposition` for a buffer, moves descriptor 2 past the end of the
file. -/
theorem read_over_position : (BlocksOk (demoImage 1) ∧ TypesOk (demoImage 1)) ∧
    Booted demoLayout (demoImage 1) demoShell ∧
    openFile (demoImage 1) demoShell shellName =
      .ok (demoShell.setFile 2 (openAt shellName shellEntry 0), .ret 2 []) ∧
    openFile (demoImage 1) (demoShell.setFile 2 (openAt shellName shellEntry 0)) shellName =
      .ok ((demoShell.setFile 2 (openAt shellName shellEntry 0)).setFile 3
        (openAt shellName shellEntry 0), .ret 3 []) ∧
    ∃ k, RawStep demoLayout (demoImage 1)
        ((demoShell.setFile 2 (openAt shellName shellEntry 0)).setFile 3
          (openAt shellName shellEntry 0))
        ⟨1, .read 3 0x7FE098 4, .ret 4 [0x7f, 0x45, 0x4c, 0x46]⟩ k ∧
      (k.file 2).fileposition = 0x464c457f ∧
      ∃ k', Kernel.read (demoImage 1) k 2 0x08048000 100 = .ok (k', .ret 0 []) := by
  have hopen : openFile (demoImage 1) (demoShell.setFile 2 (openAt shellName shellEntry 0))
      shellName = .ok ((demoShell.setFile 2 (openAt shellName shellEntry 0)).setFile 3
        (openAt shellName shellEntry 0), .ret 3 []) := by
    have hvacant : vacantFd (demoShell.setFile 2 (openAt shellName shellEntry 0)) = some 3 := by
      unfold vacantFd
      rw [file_setFile, demoShell_file]
      decide
    rw [openFile_eq (by decide) (by decide) readDentryByName_shell hvacant
      (by decide)]
    rfl
  have hdata : fileRead (demoImage 1) 0x7FE098 0 (toUInt32 4) shellName =
      (4, [0x7f, 0x45, 0x4c, 0x46]) := by decide
  have hread := read_openAt
    (file_setFile_self (k := demoShell.setFile 2 (openAt shellName shellEntry 0)) 3
      (openAt shellName shellEntry 0)) (by decide) hdata
  refine ⟨⟨demoImage_blocksOk, demoImage_typesOk⟩, demoShell_booted (Or.inl rfl),
    demoShell_open_shell, hopen, _, ⟨rfl, trivial, ?_, _, hread, rfl⟩, ?_, ?_⟩
  · rintro ⟨i, hi, hle, hlt⟩
    have hpcb : pcbAddr demoShell.counter = 0x7FE000 := by decide
    have hfd : (fdIndex 3).val = 3 := rfl
    simp only [setFile_counter, List.length_cons, List.length_nil] at hi hle hlt
    omega
  · decide
  · have hend : fileRead (demoImage 1) 0x08048000 0x464c457f (toUInt32 100) shellName =
        (0, []) := by decide
    refine ⟨_, read_openAt (i := 2) (d := shellEntry) ?_ (by decide) hend⟩
    decide

/-! ## Failing reads -/

theorem directoryRead_nonneg (img : Image) (n : Nat) : 0 ≤ (directoryRead img n).2.1 := by
  unfold directoryRead
  simp only
  split
  · exact le_rfl
  · exact Int.natCast_nonneg _

/-- Of the device reads only `file_read` returns -1. -/
theorem callRead_fails {f : FileDescriptor} {buf : Nat} {nbytes : Int} {fn : ReadFn}
    {out : List UInt8} (h : callRead img k f buf nbytes fn = .ok (k', -1, out)) :
    fn = .fileRead ∧ (fileRead img buf f.fileposition (toUInt32 nbytes) f.fileName).1 = -1 := by
  cases fn with
  | terminalRead =>
    simp only [callRead, terminalRead] at h
    split at h
    · cases h
    · rename_i hterm
      split at hterm
      · cases hterm
        simp only [Except.ok.injEq, Prod.mk.injEq] at h
        omega
      · cases hterm
  | rtcRead => cases h
  | fileRead =>
    simp only [callRead, Except.ok.injEq, Prod.mk.injEq] at h
    exact ⟨rfl, h.2.1⟩
  | directoryRead =>
    simp only [callRead, Except.ok.injEq, Prod.mk.injEq] at h
    have := directoryRead_nonneg img k.entryCounter
    omega

theorem eq_fileT_of_read {t : OpTable} (h : t.read = some .fileRead) : t = .fileT := by
  cases t <;> first | rfl | cases h

/-- The read changes nothing if it fails: no field of the table, and no later answer on `fd`. -/
def FailsInPlace (img : Image) (k : State) (fd : Int) (buf : Nat) (nbytes : Int) : Prop :=
  ∀ k' out, Kernel.read img k fd buf nbytes = .ok (k', .ret (-1) out) →
    k'.file = k.file ∧ ∀ buf' nbytes',
      (Kernel.read img k' fd buf' nbytes').map Prod.snd =
        (Kernel.read img k fd buf' nbytes').map Prod.snd

/-- The call reaches `file_read`, and `file_read` fails. -/
def DeviceFails (img : Image) (k : State) (fd : Int) (buf : Nat) (nbytes : Int) : Prop :=
  Checked k (.read fd buf nbytes) ∧ (k.file (fdIndex fd)).fileOperation = some .fileT ∧
    FileReadFails img (k.file (fdIndex fd)).fileposition (toUInt32 nbytes)
      (k.file (fdIndex fd)).fileName

/-- **A failing read leaves the table alone exactly when it does not fail in `file_read`.** -/
theorem failed_read_frame_iff (img : Image) (k : State) (fd : Int) (buf : Nat) (nbytes : Int) :
    FailsInPlace img k fd buf nbytes ↔ ¬ DeviceFails img k fd buf nbytes := by
  constructor
  · rintro h ⟨hc, ht, hfails⟩
    -- the position goes down by one, modulo 2^32
    rw [← fileRead_fails_iff img hc.2.2.1] at hfails
    have hcall : callRead img k (k.file (fdIndex fd)) buf nbytes .fileRead = .ok (k, -1,
        (fileRead img buf (k.file (fdIndex fd)).fileposition (toUInt32 nbytes)
          (k.file (fdIndex fd)).fileName).2) := by
      simp only [callRead, hfails]
    have hfile := (h _ _ (Reading.done hc ht rfl hcall).read_eq).1
    rw [file_setFile] at hfile
    have hpos := congrArg FileDescriptor.fileposition (congrFun hfile (fdIndex fd))
    rw [Function.update_self] at hpos
    simp only [toUInt32] at hpos
    omega
  · intro h k' out hread
    generalize hr : Reply.ret (-1) out = r at hread
    cases read_inv hread with
    | refused hn => exact ⟨rfl, fun _ _ => rfl⟩
    | done hc ht hfn hcall =>
      cases hr
      obtain ⟨rfl, hfails⟩ := callRead_fails hcall
      rw [fileRead_fails_iff img hc.2.2.1] at hfails
      exact absurd ⟨hc, by rw [ht, eq_fileT_of_read hfn], hfails⟩ h

/-- The shell has opened its own file. `read(2, buf, 0)` returns -1 and leaves the position at
`2 ^ 32 - 1`, so the read after it finds the end of the file. -/
theorem read_zero_moves_position :
    openFile (demoImage 1) demoShell shellName =
      .ok (demoShell.setFile 2 (openAt shellName shellEntry 0), .ret 2 []) ∧
    ∃ k, Kernel.read (demoImage 1) (demoShell.setFile 2 (openAt shellName shellEntry 0)) 2
        0x08048000 0 = .ok (k, .ret (-1) []) ∧
      (k.file 2).fileposition = 2 ^ 32 - 1 ∧
      ∃ k', Kernel.read (demoImage 1) k 2 0x08048000 4 = .ok (k', .ret 0 []) := by
  have hopen : (demoShell.setFile 2 (openAt shellName shellEntry 0)).file 2 =
      openAt shellName shellEntry 0 := by
    rw [file_setFile_self]
  have hzero : fileRead (demoImage 1) 0x08048000 0 (toUInt32 0) shellName = (-1, []) := by
    decide
  have hnext : fileRead (demoImage 1) 0x08048000 (toUInt32 ((0 : Nat) + -1)) (toUInt32 4)
      shellName = (0, []) := by
    decide
  refine ⟨demoShell_open_shell, _, read_openAt hopen (by decide) hzero, ?_, _,
    read_openAt (i := 2) (d := shellEntry) ?_ (by decide) hnext⟩
  · rw [file_setFile_self]
    rfl
  · rw [file_setFile_self]

end MyOS.Descriptor
