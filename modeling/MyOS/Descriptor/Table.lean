import MyOS.Process.Stack
import Mathlib.Tactic.IntervalCases

/-!
# The descriptor table of a process

`execute`, `open`, `read` and `close` each set some of the five fields of a descriptor
(`systemcall.c:146-169`, `:298`, `:352-411`, `:430-434`). `TableInv` is what they agree on, for any
image: a free descriptor is all zeros, one in use holds the name and the inode of a directory entry
and the table for its type, where a type above 2 has no table.

* `TableInv.step` / `run_tableInv`: kept by every call of the process.
* **`descriptor_table`**: on images with types 0, 1 and 2 and names that fit, what each field holds,
  as long as `read` and `getargs` store in the program's page. `read_over_flags` is a `read` that
  does not.
* **`dispatch_iff`**: exactly which checked calls go through `NULL`: a `read` of descriptor 1, a
  `write` of descriptor 0, and any call on a descriptor whose entry has a type above 2. `open` sets
  no table for such a type, and `read` and `write` do not look at the entry they call
  (`systemcall.c:285-296`, `:317-330`). `write_stdin_faults` is the case that the repository's own
  test asks for.
-/

namespace MyOS.Descriptor

open MyOS.Machine MyOS.Kernel MyOS.Process

/-- **What every descriptor table holds**, on any image. -/
structure TableInv (img : Image) (files : Fin 8 → FileDescriptor) : Prop where
  stdin : (files 0).flags = 1 ∧ (files 0).fileOperation = some .stdinT
  stdout : (files 1).flags = 1 ∧ (files 1).fileOperation = some .stdoutT
  free : ∀ fd, 2 ≤ fd → (files fd).flags ≠ 1 → files fd = freeDescriptor
  used : ∀ fd, 2 ≤ fd → (files fd).flags = 1 →
    ∃ d, readDentryByName img (files fd).fileName = some d ∧ (files fd).inode = d.inode ∧
      (files fd).fileOperation = tableFor d.filetype none

variable {L : Layout} {img : Image} {k k' : State} {r : Reply}

theorem tableInv_freshFiles (img : Image) : TableInv img freshFiles := by
  have hfree : ∀ fd : Fin 8, 2 ≤ fd → freshFiles fd = freeDescriptor := by
    intro fd h2
    unfold freshFiles
    rw [if_neg (by rintro rfl; exact absurd h2 (by decide)),
      if_neg (by rintro rfl; exact absurd h2 (by decide))]
  refine ⟨⟨rfl, rfl⟩, ⟨rfl, rfl⟩, fun fd h2 _ => hfree fd h2, ?_⟩
  intro fd h2 hflags
  rw [hfree fd h2] at hflags
  exact absurd hflags (by decide)

/-- The invariant survives a change of one descriptor that is itself in order. -/
theorem TableInv.update {files : Fin 8 → FileDescriptor} (h : TableInv img files) (i : Fin 8)
    (f : FileDescriptor) (h0 : i = 0 → f.flags = 1 ∧ f.fileOperation = some .stdinT)
    (h1 : i = 1 → f.flags = 1 ∧ f.fileOperation = some .stdoutT)
    (hfree : 2 ≤ i → f.flags ≠ 1 → f = freeDescriptor)
    (hused : 2 ≤ i → f.flags = 1 → ∃ d, readDentryByName img f.fileName = some d ∧
      f.inode = d.inode ∧ f.fileOperation = tableFor d.filetype none) :
    TableInv img (Function.update files i f) := by
  have hlook : ∀ fd, Function.update files i f fd = if fd = i then f else files fd := by
    intro fd
    by_cases hfd : fd = i
    · rw [hfd, Function.update_self, if_pos rfl]
    · rw [Function.update_of_ne hfd, if_neg hfd]
  refine ⟨?_, ?_, ?_, ?_⟩
  · rw [hlook]
    split
    · exact h0 (by simp_all)
    · exact h.stdin
  · rw [hlook]
    split
    · exact h1 (by simp_all)
    · exact h.stdout
  · intro fd h2
    rw [hlook]
    split
    · rename_i hfd
      exact hfree (hfd ▸ h2)
    · exact h.free fd h2
  · intro fd h2
    rw [hlook]
    split
    · rename_i hfd
      exact hused (hfd ▸ h2)
    · exact h.used fd h2

/-- `execute` and `halt` change which process runs. -/
def Switches : Call → Prop
  | .halt _ => True
  | .execute _ => True
  | _ => False

theorem TableInv.read {fd : Int} {buf : Nat} {nbytes : Int} (h : TableInv img k.file)
    (hr : Reading img k fd buf nbytes k' r) : TableInv img k'.file := by
  cases hr with
  | refused hn => exact h
  | done hc ht hfn hcall =>
    rw [file_setFile, (callRead_device hcall).file]
    -- only the position changes
    refine h.update _ _ ?_ ?_ ?_ ?_
    · intro h0
      rw [h0]
      exact h.stdin
    · intro h1
      rw [h1]
      exact h.stdout
    · intro h2 hflags
      have hzero := h.free _ h2 hflags
      exact absurd (congrArg FileDescriptor.flags hzero) hc.2.2.2
    · exact fun h2 hflags => h.used _ h2 hflags

theorem TableInv.openFile {filename : CString} (h : TableInv img k.file)
    (ho : Opening img k filename k' r) : TableInv img k'.file := by
  cases ho with
  | stdin =>
    rw [file_setFile]
    refine h.update _ _ (fun _ => ⟨rfl, rfl⟩) (fun h1 => absurd h1 (by decide)) ?_ ?_ <;>
      exact fun h2 => absurd h2 (by decide)
  | stdout =>
    rw [file_setFile]
    refine h.update _ _ (fun h1 => absurd h1 (by decide)) (fun _ => ⟨rfl, rfl⟩) ?_ ?_ <;>
      exact fun h2 => absurd h2 (by decide)
  | refused => exact h
  | @opened d i hd h2 hfree =>
    -- the descriptor was free, so a type above 2 leaves it without a table
    have hzero := h.free i h2 (by rw [hfree]; decide)
    rw [file_setFile]
    refine h.update _ _ ?_ ?_ (fun _ hne => absurd rfl hne) fun _ _ => ⟨d, hd, rfl, ?_⟩
    · rintro rfl
      exact absurd h2 (by decide)
    · rintro rfl
      exact absurd h2 (by decide)
    · rw [hzero]
      rfl

theorem TableInv.close {fd : Int} (h : TableInv img k.file) (hc : Closing k fd k' r) :
    TableInv img k'.file := by
  cases hc with
  | refused hn => exact h
  | closed hc =>
    rw [file_setFile]
    have h2 := two_le_fdIndex hc.1 hc.2.1
    refine h.update _ _ ?_ ?_ (fun _ _ => rfl) fun _ hflags => absurd hflags (by decide)
    · intro h0
      rw [h0] at h2
      exact absurd h2 (by decide)
    · intro h1
      rw [h1] at h2
      exact absurd h2 (by decide)

/-- **Every call of the process keeps its table in order.** -/
theorem TableInv.step {c : Call} (h : TableInv img k.file) (hc : ¬ Switches c)
    (hs : step L img k c = .ok (k', r)) : TableInv img k'.file := by
  cases c with
  | halt status => exact absurd trivial hc
  | execute e => exact absurd trivial hc
  | read fd buf nbytes => exact h.read (read_inv hs)
  | openFile filename => exact h.openFile (openFile_inv hs)
  | close fd => exact h.close (close_inv hs)
  | write fd buf data nbytes =>
    rw [(write_inv hs).device.file]
    exact h
  | _ =>
    obtain ⟨p, kb, rfl⟩ := step_bystander hs trivial
    exact h

/-- **The table of a process is in order in every run from its `execute`.** -/
theorem run_tableInv {kp k₀ : State} {e : ExecArgs} {eip : Nat} {tr : List Event}
    (hx : execute L img kp e = .ok (k₀, .iret eip)) (ht : Trace (KStep L img) k₀ tr k)
    (hown : ∀ ev ∈ tr, ¬ Switches ev.call) : TableInv img k.file := by
  refine ht.invariant_of (I := fun k => TableInv img k.file) (P := fun ev => ¬ Switches ev.call) ?_
    hown ?_
  · exact fun s ev t hev hs hst => hs.step hev hst.2.2
  · cases execute_inv hx with
    | started hk hc ha hh hr hl =>
      rw [launched_file]
      exact tableInv_freshFiles img

/-- **Frame**: an open descriptor changes only through its own `read` and `close`. -/
theorem step_file_of_ne {i : Fin 8} (h2 : 2 ≤ i) (hused : (k.file i).flags ≠ 0) {c : Call}
    (hc : ¬ Switches c) (hread : ∀ buf nbytes, c ≠ .read i.val buf nbytes)
    (hclose : c ≠ .close i.val) (hs : step L img k c = .ok (k', r)) : k'.file i = k.file i := by
  -- an index in range that is not `i` is another slot
  have hne : ∀ fd : Int, 0 ≤ fd → fd ≤ 7 → fd ≠ i.val → i ≠ fdIndex fd := by
    rintro fd h0 h7 hfd rfl
    exact hfd (fdIndex_val h0 h7).symm
  cases c with
  | halt status => exact absurd trivial hc
  | execute e => exact absurd trivial hc
  | read fd buf nbytes =>
    cases read_inv hs with
    | refused hn => rfl
    | done hc ht hfn hcall =>
      rw [file_setFile, (callRead_device hcall).file, Function.update_of_ne]
      refine hne fd hc.1 hc.2.1 ?_
      rintro rfl
      exact hread _ _ rfl
  | openFile filename =>
    cases openFile_inv hs with
    | stdin =>
      rw [file_setFile, Function.update_of_ne]
      rintro rfl
      exact absurd h2 (by decide)
    | stdout =>
      rw [file_setFile, Function.update_of_ne]
      rintro rfl
      exact absurd h2 (by decide)
    | refused => rfl
    | opened hd h2' hfree =>
      rw [file_setFile, Function.update_of_ne]
      rintro rfl
      exact hused hfree
  | close fd =>
    cases close_inv hs with
    | refused hn => rfl
    | closed hc =>
      rw [file_setFile, Function.update_of_ne]
      refine hne fd (by have := hc.1; omega) hc.2.1 ?_
      rintro rfl
      exact hclose rfl
  | write fd buf data nbytes => rw [(write_inv hs).device.file]
  | _ =>
    obtain ⟨p, kb, rfl⟩ := step_bystander hs trivial
    rfl

/-- `execute` and `halt` leave the descriptors of the process that calls them alone. -/
theorem pcb_of_switches {c : Call} (hc : Switches c) (hs : step L img k c = .ok (k', r)) {a : Nat}
    (ha : a ≠ pcbAddr (k.counter + 1)) : k'.pcb a = k.pcb a := by
  cases c with
  | halt status =>
    rw [← halt_pcb L k status, Except.ok.inj hs]
  | execute e => exact (execute_inv hs).pcb_of_ne fun _ => ha
  | _ => exact hc.elim

theorem counter_of_not_switches {c : Call} (hc : ¬ Switches c) (hs : step L img k c = .ok (k', r)) :
    k'.counter = k.counter := by
  cases step_effect hs with
  | halted hh => exact absurd trivial hc
  | executed hx => exact absurd trivial hc
  | mapped ha => rfl
  | own hq ho => exact ho.counter

/-- **What a step does to the PCB of a live process**: it is a call of that process that stays in
it, or the PCB is left alone. -/
theorem kstep_own_or_frame {p : Nat} {ev : Event} (h6 : k.counter ≤ 6) (hlive : p ≤ ev.pid)
    (hs : KStep L img k ev k') :
    (ev.pid = p ∧ k.counter = p ∧ k'.counter = p ∧ ¬ Switches ev.call) ∨
    (k'.pcb (pcbAddr p) = k.pcb (pcbAddr p) ∧ (ev.pid = p → Switches ev.call)) := by
  obtain ⟨hpid, -, hstep⟩ := hs
  by_cases hp : ev.pid = p
  · by_cases hsw : Switches ev.call
    · exact Or.inr ⟨pcb_of_switches hsw hstep (by unfold pcbAddr; omega), fun _ => hsw⟩
    · have hcounter := counter_of_not_switches hsw hstep
      exact Or.inl ⟨hp, by omega, by omega, hsw⟩
  · refine Or.inr ⟨(step_effect hstep).pcb_of_ne ?_ ?_, fun h => absurd h hp⟩
    · unfold pcbAddr
      omega
    · unfold pcbAddr
      omega

/-- A descriptor open on the file `d` under `name`, at `pos`. -/
def openAt (name : CString) (d : Dentry) (pos : Nat) : FileDescriptor :=
  ⟨some .fileT, name, d.inode, pos, 1⟩

/-- A read through an open descriptor, with a buffer, is a `file_read` at its position. -/
theorem read_openAt {i : Fin 8} {name : CString} {d : Dentry} {pos : Nat}
    (hi : k.file i = openAt name d pos) {buf : Nat} (hbuf : buf ≠ 0) {nbytes v : Int}
    {out : List UInt8} (hr : fileRead img buf pos (toUInt32 nbytes) name = (v, out)) :
    Kernel.read img k i.val buf nbytes =
      .ok (k.setFile i (openAt name d (toUInt32 ((pos : Int) + v))), .ret v out) := by
  have hc := checked_read (by rw [hi]; exact one_ne_zero) hbuf nbytes
  have ht : (k.file (fdIndex i.val)).fileOperation = some .fileT := by
    rw [fdIndex_natCast, hi]
    rfl
  have hcall : callRead img k (k.file (fdIndex i.val)) buf nbytes .fileRead = .ok (k, v, out) := by
    rw [fdIndex_natCast, hi]
    simp only [callRead, openAt, hr]
  rw [(Reading.done hc ht rfl hcall).read_eq, fdIndex_natCast, hi]
  rfl

/-! ## Images with known types -/

/-- Every named entry has type 0, 1 or 2 and a name that fits its field with its NUL. -/
def TypesOk (img : Image) : Prop :=
  ∀ i < sizeFsDentries, img.filename i ≠ CString.empty →
    img.filetype i ≤ 2 ∧ (img.filename i).length ≤ 31

/-- The operation table of a type. -/
def typeTable : Nat → Option OpTable
  | 0 => some .rtcT
  | 1 => some .directoryT
  | 2 => some .fileT
  | _ => none

theorem tableFor_none (t : Nat) : tableFor t none = typeTable t := by
  unfold tableFor
  rcases t with _ | _ | _ | t <;> simp [typeTable]

/-- **The fields of the table**, in the source's terms. -/
structure DescriptorsOk (img : Image) (files : Fin 8 → FileDescriptor) : Prop where
  stdin : (files 0).flags = 1 ∧ (files 0).fileOperation = some .stdinT
  stdout : (files 1).flags = 1 ∧ (files 1).fileOperation = some .stdoutT
  flags : ∀ fd, 2 ≤ fd → (files fd).flags = 0 ∨ (files fd).flags = 1
  free : ∀ fd, 2 ≤ fd → (files fd).flags = 0 → (files fd).fileOperation = none ∧
    (files fd).fileName = CString.empty ∧ (files fd).inode = 0 ∧ (files fd).fileposition = 0
  used : ∀ fd, 2 ≤ fd → (files fd).flags = 1 → ∃ i < sizeFsDentries,
    (files fd).fileName = img.filename i ∧ (files fd).inode = img.dentryInode i ∧
    img.filetype i ≤ 2 ∧ (files fd).fileOperation = typeTable (img.filetype i)

theorem TableInv.descriptorsOk {files : Fin 8 → FileDescriptor} (himg : TypesOk img)
    (h : TableInv img files) : DescriptorsOk img files := by
  refine ⟨h.stdin, h.stdout, ?_, ?_, ?_⟩
  · intro fd h2
    by_cases hflags : (files fd).flags = 1
    · exact Or.inr hflags
    · exact Or.inl (by rw [h.free fd h2 hflags]; rfl)
  · intro fd h2 hflags
    rw [h.free fd h2 (by rw [hflags]; decide)]
    exact ⟨rfl, rfl, rfl, rfl⟩
  · intro fd h2 hflags
    obtain ⟨d, hd, hinode, hop⟩ := h.used fd h2 hflags
    obtain ⟨i, hi, hname, hne, rfl⟩ := readDentryByName_named hd
    exact ⟨i, hi, hname.symm, hinode, (himg i hi hne).1, by rw [hop, tableFor_none]; rfl⟩

/-- On such images no `open` runs past `file_name`. -/
theorem openFile_ne_overrun (himg : TypesOk img) (k : State) (filename : CString) :
    openFile img k filename ≠ .error .overrun := by
  unfold openFile
  split
  · exact nofun
  · split
    · exact nofun
    · split
      · exact nofun
      · rename_i d hd
        obtain ⟨i, hi, hname, hne, -⟩ := readDentryByName_named hd
        have hlen := (himg i hi hne).2
        rw [hname] at hlen
        split
        · exact nofun
        · rw [if_neg (by omega)]
          exact nofun

/-- **The representation invariant of the descriptor table**, in every run of a process from its
`execute`. -/
theorem descriptor_table (L : Layout) (img : Image) (himg : TypesOk img) (kp k₀ : State)
    (e : ExecArgs) (eip : Nat) (hx : execute L img kp e = .ok (k₀, .iret eip)) (tr : List Event)
    (k : State) (ht : Trace (KStep L img) k₀ tr k) (hown : ∀ ev ∈ tr, ¬ Switches ev.call) :
    DescriptorsOk img k.file ∧ ∀ filename, openFile img k filename ≠ .error .overrun :=
  ⟨(run_tableInv hx ht hown).descriptorsOk himg, openFile_ne_overrun himg k⟩

theorem demoImage_typesOk : TypesOk (demoImage 1) := by
  unfold TypesOk
  decide

/-- `"."`, the directory of the small image. -/
def dotName : CString := ⟨ascii ['.'], by decide⟩

/-- The first free descriptor of the shell, in a state with the shell's table. -/
theorem vacantFd_fresh (h : k.file = freshFiles) : vacantFd k = some 2 := by
  unfold vacantFd
  rw [h]
  decide

theorem demoShell_file : demoShell.file = freshFiles := launched_file _ _ _ _ _

/-- The descriptor of an open directory, at its start. -/
def dotFile : FileDescriptor := ⟨some .directoryT, dotName, 0, 0, 1⟩

theorem readDentryByName_dot : readDentryByName (demoImage 1) dotName = some ⟨dotName, 1, 0⟩ := by
  decide

/-- A process with a fresh table opens the directory. -/
theorem open_dot (h : k.file = freshFiles) :
    openFile (demoImage 1) k dotName = .ok (k.setFile 2 dotFile, .ret 2 []) := by
  rw [openFile_eq (by decide) (by decide) readDentryByName_dot (vacantFd_fresh h)
    (by decide)]
  rfl

/-- The shell's table after it has opened the directory: descriptor 2 is in use, the ones after it
are free. -/
theorem descriptor_table_shell :
    DescriptorsOk (demoImage 1)
      (Function.update freshFiles 2 ⟨some .directoryT, dotName, 0, 0, 1⟩) := by
  have h := (descriptor_table demoLayout (demoImage 1) demoImage_typesOk demoBoot demoShell
    (demoArgs shellText 0x7ffff0) 0x08048080 (shell_started (by decide) _ (Or.inl rfl))
    [⟨1, .openFile dotName, .ret 2 []⟩] _
    (.single ⟨rfl, ⟨trivial, Or.inl rfl⟩, open_dot demoShell_file⟩)
    (by simp [Switches])).1
  rwa [file_setFile, demoShell_file] at h

/-- The entry of the file `shell`. -/
def shellEntry : Dentry := ⟨shellName, 2, 1⟩

theorem readDentryByName_shell : readDentryByName (demoImage 1) shellName = some shellEntry := by
  decide

/-- The shell opens its own file. -/
theorem demoShell_open_shell : openFile (demoImage 1) demoShell shellName =
    .ok (demoShell.setFile 2 (openAt shellName shellEntry 0), .ret 2 []) := by
  rw [openFile_eq (by decide) (by decide) readDentryByName_shell
    (vacantFd_fresh demoShell_file) (by decide)]
  rfl

/-- The shell has opened its own file as descriptor 2. A `read` of its first four bytes, with the
address of `file_array[3].flags` for a buffer, leaves descriptor 3 neither free nor in use. -/
theorem read_over_flags : TypesOk (demoImage 1) ∧ Booted demoLayout (demoImage 1) demoShell ∧
    openFile (demoImage 1) demoShell shellName =
      .ok (demoShell.setFile 2 (openAt shellName shellEntry 0), .ret 2 []) ∧
    ∃ k, RawStep demoLayout (demoImage 1) (demoShell.setFile 2 (openAt shellName shellEntry 0))
        ⟨1, .read 2 0x7FE0CC 4, .ret 4 [0x7f, 0x45, 0x4c, 0x46]⟩ k ∧
      (k.file 3).flags = 0x464c457f ∧ ¬ DescriptorsOk (demoImage 1) k.file := by
  have hdata : fileRead (demoImage 1) 0x7FE0CC 0 (toUInt32 4) shellName =
      (4, [0x7f, 0x45, 0x4c, 0x46]) := by decide
  have hread := read_openAt
    (file_setFile_self (k := demoShell) 2 (openAt shellName shellEntry 0)) (by decide) hdata
  have hbad : ∀ k : State, (k.file 3).flags = 0x464c457f →
      ¬ DescriptorsOk (demoImage 1) k.file := by
    intro k hflags h
    have hlegal := h.flags 3 (by decide)
    rw [hflags] at hlegal
    revert hlegal
    decide
  refine ⟨demoImage_typesOk, demoShell_booted (Or.inl rfl), demoShell_open_shell, _,
    ⟨rfl, trivial, ?_, _, hread, rfl⟩, ?_, hbad _ ?_⟩
  · rintro ⟨i, hi, hle, hlt⟩
    have hpcb :
        pcbAddr (demoShell.setFile 2 (openAt shellName shellEntry 0)).counter = 0x7FE000 := by
      decide
    have hfd : (fdIndex 2).val = 2 := rfl
    omega
  · decide
  · decide

/-! ## Calls through `NULL` -/

/-- The entry the descriptor was opened from has a type with a table. -/
def KnownType (img : Image) (k : State) (fd : Int) : Prop :=
  2 ≤ fd → ∀ d, readDentryByName img (k.file (fdIndex fd)).fileName = some d → d.filetype ≤ 2

/-- The calls that find an entry to call. -/
def DispatchOk (img : Image) (k : State) : Call → Prop
  | .read fd _ _ => fd ≠ 1 ∧ KnownType img k fd
  | .write fd _ _ _ => fd ≠ 0 ∧ KnownType img k fd
  | .close fd => KnownType img k fd
  | _ => True

/-- All three tables a type can give have all three entries. -/
theorem typeTable_entry {β : Type*} (f : OpTable → Option β) (h : ∀ t : OpTable, t = .rtcT ∨
    t = .directoryT ∨ t = .fileT → ∃ b, f t = some b) (n : Nat) :
    (∃ t b, typeTable n = some t ∧ f t = some b) ↔ n ≤ 2 := by
  constructor
  · rintro ⟨t, b, ht, -⟩
    rcases n with _ | _ | _ | n
    · omega
    · omega
    · omega
    · cases ht
  · intro hn
    have hsome : ∃ t : OpTable, typeTable n = some t ∧
        (t = .rtcT ∨ t = .directoryT ∨ t = .fileT) := by
      interval_cases n
      · exact ⟨_, rfl, Or.inl rfl⟩
      · exact ⟨_, rfl, Or.inr (Or.inl rfl)⟩
      · exact ⟨_, rfl, Or.inr (Or.inr rfl)⟩
    obtain ⟨t, ht, hcase⟩ := hsome
    obtain ⟨b, hb⟩ := h t hcase
    exact ⟨t, b, ht, hb⟩

/-- The flag of a descriptor in use is `USE`. -/
theorem TableInv.flags_eq_one {files : Fin 8 → FileDescriptor} (h : TableInv img files) {i : Fin 8}
    (h2 : 2 ≤ i) (hused : (files i).flags ≠ 0) : (files i).flags = 1 := by
  by_contra hne
  rw [h.free i h2 hne] at hused
  exact hused rfl

/-- A descriptor from 2 on that is in use: its entry is there when its type is known. -/
theorem TableInv.entry_iff {β : Type*} (f : OpTable → Option β) (h : ∀ t : OpTable, t = .rtcT ∨
    t = .directoryT ∨ t = .fileT → ∃ b, f t = some b) (hk : TableInv img k.file) {fd : Int}
    (h2 : 2 ≤ fd) (h7 : fd ≤ 7) (hflags : (k.file (fdIndex fd)).flags ≠ 0) :
    (∃ t b, (k.file (fdIndex fd)).fileOperation = some t ∧ f t = some b) ↔ KnownType img k fd := by
  have hone := hk.flags_eq_one (two_le_fdIndex h2 h7) hflags
  obtain ⟨d, hd, -, hop⟩ := hk.used _ (two_le_fdIndex h2 h7) hone
  rw [hop, tableFor_none, typeTable_entry f h]
  unfold KnownType
  rw [hd]
  simp [h2]

/-- Any descriptor in use: one of the two of the console, `bad`, lacks the entry. -/
theorem TableInv.console_entry_iff {β : Type*} (f : OpTable → Option β) (h : ∀ t : OpTable,
    t = .rtcT ∨ t = .directoryT ∨ t = .fileT → ∃ b, f t = some b) (hk : TableInv img k.file)
    {fd bad : Int} (hbad : bad < 2) (hin : (∃ b, f .stdinT = some b) ↔ (0 : Int) ≠ bad)
    (hout : (∃ b, f .stdoutT = some b) ↔ (1 : Int) ≠ bad) (h0 : 0 ≤ fd) (h7 : fd ≤ 7)
    (hflags : (k.file (fdIndex fd)).flags ≠ 0) :
    (∃ t b, (k.file (fdIndex fd)).fileOperation = some t ∧ f t = some b) ↔
      fd ≠ bad ∧ KnownType img k fd := by
  rcases lt_or_ge fd 2 with hlt | h2
  · have hknown : KnownType img k fd := fun h2 => absurd h2 (by omega)
    rcases (by omega : fd = 0 ∨ fd = 1) with rfl | rfl
    · rw [show fdIndex 0 = 0 from rfl, hk.stdin.2, ← hin]
      simp [hknown]
    · rw [show fdIndex 1 = 1 from rfl, hk.stdout.2, ← hout]
      simp [hknown]
  · rw [hk.entry_iff f h h2 h7 hflags]
    exact ⟨fun hknown => ⟨by omega, hknown⟩, And.right⟩

theorem TableInv.dispatches_iff (hk : TableInv img k.file) {c : Call} (hc : Checked k c) :
    Dispatches k c ↔ DispatchOk img k c := by
  cases c with
  | read fd buf nbytes =>
    obtain ⟨h0, h7, -, hflags⟩ := hc
    refine hk.console_entry_iff OpTable.read ?_ (by decide) ?_ ?_ h0 h7 hflags
    · rintro t (rfl | rfl | rfl) <;> exact ⟨_, rfl⟩
    · simp [OpTable.read]
    · simp [OpTable.read]
  | write fd buf data nbytes =>
    obtain ⟨h0, h7, -, hflags⟩ := hc
    refine hk.console_entry_iff OpTable.write ?_ (by decide) ?_ ?_ h0 h7 hflags
    · rintro t (rfl | rfl | rfl) <;> exact ⟨_, rfl⟩
    · simp [OpTable.write]
    · simp [OpTable.write]
  | close fd =>
    obtain ⟨h2, h7, hflags⟩ := hc
    refine hk.entry_iff OpTable.close ?_ h2 h7 (by rw [hflags]; decide)
    rintro t (rfl | rfl | rfl) <;> exact ⟨_, rfl⟩
  | _ => exact hc.elim

/-- **Which calls go through `NULL`**, for any image, in every run of a process from its `execute`:
a call that passed its checks finds an entry exactly when it is `DispatchOk`; one whose bytes stay
in the program's page faults exactly when it is not. -/
theorem dispatch_iff (L : Layout) (img : Image) (kp k₀ : State) (e : ExecArgs) (eip : Nat)
    (hx : execute L img kp e = .ok (k₀, .iret eip)) (tr : List Event) (k : State)
    (ht : Trace (KStep L img) k₀ tr k) (hown : ∀ ev ∈ tr, ¬ Switches ev.call) (c : Call)
    (hc : Checked k c) :
    (Dispatches k c ↔ DispatchOk img k c) ∧
    ((∀ k' r, step L img k c = .ok (k', r) → BufOk c r) →
      (step L img k c = .error .pageFault ↔ ¬ DispatchOk img k c)) := by
  have hiff := (run_tableInv hx ht hown).dispatches_iff hc
  exact ⟨hiff, fun _ => by rw [pageFault_iff L img k hc, hiff]⟩

/-- The shell opens the directory and reads an entry: a further read finds `directory_read`. -/
theorem dispatch_iff_dot : ∃ k, Trace (KStep demoLayout (demoImage 1)) demoShell
      [⟨1, .openFile dotName, .ret 2 []⟩, ⟨1, .read 2 0x08048000 32,
        .ret (directoryRead (demoImage 1) 0).2.1 (directoryRead (demoImage 1) 0).2.2⟩] k ∧
    Dispatches k (.read 2 0x08048000 32) := by
  have hfile : (demoShell.setFile 2 dotFile).file 2 = dotFile := file_setFile_self _ _
  have hc : Checked (demoShell.setFile 2 dotFile) (.read 2 0x08048000 32) := by
    refine ⟨by decide, by decide, by decide, ?_⟩
    rw [show fdIndex 2 = 2 from rfl, hfile]
    decide
  have htable : ((demoShell.setFile 2 dotFile).file (fdIndex 2)).fileOperation =
      some .directoryT := by
    rw [show fdIndex 2 = 2 from rfl, hfile]
    rfl
  have hcall : callRead (demoImage 1) (demoShell.setFile 2 dotFile)
      ((demoShell.setFile 2 dotFile).file (fdIndex 2)) 0x08048000 32 .directoryRead = .ok _ := rfl
  have hread := (Reading.done hc htable rfl hcall).read_eq
  have hrun : Trace (KStep demoLayout (demoImage 1)) demoShell
      [⟨1, .openFile dotName, .ret 2 []⟩, ⟨1, .read 2 0x08048000 32,
        .ret (directoryRead (demoImage 1) 0).2.1 (directoryRead (demoImage 1) 0).2.2⟩] _ :=
    .cons ⟨rfl, ⟨trivial, Or.inl rfl⟩, open_dot demoShell_file⟩
      (.single ⟨rfl, ⟨trivial, Or.inr ⟨by decide, by decide⟩⟩, hread⟩)
  refine ⟨_, hrun, ?_⟩
  refine (dispatch_iff demoLayout (demoImage 1) demoBoot demoShell (demoArgs shellText 0x7ffff0)
    0x08048080 (shell_started (by decide) _ (Or.inl rfl)) _ _ hrun (by simp [Switches])
    _ ?_).1.mpr ?_
  · refine ⟨by decide, by decide, by decide, ?_⟩
    rw [show fdIndex 2 = 2 from rfl, file_setFile_self]
    decide
  · refine ⟨by decide, fun _ d hd => ?_⟩
    rw [show fdIndex 2 = 2 from rfl, file_setFile_self] at hd
    obtain rfl := Option.some.inj (readDentryByName_dot.symm.trans hd)
    decide

/-- The repository's test `err_stdin_out`, right after boot: `write(0, buf, 31)` and
`read(1, buf, 31)` pass their checks and call address 0. -/
theorem write_stdin_faults : Booted demoLayout (demoImage 1) demoShell ∧
    Checked demoShell (.write 0 0x08048000 (fun _ => 0) 31) ∧
    step demoLayout (demoImage 1) demoShell (.write 0 0x08048000 (fun _ => 0) 31) =
      .error .pageFault ∧
    Checked demoShell (.read 1 0x08048000 31) ∧
    step demoLayout (demoImage 1) demoShell (.read 1 0x08048000 31) = .error .pageFault := by
  have hw : Checked demoShell (.write 0 0x08048000 (fun _ => 0) 31) := by
    refine ⟨by decide, by decide, by decide, ?_⟩
    rw [demoShell_file]
    decide
  have hr : Checked demoShell (.read 1 0x08048000 31) := by
    refine ⟨by decide, by decide, by decide, ?_⟩
    rw [demoShell_file]
    decide
  have hinv : TableInv (demoImage 1) demoShell.file := by
    rw [demoShell_file]
    exact tableInv_freshFiles _
  refine ⟨demoShell_booted (Or.inl rfl), hw, ?_, hr, ?_⟩
  · rw [pageFault_iff _ _ _ hw, hinv.dispatches_iff hw]
    exact fun h => h.1 rfl
  · rw [pageFault_iff _ _ _ hr, hinv.dispatches_iff hr]
    exact fun h => h.1 rfl

end MyOS.Descriptor
