import MyOS.Descriptor.FileStream
import MyOS.Files.Listing
import MyOS.Machine.Slots

/-!
# Which descriptor `open` gives out, and for which file

`open` (`systemcall.c:343-413`) takes the first free one of the descriptors 2 to 7; `close`
(`systemcall.c:417-438`) gives it back. `AllocationLaw` says what each call does to a table in order
(`TableInv`), the refused ones included, and the count of the descriptors in use follows from it
over a whole run: the runs here are those of a process and of the processes it starts, and the
events of a process are those it makes itself (`Event.pid`).

* `usedCount_step`: what one event does to the number of descriptors in use.
* **`descriptor_allocation`**: the law in every state in which the process runs, and the balance of
  `open`s and `close`s, as long as `read` and `getargs` store in the program's page.
  `getargs_over_flags` is a `getargs` that frees a descriptor.
* `Reserved`: names that begin with `stdin` or `stdou`. `open` takes them for the console before it
  looks at the directory, and compares five bytes only. **`open_entry`**: the other names open the
  entry they name.
-/

namespace MyOS.Descriptor

open MyOS.Machine MyOS.Kernel MyOS.Process MyOS.Files

variable {L : Layout} {img : Image} {k k' : State} {r : Reply} {filename : CString}

/-! ## The first free descriptor -/

/-- `i` is the least of the descriptors 2 to 7 that is free. -/
structure LeastFree (k : State) (i : Fin 8) : Prop where
  two_le : 2 ≤ i
  free : (k.file i).flags = 0
  least : ∀ j, 2 ≤ j → j < i → (k.file j).flags ≠ 0

theorem vacantFd_eq_some_iff {i : Fin 8} : vacantFd k = some i ↔ LeastFree k i := by
  have hmem : ∀ j : Fin 8, j ∈ [2, 3, 4, 5, 6, 7] ↔ 2 ≤ j := by decide
  unfold vacantFd
  rw [find?_eq_some_iff_of_sorted (by decide), hmem]
  simp only [decide_eq_true_eq, decide_eq_false_iff_not, hmem]
  exact ⟨fun h => ⟨h.1, h.2.1, h.2.2⟩, fun h => ⟨h.two_le, h.free, h.least⟩⟩

theorem vacantFd_eq_none_iff :
    vacantFd k = none ↔ ∀ fd : Fin 8, 2 ≤ fd → (k.file fd).flags ≠ 0 := by
  have hmem : ∀ j : Fin 8, j ∈ [2, 3, 4, 5, 6, 7] ↔ 2 ≤ j := by decide
  unfold vacantFd
  rw [List.find?_eq_none]
  simp only [hmem, decide_eq_true_eq]

/-! ## The names `open` keeps for the console -/

/-- The name begins with `stdin` or with `stdou`. -/
def Reserved (filename : CString) : Prop :=
  ascii ['s', 't', 'd', 'i', 'n'] <+: filename.bytes ∨
    ascii ['s', 't', 'd', 'o', 'u'] <+: filename.bytes

theorem reserved_iff : Reserved filename ↔ strncmp stdinName.get filename.get 5 = 0 ∨
    strncmp stdoutName.get filename.get 5 = 0 := by
  rw [strncmp_eq_zero_iff_begins _ _ (by decide), strncmp_eq_zero_iff_begins _ _ (by decide)]
  rfl

/-- A name the console takes opens nothing from 2 on. -/
theorem openFile_reserved (img : Image) (k : State) (h : Reserved filename) :
    ∃ (i : Fin 8) (f : FileDescriptor), i < 2 ∧
      openFile img k filename = .ok (k.setFile i f, .ret 0 []) := by
  unfold openFile
  by_cases hin : strncmp stdinName.get filename.get 5 = 0
  · rw [if_pos hin]
    exact ⟨0, _, by decide, rfl⟩
  · rw [if_neg hin, if_pos ((reserved_iff.mp h).resolve_left hin)]
    exact ⟨1, _, by decide, rfl⟩

/-- The descriptor `open` fills in for a directory entry. -/
def openedFile (d : Dentry) (filename : CString) (old : Option OpTable) : FileDescriptor where
  fileOperation := tableFor d.filetype old
  fileName := filename
  inode := d.inode
  fileposition := 0
  flags := 1

/-- **Any other name** is looked up, and opened in the first free descriptor. -/
theorem openFile_unreserved (himg : TypesOk img) (h : ¬ Reserved filename) :
    openFile img k filename =
      match readDentryByName img filename, vacantFd k with
      | some d, some i =>
        .ok (k.setFile i (openedFile d filename (k.file i).fileOperation), .ret (i.val : Int) [])
      | _, _ => .ok (k, .ret (-1) []) := by
  rw [reserved_iff, not_or] at h
  cases hd : readDentryByName img filename with
  | none =>
    unfold openFile
    rw [if_neg h.1, if_neg h.2, hd]
  | some d =>
    cases hi : vacantFd k with
    | none =>
      unfold openFile
      rw [if_neg h.1, if_neg h.2, hd, hi]
    | some i =>
      obtain ⟨j, hj, hname, hne, -⟩ := readDentryByName_named hd
      have hlen := (himg j hj hne).2
      rw [hname] at hlen
      exact openFile_eq h.1 h.2 hd hi (by omega)

/-! ## The law -/

/-- One of the directory's 63 slots has that name; a slot without an entry has none. -/
def InDirectory (img : Image) (filename : CString) : Prop :=
  filename ≠ CString.empty ∧ ∃ i < sizeFsDentries, img.filename i = filename

theorem readDentryByName_isSome_iff :
    (∃ d, readDentryByName img filename = some d) ↔ InDirectory img filename := by
  unfold InDirectory
  rw [readDentryByName_eq]
  by_cases h0 : filename.length = 0
  · rw [if_pos h0]
    simp [length_eq_zero_iff.mp h0]
  · have hne : filename ≠ CString.empty := fun he => h0 (length_eq_zero_iff.mpr he)
    rw [if_neg h0]
    constructor
    · rintro ⟨d, hd⟩
      obtain ⟨i, hi, -⟩ := Option.map_eq_some_iff.mp hd
      obtain ⟨hlt, hname, -⟩ := lookup_eq_some_iff.mp hi
      exact ⟨hne, i, hlt, hname⟩
    · rintro ⟨-, i, hi, hname⟩
      cases hl : lookup img filename with
      | none => exact absurd hname (lookup_eq_none_iff.mp hl i hi)
      | some j => exact ⟨_, rfl⟩

/-- `fd` is a descriptor in use. -/
def InUse (k : State) (fd : Int) : Prop := 0 ≤ fd ∧ fd ≤ 7 ∧ (k.file (fdIndex fd)).flags ≠ 0

/-- **What the four calls do to a descriptor table.** -/
structure AllocationLaw (img : Image) (k : State) : Prop where
  /-- `open` leaves 2 to 7 alone, or fills the least free one and nothing else. -/
  opens : ∀ filename, ∃ k' v, openFile img k filename = .ok (k', .ret v []) ∧
    ((v = -1 ∨ v = 0) ∧ (∀ fd, 2 ≤ fd → k'.file fd = k.file fd) ∨
      ∃ i f, v = (i.val : Int) ∧ LeastFree k i ∧ f.flags ≠ 0 ∧ k' = k.setFile i f)
  refused : ∀ filename, ¬ Reserved filename →
    ((∃ k', openFile img k filename = .ok (k', .ret (-1) [])) ↔
      ¬ InDirectory img filename ∨ ∀ fd : Fin 8, 2 ≤ fd → (k.file fd).flags ≠ 0)
  closes : ∀ fd, 2 ≤ fd → InUse k fd →
    close k fd = .ok (k.setFile (fdIndex fd) freeDescriptor, .ret 0 [])
  keeps : ∀ fd, ¬ (2 ≤ fd ∧ InUse k fd) → close k fd = .ok (k, .ret (-1) [])
  /-- `close` after `open` restores the table, and the rest of the state. -/
  restores : ∀ filename k' v, openFile img k filename = .ok (k', .ret v []) → 2 ≤ v →
    close k' v = .ok (k, .ret 0 [])
  reads : ∀ fd buf nbytes, ¬ InUse k fd →
    Kernel.read img k fd buf nbytes = .ok (k, .ret (-1) [])
  writes : ∀ fd buf data nbytes, ¬ InUse k fd →
    write k fd buf data nbytes = .ok (k, .ret (-1) [])

/-- A descriptor in use can be closed. -/
theorem TableInv.close_inUse (himg : TypesOk img) (h : TableInv img k.file) {fd : Int}
    (h2 : 2 ≤ fd) (hused : InUse k fd) :
    Kernel.close k fd = .ok (k.setFile (fdIndex fd) freeDescriptor, .ret 0 []) := by
  obtain ⟨-, h7, hflags⟩ := hused
  have hchecked : Checked k (.close fd) :=
    ⟨h2, h7, h.flags_eq_one (two_le_fdIndex h2 h7) hflags⟩
  have hknown : KnownType img k fd := by
    intro _ d hd
    obtain ⟨i, hi, -, hne, rfl⟩ := readDentryByName_named hd
    exact (himg i hi hne).1
  obtain ⟨t, fn, ht, hfn⟩ := (h.dispatches_iff hchecked).mpr hknown
  exact close_eq hchecked ht hfn

theorem close_not_inUse {fd : Int} (h : ¬ (2 ≤ fd ∧ InUse k fd)) :
    close k fd = .ok (k, .ret (-1) []) := by
  unfold close
  split
  · rfl
  · rename_i hfd
    simp only
    rw [if_neg]
    intro hone
    exact h ⟨by omega, by omega, by omega, by rw [hone]; decide⟩

theorem read_not_inUse {fd : Int} (h : ¬ InUse k fd) (buf : Nat) (nbytes : Int) :
    Kernel.read img k fd buf nbytes = .ok (k, .ret (-1) []) :=
  (Reading.refused fun hc => h ⟨hc.1, hc.2.1, hc.2.2.2⟩).read_eq

theorem write_not_inUse {fd : Int} (h : ¬ InUse k fd) (buf : Nat) (data : Mem) (nbytes : Int) :
    write k fd buf data nbytes = .ok (k, .ret (-1) []) := by
  unfold write
  split
  · rfl
  · rename_i hfd
    simp only
    rw [if_pos]
    by_contra hflags
    exact h ⟨by omega, by omega, hflags⟩

/-- **A table in order obeys the law**, on images with known types. -/
theorem TableInv.allocationLaw (himg : TypesOk img) (h : TableInv img k.file) :
    AllocationLaw img k where
  opens filename := by
    by_cases hres : Reserved filename
    · obtain ⟨i, f, hi, heq⟩ := openFile_reserved img k hres
      refine ⟨_, 0, heq, Or.inl ⟨Or.inr rfl, fun fd h2 => ?_⟩⟩
      rw [file_setFile, Function.update_of_ne]
      rintro rfl
      exact absurd h2 (not_le.mpr hi)
    · rw [openFile_unreserved himg hres]
      cases hd : readDentryByName img filename with
      | none => exact ⟨k, -1, rfl, Or.inl ⟨Or.inl rfl, fun _ _ => rfl⟩⟩
      | some d =>
        cases hi : vacantFd k with
        | none => exact ⟨k, -1, rfl, Or.inl ⟨Or.inl rfl, fun _ _ => rfl⟩⟩
        | some i =>
          exact ⟨_, _, rfl, Or.inr ⟨i, _, rfl, vacantFd_eq_some_iff.mp hi, one_ne_zero, rfl⟩⟩
  refused filename hres := by
    rw [openFile_unreserved himg hres, ← readDentryByName_isSome_iff, ← vacantFd_eq_none_iff]
    cases hd : readDentryByName img filename with
    | none => simp
    | some d =>
      cases hi : vacantFd k with
      | none => simp
      | some i =>
        simp only [Except.ok.injEq, Prod.mk.injEq, Reply.ret.injEq, and_true]
        simp
  closes fd h2 hused := h.close_inUse himg h2 hused
  keeps fd hn := close_not_inUse hn
  restores filename k' v ho h2 := by
    have hnew := h.openFile (openFile_inv ho)
    cases openFile_inv ho with
    | stdin => exact absurd h2 (by decide)
    | stdout => exact absurd h2 (by decide)
    | refused => exact absurd h2 (by decide)
    | @opened d i hd hi2 hfree =>
      -- what `open` filled in is in use, and what it found there was a free descriptor
      have hused : ∀ f : FileDescriptor, f.flags ≠ 0 → InUse (k.setFile i f) (i.val : Int) := by
        intro f hf
        refine ⟨by omega, by omega, ?_⟩
        rwa [fdIndex_natCast, file_setFile_self]
      have hzero := h.free i hi2 (by rw [hfree]; decide)
      rw [hnew.close_inUse himg h2 (hused _ one_ne_zero), fdIndex_natCast, setFile_setFile, ← hzero,
        setFile_self]
  reads fd buf nbytes hn := read_not_inUse hn buf nbytes
  writes fd buf data nbytes hn := write_not_inUse hn buf data nbytes

/-! ## The count -/

/-- A descriptor from 2 on that is in use. -/
def Taken (i : Fin 8) (f : FileDescriptor) : Prop := 2 ≤ i.val ∧ f.flags ≠ 0

instance (i : Fin 8) (f : FileDescriptor) : Decidable (Taken i f) :=
  inferInstanceAs (Decidable (_ ∧ _))

/-- How many of the descriptors 2 to 7 are in use. -/
def usedCount (files : Fin 8 → FileDescriptor) : Nat := slotCount Taken files

/-- The descriptor table of process `p`. -/
def files (p : Nat) (k : State) : Fin 8 → FileDescriptor := (k.pcb (pcbAddr p)).fileArray

theorem files_counter (k : State) : files k.counter k = k.file := rfl

/-- An `open` of process `p` that returned a descriptor from 2 on. -/
def opened (p : Nat) (ev : Event) : Bool :=
  match ev.call, ev.reply with
  | .openFile _, .ret v _ => decide (ev.pid = p ∧ 2 ≤ v)
  | _, _ => false

/-- A `close` of process `p` that succeeded. -/
def closed (p : Nat) (ev : Event) : Bool :=
  match ev.call, ev.reply with
  | .close _, .ret v _ => decide (ev.pid = p ∧ v = 0)
  | _, _ => false

/-- Only a process's own calls count, and only those that do not switch. -/
theorem not_counted {p : Nat} {ev : Event} (h : ev.pid = p → Switches ev.call) :
    opened p ev = false ∧ closed p ev = false := by
  obtain ⟨pid, c, r⟩ := ev
  simp only at h
  have hne : ∀ b : Prop, [Decidable b] → ¬ Switches c → decide (pid = p ∧ b) = false := by
    intro b _ hsw
    simp only [decide_eq_false_iff_not]
    exact fun hb => hsw (h hb.1)
  cases c with
  | openFile filename =>
    cases r with
    | ret v out => exact ⟨hne _ id, rfl⟩
    | _ => exact ⟨rfl, rfl⟩
  | close fd =>
    cases r with
    | ret v out => exact ⟨rfl, hne _ id⟩
    | _ => exact ⟨rfl, rfl⟩
  | _ => exact ⟨rfl, rfl⟩

/-- Descriptors 0 and 1 do not count. -/
theorem usedCount_update_console (files : Fin 8 → FileDescriptor) {i : Fin 8} (hi : i < 2)
    (f : FileDescriptor) : usedCount (Function.update files i f) = usedCount files := by
  have hbal := slotCount_update Taken files i f
  rwa [if_neg (fun h => absurd h.1 (not_le.mpr hi)), if_neg (fun h => absurd h.1 (not_le.mpr hi)),
    Nat.add_zero, Nat.add_zero] at hbal

/-- **What a call does to the number of descriptors in use.** -/
theorem usedCount_step {c : Call} (hc : ¬ Switches c) (hs : step L img k c = .ok (k', r))
    (p : Nat) :
    usedCount k'.file + (if closed p ⟨p, c, r⟩ then 1 else 0) =
      usedCount k.file + if opened p ⟨p, c, r⟩ then 1 else 0 := by
  cases c with
  | halt status => exact absurd trivial hc
  | execute e => exact absurd trivial hc
  | read fd buf nbytes =>
    cases read_inv hs with
    | refused hn => rfl
    | @done t fn k₁ v out hch ht hfn hcall =>
      rw [file_setFile, (callRead_device hcall).file]
      -- the flag of the descriptor stays
      have hbal := slotCount_update Taken k.file (fdIndex fd) { k.file (fdIndex fd) with
        fileposition := toUInt32 (((k.file (fdIndex fd)).fileposition : Int) + v) }
      exact Nat.add_right_cancel hbal
  | write fd buf data nbytes =>
    rw [(write_inv hs).device.file]
    cases write_inv hs <;> rfl
  | openFile filename =>
    cases openFile_inv hs with
    | stdin =>
      rw [file_setFile, usedCount_update_console _ (by decide)]
      simp [Descriptor.opened, Descriptor.closed]
    | stdout =>
      rw [file_setFile, usedCount_update_console _ (by decide)]
      simp [Descriptor.opened, Descriptor.closed]
    | refused => simp [Descriptor.opened, Descriptor.closed]
    | @opened d i hd h2 hfree =>
      rw [file_setFile]
      have hbal := slotCount_update Taken k.file i
        (openedFile d filename (k.file i).fileOperation)
      rw [if_neg (fun h => h.2 hfree), if_pos ⟨h2, one_ne_zero⟩] at hbal
      have hcount : opened p ⟨p, .openFile filename, .ret (i.val : Int) []⟩ = true := by
        simp only [opened, decide_eq_true_eq, true_and]
        exact_mod_cast h2
      rw [hcount, if_pos rfl]
      exact hbal
  | close fd =>
    cases close_inv hs with
    | refused hn => simp [Descriptor.opened, Descriptor.closed]
    | closed hch =>
      rw [file_setFile]
      have hbal := slotCount_update Taken k.file (fdIndex fd) freeDescriptor
      rw [if_pos ⟨two_le_fdIndex hch.1 hch.2.1, by rw [hch.2.2]; exact one_ne_zero⟩,
        if_neg (fun h => h.2 rfl)] at hbal
      have hcount : Descriptor.closed p ⟨p, .close fd, .ret 0 []⟩ = true := by
        simp [Descriptor.closed]
      rw [hcount, if_pos rfl]
      exact hbal
  | _ =>
    obtain ⟨_, _, rfl⟩ := step_bystander hs trivial
    rfl

theorem usedCount_freshFiles : usedCount freshFiles = 0 := by
  decide

theorem usedCount_le (f : Fin 8 → FileDescriptor) : usedCount f ≤ 6 :=
  slotCount_le Taken (fun _ _ h => h.1) f

/-- A live process's table stays in order. -/
theorem TableInv.live {p : Nat} {ev : Event} (h6 : k.counter ≤ 6) (hlive : p ≤ ev.pid)
    (h : TableInv img (files p k)) (hs : KStep L img k ev k') : TableInv img (files p k') := by
  rcases kstep_own_or_frame h6 hlive hs with ⟨-, rfl, hc', hsw⟩ | ⟨hframe, -⟩
  · have hstep : TableInv img k'.file := TableInv.step h hsw hs.2.2
    rwa [file_eq, hc'] at hstep
  · unfold files
    rw [hframe]
    exact h

theorem usedCount_live {p : Nat} {ev : Event} (h6 : k.counter ≤ 6) (hlive : p ≤ ev.pid)
    (hs : KStep L img k ev k') :
    usedCount (files p k') + (if closed p ev then 1 else 0) =
      usedCount (files p k) + if opened p ev then 1 else 0 := by
  rcases kstep_own_or_frame h6 hlive hs with ⟨hp, rfl, hc', hsw⟩ | ⟨hframe, hother⟩
  · have hstep := usedCount_step hsw hs.2.2 k.counter
    rw [file_eq, hc'] at hstep
    obtain ⟨pid, c, r⟩ := ev
    obtain rfl : pid = k.counter := hp
    exact hstep
  · obtain ⟨ho, hc⟩ := not_counted hother
    unfold files
    rw [hframe, ho, hc]

/-- `execute` starts a process with a fresh table. -/
theorem files_execute {kp k₀ : State} {e : ExecArgs} {eip : Nat}
    (hx : execute L img kp e = .ok (k₀, .iret eip)) :
    k₀.counter ≤ 6 ∧ files k₀.counter k₀ = freshFiles := by
  cases execute_inv hx with
  | started hk hc ha hh hr hl =>
    refine ⟨?_, ?_⟩
    · rw [launched_counter]
      omega
    · rw [files_counter, launched_file]

/-- **Descriptor allocation**, for a process started by `execute` and any run of it and the
processes it starts: when it runs, its four calls obey the law; and at any time the number of its
descriptors in use is that of its `open`s that returned one minus that of its successful
`close`s. -/
theorem descriptor_allocation (L : Layout) (img : Image) (himg : TypesOk img) (kp k₀ : State)
    (e : ExecArgs) (eip : Nat) (hx : execute L img kp e = .ok (k₀, .iret eip)) (tr : List Event)
    (k : State) (ht : Trace (KStep L img) k₀ tr k) (hlive : ∀ ev ∈ tr, k₀.counter ≤ ev.pid) :
    (k.counter = k₀.counter → AllocationLaw img k) ∧
    (usedCount (files k₀.counter k) : Int) =
      tr.countP (opened k₀.counter) - tr.countP (closed k₀.counter) ∧
    usedCount (files k₀.counter k) ≤ 6 := by
  have hstart := files_execute hx
  have h6 : ∀ s ev t, k₀.counter ≤ ev.pid → s.counter ≤ 6 → KStep L img s ev t →
      t.counter ≤ 6 := fun s ev t _ hs hst => (step_effect hst.2.2).counter_le hs
  refine ⟨fun hrun => ?_, ?_, usedCount_le _⟩
  · have hinv : k.counter ≤ 6 ∧ TableInv img (files k₀.counter k) := by
      refine ht.invariant_of (I := fun s => s.counter ≤ 6 ∧ TableInv img (files k₀.counter s))
        (P := fun ev => k₀.counter ≤ ev.pid) ?_ hlive ⟨hstart.1, ?_⟩
      · exact fun s ev t hev hs hst => ⟨h6 s ev t hev hs.1 hst, hs.2.live hs.1 hev hst⟩
      · rw [hstart.2]
        exact tableInv_freshFiles img
    have hfile : TableInv img k.file := by
      rw [file_eq, hrun]
      exact hinv.2
    exact hfile.allocationLaw himg
  · have hbal : usedCount (files k₀.counter k) + tr.countP (closed k₀.counter) =
        usedCount (files k₀.counter k₀) + tr.countP (opened k₀.counter) :=
      ht.balance (f := fun s => usedCount (files k₀.counter s)) h6
        (fun s ev t hev hs hst => usedCount_live hs hev hst) hlive hstart.1
    rw [hstart.2, usedCount_freshFiles] at hbal
    omega

/-- The shell opens the directory: one descriptor in use, and the law for the calls that follow. -/
theorem descriptor_allocation_shell :
    AllocationLaw (demoImage 1) (demoShell.setFile 2 dotFile) ∧
    usedCount (files 1 (demoShell.setFile 2 dotFile)) = 1 := by
  have h := descriptor_allocation demoLayout (demoImage 1) demoImage_typesOk demoBoot demoShell
    (demoArgs shellText 0x7ffff0) 0x08048080 (shell_started (by decide) _ (Or.inl rfl))
    [⟨1, .openFile dotName, .ret 2 []⟩] _
    (.single ⟨rfl, ⟨trivial, Or.inl rfl⟩, open_dot demoShell_file⟩)
    (by simp [show demoShell.counter = 1 from rfl])
  rw [show demoShell.counter = 1 from rfl] at h
  refine ⟨h.1 rfl, ?_⟩
  have hcount := h.2.1
  rw [show [_].countP (opened 1) = 1 from rfl, show [_].countP (closed 1) = 0 from rfl] at hcount
  omega

/-- The shell has opened its own file as descriptor 2. `getargs`, with the address of
`file_array[2].flags` for a buffer, frees it: one `open`, no `close`, and none in use. -/
theorem getargs_over_flags : TypesOk (demoImage 1) ∧ Booted demoLayout (demoImage 1) demoShell ∧
    openFile (demoImage 1) demoShell shellName =
      .ok (demoShell.setFile 2 (openAt shellName shellEntry 0), .ret 2 []) ∧
    ∃ k, RawStep demoLayout (demoImage 1) (demoShell.setFile 2 (openAt shellName shellEntry 0))
        ⟨1, .getargs 0x7FE09C 4, .ret 0 [0, 0, 0, 0]⟩ k ∧
      usedCount (files 1 k) = 0 ∧ close k 2 = .ok (k, .ret (-1) []) := by
  have hgetargs : getargs (demoShell.setFile 2 (openAt shellName shellEntry 0)) 0x7FE09C 4 =
      (demoShell.setFile 2 (openAt shellName shellEntry 0), .ret 0 [0, 0, 0, 0]) := by
    unfold getargs
    rw [if_neg (by decide)]
    exact congrArg (fun out => (_, Reply.ret 0 out)) (by decide)
  refine ⟨demoImage_typesOk, demoShell_booted (Or.inl rfl), demoShell_open_shell, _,
    ⟨rfl, trivial, ?_, _, congrArg Except.ok hgetargs, rfl⟩, by decide,
    close_not_inUse fun h => h.2.2.2 (by decide)⟩
  rintro ⟨i, hi, hle, -⟩
  have hpcb : pcbAddr (demoShell.setFile 2 (openAt shellName shellEntry 0)).counter = 0x7FE000 := by
    decide
  simp only [List.length_cons, List.length_nil] at hi
  omega

/-! ## The entry `open` is asked for -/

/-- `open` opens entry `i` under its name, in a descriptor from 2 on. -/
def OpensEntry (img : Image) (k : State) (i : Nat) : Prop :=
  ∃ (k' : State) (j : Fin 8), openFile img k (img.entryName i) = .ok (k', .ret (j.val : Int) []) ∧
    2 ≤ j.val ∧ (k'.file j).fileName = img.entryName i ∧ (k'.file j).inode = img.dentryInode i ∧
    (k'.file j).fileOperation = typeTable (img.filetype i)

theorem tableFor_of_le {t : Nat} (h : t ≤ 2) (old : Option OpTable) :
    tableFor t old = typeTable t := by
  interval_cases t <;> rfl

/-- An entry whose name ends in its field is opened, unless the console takes its name. -/
theorem opensEntry_of_unreserved (h : NamesOk img) {i : Nat} (hi : i < img.dentriesNum)
    (htype : img.filetype i ≤ 2) (hlen : (img.entryName i).length ≤ 31)
    (hfree : ∃ fd : Fin 8, 2 ≤ fd ∧ (k.file fd).flags = 0) (hres : ¬ Reserved (img.entryName i)) :
    OpensEntry img k i := by
  have hname : img.filename i = img.entryName i := by
    rw [filename_eq_entryName_iff]
    omega
  rw [reserved_iff, not_or] at hres
  cases hj : vacantFd k with
  | none =>
    obtain ⟨fd, h2, hzero⟩ := hfree
    exact absurd hzero (vacantFd_eq_none_iff.mp hj fd h2)
  | some j =>
    refine ⟨_, j, openFile_eq hres.1 hres.2 (h.readDentryByName_eq hi hname) hj (by omega),
      (vacantFd_some hj).1, ?_⟩
    rw [file_setFile_self]
    exact ⟨rfl, rfl, tableFor_of_le htype _⟩

theorem not_opensEntry_of_reserved {i : Nat} (hres : Reserved (img.entryName i)) :
    ¬ OpensEntry img k i := by
  rintro ⟨k', j, hopen, h2, -⟩
  obtain ⟨_, _, -, heq⟩ := openFile_reserved img k hres
  rw [heq] at hopen
  simp only [Except.ok.injEq, Prod.mk.injEq, Reply.ret.injEq] at hopen
  have hval : (2 : Fin 8).val ≤ j.val := h2
  omega

/-- **`open` opens the file it is asked for**, and the console under the console's two names. -/
theorem open_entry (img : Image) (h : NamesOk img)
    (htypes : ∀ i < img.dentriesNum, img.filetype i ≤ 2)
    (hlen : ∀ i < img.dentriesNum, (img.entryName i).length ≤ 31) (k : State) :
    (∀ i < img.dentriesNum, ¬ Reserved (img.entryName i) →
      (∃ fd : Fin 8, 2 ≤ fd ∧ (k.file fd).flags = 0) → OpensEntry img k i) ∧
    openFile img k stdinName =
      .ok (k.setFile 0 { k.file 0 with fileOperation := some .stdinT, flags := 1 }, .ret 0 []) ∧
    ∃ v, openFile img k stdoutName = .ok
      (k.setFile 1 { k.file 1 with fileOperation := some .stdoutT, flags := 1 }, .ret v []) := by
  refine ⟨?_, ?_, 0, ?_⟩
  · exact fun i hi hres hfree =>
      opensEntry_of_unreserved h hi (htypes i hi) (hlen i hi) hfree hres
  · unfold openFile
    rw [if_pos (by decide)]
  · unfold openFile
    rw [if_neg (by decide), if_pos (by decide)]

/-- The shell opens the directory under its name. -/
theorem open_entry_dot : OpensEntry (demoImage 1) demoShell 0 := by
  have hcount : (demoImage 1).dentriesNum = 3 := by decide
  have hnames : NamesOk (demoImage 1) := by
    refine ⟨by decide, ?_, ?_⟩
    · rw [hcount]
      decide
    · rw [hcount]
      decide
  refine (open_entry (demoImage 1) hnames ?_ ?_ demoShell).1 0 (by omega) ?_
    ⟨2, le_rfl, by rw [demoShell_file]; rfl⟩
  · rw [hcount]
    decide
  · rw [hcount]
    decide
  · rw [reserved_iff]
    decide

/-- The small image with the entries `stdin` and `stdinfo.txt` after `.` and `shell`. -/
def consoleImage : Image :=
  let m := store (demoMem 1) 0 [4]
  let m := store m 192 (ascii ['s', 't', 'd', 'i', 'n'])
  let m := store m 256 (ascii ['s', 't', 'd', 'i', 'n', 'f', 'o', '.', 't', 'x', 't'])
  ⟨store m 288 [2, 0, 0, 0, 2]⟩

theorem consoleImage_started : execute demoLayout consoleImage demoBoot
    (demoArgs shellText 0x7ffff0) = .ok (demoShell, .iret 0x08048080) := by
  refine (Execution.started_at (by decide) rfl (by decide) commandName_shell
    ⟨?_, ?_⟩ ?_ ?_ ?_).execute_eq
  · change checkExecutable consoleImage (fun _ => 0) shellName ≠ -1
    decide
  · decide
  · decide
  · decide
  · change le32 (store (fun _ => 0) 0 (fileRead consoleImage localBuf 24 4 shellName).2) 0 = _
    decide

/-- Neither of the two opens: the name of the first is the console's, that of the second only begins
with it. -/
theorem console_names_not_opened : NamesOk consoleImage ∧
    (∀ i < consoleImage.dentriesNum, consoleImage.filetype i ≤ 2) ∧
    (∀ i < consoleImage.dentriesNum, (consoleImage.entryName i).length ≤ 31) ∧
    execute demoLayout consoleImage demoBoot (demoArgs shellText 0x7ffff0) =
      .ok (demoShell, .iret 0x08048080) ∧
    (∃ fd : Fin 8, 2 ≤ fd ∧ (demoShell.file fd).flags = 0) ∧
    consoleImage.dentriesNum = 4 ∧ consoleImage.entryName 2 = stdinName ∧
    (consoleImage.entryName 3).bytes =
      ascii ['s', 't', 'd', 'i', 'n', 'f', 'o', '.', 't', 'x', 't'] ∧
    ¬ OpensEntry consoleImage demoShell 2 ∧ ¬ OpensEntry consoleImage demoShell 3 := by
  have hcount : consoleImage.dentriesNum = 4 := by decide
  have hstdin : consoleImage.entryName 2 = stdinName := by decide
  have hinfo : (consoleImage.entryName 3).bytes =
      ascii ['s', 't', 'd', 'i', 'n', 'f', 'o', '.', 't', 'x', 't'] := by decide
  refine ⟨⟨?_, ?_, ?_⟩, ?_, ?_, consoleImage_started, ⟨2, le_rfl, ?_⟩, hcount, hstdin, hinfo,
    not_opensEntry_of_reserved (Or.inl ?_), not_opensEntry_of_reserved (Or.inl ?_)⟩
  · rw [hcount]
    decide
  · rw [hcount]
    decide
  · rw [hcount]
    decide
  · rw [hcount]
    decide
  · rw [hcount]
    decide
  · rw [demoShell_file]
    rfl
  · rw [hstdin]
    decide
  · rw [hinfo]
    decide

end MyOS.Descriptor
