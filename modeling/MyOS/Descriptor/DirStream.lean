import MyOS.Descriptor.FileStream

/-!
# Scans of the directory

A regular file has its position in the descriptor. A directory has it in the global `entry_counter`
(`files.c:5`), which `open` and `close` do not reset: `directory_read` ignores the position it is
given (`files.c:224-261`). A stream of directory reads is therefore a stretch of one scan shared by
every descriptor of every process, and starts where the last reader, alive or not, stopped.

* `dirReply img j`: what a stream of its own would answer to its read number `j`.
* `step_entryCounter`: only a directory read moves the scan.
* `Undisturbed`: the condition on a step under which the stream behaves as if it were its own: no
  directory read through another descriptor.
* **`directory_stream`**: in every run of undisturbed steps, of any processes, from an `open` that
  finds the scan at its start, the first `dirCount + 1` replies are those of a stream of its own. As
  in every run of the system, `read` and `getargs` store in the program's page.
* `second_scan_starts_late`: reading one entry, closing and opening again.
-/

namespace MyOS.Descriptor

open MyOS.Machine MyOS.Kernel MyOS.Process

variable {L : Layout} {img : Image} {k k' : State} {r : Reply}

/-! ## What a stream of its own answers -/

/-- The reply to read number `j`: the name of entry `j`, in a buffer of 33 bytes, or 0 at the
end. -/
def dirReply (img : Image) (j : Nat) : Reply :=
  if j < img.dirCount then
    .ret (img.shortName j).length
      ((img.shortName j).bytes ++ List.replicate (33 - (img.shortName j).length) 0)
  else .ret 0 (List.replicate 33 0)

/-- Where the scan stands after a read at `n`. -/
def scanNext (img : Image) (n : Nat) : Nat := if n < img.dirCount then n + 1 else 0

theorem directoryRead_eq (img : Image) (n : Nat) :
    ∃ v out, directoryRead img n = (scanNext img n, v, out) ∧ dirReply img n = .ret v out := by
  unfold scanNext dirReply
  by_cases h : n < img.dirCount
  · rw [if_pos h, if_pos h, directoryRead_entry h]
    exact ⟨_, _, rfl, rfl⟩
  · rw [if_neg h, if_neg h, directoryRead_end (by omega)]
    exact ⟨_, _, rfl, rfl⟩

/-- A read of the directory stores 33 bytes, however many were asked for. -/
theorem dirReply_bufOk {fd nbytes : Int} {buf : Nat} (j : Nat) (h : InProgram buf 33) :
    BufOk (.read fd buf nbytes) (dirReply img j) := by
  unfold dirReply
  by_cases hj : j < img.dirCount
  · rw [if_pos hj]
    have hlen : (img.shortName j).length ≤ 32 := List.length_take_le 32 _
    refine Or.inr ?_
    change InProgram buf ((img.shortName j).bytes ++ _).length
    rw [List.length_append, List.length_replicate]
    change InProgram buf ((img.shortName j).length + (33 - (img.shortName j).length))
    rwa [show (img.shortName j).length + (33 - (img.shortName j).length) = 33 by omega]
  · rw [if_neg hj]
    exact Or.inr h

/-- The replies to the reads of process `p` through its descriptor `i`, with a buffer. -/
def dirReplies (p : Nat) (i : Fin 8) (tr : List Event) : List Reply :=
  tr.filterMap fun ev =>
    match ev.call with
    | .read fd buf _ => if ev.pid = p ∧ fd = i.val ∧ buf ≠ 0 then some ev.reply else none
    | _ => none

/-- The call gets to `directory_read`. -/
def ReadsDirectory (k : State) : Call → Prop
  | .read fd buf nbytes => Checked k (.read fd buf nbytes) ∧
      (k.file (fdIndex fd)).fileOperation = some .directoryT
  | _ => False

/-- A step while process `p` has descriptor `i` open, with no directory read but through it. -/
structure Undisturbed (p : Nat) (i : Fin 8) (k : State) (ev : Event) : Prop where
  live : p ≤ ev.pid
  kept : ev.pid = p → ev.call ≠ .close i.val
  alone : ReadsDirectory k ev.call → ev.pid = p ∧ ∃ buf nbytes, ev.call = .read i.val buf nbytes

/-! ## The scan -/

/-- **Only a directory read moves the scan.** -/
theorem step_entryCounter {c : Call} (hc : ¬ ReadsDirectory k c)
    (hs : step L img k c = .ok (k', r)) : k'.entryCounter = k.entryCounter := by
  cases c with
  | halt status =>
    simp only [step, halt] at hs
    split at hs <;> (cases hs; rfl)
  | execute e =>
    cases execute_inv hs with
    | full hk => rfl
    | null hk hc => rfl
    | rejected hk hc ha hh => rfl
    | unloadable hk hc ha hh hl => rfl
    | started hk hc ha hh hr hl => rfl
  | read fd buf nbytes =>
    cases read_inv hs with
    | refused hn => rfl
    | @done t fn k₁ v out hch ht hfn hcall =>
      obtain ⟨kb, n, rfl, hn⟩ := callRead_inv hcall
      refine hn ?_
      rintro rfl
      have hdir : t = .directoryT := by cases t <;> first | rfl | cases hfn
      exact hc ⟨hch, hdir ▸ ht⟩
  | openFile filename =>
    cases openFile_inv hs with
    | stdin => rfl
    | stdout => rfl
    | refused => rfl
    | opened hd h2 hfree => rfl
  | close fd =>
    cases close_inv hs with
    | refused hn => rfl
    | closed hc => rfl
  | write fd buf data nbytes =>
    obtain ⟨kb, a, rfl⟩ := (write_inv hs).devices
    rfl
  | _ =>
    obtain ⟨p, kb, rfl⟩ := step_bystander hs trivial
    rfl

/-- **A directory read answers at the position of the scan and moves it.** -/
theorem read_directory {i : Fin 8} {buf : Nat} (hbuf : buf ≠ 0) (nbytes : Int)
    (hop : (k.file i).fileOperation = some .directoryT) (hflags : (k.file i).flags = 1) :
    ∃ pos, Kernel.read img k i.val buf nbytes =
      .ok ({ k with entryCounter := scanNext img k.entryCounter }.setFile i
        { k.file i with fileposition := pos }, dirReply img k.entryCounter) := by
  have hc := checked_read (by rw [hflags]; exact one_ne_zero) hbuf nbytes
  have ht : (k.file (fdIndex i.val)).fileOperation = some .directoryT := by
    rw [fdIndex_natCast, hop]
  obtain ⟨v, out, hread, hreply⟩ := directoryRead_eq img k.entryCounter
  have hcall : callRead img k (k.file (fdIndex i.val)) buf nbytes .directoryRead =
      .ok ({ k with entryCounter := scanNext img k.entryCounter }, v, out) := by
    simp only [callRead, hread]
  rw [(Reading.done hc ht rfl hcall).read_eq, fdIndex_natCast, hreply]
  exact ⟨_, rfl⟩

/-! ## Streams over runs of all processes -/

/-- Descriptor `i` of process `p` is open on the directory. -/
def DirOpen (p : Nat) (i : Fin 8) (k : State) : Prop :=
  ((k.pcb (pcbAddr p)).fileArray i).fileOperation = some .directoryT ∧
    ((k.pcb (pcbAddr p)).fileArray i).flags = 1

theorem dirOpen_current {i : Fin 8} : DirOpen k.counter i k ↔
    (k.file i).fileOperation = some .directoryT ∧ (k.file i).flags = 1 := Iff.rfl

/-- A step of any live process that is not a `read` through the descriptor or its `close` keeps it
open. -/
theorem DirOpen.step {p : Nat} {i : Fin 8} {ev : Event} (h6 : k.counter ≤ 6) (h2 : 2 ≤ i)
    (h : DirOpen p i k) (hlive : p ≤ ev.pid) (hkept : ev.pid = p → ev.call ≠ .close i.val)
    (hread : ev.pid = p → ∀ buf nbytes, ev.call ≠ .read i.val buf nbytes)
    (hs : KStep L img k ev k') : DirOpen p i k' := by
  unfold DirOpen
  rcases kstep_own_or_frame h6 hlive hs with ⟨hp, rfl, hc', hsw⟩ | ⟨hframe, -⟩
  · have hflags : (k.file i).flags ≠ 0 := by
      rw [file_eq, h.2]
      exact one_ne_zero
    have hfile := step_file_of_ne h2 hflags hsw (hread hp) (hkept hp) hs.2.2
    rw [file_eq, file_eq, hc'] at hfile
    rw [hfile]
    exact h
  · rw [hframe]
    exact h

/-- **The stream of descriptor `i` of process `p`** after the events `tr`. -/
structure Scanning (img : Image) (p : Nat) (i : Fin 8) (tr : List Event) (k : State) : Prop where
  counter_le : k.counter ≤ 6
  isOpen : DirOpen p i k
  replies : (dirReplies p i tr).length ≤ img.dirCount + 1 →
    dirReplies p i tr = (List.range (dirReplies p i tr).length).map (dirReply img)
  position : (dirReplies p i tr).length ≤ img.dirCount →
    k.entryCounter = (dirReplies p i tr).length

theorem dirReplies_snoc (p : Nat) (i : Fin 8) (tr : List Event) (ev : Event) :
    dirReplies p i (tr ++ [ev]) = dirReplies p i tr ++ dirReplies p i [ev] := by
  unfold dirReplies
  rw [List.filterMap_append]

/-- Events that answer no read through the descriptor. -/
theorem dirReplies_of_not {p : Nat} {i : Fin 8} {ev : Event}
    (h : ∀ buf nbytes, ev.pid = p → buf ≠ 0 → ev.call ≠ .read i.val buf nbytes) :
    dirReplies p i [ev] = [] := by
  unfold dirReplies
  rw [List.filterMap_cons, List.filterMap_nil]
  split
  · rfl
  · rename_i b hb
    split at hb
    · rename_i fd buf nbytes hcall
      split at hb
      · rename_i hcond
        obtain ⟨hp, rfl, hbuf⟩ := hcond
        exact absurd hcall (h buf nbytes hp hbuf)
      · cases hb
    · cases hb

theorem dirReplies_read {p : Nat} {i : Fin 8} {buf : Nat} (hbuf : buf ≠ 0) (nbytes : Int)
    (r : Reply) : dirReplies p i [⟨p, .read i.val buf nbytes, r⟩] = [r] := by
  simp [dirReplies, hbuf]

/-- A read through the descriptor: the scan stands at the number of replies so far. -/
theorem Scanning.ownRead {p : Nat} {i : Fin 8} {tr : List Event} {buf : Nat} {nbytes : Int}
    (h : Scanning img p i tr k) (hbuf : buf ≠ 0)
    (hs : KStep L img k ⟨p, .read i.val buf nbytes, r⟩ k') :
    Scanning img p i (tr ++ [⟨p, .read i.val buf nbytes, r⟩]) k' := by
  have h6' := (step_effect hs.2.2).counter_le h.counter_le
  obtain ⟨hkp, -, hstep⟩ := hs
  simp only at hkp hstep
  subst hkp
  obtain ⟨hop, hflags⟩ := dirOpen_current.mp h.isOpen
  have hreadeq : ∃ pos, Kernel.read img k i.val buf nbytes = _ :=
    read_directory hbuf nbytes hop hflags
  obtain ⟨pos, hreadeq⟩ := hreadeq
  simp only [Kernel.step] at hstep
  rw [hreadeq] at hstep
  cases hstep
  have hsnoc := dirReplies_snoc k.counter i tr
    ⟨k.counter, .read i.val buf nbytes, dirReply img k.entryCounter⟩
  rw [dirReplies_read hbuf] at hsnoc
  have hlen := congrArg List.length hsnoc
  rw [List.length_append, List.length_singleton] at hlen
  refine ⟨h6', ?_, ?_, ?_⟩
  · refine dirOpen_current.mpr ?_
    rw [file_setFile_self]
    exact ⟨hop, hflags⟩
  · intro hle
    rw [hlen, hsnoc, List.range_succ, List.map_append, h.position (by omega)]
    rw [← h.replies (by omega)]
    rfl
  · intro hle
    rw [hlen, ← h.position (by omega)]
    exact if_pos (by rw [h.position (by omega)]; omega)

/-- Anything else leaves the scan, the replies and the descriptor as they are. -/
theorem Scanning.otherStep {p : Nat} {i : Fin 8} {tr : List Event} {ev : Event} (h2 : 2 ≤ i)
    (h : Scanning img p i tr k) (hu : Undisturbed p i k ev) (hs : KStep L img k ev k')
    (hread : ¬ (ev.pid = p ∧ ∃ buf nbytes, buf ≠ 0 ∧ ev.call = .read i.val buf nbytes)) :
    Scanning img p i (tr ++ [ev]) k' := by
  have h6' := (step_effect hs.2.2).counter_le h.counter_le
  have hnone : dirReplies p i [ev] = [] :=
    dirReplies_of_not fun buf nbytes hp hbuf hcall => hread ⟨hp, buf, nbytes, hbuf, hcall⟩
  have hsame : dirReplies p i (tr ++ [ev]) = dirReplies p i tr := by
    rw [dirReplies_snoc, hnone, List.append_nil]
  have hquiet : ¬ ReadsDirectory k ev.call := by
    intro hd
    obtain ⟨hp, buf, nbytes, hcall⟩ := hu.alone hd
    rw [hcall] at hd
    exact hread ⟨hp, buf, nbytes, hd.1.2.2.1, hcall⟩
  have hscan := step_entryCounter hquiet hs.2.2
  refine ⟨h6', ?_, by rw [hsame]; exact h.replies, by rw [hsame, hscan]; exact h.position⟩
  by_cases hnull : ev.pid = p ∧ ∃ nbytes, ev.call = .read i.val 0 nbytes
  · obtain ⟨-, nbytes, hcall⟩ := hnull
    have hstep := hs.2.2
    rw [hcall] at hstep
    simp only [Kernel.step] at hstep
    rw [read_null] at hstep
    rw [← (Prod.mk.inj (Except.ok.inj hstep)).1]
    exact h.isOpen
  · refine h.isOpen.step h.counter_le h2 hu.live hu.kept ?_ hs
    intro hp buf nbytes hcall
    by_cases hbuf : buf = 0
    · exact hnull ⟨hp, nbytes, hbuf ▸ hcall⟩
    · exact hread ⟨hp, buf, nbytes, hbuf, hcall⟩

/-- **One undisturbed step keeps the stream.** -/
theorem Scanning.step {p : Nat} {i : Fin 8} {tr : List Event} {ev : Event} (h2 : 2 ≤ i)
    (h : Scanning img p i tr k) (hu : Undisturbed p i k ev) (hs : KStep L img k ev k') :
    Scanning img p i (tr ++ [ev]) k' := by
  by_cases hread : ev.pid = p ∧ ∃ buf nbytes, buf ≠ 0 ∧ ev.call = .read i.val buf nbytes
  · obtain ⟨hpid, buf, nbytes, hbuf, hcall⟩ := hread
    obtain ⟨pid, c, r⟩ := ev
    simp only at hpid hcall
    subst hpid
    subst hcall
    exact h.ownRead hbuf hs
  · exact h.otherStep h2 hu hs hread

/-- **Directory streams that nothing disturbs.** Process `k.counter` opens the directory while the
scan is at its start. In every run of all processes without a directory read through another
descriptor, up to its close, the first `dirCount + 1` replies of the reads through the descriptor
are the names of entries 0, 1, 2, … in order, then 0. -/
theorem directory_stream (L : Layout) (img : Image) (past : List Event) (k k₀ : State)
    (hreach : Reaches L img past k) (i : Fin 8) (h2 : 2 ≤ i) (name : CString) (d : Dentry)
    (hd : readDentryByName img name = some d) (htype : d.filetype = 1)
    (hopen : openFile img k name = .ok (k₀, .ret (i.val : Int) [])) (hstart : k.entryCounter = 0)
    (tr : List Event) (k' : State)
    (ht : Trace (fun s ev t => Undisturbed k.counter i s ev ∧ KStep L img s ev t) k₀ tr k')
    (hn : (dirReplies k.counter i tr).length ≤ img.dirCount + 1) :
    dirReplies k.counter i tr =
      (List.range (dirReplies k.counter i tr).length).map (dirReply img) := by
  have hcounter : k₀.counter = k.counter := (openFile_own hopen).counter
  have hfile := openFile_start h2 hd hopen
  have hscan : k₀.entryCounter = k.entryCounter :=
    step_entryCounter (L := L) (c := .openFile name) id hopen
  have hstart' : Scanning img k.counter i [] k₀ := by
    refine ⟨?_, ?_, fun _ => rfl, fun _ => ?_⟩
    · rw [hcounter]
      exact reaches_counter_le hreach
    · rw [← hcounter]
      refine dirOpen_current.mpr ?_
      rw [hfile, htype]
      exact ⟨rfl, rfl⟩
    · rw [hscan, hstart]
      rfl
  have hrun : Scanning img k.counter i tr k' := by
    refine Trace.snoc_induction (P := fun tr k' => Scanning img k.counter i tr k') hstart' ?_ ht
    intro tr k₁ ev k₂ _ ih hs
    exact ih.step h2 hs.1 hs.2
  exact hrun.replies hn

/-! ## On the small image -/

/-- Descriptor 2 is open on the directory. -/
def OnDot (k : State) : Prop := ∃ pos, k.file (fdIndex 2) = { dotFile with fileposition := pos }

/-- A read through the open directory, with what the states after it have in common. -/
theorem read_dot (h : OnDot k) : ∃ k',
    KStep demoLayout (demoImage 1) k
      ⟨k.counter, .read 2 0x08048000 32, dirReply (demoImage 1) k.entryCounter⟩ k' ∧
    k'.counter = k.counter ∧ k'.entryCounter = scanNext (demoImage 1) k.entryCounter ∧
    OnDot k' ∧ ∃ f, k'.file = Function.update k.file 2 f := by
  obtain ⟨pos, hfile⟩ := h
  have htwo : fdIndex 2 = 2 := rfl
  rw [htwo] at hfile
  obtain ⟨pos', hread⟩ : ∃ pos', Kernel.read (demoImage 1) k 2 0x08048000 32 = _ :=
    read_directory (i := 2) (by decide) 32 (by rw [hfile]; rfl) (by rw [hfile]; rfl)
  refine ⟨_, ⟨rfl, ⟨trivial, dirReply_bufOk _ ⟨by decide, by decide⟩⟩, hread⟩, rfl, rfl,
    ⟨pos', ?_⟩, _, file_setFile _ _⟩
  rw [htwo, file_setFile_self, hfile]

/-- The directory, just opened. -/
theorem onDot_opened (k : State) : OnDot (k.setFile 2 dotFile) := ⟨0, file_setFile_self _ _⟩

/-- A read of 32 bytes through descriptor 2 of the shell. -/
def dotRead (r : Reply) : Event := ⟨1, .read 2 0x08048000 32, r⟩

/-- The shell opens the directory and reads it to its end: three names, and 0. -/
theorem directory_stream_shell : ∃ r₀ r₁ r₂ r₃ k,
    Trace (KStep demoLayout (demoImage 1)) (demoShell.setFile 2 dotFile)
      [dotRead r₀, dotRead r₁, dotRead r₂, dotRead r₃] k ∧
    [r₀, r₁, r₂, r₃] = (List.range 4).map (dirReply (demoImage 1)) := by
  obtain ⟨k₁, h₁, hc₁, -, hd₁, -⟩ := read_dot (onDot_opened demoShell)
  obtain ⟨k₂, h₂, hc₂, -, hd₂, -⟩ := read_dot hd₁
  obtain ⟨k₃, h₃, hc₃, -, hd₃, -⟩ := read_dot hd₂
  obtain ⟨k₄, h₄, -⟩ := read_dot hd₃
  have hcount : (demoImage 1).dirCount = 3 := by decide
  have hone : (demoShell.setFile 2 dotFile).counter = 1 := rfl
  rw [hone] at hc₁
  rw [hc₁] at hc₂ h₂
  rw [hc₂] at hc₃ h₃
  rw [hc₃] at h₄
  have hrun : Trace (KStep demoLayout (demoImage 1)) (demoShell.setFile 2 dotFile)
      [dotRead _, dotRead _, dotRead _, dotRead _] k₄ :=
    .cons h₁ (.cons h₂ (.cons h₃ (.single h₄)))
  -- the shell's own reads disturb nothing
  have hown := hrun.mono_of (P := fun ev => ∃ r, ev = dotRead r)
    (fun s ev t hev hs => (⟨by
      obtain ⟨r, rfl⟩ := hev
      exact ⟨le_rfl, fun _ => nofun, fun _ => ⟨rfl, _, _, rfl⟩⟩, hs⟩ :
        Undisturbed demoShell.counter 2 s ev ∧ KStep demoLayout (demoImage 1) s ev t))
    (by simp)
  refine ⟨_, _, _, _, k₄, hrun, ?_⟩
  exact directory_stream demoLayout (demoImage 1) [] demoShell _
    ⟨demoShell, demoShell_booted (Or.inl rfl), .nil _⟩ 2 (by decide) dotName ⟨dotName, 1, 0⟩
    readDentryByName_dot rfl (open_dot demoShell_file) rfl _ k₄ hown
    (by rw [hcount]; exact le_rfl)

/-- The shell reads one entry, closes the directory and opens it again: its first read then returns
entry 1. -/
theorem second_scan_starts_late :
    Booted demoLayout (demoImage 1) demoShell ∧
    dirReply (demoImage 1) 1 ≠ dirReply (demoImage 1) 0 ∧
    ∃ k k', Trace (KStep demoLayout (demoImage 1)) demoShell
        [⟨1, .openFile dotName, .ret 2 []⟩,
          ⟨1, .read 2 0x08048000 32, dirReply (demoImage 1) 0⟩, ⟨1, .close 2, .ret 0 []⟩,
          ⟨1, .openFile dotName, .ret 2 []⟩] k ∧
      step demoLayout (demoImage 1) k (.read 2 0x08048000 32) =
        .ok (k', dirReply (demoImage 1) 1) := by
  obtain ⟨k₂, hread, hcounter, hscan, ⟨pos, hdot⟩, f, hfile₂⟩ := read_dot (onDot_opened demoShell)
  have hclose : close k₂ 2 = .ok (k₂.setFile 2 freeDescriptor, .ret 0 []) := by
    refine close_eq (t := .directoryT) ⟨by decide, by decide, ?_⟩ ?_ rfl
    · rw [hdot]
      rfl
    · rw [hdot]
      rfl
  have hfresh : (k₂.setFile 2 freeDescriptor).file = freshFiles := by
    rw [file_setFile, hfile₂, file_setFile, demoShell_file]
    simp only [Function.update_idem]
    exact Function.update_eq_self (f := freshFiles) 2
  obtain ⟨k₅, hread', -⟩ := read_dot (onDot_opened (k₂.setFile 2 freeDescriptor))
  refine ⟨demoShell_booted (Or.inl rfl), by decide,
    (k₂.setFile 2 freeDescriptor).setFile 2 dotFile, k₅, ?_, ?_⟩
  · have hquiet : ∀ r, BufOk (.openFile dotName) r ∧ BufOk (.close 2) r :=
      fun r => ⟨Or.inl rfl, Or.inl rfl⟩
    refine .cons ⟨rfl, ⟨trivial, (hquiet _).1⟩, open_dot demoShell_file⟩ (.cons hread
      (.cons ⟨hcounter.symm, ⟨trivial, (hquiet _).2⟩, hclose⟩
        (.single ⟨hcounter.symm, ⟨trivial, (hquiet _).1⟩, open_dot hfresh⟩)))
  · have hone : ((k₂.setFile 2 freeDescriptor).setFile 2 dotFile).entryCounter = 1 := hscan
    rw [← hone]
    exact hread'.2.2

end MyOS.Descriptor
