import MyOS.Process.Stack

/-!
# The address space of every live process

Directories are reused from process to process, the two page tables are shared by all of them, and
entry 33 of a directory is written through the 4 MB layout by `create_paging`
(`mypaging.c:204-217`) and through the 4 KB layout by `vidmap` (`systemcall.c:458-470`).
`SpacesOk` says of each entry which write it holds, over whatever bits were there before; that is
all the walk reads.

* `addressSpace`: what a process should see, by virtual address.
* `pageWalk_eq`: a directory that meets `DirectoryOk` translates every address so.
* `SpacesOk.step` / `reaches_spacesOk`: every live directory does, in every reachable state; whether
  page 33 is there is read off the history (`MappedSince`).
* **`address_space`**: the two together, with the disjointness of the program pages.
* **`vidmap_all_or_nothing_iff`**: `vidmap` (`systemcall.c:451-494`) by itself. It checks the
  address of the first of the four bytes it stores, and the page behind the program's is the one
  it has just mapped.
-/

namespace MyOS.Process

open MyOS.Machine MyOS.Kernel

/-- What process number `process` sees, with `video` saying whether page `0x08400` is mapped. -/
def addressSpace (process : Nat) (video : Bool) (va : Nat) : Option Mapping :=
  if 0x08000000 ≤ va ∧ va < 0x08400000 then
    some ⟨(process + 1) * 0x400000 + (va - 0x08000000), true, true⟩
  else if 0x400000 ≤ va ∧ va < 0x800000 then some ⟨va, false, true⟩
  else if 0xB8000 ≤ va ∧ va < 0xB9000 then some ⟨va, true, true⟩
  else if video ∧ 0x08400000 ≤ va ∧ va < 0x08401000 then
    some ⟨0xB8000 + (va - 0x08400000), true, true⟩
  else none

/-! ## Directories and tables -/

/-- What the entries of a process's directory hold. -/
structure DirectoryOk (L : Layout) (d : Nat → Word) (process : Nat) (video : Prop) : Prop where
  low : ∃ w, d 0 = writeKB w L.pageTableShell
  kernel : ∃ w, d 1 = writeMB w 1 1 0 1 1 1
  program : ∃ w, d 32 = writeMB w 1 1 1 1 0 (process + 1)
  video_on : video → ∃ w, d 33 = writeKB w L.pageTableVideo
  video_off : ¬ video → ∃ w, d 33 = writeMB w 0 0 0 1 0 0
  rest : ∀ i, 2 ≤ i → i < 1024 → i ≠ 32 → i ≠ 33 → ∃ w, d i = writeMB w 0 0 0 1 0 0

/-- `page_table_shell` maps page 184 only. -/
def ShellTableOk (t : Nat → Word) : Prop :=
  ∀ i < 1024, ∃ w, t i = writePE w (if i = 184 then 1 else 0) i

/-- `page_table_video` maps its first page to page 184. -/
def VideoTableOk (t : Nat → Word) : Prop :=
  ∀ i < 1024, ∃ w, t i = writePE w (if i = 0 then 1 else 0) 184

variable {L : Layout} {img : Image} {k k' : State}

theorem shellTableOk_fillShell (t : Nat → Word) : ShellTableOk (fillShell t) := by
  intro i hi
  unfold fillShell
  rw [if_pos hi]
  exact ⟨t i, rfl⟩

theorem videoTableOk_fillVideo (t : Nat → Word) : VideoTableOk (fillVideo t) := by
  intro i hi
  unfold fillVideo
  rw [if_pos hi]
  exact ⟨t i, rfl⟩

/-- What `create_paging` builds owes nothing to what the directory held. -/
theorem directoryOk_create (process : Nat) (d : Nat → Word) :
    DirectoryOk L (createDirectory L process d) process False := by
  refine ⟨⟨d 0, rfl⟩, ⟨d 1, rfl⟩, ⟨_, rfl⟩, False.elim, fun _ => ⟨d 33, rfl⟩, ?_⟩
  intro i h2 hi h32 h33
  unfold createDirectory
  rw [if_neg (by omega), if_neg (by omega), if_pos hi, if_neg (show ¬ i = programImg from h32)]
  exact ⟨d i, rfl⟩

/-- `vidmap` turns entry 33 on and leaves the others. -/
theorem DirectoryOk.map {d : Nat → Word} {process : Nat} {video : Prop}
    (h : DirectoryOk L d process video) :
    DirectoryOk L (Function.update d videoMem (writeKB (d videoMem) L.pageTableVideo)) process
      True := by
  have hne : ∀ i, i ≠ 33 →
      Function.update d videoMem (writeKB (d videoMem) L.pageTableVideo) i = d i :=
    fun i hi => Function.update_of_ne hi _ _
  refine ⟨?_, ?_, ?_, fun _ => ⟨_, Function.update_self _ _ _⟩, fun hn => absurd trivial hn, ?_⟩
  · rw [hne 0 (by decide)]
    exact h.low
  · rw [hne 1 (by decide)]
    exact h.kernel
  · rw [hne 32 (by decide)]
    exact h.program
  · intro i h2 hi h32 h33
    rw [hne i h33]
    exact h.rest i h2 hi h32 h33

theorem DirectoryOk.congr {d : Nat → Word} {process : Nat} {v v' : Prop}
    (h : DirectoryOk L d process v) (hv : v ↔ v') : DirectoryOk L d process v' := by
  rwa [propext hv] at h

/-! ## The walk -/

/-- The walk reads the directory entry of the address. -/
theorem pageWalk_directory (p : Paging) (rest : Nat → Word) {q va : Nat} (hq : q < 6)
    (hva : va < 2 ^ 32) :
    pageWalk L p rest (L.pageDirectories + 4096 * q) va =
      walkEntry (physWord L p rest) (p.pageDirectories q (va / 2 ^ 22)) va := by
  obtain ⟨c, hc⟩ := L.directories_aligned
  have hbase : (L.pageDirectories + 4096 * q) / 2 ^ 12 * 2 ^ 12 = L.pageDirectories + 4096 * q := by
    omega
  unfold pageWalk walk
  rw [hbase, Nat.mod_eq_of_lt (by omega : va / 2 ^ 22 < 2 ^ 10),
    physWord_directory p rest hq (by omega)]

/-- A page table of the kernel page is found again from the base a directory entry gives it. -/
theorem table_base {a : Nat} (hal : 4096 ∣ a) (ha : a ≤ 0x800000) :
    a / 2 ^ 12 % 2 ^ 20 * 2 ^ 12 = a := by
  obtain ⟨c, rfl⟩ := hal
  omega

/-- Below 4 MB, only the screen is mapped. -/
theorem walkEntry_low {p : Paging} (rest : Nat → Word) (hs : ShellTableOk p.pageTableShell)
    (w : Word) {va : Nat} (hva : va < 0x400000) :
    walkEntry (physWord L p rest) (writeKB w L.pageTableShell) va =
      if 0xB8000 ≤ va ∧ va < 0xB9000 then some ⟨va, true, true⟩ else none := by
  have hmem := L.shell_mem
  have hi : va / 2 ^ 12 % 2 ^ 10 < 1024 := Nat.mod_lt _ (by decide)
  obtain ⟨w', hw'⟩ := hs _ hi
  rw [walkEntry_table (by simp) (by simp), base_writeKB, table_base L.shell_aligned (by omega),
    physWord_shell p rest hi, hw']
  unfold walkTable
  by_cases hpage : va / 2 ^ 12 % 2 ^ 10 = 184
  · rw [if_pos hpage, if_neg (by simp), if_pos (by omega)]
    simp
    omega
  · rw [if_neg hpage, if_pos (by simp), if_neg (by omega)]

/-- In the 4 MB after the program, only the first page can be mapped. -/
theorem walkEntry_video {p : Paging} (rest : Nat → Word) (hs : VideoTableOk p.pageTableVideo)
    (w : Word) {va : Nat} (hva : 0x08400000 ≤ va ∧ va < 0x08800000) :
    walkEntry (physWord L p rest) (writeKB w L.pageTableVideo) va =
      if va < 0x08401000 then some ⟨0xB8000 + (va - 0x08400000), true, true⟩ else none := by
  have hmem := L.video_mem
  have hi : va / 2 ^ 12 % 2 ^ 10 < 1024 := Nat.mod_lt _ (by decide)
  obtain ⟨w', hw'⟩ := hs _ hi
  rw [walkEntry_table (by simp) (by simp), base_writeKB, table_base L.video_aligned (by omega),
    physWord_video p rest hi, hw']
  unfold walkTable
  by_cases hpage : va / 2 ^ 12 % 2 ^ 10 = 0
  · rw [if_pos hpage, if_neg (by simp), if_pos (by omega)]
    simp
    omega
  · rw [if_neg hpage, if_pos (by simp), if_neg (by omega)]

/-- **The walk through a good directory**, for every 32-bit address. -/
theorem pageWalk_eq {p : Paging} (rest : Nat → Word) {process : Nat} {video : Bool}
    (h1 : 1 ≤ process) (h6 : process ≤ 6)
    (hd : DirectoryOk L (p.pageDirectories (process - 1)) process video)
    (hs : ShellTableOk p.pageTableShell) (hv : video → VideoTableOk p.pageTableVideo) {va : Nat}
    (hva : va < 2 ^ 32) :
    pageWalk L p rest (L.pageDirectories + 4096 * (process - 1)) va =
      addressSpace process video va := by
  rw [pageWalk_directory p rest (by omega) hva]
  unfold addressSpace
  -- the cases are the directory entries: 0, 1, 32, 33 and the rest
  rcases Nat.lt_or_ge va 0x400000 with hlow | hlow
  · obtain ⟨w, hw⟩ := hd.low
    rw [show va / 2 ^ 22 = 0 by omega, hw, walkEntry_low rest hs w hlow]
    by_cases hscreen : 0xB8000 ≤ va ∧ va < 0xB9000
    · rw [if_pos hscreen, if_neg (by omega), if_neg (by omega), if_pos hscreen]
    · rw [if_neg hscreen, if_neg (by omega), if_neg (by omega), if_neg hscreen, if_neg (by omega)]
  rcases Nat.lt_or_ge va 0x800000 with hker | hker
  · obtain ⟨w, hw⟩ := hd.kernel
    rw [show va / 2 ^ 22 = 1 by omega, hw, walkEntry_large (by simp) (by simp), if_neg (by omega),
      if_pos ⟨hlow, hker⟩]
    simp
    omega
  by_cases hprog : 0x08000000 ≤ va ∧ va < 0x08400000
  · obtain ⟨w, hw⟩ := hd.program
    rw [show va / 2 ^ 22 = 32 by omega, hw, walkEntry_large (by simp) (by simp), if_pos hprog]
    simp
    omega
  rw [if_neg hprog, if_neg (by omega), if_neg (by omega)]
  by_cases hvid : 0x08400000 ≤ va ∧ va < 0x08800000
  · rw [show va / 2 ^ 22 = 33 by omega]
    cases video with
    | true =>
      obtain ⟨w, hw⟩ := hd.video_on rfl
      rw [hw, walkEntry_video rest (hv rfl) w hvid]
      simp only [hvid, true_and]
    | false =>
      obtain ⟨w, hw⟩ := hd.video_off nofun
      rw [hw, walkEntry_absent (by simp)]
      rfl
  · obtain ⟨w, hw⟩ := hd.rest (va / 2 ^ 22) (by omega) (by omega) (by omega) (by omega)
    rw [hw, walkEntry_absent (by simp), if_neg (by omega)]

/-! ## Over runs -/

/-- A `vidmap` by process `p` that succeeded. -/
def VidmapBy (p : Nat) (ev : Event) : Prop :=
  ev.pid = p ∧ ∃ a out, ev.call = .vidmap a ∧ ev.reply = .ret 0 out

/-- A successful `execute` that made process `p`. -/
def Creates (p : Nat) (ev : Event) : Prop :=
  ev.pid + 1 = p ∧ ∃ e eip, ev.call = .execute e ∧ ev.reply = .iret eip

/-- A `vidmap` by `p` has succeeded since the `execute` that made `p`. -/
def MappedSince (tr : List Event) (p : Nat) : Prop := Since (VidmapBy p) (Creates p) tr

/-- The directories of the live processes and the tables they share, with `video` the processes
whose page 33 is mapped. -/
structure SpacesOk (L : Layout) (k : State) (video : Nat → Prop) : Prop where
  shell : ShellTableOk k.paging.pageTableShell
  videoTable : ∀ q, 1 ≤ q → q ≤ k.counter → video q → VideoTableOk k.paging.pageTableVideo
  directory : ∀ q, 1 ≤ q → q ≤ k.counter →
    DirectoryOk L (k.paging.pageDirectories (q - 1)) q (video q)

variable {video video' : Nat → Prop}

/-- Steps that leave the paging structures alone and make no process. -/
theorem SpacesOk.mono (h : SpacesOk L k video) (hc : k'.counter ≤ k.counter)
    (hd : k'.paging.pageDirectories = k.paging.pageDirectories)
    (hs : k'.paging.pageTableShell = k.paging.pageTableShell)
    (hv : k'.paging.pageTableVideo = k.paging.pageTableVideo)
    (hvid : ∀ q, video q ↔ video' q) : SpacesOk L k' video' := by
  refine ⟨?_, ?_, ?_⟩
  · rw [hs]
    exact h.shell
  · intro q h1 hq hq'
    rw [hv]
    exact h.videoTable q h1 (hq.trans hc) ((hvid q).mpr hq')
  · intro q h1 hq
    rw [hd]
    exact (h.directory q h1 (hq.trans hc)).congr (hvid q)

/-- A launched process has a new address space; the others keep theirs. -/
theorem spacesOk_launched {v : Nat → Prop} {e : ExecArgs} {arg : List UInt8} {entry : Nat}
    (h : ∀ q, 1 ≤ q → q ≤ k.counter →
      DirectoryOk L (k.paging.pageDirectories (q - 1)) q (v q) ∧
        (v q → VideoTableOk k.paging.pageTableVideo))
    (hk : k.counter < 6) (hnew : ¬ video' (k.counter + 1))
    (hold : ∀ q, q ≤ k.counter → (v q ↔ video' q)) :
    SpacesOk L (launched L k e arg entry) video' := by
  have hp : (launched L k e arg entry).paging = createPaging L (k.counter + 1) k.paging := rfl
  have hcreate : ¬ 7 ≤ k.counter + 1 := by omega
  unfold createPaging at hp
  rw [if_neg hcreate] at hp
  refine ⟨?_, ?_, ?_⟩
  · rw [hp]
    exact shellTableOk_fillShell _
  · intro q h1 hq hvid
    rw [hp]
    rw [launched_counter] at hq
    rcases Nat.lt_or_ge k.counter q with hlt | hle
    · obtain rfl : q = k.counter + 1 := by omega
      exact absurd hvid hnew
    · exact (h q h1 hle).2 ((hold q hle).mpr hvid)
  · intro q h1 hq
    rw [hp]
    rw [launched_counter] at hq
    simp only [Nat.add_sub_cancel]
    rcases Nat.lt_or_ge k.counter q with hlt | hle
    · obtain rfl : q = k.counter + 1 := by omega
      rw [Nat.add_sub_cancel, Function.update_self]
      exact (directoryOk_create _ _).congr ⟨False.elim, hnew⟩
    · rw [Function.update_of_ne (by omega)]
      exact ((h q h1 hle).1).congr (hold q hle)

/-- `vidmap` maps page 33 of the running process; the others keep theirs. -/
theorem SpacesOk.mapped (h : SpacesOk L k video) (hk : 1 ≤ k.counter)
    (hself : video' k.counter) (hold : ∀ q, q < k.counter → (video q ↔ video' q)) :
    SpacesOk L { k with paging := mapVideo L k.counter k.paging } video' := by
  refine ⟨h.shell, fun _ _ _ _ => videoTableOk_fillVideo _, ?_⟩
  intro q h1 hq
  simp only [mapVideo]
  rcases Nat.lt_or_ge q k.counter with hlt | hge
  · rw [Function.update_of_ne (by omega)]
    exact (h.directory q h1 hq).congr (hold q hlt)
  · obtain rfl : q = k.counter := Nat.le_antisymm hq hge
    rw [Function.update_self]
    exact (h.directory _ h1 hq).map.congr ⟨fun _ => hself, fun _ => trivial⟩

theorem mappedSince_snoc {tr : List Event} {ev : Event} {p : Nat} :
    MappedSince (tr ++ [ev]) p ↔ VidmapBy p ev ∨ MappedSince tr p ∧ ¬ Creates p ev := since_snoc

/-- An event that neither maps the screen for `p` nor makes `p`. -/
theorem mappedSince_snoc_of_not {tr : List Event} {ev : Event} {p : Nat} (hv : ¬ VidmapBy p ev)
    (hc : ¬ Creates p ev) : MappedSince tr p ↔ MappedSince (tr ++ [ev]) p := by
  rw [mappedSince_snoc]
  tauto

/-- So is an `execute` that returns to its caller. -/
theorem mappedSince_snoc_execute {tr : List Event} (pid : Nat) (e : ExecArgs) (v : Int) (p : Nat) :
    MappedSince tr p ↔ MappedSince (tr ++ [⟨pid, .execute e, .ret v []⟩]) p := by
  refine mappedSince_snoc_of_not ?_ ?_
  · rintro ⟨-, a, out, hcall, -⟩
    cases hcall
  · rintro ⟨-, e, eip, -, hreply⟩
    cases hreply

theorem SpacesOk.step {tr : List Event} {ev : Event} (himg : EntriesOk img) (hi : StackInv L k)
    (h : SpacesOk L k (MappedSince tr)) (hs : KStep L img k ev k') :
    SpacesOk L k' (MappedSince (tr ++ [ev])) := by
  obtain ⟨hpid, hesp, hstep⟩ := hs
  obtain ⟨pid, c, r⟩ := ev
  simp only at hpid hesp hstep
  subst hpid
  cases step_effect hstep with
  | @halted status _ _ hh =>
    have hkeep : ∀ q, MappedSince tr q ↔ MappedSince (tr ++ [⟨k.counter, .halt status, r⟩]) q :=
      fun q => by refine mappedSince_snoc_of_not ?_ ?_ <;> simp [VidmapBy, Creates]
    rw [halt_eq hi] at hh
    split at hh
    · cases hh
      exact h.mono le_rfl rfl rfl rfl hkeep
    · cases hh
      exact h.mono (Nat.sub_le _ _) rfl rfl rfl hkeep
  | executed hx =>
    cases hx with
    | full hk => exact h.mono le_rfl rfl rfl rfl (mappedSince_snoc_execute _ _ _)
    | null hk hc => exact h.mono le_rfl rfl rfl rfl (mappedSince_snoc_execute _ _ _)
    | rejected hk hc ha hh => exact h.mono le_rfl rfl rfl rfl (mappedSince_snoc_execute _ _ _)
    | unloadable hk hc ha hh hl => exact absurd hl.2 (himg.fileLoad_ne hh)
    | started hk hc ha hh hr hl =>
      refine spacesOk_launched (fun q h1 hq => ⟨h.directory q h1 hq, h.videoTable q h1 hq⟩) hk ?_ ?_
      · rw [mappedSince_snoc]
        simp [VidmapBy, Creates]
      · intro q hq
        refine mappedSince_snoc_of_not (by simp [VidmapBy]) ?_
        simp only [Creates]
        omega
  | mapped ha =>
    refine h.mapped hi.counter_pos ?_ ?_
    · rw [mappedSince_snoc]
      simp [VidmapBy]
    · intro q hq
      refine mappedSince_snoc_of_not ?_ (by simp [Creates])
      simp only [VidmapBy]
      omega
  | own hc ho =>
    refine h.mono ho.counter.le (by rw [ho.paging]) (by rw [ho.paging]) (by rw [ho.paging]) fun q =>
      mappedSince_snoc_of_not ?_ ?_
    · rintro ⟨-, a, out, rfl, rfl⟩
      simp [Quiet] at hc
    · rintro ⟨-, e, eip, rfl, rfl⟩
      simp [Quiet] at hc

theorem booted_spacesOk (h : Booted L img k) : SpacesOk L k (MappedSince []) := by
  obtain ⟨k0, e, entry, hb, -, hx⟩ := h
  have h0 := hb.counter_zero
  cases execute_inv hx with
  | started hk hc ha hh hr hl =>
    exact spacesOk_launched (v := fun _ => False) (fun q h1 hq => by omega) hk not_since_nil
      fun q hq => ⟨False.elim, not_since_nil⟩

/-- **Every live process of a reachable state has its address space**, and page 33 of a directory is
mapped by its process's own `vidmap`. -/
theorem reaches_spacesOk (himg : EntriesOk img) {tr : List Event} (h : Reaches L img tr k) :
    StackInv L k ∧ SpacesOk L k (MappedSince tr) := by
  obtain ⟨k0, hb, ht⟩ := h
  refine Trace.snoc_induction (P := fun tr k => StackInv L k ∧ SpacesOk L k (MappedSince tr))
    ⟨booted_stackInv hb, booted_spacesOk hb⟩ ?_ ht
  intro tr k ev k' _ hk hs
  exact ⟨hk.1.step himg hs, hk.2.step himg hk.1 hs⟩

/-- What a live process's directory translates to. -/
theorem SpacesOk.pageWalk (h : SpacesOk L k video) (hk : k.counter ≤ 6) {q : Nat} (h1 : 1 ≤ q)
    (hq : q ≤ k.counter) {v : Bool} (hv : v = true ↔ video q) (rest : Nat → Word) {va : Nat}
    (hva : va < 2 ^ 32) :
    pageWalk L k.paging rest (L.pageDirectories + 4096 * (q - 1)) va = addressSpace q v va := by
  refine pageWalk_eq rest h1 (hq.trans hk) ((h.directory q h1 hq).congr hv.symm) h.shell ?_ hva
  exact fun hvid => h.videoTable q h1 hq (hv.mp hvid)

/-- The program pages of two processes lie in different 4 MB frames, above the kernel's. -/
theorem addressSpace_program {process : Nat} (v : Bool) {va : Nat} (h1 : 1 ≤ process)
    (hva : 0x08000000 ≤ va ∧ va < 0x08400000) :
    ∃ m, addressSpace process v va = some m ∧ m.phys / 0x400000 = process + 1 ∧
      0x800000 ≤ m.phys := by
  unfold addressSpace
  rw [if_pos hva]
  exact ⟨_, rfl, by simp only; omega, by simp only; omega⟩

/-- Of the paging structures, entry 33 of the directory of process `process` and `page_table_video`
may differ. -/
structure VideoOnly (process : Nat) (p p' : Paging) : Prop where
  cr3 : p'.cr3 = p.cr3
  shell : p'.pageTableShell = p.pageTableShell
  directories : ∀ d i, ¬ (d = process - 1 ∧ i = videoMem) →
    p'.pageDirectories d i = p.pageDirectories d i

theorem videoOnly_mapVideo (L : Layout) (process : Nat) (p : Paging) :
    VideoOnly process p (mapVideo L process p) := by
  refine ⟨rfl, rfl, fun d i hne => ?_⟩
  simp only [mapVideo]
  by_cases hd : d = process - 1
  · subst hd
    rw [Function.update_self, Function.update_of_ne (fun hi => hne ⟨rfl, hi⟩)]
  · rw [Function.update_of_ne hd]

/-- A `vidmap` fails and changes and stores nothing, or it succeeds, changes the mapping of the
screen and nothing else, and stores four bytes, all in the program page. -/
def AllOrNothing (L : Layout) (k : State) (screenStart : Nat) : Prop :=
  vidmap L k screenStart = (k, .ret (-1) []) ∨
  ∃ paging' out, vidmap L k screenStart = ({ k with paging := paging' }, .ret 0 out) ∧
    VideoOnly k.counter k.paging paging' ∧ out.length = 4 ∧
    ∀ i < 4, 0x08000000 ≤ screenStart + i ∧ screenStart + i < 0x08400000

/-- **Where `vidmap` is all or nothing**: everywhere but at the last three addresses of the program
page. -/
theorem vidmap_all_or_nothing_iff (L : Layout) (k : State) (screenStart : Nat) :
    AllOrNothing L k screenStart ↔
      ¬ (0x083FFFFD ≤ screenStart ∧ screenStart ≤ 0x083FFFFF) := by
  unfold AllOrNothing vidmap
  by_cases hout : screenStart < 0x08000000 ∨ 0x08400000 ≤ screenStart
  · rw [if_pos hout]
    exact iff_of_true (Or.inl rfl) (by omega)
  · rw [if_neg hout]
    constructor
    · rintro (h | ⟨-, -, -, -, -, hin⟩)
      · cases (congrArg Prod.snd h)
      · have := hin 3 (by decide)
        omega
    · intro hlast
      refine Or.inr ⟨_, _, rfl, videoOnly_mapVideo L k.counter k.paging, rfl, fun i hi => ?_⟩
      omega

/-- At `0x083FFFFD` the shell's `vidmap` succeeds, and the last byte it stores is behind the program
page, at an address that it has mapped to the screen. -/
theorem vidmap_stores_on_screen :
    vidmap demoLayout demoShell 0x083FFFFD =
      ({ demoShell with paging := mapVideo demoLayout 1 demoShell.paging },
        .ret 0 [0x00, 0x00, 0x40, 0x08]) ∧
    addressSpace 1 true (0x083FFFFD + 3) = some ⟨0xB8000, true, true⟩ ∧
    ¬ AllOrNothing demoLayout demoShell 0x083FFFFD := by
  refine ⟨rfl, by decide, ?_⟩
  rintro (h | ⟨-, -, -, -, -, hin⟩)
  · cases (congrArg Prod.snd h)
  · exact absurd (hin 3 (by decide)).2 (by decide)

end MyOS.Process
