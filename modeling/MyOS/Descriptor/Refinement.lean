import MyOS.Descriptor.Service
import MyOS.Machine.Client

/-!
# The kernel does what it is for

* `streamOf`, `frameOf`, `diskOf`, `serviceOf`: the service that a kernel state and a disk image
  stand for.
* `Sound`: what a kernel state must hold for that: the processes are stacked, each table is in
  order, and each argument is a string that fits.
* **`Sound.serves`**: one step of the kernel is one step of the service, and keeps the state sound.
* **`kernel_serves`**: so every run of a booted system whose calls store in the program's page is a
  run of the service, event by event, on images with good block lists and known types.
-/

namespace MyOS.Descriptor

open MyOS.Machine MyOS.Kernel MyOS.Process

/-! ## What a kernel state stands for -/

/-- The contents of the file with inode `n`. -/
def contents (img : Image) (n : Nat) : List UInt8 := img.fileSlice n 0 (img.inodeLength n)

/-- The stream a directory entry opens. -/
def entryStream (img : Image) (d : Dentry) : Option Stream :=
  if d.filetype = 2 then some (.file (contents img d.inode) 0)
  else if d.filetype = 1 then some .directory
  else if d.filetype = 0 then some .clock
  else none

/-- The disk of an image. -/
def diskOf (img : Image) : Disk where
  lookup name := (readDentryByName img name).bind (entryStream img)
  names := (List.range img.dirCount).map img.shortName

theorem diskOf_ok (img : Image) : (diskOf img).Ok := by
  refine ⟨fun {name st} h => ?_, fun name hname => ?_⟩
  · obtain ⟨d, -, hd⟩ := Option.bind_eq_some_iff.mp h
    unfold entryStream at hd
    split at hd
    · cases hd
      exact ⟨nofun, nofun⟩
    · split at hd
      · cases hd
        exact ⟨nofun, nofun⟩
      · split at hd
        · cases hd
          exact ⟨nofun, nofun⟩
        · cases hd
  · obtain ⟨i, -, rfl⟩ := List.mem_map.mp hname
    exact List.length_take_le 32 _

/-- The stream a descriptor stands for. -/
def streamOf (img : Image) (f : FileDescriptor) : Option Stream :=
  if f.flags = 0 then none
  else
    match f.fileOperation with
    | none => none
    | some .stdinT => some .keyboard
    | some .stdoutT => some .console
    | some .rtcT => some .clock
    | some .directoryT => some .directory
    | some .fileT => some (.file (contents img f.inode) f.fileposition)

/-- The process a PCB stands for. -/
def frameOf (img : Image) (p : Pcb) : Frame where
  table fd := streamOf img (p.fileArray fd)
  arg := CString.ofMem p.arg 1024 0

/-- The process `j`. -/
def processOf (img : Image) (k : State) (j : Nat) : Frame := frameOf img (k.pcb (pcbAddr j))

/-- The processes 1 to `n`, the uppermost first. -/
def stackOf (img : Image) (k : State) : Nat → List Frame
  | 0 => []
  | n + 1 => processOf img k (n + 1) :: stackOf img k n

/-- The service a kernel state stands for. -/
def serviceOf (img : Image) (k : State) : Service where
  running := processOf img k k.counter
  waiting := stackOf img k (k.counter - 1)
  scan := k.entryCounter
  parsed := k.argSize

variable {L : Layout} {img : Image} {k k' : State} {r : Reply}

theorem length_stackOf (img : Image) (k : State) : ∀ n, (stackOf img k n).length = n
  | 0 => rfl
  | n + 1 => congrArg (· + 1) (length_stackOf img k n)

theorem stackOf_congr : ∀ {n : Nat}, (∀ j, 1 ≤ j → j ≤ n → k'.pcb (pcbAddr j) = k.pcb (pcbAddr j)) →
    stackOf img k' n = stackOf img k n
  | 0, _ => rfl
  | n + 1, h => by
    unfold stackOf processOf
    rw [h (n + 1) (by omega) (by omega), stackOf_congr fun j hj hj' => h j hj (by omega)]

/-- The descriptors and arguments of the processes are all in the PCBs. -/
theorem serviceOf_eq (hc : k'.counter = k.counter) (hp : k'.pcb = k.pcb) : serviceOf img k' =
    { serviceOf img k with scan := k'.entryCounter, parsed := k'.argSize } := by
  have hstack : stackOf img k' (k.counter - 1) = stackOf img k (k.counter - 1) :=
    stackOf_congr fun j _ _ => by rw [hp]
  unfold serviceOf
  simp only [hc, hstack, processOf, hp]

/-- The service with process `n + 1` on top. -/
theorem serviceOf_of_counter {n : Nat} (hp : k'.pcb = k.pcb) (hc : k'.counter = n + 1) :
    serviceOf img k' =
      ⟨processOf img k (n + 1), stackOf img k n, k'.entryCounter, k'.argSize⟩ := by
  have hstack : stackOf img k' n = stackOf img k n := stackOf_congr fun j _ _ => by rw [hp]
  unfold serviceOf
  simp only [hc, Nat.add_sub_cancel, hstack, processOf, hp]

/-! ## Sound states -/

/-- Every position is a `uint32_t`. -/
def PositionsOk (files : Fin 8 → FileDescriptor) : Prop := ∀ fd, (files fd).fileposition < 2 ^ 32

/-- The PCB of a process in order. -/
structure ProcessOk (img : Image) (p : Pcb) : Prop where
  table : TableInv img p.fileArray
  positions : PositionsOk p.fileArray
  arg : ∃ a : CString, a.length < 1024 ∧ p.arg = a.get

/-- **A sound kernel state.** -/
structure Sound (L : Layout) (img : Image) (k : State) : Prop where
  stack : StackInv L k
  process : ∀ j, 1 ≤ j → j ≤ k.counter → ProcessOk img (k.pcb (pcbAddr j))

theorem Sound.current (h : Sound L img k) : ProcessOk img (k.pcb (pcbAddr k.counter)) :=
  h.process _ h.stack.counter_pos le_rfl

theorem Sound.tableInv (h : Sound L img k) : TableInv img k.file := h.current.table

theorem Sound.pid_eq (h : Sound L img k) : (serviceOf img k).pid = k.counter := by
  have := h.stack.counter_pos
  unfold Service.pid serviceOf
  simp only [length_stackOf]
  omega

/-- A sound state stays one when only devices and its own descriptors change, to good ones. -/
theorem Sound.of_own (h : Sound L img k) (ho : OwnFiles k k') (ht : TableInv img k'.file)
    (hp : PositionsOk k'.file) : Sound L img k' := by
  refine ⟨h.stack.of_own ho, fun j hj hj' => ?_⟩
  rw [ho.counter] at hj'
  rcases Nat.lt_or_ge j k.counter with hlt | hge
  · rw [ho.pcb_of_ne (pcbAddr_ne (by have := h.stack.counter_le; omega) h.stack.counter_le
      (by omega))]
    exact h.process j hj hj'
  · obtain rfl : j = k.counter := by omega
    obtain ⟨files, hpcb⟩ := ho.pcb
    rw [file_eq, ho.counter] at ht hp
    refine ⟨ht, hp, ?_⟩
    rw [hpcb, Function.update_self]
    exact h.current.arg

theorem serviceOf_setFile (h : Sound L img k) (i : Fin 8) (f : FileDescriptor) :
    serviceOf img (k.setFile i f) = (serviceOf img k).set i (streamOf img f) := by
  have hstack : stackOf img (k.setFile i f) (k.counter - 1) = stackOf img k (k.counter - 1) := by
    refine stackOf_congr fun j hj hj' => ?_
    have h6 := h.stack.counter_le
    rw [setFile_pcb, Function.update_of_ne (pcbAddr_ne (by omega) h6 (by omega))]
  unfold serviceOf Service.set
  simp only [setFile_counter, hstack]
  congr 1
  unfold processOf frameOf
  rw [setFile_pcb, Function.update_self]
  congr 1
  funext fd
  change streamOf img (Function.update k.file i f fd) = _
  by_cases hfd : fd = i
  · rw [hfd, Function.update_self, Function.update_self]
  · rw [Function.update_of_ne hfd, Function.update_of_ne hfd]
    rfl

theorem stream_serviceOf (img : Image) (k : State) (fd : Int) : (serviceOf img k).stream fd =
    if 0 ≤ fd ∧ fd ≤ 7 then streamOf img (k.file (fdIndex fd)) else none := rfl

/-- On images with known types a descriptor in use is a stream. -/
theorem streamOf_eq_none_iff (htypes : TypesOk img) {files : Fin 8 → FileDescriptor}
    (h : TableInv img files) (i : Fin 8) : streamOf img (files i) = none ↔ (files i).flags = 0 := by
  unfold streamOf
  constructor
  · intro hnone
    by_contra hflags
    rw [if_neg hflags] at hnone
    have hop : (files i).fileOperation ≠ none := by
      by_cases h2 : 2 ≤ i
      · have hone : (files i).flags = 1 := by
          by_contra hne
          rw [h.free i h2 hne] at hflags
          exact hflags rfl
        obtain ⟨j, -, -, -, hle, hop⟩ := (h.descriptorsOk htypes).used i h2 hone
        rw [hop]
        interval_cases img.filetype j <;> exact Option.some_ne_none _
      · have hlow : ∀ i : Fin 8, ¬ 2 ≤ i → i = 0 ∨ i = 1 := by decide
        rcases hlow i h2 with rfl | rfl
        · rw [h.stdin.2]
          exact Option.some_ne_none _
        · rw [h.stdout.2]
          exact Option.some_ne_none _
    obtain ⟨t, ht⟩ := Option.ne_none_iff_exists'.mp hop
    rw [ht] at hnone
    cases t <;> cases hnone
  · intro hflags
    rw [if_pos hflags]

/-- A call that a check of its descriptor or its buffer refuses, as the service sees it. -/
theorem Sound.refused (htypes : TypesOk img) (h : Sound L img k) {fd : Int} {buf : Nat}
    (hc : ¬ (0 ≤ fd ∧ fd ≤ 7 ∧ buf ≠ 0 ∧ (k.file (fdIndex fd)).flags ≠ 0)) :
    (serviceOf img k).stream fd = none ∨ buf = 0 := by
  rw [stream_serviceOf]
  split
  · rename_i hfd
    rw [streamOf_eq_none_iff htypes h.tableInv]
    by_contra hno
    rw [not_or] at hno
    exact hc ⟨hfd.1, hfd.2, hno.2, hno.1⟩
  · exact Or.inl rfl

/-! ## `read` -/

theorem PositionsOk.update {files : Fin 8 → FileDescriptor} (h : PositionsOk files) (i : Fin 8)
    {f : FileDescriptor} (hf : f.fileposition < 2 ^ 32) :
    PositionsOk (Function.update files i f) := by
  intro fd
  by_cases hfd : fd = i
  · rwa [hfd, Function.update_self]
  · rw [Function.update_of_ne hfd]
    exact h fd

theorem toUInt32_lt (n : Int) : toUInt32 n < 2 ^ 32 := by
  unfold toUInt32
  omega

theorem length_contents (img : Image) (n : Nat) : (contents img n).length = img.inodeLength n :=
  length_fileSlice ..

/-- A part of the contents is a slice of the file. -/
theorem take_drop_contents (img : Image) (n pos len : Nat) :
    ((contents img n).drop pos).take len =
      img.fileSlice n pos (min len (img.inodeLength n - pos)) := by
  unfold contents Image.fileSlice
  rw [← List.map_drop, ← List.map_take, List.drop_range', Nat.mul_one, Nat.zero_add]
  rcases Nat.le_total (img.inodeLength n - pos) len with hle | hle
  · rw [List.take_range'_of_length_le hle, Nat.min_eq_right hle]
  · rw [List.take_range'_of_length_ge hle, Nat.min_eq_left hle]

/-- **A device read is a read of the stream.** -/
theorem callRead_reads (hblocks : BlocksOk img) {f : FileDescriptor} {t : OpTable} {fn : ReadFn}
    {buf : Nat} {n v : Int} {out : List UInt8} (hflags : f.flags ≠ 0)
    (ht : f.fileOperation = some t) (hfn : t.read = some fn) (hbuf : buf ≠ 0)
    (hfile : t = .fileT → ∃ d, readDentryByName img f.fileName = some d ∧ f.inode = d.inode)
    (hpos : f.fileposition < 2 ^ 32) (hcall : callRead img k f buf n fn = .ok (k', v, out)) :
    ∃ st st', streamOf img f = some st ∧
      streamOf img { f with fileposition := toUInt32 ((f.fileposition : Int) + v) } = some st' ∧
      Reads (diskOf img) n st k.entryCounter st' k'.entryCounter v out := by
  unfold streamOf
  simp only [if_neg hflags, ht]
  cases t with
  | stdinT =>
    obtain rfl := Option.some.inj hfn
    simp only [callRead, terminalRead] at hcall
    split at hcall
    · cases hcall
    · rename_i hterm
      split at hterm
      · cases hterm
        cases hcall
        exact ⟨_, _, rfl, rfl, .keyboard (List.length_take_le _ _)⟩
      · cases hterm
  | stdoutT => cases hfn
  | rtcT =>
    obtain rfl := Option.some.inj hfn
    cases hcall
    exact ⟨_, _, rfl, rfl, .clock⟩
  | fileT =>
    obtain rfl := Option.some.inj hfn
    obtain ⟨d, hd, hinode⟩ := hfile rfl
    by_cases hn : toUInt32 n = 0
    · simp only [callRead, fileRead, hn, or_true, if_true] at hcall
      cases hcall
      exact ⟨_, _, rfl, rfl, .nothing hn⟩
    · have hlt := inodeLength_lt img f.inode
      simp only [callRead, fileRead_eq hblocks hd hbuf f.fileposition hn, ← hinode] at hcall
      rw [← take_drop_contents] at hcall
      cases hcall
      have hlen : (((contents img f.inode).drop f.fileposition).take (toUInt32 n)).length =
          min (toUInt32 n) (img.inodeLength f.inode - f.fileposition) := by
        rw [List.length_take, List.length_drop, length_contents]
      rw [toUInt32_of_lt (by omega) (by omega), ← hlen]
      refine ⟨_, _, rfl, ?_, .file hn rfl⟩
      congr
  | directoryT =>
    obtain rfl := Option.some.inj hfn
    simp only [callRead] at hcall
    cases hcall
    refine ⟨_, _, rfl, rfl, ?_⟩
    simp only
    by_cases hlt : k.entryCounter < img.dirCount
    · rw [directoryRead_entry hlt]
      refine .entry ?_
      simp [diskOf, hlt]
    · rw [directoryRead_end (by omega)]
      refine .finished ?_
      simp only [diskOf, List.length_map, List.length_range]
      omega

/-- A descriptor of a regular file is not one of the console's, and names its entry. -/
theorem TableInv.file_entry {files : Fin 8 → FileDescriptor} (h : TableInv img files) {i : Fin 8}
    (hflags : (files i).flags ≠ 0) (ht : (files i).fileOperation = some .fileT) :
    ∃ d, readDentryByName img (files i).fileName = some d ∧ (files i).inode = d.inode := by
  have h2 : 2 ≤ i := by
    by_contra hlt
    have hlow : ∀ i : Fin 8, ¬ 2 ≤ i → i = 0 ∨ i = 1 := by decide
    rcases hlow i hlt with rfl | rfl
    · exact absurd (Option.some.inj (ht.symm.trans h.stdin.2)) nofun
    · exact absurd (Option.some.inj (ht.symm.trans h.stdout.2)) nofun
  obtain ⟨d, hd, hinode, -⟩ := h.used i h2 (h.flags_eq_one h2 hflags)
  exact ⟨d, hd, hinode⟩

theorem Sound.read (hblocks : BlocksOk img) (htypes : TypesOk img) (h : Sound L img k) {fd n : Int}
    {buf : Nat} (hr : Kernel.read img k fd buf n = .ok (k', r)) :
    Sound L img k' ∧
      Serves (diskOf img) (serviceOf img k) ⟨k.counter, .read fd buf n, r⟩ (serviceOf img k') := by
  have ht' := h.tableInv.read (read_inv hr)
  have hown := read_own hr
  rw [← h.pid_eq]
  cases read_inv hr with
  | refused hc => exact ⟨h, .readRefused (h.refused htypes hc)⟩
  | @done t fn k₁ v out hc ht hfn hcall =>
    obtain ⟨h0, h7, hbuf, hflags⟩ := hc
    obtain ⟨st, st', hst, hst', hreads⟩ := callRead_reads hblocks hflags ht hfn hbuf
      (fun hfile => h.tableInv.file_entry hflags (hfile ▸ ht)) (h.current.positions _) hcall
    obtain ⟨kb, m, rfl, -⟩ := callRead_inv hcall
    have h₁ : Sound L img { k with keyboard := kb, entryCounter := m } :=
      h.of_own (.of_device ⟨rfl, rfl, rfl, rfl⟩) h.tableInv h.current.positions
    refine ⟨h.of_own hown ht' ?_, ?_⟩
    · rw [file_setFile]
      exact PositionsOk.update h.current.positions _ (toUInt32_lt _)
    · have hk₁ : serviceOf img { k with keyboard := kb, entryCounter := m } =
          { serviceOf img k with scan := m } := serviceOf_eq rfl rfl
      rw [serviceOf_setFile h₁, hst', hk₁]
      have hat : (serviceOf img k).stream fd = some st := by
        rw [stream_serviceOf, if_pos ⟨h0, h7⟩, hst]
      exact Serves.read (D := diskOf img) (s := serviceOf img k) hat hbuf hreads

/-! ## `write`, `open` and `close` -/

/-- A change of devices only, other than the scan, is none for the service. -/
theorem Sound.of_devices (h : Sound L img k) (kb : Keyboard) (a : UInt8) :
    Sound L img { k with keyboard := kb, rtcRegA := a } ∧
      serviceOf img { k with keyboard := kb, rtcRegA := a } = serviceOf img k :=
  ⟨h.of_own (.of_device ⟨rfl, rfl, rfl, rfl⟩) h.tableInv h.current.positions,
    serviceOf_eq rfl rfl⟩

/-- **A device write is a write to the stream.** -/
theorem callWrite_writes (img : Image) {f : FileDescriptor} {t : OpTable} {fn : WriteFn}
    {data : Mem} {n v : Int} (hflags : f.flags ≠ 0) (ht : f.fileOperation = some t)
    (hfn : t.write = some fn) (hcall : callWrite k data n fn = .ok (k', v)) :
    ∃ st, streamOf img f = some st ∧ Writes data n st v := by
  unfold streamOf
  simp only [if_neg hflags, ht]
  cases t with
  | stdinT => cases hfn
  | stdoutT =>
    obtain rfl := Option.some.inj hfn
    simp only [callWrite, terminalWrite] at hcall
    split at hcall
    · cases hcall
    · rename_i hterm
      split at hterm
      · cases hterm
      · cases hterm
        cases hcall
        exact ⟨_, rfl, .console (Int.natCast_nonneg _)⟩
  | rtcT =>
    obtain rfl := Option.some.inj hfn
    simp only [callWrite] at hcall
    cases hcall
    refine ⟨_, rfl, ?_⟩
    have hv : (rtcWrite k.rtcRegA data n).2 =
        if n = 4 ∧ (rtcRate (toInt32 (le32 data 0))).isSome then 4 else -1 := by
      unfold rtcWrite
      by_cases hn : n = 4
      · rw [if_neg (by omega)]
        cases rtcRate (toInt32 (le32 data 0)) with
        | none => simp
        | some rate => simp [hn]
      · rw [if_pos hn, if_neg fun h => hn h.1]
    rw [hv]
    exact .clock
  | fileT =>
    obtain rfl := Option.some.inj hfn
    cases hcall
    exact ⟨_, rfl, .file⟩
  | directoryT =>
    obtain rfl := Option.some.inj hfn
    cases hcall
    exact ⟨_, rfl, .directory⟩

theorem Sound.write (htypes : TypesOk img) (h : Sound L img k) {fd n : Int} {buf : Nat} {data : Mem}
    (hw : Kernel.write k fd buf data n = .ok (k', r)) :
    Sound L img k' ∧ Serves (diskOf img) (serviceOf img k) ⟨k.counter, .write fd buf data n, r⟩
      (serviceOf img k') := by
  have hdev := (write_inv hw).devices
  rw [← h.pid_eq]
  cases write_inv hw with
  | refused hc => exact ⟨h, .writeRefused (h.refused htypes hc)⟩
  | done hc ht hfn hcall =>
    obtain ⟨kb, a, rfl⟩ := hdev
    obtain ⟨hsound, hsame⟩ := h.of_devices kb a
    obtain ⟨st, hst, hwrites⟩ := callWrite_writes img hc.2.2.2 ht hfn hcall
    rw [hsame]
    refine ⟨hsound, .write ?_ hc.2.2.1 hwrites⟩
    rw [stream_serviceOf, if_pos ⟨hc.1, hc.2.1⟩, hst]

/-- The stream of a descriptor that `open` has just filled in. -/
theorem streamOf_openedFile (htypes : TypesOk img) {name : CString} {d : Dentry}
    (hd : readDentryByName img name = some d) (old : Option OpTable) :
    streamOf img (openedFile d name old) = entryStream img d ∧ entryStream img d ≠ none := by
  obtain ⟨i, hi, -, hne, rfl⟩ := readDentryByName_named hd
  have hle := (htypes i hi hne).1
  have htype : (dentryCopy img i).filetype = 0 ∨ (dentryCopy img i).filetype = 1 ∨
      (dentryCopy img i).filetype = 2 := by
    simp only [dentryCopy]
    omega
  unfold streamOf openedFile tableFor entryStream
  rcases htype with h | h | h <;> simp [h]

theorem Sound.leastVacant_iff (htypes : TypesOk img) (h : Sound L img k) {i : Fin 8} :
    (serviceOf img k).LeastVacant i ↔ LeastFree k i := by
  have hnone : ∀ j, (serviceOf img k).running.table j = none ↔ (k.file j).flags = 0 :=
    streamOf_eq_none_iff htypes h.tableInv
  constructor
  · rintro ⟨h2, hfree, hleast⟩
    exact ⟨h2, (hnone i).mp hfree, fun j hj hji => fun h0 => hleast j hj hji ((hnone j).mpr h0)⟩
  · rintro ⟨h2, hfree, hleast⟩
    exact ⟨h2, (hnone i).mpr hfree, fun j hj hji => fun h0 => hleast j hj hji ((hnone j).mp h0)⟩

/-- Opening one of the two names of the console changes nothing. -/
theorem Sound.openFile_reserved_eq (h : Sound L img k) {name : CString} (hname : Reserved name)
    (ho : openFile img k name = .ok (k', r)) : k' = k ∧ r = .ret 0 [] := by
  have hself : ∀ i t, (k.file i).flags = 1 ∧ (k.file i).fileOperation = some t →
      k.setFile i { k.file i with fileOperation := some t, flags := 1 } = k := by
    rintro i t ⟨hflags, hop⟩
    rw [← hop, ← hflags]
    exact setFile_self i
  unfold openFile at ho
  split at ho
  · rw [hself 0 _ h.tableInv.stdin] at ho
    cases ho
    exact ⟨rfl, rfl⟩
  · rename_i hin
    rw [if_pos ((reserved_iff.mp hname).resolve_left hin), hself 1 _ h.tableInv.stdout] at ho
    cases ho
    exact ⟨rfl, rfl⟩

theorem Sound.openFile (htypes : TypesOk img) (h : Sound L img k) {name : CString}
    (ho : Kernel.openFile img k name = .ok (k', r)) :
    Sound L img k' ∧
      Serves (diskOf img) (serviceOf img k) ⟨k.counter, .openFile name, r⟩ (serviceOf img k') := by
  have ht' := h.tableInv.openFile (openFile_inv ho)
  have hown := openFile_own ho
  rw [← h.pid_eq]
  by_cases hname : Reserved name
  · obtain ⟨rfl, rfl⟩ := h.openFile_reserved_eq hname ho
    exact ⟨h, .openReserved hname⟩
  · rw [openFile_unreserved htypes hname] at ho
    cases hd : readDentryByName img name with
    | none =>
      rw [hd] at ho
      cases ho
      exact ⟨h, .openRefused hname (Or.inl (by simp [diskOf, hd]))⟩
    | some d =>
      rw [hd] at ho
      obtain ⟨hstream, hsome⟩ := streamOf_openedFile htypes hd
        (k.file ((vacantFd k).getD 0)).fileOperation
      cases hi : vacantFd k with
      | none =>
        rw [hi] at ho
        cases ho
        refine ⟨h, .openRefused hname (Or.inr fun i h2 hnone => ?_)⟩
        exact vacantFd_eq_none_iff.mp hi i h2 ((streamOf_eq_none_iff htypes h.tableInv i).mp hnone)
      | some i =>
        rw [hi] at ho hstream
        cases ho
        refine ⟨h.of_own hown ht' ?_, ?_⟩
        · rw [file_setFile]
          exact h.current.positions.update _ (by decide : 0 < 2 ^ 32)
        · rw [serviceOf_setFile h, show streamOf img (openedFile d name (k.file i).fileOperation) =
            entryStream img d from hstream]
          obtain ⟨st, hst⟩ := Option.ne_none_iff_exists'.mp hsome
          rw [hst]
          refine .opened hname ?_ ((h.leastVacant_iff htypes).mpr (vacantFd_eq_some_iff.mp hi))
          simp [diskOf, hd, hst]

theorem Sound.close (htypes : TypesOk img) (h : Sound L img k) {fd : Int}
    (hc : Kernel.close k fd = .ok (k', r)) :
    Sound L img k' ∧
      Serves (diskOf img) (serviceOf img k) ⟨k.counter, .close fd, r⟩ (serviceOf img k') := by
  have ht' := h.tableInv.close (close_inv hc)
  have hown := close_own hc
  rw [← h.pid_eq]
  cases close_inv hc with
  | refused hn =>
    refine ⟨h, .closeRefused ?_⟩
    rw [stream_serviceOf]
    split
    · rename_i hfd
      rw [streamOf_eq_none_iff htypes h.tableInv]
      by_contra hno
      rw [not_or] at hno
      have h2 : 2 ≤ fd := by omega
      exact hn ⟨h2, hfd.2, h.tableInv.flags_eq_one (two_le_fdIndex h2 hfd.2) hno.2⟩
    · exact Or.inr rfl
  | closed hch =>
    obtain ⟨h2, h7, hflags⟩ := hch
    refine ⟨h.of_own hown ht' ?_, ?_⟩
    · rw [file_setFile]
      exact h.current.positions.update _ (by decide : 0 < 2 ^ 32)
    · rw [serviceOf_setFile h]
      refine .closed h2 ?_
      rw [stream_serviceOf, if_pos ⟨by omega, h7⟩, Ne, streamOf_eq_none_iff htypes h.tableInv,
        hflags]
      exact one_ne_zero

/-! ## `execute`, `halt` and the rest -/

/-- A process that has just been started is in order. -/
theorem processOk_launched (img : Image) {e : ExecArgs} (arg : CString)
    (harg : arg.length < 1024) (entry : Nat) :
    ProcessOk img ((launched L k e arg.bytes entry).pcb (pcbAddr (k.counter + 1))) := by
  have hfile := launched_file L k e arg.bytes entry
  have hargs := launched_arg L k e arg entry
  rw [file_eq, launched_counter] at hfile
  rw [State.current, launched_counter] at hargs
  refine ⟨by rw [hfile]; exact tableInv_freshFiles img, ?_, ⟨arg, harg, hargs⟩⟩
  rw [hfile]
  intro fd
  unfold freshFiles
  split
  · exact (by decide : 0 < 2 ^ 32)
  · split <;> exact (by decide : 0 < 2 ^ 32)

theorem frameOf_launched (img : Image) {e : ExecArgs} (arg : CString) (harg : arg.length < 1024)
    (entry : Nat) : processOf img (launched L k e arg.bytes entry) (k.counter + 1) =
      ⟨freshTable, arg⟩ := by
  have hfile := launched_file L k e arg.bytes entry
  have hargs := launched_arg L k e arg entry
  rw [file_eq, launched_counter] at hfile
  rw [State.current, launched_counter] at hargs
  have htable : (fun fd => streamOf img (freshFiles fd)) = freshTable := by
    funext fd
    obtain ⟨i, hi⟩ := fd
    match i with
    | 0 => rfl
    | 1 => rfl
    | i + 2 =>
      have h0 : (⟨i + 2, hi⟩ : Fin 8) ≠ 0 := fun h => absurd (congrArg Fin.val h) (by simp)
      have h1 : (⟨i + 2, hi⟩ : Fin 8) ≠ 1 := fun h => absurd (congrArg Fin.val h) (by simp)
      rw [freshFiles, if_neg h0, if_neg h1]
      rfl
  unfold processOf frameOf
  rw [hfile, hargs, ofMem_get arg harg, htable]

/-- What was parsed is a string that fits. -/
theorem argument_cstring {cmd : Mem} {arg : List UInt8} (h : argument cmd = some arg) :
    ∃ a : CString, arg = a.bytes ∧ a.length < 1024 := by
  unfold argument at h
  simp only at h
  split at h
  · rename_i hlt
    obtain rfl := Option.some.inj h
    exact ⟨⟨_, readString_nul_free cmd 1024 _⟩, rfl, hlt⟩
  · cases h

theorem Sound.execute (himg : EntriesOk img) (h : Sound L img k) {e : ExecArgs}
    (hesp : EspOk k (.execute e)) (hx : Kernel.execute L img k e = .ok (k', r)) :
    Sound L img k' ∧
      Serves (diskOf img) (serviceOf img k) ⟨k.counter, .execute e, r⟩ (serviceOf img k') := by
  have hks : KStep L img k ⟨k.counter, .execute e, r⟩ k' := ⟨rfl, ⟨hesp, Or.inl rfl⟩, hx⟩
  have hstack : StackInv L k' := h.stack.step himg hks
  have hpos := h.stack.counter_pos
  rw [← h.pid_eq]
  cases execute_inv hx with
  | full hk =>
    obtain ⟨hs, heq⟩ := h.of_devices
      { k.keyboard with screen := puts k.keyboard.screen tooManyText } k.rtcRegA
    rw [heq]
    exact ⟨hs, .notStarted (Or.inl rfl)⟩
  | null hk hc => exact ⟨h, .notStarted (Or.inl rfl)⟩
  | @rejected hk cmd arg hc ha hh =>
    refine ⟨h.of_own (.of_device ⟨rfl, rfl, rfl, rfl⟩) h.tableInv h.current.positions, ?_⟩
    have hk₁ : serviceOf img { k with argSize := arg.length } =
        { serviceOf img k with parsed := arg.length } := serviceOf_eq rfl rfl
    rw [hk₁]
    exact .notStarted (Or.inr ⟨cmd, arg, hc, ha, rfl⟩)
  | unloadable hk hc ha hh hl => exact absurd hl.2 (himg.fileLoad_ne hh)
  | @started hk cmd arg hc ha hh hr hl =>
    obtain ⟨a, rfl, hlen⟩ := argument_cstring ha
    have hbelow : ∀ j, j ≤ k.counter → ∀ entry,
        (launched L k e a.bytes entry).pcb (pcbAddr j) = k.pcb (pcbAddr j) := fun j hj entry =>
      launched_pcb_of_ne L k e a.bytes entry (pcbAddr_ne (by omega) (by omega) (by omega))
    refine ⟨⟨hstack, fun j hj hj' => ?_⟩, ?_⟩
    · rw [launched_counter] at hj'
      rcases Nat.lt_or_ge k.counter j with hlt | hge
      · obtain rfl : j = k.counter + 1 := by omega
        exact processOk_launched img a hlen _
      · rw [hbelow j hge]
        exact h.process j hj hge
    · have hst : ∀ entry, stackOf img (launched L k e a.bytes entry) k.counter =
          (serviceOf img k).running :: (serviceOf img k).waiting := by
        intro entry
        rw [stackOf_congr fun j _ hj => hbelow j hj entry]
        obtain ⟨c, hc⟩ : ∃ c, k.counter = c + 1 := ⟨k.counter - 1, by omega⟩
        rw [serviceOf_of_counter (k := k) rfl hc, hc]
        rfl
      rw [serviceOf_of_counter rfl (launched_counter ..), frameOf_launched img a hlen, hst]
      exact .started hc ha

theorem Sound.halt (himg : EntriesOk img) (h : Sound L img k) {status : UInt8}
    (hh : Kernel.halt L k status = (k', r)) :
    Sound L img k' ∧
      Serves (diskOf img) (serviceOf img k) ⟨k.counter, .halt status, r⟩ (serviceOf img k') := by
  have hks : KStep L img k ⟨k.counter, .halt status, r⟩ k' :=
    ⟨rfl, ⟨trivial, Or.inl rfl⟩, congrArg _ hh⟩
  have hstack : StackInv L k' := h.stack.step himg hks
  have hpos := h.stack.counter_pos
  rw [← h.pid_eq]
  rw [halt_eq h.stack] at hh
  split at hh
  · rename_i hone
    cases hh
    obtain ⟨hs, heq⟩ := h.of_devices
      { k.keyboard with screen := clearScreen k.keyboard.screen } k.rtcRegA
    rw [heq]
    refine ⟨hs, .restarted ?_⟩
    rw [serviceOf_of_counter (k := k) rfl hone]
    rfl
  · obtain ⟨c, hc⟩ : ∃ c, k.counter = c + 2 := ⟨k.counter - 2, by omega⟩
    have hwait : (serviceOf img k).waiting = processOf img k (c + 1) :: stackOf img k c := by
      rw [serviceOf_of_counter (k := k) (n := c + 1) rfl hc]
      rfl
    obtain ⟨hk', rfl⟩ := Prod.mk.inj hh
    have hp : k'.pcb = k.pcb := by rw [← hk']
    have hcounter : k'.counter = c + 1 := by
      rw [← hk']
      exact (congrArg (· - 1) hc)
    refine ⟨⟨hstack, fun j hj hj' => ?_⟩, ?_⟩
    · rw [hp]
      exact h.process j hj (by omega)
    · have hscan : k'.entryCounter = k.entryCounter ∧ k'.argSize = k.argSize := by
        rw [← hk']
        exact ⟨rfl, rfl⟩
      rw [serviceOf_of_counter hp hcounter, hscan.1, hscan.2]
      exact .halted hwait

/-- `getargs`, and the calls that use neither descriptors nor arguments. -/
theorem Sound.bystander (h : Sound L img k) (hst : StackInv L k') {c : Call} (hc : Bystander c)
    (hs : step L img k c = .ok (k', r)) : Sound L img k' ∧
      Serves (diskOf img) (serviceOf img k) ⟨k.counter, c, r⟩ (serviceOf img k') := by
  have hsame : Sound L img k' ∧ serviceOf img k' = serviceOf img k := by
    obtain ⟨p, kb, rfl⟩ := step_bystander hs hc
    exact ⟨⟨hst, h.process⟩, serviceOf_eq rfl rfl⟩
  refine ⟨hsame.1, ?_⟩
  rw [hsame.2, ← h.pid_eq]
  cases c with
  | getargs buf n =>
    simp only [step, getargs] at hs
    split at hs
    · rename_i hno
      cases hs
      exact .getargsRefused hno
    · rename_i hno
      rw [not_or] at hno
      cases hs
      obtain ⟨a, ha, hget⟩ := h.current.arg
      have harg : k.current.arg = (serviceOf img k).running.arg.get := by
        change _ = (CString.ofMem (k.pcb (pcbAddr k.counter)).arg 1024 0).get
        rw [hget, ofMem_get a ha]
        exact hget
      rw [harg]
      exact .getargs hno.1 (by have := hno.2; simp only [serviceOf]; omega)
  | vidmap a =>
    refine .idle ?_
    simp only [step, vidmap] at hs
    split at hs
    · rename_i ha
      cases hs
      exact (if_neg (by omega)).symm
    · rename_i ha
      cases hs
      exact (if_pos (by omega)).symm
  | setHandler =>
    cases hs
    exact .idle rfl
  | sigreturn =>
    cases hs
    exact .idle rfl
  | invalid =>
    cases hs
    exact .idle rfl
  | key sc text => exact .idle trivial
  | _ => exact hc.elim

/-! ## Runs -/

theorem BlocksOk.entriesOk (h : BlocksOk img) : EntriesOk img := by
  refine ⟨fun i hi hne => (h i hi hne).1, fun i hi hne b hb => ?_⟩
  obtain ⟨-, hlen, hblocks⟩ := h i hi hne
  exact hblocks b (by omega)

/-- **One step of the kernel is one step of the service.** -/
theorem Sound.serves {ev : Event} (hblocks : BlocksOk img) (htypes : TypesOk img)
    (h : Sound L img k) (hs : KStep L img k ev k') :
    Sound L img k' ∧ Serves (diskOf img) (serviceOf img k) ev (serviceOf img k') := by
  have hst := h.stack.step hblocks.entriesOk hs
  obtain ⟨pid, c, r⟩ := ev
  obtain ⟨hpid, hesp, hstep⟩ := hs
  simp only at hpid hesp hstep
  subst hpid
  cases c with
  | halt status => exact h.halt hblocks.entriesOk (Except.ok.inj hstep)
  | execute e => exact h.execute hblocks.entriesOk hesp.1 hstep
  | read fd buf n => exact h.read hblocks htypes hstep
  | write fd buf data n => exact h.write htypes hstep
  | openFile name => exact h.openFile htypes hstep
  | close fd => exact h.close htypes hstep
  | _ => exact h.bystander hst trivial hstep

/-- A booted system is sound, and stands for one process with fresh descriptors. -/
theorem booted_sound (h : Booted L img k) : Sound L img k ∧
    ∃ arg, serviceOf img k = ⟨⟨freshTable, arg⟩, [], k.entryCounter, arg.length⟩ := by
  have hst := booted_stackInv h
  obtain ⟨k0, e, entry, hb, -, hx⟩ := h
  have h0 := hb.counter_zero
  cases execute_inv hx with
  | @started hk cmd arg hc ha hh hr hl =>
    obtain ⟨a, rfl, hlen⟩ := argument_cstring ha
    refine ⟨⟨hst, fun j hj hj' => ?_⟩, a, ?_⟩
    · rw [launched_counter, h0] at hj'
      obtain rfl : j = k0.counter + 1 := by omega
      exact processOk_launched img a hlen _
    · rw [serviceOf_of_counter rfl (launched_counter ..), frameOf_launched img a hlen, h0]
      rfl

theorem reaches_sound (hblocks : BlocksOk img) (htypes : TypesOk img) {tr : List Event}
    (h : Reaches L img tr k) : Sound L img k := by
  obtain ⟨k₀, hboot, ht⟩ := h
  exact ht.invariant (fun s ev t hs hst => (hs.serves hblocks htypes hst).1) (booted_sound hboot).1

end MyOS.Descriptor
