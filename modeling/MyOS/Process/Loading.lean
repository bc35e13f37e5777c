import MyOS.Process.Command

/-!
# Which programs start, and where they are loaded

`check_executable` (`systemcall.c:515-526`) and `execute` (`systemcall.c:99`) look for -1 from
`file_read` and for nothing else: not for a short count, which leaves the rest of `temp` and of
`buf` as the stack had them, and not at the type of the entry. `file_load` (`files.c:152-162`)
copies the whole file to 0x08048000 without a look at the 0x3B8000 bytes that are left of the
program's page, while an inode can describe 1023 blocks.

* `FileOk`: a file whose inode and blocks are there. `LooksExecutable`: the four bytes compared with
  the magic number, the file's own and behind them those of `temp`.
* `starts_iff`: which commands start a program, for any image.
* **`execute_starts_right_iff`**: when that is the complete executables and no others, entered at
  the address they name.
* `loadStores`: the stores of `file_load`. **`program_load_iff`**: when they stay in the page.
-/

namespace MyOS.Process

open MyOS.Machine MyOS.Kernel MyOS.Descriptor

variable {L : Layout} {img : Image} {k : State} {e : ExecArgs} {cmd : Mem} {name : CString}
  {d : Dentry} {n : Nat}

/-! ## Reading a program -/

/-- Unless it is empty, the file has an inode, and the blocks its length needs are there. -/
def FileOk (img : Image) (n : Nat) : Prop :=
  0 < img.inodeLength n → n < img.inodesNum ∧
    ∀ b, 4096 * b < img.inodeLength n → img.dataBlock n b < img.datablocksNum

/-- The regular files of the image are in order. -/
def RegularOk (img : Image) : Prop :=
  ∀ i < sizeFsDentries, img.filename i ≠ CString.empty → img.filetype i = 2 →
    FileOk img (img.dentryInode i)

/-- `FileOk` is what it takes to read the whole file. -/
theorem readFails_whole_iff (img : Image) (n : Nat) :
    ReadFails img n 0 (img.inodeLength n) ↔ ¬ FileOk img n := by
  unfold ReadFails FileOk Entered
  constructor
  · rintro ⟨hpos, hbad | ⟨b, hbad, hb⟩⟩ hok
    · have := (hok hpos).1
      omega
    · have := (hok hpos).2 b (by omega)
      omega
  · intro hn
    push Not at hn
    obtain ⟨hpos, hbad⟩ := hn
    refine ⟨hpos, ?_⟩
    by_cases hi : img.inodesNum ≤ n
    · exact Or.inl hi
    · obtain ⟨b, hb, hbad⟩ := hbad (by omega)
      exact Or.inr ⟨b, hbad, by omega⟩

/-- A read within the first block of such a file does not fail. -/
theorem FileOk.not_readFails (h : FileOk img n) {offset length : Nat}
    (hfirst : offset + length ≤ 4096) (hlen : 0 < length) : ¬ ReadFails img n offset length := by
  rintro ⟨hlt, hbad | ⟨b, hbad, hb⟩⟩
  · have := (h (by omega)).1
    omega
  · have hb0 : b = 0 := by
      rcases hb with hb | ⟨h1, h2, -⟩ <;> omega
    have := (h (by omega)).2 b (by omega)
    omega

theorem FileOk.readData_eq (h : FileOk img n) :
    readData img n 0 (img.inodeLength n) =
      ((img.inodeLength n : Int), img.fileSlice n 0 (img.inodeLength n)) := by
  have hok : ¬ ReadFails img n 0 (img.inodeLength n) := fun hf =>
    (readFails_whole_iff img n).mp hf h
  rw [readData_ok hok, Nat.sub_zero, Nat.min_self]

/-! ## What is taken for an executable -/

/-- A byte of `temp` after the read: the file's, or what was there. -/
def headerByte (img : Image) (n : Nat) (temp : Mem) (j : Nat) : UInt8 :=
  if j < img.inodeLength n then img.fileByte n j else temp j

/-- The bytes compared are the magic number. -/
def LooksExecutable (img : Image) (n : Nat) (temp : Mem) : Prop :=
  headerByte img n temp 0 = 0x7f ∧ headerByte img n temp 1 = 0x45 ∧
    headerByte img n temp 2 = 0x4c ∧ headerByte img n temp 3 = 0x46

/-- Bytes of a file stored over `m`. -/
theorem store_fileSlice (img : Image) (n pos len : Nat) (m : Mem) (j : Nat) :
    store m 0 (img.fileSlice n pos len) j = if j < len then img.fileByte n (pos + j) else m j := by
  have hlen := length_fileSlice img n pos len
  unfold store
  rw [if_pos (Nat.zero_le j), Nat.sub_zero]
  split
  · rw [List.getD_eq_getElem _ _ (by omega)]
    simp [Image.fileSlice]
  · rw [List.getD_eq_default _ _ (by omega)]

theorem checkExecutable_ne_iff (hd : readDentryByName img name = some d)
    (hok : FileOk img d.inode) (temp : Mem) :
    checkExecutable img temp name ≠ -1 ↔ LooksExecutable img d.inode temp := by
  have hbyte : ∀ j < 4, store temp 0 (img.fileSlice d.inode 0
      (min 4 (img.inodeLength d.inode - 0))) j = headerByte img d.inode temp j := by
    intro j hj
    rw [store_fileSlice, headerByte, Nat.zero_add]
    congr 1
    simp only [eq_iff_iff]
    omega
  unfold checkExecutable
  simp only
  rw [fileRead_found hd localBuf_ne_zero _ (by decide),
    readData_ok (hok.not_readFails (by omega) (by omega)),
    if_neg (by simp only; omega), hbyte 0 (by omega), hbyte 1 (by omega), hbyte 2 (by omega),
    hbyte 3 (by omega)]
  unfold LooksExecutable
  split
  · rename_i hno
    simp only [ne_eq, not_true_eq_false, false_iff]
    rintro ⟨h0, h1, h2, h3⟩
    simp [h0, h1, h2, h3] at hno
  · rename_i hyes
    push Not at hyes
    simpa using hyes

/-- A NUL ends the argument within the 1024 bytes of `arg_buf`. -/
def ArgFits (cmd : Mem) : Prop := ∃ b, StopsAt cmd b ∧ ∃ j < 1024, cmd (b + 1 + j) = 0

theorem argFits_iff : ArgFits cmd ↔ ∃ arg, argument cmd = some arg := by
  have hstop := stopsAt_nameEnd cmd
  have hfits : ArgFits cmd ↔ ∃ j < 1024, cmd (nameEnd cmd 32 0 + 1 + j) = 0 := by
    constructor
    · rintro ⟨b, hb, hj⟩
      rwa [nameEnd_eq_iff.mpr hb]
    · exact fun hj => ⟨_, hstop, hj⟩
  rw [hfits, argument_of_stops hstop]
  constructor
  · rintro ⟨j, hj, hnul⟩
    have := readString_length_le_of_nul cmd 1024 _ j hnul
    exact ⟨_, if_pos (by omega)⟩
  · rintro ⟨arg, harg⟩
    split at harg
    · rename_i hlt
      exact ⟨_, hlt, readString_nul cmd 1024 _ hlt⟩
    · cases harg

/-- **Which commands start a program**, on any image: those that name an entry, of any type, whose
file is there, fits the page and looks like an executable. -/
theorem starts_iff (hk : k.counter < 6) (hc : e.command = some cmd) :
    (∃ k' eip, execute L img k e = .ok (k', .iret eip)) ↔
      ArgFits cmd ∧ ∃ d, readDentryByName img (commandName cmd e.past) = some d ∧
        FileOk img d.inode ∧ LooksExecutable img d.inode e.temp ∧
        img.inodeLength d.inode ≤ loadRoom := by
  constructor
  · rintro ⟨k', eip, hx⟩
    cases execute_inv hx with
    | @started hk cmd' arg hc' ha hh hr hl =>
      obtain rfl : cmd = cmd' := Option.some.inj (hc.symm.trans hc')
      have hread := hh.2
      rw [Ne, fileRead_fails_iff img localBuf_ne_zero, FileReadFails, not_or,
        not_or] at hread
      obtain ⟨d, hd⟩ := Option.ne_none_iff_exists'.mp hread.2.1
      rw [fileLoad_found hd] at hr hl
      have hok : FileOk img d.inode := by
        by_contra hn
        exact hl ((readData_fails_iff _ _ _ _).mpr ((readFails_whole_iff _ _).mpr hn))
      rw [hok.readData_eq, length_fileSlice] at hr
      exact ⟨argFits_iff.mpr ⟨arg, ha⟩, d, hd, hok, (checkExecutable_ne_iff hd hok e.temp).mp hh.1,
        hr⟩
  · rintro ⟨harg, d, hd, hok, hlook, hroom⟩
    obtain ⟨arg, ha⟩ := argFits_iff.mp harg
    have hread : (fileRead img localBuf 24 4 (commandName cmd e.past)).1 ≠ -1 := by
      rw [fileRead_found hd localBuf_ne_zero _ (by decide), Ne, readData_fails_iff]
      exact hok.not_readFails (by omega) (by omega)
    refine ⟨_, _, (Execution.started hk hc ha
      ⟨(checkExecutable_ne_iff hd hok e.temp).mpr hlook, hread⟩ ?_ ?_).execute_eq⟩
    · rw [fileLoad_found hd, hok.readData_eq, length_fileSlice]
      exact hroom
    · rw [fileLoad_found hd, hok.readData_eq]
      simp only
      omega

/-! ## Complete executables -/

/-- A regular file with the magic number and an entry address. -/
def Complete (img : Image) (d : Dentry) : Prop :=
  d.filetype = 2 ∧ 28 ≤ img.inodeLength d.inode ∧
    img.fileByte d.inode 0 = 0x7f ∧ img.fileByte d.inode 1 = 0x45 ∧
    img.fileByte d.inode 2 = 0x4c ∧ img.fileByte d.inode 3 = 0x46

/-- From four bytes on, the header compared is the file's own. -/
theorem looksExecutable_of_le (hlen : 4 ≤ img.inodeLength n) (temp : Mem) :
    LooksExecutable img n temp ↔ img.fileByte n 0 = 0x7f ∧ img.fileByte n 1 = 0x45 ∧
      img.fileByte n 2 = 0x4c ∧ img.fileByte n 3 = 0x46 := by
  unfold LooksExecutable headerByte
  rw [if_pos (by omega), if_pos (by omega), if_pos (by omega), if_pos (by omega)]

/-- The entry address of a file that has one. -/
theorem entryAddr_eq (hd : readDentryByName img name = some d) (hok : FileOk img d.inode)
    (hlen : 28 ≤ img.inodeLength d.inode) (e : ExecArgs) :
    entryAddr img e name = le32 (img.fileByte d.inode) 24 := by
  unfold entryAddr
  rw [fileRead_found hd localBuf_ne_zero _ (by decide),
    readData_ok (hok.not_readFails (by omega) (by omega)),
    Nat.min_eq_left (by omega)]
  unfold le32
  simp only [store_fileSlice]
  rfl

/-- A program is started exactly when the entry named is a complete executable, and then at the
address it names. -/
def StartsRight (L : Layout) (img : Image) (k : State) (e : ExecArgs) (cmd : Mem) : Prop :=
  ((∃ k' eip, execute L img k e = .ok (k', .iret eip)) ↔
    ∃ d, readDentryByName img (commandName cmd e.past) = some d ∧ Complete img d) ∧
  ∀ k' eip, execute L img k e = .ok (k', .iret eip) →
    ∃ d, readDentryByName img (commandName cmd e.past) = some d ∧
      eip = le32 (img.fileByte d.inode) 24

/-- A directory or the clock, whose inode number leads to a file that looks like an executable. -/
def DeviceLooks (img : Image) (temp : Mem) (d : Dentry) : Prop :=
  d.filetype ≠ 2 ∧ FileOk img d.inode ∧ LooksExecutable img d.inode temp ∧
    img.inodeLength d.inode ≤ loadRoom

/-- A regular file without an entry address that looks like an executable. -/
def ShortLooks (img : Image) (temp : Mem) (d : Dentry) : Prop :=
  d.filetype = 2 ∧ img.inodeLength d.inode < 28 ∧ LooksExecutable img d.inode temp

/-- The file of a regular entry of such an image. -/
theorem RegularOk.fileOk (himg : RegularOk img) (hd : readDentryByName img name = some d)
    (hreg : d.filetype = 2) : FileOk img d.inode := by
  obtain ⟨i, hi, -, hne, rfl⟩ := readDentryByName_named hd
  exact himg i hi hne hreg

/-- **When only complete executables are started, at the address they name**: the entry named, if
there is one, is neither a device nor a short file that looks like an executable, and if it is a
complete executable, it and the argument fit. -/
theorem execute_starts_right_iff (L : Layout) (img : Image) (himg : RegularOk img) (k : State)
    (e : ExecArgs) (cmd : Mem) (hk : k.counter < 6) (hc : e.command = some cmd) :
    StartsRight L img k e cmd ↔
      ∀ d, readDentryByName img (commandName cmd e.past) = some d →
        (ArgFits cmd → ¬ DeviceLooks img e.temp d ∧ ¬ ShortLooks img e.temp d) ∧
        (Complete img d → img.inodeLength d.inode ≤ loadRoom ∧ ArgFits cmd) := by
  unfold StartsRight
  rw [starts_iff hk hc]
  constructor
  · rintro ⟨hiff, -⟩ d hd
    have hcomplete : (ArgFits cmd ∧ FileOk img d.inode ∧ LooksExecutable img d.inode e.temp ∧
        img.inodeLength d.inode ≤ loadRoom) ↔ Complete img d := by
      simpa [hd] using hiff
    refine ⟨fun harg => ⟨?_, ?_⟩, fun hc => ?_⟩
    · rintro ⟨hreg, hok, hlook, hroom⟩
      exact hreg (hcomplete.mp ⟨harg, hok, hlook, hroom⟩).1
    · rintro ⟨hreg, hlen, hlook⟩
      have hroom : img.inodeLength d.inode ≤ loadRoom := by unfold loadRoom; omega
      have := (hcomplete.mp ⟨harg, himg.fileOk hd hreg, hlook, hroom⟩).2.1
      omega
    · exact ⟨(hcomplete.mpr hc).2.2.2, (hcomplete.mpr hc).1⟩
  · intro h
    -- what is started is complete
    have hright : ∀ d, readDentryByName img (commandName cmd e.past) = some d → ArgFits cmd →
        FileOk img d.inode → LooksExecutable img d.inode e.temp →
        img.inodeLength d.inode ≤ loadRoom → Complete img d := by
      intro d hd harg hok hlook hroom
      obtain ⟨hdev, hshort⟩ := (h d hd).1 harg
      have hreg : d.filetype = 2 := by
        by_contra hne
        exact hdev ⟨hne, hok, hlook, hroom⟩
      have hlen : 28 ≤ img.inodeLength d.inode := by
        by_contra hlt
        exact hshort ⟨hreg, by omega, hlook⟩
      exact ⟨hreg, hlen, (looksExecutable_of_le (by omega) e.temp).mp hlook⟩
    refine ⟨⟨?_, ?_⟩, ?_⟩
    · rintro ⟨harg, d, hd, hok, hlook, hroom⟩
      exact ⟨d, hd, hright d hd harg hok hlook hroom⟩
    · rintro ⟨d, hd, hcomplete⟩
      obtain ⟨hroom, harg⟩ := (h d hd).2 hcomplete
      obtain ⟨hreg, hlen, hmagic⟩ := hcomplete
      exact ⟨harg, d, hd, himg.fileOk hd hreg, (looksExecutable_of_le (by omega) e.temp).mpr hmagic,
        hroom⟩
    · intro k' eip hx
      obtain ⟨harg, d, hd, hok, hlook, hroom⟩ := (starts_iff hk hc).mp ⟨k', eip, hx⟩
      have hlen := (hright d hd harg hok hlook hroom).2.1
      cases execute_inv hx with
      | @started _ cmd' _ hc' =>
        obtain rfl : cmd = cmd' := Option.some.inj (hc.symm.trans hc')
        exact ⟨d, hd, entryAddr_eq hd hok hlen e⟩

/-- The small image's regular files are in order. -/
theorem demoImage_regularOk : RegularOk (demoImage 1) := fun i hi hne _ _ =>
  ⟨demoImage_entriesOk.inode_lt i hi hne, demoImage_entriesOk.block_lt i hi hne⟩

/-- `shell` is a complete executable, and is started at its entry address. -/
theorem execute_starts_right_iff_shell :
    StartsRight demoLayout (demoImage 1) demoShell (demoArgs shellText 0x7ffe00)
      (store (fun _ => 0) 0 shellText) := by
  refine (execute_starts_right_iff demoLayout (demoImage 1) demoImage_regularOk demoShell
    (demoArgs shellText 0x7ffe00) _ (by decide) rfl).mpr ?_
  have hfits : ArgFits (store (fun _ => 0) 0 shellText) :=
    argFits_iff.mpr ⟨[], by decide⟩
  change ∀ d, readDentryByName (demoImage 1)
    (commandName (store (fun _ => 0) 0 shellText) CString.empty) = some d → _
  rw [commandName_shell]
  intro d hd
  have hfound : readDentryByName (demoImage 1) shellName = some ⟨shellName, 2, 1⟩ := by
    decide
  obtain rfl := Option.some.inj (hfound.symm.trans hd)
  have hlen : (demoImage 1).inodeLength 1 = 28 := by decide
  refine ⟨fun _ => ⟨fun h => h.1 rfl, fun h => ?_⟩, fun _ => ⟨?_, hfits⟩⟩
  · have := h.2.1
    simp only [hlen] at this
    omega
  · simp only [hlen]
    decide

/-- The magic number, left in `temp` by an earlier call. -/
def staleMagic : Mem := store (fun _ => 0) 0 [0x7f, 0x45, 0x4c, 0x46]

/-- The command `.`. -/
def dotCommand : CString := CString.ofBytes (ascii ['.'])

/-- The directory as a command, with the magic number left in `temp`. -/
def dotArgs : ExecArgs := { demoArgs dotCommand.bytes 0x7ffe00 with temp := staleMagic }

/-- The command `.` with the magic number in `temp`: the directory, whose inode is empty, is started
as a program. -/
theorem directory_started : RegularOk (demoImage 1) ∧
    commandName (store (fun _ => 0) 0 dotCommand.bytes) dotArgs.past = dotCommand ∧
    readDentryByName (demoImage 1) dotCommand = some ⟨dotCommand, 1, 0⟩ ∧
    ∃ k' eip, execute demoLayout (demoImage 1) demoShell dotArgs = .ok (k', .iret eip) := by
  have hname : commandName (store (fun _ => 0) 0 dotCommand.bytes) dotArgs.past = dotCommand := by
    decide
  have hfound : readDentryByName (demoImage 1) dotCommand = some ⟨dotCommand, 1, 0⟩ := by
    decide
  have hcmd : dotArgs.command = some (store (fun _ => 0) 0 dotCommand.bytes) := rfl
  have hlen : (demoImage 1).inodeLength 0 = 0 := by decide
  refine ⟨demoImage_regularOk, hname, hfound, (starts_iff (by decide) hcmd).mpr
    ⟨argFits_iff.mpr ⟨[], by decide⟩, ⟨dotCommand, 1, 0⟩, by rw [hname, hfound], ?_⟩⟩
  simp only [FileOk, LooksExecutable, headerByte, hlen]
  exact ⟨fun h => absurd h (by decide), by decide, Nat.zero_le _⟩

/-! ## Where a program is loaded -/

/-- The stores of `file_load` at `PROGRAM_STARTING_ADDR`, in order. -/
def loadStores (img : Image) (name : CString) : List (Nat × UInt8) :=
  (fileLoad img name).2.mapIdx fun i b => (0x08048000 + i, b)

/-- Every byte of the file is stored in its place, and nothing outside the program's page. -/
def LoadsInPage (img : Image) (name : CString) (n : Nat) : Prop :=
  (∀ i < img.inodeLength n, (0x08048000 + i, img.fileByte n i) ∈ loadStores img name) ∧
  ∀ s ∈ loadStores img name, 0x08048000 ≤ s.1 ∧ s.1 < 0x08400000

theorem mem_loadStores {a : Nat} {b : UInt8} : (0x08048000 + a, b) ∈ loadStores img name ↔
    (fileLoad img name).2[a]? = some b := by
  unfold loadStores
  rw [List.mem_mapIdx]
  constructor
  · rintro ⟨i, hi, heq⟩
    obtain ⟨ha, rfl⟩ := Prod.mk.inj heq
    obtain rfl : i = a := by omega
    exact List.getElem?_eq_getElem hi
  · intro h
    obtain ⟨ha, hb⟩ := List.getElem?_eq_some_iff.mp h
    exact ⟨a, ha, by rw [hb]⟩

/-- The stores begin where the program begins. -/
theorem loadStores_ge {s : Nat × UInt8} (h : s ∈ loadStores img name) :
    ∃ i < (fileLoad img name).2.length, s.1 = 0x08048000 + i := by
  obtain ⟨i, hi, rfl⟩ := List.mem_mapIdx.mp h
  exact ⟨i, hi, rfl⟩

/-- Byte by byte, the file is loaded when its blocks are there. -/
theorem FileOk.fileLoad_getElem? (hok : FileOk img d.inode)
    (hd : readDentryByName img name = some d) {i : Nat} (hi : i < img.inodeLength d.inode) :
    (fileLoad img name).2[i]? = some (img.fileByte d.inode i) := by
  rw [fileLoad_found hd, hok.readData_eq]
  simp [Image.fileSlice, hi]

theorem FileOk.length_fileLoad (hok : FileOk img d.inode)
    (hd : readDentryByName img name = some d) :
    (fileLoad img name).2.length = img.inodeLength d.inode := by
  rw [fileLoad_found hd, hok.readData_eq, length_fileSlice]

/-- **When a program is loaded into its page**, accepted by `check_executable` or not: its blocks
are there, which a well-formed image promises for a regular file, and it is no longer than what is
left of the page. -/
theorem program_load_iff (img : Image) (himg : RegularOk img) (name : CString) (d : Dentry)
    (hd : readDentryByName img name = some d) :
    LoadsInPage img name d.inode ↔
      (d.filetype ≠ 2 → FileOk img d.inode) ∧ img.inodeLength d.inode ≤ 0x3B8000 := by
  constructor
  · rintro ⟨hall, hpage⟩
    have hok : FileOk img d.inode := by
      -- a load that fails stops before the last byte
      by_contra hn
      have hfail := (readFails_whole_iff _ _).mpr hn
      have hshort := length_readData_lt hfail.1 ((readData_fails_iff _ _ _ _).mpr hfail)
      have hlast := mem_loadStores.mp
        (hall (img.inodeLength d.inode - 1) (Nat.sub_lt hfail.1 Nat.one_pos))
      obtain ⟨hlt, -⟩ := List.getElem?_eq_some_iff.mp hlast
      rw [fileLoad_found hd] at hlt
      omega
    refine ⟨fun _ => hok, ?_⟩
    by_contra hlong
    have hpast := hpage _ (mem_loadStores.mpr
      (hok.fileLoad_getElem? hd (show 0x3B8000 < img.inodeLength d.inode by omega)))
    simp only at hpast
    omega
  · rintro ⟨hdev, hroom⟩
    have hok : FileOk img d.inode := by
      by_cases hreg : d.filetype = 2
      · exact himg.fileOk hd hreg
      · exact hdev hreg
    refine ⟨fun i hi => mem_loadStores.mpr (hok.fileLoad_getElem? hd hi), fun s hs => ?_⟩
    obtain ⟨i, hi, heq⟩ := loadStores_ge hs
    rw [hok.length_fileLoad hd] at hi
    omega

/-- `shell` is loaded into its page. -/
theorem program_load_iff_shell : LoadsInPage (demoImage 1) shellName 1 := by
  have hfound : readDentryByName (demoImage 1) shellName = some ⟨shellName, 2, 1⟩ := by
    decide
  have hlen : (demoImage 1).inodeLength 1 = 28 := by decide
  refine (program_load_iff _ demoImage_regularOk _ _ hfound).mpr ⟨fun h => absurd rfl h, ?_⟩
  simp only [hlen]
  decide

/-- One regular file `hello` of 0x3B8001 bytes, the magic number at the start of the block that all
its block entries name. -/
def largeImage : Image :=
  ⟨store (store (store (store (store (fun _ => 0) 0 [1, 0, 0, 0, 1, 0, 0, 0, 1])
    64 (ascii ['h', 'e', 'l', 'l', 'o'])) 96 [2]) 4096 [0x01, 0x80, 0x3B])
    8192 [0x7f, 0x45, 0x4c, 0x46]⟩

/-- The name of its file. -/
def helloName : CString := ⟨ascii ['h', 'e', 'l', 'l', 'o'], by decide⟩

/-- Every block entry of the file is 0. -/
theorem largeImage_fileOk : FileOk largeImage 0 := by
  have hcount : largeImage.datablocksNum = 1 := by decide
  have hlen : largeImage.inodeLength 0 = 0x3B8001 := by decide
  refine fun _ => ⟨by decide, fun b hb => ?_⟩
  have hzero : largeImage.dataBlock 0 b = 0 := by
    refine le32_eq_zero fun a ha ha' => ?_
    change largeImage.mem (a % 2 ^ 32) = 0
    rw [Nat.mod_eq_of_lt (by omega)]
    unfold largeImage
    simp only
    rw [store_of_outside _ (by simp; omega), store_of_outside _ (by simp; omega),
      store_of_outside _ (by simp; omega), store_of_outside _ (by simp [ascii]; omega),
      store_of_outside _ (by simp; omega)]
  omega

/-- The file is accepted, and its last byte is stored past the program's page. -/
theorem large_program_leaves_page : RegularOk largeImage ∧
    checkExecutable largeImage (fun _ => 0) helloName = 0 ∧
    readDentryByName largeImage helloName = some ⟨helloName, 2, 0⟩ ∧
    (0x08400000, largeImage.fileByte 0 0x3B8000) ∈ loadStores largeImage helloName := by
  have hfound : readDentryByName largeImage helloName = some ⟨helloName, 2, 0⟩ := by
    decide
  have hlen : largeImage.inodeLength 0 = 0x3B8001 := by decide
  refine ⟨?_, by decide, hfound, ?_⟩
  · have hnames : ∀ i < sizeFsDentries, largeImage.filename i ≠ CString.empty → i = 0 := by
      decide
    intro i hi hne _
    obtain rfl := hnames i hi hne
    rw [show largeImage.dentryInode 0 = 0 by decide]
    exact largeImage_fileOk
  · have hbyte : (fileLoad largeImage helloName).2[0x3B8000]? =
        some (largeImage.fileByte 0 0x3B8000) :=
      FileOk.fileLoad_getElem? (d := ⟨helloName, 2, 0⟩) largeImage_fileOk hfound
        (by simp only [hlen]; decide)
    exact mem_loadStores.mpr hbyte

end MyOS.Process
