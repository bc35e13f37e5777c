import MyOS.Kernel.Lib
import Mathlib.Data.List.Range

/-!
# `files.c`: the read-only file system

Model of `student-distrib/files.c` over the bytes of the file-system image.

* An `Image` is the memory from `fs_start` on; addresses are offsets from it, modulo `2 ^ 32`.
  `filesystem_init` (`files.c:14-31`) fixes where things are: the boot block's three counts at 0,
  directory entry `i` at `64 + 64 * i`, inode `n` at `4096 + 4096 * n`, the data blocks after the
  inodes. `FS_UNIT_SIZE` is written 4096. A name is read with `strlen`, from the entry up to the
  first NUL, which for a name that fills its 32 bytes lies past the field.
* A routine that stores into a caller's buffer returns the bytes the buffer holds afterwards from
  index 0 on, next to its return value; the rest of the buffer is not touched.
* `readLoop` is the loop of `read_data` (`files.c:117-139`), with its locals `read_data_block`,
  `read_data` and `read_addr`. `length_of_file`, which only a test printout reads, is left out.
* A count of bytes read is a number here; a request for 2^31 bytes or more would run through
  unmapped pages long before its count left the range of an `int`.
* `entry_counter`, the global position of `directory_read`, is passed in and returned.

Results:
* `readDentryByName_eq`: the search returns the first of the 63 slots whose name is the name asked
  for, and nothing for the empty name.
* **`readData_ok`**: when the blocks the loop enters are valid, `read_data` returns the slice of
  the file, cut at its end.
* **`readData_fails_iff`**: it returns -1 exactly when the file has bytes past the offset and the
  inode or one of the blocks the loop enters is out of range. The loop enters the block after the
  last byte too when the request goes past a file end on a block boundary.
* `directoryRead_entry`, `directoryRead_end`: what a `directory_read` returns at each position.
-/

namespace MyOS.Kernel

open MyOS.Machine

/-- `SIZE_FS_DENTRIES`. -/
def sizeFsDentries : Nat := 63

/-- The memory from `fs_start` on. -/
structure Image where
  mem : Mem

namespace Image

variable (img : Image)

/-- The byte at offset `a` from `fs_start`. -/
def byte (a : Nat) : UInt8 := img.mem (a % 2 ^ 32)

/-- The 32-bit word at offset `a`. -/
def word (a : Nat) : Nat := le32 img.byte a

/-- `my_boot_block.dentries_num`. -/
def dentriesNum : Nat := img.word 0

/-- `my_boot_block.inodes_num`. -/
def inodesNum : Nat := img.word 4

/-- `my_boot_block.datablocks_num`. -/
def datablocksNum : Nat := img.word 8

/-- `dentries[i].filename`, read as a string. -/
def filename (i : Nat) : CString := CString.ofMem img.byte (2 ^ 32) (64 + 64 * i)

/-- `dentries[i].filetype`. -/
def filetype (i : Nat) : Nat := img.word (64 + 64 * i + 32)

/-- `dentries[i].inode`. -/
def dentryInode (i : Nat) : Nat := img.word (64 + 64 * i + 36)

/-- `inodes[n].length`. -/
def inodeLength (n : Nat) : Nat := img.word (4096 + 4096 * n)

/-- `inodes[n].data_blocks[k]`. -/
def dataBlock (n k : Nat) : Nat := img.word (4096 + 4096 * n + 4 + 4 * k)

/-- The address of data block `b`: `file_addr.st_data + b * FS_UNIT_SIZE`. -/
def blockAddr (b : Nat) : Nat := (img.inodesNum + 1) * 4096 + b * 4096

/-- Byte `j` of the file with inode `n`, through its block list. -/
def fileByte (n j : Nat) : UInt8 :=
  img.byte (img.blockAddr (img.dataBlock n (j / 4096)) + j % 4096)

/-- The `len` bytes of the file from `pos` on. -/
def fileSlice (n pos len : Nat) : List UInt8 := (List.range' pos len).map (img.fileByte n)

end Image

/-! ## Directory entries -/

/-- `dentry_t`, without its reserved bytes. -/
structure Dentry where
  filename : CString
  filetype : Nat
  inode : Nat
  deriving DecidableEq

/-- `dentry_copy(index, dentry)`. -/
def dentryCopy (img : Image) (i : Nat) : Dentry :=
  ⟨img.filename i, img.filetype i, img.dentryInode i⟩

/-- The loop of `read_dentry_by_name` from slot `i`, with `n` slots left. The first assignment to
`size` in the source is overwritten before it is read. -/
def dentrySearch (img : Image) (fname : CString) : Nat → Nat → Option Dentry
  | 0, _ => none
  | n + 1, i =>
    let sizefile := fname.length
    let sizedentry := (img.filename i).length
    let size := if sizedentry < sizefile then sizefile else sizedentry
    if strncmp (img.filename i).get fname.get size = 0 then some (dentryCopy img i)
    else dentrySearch img fname n (i + 1)

/-- `read_dentry_by_name(fname, dentry)`; `none` is `FAIL`. -/
def readDentryByName (img : Image) (fname : CString) : Option Dentry :=
  if fname.length ≤ 0 then none else dentrySearch img fname sizeFsDentries 0

/-- `read_dentry_by_index(index, dentry)`; `none` is `FAIL`. The index is unsigned. -/
def readDentryByIndex (img : Image) (index : Nat) : Option Dentry :=
  if sizeFsDentries ≤ index ∨ img.inodesNum ≤ index then none else some (dentryCopy img index)

/-! ## Reading data -/

/-- The loop of `read_data` with `n` iterations left: the return value and the bytes stored in
`buf` from index `i` on. -/
def readLoop (img : Image) (inode offset : Nat) : Nat → Nat → Nat → Nat → Nat → Int × List UInt8
  | 0, i, _, _, _ => (i, [])
  | n + 1, i, blk, off, addr =>
    let atEnd := decide (4096 ≤ off)
    let blk' := if atEnd then blk + 1 else blk
    let off' := if atEnd then 0 else off
    let addr' := if atEnd then img.blockAddr (img.dataBlock inode blk') else addr
    if atEnd ∧ img.datablocksNum ≤ img.dataBlock inode blk' then (-1, [])
    else if img.inodeLength inode ≤ (i + offset) % 2 ^ 32 then (i, [])
    else
      let r := readLoop img inode offset n (i + 1) blk' (off' + 1) (addr' + 1)
      (r.1, img.byte addr' :: r.2)

/-- `read_data(inode, offset, buf, length)`. -/
def readData (img : Image) (inode offset length : Nat) : Int × List UInt8 :=
  let blk := offset / 4096
  let off := offset % 4096
  if img.inodeLength inode ≤ offset then (0, [])
  else if img.inodesNum ≤ inode ∨ img.datablocksNum ≤ img.dataBlock inode blk then (-1, [])
  else readLoop img inode offset length 0 blk off (img.blockAddr (img.dataBlock inode blk) + off)

/-- `file_read(buf, offset, length, name)`: `length` and `offset` are unsigned, so their tests
against zero only reject `length = 0`. -/
def fileRead (img : Image) (buf offset length : Nat) (name : CString) : Int × List UInt8 :=
  if buf = 0 ∨ length = 0 then (-1, [])
  else
    match readDentryByName img name with
    | none => (-1, [])
    | some d => readData img d.inode offset length

/-- `file_load(fname, addr)`. -/
def fileLoad (img : Image) (fname : CString) : Int × List UInt8 :=
  if fname.length = 0 then (-1, [])
  else
    match readDentryByName img fname with
    | none => (-1, [])
    | some d => readData img d.inode 0 (img.inodeLength d.inode)

/-- `SBUFSIZE`. -/
def sbufsize : Nat := 33

/-- `directory_read(buf, offset, length, name)` at `entry_counter`: the new `entry_counter`, the
return value and `buf[0..33)`. None of its arguments but `buf` is read. -/
def directoryRead (img : Image) (entryCounter : Nat) : Nat × Int × List UInt8 :=
  let numNode := toInt32 img.dentriesNum
  let zeroed := List.replicate sbufsize 0
  if numNode ≤ entryCounter then (0, 0, zeroed)
  else
    let len := (img.filename entryCounter).length
    let size := if sbufsize - 1 ≤ len then sbufsize - 1 else len
    let buf := overlay (strncpy (img.filename entryCounter).get size) zeroed
    (entryCounter + 1, ((CString.ofBytes buf).length : Int), buf)

/-! ## The search by name -/

/-- The first slot that holds the name. -/
def lookup (img : Image) (fname : CString) : Option Nat :=
  (List.range sizeFsDentries).find? fun i => img.filename i = fname

theorem dentrySearch_eq (img : Image) (fname : CString) : ∀ n i,
    dentrySearch img fname n i =
      ((List.range' i n).find? fun j => img.filename j = fname).map (dentryCopy img)
  | 0, _ => rfl
  | n + 1, i => by
    unfold dentrySearch
    simp only
    have hsize : ∀ a b : Nat, a ≤ (if a < b then b else a) ∧ b ≤ (if a < b then b else a) := by
      intro a b
      split <;> omega
    rw [List.range'_succ, List.find?_cons]
    by_cases h : img.filename i = fname
    · rw [if_pos ((strncmp_max_eq_zero_iff _ _ (hsize _ _).1 (hsize _ _).2).mpr h)]
      simp [h]
    · rw [if_neg (fun h0 => h ((strncmp_max_eq_zero_iff _ _ (hsize _ _).1 (hsize _ _).2).mp h0)),
        dentrySearch_eq img fname n (i + 1)]
      simp [h]

/-- **The search by name** returns the first slot with that name, nothing for an empty name. -/
theorem readDentryByName_eq (img : Image) (fname : CString) :
    readDentryByName img fname =
      if fname.length = 0 then none else (lookup img fname).map (dentryCopy img) := by
  unfold readDentryByName
  simp only [Nat.le_zero_eq]
  rw [dentrySearch_eq, ← List.range_eq_range']
  rfl

/-- What the search returns is one of the 63 slots, under the name asked for. -/
theorem readDentryByName_some {img : Image} {fname : CString} {d : Dentry}
    (h : readDentryByName img fname = some d) :
    ∃ i, i < sizeFsDentries ∧ img.filename i = fname ∧ d = dentryCopy img i := by
  rw [readDentryByName_eq] at h
  split at h
  · exact absurd h (by simp)
  · obtain ⟨i, hi, rfl⟩ := Option.map_eq_some_iff.mp h
    have hp := List.find?_some hi
    exact ⟨i, List.mem_range.mp (List.mem_of_find?_eq_some hi), by simpa using hp, rfl⟩

section Found

variable {img : Image} {name : CString} {d : Dentry}

/-- A name that is found is not empty. -/
theorem length_ne_zero_of_found (hd : readDentryByName img name = some d) : name.length ≠ 0 := by
  intro h0
  rw [readDentryByName_eq, if_pos h0] at hd
  cases hd

/-- What a search by name finds is a named slot. -/
theorem readDentryByName_named (hd : readDentryByName img name = some d) :
    ∃ i < sizeFsDentries, img.filename i = name ∧ img.filename i ≠ CString.empty ∧
      d = dentryCopy img i := by
  obtain ⟨i, hi, hname, rfl⟩ := readDentryByName_some hd
  refine ⟨i, hi, hname, ?_, rfl⟩
  intro hempty
  exact length_ne_zero_of_found hd (by rw [← hname, hempty]; rfl)

theorem fileLoad_found (hd : readDentryByName img name = some d) :
    fileLoad img name = readData img d.inode 0 (img.inodeLength d.inode) := by
  unfold fileLoad
  rw [if_neg (length_ne_zero_of_found hd), hd]

theorem fileRead_found (hd : readDentryByName img name = some d) {buf : Nat} (hbuf : buf ≠ 0)
    (offset : Nat) {length : Nat} (hlen : length ≠ 0) :
    fileRead img buf offset length name = readData img d.inode offset length := by
  unfold fileRead
  rw [if_neg (by rintro (h | h); exacts [hbuf h, hlen h]), hd]

end Found

/-! ## The slice `read_data` delivers -/

theorem fileSlice_succ (img : Image) (n pos len : Nat) :
    img.fileSlice n pos (len + 1) = img.fileByte n pos :: img.fileSlice n (pos + 1) len := by
  unfold Image.fileSlice
  rw [List.range'_succ, List.map_cons]

theorem length_fileSlice (img : Image) (n pos len : Nat) :
    (img.fileSlice n pos len).length = len := by
  unfold Image.fileSlice
  rw [List.length_map, List.length_range']

/-- Consecutive slices make one slice. -/
theorem fileSlice_append (img : Image) (n pos a b : Nat) :
    img.fileSlice n pos a ++ img.fileSlice n (pos + a) b = img.fileSlice n pos (a + b) := by
  unfold Image.fileSlice
  rw [← List.map_append]
  congr 1
  have := @List.range'_append pos a b 1
  rwa [Nat.one_mul] at this

theorem inodeLength_lt (img : Image) (n : Nat) : img.inodeLength n < 2 ^ 32 := le32_lt _ _

/-- The blocks `read_data` enters after block `blk`, for a request that ends at `stop` in a file
of `len` bytes. -/
def Entered (blk stop len k : Nat) : Prop :=
  blk < k ∧ 4096 * k < stop ∧ 4096 * k ≤ len

/-- The locals of the loop agree with the position `pos` in the file. -/
structure Placed (img : Image) (inode pos blk off addr : Nat) : Prop where
  pos_eq : 4096 * blk + off = pos
  off_le : off ≤ 4096
  addr_eq : addr = img.blockAddr (img.dataBlock inode blk) + off

/-- What an iteration works on: at the end of a block, the start of the next one. -/
theorem Placed.next {img : Image} {inode pos blk off addr : Nat}
    (h : Placed img inode pos blk off addr) :
    Placed img inode pos (if 4096 ≤ off then blk + 1 else blk)
      (if 4096 ≤ off then 0 else off)
      (if 4096 ≤ off then
        img.blockAddr (img.dataBlock inode (if 4096 ≤ off then blk + 1 else blk))
       else addr) := by
  obtain ⟨h1, h2, h3⟩ := h
  split
  · exact ⟨by omega, by omega, by omega⟩
  · exact ⟨h1, h2, h3⟩

theorem Placed.byte_eq {img : Image} {inode pos blk off addr : Nat}
    (h : Placed img inode pos blk off addr) (hlt : off < 4096) :
    img.byte addr = img.fileByte inode pos := by
  obtain ⟨h1, -, h3⟩ := h
  have hdiv : pos / 4096 = blk := by omega
  have hmod : pos % 4096 = off := by omega
  unfold Image.fileByte
  rw [hdiv, hmod, h3]

theorem Placed.step {img : Image} {inode pos blk off addr : Nat}
    (h : Placed img inode pos blk off addr) (hlt : off < 4096) :
    Placed img inode (pos + 1) blk (off + 1) (addr + 1) := by
  obtain ⟨h1, -, h3⟩ := h
  exact ⟨by omega, hlt, by omega⟩

/-- **The loop, when every block it enters is valid.** The induction is on the iterations left;
`Placed` carries the locals. -/
theorem readLoop_ok (img : Image) (inode offset : Nat) : ∀ n i blk off addr,
    Placed img inode (offset + i) blk off addr → offset + i ≤ img.inodeLength inode →
    (∀ k, Entered blk (offset + i + n) (img.inodeLength inode) k →
      img.dataBlock inode k < img.datablocksNum) →
    readLoop img inode offset n i blk off addr =
      (((i + min n (img.inodeLength inode - (offset + i)) : Nat) : Int),
        img.fileSlice inode (offset + i) (min n (img.inodeLength inode - (offset + i))))
  | 0, i, blk, off, addr, _, _, _ => by simp [readLoop, Image.fileSlice]
  | n + 1, i, blk, off, addr, hpl, hle, hblocks => by
    have hlen := inodeLength_lt img inode
    have hmod : (i + offset) % 2 ^ 32 = offset + i := by omega
    have hnext := hpl.next
    have hpos := hpl.pos_eq
    have hoff := hpl.off_le
    -- the block entered at a boundary is one of those assumed valid
    have hvalid : 4096 ≤ off → ¬ img.datablocksNum ≤ img.dataBlock inode (blk + 1) := by
      intro hend
      have := hblocks (blk + 1) ⟨by omega, by omega, by omega⟩
      omega
    unfold readLoop
    simp only [decide_eq_true_eq, hmod]
    rw [if_neg (by rintro ⟨hend, hbad⟩; rw [if_pos hend] at hbad; exact hvalid hend hbad)]
    by_cases heof : img.inodeLength inode ≤ offset + i
    · rw [if_pos heof, show img.inodeLength inode - (offset + i) = 0 by omega]
      simp [Image.fileSlice]
    · rw [if_neg heof]
      have hlt : (if 4096 ≤ off then 0 else off) < 4096 := by split <;> omega
      have hle' : offset + (i + 1) ≤ img.inodeLength inode := by omega
      have ih := readLoop_ok img inode offset n (i + 1) _ _ _ (hnext.step hlt) hle' (by
        intro k hk
        apply hblocks k
        obtain ⟨h1, h2, h3⟩ := hk
        refine ⟨?_, by omega, h3⟩
        split at h1 <;> omega)
      rw [ih, hnext.byte_eq hlt]
      have hmin : min (n + 1) (img.inodeLength inode - (offset + i)) =
          min n (img.inodeLength inode - (offset + (i + 1))) + 1 := by omega
      rw [hmin, fileSlice_succ]
      simp only [Prod.mk.injEq, Int.natCast_inj, Nat.add_assoc, and_true]
      omega

/-- **The loop, when some block it enters is out of range.** -/
theorem readLoop_fails (img : Image) (inode offset : Nat) : ∀ n i blk off addr,
    Placed img inode (offset + i) blk off addr → offset + i ≤ img.inodeLength inode →
    (∃ k, Entered blk (offset + i + n) (img.inodeLength inode) k ∧
      img.datablocksNum ≤ img.dataBlock inode k) →
    (readLoop img inode offset n i blk off addr).1 = -1
  | 0, i, blk, off, addr, hpl, _, ⟨k, ⟨h1, h2, _⟩, _⟩ => by
    have := hpl.pos_eq
    have := hpl.off_le
    omega
  | n + 1, i, blk, off, addr, hpl, hle, ⟨k, ⟨h1, h2, h3⟩, hbad⟩ => by
    have hlen := inodeLength_lt img inode
    have hmod : (i + offset) % 2 ^ 32 = offset + i := by omega
    have hnext := hpl.next
    have hpos := hpl.pos_eq
    have hoff := hpl.off_le
    unfold readLoop
    simp only [decide_eq_true_eq, hmod]
    by_cases hstop : 4096 ≤ off ∧
        img.datablocksNum ≤ img.dataBlock inode (if 4096 ≤ off then blk + 1 else blk)
    · rw [if_pos hstop]
    · have hne : ¬ (4096 ≤ off ∧ k = blk + 1) := by
        rintro ⟨hend, rfl⟩
        exact hstop ⟨hend, by rw [if_pos hend]; exact hbad⟩
      rw [if_neg hstop, if_neg (by omega)]
      have hlt : (if 4096 ≤ off then 0 else off) < 4096 := by split <;> omega
      refine readLoop_fails img inode offset n (i + 1) _ _ _ (hnext.step hlt) (by omega)
        ⟨k, ⟨?_, by omega, h3⟩, hbad⟩
      split <;> omega

theorem length_readLoop_le (img : Image) (inode offset : Nat) : ∀ n i blk off addr,
    (readLoop img inode offset n i blk off addr).2.length ≤ n
  | 0, _, _, _, _ => by simp [readLoop]
  | n + 1, i, blk, off, addr => by
    have ih := length_readLoop_le img inode offset n (i + 1)
    unfold readLoop
    simp only
    by_cases hend : 4096 ≤ off <;> simp only [hend, decide_true, decide_false] <;> split_ifs <;>
      simp [ih]

/-- `read_data` stores no more than was asked for, whatever it returns. -/
theorem length_readData_le (img : Image) (inode offset length : Nat) :
    (readData img inode offset length).2.length ≤ length := by
  unfold readData
  simp only
  split
  · simp
  · split
    · simp
    · exact length_readLoop_le img inode offset length 0 _ _ _

theorem length_readLoop_lt (img : Image) (inode offset : Nat) : ∀ n i blk off addr,
    (readLoop img inode offset n i blk off addr).1 = -1 →
    (readLoop img inode offset n i blk off addr).2.length < n
  | 0, i, _, _, _, h => by
    simp only [readLoop] at h
    omega
  | n + 1, i, blk, off, addr, h => by
    unfold readLoop at h ⊢
    simp only at h ⊢
    generalize (if decide (4096 ≤ off) = true then blk + 1 else blk) = blk' at *
    generalize (if decide (4096 ≤ off) = true then 0 else off) = off' at *
    generalize (if decide (4096 ≤ off) = true then _ else addr) = addr' at *
    by_cases hbad : decide (4096 ≤ off) = true ∧ img.datablocksNum ≤ img.dataBlock inode blk'
    · rw [if_pos hbad]
      exact Nat.succ_pos n
    · rw [if_neg hbad] at h ⊢
      by_cases heof : img.inodeLength inode ≤ (i + offset) % 2 ^ 32
      · rw [if_pos heof] at h
        simp only at h
        omega
      · rw [if_neg heof] at h ⊢
        exact Nat.succ_lt_succ (length_readLoop_lt img inode offset n (i + 1) _ _ _ h)

/-- A `read_data` that fails stores less than was asked for. -/
theorem length_readData_lt {img : Image} {inode offset length : Nat} (hpos : 0 < length)
    (h : (readData img inode offset length).1 = -1) :
    (readData img inode offset length).2.length < length := by
  unfold readData at h ⊢
  simp only at h ⊢
  split at h
  · exact absurd h (by decide)
  · rename_i heof
    rw [if_neg heof]
    split at h
    · rename_i hbad
      rw [if_pos hbad]
      exact hpos
    · rename_i hgood
      rw [if_neg hgood]
      exact length_readLoop_lt img inode offset length 0 _ _ _ h

theorem placed_start (img : Image) (inode offset : Nat) :
    Placed img inode (offset + 0) (offset / 4096) (offset % 4096)
      (img.blockAddr (img.dataBlock inode (offset / 4096)) + offset % 4096) := by
  exact ⟨by omega, by omega, rfl⟩

/-- The requests on which `read_data` returns -1. -/
def ReadFails (img : Image) (inode offset length : Nat) : Prop :=
  offset < img.inodeLength inode ∧
    (img.inodesNum ≤ inode ∨ ∃ k, img.datablocksNum ≤ img.dataBlock inode k ∧
      (k = offset / 4096 ∨
        Entered (offset / 4096) (offset + length) (img.inodeLength inode) k))

/-- **`read_data` delivers the slice asked for**, cut at the end of the file. -/
theorem readData_ok {img : Image} {inode offset length : Nat}
    (h : ¬ ReadFails img inode offset length) :
    readData img inode offset length =
      (((min length (img.inodeLength inode - offset) : Nat) : Int),
        img.fileSlice inode offset (min length (img.inodeLength inode - offset))) := by
  unfold readData
  simp only
  by_cases heof : img.inodeLength inode ≤ offset
  · rw [if_pos heof, show img.inodeLength inode - offset = 0 by omega]
    simp [Image.fileSlice]
  · have hlt : offset < img.inodeLength inode := by omega
    have hok : ¬ img.inodesNum ≤ inode ∧ ∀ k, (k = offset / 4096 ∨
        Entered (offset / 4096) (offset + length) (img.inodeLength inode) k) →
          img.dataBlock inode k < img.datablocksNum := by
      refine ⟨fun hi => h ⟨hlt, Or.inl hi⟩, fun k hk => ?_⟩
      by_contra hbad
      exact h ⟨hlt, Or.inr ⟨k, by omega, hk⟩⟩
    have hfirst := hok.2 _ (Or.inl rfl)
    rw [if_neg heof, if_neg (by rintro (hi | hb); exacts [hok.1 hi, by omega])]
    have := readLoop_ok img inode offset length 0 _ _ _ (placed_start img inode offset)
      (by omega) (fun k hk => hok.2 k (Or.inr hk))
    simpa using this

/-- **`read_data` fails exactly on `ReadFails`.** -/
theorem readData_fails_iff (img : Image) (inode offset length : Nat) :
    (readData img inode offset length).1 = -1 ↔ ReadFails img inode offset length := by
  constructor
  · intro h
    by_contra hn
    rw [readData_ok hn] at h
    simp only at h
    omega
  · rintro ⟨hlt, hbad⟩
    unfold readData
    simp only
    rw [if_neg (by omega)]
    split
    · rfl
    · rename_i hgood
      rw [not_or] at hgood
      rcases hbad with hi | ⟨k, hbad, rfl | hk⟩
      · exact absurd hi hgood.1
      · exact absurd hbad hgood.2
      · exact readLoop_fails img inode offset length 0 _ _ _ (placed_start img inode offset)
          (by omega) ⟨k, hk, hbad⟩

/-- The requests on which `file_read` returns -1, for a buffer that is not `NULL`. -/
def FileReadFails (img : Image) (offset length : Nat) (name : CString) : Prop :=
  length = 0 ∨ readDentryByName img name = none ∨
    ∃ d, readDentryByName img name = some d ∧ ReadFails img d.inode offset length

theorem fileRead_fails_iff (img : Image) {buf : Nat} (hbuf : buf ≠ 0) (offset length : Nat)
    (name : CString) :
    (fileRead img buf offset length name).1 = -1 ↔ FileReadFails img offset length name := by
  unfold fileRead FileReadFails
  by_cases hlen : length = 0
  · rw [if_pos (Or.inr hlen)]
    simp [hlen]
  · rw [if_neg (by rintro (h | h); exacts [hbuf h, hlen h])]
    cases hd : readDentryByName img name with
    | none => simp
    | some d => simp [hlen, readData_fails_iff]

/-! ## The scan of the directory -/

/-- The number of entries `directory_read` goes through; a negative `int` counts as none. -/
def Image.dirCount (img : Image) : Nat := (toInt32 img.dentriesNum).toNat

/-- The name of entry `i`, cut at 32 bytes. -/
def Image.shortName (img : Image) (i : Nat) : CString :=
  ⟨(img.filename i).bytes.take 32, fun h => (img.filename i).nul_free (List.mem_of_mem_take h)⟩

/-- The name in the 32 bytes of `dentries[i].filename`: up to its NUL, or all of them. -/
def Image.entryName (img : Image) (i : Nat) : CString := CString.ofMem img.byte 32 (64 + 64 * i)

/-- What `directory_read` cuts a name to is what its field holds. -/
theorem shortName_eq_entryName (img : Image) (i : Nat) : img.shortName i = img.entryName i := by
  apply CString.ext
  change (readString img.byte (2 ^ 32) (64 + 64 * i)).take 32 = readString img.byte 32 (64 + 64 * i)
  rw [readString_take, Nat.min_eq_left (by decide)]

theorem ofBytes_append_zeros (s : CString) (n : Nat) :
    CString.ofBytes (s.bytes ++ List.replicate n 0) = s := by
  have hall : ∀ b ∈ s.bytes, (b != 0) = true := by
    intro b hb
    rw [bne_iff_ne]
    rintro rfl
    exact s.nul_free hb
  apply CString.ext
  change (s.bytes ++ List.replicate n 0).takeWhile (· != 0) = s.bytes
  rw [List.takeWhile_append_of_pos hall]
  cases n <;> simp [List.replicate_succ]

theorem directoryRead_entry {img : Image} {n : Nat} (h : n < img.dirCount) :
    directoryRead img n = (n + 1, ((img.shortName n).length : Int),
      (img.shortName n).bytes ++ List.replicate (33 - (img.shortName n).length) 0) := by
  unfold Image.dirCount at h
  have hlen : (img.shortName n).length = min 32 (img.filename n).length := List.length_take
  have hsize : (if sbufsize - 1 ≤ (img.filename n).length then sbufsize - 1
      else (img.filename n).length) = (img.shortName n).length := by
    rw [hlen]
    unfold sbufsize
    split <;> omega
  have hcopy : strncpy (img.filename n).get (img.shortName n).length = (img.shortName n).bytes := by
    rw [strncpy_eq_take _ (by omega), hlen]
    simp only [Image.shortName]
    rw [List.take_eq_take_iff]
    unfold CString.length
    omega
  unfold directoryRead
  simp only
  rw [if_neg (by omega), hsize, hcopy]
  simp only [overlay, sbufsize, List.drop_replicate]
  rw [show (img.shortName n).bytes.length = (img.shortName n).length from rfl, ofBytes_append_zeros]

theorem directoryRead_end {img : Image} {n : Nat} (h : img.dirCount ≤ n) :
    directoryRead img n = (0, 0, List.replicate 33 0) := by
  unfold Image.dirCount at h
  unfold directoryRead
  simp only [sbufsize]
  rw [if_pos (by omega)]

end MyOS.Kernel
