import MyOS.Kernel.Files

/-!
# `read_data` in memory: what it stores, and when it fails

`Kernel.readData` returns the bytes `read_data` (`files.c:96-144`) stores and reads them from an
image that nothing writes. Here the image and the caller's buffer are two regions of one memory, and
`readDataMem` is the same function with its stores made one by one, each iteration loading from the
memory the one before it left. `readLoopMem_eq` / `readDataMem_eq` say that the two agree as long as
the buffer is disjoint from the image.

* **`read_data_slice`**: for an inode with a good block list, the value returned and every byte of
  memory afterwards.
* `MustFail`: the requests that should fail: an inode number out of range, or a block the bytes
  asked for lie in. **`read_data_fails_iff`** says on exactly which requests `read_data` does that.
  It looks at the end of the file before it looks at the inode number (`files.c:103-109`), and at
  the next block entry before it looks at the end of the file (`files.c:117-136`).
-/

namespace MyOS.Files

open MyOS.Machine MyOS.Kernel

/-! ## Over one memory -/

/-- `file_addr` and `my_boot_block`, as `filesystem_init` leaves them. -/
structure FileSys where
  fsStart : Nat
  inodesNum : Nat
  datablocksNum : Nat

namespace FileSys

variable (fs : FileSys) (m : Mem)

/-- `inodes[n].length`. -/
def inodeLength (n : Nat) : Nat := le32 (peek m) (fs.fsStart + (4096 + 4096 * n))

/-- `inodes[n].data_blocks[k]`. -/
def dataBlock (n k : Nat) : Nat := le32 (peek m) (fs.fsStart + (4096 + 4096 * n + 4 + 4 * k))

/-- `file_addr.st_data + b * FS_UNIT_SIZE`. -/
def blockAddr (b : Nat) : Nat := fs.fsStart + ((fs.inodesNum + 1) * 4096 + b * 4096)

end FileSys

/-- The loop of `read_data` with `n` iterations left, on the memory `m`. -/
def readLoopMem (fs : FileSys) (inode offset buf : Nat) :
    Nat → Nat → Nat → Nat → Nat → Mem → Int × Mem
  | 0, i, _, _, _, m => (i, m)
  | n + 1, i, blk, off, addr, m =>
    let atEnd := decide (4096 ≤ off)
    let blk' := if atEnd then blk + 1 else blk
    let off' := if atEnd then 0 else off
    let addr' := if atEnd then fs.blockAddr (fs.dataBlock m inode blk') else addr
    if atEnd ∧ fs.datablocksNum ≤ fs.dataBlock m inode blk' then (-1, m)
    else if fs.inodeLength m inode ≤ (i + offset) % 2 ^ 32 then (i, m)
    else
      readLoopMem fs inode offset buf n (i + 1) blk' (off' + 1) (addr' + 1)
        (poke m (buf + i) (peek m addr'))

/-- `read_data(inode, offset, buf, length)`. -/
def readDataMem (fs : FileSys) (m : Mem) (inode offset buf length : Nat) : Int × Mem :=
  let blk := offset / 4096
  let off := offset % 4096
  if fs.inodeLength m inode ≤ offset then (0, m)
  else if fs.inodesNum ≤ inode ∨ fs.datablocksNum ≤ fs.dataBlock m inode blk then (-1, m)
  else
    readLoopMem fs inode offset buf length 0 blk off
      (fs.blockAddr (fs.dataBlock m inode blk) + off) m

/-- The image that starts at `fsStart`. -/
def imageAt (m : Mem) (fsStart : Nat) : Image := ⟨fun a => m ((fsStart + a) % 2 ^ 32)⟩

/-- `filesystem_init(fs_start, fs_end)`, for `fs_start != fs_end`. -/
def filesystemInit (m : Mem) (fsStart : Nat) : FileSys where
  fsStart := fsStart
  inodesNum := (imageAt m fsStart).inodesNum
  datablocksNum := (imageAt m fsStart).datablocksNum

/-- The bytes of an image: the boot block, the inodes and the data blocks. -/
def imageSize (img : Image) : Nat := (img.inodesNum + 1 + img.datablocksNum) * 4096

/-- `m` holds the image `img` at `fsStart`. -/
def Holds (m : Mem) (fsStart : Nat) (img : Image) : Prop :=
  ∀ a < imageSize img, peek m (fsStart + a) = img.byte a

/-- No byte of the buffer is a byte of the image. -/
def Disjoint (fsStart size buf length : Nat) : Prop :=
  ∀ a < size, ∀ i < length, (fsStart + a) % 2 ^ 32 ≠ (buf + i) % 2 ^ 32

variable {m : Mem} {fsStart : Nat} {img : Image} {inode : Nat}

theorem holds_imageAt (m : Mem) (fsStart : Nat) : Holds m fsStart (imageAt m fsStart) := by
  intro a _
  change m ((fsStart + a) % 2 ^ 32) = m ((fsStart + a % 2 ^ 32) % 2 ^ 32)
  congr 1
  omega

/-- A store into the buffer leaves the image alone. -/
theorem Holds.poke {buf length i : Nat} (h : Holds m fsStart img)
    (hd : Disjoint fsStart (imageSize img) buf length) (hi : i < length) (b : UInt8) :
    Holds (poke m (buf + i) b) fsStart img := by
  intro a ha
  rw [← h a ha]
  exact Function.update_of_ne (hd a ha i hi) _ _

/-- A word of the image, read from memory. -/
theorem Holds.le32_eq (h : Holds m fsStart img) {a : Nat} (ha : a + 3 < imageSize img) :
    le32 (peek m) (fsStart + a) = img.word a := by
  have h0 := h a (by omega)
  have h1 := h (a + 1) (by omega)
  have h2 := h (a + 2) (by omega)
  have h3 := h (a + 3) (by omega)
  rw [← Nat.add_assoc] at h1 h2 h3
  unfold Image.word le32
  rw [h0, h1, h2, h3]

/-- The globals the loop works with are those of the image. -/
structure Mounts (fs : FileSys) (fsStart : Nat) (img : Image) : Prop where
  start : fs.fsStart = fsStart
  inodes : fs.inodesNum = img.inodesNum
  blocks : fs.datablocksNum = img.datablocksNum

variable {fs : FileSys}

theorem Holds.inodeLength_eq (h : Holds m fsStart img) (hm : Mounts fs fsStart img)
    (hi : inode < img.inodesNum) : fs.inodeLength m inode = img.inodeLength inode := by
  unfold FileSys.inodeLength
  rw [hm.start]
  exact h.le32_eq (by unfold imageSize; omega)

theorem Holds.dataBlock_eq (h : Holds m fsStart img) (hm : Mounts fs fsStart img)
    (hi : inode < img.inodesNum) {k : Nat} (hk : k < 1023) :
    fs.dataBlock m inode k = img.dataBlock inode k := by
  unfold FileSys.dataBlock
  rw [hm.start]
  exact h.le32_eq (by unfold imageSize; omega)

theorem Mounts.blockAddr_eq (hm : Mounts fs fsStart img) (b : Nat) :
    fs.blockAddr b = fsStart + img.blockAddr b := by
  unfold FileSys.blockAddr Image.blockAddr
  rw [hm.start, hm.inodes]

/-- An inode with a length its block list can hold and a good block list. -/
structure InodeOk (img : Image) (inode : Nat) : Prop where
  inode_lt : inode < img.inodesNum
  length_lt : img.inodeLength inode < 1023 * 4096
  block_lt : ∀ b < 1023, img.dataBlock inode b < img.datablocksNum

/-- A byte of a good data block, read from memory. -/
theorem Holds.peek_block (h : Holds m fsStart img) {b off : Nat} (hb : b < img.datablocksNum)
    (hoff : off < 4096) :
    peek m (fsStart + (img.blockAddr b + off)) = img.byte (img.blockAddr b + off) := by
  refine h _ ?_
  unfold imageSize Image.blockAddr
  have : b * 4096 + 4096 ≤ img.datablocksNum * 4096 := by omega
  omega

/-- **The loop in memory**: it returns what `readLoop` returns and leaves what `readLoop` says it
stores. The induction is on the iterations left; every iteration finds the image as it was. -/
theorem readLoopMem_eq (hm : Mounts fs fsStart img) (hok : InodeOk img inode)
    {offset buf length : Nat} (hd : Disjoint fsStart (imageSize img) buf length) :
    ∀ n i blk off addr m, Holds m fsStart img → Placed img inode (offset + i) blk off addr →
      offset + i ≤ img.inodeLength inode → i + n ≤ length →
      readLoopMem fs inode offset buf n i blk off (fsStart + addr) m =
        ((readLoop img inode offset n i blk off addr).1,
          pokes m (buf + i) (readLoop img inode offset n i blk off addr).2)
  | 0, _, _, _, _, _, _, _, _, _ => rfl
  | n + 1, i, blk, off, addr, m, h, hpl, hle, hn => by
    have hlen := hok.length_lt
    have hnext := hpl.next
    have hpos := hpl.pos_eq
    have hoff := hpl.off_le
    have hblk : (if 4096 ≤ off then blk + 1 else blk) < 1023 := by split <;> omega
    have hlt : (if 4096 ≤ off then 0 else off) < 4096 := by split <;> omega
    -- the loads of this iteration see the image
    have haddr : (if 4096 ≤ off then
        fs.blockAddr (fs.dataBlock m inode (if 4096 ≤ off then blk + 1 else blk))
        else fsStart + addr) =
        fsStart + (if 4096 ≤ off then
          img.blockAddr (img.dataBlock inode (if 4096 ≤ off then blk + 1 else blk)) else addr) := by
      rw [h.dataBlock_eq hm hok.inode_lt hblk, hm.blockAddr_eq]
      split <;> rfl
    have hbyte := h.peek_block (hok.block_lt _ hblk) hlt
    rw [← hnext.addr_eq] at hbyte
    unfold readLoopMem readLoop
    simp only [decide_eq_true_eq]
    rw [haddr, h.dataBlock_eq hm hok.inode_lt hblk, h.inodeLength_eq hm hok.inode_lt, hm.blocks]
    generalize (if 4096 ≤ off then blk + 1 else blk) = blk' at *
    generalize (if 4096 ≤ off then img.blockAddr (img.dataBlock inode blk') else addr) = addr' at *
    generalize (if 4096 ≤ off then 0 else off) = off' at *
    by_cases hbad : 4096 ≤ off ∧ img.datablocksNum ≤ img.dataBlock inode blk'
    · rw [if_pos hbad, if_pos hbad]
      rfl
    · rw [if_neg hbad, if_neg hbad]
      by_cases heof : img.inodeLength inode ≤ (i + offset) % 2 ^ 32
      · rw [if_pos heof, if_pos heof]
        rfl
      · rw [if_neg heof, if_neg heof, hbyte]
        have hmod : (i + offset) % 2 ^ 32 = offset + i := by omega
        exact readLoopMem_eq hm hok hd n (i + 1) _ _ _ _ (h.poke hd (by omega) _)
          (hnext.step hlt) (by omega) (by omega)

/-- **`read_data` in memory** returns what `readData` returns and stores what it says. -/
theorem readDataMem_eq (hm : Mounts fs fsStart img) (hok : InodeOk img inode)
    (offset : Nat) {buf length : Nat} (hd : Disjoint fsStart (imageSize img) buf length)
    (h : Holds m fsStart img) :
    readDataMem fs m inode offset buf length =
      ((readData img inode offset length).1, pokes m buf (readData img inode offset length).2) := by
  unfold readDataMem readData
  simp only
  rw [h.inodeLength_eq hm hok.inode_lt]
  split
  · rfl
  · rename_i heof
    have hlen := hok.length_lt
    rw [hm.inodes, hm.blocks, h.dataBlock_eq hm hok.inode_lt (by omega)]
    split
    · rfl
    · rw [hm.blockAddr_eq, Nat.add_assoc]
      exact readLoopMem_eq hm hok hd length 0 _ _ _ m h (placed_start img inode offset) (by omega)
        (by omega)

/-- **`read_data` returns exactly the slice asked for.** It returns 0 at or past the end of the file
and else as many bytes as were asked for or are left; byte `j` of the buffer is byte
`(offset + j) % 4096` of the block that holds byte `offset + j` of the file; and no other byte of
memory changes. -/
theorem read_data_slice (m : Mem) (fsStart inode offset buf length : Nat)
    (hlength : length < 2 ^ 32)
    (hok : InodeOk (imageAt m fsStart) inode)
    (hd : Disjoint fsStart (imageSize (imageAt m fsStart)) buf length) :
    ∃ (r : Nat) (m' : Mem),
      readDataMem (filesystemInit m fsStart) m inode offset buf length = ((r : Int), m') ∧
      r = (if (imageAt m fsStart).inodeLength inode ≤ offset then 0
        else min length ((imageAt m fsStart).inodeLength inode - offset)) ∧
      (∀ j < r, m' ((buf + j) % 2 ^ 32) =
        (imageAt m fsStart).byte ((imageAt m fsStart).blockAddr
          ((imageAt m fsStart).dataBlock inode ((offset + j) / 4096)) + (offset + j) % 4096)) ∧
      ∀ a, (∀ j < r, a ≠ (buf + j) % 2 ^ 32) → m' a = m a := by
  have hm : Mounts (filesystemInit m fsStart) fsStart (imageAt m fsStart) := ⟨rfl, rfl, rfl⟩
  have hmem := readDataMem_eq hm hok offset hd (holds_imageAt m fsStart)
  generalize imageAt m fsStart = img at *
  have hlen := hok.length_lt
  -- a good block list leaves `read_data` no way to fail
  have hnofail : ¬ ReadFails img inode offset length := by
    rintro ⟨hlt, hbad | ⟨k, hbad, hk⟩⟩
    · have := hok.inode_lt
      omega
    · have hk' : k < 1023 := by
        rcases hk with rfl | ⟨-, -, hk⟩ <;> omega
      have := hok.block_lt k hk'
      omega
  simp only [readData_ok hnofail] at hmem
  have hslice : (img.fileSlice inode offset (min length (img.inodeLength inode - offset))).length =
      min length (img.inodeLength inode - offset) := length_fileSlice _ _ _ _
  refine ⟨min length (img.inodeLength inode - offset), _, hmem, ?_, ?_, ?_⟩
  · split <;> omega
  · intro j hj
    rw [pokes_inside _ _ _ (by omega) (by omega), List.getD_eq_getElem _ _ (by omega)]
    simp [Image.fileSlice, Image.fileByte]
  · intro a ha
    exact pokes_outside _ _ _ (by rwa [hslice])

/-! ## A small image

One inode and one data block, at the start of memory. The words of the inode are a parameter. -/

/-- Its bytes. -/
def smallMem (inode : List UInt8) : Mem :=
  store (store (store (fun _ => 0) 4 [1, 0, 0, 0, 1]) 4096 inode) 8192 [97, 98, 99]

/-- With a file of three bytes, the inode is in order. -/
theorem smallMem_inodeOk : InodeOk (imageAt (smallMem [3]) 0) 0 := by
  have hcount : (imageAt (smallMem [3]) 0).datablocksNum = 1 := by decide
  refine ⟨by decide, by decide, fun b hb => ?_⟩
  have hzero : (imageAt (smallMem [3]) 0).dataBlock 0 b = 0 := by
    refine le32_eq_zero fun a ha ha' => ?_
    change smallMem [3] ((0 + a % 2 ^ 32) % 2 ^ 32) = 0
    rw [Nat.zero_add, Nat.mod_mod, Nat.mod_eq_of_lt (by omega)]
    unfold smallMem
    rw [store_of_outside _ (by simp; omega), store_of_outside _ (by simp; omega),
      store_of_outside _ (by simp; omega)]
  omega

/-- From offset 1, ten bytes are asked for and two are there. -/
theorem read_data_slice_small :
    (readDataMem (filesystemInit (smallMem [3]) 0) (smallMem [3]) 0 1 0x100000 10).1 = 2 := by
  have hsize : imageSize (imageAt (smallMem [3]) 0) = 12288 := by decide
  have hlen : (imageAt (smallMem [3]) 0).inodeLength 0 = 3 := by decide
  obtain ⟨r, m', heq, hr, -⟩ := read_data_slice (smallMem [3]) 0 0 1 0x100000 10 (by decide)
    smallMem_inodeOk (by rw [hsize]; intro a ha i hi; omega)
  rw [hlen] at hr
  rw [heq, hr]
  rfl

/-! ## Failure -/

/-- The requests that should fail: no such inode, or one of the blocks the bytes lie in is out of
range. -/
def MustFail (img : Image) (inode offset length : Nat) : Prop :=
  img.inodesNum ≤ inode ∨ offset < img.inodeLength inode ∧ ∃ k, offset / 4096 ≤ k ∧
    k ≤ (min (offset + length) (img.inodeLength inode) - 1) / 4096 ∧
    img.datablocksNum ≤ img.dataBlock inode k

/-- An inode number out of range, with the offset at or past the length found there: `read_data`
returns 0. -/
def PastNoFile (img : Image) (inode offset : Nat) : Prop :=
  img.inodesNum ≤ inode ∧ img.inodeLength inode ≤ offset

/-- A request past the end of a file that ends on a block boundary, with every block it needs good
and the block entry after the last one out of range: `read_data` returns -1. -/
def PastLastBlock (img : Image) (inode offset length : Nat) : Prop :=
  inode < img.inodesNum ∧ offset < img.inodeLength inode ∧ 4096 ∣ img.inodeLength inode ∧
    img.inodeLength inode < offset + length ∧
    img.datablocksNum ≤ img.dataBlock inode (img.inodeLength inode / 4096) ∧
    ∀ k, offset / 4096 ≤ k → k < img.inodeLength inode / 4096 →
      img.dataBlock inode k < img.datablocksNum

/-- For a file that is there, `read_data` fails when it must, and on `PastLastBlock`. -/
theorem readFails_iff {img : Image} {inode offset length : Nat} (hi : inode < img.inodesNum)
    (hlen : 1 ≤ length) : ReadFails img inode offset length ↔
      MustFail img inode offset length ∨ PastLastBlock img inode offset length := by
  constructor
  · rintro ⟨hlt, hbad | ⟨k, hbad, hk⟩⟩
    · omega
    · by_cases hmust : MustFail img inode offset length
      · exact Or.inl hmust
      · -- the block found bad is not needed, so it is the one after the last
        have hgood : ∀ j, offset / 4096 ≤ j →
            j ≤ (min (offset + length) (img.inodeLength inode) - 1) / 4096 →
            img.dataBlock inode j < img.datablocksNum := by
          intro j h1 h2
          by_contra hj
          exact hmust (Or.inr ⟨hlt, j, h1, h2, by omega⟩)
        have hafter : 4096 * k = img.inodeLength inode ∧
            img.inodeLength inode < offset + length := by
          by_contra hne
          have := hgood k
          rcases hk with rfl | ⟨h1, h2, h3⟩ <;> omega
        have hdiv : img.inodeLength inode / 4096 = k := by omega
        refine Or.inr ⟨hi, hlt, ⟨k, hafter.1.symm⟩, hafter.2, by rwa [hdiv], ?_⟩
        intro j h1 h2
        exact hgood j h1 (by omega)
  · rintro ((hno | ⟨hlt, k, h1, h2, hbad⟩) | ⟨-, hlt, ⟨k, hk⟩, hpast, hbad, -⟩)
    · omega
    · refine ⟨hlt, Or.inr ⟨k, hbad, ?_⟩⟩
      rcases Nat.eq_or_lt_of_le h1 with heq | hlt'
      · exact Or.inl heq.symm
      · exact Or.inr ⟨hlt', by omega, by omega⟩
    · have hdiv : img.inodeLength inode / 4096 = k := by omega
      rw [hdiv] at hbad
      exact ⟨hlt, Or.inr ⟨k, hbad, Or.inr ⟨by omega, by omega, by omega⟩⟩⟩

/-- **`read_data` fails exactly when it must, except on two kinds of requests.** -/
theorem read_data_fails_iff (img : Image) (inode offset length : Nat) (hlen : 1 ≤ length) :
    ((readData img inode offset length).1 = -1 ↔ MustFail img inode offset length) ↔
      ¬ PastNoFile img inode offset ∧ ¬ PastLastBlock img inode offset length := by
  rw [readData_fails_iff]
  by_cases hi : img.inodesNum ≤ inode
  · have hmust : MustFail img inode offset length := Or.inl hi
    have hlast : ¬ PastLastBlock img inode offset length := fun h => by
      have := h.1
      omega
    have hfails : ReadFails img inode offset length ↔ offset < img.inodeLength inode :=
      ⟨And.left, fun hlt => ⟨hlt, Or.inl hi⟩⟩
    rw [hfails]
    simp only [hmust, hlast, iff_true, not_false_eq_true, and_true, PastNoFile, hi, true_and,
      not_le]
  · have hno : ¬ PastNoFile img inode offset := fun h => hi h.1
    have hexcl : PastLastBlock img inode offset length → ¬ MustFail img inode offset length := by
      rintro ⟨-, hlt, ⟨k, hk⟩, hpast, -, hgood⟩ (hbad | ⟨-, j, h1, h2, hbad⟩)
      · exact hi hbad
      · have := hgood j h1 (by omega)
        omega
    rw [readFails_iff (by omega) hlen]
    constructor
    · intro h
      exact ⟨hno, fun hlast => hexcl hlast (h.mp (Or.inr hlast))⟩
    · rintro ⟨-, hlast⟩
      exact or_iff_left hlast

/-- A request that must fail, and does. -/
theorem read_data_fails_iff_small :
    (readData (imageAt (smallMem [3, 0, 0, 0, 9]) 0) 0 0 1).1 = -1 := by
  have hbad : MustFail (imageAt (smallMem [3, 0, 0, 0, 9]) 0) 0 0 1 :=
    Or.inr ⟨by decide, 0, by decide, by decide, by decide⟩
  refine ((read_data_fails_iff _ 0 0 1 (by decide)).mpr ⟨?_, ?_⟩).mpr hbad
  · exact fun h => absurd h.1 (by decide)
  · exact fun h => absurd h.2.2.1 (by decide)

/-- There is no inode 7, yet reading it at offset 0 returns 0; and reading a file of 4096 bytes past
its end returns -1 when the unused second block entry is 9. -/
theorem read_data_wrong_order :
    ((readData (imageAt (smallMem [3]) 0) 7 0 1).1 = 0 ∧
      MustFail (imageAt (smallMem [3]) 0) 7 0 1) ∧
    (readData (imageAt (smallMem [0, 16, 0, 0, 0, 0, 0, 0, 9]) 0) 0 0 4097).1 = -1 ∧
      ¬ MustFail (imageAt (smallMem [0, 16, 0, 0, 0, 0, 0, 0, 9]) 0) 0 0 4097 := by
  have hlen : (imageAt (smallMem [0, 16, 0, 0, 0, 0, 0, 0, 9]) 0).inodeLength 0 = 4096 := by
    decide
  have hcount : (imageAt (smallMem [0, 16, 0, 0, 0, 0, 0, 0, 9]) 0).inodesNum = 1 := by
    decide
  have hfirst : (imageAt (smallMem [0, 16, 0, 0, 0, 0, 0, 0, 9]) 0).dataBlock 0 0 <
      (imageAt (smallMem [0, 16, 0, 0, 0, 0, 0, 0, 9]) 0).datablocksNum := by
    decide
  refine ⟨⟨by decide, Or.inl (by decide)⟩, ?_, ?_⟩
  · rw [readData_fails_iff]
    refine ⟨by rw [hlen]; decide, Or.inr ⟨1, by decide, Or.inr ?_⟩⟩
    exact ⟨by decide, by decide, by rw [hlen]⟩
  · rintro (hbad | ⟨-, k, -, hk, hbad⟩)
    · rw [hcount] at hbad
      exact absurd hbad (by decide)
    · rw [hlen] at hk
      obtain rfl : k = 0 := by omega
      omega

end MyOS.Files
