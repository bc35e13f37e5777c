import MyOS.Machine.Memory
import MyOS.Machine.Paging

/-!
# `mypaging.c`: page directories and page tables

Model of `student-distrib/mypaging.c` and of the paging half of `vidmap`
(`systemcall.c:458-490`), over the structures of `x86_desc.h:121-193`.

* A directory entry is one 32-bit word (`union pde`), written through the 4 KB layout (`writeKB`)
  or the 4 MB layout (`writeMB`) field by field, in the order of the source. The 4 MB layout has a
  nine-bit field (`reserved`, bits 13 to 21) that no code writes: those bits keep what the other
  layout left in them. A page-table entry is a word too (`writePE`).
* The kernel is linked at 4 MB; where the linker puts `page_directories`, `page_table_shell` and
  `page_table_video` is a `Layout`, which carries that they are page-aligned, lie in the kernel
  page and do not overlap. The kernel page is mapped to itself, so these are physical addresses.
* `physWord` is physical memory as the walk reads it; words outside the three structures are
  arbitrary (`rest`).
* The loops over the entries of a table write each entry once, from its own old value, and are
  written as the map they compute.
-/

namespace MyOS.Kernel

open MyOS.Machine

/-- Where the linker puts the paging structures. -/
structure Layout where
  pageDirectories : Nat
  pageTableShell : Nat
  pageTableVideo : Nat
  directories_aligned : 4096 ∣ pageDirectories
  shell_aligned : 4096 ∣ pageTableShell
  video_aligned : 4096 ∣ pageTableVideo
  directories_mem : 0x400000 ≤ pageDirectories ∧ pageDirectories + 6 * 4096 ≤ 0x800000
  shell_mem : 0x400000 ≤ pageTableShell ∧ pageTableShell + 4096 ≤ 0x800000
  video_mem : 0x400000 ≤ pageTableVideo ∧ pageTableVideo + 4096 ≤ 0x800000
  shell_disjoint : pageTableShell + 4096 ≤ pageDirectories ∨
    pageDirectories + 6 * 4096 ≤ pageTableShell
  video_disjoint : pageTableVideo + 4096 ≤ pageDirectories ∨
    pageDirectories + 6 * 4096 ≤ pageTableVideo
  tables_disjoint : pageTableShell + 4096 ≤ pageTableVideo ∨
    pageTableVideo + 4096 ≤ pageTableShell

/-- The paging structures and the register that selects a directory. -/
structure Paging where
  cr3 : Nat
  pageDirectories : Nat → Nat → Word
  pageTableShell : Nat → Word
  pageTableVideo : Nat → Word

/-! ## Writing entries -/

/-- A directory entry written in the 4 KB layout, present for user and kernel, naming `table`. -/
def writeKB (w : Word) (table : Nat) : Word :=
  let w := setField w 0 1 1 -- present
  let w := setField w 1 1 1 -- read_write
  let w := setField w 2 1 1 -- user_supervisor
  let w := setField w 3 1 0 -- write_through
  let w := setField w 4 1 0 -- cache_disabled
  let w := setField w 5 1 0 -- accessed
  let w := setField w 6 1 0 -- reserved
  let w := setField w 7 1 0 -- page_size
  let w := setField w 8 1 0 -- global_page
  let w := setField w 9 3 0 -- available
  setField w 12 20 (table / 2 ^ 12) -- base_addr

/-- A directory entry written in the 4 MB layout. -/
def writeMB (w : Word) (present readWrite userSupervisor pageSize global base : Nat) : Word :=
  let w := setField w 0 1 present
  let w := setField w 1 1 readWrite
  let w := setField w 2 1 userSupervisor
  let w := setField w 3 1 0 -- write_through
  let w := setField w 4 1 0 -- cache_disabled
  let w := setField w 5 1 0 -- accessed
  let w := setField w 6 1 0 -- dirty
  let w := setField w 7 1 pageSize
  let w := setField w 8 1 global
  let w := setField w 9 3 0 -- available
  let w := setField w 12 1 0 -- pat
  setField w 22 10 base

/-- A page-table entry, with `on` as its present, read/write and user bits. -/
def writePE (w : Word) (on base : Nat) : Word :=
  let w := setField w 0 1 on -- present
  let w := setField w 1 1 on -- read_write
  let w := setField w 2 1 on -- user_supervisor
  let w := setField w 3 1 0 -- write_through
  let w := setField w 4 1 0 -- cache_disabled
  let w := setField w 5 1 0 -- accessed
  let w := setField w 6 1 0 -- dirty
  let w := setField w 7 1 0 -- pat
  let w := setField w 8 1 0 -- global
  let w := setField w 9 3 0 -- available
  setField w 12 20 base

/-! ## Building address spaces -/

/-- `PROGRAM_IMG`. -/
def programImg : Nat := 32

/-- `VIDEO_MEM`. -/
def videoMem : Nat := 33

/-- `&page_directories[k]`; `k` is an `int`, and `halt` computes it as `parent_pid - 1`. -/
def dirAddr (L : Layout) (k : Int) : Nat := toUInt32 (L.pageDirectories + 4096 * k)

/-- What the three instructions after each `page_dir_addr` assignment load into CR3. -/
def loadCr3 (a : Nat) : Nat := a &&& 0xFFFFFFE7

/-- The loop over `page_table_shell` in `init_paging` and `create_paging`. -/
def fillShell (t : Nat → Word) : Nat → Word := fun i =>
  if i < 1024 then writePE (t i) (if i = 184 then 1 else 0) i else t i

/-- The directory `init_paging` builds. -/
def initDirectory (L : Layout) (d : Nat → Word) : Nat → Word := fun i =>
  if i = 0 then writeKB (d i) L.pageTableShell
  else if i < 1024 then
    let on := if i = 1 then 1 else 0
    writeMB (d i) on on 0 on on i
  else d i

/-- `init_paging()`. -/
def initPaging (L : Layout) (p : Paging) : Paging :=
  { p with
    cr3 := loadCr3 L.pageDirectories
    pageDirectories := Function.update p.pageDirectories 0 (initDirectory L (p.pageDirectories 0))
    pageTableShell := fillShell p.pageTableShell }

/-- The directory `create_paging(process)` builds over what it held before. The program image
entry is first disabled with the others, then written again. -/
def createDirectory (L : Layout) (process : Nat) (d : Nat → Word) : Nat → Word := fun i =>
  if i = 0 then writeKB (d i) L.pageTableShell
  else if i = 1 then writeMB (d i) 1 1 0 1 1 1
  else if i < 1024 then
    if i = programImg then writeMB (writeMB (d i) 0 0 0 1 0 0) 1 1 1 1 0 (process + 1)
    else writeMB (d i) 0 0 0 1 0 0
  else d i

/-- `create_paging(process)`, for the `process >= 1` it is called with. -/
def createPaging (L : Layout) (process : Nat) (p : Paging) : Paging :=
  if 7 ≤ process then p
  else
    { p with
      cr3 := loadCr3 (dirAddr L (process - 1))
      pageDirectories := Function.update p.pageDirectories (process - 1)
        (createDirectory L process (p.pageDirectories (process - 1)))
      pageTableShell := fillShell p.pageTableShell }

/-- The loop over `page_table_video` in `vidmap`. -/
def fillVideo (t : Nat → Word) : Nat → Word := fun i =>
  if i < 1024 then writePE (t i) (if i = 0 then 1 else 0) 184 else t i

/-- The paging half of `vidmap`, for the process `counter`. -/
def mapVideo (L : Layout) (counter : Nat) (p : Paging) : Paging :=
  let d := p.pageDirectories (counter - 1)
  { p with
    pageDirectories := Function.update p.pageDirectories (counter - 1)
      (Function.update d videoMem (writeKB (d videoMem) L.pageTableVideo))
    pageTableVideo := fillVideo p.pageTableVideo }

/-! ## Physical memory, as the walk reads it -/

/-- The 32-bit word at physical address `a`. -/
def physWord (L : Layout) (p : Paging) (rest : Nat → Word) (a : Nat) : Word :=
  if L.pageDirectories ≤ a ∧ a < L.pageDirectories + 6 * 4096 then
    p.pageDirectories ((a - L.pageDirectories) / 4096) ((a - L.pageDirectories) % 4096 / 4)
  else if L.pageTableShell ≤ a ∧ a < L.pageTableShell + 4096 then
    p.pageTableShell ((a - L.pageTableShell) / 4)
  else if L.pageTableVideo ≤ a ∧ a < L.pageTableVideo + 4096 then
    p.pageTableVideo ((a - L.pageTableVideo) / 4)
  else rest a

/-- The translation through the directory at `cr3`. -/
def pageWalk (L : Layout) (p : Paging) (rest : Nat → Word) (cr3 va : Nat) : Option Mapping :=
  walk (physWord L p rest) cr3 va

variable {L : Layout}

theorem dirAddr_eq {k : Nat} (hk : k < 6) : dirAddr L (k : Int) = L.pageDirectories + 4096 * k := by
  have := L.directories_mem
  unfold dirAddr
  rw [toUInt32_of_lt (by omega) (by omega)]
  omega

/-- The CR3 mask does nothing to the address of a directory. -/
theorem loadCr3_dirAddr {k : Nat} (hk : k < 6) :
    loadCr3 (dirAddr L (k : Int)) = L.pageDirectories + 4096 * k := by
  have := L.directories_mem
  rw [dirAddr_eq hk]
  unfold loadCr3
  refine land_eq_self_of_aligned (k := 12) (by omega) ?_ ?_
  · exact Nat.dvd_add L.directories_aligned (Nat.dvd_mul_right 4096 k)
  · decide

theorem physWord_directory (p : Paging) (rest : Nat → Word) {k i : Nat} (hk : k < 6)
    (hi : i < 1024) :
    physWord L p rest (L.pageDirectories + 4096 * k + 4 * i) = p.pageDirectories k i := by
  unfold physWord
  rw [if_pos (by omega)]
  congr 1 <;> omega

theorem physWord_shell (p : Paging) (rest : Nat → Word) {i : Nat} (hi : i < 1024) :
    physWord L p rest (L.pageTableShell + 4 * i) = p.pageTableShell i := by
  have := L.shell_disjoint
  unfold physWord
  rw [if_neg (by omega), if_pos (by omega)]
  congr 1
  omega

theorem physWord_video (p : Paging) (rest : Nat → Word) {i : Nat} (hi : i < 1024) :
    physWord L p rest (L.pageTableVideo + 4 * i) = p.pageTableVideo i := by
  have := L.video_disjoint
  have := L.tables_disjoint
  unfold physWord
  rw [if_neg (by omega), if_neg (by omega), if_pos (by omega)]
  congr 1
  omega

/-! ## Fields of freshly written entries -/

section Fields

variable (w : Word)

@[simp] theorem present_writeKB (table : Nat) : field (writeKB w table) 0 1 = 1 := by
  simp (disch := decide) [writeKB, field_setField_disjoint]

@[simp] theorem readWrite_writeKB (table : Nat) : field (writeKB w table) 1 1 = 1 := by
  simp (disch := decide) [writeKB, field_setField_disjoint]

@[simp] theorem user_writeKB (table : Nat) : field (writeKB w table) 2 1 = 1 := by
  simp (disch := decide) [writeKB, field_setField_disjoint]

@[simp] theorem pageSize_writeKB (table : Nat) : field (writeKB w table) 7 1 = 0 := by
  simp (disch := decide) [writeKB, field_setField_disjoint]

@[simp] theorem base_writeKB (table : Nat) :
    field (writeKB w table) 12 20 = table / 2 ^ 12 % 2 ^ 20 := by
  simp (disch := decide) [writeKB]

variable (pr rw us ps gl base : Nat)

@[simp] theorem present_writeMB : field (writeMB w pr rw us ps gl base) 0 1 = pr % 2 := by
  simp (disch := decide) [writeMB, field_setField_disjoint]

@[simp] theorem readWrite_writeMB : field (writeMB w pr rw us ps gl base) 1 1 = rw % 2 := by
  simp (disch := decide) [writeMB, field_setField_disjoint]

@[simp] theorem user_writeMB : field (writeMB w pr rw us ps gl base) 2 1 = us % 2 := by
  simp (disch := decide) [writeMB, field_setField_disjoint]

@[simp] theorem pageSize_writeMB : field (writeMB w pr rw us ps gl base) 7 1 = ps % 2 := by
  simp (disch := decide) [writeMB, field_setField_disjoint]

@[simp] theorem base_writeMB : field (writeMB w pr rw us ps gl base) 22 10 = base % 2 ^ 10 := by
  simp (disch := decide) [writeMB]

variable (on : Nat)

@[simp] theorem present_writePE : field (writePE w on base) 0 1 = on % 2 := by
  simp (disch := decide) [writePE, field_setField_disjoint]

@[simp] theorem readWrite_writePE : field (writePE w on base) 1 1 = on % 2 := by
  simp (disch := decide) [writePE, field_setField_disjoint]

@[simp] theorem user_writePE : field (writePE w on base) 2 1 = on % 2 := by
  simp (disch := decide) [writePE, field_setField_disjoint]

@[simp] theorem base_writePE : field (writePE w on base) 12 20 = base % 2 ^ 20 := by
  simp (disch := decide) [writePE]

end Fields

end MyOS.Kernel
