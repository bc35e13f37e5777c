import MyOS.Files.Lookup

/-!
# Listed, indexed and looked up

Three routines of `files.c` find a directory entry: `directory_read` (`files.c:224-261`) goes
through them in order, `read_dentry_by_index` (`files.c:75-85`) takes a slot number,
`read_dentry_by_name` (`files.c:41-65`) a name. They do not measure the directory in the same way.

* A name that fills its 32 bytes has no NUL in its field (`Image.entryName`). `directory_read` cuts
  it at 32 bytes; `read_dentry_by_name` runs `strlen` on into the type that follows, and finds
  another byte there unless the type is 0 (`filename_eq_entryName_iff`).
* `directory_read` goes up to `dentries_num`, `read_dentry_by_name` over all 63 slots, and
  `read_dentry_by_index` up to `inodes_num`, which counts something else.

Results:
* **`listed_name_found_iff`**: a listed name is found again exactly when it is shorter than its
  field or its type is 0.
* **`index_lookup_iff`**: the two lookups agree on an index exactly when `inodes_num` bounds it as
  `dentries_num` does.
* **`directory_enumeration`**: `directory_read` called again and again goes through the names in
  order, over and over, with a call that returns 0 after each time.
-/

namespace MyOS.Files

open MyOS.Machine MyOS.Kernel

/-- The entries fit the directory, and their names are not empty and differ. -/
structure NamesOk (img : Image) : Prop where
  count_le : img.dentriesNum ≤ sizeFsDentries
  named : ∀ i < img.dentriesNum, 1 ≤ (img.entryName i).length
  distinct : ∀ i < img.dentriesNum, ∀ j < img.dentriesNum,
    img.entryName i = img.entryName j → i = j

variable {img : Image}

theorem length_entryName_le (img : Image) (i : Nat) : (img.entryName i).length ≤ 32 :=
  readString_length_le img.byte 32 (64 + 64 * i)

/-- The byte after a name field is the low byte of the type. -/
theorem byte_after_name (img : Image) (i : Nat) :
    (img.byte (64 + 64 * i + 32)).toNat = img.filetype i % 256 := by
  have hlt := (img.byte (64 + 64 * i + 32)).toNat_lt
  unfold Image.filetype Image.word le32
  omega

/-- The name that `strlen` finds: for a field without a NUL, the bytes after it belong to it. -/
theorem bytes_filename (img : Image) (i : Nat) : (img.filename i).bytes = (img.entryName i).bytes ++
    if (img.entryName i).length = 32 then
      readString img.byte (2 ^ 32 - 32) (64 + 64 * i + 32) else [] := by
  have hadd := readString_add img.byte 32 (2 ^ 32 - 32) (64 + 64 * i)
  rwa [show 32 + (2 ^ 32 - 32) = 2 ^ 32 by decide] at hadd

/-- **Where the two measures of a name agree.** -/
theorem filename_eq_entryName_iff (img : Image) (i : Nat) : img.filename i = img.entryName i ↔
    (img.entryName i).length < 32 ∨ img.filetype i % 256 = 0 := by
  have hle := length_entryName_le img i
  have hbyte := byte_after_name img i
  rw [CString.ext_iff, bytes_filename, List.append_right_eq_self]
  by_cases hfull : (img.entryName i).length = 32
  · -- the first byte past the field decides
    have hnil : readString img.byte (2 ^ 32 - 32) (64 + 64 * i + 32) = [] ↔
        img.byte (64 + 64 * i + 32) = 0 := by
      rw [show 2 ^ 32 - 32 = (2 ^ 32 - 33) + 1 from rfl, readString]
      split <;> simp_all
    rw [if_pos hfull, hnil, ← hbyte, ← UInt8.toNat_inj]
    simp [hfull]
  · rw [if_neg hfull]
    simp only [true_iff]
    omega

/-- The name `directory_read` leaves in its buffer for entry `i`. -/
def listedName (img : Image) (i : Nat) : CString := CString.ofBytes (directoryRead img i).2.2

theorem dirCount_eq (hle : img.dentriesNum ≤ sizeFsDentries) : img.dirCount = img.dentriesNum := by
  unfold sizeFsDentries at hle
  unfold Image.dirCount toInt32
  rw [if_pos (by omega)]
  rfl

theorem NamesOk.listedName_eq (h : NamesOk img) {i : Nat} (hi : i < img.dentriesNum) :
    listedName img i = img.entryName i := by
  unfold listedName
  rw [directoryRead_entry (by rwa [dirCount_eq h.count_le]), ofBytes_append_zeros,
    shortName_eq_entryName]

/-- `strlen` finds the same name in a slot as in another one only if their fields agree. -/
theorem entryName_eq_of_filename {i j : Nat} (h : img.filename j = img.filename i) :
    img.entryName j = img.entryName i := by
  rw [← shortName_eq_entryName, ← shortName_eq_entryName]
  apply CString.ext
  simp only [Image.shortName, h]

/-- An entry whose name ends in its field is found under its name. -/
theorem NamesOk.readDentryByName_eq (h : NamesOk img) {i : Nat} (hi : i < img.dentriesNum)
    (hname : img.filename i = img.entryName i) :
    readDentryByName img (img.entryName i) = some (dentryCopy img i) := by
  have hlen := h.named i hi
  have hle := h.count_le
  have hfirst : lookup img (img.entryName i) = some i := by
    rw [lookup_eq_some_iff]
    refine ⟨by omega, hname, ?_⟩
    intro j hj heq
    have hij := h.distinct j (by omega) i hi (entryName_eq_of_filename (heq.trans hname.symm))
    omega
  rw [Kernel.readDentryByName_eq, if_neg (by omega), hfirst]
  rfl

/-- Looked up under `name`, entry `i` is found: its type and its inode. -/
def Finds (img : Image) (name : CString) (i : Nat) : Prop :=
  ∃ d, readDentryByName img name = some d ∧ d.filetype = img.filetype i ∧
    d.inode = img.dentryInode i

/-- **Which listed names can be looked up.** -/
theorem listed_name_found_iff (img : Image) (h : NamesOk img)
    (htypes : ∀ i < img.dentriesNum, img.filetype i ≤ 2) (i : Nat) (hi : i < img.dentriesNum) :
    Finds img (listedName img i) i ↔ (img.entryName i).length < 32 ∨ img.filetype i = 0 := by
  have ht := htypes i hi
  rw [h.listedName_eq hi]
  constructor
  · rintro ⟨d, hd, htype, -⟩
    by_contra hn
    rw [not_or] at hn
    have hle := length_entryName_le img i
    -- a slot found under 32 bytes has a NUL after its field, so its type is another one
    obtain ⟨j, -, hname, rfl⟩ := readDentryByName_some hd
    have hj : img.filename j = img.entryName j := by
      rw [← shortName_eq_entryName]
      apply CString.ext
      simp only [Image.shortName]
      rw [List.take_of_length_le]
      change (img.filename j).length ≤ 32
      rwa [hname]
    have hiff := (filename_eq_entryName_iff img j).mp hj
    rw [← hj, hname] at hiff
    simp only [dentryCopy] at htype
    omega
  · intro hcond
    have hname : img.filename i = img.entryName i := by
      rw [filename_eq_entryName_iff]
      omega
    exact ⟨_, h.readDentryByName_eq hi hname, rfl, rfl⟩

/-- A directory with one entry, next to `inodes` inodes. -/
def oneEntry (inodes : UInt8) (name : List UInt8) (filetype : UInt8) : Image :=
  ⟨store (store (store (fun _ => 0) 0 [1, 0, 0, 0, inodes]) 64 name) 96 [filetype]⟩

theorem namesOk_of_one (hcount : img.dentriesNum = 1) (hname : 1 ≤ (img.entryName 0).length) :
    NamesOk img := by
  refine ⟨by rw [hcount]; decide, fun i hi => ?_, fun i hi j hj _ => by omega⟩
  obtain rfl : i = 0 := by omega
  exact hname

/-- `hello`. -/
def helloBytes : List UInt8 := [104, 101, 108, 108, 111]

/-- `verylargetxtwithverylongname.txt`, as the repository's directory has it. -/
def longBytes : List UInt8 :=
  [118, 101, 114, 121, 108, 97, 114, 103, 101, 116, 120, 116, 119, 105, 116, 104,
    118, 101, 114, 121, 108, 111, 110, 103, 110, 97, 109, 101, 46, 116, 120, 116]

/-- A regular file `hello` is found under the name listed. -/
theorem listed_name_found_iff_hello :
    Finds (oneEntry 1 helloBytes 2) (listedName (oneEntry 1 helloBytes 2) 0) 0 := by
  have hcount : (oneEntry 1 helloBytes 2).dentriesNum = 1 := by decide
  refine (listed_name_found_iff _ (namesOk_of_one hcount (by decide)) ?_ 0 (by omega)).mpr
    (Or.inl (by decide))
  intro i hi
  obtain rfl : i = 0 := by omega
  decide

/-- A regular file whose name has 32 bytes is listed and then not found. -/
theorem long_name_not_found : NamesOk (oneEntry 1 longBytes 2) ∧
    (∀ i < (oneEntry 1 longBytes 2).dentriesNum, (oneEntry 1 longBytes 2).filetype i ≤ 2) ∧
    0 < (oneEntry 1 longBytes 2).dentriesNum ∧
    (listedName (oneEntry 1 longBytes 2) 0).bytes = longBytes ∧
    readDentryByName (oneEntry 1 longBytes 2) (listedName (oneEntry 1 longBytes 2) 0) = none := by
  have hcount : (oneEntry 1 longBytes 2).dentriesNum = 1 := by decide
  refine ⟨namesOk_of_one hcount (by decide), ?_, by omega, by decide,
    by decide⟩
  intro i hi
  obtain rfl : i = 0 := by omega
  decide

/-! ## By index and by name -/

/-- The index is accepted iff it is that of an entry, and what it gives is found under its name. -/
def Agrees (img : Image) (index : Nat) : Prop :=
  ((readDentryByIndex img index).isSome ↔ index < img.dentriesNum) ∧
  ∀ d, readDentryByIndex img index = some d → ∃ d', readDentryByName img d.filename = some d' ∧
    d'.filetype = d.filetype ∧ d'.inode = d.inode

theorem readDentryByIndex_isSome_iff (img : Image) (index : Nat) :
    (readDentryByIndex img index).isSome ↔ index < sizeFsDentries ∧ index < img.inodesNum := by
  unfold readDentryByIndex
  split
  · simp only [Option.isSome_none, Bool.false_eq_true, false_iff]
    omega
  · simp only [Option.isSome_some, true_iff]
    omega

/-- The lookups agree on an index as soon as it is accepted when it should be. -/
theorem NamesOk.agrees_iff (h : NamesOk img)
    (hlen : ∀ i < img.dentriesNum, (img.entryName i).length ≤ 31) (index : Nat) :
    Agrees img index ↔ (index < sizeFsDentries ∧ index < img.inodesNum ↔
      index < img.dentriesNum) := by
  unfold Agrees
  rw [readDentryByIndex_isSome_iff]
  refine and_iff_left_of_imp ?_
  intro hiff d hd
  have hsome : (readDentryByIndex img index).isSome := by rw [hd]; rfl
  have hi := hiff.mp ((readDentryByIndex_isSome_iff img index).mp hsome)
  have hname : img.filename index = img.entryName index := by
    rw [filename_eq_entryName_iff]
    have := hlen index hi
    omega
  unfold readDentryByIndex at hd
  split at hd
  · cases hd
  · cases hd
    refine ⟨dentryCopy img index, ?_, rfl, rfl⟩
    change readDentryByName img (img.filename index) = _
    rw [hname, h.readDentryByName_eq hi hname]

/-- **Where lookup by index and lookup by name agree**: on an index that is not between
`inodes_num` and `dentries_num`, and on all of them when the two bounds are one. -/
theorem index_lookup_iff (img : Image) (h : NamesOk img)
    (hlen : ∀ i < img.dentriesNum, (img.entryName i).length ≤ 31) :
    (∀ index < 2 ^ 32, Agrees img index ↔
      ¬ (img.inodesNum ≤ index ∧ index < img.dentriesNum) ∧
      ¬ (img.dentriesNum ≤ index ∧ index < img.inodesNum ∧ index < sizeFsDentries)) ∧
    ((∀ index < 2 ^ 32, Agrees img index) ↔
      img.dentriesNum = min sizeFsDentries img.inodesNum) := by
  have hle := h.count_le
  simp only [h.agrees_iff hlen]
  refine ⟨fun index _ => by omega, ?_, fun heq index _ => by omega⟩
  intro hall
  unfold sizeFsDentries at hle hall ⊢
  -- the two bounds themselves are the indices that tell them apart
  have hfirst := hall img.dentriesNum (by omega)
  have hother := hall (min 63 img.inodesNum) (by omega)
  omega

/-- With one entry and one inode, index 0 is accepted and index 1 is not. -/
theorem index_lookup_iff_hello : Agrees (oneEntry 1 helloBytes 2) 0 ∧
    Agrees (oneEntry 1 helloBytes 2) 1 := by
  have hcount : (oneEntry 1 helloBytes 2).dentriesNum = 1 := by decide
  have hinodes : (oneEntry 1 helloBytes 2).inodesNum = 1 := by decide
  have hall := (index_lookup_iff (oneEntry 1 helloBytes 2)
    (namesOk_of_one hcount (by decide)) fun i hi => by
      obtain rfl : i = 0 := by omega
      decide).2.mpr (by rw [hcount, hinodes]; decide)
  exact ⟨hall 0 (by decide), hall 1 (by decide)⟩

/-- One entry next to two inodes: index 1 is accepted, and holds no entry. Without an inode the
entry itself is refused. -/
theorem index_past_directory :
    (NamesOk (oneEntry 2 helloBytes 2) ∧ (oneEntry 2 helloBytes 2).dentriesNum = 1 ∧
      (readDentryByIndex (oneEntry 2 helloBytes 2) 1).isSome ∧
      ¬ Agrees (oneEntry 2 helloBytes 2) 1) ∧
    NamesOk (oneEntry 0 helloBytes 1) ∧ (oneEntry 0 helloBytes 1).dentriesNum = 1 ∧
      readDentryByIndex (oneEntry 0 helloBytes 1) 0 = none ∧
      ¬ Agrees (oneEntry 0 helloBytes 1) 0 := by
  have hcount : (oneEntry 2 helloBytes 2).dentriesNum = 1 := by decide
  have hcount' : (oneEntry 0 helloBytes 1).dentriesNum = 1 := by decide
  have hsome : (readDentryByIndex (oneEntry 2 helloBytes 2) 1).isSome := by decide
  have hnone : readDentryByIndex (oneEntry 0 helloBytes 1) 0 = none := by decide
  refine ⟨⟨namesOk_of_one hcount (by decide), hcount, hsome, fun h => ?_⟩,
    namesOk_of_one hcount' (by decide), hcount', hnone, fun h => ?_⟩
  · have := h.1.mp hsome
    omega
  · have := h.1.mpr (by omega)
    rw [hnone] at this
    cases this

/-! ## The enumeration -/

/-- `entry_counter` after `j` calls of `directory_read` that found it at 0 first. -/
def counterAfter (img : Image) : Nat → Nat
  | 0 => 0
  | j + 1 => (directoryRead img (counterAfter img j)).1

/-- The end of the directory takes a call of its own, so the period is one more than the number of
entries. -/
theorem counterAfter_eq (hle : img.dentriesNum ≤ sizeFsDentries) (j : Nat) :
    counterAfter img j = j % (img.dentriesNum + 1) := by
  induction j with
  | zero => rfl
  | succ j ih =>
    have hlt : j % (img.dentriesNum + 1) < img.dentriesNum + 1 := Nat.mod_lt j (Nat.succ_pos _)
    have hcount := dirCount_eq hle
    rw [counterAfter, ih, ← Nat.mod_add_mod]
    generalize j % (img.dentriesNum + 1) = m at hlt
    by_cases hm : m < img.dentriesNum
    · rw [directoryRead_entry (by omega), Nat.mod_eq_of_lt (by omega)]
    · rw [directoryRead_end (by omega), show m = img.dentriesNum by omega, Nat.mod_self]

/-- **`directory_read` goes through the names in order, over and over.** Its call number `j` leaves
name number `j % (k + 1)` of the `k` names in the buffer and returns its length; when there is no
such name it clears the buffer, returns 0 and starts again. -/
theorem directory_enumeration (img : Image) (hle : img.dentriesNum ≤ sizeFsDentries) (j m : Nat)
    (hm : m = j % (img.dentriesNum + 1)) :
    (m < img.dentriesNum → directoryRead img (counterAfter img j) =
      (m + 1, ((img.entryName m).length : Int),
        (img.entryName m).bytes ++ List.replicate (33 - (img.entryName m).length) 0)) ∧
    (m = img.dentriesNum → directoryRead img (counterAfter img j) =
      (0, 0, List.replicate 33 0)) := by
  have hcount := dirCount_eq hle
  rw [counterAfter_eq hle, ← hm]
  constructor
  · intro hlt
    rw [directoryRead_entry (by omega), shortName_eq_entryName]
  · intro hend
    exact directoryRead_end (by omega)

/-- With one entry of 32 bytes, call 2 lists it again and call 3 ends the second listing. -/
theorem directory_enumeration_long :
    directoryRead (oneEntry 1 longBytes 2) (counterAfter (oneEntry 1 longBytes 2) 2) =
      (1, 32, longBytes ++ [0]) ∧
    directoryRead (oneEntry 1 longBytes 2) (counterAfter (oneEntry 1 longBytes 2) 3) =
      (0, 0, List.replicate 33 0) := by
  have hcount : (oneEntry 1 longBytes 2).dentriesNum = 1 := by decide
  have hname : (oneEntry 1 longBytes 2).entryName 0 = CString.ofBytes longBytes := by
    decide
  have hle : (oneEntry 1 longBytes 2).dentriesNum ≤ sizeFsDentries := by rw [hcount]; decide
  have h2 := (directory_enumeration _ hle 2 0 (by rw [hcount])).1 (by omega)
  have h3 := (directory_enumeration _ hle 3 1 (by rw [hcount])).2 (by omega)
  rw [hname] at h2
  exact ⟨h2, h3⟩

end MyOS.Files
