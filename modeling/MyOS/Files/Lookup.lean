import MyOS.Kernel.Files

/-!
# The search by name is exact

`read_dentry_by_name` (`files.c:41-65`) compares up to the longer of the two lengths, whatever the
first assignment to `size` does, so it finds equal names only (`Kernel.readDentryByName_eq`). It
looks at all 63 slots, `dentries_num` or not; on a directory whose unused slots are empty
(`SlotsOk`) that makes no difference, since the empty name is refused before the search.

* `lookup_eq_some_iff`: the slot found is the first with the name.
* **`name_lookup`**: what the search returns, for every name. The names of the repository's test
  `err_open` (one byte too long, one byte too short, empty) are cases of it.
-/

namespace MyOS.Files

open MyOS.Machine MyOS.Kernel

/-- Every name ends within its 32 bytes, and the slots that hold no entry are empty. -/
structure SlotsOk (img : Image) : Prop where
  nul : ∀ i < sizeFsDentries, ∃ j < 32, img.byte (64 + 64 * i + j) = 0
  unused : ∀ i < sizeFsDentries, img.dentriesNum ≤ i → img.byte (64 + 64 * i) = 0

variable {img : Image} {fname : CString}

theorem SlotsOk.length_le (h : SlotsOk img) {i : Nat} (hi : i < sizeFsDentries) :
    (img.filename i).length ≤ 31 := by
  obtain ⟨j, hj, hnul⟩ := h.nul i hi
  have := readString_length_le_of_nul img.byte (2 ^ 32) (64 + 64 * i) j hnul
  change (readString img.byte (2 ^ 32) (64 + 64 * i)).length ≤ 31
  omega

theorem SlotsOk.filename_unused (h : SlotsOk img) {i : Nat} (hi : i < sizeFsDentries)
    (hu : img.dentriesNum ≤ i) : img.filename i = CString.empty := by
  have := readString_length_le_of_nul img.byte (2 ^ 32) (64 + 64 * i) 0 (h.unused i hi hu)
  exact CString.ext (List.eq_nil_of_length_eq_zero (Nat.le_zero.mp this))

/-- The slot found is the first of the 63 with the name. -/
theorem lookup_eq_some_iff {i : Nat} : lookup img fname = some i ↔
    i < sizeFsDentries ∧ img.filename i = fname ∧ ∀ j < i, img.filename j ≠ fname := by
  unfold lookup
  rw [List.find?_range_eq_some]
  simp only [decide_eq_true_eq, List.mem_range, Bool.not_eq_true', decide_eq_false_iff_not]
  constructor
  · rintro ⟨hname, hi, hfirst⟩
    exact ⟨hi, hname, hfirst⟩
  · rintro ⟨hi, hname, hfirst⟩
    exact ⟨hname, hi, hfirst⟩

/-- The directory has an entry of that name. -/
def Named (img : Image) (fname : CString) : Prop :=
  ∃ i < sizeFsDentries, i < img.dentriesNum ∧ img.filename i = fname

/-- `i` is the first entry of that name. -/
def FirstNamed (img : Image) (fname : CString) (i : Nat) : Prop :=
  i < sizeFsDentries ∧ i < img.dentriesNum ∧ img.filename i = fname ∧
    ∀ j < i, img.filename j ≠ fname

theorem length_eq_zero_iff : fname.length = 0 ↔ fname = CString.empty := by
  constructor
  · intro h
    exact CString.ext (List.eq_nil_of_length_eq_zero h)
  · rintro rfl
    rfl

/-- A non-empty name is only found in a slot that holds an entry. -/
theorem SlotsOk.lookup_iff (h : SlotsOk img) (hne : fname ≠ CString.empty) {i : Nat} :
    lookup img fname = some i ↔ FirstNamed img fname i := by
  rw [lookup_eq_some_iff]
  constructor
  · rintro ⟨hi, hname, hfirst⟩
    refine ⟨hi, ?_, hname, hfirst⟩
    by_contra hu
    exact hne (hname ▸ h.filename_unused hi (by omega))
  · rintro ⟨hi, -, hname, hfirst⟩
    exact ⟨hi, hname, hfirst⟩

theorem lookup_eq_none_iff : lookup img fname = none ↔
    ∀ i < sizeFsDentries, img.filename i ≠ fname := by
  unfold lookup
  rw [List.find?_range_eq_none]
  simp

/-- **Name lookup is exact.** The search succeeds iff the name is not empty and is the name of an
entry, and then returns the type and the inode of the first such entry; an entry whose name only
begins with the name asked for, or only is a beginning of it, is never what is returned. -/
theorem name_lookup (img : Image) (h : SlotsOk img) (fname : CString) :
    ((readDentryByName img fname).isSome ↔ fname ≠ CString.empty ∧ Named img fname) ∧
    (∀ d, readDentryByName img fname = some d → ∃ i, FirstNamed img fname i ∧
      d = ⟨fname, img.filetype i, img.dentryInode i⟩ ∧ fname.length ≤ 31) ∧
    ∀ i, fname ≠ img.filename i →
      fname.bytes <+: (img.filename i).bytes ∨ (img.filename i).bytes <+: fname.bytes →
      readDentryByName img fname ≠ some (dentryCopy img i) := by
  have hfound : ∀ d, readDentryByName img fname = some d → ∃ i, FirstNamed img fname i ∧
      d = ⟨fname, img.filetype i, img.dentryInode i⟩ ∧ fname.length ≤ 31 := by
    intro d hd
    rw [readDentryByName_eq] at hd
    split at hd
    · cases hd
    · rename_i hlen
      obtain ⟨i, hi, rfl⟩ := Option.map_eq_some_iff.mp hd
      rw [h.lookup_iff (fun he => hlen (length_eq_zero_iff.mpr he))] at hi
      have hlen' := h.length_le hi.1
      rw [hi.2.2.1] at hlen'
      exact ⟨i, hi, by rw [dentryCopy, hi.2.2.1], hlen'⟩
  refine ⟨⟨?_, ?_⟩, hfound, ?_⟩
  · intro hsome
    obtain ⟨d, hd⟩ := Option.isSome_iff_exists.mp hsome
    obtain ⟨i, ⟨hi, hu, hname, -⟩, -⟩ := hfound d hd
    refine ⟨fun he => ?_, i, hi, hu, hname⟩
    exact length_ne_zero_of_found hd (length_eq_zero_iff.mpr he)
  · rintro ⟨hne, i, hi, -, hname⟩
    rw [readDentryByName_eq, if_neg (fun he => hne (length_eq_zero_iff.mp he)), Option.isSome_map,
      Option.isSome_iff_ne_none, Ne, lookup_eq_none_iff]
    exact fun hnone => hnone i hi hname
  · intro i hne _ hd
    obtain ⟨j, -, heq, -⟩ := hfound _ hd
    exact hne (congrArg Dentry.filename heq).symm

/-- A directory with the one entry `hello`. -/
def helloImage : Image := ⟨store (store (fun _ => 0) 0 [1]) 64 [104, 101, 108, 108, 111]⟩

theorem helloImage_slotsOk : SlotsOk helloImage := by
  refine ⟨by decide, by decide⟩

/-- `hello` is found, `helloo` is not. -/
theorem name_lookup_hello :
    (readDentryByName helloImage ⟨[104, 101, 108, 108, 111], by decide⟩).isSome ∧
    ¬ (readDentryByName helloImage ⟨[104, 101, 108, 108, 111, 111], by decide⟩).isSome := by
  have hcount : helloImage.dentriesNum = 1 := by decide
  have hname : helloImage.filename 0 = ⟨[104, 101, 108, 108, 111], by decide⟩ := by decide
  rw [(name_lookup helloImage helloImage_slotsOk _).1,
    (name_lookup helloImage helloImage_slotsOk _).1]
  refine ⟨⟨by decide, 0, by decide, by omega, hname⟩, ?_⟩
  rintro ⟨-, i, -, hi, heq⟩
  obtain rfl : i = 0 := by omega
  rw [hname] at heq
  exact absurd heq (by decide)

end MyOS.Files
