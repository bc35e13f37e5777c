import Mathlib.Data.List.Infix
import MyOS.Programs.Grep

/-!
# `grep` prints the lines that contain its string

`do_one_file` (`ece391grep.c:9-66`) reads the file 1024 bytes at a time. A line that is cut off by
the end of the buffer is moved down and completed by the next read; whether a line is cut off is
decided by the byte at `data[last]`, which may be left over from earlier.

* `grepped`: what should be printed for a text, line by line (`grepped_line`, `grepped_last`).
* `lineEnd_eq`, `searchFrom_iff` and `strcpy_holds`: the three loops over the bytes the array holds.
* `lineLoop_line`, `lineLoop_cut`, `lineLoop_rest`: what the inner loop does with a line.
  `lineLoop_spec` is the whole loop: what it leaves at the start of the buffer is a cut-off line,
  and the text from there on has still to be printed.
* `fileLoop_spec`: the outer loop, with a read as `ReadsFile.read_eq` has it.
* **`grep_prints_matching_lines`**: the two together.
-/

namespace MyOS.Programs

open MyOS.Machine MyOS.Kernel

variable {data : Mem} {s fname : CString} {a : Nat} {bs : List UInt8}

/-! ## What should be printed -/

/-- What is printed for a line. -/
def printLine (s fname : CString) (line : List UInt8) : List UInt8 :=
  if s.bytes <:+: line then fname.bytes ++ [58] ++ line ++ [10] else []

/-- What is printed for a text: the lines that contain `s`, in order. Behind a last newline
`List.splitOn` has one more, empty line. -/
def grepped (s fname : CString) (text : List UInt8) : List UInt8 :=
  (text.splitOn 10).flatMap (printLine s fname)

/-- Every line of the text fits the buffer with its newline. -/
def ShortLines (text : List UInt8) : Prop := ∀ line ∈ text.splitOn 10, line.length ≤ 1023

theorem grepped_line {line : List UInt8} (h : 10 ∉ line) (rest : List UInt8) :
    grepped s fname (line ++ 10 :: rest) = printLine s fname line ++ grepped s fname rest := by
  unfold grepped
  rw [List.splitOn_append_cons_self_of_not_mem h, List.flatMap_cons]

theorem grepped_last {line : List UInt8} (h : 10 ∉ line) :
    grepped s fname line = printLine s fname line := by
  unfold grepped
  rw [List.splitOn_eq_singleton h, List.flatMap_singleton]

theorem grepped_nil (hs : s.bytes ≠ []) : grepped s fname [] = [] := by
  rw [grepped_last List.not_mem_nil]
  exact if_neg fun h => hs (List.eq_nil_of_infix_nil h)

theorem ShortLines.rest {line rest : List UInt8} (h : 10 ∉ line)
    (hshort : ShortLines (line ++ 10 :: rest)) : ShortLines rest := by
  unfold ShortLines at *
  rw [List.splitOn_append_cons_self_of_not_mem h] at hshort
  exact fun l hl => hshort l (List.mem_cons_of_mem line hl)

/-- The start of a short line is short. -/
theorem ShortLines.start {w rest : List UInt8} (h : 10 ∉ w) (hshort : ShortLines (w ++ rest)) :
    w.length ≤ 1023 := by
  have hline : ∃ line ∈ (w ++ rest).splitOn 10, w.length ≤ line.length := by
    by_cases hrest : 10 ∈ rest
    · obtain ⟨pre, post, rfl, hpre⟩ := List.eq_append_cons_of_mem hrest
      have hall : 10 ∉ w ++ pre := by
        rw [List.mem_append, not_or]
        exact ⟨h, hpre⟩
      refine ⟨w ++ pre, ?_, by rw [List.length_append]; omega⟩
      rw [← List.append_assoc, List.splitOn_append_cons_self_of_not_mem hall]
      exact List.mem_cons_self
    · have hall : 10 ∉ w ++ rest := by
        rw [List.mem_append, not_or]
        exact ⟨h, hrest⟩
      refine ⟨w ++ rest, ?_, by rw [List.length_append]; omega⟩
      rw [List.splitOn_eq_singleton hall]
      exact List.mem_singleton_self _
  obtain ⟨line, hmem, hle⟩ := hline
  exact Nat.le_trans hle (hshort line hmem)

/-! ## The loops over the array -/

/-- **The end of the line** is at its newline, or at the end of the buffer. -/
theorem lineEnd_eq (h : Holds data a bs) :
    lineEnd data bs.length a = a + (bs.takeWhile (· != 10)).length := by
  induction bs generalizing a with
  | nil => rfl
  | cons b bs ih =>
    obtain ⟨hb, hrest⟩ := holds_cons.mp h
    rw [List.length_cons, lineEnd, hb]
    by_cases h10 : b = 10
    · rw [if_pos h10, List.takeWhile_cons_of_neg (by simp [h10])]
      rfl
    · rw [if_neg h10, ih hrest, List.takeWhile_cons_of_pos (by simp [h10]), List.length_cons]
      omega

theorem lineEnd_newline {line rest : List UInt8} (hline : 10 ∉ line)
    (h : Holds data a (line ++ 10 :: rest)) :
    lineEnd data (line ++ 10 :: rest).length a = a + line.length := by
  rw [lineEnd_eq h, List.takeWhile_append_of_pos, List.takeWhile_cons_of_neg (by decide),
    List.append_nil]
  intro b hb
  rw [bne_iff_ne]
  rintro rfl
  exact hline hb

theorem lineEnd_none (hline : 10 ∉ bs) (h : Holds data a bs) :
    lineEnd data bs.length a = a + bs.length := by
  rw [lineEnd_eq h, List.takeWhile_eq_self_iff.mpr]
  intro b hb
  rw [bne_iff_ne]
  rintro rfl
  exact hline hb

/-- **The comparison** of a string with bytes that end in a NUL: whether they start with it. -/
theorem strncmpFrom_eq_zero_iff_begins {f g : Nat → UInt8} {t u : List UInt8} {i : Nat}
    (ht : (0 : UInt8) ∉ t) (hu : (0 : UInt8) ∉ u) (hg : ∀ j < t.length, g (i + j) = t.getD j 0)
    (hf : ∀ j ≤ u.length, f (i + j) = u.getD j 0) :
    ece391StrncmpFrom f g t.length i = 0 ↔ t <+: u := by
  induction t generalizing u i with
  | nil => exact iff_of_true rfl List.nil_prefix
  | cons c t ih =>
    rw [List.mem_cons, not_or] at ht
    have hgi : g i = c := hg 0 (Nat.succ_pos _)
    have hfi : f i = u.getD 0 0 := hf 0 (Nat.zero_le _)
    rw [List.length_cons, ece391StrncmpFrom, hgi, hfi]
    cases u with
    | nil =>
      -- the bytes are at their end, and the string is not
      rw [List.getD_nil, if_neg ht.1]
      refine iff_of_false (fun h => ht.1 ?_) (fun h => absurd h.length_le (by simp))
      exact UInt8.toNat_inj.mp (by omega)
    | cons b u =>
      rw [List.mem_cons, not_or] at hu
      rw [List.getD_cons_zero, List.cons_prefix_cons]
      by_cases hbc : b = c
      · subst hbc
        rw [if_pos rfl]
        by_cases hlast : t.length = 0
        · obtain rfl := List.length_eq_zero_iff.mp hlast
          exact iff_of_true (if_pos (Or.inr rfl)) ⟨rfl, List.nil_prefix⟩
        · rw [if_neg (by rintro (h | h); exacts [hu.1 h.symm, hlast h])]
          rw [ih (u := u) ht.2 hu.2]
          · exact ⟨fun h => ⟨rfl, h⟩, fun h => h.2⟩
          · intro j hj
            have := hg (j + 1) (Nat.succ_lt_succ hj)
            rwa [show i + (j + 1) = i + 1 + j by omega, List.getD_cons_succ] at this
          · intro j hj
            have := hf (j + 1) (Nat.succ_le_succ hj)
            rwa [show i + (j + 1) = i + 1 + j by omega, List.getD_cons_succ] at this
      · rw [if_neg hbc]
        refine iff_of_false (fun h => hbc ?_) fun h => hbc h.1.symm
        exact UInt8.toNat_inj.mp (by omega)

theorem charVal_of_lt {b : UInt8} (h : b.toNat < 128) : charVal b = b.toNat := by
  unfold charVal
  rw [BitVec.toInt_eq_toNat_of_lt]
  · rfl
  · have : b.toBitVec.toNat = b.toNat := rfl
    omega

/-- **The search** finds a string of 7-bit characters that the line contains. -/
theorem searchFrom_iff (hs : s.bytes ≠ []) (hascii : ∀ c ∈ s.bytes, c.toNat < 128)
    (hnul : (0 : UInt8) ∉ bs) (h : Holds data a bs) (hend : data (a + bs.length) = 0) :
    searchFrom data s bs.length a = true ↔ s.bytes <:+: bs := by
  obtain ⟨c, t, hct⟩ := List.exists_cons_of_ne_nil hs
  induction bs generalizing a with
  | nil =>
    refine iff_of_false (by simp [searchFrom]) fun hin => ?_
    exact hs (List.eq_nil_of_infix_nil hin)
  | cons b bs ih =>
    have hget0 : s.get 0 = c := by
      unfold CString.get
      rw [hct, List.getD_cons_zero]
    have hc : c.toNat < 128 := hascii c (by rw [hct]; exact List.mem_cons_self)
    have hb := (holds_cons.mp h).1
    -- at this place the line starts with the string or does not
    have hcmp : ece391Strncmp (fun i => data (a + i)) s.get s.length = 0 ↔ s.bytes <+: b :: bs := by
      refine strncmpFrom_eq_zero_iff_begins s.nul_free hnul (fun j hj => ?_) fun j hj => ?_
      · rw [Nat.zero_add]
        rfl
      · rw [Nat.zero_add]
        rcases Nat.lt_or_eq_of_le hj with hlt | rfl
        · exact h j hlt
        · rw [hend, List.getD_eq_default _ _ (Nat.le_refl _)]
    have hhere : (charVal (s.get 0) = (data a).toNat ∧
        ece391Strncmp (fun i => data (a + i)) s.get s.length = 0) ↔ s.bytes <+: b :: bs := by
      rw [hcmp, hget0, charVal_of_lt hc, hb]
      refine and_iff_right_of_imp fun hpre => ?_
      rw [hct, List.cons_prefix_cons] at hpre
      rw [hpre.1]
    rw [List.mem_cons, not_or] at hnul
    have hend' : data (a + 1 + bs.length) = 0 := by
      rwa [show a + 1 + bs.length = a + (bs.length + 1) by omega]
    rw [List.length_cons, searchFrom, List.infix_cons_iff, ← hhere,
      ← ih hnul.2 (holds_cons.mp h).2 hend']
    split
    · rename_i hp
      exact iff_of_true rfl (Or.inl hp)
    · rename_i hp
      exact (or_iff_right hp).symm

/-- **The copy** of bytes that end in a NUL, downwards: it ends, moves them, and leaves what lies
behind them. -/
theorem strcpy_holds {dst src fuel : Nat} (hlt : dst < src) (hnul : (0 : UInt8) ∉ bs)
    (h : Holds data src bs) (hend : data (src + bs.length) = 0) (hf : bs.length < fuel) :
    ∃ data', ece391Strcpy data fuel dst src = some data' ∧ Holds data' dst bs ∧
      ∀ x, x < dst ∨ dst + bs.length < x → data' x = data x := by
  induction bs generalizing data dst src fuel with
  | nil =>
    cases fuel with
    | zero => exact absurd hf (Nat.not_lt_zero _)
    | succ fuel =>
      have h0 : data src = 0 := hend
      refine ⟨_, if_pos h0, holds_nil, fun x hx => Function.update_of_ne ?_ _ _⟩
      rw [List.length_nil] at hx
      omega
  | cons b bs ih =>
    rw [List.mem_cons, not_or] at hnul
    obtain ⟨hb, hrest⟩ := holds_cons.mp h
    rw [List.length_cons] at hend hf
    cases fuel with
    | zero => exact absurd hf (Nat.not_lt_zero _)
    | succ fuel =>
      -- the byte stored lies below what has still to be copied
      have hbelow : Holds (Function.update data dst (data src)) (src + 1) bs :=
        hrest.update (Or.inl (by omega)) _
      have hnext : Function.update data dst (data src) (src + 1 + bs.length) = 0 := by
        rw [Function.update_of_ne (by omega)]
        rwa [show src + 1 + bs.length = src + (bs.length + 1) by omega]
      obtain ⟨data', hcopy, hholds, hframe⟩ :=
        ih (Nat.succ_lt_succ hlt) hnul.2 hbelow hnext (Nat.lt_of_succ_lt_succ hf)
      refine ⟨data', ?_, holds_cons.mpr ⟨?_, hholds⟩, fun x hx => ?_⟩
      · rw [ece391Strcpy, if_neg (by rw [hb]; exact fun h => hnul.1 h.symm)]
        exact hcopy
      · rw [hframe dst (Or.inl (Nat.lt_succ_self dst)), Function.update_self, hb]
      · rw [List.length_cons] at hx
        rw [hframe x (by omega), Function.update_of_ne (by omega)]

/-! ## The lines of a buffer -/

variable {g g' : GrepState} {lineStart : Nat}

/-- The string searched for: not empty, of 7-bit characters. -/
structure Searchable (s : CString) : Prop where
  ne_nil : s.bytes ≠ []
  ascii : ∀ c ∈ s.bytes, c.toNat < 128

/-- What the search of one line prints. -/
theorem line_printed (hs : Searchable s) {line : List UInt8} (hnul : (0 : UInt8) ∉ line)
    (hlen : line.length ≤ 1024) (h : Holds data a line) (out : List UInt8) :
    (if searchFrom (Function.update data (a + line.length) 0) s line.length a then
      out ++ printFound fname (Function.update data (a + line.length) 0) a else out) =
      out ++ printLine s fname line := by
  have hholds := h.update (Or.inr (Nat.le_refl (a + line.length))) 0
  have hend : Function.update data (a + line.length) 0 (a + line.length) = 0 :=
    Function.update_self _ _ _
  have hiff := searchFrom_iff hs.ne_nil hs.ascii hnul hholds hend
  unfold printLine printFound
  by_cases hin : s.bytes <:+: line
  · rw [if_pos (hiff.mpr hin), if_pos hin, fdputsBytes, hholds.readString_eq hnul hend (by omega)]
  · rw [if_neg (fun h => hin (hiff.mp h)), if_neg hin, List.append_nil]

/-- What the outer loop finds and leaves: a line that was cut off, at the start of the buffer. The
last byte of the array, which no read reaches, is not a newline. -/
structure CutLine (g : GrepState) (p : List UInt8) : Prop where
  holds : Holds g.data 0 p
  last_eq : g.last = p.length
  length_le : p.length ≤ 1023
  no_newline : (10 : UInt8) ∉ p
  no_nul : (0 : UInt8) ∉ p
  guard : g.data 1024 ≠ 10

/-- A buffer all of whose lines have been searched. -/
theorem cutLine_nil (hguard : data 1024 ≠ 10) (out : List UInt8) : CutLine ⟨data, 0, out⟩ [] :=
  ⟨holds_nil, rfl, Nat.zero_le _, List.not_mem_nil, List.not_mem_nil, hguard⟩

theorem update_guard (hguard : data 1024 ≠ 10) (x : Nat) : Function.update data x 0 1024 ≠ 10 := by
  rw [Function.update_apply]
  split
  · decide
  · exact hguard

/-- **A whole line** is printed if it contains the string, and the loop goes on behind it. -/
theorem lineLoop_line (fname : CString) (cnt : Int) (hs : Searchable s) {line v : List UInt8}
    (hline : 10 ∉ line) (hnul : (0 : UInt8) ∉ line) (hv : Holds g.data lineStart (line ++ 10 :: v))
    (hlast : g.last = lineStart + (line ++ 10 :: v).length) (hle : g.last ≤ 1024) (fuel : Nat) :
    ∃ data, lineLoop s fname cnt (fuel + 1) g lineStart =
        (if v = [] then some ⟨data, 0, g.out ++ printLine s fname line⟩
        else lineLoop s fname cnt fuel ⟨data, g.last, g.out ++ printLine s fname line⟩
          (lineStart + line.length + 1)) ∧
      Holds data (lineStart + line.length + 1) v ∧ (g.data 1024 ≠ 10 → data 1024 ≠ 10) := by
  have hsub : g.last - lineStart = (line ++ 10 :: v).length := by omega
  obtain ⟨hhold, hrest⟩ := holds_append.mp hv
  obtain ⟨h10, hv₂⟩ := holds_cons.mp hrest
  refine ⟨_, ?_, hv₂.update (Or.inl (Nat.lt_succ_self _)) 0, fun hguard => update_guard hguard _⟩
  rw [List.length_append, List.length_cons] at hlast
  have hdone : g.last ≤ lineStart + line.length + 1 ↔ v = [] := by
    rw [← List.length_eq_zero_iff]
    omega
  rw [lineLoop, hsub]
  dsimp only
  rw [lineEnd_newline hline hv, if_neg (fun h => h.1 h10), Nat.add_sub_cancel_left,
    line_printed hs hnul (by omega) hhold]
  simp only [hdone]

/-- **A line that is cut off** is moved to the start of the buffer. -/
theorem lineLoop_cut (s fname : CString) {cnt : Int} {v : List UInt8} (hnew : 10 ∉ v)
    (hnul : (0 : UInt8) ∉ v) (hv : Holds g.data lineStart v)
    (hlast : g.last = lineStart + v.length) (hle : g.last ≤ 1024) (hguard : g.data 1024 ≠ 10)
    (hcut : g.data g.last ≠ 10 ∧ cnt ≠ 0 ∧ lineStart ≠ 0) {fuel : Nat}
    (hf : v.length < fuel) :
    ∃ g', lineLoop s fname cnt (fuel + 1) g lineStart = some g' ∧ CutLine g' v ∧
      g'.out = g.out := by
  have hsub : g.last - lineStart = v.length := by omega
  have hlen : v.length ≤ 1023 := by
    have := hcut.2.2
    omega
  rw [hlast] at hcut
  have hv' : Holds (Function.update g.data (lineStart + v.length) 0) lineStart v :=
    hv.update (Or.inr (Nat.le_refl _)) 0
  obtain ⟨data', hcopy, hholds, hframe⟩ :=
    strcpy_holds (Nat.pos_of_ne_zero hcut.2.2) hnul hv' (Function.update_self _ _ _) hf
  rw [lineLoop, hsub]
  dsimp only
  rw [lineEnd_none hnew hv, if_pos hcut, hcopy]
  refine ⟨_, rfl, ⟨hholds, rfl, hlen, hnew, hnul, ?_⟩, rfl⟩
  dsimp only
  rw [hframe 1024 (Or.inr (by omega))]
  exact update_guard hguard _

/-- **The rest of the buffer taken for a line.** -/
theorem lineLoop_rest (fname : CString) {cnt : Int} (hs : Searchable s) {v : List UInt8}
    (hnew : 10 ∉ v) (hnul : (0 : UInt8) ∉ v) (hv : Holds g.data lineStart v)
    (hlast : g.last = lineStart + v.length) (hle : g.last ≤ 1024)
    (hcut : ¬ (g.data g.last ≠ 10 ∧ cnt ≠ 0 ∧ lineStart ≠ 0)) (fuel : Nat) :
    ∃ data, lineLoop s fname cnt (fuel + 1) g lineStart =
        some ⟨data, 0, g.out ++ printLine s fname v⟩ ∧ (g.data 1024 ≠ 10 → data 1024 ≠ 10) := by
  have hsub : g.last - lineStart = v.length := by omega
  refine ⟨_, ?_, fun hguard => update_guard hguard (lineStart + v.length)⟩
  rw [lineLoop, hsub]
  dsimp only
  rw [lineEnd_none hnew hv, ← hlast, if_neg hcut, hlast, Nat.add_sub_cancel_left,
    line_printed hs hnul (by omega) hv, if_pos (Nat.le_succ _)]

/-- **The inner loop.** The bytes `v` from `line_start` on and the rest of the file have still to be
printed. When there is more of the file, the buffer is full and this read was not the last
(`hmore`), and its first line ends in it (`hfirst`). -/
theorem lineLoop_spec (fname : CString) (cnt : Int) (rest : List UInt8) (hs : Searchable s)
    {v : List UInt8} {fuel : Nat} (hv : Holds g.data lineStart v)
    (hlast : g.last = lineStart + v.length) (hle : g.last ≤ 1024) (hnul : (0 : UInt8) ∉ v)
    (hguard : g.data 1024 ≠ 10) (hshort : ShortLines (v ++ rest))
    (hmore : rest ≠ [] → g.last = 1024 ∧ cnt ≠ 0)
    (hfirst : lineStart = 0 → 10 ∉ v → rest = []) (hf : v.length + 1 < fuel) :
    ∃ g' p, lineLoop s fname cnt fuel g lineStart = some g' ∧ CutLine g' p ∧
      ShortLines (p ++ rest) ∧ (cnt = 0 → p = []) ∧
      g'.out ++ grepped s fname (p ++ rest) = g.out ++ grepped s fname (v ++ rest) := by
  induction fuel generalizing g lineStart v with
  | zero => exact absurd hf (Nat.not_lt_zero _)
  | succ fuel ih =>
    by_cases hnew : 10 ∈ v
    · -- a whole line
      obtain ⟨line, v₂, rfl, hline⟩ := List.eq_append_cons_of_mem hnew
      rw [List.mem_append, List.mem_cons, not_or, not_or] at hnul
      obtain ⟨data, hloop, hv₂, hkeep⟩ :=
        lineLoop_line fname cnt hs hline hnul.1 hv hlast hle fuel
      rw [List.length_append, List.length_cons] at hlast hf
      rw [List.append_assoc, List.cons_append] at hshort ⊢
      rw [hloop, grepped_line hline, ← List.append_assoc]
      by_cases hnil : v₂ = []
      · subst hnil
        rw [if_pos rfl]
        exact ⟨_, [], rfl, cutLine_nil (hkeep hguard) _, hshort.rest hline, fun _ => rfl, rfl⟩
      · rw [if_neg hnil]
        exact ih (g := ⟨data, g.last, _⟩) hv₂ (by dsimp only; omega) hle hnul.2.2 (hkeep hguard)
          (hshort.rest hline) hmore (fun h => by omega) (by omega)
    · by_cases hcut : g.data g.last ≠ 10 ∧ cnt ≠ 0 ∧ lineStart ≠ 0
      · have hlt : v.length < fuel := by omega
        obtain ⟨g', hloop, hg', hout⟩ :=
          lineLoop_cut s fname hnew hnul hv hlast hle hguard hcut hlt
        exact ⟨g', v, hloop, hg', hshort, fun h => absurd h hcut.2.1, by rw [hout]⟩
      · -- the last line of the file: a cut-off line would have been moved
        have hrest : rest = [] := by
          by_contra hne
          obtain ⟨hfull, hcnt⟩ := hmore hne
          refine hcut ⟨?_, hcnt, fun h0 => hne (hfirst h0 hnew)⟩
          rwa [hfull]
        subst hrest
        obtain ⟨data, hloop, hkeep⟩ :=
          lineLoop_rest fname hs hnew hnul hv hlast hle hcut fuel
        refine ⟨_, [], hloop, cutLine_nil (hkeep hguard) _, ?_, fun _ => rfl, ?_⟩
        · intro line hline
          rw [List.nil_append, List.splitOn_nil, List.mem_singleton] at hline
          rw [hline]
          exact Nat.zero_le _
        · rw [List.append_nil, List.append_nil, grepped_nil hs.ne_nil, List.append_nil,
            grepped_last hnew]

/-! ## The reads -/

/-- The system calls succeed, and a read gets as much of the file as it asks for and there is. -/
structure ReadsFile (calls : FileCalls) (file : List UInt8) : Prop where
  opened : calls.opened ≠ -1
  read : ∀ pos n, calls.read pos n =
    (((min n (file.length - pos) : Nat) : Int), (file.drop pos).take n)
  closed : calls.closed ≠ -1

/-- **A read** splits what is left of the file; it stops short of what was asked for only at the
end. -/
theorem ReadsFile.read_eq {calls : FileCalls} {file : List UInt8} (h : ReadsFile calls file)
    (pos m : Nat) :
    ∃ (n : Nat) (bs rest : List UInt8), calls.read pos m = ((n : Int), bs) ∧ bs.length = n ∧
      n ≤ m ∧ file.drop pos = bs ++ rest ∧ file.drop (pos + n) = rest ∧ (rest ≠ [] → n = m) := by
  refine ⟨min m (file.length - pos), _, (file.drop pos).drop m, h.read pos m, ?_,
    Nat.min_le_left _ _, (List.take_append_drop m _).symm, ?_, fun hne => ?_⟩
  · rw [List.length_take, List.length_drop]
  · rw [List.drop_drop]
    by_cases hm : m ≤ file.length - pos
    · rw [Nat.min_eq_left hm]
    · rw [List.drop_eq_nil_of_le (by omega), List.drop_eq_nil_of_le (by omega)]
  · by_contra hm
    exact hne (List.drop_eq_nil_of_le (by rw [List.length_drop]; omega))

/-- **The outer loop** ends and prints the lines of the cut-off line and the rest of the file. -/
theorem fileLoop_spec (hs : Searchable s) {calls : FileCalls} {file p : List UInt8}
    (hcalls : ReadsFile calls file) (hfile : (0 : UInt8) ∉ file) {pos fuel : Nat} (hg : CutLine g p)
    (hshort : ShortLines (p ++ file.drop pos)) (hf : file.length - pos + 1026 < fuel) :
    fileLoop calls s fname fuel g pos =
      some (false, g.out ++ grepped s fname (p ++ file.drop pos)) := by
  induction fuel generalizing g p pos with
  | zero => exact absurd hf (Nat.not_lt_zero _)
  | succ fuel ih =>
    have hp := hg.length_le
    obtain ⟨n, bs, rest, hread, hbs, hn, hdrop, hnext, hfull⟩ :=
      hcalls.read_eq pos (1024 - p.length)
    have hleft : file.length - pos = n + rest.length := by
      rw [← List.length_drop, hdrop, List.length_append, hbs]
    have hnul : (0 : UInt8) ∉ p ++ bs := by
      rw [List.mem_append, not_or]
      refine ⟨hg.no_nul, fun h => hfile (List.mem_of_mem_drop (i := pos) ?_)⟩
      rw [hdrop]
      exact List.mem_append_left rest h
    rw [hdrop, ← List.append_assoc] at hshort ⊢
    have hlen : (p ++ bs).length = p.length + n := by rw [List.length_append, hbs]
    have hholds := hg.holds.store bs
    rw [Nat.zero_add] at hholds
    have hguard : store g.data p.length bs 1024 ≠ 10 := by
      rw [store_of_outside _ (Or.inr (by omega))]
      exact hg.guard
    have hmore : rest ≠ [] → p.length + n = 1024 ∧ (n : Int) ≠ 0 := by
      intro hne
      have := hfull hne
      omega
    have hfirst : (0 : Nat) = 0 → 10 ∉ p ++ bs → rest = [] := by
      intro _ hline
      by_contra hne
      have := hshort.start hline
      have := hfull hne
      omega
    obtain ⟨g', p', hloop, hcut, hshort', hcnt, hout⟩ := lineLoop_spec fname n rest hs
      (g := ⟨store g.data p.length bs, p.length + n, g.out⟩) hholds (by rw [hlen, Nat.zero_add])
      (by dsimp only; omega) hnul hguard hshort hmore hfirst
      (show (p ++ bs).length + 1 < fuel by omega)
    rw [fileLoop, hg.last_eq, show bufsize - p.length = 1024 - p.length from rfl, hread]
    dsimp only at hout ⊢
    rw [if_neg (by omega), Int.toNat_natCast, hloop]
    dsimp only
    by_cases hzero : n = 0
    · -- nothing was read, so nothing is left
      have hnil : rest = [] := by
        by_contra hne
        have := hmore hne
        omega
      rw [if_pos (by omega), ← hout, hnil, hcnt (by omega), List.append_nil,
        grepped_nil hs.ne_nil, List.append_nil]
    · rw [if_neg (by omega), ih hcut (by rwa [hnext]) (by omega), hnext, hout]

/-- **`grep` prints the lines that contain its string.** For every file without NULs and without
lines longer than 1023 bytes, every string of 7-bit characters, and whatever the array holds but a
newline in its last byte: the loops of `do_one_file` end, and what it has printed is the lines that
contain the string, each after the name of the file and a colon. -/
theorem grep_prints_matching_lines (calls : FileCalls) (s fname : CString) (file : List UInt8)
    (data : Mem) (hs : Searchable s) (hcalls : ReadsFile calls file) (hfile : (0 : UInt8) ∉ file)
    (hshort : ShortLines file) (hguard : data 1024 ≠ 10) :
    ∃ fuel, doOneFile calls s fname data fuel = some (0, grepped s fname file) := by
  refine ⟨file.length + 1027, ?_⟩
  have hloop : fileLoop calls s fname (file.length + 1027) ⟨data, 0, []⟩ 0 =
      some (false, grepped s fname file) :=
    fileLoop_spec hs hcalls hfile (cutLine_nil hguard []) hshort (by omega)
  unfold doOneFile
  rw [if_neg hcalls.opened, hloop, Option.map_some, if_neg (by simp), if_neg hcalls.closed]

/-- A file whose last line has no newline: only its first line has a `b`. -/
def unfinishedFile : List UInt8 := [97, 98, 10, 99]

theorem grep_prints_matching_lines_unfinished :
    ∃ fuel, doOneFile ⟨2, fun pos n => (((min n (unfinishedFile.length - pos) : Nat) : Int),
        (unfinishedFile.drop pos).take n), 0⟩ ⟨[98], by decide⟩ ⟨[102], by decide⟩ (fun _ => 0)
        fuel =
      some (0, [102, 58, 97, 98, 10]) :=
  grep_prints_matching_lines _ _ _ unfinishedFile _ ⟨by decide, by simp⟩
    ⟨by decide, fun _ _ => rfl, by decide⟩ (by decide) (by unfold ShortLines; decide) (by decide)

end MyOS.Programs
