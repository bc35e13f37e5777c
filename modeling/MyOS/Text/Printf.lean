import MyOS.Text.Numerals

/-!
# What `printf` makes of its format

The comment above `printf` (`lib.c:153-170`) says what each conversion prints. Here that is a
`Piece` of the format and its text (`Piece.text`), and `render` is the text of a whole format.

* `parse`: the pieces a format is made of. `#` changes the conversion it stands before, any number
  of times, and alters the text of `x` only.
* `convertHex_eq`, `convertUnsigned_eq`, `convertSigned_eq`: the buffers of the number conversions
  hold those texts, the padding and the least negative number included.
* `convert_piece` and `printStep_piece`: one byte of the format.
* `printRun_complete`: a format that does not end inside a conversion is read up to its NUL and no
  further. `printRun_inside`: one that does has its NUL taken for a conversion, which prints
  nothing, and the byte behind it is read as if it were part of the format.
* **`printf_interprets_iff`**: so `printf` does what its comment says exactly for the first kind.
-/

namespace MyOS.Text

open MyOS.Machine MyOS.Kernel

/-! ## Formats -/

/-- A piece of a format. -/
inductive Piece where
  | literal (c : UInt8)
  | percent
  | hex (aligned : Bool)
  | unsigned
  | signed
  | char
  | string
  /-- A conversion that is not supported. -/
  | unknown
  deriving DecidableEq

/-- The conversion of a character. -/
def pieceOf (alternate : Bool) (c : UInt8) : Piece :=
  if c = 37 then .percent
  else if c = 120 then .hex alternate
  else if c = 117 then .unsigned
  else if c = 100 then .signed
  else if c = 99 then .char
  else if c = 115 then .string
  else .unknown

/-- The piece that ends with `c`, in plain text or inside a conversion. -/
def pieceAt : PrintMode → UInt8 → Option Piece
  | .text, c => if c = 37 then none else some (.literal c)
  | .conversion alternate, c => if c = 35 then none else some (pieceOf alternate c)

/-- Where `c` leaves the reader of a format. -/
def nextMode : PrintMode → UInt8 → PrintMode
  | .text, c => if c = 37 then .conversion false else .text
  | .conversion _, c => if c = 35 then .conversion true else .text

/-- The pieces of the rest of a format. -/
def parse : PrintMode → List UInt8 → List Piece
  | _, [] => []
  | mode, c :: cs => (pieceAt mode c).toList ++ parse (nextMode mode c) cs

/-- Where the rest of a format leaves its reader. -/
def endMode (mode : PrintMode) (format : List UInt8) : PrintMode := format.foldl nextMode mode

/-- The format ends inside a conversion: after a `%` that starts one, and any `#`s, there is no
character. -/
def EndsInside (format : List UInt8) : Prop := endMode .text format ≠ .text

/-- The arguments a piece takes. -/
def Piece.args : Piece → Nat
  | literal _ => 0
  | percent => 0
  | unknown => 0
  | _ => 1

/-- What a piece prints, of the word that is its argument or the string that word points to. -/
def Piece.text (w : UInt32) (s : CString) : Piece → List UInt8
  | literal c => [c]
  | percent => [37]
  | hex false => (numeralString radix16 w.toNat).bytes
  | hex true =>
    List.replicate (8 - (numeralString radix16 w.toNat).length) 48 ++
      (numeralString radix16 w.toNat).bytes
  | unsigned => (numeralString radix10 w.toNat).bytes
  | signed =>
    if w.toNat < 2 ^ 31 then (numeralString radix10 w.toNat).bytes
    else 45 :: (numeralString radix10 (2 ^ 32 - w.toNat)).bytes
  | char => [UInt8.ofNat w.toNat]
  | string => s.bytes
  | unknown => []

/-- The text of some pieces, with the arguments from number `i` on. -/
def render (words : Nat → UInt32) (strs : Nat → CString) : List Piece → Nat → List UInt8
  | [], _ => []
  | p :: ps, i => p.text (words i) (strs i) ++ render words strs ps (i + p.args)

/-- The arguments some pieces take. -/
def argCount (ps : List Piece) : Nat := (ps.map Piece.args).sum

/-- Every argument that is printed as a string points to it. -/
def StringArgs (m : Mem) (words : Nat → UInt32) (strs : Nat → CString) : List Piece → Nat → Prop
  | [], _ => True
  | p :: ps, i => (p = .string → StringAt m (words i).toNat (strs i) ∧ (strs i).length < 2 ^ 32) ∧
      StringArgs m words strs ps (i + p.args)

/-! ## The number conversions -/

theorem putsBytes_string {m : Mem} {a : Nat} {s : CString} (h : StringAt m a s)
    (hlen : s.length < 2 ^ 32) : putsBytes m a = s.bytes := by
  unfold putsBytes
  rw [h.readString_eq, List.take_of_length_le]
  exact Nat.le_of_lt hlen

theorem convertUnsigned_eq (convBuf : Mem) (w : UInt32) (s : CString) :
    convertUnsigned convBuf w = Piece.unsigned.text w s := readString_itoa convBuf w 0 radix10

/-- A string with a character stored in front of it. -/
theorem stringAt_cons {m : Mem} {a : Nat} {s t : CString} {c : UInt8} (hc : m a = c)
    (h : StringAt m (a + 1) s) (ht : t.bytes = c :: s.bytes) : StringAt m a t := by
  intro i hi
  have hlen : t.length = s.length + 1 := by
    unfold CString.length
    rw [ht, List.length_cons]
  unfold CString.get
  rw [ht]
  cases i with
  | zero => exact hc
  | succ i =>
    rw [List.getD_cons_succ, show a + (i + 1) = a + 1 + i by omega]
    exact h i (by omega)

theorem length_numeralString_le (radix : Radix) (w : UInt32) :
    (numeralString radix w.toNat).length ≤ 32 := by
  rw [length_numeralString]
  exact length_numeral_uint32 radix w

theorem convertSigned_eq (convBuf : Mem) (w : UInt32) (s : CString) :
    convertSigned convBuf w = Piece.signed.text w s := by
  unfold convertSigned Piece.text
  by_cases hneg : 2 ^ 31 ≤ w.toNat
  · have hw := w.toNat_lt
    rw [if_pos hneg, if_neg (by omega)]
    have hminus : (-w).toNat = 2 ^ 32 - w.toNat := by
      rw [UInt32.toNat_neg, show UInt32.size = 2 ^ 32 from rfl]
      exact Nat.mod_eq_of_lt (by omega)
    obtain ⟨hstring, hframe⟩ := itoa_string (Function.update convBuf 0 45) (-w) 1 radix10
    have hlen := length_numeralString_le radix10 (-w)
    have hsign : itoa (Function.update convBuf 0 45) (-w) 1 radix10 0 = 45 := by
      rw [hframe 0 (Or.inl Nat.one_pos), Function.update_self]
    have hnul : (0 : UInt8) ∉ 45 :: (numeralString radix10 (-w).toNat).bytes := by
      rw [List.mem_cons, not_or]
      exact ⟨by decide, (numeralString radix10 (-w).toNat).nul_free⟩
    have hall := stringAt_cons (t := ⟨_, hnul⟩) hsign hstring rfl
    have hfits : CString.length ⟨_, hnul⟩ < 2 ^ 32 := by
      have : CString.length ⟨_, hnul⟩ = (numeralString radix10 (-w).toNat).length + 1 := rfl
      omega
    rw [putsBytes_string hall hfits, ← hminus]
  · rw [if_neg hneg, if_pos (by omega)]
    exact readString_itoa convBuf w 0 radix10

theorem padLoop_below (b : Mem) {i x : Nat} (n : Nat) (hx : x < i) : padLoop b i n x = b x := by
  induction n generalizing b i with
  | zero => rfl
  | succ n ih => rw [padLoop, ih _ (by omega), Function.update_of_ne (by omega)]

/-- The padding in front of a string. -/
theorem padLoop_string {b : Mem} {s : CString} (i : Nat) (n : Nat) (h : StringAt b (i + n) s)
    {t : CString} (ht : t.bytes = List.replicate n 48 ++ s.bytes) :
    StringAt (padLoop b i n) i t := by
  induction n generalizing b i t with
  | zero =>
    obtain rfl : t = s := CString.ext ht
    exact h
  | succ n ih =>
    have hnul : (0 : UInt8) ∉ List.replicate n 48 ++ s.bytes := by
      intro hmem
      apply t.nul_free
      rw [ht, List.replicate_succ, List.cons_append]
      exact List.mem_cons_of_mem 48 hmem
    have hrest : StringAt (Function.update b i 48) (i + 1 + n) s := by
      intro j hj
      rw [Function.update_of_ne (by omega), show i + 1 + n + j = i + (n + 1) + j by omega]
      exact h j hj
    rw [padLoop]
    refine stringAt_cons (c := 48) ?_ (ih (i + 1) hrest (t := ⟨_, hnul⟩) rfl) ?_
    · rw [padLoop_below _ n (Nat.lt_succ_self i), Function.update_self]
    · rw [ht, List.replicate_succ, List.cons_append]

theorem convertHex_eq (convBuf : Mem) (w : UInt32) (aligned : Bool) (s : CString) :
    convertHex convBuf w aligned = (Piece.hex aligned).text w s := by
  cases aligned with
  | false => exact readString_itoa convBuf w 0 radix16
  | true =>
    have hstring := (itoa_string convBuf w 8 radix16).1
    have hlen : (numeralString radix16 w.toNat).length ≤ 8 := by
      rw [length_numeralString]
      refine length_numeral_le radix16.two_le (by decide) ?_
      exact Nat.lt_of_lt_of_eq w.toNat_lt (by decide)
    have hstart : strlen (itoa convBuf w 8 radix16) 8 = (numeralString radix16 w.toNat).length :=
      strlen_eq hstring (by omega)
    have hnul : (0 : UInt8) ∉ List.replicate (8 - (numeralString radix16 w.toNat).length) 48 ++
        (numeralString radix16 w.toNat).bytes := by
      rw [List.mem_append, not_or]
      exact ⟨fun h => absurd (List.eq_of_mem_replicate h) (by decide), CString.nul_free _⟩
    unfold convertHex
    rw [if_neg (by decide)]
    dsimp only
    rw [hstart]
    -- the padding starts at the index that is the number of digits, and ends where they start
    have hall := padLoop_string (b := itoa convBuf w 8 radix16)
      (numeralString radix16 w.toNat).length (8 - (numeralString radix16 w.toNat).length)
      (by rwa [Nat.add_sub_cancel' hlen]) (t := ⟨_, hnul⟩) rfl
    refine putsBytes_string hall ?_
    have hlen8 : CString.length ⟨_, hnul⟩ = 8 - (numeralString radix16 w.toNat).length +
        (numeralString radix16 w.toNat).length := by
      unfold CString.length
      rw [List.length_append, List.length_replicate]
    omega

/-! ## One byte of the format -/

variable {e : PrintCall} {strs : Nat → CString} {σ σ' : PrintState}

/-- **A conversion prints its piece and takes its arguments.** -/
theorem convert_piece (alternate : Bool) (c : UInt8)
    (hs : pieceOf alternate c = .string → StringAt e.mem (e.words σ.esp).toNat (strs σ.esp) ∧
      (strs σ.esp).length < 2 ^ 32) :
    convert e alternate σ c = { σ with
      out := σ.out ++ (pieceOf alternate c).text (e.words σ.esp) (strs σ.esp)
      esp := σ.esp + (pieceOf alternate c).args } := by
  by_cases h37 : c = 37
  · subst h37
    rfl
  by_cases h120 : c = 120
  · subst h120
    have htext := convertHex_eq (e.convBuf σ.esp) (e.words σ.esp) alternate (strs σ.esp)
    exact congrArg σ.take htext
  by_cases h117 : c = 117
  · subst h117
    have htext := convertUnsigned_eq (e.convBuf σ.esp) (e.words σ.esp) (strs σ.esp)
    exact congrArg σ.take htext
  by_cases h100 : c = 100
  · subst h100
    have htext := convertSigned_eq (e.convBuf σ.esp) (e.words σ.esp) (strs σ.esp)
    exact congrArg σ.take htext
  by_cases h99 : c = 99
  · subst h99
    rfl
  by_cases h115 : c = 115
  · subst h115
    obtain ⟨hat, hlen⟩ := hs rfl
    exact congrArg σ.take (putsBytes_string hat hlen)
  · have hunknown : pieceOf alternate c = .unknown := by
      unfold pieceOf
      rw [if_neg h37, if_neg h120, if_neg h117, if_neg h100, if_neg h99, if_neg h115]
    unfold convert
    dsimp only
    rw [if_neg h37, if_neg h120, if_neg h117, if_neg h100, if_neg h99, if_neg h115, hunknown]
    change σ = { σ with out := σ.out ++ [], esp := σ.esp }
    rw [List.append_nil]

theorem printStep_buf (e : PrintCall) (σ : PrintState) : (printStep e σ).buf = σ.buf + 1 := by
  unfold printStep
  cases σ.mode with
  | text => dsimp only; split <;> rfl
  | conversion alternate => dsimp only; split <;> rfl

theorem printStep_mode (e : PrintCall) (σ : PrintState) :
    (printStep e σ).mode = nextMode σ.mode (e.mem σ.buf) := by
  unfold printStep nextMode
  cases hmode : σ.mode with
  | text => dsimp only; split <;> simp
  | conversion alternate => dsimp only; split <;> rfl

theorem convert_reads (alternate : Bool) (c : UInt8) :
    (convert e alternate σ c).reads = σ.reads := by
  unfold convert PrintState.take
  dsimp only
  split_ifs <;> rfl

theorem printStep_reads (e : PrintCall) (σ : PrintState) : (printStep e σ).reads = σ.reads := by
  unfold printStep
  cases σ.mode with
  | text => dsimp only; split <;> rfl
  | conversion alternate =>
    dsimp only
    split
    · rfl
    · exact convert_reads alternate _

/-- **A byte of the format** prints the piece that ends with it, if one does. -/
theorem printStep_piece {c : UInt8} (hc : e.mem σ.buf = c)
    (hs : StringArgs e.mem e.words strs (pieceAt σ.mode c).toList σ.esp) :
    (printStep e σ).out = σ.out ++ render e.words strs (pieceAt σ.mode c).toList σ.esp ∧
      (printStep e σ).esp = σ.esp + argCount (pieceAt σ.mode c).toList := by
  unfold printStep pieceAt at *
  dsimp only
  rw [hc]
  cases hmode : σ.mode with
  | text =>
    dsimp only
    split
    · exact ⟨(List.append_nil _).symm, rfl⟩
    · exact ⟨rfl, rfl⟩
  | conversion alternate =>
    rw [hmode] at hs
    dsimp only at hs ⊢
    split
    · exact ⟨(List.append_nil _).symm, rfl⟩
    · rename_i hne
      rw [if_neg hne] at hs
      rw [convert_piece alternate c hs.1]
      exact ⟨congrArg (σ.out ++ ·) (List.append_nil _).symm, rfl⟩

/-! ## Whole formats -/

theorem argCount_append (ps qs : List Piece) : argCount (ps ++ qs) = argCount ps + argCount qs := by
  unfold argCount
  rw [List.map_append, List.sum_append]

theorem render_append (words : Nat → UInt32) (strs : Nat → CString) (ps qs : List Piece) (i : Nat) :
    render words strs (ps ++ qs) i =
      render words strs ps i ++ render words strs qs (i + argCount ps) := by
  induction ps generalizing i with
  | nil => rfl
  | cons p ps ih =>
    rw [List.cons_append, render, render, ih, List.append_assoc]
    congr 3
    unfold argCount
    rw [List.map_cons, List.sum_cons, Nat.add_assoc]

theorem stringArgs_append {m : Mem} {words : Nat → UInt32} {ps qs : List Piece} {i : Nat} :
    StringArgs m words strs (ps ++ qs) i ↔
      StringArgs m words strs ps i ∧ StringArgs m words strs qs (i + argCount ps) := by
  induction ps generalizing i with
  | nil => exact ⟨fun h => ⟨trivial, h⟩, fun h => h.2⟩
  | cons p ps ih =>
    rw [List.cons_append, StringArgs, StringArgs, ih, and_assoc]
    unfold argCount
    rw [List.map_cons, List.sum_cons, Nat.add_assoc]

/-- Where `printf` stands at the end of the rest `cs` of a format. -/
def finished (e : PrintCall) (strs : Nat → CString) (σ : PrintState) (cs : List UInt8) :
    PrintState where
  buf := σ.buf + cs.length
  esp := σ.esp + argCount (parse σ.mode cs)
  mode := .text
  out := σ.out ++ render e.words strs (parse σ.mode cs) σ.esp
  reads := σ.reads ++ List.range' σ.buf (cs.length + 1)

/-- A byte read brings the end no nearer and no further. -/
theorem finished_step {c : UInt8} {cs : List UInt8} (hc : e.mem σ.buf = c)
    (hs : StringArgs e.mem e.words strs (parse σ.mode (c :: cs)) σ.esp) :
    finished e strs (printStep e σ.read) cs = finished e strs σ (c :: cs) ∧
      StringArgs e.mem e.words strs (parse (nextMode σ.mode c) cs) (printStep e σ.read).esp := by
  rw [parse, stringArgs_append] at hs
  obtain ⟨hout, hesp⟩ := printStep_piece (σ := σ.read) hc hs.1
  have hmode := printStep_mode e σ.read
  rw [show e.mem σ.read.buf = c from hc] at hmode
  refine ⟨?_, by rw [hesp]; exact hs.2⟩
  unfold finished
  rw [hout, hesp, hmode, printStep_buf, printStep_reads, parse, render_append, argCount_append]
  simp only [PrintState.read, List.length_cons, List.append_assoc, PrintState.mk.injEq, true_and]
  refine ⟨by omega, by omega, ?_⟩
  rw [List.range'_succ (s := σ.buf), List.singleton_append]

/-- With a byte read, the reader stands before the rest of the format. -/
theorem printStep_rest {c : UInt8} {cs : List UInt8}
    (hat : ∀ i ≤ (c :: cs).length, e.mem (σ.buf + i) = (c :: cs).getD i 0) :
    (printStep e σ.read).mode = nextMode σ.mode c ∧
      ∀ i ≤ cs.length, e.mem ((printStep e σ.read).buf + i) = cs.getD i 0 := by
  have hbuf : σ.read.buf = σ.buf := rfl
  have hc : e.mem σ.read.buf = c := hat 0 (Nat.zero_le _)
  refine ⟨?_, fun i hi => ?_⟩
  · rw [printStep_mode, hc]
    rfl
  · rw [printStep_buf, hbuf, show σ.buf + 1 + i = σ.buf + (i + 1) by omega,
      hat (i + 1) (Nat.succ_le_succ hi), List.getD_cons_succ]

/-- **A format that does not end inside a conversion is read up to its NUL.** -/
theorem printRun_complete {cs : List UInt8} (hnul : (0 : UInt8) ∉ cs)
    (hat : ∀ i ≤ cs.length, e.mem (σ.buf + i) = cs.getD i 0)
    (hs : StringArgs e.mem e.words strs (parse σ.mode cs) σ.esp)
    (hend : endMode σ.mode cs = .text) :
    printRun e (cs.length + 1) σ = some (finished e strs σ cs) := by
  induction cs generalizing σ with
  | nil =>
    have h0 : e.mem σ.buf = 0 := hat 0 (Nat.le_refl 0)
    have hmode : σ.mode = .text := hend
    rw [printRun, if_pos ⟨hmode, h0⟩]
    unfold finished PrintState.read
    rw [hmode]
    simp only [parse, render, List.append_nil]
    rfl
  | cons c cs ih =>
    rw [List.mem_cons, not_or] at hnul
    have hc : e.mem σ.buf = c := hat 0 (Nat.zero_le _)
    obtain ⟨hfin, hs'⟩ := finished_step hc hs
    obtain ⟨hmode, hrest⟩ := printStep_rest hat
    rw [printRun, if_neg (by rw [hc]; exact fun h => hnul.1 h.2.symm), ← hfin]
    exact ih hnul.2 hrest (by rwa [hmode]) (by rw [hmode]; exact hend)

/-- A run reads the byte it stands at, and forgets nothing it has read. -/
theorem printRun_reads {fuel : Nat} (h : printRun e fuel σ = some σ') :
    σ.buf ∈ σ'.reads ∧ ∀ a ∈ σ.reads, a ∈ σ'.reads := by
  induction fuel generalizing σ with
  | zero => cases h
  | succ fuel ih =>
    rw [printRun] at h
    split at h
    · cases h
      exact ⟨List.mem_append_right _ (List.mem_singleton_self _),
        fun a ha => List.mem_append_left _ ha⟩
    · have hreads := (ih h).2
      rw [printStep_reads] at hreads
      exact ⟨hreads _ (List.mem_append_right _ (List.mem_singleton_self _)),
        fun a ha => hreads a (List.mem_append_left _ ha)⟩

/-- **A format that ends inside a conversion is read past its NUL.** -/
theorem printRun_inside {cs : List UInt8} (hnul : (0 : UInt8) ∉ cs)
    (hat : ∀ i ≤ cs.length, e.mem (σ.buf + i) = cs.getD i 0) (hend : endMode σ.mode cs ≠ .text)
    {fuel : Nat} (h : printRun e fuel σ = some σ') : σ.buf + cs.length + 1 ∈ σ'.reads := by
  induction cs generalizing σ fuel with
  | nil =>
    have hmode : σ.mode ≠ .text := hend
    cases fuel with
    | zero => cases h
    | succ fuel =>
      rw [printRun, if_neg fun hn => hmode hn.1] at h
      have hread := (printRun_reads h).1
      rwa [printStep_buf] at hread
  | cons c cs ih =>
    rw [List.mem_cons, not_or] at hnul
    have hc : e.mem σ.buf = c := hat 0 (Nat.zero_le _)
    obtain ⟨hmode, hrest⟩ := printStep_rest hat
    cases fuel with
    | zero => cases h
    | succ fuel =>
      rw [printRun, if_neg (by rw [hc]; exact fun h => hnul.1 h.2.symm)] at h
      have hread := ih hnul.2 hrest (by rw [hmode]; exact hend) h
      have hbuf : σ.read.buf = σ.buf := rfl
      rw [printStep_buf, hbuf] at hread
      rwa [List.length_cons, show σ.buf + (cs.length + 1) + 1 = σ.buf + 1 + cs.length + 1 by omega]

theorem printf_inside {format fuel : Nat} {fmt : CString} (hfmt : StringAt e.mem format fmt)
    (hinside : EndsInside fmt.bytes) (h : printf e format fuel = some σ') :
    format + fmt.length + 1 ∈ σ'.reads :=
  printRun_inside (σ := ⟨format, 0, .text, [], []⟩) fmt.nul_free hfmt hinside h

/-- A `printf` with the format `fmt` returns, prints what its comment says, takes one argument for
each conversion that has one, reads nothing behind the NUL and returns the length of the format. -/
def Interprets (e : PrintCall) (strs : Nat → CString) (format : Nat) (fmt : CString) : Prop :=
  ∃ fuel σ, printf e format fuel = some σ ∧
    σ.out = render e.words strs (parse .text fmt.bytes) 0 ∧
    σ.esp = argCount (parse .text fmt.bytes) ∧
    (∀ a ∈ σ.reads, a ≤ format + fmt.length) ∧ σ.buf - format = fmt.length

/-- **Which formats `printf` interprets**: those that do not end inside a conversion. -/
theorem printf_interprets_iff (e : PrintCall) (strs : Nat → CString) (format : Nat) (fmt : CString)
    (hfmt : StringAt e.mem format fmt)
    (hs : StringArgs e.mem e.words strs (parse .text fmt.bytes) 0) :
    Interprets e strs format fmt ↔ ¬ EndsInside fmt.bytes := by
  constructor
  · rintro ⟨fuel, σ, hrun, -, -, hreads, -⟩ hinside
    have hpast := hreads _ (printf_inside hfmt hinside hrun)
    omega
  · intro hend
    have hlen : fmt.bytes.length = fmt.length := rfl
    have hrun := printRun_complete (e := e) (σ := ⟨format, 0, .text, [], []⟩) fmt.nul_free hfmt hs
      (not_not.mp hend)
    refine ⟨_, _, hrun, rfl, Nat.zero_add _, fun a ha => ?_, Nat.add_sub_cancel_left format _⟩
    have hmem : a ∈ List.range' format (fmt.bytes.length + 1) := ha
    have hrange := List.mem_range'_1.mp hmem
    omega

/-- A call with nothing but its format in memory. -/
def formatCall (bytes : List UInt8) (words : List UInt32) : PrintCall :=
  ⟨fun i => bytes.getD i 0, fun i => words.getD i 0, fun _ _ => 0⟩

/-- `%#x%%` of 14 prints `0000000E%`. -/
theorem printf_interprets_iff_aligned :
    Interprets (formatCall [37, 35, 120, 37, 37] [14]) (fun _ => CString.empty) 0
      (CString.ofBytes [37, 35, 120, 37, 37]) ∧
    render (fun i => [14].getD i 0) (fun _ => CString.empty)
      (parse .text [37, 35, 120, 37, 37]) 0 =
        ascii ['0', '0', '0', '0', '0', '0', '0', 'E', '%'] := by
  refine ⟨(printf_interprets_iff _ _ 0 _ ?_ ?_).mpr ?_, ?_⟩
  · unfold StringAt
    decide
  · exact ⟨fun h => absurd h (by decide), fun h => absurd h (by decide), trivial⟩
  · unfold EndsInside
    decide
  · simp [parse, pieceAt, pieceOf, nextMode, render, Piece.text, numeralString, numeral, radix16,
      CString.length, digit, digitLookup, ascii]

/-- The format `%` with an `A` behind its NUL: the `A` is printed and 3 is returned. -/
theorem percent_reads_past_format :
    (∃ σ, printf (formatCall [37, 0, 65] []) 0 4 = some σ ∧ σ.out = [65] ∧ σ.buf = 3 ∧
      σ.reads = [0, 1, 2, 3]) ∧
    StringAt (formatCall [37, 0, 65] []).mem 0 (CString.ofBytes [37]) ∧
    ¬ Interprets (formatCall [37, 0, 65] []) (fun _ => CString.empty) 0
      (CString.ofBytes [37]) := by
  have hfmt : StringAt (formatCall [37, 0, 65] []).mem 0 (CString.ofBytes [37]) := by
    unfold StringAt
    decide
  refine ⟨⟨⟨3, 0, .text, [65], [0, 1, 2, 3]⟩, by rfl, rfl, rfl, rfl⟩, hfmt, ?_⟩
  rintro ⟨fuel, σ, hrun, -, -, hreads, -⟩
  have hinside : EndsInside (CString.ofBytes [37]).bytes := by
    unfold EndsInside
    decide
  exact absurd (hreads _ (printf_inside hfmt hinside hrun)) (by decide)

end MyOS.Text
