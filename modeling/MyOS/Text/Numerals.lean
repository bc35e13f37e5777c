import MyOS.Kernel.Format

/-!
# The numerals `itoa` writes

`itoa` (`lib.c:342-375`) stores the digits in the order a division loop finds them and reverses them
in place (`strrev`, `lib.c:384-400`).

* `strrev_string`: `strrev` reverses the string at its argument and touches nothing else.
* `itoaLoop_eq`: the division loop stores the digits, least significant first.
* `numeralString`: the numeral of a number, as a string. `itoa_string` says that it is what is
  written, and `ece391Itoa_eq` that the twin for programs writes the same.
* **`itoa_canonical`**: the numeral is canonical, and different numbers have different ones.
-/

namespace MyOS.Text

open MyOS.Machine MyOS.Kernel

variable {m : Mem} {a : Nat} {s : CString}

/-! ## Reversing a string -/

theorem strlen_eq (h : StringAt m a s) (hlen : s.length ≤ 2 ^ 32) : strlen m a = s.length := by
  unfold strlen
  rw [h.readString_eq, List.take_of_length_le hlen]
  rfl

theorem lastIndex_eq (h : StringAt m a s) (hlen : s.length ≤ 2 ^ 31) :
    lastIndex m a = (s.length : Int) - 1 := by
  unfold lastIndex
  rw [strlen_eq h (by omega)]
  unfold toInt32 toUInt32
  split <;> omega

/-- The string read backwards. -/
def reversed (s : CString) : CString :=
  ⟨s.bytes.reverse, fun h => s.nul_free (List.mem_reverse.mp h)⟩

theorem length_reversed (s : CString) : (reversed s).length = s.length :=
  List.length_reverse

/-- **`strrev` reverses the string** and leaves the rest of memory alone. -/
theorem strrev_string (h : StringAt m a s) (hlen : s.length ≤ 2 ^ 31) :
    StringAt (strrev m a) a (reversed s) ∧
      ∀ x, x < a ∨ a + s.length ≤ x → strrev m a x = m x := by
  have hbytes : s.bytes.length = s.length := rfl
  unfold strrev
  rw [lastIndex_eq h hlen]
  constructor
  · intro i hi
    rw [length_reversed] at hi
    rw [swapLoop_apply]
    by_cases hlt : i < s.length
    · rw [if_pos (by omega), show a + 0 + (a + ((s.length : Int) - 1).toNat) - (a + i) =
        a + (s.length - 1 - i) by omega, h _ (by omega)]
      unfold CString.get reversed
      rw [List.getD_eq_getElem _ _ (by omega), List.getD_eq_getElem _ _ (by simp; omega),
        List.getElem_reverse]
      congr 1
    · rw [if_neg (by omega), h i hi, (s.get_eq_zero_iff i).mpr (by omega),
        ((reversed s).get_eq_zero_iff i).mpr (by rw [length_reversed]; omega)]
  · intro x hx
    rw [swapLoop_apply, if_neg (by omega)]

/-! ## The digits -/

variable {radix : Radix}

theorem digit_ne_zero {d : Nat} (h : d < 36) : digit d ≠ 0 := by
  have hall : ∀ d < 36, digit d ≠ 0 := by decide
  exact hall d h

theorem digit_inj {d d' : Nat} (h : d < 36) (h' : d' < 36) (heq : digit d = digit d') : d = d' := by
  have hall : ∀ d < 36, ∀ d' < 36, digit d = digit d' → d = d' := by decide
  exact hall d h d' h' heq

theorem digits_nul_free {ds : List Nat} (h : ∀ d ∈ ds, d < 36) : (0 : UInt8) ∉ ds.map digit := by
  rw [List.mem_map]
  rintro ⟨d, hd, h0⟩
  exact digit_ne_zero (h d hd) h0

theorem numeral_lt_36 (radix : Radix) (n : Nat) : ∀ d ∈ numeral radix.val n, d < 36 :=
  fun _ hd => Nat.lt_of_lt_of_le (numeral_lt radix.two_le hd) radix.le_36

/-- The numeral of `n`, as a string. -/
def numeralString (radix : Radix) (n : Nat) : CString :=
  ⟨(numeral radix.val n).map digit, digits_nul_free (numeral_lt_36 radix n)⟩

theorem length_numeralString (radix : Radix) (n : Nat) :
    (numeralString radix n).length = (numeral radix.val n).length := List.length_map _

theorem map_digit_injective {ds ds' : List Nat} (h : ∀ d ∈ ds, d < 36) (h' : ∀ d ∈ ds', d < 36)
    (heq : ds.map digit = ds'.map digit) : ds = ds' := by
  induction ds generalizing ds' with
  | nil => exact (List.map_eq_nil_iff.mp heq.symm).symm
  | cons d ds ih =>
    cases ds' with
    | nil => cases heq
    | cons d' ds' =>
      rw [List.map_cons, List.map_cons, List.cons.injEq] at heq
      rw [List.forall_mem_cons] at h h'
      rw [digit_inj h.1 h'.1 heq.1, ih h.2 h'.2 heq.2]

theorem numeralString_injective (radix : Radix) : Function.Injective (numeralString radix) := by
  intro n n' h
  have hbytes := congrArg CString.bytes h
  exact numeral_injective radix.val
    (map_digit_injective (numeral_lt_36 radix n) (numeral_lt_36 radix n') hbytes)

/-! ## The division loop -/

theorem store_cons (m : Mem) (a : Nat) (b : UInt8) (bs : List UInt8) :
    store (Function.update m a b) (a + 1) bs = store m a (b :: bs) := by
  funext x
  unfold store
  by_cases hx : a + 1 ≤ x
  · rw [if_pos hx, if_pos (by omega), show x - a = x - (a + 1) + 1 by omega, List.getD_cons_succ,
      Function.update_of_ne (by omega)]
  · rw [if_neg hx]
    by_cases ha : a ≤ x
    · obtain rfl : x = a := by omega
      rw [if_pos ha, Function.update_self, Nat.sub_self, List.getD_cons_zero]
    · rw [if_neg ha, Function.update_of_ne (by omega)]

/-- **The division loop** stores the digits of the value, the least significant one first. -/
theorem itoaLoop_eq (radix : Radix) (m : Mem) (newbuf newval : Nat) :
    itoaLoop radix m newbuf newval =
      (store m newbuf ((Nat.digits radix.val newval).map digit),
        newbuf + (Nat.digits radix.val newval).length) := by
  fun_induction itoaLoop radix m newbuf newval with
  | case1 m newbuf newval hpos ih =>
    rw [ih, Nat.digits_def' radix.two_le hpos, List.map_cons, store_cons, List.length_cons,
      Nat.add_comm (Nat.digits radix.val (newval / radix.val)).length, Nat.add_assoc]
  | case2 m newbuf newval hzero =>
    obtain rfl : newval = 0 := by omega
    rw [Nat.digits_zero]
    refine Prod.ext ?_ rfl
    funext x
    refine (store_of_outside m ?_).symm
    rw [List.map_nil, List.length_nil]
    omega

theorem store_string {bs : List UInt8} (hbs : (0 : UInt8) ∉ bs) (m : Mem) (a : Nat) :
    StringAt (Function.update (store m a bs) (a + bs.length) 0) a ⟨bs, hbs⟩ := by
  intro i hi
  change i ≤ bs.length at hi
  unfold CString.get
  rcases Nat.lt_or_eq_of_le hi with hlt | rfl
  · rw [Function.update_of_ne (by omega)]
    exact store_of_inside m a hlt
  · rw [Function.update_self, List.getD_eq_default _ _ (Nat.le_refl _)]

theorem length_numeral_uint32 (radix : Radix) (value : UInt32) :
    (numeral radix.val value.toNat).length ≤ 32 := by
  refine length_numeral_le radix.two_le (by decide) ?_
  calc value.toNat < 2 ^ 32 := value.toNat_lt
    _ ≤ radix.val ^ 32 := Nat.pow_le_pow_left radix.two_le 32

/-- **What `itoa` writes**: the numeral of its value, and nothing else. -/
theorem itoa_string (m : Mem) (value : UInt32) (a : Nat) (radix : Radix) :
    StringAt (itoa m value a radix) a (numeralString radix value.toNat) ∧
      ∀ x, x < a ∨ a + (numeralString radix value.toNat).length + 1 ≤ x →
        itoa m value a radix x = m x := by
  have hlen := length_numeral_uint32 radix value
  rw [length_numeralString]
  unfold itoa itoaWith
  by_cases h0 : value = 0
  · subst h0
    rw [if_pos rfl]
    refine ⟨fun i hi => ?_, fun x hx => ?_⟩
    · have hi : i ≤ 1 := hi
      obtain rfl | rfl : i = 0 ∨ i = 1 := by omega
      · rw [Function.update_of_ne (by omega)]
        exact Function.update_self _ _ _
      · exact Function.update_self _ _ _
    · have hx : x < a ∨ a + 1 + 1 ≤ x := hx
      rw [Function.update_of_ne (by omega), Function.update_of_ne (by omega)]
  · have hpos : value.toNat ≠ 0 := fun h => h0 (UInt32.toNat_inj.mp h)
    have hnum := numeral_of_pos (r := radix.val) hpos
    have hds : ∀ d ∈ Nat.digits radix.val value.toNat, d < 36 := fun d hd =>
      numeral_lt_36 radix value.toNat d (by rw [hnum]; exact List.mem_reverse.mpr hd)
    have hstored := store_string (digits_nul_free hds) m a
    rw [List.length_map] at hstored
    have hlen' : (Nat.digits radix.val value.toNat).length ≤ 32 := by
      rwa [hnum, List.length_reverse] at hlen
    have hpos' : 0 < (Nat.digits radix.val value.toNat).length :=
      List.length_pos_of_ne_nil (Nat.digits_ne_nil_iff_ne_zero.mpr hpos)
    -- the string the loop leaves, and its reverse
    generalize hs : (⟨_, digits_nul_free hds⟩ : CString) = s at hstored
    have hslen : s.length = (Nat.digits radix.val value.toNat).length := by
      rw [← hs]
      exact List.length_map _
    have hback : reversed s = numeralString radix value.toNat := by
      rw [← hs]
      apply CString.ext
      simp only [reversed, numeralString, hnum, List.map_reverse]
    have hreversed := strrev_string hstored (by omega)
    rw [if_neg h0, itoaLoop_eq]
    dsimp only
    rw [← hback]
    refine ⟨hreversed.1, fun x hx => ?_⟩
    rw [hnum, List.length_reverse] at hx
    rw [hreversed.2 x (by omega), Function.update_of_ne (by omega), store_of_outside]
    rw [List.length_map]
    omega

/-- The test that `ece391_strrev` makes first keeps it from doing nothing. -/
theorem ece391Strrev_eq (m : Mem) (a : Nat) : ece391Strrev m a = strrev m a := by
  unfold ece391Strrev strrev
  split
  · rw [swapLoop, if_neg (by omega)]
  · rfl

theorem ece391Itoa_eq (m : Mem) (value : UInt32) (a : Nat) (radix : Radix) :
    ece391Itoa m value a radix = itoa m value a radix := by
  have hrev : ece391Strrev = strrev := funext fun m => funext fun a => ece391Strrev_eq m a
  unfold ece391Itoa itoa
  rw [hrev]

/-- The string that is read at `a` after an `itoa`. -/
theorem readString_itoa (m : Mem) (value : UInt32) (a : Nat) (radix : Radix) :
    readString (itoa m value a radix) (2 ^ 32) a = (numeralString radix value.toNat).bytes := by
  have hlen := length_numeral_uint32 radix value
  rw [← length_numeralString] at hlen
  rw [(itoa_string m value a radix).1.readString_eq, List.take_of_length_le]
  exact Nat.le_trans hlen (by decide)

/-- **`itoa` writes the canonical numeral.** For every value and radix, at every address: the
digits are at most 32, below the radix, without a leading zero unless the value is zero, and denote
the value; their characters and a NUL are what is stored, and nothing else is. No two values have
the same string, and `ece391_itoa` leaves the same memory. -/
theorem itoa_canonical (m : Mem) (value : UInt32) (a : Nat) (radix : Radix) :
    (∃ ds : List Nat, ds ≠ [] ∧ ds.length ≤ 32 ∧ (∀ d ∈ ds, d < radix.val) ∧
      (ds.head? = some 0 → value = 0 ∧ ds = [0]) ∧ positional radix.val ds = value.toNat ∧
      (∀ i (hi : i < ds.length), itoa m value a radix (a + i) = digit ds[i]) ∧
      itoa m value a radix (a + ds.length) = 0 ∧
      ∀ x, x < a ∨ a + ds.length < x → itoa m value a radix x = m x) ∧
    (∀ m' value' a', readString (itoa m' value' a' radix) (2 ^ 32) a' =
      readString (itoa m value a radix) (2 ^ 32) a → value' = value) ∧
    ece391Itoa m value a radix = itoa m value a radix := by
  have hlen := length_numeralString radix value.toNat
  obtain ⟨hstring, hframe⟩ := itoa_string m value a radix
  refine ⟨⟨numeral radix.val value.toNat, numeral_ne_nil _ _, length_numeral_uint32 radix value,
    fun d hd => numeral_lt radix.two_le hd, fun hhead => ?_, positional_numeral _ _,
    fun i hi => ?_, ?_, fun x hx => hframe x (by omega)⟩, fun m' value' a' heq => ?_,
    ece391Itoa_eq m value a radix⟩
  · have h0 : value.toNat = 0 := by
      by_contra hne
      exact numeral_head hne hhead
    exact ⟨UInt32.toNat_inj.mp h0, by rw [h0, numeral_zero]⟩
  · rw [← hlen] at hi
    rw [hstring i (by omega), CString.get, List.getD_eq_getElem _ _ hi]
    exact List.getElem_map _
  · rw [hstring _ (by omega), CString.get_eq_zero_iff]
    omega
  · rw [readString_itoa, readString_itoa, ← CString.ext_iff] at heq
    exact UInt32.toNat_inj.mp (numeralString_injective radix heq)

/-- `0xE` in hexadecimal and `255` in binary. -/
example : (numeralString ⟨16, by decide, by decide⟩ 14).bytes = ascii ['E'] ∧
    (numeralString ⟨2, by decide, by decide⟩ 255).bytes =
      ascii ['1', '1', '1', '1', '1', '1', '1', '1'] := by
  constructor <;> simp [numeralString, numeral, digit, digitLookup, ascii]

end MyOS.Text
