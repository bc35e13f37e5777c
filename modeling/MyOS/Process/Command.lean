import MyOS.Process.Stack

/-!
# How `execute` takes a command apart

`execute` (`systemcall.c:75-90`) reads its command with two loops over one index. The first copies
into `command_name` up to a blank or 32 bytes and does not stop at the terminator, which it copies
like any other byte. The second starts one past the place where the first stopped and goes on to the
next NUL. A command without a blank in its own text is therefore read on past its end, into whatever
the caller's buffer holds there: the rest of an earlier, longer command, in the shell.

* `StopsAt` / `nameEnd_eq_iff`: where the first loop stops, in terms of memory.
* `programName`, `argumentText`: what the command says, up to its first blank and after it.
* **`execute_parse_iff`**: exactly when the parse gives these two, and when the PCB of the program
  started holds the second.
* `parseStores`: the stores of the parse, and of `execute` to `pcb->arg`. **`parse_in_bounds_iff`**:
  exactly when they stay in their arrays.
* **`getargs_roundtrip_iff`**: for which `nbytes` an argument comes back from `getargs`.
-/

namespace MyOS.Process

open MyOS.Machine MyOS.Kernel MyOS.Descriptor

variable {cmd : Mem} {c name a : CString}

/-! ## The first loop -/

/-- `b` is the first blank among the first 32 bytes, or 32 when there is none. -/
structure StopsAt (cmd : Mem) (b : Nat) : Prop where
  le : b ≤ 32
  before : ∀ j < b, cmd j ≠ 32
  stop : b = 32 ∨ cmd b = 32

theorem nameEnd_spec (cmd : Mem) : ∀ n i, i ≤ nameEnd cmd n i ∧ nameEnd cmd n i ≤ i + n ∧
    (∀ j, i ≤ j → j < nameEnd cmd n i → cmd j ≠ 32) ∧
    (nameEnd cmd n i = i + n ∨ cmd (nameEnd cmd n i) = 32)
  | 0, i => ⟨Nat.le_refl i, Nat.le_refl i, fun j h1 h2 => absurd h2 (by unfold nameEnd; omega),
      Or.inl rfl⟩
  | n + 1, i => by
    unfold nameEnd
    split
    · rename_i hblank
      exact ⟨Nat.le_refl i, by omega, fun j h1 h2 => by omega, Or.inr hblank⟩
    · rename_i hblank
      obtain ⟨h1, h2, h3, h4⟩ := nameEnd_spec cmd n (i + 1)
      refine ⟨by omega, by omega, fun j hj hj' => ?_, h4.imp_left fun h => by omega⟩
      rcases Nat.eq_or_lt_of_le hj with rfl | hlt
      · exact hblank
      · exact h3 j hlt hj'

theorem stopsAt_nameEnd (cmd : Mem) : StopsAt cmd (nameEnd cmd 32 0) := by
  obtain ⟨-, h2, h3, h4⟩ := nameEnd_spec cmd 32 0
  exact ⟨by omega, fun j hj => h3 j (Nat.zero_le j) hj, h4.imp_left fun h => by omega⟩

/-- **Where the first loop stops.** -/
theorem nameEnd_eq_iff {b : Nat} : nameEnd cmd 32 0 = b ↔ StopsAt cmd b := by
  constructor
  · rintro rfl
    exact stopsAt_nameEnd cmd
  · intro h
    -- the loop can stop neither before the first blank nor after it
    have h' := stopsAt_nameEnd cmd
    rcases Nat.lt_trichotomy (nameEnd cmd 32 0) b with hlt | heq | hlt
    · have := h.le
      exact absurd (h'.stop.resolve_left (by omega)) (h.before _ hlt)
    · exact heq
    · have := h'.le
      exact absurd (h.stop.resolve_left (by omega)) (h'.before _ hlt)

/-! ## What the command says -/

/-- The part of the command before its first blank. -/
def programName (c : CString) : CString :=
  ⟨c.bytes.takeWhile (· != 32), fun h => c.nul_free ((List.takeWhile_sublist _).subset h)⟩

/-- The part of the command after its first blank. -/
def argumentText (c : CString) : CString :=
  ⟨(c.bytes.dropWhile (· != 32)).drop 1, fun h =>
    c.nul_free ((List.dropWhile_sublist _).subset (List.mem_of_mem_drop h))⟩

/-- `name`, a blank, `a`. -/
def commandLine (name a : CString) : CString :=
  ⟨name.bytes ++ 32 :: a.bytes, by
    have h1 := name.nul_free
    have h2 := a.nul_free
    simp [h1, h2]⟩

/-- A command with a blank is its program name, the blank and its argument. -/
theorem commandLine_eq (h : 32 ∈ c.bytes) : commandLine (programName c) (argumentText c) = c := by
  have hne : c.bytes.dropWhile (· != 32) ≠ [] := by
    intro hnil
    have := List.dropWhile_eq_nil_iff.mp hnil 32 h
    exact absurd this (by decide)
  have hhead : (c.bytes.dropWhile (· != 32)).head hne = 32 := by
    simpa using List.head_dropWhile_not (· != 32) hne
  apply CString.ext
  have hcons : 32 :: (c.bytes.dropWhile (· != 32)).drop 1 = c.bytes.dropWhile (· != 32) := by
    rw [List.drop_one]
    nth_rewrite 1 [← hhead]
    exact List.cons_head_tail hne
  change c.bytes.takeWhile (· != 32) ++ 32 :: (c.bytes.dropWhile (· != 32)).drop 1 = c.bytes
  rw [hcons, List.takeWhile_append_dropWhile]

theorem not_mem_programName (c : CString) : 32 ∉ (programName c).bytes := by
  intro h
  simpa using List.mem_takeWhile_imp h

/-- A pointer to a string without a blank reads none, its terminator included. -/
theorem get_ne_blank (h : 32 ∉ c.bytes) (i : Nat) : c.get i ≠ 32 := by
  intro heq
  have hmem := CString.mem_of_get (s := c) (i := i) (by rw [heq]; decide)
  rw [heq] at hmem
  exact h hmem

/-- Without a blank there is no argument. -/
theorem programName_eq_self (h : 32 ∉ c.bytes) :
    programName c = c ∧ argumentText c = CString.empty := by
  have hall : ∀ b ∈ c.bytes, (b != 32) = true := by
    intro b hb
    rw [bne_iff_ne]
    rintro rfl
    exact h hb
  refine ⟨CString.ext (List.takeWhile_eq_self_iff.mpr hall), CString.ext ?_⟩
  change (c.bytes.dropWhile (· != 32)).drop 1 = []
  rw [List.dropWhile_eq_nil_iff.mpr hall, List.drop_nil]

/-! ## The parse -/

/-- A blank in the command's own text stops the first loop. -/
theorem stopsAt_commandLine (h : StringAt cmd 0 (commandLine name a)) (hblank : 32 ∉ name.bytes)
    (hlen : name.length ≤ 32) : StopsAt cmd name.length := by
  have hget : ∀ i ≤ name.length, cmd i = (name.bytes ++ 32 :: a.bytes).getD i 0 := by
    intro i hi
    have := h i (by simp only [commandLine, CString.length, List.length_append] at *; omega)
    rwa [Nat.zero_add] at this
  refine ⟨hlen, fun j hj => ?_, Or.inr ?_⟩
  · rw [hget j (by omega), List.getD_append _ _ _ _ hj]
    exact get_ne_blank hblank j
  · rw [hget _ (Nat.le_refl _)]
    simp [CString.length]

/-- The argument of a command whose name fits lies behind the blank. -/
theorem stringAt_argument (h : StringAt cmd 0 (commandLine name a)) :
    StringAt cmd (name.length + 1) a := by
  have hdrop : (commandLine name a).drop (name.length + 1) = a := by
    apply CString.ext
    simp [CString.drop, commandLine, CString.length]
  have hat := h.drop (n := name.length + 1) (by simp [commandLine, CString.length])
  rwa [hdrop, Nat.zero_add] at hat

theorem argument_of_stops {b : Nat} (h : StopsAt cmd b) : argument cmd =
    if (readString cmd 1024 (b + 1)).length < 1024 then some (readString cmd 1024 (b + 1))
    else none := by
  unfold argument
  rw [nameEnd_eq_iff.mpr h]

/-- The argument, read from a string that fits `arg_buf`. -/
theorem argument_eq {b : Nat} (hs : StopsAt cmd b) (ha : StringAt cmd (b + 1) a)
    (hlen : a.length < 1024) : argument cmd = some a.bytes := by
  have hread : readString cmd 1024 (b + 1) = a.bytes := by
    rw [ha.readString_eq, List.take_of_length_le (Nat.le_of_lt hlen)]
  rw [argument_of_stops hs, hread]
  exact if_pos hlen

/-- The argument is empty exactly when the second loop starts at a NUL. -/
theorem argument_eq_nil_iff {b : Nat} (hs : StopsAt cmd b) :
    argument cmd = some [] ↔ cmd (b + 1) = 0 := by
  have hnil : readString cmd 1024 (b + 1) = [] ↔ cmd (b + 1) = 0 := by
    rw [readString]
    split <;> simp_all
  rw [argument_of_stops hs, ← hnil]
  constructor
  · intro h
    split at h
    · exact Option.some.inj h
    · cases h
  · intro h
    rw [h]
    rfl

/-- **The name looked up is the command's own**, blank or not. -/
theorem commandName_eq (h : StringAt cmd 0 c) (hlen : (programName c).length < 32)
    (past : CString) : commandName cmd past = programName c := by
  unfold commandName
  simp only
  by_cases hblank : 32 ∈ c.bytes
  · rw [← commandLine_eq hblank] at h
    have hstop := stopsAt_commandLine h (not_mem_programName c) (Nat.le_of_lt hlen)
    rw [nameEnd_eq_iff.mpr hstop, if_pos hlen, List.append_nil]
    have hbytes : (List.range (programName c).length).map cmd = (programName c).bytes := by
      rw [h.map_range (by simp [commandLine, CString.length])]
      exact List.take_left
    rw [hbytes]
    simpa using ofBytes_append_zeros (programName c) 0
  · obtain ⟨hname, -⟩ := programName_eq_self hblank
    rw [hname] at hlen ⊢
    -- the loop runs over the terminator
    have hstop := stopsAt_nameEnd cmd
    generalize nameEnd cmd 32 0 = b at hstop ⊢
    have hpast : c.length < b := by
      by_contra hle
      have hget := h b (by omega)
      rw [Nat.zero_add] at hget
      have h32 := hstop.stop.resolve_left (by omega)
      rw [hget] at h32
      exact get_ne_blank hblank b h32
    obtain ⟨n, rfl⟩ := Nat.exists_eq_add_of_lt hpast
    have hnul : cmd c.length = 0 := by
      have := h c.length (Nat.le_refl _)
      rwa [Nat.zero_add, (c.get_eq_zero_iff _).mpr (Nat.le_refl _)] at this
    have hall : ∀ x ∈ c.bytes, (x != 0) = true := by
      intro x hx
      rw [bne_iff_ne]
      rintro rfl
      exact c.nul_free hx
    apply CString.ext
    simp only [CString.ofBytes]
    have htext : (List.range c.length).map cmd = c.bytes := by
      rw [h.map_range (Nat.le_refl _)]
      exact List.take_length
    rw [Nat.add_assoc, List.range_add, List.map_append, htext, List.append_assoc,
      List.takeWhile_append_of_pos hall, List.range_succ_eq_map, List.map_cons, List.map_cons,
      Nat.add_zero, hnul, List.cons_append, List.takeWhile_cons_of_neg (by simp), List.append_nil]

/-- The parse of the memory at `command` gives what the string there says. -/
def Parsed (cmd : Mem) (past c : CString) : Prop :=
  commandName cmd past = programName c ∧ argument cmd = some (argumentText c).bytes

/-- The string has a blank, or the byte after the first blank that follows it within 32 bytes, or
byte 33 when there is none, is a NUL. -/
def ParsesAlone (cmd : Mem) (c : CString) : Prop :=
  32 ∈ c.bytes ∨ ∃ b, StopsAt cmd b ∧ cmd (b + 1) = 0

theorem argument_iff (h : StringAt cmd 0 c) (hname : (programName c).length < 32)
    (harg : (argumentText c).length < 1024) :
    argument cmd = some (argumentText c).bytes ↔ ParsesAlone cmd c := by
  unfold ParsesAlone
  by_cases hblank : 32 ∈ c.bytes
  · rw [← commandLine_eq hblank] at h
    have hstop := stopsAt_commandLine h (not_mem_programName c) (Nat.le_of_lt hname)
    rw [argument_eq hstop (stringAt_argument h) harg]
    simp [hblank]
  · rw [(programName_eq_self hblank).2]
    change argument cmd = some [] ↔ _
    constructor
    · intro hnil
      exact Or.inr ⟨_, stopsAt_nameEnd cmd, (argument_eq_nil_iff (stopsAt_nameEnd cmd)).mp hnil⟩
    · rintro (hmem | ⟨b, hb, hnul⟩)
      · exact absurd hmem hblank
      · exact (argument_eq_nil_iff hb).mpr hnul

theorem parsed_iff (h : StringAt cmd 0 c) (hname : (programName c).length < 32)
    (harg : (argumentText c).length < 1024) (past : CString) :
    Parsed cmd past c ↔ ParsesAlone cmd c := by
  unfold Parsed
  rw [argument_iff h hname harg]
  exact and_iff_right (commandName_eq h hname past)

/-- The argument in the PCB of a program just started is the argument parsed. -/
theorem launched_arg (L : Layout) (k : State) (e : ExecArgs) (arg : CString) (entry : Nat) :
    (launched L k e arg.bytes entry).current.arg = arg.get := by
  have hcopy : strncpy (fun i => arg.bytes.getD i 0) arg.bytes.length = arg.bytes := by
    have := strncpy_eq_take arg (Nat.le_refl _)
    rwa [show arg.bytes.take arg.length = arg.bytes from List.take_length] at this
  unfold State.current
  rw [launched_counter]
  unfold launched startProcess enterProcess
  simp only [Function.update_self]
  rw [hcopy]
  funext i
  exact store_zeros arg.bytes i

/-- What a successful `execute` parsed is in the new PCB. -/
theorem started_arg {L : Layout} {img : Image} {k k' : State} {e : ExecArgs} {eip : Nat}
    (hc : e.command = some cmd) (hx : execute L img k e = .ok (k', .iret eip)) :
    ∃ arg : CString, argument cmd = some arg.bytes ∧ arg.length < 1024 ∧
      k'.argSize = arg.length ∧ k'.current.arg = arg.get := by
  cases execute_inv hx with
  | @started hk cmd' arg hc' ha hh hr hl =>
    obtain rfl : cmd = cmd' := Option.some.inj (hc.symm.trans hc')
    have hread := ha
    unfold argument at hread
    simp only at hread
    split at hread
    · rename_i hlt
      obtain rfl := Option.some.inj hread
      have hnul := readString_nul_free cmd 1024 (nameEnd cmd 32 0 + 1)
      exact ⟨⟨_, hnul⟩, ha, hlt, rfl, launched_arg L k e ⟨_, hnul⟩ _⟩
    · cases hread

/-- A string shorter than the field is read back from it. -/
theorem ofMem_get (s : CString) (h : s.length < 1024) : CString.ofMem s.get 1024 0 = s := by
  have hat : StringAt s.get 0 s := fun i _ => by rw [Nat.zero_add]
  apply CString.ext
  change readString s.get 1024 0 = s.bytes
  rw [hat.readString_eq, List.take_of_length_le (Nat.le_of_lt h)]

/-- **When `execute` parses the command and nothing after it.** -/
theorem execute_parse_iff (cmd : Mem) (c : CString) (h : StringAt cmd 0 c)
    (hname : (programName c).length < 32) (harg : (argumentText c).length < 1024) :
    (∀ past, Parsed cmd past c ↔ ParsesAlone cmd c) ∧
    (∀ L img k k' e eip, e.command = some cmd → execute L img k e = .ok (k', .iret eip) →
      (commandName cmd e.past = programName c ∧
        CString.ofMem k'.current.arg 1024 0 = argumentText c ↔ ParsesAlone cmd c)) ∧
    ((∀ cmd' past, StringAt cmd' 0 c → Parsed cmd' past c) ↔ 32 ∈ c.bytes) := by
  refine ⟨parsed_iff h hname harg, ?_, ?_, ?_⟩
  · intro L img k k' e eip hc hx
    obtain ⟨arg, hparse, hlen, -, hpcb⟩ := started_arg hc hx
    rw [hpcb, ofMem_get arg hlen, ← argument_iff h hname harg, hparse]
    rw [Option.some.injEq, ← CString.ext_iff]
    exact and_iff_right (commandName_eq h hname e.past)
  · -- followed by bytes that are neither blank nor NUL, only a command with a blank is safe
    intro hall
    let tail : Mem := fun i => if i ≤ c.length then c.get i else 97
    have hat : StringAt tail 0 c := fun i hi => by simp [tail, hi]
    rcases (parsed_iff hat hname harg CString.empty).mp (hall tail _ hat) with hmem | ⟨b, hb, hnul⟩
    · exact hmem
    · by_contra hblank
      rw [(programName_eq_self hblank).1] at hname
      have h32 : tail b ≠ 32 := by
        simp only [tail]
        split
        · exact get_ne_blank hblank b
        · decide
      obtain rfl := hb.stop.resolve_right h32
      simp only [tail] at hnul
      rw [if_neg (by omega)] at hnul
      exact absurd hnul (by decide)
  · intro hmem cmd' past hat
    exact (parsed_iff hat hname harg past).mpr (Or.inl hmem)

/-- `ab`. -/
def abText : CString := ⟨ascii ['a', 'b'], by decide⟩

/-- The command `shell ab`. -/
theorem execute_parse_iff_blank :
    Parsed (store (fun _ => 0) 0 (commandLine shellName abText).bytes) CString.empty
      (commandLine shellName abText) :=
  ((execute_parse_iff _ _ (stringAt_store _) (by decide) (by decide)).1 _).mpr (Or.inl (by decide))

/-- The command `shell` in a buffer that held a longer one: ` ab` is left after its NUL. -/
def staleText : List UInt8 := shellText ++ [0, 32] ++ abText.bytes

/-- The shell is started again by the command `shell`, without an argument, and finds `ab` as its
argument. -/
theorem stale_argument : StringAt (store (fun _ => 0) 0 staleText) 0 shellName ∧
    (argumentText shellName).bytes = [] ∧
    ∃ k', execute demoLayout (demoImage 1) demoShell (demoArgs staleText 0x7ffe00) =
        .ok (k', .iret 0x08048080) ∧ CString.ofMem k'.current.arg 1024 0 = abText := by
  refine ⟨by unfold StringAt; decide, by decide, _, shell_started_with (by decide) _
    (Or.inl rfl) (by decide) (by decide : argument _ = some abText.bytes), ?_⟩
  rw [launched_arg, ofMem_get _ (by decide)]

/-! ## The stores of the parse -/

/-- The arrays a command ends up in. -/
inductive ParseArray where
  | commandName
  | argBuf
  /-- `pcb->arg`. -/
  | pcbArg
  deriving DecidableEq

/-- How many bytes the array has. -/
def ParseArray.size : ParseArray → Nat
  | .commandName => 32
  | .argBuf => 1024
  | .pcbArg => 1024

/-- The indices of `command_name` stored to from `i` on, with `n` bytes of room left: the bytes up
to a blank, then the terminator. -/
def nameStores (cmd : Mem) : Nat → Nat → List Nat
  | 0, i => [i]
  | n + 1, i => if cmd i = 32 then [i] else i :: nameStores cmd n (i + 1)

/-- The indices of `arg_buf` stored to in `fuel` turns of the second loop, at `command[i]` and
`arg_buf[argSize]`. -/
def argStores (cmd : Mem) : Nat → Nat → Nat → List Nat
  | 0, _, _ => []
  | fuel + 1, i, argSize =>
    if cmd i = 0 then [argSize] else argSize :: argStores cmd fuel (i + 1) (argSize + 1)

/-- The indices of `pcb->arg` stored to: the loop that clears it, then `strncpy`. -/
def pcbArgStores (argSize : Nat) : List Nat := List.range 1024 ++ List.range argSize

/-- The stores of an `execute` to the three arrays, as far as `fuel` turns of the second loop. -/
def parseStores (L : Layout) (img : Image) (k : State) (e : ExecArgs) (fuel : Nat) :
    List (ParseArray × Nat) :=
  if 6 ≤ k.counter then []
  else
    match e.command with
    | none => []
    | some cmd =>
      (nameStores cmd 32 0).map (Prod.mk .commandName) ++
        (argStores cmd fuel (nameEnd cmd 32 0 + 1) 0).map (Prod.mk .argBuf) ++
        match execute L img k e with
        | .ok (k', .iret _) => (pcbArgStores k'.argSize).map (Prod.mk .pcbArg)
        | _ => []

theorem mem_nameStores (cmd : Mem) {j : Nat} : ∀ n i,
    j ∈ nameStores cmd n i ↔ i ≤ j ∧ j ≤ nameEnd cmd n i
  | 0, i => by
    simp only [nameStores, nameEnd, List.mem_singleton]
    omega
  | n + 1, i => by
    unfold nameStores nameEnd
    split
    · rw [List.mem_singleton]
      omega
    · have hle := (nameEnd_spec cmd n (i + 1)).1
      rw [List.mem_cons, mem_nameStores cmd n (i + 1)]
      omega

theorem mem_argStores (cmd : Mem) {j : Nat} : ∀ fuel i s, j ∈ argStores cmd fuel i s ↔
    s ≤ j ∧ j < s + fuel ∧ ∀ t < j - s, cmd (i + t) ≠ 0
  | 0, i, s => by
    simp only [argStores, List.not_mem_nil, false_iff]
    omega
  | fuel + 1, i, s => by
    unfold argStores
    split
    · rename_i h0
      rw [List.mem_singleton]
      constructor
      · rintro rfl
        exact ⟨by omega, by omega, fun t ht => by omega⟩
      · rintro ⟨h1, -, h3⟩
        by_contra hne
        exact h3 0 (by omega) h0
    · rename_i h0
      rw [List.mem_cons, mem_argStores cmd fuel (i + 1) (s + 1)]
      constructor
      · rintro (rfl | ⟨h1, h2, h3⟩)
        · exact ⟨by omega, by omega, fun t ht => by omega⟩
        · refine ⟨by omega, by omega, fun t ht => ?_⟩
          rcases t with _ | t
          · exact h0
          · rw [show i + (t + 1) = i + 1 + t by omega]
            exact h3 t (by omega)
      · rintro ⟨h1, h2, h3⟩
        rcases Nat.eq_or_lt_of_le h1 with heq | hlt
        · exact Or.inl heq.symm
        · refine Or.inr ⟨hlt, by omega, fun t ht => ?_⟩
          rw [show i + 1 + t = i + (t + 1) by omega]
          exact h3 (t + 1) (by omega)

/-- A blank among the first 32 bytes, and a NUL among the 1024 bytes after it. -/
def FitsArrays (cmd : Mem) : Prop :=
  ∃ b < 32, StopsAt cmd b ∧ ∃ n < 1024, cmd (b + 1 + n) = 0

/-- The first loop stays in `command_name` exactly when it meets a blank. -/
theorem nameStores_lt_iff (cmd : Mem) :
    (∀ j ∈ nameStores cmd 32 0, j < 32) ↔ nameEnd cmd 32 0 < 32 := by
  simp only [mem_nameStores]
  exact ⟨fun h => h _ ⟨Nat.zero_le _, Nat.le_refl _⟩, fun h j hj => by omega⟩

/-- The second loop stays in `arg_buf` exactly when a NUL is near enough. -/
theorem argStores_lt_iff (cmd : Mem) (i : Nat) :
    (∀ fuel, ∀ j ∈ argStores cmd fuel i 0, j < 1024) ↔ ∃ n < 1024, cmd (i + n) = 0 := by
  simp only [mem_argStores]
  constructor
  · intro h
    by_contra hno
    -- without a NUL the loop gets to index 1024
    have := h 1025 1024 ⟨by omega, by omega, fun t ht h0 => hno ⟨t, by omega, h0⟩⟩
    omega
  · rintro ⟨n, hn, h0⟩ fuel j ⟨-, -, h3⟩
    by_contra hge
    exact h3 n (by omega) h0

theorem fitsArrays_iff (cmd : Mem) : FitsArrays cmd ↔
    nameEnd cmd 32 0 < 32 ∧ ∃ n < 1024, cmd (nameEnd cmd 32 0 + 1 + n) = 0 := by
  constructor
  · rintro ⟨b, hb, hs, hn⟩
    rw [nameEnd_eq_iff.mpr hs]
    exact ⟨hb, hn⟩
  · rintro ⟨hb, hn⟩
    exact ⟨_, hb, stopsAt_nameEnd cmd, hn⟩

/-- **When the parse stays inside its buffers.** -/
theorem parse_in_bounds_iff (L : Layout) (img : Image) (k : State) (e : ExecArgs) :
    (∀ fuel, ∀ s ∈ parseStores L img k e fuel, s.2 < s.1.size) ↔
      (k.counter < 6 → ∀ cmd, e.command = some cmd → FitsArrays cmd) := by
  by_cases hk : 6 ≤ k.counter
  · simp only [parseStores, if_pos hk]
    exact ⟨fun _ hlt => absurd hk (by omega), fun _ _ => nofun⟩
  · cases hc : e.command with
    | none =>
      simp only [parseStores, if_neg hk, hc]
      exact ⟨fun _ _ => nofun, fun _ _ => nofun⟩
    | some cmd =>
      -- a started program's argument was short enough for `arg_buf`, and so is for `pcb->arg`
      have hpcb : ∀ k' eip, execute L img k e = .ok (k', .iret eip) →
          ∀ j ∈ pcbArgStores k'.argSize, j < 1024 := by
        intro k' eip hx j hj
        obtain ⟨arg, -, hlen, hsize, -⟩ := started_arg hc hx
        simp only [pcbArgStores, List.mem_append, List.mem_range] at hj
        omega
      have hsplit : (∀ fuel, ∀ s ∈ parseStores L img k e fuel, s.2 < s.1.size) ↔
          (∀ j ∈ nameStores cmd 32 0, j < 32) ∧
          ∀ fuel, ∀ j ∈ argStores cmd fuel (nameEnd cmd 32 0 + 1) 0, j < 1024 := by
        simp only [parseStores, if_neg hk, hc]
        constructor
        · intro h
          refine ⟨fun j hj => h 0 (.commandName, j) ?_, fun fuel j hj => h fuel (.argBuf, j) ?_⟩
          · simp [hj]
          · simp [hj]
        · rintro ⟨h1, h2⟩ fuel s hs
          rcases List.mem_append.mp hs with hs | hs
          · rcases List.mem_append.mp hs with hs | hs
            · obtain ⟨j, hj, rfl⟩ := List.mem_map.mp hs
              exact h1 j hj
            · obtain ⟨j, hj, rfl⟩ := List.mem_map.mp hs
              exact h2 fuel j hj
          · split at hs
            · rename_i k' eip hx
              obtain ⟨j, hj, rfl⟩ := List.mem_map.mp hs
              exact hpcb k' eip hx j hj
            · cases hs
      rw [hsplit, nameStores_lt_iff, argStores_lt_iff, ← fitsArrays_iff]
      constructor
      · rintro h - cmd' hcmd'
        obtain rfl := Option.some.inj hcmd'
        exact h
      · exact fun h => h (by omega) cmd rfl

/-- The boot code's own `execute("shell")`, the literal followed by zeros, stores to
`command_name[32]`. -/
theorem shell_store_past_name :
    StringAt (store (fun _ => 0) 0 shellText) 0 shellName ∧
    (ParseArray.commandName, 32) ∈
      parseStores demoLayout (demoImage 1) demoBoot (demoArgs shellText 0x7ffff0) 0 ∧
    ¬ 32 < ParseArray.commandName.size := by
  have hmem : 32 ∈ nameStores (store (fun _ => 0) 0 shellText) 32 0 := by decide
  refine ⟨stringAt_store shellName, ?_, by decide⟩
  unfold parseStores
  rw [if_neg (by decide)]
  simp [demoArgs, hmem]

/-! ## Back from `getargs` -/

/-- The argument `a` comes back: with room for it and its terminator it is in the buffer, and
without it the call is refused and stores nothing. -/
def GetsBack (r : Reply) (a : CString) (n : Int) : Prop :=
  if (a.length : Int) + 1 ≤ n then
    ∃ out, r = .ret 0 out ∧ out.take a.length = a.bytes ∧ out[a.length]? = some 0
  else r = .ret (-1) []

/-- The bytes a copy of `n` bytes leaves at the index `i` of the buffer. -/
theorem strncpy_getElem? (s : CString) {n i : Nat} (hi : i < n) :
    (strncpy s.get n)[i]? = some (s.get i) := by
  rcases Nat.lt_or_ge n s.length with hlt | hge
  · have hib : i < s.bytes.length := Nat.lt_trans hi hlt
    rw [strncpy_eq_take s (Nat.le_of_lt hlt), List.getElem?_take_of_lt hi,
      List.getElem?_eq_getElem hib, CString.get, List.getD_eq_getElem _ _ hib]
  · obtain ⟨m, rfl⟩ := Nat.exists_eq_add_of_le hge
    rw [strncpy_eq_pad]
    rcases Nat.lt_or_ge i s.length with hlt | hge'
    · rw [List.getElem?_append_left hlt, List.getElem?_eq_getElem hlt, CString.get,
        List.getD_eq_getElem _ _ hlt]
    · rw [List.getElem?_append_right hge', (s.get_eq_zero_iff i).mpr hge']
      refine List.getElem?_replicate_of_lt ?_
      change i - s.length < m
      omega

/-- `getargs` by a process that has just been started with the argument `arg`. -/
theorem getargs_eq {k : State} {arg : CString} (hsize : k.argSize = arg.length)
    (harg : k.current.arg = arg.get) (buf : Nat) {n : Int} (hn : n < 2 ^ 31) :
    (getargs k buf n).2 = if buf = 0 ∨ n < arg.length then .ret (-1) []
      else .ret 0 (strncpy arg.get n.toNat) := by
  unfold getargs
  rw [hsize, harg]
  split
  · rfl
  · rw [toUInt32_of_lt (by omega) (by omega)]

/-- The argument parsed is the one given, or longer when the name does not fit its 32 bytes. -/
theorem argument_commandLine (h : StringAt cmd 0 (commandLine name a))
    (hblank : 32 ∉ name.bytes) {arg : CString} (harg : argument cmd = some arg.bytes)
    (hlen : arg.length < 1024) (ha : a.length ≤ 1023) :
    (name.length ≤ 32 → arg = a) ∧ (32 < name.length → a.length < arg.length) := by
  constructor
  · intro hname
    have heq := argument_eq (stopsAt_commandLine h hblank hname) (stringAt_argument h) (by omega)
    exact CString.ext (Option.some.inj (harg.symm.trans heq))
  · intro hname
    -- the loop stops after 32 bytes of the name, and skips the next one
    have hstop : StopsAt cmd 32 := by
      refine ⟨Nat.le_refl 32, fun j hj => ?_, Or.inl rfl⟩
      have hget := h j (by simp only [commandLine, CString.length, List.length_append] at *; omega)
      rw [Nat.zero_add, CString.get] at hget
      simp only [commandLine] at hget
      rw [hget, List.getD_append _ _ _ _ (Nat.lt_trans hj hname)]
      exact get_ne_blank hblank j
    have hlong : (commandLine name a).length = name.length + 1 + a.length := by
      simp only [commandLine, CString.length, List.length_append, List.length_cons]
      omega
    have hrest := h.drop (n := 33) (by omega)
    rw [Nat.zero_add] at hrest
    rw [argument_of_stops hstop, hrest.readString_eq] at harg
    split at harg
    · have hbytes := congrArg List.length (Option.some.inj harg)
      have hdrop : ((commandLine name a).drop 33).bytes.length = name.length + a.length - 32 := by
        have : ((commandLine name a).drop 33).bytes.length = (commandLine name a).length - 33 :=
          List.length_drop
        omega
      rw [List.length_take, hdrop] at hbytes
      change _ = arg.length at hbytes
      omega
    · cases harg

/-- **Which arguments come back from `getargs`**, called by the program right after its start. -/
theorem getargs_roundtrip_iff (L : Layout) (img : Image) (k k' : State) (e : ExecArgs) (eip : Nat)
    (cmd : Mem) (name a : CString) (hc : e.command = some cmd)
    (h : StringAt cmd 0 (commandLine name a)) (hblank : 32 ∉ name.bytes) (ha : a.length ≤ 1023)
    (hx : execute L img k e = .ok (k', .iret eip)) (buf : Nat) (n : Int) (hn : n < 2 ^ 31) :
    GetsBack (getargs k' buf n).2 a n ↔
      if buf ≠ 0 ∧ name.length ≤ 32 then n ≠ a.length else n ≤ a.length := by
  obtain ⟨arg, hparse, hlen, hsize, hpcb⟩ := started_arg hc hx
  obtain ⟨hsame, hlonger⟩ := argument_commandLine h hblank hparse hlen ha
  rw [getargs_eq hsize hpcb buf hn]
  unfold GetsBack
  by_cases hcopy : buf ≠ 0 ∧ name.length ≤ 32
  · obtain rfl := hsame hcopy.2
    rw [if_pos hcopy]
    by_cases hroom : (arg.length : Int) + 1 ≤ n
    · rw [if_pos hroom, if_neg (by omega)]
      refine iff_of_true ⟨_, rfl, ?_, ?_⟩ (by omega)
      · obtain ⟨m, hm⟩ := Nat.exists_eq_add_of_le (show arg.length ≤ n.toNat by omega)
        rw [hm, strncpy_eq_pad]
        exact List.take_left
      · rw [strncpy_getElem? _ (by omega), (arg.get_eq_zero_iff _).mpr (Nat.le_refl _)]
    · rw [if_neg hroom]
      by_cases heq : n = arg.length
      · -- the boundary: `arg_size` does not count the terminator
        rw [if_neg (by omega)]
        simp [heq]
      · rw [if_pos (by omega)]
        simp [heq]
  · rw [if_neg hcopy]
    by_cases hroom : (a.length : Int) + 1 ≤ n
    · rw [if_pos hroom]
      refine iff_of_false ?_ (by omega)
      rintro ⟨out, hret, -, hend⟩
      split at hret
      · cases hret
      · rename_i hok
        cases hret
        have hlong := hlonger (by omega)
        rw [strncpy_getElem? _ (by omega), Option.some.injEq, CString.get_eq_zero_iff] at hend
        omega
    · rw [if_neg hroom, if_pos]
      · exact iff_of_true rfl (by omega)
      · by_contra hok
        have hlong := hlonger (by omega)
        omega

/-- `shell ab` is started. -/
theorem shell_ab_started : execute demoLayout (demoImage 1) demoShell
      (demoArgs (commandLine shellName abText).bytes 0x7ffe00) =
    .ok (launched demoLayout demoShell (demoArgs (commandLine shellName abText).bytes 0x7ffe00)
      abText.bytes 0x08048080, .iret 0x08048080) :=
  shell_started_with (by decide) _ (Or.inl rfl) (by decide) (by decide)

/-- With room for three bytes the argument `ab` comes back. -/
theorem getargs_roundtrip_iff_ab :
    GetsBack (getargs (launched demoLayout demoShell
      (demoArgs (commandLine shellName abText).bytes 0x7ffe00) abText.bytes 0x08048080)
        0x08048000 3).2 abText 3 :=
  (getargs_roundtrip_iff _ _ _ _ _ _ _ _ _ rfl (stringAt_store (commandLine shellName abText))
    (by decide) (by decide) shell_ab_started 0x08048000 3 (by decide)).mpr (by decide)

/-- With room for two bytes it comes back without its terminator. -/
theorem getargs_without_nul :
    StringAt (store (fun _ => 0) 0 (commandLine shellName abText).bytes) 0
      (commandLine shellName abText) ∧
    ∃ k', execute demoLayout (demoImage 1) demoShell
        (demoArgs (commandLine shellName abText).bytes 0x7ffe00) = .ok (k', .iret 0x08048080) ∧
      (getargs k' 0x08048000 2).2 = .ret 0 abText.bytes ∧
      ¬ GetsBack (getargs k' 0x08048000 2).2 abText 2 := by
  have hret : (getargs (launched demoLayout demoShell
      (demoArgs (commandLine shellName abText).bytes 0x7ffe00) abText.bytes 0x08048080)
        0x08048000 2).2 = .ret 0 abText.bytes := by
    rw [getargs_eq rfl (launched_arg _ _ _ abText _) 0x08048000 (by decide)]
    decide
  refine ⟨stringAt_store _, _, shell_ab_started, hret, ?_⟩
  rw [hret]
  unfold GetsBack
  rw [if_neg (by decide)]
  exact nofun

end MyOS.Process
