import MyOS.Terminal.Console
import MyOS.Text.Numerals

/-!
# User programs

A program of `syscalls/` is modelled by what it does between its system calls: its next call and how
it goes on with the answer. It runs on the kernel as one process, with keys between any two of its
calls (`OnKernel`), and so on the service that the kernel provides (`OnService`).

* `Program`, `Program.Moves`: the program as process `p`. `main` has returned when there is no next
  call.
* `Started`: a process that `execute` has just started, in any state a booted system reaches, with
  its argument. `Started.service` is what it finds.
* **`served`**: a run of a program on the kernel is one on the service.
* `own_or_key`: what an event can be to a program that starts no other.
* `output`: what a program has handed to `write` for descriptor 1.
* **`Keeps.run`**: what each call of a program preserves holds of its runs, and the bound that each
  call decreases bounds their calls. **`Keeps.completes`**: where the calls are answered and nothing
  is typed ahead, there is a run to the end.

An array of the program and a literal are at `userBuf`; only that it is not `NULL` matters, and that
an array of 1280 bytes there ends in the program's page.
-/

namespace MyOS.Programs

open MyOS.Machine MyOS.Kernel MyOS.Process MyOS.Descriptor MyOS.Terminal

/-- What a program does between its system calls. -/
structure Program (S : Type) where
  call : S → Option Call
  resume : S → Reply → S

/-- `P` as process `p`: it makes the calls of `p` and goes on with their answers. -/
def Program.Moves {S : Type} (P : Program S) (p : Nat) (s : S) (ev : Event) (s' : S) : Prop :=
  (ev.pid = p ∧ ¬ IsKey ev.call ∧ P.call s = some ev.call ∧ s' = P.resume s ev.reply) ∨
    ((ev.pid = p → IsKey ev.call) ∧ s' = s)

/-- `P` runs as process `p` on the kernel. -/
def OnKernel {S : Type} (P : Program S) (p : Nat) (L : Layout) (img : Image) :
    S × State → Event → S × State → Prop :=
  Beside (P.Moves p) (KStep L img)

/-- `P` runs as process `p` on the service. -/
def OnService {S : Type} (P : Program S) (p : Nat) (D : Disk) :
    S × Service → Event → S × Service → Prop :=
  Beside (P.Moves p) (Serves D)

/-- The value a call returns. -/
def value : Reply → Int
  | .ret v _ => v
  | _ => 0

/-- The bytes it stores. -/
def stores : Reply → List UInt8
  | .ret _ out => out
  | _ => []

/-- The address of an array or a literal of the program. -/
def userBuf : Nat := 0x083ffb00

theorem userBuf_ne_zero : userBuf ≠ 0 := by decide

theorem hasRoom_read (fd : Int) {n : Nat} (h : n ≤ 1280) : HasRoom (.read fd userBuf n) := by
  refine ⟨Int.natCast_nonneg n, by decide, ?_⟩
  unfold userBuf
  omega

theorem hasRoom_getargs {n : Nat} (h : n ≤ 1280) : HasRoom (.getargs userBuf n) := by
  refine ⟨Int.natCast_nonneg n, by decide, ?_⟩
  unfold userBuf
  omega

/-- `ece391_fdputs(fd, s)`, for the string at index 0 of `m`. -/
def fdputs (fd : Int) (m : Mem) : Call := .write fd userBuf m (strlen m 0)

theorem strlen_get (s : CString) (h : s.length ≤ 2 ^ 32) : strlen s.get 0 = s.length :=
  Text.strlen_eq (fun i _ => by rw [Nat.zero_add]) h

/-- The bytes that process `p` has handed to `write` for descriptor 1. -/
def output (p : Nat) (tr : List Event) : List UInt8 :=
  tr.flatMap fun ev =>
    match ev.call with
    | .write fd _ data n => if ev.pid = p ∧ fd = 1 then (List.range n.toNat).map data else []
    | _ => []

theorem output_snoc (p : Nat) (tr : List Event) (ev : Event) :
    output p (tr ++ [ev]) = output p tr ++ output p [ev] := List.flatMap_append ..

theorem output_write (p : Nat) (buf : Nat) (data : Mem) (n : Int) (r : Reply) :
    output p [⟨p, .write 1 buf data n, r⟩] = (List.range n.toNat).map data := by
  simp [output]

theorem output_of_not_write (p : Nat) {pid : Nat} {c : Call} {r : Reply}
    (h : ∀ buf data n, c ≠ .write 1 buf data n) : output p [⟨pid, c, r⟩] = [] := by
  unfold output
  rw [List.flatMap_singleton]
  split
  · rename_i fd buf data n hcall
    refine if_neg ?_
    rintro ⟨-, rfl⟩
    exact h _ _ _ hcall
  · rfl

theorem range_map_get (s : CString) : (List.range s.length).map s.get = s.bytes := by
  apply List.ext_getElem
  · rw [List.length_map, List.length_range]
    rfl
  · intro i h1 h2
    rw [List.getElem_map, List.getElem_range, CString.get, List.getD_eq_getElem _ _ h2]

theorem output_fdputs (p : Nat) (s : CString) (h : s.length ≤ 2 ^ 32) (r : Reply) :
    output p [⟨p, fdputs 1 s.get, r⟩] = s.bytes := by
  unfold fdputs
  rw [output_write, Int.toNat_natCast, strlen_get s h, range_map_get]

/-- The process makes a call of its own. -/
def ownCall (p : Nat) (ev : Event) : Bool :=
  match ev.call with
  | .key _ _ => false
  | _ => ev.pid = p

theorem ownCall_iff {p : Nat} {ev : Event} :
    ownCall p ev = true ↔ ev.pid = p ∧ ¬ IsKey ev.call := by
  unfold ownCall IsKey
  cases ev.call <;> simp

/-! ## Starting -/

variable {L : Layout} {img : Image} {k k' : State} {r : Reply}

/-- The kernel right after `execute` has started a program with the argument `arg`. -/
def Started (L : Layout) (img : Image) (arg : CString) (k : State) : Prop :=
  ∃ past kp e cmd eip, Reaches L img past kp ∧
    KStep L img kp ⟨kp.counter, .execute e, .iret eip⟩ k ∧ e.command = some cmd ∧
    argument cmd = some arg.bytes

/-- **What a program finds when it starts**: fresh descriptors and its argument. -/
theorem Started.service (hblocks : BlocksOk img) (htypes : TypesOk img) {arg : CString}
    (h : Started L img arg k) : Sound L img k ∧
      (serviceOf img k).running = ⟨freshTable, arg⟩ ∧ (serviceOf img k).parsed = arg.length ∧
      arg.length < 1024 := by
  obtain ⟨past, kp, e, cmd, eip, hreach, hstep, hc, harg⟩ := h
  obtain ⟨hsound, hserves⟩ := (reaches_sound hblocks htypes hreach).serves hblocks htypes hstep
  refine ⟨hsound, ?_⟩
  obtain ⟨a, ha, hlen⟩ := argument_cstring harg
  obtain rfl : arg = a := CString.ext ha
  obtain ⟨cmd', arg', hc', harg', hσ⟩ := hserves.of_started rfl rfl
  obtain rfl : cmd = cmd' := Option.some.inj (hc.symm.trans hc')
  obtain rfl : arg = arg' := CString.ext (Option.some.inj (harg.symm.trans harg'))
  rw [hσ]
  exact ⟨rfl, rfl, hlen⟩

/-- The small system after its shell has started `shell` again, with an argument. -/
def demoStarted (arg : CString) : State :=
  launched demoLayout demoClearShell (demoArgs (commandLine shellName arg).bytes 0x7ffe00) arg.bytes
    0x08048080

theorem started_demoStarted {arg : CString}
    (hn : commandName (store (fun _ => 0) 0 (commandLine shellName arg).bytes) CString.empty =
      shellName)
    (ha : argument (store (fun _ => 0) 0 (commandLine shellName arg).bytes) = some arg.bytes) :
    Started demoLayout (demoImage 1) arg (demoStarted arg) := by
  refine ⟨[], demoClearShell, demoArgs (commandLine shellName arg).bytes 0x7ffe00, _, 0x08048080,
    ⟨demoClearShell, demoClearShell_booted, .nil _⟩, ⟨rfl, ⟨?_, Or.inl rfl⟩, ?_⟩, rfl, ha⟩
  · change pcbAddr 1 ≤ 0x7ffe00 ∧ 0x7ffe00 < pcbAddr 1 + 0x2000
    decide
  · exact shell_started_with (by decide) _ (Or.inl rfl) hn ha

theorem demoStarted_onScreen (arg : CString) : OnScreen (demoStarted arg) Page.empty :=
  demoClearShell_onScreen

/-- **A run on the kernel is a run on the service.** -/
theorem served {S : Type} {P : Program S} {p : Nat} {s s' : S} {tr : List Event}
    (hblocks : BlocksOk img) (htypes : TypesOk img) (h : Sound L img k)
    (ht : Trace (OnKernel P p L img) (s, k) tr (s', k')) : Sound L img k' ∧
      Trace (OnService P p (diskOf img)) (s, serviceOf img k) tr (s', serviceOf img k') :=
  Trace.serve (serviceOf img) (fun _ _ _ hJ hs => hJ.serves hblocks htypes hs) ht h

/-! ## Runs on the service -/

section Service

variable {S : Type} {P : Program S} {D : Disk} {p : Nat} {x y : S × Service} {ev : Event}

/-- An event that is a key changes nothing; any other is a call of the program. -/
theorem own_or_key (hp : x.2.pid = p) (h : OnService P p D x ev y) :
    (ev.pid = p ∧ ownCall p ev = true ∧ P.call x.1 = some ev.call ∧ y.1 = P.resume x.1 ev.reply ∧
      Serves D x.2 ev y.2) ∨
    (ownCall p ev = false ∧ y = x ∧ ∀ buf data n, ev.call ≠ .write 1 buf data n) := by
  obtain ⟨hP, hs⟩ := h
  have hpid : ev.pid = p := by
    rw [← hp]
    exact hs.pid_eq
  rcases hP with ⟨-, hkey, hcall, hres⟩ | ⟨hkey, hsame⟩
  · exact Or.inl ⟨hpid, ownCall_iff.mpr ⟨hpid, hkey⟩, hcall, hres, hs⟩
  · have hk := hkey hpid
    refine Or.inr ⟨?_, ?_, ?_⟩
    · rw [Bool.eq_false_iff]
      exact fun ho => (ownCall_iff.mp ho).2 hk
    · obtain ⟨sc, text, hc⟩ := hk
      exact Prod.ext hsame (hs.of_key hc)
    · intro buf data n hcall
      obtain ⟨sc, text, hc⟩ := hk
      rw [hc] at hcall
      cases hcall

/-- **The rule for a program.** `I` relates program and service to what has been written, `f` bounds
the calls still to be made; each call of the program keeps the one and decreases the other. -/
structure Keeps (P : Program S) (p : Nat) (D : Disk) (I : S × Service → List UInt8 → Prop)
    (f : S × Service → Nat) : Prop where
  pid : ∀ {x out}, I x out → x.2.pid = p
  own : ∀ {s σ σ' ev out}, I (s, σ) out → ev.pid = p → P.call s = some ev.call →
    Serves D σ ev σ' → I (P.resume s ev.reply, σ') (out ++ output p [ev]) ∧
      f (P.resume s ev.reply, σ') + 1 ≤ f (s, σ)

theorem Keeps.run {I : S × Service → List UInt8 → Prop} {f : S × Service → Nat} {tr : List Event}
    (hI : Keeps P p D I f) (h : Trace (OnService P p D) x tr y) (h0 : I x []) :
    I y (output p tr) ∧ f y + tr.countP (ownCall p) ≤ f x := by
  refine Trace.snoc_induction
    (P := fun tr y => I y (output p tr) ∧ f y + tr.countP (ownCall p) ≤ f x) ⟨h0, Nat.le_refl _⟩
    ?_ h
  rintro tr ⟨s, σ⟩ ev ⟨s', σ'⟩ - ⟨ih, hle⟩ hstep
  rw [output_snoc, List.countP_append, List.countP_singleton]
  rcases own_or_key (hI.pid ih) hstep with ⟨hpid, hown, hcall, hres, hs⟩ | ⟨hown, heq, hno⟩
  · simp only at hcall hres hs
    subst hres
    obtain ⟨hI', hf⟩ := hI.own ih hpid hcall hs
    rw [if_pos hown]
    exact ⟨hI', by omega⟩
  · obtain ⟨rfl, rfl⟩ := Prod.mk.inj heq
    rw [show output p [ev] = [] from output_of_not_write p hno, List.append_nil, hown]
    exact ⟨ih, hle⟩

end Service

/-! ## The calls that are answered -/

theorem answers_getargs (L : Layout) (img : Image) (k : State) (buf : Nat) (n : Int) :
    Answers L img k (.getargs buf n) := ⟨_, _, rfl⟩

theorem answers_openFile (L : Layout) (htypes : TypesOk img) {name : CString}
    (hname : ¬ Reserved name) : Answers L img k (.openFile name) := by
  unfold Answers
  simp only [step, openFile_unreserved htypes hname]
  split <;> exact ⟨_, _, rfl⟩

/-- A `read` of the clock, the directory or a file returns. -/
theorem answers_read (L : Layout) {fd : Int} {st : Stream}
    (hfd : (serviceOf img k).stream fd = some st) (hst : st.OnDisk)
    {buf : Nat} (hbuf : buf ≠ 0) (n : Int) : Answers L img k (.read fd buf n) := by
  rw [stream_serviceOf] at hfd
  split at hfd
  · rename_i hrange
    unfold streamOf at hfd
    split at hfd
    · cases hfd
    · rename_i hflags
      have hc : Checked k (.read fd buf n) := ⟨hrange.1, hrange.2, hbuf, hflags⟩
      have done : ∀ {t fn k₁ v out}, (k.file (fdIndex fd)).fileOperation = some t →
          t.read = some fn → callRead img k (k.file (fdIndex fd)) buf n fn = .ok (k₁, v, out) →
          Answers L img k (.read fd buf n) :=
        fun hop hfn hcall => ⟨_, _, (Reading.done hc hop hfn hcall).read_eq⟩
      cases hop : (k.file (fdIndex fd)).fileOperation with
      | none =>
        rw [hop] at hfd
        cases hfd
      | some t =>
        rw [hop] at hfd
        cases t with
        | stdinT =>
          cases hfd
          exact absurd rfl hst.1
        | stdoutT =>
          cases hfd
          exact absurd rfl hst.2
        | rtcT => exact done hop rfl rfl
        | fileT => exact done hop rfl rfl
        | directoryT => exact done hop rfl rfl
  · cases hfd

/-! ## Runs without keys -/

/-- A call that starts and ends no process, and does not write from `NULL`. -/
def Plain : Call → Prop
  | .halt _ => False
  | .execute _ => False
  | .write _ buf _ _ => buf ≠ 0
  | _ => True

/-- **In a run without keys a program that makes such calls has the system to itself**, and what it
writes is what is printed. -/
theorem alone {S : Type} {P : Program S} {p : Nat} (hP : ∀ s c, P.call s = some c → Plain c)
    {x y : S × State} {tr : List Event} (h : Trace (OnKernel P p L img) x tr y)
    (hp : x.2.counter = p) (hkeys : ∀ ev ∈ tr, ¬ IsKey ev.call) :
    printedText tr = output p tr ∧ ∀ ev ∈ tr, ¬ Restarts ev := by
  induction h with
  | nil x => exact ⟨rfl, nofun⟩
  | @cons x y z ev tr hs _ ih =>
    rw [List.forall_mem_cons] at hkeys
    obtain ⟨hmoves, hk⟩ := hs
    have hpid : ev.pid = p := hk.1.trans hp
    have hplain : Plain ev.call := by
      rcases hmoves with ⟨-, -, hcall, -⟩ | ⟨hkey, -⟩
      · exact hP _ _ hcall
      · exact absurd (hkey hpid) hkeys.1
    have hsw : ¬ Switches ev.call := by
      intro hsw
      cases hc : ev.call <;> rw [hc] at hsw hplain <;> first | exact hsw | exact hplain
    obtain ⟨ih1, ih2⟩ := ih ((counter_of_not_switches hsw hk.2.2).trans hp) hkeys.2
    have hone : printedBy ev.pid ev.call = output p [ev] := by
      unfold output printedBy
      rw [List.flatMap_singleton]
      cases hc : ev.call with
      | write fd buf data n =>
        have hbuf : buf ≠ 0 := by rwa [hc] at hplain
        simp only [hbuf, hpid, true_and, ne_eq, not_false_eq_true, and_true]
      | execute e =>
        rw [hc] at hplain
        exact hplain.elim
      | _ => rfl
    refine ⟨?_, ?_⟩
    · rw [printedText, List.flatMap_cons, hone]
      rw [printedText] at ih1
      rw [ih1]
      exact (List.flatMap_append ..).symm
    · rw [List.forall_mem_cons]
      refine ⟨?_, ih2⟩
      rintro ⟨-, status, hhalt⟩
      rw [hhalt] at hplain
      exact hplain

/-! ## Running to the end -/

/-- **A program whose calls are answered runs to its end.** -/
theorem Keeps.completes {S : Type} {P : Program S} {p : Nat} {I : S × Service → List UInt8 → Prop}
    {f : S × Service → Nat} (hblocks : BlocksOk img) (htypes : TypesOk img)
    (hI : Keeps P p (diskOf img) I f)
    (hans : ∀ {s k out c}, Sound L img k → NothingPending k → I (s, serviceOf img k) out →
      P.call s = some c → ¬ IsKey c ∧ EspOk k c ∧ HasRoom c ∧ Answers L img k c) :
    ∀ {n : Nat} {s : S} {k : State} {out : List UInt8}, f (s, serviceOf img k) ≤ n →
      Sound L img k → NothingPending k → I (s, serviceOf img k) out →
      ∃ tr s' k', Trace (OnKernel P p L img) (s, k) tr (s', k') ∧ P.call s' = none ∧
        ∀ ev ∈ tr, ¬ IsKey ev.call := by
  intro n
  induction n with
  | zero =>
    intro s k out hf hk hq hi
    cases hcall : P.call s with
    | none => exact ⟨[], s, k, .nil _, hcall, nofun⟩
    | some c =>
      -- a call would decrease the bound
      obtain ⟨hkey, hesp, hroom, k', r, hstep⟩ := hans hk hq hi hcall
      have hks : KStep L img k ⟨k.counter, c, r⟩ k' :=
        ⟨rfl, ⟨hesp, step_bufOk hroom hstep⟩, hstep⟩
      have hp : k.counter = p := hk.pid_eq.symm.trans (hI.pid hi)
      have := (hI.own hi hp hcall (hk.serves hblocks htypes hks).2).2
      omega
  | succ n ih =>
    intro s k out hf hk hq hi
    cases hcall : P.call s with
    | none => exact ⟨[], s, k, .nil _, hcall, nofun⟩
    | some c =>
      obtain ⟨hkey, hesp, hroom, k', r, hstep⟩ := hans hk hq hi hcall
      have hks : KStep L img k ⟨k.counter, c, r⟩ k' :=
        ⟨rfl, ⟨hesp, step_bufOk hroom hstep⟩, hstep⟩
      have hp : k.counter = p := hk.pid_eq.symm.trans (hI.pid hi)
      obtain ⟨hk', hserves⟩ := hk.serves hblocks htypes hks
      obtain ⟨hi', hf'⟩ := hI.own hi hp hcall hserves
      obtain ⟨tr, s', k'', ht, hend, hnk⟩ :=
        ih (s := P.resume s r) (by simp only at hf'; omega) hk' (hq.step hkey hstep) hi'
      refine ⟨_ :: tr, s', k'', .cons ⟨Or.inl ⟨hp, hkey, hcall, rfl⟩, hks⟩ ht, hend, ?_⟩
      rw [List.forall_mem_cons]
      exact ⟨hkey, hnk⟩

end MyOS.Programs
