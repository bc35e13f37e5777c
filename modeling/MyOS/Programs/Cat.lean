import MyOS.Programs.User

/-!
# `ece391cat.c`: printing a file

* `cat`: `main` (`ece391cat.c:6-31`), with `buf` as it is found.
* `remaining`: what a stream still has to deliver, `reads_remaining` one `read` of it.
* `CatInv`: what `main` has handed to `write` and what it has still to read make up what it is to
  print; `CatInv.own` is one call.
* **`cat_prints`**: started with the name of a file, `main` prints the file and returns 0, with keys
  between any two of its calls; with the directory, the names from the scan's position on; with a
  name that is not on the disk, its message, and returns 2. It makes a bounded number of calls, and
  each is answered, if there is room in the terminal's buffer for what it writes.
* **`cat_on_screen`**: without keys the text is on the screen.
-/

namespace MyOS.Programs

open MyOS.Machine MyOS.Kernel MyOS.Process MyOS.Descriptor MyOS.Terminal

/-! ## The program -/

/-- Where `main` stands. -/
inductive CatPc where
  | getargs
  | noArgs
  | openFile
  | notFound
  | read (fd : Int)
  | readFailed
  | write (fd cnt : Int)
  | done (status : Int)
  deriving DecidableEq

/-- Where `main` is, and its array. -/
structure Cat where
  pc : CatPc
  buf : Mem

/-- `"could not read arguments\n"`. -/
def catNoArgsText : CString :=
  ⟨ascii ['c', 'o', 'u', 'l', 'd', ' ', 'n', 'o', 't', ' ', 'r', 'e', 'a', 'd', ' ',
    'a', 'r', 'g', 'u', 'm', 'e', 'n', 't', 's', '\n'], by decide⟩

/-- `"file not found\n"`. -/
def notFoundText : CString :=
  ⟨ascii ['f', 'i', 'l', 'e', ' ', 'n', 'o', 't', ' ', 'f', 'o', 'u', 'n', 'd', '\n'], by decide⟩

/-- `"file read failed\n"`. -/
def catReadFailedText : CString :=
  ⟨ascii ['f', 'i', 'l', 'e', ' ', 'r', 'e', 'a', 'd', ' ', 'f', 'a', 'i', 'l', 'e', 'd', '\n'],
    by decide⟩

/-- `main()`. -/
def cat : Program Cat where
  call s :=
    match s.pc with
    | .getargs => some (.getargs userBuf 1024)
    | .noArgs => some (fdputs 1 catNoArgsText.get)
    | .openFile => some (.openFile (CString.ofMem s.buf 1024 0))
    | .notFound => some (fdputs 1 notFoundText.get)
    | .read fd => some (.read fd userBuf 1024)
    | .readFailed => some (fdputs 1 catReadFailedText.get)
    | .write _ cnt => some (.write 1 userBuf s.buf cnt)
    | .done _ => none
  resume s r :=
    let v := value r
    match s.pc with
    | .getargs => ⟨if v = 0 then .openFile else .noArgs, store s.buf 0 (stores r)⟩
    | .noArgs => { s with pc := .done 3 }
    | .openFile => { s with pc := if v = -1 then .notFound else .read v }
    | .notFound => { s with pc := .done 2 }
    | .read fd =>
      ⟨if v = 0 then .done 0 else if v = -1 then .readFailed else .write fd v,
        store s.buf 0 (stores r)⟩
    | .readFailed => { s with pc := .done 3 }
    | .write fd _ => { s with pc := if v = -1 then .done 3 else .read fd }
    | .done _ => s

/-! ## What it is to print -/

/-- The names that reads of the directory give before they answer 0. -/
def listing (D : Disk) (scan : Nat) : List CString :=
  (D.names.drop scan).takeWhile fun name => name ≠ CString.empty

/-- What a stream still has to deliver. -/
def remaining (D : Disk) : Stream → Nat → List UInt8
  | .file content pos, _ => content.drop pos
  | .directory, scan => (listing D scan).flatMap CString.bytes
  | _, _ => []

/-- What `cat` prints for a name, with the scan at `scan`. -/
def catText (D : Disk) (scan : Nat) (name : CString) : List UInt8 :=
  match D.lookup name with
  | some st => remaining D st scan
  | none => notFoundText.bytes

/-- What it returns. -/
def catStatus (D : Disk) (name : CString) : Int := if (D.lookup name).isSome then 0 else 2

variable {D : Disk} {st st' : Stream} {scan scan' : Nat} {v : Int} {out : List UInt8}

theorem listing_of_some {name : CString} (h : D.names[scan]? = some name) : listing D scan =
    if name = CString.empty then [] else name :: listing D (scan + 1) := by
  obtain ⟨hlt, rfl⟩ := List.getElem?_eq_some_iff.mp h
  unfold listing
  rw [List.drop_eq_getElem_cons hlt, List.takeWhile_cons]
  by_cases he : D.names[scan] = CString.empty
  · simp [he]
  · simp [he]

theorem listing_of_le (h : D.names.length ≤ scan) : listing D scan = [] := by
  unfold listing
  rw [List.drop_eq_nil_of_le h]
  rfl

theorem take_paddedName (name : CString) : (paddedName name).take name.length = name.bytes :=
  List.take_left

/-- **One `read`** of what is not the keyboard: 0 when nothing remains, or the next part of it. -/
theorem reads_remaining (hD : D.Ok) (hr : Reads D 1024 st scan st' scan' v out)
    (hst : st ≠ .keyboard) : (v = 0 ∧ remaining D st scan = []) ∨
    (0 < v ∧ v ≤ 1024 ∧ v.toNat ≤ out.length ∧
      remaining D st scan = out.take v.toNat ++ remaining D st' scan') := by
  cases hr with
  | keyboard hout => exact absurd rfl hst
  | clock => exact Or.inl ⟨rfl, rfl⟩
  | @file content pos scan out hn hout =>
    have hparts : content.drop pos = out ++ content.drop (pos + out.length) := by
      rw [hout, ← List.drop_drop, List.length_take]
      rcases Nat.le_total (toUInt32 1024) (content.drop pos).length with hle | hle
      · rw [Nat.min_eq_left hle, List.take_append_drop]
      · rw [Nat.min_eq_right hle, List.take_of_length_le hle, List.drop_length, List.append_nil]
    cases out with
    | nil =>
      refine Or.inl ⟨rfl, ?_⟩
      rcases List.take_eq_nil_iff.mp hout.symm with h0 | h0
      · exact absurd h0 hn
      · exact h0
    | cons b out =>
      have hmax : (b :: out).length ≤ 1024 := by
        rw [hout]
        exact List.length_take_le 1024 _
      refine Or.inr ⟨by simp only [List.length_cons]; omega, by omega, by simp, ?_⟩
      rw [Int.toNat_natCast, List.take_length]
      exact hparts
  | nothing hn => exact absurd hn (by decide)
  | @entry scan name hname =>
    have hlist := listing_of_some hname
    by_cases he : name = CString.empty
    · rw [if_pos he] at hlist
      refine Or.inl ⟨by rw [he]; rfl, ?_⟩
      simp only [Programs.remaining, hlist, List.flatMap_nil]
    · rw [if_neg he] at hlist
      have hpos : name.length ≠ 0 := fun h0 => he (CString.ext (List.eq_nil_of_length_eq_zero h0))
      have hmax := hD.length_le name (List.mem_of_getElem? hname)
      refine Or.inr ⟨by omega, by omega, ?_, ?_⟩
      · rw [Int.toNat_natCast, paddedName, List.length_append]
        exact Nat.le_add_right _ _
      · rw [Int.toNat_natCast, take_paddedName]
        simp only [Programs.remaining, hlist, List.flatMap_cons]
  | finished hscan =>
    refine Or.inl ⟨rfl, ?_⟩
    simp only [Programs.remaining, listing_of_le hscan, List.flatMap_nil]

/-! ## The invariant -/

/-- Descriptor `fd` is `i`, open on `st`. -/
structure ReadsFrom (D : Disk) (s : Service) (fd : Int) (i : Fin 8) (st : Stream) : Prop where
  two_le : 2 ≤ i
  fd_eq : fd = i.val
  table : s.running.table i = some st
  onDisk : st.OnDisk

/-- What `main` has written, `out`, and what it has still to read make up what it is to print. -/
def CatInv (D : Disk) (p : Nat) (name : CString) (scan : Nat) (x : Cat × Service)
    (out : List UInt8) : Prop :=
  x.2.pid = p ∧ x.2.stream 1 = some .console ∧
  match x.1.pc with
  | .getargs => out = [] ∧ x.2.running = ⟨freshTable, name⟩ ∧ x.2.parsed = name.length ∧
      x.2.scan = scan
  | .openFile => out = [] ∧ x.2.running.table = freshTable ∧ x.2.scan = scan ∧
      CString.ofMem x.1.buf 1024 0 = name
  | .notFound => out = [] ∧ D.lookup name = none
  | .read fd => ∃ i st, ReadsFrom D x.2 fd i st ∧ D.lookup name ≠ none ∧
      catText D scan name = out ++ remaining D st x.2.scan
  | .write fd cnt => ∃ i st, ReadsFrom D x.2 fd i st ∧ D.lookup name ≠ none ∧ 0 < cnt ∧ cnt ≤ 1024 ∧
      catText D scan name =
        out ++ (List.range cnt.toNat).map x.1.buf ++ remaining D st x.2.scan
  | .done status => out = catText D scan name ∧ status = catStatus D name
  | .noArgs => False
  | .readFailed => False

/-- The calls `main` has still to make, at most. -/
def catRank (D : Disk) (name : CString) (scan : Nat) (x : Cat × Service) : Nat :=
  match x.1.pc with
  | .getargs => 3 + 2 * (catText D scan name).length
  | .openFile => 2 + 2 * (catText D scan name).length
  | .read fd => 1 + 2 * ((x.2.stream fd).elim 0 fun st => (remaining D st x.2.scan).length)
  | .write fd _ => 2 + 2 * ((x.2.stream fd).elim 0 fun st => (remaining D st x.2.scan).length)
  | .done _ => 0
  | _ => 1

/-- The argument, copied to the buffer, is read back from it. -/
theorem ofMem_store_strncpy (name : CString) (hlen : name.length < 1024) (m : Mem) :
    CString.ofMem (store m 0 (strncpy name.get 1024)) 1024 0 = name := by
  have hat : StringAt (store m 0 (strncpy name.get 1024)) 0 name := by
    intro i hi
    have hget := strncpy_getElem? name (n := 1024) (i := i) (by omega)
    rw [store_of_inside _ _ (by rw [strncpy, length_strncpyFrom]; omega),
      List.getD_eq_getElem?_getD, hget]
    rfl
  apply CString.ext
  change readString _ 1024 0 = name.bytes
  rw [hat.readString_eq, List.take_of_length_le (Nat.le_of_lt hlen)]

/-- The part of a buffer that a `read` filled. -/
theorem range_map_store (m : Mem) {bs : List UInt8} {n : Nat} (h : n ≤ bs.length) :
    (List.range n).map (store m 0 bs) = bs.take n := by
  apply List.ext_getElem
  · rw [List.length_map, List.length_range, List.length_take, Nat.min_eq_left h]
  · intro i h1 h2
    rw [List.length_map, List.length_range] at h1
    rw [List.getElem_map, List.getElem_range, List.getElem_take]
    have hin := store_of_inside m 0 (show i < bs.length by omega)
    rw [Nat.zero_add] at hin
    rw [hin, List.getD_eq_getElem _ _ (by omega)]

/-- A write to the console: nothing changes, and the value is not the one for a failure. -/
theorem console_write {s s' : Service} {ev : Event} {data : Mem} {n : Int}
    (hs : Serves D s ev s') (hcall : ev.call = .write 1 userBuf data n)
    (h1 : s.stream 1 = some .console) : s' = s ∧ value ev.reply ≠ -1 := by
  obtain ⟨v, hw, hr, rfl⟩ := hs.of_write hcall h1 userBuf_ne_zero
  cases hw with
  | console hv =>
    rw [hr]
    refine ⟨rfl, ?_⟩
    simp only [value]
    omega

/-- **`open` on a fresh table**: the descriptor returned is open on what the name stands for, or the
name is not on the disk. -/
theorem open_fresh {s s' : Service} {ev : Event} {name : CString} (hD : D.Ok)
    (hs : Serves D s ev s') (hcall : ev.call = .openFile name) (hname : ¬ Reserved name)
    (htable : s.running.table = freshTable) :
    (∃ i st, D.lookup name = some st ∧ ev.reply = .ret (i.val : Int) [] ∧
      ReadsFrom D s' i.val i st ∧ s'.stream 1 = some .console ∧ s'.scan = s.scan ∧
      s'.pid = s.pid) ∨
    (D.lookup name = none ∧ ev.reply = .ret (-1) [] ∧ s' = s) := by
  rcases hs.of_open hcall hname with ⟨st, i, hst, hi, hr, rfl⟩ | ⟨hno, hr, rfl⟩
  · have h1 := s.stream_one_of_fresh htable
    exact Or.inl ⟨i, st, hst, hr, ⟨hi.two_le, rfl, s.set_self i _, hD.onDisk hst⟩,
      (s.set_stream_one hi.two_le _).trans h1, rfl, rfl⟩
  · refine Or.inr ⟨?_, hr, rfl⟩
    rcases hno with hno | hno
    · exact hno
    · exact absurd (by rw [htable]; rfl) (hno 2 (by decide))

/-- **`read` of an open descriptor**: it stays open, on what is left. -/
theorem ReadsFrom.read {s s' : Service} {ev : Event} {fd n : Int} {i : Fin 8}
    (h : ReadsFrom D s fd i st) (hs : Serves D s ev s') (hcall : ev.call = .read fd userBuf n)
    (h1 : s.stream 1 = some .console) :
    ∃ st' v bytes, Reads D n st s.scan st' s'.scan v bytes ∧ ev.reply = .ret v bytes ∧
      ReadsFrom D s' fd i st' ∧ s'.stream 1 = some .console ∧ s'.pid = s.pid := by
  obtain ⟨h2, rfl, htable, hdisk⟩ := h
  obtain ⟨st', scan', v, bytes, hr, hreply, rfl⟩ :=
    hs.of_read hcall ((s.stream_natCast i).trans htable) userBuf_ne_zero
  rw [fdIndex_natCast]
  exact ⟨st', v, bytes, hr, hreply, ⟨h2, rfl, s.set_self i _, hr.onDisk hdisk⟩,
    (s.set_stream_one h2 _).trans h1, rfl⟩

theorem ReadsFrom.stream_eq {s : Service} {fd : Int} {i : Fin 8} (h : ReadsFrom D s fd i st) :
    s.stream fd = some st := by
  rw [h.fd_eq, s.stream_natCast]
  exact h.table

section Step

variable {p : Nat} {name : CString} {scan : Nat} {s : Cat} {σ σ' : Service} {ev : Event}
  {out : List UInt8}

/-- `open` gives a descriptor to read from, or the file is not there. -/
theorem CatInv.opens {buf : Mem} {r : Reply} (hD : D.Ok) (hname : ¬ Reserved name)
    (h : CatInv D p name scan (⟨.openFile, buf⟩, σ) out)
    (hs : Serves D σ ⟨p, .openFile (CString.ofMem buf 1024 0), r⟩ σ') :
    CatInv D p name scan (cat.resume ⟨.openFile, buf⟩ r, σ') out ∧
      catRank D name scan (cat.resume ⟨.openFile, buf⟩ r, σ') + 1 ≤
        catRank D name scan (⟨.openFile, buf⟩, σ) := by
  obtain ⟨hp, h1, rfl, htable, hscan, hbuf⟩ := h
  simp only at hp h1 htable hscan hbuf
  rcases open_fresh hD hs rfl (by rw [hbuf]; exact hname) htable with
    ⟨i, st, hst, hr, hfrom, h1', hscan', hp'⟩ | ⟨hnone, hr, rfl⟩
  · simp only at hr
    subst hr
    rw [hbuf] at hst
    have hne : ((i.val : Int) = -1) ↔ False := by
      rw [iff_false]
      omega
    have htext : catText D scan name = remaining D st σ'.scan := by
      unfold catText
      rw [hst, hscan', hscan]
    simp only [cat, value, hne, if_false]
    refine ⟨⟨hp'.trans hp, h1', i, st, hfrom, by rw [hst]; exact Option.some_ne_none _, htext⟩, ?_⟩
    simp only [catRank, hfrom.stream_eq, Option.elim_some]
    rw [htext]
    omega
  · simp only at hr
    subst hr
    rw [hbuf] at hnone
    refine ⟨⟨hp, h1, rfl, hnone⟩, ?_⟩
    simp only [catRank, cat, value, if_true]
    omega

/-- `read` gives the next part, which is to be written, or nothing is left. -/
theorem CatInv.reads {fd : Int} {buf : Mem} {r : Reply} (hD : D.Ok)
    (h : CatInv D p name scan (⟨.read fd, buf⟩, σ) out)
    (hs : Serves D σ ⟨p, .read fd userBuf 1024, r⟩ σ') :
    CatInv D p name scan (cat.resume ⟨.read fd, buf⟩ r, σ') out ∧
      catRank D name scan (cat.resume ⟨.read fd, buf⟩ r, σ') + 1 ≤
        catRank D name scan (⟨.read fd, buf⟩, σ) := by
  obtain ⟨hp, h1, i, st, hfrom, hsome, htext⟩ := h
  simp only at hp h1 hfrom htext
  obtain ⟨st', v, bytes, hr, hreply, hfrom', h1', hp'⟩ := hfrom.read hs rfl h1
  simp only at hreply
  subst hreply
  rcases reads_remaining hD hr hfrom.onDisk.1 with ⟨rfl, hnil⟩ | ⟨hpos, hmax, hle, hrest⟩
  · rw [hnil, List.append_nil] at htext
    refine ⟨⟨hp'.trans hp, h1', htext.symm, ?_⟩, ?_⟩
    · unfold catStatus
      rw [if_pos (Option.isSome_iff_ne_none.mpr hsome)]
    · simp only [catRank, cat, value, if_true]
      omega
  · have hv : (v = 0 ↔ False) ∧ (v = -1 ↔ False) := by
      constructor <;> (rw [iff_false]; omega)
    simp only [cat, value, stores, hv, if_false]
    refine ⟨⟨hp'.trans hp, h1', i, st', hfrom', hsome, hpos, hmax, ?_⟩, ?_⟩
    · rw [htext, hrest, range_map_store buf hle, List.append_assoc]
    · simp only [catRank, hfrom.stream_eq, hfrom'.stream_eq, Option.elim_some]
      rw [hrest, List.length_append, List.length_take, Nat.min_eq_left hle]
      omega

/-- **One call of `main`** keeps the invariant and brings it nearer its end. -/
theorem CatInv.own (hD : D.Ok) (hname : ¬ Reserved name)
    (hlen : name.length < 1024) (h : CatInv D p name scan (s, σ) out) (hpid : ev.pid = p)
    (hcall : cat.call s = some ev.call) (hs : Serves D σ ev σ') :
    CatInv D p name scan (cat.resume s ev.reply, σ') (out ++ output p [ev]) ∧
      catRank D name scan (cat.resume s ev.reply, σ') + 1 ≤ catRank D name scan (s, σ) := by
  obtain ⟨pc, buf⟩ := s
  obtain ⟨pid, c, r⟩ := ev
  simp only at hpid
  subst hpid
  cases pc with
  | getargs =>
    obtain rfl := Option.some.inj hcall
    obtain ⟨hp, h1, rfl, hrun, hparsed, hscan⟩ := h
    simp only at hrun hparsed
    obtain ⟨hr, rfl⟩ := hs.of_getargs rfl userBuf_ne_zero (by rw [hparsed]; omega)
    simp only at hr
    subst hr
    refine ⟨⟨hp, h1, rfl, by rw [hrun], hscan, ?_⟩, ?_⟩
    · rw [hrun]
      exact ofMem_store_strncpy name hlen buf
    · simp only [catRank, cat, value, if_true]
      omega
  | openFile =>
    obtain rfl := Option.some.inj hcall
    change CatInv D pid name scan _ (out ++ []) ∧ _
    rw [List.append_nil]
    exact h.opens hD hname hs
  | notFound =>
    obtain rfl := Option.some.inj hcall
    obtain ⟨hp, h1, rfl, hnone⟩ := h
    obtain ⟨rfl, -⟩ := console_write hs rfl h1
    rw [output_fdputs _ _ (by decide)]
    refine ⟨⟨hp, h1, ?_, ?_⟩, by simp only [catRank, cat]; omega⟩
    · unfold catText
      rw [hnone]
      rfl
    · unfold catStatus
      rw [hnone]
      rfl
  | read fd =>
    obtain rfl := Option.some.inj hcall
    change CatInv D pid name scan _ (out ++ []) ∧ _
    rw [List.append_nil]
    exact h.reads hD hs
  | write fd cnt =>
    obtain rfl := Option.some.inj hcall
    obtain ⟨hp, h1, i, st, hfrom, hsome, hpos, hmax, htext⟩ := h
    obtain ⟨rfl, hv⟩ := console_write hs rfl h1
    rw [output_write]
    simp only at hv
    simp only [cat, if_neg hv]
    refine ⟨⟨hp, h1, i, st, hfrom, hsome, htext⟩, ?_⟩
    simp only [catRank]
    omega
  | done status => cases hcall
  | noArgs => exact h.2.2.elim
  | readFailed => exact h.2.2.elim

end Step

/-! ## Runs -/

variable {L : Layout} {img : Image} {p : Nat} {name : CString} {k : State}

theorem cat_keeps (hname : ¬ Reserved name) (hlen : name.length < 1024) :
    Keeps cat p (diskOf img) (CatInv (diskOf img) p name scan)
      (catRank (diskOf img) name scan) where
  pid h := h.1
  own h hpid hcall hs := h.own (diskOf_ok img) hname hlen hpid hcall hs

/-- With nothing pending every call of `main` is answered. -/
theorem CatInv.answers (htypes : TypesOk img) (hname : ¬ Reserved name) {s : Cat} {c : Call}
    (hk : Sound L img k) (hq : NothingPending k)
    (h : CatInv (diskOf img) p name scan (s, serviceOf img k) out) (hcall : cat.call s = some c) :
    ¬ IsKey c ∧ EspOk k c ∧ HasRoom c ∧ Answers L img k c := by
  have hputs : ∀ text : CString, text.length ≤ 1024 →
      ¬ IsKey (fdputs 1 text.get) ∧ EspOk k (fdputs 1 text.get) ∧ HasRoom (fdputs 1 text.get) ∧
        Answers L img k (fdputs 1 text.get) := by
    intro text hlen
    refine ⟨nofun, trivial, trivial, answers_write hk userBuf_ne_zero _ (by omega) ?_⟩
    exact hq.room (by rw [strlen_get _ (by omega)]; omega)
  obtain ⟨pc, buf⟩ := s
  obtain ⟨-, -, h⟩ := h
  cases pc with
  | getargs =>
    obtain rfl := Option.some.inj hcall
    exact ⟨nofun, trivial, hasRoom_getargs (by decide), answers_getargs ..⟩
  | openFile =>
    obtain rfl := Option.some.inj hcall
    refine ⟨nofun, trivial, trivial, answers_openFile L htypes ?_⟩
    rw [h.2.2.2]
    exact hname
  | notFound =>
    obtain rfl := Option.some.inj hcall
    exact hputs notFoundText (by decide)
  | read fd =>
    obtain rfl := Option.some.inj hcall
    obtain ⟨i, st, ⟨-, rfl, htable, hdisk⟩, -⟩ := h
    exact ⟨nofun, trivial, hasRoom_read _ (by decide), answers_read L
      ((Service.stream_natCast _ i).trans htable) hdisk userBuf_ne_zero _⟩
  | write fd cnt =>
    obtain rfl := Option.some.inj hcall
    obtain ⟨-, -, -, -, hpos, hmax, -⟩ := h
    exact ⟨nofun, trivial, trivial, answers_write hk userBuf_ne_zero _ (by omega)
      (hq.room hmax)⟩
  | done status => cases hcall
  | noArgs => exact h.elim
  | readFailed => exact h.elim

theorem CatInv.isPrefix {x : Cat × Service} (h : CatInv D p name scan x out) :
    out <+: catText D scan name := by
  obtain ⟨⟨pc, buf⟩, σ⟩ := x
  obtain ⟨-, -, h⟩ := h
  cases pc with
  | getargs => exact h.1 ▸ List.nil_prefix
  | openFile => exact h.1 ▸ List.nil_prefix
  | notFound => exact h.1 ▸ List.nil_prefix
  | read fd =>
    obtain ⟨i, st, -, -, htext⟩ := h
    exact ⟨_, htext.symm⟩
  | write fd cnt =>
    obtain ⟨i, st, -, -, -, -, htext⟩ := h
    exact ⟨_, (htext.trans (List.append_assoc ..)).symm⟩
  | done status => exact h.1 ▸ List.prefix_rfl
  | noArgs => exact h.elim
  | readFailed => exact h.elim

/-- The invariant and the bound, in every run of `main` from its start. -/
theorem cat_run (hblocks : BlocksOk img) (htypes : TypesOk img) (hname : ¬ Reserved name)
    {k₀ : State} (hstart : Started L img name k₀) {buf : Mem} {tr : List Event} {s : Cat}
    (ht : Trace (OnKernel cat k₀.counter L img) (⟨.getargs, buf⟩, k₀) tr (s, k)) :
    CatInv (diskOf img) k₀.counter name k₀.entryCounter (s, serviceOf img k)
      (output k₀.counter tr) ∧
    tr.countP (ownCall k₀.counter) ≤
      3 + 2 * (catText (diskOf img) k₀.entryCounter name).length ∧ Sound L img k := by
  obtain ⟨hsound, hrun, hparsed, hlen⟩ := hstart.service hblocks htypes
  obtain ⟨hsound', hserved⟩ := served hblocks htypes hsound ht
  have h0 : CatInv (diskOf img) k₀.counter name k₀.entryCounter
      (⟨.getargs, buf⟩, serviceOf img k₀) [] :=
    ⟨hsound.pid_eq, Service.stream_one_of_fresh _ (by rw [hrun]), rfl, hrun, hparsed, rfl⟩
  obtain ⟨hinv, hcount⟩ := (cat_keeps hname hlen).run hserved h0
  exact ⟨hinv, Nat.le_trans (Nat.le_add_left _ _) hcount, hsound'⟩

/-- Where nothing is typed ahead, `main` runs to its end. -/
theorem cat_completes (hblocks : BlocksOk img) (htypes : TypesOk img) (hname : ¬ Reserved name)
    {k₀ : State} (hstart : Started L img name k₀) {buf : Mem} {tr : List Event} {s : Cat}
    (ht : Trace (OnKernel cat k₀.counter L img) (⟨.getargs, buf⟩, k₀) tr (s, k))
    (hq : NothingPending k) : ∃ tr' s' k' status,
      Trace (OnKernel cat k₀.counter L img) (s, k) tr' (s', k') ∧ s'.pc = .done status ∧
      ∀ ev ∈ tr', ¬ IsKey ev.call := by
  obtain ⟨hinv, -, hsound⟩ := cat_run hblocks htypes hname hstart ht
  obtain ⟨-, -, -, hlen⟩ := hstart.service hblocks htypes
  obtain ⟨tr', s', k', ht', hend, hnk⟩ := (cat_keeps hname hlen).completes hblocks htypes
    (fun hk hq hi hcall => CatInv.answers htypes hname hk hq hi hcall) le_rfl hsound hq hinv
  obtain ⟨pc, buf'⟩ := s'
  cases pc with
  | done status => exact ⟨tr', _, k', status, ht', rfl, hnk⟩
  | _ => cases hend

theorem catText_file {d : Dentry} (hd : readDentryByName img name = some d) (htype : d.filetype = 2)
    (scan : Nat) : catText (diskOf img) scan name = contents img d.inode ∧
      catStatus (diskOf img) name = 0 := by
  have hlook : (diskOf img).lookup name = some (.file (contents img d.inode) 0) := by
    simp [diskOf, hd, entryStream, htype]
  unfold catText catStatus
  rw [hlook]
  exact ⟨rfl, rfl⟩

theorem shellName_not_reserved : ¬ Reserved shellName := by
  rw [reserved_iff]
  decide

theorem started_shellName :
    Started demoLayout (demoImage 1) shellName (demoStarted shellName) :=
  started_demoStarted (by decide) (by decide)

theorem cat_plain (s : Cat) (c : Call) (h : cat.call s = some c) : Plain c := by
  obtain ⟨pc, buf⟩ := s
  cases pc <;> cases h <;> first | exact userBuf_ne_zero | exact trivial

/-- **`cat` puts what its argument names on the screen**, behind the document that is there, when it
runs from its start to its end without a key, with nothing typed ahead. -/
theorem cat_on_screen (L : Layout) (img : Image) (hblocks : BlocksOk img) (htypes : TypesOk img)
    (name : CString) (hname : ¬ Reserved name) (k₀ k : State) (hstart : Started L img name k₀)
    (hq : NothingPending k₀) (page : Page UInt8) (hpage : OnScreen k₀ page) (buf : Mem)
    (tr : List Event) (s : Cat) (status : Int)
    (ht : Trace (OnKernel cat k₀.counter L img) (⟨.getargs, buf⟩, k₀) tr (s, k))
    (hkeys : ∀ ev ∈ tr, ¬ IsKey ev.call) (hdone : s.pc = .done status) :
    OnScreen k (page.write Video.isBreak 80 (catText (diskOf img) k₀.entryCounter name)) := by
  obtain ⟨hsound, -⟩ := hstart.service hblocks htypes
  obtain ⟨htext, hrestarts⟩ := alone cat_plain ht rfl hkeys
  obtain ⟨hinv, -⟩ := cat_run hblocks htypes hname hstart ht
  obtain ⟨pc, buf'⟩ := s
  obtain rfl : pc = .done status := hdone
  have hshows := shows_run hblocks htypes hsound hq hpage ht.system hkeys hrestarts
  rwa [htext, hinv.2.2.1] at hshows

/-- On the small image, `cat shell` on a clear screen leaves the 28 bytes of `shell` there. -/
theorem cat_on_screen_shell : ∃ tr s k,
    Trace (OnKernel cat 2 demoLayout (demoImage 1)) (⟨.getargs, fun _ => 0⟩, demoStarted shellName)
      tr (s, k) ∧ OnScreen k (layout Video.isBreak 80 (contents (demoImage 1) 1)) := by
  let s₀ : Cat := ⟨.getargs, fun _ => 0⟩
  obtain ⟨tr, s, k, status, ht, hdone, hkeys⟩ := cat_completes demoImage_blocksOk demoImage_typesOk
    shellName_not_reserved started_shellName (.nil (s₀, demoStarted shellName)) rfl
  refine ⟨tr, s, k, ht, ?_⟩
  have h := cat_on_screen _ _ demoImage_blocksOk demoImage_typesOk shellName shellName_not_reserved
    _ k started_shellName rfl Page.empty (demoStarted_onScreen _) (fun _ => 0) tr s status ht hkeys
    hdone
  rwa [(catText_file readDentryByName_shell rfl _).1] at h

end MyOS.Programs
