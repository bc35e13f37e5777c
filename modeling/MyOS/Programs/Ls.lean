import MyOS.Programs.Cat

/-!
# `ece391ls.c`: listing the directory

* `ls`: `main` (`ece391ls.c:8-29`), with `buf` as it is found.
* `lines`: the names as they are printed, one a line.
* `LsInv`: what has been printed and what the scan still has to give make up the listing;
  `LsInv.own` is one call.
* **`ls_prints`**: `main` prints the names from where the scan stands up to the first empty one and
  returns 0, with keys between any two of its calls, and leaves the scan at its start, unless an
  empty name ended it: then just after that name, and the next `ls` goes on from there.
-/

namespace MyOS.Programs

open MyOS.Machine MyOS.Kernel MyOS.Process MyOS.Descriptor MyOS.Terminal

/-! ## The program -/

/-- Where `main` stands. -/
inductive LsPc where
  | openDir
  | openFailed
  | read (fd : Int)
  | readFailed
  | write (fd cnt : Int)
  | done (status : Int)
  deriving DecidableEq

/-- Where `main` is, and its array. -/
structure Ls where
  pc : LsPc
  buf : Mem

/-- `"directory open failed\n"`. -/
def dirOpenFailedText : CString :=
  ⟨ascii ['d', 'i', 'r', 'e', 'c', 't', 'o', 'r', 'y', ' ', 'o', 'p', 'e', 'n', ' ',
    'f', 'a', 'i', 'l', 'e', 'd', '\n'], by decide⟩

/-- `"directory entry read failed\n"`. -/
def dirReadFailedText : CString :=
  ⟨ascii ['d', 'i', 'r', 'e', 'c', 't', 'o', 'r', 'y', ' ', 'e', 'n', 't', 'r', 'y', ' ',
    'r', 'e', 'a', 'd', ' ', 'f', 'a', 'i', 'l', 'e', 'd', '\n'], by decide⟩

/-- `main()`. The newline is stored behind the name before both are written. -/
def ls : Program Ls where
  call s :=
    match s.pc with
    | .openDir => some (.openFile dotName)
    | .openFailed => some (fdputs 1 dirOpenFailedText.get)
    | .read fd => some (.read fd userBuf 32)
    | .readFailed => some (fdputs 1 dirReadFailedText.get)
    | .write _ cnt => some (.write 1 userBuf s.buf (cnt + 1))
    | .done _ => none
  resume s r :=
    let v := value r
    match s.pc with
    | .openDir => { s with pc := if v = -1 then .openFailed else .read v }
    | .openFailed => { s with pc := .done 2 }
    | .read fd =>
      let buf := store s.buf 0 (stores r)
      if v = 0 then ⟨.done 0, buf⟩
      else if v = -1 then ⟨.readFailed, buf⟩
      else ⟨.write fd v, Function.update buf v.toNat 10⟩
    | .readFailed => { s with pc := .done 3 }
    | .write fd _ => { s with pc := if v = -1 then .done 3 else .read fd }
    | .done _ => s

/-! ## What it is to print -/

/-- Names, one a line. -/
def lines (names : List CString) : List UInt8 := names.flatMap fun name => name.bytes ++ [10]

/-- Where the scan stands once a read has answered 0. -/
def scanEnd (D : Disk) (scan : Nat) : Nat :=
  if scan + (listing D scan).length < D.names.length then scan + (listing D scan).length + 1 else 0

variable {D : Disk} {st' : Stream} {scan scan' : Nat} {v : Int} {out : List UInt8}

/-- **One `read` of the directory**: the next name of the listing, or its end. -/
theorem reads_listing {n : Int} (hD : D.Ok) (hr : Reads D n .directory scan st' scan' v out) :
    st' = .directory ∧
    ((v = 0 ∧ listing D scan = [] ∧ scan' = scanEnd D scan) ∨
      ∃ name : CString, v = name.length ∧ 0 < name.length ∧ name.length ≤ 32 ∧
        out = paddedName name ∧ listing D scan = name :: listing D scan' ∧
        scanEnd D scan' = scanEnd D scan) := by
  cases hr with
  | @entry scan name hname =>
    refine ⟨rfl, ?_⟩
    have hlt := (List.getElem?_eq_some_iff.mp hname).1
    have hlist := listing_of_some hname
    unfold scanEnd
    by_cases he : name = CString.empty
    · rw [if_pos he] at hlist
      refine Or.inl ⟨by rw [he]; rfl, hlist, ?_⟩
      simp only [hlist, List.length_nil, Nat.add_zero, if_pos hlt]
    · rw [if_neg he] at hlist
      have hpos : name.length ≠ 0 := fun h0 => he (CString.ext (List.eq_nil_of_length_eq_zero h0))
      refine Or.inr ⟨name, rfl, by omega, hD.length_le name (List.mem_of_getElem? hname), rfl,
        hlist, ?_⟩
      rw [hlist, List.length_cons,
        show scan + ((listing D (scan + 1)).length + 1) =
          scan + 1 + (listing D (scan + 1)).length by omega]
  | finished hscan =>
    have hlist := listing_of_le hscan
    refine ⟨rfl, Or.inl ⟨rfl, hlist, ?_⟩⟩
    unfold scanEnd
    simp only [hlist, List.length_nil, Nat.add_zero, if_neg (Nat.not_lt.mpr hscan)]

/-- The name and the newline behind it. -/
theorem range_map_line (m : Mem) (name : CString) :
    (List.range (name.length + 1)).map
      (Function.update (store m 0 (paddedName name)) name.length 10) = name.bytes ++ [10] := by
  have hle : name.length ≤ (paddedName name).length := by
    rw [paddedName, List.length_append]
    exact Nat.le_add_right _ _
  have hname := range_map_store m hle
  rw [take_paddedName] at hname
  rw [List.range_succ, List.map_append, List.map_singleton, Function.update_self, ← hname]
  congr 1
  apply List.map_congr_left
  intro i hi
  rw [List.mem_range] at hi
  rw [Function.update_of_ne (by omega)]

/-! ## The invariant -/

/-- What `ls` prints, with the scan at `scan`. -/
def lsText (D : Disk) (scan : Nat) : List UInt8 :=
  if D.lookup dotName = none then dirOpenFailedText.bytes else lines (listing D scan)

/-- What it returns. -/
def lsStatus (D : Disk) : Int := if D.lookup dotName = none then 2 else 0

/-- Where it leaves the scan. -/
def lsScan (D : Disk) (scan : Nat) : Nat := if D.lookup dotName = none then scan else scanEnd D scan

/-- What `main` has written, `out`, and what the scan has still to give make up the listing. -/
def LsInv (D : Disk) (p scan : Nat) (x : Ls × Service) (out : List UInt8) : Prop :=
  x.2.pid = p ∧ x.2.stream 1 = some .console ∧
  match x.1.pc with
  | .openDir => out = [] ∧ x.2.running.table = freshTable ∧ x.2.scan = scan
  | .openFailed => out = [] ∧ D.lookup dotName = none ∧ x.2.scan = scan
  | .read fd => ∃ i, ReadsFrom D x.2 fd i .directory ∧ D.lookup dotName ≠ none ∧
      scanEnd D x.2.scan = scanEnd D scan ∧
      lines (listing D scan) = out ++ lines (listing D x.2.scan)
  | .write fd cnt => ∃ i, ReadsFrom D x.2 fd i .directory ∧ D.lookup dotName ≠ none ∧
      scanEnd D x.2.scan = scanEnd D scan ∧ 0 < cnt ∧ cnt ≤ 32 ∧ lines (listing D scan) =
        out ++ (List.range (cnt + 1).toNat).map x.1.buf ++ lines (listing D x.2.scan)
  | .done status => status = lsStatus D ∧ out = lsText D scan ∧ x.2.scan = lsScan D scan
  | .readFailed => False

/-- The calls `main` has still to make, at most. -/
def lsRank (D : Disk) (scan : Nat) (x : Ls × Service) : Nat :=
  match x.1.pc with
  | .openDir => 2 + 2 * (listing D scan).length
  | .read _ => 1 + 2 * (listing D x.2.scan).length
  | .write _ _ => 2 + 2 * (listing D x.2.scan).length
  | .done _ => 0
  | _ => 1

theorem dotName_not_reserved : ¬ Reserved dotName := by
  rw [reserved_iff]
  decide

section Step

variable {p : Nat} {s : Ls} {σ σ' : Service} {ev : Event}

/-- `open` gives a descriptor to read from, or there is no directory. -/
theorem LsInv.opens {buf : Mem} {r : Reply} (hD : D.Ok)
    (hdir : ∀ st, D.lookup dotName = some st → st = .directory)
    (h : LsInv D p scan (⟨.openDir, buf⟩, σ) out)
    (hs : Serves D σ ⟨p, .openFile dotName, r⟩ σ') :
    LsInv D p scan (ls.resume ⟨.openDir, buf⟩ r, σ') out ∧
      lsRank D scan (ls.resume ⟨.openDir, buf⟩ r, σ') + 1 ≤ lsRank D scan (⟨.openDir, buf⟩, σ) := by
  obtain ⟨hp, h1, rfl, htable, hscan⟩ := h
  simp only at hp h1 htable hscan
  rcases open_fresh hD hs rfl dotName_not_reserved htable with
    ⟨i, st, hst, hr, hfrom, h1', hscan', hp'⟩ | ⟨hnone, hr, rfl⟩
  · simp only at hr
    subst hr
    obtain rfl := hdir st hst
    have hne : ((i.val : Int) = -1) ↔ False := by
      rw [iff_false]
      omega
    rw [hscan] at hscan'
    simp only [ls, value, hne, if_false]
    refine ⟨⟨hp'.trans hp, h1', i, hfrom, by rw [hst]; exact Option.some_ne_none _, ?_, ?_⟩, ?_⟩
    · rw [hscan']
    · rw [hscan']
      rfl
    · simp only [lsRank, hscan']
      omega
  · simp only at hr
    subst hr
    refine ⟨⟨hp, h1, rfl, hnone, hscan⟩, ?_⟩
    simp only [lsRank, ls, value, if_true]
    omega

/-- `read` gives the next name, which is to be written with its newline, or the scan is over. -/
theorem LsInv.reads {fd : Int} {buf : Mem} {r : Reply} (hD : D.Ok)
    (h : LsInv D p scan (⟨.read fd, buf⟩, σ) out)
    (hs : Serves D σ ⟨p, .read fd userBuf 32, r⟩ σ') :
    LsInv D p scan (ls.resume ⟨.read fd, buf⟩ r, σ') out ∧
      lsRank D scan (ls.resume ⟨.read fd, buf⟩ r, σ') + 1 ≤ lsRank D scan (⟨.read fd, buf⟩, σ) := by
  obtain ⟨hp, h1, i, hfrom, hsome, hscan, htext⟩ := h
  simp only at hp h1 hfrom hscan htext
  obtain ⟨st', v, bytes, hr, hreply, hfrom', h1', hp'⟩ := hfrom.read hs rfl h1
  simp only at hreply
  subst hreply
  obtain ⟨rfl, hcases⟩ := reads_listing hD hr
  rcases hcases with ⟨rfl, hnil, hend⟩ | ⟨name, rfl, hpos, hmax, rfl, hlist, hend⟩
  · rw [hnil] at htext
    refine ⟨⟨hp'.trans hp, h1', (if_neg hsome).symm, ?_, ?_⟩, ?_⟩
    · rw [lsText, if_neg hsome, htext]
      exact (List.append_nil out).symm
    · rw [lsScan, if_neg hsome, ← hscan]
      exact hend
    · simp only [lsRank, ls, value, if_true]
      omega
  · have hv : ((name.length : Int) = 0 ↔ False) ∧ ((name.length : Int) = -1 ↔ False) := by
      constructor <;> (rw [iff_false]; omega)
    simp only [ls, value, stores, hv, if_false]
    refine ⟨⟨hp'.trans hp, h1', i, hfrom', hsome, hend.trans hscan, by omega, by omega, ?_⟩, ?_⟩
    · rw [show ((name.length : Int) + 1).toNat = name.length + 1 by omega, Int.toNat_natCast,
        range_map_line, htext, hlist, List.append_assoc]
      rfl
    · simp only [lsRank]
      rw [hlist, List.length_cons]
      omega

/-- **One call of `main`** keeps the invariant and brings it nearer its end. -/
theorem LsInv.own (hD : D.Ok) (hdir : ∀ st, D.lookup dotName = some st → st = .directory)
    (h : LsInv D p scan (s, σ) out) (hpid : ev.pid = p) (hcall : ls.call s = some ev.call)
    (hs : Serves D σ ev σ') :
    LsInv D p scan (ls.resume s ev.reply, σ') (out ++ output p [ev]) ∧
      lsRank D scan (ls.resume s ev.reply, σ') + 1 ≤ lsRank D scan (s, σ) := by
  obtain ⟨pc, buf⟩ := s
  obtain ⟨pid, c, r⟩ := ev
  simp only at hpid
  subst hpid
  cases pc with
  | openDir =>
    obtain rfl := Option.some.inj hcall
    change LsInv D pid scan _ (out ++ []) ∧ _
    rw [List.append_nil]
    exact h.opens hD hdir hs
  | openFailed =>
    obtain rfl := Option.some.inj hcall
    obtain ⟨hp, h1, rfl, hnone, hscan⟩ := h
    obtain ⟨rfl, -⟩ := console_write hs rfl h1
    rw [output_fdputs _ _ (by decide)]
    refine ⟨⟨hp, h1, ?_, ?_, ?_⟩, by simp only [lsRank, ls]; omega⟩
    · exact (if_pos hnone).symm
    · exact (if_pos hnone).symm
    · exact hscan.trans (if_pos hnone).symm
  | read fd =>
    obtain rfl := Option.some.inj hcall
    change LsInv D pid scan _ (out ++ []) ∧ _
    rw [List.append_nil]
    exact h.reads hD hs
  | write fd cnt =>
    obtain rfl := Option.some.inj hcall
    obtain ⟨hp, h1, i, hfrom, hsome, hscan, hpos, hmax, htext⟩ := h
    obtain ⟨rfl, hv⟩ := console_write hs rfl h1
    rw [output_write]
    simp only at hv
    simp only [ls, if_neg hv]
    refine ⟨⟨hp, h1, i, hfrom, hsome, hscan, htext⟩, ?_⟩
    simp only [lsRank]
    omega
  | done status => cases hcall
  | readFailed => exact h.2.2.elim

end Step

theorem LsInv.isPrefix {p : Nat} {x : Ls × Service} (h : LsInv D p scan x out) :
    out <+: lsText D scan := by
  obtain ⟨⟨pc, buf⟩, σ⟩ := x
  obtain ⟨-, -, h⟩ := h
  cases pc with
  | openDir => exact h.1 ▸ List.nil_prefix
  | openFailed => exact h.1 ▸ List.nil_prefix
  | read fd =>
    obtain ⟨i, -, hsome, -, htext⟩ := h
    rw [lsText, if_neg hsome]
    exact ⟨_, htext.symm⟩
  | write fd cnt =>
    obtain ⟨i, -, hsome, -, -, -, htext⟩ := h
    rw [lsText, if_neg hsome]
    exact ⟨_, (htext.trans (List.append_assoc ..)).symm⟩
  | done status => exact h.2.1 ▸ List.prefix_rfl
  | readFailed => exact h.elim

/-! ## Runs -/

variable {L : Layout} {img : Image} {p : Nat} {k : State}

theorem ls_keeps (hdir : ∀ st, (diskOf img).lookup dotName = some st → st = .directory) :
    Keeps ls p (diskOf img) (LsInv (diskOf img) p scan) (lsRank (diskOf img) scan) where
  pid h := h.1
  own h hpid hcall hs := h.own (diskOf_ok img) hdir hpid hcall hs

/-- With nothing pending every call of `main` is answered. -/
theorem LsInv.answers (htypes : TypesOk img) {s : Ls} {c : Call} (hk : Sound L img k)
    (hq : NothingPending k) (h : LsInv (diskOf img) p scan (s, serviceOf img k) out)
    (hcall : ls.call s = some c) :
    ¬ IsKey c ∧ EspOk k c ∧ HasRoom c ∧ Answers L img k c := by
  obtain ⟨pc, buf⟩ := s
  obtain ⟨-, -, h⟩ := h
  cases pc with
  | openDir =>
    obtain rfl := Option.some.inj hcall
    exact ⟨nofun, trivial, trivial, answers_openFile L htypes dotName_not_reserved⟩
  | openFailed =>
    obtain rfl := Option.some.inj hcall
    refine ⟨nofun, trivial, trivial, answers_write hk userBuf_ne_zero _ (by omega) (hq.room ?_)⟩
    decide
  | read fd =>
    obtain rfl := Option.some.inj hcall
    obtain ⟨i, ⟨-, rfl, htable, hdisk⟩, -⟩ := h
    exact ⟨nofun, trivial, hasRoom_read _ (by decide), answers_read L
      ((Service.stream_natCast _ i).trans htable) hdisk userBuf_ne_zero _⟩
  | write fd cnt =>
    obtain rfl := Option.some.inj hcall
    obtain ⟨-, -, -, -, hpos, hmax, -⟩ := h
    exact ⟨nofun, trivial, trivial, answers_write hk userBuf_ne_zero _ (by omega)
      (hq.room (by omega))⟩
  | done status => cases hcall
  | readFailed => exact h.elim

/-- The invariant and the bound, in every run of `main` from its start. -/
theorem ls_run (hblocks : BlocksOk img) (htypes : TypesOk img)
    (hdir : ∀ st, (diskOf img).lookup dotName = some st → st = .directory) {arg : CString}
    {k₀ : State} (hstart : Started L img arg k₀) {buf : Mem} {tr : List Event} {s : Ls}
    (ht : Trace (OnKernel ls k₀.counter L img) (⟨.openDir, buf⟩, k₀) tr (s, k)) :
    LsInv (diskOf img) k₀.counter k₀.entryCounter (s, serviceOf img k) (output k₀.counter tr) ∧
    tr.countP (ownCall k₀.counter) ≤ 2 + 2 * (listing (diskOf img) k₀.entryCounter).length ∧
    Sound L img k := by
  obtain ⟨hsound, hrun, -, -⟩ := hstart.service hblocks htypes
  obtain ⟨hsound', hserved⟩ := served hblocks htypes hsound ht
  have h0 : LsInv (diskOf img) k₀.counter k₀.entryCounter (⟨.openDir, buf⟩, serviceOf img k₀) [] :=
    ⟨hsound.pid_eq, Service.stream_one_of_fresh _ (by rw [hrun]), rfl, by rw [hrun], rfl⟩
  obtain ⟨hinv, hcount⟩ := (ls_keeps hdir).run hserved h0
  exact ⟨hinv, Nat.le_trans (Nat.le_add_left _ _) hcount, hsound'⟩

/-- **`ls` prints the directory**, where `"."` names one if it names anything. In any run of `main`
from its start, with keys between any two of its calls: what it has handed to `write` is a part of
the listing from its start on, one name a line; when it has returned, it is the whole of it and the
value is 0. The listing goes from where the scan stands to the first empty name. At the end of the
table the scan is at its start again, but after an empty name it stays behind that name: the next
listing begins there. Where nothing is typed ahead, `main` runs to its end. -/
theorem ls_prints (L : Layout) (img : Image) (hblocks : BlocksOk img) (htypes : TypesOk img)
    (hdir : ∀ st, (diskOf img).lookup dotName = some st → st = .directory) (arg : CString)
    (k₀ k : State) (hstart : Started L img arg k₀) (buf : Mem) (tr : List Event) (s : Ls)
    (ht : Trace (OnKernel ls k₀.counter L img) (⟨.openDir, buf⟩, k₀) tr (s, k)) :
    output k₀.counter tr <+: lsText (diskOf img) k₀.entryCounter ∧
    (∀ status, s.pc = .done status →
      output k₀.counter tr = lsText (diskOf img) k₀.entryCounter ∧ status = lsStatus (diskOf img) ∧
      k.entryCounter = lsScan (diskOf img) k₀.entryCounter) ∧
    tr.countP (ownCall k₀.counter) ≤ 2 + 2 * (listing (diskOf img) k₀.entryCounter).length ∧
    (NothingPending k → ∃ tr' s' k' status,
      Trace (OnKernel ls k₀.counter L img) (s, k) tr' (s', k') ∧ s'.pc = .done status) := by
  obtain ⟨hinv, hcount, hsound⟩ := ls_run hblocks htypes hdir hstart ht
  refine ⟨hinv.isPrefix, ?_, hcount, ?_⟩
  · intro status hdone
    obtain ⟨pc, buf'⟩ := s
    obtain rfl : pc = .done status := hdone
    obtain ⟨-, -, hstatus, htext, hscan⟩ := hinv
    exact ⟨htext, hstatus, hscan⟩
  · intro hq
    obtain ⟨tr', s', k', ht', hend, -⟩ := (ls_keeps hdir).completes hblocks htypes
      (fun hk hq hi hcall => LsInv.answers htypes hk hq hi hcall) le_rfl hsound hq hinv
    obtain ⟨pc, buf'⟩ := s'
    cases pc with
    | done status => exact ⟨tr', _, k', status, ht', rfl⟩
    | _ => cases hend

/-- On the small image, `ls` prints its three names, one a line. -/
theorem ls_prints_demo : ∃ tr s k,
    Trace (OnKernel ls 2 demoLayout (demoImage 1)) (⟨.openDir, fun _ => 0⟩, demoStarted shellName)
      tr (s, k) ∧ s.pc = .done 0 ∧
    output 2 tr = ascii ['.', '\n', 's', 'h', 'e', 'l', 'l', '\n', 't', 'o', 'r', 'n', '\n'] := by
  have hdot : (diskOf (demoImage 1)).lookup dotName = some .directory := by
    simp [diskOf, readDentryByName_dot, entryStream]
  have hdir : ∀ st, (diskOf (demoImage 1)).lookup dotName = some st → st = .directory :=
    fun st hst => (Option.some.inj (hdot.symm.trans hst)).symm
  obtain ⟨-, -, -, hfinish⟩ := ls_prints _ _ demoImage_blocksOk demoImage_typesOk hdir shellName _ _
    started_shellName (fun _ => 0) [] _ (.nil _)
  obtain ⟨tr, s, k, status, ht, hdone⟩ := hfinish rfl
  obtain ⟨-, hend, -, -⟩ := ls_prints _ _ demoImage_blocksOk demoImage_typesOk hdir shellName _ _
    started_shellName (fun _ => 0) tr s ht
  obtain ⟨hout, hzero, -⟩ := hend status hdone
  have hsome : (diskOf (demoImage 1)).lookup dotName ≠ none := by
    rw [hdot]
    exact Option.some_ne_none _
  refine ⟨tr, s, k, ht, ?_, ?_⟩
  · rw [hdone, hzero, lsStatus, if_neg hsome]
  · refine hout.trans ?_
    rw [lsText, if_neg hsome]
    decide

end MyOS.Programs
