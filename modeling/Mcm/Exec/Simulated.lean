/-
  Mcm/Exec/Simulated.lean --- `simulatedSystem`, the dry-run backend of
  `mcm-exec -n`, with its handles `readOnlyFile` and `discardWriter`.

  THE CODE.  The reads (`Lstat`, `Readlink`, `OwnerInfo`, `LookupUser`,
  `LookupGroup`) are those of `system.Local`.  `Mkdir`, `Remove`, `Symlink`,
  `Chmod` and `Chown` return `nil` and `Run` returns no output and no error.
  `CreateFile` fails if `os.Lstat` finds the path and otherwise returns a
  `discardWriter`.  `OpenFile` opens the path read-only with `os.Open` and
  wraps it in a `readOnlyFile`, which answers `Write` and `Truncate` itself,
  sets its `wrote` flag, and from then on refuses `Read` and `Seek`.

  THE MODEL.  The backend's state is the host and the handles it has returned.
  A handle method never receives the host to change: it reads it, as `os.File`
  reads do, and returns its new handle state.

  WHAT IS PROVED.  `simulated_leaves_host_unchanged`: after every sequence of
  operations on the backend and on its handles, in any order, the host is the
  one it started from, so no file changed and no child process was started;
  the same holds through `sysLogger`, as `main` arranges for `-n -s`.
-/
import Mcm.Exec.Logger

set_option autoImplicit false

namespace Mcm.Exec

open Mcm.Os

/-- A handle `simulatedSystem` returns. -/
inductive SimFile where
  /-- `&readOnlyFile{f: f}`, with its `wrote` field -/
  | readOnly (f : Os.File) (wrote : Bool)
  /-- `discardWriter{}` -/
  | discard
  deriving DecidableEq, Repr

namespace SimFile

/-- `ro.Read(p)` with `len(p) = n`. -/
def read (h : Host) (n : Nat) : SimFile → SimFile × Except Err Bytes
  | .readOnly f wrote =>
    if wrote then (.readOnly f wrote, .error (.text (ascii "read after simulated write")))
    else
      let r := f.read h n
      (.readOnly r.1 wrote, r.2)
  | .discard => (.discard, .error (badHandle (ascii "read")))

/-- `ro.Write(p)` and `discardWriter.Write(p)`: all of `p`, written nowhere. -/
def write (p : Bytes) : SimFile → SimFile × Except Err Nat
  | .readOnly f _ => (.readOnly f true, .ok p.length)
  | .discard => (.discard, .ok p.length)

/-- `ro.Seek(offset, whence)`. -/
def seek (h : Host) (offset : Int) (whence : Nat) : SimFile → SimFile × Except Err Int
  | .readOnly f wrote =>
    if wrote then (.readOnly f wrote, .error (.text (ascii "seek after simulated write")))
    else
      let r := f.seek h offset whence
      (.readOnly r.1 wrote, r.2)
  | .discard => (.discard, .error (badHandle (ascii "seek")))

/-- `ro.Truncate(size)`. -/
def truncate : SimFile → SimFile × Option Err
  | .readOnly f _ => (.readOnly f true, none)
  | .discard => (.discard, some (badHandle (ascii "truncate")))

/-- `ro.Close()`, which closes the `os.File`, and `discardWriter.Close()`. -/
def close : SimFile → SimFile × Option Err
  | .readOnly f wrote =>
    let r := f.close
    (.readOnly r.1 wrote, r.2)
  | .discard => (.discard, none)

end SimFile

/-- The dry-run backend's state: the host, and the handles it has returned. -/
structure SimState where
  host : Host
  files : List SimFile
  deriving DecidableEq, Repr

namespace SimState

variable (s : SimState)

/-- A handle method on handle `h`: it sees the host and changes only the handle. -/
def onFile {α : Type} (op : Bytes) (h : Nat) (k : SimFile → SimFile × α) (bad : Err → α) :
    SimState × α :=
  match s.files[h]? with
  | some f =>
    let r := k f
    ({ s with files := s.files.set h r.1 }, r.2)
  | none => (s, bad (badHandle op))

/-- A new handle. -/
def addFile (f : SimFile) : SimState × Except Err Nat :=
  ({ s with files := s.files ++ [f] }, .ok s.files.length)

end SimState

/-- `simulatedSystem{}`.  Its reads are `system.Local{}`'s. -/
def simulatedSystem : System SimState where
  lstat p s := (s, lstat s.host p)
  readlink p s := (s, readlink s.host p)
  mkdir _ _ s := (s, none)
  remove _ s := (s, none)
  symlink _ _ s := (s, none)
  createFile p _ s :=
    match lstat s.host p with
    | .ok _ => (s, .error (.path (ascii "open") p .exist))
    | .error e => if e.isNotExist then s.addFile .discard else (s, .error e)
  openFile p s :=
    match «open» s.host p with
    | .ok f => s.addFile (.readOnly f false)
    | .error e => (s, .error e)
  chmod _ _ s := (s, none)
  chown _ _ _ s := (s, none)
  ownerInfo i s := (s, localOwnerInfo i)
  lookupUser n s := (s, localLookupUser s.host n)
  lookupGroup n s := (s, localLookupGroup s.host n)
  run _ s := (s, .ok [])
  read h n s := s.onFile (ascii "read") h (SimFile.read s.host n) .error
  write h p s := s.onFile (ascii "write") h (SimFile.write p) .error
  seek h o w s := s.onFile (ascii "seek") h (SimFile.seek s.host o w) .error
  truncate h _ s := s.onFile (ascii "truncate") h SimFile.truncate some
  close h s := s.onFile (ascii "close") h SimFile.close some

/-! ## The host is never changed -/

theorem onFile_host {α : Type} (s : SimState) (op : Bytes) (h : Nat) (k : SimFile → SimFile × α)
    (bad : Err → α) : (s.onFile op h k bad).1.host = s.host := by
  unfold SimState.onFile
  split <;> rfl

theorem addFile_host (s : SimState) (f : SimFile) : (s.addFile f).1.host = s.host := rfl

/-- No operation of the dry-run backend, and no operation on its handles,
changes the host. -/
theorem simulated_call_host (c : Call) (s : SimState) : (simulatedSystem.call c s).1.host = s.host := by
  cases c with
  | createFile p m =>
    show (simulatedSystem.createFile p m s).1.host = s.host
    simp only [simulatedSystem]
    split
    · rfl
    · split <;> rfl
  | openFile p =>
    show (simulatedSystem.openFile p s).1.host = s.host
    simp only [simulatedSystem]
    split <;> rfl
  | read h n => exact onFile_host ..
  | write h p => exact onFile_host ..
  | seek h o w => exact onFile_host ..
  | truncate h n => exact onFile_host ..
  | close h => exact onFile_host ..
  | _ => rfl

/-- After every sequence of operations on `simulatedSystem` and on the handles
it returns, interleaved in any order, the host is unchanged: the same files
with the same contents, modes and owners, and no child process started.  The
same holds when `sysLogger` wraps the backend. -/
theorem simulated_leaves_host_unchanged (cs : List Call) (s : SimState) (l : Logger)
    (log : List Bytes) :
    (simulatedSystem.runAll cs s).1.host = s.host ∧
      ((sysLogger l simulatedSystem).runAll cs (s, log)).1.1.host = s.host := by
  have h := simulatedSystem.runAll_inv (·.host = s.host)
    (fun c s' hs' => (simulated_call_host c s').trans hs') cs s rfl
  exact ⟨h, (runAll_sysLogger l simulatedSystem cs s log).1 ▸ h⟩

end Mcm.Exec
