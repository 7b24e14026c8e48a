/-
  Mcm/Exec/System.lean --- the `system.System` interface and its live backend.

  THE INTERFACE.  Spec section 6 lists the operations every backend provides,
  and the handles two of them return: `CreateFile` a writer, `OpenFile` a file
  that can be read, written, sought and truncated.  A backend here is a state
  machine: `System σ` gives, for each method, what it does to the backend's
  state `σ` and what it returns.  The handles a backend has returned live in
  its state, numbered in the order it returned them, and the methods of a
  handle are methods of the backend that owns it: a wrapper never sees them.
  `Call` names one operation with its arguments, so that a run of any backend
  over any sequence of operations, handle operations interleaved, is
  `System.runAll`.

  THE LIVE BACKEND.  `system.Local` is not among the source files; `local` is
  modelled from the spec's table in section 6 and from the `os` calls it
  names.  What a child process does is not a property of the applier, nor is
  how far the storage lets a file grow: they are the parameters `child` and
  `st` of the backend.
-/
import Mcm.Os

set_option autoImplicit false

namespace Mcm.Exec

open Mcm.Os

/-! ## The interface -/

/-- A `system.System`, with the methods of the handles it returns. -/
structure System (σ : Type) where
  lstat : Bytes → σ → σ × Except Err FileInfo
  readlink : Bytes → σ → σ × Except Err Bytes
  mkdir : Bytes → FileMode → σ → σ × Option Err
  remove : Bytes → σ → σ × Option Err
  symlink : Bytes → Bytes → σ → σ × Option Err
  /-- the number of the handle it returns -/
  createFile : Bytes → FileMode → σ → σ × Except Err Nat
  openFile : Bytes → σ → σ × Except Err Nat
  chmod : Bytes → FileMode → σ → σ × Option Err
  chown : Bytes → Nat → Nat → σ → σ × Option Err
  ownerInfo : FileInfo → σ → σ × Except Err (Nat × Nat)
  lookupUser : Bytes → σ → σ × Except Err Nat
  lookupGroup : Bytes → σ → σ × Except Err Nat
  run : Cmd → σ → σ × Except Err Bytes
  /-- `Read` on handle `h` with a buffer of `n` bytes -/
  read : Nat → Nat → σ → σ × Except Err Bytes
  write : Nat → Bytes → σ → σ × Except Err Nat
  seek : Nat → Int → Nat → σ → σ × Except Err Int
  truncate : Nat → Int → σ → σ × Option Err
  close : Nat → σ → σ × Option Err

/-- One operation on a backend or on a handle it returned. -/
inductive Call where
  | lstat (path : Bytes)
  | readlink (path : Bytes)
  | mkdir (path : Bytes) (mode : FileMode)
  | remove (path : Bytes)
  | symlink (oldname newname : Bytes)
  | createFile (path : Bytes) (mode : FileMode)
  | openFile (path : Bytes)
  | chmod (path : Bytes) (mode : FileMode)
  | chown (path : Bytes) (uid gid : Nat)
  | ownerInfo (info : FileInfo)
  | lookupUser (name : Bytes)
  | lookupGroup (name : Bytes)
  | run (cmd : Cmd)
  | read (h n : Nat)
  | write (h : Nat) (p : Bytes)
  | seek (h : Nat) (offset : Int) (whence : Nat)
  | truncate (h : Nat) (size : Int)
  | close (h : Nat)
  deriving DecidableEq, Repr

/-- What an operation returns. -/
inductive Ret where
  | err (e : Option Err)
  | info (r : Except Err FileInfo)
  | bytes (r : Except Err Bytes)
  | num (r : Except Err Nat)
  | ids (r : Except Err (Nat × Nat))
  | offset (r : Except Err Int)
  deriving DecidableEq

namespace System

variable {σ : Type} (S : System σ)

/-- One operation. -/
def call : Call → σ → σ × Ret
  | .lstat p, s => (S.lstat p s).map id .info
  | .readlink p, s => (S.readlink p s).map id .bytes
  | .mkdir p m, s => (S.mkdir p m s).map id .err
  | .remove p, s => (S.remove p s).map id .err
  | .symlink o n, s => (S.symlink o n s).map id .err
  | .createFile p m, s => (S.createFile p m s).map id .num
  | .openFile p, s => (S.openFile p s).map id .num
  | .chmod p m, s => (S.chmod p m s).map id .err
  | .chown p u g, s => (S.chown p u g s).map id .err
  | .ownerInfo i, s => (S.ownerInfo i s).map id .ids
  | .lookupUser n, s => (S.lookupUser n s).map id .num
  | .lookupGroup n, s => (S.lookupGroup n s).map id .num
  | .run c, s => (S.run c s).map id .bytes
  | .read h n, s => (S.read h n s).map id .bytes
  | .write h p, s => (S.write h p s).map id .num
  | .seek h o w, s => (S.seek h o w s).map id .offset
  | .truncate h n, s => (S.truncate h n s).map id .err
  | .close h, s => (S.close h s).map id .err

/-- A sequence of operations: the final state and each result in order. -/
def runAll : List Call → σ → σ × List Ret
  | [], s => (s, [])
  | c :: cs, s =>
    let r := S.call c s
    let rs := runAll cs r.1
    (rs.1, r.2 :: rs.2)

/-- An invariant of every operation holds after every sequence. -/
theorem runAll_inv (P : σ → Prop) (h : ∀ c s, P s → P (S.call c s).1) :
    ∀ cs s, P s → P (S.runAll cs s).1
  | [], _, hs => hs
  | c :: cs, s, hs => runAll_inv P h cs _ (h c s hs)

end System

/-! ## `system.Local` -/

/-- The live backend's state: the host, and the files it has opened. -/
structure LocalState where
  host : Host
  files : List Os.File
  deriving DecidableEq, Repr

/-- The error for a handle number the backend never returned. -/
def badHandle (op : Bytes) : Err := .path op [] .badf

namespace LocalState

variable (s : LocalState)

/-- The state with the inode at `p` changed, or the error `op` reports for a
missing path. -/
def modify (op p : Bytes) (f : Inode → Inode) : LocalState × Option Err :=
  match s.host.fs.get p with
  | some i => ({ s with host := { s.host with fs := s.host.fs.set p (f i) } }, none)
  | none => (s, some (.path op p .notExist))

/-- The state with a new inode at `p`, or the error `op` reports if `p` exists. -/
def create (op p : Bytes) (n : Node) (mode : FileMode) : LocalState × Option Err :=
  match s.host.fs.get p with
  | some _ => (s, some (.path op p .exist))
  | none => ({ s with host := { s.host with fs := s.host.fs.set p ⟨n, mode, s.host.uid, s.host.gid⟩ } }, none)

/-- A handle method on file `h`. -/
def onFile {α : Type} (op : Bytes) (h : Nat) (k : Host → Os.File → Host × Os.File × Except Err α) :
    LocalState × Except Err α :=
  match s.files[h]? with
  | some f =>
    let r := k s.host f
    ({ host := r.1, files := s.files.set h r.2.1 }, r.2.2)
  | none => (s, .error (badHandle op))

/-- A new handle. -/
def addFile (f : Os.File) : LocalState × Except Err Nat :=
  ({ s with files := s.files ++ [f] }, .ok s.files.length)

end LocalState

/-! The methods of `system.Local` that only read the host; the simulated
backend calls them too. -/

/-- Modelled from the spec: `Local.OwnerInfo`, the owner recorded in the metadata. -/
def localOwnerInfo (i : FileInfo) : Except Err (Nat × Nat) := .ok (i.uid, i.gid)

/-- Modelled from the spec: `Local.LookupUser`. -/
def localLookupUser (h : Host) (name : Bytes) : Except Err Nat :=
  match h.users.lookup name with
  | some u => .ok u
  | none => .error (.unknownUser name)

/-- Modelled from the spec: `Local.LookupGroup`. -/
def localLookupGroup (h : Host) (name : Bytes) : Except Err Nat :=
  match h.groups.lookup name with
  | some g => .ok g
  | none => .error (.unknownGroup name)

/-- Modelled from the spec: `system.Local`, the live backend; `st` is the
storage its files are written to, and `child` is what the command run does to
the host and what it outputs.  `Lstat` and `Readlink` are `os.Lstat` and
`os.Readlink`. -/
def «local» (st : Storage) (child : Cmd → Host → Host × Except Err Bytes) : System LocalState where
  lstat p s := (s, lstat s.host p)
  readlink p s := (s, readlink s.host p)
  mkdir p m s := s.create (ascii "mkdir") p .dir m
  remove p s :=
    match s.host.fs.get p with
    | none => (s, some (.path (ascii "remove") p .notExist))
    | some _ =>
      if s.host.fs.any (fun e => (p ++ ascii "/").isPrefixOf e.1) then
        (s, some (.path (ascii "remove") p .notEmpty))
      else ({ s with host := { s.host with fs := s.host.fs.erase p } }, none)
  symlink o n s := s.create (ascii "symlink") n (.symlink o) modePerm
  createFile p m s :=
    match s.create (ascii "open") p (.file []) m with
    | (s', none) => s'.addFile ⟨p, false, true, 0, false⟩
    | (s', some e) => (s', .error e)
  openFile p s :=
    match openExisting s.host (ascii "open") p true true with
    | .ok f => s.addFile f
    | .error e => (s, .error e)
  chmod p m s := s.modify (ascii "chmod") p ({ · with mode := m })
  chown p u g s := s.modify (ascii "chown") p ({ · with uid := u, gid := g })
  ownerInfo i s := (s, localOwnerInfo i)
  lookupUser n s := (s, localLookupUser s.host n)
  lookupGroup n s := (s, localLookupGroup s.host n)
  run c s :=
    let r := child c { s.host with started := s.host.started ++ [c] }
    ({ s with host := r.1 }, r.2)
  read h n s := s.onFile (ascii "read") h fun host f => let r := f.read host n; (host, r)
  write h p s := s.onFile (ascii "write") h fun host f => f.write st host p
  seek h o w s := s.onFile (ascii "seek") h fun host f => let r := f.seek host o w; (host, r)
  truncate h n s :=
    let r := s.onFile (ascii "truncate") h fun host f =>
      let t := f.truncate st host n
      (t.1, f, match t.2 with | some e => .error e | none => .ok ())
    (r.1, match r.2 with | .error e => some e | .ok () => none)
  close h s :=
    let r := s.onFile (ascii "close") h fun host f =>
      let c := f.close
      (host, c.1, match c.2 with | some e => .error e | none => .ok ())
    (r.1, match r.2 with | .error e => some e | .ok () => none)

end Mcm.Exec
