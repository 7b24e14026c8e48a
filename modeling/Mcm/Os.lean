/-
  Mcm/Os.lean --- the host an applier runs on, as Go's `os` package shows it.

  SOURCE.  None of this is in the repository.  It is the operating system seen
  through Go's `os` package, modelled from the Go documentation and POSIX as
  far as the system backends of `mcm-exec` reach it: `os.Lstat`, `os.Open`,
  and the methods of `*os.File`.

  THE MODEL.  The filesystem is a finite map from paths to inodes, kept as an
  association list, every path naming its own inode; `walk` looks a path up
  on it as the kernel would, as far as a flat map can.  The host
  also holds its user and group databases, the ids the process runs as, and
  the commands whose child processes have been started, in order.  An open
  file is an `os.File`: the path it was opened at, whether it may be read and
  written, its offset, and whether it is closed.  Reading, seeking and
  closing never change the host; writing and truncating change the content of
  the file at the handle's path.  Offsets are `Int`, with no 64-bit bound.

  THE STORAGE.  How far a file can grow is not a property of the applier: a
  `Storage` says, for each host and path, the size the file there may reach
  (the smaller of the process's file size limit and what the free space
  allows) and which of the two it is.  A `Write` that reaches that size writes
  what fits and fails with `EFBIG` or `ENOSPC`; a `Truncate` that would grow
  the file past it fails.

  SCOPE.  The filesystem is flat: a path is a byte string, and two paths
  never share a file (there are no hard links).  `walk` is the kernel's
  lookup of a path over it: a path too long for `PATH_MAX` or `NAME_MAX`, or
  one with a missing or non-directory directory above it, fails; a path that
  is not canonical (`/a/./b`, `/a//b`, a relative path) or has a symbolic
  link above it is outside the model, since resolving it would need the tree
  the flat map does not keep.  Permissions are not modelled: the process may
  do everything, as root may.
-/
import Mcm.Basic

set_option autoImplicit false

namespace Mcm.Os

/-! ## Inodes -/

/-- `os.FileMode`: permission bits in the low nine, type and special bits above. -/
abbrev FileMode := UInt32

/-- `os.ModeDir`. -/
def modeDir : FileMode := 0x80000000
/-- `os.ModeSymlink`. -/
def modeSymlink : FileMode := 0x08000000
/-- `os.ModeSetuid`. -/
def modeSetuid : FileMode := 0x00800000
/-- `os.ModeSetgid`. -/
def modeSetgid : FileMode := 0x00400000
/-- `os.ModeSticky`. -/
def modeSticky : FileMode := 0x00100000
/-- `os.ModePerm`. -/
def modePerm : FileMode := 0o777

/-- What a path holds. -/
inductive Node where
  | file (content : Bytes)
  | dir
  | symlink (target : Bytes)
  deriving DecidableEq, Repr

/-- An inode: what it holds, its permission and special bits, its owner. -/
structure Inode where
  node : Node
  mode : FileMode
  uid : Nat
  gid : Nat
  deriving DecidableEq, Repr

/-- The filesystem: each path with its inode. -/
abbrev FS := List (Bytes × Inode)

namespace FS

/-- The inode at a path. -/
def get (fs : FS) (p : Bytes) : Option Inode := fs.lookup p

/-- The filesystem with the inode at `p` set to `i`. -/
def set (fs : FS) (p : Bytes) (i : Inode) : FS :=
  if fs.any (·.1 == p) then fs.map (fun e => if e.1 = p then (p, i) else e) else fs ++ [(p, i)]

/-- The filesystem without path `p`. -/
def erase (fs : FS) (p : Bytes) : FS := fs.filter (·.1 != p)

theorem lookup_map_set (fs : FS) (p q : Bytes) (i : Inode) :
    (fs.map (fun e => if e.1 = p then (p, i) else e)).lookup q =
      if q = p then (if fs.any (·.1 == p) then some i else none) else fs.lookup q := by
  induction fs with
  | nil => simp
  | cons e fs ih =>
    obtain ⟨k, v⟩ := e
    rw [List.map_cons]
    by_cases hk : k = p
    · subst hk
      rw [if_pos rfl, List.lookup_cons, List.lookup_cons, ih]
      by_cases hq : q = k
      · simp [hq]
      · simp only [beq_eq_false_iff_ne.mpr hq, if_neg hq]
    · rw [if_neg hk, List.lookup_cons, List.lookup_cons, ih]
      by_cases hq : q = p
      · subst hq
        have h1 : (q == k) = false := by simp [Ne.symm hk]
        have h2 : ((k, v).1 == q) = false := by simp [hk]
        simp only [h1, List.any_cons, h2, Bool.false_or, if_pos rfl]
      · simp [hq]

theorem lookup_eq_none (fs : FS) (p : Bytes) (h : ¬(fs.any (·.1 == p)) = true) :
    fs.lookup p = none := by
  induction fs with
  | nil => rfl
  | cons e fs ih =>
    rw [List.any_cons, Bool.or_eq_true, not_or] at h
    rw [List.lookup_cons]
    split
    · next he =>
      have hp : p = e.1 := by simpa using he
      exact absurd (by simp [hp]) h.1
    · exact ih h.2

/-- A path holds what was set last, and every other path what it held. -/
@[simp] theorem get_set (fs : FS) (p q : Bytes) (i : Inode) :
    (fs.set p i).get q = if q = p then some i else fs.get q := by
  unfold set get
  split
  next h => rw [lookup_map_set]; simp [h]
  next h =>
    rw [List.lookup_append]
    by_cases hq : q = p
    · subst hq; simp [lookup_eq_none fs q h, List.lookup_cons]
    · rw [List.lookup_cons, if_neg hq]
      split
      · next he => exact absurd (by simpa using he) hq
      · exact Option.or_none

/-- After `set`, the path is there. -/
theorem any_set (fs : FS) (p : Bytes) (i : Inode) : (fs.set p i).any (·.1 == p) = true := by
  unfold set
  split
  · next h =>
    obtain ⟨e, he, hp⟩ := List.any_eq_true.mp h
    have hp' : e.1 = p := by simpa using hp
    exact List.any_eq_true.mpr ⟨_, List.mem_map_of_mem _ he, by simp [hp']⟩
  · simp

/-- Setting a path twice is setting it to the second inode. -/
theorem set_set (fs : FS) (p : Bytes) (i j : Inode) : (fs.set p i).set p j = fs.set p j := by
  rw [set, if_pos (any_set fs p i)]
  unfold set
  by_cases h : fs.any (·.1 == p) = true
  · rw [if_pos h, if_pos h, List.map_map]
    refine List.map_congr_left fun e _ => ?_
    by_cases he : e.1 = p <;> simp [he]
  · rw [if_neg h, if_neg h, List.map_append, List.map_singleton, if_pos rfl]
    congr 1
    refine (List.map_congr_left fun e he => ?_).trans (List.map_id fs)
    have hne : e.1 ≠ p := fun he' => h (List.any_eq_true.mpr ⟨e, he, by simp [he']⟩)
    simp [hne]

end FS

/-- `system.Cmd`, through the one field the code reads. -/
structure Cmd where
  args : List Bytes
  deriving DecidableEq, Repr

/-- The host. -/
structure Host where
  fs : FS
  /-- the user database: name and uid -/
  users : List (Bytes × Nat)
  /-- the group database: name and gid -/
  groups : List (Bytes × Nat)
  /-- the ids the process runs as: the owner of what it creates -/
  uid : Nat
  gid : Nat
  /-- the child processes started so far -/
  started : List Cmd
  deriving DecidableEq, Repr

/-! ## Resolving a path

The kernel resolves a path component by component, following symbolic links.
`walk` is that lookup on the flat filesystem, as far as the flat one can say
what it finds: the path must be absolute with nothing to normalise, and every
directory above it must be there.  A symbolic link above the path, or a path
the kernel would normalise, is outside the model. -/

/-- The components of `p` after its leading `/`. -/
def components (p : Bytes) : List Bytes := (p.splitOn slash).tail

/-- A path the kernel reads as it is written: absolute, with no NUL byte, and
with at least one component, each nonempty and neither `.` nor `..`. -/
def isCanonical (p : Bytes) : Bool :=
  p.head? == some slash && !p.contains nul &&
    (components p).all fun c => !c.isEmpty && c != ascii "." && c != ascii ".."

/-- `ENAMETOOLONG`: the path with its terminating NUL passes `PATH_MAX` (4096
bytes), or a component passes `NAME_MAX` (255 bytes). -/
def tooLong (p : Bytes) : Bool := 4096 ≤ p.length || (p.splitOn slash).any (255 < ·.length)

/-- The directories above `p`, from the top: `p` up to each `/` but the
first. -/
def ancestors (p : Bytes) : List Bytes :=
  (List.range p.length).filterMap fun i => if 0 < i ∧ p[i]? = some slash then some (p.take i) else none

/-- What the kernel's lookup of a path meets. -/
inductive Walk where
  /-- every directory above the path is there; what the path holds -/
  | found (i : Option Inode)
  /-- the lookup fails: the path is too long, or a directory above it is
  missing or not a directory (`ENOENT`, `ENOTDIR`) -/
  | broken
  /-- a symbolic link above the path, or a path the kernel would normalise -/
  | unmodelled
  deriving DecidableEq, Repr

/-- The lookup through the directories `as` above `p`, from the top. -/
def walkAbove (h : Host) (p : Bytes) : List Bytes → Walk
  | [] => .found (h.fs.get p)
  | a :: as =>
    match h.fs.get a with
    | some ⟨.dir, _, _, _⟩ => walkAbove h p as
    | some ⟨.symlink _, _, _, _⟩ => .unmodelled
    | _ => .broken

/-- The kernel's lookup of `p`. -/
def walk (h : Host) (p : Bytes) : Walk :=
  if tooLong p then .broken
  else if isCanonical p then walkAbove h p (ancestors p)
  else .unmodelled

/-- The kernel finds `p` where the flat filesystem has it: `p` is canonical and
not too long, and every directory above it is there. -/
structure Reachable (h : Host) (p : Bytes) : Prop where
  short : tooLong p = false
  canonical : isCanonical p = true
  above : ∀ a ∈ ancestors p, ∃ m u g, h.fs.get a = some ⟨.dir, m, u, g⟩

section Walk

variable {h h' : Host} {p : Bytes}

theorem walkAbove_of_dirs : ∀ {as : List Bytes},
    (∀ a ∈ as, ∃ m u g, h.fs.get a = some ⟨.dir, m, u, g⟩) → walkAbove h p as = .found (h.fs.get p)
  | [], _ => rfl
  | a :: as, hd => by
    obtain ⟨m, u, g, ha⟩ := hd a (List.mem_cons_self a as)
    rw [walkAbove, ha]
    exact walkAbove_of_dirs fun b hb => hd b (List.mem_cons_of_mem a hb)

theorem dirs_of_walkAbove {i : Option Inode} : ∀ {as : List Bytes}, walkAbove h p as = .found i →
    (∀ a ∈ as, ∃ m u g, h.fs.get a = some ⟨.dir, m, u, g⟩) ∧ i = h.fs.get p
  | [], hw => ⟨fun _ h => (nomatch h), (Walk.found.inj hw).symm⟩
  | a :: as, hw => by
    rw [walkAbove] at hw
    rcases ha : h.fs.get a with _ | ⟨_ | _ | _, m, u, g⟩ <;> rw [ha] at hw <;> try cases hw
    obtain ⟨hd, hi⟩ := dirs_of_walkAbove hw
    exact ⟨fun b hb => (List.mem_cons.mp hb).elim (fun e => e ▸ ⟨m, u, g, ha⟩) (hd b), hi⟩

theorem walk_of_reachable (hr : Reachable h p) : walk h p = .found (h.fs.get p) := by
  rw [walk, if_neg (by simp [hr.short]), if_pos hr.canonical, walkAbove_of_dirs hr.above]

theorem reachable_of_walk {i : Option Inode} (hw : walk h p = .found i) :
    Reachable h p ∧ i = h.fs.get p := by
  unfold walk at hw
  split at hw
  · cases hw
  · split at hw
    · rename_i hl hc
      obtain ⟨hd, hi⟩ := dirs_of_walkAbove hw
      exact ⟨⟨by simpa using hl, hc, hd⟩, hi⟩
    · cases hw

theorem nul_not_mem_of_canonical (hc : isCanonical p = true) : nul ∉ p := fun hm => by
  simp [isCanonical] at hc
  exact hc.1.2 hm

/-- A path stays reachable on a host that keeps every directory. -/
theorem Reachable.mono (hr : Reachable h p)
    (hd : ∀ a m u g, h.fs.get a = some ⟨.dir, m, u, g⟩ → h'.fs.get a = some ⟨.dir, m, u, g⟩) :
    Reachable h' p :=
  ⟨hr.short, hr.canonical, fun a ha => by
    obtain ⟨m, u, g, hg⟩ := hr.above a ha
    exact ⟨m, u, g, hd a m u g hg⟩⟩

end Walk

example : ancestors (ascii "/d/e/f") = [ascii "/d", ascii "/d/e"] := by decide
example : isCanonical (ascii "/d/e") = true ∧ isCanonical (ascii "/d/./e") = false ∧
    isCanonical (ascii "/d//e") = false ∧ isCanonical (ascii "--help") = false := by decide

/-! ## Errors -/

/-- The `syscall.Errno` values and `os` sentinels the model produces. -/
inductive Errno where
  | exist
  | notExist
  | inval
  | isDir
  | badf
  | notEmpty
  /-- `os.ErrClosed` -/
  | closed
  /-- `EFBIG`: the file would pass the file size limit -/
  | fbig
  /-- `ENOSPC`: no space left on the device -/
  | noSpc
  deriving DecidableEq, Repr

/-- A Go `error`. -/
inductive Err where
  /-- `*os.PathError`, printed `op path: err` -/
  | path (op p : Bytes) (e : Errno)
  /-- `io.EOF` -/
  | eof
  /-- `errors.New(s)`, or an error known only by its text -/
  | text (s : Bytes)
  /-- `user.UnknownUserError` -/
  | unknownUser (name : Bytes)
  /-- `user.UnknownGroupError` -/
  | unknownGroup (name : Bytes)
  deriving DecidableEq, Repr

/-- `os.IsNotExist(err)`. -/
def Err.isNotExist : Err → Bool
  | .path _ _ .notExist => true
  | _ => false

/-- The storage under the host, as far as a write can meet its end. -/
structure Storage where
  /-- the size the file at a path may reach on the host -/
  room : Host → Bytes → Nat
  /-- that size is the file size limit, not the free space -/
  sizeLimited : Host → Bytes → Bool

/-- The error of a write that reaches the end of the room. -/
def Storage.full (st : Storage) (h : Host) (p : Bytes) : Errno :=
  if st.sizeLimited h p then .fbig else .noSpc

/-- The errors a write gets from the storage. -/
def Errno.isFull : Errno → Bool
  | .fbig | .noSpc => true
  | _ => false

@[simp] theorem Storage.full_isFull (st : Storage) (h : Host) (p : Bytes) : (st.full h p).isFull := by
  unfold Storage.full
  split <;> rfl

/-! ## Metadata -/

/-- An `os.FileInfo`, through what the backends read of it. -/
structure FileInfo where
  size : Nat
  /-- permission bits, with `modeDir` or `modeSymlink` for the type -/
  mode : FileMode
  /-- from `Sys().(*syscall.Stat_t)` -/
  uid : Nat
  gid : Nat
  deriving DecidableEq, Repr

/-- The metadata of an inode. -/
def Inode.info (i : Inode) : FileInfo :=
  match i.node with
  | .file c => ⟨c.length, i.mode, i.uid, i.gid⟩
  | .dir => ⟨0, i.mode ||| modeDir, i.uid, i.gid⟩
  | .symlink t => ⟨t.length, i.mode ||| modeSymlink, i.uid, i.gid⟩

/-- `os.Lstat(path)`. -/
def lstat (h : Host) (path : Bytes) : Except Err FileInfo :=
  match h.fs.get path with
  | some i => .ok i.info
  | none => .error (.path (ascii "lstat") path .notExist)

/-- `os.Readlink(path)`. -/
def readlink (h : Host) (path : Bytes) : Except Err Bytes :=
  match h.fs.get path with
  | some ⟨.symlink t, _, _, _⟩ => .ok t
  | some _ => .error (.path (ascii "readlink") path .inval)
  | none => .error (.path (ascii "readlink") path .notExist)

/-! ## Open files -/

/-- An `*os.File`. -/
structure File where
  path : Bytes
  canRead : Bool
  canWrite : Bool
  offset : Nat
  closed : Bool
  deriving DecidableEq, Repr

/-- `os.OpenFile(path, flag, 0)` on an existing path, with the access `flag`
asks for; a directory cannot be opened for writing. -/
def openExisting (h : Host) (op path : Bytes) (canRead canWrite : Bool) : Except Err File :=
  match h.fs.get path with
  | none => .error (.path op path .notExist)
  | some ⟨.dir, _, _, _⟩ =>
    if canWrite then .error (.path op path .isDir) else .ok ⟨path, canRead, canWrite, 0, false⟩
  | some _ => .ok ⟨path, canRead, canWrite, 0, false⟩

/-- `os.Open(path)`: read-only. -/
def «open» (h : Host) (path : Bytes) : Except Err File :=
  openExisting h (ascii "open") path true false

/-- The content of the regular file at a path. -/
def content (h : Host) (path : Bytes) : Option Bytes :=
  match h.fs.get path with
  | some ⟨.file c, _, _, _⟩ => some c
  | _ => none

/-- `c` with `p` written at offset `off`, a gap filled with zero bytes. -/
def writeAt (c : Bytes) (off : Nat) (p : Bytes) : Bytes :=
  c.take off ++ List.replicate (off - c.length) 0 ++ p ++ c.drop (off + p.length)

/-- `c` cut or zero-extended to `n` bytes. -/
def resize (c : Bytes) (n : Nat) : Bytes := c.take n ++ List.replicate (n - c.length) 0

/-- The host with the content of the regular file at `path` replaced. -/
def setContent (h : Host) (path : Bytes) (c : Bytes) : Host :=
  match h.fs.get path with
  | some i => { h with fs := h.fs.set path { i with node := .file c } }
  | none => h

/-- `os.OpenFile` on a regular file opens it at offset 0. -/
theorem openExisting_of_content {h : Host} {op p c : Bytes} (hc : content h p = some c)
    (r w : Bool) : openExisting h op p r w = .ok ⟨p, r, w, 0, false⟩ := by
  unfold content at hc
  unfold openExisting
  split at hc
  · next hi => rw [hi]
  · cases hc

/-- A regular file stays regular when its content is replaced. -/
theorem content_setContent {h : Host} {p c : Bytes} (hc : content h p = some c) (c' : Bytes) :
    content (setContent h p c') p = some c' := by
  unfold content at hc ⊢
  unfold setContent
  split at hc
  · next hi => simp [hi]
  · cases hc

namespace File

/-- The check every method makes first. -/
def usable (f : File) (op : Bytes) (allowed : Bool) : Option Err :=
  if f.closed then some (.path op f.path .closed)
  else if !allowed then some (.path op f.path .badf)
  else none

/-- `f.Read(p)` with `len(p) = n`: the bytes read. -/
def read (h : Host) (f : File) (n : Nat) : File × Except Err Bytes :=
  match f.usable (ascii "read") f.canRead, content h f.path with
  | some e, _ => (f, .error e)
  | none, none => (f, .error (.path (ascii "read") f.path .isDir))
  | none, some c =>
    if n = 0 then (f, .ok [])
    else if c.length ≤ f.offset then (f, .error .eof)
    else
      let d := (c.drop f.offset).take n
      ({ f with offset := f.offset + d.length }, .ok d)

/-- `f.Write(p)`: the count written.  The bytes that fit below the storage's
room are written and the offset moves past them; if some did not fit, the
write fails with the storage's error (Go's `n` beside the error is dropped).
Nothing written leaves the file as it was. -/
def write (st : Storage) (h : Host) (f : File) (p : Bytes) : Host × File × Except Err Nat :=
  match f.usable (ascii "write") f.canWrite, content h f.path with
  | some e, _ => (h, f, .error e)
  | none, none => (h, f, .error (.path (ascii "write") f.path .isDir))
  | none, some c =>
    let n := min p.length (st.room h f.path - f.offset)
    (if n = 0 then h else setContent h f.path (writeAt c f.offset (p.take n)),
      { f with offset := f.offset + n },
      if n = p.length then .ok n else .error (.path (ascii "write") f.path (st.full h f.path)))

/-- `f.Seek(offset, whence)`: the new offset. -/
def seek (h : Host) (f : File) (offset : Int) (whence : Nat) : File × Except Err Int :=
  match f.usable (ascii "seek") true with
  | some e => (f, .error e)
  | none =>
    let size := ((content h f.path).getD []).length
    let base : Option Int :=
      if whence = 0 then some 0 else if whence = 1 then some f.offset
      else if whence = 2 then some size else none
    match base with
    | some b =>
      if b + offset < 0 then (f, .error (.path (ascii "seek") f.path .inval))
      else ({ f with offset := (b + offset).toNat }, .ok (b + offset))
    | none => (f, .error (.path (ascii "seek") f.path .inval))

/-- `f.Truncate(size)`.  Growing the file past the storage's room fails with
the storage's error; cutting it never does. -/
def truncate (st : Storage) (h : Host) (f : File) (size : Int) : Host × Option Err :=
  match f.usable (ascii "truncate") f.canWrite, content h f.path with
  | some e, _ => (h, some e)
  | none, none => (h, some (.path (ascii "truncate") f.path .isDir))
  | none, some c =>
    if size < 0 then (h, some (.path (ascii "truncate") f.path .inval))
    else if c.length < size.toNat ∧ st.room h f.path < size.toNat then
      (h, some (.path (ascii "truncate") f.path (st.full h f.path)))
    else (setContent h f.path (resize c size.toNat), none)

/-- `f.Close()`. -/
def close (f : File) : File × Option Err :=
  if f.closed then (f, some (.path (ascii "close") f.path .closed)) else ({ f with closed := true }, none)

/-! ### What reading and seeking depend on -/

/-- `Read` never looks at write access. -/
theorem read_withoutWrite (h : Host) (f : File) (n : Nat) (b : Bool) :
    ({ f with canWrite := b } : File).read h n =
      ({ (f.read h n).1 with canWrite := b }, (f.read h n).2) := by
  unfold read usable
  dsimp only
  split <;> (try split_ifs) <;> rfl

/-- `Seek` never looks at write access. -/
theorem seek_withoutWrite (h : Host) (f : File) (o : Int) (w : Nat) (b : Bool) :
    ({ f with canWrite := b } : File).seek h o w =
      ({ (f.seek h o w).1 with canWrite := b }, (f.seek h o w).2) := by
  unfold seek usable
  dsimp only
  split <;> (try split) <;> (try split_ifs) <;> rfl

/-- `Read` moves the offset and nothing else. -/
theorem read_fst (h : Host) (f : File) (n : Nat) : ∃ o, (f.read h n).1 = { f with offset := o } := by
  unfold read
  split
  · exact ⟨f.offset, rfl⟩
  · exact ⟨f.offset, rfl⟩
  · split
    · exact ⟨f.offset, rfl⟩
    · split
      · exact ⟨f.offset, rfl⟩
      · exact ⟨_, rfl⟩

/-- `Seek` moves the offset and nothing else. -/
theorem seek_fst (h : Host) (f : File) (o : Int) (w : Nat) :
    ∃ o', (f.seek h o w).1 = { f with offset := o' } := by
  unfold seek
  split
  · exact ⟨f.offset, rfl⟩
  · dsimp only
    split
    · split
      · exact ⟨f.offset, rfl⟩
      · exact ⟨_, rfl⟩
    · exact ⟨f.offset, rfl⟩

end File

end Mcm.Os
