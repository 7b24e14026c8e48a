/-
  Mcm/Exec/Logger.lean --- `sysLogger`, the wrapper `mcm-exec -s` puts around
  its backend.

  THE CODE.  `sysLogger` embeds a `system.System` and overrides seven of its
  methods: `Mkdir`, `Remove`, `Symlink`, `Chmod`, `Chown`, `CreateFile` and
  `Run` each write one `Infof` line and then call the embedded method with the
  same arguments, returning what it returns.  Every other method, `OpenFile`
  among them, is the embedded one, and the handles the embedded system returns
  reach the caller unwrapped, so their `Write` and `Truncate` write no line.

  THE MODEL.  The wrapper's state is the embedded system's state together with
  the lines written to standard error so far.  A line is the text `Infof`
  formats; the head it puts before the text (program name, wall-clock time,
  severity) is left out.

  WHAT IS PROVED.  `sysLogger_call`: every operation, handle operations
  included, changes the embedded state and returns exactly as the embedded
  system does, and adds at most one line; `runAll_sysLogger` extends this to
  every sequence.  `sysLogger_log`: over every sequence the log gains exactly
  the lines of the overridden operations, in order, and none with `-q`.
  `sysLogger_openFile_write_unlogged`: through the wrapper of the live
  backend, a file opened with `OpenFile` is rewritten and no line is logged.

  `logger.Error` is modelled with its head (`writeLogHead`, the time given
  already formatted) as the writes it makes to standard error.
  `error_ends_with_newline_iff`: the record ends with a newline exactly when
  the logger is quiet or the command output it carries is empty or ends with
  one; the copy of the output meant to add the missing newline is dropped.
-/
import Mcm.Exec.System

set_option autoImplicit false

namespace Mcm.Exec

open Mcm.Os

/-- The `*logger` of `mcm-exec`; `-q` sets `quiet`. -/
structure Logger where
  quiet : Bool
  deriving DecidableEq, Repr

/-- `l.Infof(ctx, format, args...)`, given the formatted text. -/
def Logger.infof (l : Logger) (line : Bytes) (log : List Bytes) : List Bytes :=
  if l.quiet then log else log ++ [line]

/-- `fmt`'s `%d`. -/
def fmtDecimal (n : Nat) : Bytes := ascii (toString n)

/-- `fmt`'s `%4o`: octal, padded on the left with spaces to four columns. -/
def fmtOctal4 (n : Nat) : Bytes :=
  let d := (Nat.toDigits 8 n).map (fun c => c.toNat.toUInt8)
  List.replicate (4 - d.length) space ++ d

/-- The bits `sysLogger.Chmod` prints: `mode & os.ModePerm`, with the sticky,
setgid and setuid bits as `01000`, `02000` and `04000`. -/
def chmodBits (mode : FileMode) : Nat :=
  let m := (mode &&& modePerm).toNat
  let m := if mode &&& modeSticky ≠ 0 then m ||| 0o1000 else m
  let m := if mode &&& modeSetgid ≠ 0 then m ||| 0o2000 else m
  if mode &&& modeSetuid ≠ 0 then m ||| 0o4000 else m

example : fmtOctal4 (chmodBits (0o755 ||| modeSetuid)) = ascii "4755" := by decide

/-! ## The wrapper -/

variable {σ : Type}

/-- A method `sysLogger` does not override: the embedded one. -/
def inherited {α : Type} (f : σ → σ × α) (s : σ × List Bytes) : (σ × List Bytes) × α :=
  let r := f s.1
  ((r.1, s.2), r.2)

/-- A method `sysLogger` overrides: one `Infof` line, then the embedded method. -/
def logged {α : Type} (l : Logger) (line : Bytes) (f : σ → σ × α) (s : σ × List Bytes) :
    (σ × List Bytes) × α :=
  let r := f s.1
  ((r.1, l.infof line s.2), r.2)

namespace SysLogger

variable (l : Logger) (S : System σ)

/-- `sysLogger.Mkdir`. -/
def mkdir (path : Bytes) (mode : FileMode) := logged l (ascii "mkdir " ++ path) (S.mkdir path mode)

/-- `sysLogger.Remove`. -/
def remove (path : Bytes) := logged l (ascii "rm " ++ path) (S.remove path)

/-- `sysLogger.Symlink`. -/
def symlink (oldname newname : Bytes) :=
  logged l (ascii "ln -s " ++ oldname ++ ascii " " ++ newname) (S.symlink oldname newname)

/-- `sysLogger.Chmod`. -/
def chmod (path : Bytes) (mode : FileMode) :=
  logged l (ascii "chmod " ++ fmtOctal4 (chmodBits mode) ++ ascii " " ++ path) (S.chmod path mode)

/-- `sysLogger.Chown`. -/
def chown (path : Bytes) (uid gid : Nat) :=
  logged l (ascii "chown " ++ fmtDecimal uid ++ ascii ":" ++ fmtDecimal gid ++ ascii " " ++ path)
    (S.chown path uid gid)

/-- `sysLogger.CreateFile`. -/
def createFile (path : Bytes) (mode : FileMode) :=
  logged l (ascii "create file " ++ path) (S.createFile path mode)

/-- `sysLogger.Run`: the line joins the arguments with spaces. -/
def run (cmd : Cmd) := logged l (ascii "exec " ++ (ascii " ").intercalate cmd.args) (S.run cmd)

end SysLogger

/-- `sysLogger{System: S, log: l}`. -/
def sysLogger (l : Logger) (S : System σ) : System (σ × List Bytes) where
  lstat p := inherited (S.lstat p)
  readlink p := inherited (S.readlink p)
  mkdir := SysLogger.mkdir l S
  remove := SysLogger.remove l S
  symlink := SysLogger.symlink l S
  createFile := SysLogger.createFile l S
  openFile p := inherited (S.openFile p)
  chmod := SysLogger.chmod l S
  chown := SysLogger.chown l S
  ownerInfo i := inherited (S.ownerInfo i)
  lookupUser n := inherited (S.lookupUser n)
  lookupGroup n := inherited (S.lookupGroup n)
  run := SysLogger.run l S
  read h n := inherited (S.read h n)
  write h p := inherited (S.write h p)
  seek h o w := inherited (S.seek h o w)
  truncate h n := inherited (S.truncate h n)
  close h := inherited (S.close h)

/-! ## Forwarding -/

/-- A method of the wrapper forwards to `f`: the embedded state and the result
are `f`'s, and at most one line is added. -/
def Forwards {α : Type} (m : σ × List Bytes → (σ × List Bytes) × α) (f : σ → σ × α) : Prop :=
  ∀ s log, ∃ extra : List Bytes, extra.length ≤ 1 ∧ m (s, log) = (((f s).1, log ++ extra), (f s).2)

theorem inherited_forwards {α : Type} (f : σ → σ × α) : Forwards (inherited f) f :=
  fun _ log => ⟨[], Nat.zero_le _, by simp [inherited]⟩

theorem logged_forwards {α : Type} (l : Logger) (line : Bytes) (f : σ → σ × α) :
    Forwards (logged l line f) f := fun _ log => by
  by_cases hq : l.quiet
  · exact ⟨[], Nat.zero_le _, by simp [logged, Logger.infof, hq]⟩
  · exact ⟨[line], le_refl _, by simp [logged, Logger.infof, hq]⟩

/-- Forwarding survives packing the result into a `Ret`. -/
theorem Forwards.map {α : Type} {m : σ × List Bytes → (σ × List Bytes) × α} {f : σ → σ × α}
    (h : Forwards m f) (g : α → Ret) (s : σ) (log : List Bytes) :
    ∃ extra : List Bytes, extra.length ≤ 1 ∧
      (m (s, log)).map id g = ((((f s).map id g).1, log ++ extra), ((f s).map id g).2) := by
  obtain ⟨extra, hlen, he⟩ := h s log
  exact ⟨extra, hlen, by rw [he]; rfl⟩

/-- Every operation through the wrapper, handle operations included, is the
embedded system's operation with the same arguments and the same result; the
wrapper adds at most one line. -/
theorem sysLogger_call (l : Logger) (S : System σ) (c : Call) (s : σ) (log : List Bytes) :
    ∃ extra : List Bytes, extra.length ≤ 1 ∧
      (sysLogger l S).call c (s, log) = (((S.call c s).1, log ++ extra), (S.call c s).2) := by
  cases c <;>
    first
    | exact (inherited_forwards _).map _ s log
    | exact (logged_forwards _ _ _).map _ s log

/-- Over every sequence of operations the wrapper is the embedded system, with
at most one line per operation. -/
theorem runAll_sysLogger (l : Logger) (S : System σ) :
    ∀ (cs : List Call) (s : σ) (log : List Bytes),
      ((sysLogger l S).runAll cs (s, log)).1.1 = (S.runAll cs s).1 ∧
      ((sysLogger l S).runAll cs (s, log)).2 = (S.runAll cs s).2 ∧
      ∃ extra : List Bytes, extra.length ≤ cs.length ∧
        ((sysLogger l S).runAll cs (s, log)).1.2 = log ++ extra
  | [], s, log => ⟨rfl, rfl, [], le_refl _, by simp [System.runAll]⟩
  | c :: cs, s, log => by
    obtain ⟨e1, h1, hc⟩ := sysLogger_call l S c s log
    obtain ⟨ih1, ih2, e2, h2, ih3⟩ := runAll_sysLogger l S cs (S.call c s).1 (log ++ e1)
    refine ⟨?_, ?_, e1 ++ e2, ?_, ?_⟩
    · simp only [System.runAll, hc, ih1]
    · simp only [System.runAll, hc, ih2]
    · simp only [List.length_append, List.length_cons]
      omega
    · simp only [System.runAll, hc, ih3, List.append_assoc]

/-! ## What the log holds -/

/-- The line `sysLogger` writes for an operation: one for each of the seven
methods it overrides, none for the others and for handle operations. -/
def Call.logLine : Call → Option Bytes
  | .mkdir p _ => some (ascii "mkdir " ++ p)
  | .remove p => some (ascii "rm " ++ p)
  | .symlink o n => some (ascii "ln -s " ++ o ++ ascii " " ++ n)
  | .chmod p m => some (ascii "chmod " ++ fmtOctal4 (chmodBits m) ++ ascii " " ++ p)
  | .chown p u g =>
    some (ascii "chown " ++ fmtDecimal u ++ ascii ":" ++ fmtDecimal g ++ ascii " " ++ p)
  | .createFile p _ => some (ascii "create file " ++ p)
  | .run c => some (ascii "exec " ++ (ascii " ").intercalate c.args)
  | _ => none

theorem sysLogger_call_log (l : Logger) (S : System σ) (c : Call) (s : σ) (log : List Bytes) :
    ((sysLogger l S).call c (s, log)).1.2 = if l.quiet then log else log ++ c.logLine.toList := by
  by_cases hq : l.quiet <;>
    cases c <;> simp [System.call, sysLogger, SysLogger.mkdir, SysLogger.remove, SysLogger.symlink,
      SysLogger.chmod, SysLogger.chown, SysLogger.createFile, SysLogger.run, logged, inherited,
      Logger.infof, Call.logLine, hq]

/-- Over every sequence of operations the wrapper's log gains exactly the
lines of the operations it overrides, one each and in order, and nothing for
reads or handle operations; a quiet logger's log gains nothing. -/
theorem sysLogger_log (l : Logger) (S : System σ) :
    ∀ (cs : List Call) (s : σ) (log : List Bytes),
      ((sysLogger l S).runAll cs (s, log)).1.2 =
        if l.quiet then log else log ++ cs.filterMap Call.logLine
  | [], s, log => by by_cases hq : l.quiet <;> simp [System.runAll, hq]
  | c :: cs, s, log => by
    have hlog := sysLogger_call_log l S c s log
    simp only [System.runAll]
    generalize ((sysLogger l S).call c (s, log)).1 = x at hlog ⊢
    obtain ⟨s1, log1⟩ := x
    rw [sysLogger_log l S cs s1 log1, show log1 = _ from hlog]
    by_cases hq : l.quiet <;> cases hc : c.logLine <;> simp [hq, hc, List.filterMap_cons]

/-! ## `logger.Error` -/

/-- `writeLogHead(buf, severity, now)`, given the time as `now.Format` writes
it; `%5s` pads the severity on the left with spaces to five columns. -/
def writeLogHead (severity now : Bytes) : Bytes :=
  ascii "mcm-exec: " ++ now ++ ascii " " ++ List.replicate (5 - severity.length) 32 ++ severity ++
    ascii ": "

/-- An error as `Error` reads it: `err.Error()`, and the `Output` field when
the error is an `*execlib.Error`. -/
structure LogError where
  text : Bytes
  output : Option Bytes
  deriving DecidableEq, Repr

/-- `b`, with a newline added if its last byte is not one. -/
def endLine (b : Bytes) : Bytes := if b.getLast? ≠ some lf then b ++ [lf] else b

/-- `l.Error(ctx, err)`: the writes to standard error, given the time.  The
copy of `Output` with a newline added is built and then dropped (the
assignment `output = err.Output` follows it), so the output is written as it
came; when its last byte is not a newline, the newline goes onto the line
written before it. -/
def Logger.error (l : Logger) (now : Bytes) (err : LogError) : List Bytes :=
  let line := endLine (writeLogHead (ascii "ERROR") now ++ err.text)
  let (line, output) : Bytes × Bytes :=
    match l.quiet, err.output with
    | false, some out =>
      if 0 < out.length then (if out.getLast? ≠ some lf then line ++ [lf] else line, out)
      else (line, [])
    | _, _ => (line, [])
  if 0 < output.length then [line, output] else [line]

@[simp] theorem endLine_getLast (b : Bytes) : (endLine b).getLast? = some lf := by
  unfold endLine
  split
  · exact List.getLast?_concat b
  · next h => exact not_not.mp h

/-- Whatever the error and the time, the record `Error` writes ends with a
newline exactly when the logger is quiet, or the error carries no command
output, or that output ends with one.  The output of a failed command that
lacks a final newline is written without one, and the newline meant for it
stands before it. -/
theorem error_ends_with_newline_iff (l : Logger) (now : Bytes) (err : LogError) :
    (l.error now err).flatten.getLast? = some lf ↔
      l.quiet = true ∨ ∀ out, err.output = some out → out = [] ∨ out.getLast? = some lf := by
  unfold Logger.error
  cases hq : l.quiet with
  | true => simp
  | false =>
    cases ho : err.output with
    | none => simp
    | some out =>
      cases hl : out.getLast? with
      | none => simp [List.getLast?_eq_none_iff.mp hl]
      | some b =>
        have hne : 0 < out.length := List.length_pos.mpr fun h => by simp [h] at hl
        simp [hne, List.getLast?_append, hl, List.ne_nil_of_length_pos hne]

/-- A failed command that printed `boom` with no newline: the blank line
comes before the output, which ends the record unterminated. -/
example : Logger.error ⟨false⟩ [] ⟨ascii "exit status 1", some (ascii "boom")⟩ =
    [writeLogHead (ascii "ERROR") [] ++ ascii "exit status 1\n\n", ascii "boom"] := by
  decide

/-! ## A write the wrapper does not log -/

/-- A host with one file, `/etc/motd` holding `hi`. -/
def motdHost : Host :=
  ⟨[(ascii "/etc/motd", ⟨.file (ascii "hi"), 0o644, 0, 0⟩)], [], [], 0, 0, []⟩

/-- A child that changes nothing and prints nothing. -/
def quietChild : Cmd → Host → Host × Except Err Bytes := fun _ h => (h, .ok [])

/-- A storage that lets every file grow to a kilobyte. -/
def kilobyte : Storage := ⟨fun _ _ => 1024, fun _ _ => false⟩

/-- Through `sysLogger` around the live backend, with a logger that is not
quiet, `OpenFile` followed by a `Write` on the handle rewrites `/etc/motd` from
`hi` to `XY`, and the log stays empty. -/
theorem sysLogger_openFile_write_unlogged :
    (sysLogger ⟨false⟩ («local» kilobyte quietChild)).runAll
        [.openFile (ascii "/etc/motd"), .write 0 (ascii "XY")] (⟨motdHost, []⟩, []) =
      ((⟨{ motdHost with fs := [(ascii "/etc/motd", ⟨.file (ascii "XY"), 0o644, 0, 0⟩)] },
          [⟨ascii "/etc/motd", true, true, 2, false⟩]⟩, []), [.num (.ok 0), .num (.ok 2)]) := by
  decide

end Mcm.Exec
