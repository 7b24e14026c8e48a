/-
  Mcm/Shlib/Rerun.lean --- running a script of `WriteScript` a second time.

  THE CODE.  A resource's block either writes a file, through `base64 -d` with
  its output redirected to the path, or makes a directory when `[[ ! -d ]]`
  finds none.  The blocks sit in a function `_` whose body starts with
  `set -e`, so the first command that fails ends the script.  The comment of a
  block is written raw after `# `.

  THE MODEL.  `Op` is what a block does, `Op.cmds` the commands bash reads in
  it (`Mcm.Bash.Run` parses them so from the tokens of the block), and
  `scriptCmds` the commands of a whole script.  `Op.run` and `runOps` say what
  the blocks do to the host, path by path, after the lookup of each path
  (`Mcm.Os.walk`); bash runs a block on its path without the NUL bytes it
  drops as it reads the script (`Op.clean`).

  WHAT IS PROVED.  `run_scriptCmds`: bash runs the script's commands as
  `runOps` says, with status 0 when every block succeeds and 1 at the first
  that fails.  `scriptCmds_rerun`: run again on the host its first successful
  run left, the script exits 0 and leaves the same directories and the same
  file contents.  The argument: a path a block makes a directory of is a
  directory at the end of the first run, a path a block writes is a file
  holding the last content written (`runOps_dir_made`, `runOps_write_made`),
  the directories above every block's path are still there
  (`runOps_reachable`), and from such a host the second run only rewrites
  files with the contents they end with (`runOps_rerun`).  `writeScript_rerun_fails`: a comment may
  carry a command, which the guards do not cover.  The catalog of one
  directory `/d` whose comment is `x`, newline, `mkdir /q` gives a script
  that exits 0 on an empty host and creates `/q` and `/d`; run again on that
  host it fails at `mkdir /q` and exits 1.
-/
import Mcm.Bash.Run
import Mcm.Shlib.Comment

set_option autoImplicit false

namespace Mcm.Shlib

open Mcm.Bash Mcm.Depgraph

/-! ## The blocks of a script, as bash reads them -/

/-- What a resource's block does. -/
inductive Op where
  /-- `if [[ ! -d p ]]; then mkdir p; fi` -/
  | dir (p : Bytes)
  /-- `base64 -d > p <<!EOF!`, the body the encoding of `b` -/
  | write (p b : Bytes)
  deriving DecidableEq, Repr

/-- The commands bash reads in the block. -/
def Op.cmds : Op → List Cmd
  | .dir p =>
    [.ifThen [.test [bareWord "!", bareWord "-d", readWord p]] [.simple [bareWord "mkdir", readWord p] []]]
  | .write p b =>
    [.simple [bareWord "base64", bareWord "-d"] [.out (readWord p), .hereDoc (Base64.encode b ++ [lf]) false]]

/-- The path an operation works on. -/
def Op.path : Op → Bytes
  | .dir p => p
  | .write p _ => p

/-- The block as bash runs it: the path without the NUL bytes bash drops as it
reads the script. -/
def Op.clean : Op → Op
  | .dir p => .dir (dropNul p)
  | .write p b => .write (dropNul p) b

theorem Op.clean_of_not_mem {o : Op} (h : nul ∉ o.path) : o.clean = o := by
  cases o <;> simp only [Op.clean, Op.path] at h ⊢ <;> rw [dropNul_of_not_mem h]

/-- A word between double quotes. -/
def dquoted (s : String) : Word := (ascii s).map (⟨·, .double⟩)

/-- The body of the function `_`: `set -e`, then the blocks. -/
def bodyCmds (ops : List Op) : List Cmd :=
  .simple [bareWord "set", bareWord "-e"] [] :: ops.flatMap Op.cmds

/-- The commands of a script whose blocks do `ops`: the function `_` and its
call. -/
def scriptCmds (ops : List Op) : List Cmd :=
  [.funcDef (ascii "_") (bodyCmds ops), .simple [bareWord "_", dquoted "$0", dquoted "$@"] []]

/-! ## What a block does to the host -/

/-- Where a block leaves the host. -/
inductive Step where
  | ok (h : Os.Host)
  | fail (h : Os.Host)
  | unmodelled
  deriving DecidableEq, Repr

/-- What a block does, path by path, after the lookup of its path
(`Mcm.Os.walk`): a directory is made where there is nothing, and is left alone
where there is one; a file gets its content, keeping its mode and owner, or is
made with mode 0644.  A failed lookup fails the block. -/
def Op.run (h : Os.Host) : Op → Step
  | .dir p =>
    match Os.walk h p with
    | .found (some ⟨.dir, _, _, _⟩) => .ok h
    | .found (some ⟨.symlink _, _, _, _⟩) | .unmodelled => .unmodelled
    | .found (some ⟨.file _, _, _, _⟩) | .broken => if isOption p then .unmodelled else .fail h
    | .found none =>
      if isOption p then .unmodelled else .ok { h with fs := h.fs.set p ⟨.dir, 0o755, h.uid, h.gid⟩ }
  | .write p b =>
    match Os.walk h p with
    | .found (some ⟨.dir, _, _, _⟩) | .broken => .fail h
    | .found (some ⟨.symlink _, _, _, _⟩) | .unmodelled => .unmodelled
    | .found (some i) => .ok { h with fs := h.fs.set p { i with node := .file b } }
    | .found none => .ok { h with fs := h.fs.set p ⟨.file b, 0o644, h.uid, h.gid⟩ }

/-- The blocks in order, up to the first one that does not succeed. -/
def runOps (h : Os.Host) : List Op → Step
  | [] => .ok h
  | o :: os =>
    match o.run h with
    | .ok h' => runOps h' os
    | r => r

/-! ## Bash runs the blocks as `runOps` says -/

/-- A quoted path is read back as the path without its NUL bytes, with no
expansion. -/
@[simp] theorem wordValue_readWord (p : Bytes) : wordValue (readWord p) = some (dropNul p) := by
  simp [wordValue, readWord_value, readWord_expands]

/-- The shell inside `_` after `set -e`: no function hides `mkdir` or `base64`. -/
structure InBody (sh : Shell) : Prop where
  errexit : sh.errexit = true
  noMkdir : sh.funcs.lookup (ascii "mkdir") = none
  noBase64 : sh.funcs.lookup (ascii "base64") = none

/-- The commands of a directory block do what `Op.run` says of its path as
bash reads it. -/
theorem runList_dir (n : Nat) (p : Bytes) (sh : Shell) (hs : InBody sh) :
    runList (runCmd (n + 1 + 1) true) true (Op.dir p).cmds sh 0 =
      match (Op.dir p).clean.run sh.host with
      | .ok h' => .next { sh with host := h' } 0
      | .fail h' => .exit h' 1
      | .unmodelled => .unmodelled := by
  obtain ⟨host, e, fs⟩ := sh
  obtain ⟨he, hnm, -⟩ := hs
  subst he
  simp only at hnm
  have hm : wordValue (bareWord "mkdir") = some (ascii "mkdir") := rfl
  simp only [Op.cmds, Op.clean, runList, runCmd, testWords_notDir, wordValue_readWord, Option.some_bind,
    hm, hnm, utility_mkdir]
  simp only [Op.run, isDirAt]
  rcases hw : Os.walk host (dropNul p) with (_ | ⟨_ | _ | _, m, u, g⟩) | _ | _
  all_goals by_cases ho : isOption (dropNul p) <;> simp [hw, ho, hnm, mkdir_single, List.mapM.loop]

/-- `base64 -d > p` on the encoding of `b` does what `Op.run` says of the file
block. -/
theorem base64Decode_encode (h : Os.Host) (p b : Bytes) :
    base64Decode h (readWord p) (Base64.encode b ++ [lf]) =
      match (Op.write p b).clean.run h with
      | .ok h' => some (h', 0)
      | .fail h' => some (h', 1)
      | .unmodelled => none := by
  unfold base64Decode openTrunc
  simp only [Op.clean, Op.run, wordValue_readWord]
  rcases hw : Os.walk h (dropNul p) with (_ | ⟨_ | _ | _, m, u, g⟩) | _ | _
  all_goals simp only [hw, Option.pure_def, Base64.decode_encode, Os.setContent, Option.bind_eq_bind,
    Option.some_bind, Option.none_bind, Os.FS.get_set, ↓reduceIte, Os.FS.set_set]

/-- The command of a file block does what `Op.run` says of its path as bash
reads it. -/
theorem runList_write (n : Nat) (p b : Bytes) (sh : Shell) (hs : InBody sh) :
    runList (runCmd (n + 1 + 1) true) true (Op.write p b).cmds sh 0 =
      match (Op.write p b).clean.run sh.host with
      | .ok h' => .next { sh with host := h' } 0
      | .fail h' => .exit h' 1
      | .unmodelled => .unmodelled := by
  obtain ⟨host, e, fs⟩ := sh
  obtain ⟨he, -, hnb⟩ := hs
  subst he
  simp only at hnb
  have hb : wordValue (bareWord "base64") = some (ascii "base64") := rfl
  simp only [Op.cmds, runList, runCmd, hb, hnb, utility_base64, base64Decode_encode]
  cases (Op.write p b).clean.run host <;> simp

/-- A block's commands do what `Op.run` says. -/
theorem runList_op (n : Nat) (o : Op) (sh : Shell) (hs : InBody sh) :
    runList (runCmd (n + 1 + 1) true) true o.cmds sh 0 =
      match o.clean.run sh.host with
      | .ok h' => .next { sh with host := h' } 0
      | .fail h' => .exit h' 1
      | .unmodelled => .unmodelled := by
  cases o with
  | dir p => exact runList_dir n p sh hs
  | write p b => exact runList_write n p b sh hs

/-- The blocks' commands do what `runOps` says: under `set -e` the first
failure ends the shell with status 1. -/
theorem runList_ops (n : Nat) (ops : List Op) : ∀ sh : Shell, InBody sh →
    runList (runCmd (n + 1 + 1) true) true (ops.flatMap Op.cmds) sh 0 =
      match runOps sh.host (ops.map Op.clean) with
      | .ok h' => .next { sh with host := h' } 0
      | .fail h' => .exit h' 1
      | .unmodelled => .unmodelled := by
  induction ops with
  | nil => exact fun _ _ => rfl
  | cons o os ih =>
    intro sh hs
    rw [List.flatMap_cons, runList_append, runList_op n o sh hs, List.map_cons, runOps]
    cases o.clean.run sh.host with
    | ok h' => exact ih _ ⟨hs.errexit, hs.noMkdir, hs.noBase64⟩
    | fail h' => rfl
    | unmodelled => rfl

theorem runList_bodyCmds (n : Nat) (ops : List Op) (h : Os.Host) (F : List (Bytes × List Cmd))
    (hF : F.lookup (ascii "set") = none) (hin : InBody ⟨h, true, F⟩) :
    runList (runCmd (n + 1 + 1) true) true (bodyCmds ops) ⟨h, false, F⟩ 0 =
      match runOps h (ops.map Op.clean) with
      | .ok h' => .next ⟨h', true, F⟩ 0
      | .fail h' => .exit h' 1
      | .unmodelled => .unmodelled := by
  rw [bodyCmds, runList, runCmd_utility (n + 1) true _ _ _
    (show wordValue (bareWord "set") = some (ascii "set") from rfl) hF, utility_setE]
  exact runList_ops n ops _ hin

/-- The function `_` is defined, then called, and its body is run. -/
theorem runList_scriptCmds (n : Nat) (ops : List Op) (h : Os.Host) :
    runList (runCmd (n + 1 + 1 + 1) true) true (scriptCmds ops) ⟨h, false, []⟩ 0 =
      match runOps h (ops.map Op.clean) with
      | .ok h' => .next ⟨h', true, [(ascii "_", bodyCmds ops)]⟩ 0
      | .fail h' => .exit h' 1
      | .unmodelled => .unmodelled := by
  have hcall := runCmd_call (n + 1 + 1) true ⟨h, false, [(ascii "_", bodyCmds ops)]⟩
    [dquoted "$0", dquoted "$@"] (show wordValue (bareWord "_") = some (ascii "_") from rfl) rfl
  simp only [scriptCmds, runList, runCmd_funcDef, List.nil_append]
  rw [hcall, runList_bodyCmds n ops h [(ascii "_", bodyCmds ops)] rfl ⟨rfl, rfl, rfl⟩]
  cases runOps h (ops.map Op.clean) <;> rfl

/-- The script's commands run as the blocks do, on their paths as bash reads
them: 0 when every block succeeds, 1 when one fails under `set -e`. -/
theorem run_scriptCmds (ops : List Op) (h : Os.Host) :
    run (scriptCmds ops) h =
      match runOps h (ops.map Op.clean) with
      | .ok h' => .status h' 0
      | .fail h' => .status h' 1
      | .unmodelled => .unmodelled := by
  rw [run, show maxDepth = 997 + 1 + 1 + 1 from rfl, runList_scriptCmds]
  cases runOps h (ops.map Op.clean) <;> rfl

/-! ## Running the blocks twice -/

/-- The content the last block writing `q` writes. -/
def lastWrite (q : Bytes) : List Op → Option Bytes
  | [] => none
  | .dir _ :: os => lastWrite q os
  | .write p b :: os => (lastWrite q os).or (if p = q then some b else none)

/-- A run that succeeds succeeded at its first block. -/
theorem runOps_cons_ok {h h' : Os.Host} {o : Op} {os : List Op} (hr : runOps h (o :: os) = .ok h') :
    ∃ h1, o.run h = .ok h1 ∧ runOps h1 os = .ok h' := by
  simp only [runOps] at hr
  cases e : o.run h with
  | ok h1 => rw [e] at hr; exact ⟨h1, rfl, hr⟩
  | fail h1 => rw [e] at hr; cases hr
  | unmodelled => rw [e] at hr; cases hr

/-- Everything a directory block that succeeds can do. -/
theorem run_dir_ok {p : Bytes} {h h' : Os.Host} (hr : (Op.dir p).run h = .ok h') :
    { h' with fs := h.fs } = h ∧ (∀ q, q ≠ p → h'.fs.get q = h.fs.get q) ∧ Os.Reachable h p ∧
    ∃ m u g, h'.fs.get p = some ⟨.dir, m, u, g⟩ ∧
      (h.fs.get p = none ∨ h.fs.get p = some ⟨.dir, m, u, g⟩) := by
  simp only [Op.run] at hr
  rcases hw : Os.walk h p with (_ | ⟨_ | _ | _, m, u, g⟩) | _ | _ <;> rw [hw] at hr
  · -- nothing at `p`: the directory is made
    by_cases ho : isOption p <;> simp [ho] at hr
    subst hr
    obtain ⟨hre, hi⟩ := Os.reachable_of_walk hw
    exact ⟨rfl, fun q hq => by simp [hq], hre, 0o755, h.uid, h.gid, by simp, .inl hi.symm⟩
  · by_cases ho : isOption p <;> simp [ho] at hr
  · -- a directory at `p`: left alone
    cases hr
    obtain ⟨hre, hi⟩ := Os.reachable_of_walk hw
    exact ⟨rfl, fun _ _ => rfl, hre, m, u, g, hi.symm, .inr hi.symm⟩
  · cases hr
  · by_cases ho : isOption p <;> simp [ho] at hr
  · cases hr

/-- Everything a file block that succeeds can do. -/
theorem run_write_ok {p b : Bytes} {h h' : Os.Host} (hr : (Op.write p b).run h = .ok h') :
    { h' with fs := h.fs } = h ∧ (∀ q, q ≠ p → h'.fs.get q = h.fs.get q) ∧ Os.Reachable h p ∧
    ∃ m u g, h'.fs.get p = some ⟨.file b, m, u, g⟩ ∧
      (h.fs.get p = none ∨ ∃ c, h.fs.get p = some ⟨.file c, m, u, g⟩) := by
  simp only [Op.run] at hr
  rcases hw : Os.walk h p with (_ | ⟨_ | _ | _, m, u, g⟩) | _ | _ <;> rw [hw] at hr <;> cases hr
  all_goals obtain ⟨hre, hi⟩ := Os.reachable_of_walk hw
  · exact ⟨rfl, fun q hq => by simp [hq], hre, 0o644, h.uid, h.gid, by simp, .inl hi.symm⟩
  · exact ⟨rfl, fun q hq => by simp [hq], hre, m, u, g, by simp, .inr ⟨_, hi.symm⟩⟩

/-- A block that succeeds keeps every directory: `[[ -d ]]` skips it and a
write to it fails. -/
theorem run_keeps_dir {o : Op} {h h' : Os.Host} (hr : o.run h = .ok h') {q : Bytes}
    {m : Os.FileMode} {u g : Nat} (hq : h.fs.get q = some ⟨.dir, m, u, g⟩) :
    h'.fs.get q = some ⟨.dir, m, u, g⟩ := by
  cases o with
  | dir p =>
    obtain ⟨-, hfr, -, m', u', g', hp', hold⟩ := run_dir_ok hr
    by_cases e : q = p
    · subst e; rcases hold with h0 | h0 <;> rw [hq] at h0 <;> cases h0; exact hp'
    · rw [hfr q e, hq]
  | write p b =>
    obtain ⟨-, hfr, -, _, _, _, _, hold⟩ := run_write_ok hr
    by_cases e : q = p
    · subst e; rcases hold with h0 | ⟨c, h0⟩ <;> rw [hq] at h0 <;> cases h0
    · rw [hfr q e, hq]

section FirstRun

variable {q : Bytes} {m : Os.FileMode} {u g : Nat}

/-- A directory stays as it is. -/
theorem runOps_dir_stays (ops : List Op) : ∀ {h h' : Os.Host}, runOps h ops = .ok h' →
    h.fs.get q = some ⟨.dir, m, u, g⟩ → h'.fs.get q = some ⟨.dir, m, u, g⟩ := by
  induction ops with
  | nil => intro h h' hr hq; cases hr; exact hq
  | cons o os ih =>
    intro h h' hr hq
    obtain ⟨h1, ho, hrest⟩ := runOps_cons_ok hr
    exact ih hrest (run_keeps_dir ho hq)

/-- After a run, the path of every block is reachable: the directories above it
were there when its block ran, and stay. -/
theorem runOps_reachable (ops : List Op) {o : Op} (ho : o ∈ ops) :
    ∀ {h h' : Os.Host}, runOps h ops = .ok h' → Os.Reachable h' o.path := by
  induction ops with
  | nil => cases ho
  | cons o' os ih =>
    intro h h' hr
    obtain ⟨h1, ho', hrest⟩ := runOps_cons_ok hr
    rcases List.mem_cons.mp ho with rfl | ho
    · have hre : Os.Reachable h o.path := by
        cases o with
        | dir p => exact (run_dir_ok ho').2.2.1
        | write p b => exact (run_write_ok ho').2.2.1
      exact (hre.mono fun _ _ _ _ ha => run_keeps_dir ho' ha).mono
        fun _ _ _ _ ha => runOps_dir_stays os hrest ha
    · exact ih ho hrest

/-- A file no block writes stays as it is: making a directory there fails. -/
theorem runOps_file_stays (ops : List Op) (hw : lastWrite q ops = none) {c : Bytes} :
    ∀ {h h' : Os.Host}, runOps h ops = .ok h' →
    h.fs.get q = some ⟨.file c, m, u, g⟩ → h'.fs.get q = some ⟨.file c, m, u, g⟩ := by
  induction ops with
  | nil => intro h h' hr hq; cases hr; exact hq
  | cons o os ih =>
    intro h h' hr hq
    obtain ⟨h1, ho, hrest⟩ := runOps_cons_ok hr
    cases o with
    | dir p =>
      refine ih hw hrest ?_
      obtain ⟨-, hfr, -, _, _, _, _, hold⟩ := run_dir_ok ho
      by_cases e : q = p
      · subst e; rcases hold with h0 | h0 <;> rw [hq] at h0 <;> cases h0
      · rw [hfr q e, hq]
    | write p b =>
      simp only [lastWrite, Option.or_eq_none, ite_eq_right_iff, reduceCtorEq, imp_false] at hw
      refine ih hw.1 hrest ?_
      rw [(run_write_ok ho).2.1 q (Ne.symm hw.2), hq]

/-- After a run, every path a block makes a directory of is a directory. -/
theorem runOps_dir_made (ops : List Op) (p : Bytes) (hp : Op.dir p ∈ ops) :
    ∀ {h h' : Os.Host}, runOps h ops = .ok h' → ∃ m u g, h'.fs.get p = some ⟨.dir, m, u, g⟩ := by
  induction ops with
  | nil => cases hp
  | cons o os ih =>
    intro h h' hr
    obtain ⟨h1, ho, hrest⟩ := runOps_cons_ok hr
    rcases List.mem_cons.mp hp with rfl | hp
    · obtain ⟨-, -, -, m, u, g, hd, -⟩ := run_dir_ok ho
      exact ⟨m, u, g, runOps_dir_stays os hrest hd⟩
    · exact ih hp hrest

/-- After a run, every path a block writes holds the content of the last write. -/
theorem runOps_write_made (ops : List Op) {b : Bytes} (hw : lastWrite q ops = some b) :
    ∀ {h h' : Os.Host}, runOps h ops = .ok h' → ∃ m u g, h'.fs.get q = some ⟨.file b, m, u, g⟩ := by
  induction ops with
  | nil => cases hw
  | cons o os ih =>
    intro h h' hr
    obtain ⟨h1, ho, hrest⟩ := runOps_cons_ok hr
    cases o with
    | dir p => exact ih hw hrest
    | write p b' =>
      cases hl : lastWrite q os with
      | some b'' => rw [lastWrite, hl] at hw; cases hw; exact ih hl hrest
      | none =>
        rw [lastWrite, hl] at hw
        by_cases e : p = q
        · subst e
          simp only [Option.none_or, if_true, Option.some.injEq] at hw
          subst hw
          obtain ⟨-, -, -, m, u, g, hf, -⟩ := run_write_ok ho
          exact ⟨m, u, g, runOps_file_stays os hl hrest hf⟩
        · simp [e] at hw

end FirstRun

/-- A path some block writes has a last write. -/
theorem lastWrite_of_mem {p b : Bytes} {ops : List Op} (h : Op.write p b ∈ ops) :
    ∃ b', lastWrite p ops = some b' := by
  induction ops with
  | nil => cases h
  | cons o os ih =>
    rcases List.mem_cons.mp h with rfl | h
    · cases hl : lastWrite p os with
      | none => exact ⟨b, by simp [lastWrite, hl]⟩
      | some b' => exact ⟨b', by simp [lastWrite, hl]⟩
    · obtain ⟨b', hb⟩ := ih h
      cases o <;> simp [lastWrite, hb]

/-- The blocks run again on a host where every block's path is reachable,
every path they make a directory of is a directory and every path they write
is a file: each write replaces the content and keeps the rest of the inode,
and nothing else changes. -/
theorem runOps_rerun (ops : List Op) : ∀ g : Os.Host,
    (∀ o ∈ ops, Os.Reachable g o.path) →
    (∀ p, Op.dir p ∈ ops → ∃ m u g0, g.fs.get p = some ⟨.dir, m, u, g0⟩) →
    (∀ p b, Op.write p b ∈ ops → ∃ c m u g0, g.fs.get p = some ⟨.file c, m, u, g0⟩) →
    ∃ g', runOps g ops = .ok g' ∧ { g' with fs := g.fs } = g ∧
      ∀ q, g'.fs.get q = match lastWrite q ops with
        | some b => (g.fs.get q).map ({ · with node := .file b })
        | none => g.fs.get q := by
  induction ops with
  | nil => exact fun g _ _ _ => ⟨g, rfl, rfl, fun _ => rfl⟩
  | cons o os ih =>
    intro g hre hd hw
    have hre' := fun o' ho' => hre o' (List.mem_cons_of_mem o ho')
    have hd' := fun p hp => hd p (List.mem_cons_of_mem o hp)
    have hw' := fun p b hp => hw p b (List.mem_cons_of_mem o hp)
    have hwalk : Os.walk g o.path = .found (g.fs.get o.path) :=
      Os.walk_of_reachable (hre o (List.mem_cons_self _ _))
    cases o with
    | dir p =>
      obtain ⟨m, u, g0, hp⟩ := hd p (List.mem_cons_self _ _)
      simp only [Op.path] at hwalk
      obtain ⟨g', hr, hrest, hget⟩ := ih g hre' hd' hw'
      exact ⟨g', by simp [runOps, Op.run, hwalk, hp, hr], hrest, hget⟩
    | write p b =>
      obtain ⟨c, m, u, g0, hp⟩ := hw p b (List.mem_cons_self _ _)
      simp only [Op.path] at hwalk
      have hg1 : ∀ q, q ≠ p → (g.fs.set p ⟨.file b, m, u, g0⟩).get q = g.fs.get q :=
        fun q hq => by simp [hq]
      -- the write keeps every directory, since `p` is a file
      have hdirs : ∀ a m' u' g', g.fs.get a = some ⟨.dir, m', u', g'⟩ →
          (g.fs.set p ⟨.file b, m, u, g0⟩).get a = some ⟨.dir, m', u', g'⟩ := fun a _ _ _ ha => by
        have hne : a ≠ p := by rintro rfl; rw [hp] at ha; cases ha
        rw [hg1 a hne, ha]
      obtain ⟨g', hr, hrest, hget⟩ := ih { g with fs := g.fs.set p ⟨.file b, m, u, g0⟩ }
        (fun o' ho' => (hre' o' ho').mono hdirs)
        (fun p' hp' => by
          obtain ⟨m', u', g0', hd0⟩ := hd' p' hp'
          exact ⟨m', u', g0', hdirs p' m' u' g0' hd0⟩)
        (fun p' b' hp' => by
          by_cases e : p' = p
          · subst e; exact ⟨b, m, u, g0, by simp⟩
          · obtain ⟨c', m', u', g0', hf⟩ := hw' p' b' hp'
            exact ⟨c', m', u', g0', (hg1 p' e).trans hf⟩)
      refine ⟨g', by simp [runOps, Op.run, hwalk, hp, hr],
        by simpa using congrArg (fun x : Os.Host => { x with fs := g.fs }) hrest, fun q => ?_⟩
      rw [hget q, lastWrite]
      by_cases e : q = p
      · subst e
        cases lastWrite q os <;> simp [hp]
      · cases lastWrite q os <;> simp [hg1 q e, Ne.symm e]

/-- Running the blocks a second time, from where the first run left the host,
succeeds and leaves the same directories and file contents. -/
theorem runOps_twice (ops : List Op) {h h' : Os.Host} (hr : runOps h ops = .ok h') :
    ∃ h'', runOps h' ops = .ok h'' ∧ { h'' with fs := h'.fs } = h' ∧
      ∀ q, h''.fs.get q = h'.fs.get q := by
  obtain ⟨h'', hr', hrest, hget⟩ := runOps_rerun ops h'
    (fun o ho => runOps_reachable ops ho hr)
    (fun p hp => runOps_dir_made ops p hp hr)
    (fun p b hp => by
      obtain ⟨b', hb⟩ := lastWrite_of_mem hp
      obtain ⟨m, u, g, hf⟩ := runOps_write_made ops hb hr
      exact ⟨b', m, u, g, hf⟩)
  refine ⟨h'', hr', hrest, fun q => ?_⟩
  rw [hget q]
  cases hl : lastWrite q ops with
  | none => rfl
  | some b =>
    obtain ⟨m, u, g, hf⟩ := runOps_write_made ops hl hr
    simp [hf]

/-- A script made of the generator's blocks, run again on the host its first
successful run left, exits 0 and leaves the same directories and file
contents. -/
theorem scriptCmds_rerun (ops : List Op) {h h' : Os.Host} (hr : run (scriptCmds ops) h = .status h' 0) :
    ∃ h'', run (scriptCmds ops) h' = .status h'' 0 ∧ { h'' with fs := h'.fs } = h' ∧
      ∀ q, h''.fs.get q = h'.fs.get q := by
  rw [run_scriptCmds] at hr
  cases e : runOps h (ops.map Op.clean) with
  | ok h1 =>
    rw [e] at hr
    cases hr
    obtain ⟨h'', hr', hrest, hget⟩ := runOps_twice _ e
    exact ⟨h'', by rw [run_scriptCmds, hr'], hrest, hget⟩
  | fail h1 => rw [e] at hr; cases hr
  | unmodelled => rw [e] at hr; cases hr

/-! ## A comment that carries a command -/

/-- A host with no files. -/
def emptyHost : Os.Host := ⟨[], [], [], 0, 0, []⟩

/-- `emptyHost` with the directories `/q` and `/d`. -/
def injectedHost : Os.Host :=
  { emptyHost with fs := [(ascii "/q", ⟨.dir, 0o755, 0, 0⟩), (ascii "/d", ⟨.dir, 0o755, 0, 0⟩)] }

set_option maxRecDepth 20000 in
/-- The script of the directory `/d` commented `x`, newline, `mkdir /q` exits 0
on an empty host and leaves `/q` and `/d`; run again there, it exits 1. -/
theorem writeScript_rerun_fails : ∃ o : Outcome,
    writeScript Graph.ready (fun _ _ => none) (commentCatalog (ascii "x\nmkdir /q")) = some o ∧
    o.err = none ∧
    runScript o.written.flatten emptyHost = .status injectedHost 0 ∧
    runScript o.written.flatten injectedHost = .status injectedHost 1 :=
  ⟨_, rfl, rfl, by decide, by decide⟩

end Mcm.Shlib
