/-
  Mcm/Bash/Run.lean --- parsing the tokens of `Mcm.Bash.Lexer` into commands,
  and running them on a host, as far as a script written by
  `shlib.WriteScript` reaches bash.

  WHAT THIS FILE IS FOR.  Whether running a generated script twice is the same
  as running it once is a question about what bash does with it.  Bash is not
  part of the repository: the parser and the interpreter below are written
  from the bash manual (SHELL GRAMMAR, Compound Commands, REDIRECTION, the `set`
  builtin) and from the coreutils documentation of `mkdir` and `base64`.

  THE GRAMMAR.  A script is a list of commands separated by newlines and `;`.
  A command is a simple command (words, `> word` and `<< delim` redirections),
  a conditional `[[ words ]]`, an `if list; then list; fi`, or a function
  definition `name() { list }`.  Reserved words count only when unquoted and
  in command position.  The lexer delivers each here-document body after the
  newline that ends its line, in the order of the `<<` operators; `attach`
  moves every body next to its delimiter.  Anything else, other operators and
  reserved words included, is outside the model: `parse` gives `none`.

  THE INTERPRETER.  The shell's state is the host, the `errexit` flag and the
  functions defined.  Commands run in order; under `set -e` a command that
  fails outside the condition of an `if` ends the shell with its status.  The
  modelled commands are the functions the script defines (their arguments are
  not read), `set -e`, `[[ -d p ]]` and `[[ ! -d p ]]`, `mkdir` with operands,
  and `base64 -d` reading a here-document with its output redirected to a
  file.  Paths are looked up with `Mcm.Os.walk`: `mkdir p` fails when the
  lookup fails (a directory above `p` missing or not a directory, a name too
  long) or finds something at `p`, and creates `p` otherwise with mode 0755
  (umask 022).  A redirection `> p` fails on a directory or a failed lookup,
  and empties or creates a file with mode 0644.  The disk has room for what
  is written.  Whatever else a run meets (another command, an option of
  `mkdir`, an expansion, a symbolic link at or above a path, a path the kernel
  would normalise, input `base64` rejects) makes the result `unmodelled`: the
  model claims nothing about it.
-/
import Mcm.Bash.Lexer
import Mcm.Base64
import Mcm.Os

set_option autoImplicit false

namespace Mcm.Bash

/-! ## Commands -/

/-- A redirection of a simple command. -/
inductive Redir where
  /-- `> target` -/
  | out (target : Word)
  /-- `<< delim`, with its body, and whether bash expands the body -/
  | hereDoc (body : Bytes) (expands : Bool)
  deriving DecidableEq, Repr

/-- A command. -/
inductive Cmd where
  /-- a simple command: its words and its redirections, in order -/
  | simple (words : List Word) (redirs : List Redir)
  /-- `[[ words ]]` -/
  | test (words : List Word)
  /-- `if cond; then body; fi` -/
  | ifThen (cond body : List Cmd)
  /-- `name() { body }` -/
  | funcDef (name : Bytes) (body : List Cmd)
  deriving Repr

/-- The unquoted word `s`. -/
def bareWord (s : String) : Word := Word.ofBare (ascii s)

/-- Bash's reserved words. -/
def reserved : List Word :=
  ["if", "then", "else", "elif", "fi", "case", "esac", "for", "select", "while", "until", "do",
    "done", "in", "function", "time", "\x7b", "\x7d", "!", "[[", "]]", "coproc"].map bareWord

/-! ## Here-documents -/

/-- The token is a here-document body. -/
def Token.isBody : Token → Bool
  | .body _ _ => true
  | _ => false

/-- The operator introduces a here-document. -/
def isHereOp (o : Bytes) : Bool := o = ascii "<<" || o = ascii "<<-"

/-- The tokens without their here-document bodies, each body `bodies` holds put
right after the delimiter word of its `<<`, in order.  `afterOp`: the previous
token was `<<` or `<<-`. -/
def attach (afterOp : Bool) : List Token → List Token → List Token
  | [], _ => []
  | .body _ _ :: rest, bodies => attach false rest bodies
  | .word d :: rest, b :: bodies =>
    if afterOp then .word d :: b :: attach false rest bodies
    else .word d :: attach false rest (b :: bodies)
  | .op o :: rest, bodies => .op o :: attach (isHereOp o) rest bodies
  | t :: rest, bodies => t :: attach false rest bodies

/-- Every body next to its delimiter: the lexer emits the bodies in the order
of their operators. -/
def attachBodies (toks : List Token) : List Token := attach false toks (toks.filter Token.isBody)

/-- The token leaves `attach` as it is: it is neither a body nor `<<`. -/
def Token.passes : Token → Bool
  | .body _ _ => false
  | .op o => !isHereOp o
  | _ => true

/-- Tokens that all pass are kept as they are, and the bodies wait for what
follows. -/
theorem attach_passes (rest : List Token) (bodies : List Token) :
    ∀ A : List Token, A.all Token.passes = true →
      attach false (A ++ rest) bodies = A ++ attach false rest bodies
  | [], _ => rfl
  | t :: A, h => by
    simp only [List.all_cons, Bool.and_eq_true] at h
    have ih := attach_passes rest bodies A h.2
    cases t with
    | word w => cases bodies <;> simp [attach, ih]
    | op o => simp only [Token.passes, Bool.not_eq_true'] at h; simp [attach, h.1, ih]
    | newline => simp [attach, ih]
    | body => simp [Token.passes] at h

/-! ## The parser -/

/-- The words and redirections of a simple command, up to the token that ends
it, which is left in place. -/
def parseSimple : List Token → List Word → List Redir → List Word × List Redir × List Token
  | .word w :: rest, ws, rs => parseSimple rest (ws ++ [w]) rs
  | .op o :: .word t :: rest, ws, rs =>
    if o = ascii ">" then parseSimple rest ws (rs ++ [.out t])
    else if isHereOp o then
      match rest with
      | .body b e :: rest' => parseSimple rest' ws (rs ++ [.hereDoc b e])
      | _ => (ws, rs, .op o :: .word t :: rest)
    else (ws, rs, .op o :: .word t :: rest)
  | toks, ws, rs => (ws, rs, toks)

/-- The words of `[[ ... ]]` up to `]]`, and the tokens after it. -/
def parseTest : List Token → List Word → Option (List Word × List Token)
  | .word w :: rest, ws => if w = bareWord "]]" then some (ws, rest) else parseTest rest (ws ++ [w])
  | _, _ => none

/-- Newlines skipped. -/
def skipNewlines : List Token → List Token
  | .newline :: rest => skipNewlines rest
  | toks => toks

/-- The token is the reserved word `w`. -/
def isWord (w : String) : Token → Bool
  | .word v => v = bareWord w
  | _ => false

/-- The tokens start with the reserved word `w`: the rest. -/
def expectWord (w : String) : List Token → Option (List Token)
  | t :: rest => if isWord w t then some rest else none
  | [] => none

/-- One command, `parseList` parsing the lists inside it. -/
def parseCmd (parseList : Option String → List Token → Option (List Cmd × List Token)) :
    List Token → Option (Cmd × List Token)
  | .word w :: rest =>
    if w = bareWord "if" then do
      let (c, rest) ← parseList (some "then") rest
      let rest ← expectWord "then" rest
      let (b, rest) ← parseList (some "fi") rest
      let rest ← expectWord "fi" rest
      return (.ifThen c b, rest)
    else if w = bareWord "[[" then do
      let (ws, rest) ← parseTest rest []
      return (.test ws, rest)
    else if w ∈ reserved then none
    else
      match rest with
      | .op o1 :: .op o2 :: rest' =>
        if o1 = ascii "(" ∧ o2 = ascii ")" then do
          let rest' ← expectWord "\x7b" (skipNewlines rest')
          let (b, rest') ← parseList (some "\x7d") rest'
          let rest' ← expectWord "\x7d" rest'
          return (.funcDef w.value b, rest')
        else
          let (ws, rs, rest) := parseSimple rest [w] []
          some (.simple ws rs, rest)
      | _ =>
        let (ws, rs, rest) := parseSimple rest [w] []
        some (.simple ws rs, rest)
  | _ => none

/-- A list of commands up to the reserved word `stop` (left in place), or to the
end of the tokens; `n` bounds the number of commands and of nested lists. -/
def parseList : Nat → Option String → List Token → Option (List Cmd × List Token)
  | 0, _, _ => none
  | n + 1, stop, toks =>
    match toks with
    | [] => if stop = none then some ([], []) else none
    | .newline :: rest => parseList n stop rest
    | .op o :: rest => if o = ascii ";" then parseList n stop rest else none
    | t :: rest =>
      if stop.any (isWord · t) then some ([], t :: rest)
      else do
        let (c, rest) ← parseCmd (parseList n) (t :: rest)
        match rest with
        | [] | .newline :: _ => do
          let (cs, rest) ← parseList n stop rest
          return (c :: cs, rest)
        | .op o :: _ =>
          if o = ascii ";" then do
            let (cs, rest) ← parseList n stop rest
            return (c :: cs, rest)
          else none
        | _ => none

/-- The commands of a script's tokens. -/
def parse (toks : List Token) : Option (List Cmd) :=
  let toks := attachBodies toks
  (parseList (toks.length + 1) none toks).map (·.1)

/-! ## Reading the parser

Later proofs read the parser through these equations and never unfold it. -/

section ReadSimple

variable (ws : List Word) (rs : List Redir)

theorem parseSimple_word (w : Word) (rest : List Token) :
    parseSimple (.word w :: rest) ws rs = parseSimple rest (ws ++ [w]) rs := rfl

theorem parseSimple_newline (rest : List Token) :
    parseSimple (.newline :: rest) ws rs = (ws, rs, .newline :: rest) := rfl

theorem parseSimple_out (t : Word) (rest : List Token) :
    parseSimple (.op (ascii ">") :: .word t :: rest) ws rs = parseSimple rest ws (rs ++ [.out t]) := by
  conv_lhs => unfold parseSimple
  exact if_pos rfl

theorem parseSimple_hereDoc (d : Word) (b : Bytes) (e : Bool) (rest : List Token) :
    parseSimple (.op (ascii "<<") :: .word d :: .body b e :: rest) ws rs =
      parseSimple rest ws (rs ++ [.hereDoc b e]) := rfl

theorem parseTest_word {w : Word} (rest : List Token) (hw : w ≠ bareWord "]]") :
    parseTest (.word w :: rest) ws = parseTest rest (ws ++ [w]) := by
  rw [parseTest, if_neg hw]

theorem parseTest_close (rest : List Token) :
    parseTest (.word (bareWord "]]") :: rest) ws = some (ws, rest) := by
  rw [parseTest, if_pos rfl]

end ReadSimple

section ReadCmd

variable (P : Option String → List Token → Option (List Cmd × List Token))

theorem parseCmd_ifThen {rest r1 r2 : List Token} {c b : List Cmd}
    (hc : P (some "then") rest = some (c, .word (bareWord "then") :: r1))
    (hb : P (some "fi") r1 = some (b, .word (bareWord "fi") :: r2)) :
    parseCmd P (.word (bareWord "if") :: rest) = some (.ifThen c b, r2) := by
  simp [parseCmd, hc, hb, expectWord, isWord]

theorem parseCmd_test {rest r : List Token} {ws : List Word} (h : parseTest rest [] = some (ws, r)) :
    parseCmd P (.word (bareWord "[[") :: rest) = some (.test ws, r) := by
  have : bareWord "[[" ≠ bareWord "if" := by decide
  simp [parseCmd, h, this]

theorem parseCmd_simple {w v : Word} {rest r : List Token} {ws : List Word} {rs : List Redir}
    (hw : w ∉ reserved) (hs : parseSimple (.word v :: rest) [w] [] = (ws, rs, r)) :
    parseCmd P (.word w :: .word v :: rest) = some (.simple ws rs, r) := by
  have hif : w ≠ bareWord "if" := fun e => hw (e ▸ by decide)
  have htest : w ≠ bareWord "[[" := fun e => hw (e ▸ by decide)
  simp [parseCmd, hif, htest, hw, hs]

theorem parseCmd_funcDef {w : Word} {rest r : List Token} {b : List Cmd} (hw : w ∉ reserved)
    (hb : P (some "\x7d") rest = some (b, .word (bareWord "\x7d") :: r)) :
    parseCmd P (.word w :: .op (ascii "(") :: .op (ascii ")") :: .word (bareWord "\x7b") :: rest) =
      some (.funcDef w.value b, r) := by
  have hif : w ≠ bareWord "if" := fun e => hw (e ▸ by decide)
  have htest : w ≠ bareWord "[[" := fun e => hw (e ▸ by decide)
  simp [parseCmd, hif, htest, hw, hb, skipNewlines, expectWord, isWord]

end ReadCmd

section ReadList

variable (n : Nat) (stop : Option String)

theorem parseList_newline (rest : List Token) :
    parseList (n + 1) stop (.newline :: rest) = parseList n stop rest := rfl

theorem parseList_semi (rest : List Token) :
    parseList (n + 1) stop (.op (ascii ";") :: rest) = parseList n stop rest := rfl

theorem parseList_end : parseList (n + 1) none [] = some ([], []) := rfl

theorem parseList_stop (s : String) (rest : List Token) :
    parseList (n + 1) (some s) (.word (bareWord s) :: rest) = some ([], .word (bareWord s) :: rest) := by
  simp [parseList, isWord]

/-- A command, then a newline or `;` and the rest of the list. -/
theorem parseList_cmd {w : Word} {c : Cmd} {rest r : List Token} {sep : Token}
    (hstop : stop.any (isWord · (.word w)) = false) (hsep : sep = .newline ∨ sep = .op (ascii ";"))
    (hc : parseCmd (parseList n) (.word w :: rest) = some (c, sep :: r)) :
    parseList (n + 1) stop (.word w :: rest) =
      (parseList n stop (sep :: r)).map fun x => (c :: x.1, x.2) := by
  rcases hsep with rfl | rfl <;>
  · cases h : parseList n stop _ <;> simp [parseList, hstop, hc, h]

end ReadList

/-! ## The shell -/

/-- The shell's state. -/
structure Shell where
  host : Os.Host
  /-- `set -e` was run -/
  errexit : Bool
  /-- the functions defined, the last definition first -/
  funcs : List (Bytes × List Cmd)

/-- Where a command leaves the shell. -/
inductive Flow where
  /-- the shell goes on, with the command's exit status -/
  | next (sh : Shell) (status : Nat)
  /-- the shell has exited -/
  | exit (host : Os.Host) (status : Nat)
  /-- the run reached something the model does not cover -/
  | unmodelled

/-- The value of a word with no expansion. -/
def wordValue (w : Word) : Option Bytes := if w.expands then none else some w.value

/-- `-d p`: the lookup of `p` finds a directory; `none` for a symbolic link,
which `-d` would follow, and for a lookup outside the model. -/
def isDirAt (h : Os.Host) (p : Bytes) : Option Bool :=
  match Os.walk h p with
  | .found (some ⟨.dir, _, _, _⟩) => some true
  | .found (some ⟨.symlink _, _, _, _⟩) | .unmodelled => none
  | _ => some false

/-- `[[ words ]]`: true or false. -/
def testWords (h : Os.Host) : List Word → Option Bool
  | [op, p] => if op = bareWord "-d" then (wordValue p).bind (isDirAt h) else none
  | [neg, op, p] =>
    if neg = bareWord "!" ∧ op = bareWord "-d" then ((wordValue p).bind (isDirAt h)).map (!·)
    else none
  | _ => none

/-- `mkdir p` for one operand: the host and whether it succeeded.  It fails
when the lookup of `p` fails (`ENOENT`, `ENOTDIR`, `ENAMETOOLONG`) or finds
something (`EEXIST`); `none` when the lookup leaves the model. -/
def mkdirOne (h : Os.Host) (p : Bytes) : Option (Os.Host × Bool) :=
  match Os.walk h p with
  | .found none => some ({ h with fs := h.fs.set p ⟨.dir, 0o755, h.uid, h.gid⟩ }, true)
  | .found (some _) | .broken => some (h, false)
  | .unmodelled => none

/-- An argument `mkdir` reads as an option: it starts with `-` and is not `-`. -/
def isOption (p : Bytes) : Bool := p.head? = some '-'.toUInt8 && p != ascii "-"

/-- `mkdir ops...`: each operand in order; the status is 1 if one failed. -/
def mkdir (h : Os.Host) (ops : List Bytes) : Option (Os.Host × Nat) :=
  if ops = [] then some (h, 1)
  else if ops.any isOption then none
  else do
    let r ← ops.foldlM (fun (acc : Os.Host × Bool) p => do
      let (h', ok) ← mkdirOne acc.1 p
      pure (h', acc.2 && ok)) (h, true)
    pure (r.1, if r.2 then 0 else 1)

/-- `> p`: the file emptied or created; `some none` when the redirection fails,
on a directory (`EISDIR`) or a failed lookup; `none` for a symbolic link,
which the redirection would follow, and for a lookup outside the model. -/
def openTrunc (h : Os.Host) (p : Bytes) : Option (Option Os.Host) :=
  match Os.walk h p with
  | .found (some ⟨.dir, _, _, _⟩) | .broken => some none
  | .found (some ⟨.symlink _, _, _, _⟩) | .unmodelled => none
  | .found (some i) => some (some { h with fs := h.fs.set p { i with node := .file [] } })
  | .found none => some (some { h with fs := h.fs.set p ⟨.file [], 0o644, h.uid, h.gid⟩ })

/-- `base64 -d > p << delim`: the file holds the decoded body. -/
def base64Decode (h : Os.Host) (target : Word) (body : Bytes) : Option (Os.Host × Nat) := do
  let p ← wordValue target
  match ← openTrunc h p with
  | none => return (h, 1)
  | some h' =>
    let b ← Base64.decode body
    return (Os.setContent h' p b, 0)

/-- A simple command that is not a function call. -/
def utility (sh : Shell) (name : Bytes) (args : List Word) (rs : List Redir) : Flow :=
  let args := args.mapM wordValue
  if name = ascii "set" then
    if args = some [ascii "-e"] ∧ rs = [] then .next { sh with errexit := true } 0 else .unmodelled
  else if name = ascii "mkdir" ∧ rs = [] then
    match args.bind (mkdir sh.host) with
    | some (h, st) => .next { sh with host := h } st
    | none => .unmodelled
  else if name = ascii "base64" ∧ args = some [ascii "-d"] then
    match rs with
    | [.out t, .hereDoc b false] | [.hereDoc b false, .out t] =>
      match base64Decode sh.host t b with
      | some (h, st) => .next { sh with host := h } st
      | none => .unmodelled
    | _ => .unmodelled
  else .unmodelled

/-- A list of commands, each run by `runCmd`.  `checked`: `set -e` applies,
outside the condition of an `if`.  The status is the last command's. -/
def runList (runCmd : Cmd → Shell → Flow) (checked : Bool) : List Cmd → Shell → Nat → Flow
  | [], sh, st => .next sh st
  | c :: cs, sh, _ =>
    match runCmd c sh with
    | .next sh' st =>
      if checked ∧ sh'.errexit ∧ st ≠ 0 then .exit sh'.host st else runList runCmd checked cs sh' st
    | r => r

/-- One command; `n` bounds the depth of nested lists and function calls. -/
def runCmd : Nat → Bool → Cmd → Shell → Flow
  | 0, _, _, _ => .unmodelled
  | n + 1, checked, cmd, sh =>
    match cmd with
    | .funcDef name body => .next { sh with funcs := (name, body) :: sh.funcs } 0
    | .test ws =>
      match testWords sh.host ws with
      | some b => .next sh (if b then 0 else 1)
      | none => .unmodelled
    | .ifThen c b =>
      match runList (runCmd n false) false c sh 0 with
      | .next sh' 0 => runList (runCmd n checked) checked b sh' 0
      | .next sh' _ => .next sh' 0
      | r => r
    | .simple [] _ => .unmodelled
    | .simple (w :: args) rs =>
      match wordValue w with
      | none => .unmodelled
      | some name =>
        match sh.funcs.lookup name with
        | some body => if rs = [] then runList (runCmd n checked) checked body sh 0 else .unmodelled
        | none => utility sh name args rs

/-- How a run ends. -/
inductive Exit where
  /-- the shell exits with a status, leaving the host -/
  | status (host : Os.Host) (code : Nat)
  | unmodelled
  deriving DecidableEq, Repr

/-- The depth of nesting a run may reach. -/
def maxDepth : Nat := 1000

/-- Commands run by a fresh shell on a host. -/
def run (cmds : List Cmd) (h : Os.Host) : Exit :=
  match runList (runCmd maxDepth true) true cmds ⟨h, false, []⟩ 0 with
  | .next sh st => .status sh.host st
  | .exit h' st => .status h' st
  | .unmodelled => .unmodelled

/-- `bash script` on a host. -/
def runScript (bs : Bytes) (h : Os.Host) : Exit :=
  match (lex bs).toOption.bind parse with
  | none => .unmodelled
  | some cmds => run cmds h

/-! ## One command at a time

The equations below are how later proofs read `runCmd`: they never unfold it. -/

section Steps

variable (n : Nat) (checked : Bool) (sh : Shell)

theorem runCmd_funcDef (name : Bytes) (body : List Cmd) :
    runCmd (n + 1) checked (.funcDef name body) sh =
      .next { sh with funcs := (name, body) :: sh.funcs } 0 := rfl

theorem runCmd_test (ws : List Word) :
    runCmd (n + 1) checked (.test ws) sh =
      match testWords sh.host ws with
      | some b => .next sh (if b then 0 else 1)
      | none => .unmodelled := rfl

theorem runCmd_ifThen (c b : List Cmd) :
    runCmd (n + 1) checked (.ifThen c b) sh =
      match runList (runCmd n false) false c sh 0 with
      | .next sh' 0 => runList (runCmd n checked) checked b sh' 0
      | .next sh' _ => .next sh' 0
      | r => r := rfl

/-- A call of a function the shell has defined runs its body. -/
theorem runCmd_call {w : Word} {name : Bytes} {body : List Cmd} (args : List Word)
    (hw : wordValue w = some name) (hf : sh.funcs.lookup name = some body) :
    runCmd (n + 1) checked (.simple (w :: args) []) sh = runList (runCmd n checked) checked body sh 0 := by
  simp only [runCmd, hw, hf, if_true]

/-- Any other simple command is a utility. -/
theorem runCmd_utility {w : Word} {name : Bytes} (args : List Word) (rs : List Redir)
    (hw : wordValue w = some name) (hf : sh.funcs.lookup name = none) :
    runCmd (n + 1) checked (.simple (w :: args) rs) sh = utility sh name args rs := by
  simp only [runCmd, hw, hf]

/-- `[[ ! -d w ]]` is the negation of `-d` on the word's value. -/
theorem testWords_notDir (h : Os.Host) (w : Word) :
    testWords h [bareWord "!", bareWord "-d", w] = ((wordValue w).bind (isDirAt h)).map (!·) := by
  simp [testWords]

/-- `mkdir p`, one operand: an option is not modelled; a failed lookup or an
existing path fails; otherwise the directory is made. -/
theorem mkdir_single (h : Os.Host) (p : Bytes) :
    mkdir h [p] = if isOption p then none else
      match Os.walk h p with
      | .found none => some ({ h with fs := h.fs.set p ⟨.dir, 0o755, h.uid, h.gid⟩ }, 0)
      | .found (some _) | .broken => some (h, 1)
      | .unmodelled => none := by
  unfold mkdir mkdirOne
  by_cases ho : isOption p <;> rcases hw : Os.walk h p with (_ | _) | _ | _ <;> simp [ho, hw]

theorem utility_mkdir (args : List Word) :
    utility sh (ascii "mkdir") args [] =
      match (args.mapM wordValue).bind (mkdir sh.host) with
      | some (h, st) => .next { sh with host := h } st
      | none => .unmodelled := by
  have : ascii "mkdir" ≠ ascii "set" := by decide
  unfold utility
  rw [if_neg this, if_pos ⟨rfl, rfl⟩]

theorem utility_base64 (t : Word) (b : Bytes) :
    utility sh (ascii "base64") [bareWord "-d"] [.out t, .hereDoc b false] =
      match base64Decode sh.host t b with
      | some (h, st) => .next { sh with host := h } st
      | none => .unmodelled := by
  have h1 : ascii "base64" ≠ ascii "set" := by decide
  have h2 : ascii "base64" ≠ ascii "mkdir" := by decide
  have h3 : [bareWord "-d"].mapM wordValue = some [ascii "-d"] := rfl
  unfold utility
  rw [if_neg h1, if_neg (fun h => h2 h.1), if_pos ⟨rfl, h3⟩]

theorem utility_setE : utility sh (ascii "set") [bareWord "-e"] [] = .next { sh with errexit := true } 0 :=
  rfl

end Steps

/-! ## Running lists -/

/-- Two lists run one after the other. -/
theorem runList_append (f : Cmd → Shell → Flow) (checked : Bool) (l1 l2 : List Cmd) :
    ∀ (sh : Shell) (st : Nat), runList f checked (l1 ++ l2) sh st =
      match runList f checked l1 sh st with
      | .next sh' st' => runList f checked l2 sh' st'
      | r => r := by
  induction l1 with
  | nil => exact fun _ _ => rfl
  | cons c cs ih =>
    intro sh st
    simp only [List.cons_append, runList]
    cases f c sh with
    | next sh' st' =>
      by_cases hc : checked = true ∧ sh'.errexit = true ∧ st' ≠ 0
      · simp only [if_pos hc]
      · simp only [if_neg hc]
        exact ih _ _
    | exit h st' => rfl
    | unmodelled => rfl

end Mcm.Bash
