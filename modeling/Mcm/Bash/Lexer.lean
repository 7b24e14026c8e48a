/-
  Mcm/Bash/Lexer.lean --- bash's token recognition, as far as a script written by
  `shlib.WriteScript` reaches it.

  WHAT THIS FILE IS FOR.  Several properties of the shell generator are about
  what bash makes of the bytes it writes: a quoted path must come back as one
  word with the path as its value, a here-document must end where it was meant
  to end, and a comment must not turn into a command.  Bash is not part of the
  repository, so the lexer below is a model of it, written from the rules of
  the bash manual (QUOTING, COMMENTS, Here Documents) and of POSIX 2.3 (token
  recognition), not from any source file.

  THE MODEL.  `lex` is a byte-at-a-time state machine folded over the script.
  It keeps, for every byte of a word, the quoting it was read under (`Piece`),
  so that quote removal (`Word.value`) and the question "does an expansion
  apply to this word" (`Word.expands`) are functions of the token alone.
  Operators are read by maximal munch over bash's operator list.  A `#` that
  begins a word starts a comment up to the newline.  A `<<` or `<<-` makes the
  next word a here-document delimiter, and after the next newline the bodies of
  the pending here-documents are read line by line, each up to a line equal to
  its delimiter.  Bash drops every NUL byte of its input before the tokenizer
  reads it; `lex` does the same (`dropNul`), so `step` never meets one.

  SCOPE.  Command substitution `$(...)`, arithmetic expansion and process
  substitution are not parsed recursively: their `$` is recorded as an
  expanding byte, which is all that the properties below need.  Reserved words
  (`if`, `then`, `[[`, `{`) are words here; the parser that gives them meaning
  is in `Mcm.Bash.Run`.
-/
import Mcm.Basic

set_option autoImplicit false

namespace Mcm.Bash

/-! ## Words -/

/-- How a byte of a word was quoted when the lexer read it. -/
inductive Quoting where
  /-- not quoted -/
  | bare
  /-- between single quotes -/
  | single
  /-- between double quotes -/
  | double
  /-- after a backslash -/
  | escaped
  deriving DecidableEq, Repr

/-- One byte of a word, with the quoting it was read under. -/
structure Piece where
  byte : UInt8
  quoting : Quoting
  deriving DecidableEq, Repr

/-- A word: its bytes in order, quote characters already removed. -/
abbrev Word := List Piece

/-- Bytes that begin an expansion when bash reads them unquoted: parameter
expansion and command substitution, pathname expansion, tilde and brace
expansion. -/
def bareExpansion : Bytes := ascii "$`*?[~\x7b"

/-- Whether the byte starts an expansion where it stands.  Inside double
quotes only `$` and the backquote do. -/
def Piece.expands (p : Piece) : Bool :=
  match p.quoting with
  | .bare => bareExpansion.contains p.byte
  | .double => p.byte == dollar || p.byte == backquote
  | .single | .escaped => false

namespace Word

/-- The word after quote removal. -/
def value (w : Word) : Bytes := w.map Piece.byte

/-- Some byte of the word was quoted. -/
def quoted (w : Word) : Bool := w.any (fun p => p.quoting != .bare)

/-- Some expansion applies to the word. -/
def expands (w : Word) : Bool := w.any Piece.expands

/-- A word read with no quoting at all. -/
def ofBare (s : Bytes) : Word := s.map (⟨·, .bare⟩)

end Word

/-! ## Tokens -/

/-- A token of the script. -/
inductive Token where
  /-- a word, reserved words included -/
  | word (w : Word)
  /-- a control or redirection operator -/
  | op (text : Bytes)
  /-- an unquoted newline -/
  | newline
  /-- a here-document body; `expands` when bash will expand it -/
  | body (text : Bytes) (expands : Bool)
  deriving DecidableEq, Repr

/-- A token without the text of its words and bodies: what the grammar sees. -/
inductive Shape where
  | word
  | op (text : Bytes)
  | newline
  | body (expands : Bool)
  deriving DecidableEq, Repr

/-- The shape of a token. -/
def Token.shape : Token → Shape
  | .word _ => .word
  | .op o => .op o
  | .newline => .newline
  | .body _ e => .body e

/-- Bash's control and redirection operators. -/
def operators : List Bytes :=
  ["&&", "||", ";;", ";&", ";;&", "|&", "<<", "<<-", "<<<", ">>", "<&", ">&", "<>",
    ">|", "&>", "&>>", "|", "&", ";", "(", ")", "<", ">"].map ascii

/-- A metacharacter other than a blank or a newline: it begins an operator. -/
def isMeta (b : UInt8) : Bool := (ascii "|&;()<>").contains b

/-- A blank. -/
def isBlank (b : UInt8) : Bool := b == space || b == tab

/-- Some operator starts with these bytes. -/
def startsOp (o : Bytes) : Bool := operators.any (fun x => o.isPrefixOf x)

/-- A here-document waiting for its body. -/
structure HereDoc where
  delim : Bytes
  /-- introduced by `<<-`: leading tabs of its lines are removed -/
  strip : Bool
  /-- some byte of the delimiter word was quoted: the body is not expanded -/
  quoted : Bool
  deriving DecidableEq, Repr

/-- Bytes that make an unquoted here-document body subject to expansion. -/
def bodyExpansion : Bytes := [dollar, backquote, backslash]

/-- Leading tabs removed. -/
def stripTabs : Bytes → Bytes
  | [] => []
  | b :: bs => if b = tab then stripTabs bs else b :: bs

/-! ## The state machine -/

/-- Where the lexer is. -/
inductive Mode where
  /-- outside quotes: between tokens, or in the unquoted part of a word -/
  | top
  | single
  | double
  /-- after an unquoted backslash -/
  | escape
  /-- after a backslash inside double quotes -/
  | dqEscape
  | comment
  /-- reading here-document bodies; `line` is the current line so far -/
  | hereDoc (line : Bytes)
  deriving DecidableEq, Repr

/-- The lexer's state. -/
structure Lexer where
  /-- tokens read so far, the last one first -/
  toks : List Token
  /-- the word being read -/
  word : Option Word
  /-- the operator being read -/
  op : Bytes
  mode : Mode
  /-- the last operator was `<<` (`false`) or `<<-` (`true`) -/
  delimNext : Option Bool
  /-- here-documents whose bodies come after the next newline -/
  pending : List HereDoc
  /-- the body of the first pending here-document, read so far -/
  body : Bytes
  deriving DecidableEq, Repr

namespace Lexer

/-- The state before the first byte. -/
def init : Lexer := ⟨[], none, [], .top, none, [], []⟩

/-- Add a byte to the word being read, starting one if needed. -/
def push (st : Lexer) (p : Piece) : Lexer := { st with word := some (st.word.getD [] ++ [p]) }

/-- A quote starts a word even if nothing follows it. -/
def start (st : Lexer) : Lexer := { st with word := some (st.word.getD []) }

/-- The word being read is complete.  After `<<` it is a delimiter. -/
def endWord (st : Lexer) : Lexer :=
  match st.word, st.delimNext with
  | none, _ => st
  | some w, none => { st with toks := .word w :: st.toks, word := none }
  | some w, some strip =>
    { st with toks := .word w :: st.toks, word := none, delimNext := none,
              pending := st.pending ++ [⟨w.value, strip, w.quoted⟩] }

/-- The operator being read is complete. -/
def endOp (st : Lexer) : Lexer :=
  if st.op = [] then st
  else
    { st with toks := .op st.op :: st.toks, op := [],
              delimNext := if st.op = ascii "<<" then some false
                else if st.op = ascii "<<-" then some true else st.delimNext }

/-- An unquoted newline ends the line; pending here-documents start after it. -/
def newline (st : Lexer) : Lexer :=
  let st := st.endWord
  { st with toks := .newline :: st.toks, mode := if st.pending = [] then .top else .hereDoc [] }

/-- One byte outside quotes, with no operator being read. -/
def bare (st : Lexer) (b : UInt8) : Lexer :=
  if b = lf then st.newline
  else if isBlank b then st.endWord
  else if isMeta b then { st.endWord with op := [b] }
  else if b = apostrophe then { st.start with mode := .single }
  else if b = dquote then { st.start with mode := .double }
  else if b = backslash then { st with mode := .escape }
  else if b = hashMark ∧ st.word = none then { st with mode := .comment }
  else st.push ⟨b, .bare⟩

/-- A complete here-document line: the delimiter ends the first pending body. -/
def hereLine (st : Lexer) (line : Bytes) : Lexer :=
  match st.pending with
  | [] => { st with mode := .top }
  | h :: rest =>
    let l := if h.strip then stripTabs line else line
    if l = h.delim then
      { st with toks := .body st.body (!h.quoted && st.body.any bodyExpansion.contains) :: st.toks,
                body := [], pending := rest, mode := if rest = [] then .top else .hereDoc [] }
    else { st with body := st.body ++ l ++ [lf], mode := .hereDoc [] }

/-- Read one byte.  Bash's input layer has dropped the NUL bytes before the
lexer reads (`dropNul`). -/
def step (st : Lexer) (b : UInt8) : Lexer :=
  match st.mode with
  | .top =>
    if st.op = [] then st.bare b
    else if startsOp (st.op ++ [b]) then { st with op := st.op ++ [b] }
    else st.endOp.bare b
  | .single => if b = apostrophe then { st with mode := .top } else st.push ⟨b, .single⟩
  | .double =>
    if b = dquote then { st with mode := .top }
    else if b = backslash then { st with mode := .dqEscape }
    else st.push ⟨b, .double⟩
  | .escape => if b = lf then { st with mode := .top } else { st.push ⟨b, .escaped⟩ with mode := .top }
  | .dqEscape =>
    if b = lf then { st with mode := .double }
    else if b = dollar ∨ b = backquote ∨ b = dquote ∨ b = backslash then
      { st.push ⟨b, .escaped⟩ with mode := .double }
    else { (st.push ⟨backslash, .double⟩).push ⟨b, .double⟩ with mode := .double }
  | .comment => if b = lf then st.newline else st
  | .hereDoc line => if b = lf then st.hereLine line else { st with mode := .hereDoc (line ++ [b]) }

/-- Why a script does not lex. -/
inductive Error where
  /-- end of input inside single or double quotes -/
  | unterminatedQuote
  deriving DecidableEq, Repr

/-- End of input.  A here-document cut off by the end of input keeps what was
read, as bash does after its warning. -/
def finish (st : Lexer) : Except Error (List Token) :=
  match st.mode with
  | .top | .comment => .ok st.endOp.endWord.toks.reverse
  | .escape => .ok (st.push ⟨backslash, .bare⟩).endWord.toks.reverse
  | .hereDoc line => .ok (Token.body (st.body ++ line) false :: st.toks).reverse
  | .single | .double | .dqEscape => .error .unterminatedQuote

/-! ## One step in each mode

The lemmas below are the only places where `step` is unfolded: the properties
of quoted words and of whole scripts are proved from them. -/

variable {st : Lexer} {b : UInt8}

theorem step_top_of_op_nil (hm : st.mode = .top) (ho : st.op = []) : st.step b = st.bare b := by
  simp [step, hm, ho]

theorem step_single_apostrophe (hm : st.mode = .single) :
    st.step apostrophe = { st with mode := .top } := by
  simp [step, hm]

theorem step_single_of_ne (hm : st.mode = .single) (hb : b ≠ apostrophe) :
    st.step b = st.push ⟨b, .single⟩ := by
  simp [step, hm, hb]

theorem step_escape_of_ne (hm : st.mode = .escape) (hb : b ≠ lf) :
    st.step b = { st.push ⟨b, .escaped⟩ with mode := .top } := by
  simp [step, hm, hb]

theorem bare_apostrophe : st.bare apostrophe = { st.start with mode := .single } := by
  rw [bare, if_neg (by decide), if_neg (by decide), if_neg (by decide), if_pos rfl]

theorem bare_backslash : st.bare backslash = { st with mode := .escape } := by
  rw [bare, if_neg (by decide), if_neg (by decide), if_neg (by decide), if_neg (by decide),
    if_neg (by decide), if_pos rfl]

theorem bare_of_blank (h : isBlank b = true) : st.bare b = st.endWord := by
  have hb : b ≠ lf := by rintro rfl; exact absurd h (by decide)
  simp [bare, hb, h]

/-- A byte with no meaning to the lexer outside quotes joins the word. -/
theorem bare_of_plain (h1 : b ≠ lf) (h2 : isBlank b = false) (h3 : isMeta b = false)
    (h4 : b ≠ apostrophe) (h5 : b ≠ dquote) (h6 : b ≠ backslash) (h7 : b ≠ hashMark) :
    st.bare b = st.push ⟨b, .bare⟩ := by
  simp [bare, h1, h2, h3, h4, h5, h6, h7]

theorem step_hereDoc_of_ne {line : Bytes} (hm : st.mode = .hereDoc line) (hb : b ≠ lf) :
    st.step b = { st with mode := .hereDoc (line ++ [b]) } := by
  simp [step, hm, hb]

theorem step_hereDoc_lf {line : Bytes} (hm : st.mode = .hereDoc line) :
    st.step lf = st.hereLine line := by
  simp [step, hm]

/-- A line that is not the delimiter joins the body. -/
theorem hereLine_of_ne {line : Bytes} {h : HereDoc} {rest : List HereDoc}
    (hp : st.pending = h :: rest) (hs : h.strip = false) (hne : line ≠ h.delim) :
    st.hereLine line = { st with body := st.body ++ line ++ [lf], mode := .hereDoc [] } := by
  simp [hereLine, hp, hs, hne]

/-- The delimiter line ends the first pending here-document. -/
theorem hereLine_of_eq {line : Bytes} {h : HereDoc} {rest : List HereDoc}
    (hp : st.pending = h :: rest) (hs : h.strip = false) (he : line = h.delim) :
    st.hereLine line =
      { st with toks := .body st.body (!h.quoted && st.body.any bodyExpansion.contains) :: st.toks,
                body := [], pending := rest, mode := if rest = [] then .top else .hereDoc [] } := by
  simp [hereLine, hp, hs, he]

/-- Bytes without a newline extend the current here-document line. -/
theorem foldl_hereDoc {line : Bytes} (bs : Bytes) (hbs : lf ∉ bs) : ∀ st : Lexer,
    st.mode = .hereDoc line → bs.foldl step st = { st with mode := .hereDoc (line ++ bs) } := by
  induction bs generalizing line with
  | nil => intro st hm; cases st; simp_all
  | cons b bs ih =>
    intro st hm
    have hb : b ≠ lf := fun e => hbs (e ▸ List.mem_cons_self _ _)
    rw [List.foldl_cons, step_hereDoc_of_ne hm hb, ih (fun h => hbs (List.mem_cons_of_mem _ h)) _ rfl]
    simp

/-- Bytes without a newline are skipped in a comment. -/
theorem foldl_comment (bs : Bytes) (hbs : lf ∉ bs) : ∀ st : Lexer,
    st.mode = .comment → bs.foldl step st = st := by
  induction bs with
  | nil => exact fun _ _ => rfl
  | cons b bs ih =>
    intro st hm
    have hb : b ≠ lf := fun e => hbs (e ▸ List.mem_cons_self _ _)
    rw [List.foldl_cons, show st.step b = st by simp [step, hm, hb]]
    exact ih (fun h => hbs (List.mem_cons_of_mem _ h)) st hm

/-- A whole line other than the delimiter joins the body. -/
theorem foldl_bodyLine {h : HereDoc} {rest : List HereDoc} (l : Bytes) (hl : lf ∉ l)
    (hm : st.mode = .hereDoc []) (hp : st.pending = h :: rest) (hs : h.strip = false)
    (hne : l ≠ h.delim) :
    (l ++ [lf]).foldl step st = { st with body := st.body ++ l ++ [lf], mode := .hereDoc [] } := by
  rw [List.foldl_append, foldl_hereDoc l hl st hm, List.foldl_cons, List.foldl_nil,
    step_hereDoc_lf rfl, @hereLine_of_ne { st with mode := .hereDoc ([] ++ l) } _ _ _ hp hs (by simpa using hne)]
  simp

/-- The delimiter line ends the first pending here-document. -/
theorem foldl_delimLine {h : HereDoc} {rest : List HereDoc} (hl : lf ∉ h.delim)
    (hm : st.mode = .hereDoc []) (hp : st.pending = h :: rest) (hs : h.strip = false) :
    (h.delim ++ [lf]).foldl step st =
      { st with toks := .body st.body (!h.quoted && st.body.any bodyExpansion.contains) :: st.toks,
                body := [], pending := rest, mode := if rest = [] then .top else .hereDoc [] } := by
  rw [List.foldl_append, foldl_hereDoc _ hl st hm, List.foldl_cons, List.foldl_nil,
    step_hereDoc_lf rfl, @hereLine_of_eq { st with mode := .hereDoc ([] ++ h.delim) } _ _ _ hp hs (List.nil_append _)]

/-! ## The lexer never reads the tokens it has emitted -/

/-- Tokens emitted before the state. -/
def appendToks (st : Lexer) (t : List Token) : Lexer := { st with toks := st.toks ++ t }

variable (t : List Token)

@[simp] theorem appendToks_word : (st.appendToks t).word = st.word := rfl
@[simp] theorem appendToks_mode : (st.appendToks t).mode = st.mode := rfl
@[simp] theorem appendToks_op : (st.appendToks t).op = st.op := rfl

theorem endWord_appendToks : (st.appendToks t).endWord = st.endWord.appendToks t := by
  unfold endWord appendToks
  split <;> simp_all

theorem endOp_appendToks : (st.appendToks t).endOp = st.endOp.appendToks t := by
  unfold endOp appendToks
  split <;> simp_all

theorem newline_appendToks : (st.appendToks t).newline = st.newline.appendToks t := by
  simp only [newline, endWord_appendToks]
  rfl

theorem bare_appendToks : (st.appendToks t).bare b = (st.bare b).appendToks t := by
  unfold bare
  simp only [newline_appendToks, endWord_appendToks, appendToks_word, apply_ite (appendToks · t)]
  rfl

theorem hereLine_appendToks (line : Bytes) :
    (st.appendToks t).hereLine line = (st.hereLine line).appendToks t := by
  unfold hereLine appendToks
  split <;> simp_all
  split_ifs <;> rfl

theorem step_appendToks : (st.appendToks t).step b = (st.step b).appendToks t := by
  unfold step
  simp only [appendToks_mode, appendToks_op]
  split
  · split_ifs
    · exact bare_appendToks t
    · rfl
    · rw [endOp_appendToks, bare_appendToks]
  all_goals
    split_ifs <;> first | rfl | exact newline_appendToks t | exact hereLine_appendToks t _

theorem foldl_appendToks (bs : Bytes) : ∀ st : Lexer,
    bs.foldl step (st.appendToks t) = (bs.foldl step st).appendToks t := by
  induction bs with
  | nil => exact fun _ => rfl
  | cons b bs ih => exact fun st => by rw [List.foldl_cons, step_appendToks, ih]; rfl

/-- A run from a token boundary is the run from the initial state, after the
tokens read before the boundary. -/
theorem foldl_boundary (bs : Bytes) :
    bs.foldl step ⟨t, none, [], .top, none, [], []⟩ = (bs.foldl step init).appendToks t :=
  foldl_appendToks t bs init

end Lexer

/-- The bytes of a script that reach the lexer: bash's input layer drops every
NUL byte. -/
def dropNul (bs : Bytes) : Bytes := bs.filter (· != nul)

@[simp] theorem dropNul_append (a b : Bytes) : dropNul (a ++ b) = dropNul a ++ dropNul b :=
  List.filter_append ..

theorem dropNul_cons {b : UInt8} (bs : Bytes) (hb : b ≠ nul) : dropNul (b :: bs) = b :: dropNul bs := by
  simp [dropNul, hb]

@[simp] theorem dropNul_nul_cons (bs : Bytes) : dropNul (nul :: bs) = dropNul bs := by
  simp [dropNul]

theorem dropNul_of_not_mem {bs : Bytes} (h : nul ∉ bs) : dropNul bs = bs :=
  List.filter_eq_self.mpr fun _ hb => bne_iff_ne.mpr fun e => h (e ▸ hb)

/-- The tokens of a script. -/
def lex (bs : Bytes) : Except Lexer.Error (List Token) :=
  ((dropNul bs).foldl Lexer.step Lexer.init).finish

end Mcm.Bash
