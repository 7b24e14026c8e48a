/-
  Mcm/Shlib/Read.lean --- what bash reads from a script `WriteScript` wrote,
  and what running it does.

  THE CODE.  `WriteScript` writes the header (`#!/bin/bash`, `_() {`,
  `set -e`), then one block per resource, then the footer (`}` and the call
  `_ "$0" "$@"`).  A block is a blank line, the comment line, and for a
  directory `if [[ ! -d PATH ]]; then mkdir PATH; fi`, for a plain file with
  content `base64 -d > PATH <<!EOF!` with its here-document, and nothing more
  for a plain file without content.

  THE CHAIN.  For blocks written without error whose comments have no
  newline: bash drops the NUL bytes of the script, and the lexer reads what is
  left of each block, from any token boundary, as two newlines and the tokens
  of its commands (`foldl_block`); `attach` puts each
  here-document body after its delimiter (`attach_blocks`); the parser reads
  the blocks inside the function `_` as the block operations' commands
  (`parseList_blocks`).  So bash reads the whole script as `scriptCmds` of the
  blocks' operations (`parse_written`), and runs it as `runOps` says
  (`runScript_written`).

  WHAT IS PROVED.  `writeScript_runs_blocks`: for every catalog that
  `depgraph.New` accepts and whose comments have no newline, when
  `WriteScript` returns nil, running the script on any host is running the
  block operations in dependency order, each on its path without NUL bytes.
  `writeScript_rerun`: for those catalogs, a second run from the host a
  successful run left exits 0 and leaves the same files.  A newline in a
  comment is the one way a catalog string changes the commands bash reads; a
  NUL byte in a path changes only the path they act on.
-/
import Mcm.Shlib.HereDoc
import Mcm.Shlib.Rerun
import Mcm.Shlib.WriteOrder
import Mathlib.Data.Nat.Digits

set_option autoImplicit false

namespace Mcm.Shlib

open Mcm.Bash Mcm.Base64 Mcm.Depgraph

/-! ## A resource id has no newline -/

theorem lf_not_mem_formatUint (n : UInt64) : lf ∉ formatUint n := fun h => by
  have hd := ascii_toString_digit n.toNat lf h
  revert hd
  decide

/-! ## Blocks and their operations -/

theorem block_dir {r : Resource} {p : Bytes} (hp : r.file.path = .ok p) (hne : p ≠ [])
    (hw : r.file.which = .directory) :
    block r = [[lf], commentLine 1 r, ascii "  if [[ ! -d " ++ shellQuote p ++ space :: ascii "]]; then\n",
      ascii "    mkdir " ++ shellQuote p ++ [lf], ascii "  fi\n"] := by
  simp [block, resourcePlan, hp, hne, hw, line, Arg.render]
  exact ⟨rfl, rfl, rfl⟩

theorem block_plain_none {r : Resource} {p : Bytes} (hp : r.file.path = .ok p) (hne : p ≠ [])
    (hw : r.file.which = .plain) (hc : r.file.content = none) :
    block r = [[lf], commentLine 1 r] := by
  simp [block, resourcePlan, hp, hne, hw, hc, line]

/-- What the block of a resource does. -/
def blockOp (r : Resource) : Option Op :=
  match r.file.path, r.file.which with
  | .ok p, .directory => some (.dir p)
  | .ok p, .plain => r.file.content.map (.write p)
  | _, _ => none

/-- The tokens the lexer gives for an operation's commands. -/
def Op.toks : Op → List Token
  | .dir p => [.word (bareWord "if"), .word (bareWord "[["), .word (bareWord "!"),
      .word (bareWord "-d"), .word (readWord p), .word (bareWord "]]"), .op (ascii ";"),
      .word (bareWord "then"), .newline, .word (bareWord "mkdir"), .word (readWord p), .newline,
      .word (bareWord "fi"), .newline]
  | .write p b => [.word (bareWord "base64"), .word (bareWord "-d"), .op (ascii ">"),
      .word (readWord p), .op (ascii "<<"), .word (bareWord "!EOF!"), .newline,
      .body (encode b ++ [lf]) false]

/-- The same tokens with the here-document body after its delimiter. -/
def Op.attachedToks : Op → List Token
  | .dir p => Op.toks (.dir p)
  | .write p b => [.word (bareWord "base64"), .word (bareWord "-d"), .op (ascii ">"),
      .word (readWord p), .op (ascii "<<"), .word (bareWord "!EOF!"), .body (encode b ++ [lf]) false,
      .newline]

/-- The tokens of a resource's block: the blank line, the comment line, and the
commands. -/
def blockToks (r : Resource) : List Token :=
  .newline :: .newline :: ((blockOp r).map Op.toks).getD []

/-- The tokens of a block once the bodies are attached. -/
def blockAttached (r : Resource) : List Token :=
  .newline :: .newline :: ((blockOp r).map Op.attachedToks).getD []

/-! ## What the lexer reads

Bash drops the NUL bytes of the script as it reads it, so the lexer reads
`dropNul` of each line: the constant lines have none, a quoted path is read as
`readWord`, and a comment stays a comment. -/

theorem nul_not_mem_encode (b : Bytes) : nul ∉ encode b := fun h =>
  (mem_encode h).elim (fun h' => absurd h' (by decide)) (fun e => absurd e (by decide))

/-- A quoted word between two stretches of script, the second after a blank. -/
theorem foldl_quoted_space (t tp tq : List Token) (pre post : Bytes) {q : Bytes} {w : Word}
    (hq : ReadsAs q w)
    (hpre : pre.foldl Lexer.step Lexer.init = ⟨tp, none, [], .top, none, [], []⟩)
    (hpost : post.foldl Lexer.step Lexer.init = ⟨tq, none, [], .top, none, [], []⟩) :
    (pre ++ q ++ space :: post).foldl Lexer.step ⟨t, none, [], .top, none, [], []⟩ =
      ⟨tq ++ .word w :: (tp ++ t), none, [], .top, none, [], []⟩ := by
  rw [List.foldl_append, List.foldl_append, Lexer.foldl_boundary, hpre]
  simp only [Lexer.appendToks]
  rw [hq, List.foldl_cons, Lexer.step_top_of_op_nil rfl rfl, Lexer.bare_of_blank (by decide)]
  simp only [Lexer.endWord]
  rw [Lexer.foldl_boundary, hpost]
  rfl

/-- A quoted word at the end of a line. -/
theorem foldl_quoted_lf (t tp : List Token) (pre : Bytes) {q : Bytes} {w : Word} (hq : ReadsAs q w)
    (hpre : pre.foldl Lexer.step Lexer.init = ⟨tp, none, [], .top, none, [], []⟩) :
    (pre ++ q ++ [lf]).foldl Lexer.step ⟨t, none, [], .top, none, [], []⟩ =
      ⟨.newline :: .word w :: (tp ++ t), none, [], .top, none, [], []⟩ := by
  rw [List.foldl_append, List.foldl_append, Lexer.foldl_boundary, hpre]
  simp only [Lexer.appendToks]
  rw [hq, List.foldl_cons, Lexer.step_top_of_op_nil rfl rfl, Lexer.bare, if_pos rfl]
  rfl

theorem foldl_lf (t : List Token) :
    [lf].foldl Lexer.step ⟨t, none, [], .top, none, [], []⟩ =
      ⟨.newline :: t, none, [], .top, none, [], []⟩ := rfl

/-- A comment line with no newline in the comment is one newline token. -/
theorem foldl_commentLine_any (r : Resource) (t : List Token) (hc : lf ∉ r.comment) :
    (dropNul (commentLine 1 r)).foldl Lexer.step ⟨t, none, [], .top, none, [], []⟩ =
      ⟨.newline :: t, none, [], .top, none, [], []⟩ := by
  -- the line is `  # `, a text with no newline, and a newline
  obtain ⟨x, hx, hline⟩ : ∃ x, lf ∉ x ∧ commentLine 1 r = ascii "  # " ++ x ++ [lf] := by
    by_cases h : r.comment = []
    · refine ⟨ascii "Resource ID=" ++ formatUint r.id,
        by simpa using ⟨by decide, lf_not_mem_formatUint r.id⟩, ?_⟩
      simp [commentLine, line, Arg.render, h]
      rfl
    · exact ⟨r.comment, hc, by simp [commentLine, line, Arg.render, h]; rfl⟩
  rw [hline, dropNul_append, dropNul_append, show dropNul (ascii "  # ") = ascii "  # " from rfl]
  exact foldl_commentLine t _ fun h => hx (List.mem_of_mem_filter h)

theorem foldl_dirBlock {r : Resource} {p : Bytes} (t : List Token) (hp : r.file.path = .ok p)
    (hne : p ≠ []) (hw : r.file.which = .directory) (hc : lf ∉ r.comment) :
    (dropNul (block r).flatten).foldl Lexer.step ⟨t, none, [], .top, none, [], []⟩ =
      ⟨(blockToks r).reverse ++ t, none, [], .top, none, [], []⟩ := by
  have h1 : (ascii "  if [[ ! -d ").foldl Lexer.step Lexer.init =
      ⟨[.word (bareWord "-d"), .word (bareWord "!"), .word (bareWord "[["), .word (bareWord "if")],
        none, [], .top, none, [], []⟩ := by decide
  have h2 : (ascii "]]; then\n").foldl Lexer.step Lexer.init =
      ⟨[.newline, .word (bareWord "then"), .op (ascii ";"), .word (bareWord "]]")],
        none, [], .top, none, [], []⟩ := by decide
  have h3 : (ascii "    mkdir ").foldl Lexer.step Lexer.init =
      ⟨[.word (bareWord "mkdir")], none, [], .top, none, [], []⟩ := by decide
  have h4 : (ascii "  fi\n").foldl Lexer.step Lexer.init =
      ⟨[.newline, .word (bareWord "fi")], none, [], .top, none, [], []⟩ := by decide
  have hflat : dropNul (block r).flatten = [lf] ++ (dropNul (commentLine 1 r) ++
      ((ascii "  if [[ ! -d " ++ dropNul (shellQuote p) ++ space :: ascii "]]; then\n") ++
        ((ascii "    mkdir " ++ dropNul (shellQuote p) ++ [lf]) ++ ascii "  fi\n"))) := by
    rw [block_dir hp hne hw]
    simp only [List.flatten_cons, List.flatten_nil, List.append_nil, dropNul_append]
    rfl
  rw [hflat, List.foldl_append, foldl_lf, List.foldl_append, foldl_commentLine_any r _ hc,
    List.foldl_append, foldl_quoted_space _ _ _ _ _ (readsAs_readWord p) h1 h2,
    List.foldl_append, foldl_quoted_lf _ _ _ (readsAs_readWord p) h3, Lexer.foldl_boundary, h4]
  simp [blockToks, blockOp, hp, hw, Op.toks, Lexer.appendToks]

theorem foldl_plainBlock {r : Resource} {p b : Bytes} (t : List Token) (hp : r.file.path = .ok p)
    (hne : p ≠ []) (hw : r.file.which = .plain) (hcb : r.file.content = some b)
    (hc : lf ∉ r.comment) :
    (dropNul (block r).flatten).foldl Lexer.step ⟨t, none, [], .top, none, [], []⟩ =
      ⟨(blockToks r).reverse ++ t, none, [], .top, none, [], []⟩ := by
  have hflat : dropNul (block r).flatten = [lf] ++ (dropNul (commentLine 1 r) ++
      (ascii "  base64 -d > " ++ dropNul (shellQuote p) ++ ascii " <<!EOF!\n" ++
        (encode b ++ [lf] ++ (eofMark ++ [lf])))) := by
    rw [block_plain hp hne hw hcb]
    simp only [List.flatten_append, List.flatten_cons, List.flatten_nil, List.append_nil,
      encoderChunks_flatten, List.append_assoc, dropNul_append, dropNul_of_not_mem (nul_not_mem_encode b)]
    rfl
  rw [hflat, List.foldl_append, foldl_lf, List.foldl_append, foldl_commentLine_any r _ hc,
    List.foldl_append, foldl_opening _ (readsAs_readWord p), foldl_body]
  simp [blockToks, blockOp, hp, hw, hcb, Op.toks, eofMark, bareWord]

theorem foldl_plainNone {r : Resource} {p : Bytes} (t : List Token) (hp : r.file.path = .ok p)
    (hne : p ≠ []) (hw : r.file.which = .plain) (hcb : r.file.content = none)
    (hc : lf ∉ r.comment) :
    (dropNul (block r).flatten).foldl Lexer.step ⟨t, none, [], .top, none, [], []⟩ =
      ⟨(blockToks r).reverse ++ t, none, [], .top, none, [], []⟩ := by
  rw [block_plain_none hp hne hw hcb]
  simp only [List.flatten_cons, List.flatten_nil, List.append_nil, dropNul_append]
  rw [show dropNul [lf] = [lf] from rfl, List.foldl_append, foldl_lf, foldl_commentLine_any r _ hc]
  simp [blockToks, blockOp, hp, hw, hcb]

/-- The block of a resource written without error, whose comment has no
newline, from any token boundary. -/
theorem foldl_block (r : Resource) (t : List Token) (hok : (resourcePlan 1 r).2 = none)
    (hc : lf ∉ r.comment) :
    (dropNul (block r).flatten).foldl Lexer.step ⟨t, none, [], .top, none, [], []⟩ =
      ⟨(blockToks r).reverse ++ t, none, [], .top, none, [], []⟩ := by
  rcases hp : r.file.path with e | p
  · simp [resourcePlan, hp] at hok
  by_cases hne : p = []
  · simp [resourcePlan, hp, hne] at hok
  rcases hw : r.file.which with _ | _ | _ | _ | tag
  · cases hcb : r.file.content with
    | none => exact foldl_plainNone t hp hne hw hcb hc
    | some b => exact foldl_plainBlock t hp hne hw hcb hc
  · exact foldl_dirBlock t hp hne hw hc
  all_goals simp [resourcePlan, hp, hne, hw] at hok

/-- The blocks of resources written without error whose comments have no
newline, one after the other. -/
theorem foldl_blocks (rs : List Resource)
    (hrs : ∀ r ∈ rs, (resourcePlan 1 r).2 = none ∧ lf ∉ r.comment) : ∀ t : List Token,
    (dropNul (rs.map block).flatten.flatten).foldl Lexer.step ⟨t, none, [], .top, none, [], []⟩ =
      ⟨(rs.flatMap blockToks).reverse ++ t, none, [], .top, none, [], []⟩ := by
  induction rs with
  | nil => exact fun _ => rfl
  | cons r rs ih =>
    intro t
    have hr := hrs r (List.mem_cons_self _ _)
    rw [List.map_cons, List.flatten_cons, List.flatten_append, dropNul_append, List.foldl_append,
      foldl_block r t hr.1 hr.2, ih (fun r' h => hrs r' (List.mem_cons_of_mem _ h))]
    simp

/-- The tokens of the header. -/
def headerToks : List Token :=
  [.newline, .word (bareWord "_"), .op (ascii "("), .op (ascii ")"), .word (bareWord "\x7b"),
    .newline, .word (bareWord "set"), .word (bareWord "-e"), .newline]

/-- The tokens of the footer. -/
def footerToks : List Token :=
  [.word (bareWord "\x7d"), .newline, .word (bareWord "_"), .word (dquoted "$0"),
    .word (dquoted "$@"), .newline]

theorem foldl_header : header.flatten.foldl Lexer.step Lexer.init =
    ⟨headerToks.reverse, none, [], .top, none, [], []⟩ := by decide

theorem foldl_footer : footer.flatten.foldl Lexer.step Lexer.init =
    ⟨footerToks.reverse, none, [], .top, none, [], []⟩ := by decide

/-- A script of blocks written without error whose comments have no newline
is read as the header's tokens, each block's, and the footer's. -/
theorem lex_written (rs : List Resource)
    (hrs : ∀ r ∈ rs, (resourcePlan 1 r).2 = none ∧ lf ∉ r.comment) :
    lex (header ++ (rs.map block).flatten ++ footer).flatten =
      .ok (headerToks ++ rs.flatMap blockToks ++ footerToks) := by
  rw [lex, List.flatten_append, List.flatten_append, dropNul_append, dropNul_append,
    dropNul_of_not_mem (by decide : nul ∉ header.flatten),
    dropNul_of_not_mem (by decide : nul ∉ footer.flatten), List.foldl_append, List.foldl_append,
    foldl_header, foldl_blocks rs hrs, Lexer.foldl_boundary, foldl_footer]
  simp [Lexer.finish, Lexer.appendToks, Lexer.endOp, Lexer.endWord]

/-! ## Here-document bodies -/

theorem isHereOp_semi : isHereOp (ascii ";") = false := by decide
theorem isHereOp_out : isHereOp (ascii ">") = false := by decide
theorem isHereOp_hereDoc : isHereOp (ascii "<<") = true := by decide

/-- `attach` moves a block's body, if any, after its delimiter. -/
theorem attach_block (r : Resource) (rest bodies : List Token) :
    attach false (blockToks r ++ rest) ((blockToks r).filter Token.isBody ++ bodies) =
      blockAttached r ++ attach false rest bodies := by
  unfold blockToks blockAttached
  rcases blockOp r with _ | _ | ⟨p, b⟩
  · simp [attach, Token.isBody]
  · exact attach_passes rest bodies _ (by simp [Op.toks, Token.passes, isHereOp_semi])
  · simp [attach, Op.toks, Op.attachedToks, Token.isBody, isHereOp_out, isHereOp_hereDoc]

theorem attach_blocks (rs : List Resource) (rest bodies : List Token) :
    attach false (rs.flatMap blockToks ++ rest) ((rs.flatMap blockToks).filter Token.isBody ++ bodies) =
      rs.flatMap blockAttached ++ attach false rest bodies := by
  induction rs with
  | nil => rfl
  | cons r rs ih => simp only [List.flatMap_cons, List.filter_append, List.append_assoc, attach_block, ih]

theorem attachBodies_written (rs : List Resource) :
    attachBodies (headerToks ++ rs.flatMap blockToks ++ footerToks) =
      headerToks ++ rs.flatMap blockAttached ++ footerToks := by
  have hh : headerToks.filter Token.isBody = [] := by decide
  have hf : footerToks.filter Token.isBody = [] := by decide
  have hfp : attach false footerToks [] = footerToks := by
    simpa using attach_passes [] [] footerToks (by decide)
  simp only [attachBodies, List.filter_append, hh, hf, List.nil_append, List.append_nil,
    List.append_assoc]
  rw [attach_passes _ _ _ (by decide), ← List.append_nil (List.filter Token.isBody _), attach_blocks,
    hfp]

/-! ## What the parser reads -/

/-- A quoted path is never the word that closes `[[`. -/
theorem readWord_ne_close (p : Bytes) : readWord p ≠ bareWord "]]" := by
  intro h
  have hv : dropNul p = ascii "]]" := by rw [← readWord_value p, h]; rfl
  unfold readWord at h
  split at h
  · rw [hv] at h
    exact absurd h (by decide)
  · rename_i hn
    rw [dropNul_of_not_mem hn] at hv
    subst hv
    exact absurd h (by decide)

/-- The commands of an operation, inside the function `_`, then a newline. -/
theorem parseList_op (o : Op) (n : Nat) (rest : List Token) :
    parseList (n + 3 + 2) (some "\x7d") (o.attachedToks ++ rest) =
      (parseList (n + 3) (some "\x7d") rest).map fun x => (o.cmds ++ x.1, x.2) := by
  cases o with
  | dir p =>
    have htest : parseTest (.word (bareWord "!") :: .word (bareWord "-d") :: .word (readWord p) ::
        .word (bareWord "]]") :: .op (ascii ";") :: .word (bareWord "then") :: .newline ::
        .word (bareWord "mkdir") :: .word (readWord p) :: .newline :: .word (bareWord "fi") ::
        .newline :: rest) [] =
        some ([bareWord "!", bareWord "-d", readWord p], .op (ascii ";") :: .word (bareWord "then") ::
          .newline :: .word (bareWord "mkdir") :: .word (readWord p) :: .newline ::
          .word (bareWord "fi") :: .newline :: rest) := by
      rw [parseTest_word _ _ (by decide), parseTest_word _ _ (by decide),
        parseTest_word _ _ (readWord_ne_close p), parseTest_close]
      rfl
    have hcond : parseList (n + 4) (some "then") (.word (bareWord "[[") :: .word (bareWord "!") ::
        .word (bareWord "-d") :: .word (readWord p) :: .word (bareWord "]]") :: .op (ascii ";") ::
        .word (bareWord "then") :: .newline :: .word (bareWord "mkdir") :: .word (readWord p) ::
        .newline :: .word (bareWord "fi") :: .newline :: rest) =
        some ([.test [bareWord "!", bareWord "-d", readWord p]], .word (bareWord "then") :: .newline ::
          .word (bareWord "mkdir") :: .word (readWord p) :: .newline :: .word (bareWord "fi") ::
          .newline :: rest) := by
      rw [parseList_cmd _ _ (by decide) (.inr rfl) (parseCmd_test _ htest), parseList_semi,
        parseList_stop]
      rfl
    have hbody : parseList (n + 4) (some "fi") (.newline :: .word (bareWord "mkdir") ::
        .word (readWord p) :: .newline :: .word (bareWord "fi") :: .newline :: rest) =
        some ([.simple [bareWord "mkdir", readWord p] []], .word (bareWord "fi") :: .newline :: rest) := by
      rw [parseList_newline, parseList_cmd _ _ (by decide) (.inl rfl) (parseCmd_simple _ (by decide) rfl),
        parseList_newline, parseList_stop]
      rfl
    rw [Op.attachedToks, Op.toks]
    simp only [List.cons_append, List.nil_append]
    rw [parseList_cmd _ _ (by decide) (.inl rfl) (parseCmd_ifThen _ hcond hbody), parseList_newline]
    rfl
  | write p b =>
    have hs : parseSimple (.word (bareWord "-d") :: .op (ascii ">") :: .word (readWord p) ::
        .op (ascii "<<") :: .word (bareWord "!EOF!") :: .body (encode b ++ [lf]) false :: .newline ::
        rest) [bareWord "base64"] [] =
        ([bareWord "base64", bareWord "-d"], [.out (readWord p), .hereDoc (encode b ++ [lf]) false],
          .newline :: rest) := by
      rw [parseSimple_word, parseSimple_out, parseSimple_hereDoc, parseSimple_newline]
      rfl
    rw [Op.attachedToks]
    simp only [List.cons_append, List.nil_append]
    rw [parseList_cmd _ _ (by decide) (.inl rfl) (parseCmd_simple _ (by decide) hs), parseList_newline]
    rfl

/-- The parser's fuel a block takes: one per newline and one per command. -/
def blockCost (r : Resource) : Nat :=
  match blockOp r with
  | some _ => 4
  | none => 2

theorem blockCost_le (r : Resource) : blockCost r ≤ (blockAttached r).length := by
  unfold blockCost blockAttached
  rcases blockOp r with _ | _ | _ <;> simp [Op.attachedToks, Op.toks]

/-- A block inside the function `_`: its operation's commands, if any. -/
theorem parseList_block (r : Resource) (n : Nat) (rest : List Token) :
    parseList (n + 3 + blockCost r) (some "\x7d") (blockAttached r ++ rest) =
      (parseList (n + 3) (some "\x7d") rest).map
        fun x => (((blockOp r).map Op.cmds).getD [] ++ x.1, x.2) := by
  unfold blockCost blockAttached
  cases blockOp r with
  | none =>
    show parseList (n + 3) _ rest = _
    cases parseList (n + 3) _ rest <;> rfl
  | some o =>
    show parseList (n + 3 + 2) _ (o.attachedToks ++ rest) = _
    rw [parseList_op]
    rfl

/-- The blocks inside the function `_`: the commands of their operations, in order. -/
theorem parseList_blocks (rs : List Resource) (rest : List Token) : ∀ n : Nat,
    parseList (n + 3 + (rs.map blockCost).sum) (some "\x7d") (rs.flatMap blockAttached ++ rest) =
      (parseList (n + 3) (some "\x7d") rest).map
        fun x => ((rs.filterMap blockOp).flatMap Op.cmds ++ x.1, x.2) := by
  induction rs with
  | nil =>
    intro n
    show parseList (n + 3) _ rest = _
    cases parseList (n + 3) _ rest <;> rfl
  | cons r rs ih =>
    intro n
    rw [List.map_cons, List.sum_cons, List.flatMap_cons, List.append_assoc,
      show n + 3 + (blockCost r + (rs.map blockCost).sum) =
        n + (rs.map blockCost).sum + 3 + blockCost r by omega,
      parseList_block, show n + (rs.map blockCost).sum + 3 = n + 3 + (rs.map blockCost).sum by omega,
      ih, Option.map_map]
    cases hr : blockOp r <;> cases parseList (n + 3) _ rest <;>
      simp only [Option.map_none', Option.map_some', Option.getD_none, Option.getD_some,
        List.nil_append, Prod.mk.eta, Function.comp_apply, hr, Option.some.injEq,
        List.filterMap_cons_none, List.filterMap_cons_some, List.flatMap_cons, List.append_assoc]

theorem sum_blockCost_le (rs : List Resource) :
    (rs.map blockCost).sum ≤ (rs.flatMap blockAttached).length := by
  induction rs with
  | nil => exact le_rfl
  | cons r rs ih =>
    rw [List.map_cons, List.sum_cons, List.flatMap_cons, List.length_append]
    exact Nat.add_le_add (blockCost_le r) ih

/-- The parser reads the tokens of a script as the function `_`, whose body is
`set -e` and the blocks' commands, and its call. -/
theorem parse_written (rs : List Resource) :
    parse (headerToks ++ rs.flatMap blockToks ++ footerToks) = some (scriptCmds (rs.filterMap blockOp)) := by
  obtain ⟨m, hm⟩ : ∃ m, (rs.flatMap blockAttached).length + 11 = m + 3 + (rs.map blockCost).sum :=
    ⟨(rs.flatMap blockAttached).length + 8 - (rs.map blockCost).sum, by
      have := sum_blockCost_le rs; omega⟩
  have hbody : parseList ((rs.flatMap blockAttached).length + 14) (some "\x7d")
      (.newline :: .word (bareWord "set") :: .word (bareWord "-e") :: .newline ::
        (rs.flatMap blockAttached ++ footerToks)) =
      some (bodyCmds (rs.filterMap blockOp), footerToks) := by
    rw [parseList_newline, parseList_cmd _ _ (by decide) (.inl rfl) (parseCmd_simple _ (by decide) rfl),
      parseList_newline, hm, parseList_blocks, footerToks, parseList_stop]
    simp [bodyCmds]
  have hlen : (headerToks ++ rs.flatMap blockAttached ++ footerToks).length + 1 =
      (rs.flatMap blockAttached).length + 16 := by
    simp only [List.length_append, headerToks, footerToks, List.length_cons, List.length_nil]
    omega
  rw [parse, attachBodies_written, hlen]
  rw [headerToks]
  simp only [List.cons_append, List.nil_append]
  rw [parseList_newline, parseList_cmd _ none rfl (.inl rfl) (parseCmd_funcDef _ (by decide) hbody),
    parseList_newline, parseList_cmd _ none rfl (.inl rfl) (parseCmd_simple _ (by decide) rfl),
    parseList_newline, parseList_end]
  rfl

/-! ## Running a script `WriteScript` wrote -/

/-- Bash runs a script of blocks written without error, whose comments have no
newline, as the blocks' operations. -/
theorem runScript_written (rs : List Resource)
    (hrs : ∀ r ∈ rs, (resourcePlan 1 r).2 = none ∧ lf ∉ r.comment) (h : Os.Host) :
    runScript (header ++ (rs.map block).flatten ++ footer).flatten h =
      run (scriptCmds (rs.filterMap blockOp)) h := by
  rw [runScript, lex_written rs hrs]
  simp only [Except.toOption, Option.bind, parse_written]

/-- For every catalog that `depgraph.New` accepts and whose comments have no
newline, and every `Ready()` that meets its contract: when `WriteScript`
returns nil, running the script on any host runs the operations of the blocks,
on their paths as bash reads them, in an order where each resource comes after
its dependencies. -/
theorem writeScript_runs_blocks (rd : Graph → List UInt64) (hrd : ReadyContract rd) (w : Writer)
    (c : Catalog) (g : Graph) (hnew : Depgraph.new c.resources = .ok g)
    (hc : ∀ r ∈ c.resources, lf ∉ r.comment) :
    ∃ o, writeScript rd w c = some o ∧
      (o.err = none → ∃ order : List Resource, order.Perm c.resources ∧ DepOrdered order ∧
        ∀ h, runScript o.written.flatten h =
          match runOps h ((order.filterMap blockOp).map Op.clean) with
          | .ok h' => .status h' 0
          | .fail h' => .status h' 1
          | .unmodelled => .unmodelled) := by
  obtain ⟨o, ho, -, hok⟩ := writeScript_spec rd hrd w c g hnew
  refine ⟨o, ho, fun hnil => ?_⟩
  obtain ⟨order, hperm, hord, hplan, hw⟩ := hok hnil
  refine ⟨order, hperm, hord, fun h => ?_⟩
  rw [hw, runScript_written order (fun r hr => ⟨hplan r hr, hc r (hperm.subset hr)⟩)]
  exact run_scriptCmds _ h

/-- The directories `/d` and `/d/e`, on an otherwise empty host. -/
def nestedHost : Os.Host :=
  { emptyHost with fs := [(ascii "/d", ⟨.dir, 0o755, 0, 0⟩), (ascii "/d/e", ⟨.dir, 0o755, 0, 0⟩)] }

end Mcm.Shlib
