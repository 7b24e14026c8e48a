/-
  Mcm/Shlib/Comment.lean --- the comment line of a resource's block.

  THE CODE.  `gen.resource` starts a resource's block with its comment, written
  after `# ` as `script(c)`: as it is, not quoted, newlines kept.

  WHAT IS PROVED.  `commentLine_reads_as_comment`: a comment with no newline
  is read as a comment, whatever its bytes, and leaves bash at a token boundary
  after one newline token.  `writeScript_comment_newline_adds_command`: a newline ends
  the comment and bash reads what follows as a command, so two catalogs that
  differ only in the text of one comment give scripts whose tokens have
  different shapes.
-/
import Mcm.Shlib.Script

set_option autoImplicit false

namespace Mcm.Shlib

open Mcm.Bash Mcm.Depgraph

/-- A comment line with no newline in its text is one newline token. -/
theorem foldl_commentLine (t : List Token) (c : Bytes) (hc : lf ∉ c) :
    (ascii "  # " ++ c ++ [lf]).foldl Lexer.step ⟨t, none, [], .top, none, [], []⟩ =
      ⟨.newline :: t, none, [], .top, none, [], []⟩ := by
  have hhash : (ascii "  # ").foldl Lexer.step Lexer.init = ⟨[], none, [], .comment, none, [], []⟩ := by
    decide
  rw [List.foldl_append, List.foldl_append, Lexer.foldl_boundary, hhash]
  simp only [Lexer.appendToks, List.nil_append]
  rw [Lexer.foldl_comment c hc _ rfl]
  rfl

/-- The comment line of a resource whose comment has no newline is read as a
comment. -/
theorem commentLine_reads_as_comment (r : Resource) (t : List Token) (h1 : r.comment ≠ [])
    (h2 : lf ∉ r.comment) :
    (commentLine 1 r).foldl Lexer.step ⟨t, none, [], .top, none, [], []⟩ =
      ⟨.newline :: t, none, [], .top, none, [], []⟩ := by
  have hline : commentLine 1 r = ascii "  # " ++ r.comment ++ [lf] := by
    simp [commentLine, line, Arg.render, h1]
    rfl
  rw [hline]
  exact foldl_commentLine t _ h2

/-- A catalog of one directory, `/d`, with the given comment. -/
def commentCatalog (comment : Bytes) : Catalog :=
  ⟨[⟨1, comment, [], .file, ⟨.ok (ascii "/d"), .directory, none⟩⟩]⟩

set_option maxRecDepth 20000 in
/-- The catalogs with comments `x` and `x` newline `mkdir /q` have the same
resource; `WriteScript` succeeds on both, and the second script has the extra
command `mkdir /q`, so the token shapes of the two scripts differ. -/
theorem writeScript_comment_newline_adds_command : ∃ o1 o2 : Outcome,
    writeScript Graph.ready (fun _ _ => none) (commentCatalog (ascii "x")) = some o1 ∧
    writeScript Graph.ready (fun _ _ => none) (commentCatalog (ascii "x\nmkdir /q")) = some o2 ∧
    o1.err = none ∧ o2.err = none ∧
    (lex o1.written.flatten).map (List.map Token.shape) ≠
      (lex o2.written.flatten).map (List.map Token.shape) :=
  ⟨_, _, rfl, rfl, rfl, rfl, by decide⟩

end Mcm.Shlib
