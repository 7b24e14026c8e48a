/-
  Mcm/Shlib/HereDoc.lean --- the here-document of a plain file.

  THE CODE.  For a plain file with content, `gen.resource` writes the line
  `base64 -d > PATH <<!EOF!`, then the content through a `base64.NewEncoder`
  that it closes, then `\n!EOF!\n`.  The delimiter is unquoted, so bash would
  expand `$`, the backquote and the backslash in the body; the body is safe
  only because the base64 alphabet has none of them, nor a newline, nor `!`.

  WHAT IS PROVED.  `hereDoc_decodes_to_content`: the block has that shape; the
  encoder's chunks make up `encode b`; bash reads the opening line as the
  command `base64 -d` with its output redirected to the path, read back as one
  word, and reads the body, not expanded, as the single line `encode b` up to
  the delimiter line; and `base64 -d` turns that body back into `b`.  The lexer
  is run from any token boundary, whatever came before.
-/
import Mcm.Shlib.Script

set_option autoImplicit false

namespace Mcm.Shlib

open Mcm.Bash Mcm.Base64

/-- The here-document delimiter `gen.resource` uses. -/
def eofMark : Bytes := ascii "!EOF!"

/-! ## The body is inert -/

theorem alphabet_inert : ∀ c ∈ padChar :: encodeStd,
    c ≠ lf ∧ c ∉ bodyExpansion ∧ c ≠ '!'.toUInt8 := by decide

/-- No character of an encoding is a newline, expands, or is `!`. -/
theorem encode_inert {b : Bytes} {c : UInt8} (h : c ∈ encode b) :
    c ≠ lf ∧ c ∉ bodyExpansion ∧ c ≠ '!'.toUInt8 :=
  alphabet_inert c ((mem_encode h).elim (List.mem_cons_of_mem _) (· ▸ List.mem_cons_self _ _))

theorem encode_ne_eofMark (b : Bytes) : encode b ≠ eofMark := fun h =>
  (encode_inert (h ▸ List.mem_cons_self _ _ : '!'.toUInt8 ∈ encode b)).2.2 rfl

/-! ## What bash reads -/

/-- The command `base64 -d` and the redirection `>`. -/
theorem lex_opening_head : (ascii "  base64 -d > ").foldl Lexer.step Lexer.init =
    ⟨[.op (ascii ">"), .word (.ofBare (ascii "-d")), .word (.ofBare (ascii "base64"))],
      none, [], .top, none, [], []⟩ := by decide

/-- The operator `<<` and the delimiter word; the newline starts the body. -/
theorem lex_opening_tail : (ascii "<<!EOF!\n").foldl Lexer.step Lexer.init =
    ⟨[.newline, .word (.ofBare eofMark), .op (ascii "<<")], none, [], .hereDoc [], none,
      [⟨eofMark, false, false⟩], []⟩ := by decide

/-- The opening line, with path bytes the lexer reads as the word `w`, leaves
bash reading the body of an unquoted here-document delimited by `!EOF!`. -/
theorem foldl_opening (t : List Token) {q : Bytes} {w : Word} (hq : ReadsAs q w) :
    (ascii "  base64 -d > " ++ q ++ ascii " <<!EOF!\n").foldl Lexer.step
        ⟨t, none, [], .top, none, [], []⟩ =
      ⟨[.newline, .word (.ofBare eofMark), .op (ascii "<<"), .word w, .op (ascii ">"),
        .word (.ofBare (ascii "-d")), .word (.ofBare (ascii "base64"))] ++ t,
        none, [], .hereDoc [], none, [⟨eofMark, false, false⟩], []⟩ := by
  have hsp : ascii " <<!EOF!\n" = space :: ascii "<<!EOF!\n" := rfl
  rw [hsp, List.foldl_append, List.foldl_append, Lexer.foldl_boundary, lex_opening_head]
  simp only [Lexer.appendToks]
  rw [hq, List.foldl_cons, Lexer.step_top_of_op_nil rfl rfl,
    Lexer.bare_of_blank (by decide)]
  simp only [Lexer.endWord]
  rw [Lexer.foldl_boundary, lex_opening_tail]
  rfl

/-- The body is one line, not expanded, and the delimiter line ends it. -/
theorem foldl_body (T : List Token) (b : Bytes) :
    (encode b ++ [lf] ++ (eofMark ++ [lf])).foldl Lexer.step
        ⟨T, none, [], .hereDoc [], none, [⟨eofMark, false, false⟩], []⟩ =
      ⟨.body (encode b ++ [lf]) false :: T, none, [], .top, none, [], []⟩ := by
  rw [List.foldl_append, Lexer.foldl_bodyLine _ (fun h => (encode_inert h).1 rfl) rfl rfl rfl
      (encode_ne_eofMark b),
    @Lexer.foldl_delimLine _ ⟨eofMark, false, false⟩ [] (by decide) rfl rfl rfl]
  have hinert : (encode b ++ [lf]).any bodyExpansion.contains = false := by
    simp only [List.any_append, List.any_eq_false, Bool.or_eq_false_iff]
    exact ⟨fun c hc => by simpa using (encode_inert hc).2.1, by decide⟩
  simp [hinert]

/-! ## The block of a plain file -/

theorem block_plain {r : Resource} {p b : Bytes} (hp : r.file.path = .ok p) (hne : p ≠ [])
    (hw : r.file.which = .plain) (hc : r.file.content = some b) :
    block r = [[lf], commentLine 1 r, ascii "  base64 -d > " ++ shellQuote p ++ ascii " <<!EOF!\n"] ++
      encoderChunks b ++ [ascii "\n!EOF!\n"] := by
  simp [block, resourcePlan, hp, hne, hw, hc, line, Arg.render]
  rfl

/-- For a plain file with content `b`, the block `WriteScript` writes for it is
its comment, the line `base64 -d > PATH <<!EOF!`, the chunks of an encoder
given `b` and closed, and the line `!EOF!`.  The chunks make up `encode b`, a
line with no newline, no character the shell expands, and not the delimiter.
From any token boundary, bash reads the opening line as `base64 -d` with its
output sent to one word whose value is the path, and then the body, not
expanded, up to the delimiter line; `base64 -d` decodes that body to `b`. -/
theorem hereDoc_decodes_to_content (r : Resource) (p b : Bytes) (hp : r.file.path = .ok p)
    (hne : p ≠ []) (hw : r.file.which = .plain) (hc : r.file.content = some b) :
    block r = [[lf], commentLine 1 r, ascii "  base64 -d > " ++ shellQuote p ++ ascii " <<!EOF!\n"] ++
      encoderChunks b ++ [ascii "\n!EOF!\n"] ∧
    (encoderChunks b).flatten = encode b ∧
    (∀ c ∈ encode b, c ≠ lf ∧ c ∉ bodyExpansion) ∧ encode b ≠ eofMark ∧
    (∀ t : List Token,
      (ascii "  base64 -d > " ++ shellQuote p ++ ascii " <<!EOF!\n" ++ encode b ++
          ascii "\n!EOF!\n").foldl Lexer.step ⟨t, none, [], .top, none, [], []⟩ =
        ⟨[.body (encode b ++ [lf]) false, .newline, .word (.ofBare eofMark), .op (ascii "<<"),
          .word (quoteWord p), .op (ascii ">"), .word (.ofBare (ascii "-d")),
          .word (.ofBare (ascii "base64"))] ++ t, none, [], .top, none, [], []⟩) ∧
    (quoteWord p).value = p ∧ (quoteWord p).expands = false ∧
    decode (encode b ++ [lf]) = some b := by
  refine ⟨block_plain hp hne hw hc, encoderChunks_flatten b,
    fun c hc => ⟨(encode_inert hc).1, (encode_inert hc).2.1⟩, encode_ne_eofMark b, fun t => ?_,
    quoteWord_value p, quoteWord_expands p, decode_encode b⟩
  have hcl : ascii "\n!EOF!\n" = [lf] ++ (eofMark ++ [lf]) := rfl
  rw [hcl, List.append_assoc _ (encode b), ← List.append_assoc (encode b), List.foldl_append,
    foldl_opening t (readsAs_shellQuote p), foldl_body]
  rfl

/-- A file `/etc/motd` holding `hi`. -/
def motd : Resource :=
  ⟨1, ascii "motd", [], .file, ⟨.ok (ascii "/etc/motd"), .plain, some (ascii "hi")⟩⟩

theorem hereDoc_decodes_motd :
    motd.file.path = .ok (ascii "/etc/motd") ∧ ascii "/etc/motd" ≠ [] ∧
      motd.file.which = .plain ∧ motd.file.content = some (ascii "hi") ∧
      decode (encode (ascii "hi") ++ [lf]) = some (ascii "hi") :=
  ⟨rfl, by decide, rfl, rfl,
    (hereDoc_decodes_to_content motd _ _ rfl (by decide) rfl rfl).2.2.2.2.2.2.2⟩

end Mcm.Shlib
