/-
  Mcm/Shlib/Quote.lean --- `shellQuote` and `isShellSafe`, and what bash reads back
  from a quoted string.

  THE FUNCTIONS.  `shellQuote` leaves a nonempty string made only of shell-safe
  bytes (ASCII letters and digits, `_`, `/` and `-`) as it is, writes the empty string as `''`, and
  otherwise wraps the string in single quotes, writing each `'` of it as the
  four bytes `'\''` (close the quotes, an escaped quote, reopen).

  THE PROPERTY.  From any token boundary the bash lexer of `Mcm.Bash.Lexer`
  reads `shellQuote s` as one word whose value after quote removal is `s` and
  to which no expansion applies (`foldl_shellQuote`).  The word is the same
  whatever came before it, which is what the script-level properties use.
  Bash drops the NUL bytes of a script before its lexer reads it, so what it
  reads in a script is the word `readWord s`, whose value is `s` without its
  NUL bytes (`foldl_readWord`).  In isolation, `lex (shellQuote s)` is exactly
  that one word token.
-/
import Mcm.Bash.Lexer

set_option autoImplicit false

namespace Mcm.Shlib

open Mcm.Bash

/-! ## The source functions -/

/-- `isShellSafe`: a byte that needs no quoting. -/
def isShellSafe (b : UInt8) : Bool :=
  b ≥ 'A'.toUInt8 && b ≤ 'Z'.toUInt8 || b ≥ 'a'.toUInt8 && b ≤ 'z'.toUInt8 ||
    b ≥ '0'.toUInt8 && b ≤ '9'.toUInt8 || b == '-'.toUInt8 || b == '_'.toUInt8 || b == '/'.toUInt8

/-- The second loop of `shellQuote`: each `'` becomes `'\''`, every other byte
is copied. -/
def quoteBody : Bytes → Bytes
  | [] => []
  | b :: s => (if b = apostrophe then [apostrophe, backslash, apostrophe, apostrophe] else [b]) ++
      quoteBody s

/-- `shellQuote`.  The first loop, which stops at the first unsafe byte, is
`s.all isShellSafe`. -/
def shellQuote (s : Bytes) : Bytes :=
  if s = [] then [apostrophe, apostrophe]
  else if s.all isShellSafe then s
  else apostrophe :: quoteBody s ++ [apostrophe]

theorem shellQuote_eq_quoted {s : Bytes} (hne : s ≠ []) (hall : s.all isShellSafe = false) :
    shellQuote s = apostrophe :: quoteBody s ++ [apostrophe] := by
  simp [shellQuote, hne, hall]

/-! ## Bytes that the lexer treats specially are never safe -/

/-- Every byte with a meaning to the lexer outside quotes, and every byte that
starts an expansion there. -/
def lexerSpecial : Bytes :=
  [lf, space, tab, apostrophe, dquote, backslash, hashMark] ++ ascii "|&;()<>" ++ bareExpansion

theorem isShellSafe_of_mem_special : ∀ b ∈ lexerSpecial, isShellSafe b = false := by decide

theorem not_special_of_safe {b : UInt8} (h : isShellSafe b = true) : b ∉ lexerSpecial :=
  fun hm => by simp [isShellSafe_of_mem_special b hm] at h

theorem isBlank_of_safe {b : UInt8} (h : isShellSafe b = true) : isBlank b = false := by
  have hs := not_special_of_safe h
  simp only [isBlank, Bool.or_eq_false_iff, beq_eq_false_iff_ne]
  exact ⟨fun e => hs (by simp [lexerSpecial, e]), fun e => hs (by simp [lexerSpecial, e])⟩

theorem isMeta_of_safe {b : UInt8} (h : isShellSafe b = true) : isMeta b = false := by
  rw [Bool.eq_false_iff]
  intro hm
  exact not_special_of_safe h (by simp_all [isMeta, lexerSpecial])

theorem bareExpansion_of_safe {b : UInt8} (h : isShellSafe b = true) :
    bareExpansion.contains b = false := by
  rw [Bool.eq_false_iff]
  intro hm
  exact not_special_of_safe h (by simp_all [lexerSpecial])

/-- A safe byte joins the word being read, unquoted. -/
theorem bare_of_safe {st : Lexer} {b : UInt8} (h : isShellSafe b = true) :
    st.bare b = st.push ⟨b, .bare⟩ := by
  have hs := not_special_of_safe h
  exact Lexer.bare_of_plain (fun e => hs (by simp [lexerSpecial, e])) (isBlank_of_safe h)
    (isMeta_of_safe h) (fun e => hs (by simp [lexerSpecial, e]))
    (fun e => hs (by simp [lexerSpecial, e])) (fun e => hs (by simp [lexerSpecial, e]))
    (fun e => hs (by simp [lexerSpecial, e]))

/-! ## What the lexer reads from a quoted string -/

/-- The pieces bash reads from `quoteBody s` between single quotes: each `'`
comes back escaped, every other byte single-quoted. -/
def quotedPieces : Bytes → Word
  | [] => []
  | b :: s => (if b = apostrophe then ⟨b, .escaped⟩ else ⟨b, .single⟩) :: quotedPieces s

/-- The word bash reads from `shellQuote s`. -/
def quoteWord (s : Bytes) : Word :=
  if s = [] then [] else if s.all isShellSafe then s.map (⟨·, .bare⟩) else quotedPieces s

/-- The word bash reads from `shellQuote s` in a script, whose NUL bytes it
drops as it reads. -/
def readWord (s : Bytes) : Word := if nul ∈ s then quotedPieces (dropNul s) else quoteWord s

section Reading

variable (t : List Token) (d : Option Bool) (p : List HereDoc) (bd : Bytes)

/-- Between single quotes, `quoteBody s` adds `quotedPieces s` to the word and
leaves the lexer between single quotes. -/
theorem foldl_quoteBody (s : Bytes) : ∀ w : Word,
    (quoteBody s).foldl Lexer.step ⟨t, some w, [], .single, d, p, bd⟩ =
      ⟨t, some (w ++ quotedPieces s), [], .single, d, p, bd⟩ := by
  induction s with
  | nil => simp [quoteBody, quotedPieces]
  | cons b s ih =>
    intro w
    by_cases hb : b = apostrophe
    · subst hb
      have h4 : List.foldl Lexer.step ⟨t, some w, [], .single, d, p, bd⟩
          [apostrophe, backslash, apostrophe, apostrophe] =
          ⟨t, some (w ++ [⟨apostrophe, .escaped⟩]), [], .single, d, p, bd⟩ := rfl
      simp only [quoteBody, if_pos, List.foldl_append, h4, ih, quotedPieces, List.append_assoc,
        List.singleton_append]
    · simp only [quoteBody, if_neg hb, List.singleton_append, List.foldl_cons,
        @Lexer.step_single_of_ne ⟨t, some w, [], .single, d, p, bd⟩ b rfl hb]
      simp only [Lexer.push, Option.getD_some]
      rw [ih]
      simp [quotedPieces, hb]

/-- Outside quotes, safe bytes are added to the word unquoted. -/
theorem foldl_safe (s : Bytes) (hs : s.all isShellSafe = true) : ∀ w : Word,
    s.foldl Lexer.step ⟨t, some w, [], .top, d, p, bd⟩ =
      ⟨t, some (w ++ s.map (⟨·, .bare⟩)), [], .top, d, p, bd⟩ := by
  induction s with
  | nil => simp
  | cons b s ih =>
    intro w
    simp only [List.all_cons, Bool.and_eq_true] at hs
    rw [List.foldl_cons, Lexer.step_top_of_op_nil rfl rfl, bare_of_safe hs.1]
    simp only [Lexer.push, Option.getD_some]
    rw [ih hs.2]
    simp

/-- From a token boundary, `quoteBody s` between single quotes is read as the
word `quotedPieces s`. -/
theorem foldl_quoted (s : Bytes) :
    (apostrophe :: quoteBody s ++ [apostrophe]).foldl Lexer.step ⟨t, none, [], .top, d, p, bd⟩ =
      ⟨t, some (quotedPieces s), [], .top, d, p, bd⟩ := by
  have h1 : Lexer.step ⟨t, none, [], .top, d, p, bd⟩ apostrophe =
      ⟨t, some [], [], .single, d, p, bd⟩ := rfl
  simp only [List.foldl_append, List.foldl_cons, List.foldl_nil, h1, foldl_quoteBody]
  rfl

/-- From a token boundary, the lexer reads `shellQuote s` as the word
`quoteWord s` and stops outside quotes, with nothing else changed. -/
theorem foldl_shellQuote (s : Bytes) :
    (shellQuote s).foldl Lexer.step ⟨t, none, [], .top, d, p, bd⟩ =
      ⟨t, some (quoteWord s), [], .top, d, p, bd⟩ := by
  unfold shellQuote quoteWord
  split
  · rfl
  · split
    · rename_i hne hs
      obtain ⟨b, s', rfl⟩ := List.exists_cons_of_ne_nil hne
      have hb : isShellSafe b = true := by simp_all
      rw [List.foldl_cons, Lexer.step_top_of_op_nil rfl rfl, bare_of_safe hb]
      exact foldl_safe t d p bd s' (by simp_all) [⟨b, .bare⟩]
    · exact foldl_quoted t d p bd s

/-- The NUL bytes of `shellQuote s` are those of `s`: a string with one is
quoted, and dropping them from the output drops them from the quoted body. -/
theorem dropNul_shellQuote (s : Bytes) :
    dropNul (shellQuote s) =
      if nul ∈ s then apostrophe :: quoteBody (dropNul s) ++ [apostrophe] else shellQuote s := by
  have ha : apostrophe ≠ nul := by decide
  have hbody : ∀ s : Bytes, dropNul (quoteBody s) = quoteBody (dropNul s) := by
    intro s
    induction s with
    | nil => rfl
    | cons b s ih =>
      by_cases hb : b = nul
      · subst hb
        rw [quoteBody, if_neg (by decide), List.singleton_append, dropNul_nul_cons, dropNul_nul_cons, ih]
      · rw [dropNul_cons s hb, quoteBody, quoteBody, dropNul_append, ih]
        split
        · rfl
        · rw [dropNul_cons [] hb]
          rfl
  have hq : ∀ s : Bytes, dropNul (apostrophe :: quoteBody s ++ [apostrophe]) =
      apostrophe :: quoteBody (dropNul s) ++ [apostrophe] := fun s => by
    rw [List.cons_append, dropNul_cons _ ha, dropNul_append, hbody]
    rfl
  split
  · rename_i hs
    rw [shellQuote_eq_quoted (List.ne_nil_of_mem hs)
      (List.all_eq_false.mpr ⟨nul, hs, by decide⟩), hq]
  · rename_i hs
    unfold shellQuote
    split
    · rfl
    · split
      · exact dropNul_of_not_mem hs
      · rw [hq, dropNul_of_not_mem hs]

/-- From a token boundary, the lexer reads what bash keeps of `shellQuote s`
as the word `readWord s`. -/
theorem foldl_readWord (s : Bytes) :
    (dropNul (shellQuote s)).foldl Lexer.step ⟨t, none, [], .top, d, p, bd⟩ =
      ⟨t, some (readWord s), [], .top, d, p, bd⟩ := by
  rw [dropNul_shellQuote, readWord]
  split
  · exact foldl_quoted t d p bd _
  · exact foldl_shellQuote t d p bd s

end Reading

/-- From every token boundary, the lexer reads `q` as the word `w` and stops
outside quotes. -/
def ReadsAs (q : Bytes) (w : Word) : Prop :=
  ∀ t : List Token, q.foldl Lexer.step ⟨t, none, [], .top, none, [], []⟩ =
    ⟨t, some w, [], .top, none, [], []⟩

theorem readsAs_shellQuote (s : Bytes) : ReadsAs (shellQuote s) (quoteWord s) :=
  fun t => foldl_shellQuote t none [] [] s

theorem readsAs_readWord (s : Bytes) : ReadsAs (dropNul (shellQuote s)) (readWord s) :=
  fun t => foldl_readWord t none [] [] s

theorem quotedPieces_value (s : Bytes) : Word.value (quotedPieces s) = s := by
  induction s with
  | nil => rfl
  | cons b s ih => by_cases hb : b = apostrophe <;> simp_all [quotedPieces, Word.value]

theorem quotedPieces_expands (s : Bytes) : Word.expands (quotedPieces s) = false := by
  induction s with
  | nil => rfl
  | cons b s ih =>
    by_cases hb : b = apostrophe <;> simp_all [quotedPieces, Word.expands, Piece.expands]

theorem quoteWord_value (s : Bytes) : (quoteWord s).value = s := by
  unfold quoteWord
  split
  · simp_all [Word.value]
  · split
    · simp [Word.value, Function.comp_def]
    · exact quotedPieces_value s

theorem quoteWord_expands (s : Bytes) : (quoteWord s).expands = false := by
  unfold quoteWord
  split
  · rfl
  · split
    · rename_i hs
      simp only [Word.expands, List.any_eq_false, List.mem_map]
      rintro _ ⟨b, hb, rfl⟩
      simpa [Piece.expands] using bareExpansion_of_safe (List.all_eq_true.mp hs b hb)
    · exact quotedPieces_expands s

theorem readWord_value (s : Bytes) : (readWord s).value = dropNul s := by
  unfold readWord
  split
  · exact quotedPieces_value _
  · rename_i hs
    rw [quoteWord_value, dropNul_of_not_mem hs]

theorem readWord_expands (s : Bytes) : (readWord s).expands = false := by
  unfold readWord
  split
  · exact quotedPieces_expands _
  · exact quoteWord_expands s

theorem quoteBody_eq_flatMap (s : Bytes) :
    quoteBody s = s.flatMap (fun b => if b = apostrophe then ascii "'\\''" else [b]) := by
  induction s with
  | nil => rfl
  | cons b s ih =>
    by_cases hb : b = apostrophe
    · simp [quoteBody, ih, hb]; rfl
    · simp [quoteBody, ih, hb]

/-! ## Quoting, end to end -/

/-- On its own, `shellQuote s` is read by bash as exactly one word, to which no
expansion applies, and whose value after quote removal is `s` without its NUL
bytes, which bash drops as it reads: exactly `s` when `s` has none.  The
output is `''` for the empty string, `s` itself for a nonempty string of safe
bytes, and otherwise `s` between single quotes with each `'` written `'\''`. -/
theorem shellQuote_reads_as_one_word (s : Bytes) :
    (∃ w : Word, lex (shellQuote s) = .ok [.word w] ∧ w.value = dropNul s ∧
      (nul ∉ s → w.value = s) ∧ w.expands = false) ∧
    (s = [] → shellQuote s = ascii "''") ∧
    (s ≠ [] → (∀ b ∈ s, isShellSafe b = true) → shellQuote s = s) ∧
    ((∃ b ∈ s, isShellSafe b = false) → shellQuote s =
      apostrophe :: s.flatMap (fun b => if b = apostrophe then ascii "'\\''" else [b]) ++
        [apostrophe]) := by
  refine ⟨⟨readWord s, ?_, readWord_value s,
    fun hs => (readWord_value s).trans (dropNul_of_not_mem hs), readWord_expands s⟩, ?_, ?_, ?_⟩
  · rw [lex, Lexer.init, foldl_readWord]
    rfl
  · rintro rfl
    rfl
  · intro hne hs
    simp [shellQuote, hne, List.all_eq_true.mpr hs]
  · rintro ⟨b, hb, hu⟩
    rw [shellQuote_eq_quoted (List.ne_nil_of_mem hb) (List.all_eq_false.mpr ⟨b, hb, by simp [hu]⟩),
      quoteBody_eq_flatMap]

/-- The round trip is not the identity in two ways: every byte of the empty
string is safe, yet `shellQuote` does not return it unchanged; and bash reads
`shellQuote` of `a`, NUL, `b` as the word `ab`. -/
theorem shellQuote_not_identity :
    ((∀ b ∈ ([] : Bytes), isShellSafe b = true) ∧ shellQuote [] ≠ []) ∧
      ∃ w : Word, lex (shellQuote [97, nul, 98]) = .ok [.word w] ∧ w.value = ascii "ab" :=
  ⟨⟨fun _ h => absurd h (List.not_mem_nil _), by decide⟩, _, rfl, rfl⟩

end Mcm.Shlib
