/-
  Mcm/Base64.lean --- Go's `base64.StdEncoding` encoder, streaming as
  `base64.NewEncoder` drives it, and the decoder of `base64 -d`.

  WHAT THIS FILE IS FOR.  The plain-file branch of `gen.resource` writes a file's
  content as a here-document piped to `base64 -d`, through an encoder that it
  closes.  Neither side is in the repository: the encoder is Go's
  `encoding/base64`, the decoder is coreutils.  Both are modelled here from
  their documented behaviour, and the one fact the script depends on is proved
  for every byte string: `decode (encode s ++ [lf]) = some s`.

  THE ENCODER.  `encode` is `EncodeToString`: three bytes make a 24-bit value
  `uint(a)<<16 | uint(b)<<8 | uint(c)`, whose four 6-bit digits index the
  alphabet; a tail of one or two bytes is padded with `=`.  `encoderChunks` is
  what a fresh `NewEncoder` hands to its writer for one `Write(p)` followed by
  `Close()`: whole groups in chunks of at most `len(e.out)/4*3 = 768` source
  bytes, then the padded tail.  Their concatenation is `encode p`.

  THE DECODER.  `decode` skips newlines and reads four characters at a time; a
  character outside the alphabet, or a group cut short, is invalid input.
-/
import Mcm.Basic
import Mathlib.Algebra.Group.Nat.Basic

set_option autoImplicit false

namespace Mcm.Base64

/-! ## The encoder -/

/-- `encodeStd`, the alphabet of `StdEncoding`. -/
def encodeStd : Bytes := ascii "ABCDEFGHIJKLMNOPQRSTUVWXYZabcdefghijklmnopqrstuvwxyz0123456789+/"

/-- `StdPadding`. -/
def padChar : UInt8 := '='.toUInt8

/-- `enc.encode[i]`. -/
def encodeAt (i : Nat) : UInt8 := encodeStd.getD i 0

/-- Three source bytes make four characters. -/
def encodeGroup (a b c : UInt8) : Bytes :=
  let val := a.toNat <<< 16 ||| b.toNat <<< 8 ||| c.toNat
  [encodeAt (val >>> 18 &&& 0x3F), encodeAt (val >>> 12 &&& 0x3F),
    encodeAt (val >>> 6 &&& 0x3F), encodeAt (val &&& 0x3F)]

/-- A tail of two bytes: three characters and one `=`. -/
def encodeTwo (a b : UInt8) : Bytes :=
  let val := a.toNat <<< 16 ||| b.toNat <<< 8
  [encodeAt (val >>> 18 &&& 0x3F), encodeAt (val >>> 12 &&& 0x3F),
    encodeAt (val >>> 6 &&& 0x3F), padChar]

/-- A tail of one byte: two characters and `==`. -/
def encodeOne (a : UInt8) : Bytes :=
  let val := a.toNat <<< 16
  [encodeAt (val >>> 18 &&& 0x3F), encodeAt (val >>> 12 &&& 0x3F), padChar, padChar]

/-- `StdEncoding.EncodeToString`. -/
def encode : Bytes → Bytes
  | a :: b :: c :: rest => encodeGroup a b c ++ encode rest
  | [a, b] => encodeTwo a b
  | [a] => encodeOne a
  | [] => []

/-- How many source bytes one interior write takes: `nn := len(e.out)/4*3`, cut
to the whole groups of `p` when `p` is shorter. -/
def chunkLen (n : Nat) : Nat := if 768 > n then n - n % 3 else 768

/-- The interior loop of `encoder.Write` on a fresh encoder: the chunks it
writes, and the bytes it leaves in `e.buf` for `Close`. -/
def interior (p : Bytes) : List Bytes × Bytes :=
  if p.length < 3 then ([], p)
  else
    let r := interior (p.drop (chunkLen p.length))
    (encode (p.take (chunkLen p.length)) :: r.1, r.2)
termination_by p.length
decreasing_by simp_wf; unfold chunkLen; split <;> omega

/-- The chunks written by `enc.Write(p)` and then `enc.Close()`. -/
def encoderChunks (p : Bytes) : List Bytes :=
  let r := interior p
  r.1 ++ (if r.2 = [] then [] else [encode r.2])

/-! ## The decoder -/

/-- The 6-bit value of a character of the alphabet. -/
def decodeChar (c : UInt8) : Option Nat := encodeStd.indexOf? c

/-- Four characters at a time; `=` may pad only the last group. -/
def decodeQuads : Bytes → Option Bytes
  | c0 :: c1 :: c2 :: c3 :: rest => do
    let v0 ← decodeChar c0
    let v1 ← decodeChar c1
    if c2 = padChar ∧ c3 = padChar ∧ rest = [] then
      return [(v0 * 4 + v1 / 16).toUInt8]
    let v2 ← decodeChar c2
    if c3 = padChar ∧ rest = [] then
      return [(v0 * 4 + v1 / 16).toUInt8, (v1 % 16 * 16 + v2 / 4).toUInt8]
    let v3 ← decodeChar c3
    let r ← decodeQuads rest
    return [(v0 * 4 + v1 / 16).toUInt8, (v1 % 16 * 16 + v2 / 4).toUInt8,
      (v2 % 4 * 64 + v3).toUInt8] ++ r
  | [] => some []
  | _ => none

/-- `base64 -d`: newlines are skipped. -/
def decode (input : Bytes) : Option Bytes := decodeQuads (input.filter (· ≠ lf))

example : encode (ascii "hi") = ascii "aGk=" := by decide

/-! ## Digits -/

/-- The bytes of a group sit in disjoint bit ranges, so the code's `|` of the
shifted bytes is their sum. -/
theorem group_val (a b c : UInt8) :
    a.toNat <<< 16 ||| b.toNat <<< 8 ||| c.toNat = a.toNat * 2 ^ 16 + b.toNat * 2 ^ 8 + c.toNat := by
  have hb := b.toNat_lt_size
  have hc := c.toNat_lt_size
  rw [Nat.or_assoc, Nat.shiftLeft_eq, Nat.shiftLeft_eq, Nat.mul_comm b.toNat,
    ← Nat.mul_add_lt_is_or (by simpa using hc), Nat.mul_comm a.toNat,
    ← Nat.mul_add_lt_is_or (by simp only [UInt8.size] at hb hc; omega)]
  omega

theorem pair_val (a b : UInt8) :
    a.toNat <<< 16 ||| b.toNat <<< 8 = a.toNat * 2 ^ 16 + b.toNat * 2 ^ 8 := by
  have h := group_val a b 0
  simpa using h

/-- `val >> k & 0x3F` is the digit `val / 2^k % 64`. -/
theorem digit_eq (val k : Nat) : val >>> k &&& 0x3F = val / 2 ^ k % 64 := by
  rw [Nat.shiftRight_eq_div_pow, show (0x3F : Nat) = 2 ^ 6 - 1 from rfl,
    Nat.and_pow_two_sub_one_eq_mod]

theorem low_digit_eq (val : Nat) : val &&& 0x3F = val % 64 := by
  simpa using digit_eq val 0

theorem decodeChar_encodeAt : ∀ i < 64, decodeChar (encodeAt i) = some i := by decide

theorem encodeAt_mem {i : Nat} (h : i < 64) : encodeAt i ∈ encodeStd := by
  rw [encodeAt, List.getD_eq_getElem?_getD, List.getElem?_eq_getElem (by exact h)]
  exact List.getElem_mem _

theorem padChar_not_mem : padChar ∉ encodeStd := by decide

theorem encodeAt_ne_padChar (i : Nat) (h : i < 64) : encodeAt i ≠ padChar :=
  fun e => padChar_not_mem (e ▸ encodeAt_mem h)

theorem toUInt8_toNat (a : UInt8) : a.toNat.toUInt8 = a :=
  UInt8.toNat.inj (UInt8.toNat_ofNat_of_lt a.toNat_lt_size)

/-- A byte computed from digits is the byte the digits came from. -/
theorem toUInt8_of_eq {n : Nat} {a : UInt8} (h : n = a.toNat) : n.toUInt8 = a := by
  rw [h, toUInt8_toNat]

/-! ## The round trip -/

theorem encodeGroup_eq (a b c : UInt8) :
    encodeGroup a b c =
      let v := a.toNat * 65536 + b.toNat * 256 + c.toNat
      [encodeAt (v / 262144 % 64), encodeAt (v / 4096 % 64), encodeAt (v / 64 % 64),
        encodeAt (v % 64)] := by
  simp only [encodeGroup, group_val]
  rw [digit_eq, digit_eq, digit_eq, low_digit_eq, show (2 : Nat) ^ 16 = 65536 from rfl,
    show (2 : Nat) ^ 8 = 256 from rfl, show (2 : Nat) ^ 18 = 262144 from rfl,
    show (2 : Nat) ^ 12 = 4096 from rfl, show (2 : Nat) ^ 6 = 64 from rfl]

theorem decodeQuads_group (a b c : UInt8) (rest : Bytes) :
    decodeQuads (encodeGroup a b c ++ rest) = (decodeQuads rest).map ([a, b, c] ++ ·) := by
  have ha := a.toNat_lt_size
  have hb := b.toNat_lt_size
  have hc := c.toNat_lt_size
  simp only [UInt8.size] at ha hb hc
  rw [encodeGroup_eq]
  generalize hv : a.toNat * 65536 + b.toNat * 256 + c.toNat = v
  have e0 : (v / 262144 % 64 * 4 + v / 4096 % 64 / 16).toUInt8 = a := toUInt8_of_eq (by omega)
  have e1 : (v / 4096 % 64 % 16 * 16 + v / 64 % 64 / 4).toUInt8 = b := toUInt8_of_eq (by omega)
  have e2 : (v / 64 % 64 % 4 * 64 + v % 64).toUInt8 = c := toUInt8_of_eq (by omega)
  have m : ∀ n, n % 64 < 64 := fun n => Nat.mod_lt n (by decide)
  simp only [List.cons_append, List.nil_append, decodeQuads, decodeChar_encodeAt _ (m _),
    encodeAt_ne_padChar _ (m _), false_and, and_false, if_false]
  simp only [List.append_eq, List.nil_append, Option.pure_def, Option.bind_eq_bind, Option.some_bind,
    e0, e1, e2]
  cases decodeQuads rest <;> rfl

theorem decodeQuads_two (a b : UInt8) : decodeQuads (encodeTwo a b) = some [a, b] := by
  have ha := a.toNat_lt_size
  have hb := b.toNat_lt_size
  simp only [UInt8.size] at ha hb
  simp only [encodeTwo, pair_val]
  rw [digit_eq, digit_eq, digit_eq]
  generalize hv : a.toNat * 2 ^ 16 + b.toNat * 2 ^ 8 = v
  have e0 : (v / 2 ^ 18 % 64 * 4 + v / 2 ^ 12 % 64 / 16).toUInt8 = a := toUInt8_of_eq (by omega)
  have e1 : (v / 2 ^ 12 % 64 % 16 * 16 + v / 2 ^ 6 % 64 / 4).toUInt8 = b :=
    toUInt8_of_eq (by omega)
  have m : ∀ n, n % 64 < 64 := fun n => Nat.mod_lt n (by decide)
  simp only [decodeQuads, decodeChar_encodeAt _ (m _), encodeAt_ne_padChar _ (m _), false_and,
    if_false, and_self, if_true, Option.pure_def, Option.bind_eq_bind, Option.some_bind, e0, e1]

theorem decodeQuads_one (a : UInt8) : decodeQuads (encodeOne a) = some [a] := by
  have ha := a.toNat_lt_size
  simp only [UInt8.size] at ha
  simp only [encodeOne, Nat.shiftLeft_eq]
  rw [digit_eq, digit_eq]
  have e0 : (a.toNat * 2 ^ 16 / 2 ^ 18 % 64 * 4 + a.toNat * 2 ^ 16 / 2 ^ 12 % 64 / 16).toUInt8 = a :=
    toUInt8_of_eq (by omega)
  have m : ∀ n, n % 64 < 64 := fun n => Nat.mod_lt n (by decide)
  simp only [decodeQuads, decodeChar_encodeAt _ (m _), and_self, if_true, Option.pure_def,
    Option.bind_eq_bind, Option.some_bind, e0]

/-- Decoding undoes encoding, for every byte string. -/
theorem decodeQuads_encode (s : Bytes) : decodeQuads (encode s) = some s := by
  induction s using encode.induct with
  | case1 a b c rest ih => rw [encode, decodeQuads_group, ih]; rfl
  | case2 a b => exact decodeQuads_two a b
  | case3 a => exact decodeQuads_one a
  | case4 => rfl

/-- Every character of an encoding is in the alphabet or is the padding. -/
theorem mem_encode {s : Bytes} {c : UInt8} (h : c ∈ encode s) : c ∈ encodeStd ∨ c = padChar := by
  have m : ∀ n, n % 64 < 64 := fun n => Nat.mod_lt n (by decide)
  have hat : ∀ n, n < 64 → encodeAt n ∈ encodeStd := fun _ => encodeAt_mem
  induction s using encode.induct with
  | case1 a b c' rest ih =>
    simp only [encode, encodeGroup_eq, List.cons_append, List.nil_append, List.mem_cons] at h
    rcases h with rfl | rfl | rfl | rfl | h
    all_goals first | exact .inl (hat _ (m _)) | exact ih h
  | case2 a b =>
    simp only [encode, encodeTwo, List.mem_cons, List.not_mem_nil, or_false] at h
    rcases h with rfl | rfl | rfl | rfl
    all_goals first | exact .inl (hat _ (by rw [digit_eq]; exact m _)) | exact .inr rfl
  | case3 a =>
    simp only [encode, encodeOne, List.mem_cons, List.not_mem_nil, or_false] at h
    rcases h with rfl | rfl | rfl | rfl
    all_goals first | exact .inl (hat _ (by rw [digit_eq]; exact m _)) | exact .inr rfl
  | case4 => simp [encode] at h

/-- `base64 -d` reads back exactly what was encoded, with the newline the
script writes after it. -/
theorem decode_encode (s : Bytes) : decode (encode s ++ [lf]) = some s := by
  have hlf : ∀ c ∈ encode s, c ≠ lf := by
    intro c hc e
    subst e
    rcases mem_encode hc with h | h
    · exact absurd h (by decide)
    · exact absurd h (by decide)
  rw [decode, List.filter_append, List.filter_eq_self.mpr (by simpa using hlf)]
  simpa using decodeQuads_encode s

/-! ## The streaming encoder writes the encoding -/

theorem encode_append {l : Bytes} (m : Bytes) (h : l.length % 3 = 0) :
    encode (l ++ m) = encode l ++ encode m := by
  induction l using encode.induct with
  | case1 a b c rest ih =>
    simp only [List.length_cons] at h
    simp only [List.cons_append, encode, List.append_eq, ih (by omega), List.append_assoc]
  | case2 a b => simp at h
  | case3 a => simp at h
  | case4 => rfl

theorem interior_flatten (p : Bytes) :
    (interior p).1.flatten ++ encode (interior p).2 = encode p := by
  induction p using interior.induct with
  | case1 p h => rw [interior, if_pos h]; rfl
  | case2 p h ih =>
    rw [interior, if_neg h]
    simp only [List.flatten_cons, List.append_assoc, ih]
    rw [← encode_append _ (by simp only [List.length_take, chunkLen]; split <;> omega),
      List.take_append_drop]

/-- What the encoder writes for `Write(p)` and `Close()` is `EncodeToString(p)`. -/
theorem encoderChunks_flatten (p : Bytes) : (encoderChunks p).flatten = encode p := by
  rw [encoderChunks, ← interior_flatten p]
  split <;> simp_all [encode]

end Mcm.Base64
