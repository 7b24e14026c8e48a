/-
  Mcm/Basic.lean --- byte strings, the carrier of every text in the model.

  Go strings, Lua strings, Cap'n Proto `Text` and `Data`, shell scripts and file
  contents are all byte sequences in the source, and the model keeps them so:
  a `Bytes` is a `List UInt8`.  Nothing here decodes UTF-8; a string literal in
  a definition is an ASCII text, turned into its bytes by `ascii`.

  The bytes that carry meaning for the shell get names of their own, so that a
  definition reads `b = apostrophe` where the Go source reads `s[i] == '\''`.
-/
import Mathlib.Data.List.Basic

set_option autoImplicit false

namespace Mcm

/-- A byte string. -/
abbrev Bytes := List UInt8

/-- The bytes of an ASCII string literal. -/
def ascii (s : String) : Bytes := s.data.map (fun c => c.toNat.toUInt8)

example : ascii "ab" = [97, 98] := by decide

/-- Every character `Nat.toDigitsCore 10` adds to `ds` is a decimal digit. -/
theorem mem_toDigitsCore {c : Char} : ∀ (f n : Nat) (ds : List Char),
    c ∈ Nat.toDigitsCore 10 f n ds → c ∈ ds ∨ ∃ k < 10, c = Nat.digitChar k
  | 0, _, _, h => .inl h
  | f + 1, n, ds, h => by
    have hstep : Nat.toDigitsCore 10 (f + 1) n ds =
        if n / 10 = 0 then Nat.digitChar (n % 10) :: ds
        else Nat.toDigitsCore 10 f (n / 10) (Nat.digitChar (n % 10) :: ds) := rfl
    have hk : n % 10 < 10 := Nat.mod_lt n (by decide)
    have hhead : ∀ {ds'}, c ∈ Nat.digitChar (n % 10) :: ds' →
        c ∈ ds' ∨ ∃ k < 10, c = Nat.digitChar k :=
      fun h => (List.mem_cons.mp h).elim (fun e => .inr ⟨_, hk, e⟩) .inl
    rw [hstep] at h
    split at h
    · exact hhead h
    · exact (mem_toDigitsCore f _ _ h).elim hhead .inr

/-- The decimal form of a number is made of the bytes `0` to `9`. -/
theorem ascii_toString_digit (m : Nat) : ∀ b ∈ ascii (toString m), 48 ≤ b.toNat ∧ b.toNat ≤ 57 := by
  intro b hb
  obtain ⟨c, hc, rfl⟩ := List.mem_map.mp hb
  obtain ⟨k, hk, rfl⟩ := (mem_toDigitsCore (m + 1) m [] hc).resolve_left (List.not_mem_nil c)
  have hdigit : ∀ k < 10, 48 ≤ (Nat.digitChar k).toNat.toUInt8.toNat ∧
      (Nat.digitChar k).toNat.toUInt8.toNat ≤ 57 := by decide
  exact hdigit k hk

/-- Results of fallible code are compared by value, so that concrete runs can
be checked by `decide`. -/
instance instDecidableEqExcept {ε α : Type} [DecidableEq ε] [DecidableEq α] : DecidableEq (Except ε α)
  | .ok a, .ok b => if h : a = b then isTrue (h ▸ rfl) else isFalse (fun e => h (by cases e; rfl))
  | .error a, .error b =>
    if h : a = b then isTrue (h ▸ rfl) else isFalse (fun e => h (by cases e; rfl))
  | .ok _, .error _ => isFalse (fun e => by cases e)
  | .error _, .ok _ => isFalse (fun e => by cases e)

/-! ## Named bytes -/

/-- `'`. -/
def apostrophe : UInt8 := 39
/-- `\`. -/
def backslash : UInt8 := 92
/-- `"`. -/
def dquote : UInt8 := 34
/-- A newline. -/
def lf : UInt8 := 10
/-- A space. -/
def space : UInt8 := 32
/-- A horizontal tab. -/
def tab : UInt8 := 9
/-- `#`. -/
def hashMark : UInt8 := 35
/-- `$`. -/
def dollar : UInt8 := 36
/-- The backquote. -/
def backquote : UInt8 := 96
/-- `/`. -/
def slash : UInt8 := 47
/-- The NUL byte. -/
def nul : UInt8 := 0

end Mcm
