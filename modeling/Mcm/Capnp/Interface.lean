/-
  Mcm/Capnp/Interface.lean --- the generated accessors of an interface field.

  THE CODE.  `src/unnamed/part_001` is the template the Cap'n Proto code
  generator expands for a field of interface type.  The getter reads the
  field's pointer slot with `Struct.Ptr`, drops the read error, and returns the
  client the pointer names in the message's capability table.  The setter
  first writes the union tag when the field is a union member (`_settag`).
  For a nil client it then writes the null pointer; for any other it appends
  the client to the capability table (`Message.AddCap`) and writes an
  interface pointer to the new entry.

  THE LIBRARY.  The Cap'n Proto runtime is not among the source files; the
  calls the template makes are modelled from its documented behaviour.  A
  message is its structs, each a data section of 16-bit words and a pointer
  section, and its capability table.  A struct the message does not have is
  Go's zero `Struct`, whose sections are empty.  `Struct.Ptr` past the pointer
  section reads the null pointer.  `SetPtr` and `SetUint16` past their section
  panic, which the model gives as `none`.  `Interface.Client` of a pointer that
  is not an interface pointer, or whose index is past the table, is nil.  The
  error `SetPtr` returns is nil for the two pointers the setter writes.

  THE ABSTRACT STORE.  What the getters read of a message is `Msg.view`: a
  client, or nil, per pointer slot.  A setter is meant to overwrite one slot
  of that view.

  WHAT IS PROVED.  `set_roundtrip`: the setter returns exactly when the slot
  and the tag word lie in the struct, and then the getter of every field of
  that slot (the field itself, or another member of its union: the getter
  checks no tag) reads the value set.  `runSets_view`: from a message whose
  interface pointers all name entries of its table (`Linked`), every run of
  setter calls that returns leaves the view the abstract store gives, and
  the table is the old one with every non-nil client set appended, in order:
  a client that is overwritten stays in the table.  `set_aliases_dangling`:
  without `Linked` a getter is not framed; a pointer whose index is the
  table's length reads nil, and then the next client set into any other slot.
-/
import Mathlib.Logic.Function.Basic

set_option autoImplicit false

namespace Mcm.Capnp

/-- A pointer slot as `Struct.Ptr` reads it. -/
inductive Ptr where
  | null
  /-- an interface pointer: an index into the message's capability table -/
  | iface (cap : Nat)
  /-- a struct or list pointer -/
  | other
  deriving DecidableEq, Repr

/-- Whether a pointer that is an interface pointer names an entry of a table
of `len` entries. -/
def Ptr.inTable (len : Nat) : Ptr → Bool
  | .iface n => n < len
  | _ => true

/-- A struct: its data section, as 16-bit words, and its pointer section. -/
structure Struct where
  data : List UInt16
  ptrs : List Ptr
  deriving DecidableEq, Repr

/-- A message: its structs and its capability table (`Message.CapTable`), in
which `none` is a nil client. -/
structure Msg (C : Type) where
  structs : List Struct
  capTable : List (Option C)
  deriving DecidableEq, Repr

/-- An interface field as the template reads it: `.Field.Slot.Offset`, and for
a member of a union, the union's discriminant offset in 16-bit words and the
member's discriminant value, which `_settag` writes. -/
structure IfaceField where
  offset : Nat
  tag : Option (Nat × UInt16)
  deriving DecidableEq, Repr

/-! ## The runtime calls the template makes -/

namespace Msg

variable {C : Type} (m : Msg C)

/-- Struct `k`; Go's zero `Struct` for a struct the message does not have. -/
def structAt (k : Nat) : Struct := m.structs.getD k ⟨[], []⟩

/-- `Struct.Ptr(i)` of struct `k`: the null pointer past the pointer section. -/
def ptr (k i : Nat) : Ptr := (m.structAt k).ptrs.getD i .null

/-- `Ptr.Interface().Client()`: the entry an interface pointer names in the
capability table; nil for any other pointer and for an index past the table. -/
def client : Ptr → Option C
  | .iface n => if h : n < m.capTable.length then m.capTable[n] else none
  | _ => none

/-- `Struct.SetPtr(i, p)` on struct `k`; `none` where it panics. -/
def setPtr (k i : Nat) (p : Ptr) : Option (Msg C) :=
  let s := m.structAt k
  if i < s.ptrs.length then
    some { m with structs := m.structs.set k { s with ptrs := s.ptrs.set i p } }
  else none

/-- `Struct.SetUint16` on struct `k` at the byte offset twice `d`, which is
data word `d`; `none` where it panics. -/
def setUint16 (k d : Nat) (v : UInt16) : Option (Msg C) :=
  let s := m.structAt k
  if d < s.data.length then
    some { m with structs := m.structs.set k { s with data := s.data.set d v } }
  else none

/-- `Message.AddCap(c)`: the table with `c` appended, and the new entry's index. -/
def addCap (c : C) : Msg C × Nat :=
  ({ m with capTable := m.capTable ++ [some c] }, m.capTable.length)

/-- What the getters read: the client the pointer of each slot names. -/
def view : Nat × Nat → Option C := fun ki => m.client (m.ptr ki.1 ki.2)

/-- Every interface pointer of the message names an entry of its table. -/
def Linked : Prop := ∀ k i n, m.ptr k i = .iface n → n < m.capTable.length

end Msg

/-! ## The template -/

namespace IfaceField

variable {C : Type}

/-- The getter `{{.Field.Name|title}}()`: the read error of `Struct.Ptr` is dropped. -/
def get (f : IfaceField) (k : Nat) (m : Msg C) : Option C := m.client (m.ptr k f.offset)

/-- `_settag`: the discriminant write of a union member. -/
def settag (f : IfaceField) (k : Nat) (m : Msg C) : Option (Msg C) :=
  match f.tag with
  | some (d, t) => m.setUint16 k d t
  | none => some m

/-- The setter `Set{{.Field.Name|title}}(v)`; `none` where it panics. -/
def set (f : IfaceField) (k : Nat) (v : Option C) (m : Msg C) : Option (Msg C) := do
  let m ← f.settag k m
  match v with
  | none => m.setPtr k f.offset .null
  | some c =>
    let (m, n) := m.addCap c
    m.setPtr k f.offset (.iface n)

/-- Where the setter of `f` on struct `k` does not panic: the slot, and the tag
word of a union member, lie in the struct. -/
def Fits (f : IfaceField) (k : Nat) (m : Msg C) : Prop :=
  f.offset < (m.structAt k).ptrs.length ∧ ∀ d t, f.tag = some (d, t) → d < (m.structAt k).data.length

end IfaceField

/-- A run of setter calls, each a field, a struct and a client; `none` if one panics. -/
def runSets {C : Type} : List (IfaceField × Nat × Option C) → Msg C → Option (Msg C)
  | [], m => some m
  | (f, k, v) :: cs, m => (f.set k v m).bind (runSets cs)

/-- The abstract store after a run: each call overwrites its slot. -/
def viewAfter {C : Type} (w : Nat × Nat → Option C) (cs : List (IfaceField × Nat × Option C)) :
    Nat × Nat → Option C :=
  cs.foldl (fun w c => Function.update w (c.2.1, c.1.offset) c.2.2) w

/-! ## What each runtime call does -/

namespace Msg

variable {C : Type} {m m' : Msg C}

theorem structAt_set {k : Nat} (hk : k < m.structs.length) (s : Struct) (k' : Nat) :
    ({ m with structs := m.structs.set k s } : Msg C).structAt k' =
      if k' = k then s else m.structAt k' := by
  simp only [structAt, List.getD_eq_getElem?_getD, List.getElem?_set]
  by_cases h : k' = k
  · subst h; simp [hk]
  · simp [h, Ne.symm h]

/-- A struct with a nonempty section is one the message has. -/
theorem lt_length_of_ptrs {k i : Nat} (h : i < (m.structAt k).ptrs.length) :
    k < m.structs.length := by
  by_contra hk
  simp [structAt, List.getD_eq_getElem?_getD, List.getElem?_eq_none (Nat.le_of_not_lt hk)] at h

theorem lt_length_of_data {k d : Nat} (h : d < (m.structAt k).data.length) :
    k < m.structs.length := by
  by_contra hk
  simp [structAt, List.getD_eq_getElem?_getD, List.getElem?_eq_none (Nat.le_of_not_lt hk)] at h

theorem setPtr_isSome (k i : Nat) (p : Ptr) :
    (m.setPtr k i p).isSome ↔ i < (m.structAt k).ptrs.length := by
  unfold setPtr
  dsimp only
  split <;> simp_all

/-- `SetPtr` writes its slot and no other; the table is unchanged. -/
theorem setPtr_spec {k i : Nat} {p : Ptr} (h : m.setPtr k i p = some m') :
    m'.capTable = m.capTable ∧
      ∀ k' i', m'.ptr k' i' = if k' = k ∧ i' = i then p else m.ptr k' i' := by
  unfold setPtr at h
  dsimp only at h
  split at h
  · next hi =>
    cases h
    refine ⟨rfl, fun k' i' => ?_⟩
    simp only [ptr, structAt_set (lt_length_of_ptrs hi)]
    by_cases hk : k' = k
    · subst hk
      simp only [if_true, true_and, List.getD_eq_getElem?_getD, List.getElem?_set]
      by_cases hi' : i' = i
      · subst hi'; simp [hi]
      · simp [hi', Ne.symm hi']
    · simp [hk]
  · cases h

theorem setUint16_isSome (k d : Nat) (v : UInt16) :
    (m.setUint16 k d v).isSome ↔ d < (m.structAt k).data.length := by
  unfold setUint16
  dsimp only
  split <;> simp_all

/-- `SetUint16` changes no pointer, no pointer section's length and not the table. -/
theorem setUint16_spec {k d : Nat} {v : UInt16} (h : m.setUint16 k d v = some m') :
    m'.capTable = m.capTable ∧ (∀ k', (m'.structAt k').ptrs = (m.structAt k').ptrs) := by
  unfold setUint16 at h
  dsimp only at h
  split at h
  · next hd =>
    cases h
    refine ⟨rfl, fun k' => ?_⟩
    rw [structAt_set (lt_length_of_data hd)]
    split <;> simp_all
  · cases h

@[simp] theorem addCap_capTable (c : C) : (m.addCap c).1.capTable = m.capTable ++ [some c] := rfl
@[simp] theorem addCap_index (c : C) : (m.addCap c).2 = m.capTable.length := rfl
@[simp] theorem addCap_structAt (c : C) (k : Nat) : (m.addCap c).1.structAt k = m.structAt k := rfl

/-- A pointer that names an entry of a table names the same client in any
table that extends it. -/
theorem client_append {p : Ptr} (t : List (Option C)) (hp : p.inTable m.capTable.length = true)
    (h : m'.capTable = m.capTable ++ t) : m'.client p = m.client p := by
  cases p with
  | iface n =>
    simp only [Ptr.inTable, decide_eq_true_eq] at hp
    simp only [client, h, List.length_append, hp, dif_pos, List.getElem_append_left hp]
    simp only [show n < m.capTable.length + t.length by omega, dif_pos]
  | null | other => rfl

theorem linked_inTable (hl : m.Linked) (k i : Nat) : (m.ptr k i).inTable m.capTable.length = true := by
  cases h : m.ptr k i with
  | iface n => simpa [Ptr.inTable] using hl k i n h
  | null | other => rfl

/-- A slot inside a struct of the message holds a pointer of that struct. -/
theorem ptr_mem {k i : Nat} (hi : i < (m.structAt k).ptrs.length) :
    m.structAt k ∈ m.structs ∧ m.ptr k i ∈ (m.structAt k).ptrs := by
  have hk := lt_length_of_ptrs hi
  refine ⟨?_, ?_⟩
  · simp only [structAt, List.getD_eq_getElem?_getD, List.getElem?_eq_getElem hk, Option.getD_some]
    exact List.getElem_mem hk
  · simp only [ptr, List.getD_eq_getElem?_getD, List.getElem?_eq_getElem hi, Option.getD_some]
    exact List.getElem_mem hi

/-- `Linked` is a check over the message's pointers, so it can be decided. -/
theorem linked_iff : m.Linked ↔ ∀ s ∈ m.structs, ∀ p ∈ s.ptrs, p.inTable m.capTable.length := by
  constructor
  · intro hl s hs p hp
    obtain ⟨k, hk, rfl⟩ := List.getElem_of_mem hs
    obtain ⟨i, hi, rfl⟩ := List.getElem_of_mem hp
    have hat : m.structAt k = m.structs[k] := by
      simp [structAt, List.getD_eq_getElem?_getD, List.getElem?_eq_getElem hk]
    have hptr : m.ptr k i = m.structs[k].ptrs[i] := by
      simp [ptr, hat, List.getD_eq_getElem?_getD, List.getElem?_eq_getElem hi]
    rw [← hptr]
    exact linked_inTable hl k i
  · intro h k i n hn
    by_cases hi : i < (m.structAt k).ptrs.length
    · have ht := h _ (ptr_mem hi).1 _ (ptr_mem hi).2
      simpa [hn, Ptr.inTable] using ht
    · simp [ptr, List.getD_eq_getElem?_getD, List.getElem?_eq_none (Nat.le_of_not_lt hi)] at hn

instance (m : Msg C) : Decidable m.Linked := decidable_of_iff _ (linked_iff (m := m)).symm

end Msg

/-! ## What the setter does -/

namespace IfaceField

variable {C : Type} {f : IfaceField} {k : Nat} {v : Option C} {m m' : Msg C}

theorem settag_spec (h : f.settag k m = some m') :
    m'.capTable = m.capTable ∧ ∀ k', (m'.structAt k').ptrs = (m.structAt k').ptrs := by
  unfold settag at h
  split at h
  · exact Msg.setUint16_spec h
  · cases h; exact ⟨rfl, fun _ => rfl⟩

/-- The setter writes its own slot, and no other: the null pointer for nil,
else an interface pointer to the entry it appends to the table. -/
theorem set_spec (h : f.set k v m = some m') :
    m'.capTable = m.capTable ++ v.toList.map some ∧
      ∀ k' i', m'.ptr k' i' =
        if k' = k ∧ i' = f.offset then v.elim .null fun _ => .iface m.capTable.length
        else m.ptr k' i' := by
  obtain ⟨m₀, ht, hs⟩ := Option.bind_eq_some.mp h
  obtain ⟨hc₀, hp₀⟩ := settag_spec ht
  have hptr : ∀ k' i', m₀.ptr k' i' = m.ptr k' i' := fun k' i' => by
    simp only [Msg.ptr, hp₀]
  cases v with
  | none =>
    obtain ⟨hc, hp⟩ := Msg.setPtr_spec hs
    exact ⟨by simp [hc, hc₀], fun k' i' => by rw [hp, hptr]; rfl⟩
  | some c =>
    obtain ⟨hc, hp⟩ := Msg.setPtr_spec hs
    refine ⟨by simp [hc, hc₀], fun k' i' => ?_⟩
    rw [hp]
    simp only [Msg.addCap_index, hc₀, Option.elim_some]
    split
    · rfl
    · exact hptr k' i'

theorem settag_isSome :
    (f.settag k m).isSome ↔ ∀ d t, f.tag = some (d, t) → d < (m.structAt k).data.length := by
  unfold settag
  split
  · next d t ht => simp [Msg.setUint16_isSome, ht]
  · next ht => simp [ht]

/-- The setter panics exactly where the slot or the tag word lies outside the struct. -/
theorem set_isSome : (f.set k v m).isSome ↔ f.Fits k m := by
  unfold set Fits
  cases ht : f.settag k m with
  | none =>
    have htag := (settag_isSome (f := f) (k := k) (m := m)).not.mp (by simp [ht])
    simp only [Option.bind_eq_bind, Option.none_bind, Option.isSome_none, Bool.false_eq_true,
      false_iff]
    exact fun hf => htag hf.2
  | some m₀ =>
    have htag := (settag_isSome (f := f) (k := k) (m := m)).mp (by simp [ht])
    have hp := (settag_spec ht).2 k
    cases v <;>
      simp only [Option.bind_eq_bind, Option.some_bind, Msg.setPtr_isSome, Msg.addCap_structAt, hp] <;>
      exact iff_self_and.mpr fun _ => htag

/-- The pointer the setter writes names the value set, in the table it leaves. -/
theorem client_written (h : m'.capTable = m.capTable ++ v.toList.map some) :
    m'.client (v.elim .null fun _ => .iface m.capTable.length) = v := by
  cases v with
  | none => rfl
  | some c =>
    simp only [Option.toList_some, List.map_cons, List.map_nil] at h
    simp [Msg.client, h]

/-- One setter call on a linked message overwrites one slot of the view, and the
message stays linked. -/
theorem set_view (hl : m.Linked) (h : f.set k v m = some m') :
    m'.view = Function.update m.view (k, f.offset) v ∧ m'.Linked := by
  obtain ⟨hc, hp⟩ := set_spec h
  refine ⟨funext fun ⟨k', i'⟩ => ?_, fun k' i' n hn => ?_⟩
  · by_cases hs : k' = k ∧ i' = f.offset
    · obtain ⟨rfl, rfl⟩ := hs
      simp only [Msg.view, hp, and_self, if_true, Function.update_same]
      exact client_written hc
    · have hne : (k', i') ≠ (k, f.offset) := fun he => hs (Prod.mk.inj he)
      simp only [Msg.view, hp, hs, if_false, Function.update_noteq hne]
      exact Msg.client_append _ (Msg.linked_inTable hl k' i') hc
  · have hlen : m'.capTable.length = m.capTable.length + v.toList.length := by
      simp [hc]
    rw [hp] at hn
    split at hn
    · cases v with
      | none => cases hn
      | some c => cases hn; simp [hlen]
    · have := hl k' i' n hn
      omega

end IfaceField

/-- For every message, struct, interface field and client, nil included: the
setter returns exactly when the slot and the tag word lie in the struct, and
then the getter of every field of that slot reads the value set, whichever
member of a union the tag now names. -/
theorem set_roundtrip {C : Type} (f : IfaceField) (k : Nat) (v : Option C) (m : Msg C) :
    ((f.set k v m).isSome ↔ f.Fits k m) ∧
      ∀ m', f.set k v m = some m' → ∀ g : IfaceField, g.offset = f.offset → g.get k m' = v := by
  refine ⟨IfaceField.set_isSome, fun m' h g hg => ?_⟩
  obtain ⟨hc, hp⟩ := IfaceField.set_spec h
  simp only [IfaceField.get, hg, hp, and_self, if_true]
  exact IfaceField.client_written hc

/-- Without `Linked` a getter is not framed: a pointer whose index is the
table's length reads nil, and after a setter call that stores a client into
any other slot, it reads that client. -/
theorem set_aliases_dangling {C : Type} (f g : IfaceField) (k k' : Nat) (c : C) {m m' : Msg C}
    (hd : m.ptr k' g.offset = .iface m.capTable.length) (hne : (k', g.offset) ≠ (k, f.offset))
    (h : f.set k (some c) m = some m') : g.get k' m = none ∧ g.get k' m' = some c := by
  obtain ⟨hc, hp⟩ := IfaceField.set_spec h
  have hs : ¬ (k' = k ∧ g.offset = f.offset) := fun ⟨h1, h2⟩ => hne (by rw [h1, h2])
  refine ⟨by simp [IfaceField.get, hd, Msg.client], ?_⟩
  simp only [IfaceField.get, hp, hs, if_false, hd]
  exact IfaceField.client_written hc

/-- A struct read from bytes has an empty capability table; if it holds an
interface pointer to entry 0, setting its other slot makes that pointer read
the new client. -/
theorem set_aliases_dangling_decoded :
    (⟨0, none⟩ : IfaceField).get 0 (⟨[⟨[], [.iface 0, .null]⟩], []⟩ : Msg Nat) = none ∧
      (⟨0, none⟩ : IfaceField).get 0 (⟨[⟨[], [.iface 0, .iface 0]⟩], [some 7]⟩ : Msg Nat) =
        some 7 :=
  set_aliases_dangling ⟨1, none⟩ ⟨0, none⟩ 0 0 7 rfl (by decide) rfl

/-- From a linked message, every run of setter calls that returns leaves what
the abstract store gives: every getter reads the last value set at its slot,
or what it read before.  The capability table is the old one with every
non-nil client set appended in call order, overwritten ones included. -/
theorem runSets_view {C : Type} : ∀ (cs : List (IfaceField × Nat × Option C)) (m m' : Msg C),
    m.Linked → runSets cs m = some m' →
      m'.view = viewAfter m.view cs ∧
        m'.capTable = m.capTable ++ (cs.filterMap fun c => c.2.2).map some
  | [], m, m', _, h => by
    cases h
    simp [viewAfter]
  | (f, k, v) :: cs, m, m', hl, h => by
    obtain ⟨m₁, h₁, h₂⟩ := Option.bind_eq_some.mp h
    obtain ⟨hv, hl₁⟩ := IfaceField.set_view hl h₁
    obtain ⟨ihv, ihc⟩ := runSets_view cs m₁ m' hl₁ h₂
    refine ⟨by rw [ihv, hv]; rfl, ?_⟩
    rw [ihc, (IfaceField.set_spec h₁).1]
    cases v <;> simp

/-- Two members of one union sharing slot 0 of a struct with one tag word:
the client set through the first is overwritten with nil through the second,
and stays in the table. -/
theorem runSets_view_union :
    (⟨[⟨[2], [.null]⟩], [some 5]⟩ : Msg Nat).view =
        viewAfter (⟨[⟨[0], [.null]⟩], []⟩ : Msg Nat).view
          [(⟨0, some (0, 1)⟩, 0, some 5), (⟨0, some (0, 2)⟩, 0, none)] ∧
      [some 5] = [] ++ ([(⟨0, some (0, 1)⟩, 0, some 5), (⟨0, some (0, 2)⟩, 0, none)].filterMap
        fun (c : IfaceField × Nat × Option Nat) => c.2.2).map some :=
  runSets_view [(⟨0, some (0, 1)⟩, 0, some 5), (⟨0, some (0, 2)⟩, 0, none)]
    ⟨[⟨[0], [.null]⟩], []⟩ ⟨[⟨[2], [.null]⟩], [some 5]⟩ (by decide) rfl

end Mcm.Capnp
