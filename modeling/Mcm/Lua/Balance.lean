/-
  Mcm/Lua/Balance.lean --- `copyStruct` and `copyList` leave the Lua stack as
  they found it.

  THE CODE.  `copyStruct` pushes nil and runs `while (lua_next(state, -2))`.
  Each round leaves the key on top with the value above it, reads the key with
  `lua_tolstring(state, -2)`, copies the value, and pops it, so that the key is
  on top again for the next call.  The last call pops the key and pushes
  nothing.  `copyList` pushes element `i` with `lua_geti` and pops it after the
  copy.

  THE DOMAIN.  The argument needs two facts the model does not build in.  A Lua
  table has each key at most once (`TablesOk`, Lua 5.3 manual 2.1), so
  `lua_next` from the key of entry `i` goes to entry `i + 1`.  A Cap'n Proto
  field name begins with a lower-case letter (`Ty.Named`), so a number key,
  which `lua_tolstring` turns into its decimal text in place, never names a
  field, and the round raises before that key could reach `lua_next`.

  WHAT IS PROVED.  `copyEntry_step`: one round, from the previous key on top and
  the table at index -2, either gives the next key in the same position or, when
  the entries are exhausted, pops the key.  `foldlM_copyEntry`: the whole loop,
  by induction on the rounds left.  `copyStruct_restores`: by induction on the
  depth, every call that returns leaves the state it started from; the
  recursive calls see their table at index -1 (`copyField_post`,
  `copyList_post`).  `copyStruct_restores_stack` states the result for both
  functions.
-/
import Mcm.Lua.Copy

set_option autoImplicit false

namespace Mcm.Lua

open Capnp

theorem Post.entriesAt {st : State} {i : Int} {r : Nat} {Q : List (Value × Value) → State → Prop}
    (hr : st.slot i = .table r) (h : Q (st.tbl r).entries st) : Post (Lua.entriesAt i) st Q := by
  unfold Lua.entriesAt
  refine Post.bind (Post.get ?_)
  rw [hr]
  exact Post.pure h

/-! ## The copy of one field, and of a list -/

/-- What `copyField` and `copyList` need of the struct copier they are given. -/
def Restores (copier : List (Bytes × Ty × Bool) → LuaM Fields) : Prop :=
  ∀ fs, (Ty.struct fs).Named → ∀ st : State, TablesOk st.heap →
    Post (copier fs) st fun _ st' => st' = st

section Copy

variable {copier : List (Bytes × Ty × Bool) → LuaM Fields} (hc : Restores copier)
include hc

/-- `copyList` pops each element it pushes: it returns with the state it started from. -/
theorem copyList_post {elem : Ty} (hel : elem.Named) (size : Nat) {st : State}
    (hok : TablesOk st.heap) :
    Post (copyList copier elem size) st fun _ st' => st' = st := by
  unfold copyList
  refine Post.bind (Post.checkstack fun _ => Post.check fun _ => ?_)
  split <;> dsimp only
  · refine Post.foldlM_keep (fun _ i => Post.bind (Post.geti fun v => ?_)) _ _
    split
    · exact Post.bind (Post.tolstring_str (slot_neg_one rfl)
        (Post.bind (Post.pop_one rfl (Post.pure rfl))))
    · exact Post.raise
  · rename_i fs
    refine Post.foldlM_keep (fun _ i => Post.bind (Post.geti fun v => ?_)) _ _
    split
    · refine Post.bind ((hc fs hel _ ?_).mono fun _ s hs => ?_)
      · exact hok
      · subst hs
        exact Post.bind (Post.pop_one rfl (Post.pure rfl))
    · exact Post.raise
  · exact Post.raise

/-- `copyField` returns with the stack it started from, except that the value
on top may have been converted to a string in place. -/
theorem copyField_post {key : Bytes} {ty : Ty} (hty : ty.Named) {st : State} {ys : List Value}
    {w : Value} (hst : st.stack = ys ++ [w]) (hok : TablesOk st.heap) :
    Post (copyField copier key ty) st fun _ st' => ∃ y, st' = { st with stack := ys ++ [y] } := by
  have hkeep : ∀ a : Val,
      Post (Pure.pure a) st fun _ st' => ∃ y, st' = { st with stack := ys ++ [y] } :=
    fun _ => Post.pure ⟨w, (State.with_stack_self hst).symm⟩
  have htop : ∀ n, st.stack.set (st.absIndex (-1) - 1) (.str (intString n)) =
      ys ++ [.str (intString n)] := by
    intro n
    have : st.absIndex (-1) - 1 = ys.length := by
      rw [State.absIndex, if_neg (by decide), hst, List.length_append, List.length_singleton]
      omega
    simp [this, hst]
  cases ty with
  | text | data =>
    unfold copyField
    refine Post.bind (Post.isstring (fun s hs => Post.check fun _ => ?_)
      (fun n hn => Post.check fun _ => ?_) (Post.check fun h => nomatch h))
    · exact Post.bind (Post.tolstring_str hs (hkeep _))
    · exact Post.bind (Post.tolstring_int hn (Post.pure ⟨_, by rw [htop]⟩))
  | struct gfs =>
    unfold copyField
    refine Post.bind (Post.istable (fun _ _ => Post.check fun _ => ?_) (Post.check fun h => nomatch h))
    exact Post.bind ((hc gfs hty st hok).mono fun _ s hs => by subst hs; exact hkeep _)
  | list elem =>
    have hel : elem.Named := by cases hty; assumption
    unfold copyField
    refine Post.bind (Post.istable (fun _ _ => Post.check fun _ => ?_) (Post.check fun h => nomatch h))
    refine Post.bind (Post.len fun n => Post.bind (Post.tointeger fun m => ?_))
    refine Post.bind (Post.pop_one rfl ?_)
    show Post _ st _
    split
    · exact Post.bind ((copyList_post hc hel _ hok).mono fun _ s hs => by
        subst hs
        exact hkeep _)
    · exact hkeep _
  | other w => exact Post.raise

end Copy

/-! ## One round of the `lua_next` loop, and the whole loop -/

section Loop

variable {copier : List (Bytes × Ty × Bool) → LuaM Fields} (hc : Restores copier)
  {fs : List (Bytes × Ty × Bool)} (hfs : (Ty.struct fs).Named)
include hc hfs

/-- One round of the loop, from the previous key on top and the table at index
-2, with entry `i` next: it copies entry `i` and leaves its key on top, or, past
the last entry, pops the key. -/
theorem copyEntry_step {st : State} {ys : List Value} {r : Nat} {k : Value} {i : Nat}
    (hst : st.stack = ys ++ [.table r, k]) (hok : TablesOk st.heap)
    (hk : nextEntry (st.tbl r).entries k = .ok (st.tbl r).entries[i]?) (fields : Fields) (j : Nat) :
    Post (copyEntry copier fs (false, fields) j) st fun acc st' =>
      (acc.1 = false ∧ i < (st.tbl r).entries.length ∧
        ∃ k', st' = { st with stack := ys ++ [.table r, k'] } ∧
          nextEntry (st.tbl r).entries k' = .ok (st.tbl r).entries[i + 1]?) ∨
      (acc.1 = true ∧ (st.tbl r).entries.length ≤ i ∧ st' = { st with stack := ys ++ [.table r] }) := by
  unfold copyEntry
  refine Post.ite (fun h => nomatch h) fun _ => Post.bind (Post.pure ?_)
  refine Post.bind (Post.next_two hst (fun k' v hkv => ?_) (fun hnone => ?_))
  · have hi : (st.tbl r).entries[i]? = some (k', v) := Except.ok.inj (hk.symm.trans hkv)
    have hst2 : ({ st with stack := ys ++ [.table r, k', v] } : State).stack =
        (ys ++ [.table r]) ++ [k', v] := by simp
    refine Post.ite (fun h => nomatch h) fun _ => Post.bind (Post.pure ?_)
    refine Post.bind (Post.isstring (fun s hs => Post.check fun _ => ?_)
      (fun n hn => Post.check fun _ => ?_) (Post.check fun h => nomatch h))
    · rw [slot_neg_two hst2] at hs
      subst hs
      refine Post.bind (Post.tolstring_str (slot_neg_two hst2) ?_)
      dsimp only [Option.getD]
      split
      · exact Post.raise
      · rename_i ty u hty
        have hst3 : ({ st with stack := ys ++ [.table r, .str s, v] } : State).stack =
            (ys ++ [.table r, .str s]) ++ [v] := by simp
        refine Post.bind ((copyField_post hc (hfs.findField hty) hst3 hok).mono fun _ st3 h3 => ?_)
        obtain ⟨y, rfl⟩ := h3
        refine Post.bind (Post.pop_one rfl (Post.pure ?_))
        exact .inl ⟨rfl, (List.getElem?_eq_some_iff.mp hi).1, _, rfl, nextEntry_key (hok.tbl r) hi⟩
    · refine Post.bind (Post.tolstring_int hn ?_)
      dsimp only [Option.getD]
      rw [hfs.findField_none (isFieldName_intString n)]
      exact Post.raise
  · refine Post.ite (fun _ => Post.pure (.inr ⟨rfl, ?_, rfl⟩)) fun h => absurd rfl h
    have hi : (st.tbl r).entries[i]? = none := Except.ok.inj (hk.symm.trans hnone)
    exact List.getElem?_eq_none_iff.mp hi

/-- The rounds left, from entry `i` on: the loop ends with the key popped. -/
theorem foldlM_copyEntry {st : State} (hok : TablesOk st.heap) {ys : List Value} {r : Nat}
    (hst : st.stack = ys ++ [.table r]) (n : Nat) :
    ∀ (i : Nat) (k : Value) (fields : Fields), i + n = (st.tbl r).entries.length + 1 →
      i ≤ (st.tbl r).entries.length → nextEntry (st.tbl r).entries k = .ok (st.tbl r).entries[i]? →
      Post ((List.range' i n).foldlM (copyEntry copier fs) (false, fields))
        { st with stack := ys ++ [.table r, k] } fun _ st' => st' = st := by
  induction n with
  | zero => intro i _ _ hn hi; omega
  | succ n ih =>
    intro i k fields hn hi hk
    rw [List.range'_succ, List.foldlM_cons]
    have hst' : ({ st with stack := ys ++ [.table r, k] } : State).stack = ys ++ [.table r, k] := rfl
    refine Post.bind ((copyEntry_step hc hfs hst' hok hk fields i).mono fun acc st' h => ?_)
    rcases h with ⟨hacc, hlt, k', rfl, hk'⟩ | ⟨hacc, hle, rfl⟩
    · obtain ⟨b, fields'⟩ := acc
      cases hacc
      exact ih (i + 1) k' fields' (by omega) hlt hk'
    · have hle' : (st.tbl r).entries.length ≤ i := hle
      obtain rfl : n = 0 := by omega
      exact Post.pure (State.with_stack_self hst)

end Loop

/-! ## The recursion -/

/-- `copyStruct` at every depth returns only with the state it started from. -/
theorem copyStruct_restores : ∀ depth, Restores (copyStruct depth)
  | 0 => fun _ _ _ _ => Post.raise
  | d + 1 => fun fs hfs st hok => by
    unfold copyStruct
    refine Post.bind (Post.istable (fun r hr => Post.check fun _ => ?_) (Post.check fun h => nomatch h))
    refine Post.bind (Post.checkstack fun _ => Post.check fun _ => ?_)
    obtain ⟨ys, hys⟩ := stack_of_slot hr
    have hpush : ({ st with stack := st.stack ++ [.nil] } : State) =
        { st with stack := ys ++ [.table r, .nil] } := by
      rw [hys, List.append_assoc]
      rfl
    refine Post.bind (Post.push ?_)
    rw [hpush]
    refine Post.bind (Post.entriesAt (slot_neg_two rfl) ?_)
    dsimp only
    rw [List.range_eq_range']
    exact Post.bind ((foldlM_copyEntry (copyStruct_restores d) hfs hok hys
      ((st.tbl r).entries.length + 1) 0 .nil .nil (by omega) (by omega)
      (by simp [nextEntry, List.head?_eq_getElem?])).mono fun _ s hs => Post.pure hs)

/-! ## The result -/

/-- For every depth, every schema the schema language accepts, and every Lua
state whose tables have distinct keys: `copyStruct` either raises or returns
with the state it started from, so with the same stack, at the same height and
with the same values.  So does `copyList`, with `copyStruct` copying its
struct elements, for every element type and size. -/
theorem copyStruct_restores_stack (depth : Nat) :
    (∀ (fs : List (Bytes × Ty × Bool)) (st : State) (v : Fields) (st' : State),
      (Ty.struct fs).Named → TablesOk st.heap → copyStruct depth fs st = .ok v st' → st' = st) ∧
    (∀ (elem : Ty) (size : Nat) (st : State) (vs : Vals) (st' : State),
      elem.Named → TablesOk st.heap → copyList (copyStruct depth) elem size st = .ok vs st' →
        st' = st) :=
  ⟨fun fs st _ _ hfs hok hrun => copyStruct_restores depth fs hfs st hok _ _ hrun,
    fun _ size _ _ _ hel hok hrun => copyList_post (copyStruct_restores depth) hel size hok _ _ hrun⟩

/-- The schema with one List(Text) field `tags`. -/
def tagsSchema : List (Bytes × Ty × Bool) := [(ascii "tags", .list .text, false)]

theorem copyStruct_restores_tags :
    (Ty.struct tagsSchema).Named ∧ TablesOk tagsState.heap ∧
      ∃ v st', copyStruct 1 tagsSchema tagsState = .ok v st' ∧ st' = tagsState := by
  have hnamed : (Ty.struct tagsSchema).Named :=
    .struct (by decide) fun f hf => by
      simp only [tagsSchema, List.mem_singleton] at hf
      subst hf
      exact .list .text
  have hok : TablesOk tagsState.heap := by
    unfold TablesOk
    decide
  have hrun : copyStruct 1 tagsSchema tagsState =
      .ok (.cons (ascii "tags") (.list (.cons (.text (ascii "a")) .nil)) .nil) tagsState := rfl
  exact ⟨hnamed, hok, _, _, hrun, (copyStruct_restores_stack 1).1 _ _ _ _ hnamed hok hrun⟩

end Mcm.Lua
