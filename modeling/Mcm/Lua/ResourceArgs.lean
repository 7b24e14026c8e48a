/-
  Mcm/Lua/ResourceArgs.lean --- what `mcm.resource` puts into the resource it
  adds.

  THE CODE.  `resourcefunc` checks its three arguments, reads the type tag
  from the metatable of the third, and appends a resource (`newResource`).
  It sets the id and comment from the first argument: an `mcm.hash` object,
  or a string or number it hashes.  It sets one dependency per entry
  `1..#deps` of the second argument, read with `lua_geti`, in a loop that
  stores each id at its index.  It sets the body from the tag: `noop`, or a
  `File` or `Exec` copied by `copyStruct`.

  THE MODEL.  The proof reads `resourcefunc` with `Post` (every normal return
  meets a postcondition), one rule per API call it makes, each naming the
  value the call reads; `Mcm.Lua.State` has the rest.  The loop gets its own
  contract, `copyDeps_post`, proved by induction on the indices left.
  `copyStruct` is reused through its `KeepsRes` contract.  The three join
  points of the `do` block (the body, the dependencies, the return) are
  lifted and proved once each.

  WHAT IS PROVED.  `resourcefunc_adds`: for every state, a call of
  `mcm.resource` that returns has appended exactly one resource, and that
  resource is what its arguments say (`Adds`).  Its id and comment are those
  `idOf` reads from argument 1.  It has one dependency per entry of
  argument 2 up to the table's border, each the id of that entry as
  `lua_geti` reads it (`depId`).  Its body is of the kind the type tag names
  (`BodyOf`); a `File` or `Exec` body is what `copyStruct` returns from
  argument 3 (`BodyCopied`), which `Mcm.Lua.CopyImage` reads as an image.
  `exec_catalog_declared`: for a whole program that completes and in which
  every call of `mcm.resource` made through `pcall`, `xpcall` or
  `coroutine.resume` returns, the catalog is one such resource per call, in
  the order of the calls.
-/
import Mcm.Lua.Resources
import Mathlib.Tactic.LiftLets

set_option autoImplicit false

namespace Mcm.Lua

open Capnp

/-! ## What the arguments say -/


/-- What `mcm.resource` reads as an id: an `mcm.hash` object's id and
comment, or the hash of a string, a number read as its decimal string. -/
def idOf (sha1 : Bytes → Bytes) : Value → Option (UInt64 × Bytes)
  | .ud (.id v c) => some (v, c)
  | .str s => some (idHash sha1 s, s)
  | .int n => some (idHash sha1 (intString n), intString n)
  | _ => none

/-- Dependency `j` of the table `d`: the id of `d[j+1]`, read as `lua_geti`
reads it. -/
def depId (sha1 : Bytes → Bytes) (st : State) (d j : Nat) : Option UInt64 :=
  match index st maxTagLoop (.table d) (.int ((j : Int) + 1)) with
  | .ok v => (idOf sha1 v).map Prod.fst
  | .error _ => none

/-- `t[k]` reads the heap only. -/
theorem index_congr {s s' : State} (h : s.heap = s'.heap) :
    ∀ n t k, index s n t k = index s' n t k
  | 0, _, _ => rfl
  | n + 1, t, k => by
    have ht : s.tbl = s'.tbl := by funext r; simp only [State.tbl, h]
    cases t <;> simp only [index, ht, index_congr h n]

/-! ## A rule for each API call `resourcefunc` makes -/

namespace Post

variable {st : State}

/-- A computation, then the rest proved from what the first leaves. -/
theorem seq {α β : Type} {x : LuaM α} {f : α → LuaM β} {R : α → State → Prop}
    {Q : β → State → Prop} (hx : Post x st R) (hf : ∀ a s, R a s → Post (f a) s Q) :
    Post (x >>= f) st Q :=
  bind (mono hx hf)

theorem gettop {Q : Nat → State → Prop} (h : Q st.stack.length st) : Post Lua.gettop st Q := by
  rintro b st' ⟨⟩
  exact h

/-- `lua_geti` pushes the value `t[n]` reads. -/
theorem geti_index {i n : Int} {Q : Value → State → Prop}
    (h : ∀ v, index st maxTagLoop (st.slot i) (.int n) = .ok v →
      Q v { st with stack := st.stack ++ [v] }) : Post (Lua.geti i n) st Q :=
  bind (get (bind (liftResult fun v hv => bind (push (pure (h v hv))))))

/-- `lua_len` of a table pushes its border, when it returns. -/
theorem len_table {i : Int} {r : Nat} (hs : st.slot i = .table r) {Q : Unit → State → Prop}
    (h : Q () { st with stack := st.stack ++ [.int (st.tbl r).border] }) :
    Post (Lua.len i) st Q := by
  unfold Lua.len
  refine bind (get ?_)
  dsimp only
  rw [hs]
  dsimp only
  cases (st.tbl r).meta with
  | none => exact push h
  | some m =>
    dsimp only
    split
    · rintro _ _ ⟨⟩
    · exact push h

theorem tointeger_int {i n : Int} (hs : st.slot i = .int n) {Q : Int → State → Prop}
    (h : Q n st) : Post (Lua.tointeger i) st Q :=
  bind (valueAt (by rw [hs]; exact pure h))

theorem newResource {Q : Unit → State → Prop}
    (h : Q () { st with resources := st.resources ++ [⟨0, [], [], .noop⟩] }) :
    Post Lua.newResource st Q := by
  rintro _ _ ⟨⟩
  exact h

/-- `setRes f` changes the last resource by `f`. -/
theorem setRes {L : List Res} {r : Res} (hres : st.resources = L ++ [r]) (f : Res → Res)
    {Q : Unit → State → Prop} (h : Q () { st with resources := L ++ [f r] }) :
    Post (Lua.setRes f) st Q := by
  rintro _ _ ⟨⟩
  show Q () { st with resources := match st.resources.getLast? with
    | some r => st.resources.dropLast ++ [f r]
    | none => [] }
  rw [hres, List.getLast?_concat, List.dropLast_concat]
  exact h

theorem argCheck {b : Bool} {arg : Nat} {msg : Bytes} {Q : Unit → State → Prop}
    (h : b = true → Q () st) : Post (Lua.argCheck b arg msg) st Q := by
  unfold Lua.argCheck
  split
  · exact pure (h ‹_›)
  · exact raise

/-- `copyStruct` keeps the resources (`keepsRes_copyStruct`), and returns
what its run from `st` returns. -/
theorem copyStruct_run (n : Nat) (fs : List (Bytes × Ty × Bool)) :
    Post (Lua.copyStruct n fs) st fun v s => s.resources = st.resources ∧
      Lua.copyStruct n fs st = .ok v s := fun _ s h => by
  have := keepsRes_copyStruct n fs st
  rw [h] at this
  exact ⟨this, h⟩

/-- A computation whose run is known, then the rest. -/
theorem bind_ok {α β : Type} {x : LuaM α} {f : α → LuaM β} {a : α} {s : State}
    {Q : β → State → Prop} (hx : x st = .ok a s) (h : Post (f a) s Q) :
    Post (x >>= f) st Q := by
  intro b st' hrun
  simp only [Bind.bind, EStateM.bind, hx] at hrun
  exact h _ _ hrun

/-- `luaL_getmetafield` pushes the field it finds; only its `true` return
goes on. -/
theorem getmetafield {i : Int} {e : Bytes} {Q : Bool → State → Prop}
    (h : metafield st (st.slot i) e ≠ .nil →
      Q true { st with stack := st.stack ++ [metafield st (st.slot i) e] }) :
    Post (Lua.getmetafield i e) st (fun b s => b = true → Q b s) := by
  unfold Lua.getmetafield
  refine bind (get ?_)
  unfold metafield at h
  cases hm : st.metaOf (st.slot i) with
  | none => exact pure (fun hb => by cases hb)
  | some m =>
    simp only [hm] at h
    dsimp only
    split
    · exact pure (fun hb => by cases hb)
    · exact bind (push (pure fun _ => h ‹_›))

theorem getId_post {i : Int} :
    Post (Lua.getId i) st fun o s => s = st ∧
      (∀ v c, o = some (v, c) → st.slot i = .ud (.id v c)) ∧
      (o = none → ∀ v c, st.slot i ≠ .ud (.id v c)) := by
  unfold Lua.getId
  refine bind (valueAt ?_)
  split
  · exact pure ⟨rfl, (fun _ _ h => by cases h; assumption), fun h => by cases h⟩
  · exact pure ⟨rfl, (fun _ _ h => by cases h), fun _ => ‹_›⟩

theorem getResourceType_post {i : Int} :
    Post (Lua.getResourceType i) st fun o s =>
      s = st ∧ ∀ v, o = some v → st.slot i = .ud (.resourceType v) := by
  unfold Lua.getResourceType
  refine bind (valueAt ?_)
  split
  · exact pure ⟨rfl, fun _ h => by cases h; assumption⟩
  · exact pure ⟨rfl, fun _ h => nomatch h⟩

/-- A join point of a `do` block: the body is proved for any continuation
meeting the join point's relation `R`, which the join point meets. -/
theorem jp {β γ : Type} {k : β → LuaM γ} {body : (β → LuaM γ) → LuaM γ}
    {Q : γ → State → Prop} (R : β → State → Prop)
    (h : ∀ j : β → LuaM γ, (∀ y s, R y s → Post (j y) s Q) → Post (body j) st Q)
    (hk : ∀ y s, R y s → Post (k y) s Q) : Post (let j := k; body j) st Q :=
  h k hk

end Post

/-! ## The dependency loop -/

/-- `idAt sha1 (-1)` returns the id `idOf` reads from the value on top, and
converts a number there to its string. -/
theorem idAt_top (sha1 : Bytes → Bytes) (H : List Table) (ys : List Value) (v : Value)
    (R : List Res) :
    ∃ v', idAt sha1 (-1) ⟨H, ys ++ [v], R⟩ = .ok (idOf sha1 v) ⟨H, ys ++ [v'], R⟩ := by
  have htop : (⟨H, ys ++ [v], R⟩ : State).slot (-1) = v := slot_neg_one rfl
  have habs : (⟨H, ys ++ [v], R⟩ : State).absIndex (-1) - 1 = ys.length := by
    rw [State.absIndex, if_neg (by decide)]
    simp only [List.length_append, List.length_singleton]
    omega
  cases v <;> (try cases ‹Userdata›) <;>
    exact ⟨_, by
      simp only [idAt, getId, isstring, tolstring, valueAt, Bind.bind, EStateM.bind, get, getThe,
        MonadStateOf.get, EStateM.get, Pure.pure, EStateM.pure, set, MonadStateOf.set, EStateM.set,
        htop, habs, if_true, List.set_append_right, Nat.le_refl, Nat.sub_self, List.set_cons_zero]
      rfl⟩

theorem depId_congr (sha1 : Bytes → Bytes) {s s' : State} (h : s.heap = s'.heap) (d j : Nat) :
    depId sha1 s d j = depId sha1 s' d j := by
  simp only [depId, index_congr h]

/-- One round of the dependency loop: dependency `k` is read through
`lua_geti` and its id stored at `k`; the stack is as it was. -/
theorem copyDep_post (sha1 : Bytes → Bytes) (H : List Table) (ys : List Value) (L : List Res)
    (r : Res) {d : Nat} (hd : (⟨H, ys, L ++ [r]⟩ : State).slot 2 = .table d)
    (acc : List UInt64) (k : Nat) :
    Post (copyDep sha1 acc k) ⟨H, ys, L ++ [r]⟩ fun acc' s =>
      ∃ v, depId sha1 ⟨H, ys, L ++ [r]⟩ d k = some v ∧ acc' = acc.set k v ∧
        s = ⟨H, ys, L ++ [{ r with deps := acc' }]⟩ := by
  unfold copyDep
  refine Post.bind (Post.geti_index fun w hw => ?_)
  obtain ⟨w', hid⟩ := idAt_top sha1 H ys w (L ++ [r])
  refine Post.bind_ok hid ?_
  cases hw' : idOf sha1 w with
  | none => exact fun _ _ h => by cases h
  | some p =>
    obtain ⟨v, c⟩ := p
    refine Post.bind (Post.setRes rfl _
      (Post.bind (Post.pop_one rfl (Post.pure ⟨v, ?_, rfl, rfl⟩))))
    rw [hd] at hw
    simp only [depId, hw, hw', Option.map_some']

/-- The dependency loop over the indices `k, ..., n - 1`, with the ids of the
first `k` already stored: it stores the id of every dependency. -/
theorem copyDeps_post (sha1 : Bytes → Bytes) (H : List Table) (ys : List Value) (L : List Res)
    (s0 : State) (hs0 : s0.heap = H) {d : Nat}
    (hd : ∀ R, (⟨H, ys, R⟩ : State).slot 2 = .table d) (n : Nat) :
    ∀ (m k : Nat) (acc : List UInt64) (r : Res), k + m = n → acc.length = n → r.deps = acc →
      (∀ j, j < k → depId sha1 s0 d j = acc[j]?) →
      Post ((List.range' k m).foldlM (copyDep sha1) acc) ⟨H, ys, L ++ [r]⟩ fun acc' s =>
        s = ⟨H, ys, L ++ [{ r with deps := acc' }]⟩ ∧ acc'.length = n ∧
          ∀ j, j < n → depId sha1 s0 d j = acc'[j]?
  | 0, k, acc, r, hk, hlen, hr, hdone => by
    refine Post.pure ⟨by rw [← hr], hlen, fun j hj => hdone j (by omega)⟩
  | m + 1, k, acc, r, hk, hlen, hr, hdone => by
    rw [List.range'_succ, List.foldlM_cons]
    refine Post.seq (copyDep_post sha1 H ys L r (hd _) acc k) ?_
    rintro _ _ ⟨v, hv, rfl, rfl⟩
    refine copyDeps_post sha1 H ys L s0 hs0 hd n m (k + 1) _ _ (by omega)
      (by rw [List.length_set, hlen]) rfl fun j hj => ?_
    rw [List.getElem?_set]
    by_cases hjk : k = j
    · subst hjk
      rw [if_pos rfl, if_pos (by omega), @depId_congr sha1 _ ⟨H, ys, L ++ [r]⟩ hs0, hv]
    · rw [if_neg hjk]
      exact hdone j (by omega)

/-! ## `mcm.resource` -/

/-- The body a resource gets from its type tag. -/
def BodyOf (ty : UInt64) (b : Body) : Prop :=
  ty = 0 ∧ b = .noop ∨ ty = fileResId ∧ (∃ f, b = .file f) ∨
    ty = execResId ∧ ∃ e, b = .exec e

/-- The resource a call of `mcm.resource` on the stack of `st` adds: the id
and comment of argument 1, the ids of the entries `1..#deps` of argument 2 in
order, and a body of the kind the type tag of argument 3 names. -/
structure Adds (sha1 : Bytes → Bytes) (st : State) (r : Res) : Prop where
  id : idOf sha1 (st.slot 1) = some (r.id, r.comment)
  deps : ∃ d, st.slot 2 = .table d ∧ r.deps.length = (st.tbl d).border ∧
    ∀ j, j < r.deps.length → depId sha1 st d j = r.deps[j]?
  body : ∃ ty, metafield st (st.slot 3) resourceTypeMetaKey = .ud (.resourceType ty) ∧
    BodyOf ty r.body

/-- `f` is what `copyStruct` returns from a state with the heap of `st` and
argument 3 of `st` on top of three values, where `resourcefunc` calls it. -/
def CopiedFrom (fs : List (Bytes × Ty × Bool)) (st : State) (f : Fields) : Prop :=
  ∃ s s', copyStruct luaiMaxStack fs s = .ok f s' ∧ s.heap = st.heap ∧ s.stack.length = 3 ∧
    s.slot (-1) = st.slot 3

/-- A `File` or `Exec` body is the copy of argument 3 under its schema. -/
def BodyCopied (fileSchema execSchema : List (Bytes × Ty × Bool)) (st : State) : Body → Prop
  | .noop => True
  | .file f => CopiedFrom fileSchema st f
  | .exec e => CopiedFrom execSchema st e

theorem resourcefunc_post (sha1 : Bytes → Bytes)
    (fileSchema execSchema : List (Bytes × Ty × Bool)) (st : State) :
    Post (resourcefunc sha1 fileSchema execSchema) st fun _ s' =>
      ∃ r, s'.resources = st.resources ++ [r] ∧ Adds sha1 st r ∧
        BodyCopied fileSchema execSchema st r.body := by
  obtain ⟨H, stk, L⟩ := st
  unfold resourcefunc
  refine Post.bind (Post.gettop ?_)
  refine Post.jp (fun _ s => s = ⟨H, stk, L⟩ ∧ stk.length = 3)
    (fun j hj => Post.ite (fun _ => Post.bind Post.raise)
      fun h => Post.bind (Post.pure (hj _ _ ⟨rfl, not_not.mp h⟩))) ?_
  rintro _ _ ⟨rfl, h3⟩
  obtain ⟨a1, a2, a3, rfl⟩ : ∃ a1 a2 a3, stk = [a1, a2, a3] := by
    match stk, h3 with
    | [a1, a2, a3], _ => exact ⟨a1, a2, a3, rfl⟩
  refine Post.seq (Post.istable (i := 2)
    (Q := fun b s => s = ⟨H, [a1, a2, a3], L⟩ ∧ (b = true → ∃ d, a2 = .table d))
    (fun r hr => ⟨rfl, fun _ => ⟨r, hr⟩⟩) ⟨rfl, fun h => by cases h⟩) ?_
  rintro b2 _ ⟨rfl, hb2⟩
  refine Post.bind (Post.argCheck fun h => ?_)
  obtain ⟨d, rfl⟩ := hb2 h
  refine Post.seq (Post.istable (i := 3)
    (Q := fun b s => s = ⟨H, [a1, .table d, a3], L⟩ ∧ (b = true → ∃ t, a3 = .table t))
    (fun r hr => ⟨rfl, fun _ => ⟨r, hr⟩⟩) ⟨rfl, fun h => by cases h⟩) ?_
  rintro b3 _ ⟨rfl, hb3⟩
  refine Post.bind (Post.argCheck fun h => ?_)
  obtain ⟨t, rfl⟩ := hb3 h
  generalize hmf_def :
    metafield ⟨H, [a1, .table d, .table t], L⟩ (.table t) resourceTypeMetaKey = mf
  refine Post.seq (Post.getmetafield (i := 3) (e := resourceTypeMetaKey)
    (Q := fun _ s => s = ⟨H, [a1, .table d, .table t, mf], L⟩)
    fun _ => by rw [← hmf_def]; rfl) ?_
  intro bm s hbm
  refine Post.jp (fun _ s' => s' = s ∧ bm = true)
    (fun j hj => Post.ite (fun h => Post.bind (Post.pure (hj _ _ ⟨rfl, h⟩)))
      fun _ => Post.bind Post.raise) ?_
  rintro _ _ ⟨rfl, rfl⟩
  obtain rfl := hbm rfl
  refine Post.seq Post.getResourceType_post ?_
  rintro o _ ⟨rfl, ho⟩
  cases o with
  | none => exact Post.bind Post.raise
  | some ty =>
  have hty : metafield ⟨H, [a1, .table d, .table t], L⟩ (.table t) resourceTypeMetaKey =
      .ud (.resourceType ty) := hmf_def.trans (ho ty rfl)
  refine Post.bind (Post.pure (Post.bind (Post.pop_one
    (show _ = [a1, .table d, .table t] ++ [mf] from rfl) (Post.bind (Post.newResource ?_)))))
  refine Post.seq Post.getId_post ?_
  rintro oid _ ⟨rfl, hid1, hid2⟩
  lift_lets
  intro jF jB jD
  have hF : ∀ y s,
      (∃ r, s.resources = L ++ [r] ∧ Adds sha1 ⟨H, [a1, .table d, .table t], L⟩ r ∧
        BodyCopied fileSchema execSchema ⟨H, [a1, .table d, .table t], L⟩ r.body) →
      Post (jF y) s fun _ s' => ∃ r, s'.resources = L ++ [r] ∧
        Adds sha1 ⟨H, [a1, .table d, .table t], L⟩ r ∧
        BodyCopied fileSchema execSchema ⟨H, [a1, .table d, .table t], L⟩ r.body :=
    fun _ _ h => Post.pure h
  have hB : ∀ y s, (∃ a1' i c deps, s = ⟨H, [a1', .table d, .table t], L ++ [⟨i, c, deps, .noop⟩]⟩ ∧
      idOf sha1 a1 = some (i, c) ∧
      deps.length = ((⟨H, [a1, .table d, .table t], L⟩ : State).tbl d).border ∧
      ∀ j, j < deps.length → depId sha1 ⟨H, [a1, .table d, .table t], L⟩ d j = deps[j]?) →
      Post (jB y) s fun _ s' => ∃ r, s'.resources = L ++ [r] ∧
        Adds sha1 ⟨H, [a1, .table d, .table t], L⟩ r ∧
        BodyCopied fileSchema execSchema ⟨H, [a1, .table d, .table t], L⟩ r.body := by
    rintro y _ ⟨a1', i, c, deps, rfl, hid, hlen, hdep⟩
    have adds : ∀ b, BodyOf ty b →
        Adds sha1 ⟨H, [a1, .table d, .table t], L⟩ ⟨i, c, deps, b⟩ :=
      fun b hb => ⟨hid, ⟨d, rfl, hlen, hdep⟩, ⟨ty, hty, hb⟩⟩
    refine Post.ite
      (fun h0 => Post.bind (Post.setRes rfl _
        (hF () _ ⟨_, rfl, adds _ (.inl ⟨h0, rfl⟩), trivial⟩)))
      fun _ => Post.ite (fun hf => ?_) fun _ => Post.ite (fun he => ?_) fun _ =>
        Post.bind Post.raise
    · refine Post.bind (Post.setRes rfl _
        (Post.seq (Post.copyStruct_run _ _) fun f s' hs' => ?_))
      exact Post.bind (Post.setRes hs'.1 _ (hF () _
        ⟨_, rfl, adds _ (.inr (.inl ⟨hf, f, rfl⟩)), _, _, hs'.2, rfl, rfl, rfl⟩))
    · refine Post.bind (Post.setRes rfl _
        (Post.seq (Post.copyStruct_run _ _) fun e s' hs' => ?_))
      exact Post.bind (Post.setRes hs'.1 _ (hF () _
        ⟨_, rfl, adds _ (.inr (.inr ⟨he, e, rfl⟩)), _, _, hs'.2, rfl, rfl, rfl⟩))
  have hD : ∀ y s, (∃ a1' i c, idOf sha1 a1 = some (i, c) ∧
      s = ⟨H, [a1', .table d, .table t], L ++ [⟨i, c, [], .noop⟩]⟩) →
      Post (jD y) s fun _ s' => ∃ r, s'.resources = L ++ [r] ∧
        Adds sha1 ⟨H, [a1, .table d, .table t], L⟩ r ∧
        BodyCopied fileSchema execSchema ⟨H, [a1, .table d, .table t], L⟩ r.body := by
    rintro y _ ⟨a1', i, c, hid, rfl⟩
    refine Post.bind (Post.len_table (by rfl) (Post.bind (Post.tointeger_int (by rfl)
      (Post.bind (Post.pop_one (show _ = [a1', .table d, .table t] ++ [_] from rfl) ?_)))))
    refine Post.ite (fun hpos => ?_) fun hpos => ?_
    · refine Post.bind (Post.setRes rfl _ ?_)
      rw [List.range_eq_range', Int.toNat_ofNat]
      refine Post.seq (copyDeps_post sha1 H [a1', .table d, .table t] L
        ⟨H, [a1, .table d, .table t], L⟩ rfl (fun _ => rfl) _ _ 0 _ _ (Nat.zero_add _)
        (List.length_replicate _ _) rfl
        fun j hj => absurd hj (Nat.not_lt_zero j)) ?_
      rintro acc _ ⟨rfl, hlen, hdeps⟩
      exact Post.bind (Post.pure
        (hB PUnit.unit _ ⟨a1', i, c, acc, rfl, hid, hlen, fun j hj => hdeps j (hlen ▸ hj)⟩))
    · have h0 : ((⟨H, [a1, .table d, .table t], L⟩ : State).tbl d).border = 0 := by
        have : ¬ (0 : Int) < ((⟨H, [a1, .table d, .table t], L⟩ : State).tbl d).border := hpos
        omega
      exact Post.bind (Post.pure (hB PUnit.unit _
        ⟨a1', i, c, [], rfl, hid, h0.symm, fun j hj => absurd hj (Nat.not_lt_zero j)⟩))
  cases oid with
  | some p =>
    obtain ⟨v, c⟩ := p
    have ha1 : a1 = .ud (.id v c) := hid1 v c rfl
    exact Post.bind (Post.setRes (by rfl) _ (hD () _ ⟨a1, v, c, by rw [ha1]; rfl, rfl⟩))
  | none =>
    refine Post.seq (Post.isstring (i := 1)
      (Q := fun b s => s = ⟨H, [a1, .table d, .table t], L ++ [⟨0, [], [], .noop⟩]⟩ ∧
        (b = true → (∃ x, a1 = .str x) ∨ ∃ n, a1 = .int n))
      (fun x hx => ⟨rfl, fun _ => .inl ⟨x, hx⟩⟩) (fun n hn => ⟨rfl, fun _ => .inr ⟨n, hn⟩⟩)
      ⟨rfl, fun h => by cases h⟩) ?_
    rintro b _ ⟨rfl, hb⟩
    refine Post.ite (fun hb' => ?_) fun _ => Post.bind Post.raise
    rcases hb hb' with ⟨x, rfl⟩ | ⟨n, rfl⟩
    · exact Post.bind (Post.tolstring_str (by rfl)
        (Post.bind (Post.setRes (by rfl) _ (hD () _ ⟨_, _, _, rfl, rfl⟩))))
    · exact Post.bind (Post.tolstring_int (by rfl) (Post.bind (Post.setRes (by rfl) _
        (hD () _ ⟨.str (intString n), _, _, rfl, by rfl⟩))))

/-- A program that completed ran its prefix to completion, then its last
statement. -/
theorem exec_snoc_ok (env : Env) (pre : List Stmt) (s : Stmt) {st' : State}
    (h : exec env (pre ++ [s]) = .ok st') :
    ∃ st, exec env pre = .ok st ∧ ∃ u, runStmt env s st = .ok u st' := by
  unfold exec at h ⊢
  rw [List.foldlM_append] at h
  cases hpre : pre.foldlM (fun _ s => runStmt env s) () initState with
  | error e s0 =>
    simp only [Bind.bind, EStateM.bind, hpre] at h
    cases h
  | ok u st =>
    refine ⟨st, rfl, ?_⟩
    simp only [Bind.bind, EStateM.bind, hpre, List.foldlM_cons, List.foldlM_nil] at h
    cases hs : runStmt env s st with
    | ok u' st0 =>
      simp only [hs, Pure.pure, EStateM.pure] at h
      cases h
      exact ⟨u', rfl⟩
    | error e st0 =>
      simp only [hs] at h
      cases h

/-- The arguments a statement calls `mcm.resource` with, plainly or catching its
error. -/
def Stmt.resourceArgs : Stmt → Option (List Value)
  | .call .resource args | .pcall .resource args | .xpcall .resource args | .resume .resource args =>
    some args
  | _ => none

theorem Stmt.callsResource_eq (s : Stmt) : s.callsResource = s.resourceArgs.isSome := by
  cases s with
  | call f _ | pcall f _ | xpcall f _ | resume f _ => cases f <;> rfl
  | _ => rfl

/-- No error of `mcm.resource` is caught in a run of `prog`: every call of it
that `pcall`, `xpcall` or `coroutine.resume` makes returns, from the state the
statements before it left. -/
def CatchesNoResourceError (env : Env) (prog : List Stmt) : Prop :=
  ∀ pre s post args st, prog = pre ++ s :: post → s.caught = some (.resource, args) →
    exec env pre = .ok st →
      ∃ n st', resourcefunc env.sha1 env.fileSchema env.execSchema { st with stack := args } = .ok n st'

theorem CatchesNoResourceError.of_append {env : Env} {pre post : List Stmt}
    (h : CatchesNoResourceError env (pre ++ post)) : CatchesNoResourceError env pre :=
  fun pre' s post' args st hp => h pre' s (post' ++ post) args st (by rw [hp]; simp)

/-- A call of `mcm.resource` that returns, plain or caught, appends one
resource, the one its arguments say (`resourcefunc_post`, on the call's
frame). -/
theorem runStmt_resource_returns (env : Env) {s : Stmt} {args : List Value}
    (hs : s.resourceArgs = some args) {st st' : State} {u : Unit} (h : runStmt env s st = .ok u st')
    (hret : s.caught = some (.resource, args) →
      ∃ n s1, resourcefunc env.sha1 env.fileSchema env.execSchema { st with stack := args } = .ok n s1) :
    ∃ r, st'.resources = st.resources ++ [r] ∧ Adds env.sha1 { st with stack := args } r := by
  have hpost := resourcefunc_post env.sha1 env.fileSchema env.execSchema { st with stack := args }
  cases s with
  | call f a =>
    cases f <;> cases hs
    simp only [runStmt, callOn, Fn.cfunc] at h
    split at h
    · next n s1 hc => cases h; exact (hpost n s1 hc).imp fun _ h => ⟨h.1, h.2.1⟩
    · cases h
  | pcall f a | xpcall f a | resume f a =>
    cases f <;> cases hs
    obtain ⟨n, s1, hc⟩ := hret rfl
    simp only [runStmt, catchCall, callOn, Fn.cfunc, hc] at h
    cases h
    exact (hpost n s1 hc).imp fun _ h => ⟨h.1, h.2.1⟩
  | _ => cases hs

/-- A statement that does not call `mcm.resource` leaves the catalog alone. -/
theorem runStmt_keeps_catalog (env : Env) {s : Stmt} (hs : s.callsResource = false) {st st' : State}
    {u : Unit} (h : runStmt env s st = .ok u st') : st'.resources = st.resources := by
  rcases runStmt_resources env s st with h' | ⟨h', _⟩
  · rw [h] at h'
    exact h'
  · rw [hs] at h'
    cases h'

/-- For every program that completes and catches no error of `mcm.resource`,
the catalog has one resource per call of `mcm.resource`, in the order of
the calls: resource `i` is the one the call made after a prefix whose catalog
had `i` resources, and it is what that call's arguments said then. -/
theorem exec_catalog_declared (env : Env) (prog : List Stmt) {st : State}
    (hnc : CatchesNoResourceError env prog) (h : exec env prog = .ok st) :
    (finish st).length = (prog.filter Stmt.callsResource).length ∧
      ∀ i r, (finish st)[i]? = some r → ∃ pre s args post s0,
        prog = pre ++ s :: post ∧ s.resourceArgs = some args ∧ exec env pre = .ok s0 ∧
        (finish s0).length = i ∧ Adds env.sha1 { s0 with stack := args } r := by
  induction prog using List.reverseRecOn generalizing st with
  | nil =>
    cases h
    exact ⟨rfl, fun i r hr => by cases hr⟩
  | append_singleton pre s ih =>
    obtain ⟨s0, hpre, u, hs⟩ := exec_snoc_ok env pre s h
    obtain ⟨hlen, hidx⟩ := ih hnc.of_append hpre
    have hold : ∀ i r, (finish s0)[i]? = some r → ∃ pre' s' args post s1,
        pre ++ [s] = pre' ++ s' :: post ∧ s'.resourceArgs = some args ∧ exec env pre' = .ok s1 ∧
        (finish s1).length = i ∧ Adds env.sha1 { s1 with stack := args } r := by
      intro i r hr
      obtain ⟨pre', s', args, post, s1, rfl, hra, h1, h2, h3⟩ := hidx i r hr
      exact ⟨pre', s', args, post ++ [s], s1, by simp, hra, h1, h2, h3⟩
    cases hra : s.resourceArgs with
    | some args =>
      obtain ⟨r, hr, hadds⟩ := runStmt_resource_returns env hra hs
        fun hc => hnc pre s [] args s0 rfl hc hpre
      have hfin : finish st = finish s0 ++ [r] := hr
      have hcr : s.callsResource = true := by rw [Stmt.callsResource_eq, hra]; rfl
      refine ⟨by simp [hfin, hlen, List.filter_append, hcr], fun i r' hr' => ?_⟩
      rw [hfin] at hr'
      rcases Nat.lt_trichotomy i (finish s0).length with hi | rfl | hi
      · rw [List.getElem?_append_left hi] at hr'
        exact hold i r' hr'
      · rw [List.getElem?_append_right (Nat.le_refl _), Nat.sub_self] at hr'
        cases hr'
        exact ⟨pre, s, args, [], s0, rfl, hra, hpre, rfl, hadds⟩
      · rw [List.getElem?_append_right hi.le,
          List.getElem?_eq_none (by rw [List.length_singleton]; omega)] at hr'
        cases hr'
    | none =>
      have hcr : s.callsResource = false := by rw [Stmt.callsResource_eq, hra]; rfl
      have hfin : finish st = finish s0 := runStmt_keeps_catalog env hcr hs
      refine ⟨by simp [hfin, hlen, List.filter_append, hcr], fun i r hr => ?_⟩
      rw [hfin] at hr
      exact hold i r hr

/-- A table `t = {"x"}`, then `mcm.resource("a", t, mcm.noop)` and, caught by
`pcall`, `mcm.resource("b", t, mcm.noop)`, which returns: two resources, in
that order. -/
theorem exec_catalog_declared_two :
    CatchesNoResourceError ⟨List.reverse, [], []⟩ [.newTable [(.int 1, .str (ascii "x"))],
        .call .resource [.str (ascii "a"), .table 2, .table noopRef],
        .pcall .resource [.str (ascii "b"), .table 2, .table noopRef]] ∧
    ∃ st, exec ⟨List.reverse, [], []⟩ [.newTable [(.int 1, .str (ascii "x"))],
        .call .resource [.str (ascii "a"), .table 2, .table noopRef],
        .pcall .resource [.str (ascii "b"), .table 2, .table noopRef]] = .ok st ∧
      (finish st).length = ([.newTable [(.int 1, .str (ascii "x"))],
        .call .resource [.str (ascii "a"), .table 2, .table noopRef],
        .pcall .resource [.str (ascii "b"), .table 2, .table noopRef]].filter
          Stmt.callsResource).length ∧
      ∀ i r, (finish st)[i]? = some r → ∃ pre s args post s0,
        [.newTable [(.int 1, .str (ascii "x"))],
          .call .resource [.str (ascii "a"), .table 2, .table noopRef],
          .pcall .resource [.str (ascii "b"), .table 2, .table noopRef]] =
          pre ++ s :: post ∧ s.resourceArgs = some args ∧ exec ⟨List.reverse, [], []⟩ pre = .ok s0 ∧
        (finish s0).length = i ∧ Adds List.reverse { s0 with stack := args } r := by
  have hnc : CatchesNoResourceError ⟨List.reverse, [], []⟩ [.newTable [(.int 1, .str (ascii "x"))],
      .call .resource [.str (ascii "a"), .table 2, .table noopRef],
      .pcall .resource [.str (ascii "b"), .table 2, .table noopRef]] := by
    intro pre s post args st hp hc hst
    match pre, hp with
    | [_, _], hp =>
      simp only [List.cons_append, List.nil_append, List.cons.injEq] at hp
      obtain ⟨rfl, rfl, rfl, rfl⟩ := hp
      cases hc
      rw [← Except.ok.inj hst]
      exact ⟨_, _, rfl⟩
    | [], hp => cases (List.cons.inj hp).1; cases hc
    | [_], hp => cases (List.cons.inj (List.cons.inj hp).2).1; cases hc
    | _ :: _ :: _ :: _, hp => simp at hp
  exact ⟨hnc, _, rfl, exec_catalog_declared _ _ hnc rfl⟩

end Mcm.Lua
