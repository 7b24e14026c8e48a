/-
  Mcm/Lua/Resources.lean --- the catalog `luacat` builds only grows.

  THE CODE.  `Lua::resources` is changed in two places only.
  `Lua::newResource` appends a new orphan, and `mcm.resource` (`resourcefunc`)
  then sets the id, comment, dependencies and body of the builder it got
  back, which is the last orphan.  `resourcefunc` calls `newResource` once,
  after its argument checks; `mcm.hash`, `mcm.file`, `mcm.exec`,
  `copyStruct`, `copyList` and the Lua API calls never touch the resources.

  THE MODEL.  `KeepsRes x`: whether it returns or raises, `x` leaves the
  resources as they were; every API function of `Mcm.Lua.State` has this
  property (`keepsRes_*`), and it is kept by `bind`, by conditionals and by
  folds.  `ResSpec P x Q E` is the same kind of statement with a
  precondition: from resources in `P`, `x` returns with resources in `Q` or
  raises with resources in `E`.  `resourcefunc` is read in two phases with
  it: before `newResource` the resources are those of the call, after it they
  are those of the call and one more (`OneMore`), which `setRes` keeps.  The
  join points of its `do` block are lifted and proved once each, not once per
  branch that jumps to them.

  WHAT IS PROVED.  `runStmt_resources`: one statement leaves the resources
  as they were, or, if it calls `mcm.resource`, appends one, whether the call
  returns or raises (and `pcall`, `xpcall` or `coroutine.resume` catches).  `exec_catalog_grows`: for every
  program that completes, the catalog of every prefix of it is a prefix of
  its catalog, and past the prefix the catalog grows by at most one resource
  per call of `mcm.resource` and by none for any other statement.
-/
import Mcm.Lua.Program
import Mathlib.Tactic.LiftLets

set_option autoImplicit false

namespace Mcm.Lua

open Capnp

/-! ## Computations that leave the resources alone -/

/-- A computation that leaves the resources as they were, whether it returns or raises. -/
def KeepsRes {α : Type} (x : LuaM α) : Prop := ∀ st, (final (x st)).resources = st.resources

@[simp] theorem final_ok {α : Type} (a : α) (s : State) : final (.ok a s : EStateM.Result Thrown State α) = s := rfl
@[simp] theorem final_error {α : Type} (e : Thrown) (s : State) :
    final (.error e s : EStateM.Result Thrown State α) = s := rfl

namespace KeepsRes
variable {α β : Type}

theorem bind {x : LuaM α} {f : α → LuaM β} (hx : KeepsRes x) (hf : ∀ a, KeepsRes (f a)) :
    KeepsRes (x >>= f) := fun st => by
  show (final (EStateM.bind x f st)).resources = st.resources
  have h0 := hx st
  unfold EStateM.bind
  cases h : x st with
  | ok a s => rw [h] at h0; rw [hf a s]; exact h0
  | error e s => rw [h] at h0; exact h0

theorem pure {a : α} : KeepsRes (Pure.pure a : LuaM α) := fun _ => rfl

theorem raise {msg : Bytes} : KeepsRes (Lua.raise msg : LuaM α) := fun _ => rfl

theorem raise_bind {msg : Bytes} {f : α → LuaM β} : KeepsRes (Lua.raise msg >>= f) := fun _ => rfl

/-- `unless b do raise msg`, then the rest. -/
theorem check {b : Bool} {msg : Bytes} {jp : PUnit → LuaM α} (h : KeepsRes (jp ())) :
    KeepsRes (if b = true then (Pure.pure PUnit.unit >>= jp) else (Lua.raise msg >>= jp)) := by
  split
  · exact bind pure fun _ => h
  · exact raise_bind

theorem ite {c : Prop} [Decidable c] {x y : LuaM α} (hx : KeepsRes x) (hy : KeepsRes y) :
    KeepsRes (if c then x else y) := by
  split
  · exact hx
  · exact hy

theorem foldlM {γ : Type} {f : β → γ → LuaM β} (hf : ∀ b c, KeepsRes (f b c)) :
    ∀ (l : List γ) (init : β), KeepsRes (l.foldlM f init)
  | [], _ => pure
  | c :: l, init => by
    rw [List.foldlM_cons]
    exact bind (hf init c) fun b => foldlM hf l b

end KeepsRes

/-! ### The API functions

Each reads the state and writes back its heap and stack, never its resources:
once the state read is unfolded and the value it branches on is split, every
branch is closed by evaluation. -/

section Api

theorem keepsRes_gettop : KeepsRes gettop := fun _ => rfl
theorem keepsRes_push (v : Value) : KeepsRes (push v) := fun _ => rfl
theorem keepsRes_pop (n : Nat) : KeepsRes (pop n) := fun _ => rfl
theorem keepsRes_valueAt (i : Int) : KeepsRes (valueAt i) := fun _ => rfl
theorem keepsRes_checkstack (n : Nat) : KeepsRes (checkstack n) := fun _ => rfl
theorem keepsRes_createtable : KeepsRes createtable := fun _ => rfl
theorem keepsRes_pushvalue (i : Int) : KeepsRes (pushvalue i) := fun _ => rfl

theorem keepsRes_istable (i : Int) : KeepsRes (istable i) :=
  KeepsRes.bind (keepsRes_valueAt i) fun v => by cases v <;> exact KeepsRes.pure

theorem keepsRes_isstring (i : Int) : KeepsRes (isstring i) :=
  KeepsRes.bind (keepsRes_valueAt i) fun v => by cases v <;> exact KeepsRes.pure

theorem keepsRes_tointeger (i : Int) : KeepsRes (tointeger i) :=
  KeepsRes.bind (keepsRes_valueAt i) fun v => by cases v <;> exact KeepsRes.pure

theorem keepsRes_tolstring (i : Int) : KeepsRes (tolstring i) := fun st => by
  unfold tolstring
  dsimp only [Bind.bind, EStateM.bind, get, getThe, MonadStateOf.get, EStateM.get]
  cases st.slot i <;> rfl

theorem keepsRes_geti (i n : Int) : KeepsRes (geti i n) := fun st => by
  unfold geti
  dsimp only [Bind.bind, EStateM.bind, get, getThe, MonadStateOf.get, EStateM.get]
  cases index st maxTagLoop (st.slot i) (.int n) <;> rfl

theorem keepsRes_len (i : Int) : KeepsRes (len i) := fun st => by
  unfold len
  dsimp only [Bind.bind, EStateM.bind, get, getThe, MonadStateOf.get, EStateM.get]
  cases st.slot i <;> try rfl
  rename_i r
  dsimp only
  cases (st.tbl r).meta <;> try rfl
  rename_i m
  by_cases hc : (st.tbl m).rawget (.str (ascii "__len")) = .nil <;>
    simp only [hc, ne_eq, not_true, not_false_eq_true, if_true, if_false] <;> rfl

theorem keepsRes_next (i : Int) : KeepsRes (next i) := fun st => by
  unfold next popValue
  dsimp only [Bind.bind, EStateM.bind, get, getThe, MonadStateOf.get, EStateM.get]
  cases st.slot i <;> try rfl
  rename_i r
  dsimp only [valueAt, pop, modify, modifyGet, MonadStateOf.modifyGet, EStateM.modifyGet,
    Bind.bind, EStateM.bind, get, getThe, MonadStateOf.get, EStateM.get, Pure.pure, EStateM.pure]
  cases nextEntry (st.tbl r).entries (st.slot (-1)) with
  | error e => rfl
  | ok o => cases o <;> rfl

theorem keepsRes_getmetafield (i : Int) (e : Bytes) : KeepsRes (getmetafield i e) := fun st => by
  unfold getmetafield
  dsimp only [Bind.bind, EStateM.bind, get, getThe, MonadStateOf.get, EStateM.get]
  cases st.metaOf (st.slot i) <;> try rfl
  rename_i m
  dsimp only
  by_cases hc : (st.tbl m).rawget (.str e) = .nil <;> simp only [hc, if_true, if_false] <;> rfl

theorem keepsRes_getmetatable (i : Int) : KeepsRes (getmetatable i) := fun st => by
  unfold getmetatable
  dsimp only [Bind.bind, EStateM.bind, get, getThe, MonadStateOf.get, EStateM.get]
  cases st.metaOf (st.slot i) <;> rfl

theorem keepsRes_setmetatable (i : Int) : KeepsRes (setmetatable i) := fun st => by
  unfold setmetatable popValue
  dsimp only [valueAt, pop, modify, modifyGet, MonadStateOf.modifyGet, EStateM.modifyGet,
    Bind.bind, EStateM.bind, get, getThe, MonadStateOf.get, EStateM.get, Pure.pure, EStateM.pure]
  cases st.slot i <;> cases st.slot (-1) <;> rfl

theorem keepsRes_setfield (i : Int) (k : Bytes) : KeepsRes (setfield i k) := fun st => by
  unfold setfield
  dsimp only [Bind.bind, EStateM.bind, get, getThe, MonadStateOf.get, EStateM.get]
  cases st.slot i <;> try rfl
  rename_i r
  dsimp only
  by_cases hc : (st.metaOf (.table r)).any
      fun m => (st.tbl m).rawget (.str (ascii "__newindex")) ≠ .nil
  · simp only [hc, if_true]; rfl
  · simp only [hc, if_false]; rfl

end Api

section Library

variable {α : Type}

theorem keepsRes_argError {arg : Nat} {msg : Bytes} : KeepsRes (argError arg msg : LuaM α) := fun _ => rfl

theorem keepsRes_arityError {name e : Bytes} {n : Nat} : KeepsRes (arityError name e n : LuaM α) :=
  fun _ => rfl

theorem keepsRes_argCheck (c : Bool) (arg : Nat) (msg : Bytes) : KeepsRes (argCheck c arg msg) :=
  KeepsRes.ite KeepsRes.pure keepsRes_argError

theorem keepsRes_getId (i : Int) : KeepsRes (getId i) :=
  KeepsRes.bind (keepsRes_valueAt i) fun v => by split <;> exact KeepsRes.pure

theorem keepsRes_getResourceType (i : Int) : KeepsRes (getResourceType i) :=
  KeepsRes.bind (keepsRes_valueAt i) fun v => by split <;> exact KeepsRes.pure

theorem keepsRes_idAt (sha1 : Bytes → Bytes) (i : Int) : KeepsRes (idAt sha1 i) := by
  refine KeepsRes.bind (keepsRes_getId i) fun v => ?_
  split
  · exact KeepsRes.pure
  · exact KeepsRes.bind (keepsRes_isstring i) fun b =>
      KeepsRes.ite (KeepsRes.bind (keepsRes_tolstring i) fun _ => KeepsRes.pure) KeepsRes.pure

theorem keepsRes_entriesAt (i : Int) : KeepsRes (entriesAt i) := fun st => by
  unfold entriesAt
  dsimp only [Bind.bind, EStateM.bind, get, getThe, MonadStateOf.get, EStateM.get]
  cases st.slot i <;> rfl

end Library

section Copy

variable {copier : List (Bytes × Capnp.Ty × Bool) → LuaM Capnp.Fields} (hc : ∀ fs, KeepsRes (copier fs))
include hc

theorem keepsRes_copyList (elem : Capnp.Ty) (size : Nat) : KeepsRes (copyList copier elem size) := by
  unfold copyList
  refine KeepsRes.bind (keepsRes_checkstack 2) fun _ => KeepsRes.check ?_
  split <;> dsimp only
  · refine KeepsRes.foldlM (fun _ _ => KeepsRes.bind (keepsRes_geti _ _) fun v => ?_) _ _
    split
    · exact KeepsRes.bind (keepsRes_tolstring _) fun _ => KeepsRes.bind (keepsRes_pop 1) fun _ => KeepsRes.pure
    · exact KeepsRes.raise
  · refine KeepsRes.foldlM (fun _ _ => KeepsRes.bind (keepsRes_geti _ _) fun v => ?_) _ _
    split
    · exact KeepsRes.bind (hc _) fun _ => KeepsRes.bind (keepsRes_pop 1) fun _ => KeepsRes.pure
    · exact KeepsRes.raise
  · exact KeepsRes.raise

theorem keepsRes_copyField (key : Bytes) (ty : Capnp.Ty) : KeepsRes (copyField copier key ty) := by
  cases ty with
  | text | data =>
    exact KeepsRes.bind (keepsRes_isstring _) fun _ => KeepsRes.check <|
      KeepsRes.bind (keepsRes_tolstring _) fun _ => KeepsRes.pure
  | struct gfs =>
    exact KeepsRes.bind (keepsRes_istable _) fun _ => KeepsRes.check <|
      KeepsRes.bind (hc gfs) fun _ => KeepsRes.pure
  | list elem =>
    refine KeepsRes.bind (keepsRes_istable _) fun _ => KeepsRes.check <|
      KeepsRes.bind (keepsRes_len _) fun _ => KeepsRes.bind (keepsRes_tointeger _) fun _ =>
        KeepsRes.bind (keepsRes_pop 1) fun _ => ?_
    exact KeepsRes.ite (KeepsRes.bind (keepsRes_copyList hc _ _) fun _ => KeepsRes.pure) KeepsRes.pure
  | other w => exact KeepsRes.raise

theorem keepsRes_copyEntry (fs : List (Bytes × Capnp.Ty × Bool)) (acc : Bool × Capnp.Fields) (i : Nat) :
    KeepsRes (copyEntry copier fs acc i) := by
  unfold copyEntry
  refine KeepsRes.ite KeepsRes.pure (KeepsRes.bind KeepsRes.pure fun _ => ?_)
  refine KeepsRes.bind (keepsRes_next _) fun _ => ?_
  refine KeepsRes.ite KeepsRes.pure (KeepsRes.bind KeepsRes.pure fun _ => ?_)
  refine KeepsRes.bind (keepsRes_isstring _) fun _ => KeepsRes.check ?_
  refine KeepsRes.bind (keepsRes_tolstring _) fun _ => ?_
  dsimp only
  split
  · exact KeepsRes.raise
  · exact KeepsRes.bind (keepsRes_copyField hc _ _) fun _ =>
      KeepsRes.bind (keepsRes_pop 1) fun _ => KeepsRes.pure

end Copy

theorem keepsRes_copyStruct : ∀ (depth : Nat) (fs : List (Bytes × Capnp.Ty × Bool)),
    KeepsRes (copyStruct depth fs)
  | 0, _ => KeepsRes.raise
  | depth + 1, fs => by
    unfold copyStruct
    refine KeepsRes.bind (keepsRes_istable _) fun _ => KeepsRes.check ?_
    refine KeepsRes.bind (keepsRes_checkstack _) fun _ => KeepsRes.check ?_
    refine KeepsRes.bind (keepsRes_push _) fun _ => KeepsRes.bind (keepsRes_entriesAt _) fun _ => ?_
    exact KeepsRes.bind (KeepsRes.foldlM (keepsRes_copyEntry (keepsRes_copyStruct depth) fs) _ _)
      fun _ => KeepsRes.pure


theorem keepsRes_hashfunc (sha1 : Bytes → Bytes) : KeepsRes (hashfunc sha1) := by
  unfold hashfunc
  refine KeepsRes.bind keepsRes_gettop fun n => ?_
  dsimp only
  split
  · exact KeepsRes.raise_bind
  · exact KeepsRes.bind KeepsRes.pure fun _ => KeepsRes.bind (keepsRes_isstring 1) fun _ =>
      KeepsRes.bind (keepsRes_argCheck _ _ _) fun _ => KeepsRes.bind (keepsRes_tolstring 1) fun _ =>
      KeepsRes.bind (keepsRes_push _) fun _ => KeepsRes.pure

theorem keepsRes_setResourceType (index : Int) (val : UInt64) : KeepsRes (setResourceType index val) := by
  unfold setResourceType
  refine KeepsRes.bind keepsRes_gettop fun _ => ?_
  dsimp only
  have tag : ∀ i : Int, KeepsRes (do
      push (.ud (.resourceType val)); setfield (-2) resourceTypeMetaKey; setmetatable i) := fun _ =>
    KeepsRes.bind (keepsRes_push _) fun _ => KeepsRes.bind (keepsRes_setfield _ _) fun _ =>
      keepsRes_setmetatable _
  refine KeepsRes.bind keepsRes_createtable fun _ => KeepsRes.bind (keepsRes_getmetatable _) fun _ => ?_
  refine KeepsRes.ite ?_ (KeepsRes.bind KeepsRes.pure fun _ => tag _)
  exact KeepsRes.bind keepsRes_createtable fun _ => KeepsRes.bind (keepsRes_pushvalue _) fun _ =>
    KeepsRes.bind (keepsRes_setfield _ _) fun _ => KeepsRes.bind (keepsRes_setmetatable _) fun _ =>
    KeepsRes.bind (keepsRes_pop 1) fun _ => tag _

theorem keepsRes_typefunc (name : Bytes) (val : UInt64) : KeepsRes (typefunc name val) := by
  unfold typefunc
  refine KeepsRes.bind keepsRes_gettop fun n => ?_
  dsimp only
  split
  · exact KeepsRes.raise_bind
  · exact KeepsRes.bind KeepsRes.pure fun _ => KeepsRes.bind (keepsRes_istable 1) fun _ =>
      KeepsRes.bind (keepsRes_argCheck _ _ _) fun _ =>
      KeepsRes.bind (keepsRes_setResourceType _ _) fun _ => KeepsRes.pure

/-! ## `mcm.resource` -/

/-- The resources are `L` and one more. -/
def OneMore (L rs : List Res) : Prop := ∃ r, rs = L ++ [r]

/-- From resources satisfying `P`, `x` returns with resources satisfying `Q`,
or raises with resources satisfying `E`. -/
def ResSpec {α : Type} (P : List Res → Prop) (x : LuaM α) (Q E : List Res → Prop) : Prop :=
  ∀ st, P st.resources → match x st with
    | .ok _ s => Q s.resources
    | .error _ s => E s.resources

namespace ResSpec

variable {α β : Type} {P Q R E : List Res → Prop}

theorem bind {x : LuaM α} {f : α → LuaM β} (hx : ResSpec P x R E) (hf : ∀ a, ResSpec R (f a) Q E) :
    ResSpec P (x >>= f) Q E := fun st hp => by
  have h0 := hx st hp
  show match EStateM.bind x f st with | .ok _ s => Q s.resources | .error _ s => E s.resources
  unfold EStateM.bind
  cases h : x st with
  | ok a s => rw [h] at h0; exact hf a s h0
  | error e s => rw [h] at h0; exact h0

theorem of_keeps {x : LuaM α} (hx : KeepsRes x) (hE : ∀ rs, P rs → E rs) : ResSpec P x P E :=
  fun st hp => by
  have h0 := hx st
  cases h : x st with
  | ok a s =>
    have hs : s.resources = st.resources := by rw [h] at h0; exact h0
    show P s.resources
    exact hs ▸ hp
  | error e s =>
    have hs : s.resources = st.resources := by rw [h] at h0; exact h0
    show E s.resources
    exact hE _ (hs ▸ hp)

theorem pure {a : α} (hq : ∀ rs, P rs → Q rs) : ResSpec P (Pure.pure a : LuaM α) Q E :=
  fun _ hp => hq _ hp

theorem raise_bind {msg : Bytes} {f : α → LuaM β} (hE : ∀ rs, P rs → E rs) :
    ResSpec P (Lua.raise msg >>= f) Q E := fun _ hp => hE _ hp

theorem ite {c : Prop} [Decidable c] {x y : LuaM α} (hx : ResSpec P x Q E) (hy : ResSpec P y Q E) :
    ResSpec P (if c then x else y) Q E := by
  split
  · exact hx
  · exact hy

/-- A join point of a `do` block: the body is proved for any continuation
meeting the join point's specification, which the join point meets. -/
theorem jp {γ : Type} {k : β → LuaM γ} {body : (β → LuaM γ) → LuaM γ} {Q' : List Res → Prop}
    (h : ∀ j : β → LuaM γ, (∀ y, ResSpec R (j y) Q' E) → ResSpec P (body j) Q' E)
    (hk : ∀ y, ResSpec R (k y) Q' E) : ResSpec P (let j := k; body j) Q' E :=
  h k hk

/-- Whether it returns or raises, `x` ends with resources in `E` when its
normal ends are among them. -/
theorem final_resources {x : LuaM α} (h : ResSpec P x Q E) (hQ : ∀ rs, Q rs → E rs) {st : State}
    (hp : P st.resources) : E (final (x st)).resources := by
  have h0 := h st hp
  cases hx : x st with
  | ok a s => rw [hx] at h0; exact hQ _ h0
  | error e s => rw [hx] at h0; exact h0

theorem foldlM {γ : Type} {f : β → γ → LuaM β} (hf : ∀ b c, ResSpec P (f b c) P E) :
    ∀ (l : List γ) (init : β), ResSpec P (l.foldlM f init) P E
  | [], _ => pure fun _ h => h
  | c :: l, init => by
    rw [List.foldlM_cons]
    exact bind (hf init c) fun b => foldlM hf l b

end ResSpec

section Resource

variable (L : List Res) {E : List Res → Prop}

theorem resSpec_newResource : ResSpec (· = L) newResource (OneMore L) E :=
  fun st hp => ⟨_, by rw [← hp]⟩

theorem resSpec_setRes (f : Res → Res) : ResSpec (OneMore L) (setRes f) (OneMore L) E := by
  rintro st ⟨r, hr⟩
  refine ⟨f r, ?_⟩
  show (match st.resources.getLast? with
    | some r => st.resources.dropLast ++ [f r]
    | none => []) = _
  rw [hr, List.getLast?_concat, List.dropLast_concat]

end Resource

theorem resSpec_copyDep (L : List Res) (sha1 : Bytes → Bytes) (deps : List UInt64) (i : Nat) :
    ResSpec (OneMore L) (copyDep sha1 deps i) (OneMore L) (fun rs => rs = L ∨ OneMore L rs) := by
  have h1 : ∀ rs, OneMore L rs → rs = L ∨ OneMore L rs := fun _ => .inr
  unfold copyDep
  refine ResSpec.bind (ResSpec.of_keeps (keepsRes_geti _ _) h1) fun _ => ?_
  refine ResSpec.bind (ResSpec.of_keeps (keepsRes_idAt _ _) h1) fun r => ?_
  split
  · exact ResSpec.bind (resSpec_setRes L _) fun _ =>
      ResSpec.bind (ResSpec.of_keeps (keepsRes_pop 1) h1) fun _ => ResSpec.pure fun _ h => h
  · exact ResSpec.of_keeps keepsRes_argError h1

theorem resourcefunc_spec (sha1 : Bytes → Bytes) (fileSchema execSchema : List (Bytes × Capnp.Ty × Bool))
    (L : List Res) :
    ResSpec (· = L) (resourcefunc sha1 fileSchema execSchema) (OneMore L)
      (fun rs => rs = L ∨ OneMore L rs) := by
  have h0 : ∀ rs, rs = L → rs = L ∨ OneMore L rs := fun _ => .inl
  have h1 : ∀ rs, OneMore L rs → rs = L ∨ OneMore L rs := fun _ => .inr
  unfold resourcefunc
  refine ResSpec.bind (ResSpec.of_keeps keepsRes_gettop h0) fun n => ?_
  refine ResSpec.jp (R := (· = L)) (fun j hj => ResSpec.ite (ResSpec.raise_bind h0)
    (ResSpec.bind (ResSpec.pure fun _ h => h) hj)) fun _ => ?_
  refine ResSpec.bind (ResSpec.of_keeps (keepsRes_istable 2) h0) fun _ => ?_
  refine ResSpec.bind (ResSpec.of_keeps (keepsRes_argCheck _ _ _) h0) fun _ => ?_
  refine ResSpec.bind (ResSpec.of_keeps (keepsRes_istable 3) h0) fun _ => ?_
  refine ResSpec.bind (ResSpec.of_keeps (keepsRes_argCheck _ _ _) h0) fun _ => ?_
  refine ResSpec.bind (ResSpec.of_keeps (keepsRes_getmetafield _ _) h0) fun _ => ?_
  refine ResSpec.jp (R := (· = L)) (fun j hj => ResSpec.ite
    (ResSpec.bind (ResSpec.pure fun _ h => h) hj) (ResSpec.raise_bind h0)) fun _ => ?_
  refine ResSpec.bind (ResSpec.of_keeps (keepsRes_getResourceType _) h0) fun _ => ?_
  split
  · refine ResSpec.bind (ResSpec.pure fun _ h => h) fun typeId => ?_
    refine ResSpec.bind (ResSpec.of_keeps (keepsRes_pop 1) h0) fun _ => ?_
    refine ResSpec.bind (resSpec_newResource L) fun _ => ?_
    refine ResSpec.bind (ResSpec.of_keeps (keepsRes_getId 1) h1) fun _ => ?_
    lift_lets
    intro j6 j5 j4
    have h6 : ∀ y, ResSpec (OneMore L) (j6 y) (OneMore L) (fun rs => rs = L ∨ OneMore L rs) :=
      fun _ => ResSpec.pure fun _ h => h
    have h5 : ∀ y, ResSpec (OneMore L) (j5 y) (OneMore L) (fun rs => rs = L ∨ OneMore L rs) := by
      intro y
      refine ResSpec.ite (ResSpec.bind (resSpec_setRes L _) h6)
        (ResSpec.ite ?_ (ResSpec.ite ?_ (ResSpec.raise_bind h1)))
      · exact ResSpec.bind (resSpec_setRes L _) fun _ =>
          ResSpec.bind (ResSpec.of_keeps (keepsRes_copyStruct _ _) h1) fun _ =>
          ResSpec.bind (resSpec_setRes L _) h6
      · exact ResSpec.bind (resSpec_setRes L _) fun _ =>
          ResSpec.bind (ResSpec.of_keeps (keepsRes_copyStruct _ _) h1) fun _ =>
          ResSpec.bind (resSpec_setRes L _) h6
    have h4 : ∀ y, ResSpec (OneMore L) (j4 y) (OneMore L) (fun rs => rs = L ∨ OneMore L rs) := by
      intro y
      refine ResSpec.bind (ResSpec.of_keeps (keepsRes_len 2) h1) fun _ => ?_
      refine ResSpec.bind (ResSpec.of_keeps (keepsRes_tointeger _) h1) fun _ => ?_
      refine ResSpec.bind (ResSpec.of_keeps (keepsRes_pop 1) h1) fun _ => ?_
      refine ResSpec.ite ?_ (ResSpec.bind (ResSpec.pure fun _ h => h) h5)
      exact ResSpec.bind (resSpec_setRes L _) fun _ =>
        ResSpec.bind (ResSpec.foldlM (resSpec_copyDep L sha1) _ _) fun _ =>
        ResSpec.bind (ResSpec.pure fun _ h => h) h5
    split
    · exact ResSpec.bind (resSpec_setRes L _) h4
    · refine ResSpec.bind (ResSpec.of_keeps (keepsRes_isstring 1) h1) fun _ =>
        ResSpec.ite ?_ (ResSpec.raise_bind h1)
      exact ResSpec.bind (ResSpec.of_keeps (keepsRes_tolstring 1) h1) fun _ =>
        ResSpec.bind (resSpec_setRes L _) h4
  · exact ResSpec.raise_bind h0

/-! ## A statement, and a whole program -/

/-- A statement that calls `mcm.resource`, plainly or catching its error. -/
def Stmt.callsResource : Stmt → Bool
  | .call .resource _ | .pcall .resource _ | .xpcall .resource _ | .resume .resource _ => true
  | _ => false

theorem cfunc_resources (env : Env) (f : Fn) (st : State) :
    (final (f.cfunc env st)).resources = st.resources ∨
      (f = .resource ∧ OneMore st.resources (final (f.cfunc env st)).resources) := by
  cases f with
  | exec => exact .inl (keepsRes_typefunc _ _ st)
  | file => exact .inl (keepsRes_typefunc _ _ st)
  | hash => exact .inl (keepsRes_hashfunc _ st)
  | resource =>
    exact ((resourcefunc_spec env.sha1 env.fileSchema env.execSchema st.resources).final_resources
      (fun _ => .inr) rfl).imp id fun h => ⟨rfl, h⟩

theorem final_callOn (env : Env) (f : Fn) (args : List Value) (st : State) :
    (final (callOn env f args st)).resources =
      (final (f.cfunc env { st with stack := args })).resources := by
  unfold callOn
  cases f.cfunc env { st with stack := args } <;> rfl

/-- Catching an error changes nothing of the state the call left. -/
theorem final_catchCall (env : Env) (f : Fn) (args : List Value) (st : State) :
    final (catchCall env f args st) = final (callOn env f args st) := by
  unfold catchCall
  rcases callOn env f args st with _ | ⟨_ | _, _⟩ <;> rfl

/-- One statement leaves the resources as they were, or, if it calls
`mcm.resource`, appends one, whether the call returns or raises. -/
theorem runStmt_resources (env : Env) (s : Stmt) (st : State) :
    (final (runStmt env s st)).resources = st.resources ∨
      (s.callsResource = true ∧ OneMore st.resources (final (runStmt env s st)).resources) := by
  have hcall : ∀ f args, (final (callOn env f args st)).resources = st.resources ∨
      (f = .resource ∧ OneMore st.resources (final (callOn env f args st)).resources) := fun f args => by
    rw [final_callOn]
    exact cfunc_resources env f { st with stack := args }
  cases s with
  | newTable es => exact .inl rfl
  | setmetatable t m => cases t <;> cases m <;> exact .inl rfl
  | call f args =>
    rcases hcall f args with h | ⟨rfl, h⟩
    · exact .inl h
    · exact .inr ⟨rfl, h⟩
  | pcall f args | xpcall f args | resume f args =>
    simp only [runStmt, final_catchCall]
    rcases hcall f args with h | ⟨rfl, h⟩
    · exact .inl h
    · exact .inr ⟨rfl, h⟩

/-- The statements after a state, run as `Lua::exec` runs them: the resources
the run started with are a prefix of those it ends with, with at most one
more per call of `mcm.resource`. -/
theorem foldlM_runStmt_grows (env : Env) : ∀ (post : List Stmt) (st st' : State),
    post.foldlM (fun _ s => runStmt env s) () st = .ok () st' →
    st.resources <+: st'.resources ∧
      st'.resources.length ≤ st.resources.length + (post.filter Stmt.callsResource).length
  | [], st, st', h => by
    cases h
    exact ⟨List.prefix_refl _, by simp⟩
  | s :: post, st, st', h => by
    rw [List.foldlM_cons] at h
    cases hs : runStmt env s st with
    | error e s1 =>
      simp only [Bind.bind, EStateM.bind, hs] at h
      cases h
    | ok u s1 =>
      simp only [Bind.bind, EStateM.bind, hs] at h
      obtain ⟨hpre, hlen⟩ := foldlM_runStmt_grows env post s1 st' h
      have hstep := runStmt_resources env s st
      rw [hs] at hstep
      rcases hstep with heq | ⟨hcall, r, hr⟩
      · have heq : s1.resources = st.resources := heq
        rw [heq] at hpre hlen
        refine ⟨hpre, hlen.trans ?_⟩
        have := ((List.sublist_cons_self s post).filter Stmt.callsResource).length_le
        omega
      · have hr : s1.resources = st.resources ++ [r] := hr
        rw [hr] at hpre hlen
        refine ⟨(List.prefix_append _ _).trans hpre, ?_⟩
        simp only [List.filter_cons, hcall, if_true, List.length_cons, List.length_append,
          List.length_singleton, List.length_nil] at hlen ⊢
        omega

/-- For every program that completes, the catalog of every prefix of it is a
prefix of the program's catalog: once a statement has ended, no resource is
lost or changed.  Past the prefix the catalog grows by at most one resource
for each call of `mcm.resource`, plain or caught, and by none for
any other statement. -/
theorem exec_catalog_grows (env : Env) (pre post : List Stmt) {st' : State}
    (h : exec env (pre ++ post) = .ok st') :
    ∃ st, exec env pre = .ok st ∧ finish st <+: finish st' ∧
      (finish st').length ≤ (finish st).length + (post.filter Stmt.callsResource).length := by
  unfold exec at h ⊢
  rw [List.foldlM_append] at h
  cases hpre : pre.foldlM (fun _ s => runStmt env s) () initState with
  | error e s =>
    simp only [Bind.bind, EStateM.bind, hpre] at h
    cases h
  | ok u st =>
    have hpost : post.foldlM (fun _ s => runStmt env s) () st = .ok () st' := by
      simp only [Bind.bind, EStateM.bind, hpre] at h
      split at h
      · cases h; assumption
      · cases h
    exact ⟨st, rfl, foldlM_runStmt_grows env post st st' hpost⟩

/-- A table, a resource, then a `pcall` whose id is a boolean: the caught
error comes after `newResource`, so its orphan stays in the catalog. -/
theorem exec_catalog_grows_caught :
    ∃ st, exec ⟨fun _ => [], [], []⟩ [.newTable []] = .ok st ∧
      finish st <+: finish { initState with
        heap := initState.heap ++ [⟨[], none⟩],
        resources := [⟨1, ascii "a", [], .noop⟩, ⟨0, [], [], .noop⟩] } ∧
      2 ≤ (finish st).length + ([Stmt.call .resource [.str (ascii "a"), .table 2, .table noopRef],
        .pcall .resource [.bool true, .table 2, .table noopRef]].filter Stmt.callsResource).length :=
  exec_catalog_grows ⟨fun _ => [], [], []⟩ [.newTable []]
    [.call .resource [.str (ascii "a"), .table 2, .table noopRef],
      .pcall .resource [.bool true, .table 2, .table noopRef]] rfl

end Mcm.Lua
