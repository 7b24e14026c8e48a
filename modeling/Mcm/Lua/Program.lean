/-
  Mcm/Lua/Program.lean --- running a Lua program with `Lua::exec`, and the
  catalog `Lua::finish` builds from it.

  THE CODE.  `Lua::Lua` opens the standard libraries and the `mcm` library,
  whose `noop` is an empty table whose metatable holds the resource type 0.
  `Lua::exec` runs a file with `lua_pcall`; an error that reaches it is fatal.
  `Lua::finish` makes the catalog from every resource `newResource` appended,
  in order.

  THE MODEL.  Programs are straight-line: each statement makes a table, sets
  a metatable, or calls a function of the `mcm` library with values as
  arguments, either plainly or through one of the constructs of the base and
  coroutine libraries that catch an error: `pcall`, `xpcall` and
  `coroutine.resume`.  A call runs the C function on a frame holding its
  arguments; the caller's stack is restored when it returns or raises.  The
  heap and the resources keep what the call did before an error.  An
  operation the model does not cover is caught by none of them: the run has
  no result.  Lua functions, and so message handlers and loops written in
  Lua, are outside the model.

  WHAT IS PROVED.  `exec_append`: a program runs statement after statement.
  `caught_resource_error_leaves_orphan`: after any program that completed, a
  call of `mcm.resource` that raises on its name, caught by `pcall`, leaves
  the program complete and its catalog one resource longer: the orphan
  `newResource` appended, whose id is 0.
-/
import Mcm.Lua.Luacat

set_option autoImplicit false

namespace Mcm.Lua

open Capnp

/-- A function of the `mcm` library. -/
inductive Fn where
  | exec
  | file
  | hash
  | resource
  deriving DecidableEq, Repr

/-- A statement of a straight-line program. -/
inductive Stmt where
  /-- a table constructor; the table gets the next heap reference -/
  | newTable (entries : List (Value × Value))
  /-- `setmetatable(t, m)` -/
  | setmetatable (t m : Value)
  /-- `f(args...)`, or `coroutine.wrap(f)(args...)`, which passes an error on:
  an error ends the program -/
  | call (f : Fn) (args : List Value)
  /-- `pcall(f, args...)`: an error is caught -/
  | pcall (f : Fn) (args : List Value)
  /-- `xpcall(f, msgh, args...)`, the message handler a C function that leaves
  the state alone (`debug.traceback`): an error is caught -/
  | xpcall (f : Fn) (args : List Value)
  /-- `coroutine.resume(coroutine.create(f), args...)`: an error ends the
  coroutine and is caught -/
  | resume (f : Fn) (args : List Value)
  deriving DecidableEq, Repr

/-- The environment of a run: SHA-1 and the schemas of `File` and `Exec`. -/
structure Env where
  sha1 : Bytes → Bytes
  fileSchema : List (Bytes × Ty × Bool)
  execSchema : List (Bytes × Ty × Bool)

/-- The C function behind a library function. -/
def Fn.cfunc (env : Env) : Fn → LuaM Nat
  | .exec => execfunc
  | .file => filefunc
  | .hash => hashfunc env.sha1
  | .resource => resourcefunc env.sha1 env.fileSchema env.execSchema

/-- A call on a frame holding `args`; the caller's stack is put back whether
the call returns or raises. -/
def callOn (env : Env) (f : Fn) (args : List Value) : LuaM Unit := fun st =>
  match f.cfunc env { st with stack := args } with
  | .ok _ st' => .ok () { st' with stack := st.stack }
  | .error e st' => .error e { st' with stack := st.stack }

/-- A call whose Lua error is caught: the statement returns either way, in the
state the call left.  What the model does not cover is not caught. -/
def catchCall (env : Env) (f : Fn) (args : List Value) : LuaM Unit := fun st =>
  match callOn env f args st with
  | .ok _ st' => .ok () st'
  | .error (.error _) st' => .ok () st'
  | .error .unmodelled st' => .error .unmodelled st'

/-- One statement. -/
def runStmt (env : Env) : Stmt → LuaM Unit
  | .newTable es => modify fun st => { st with heap := st.heap ++ [⟨es, none⟩] }
  | .setmetatable (.table r) (.table m) => modify (·.modifyTbl r ({ · with meta := some m }))
  | .setmetatable _ _ => raise (ascii "bad argument #1 to 'setmetatable' (table expected)")
  | .call f args => callOn env f args
  | .pcall f args | .xpcall f args | .resume f args => catchCall env f args

/-- The call whose error a statement catches. -/
def Stmt.caught : Stmt → Option (Fn × List Value)
  | .pcall f args | .xpcall f args | .resume f args => some (f, args)
  | _ => none

theorem runStmt_of_caught (env : Env) {s : Stmt} {f : Fn} {args : List Value}
    (h : s.caught = some (f, args)) : runStmt env s = catchCall env f args := by
  cases s <;> cases h <;> rfl

/-- The reference of `mcm.noop`. -/
def noopRef : Nat := 1

/-- The state after `Lua::Lua()`: the metatable of `mcm.noop`, holding the
resource type 0, and `mcm.noop` itself. -/
def initState : State :=
  ⟨[⟨[(.str resourceTypeMetaKey, .ud (.resourceType 0))], none⟩, ⟨[], some 0⟩], [], []⟩

/-- `Lua::exec`: the state after the program, or what ended it: a Lua error,
which `Lua::exec` reports, or an operation the model does not cover. -/
def exec (env : Env) (prog : List Stmt) : Except Thrown State :=
  match prog.foldlM (fun _ s => runStmt env s) () initState with
  | .ok _ st => .ok st
  | .error e _ => .error e

/-- `Lua::finish`: the catalog's resources. -/
def finish (st : State) : List Res := st.resources

/-- A program extended by one statement runs that statement on the state the
program ended in. -/
theorem exec_append (env : Env) (pre : List Stmt) (s : Stmt) (st : State)
    (hpre : exec env pre = .ok st) :
    exec env (pre ++ [s]) = match runStmt env s st with
      | .ok _ st' => .ok st'
      | .error e _ => .error e := by
  unfold exec at hpre ⊢
  rw [List.foldlM_append]
  split at hpre
  next st0 h =>
    cases hpre
    simp only [bind, EStateM.bind, h, List.foldlM_cons, List.foldlM_nil]
    cases runStmt env s st <;> rfl
  next => cases hpre

/-! ## Running `mcm.resource` up to its name

One equation per call `resourcefunc` makes before it reads the name (the API
calls' are in `Mcm.Lua.State`), chained through `bind_run`. -/

section Runs

variable {st : State}

theorem getResourceType_run {i : Int} {ty : UInt64} (h : st.slot i = .ud (.resourceType ty)) :
    getResourceType i st = .ok (some ty) st := by
  rw [getResourceType, bind_run valueAt_run, h]
  rfl

theorem newResource_run :
    newResource st = .ok () { st with resources := st.resources ++ [⟨0, [], [], .noop⟩] } := rfl

theorem getId_none {i : Int} (h : ∀ x c, st.slot i ≠ .ud (.id x c)) : getId i st = .ok none st := by
  rw [getId, bind_run valueAt_run]
  cases hs : st.slot i with
  | ud u =>
    cases u with
    | id x c => exact absurd hs (h x c)
    | resourceType _ => rfl
  | _ => rfl

end Runs

/-- `mcm.resource(v, d, t)` where `t` is tagged with a resource type and the
name `v` is neither a string, a number nor an `mcm.hash` object: the argument
checks pass, `newResource` appends the orphan, and the name check raises. -/
theorem resourcefunc_bad_name (sha1 : Bytes → Bytes) (fileSchema execSchema : List (Bytes × Ty × Bool))
    (st : State) (v : Value) (d t m : Nat) (ty : UInt64)
    (hv : ∀ c, v ≠ .str c) (hvi : ∀ i, v ≠ .int i) (hvid : ∀ x c, v ≠ .ud (.id x c))
    (ht : (st.tbl t).meta = some m)
    (hty : (st.tbl m).rawget (.str resourceTypeMetaKey) = .ud (.resourceType ty)) :
    resourcefunc sha1 fileSchema execSchema { st with stack := [v, .table d, .table t] } =
      .error (.error (.str (ascii "bad argument #1 (expect mcm.hash or string)")))
        { st with stack := [v, .table d, .table t], resources := st.resources ++ [⟨0, [], [], .noop⟩] } := by
  obtain ⟨H, stk, L⟩ := st
  have hty' : (State.tbl ⟨H, [v, .table d, .table t], L⟩ m).rawget (.str resourceTypeMetaKey) =
      .ud (.resourceType ty) := hty
  unfold resourcefunc
  -- three arguments, two tables, and the type tag found
  rw [bind_run (x := gettop) rfl]
  dsimp only
  rw [if_neg (by simp), bind_run (x := pure _) rfl,
    bind_run (@istable_run ⟨H, [v, .table d, .table t], L⟩ 2 _ rfl),
    bind_run (x := argCheck true _ _) rfl,
    bind_run (@istable_run ⟨H, [v, .table d, .table t], L⟩ 3 _ rfl),
    bind_run (x := argCheck true _ _) rfl,
    bind_run (@getmetafield_run ⟨H, [v, .table d, .table t], L⟩ 3 _ _ ht (by rw [hty']; simp))]
  dsimp only
  rw [if_pos rfl, bind_run (x := pure _) rfl, hty',
    bind_run (@getResourceType_run ⟨H, [v, .table d, .table t] ++ [Value.ud (.resourceType ty)], L⟩
      (-1) _ (slot_neg_one rfl))]
  dsimp only
  -- the tag popped, the orphan appended, and the name neither an id nor a string
  rw [bind_run (x := pure _) rfl,
    bind_run (@pop_run ⟨H, [v, .table d, .table t] ++ [Value.ud (.resourceType ty)], L⟩ _ _ rfl),
    bind_run newResource_run,
    bind_run (@getId_none ⟨H, [v, .table d, .table t], L ++ [(⟨0, [], [], .noop⟩ : Res)]⟩ 1 hvid)]
  dsimp only
  rw [bind_run (@isstring_false ⟨H, [v, .table d, .table t], L ++ [(⟨0, [], [], .noop⟩ : Res)]⟩
    1 hv hvi)]
  rfl

/-- `pcall(mcm.resource, v, d, t)` on such arguments: `pcall` catches the name
check's error and keeps the orphan. -/
theorem pcall_resource_bad_name_appends_orphan (env : Env) (st : State) (v : Value)
    (d t m : Nat) (ty : UInt64)
    (hv : ∀ c, v ≠ .str c) (hvi : ∀ i, v ≠ .int i) (hvid : ∀ x c, v ≠ .ud (.id x c))
    (ht : (st.tbl t).meta = some m)
    (hty : (st.tbl m).rawget (.str resourceTypeMetaKey) = .ud (.resourceType ty)) :
    runStmt env (.pcall .resource [v, .table d, .table t]) st =
      .ok () { st with resources := st.resources ++ [⟨0, [], [], .noop⟩] } := by
  simp only [runStmt, catchCall, callOn, Fn.cfunc,
    resourcefunc_bad_name env.sha1 env.fileSchema env.execSchema st v d t m ty hv hvi hvid ht hty]

/-- After any program that completed, `pcall(mcm.resource, v, d, t)` with a
name `v` that is neither a string, a number nor an `mcm.hash` object, and `t`
tagged with a resource type: the program still completes, and its catalog has
one resource more than before, the orphan, whose id is 0. -/
theorem caught_resource_error_leaves_orphan (env : Env) (pre : List Stmt) (st : State)
    (v : Value) (d t m : Nat) (ty : UInt64) (hpre : exec env pre = .ok st)
    (hv : ∀ c, v ≠ .str c) (hvi : ∀ i, v ≠ .int i) (hvid : ∀ x c, v ≠ .ud (.id x c))
    (ht : (st.tbl t).meta = some m)
    (hty : (st.tbl m).rawget (.str resourceTypeMetaKey) = .ud (.resourceType ty)) :
    (exec env (pre ++ [.pcall .resource [v, .table d, .table t]])).map finish =
      .ok (finish st ++ [⟨0, [], [], .noop⟩]) := by
  rw [exec_append env pre _ st hpre,
    pcall_resource_bad_name_appends_orphan env st v d t m ty hv hvi hvid ht hty]
  rfl

/-- `{}` then `pcall(mcm.resource, true, {}, mcm.noop)`: the catalog is the
orphan alone. -/
theorem caught_resource_error_noop :
    exec ⟨fun _ => [], [], []⟩ [.newTable []] = .ok ⟨initState.heap ++ [⟨[], none⟩], [], []⟩ ∧
    (exec ⟨fun _ => [], [], []⟩
        ([.newTable []] ++ [.pcall .resource [.bool true, .table 2, .table noopRef]])).map finish =
      .ok (finish ⟨initState.heap ++ [⟨[], none⟩], [], []⟩ ++ [⟨0, [], [], .noop⟩]) :=
  ⟨rfl, caught_resource_error_leaves_orphan ⟨fun _ => [], [], []⟩ [.newTable []] _ (.bool true)
    2 noopRef 0 0 rfl (by simp) (by simp) (by simp) rfl rfl⟩

end Mcm.Lua
