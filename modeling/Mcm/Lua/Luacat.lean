/-
  Mcm/Lua/Luacat.lean --- the `mcm` library of `luacat` and the `Lua` object
  that collects resources.

  THE CODE.  `mcm.hash(s)` makes an id from a string: `idHash(s)` is the first
  eight bytes of the SHA-1 of `"mcm-luacat ID: " ++ s`, read little-endian,
  with the low bit set.  `mcm.file(t)` and `mcm.exec(t)` tag a table with a
  resource type: `setResourceType` gives the table a new metatable holding the
  type under `mcm_resource`, and when the table already had a metatable `m`,
  the new metatable gets the metatable `{__index = m}`.  `mcm.resource(name,
  deps, body)` checks its arguments, calls `Lua::newResource`, which appends a
  new orphan resource, and only then reads the name, the dependencies and the
  body into it; any error from then on leaves the orphan in place.
  `Lua::finish` puts every orphan into the catalog, in order.

  THE MODEL.  Each C function runs on the state of `Mcm.Lua.State` with its
  arguments as the stack, and returns its number of results.  SHA-1 is
  OpenSSL's and is a parameter `sha1`; the schemas of the catalog's `File` and
  `Exec` structs are parameters too.  An argument error's message is the
  `luaL_argerror` text without the function name, which Lua takes from the
  call site.

  WHAT IS PROVED.  `idHash_ne_zero`: an id made from a name is never 0.
  `file_loses_index`: after `mcm.file(t)`, a raw read of `mcm_resource` in the
  metatable finds the file type, but a table whose old metatable had an
  `__index` no longer finds the keys it provided: metamethods are read from
  the new metatable raw, and the `{__index = m}` behind it is never consulted.
-/
import Mcm.Lua.Copy

set_option autoImplicit false

namespace Mcm.Lua

open Capnp

/-- `idHashPrefix`. -/
def idHashPrefix : Bytes := ascii "mcm-luacat ID: "

/-- `resourceTypeMetaKey`. -/
def resourceTypeMetaKey : Bytes := ascii "mcm_resource"

/-- `fileResId`. -/
def fileResId : UInt64 := 0x8dc4ac52b2962163

/-- `execResId`. -/
def execResId : UInt64 := 0x984c97311006f1ca

/-! ## Ids -/

section Hash

variable (sha1 : Bytes → Bytes)

/-- `idHash(s)`, given SHA-1. -/
def idHash (s : Bytes) : UInt64 :=
  let h := sha1 (idHashPrefix ++ s)
  let b (i : Nat) : UInt64 := (h.getD i 0).toUInt64
  (1 : UInt64) ||| b 0 ||| b 1 <<< 8 ||| b 2 <<< 16 ||| b 3 <<< 24 ||| b 4 <<< 32 |||
    b 5 <<< 40 ||| b 6 <<< 48 ||| b 7 <<< 56

theorem lsb_or_left {x : UInt64} (y : UInt64) (h : x.toBitVec.getLsbD 0 = true) :
    (x ||| y).toBitVec.getLsbD 0 = true := by
  show (x.toBitVec ||| y.toBitVec).getLsbD 0 = true
  simp [BitVec.getLsbD_or, h]

/-- An id made from a name is never 0, whatever SHA-1 gives: its low bit is set. -/
theorem idHash_ne_zero (s : Bytes) : idHash sha1 s ≠ 0 := by
  intro h
  have hlow : (idHash sha1 s).toBitVec.getLsbD 0 = true := by
    simp only [idHash]
    repeat apply lsb_or_left
    rfl
  rw [h] at hlow
  simp at hlow

end Hash

/-! ## Arguments -/

/-- `luaL_argerror(L, arg, msg)`, without the function name. -/
def argError {α : Type} (arg : Nat) (msg : Bytes) : LuaM α :=
  raise (ascii "bad argument #" ++ intString arg ++ ascii " (" ++ msg ++ ascii ")")

/-- `luaL_argcheck(L, cond, arg, msg)`. -/
def argCheck (cond : Bool) (arg : Nat) (msg : Bytes) : LuaM Unit :=
  unless cond do argError arg msg

/-- The error of a function given the wrong number of arguments. -/
def arityError {α : Type} (name : Bytes) (expected : Bytes) (got : Nat) : LuaM α :=
  raise (ascii "'" ++ name ++ ascii "' takes " ++ expected ++ ascii ", got " ++ intString got)

/-- Modelled from the spec: `getId(L, i)`, the id of an `mcm.hash` object. -/
def getId (i : Int) : LuaM (Option (UInt64 × Bytes)) := do
  match ← valueAt i with
  | .ud (.id v c) => return some (v, c)
  | _ => return none

/-- Modelled from the spec: `getResourceType(L, i)`. -/
def getResourceType (i : Int) : LuaM (Option UInt64) := do
  match ← valueAt i with
  | .ud (.resourceType v) => return some v
  | _ => return none

/-! ## `mcm.hash`, `mcm.file`, `mcm.exec` -/

/-- `hashfunc`. -/
def hashfunc (sha1 : Bytes → Bytes) : LuaM Nat := do
  let n ← gettop
  if n ≠ 1 then arityError (ascii "mcm.hash") (ascii "1 argument") n
  argCheck (← isstring 1) 1 (ascii "must be a string")
  let comment := (← tolstring 1).getD []
  push (.ud (.id (idHash sha1 comment) comment))
  return 1

/-- `setResourceType(L, index, val)`. -/
def setResourceType (index : Int) (val : UInt64) : LuaM Unit := do
  let top ← gettop
  let index := if index < 0 then (top : Int) + index + 1 else index
  let _ ← createtable
  if ← getmetatable index then
    let _ ← createtable
    pushvalue (-2)
    setfield (-2) (ascii "__index")
    setmetatable (-3)
    pop 1
  push (.ud (.resourceType val))
  setfield (-2) resourceTypeMetaKey
  setmetatable index

/-- `filefunc` and `execfunc`: the function's name and type. -/
def typefunc (name : Bytes) (val : UInt64) : LuaM Nat := do
  let n ← gettop
  if n ≠ 1 then arityError name (ascii "1 argument") n
  argCheck (← istable 1) 1 (ascii "must be a table")
  setResourceType 1 val
  return 1

/-- `filefunc`. -/
def filefunc : LuaM Nat := typefunc (ascii "mcm.file") fileResId

/-- `execfunc`. -/
def execfunc : LuaM Nat := typefunc (ascii "mcm.exec") execResId

/-! ## `mcm.resource` -/

/-- `Lua::newResource`: a new orphan, appended. -/
def newResource : LuaM Unit :=
  modify fun st => { st with resources := st.resources ++ [⟨0, [], [], .noop⟩] }

/-- A change to the resource `newResource` returned, the last one. -/
def setRes (f : Res → Res) : LuaM Unit :=
  modify fun st => { st with
    resources := match st.resources.getLast? with
      | some r => st.resources.dropLast ++ [f r]
      | none => [] }

/-- The id of an `mcm.hash` object or of a string at stack index `i`. -/
def idAt (sha1 : Bytes → Bytes) (i : Int) : LuaM (Option (UInt64 × Bytes)) := do
  match ← getId i with
  | some idc => return some idc
  | none =>
    if ← isstring i then
      let c := (← tolstring i).getD []
      return some (idHash sha1 c, c)
    else return none

/-- The loop over `deps[1..ndeps]`: dependency `i` of `ndeps`. -/
def copyDep (sha1 : Bytes → Bytes) (deps : List UInt64) (i : Nat) : LuaM (List UInt64) := do
  let _ ← geti 2 ((i : Int) + 1)
  match ← idAt sha1 (-1) with
  | some (v, _) =>
    let deps := deps.set i v
    setRes ({ · with deps := deps })
    pop 1
    return deps
  | none => argError 2 (ascii "expect deps to contain only mcm.hash or strings")

/-- `resourcefunc`, given SHA-1 and the schemas of `File` and `Exec`. -/
def resourcefunc (sha1 : Bytes → Bytes) (fileSchema execSchema : List (Bytes × Ty × Bool)) :
    LuaM Nat := do
  let n ← gettop
  if n ≠ 3 then arityError (ascii "mcm.resource") (ascii "3 arguments") n
  argCheck (← istable 2) 2 (ascii "must be a table")
  argCheck (← istable 3) 3 (ascii "must be a table")
  unless ← getmetafield 3 resourceTypeMetaKey do argError 3 (ascii "expect resource table")
  let typeId ← match ← getResourceType (-1) with
    | some t => pure t
    | none => argError 3 (ascii "expect resource table")
  pop 1
  newResource
  match ← getId 1 with
  | some (v, c) => setRes ({ · with id := v, comment := c })
  | none =>
    if ← isstring 1 then
      let c := (← tolstring 1).getD []
      setRes ({ · with id := idHash sha1 c, comment := c })
    else argError 1 (ascii "expect mcm.hash or string")
  len 2
  let ndeps ← tointeger (-1)
  pop 1
  if 0 < ndeps then
    setRes ({ · with deps := List.replicate ndeps.toNat 0 })
    let _ ← (List.range ndeps.toNat).foldlM (copyDep sha1) (List.replicate ndeps.toNat 0)
  if typeId = 0 then setRes ({ · with body := .noop })
  else if typeId = fileResId then
    setRes ({ · with body := .file .nil })
    let f ← copyStruct luaiMaxStack fileSchema
    setRes ({ · with body := .file f })
  else if typeId = execResId then
    setRes ({ · with body := .exec .nil })
    let e ← copyStruct luaiMaxStack execSchema
    setRes ({ · with body := .exec e })
  else argError 3 (ascii "unknown resource type")
  return 0

/-! ## Tagging a table that has a metatable -/

/-- What `luaL_getmetafield(L, i, k)` finds for a value: a raw read of its
metatable. -/
def metafield (st : State) (v : Value) (k : Bytes) : Value :=
  match st.metaOf v with
  | some m => (st.tbl m).rawget (.str k)
  | none => .nil

/-- A table `t` whose metatable is `{__index = {a = 1}}`, as `mcm.file`'s
argument. -/
def indexedState : State :=
  ⟨[⟨[(.str (ascii "a"), .int 1)], none⟩, ⟨[(.str (ascii "__index"), .table 0)], none⟩,
    ⟨[], some 1⟩], [.table 2], []⟩

/-- Before `mcm.file(t)`, `t.a` is 1; after it, `t` is tagged as a file and
`t.a` is nil. -/
theorem file_loses_index :
    index indexedState maxTagLoop (.table 2) (.str (ascii "a")) = .ok (.int 1) ∧
    returned (filefunc indexedState) = some 1 ∧
    metafield (final (filefunc indexedState)) (.table 2) resourceTypeMetaKey =
      .ud (.resourceType fileResId) ∧
    index (final (filefunc indexedState)) maxTagLoop (.table 2) (.str (ascii "a")) = .ok .nil := by
  decide

end Mcm.Lua
