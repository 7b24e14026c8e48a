/-
  Mcm/Lua/Copy.lean --- `copyStruct` and `copyList`: a Lua table into a Cap'n
  Proto struct, as `mcm.resource` copies a resource's body.

  THE CODE.  `copyStruct` walks the table on top of the stack with `lua_next`.
  Each key must be a string naming a field of the struct's schema; a Text or
  Data field takes a string, a struct or group field a table (copied by a
  recursive call), and a list field a table whose length `lua_len` gives, whose
  elements `copyList` copies.  Any other key or value raises a Lua error.
  `copyList` reads element `i` of a List(Text) with `lua_geti(L, -1, i + 1)`
  and element `i` of a List(Struct) with `lua_geti(L, -1, i)`.

  THE MODEL.  Both functions run on the state of `Mcm.Lua.State`, calling the
  same API functions in the same order, so that their stack effects are the
  code's.  The result is the value built.  The `lua_next` loop is given one
  round more than the table has entries, the round in which `lua_next` returns
  0.  `copyStruct` recurses on a depth bound; the code's own bound is
  `lua_checkstack`, which fails long before `luaiMaxStack` levels.  When a
  call raises, the value built so far is dropped: a resource keeps the body
  `init` gave it.

  WHAT IS PROVED.  `copyList_struct_reads_index_zero`: for every nonempty
  List(Struct) whose table is a plain sequence (no entry at 0, no metatable),
  `copyList` reads element 0 of the table, finds nil and raises.
  `copyStruct_list_of_struct_fails`: so a struct with one List(Struct) field
  holding `{{name = "a"}}` is refused, while a List(Text) field holding `{"a"}`
  is copied.
-/
import Mcm.Lua.State

set_option autoImplicit false

namespace Mcm.Lua

open Capnp

/-- `copyList(state, builder)` for a new list of `size` elements of type
`elem`, the table on top of the stack; `copyStruct` copies a struct element. -/
def copyList (copyStruct : List (Bytes × Ty × Bool) → LuaM Fields) (elem : Ty) (size : Nat) :
    LuaM Vals := do
  unless ← checkstack 2 do raise (ascii "copyList: recursion depth exceeded")
  match elem with
  | .text =>
    let elemText (vals : Vals) (i : Nat) : LuaM Vals := do
      match ← geti (-1) ((i : Int) + 1) with
      | .str _ =>
        let s := (← tolstring (-1)).getD []
        pop 1
        return vals.set i (.text (cString s))
      | _ => raise (ascii "copyList: found non-string in List(Text)")
    (List.range size).foldlM elemText (Vals.replicate size elem.default)
  | .struct fs =>
    let elemStruct (vals : Vals) (i : Nat) : LuaM Vals := do
      match ← geti (-1) (i : Int) with
      | .table _ =>
        let sub ← copyStruct fs
        pop 1
        return vals.set i (.struct sub)
      | _ => raise (ascii "copyList: found non-table in List(Text)")
    (List.range size).foldlM elemStruct (Vals.replicate size elem.default)
  | ty => raise (ascii "copyList: can't map type " ++ intString ty.which ++ ascii " to Lua")

/-- The entries of the table at a stack index. -/
def entriesAt (i : Int) : LuaM (List (Value × Value)) := do
  let st ← get
  match st.slot i with
  | .table r => return (st.tbl r).entries
  | _ => return []

/-- The `switch` of `copyStruct` on the type of field `key`, whose value is on
top of the stack; `copyStruct` copies a struct or group. -/
def copyField (copyStruct : List (Bytes × Ty × Bool) → LuaM Fields) (key : Bytes) :
    Ty → LuaM Val
  | .text => do
    unless ← isstring (-1) do
      raise (ascii "copyStruct: non-string value for field " ++ cString key)
    return .text (cString ((← tolstring (-1)).getD []))
  | .data => do
    unless ← isstring (-1) do
      raise (ascii "copyStruct: non-data value for field " ++ cString key)
    return .data ((← tolstring (-1)).getD [])
  | .struct gfs => do
    unless ← istable (-1) do
      raise (ascii "copyStruct: non-struct value for field " ++ cString key)
    return .struct (← copyStruct gfs)
  | .list elem => do
    unless ← istable (-1) do
      raise (ascii "copyStruct: non-list value for field " ++ cString key)
    len (-1)
    let n ← tointeger (-1)
    pop 1
    if 0 < n then return .list (← copyList copyStruct elem n.toNat)
    else return .list .nil
  | .other w =>
    raise (ascii "copyStruct: can't map field " ++ cString key ++ ascii " type " ++
      intString w ++ ascii " to Lua")

/-- One round of the `lua_next` loop, `done` once `lua_next` has returned 0. -/
def copyEntry (copyStruct : List (Bytes × Ty × Bool) → LuaM Fields) (fs : List (Bytes × Ty × Bool))
    (acc : Bool × Fields) (_ : Nat) : LuaM (Bool × Fields) := do
  if acc.1 then return acc
  if !(← next (-2)) then return (true, acc.2)
  unless ← isstring (-2) do raise (ascii "copyStruct: non-string key in table")
  let key := (← tolstring (-2)).getD []
  match findField fs key with
  | none => raise (ascii "copyStruct: unknown field '" ++ cString key ++ ascii "' in table")
  | some (ty, _) =>
    let v ← copyField copyStruct key ty
    pop 1
    return (false, setField fs acc.2 key v)

/-- `copyStruct(state, builder)` for a struct with fields `fs`, the table on
top of the stack, at most `depth` levels deep. -/
def copyStruct : Nat → List (Bytes × Ty × Bool) → LuaM Fields
  | 0, _ => raise (ascii "copyStruct: recursion depth exceeded")
  | depth + 1, fs => do
    unless ← istable (-1) do raise (ascii "copyStruct: not a table")
    unless ← checkstack 2 do raise (ascii "copyStruct: recursion depth exceeded")
    push .nil
    let rounds := (← entriesAt (-2)).length + 1
    let r ← (List.range rounds).foldlM (copyEntry (copyStruct depth) fs) (false, .nil)
    return r.2

/-! ## Lists of structs -/

/-- A List(Struct) is read from index 0: for every nonempty list whose table is
a plain sequence, `copyList` finds nil at index 0 and raises. -/
theorem copyList_struct_reads_index_zero (copier : List (Bytes × Ty × Bool) → LuaM Fields)
    (fs : List (Bytes × Ty × Bool)) (size : Nat) (st : State) (r : Nat)
    (hsize : 0 < size) (htop : st.slot (-1) = .table r)
    (hraw : (st.tbl r).rawget (.int 0) = .nil) (hmeta : (st.tbl r).meta = none)
    (hroom : st.stack.length + 2 ≤ luaiMaxStack) :
    raised (copyList copier (.struct fs) size st) =
      some (.str (ascii "copyList: found non-table in List(Text)")) := by
  obtain ⟨n, rfl⟩ : ∃ n, size = n + 1 := ⟨size - 1, by omega⟩
  have hidx : index st maxTagLoop (.table r) (.int 0) = .ok .nil := index_nil hraw hmeta
  simp [copyList, checkstack, List.range_succ_eq_map, List.foldlM_cons, geti, bind, EStateM.bind,
    get, getThe, MonadStateOf.get, EStateM.get, pure, EStateM.pure, hroom, htop, hidx, liftResult,
    push, modify, modifyGet, MonadStateOf.modifyGet, EStateM.modifyGet, raise, throw, throwThe,
    MonadExceptOf.throw, EStateM.throw, raised]

/-- A struct with a List(Struct) field `items`. -/
def itemsSchema : List (Bytes × Ty × Bool) :=
  [(ascii "items", .list (.struct [(ascii "name", .text, false)]), false)]

/-- The table `{items = {{name = "a"}}}` on the stack. -/
def itemsState : State :=
  ⟨[⟨[(.str (ascii "items"), .table 1)], none⟩, ⟨[(.int 1, .table 2)], none⟩,
    ⟨[(.str (ascii "name"), .str (ascii "a"))], none⟩], [.table 0], []⟩

/-- The same shape with a List(Text) field `tags`: `{tags = {"a"}}`. -/
def tagsState : State :=
  ⟨[⟨[(.str (ascii "tags"), .table 1)], none⟩, ⟨[(.int 1, .str (ascii "a"))], none⟩], [.table 0], []⟩

/-- `copyStruct` refuses `{items = {{name = "a"}}}` for a List(Struct) field,
and copies `{tags = {"a"}}` for a List(Text) field. -/
theorem copyStruct_list_of_struct_fails :
    raised (copyStruct luaiMaxStack itemsSchema itemsState) =
      some (.str (ascii "copyList: found non-table in List(Text)")) ∧
    returned (copyStruct luaiMaxStack [(ascii "tags", .list .text, false)] tagsState) =
      some (.cons (ascii "tags") (.list (.cons (.text (ascii "a")) .nil)) .nil) := by
  decide

end Mcm.Lua
