/-
  Mcm/Lua/State.lean --- the Lua state as the C functions of `luacat` see it
  through the Lua 5.3 C API, and the resources `luacat` builds in it.

  SOURCE.  Lua is not part of the repository: values, tables, metatables and
  the API functions are modelled from the Lua 5.3 reference manual (sections
  2.1, 2.4, 4 and 5) as far as `luacat.c++` calls them.  The userdata of
  `luacat/value.h` (an `mcm.hash` id, a resource type) are not among the
  source files either: they are modelled from their uses in `luacat.c++`.

  THE MODEL.  Tables live in a heap and are values by reference; a table is
  its raw entries, in the order `lua_next` visits them, and its metatable.  A
  key with no entry reads as nil and setting a key to nil removes its entry.
  The stack of the running C function is a list, bottom first: index 1 is its
  head, index -1 its last element.  A computation is an `EStateM`: a Lua error
  carries its message and the state it was raised in, so that the heap and
  the resources added before it survive a `pcall`.  An operation the model
  does not cover stops the computation with `unmodelled`, which is not a Lua
  error: nothing catches it, and a run that meets it has no result.

  SCOPE.  Numbers are integers; floats are left out.  A metamethod that is a
  table (`__index`) is followed; one that is a function would run Lua code
  the model does not have, and the operation stops with `unmodelled` instead.
  The length of a table is its first border.
-/
import Mcm.Capnp

set_option autoImplicit false

namespace Mcm.Lua

/-! ## Values -/

/-- A full userdata made by `luacat/value.h`. -/
inductive Userdata where
  /-- an `Id`, made by `mcm.hash`: the id and the string it was hashed from -/
  | id (value : UInt64) (comment : Bytes)
  /-- a resource type, stored in a resource table's metatable -/
  | resourceType (val : UInt64)
  deriving DecidableEq, Repr

/-- A Lua value. -/
inductive Value where
  | nil
  | bool (b : Bool)
  | int (i : Int)
  | str (s : Bytes)
  | table (ref : Nat)
  | func (ref : Nat)
  | ud (u : Userdata)
  deriving DecidableEq, Repr

/-- A table: its raw entries, no value nil, and its metatable. -/
structure Table where
  entries : List (Value × Value)
  meta : Option Nat
  deriving DecidableEq, Repr

/-- The body of a resource being built. -/
inductive Body where
  | noop
  | file (v : Capnp.Fields)
  | exec (v : Capnp.Fields)
  deriving DecidableEq, Repr

/-- A `Resource::Builder` of `luacat`'s catalog.  A new orphan has id 0, no
comment, no dependencies and the union's first member, `noop`. -/
structure Res where
  id : UInt64
  comment : Bytes
  deps : List UInt64
  body : Body
  deriving DecidableEq, Repr

/-- The state: the heap of tables, the stack of the running C function, and
the resources the `Lua` object has added so far (`Lua::resources`). -/
structure State where
  heap : List Table
  stack : List Value
  resources : List Res
  deriving DecidableEq, Repr

/-- What stops a computation early. -/
inductive Thrown where
  /-- a Lua error, with its value: `pcall` catches it -/
  | error (v : Value)
  /-- an operation that would run Lua code the model does not have -/
  | unmodelled
  deriving DecidableEq, Repr

/-- A computation on the state that may raise a Lua error. -/
abbrev LuaM := EStateM Thrown State

/-- The Lua error a run raised, if it raised one. -/
def raised {α : Type} : EStateM.Result Thrown State α → Option Value
  | .error (.error e) _ => some e
  | _ => none

/-- The value a run returned, if it returned normally. -/
def returned {α : Type} : EStateM.Result Thrown State α → Option α
  | .ok a _ => some a
  | .error _ _ => none

/-- The state a run ended in, normally or by an error. -/
def final {α : Type} : EStateM.Result Thrown State α → State
  | .ok _ s => s
  | .error _ s => s

/-- `LUAI_MAXSTACK`. -/
def luaiMaxStack : Nat := 1000000

/-- `lua_typename` of a value. -/
def Value.typeName : Value → Bytes
  | .nil => ascii "nil"
  | .bool _ => ascii "boolean"
  | .int _ => ascii "number"
  | .str _ => ascii "string"
  | .table _ => ascii "table"
  | .func _ => ascii "function"
  | .ud _ => ascii "userdata"

/-- `lua_tostring` of a number: its decimal form. -/
def intString (i : Int) : Bytes := ascii (toString i)

/-! ## Tables -/

namespace Table

/-- `lua_rawget`. -/
def rawget (t : Table) (k : Value) : Value := (t.entries.lookup k).getD .nil

/-- `lua_rawset`: a nil value removes the key. -/
def rawset (t : Table) (k v : Value) : Table :=
  let rest := t.entries.filter (·.1 != k)
  if v = .nil then { t with entries := rest }
  else if t.entries.any (·.1 == k) then
    { t with entries := t.entries.map (fun e => if e.1 = k then (k, v) else e) }
  else { t with entries := t.entries ++ [(k, v)] }

/-- The length `#t` without a `__len`: the first border. -/
def border (t : Table) : Nat :=
  go t t.entries.length 1
where
  /-- The first `n ≥ i` with `t[n+1]` nil, looking at most `fuel` further. -/
  go (t : Table) : Nat → Nat → Nat
    | 0, i => i - 1
    | fuel + 1, i => if t.rawget (.int i) = .nil then i - 1 else go t fuel (i + 1)

end Table

namespace State

variable (st : State)

/-- The table a reference names. -/
def tbl (r : Nat) : Table := st.heap.getD r ⟨[], none⟩

/-- The metatable of a value: only tables have one here. -/
def metaOf : Value → Option Nat
  | .table r => (st.tbl r).meta
  | _ => none

/-- The stack position of an acceptable index. -/
def absIndex (i : Int) : Nat :=
  if 0 < i then i.toNat else (st.stack.length + 1 + i).toNat

/-- The value at a stack index; nil for a position past the top. -/
def slot (i : Int) : Value := st.stack.getD (st.absIndex i - 1) .nil

/-- The state with table `r` changed. -/
def modifyTbl (r : Nat) (f : Table → Table) : State :=
  { st with heap := st.heap.modify f r }

end State

/-! ## The C API -/

open EStateM

/-- Raise a Lua error with a string message (`luaL_error`). -/
def raise {α : Type} (msg : Bytes) : LuaM α := throw (.error (.str msg))

/-- `lua_gettop`. -/
def gettop : LuaM Nat := do return (← get).stack.length

/-- Push a value. -/
def push (v : Value) : LuaM Unit := modify fun st => { st with stack := st.stack ++ [v] }

/-- `lua_pop(L, n)`. -/
def pop (n : Nat) : LuaM Unit := modify fun st => { st with stack := st.stack.take (st.stack.length - n) }

/-- The value at a stack index. -/
def valueAt (i : Int) : LuaM Value := do return (← get).slot i

/-- The value on top, popped. -/
def popValue : LuaM Value := do
  let v ← valueAt (-1)
  pop 1
  return v

/-- `lua_checkstack(L, n)`. -/
def checkstack (n : Nat) : LuaM Bool := do return (← get).stack.length + n ≤ luaiMaxStack

/-- `lua_createtable`: a new empty table, pushed; its reference. -/
def createtable : LuaM Nat := do
  let st ← get
  set { st with heap := st.heap ++ [Table.mk [] none] }
  push (.table st.heap.length)
  return st.heap.length

/-- `lua_pushvalue(L, i)`. -/
def pushvalue (i : Int) : LuaM Unit := do push (← valueAt i)

/-- `lua_istable(L, i)`. -/
def istable (i : Int) : LuaM Bool := do
  match ← valueAt i with
  | .table _ => return true
  | _ => return false

/-- `lua_isstring(L, i)`: a string, or a number, which converts to one. -/
def isstring (i : Int) : LuaM Bool := do
  match ← valueAt i with
  | .str _ | .int _ => return true
  | _ => return false

/-- `lua_tolstring(L, i, &len)`: a number is converted in place. -/
def tolstring (i : Int) : LuaM (Option Bytes) := do
  let st ← get
  match st.slot i with
  | .str s => return some s
  | .int n =>
    set { st with stack := st.stack.set (st.absIndex i - 1) (.str (intString n)) }
    return some (intString n)
  | _ => return none

/-- `lua_tointeger(L, i)`: 0 for a value that is not an integer. -/
def tointeger (i : Int) : LuaM Int := do
  match ← valueAt i with
  | .int n => return n
  | _ => return 0

/-- `t[k]`, following table-valued `__index` metamethods at most `MAXTAGLOOP`
times. -/
def index (st : State) : Nat → Value → Value → Except Thrown Value
  | 0, _, _ => .error (.error (.str (ascii "'__index' chain too long; possible loop")))
  | n + 1, t, k =>
    match t with
    | .table r =>
      let raw := (st.tbl r).rawget k
      if raw ≠ .nil then .ok raw
      else
        match (st.tbl r).meta with
        | none => .ok .nil
        | some m =>
          match (st.tbl m).rawget (.str (ascii "__index")) with
          | .nil => .ok .nil
          | .func _ => .error .unmodelled
          | h => index st n h k
    | v => .error (.error (.str (ascii "attempt to index a " ++ v.typeName ++ ascii " value")))

/-- `MAXTAGLOOP`. -/
def maxTagLoop : Nat := 2000

/-- A key a table lacks, in a table with no metatable, reads as nil. -/
theorem index_nil {st : State} {r n : Nat} {k : Value} (hraw : (st.tbl r).rawget k = .nil)
    (hmeta : (st.tbl r).meta = none) : index st (n + 1) (.table r) k = .ok .nil := by
  simp [index, hraw, hmeta]

/-- Lift a result into a computation. -/
def liftResult {α : Type} : Except Thrown α → LuaM α
  | .ok a => return a
  | .error e => throw e

/-- `lua_geti(L, i, n)`: `t[n]` pushed; the type of the value. -/
def geti (i : Int) (n : Int) : LuaM Value := do
  let st ← get
  let v ← liftResult (index st maxTagLoop (st.slot i) (.int n))
  push v
  return v

/-- `lua_len(L, i)`: the length, pushed. -/
def len (i : Int) : LuaM Unit := do
  let st ← get
  match st.slot i with
  | .str s => push (.int s.length)
  | .table r =>
    match (st.tbl r).meta with
    | some m =>
      if (st.tbl m).rawget (.str (ascii "__len")) ≠ .nil then throw .unmodelled
      else push (.int (st.tbl r).border)
    | none => push (.int (st.tbl r).border)
  | v => raise (ascii "attempt to get length of a " ++ v.typeName ++ ascii " value")

/-- The entry after key `k` in `lua_next` order; `none` after the last. -/
def nextEntry (es : List (Value × Value)) (k : Value) : Except Thrown (Option (Value × Value)) :=
  if k = .nil then .ok es.head?
  else
    match es.dropWhile (·.1 != k) with
    | [] => .error (.error (.str (ascii "invalid key to 'next'")))
    | _ :: rest => .ok rest.head?

/-- `lua_next(L, i)`: pops a key, and pushes the next key and its value. -/
def next (i : Int) : LuaM Bool := do
  let st ← get
  match st.slot i with
  | .table r =>
    let k ← popValue
    match ← liftResult (nextEntry (st.tbl r).entries k) with
    | some (k', v) =>
      push k'
      push v
      return true
    | none => return false
  | _ => raise (ascii "table expected")

/-- `luaL_getmetafield(L, i, e)`: a raw read of the metatable; the field is
pushed only when it is not nil. -/
def getmetafield (i : Int) (e : Bytes) : LuaM Bool := do
  let st ← get
  match st.metaOf (st.slot i) with
  | none => return false
  | some m =>
    let v := (st.tbl m).rawget (.str e)
    if v = .nil then return false
    else
      push v
      return true

/-- `lua_getmetatable(L, i)`: the metatable is pushed when there is one. -/
def getmetatable (i : Int) : LuaM Bool := do
  let st ← get
  match st.metaOf (st.slot i) with
  | some m =>
    push (.table m)
    return true
  | none => return false

/-- `lua_setmetatable(L, i)`: pops a table and makes it the metatable of the
table at `i`. -/
def setmetatable (i : Int) : LuaM Unit := do
  let st ← get
  let target := st.slot i
  let m ← popValue
  match target, m with
  | .table r, .table mr => modify fun st => st.modifyTbl r ({ · with meta := some mr })
  | .table r, .nil => modify fun st => st.modifyTbl r ({ · with meta := none })
  | _, _ => return ()

/-- `lua_setfield(L, i, k)`: pops a value and sets it at key `k` of the table
at `i`; a `__newindex` metamethod is not run. -/
def setfield (i : Int) (k : Bytes) : LuaM Unit := do
  let st ← get
  match st.slot i with
  | .table r =>
    if (st.metaOf (.table r)).any fun m => (st.tbl m).rawget (.str (ascii "__newindex")) ≠ .nil then
      throw .unmodelled
    else
      let v ← popValue
      modify fun st => st.modifyTbl r (·.rawset (.str k) v)
  | v => raise (ascii "attempt to index a " ++ v.typeName ++ ascii " value")


/-! ## Stack positions -/

/-- Index -1 is the top of the stack. -/
theorem slot_neg_one {st : State} {ys : List Value} {a : Value} (hst : st.stack = ys ++ [a]) :
    st.slot (-1) = a := by
  have hi : st.absIndex (-1) - 1 = ys.length := by
    rw [State.absIndex, if_neg (by decide), hst, List.length_append, List.length_singleton]
    omega
  rw [State.slot, hi, hst, List.getD_eq_getElem?_getD, List.getElem?_concat_length]
  rfl

/-- Index -2 is the value under the top. -/
theorem slot_neg_two {st : State} {ys : List Value} {a b : Value} (hst : st.stack = ys ++ [a, b]) :
    st.slot (-2) = a := by
  have hi : st.absIndex (-2) - 1 = ys.length := by
    rw [State.absIndex, if_neg (by decide), hst, List.length_append, List.length_cons,
      List.length_singleton]
    omega
  rw [State.slot, hi, hst, List.getD_eq_getElem?_getD, List.getElem?_append_right (Nat.le_refl _),
    Nat.sub_self]
  rfl

theorem State.with_stack_self {st : State} {s : List Value} (h : st.stack = s) :
    { st with stack := s } = st := by
  subst h
  rfl

theorem stack_of_slot {st : State} {r : Nat} (h : st.slot (-1) = .table r) :
    ∃ ys, st.stack = ys ++ [.table r] := by
  rcases List.eq_nil_or_concat st.stack with hnil | ⟨ys, a, hys⟩
  · simp [State.slot, State.absIndex, hnil] at h
  · rw [List.concat_eq_append] at hys
    rw [slot_neg_one hys] at h
    exact ⟨ys, h ▸ hys⟩

/-! ## Reasoning about runs

`Post x st Q`: every normal return of `x` run from `st` satisfies `Q`; a run
that raises is not constrained.  Each API function has one rule, stated for the
cases its callers meet, and `Post.bind` chains them, so that a proof about a
function of `luacat` never unfolds the API. -/

/-- Every normal return of `x` run from `st` satisfies `Q`. -/
def Post {α : Type} (x : LuaM α) (st : State) (Q : α → State → Prop) : Prop :=
  ∀ a st', x st = .ok a st' → Q a st'

namespace Post

variable {α β : Type} {st : State}

theorem bind {x : LuaM α} {f : α → LuaM β} {Q : β → State → Prop}
    (h : Post x st fun a s => Post (f a) s Q) : Post (x >>= f) st Q := by
  intro b st' hrun
  simp only [Bind.bind, EStateM.bind] at hrun
  split at hrun
  · exact h _ _ ‹_› _ _ hrun
  · cases hrun

theorem mono {x : LuaM α} {Q Q' : α → State → Prop} (h : Post x st Q) (hq : ∀ a s, Q a s → Q' a s) :
    Post x st Q' := fun a s hrun => hq a s (h a s hrun)

theorem pure {a : α} {Q : α → State → Prop} (h : Q a st) : Post (Pure.pure a) st Q := by
  rintro b st' ⟨⟩
  exact h

theorem raise {msg : Bytes} {Q : α → State → Prop} : Post (Lua.raise msg) st Q := by
  rintro b st' ⟨⟩

theorem get {Q : State → State → Prop} (h : Q st st) : Post MonadState.get st Q := by
  rintro b st' ⟨⟩
  exact h

theorem push {v : Value} {Q : Unit → State → Prop} (h : Q () { st with stack := st.stack ++ [v] }) :
    Post (Lua.push v) st Q := by
  rintro b st' ⟨⟩
  exact h

theorem pop {n : Nat} {Q : Unit → State → Prop}
    (h : Q () { st with stack := st.stack.take (st.stack.length - n) }) : Post (Lua.pop n) st Q := by
  rintro b st' ⟨⟩
  exact h

theorem valueAt {i : Int} {Q : Value → State → Prop} (h : Q (st.slot i) st) :
    Post (Lua.valueAt i) st Q := by
  rintro b st' ⟨⟩
  exact h

theorem checkstack {n : Nat} {Q : Bool → State → Prop} (h : ∀ b, Q b st) :
    Post (Lua.checkstack n) st Q := by
  rintro b st' ⟨⟩
  exact h _

theorem istable {i : Int} {Q : Bool → State → Prop} (ht : ∀ r, st.slot i = .table r → Q true st)
    (hf : Q false st) : Post (Lua.istable i) st Q := by
  unfold Lua.istable
  refine bind (valueAt ?_)
  split
  · exact pure (ht _ ‹_›)
  · exact pure hf

theorem isstring {i : Int} {Q : Bool → State → Prop} (hs : ∀ s, st.slot i = .str s → Q true st)
    (hn : ∀ n, st.slot i = .int n → Q true st) (hf : Q false st) : Post (Lua.isstring i) st Q := by
  unfold Lua.isstring
  refine bind (valueAt ?_)
  split
  · exact pure (hs _ ‹_›)
  · exact pure (hn _ ‹_›)
  · exact pure hf

theorem tolstring_str {i : Int} {s : Bytes} {Q : Option Bytes → State → Prop} (hs : st.slot i = .str s)
    (h : Q (some s) st) : Post (Lua.tolstring i) st Q := by
  unfold Lua.tolstring
  refine bind (get ?_)
  rw [hs]
  exact pure h

theorem tolstring_int {i : Int} {n : Int} {Q : Option Bytes → State → Prop} (hn : st.slot i = .int n)
    (h : Q (some (intString n)) { st with stack := st.stack.set (st.absIndex i - 1) (.str (intString n)) }) :
    Post (Lua.tolstring i) st Q := by
  unfold Lua.tolstring
  refine bind (get ?_)
  rw [hn]
  rintro b st' ⟨⟩
  exact h

theorem tointeger {i : Int} {Q : Int → State → Prop} (h : ∀ n, Q n st) : Post (Lua.tointeger i) st Q := by
  unfold Lua.tointeger
  refine bind (valueAt ?_)
  split <;> exact pure (h _)

theorem liftResult {r : Except Thrown α} {Q : α → State → Prop} (h : ∀ a, r = .ok a → Q a st) :
    Post (Lua.liftResult r) st Q := by
  cases r with
  | error e => rintro b st' ⟨⟩
  | ok a => exact pure (h a rfl)

theorem geti {i n : Int} {Q : Value → State → Prop} (h : ∀ v, Q v { st with stack := st.stack ++ [v] }) :
    Post (Lua.geti i n) st Q :=
  bind (get (bind (liftResult fun v _ => bind (push (pure (h v))))))

theorem len {i : Int} {Q : Unit → State → Prop} (h : ∀ n : Int, Q () { st with stack := st.stack ++ [.int n] }) :
    Post (Lua.len i) st Q := by
  unfold Lua.len
  refine bind (get ?_)
  dsimp only
  split
  · exact push (h _)
  · split
    · split
      · rintro b st' ⟨⟩
      · exact push (h _)
    · exact push (h _)
  · exact raise

/-- `unless b do raise msg`, then the rest. -/
theorem check {b : Bool} {msg : Bytes} {jp : PUnit → LuaM α} {Q : α → State → Prop}
    (h : b = true → Post (jp ()) st Q) :
    Post (if b = true then (Pure.pure PUnit.unit >>= jp) else (Lua.raise msg >>= jp)) st Q := by
  split
  · exact bind (pure (h ‹_›))
  · exact bind raise

theorem pop_one {ys : List Value} {v : Value} {Q : Unit → State → Prop} (hst : st.stack = ys ++ [v])
    (h : Q () { st with stack := ys }) : Post (Lua.pop 1) st Q := by
  refine pop ?_
  have htake : (ys ++ [v]).take ((ys ++ [v]).length - 1) = ys := by simp
  rw [hst, htake]
  exact h

theorem foldlM_keep {γ : Type} {f : β → γ → LuaM β} (hf : ∀ b c, Post (f b c) st fun _ s => s = st)
    (l : List γ) : ∀ b : β, Post (l.foldlM f b) st fun _ s => s = st := by
  induction l with
  | nil => exact fun _ => pure rfl
  | cons c l ih =>
    intro b
    rw [List.foldlM_cons]
    exact bind ((hf b c).mono fun b' s hs => by subst hs; exact ih b')

theorem next_two {ys : List Value} {r : Nat} {k : Value} {Q : Bool → State → Prop}
    (hst : st.stack = ys ++ [.table r, k])
    (hsome : ∀ k' v, nextEntry (st.tbl r).entries k = .ok (some (k', v)) →
      Q true { st with stack := ys ++ [.table r, k', v] })
    (hnone : nextEntry (st.tbl r).entries k = .ok none → Q false { st with stack := ys ++ [.table r] }) :
    Post (Lua.next (-2)) st Q := by
  have hst' : st.stack = (ys ++ [.table r]) ++ [k] := by simp [hst]
  unfold Lua.next popValue
  refine bind (get ?_)
  rw [slot_neg_two hst]
  refine bind (bind (valueAt (bind (pop_one hst' (pure ?_)))))
  rw [slot_neg_one hst']
  refine bind (liftResult fun res hres => ?_)
  split
  · rename_i k' v
    refine bind (push (bind (push (pure ?_))))
    simpa using hsome k' v (by rw [hres])
  · exact pure (hnone (by rw [hres]))

theorem ite {c : Prop} [Decidable c] {x y : LuaM α} {Q : α → State → Prop}
    (hx : c → Post x st Q) (hy : ¬c → Post y st Q) : Post (if c then x else y) st Q := by
  split
  · exact hx ‹_›
  · exact hy ‹_›

end Post

/-! ## Runs

The exact result of an API call, for proofs that follow one path of a C
function to its end, error included; `bind_run` chains them. -/

section Runs

variable {α β : Type} {st s : State}

theorem bind_run {x : LuaM α} {f : α → LuaM β} {a : α} (hx : x st = .ok a s) :
    (x >>= f) st = f a s := by
  simp only [Bind.bind, EStateM.bind, hx]

theorem valueAt_run {i : Int} : valueAt i st = .ok (st.slot i) st := rfl

theorem push_run {v : Value} : push v st = .ok () { st with stack := st.stack ++ [v] } := rfl

theorem pop_run {ys : List Value} {v : Value} (h : st.stack = ys ++ [v]) :
    pop 1 st = .ok () { st with stack := ys } := by
  simp only [pop, modify, modifyGet, MonadStateOf.modifyGet, EStateM.modifyGet, h,
    List.length_append, List.length_singleton, Nat.add_sub_cancel, List.take_left]

theorem istable_run {i : Int} {r : Nat} (h : st.slot i = .table r) : istable i st = .ok true st := by
  rw [istable, bind_run valueAt_run, h]
  rfl

theorem isstring_false {i : Int} (hs : ∀ c, st.slot i ≠ .str c) (hn : ∀ n, st.slot i ≠ .int n) :
    isstring i st = .ok false st := by
  rw [isstring, bind_run valueAt_run]
  cases h : st.slot i with
  | str c => exact absurd h (hs c)
  | int n => exact absurd h (hn n)
  | _ => rfl

theorem getmetafield_run {i : Int} {e : Bytes} {m : Nat} (hm : st.metaOf (st.slot i) = some m)
    (hnil : (st.tbl m).rawget (.str e) ≠ .nil) :
    getmetafield i e st = .ok true { st with stack := st.stack ++ [(st.tbl m).rawget (.str e)] } := by
  simp only [getmetafield, Bind.bind, EStateM.bind, get, getThe, MonadStateOf.get, EStateM.get, hm, hnil]
  rfl

end Runs

/-! ## Tables as Lua has them -/

/-- Every table of the heap has each key at most once, as every Lua table does. -/
def TablesOk (heap : List Table) : Prop := ∀ t ∈ heap, (t.entries.map Prod.fst).Nodup

theorem TablesOk.tbl {st : State} (h : TablesOk st.heap) (r : Nat) :
    ((st.tbl r).entries.map Prod.fst).Nodup := by
  unfold State.tbl
  rw [List.getD_eq_getElem?_getD]
  cases hr : st.heap[r]? with
  | none => exact List.nodup_nil
  | some t => exact h t (List.getElem?_mem hr)

theorem dropWhile_key : ∀ {es : List (Value × Value)} {i : Nat}, (es.map Prod.fst).Nodup →
    (h : i < es.length) → es.dropWhile (fun e => e.1 != es[i].1) = es.drop i
  | [], _, _, h => absurd h (Nat.not_lt_zero _)
  | e :: es, 0, _, _ => List.dropWhile_cons_of_neg (by simp)
  | e :: es, i + 1, hnd, h => by
    have hi : i < es.length := Nat.lt_of_succ_lt_succ h
    have hne : e.1 ≠ es[i].1 := fun he =>
      (List.nodup_cons.mp hnd).1 (he ▸ List.mem_map_of_mem _ (List.getElem_mem _))
    rw [List.dropWhile_cons_of_pos (by simpa using hne)]
    exact dropWhile_key (List.nodup_cons.mp hnd).2 _

/-- In a table whose keys are distinct, `lua_next` from the key of entry `i`
gives entry `i + 1`. -/
theorem nextEntry_key {es : List (Value × Value)} (hnd : (es.map Prod.fst).Nodup) {i : Nat} {s : Bytes}
    {v : Value} (hi : es[i]? = some (.str s, v)) : nextEntry es (.str s) = .ok es[i + 1]? := by
  obtain ⟨hlt, he⟩ := List.getElem?_eq_some_iff.mp hi
  have hkey : es[i].1 = .str s := by rw [he]
  unfold nextEntry
  rw [if_neg (by simp), ← hkey, dropWhile_key hnd hlt, List.drop_eq_getElem_cons hlt]
  simp

/-- The decimal form of a number never begins with a lower-case letter. -/
theorem isFieldName_intString (n : Int) : Capnp.isFieldName (intString n) = false := by
  cases n with
  | ofNat m =>
    show Capnp.isFieldName (ascii (toString m)) = false
    cases h : ascii (toString m) with
    | nil => rfl
    | cons b bs =>
      have hb := ascii_toString_digit m b (h ▸ List.mem_cons_self _ _)
      simp only [Capnp.isFieldName, Bool.and_eq_false_iff, decide_eq_false_iff_not]
      omega
  | negSucc m => rfl

end Mcm.Lua
