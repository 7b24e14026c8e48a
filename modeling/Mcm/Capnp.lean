/-
  Mcm/Capnp.lean --- Cap'n Proto struct schemas and the values a dynamic
  builder holds, as far as `luacat`'s `copyStruct` and `copyList` reach them.

  SOURCE.  The Cap'n Proto library is not part of the repository.  The model
  keeps what the two functions read of a schema (each field's name, its type's
  `which()`, whether it is a member of the struct's union, and for a list its
  element type) and what their builder calls do: `set` of a Text or Data
  field, `init` of a struct or group field, `init` of a list field with a
  length, and `set` of a list element.

  THE MODEL.  A struct value is the fields that have been set, in the order
  they were first set.  Setting a member of the struct's union removes
  the other members, as moving the discriminant does.  A Text value set from a
  C string (`DynamicValue::Reader(const char*)`) ends at its first NUL byte;
  Data is set from a pointer and a length and keeps every byte.
-/
import Mcm.Basic

set_option autoImplicit false

namespace Mcm.Capnp

/-- The type of a field, as `field->getType().which()` tells them apart. -/
inductive Ty where
  | text
  | data
  /-- a struct or a group: each field's name, type, and whether it is a
  member of the struct's union -/
  | struct (fields : List (Bytes × Ty × Bool))
  | list (elem : Ty)
  /-- any other type, by its `which()` number -/
  | other (which : Nat)
  deriving Repr

/-- `capnp::schema::Type::Which` of a type, as error messages print it. -/
def Ty.which : Ty → Nat
  | .text => 12
  | .data => 13
  | .list _ => 14
  | .struct _ => 16
  | .other w => w

mutual

/-- A value in a message being built. -/
inductive Val where
  /-- a pointer not set yet -/
  | null
  | text (s : Bytes)
  | data (b : Bytes)
  | struct (fields : Fields)
  | list (elems : Vals)

/-- The fields of a struct that have been set, in the order they were first set. -/
inductive Fields where
  | nil
  | cons (name : Bytes) (v : Val) (rest : Fields)

/-- The elements of a list. -/
inductive Vals where
  | nil
  | cons (v : Val) (rest : Vals)

end

deriving instance DecidableEq for Val, Fields, Vals
deriving instance Repr for Val, Fields, Vals

namespace Fields

/-- The names of the fields set. -/
def names : Fields → List Bytes
  | .nil => []
  | .cons n _ rest => n :: rest.names

/-- The value of a field, if set. -/
def get (name : Bytes) : Fields → Option Val
  | .nil => none
  | .cons n v rest => if n = name then some v else rest.get name

/-- The fields whose names pass `p`. -/
def filter (p : Bytes → Bool) : Fields → Fields
  | .nil => .nil
  | .cons n v rest => if p n then .cons n v (rest.filter p) else rest.filter p

/-- Field `name` set to `v`, in its place, or last if it was not set. -/
def put (name : Bytes) (v : Val) : Fields → Fields
  | .nil => .cons name v .nil
  | .cons n w rest => if n = name then .cons n v rest else .cons n w (rest.put name v)

end Fields

namespace Vals

/-- A list of `n` copies of `v`. -/
def replicate (n : Nat) (v : Val) : Vals :=
  match n with
  | 0 => .nil
  | n + 1 => .cons v (replicate n v)

/-- The list with element `i` replaced. -/
def set (i : Nat) (v : Val) : Vals → Vals
  | .nil => .nil
  | .cons w rest => match i with
    | 0 => .cons v rest
    | i + 1 => .cons w (rest.set i v)

/-- The number of elements. -/
def length : Vals → Nat
  | .nil => 0
  | .cons _ rest => rest.length + 1

end Vals

/-- The text a `const char*` holds: up to its first NUL byte. -/
def cString (s : Bytes) : Bytes := s.takeWhile (· ≠ 0)

/-- The fields of a struct type, or none. -/
def Ty.fields : Ty → List (Bytes × Ty × Bool)
  | .struct fs => fs
  | _ => []

/-- `findFieldByName(name)`. -/
def findField (fs : List (Bytes × Ty × Bool)) (name : Bytes) : Option (Ty × Bool) :=
  (fs.find? (·.1 = name)).map (·.2)

/-! ### Schemas the schema compiler accepts -/

/-- A field name the schema language accepts: it begins with a lower-case letter. -/
def isFieldName (name : Bytes) : Bool :=
  match name with
  | c :: _ => 97 ≤ c.toNat && c.toNat ≤ 122
  | [] => false

/-- Every field name of a type, at every depth, is one the schema language accepts. -/
inductive Ty.Named : Ty → Prop
  | text : Ty.Named .text
  | data : Ty.Named .data
  | other (w : Nat) : Ty.Named (.other w)
  | list {elem : Ty} : elem.Named → Ty.Named (.list elem)
  | struct {fs : List (Bytes × Ty × Bool)} :
    (∀ f ∈ fs, isFieldName f.1 = true) → (∀ f ∈ fs, f.2.1.Named) → Ty.Named (.struct fs)

theorem findField_spec {fs : List (Bytes × Ty × Bool)} {name : Bytes} {ty : Ty} {u : Bool}
    (h : findField fs name = some (ty, u)) : (name, ty, u) ∈ fs := by
  obtain ⟨f, hf, he⟩ := Option.map_eq_some'.mp h
  have hname : f.1 = name := by simpa using List.find?_some hf
  rw [← hname, ← he]
  exact List.mem_of_find?_eq_some hf

/-- In an accepted schema the field a name finds has an accepted type. -/
theorem Ty.Named.findField {fs : List (Bytes × Ty × Bool)} (hfs : (Ty.struct fs).Named)
    {name : Bytes} {ty : Ty} {u : Bool} (h : Capnp.findField fs name = some (ty, u)) : ty.Named := by
  cases hfs with
  | struct _ hty => exact hty _ (findField_spec h)

/-- A name that is not a field name finds nothing in an accepted schema. -/
theorem Ty.Named.findField_none {fs : List (Bytes × Ty × Bool)} (hfs : (Ty.struct fs).Named)
    {name : Bytes} (hname : isFieldName name = false) : Capnp.findField fs name = none := by
  cases hfs with
  | struct hnames _ =>
    cases h : Capnp.findField fs name with
    | none => rfl
    | some p =>
      have := hnames _ (findField_spec h)
      rw [hname] at this
      cases this

/-- The field is a member of the struct's union. -/
def inUnion (fs : List (Bytes × Ty × Bool)) (name : Bytes) : Bool :=
  match findField fs name with
  | some (_, u) => u
  | none => false

/-- `builder.set(field, v)` on a struct's fields: setting a member of the
union first clears the other members. -/
def setField (fs : List (Bytes × Ty × Bool)) (vals : Fields) (name : Bytes) (v : Val) : Fields :=
  let kept := if inUnion fs name then vals.filter (fun n => n = name || !inUnion fs n) else vals
  kept.put name v

/-- The value `init(field, n)` gives each element of a new list. -/
def Ty.default : Ty → Val
  | .struct _ => .struct .nil
  | _ => .null

end Mcm.Capnp
