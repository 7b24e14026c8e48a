/-
  Mcm/Catalog.lean --- a catalog as the Go code reads it.

  The catalog is a Cap'n Proto message.  The Go side never sees the message as
  a tree of variants: it calls accessors, and an accessor of a union member
  reads the member's slot whatever the discriminant says.  `gen.resource` calls
  `r.File()` on every resource, file or not, so the model records, for each
  resource, the discriminant (`which`) and what `r.File()` returns (`file`)
  side by side.  For a file resource `file` is its body; for a noop or exec
  resource it is whatever the shared pointer slot reads as.

  Reads that can fail keep their failure: `f.Path()` returns an error when the
  pointer cannot be read, and that error reaches the script generator's
  message.  Reads whose error the code discards (`c, _ := r.Comment()`) are
  the value the code goes on with.
-/
import Mcm.Basic

set_option autoImplicit false

namespace Mcm

/-- `catalog.File_Which`: the variant of a file resource. -/
inductive FileWhich where
  | plain
  | directory
  | symlink
  | absent
  /-- a discriminant the schema does not name -/
  | unknown (tag : UInt16)
  deriving DecidableEq, Repr, Inhabited

/-- `File_Which.String()`, as `%v` prints it. -/
def FileWhich.text : FileWhich → Bytes
  | .plain => ascii "plain"
  | .directory => ascii "directory"
  | .symlink => ascii "symlink"
  | .absent => ascii "absent"
  | .unknown t => ascii "File_Which(" ++ ascii (toString t.toNat) ++ ascii ")"

/-- `catalog.Resource_Which`: the variant of a resource's body. -/
inductive ResourceWhich where
  | noop
  | file
  | exec
  | unknown (tag : UInt16)
  deriving DecidableEq, Repr, Inhabited

/-- A `catalog.File` struct, through its accessors. -/
structure File where
  /-- `f.Path()`: the path, or the text of the error reading it -/
  path : Except Bytes Bytes
  /-- `f.Which()` -/
  which : FileWhich
  /-- `f.Plain().HasContent()`, and then `f.Plain().Content()` -/
  content : Option Bytes
  deriving DecidableEq, Repr, Inhabited

/-- What `r.File()` returns when the union's pointer slot is null: the default
struct.  `Path()` of a null text pointer is the empty text with no error, the
discriminant reads 0 (`plain`), and there is no content.  `setNoop()` on a new
orphan sets only the discriminant, so this is what every noop resource from
`luacat` reads as. -/
def File.null : File := ⟨.ok [], .plain, none⟩

/-- A `catalog.Resource`, through its accessors. -/
structure Resource where
  /-- `r.ID()` -/
  id : UInt64
  /-- `r.Comment()`; empty when it cannot be read -/
  comment : Bytes
  /-- `r.Dependencies()` -/
  dependencies : List UInt64
  /-- `r.Which()` -/
  which : ResourceWhich
  /-- `r.File()`: the union's pointer slot read as a `File` -/
  file : File
  deriving DecidableEq, Repr, Inhabited

/-- A `catalog.Catalog`: `c.Resources()`, in message order. -/
structure Catalog where
  resources : List Resource
  deriving DecidableEq, Repr, Inhabited

/-- The ids of a list of resources. -/
def ids (rs : List Resource) : List UInt64 := rs.map Resource.id

/-- `strconv.FormatUint(n, 10)`. -/
def formatUint (n : UInt64) : Bytes := ascii (toString n.toNat)

example : formatUint 42 = ascii "42" := by decide

end Mcm
