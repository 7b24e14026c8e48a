/-
  Mcm/Shlib/Script.lean --- `shlib.WriteScript`: a catalog to a bash script.

  THE CODE.  `WriteScript` builds the dependency graph, writes a header that
  opens a function `_`, and then, while no write has failed and the graph is
  not done, takes a copy of the ready ids and for each one writes the
  resource's block (`gen.resource`) and marks it.  It closes the function,
  calls it, and returns the first write error, if any.  Every write goes
  through `errWriter`, which drops everything after the first failure.

  THE MODEL.  A writer is the answer it gives to each `Write`, as a function of
  what it has accepted so far, so that every deterministic `io.Writer` is one.
  `gen.resource` never looks at the result of a write, so the chunks it writes
  are a function of the resource and of the indentation: `resourcePlan` lists
  them, together with the error it returns.  The loop of `WriteScript` runs at
  most once per resource and once more to see the graph done; `loop` is given
  that many rounds, and `Mcm.Shlib.WriteOrder` proves they are always enough.

  The `Ready()` used by the loop is a parameter `rd`: the results hold for every
  implementation that meets the contract of spec section 4.1.
-/
import Mcm.Shlib.Quote
import Mcm.Base64
import Mcm.Depgraph

set_option autoImplicit false

namespace Mcm.Shlib

open Mcm.Depgraph

/-! ## Writers -/

/-- An `io.Writer`: given the chunks it accepted so far and the next one,
`none` accepts the chunk whole and `some e` fails with error text `e`. -/
abbrev Writer := List Bytes → Bytes → Option Bytes

/-- `errWriter`: the chunks the underlying writer accepted, and its first
error. -/
structure ErrWriter where
  sent : List Bytes
  err : Option Bytes
  deriving DecidableEq, Repr

namespace ErrWriter

/-- `ew.Write(p)`, and `ew.WriteString(s)`: nothing reaches the writer after
the first error. -/
def write (w : Writer) (ew : ErrWriter) (p : Bytes) : ErrWriter :=
  match ew.err with
  | some _ => ew
  | none =>
    match w ew.sent p with
    | none => { ew with sent := ew.sent ++ [p] }
    | some e => { ew with err := some e }

/-- Several writes in order. -/
def writeAll (w : Writer) (ew : ErrWriter) (ps : List Bytes) : ErrWriter := ps.foldl (write w) ew

variable {w : Writer} {ew : ErrWriter}

theorem write_err_none {p : Bytes} (h : (ew.write w p).err = none) :
    ew.err = none ∧ (ew.write w p).sent = ew.sent ++ [p] := by
  unfold write at h ⊢
  cases he : ew.err with
  | some e => simp [he] at h
  | none =>
    simp only [he] at h ⊢
    cases hw : w ew.sent p <;> simp_all

/-- A run of writes that ends without an error started without one and sent
every chunk. -/
theorem writeAll_err_none {ps : List Bytes} : ∀ {ew : ErrWriter},
    (ew.writeAll w ps).err = none → ew.err = none ∧ (ew.writeAll w ps).sent = ew.sent ++ ps := by
  induction ps with
  | nil => exact fun h => ⟨h, by simp [writeAll]⟩
  | cons p ps ih =>
    intro ew h
    obtain ⟨h1, h2⟩ := ih h
    obtain ⟨h3, h4⟩ := write_err_none h1
    exact ⟨h3, by rw [writeAll, List.foldl_cons, ← writeAll, h2, h4, List.append_assoc]; rfl⟩

end ErrWriter

/-! ## `gen` -/

/-- An argument of `gen.p`. -/
inductive Arg where
  /-- a `string`: quoted -/
  | str (s : Bytes)
  /-- a `script`: copied as it is -/
  | script (s : Bytes)
  /-- a `uint64`: in decimal -/
  | u64 (n : UInt64)
  deriving DecidableEq, Repr

/-- How `gen.p` writes one argument. -/
def Arg.render : Arg → Bytes
  | .str s => shellQuote s
  | .script s => s
  | .u64 n => formatUint n

/-- The one chunk `g.p(args...)` writes: a newline for no arguments, else two
spaces per indentation level, the arguments, and a newline. -/
def line (indent : Nat) (args : List Arg) : Bytes :=
  if args = [] then [lf]
  else (List.replicate indent (ascii "  ")).flatten ++ (args.map Arg.render).flatten ++ [lf]

/-- Why `gen.resource` fails. -/
inductive ResourceError where
  | readPath (e : Bytes)
  | emptyPath
  | unsupported (which : FileWhich)
  deriving DecidableEq, Repr

/-- The error's text. -/
def ResourceError.text : ResourceError → Bytes
  | .readPath e => ascii "reading file path: " ++ e
  | .emptyPath => ascii "file path is empty"
  | .unsupported w => ascii "unsupported file directive " ++ w.text

/-- The comment line of a resource's block: the comment as it is, or the id. -/
def commentLine (indent : Nat) (r : Resource) : Bytes :=
  if r.comment ≠ [] then line indent [.script (ascii "# "), .script r.comment]
  else line indent [.script (ascii "# Resource ID="), .u64 r.id]

/-- The chunks `gen.resource(r)` writes at indentation `indent`, and the error
it returns.  It reads `r.File()` whatever `r.Which()` is. -/
def resourcePlan (indent : Nat) (r : Resource) : List Bytes × Option ResourceError :=
  let head := [line indent [], commentLine indent r]
  match r.file.path with
  | .error e => (head, some (.readPath e))
  | .ok path =>
    if path = [] then (head, some .emptyPath)
    else
      match r.file.which with
      | .plain =>
        (head ++ match r.file.content with
          | some b =>
            line indent [.script (ascii "base64 -d > "), .str path, .script (ascii " <<!EOF!")] ::
              (Base64.encoderChunks b ++ [ascii "\n!EOF!\n"])
          | none => [], none)
      | .directory =>
        (head ++ [line indent [.script (ascii "if [[ ! -d "), .str path, .script (ascii " ]]; then")],
          line (indent + 1) [.script (ascii "mkdir "), .str path],
          line indent [.script (ascii "fi")]], none)
      | w => (head, some (.unsupported w))

/-- `gen`: the error writer and the indentation. -/
structure Gen where
  ew : ErrWriter
  indent : Nat
  deriving DecidableEq, Repr

namespace Gen

/-- `g.p(args...)`. -/
def p (w : Writer) (g : Gen) (args : List Arg) : Gen := { g with ew := g.ew.write w (line g.indent args) }

/-- `g.resource(r)`. -/
def resource (w : Writer) (g : Gen) (r : Resource) : Gen × Option ResourceError :=
  ({ g with ew := g.ew.writeAll w (resourcePlan g.indent r).1 }, (resourcePlan g.indent r).2)

end Gen

/-! ## `WriteScript` -/

/-- Why `WriteScript` fails. -/
inductive ScriptError where
  /-- `depgraph.New` rejected the catalog -/
  | graph (e : Depgraph.Error)
  /-- `errors.New("graph not done, but has nothing to do")` -/
  | stuck
  /-- `fmt.Errorf("resource ID=%d: %v", id, err)` -/
  | resource (id : UInt64) (e : ResourceError)
  /-- the writer's error, returned as `g.ew.err` -/
  | write (e : Bytes)
  deriving DecidableEq, Repr

/-- The error's text, where the source gives one. -/
def ScriptError.text : ScriptError → Option Bytes
  | .graph _ => none
  | .stuck => some (ascii "graph not done, but has nothing to do")
  | .resource id e => some (ascii "resource ID=" ++ formatUint id ++ ascii ": " ++ e.text)
  | .write e => some e

/-- The inner loop over one ready snapshot: each id's block, then `Mark(id)`.
It returns early with the first error of `gen.resource`. -/
def batch (w : Writer) : List UInt64 → Graph → Gen → Gen × Except ScriptError Graph
  | [], g, gen => (gen, .ok g)
  | id :: rest, g, gen =>
    let res := gen.resource w ((g.resource id).getD default)
    match res.2 with
    | some e => (res.1, .error (.resource id e))
    | none => batch w rest (g.mark id) res.1

/-- The outer loop, given `n` rounds.  `none`: still running after them. -/
def loop (rd : Graph → List UInt64) (w : Writer) : Nat → Graph → Gen → Option (Gen × Option ScriptError)
  | 0, _, _ => none
  | n + 1, g, gen =>
    if gen.ew.err.isSome ∨ g.done then some (gen, none)
    else
      let ready := rd g
      if ready = [] then some (gen, some .stuck)
      else
        match batch w ready g gen with
        | (gen', .error e) => some (gen', some e)
        | (gen', .ok g') => loop rd w n g' gen'

/-- What a run of `WriteScript` leaves: the chunks the writer accepted, and the
error it returns. -/
structure Outcome where
  written : List Bytes
  err : Option ScriptError
  deriving DecidableEq, Repr

/-- The header: `#!/bin/bash`, `_() {`, and `set -e` one level in. -/
def header : List Bytes :=
  [line 0 [.script (ascii "#!/bin/bash")], line 0 [.script (ascii "_() \x7b")],
    line 1 [.script (ascii "set -e")]]

/-- The footer: `}` and the call of `_`. -/
def footer : List Bytes :=
  [line 0 [.script (ascii "\x7d")], line 0 [.script (ascii "_ \"$0\" \"$@\"")]]

/-- The generator after the header: the function `_` is open, one level in. -/
def Gen.start (w : Writer) : Gen :=
  let g1 := (⟨⟨[], none⟩, 0⟩ : Gen).p w [.script (ascii "#!/bin/bash")]
  let g2 := g1.p w [.script (ascii "_() \x7b")]
  { g2 with indent := g2.indent + 1 }.p w [.script (ascii "set -e")]

/-- After the loop: one level out, close the function and call it. -/
def Gen.finish (w : Writer) (g : Gen) : Gen :=
  let g' := { g with indent := g.indent - 1 }
  (g'.p w [.script (ascii "\x7d")]).p w [.script (ascii "_ \"$0\" \"$@\"")]

theorem Gen.start_ew (w : Writer) : (Gen.start w).ew = ErrWriter.writeAll w ⟨[], none⟩ header := rfl

theorem Gen.start_indent (w : Writer) : (Gen.start w).indent = 1 := rfl

theorem Gen.finish_ew (w : Writer) {g : Gen} (h : g.indent = 1) :
    (g.finish w).ew = g.ew.writeAll w footer := by
  obtain ⟨ew, i⟩ := g
  subst h
  rfl

/-- The block of a resource inside the function. -/
def block (r : Resource) : List Bytes := (resourcePlan 1 r).1

/-- `WriteScript(w, c)`; `none` only if the loop ran past its rounds. -/
def writeScript (rd : Graph → List UInt64) (w : Writer) (c : Catalog) : Option Outcome :=
  match Depgraph.new c.resources with
  | .error e => some ⟨[], some (.graph e)⟩
  | .ok graph =>
    match loop rd w (c.resources.length + 1) graph (Gen.start w) with
    | none => none
    | some (g, some e) => some ⟨g.ew.sent, some e⟩
    | some (g, none) => some ⟨(g.finish w).ew.sent, (g.finish w).ew.err.map .write⟩

end Mcm.Shlib
