/-
  Mcm/Shlib/FailingWriter.lean --- `WriteScript` under a writer that fails.

  THE CODE.  Every write of `WriteScript` goes through `errWriter`, which passes
  nothing on after the writer's first error.  The loop tests `g.ew.err` only at
  the top of a round, so a failing write does not stop the batch it falls in.
  At the end `WriteScript` returns `g.ew.err`, unless the loop returned an error
  of its own first.  Nothing `gen` writes depends on what the writer answered.

  THE PROOF.  A run under any writer `w` is compared in lockstep with the run
  under `acceptAll`, the writer that takes every chunk.  At each point the
  first run's `errWriter` is the second run's chunks fed to `w` through a
  fresh `errWriter` (`Tracks`).  A block, a batch and a round of the loop keep
  this.  Once `w` has failed, the first run's generator no longer changes
  (`batch_of_err`), so it keeps tracking the second run while that one goes on
  (`loop_of_err`).

  WHAT IS PROVED.  `writeScript_failing_writer` quantifies over every catalog,
  every writer and every `Ready()` that meets its contract.  The writer is
  handed exactly the script that `acceptAll` is handed, cut at its first
  error.  A writer that never fails on that script gives the same outcome as
  `acceptAll`.  The error returned is the one of the run under `acceptAll` or
  the writer's first error, and it is the writer's first error whenever the
  run under `acceptAll` returns nil.
-/
import Mcm.Shlib.WriteOrder

set_option autoImplicit false

namespace Mcm.Shlib

open Mcm.Depgraph

/-- The writer that accepts every chunk: the run that nothing cuts short. -/
def acceptAll : Writer := fun _ _ => none

namespace ErrWriter

/-- A fresh `errWriter` after the chunks `ps` were written to it. -/
def feed (w : Writer) (ps : List Bytes) : ErrWriter := writeAll w ⟨[], none⟩ ps

theorem feed_append (w : Writer) (ps qs : List Bytes) :
    feed w (ps ++ qs) = (feed w ps).writeAll w qs := List.foldl_append _ _ _ _

/-- A writer that never fails is handed every chunk. -/
theorem writeAll_acceptAll (ps : List Bytes) : ∀ {ew : ErrWriter}, ew.err = none →
    ew.writeAll acceptAll ps = ⟨ew.sent ++ ps, none⟩ := by
  induction ps with
  | nil => intro ⟨s, e⟩ h; cases h; simp [writeAll]
  | cons p ps ih =>
    intro ⟨s, e⟩ h
    cases h
    rw [writeAll, List.foldl_cons, ← writeAll, ih rfl]
    simp [write, acceptAll]

/-- After its first error, `errWriter` passes nothing on. -/
theorem writeAll_of_err {w : Writer} {ew : ErrWriter} (h : ew.err.isSome) (ps : List Bytes) :
    ew.writeAll w ps = ew := by
  induction ps with
  | nil => rfl
  | cons p ps ih =>
    obtain ⟨e, he⟩ := Option.isSome_iff_exists.mp h
    rw [writeAll, List.foldl_cons, ← writeAll]
    simpa only [write, he] using ih

/-- A fresh `errWriter` that has met no error sent every chunk. -/
theorem feed_sent_of_err_none {w : Writer} {ps : List Bytes} (h : (feed w ps).err = none) :
    (feed w ps).sent = ps :=
  (writeAll_err_none h).2

end ErrWriter

open ErrWriter

/-- The run under `w` at generator `x` is the run under `acceptAll` at `y`, its
chunks fed to `w` through a fresh `errWriter`, at the same indentation. -/
structure Tracks (w : Writer) (x y : Gen) : Prop where
  ok : y.ew.err = none
  ew : x.ew = feed w y.ew.sent
  indent : x.indent = y.indent

namespace Tracks

variable {w : Writer} {x y : Gen}

theorem writeAll (h : Tracks w x y) (ps : List Bytes) :
    Tracks w { x with ew := x.ew.writeAll w ps } { y with ew := y.ew.writeAll acceptAll ps } :=
  ⟨by rw [writeAll_acceptAll ps h.ok], by rw [writeAll_acceptAll ps h.ok, feed_append, h.ew],
    h.indent⟩

theorem p (h : Tracks w x y) (args : List Arg) : Tracks w (x.p w args) (y.p acceptAll args) := by
  have hx : x.p w args = { x with ew := x.ew.writeAll w [line y.indent args] } := by
    rw [← h.indent]; rfl
  exact hx ▸ h.writeAll _

theorem resource (h : Tracks w x y) (r : Resource) :
    Tracks w (x.resource w r).1 (y.resource acceptAll r).1 ∧
      (x.resource w r).2 = (y.resource acceptAll r).2 := by
  have hx : x.resource w r =
      ({ x with ew := x.ew.writeAll w (resourcePlan y.indent r).1 }, (resourcePlan y.indent r).2) := by
    rw [← h.indent]; rfl
  exact hx ▸ ⟨h.writeAll _, rfl⟩

theorem finish (h : Tracks w x y) : Tracks w (x.finish w) (y.finish acceptAll) :=
  ((Tracks.mk h.ok h.ew (by rw [h.indent]) :
    Tracks w { x with indent := x.indent - 1 } { y with indent := y.indent - 1 }).p _).p _

end Tracks

theorem tracks_start (w : Writer) : Tracks w (Gen.start w) (Gen.start acceptAll) :=
  ⟨by rw [Gen.start_ew, writeAll_acceptAll _ rfl],
    by rw [Gen.start_ew, Gen.start_ew, writeAll_acceptAll _ rfl]; rfl, rfl⟩

section Lockstep

variable {w : Writer}

/-- A batch keeps the two runs in step, and both return the same thing. -/
theorem batch_tracks (ids : List UInt64) : ∀ (g : Graph) {x y : Gen}, Tracks w x y →
    Tracks w (batch w ids g x).1 (batch acceptAll ids g y).1 ∧
      (batch w ids g x).2 = (batch acceptAll ids g y).2 := by
  induction ids with
  | nil => exact fun _ _ _ h => ⟨h, rfl⟩
  | cons id rest ih =>
    intro g x y h
    obtain ⟨h1, h2⟩ := h.resource ((g.resource id).getD default)
    simp only [batch, h2]
    split
    · exact ⟨h1, rfl⟩
    · exact ih _ h1

theorem Gen.resource_of_err {x : Gen} (hx : x.ew.err.isSome) (r : Resource) :
    (x.resource w r).1 = x := by
  simp only [Gen.resource, writeAll_of_err hx]

/-- After the writer failed, a batch leaves the generator as it is. -/
theorem batch_of_err (ids : List UInt64) : ∀ (g : Graph) {x : Gen}, x.ew.err.isSome →
    (batch w ids g x).1 = x := by
  induction ids with
  | nil => exact fun _ _ _ => rfl
  | cons id rest ih =>
    intro g x hx
    simp only [batch]
    split
    · exact Gen.resource_of_err hx _
    · rw [Gen.resource_of_err hx]; exact ih _ hx

variable (rd : Graph → List UInt64)

/-- A run under `w` that has failed keeps tracking the other run to its end. -/
theorem loop_of_err (n : Nat) : ∀ (g : Graph) {x y y' : Gen} {e : Option ScriptError},
    Tracks w x y → x.ew.err.isSome → loop rd acceptAll n g y = some (y', e) → Tracks w x y' := by
  induction n with
  | zero => intro _ _ _ _ _ _ _ hl; cases hl
  | succ n ih =>
    intro g x y y' e h hx hl
    have hb := batch_tracks (rd g) g h
    rw [batch_of_err _ _ hx] at hb
    simp only [loop, h.ok, Option.isSome_none, Bool.false_eq_true, false_or] at hl
    split at hl
    · cases hl; exact h
    split at hl
    · cases hl; exact h
    split at hl <;> rename_i heq
    · cases hl; rw [heq] at hb; exact hb.1
    · rw [heq] at hb; exact ih _ hb.1 hx hl

/-- The two runs in lockstep: where the run under `acceptAll` stops, the run
under `w` has stopped too, with the same result, or earlier, on its writer's
error. -/
theorem loop_tracks (n : Nat) : ∀ (g : Graph) {x y y' : Gen} {e : Option ScriptError},
    Tracks w x y → loop rd acceptAll n g y = some (y', e) →
      ∃ x' e', loop rd w n g x = some (x', e') ∧ Tracks w x' y' ∧
        (e' = e ∨ e' = none ∧ x'.ew.err.isSome) := by
  induction n with
  | zero => intro _ _ _ _ _ _ hl; cases hl
  | succ n ih =>
    intro g x y y' e h hl
    cases hx : x.ew.err.isSome with
    | true =>
      exact ⟨x, none, by simp only [loop, hx, true_or, if_true], loop_of_err rd _ g h hx hl,
        .inr ⟨rfl, hx⟩⟩
    | false =>
      obtain ⟨hb, hbe⟩ := batch_tracks (rd g) g h
      simp only [loop, h.ok, hx, Option.isSome_none, Bool.false_eq_true, false_or] at hl ⊢
      split at hl
      · cases hl; exact ⟨x, none, by rw [if_pos ‹_›], h, .inl rfl⟩
      rw [if_neg ‹_›]
      split at hl
      · cases hl; exact ⟨x, _, by rw [if_pos ‹_›], h, .inl rfl⟩
      rw [if_neg ‹_›]
      rcases hw : batch w (rd g) g x with ⟨x1, r1⟩
      split at hl <;> rename_i heq <;> rw [heq, hw] at hb hbe <;> dsimp only at hb hbe <;> subst hbe
      · cases hl; exact ⟨x1, _, rfl, hb, .inl rfl⟩
      · exact ih _ hb hl

theorem Gen.finish_of_err {x : Gen} (hx : x.ew.err.isSome) : (x.finish w).ew = x.ew := by
  show ErrWriter.writeAll w x.ew [_, _] = _
  exact writeAll_of_err hx _

end Lockstep

/-- For every catalog, every writer and every `Ready()` that meets its contract,
the writer is handed the script that `acceptAll` is handed, cut at its first
error.  If it does not fail on that script, the outcome is the same as under
`acceptAll`.  Otherwise `WriteScript` returns the writer's first error or the
error of the run under `acceptAll`, and it returns the writer's error whenever
that run returns nil. -/
theorem writeScript_failing_writer (rd : Graph → List UInt64) (hrd : ReadyContract rd)
    (w : Writer) (c : Catalog) :
    ∃ o₀ o, writeScript rd acceptAll c = some o₀ ∧ writeScript rd w c = some o ∧
      o.written = (feed w o₀.written).sent ∧
      ((feed w o₀.written).err = none → o = o₀) ∧
      (o₀.err = none → o.err = (feed w o₀.written).err.map .write) ∧
      (o.err = o₀.err ∨ o.err = (feed w o₀.written).err.map .write) := by
  cases hnew : Depgraph.new c.resources with
  | error e =>
    simp only [writeScript, hnew]
    exact ⟨_, _, rfl, rfl, rfl, (fun _ => rfl), (fun h => nomatch h), .inl rfl⟩
  | ok g =>
    obtain ⟨o₀, ho₀, -⟩ := writeScript_spec rd hrd acceptAll c g hnew
    simp only [writeScript, hnew] at ho₀ ⊢
    split at ho₀
    · cases ho₀
    · rename_i y' e hl
      obtain ⟨x', e', hlw, ht, he⟩ := loop_tracks rd _ g (tracks_start w) hl
      cases ho₀
      rw [hlw]
      rcases he with rfl | ⟨rfl, hx⟩
      · refine ⟨_, _, rfl, rfl, by rw [ht.ew], (fun hX => ?_), (fun h => nomatch h), .inl rfl⟩
        rw [ht.ew, feed_sent_of_err_none hX]
      · have hX : (x'.finish w).ew = feed w y'.ew.sent := (Gen.finish_of_err hx).trans ht.ew
        refine ⟨_, _, rfl, rfl, by rw [hX], (fun h => ?_), (fun h => nomatch h), .inr (by rw [hX])⟩
        rw [← ht.ew] at h
        rw [h] at hx
        cases hx
    · rename_i y' hl
      obtain ⟨x', e', hlw, ht, he⟩ := loop_tracks rd _ g (tracks_start w) hl
      obtain rfl : e' = none := he.elim id And.left
      cases ho₀
      rw [hlw]
      have hf := ht.finish
      refine ⟨_, _, rfl, rfl, by rw [hf.ew], (fun hX => ?_), (fun _ => by rw [hf.ew]),
        .inr (by rw [hf.ew])⟩
      rw [hf.ew, feed_sent_of_err_none hX, hX, hf.ok]

/-- A writer that takes four chunks and then fails. -/
def fullAfterFour : Writer := fun sent _ => if sent.length < 4 then none else some (ascii "disk full")

theorem writeScript_failing_writer_nestedDirs : ReadyContract Graph.ready ∧
    ∃ o₀ o, writeScript Graph.ready acceptAll nestedDirs = some o₀ ∧
      writeScript Graph.ready fullAfterFour nestedDirs = some o ∧
      o.written = (feed fullAfterFour o₀.written).sent ∧
      ((feed fullAfterFour o₀.written).err = none → o = o₀) ∧
      (o₀.err = none → o.err = (feed fullAfterFour o₀.written).err.map .write) ∧
      (o.err = o₀.err ∨ o.err = (feed fullAfterFour o₀.written).err.map .write) :=
  ⟨ready_contract, writeScript_failing_writer Graph.ready ready_contract fullAfterFour nestedDirs⟩

/-- The writer fails on the comment line of the first block: it keeps the header
and the blank line before it, and its error is what `WriteScript` returns. -/
example : writeScript Graph.ready fullAfterFour nestedDirs =
    some ⟨header ++ [line 1 []], some (.write (ascii "disk full"))⟩ := by decide

end Mcm.Shlib
