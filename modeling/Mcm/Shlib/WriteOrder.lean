/-
  Mcm/Shlib/WriteOrder.lean --- `WriteScript` on an accepted catalog: it stops, it
  is never stuck, and what it writes is one block per resource in dependency
  order.

  THE INVARIANT.  Between two rounds of the loop, with `emitted` the resources
  whose blocks have been written, in order (`LoopInv`):
    * the graph's marks are exactly the ids of `emitted`;
    * `emitted` is a list of distinct catalog resources;
    * every dependency of an emitted resource was emitted before it;
    * `gen.resource` returned no error for any of them;
    * if no write has failed, the writer has accepted the header and the
      blocks of `emitted`, and nothing else.
  `resource_step` is one block and one `Mark`; `batch_spec` is one ready
  snapshot; `loop_spec` is the whole loop, by induction on its rounds.

  TERMINATION.  A round writes at least one new resource, and `emitted` never
  outgrows the catalog, so `n + 1` rounds are enough for `n` resources.

  NEVER STUCK.  A round finds the ready list empty only when the graph is not
  done; `Depgraph.exists_ready_of_accepted` and the contract of `Ready()` rule
  that out for an accepted catalog.
-/
import Mcm.Shlib.Script
import Mathlib.Data.List.Nodup
import Mathlib.Data.List.Perm.Basic

set_option autoImplicit false

namespace Mcm.Shlib

open Mcm.Depgraph

/-! ## Dependency order -/

/-- Every dependency of a resource is the id of a resource listed before it. -/
def DepOrdered (l : List Resource) : Prop :=
  ∀ (pre post : List Resource) (r : Resource), l = pre ++ r :: post →
    ∀ d ∈ r.dependencies, d ∈ ids pre

theorem depOrdered_nil : DepOrdered [] := by
  intro pre post r h
  simp at h

/-- A resource whose dependencies are all listed may be appended. -/
theorem DepOrdered.snoc {l : List Resource} {r : Resource} (hl : DepOrdered l)
    (hr : ∀ d ∈ r.dependencies, d ∈ ids l) : DepOrdered (l ++ [r]) := by
  intro pre post x h
  rcases List.append_eq_append_iff.mp h with ⟨a', rfl, ha'⟩ | ⟨c', hl', hc'⟩
  · -- `x` is the appended resource
    rcases a' with _ | ⟨y, a'⟩
    · simp only [List.nil_append, List.cons.injEq] at ha'
      obtain ⟨rfl, -⟩ := ha'
      simpa using hr
    · simp only [List.cons_append, List.cons.injEq, List.append_eq_nil] at ha'
      simp at ha'
  · rcases c' with _ | ⟨y, c'⟩
    · simp only [List.nil_append, List.cons.injEq] at hc'
      obtain ⟨rfl, -⟩ := hc'
      simp only [List.append_nil] at hl'
      subst hl'
      exact hr
    · simp only [List.cons_append, List.cons.injEq] at hc'
      obtain ⟨rfl, -⟩ := hc'
      exact hl pre c' x hl'

/-! ## Lookups in a catalog with distinct ids -/

section Lookup

variable {nodes : List Resource} (hnd : (ids nodes).Nodup)
include hnd

theorem eq_of_id_eq {r r' : Resource} (hr : r ∈ nodes) (hr' : r' ∈ nodes) (h : r.id = r'.id) :
    r = r' :=
  List.inj_on_of_nodup_map hnd hr hr' h

theorem resource_of_mem {r : Resource} (hr : r ∈ nodes) (M : List UInt64) :
    Graph.resource ⟨nodes, M⟩ r.id = some r := by
  obtain ⟨x, hx, hxr⟩ : ∃ x, (nodes.find? (·.id == r.id)) = some x ∧ x.id = r.id := by
    cases hf : nodes.find? (·.id == r.id) with
    | none => exact absurd (List.find?_eq_none.mp hf r hr) (by simp)
    | some x => exact ⟨x, rfl, by simpa using List.find?_some hf⟩
  rw [Graph.resource, hx, eq_of_id_eq hnd (List.mem_of_find?_eq_some hx) hr hxr]

end Lookup

/-! ## The loop invariant -/

/-- The state between two rounds, `emitted` being the resources written so far. -/
structure LoopInv (nodes : List Resource) (g : Graph) (gen : Gen) (emitted : List Resource) :
    Prop where
  graph_eq : g = ⟨nodes, ids emitted⟩
  sub : ∀ r ∈ emitted, r ∈ nodes
  nodup : (ids emitted).Nodup
  ordered : DepOrdered emitted
  indent : gen.indent = 1
  planOk : ∀ r ∈ emitted, (resourcePlan 1 r).2 = none
  sent : gen.ew.err = none → gen.ew.sent = header ++ (emitted.map block).flatten

/-- An error `gen.resource` returns for one of `nodes`, as the loop wraps it. -/
def ResourceFailed (nodes : List Resource) (e : ScriptError) : Prop :=
  ∃ r ∈ nodes, ∃ re, e = .resource r.id re ∧ (resourcePlan 1 r).2 = some re

theorem ResourceFailed.ne_stuck {nodes : List Resource} {e : ScriptError}
    (h : ResourceFailed nodes e) : e ≠ .stuck := by
  obtain ⟨r, -, re, rfl, -⟩ := h
  simp

section Loop

variable {nodes : List Resource} (w : Writer)

theorem isReady_iff {M : List UInt64} {r : Resource} :
    Graph.isReady ⟨nodes, M⟩ r = true ↔ r.id ∉ M ∧ ∀ d ∈ r.dependencies, d ∈ M := by
  simp [Graph.isReady]

/-- One block and one `Mark`. -/
theorem resource_step {g : Graph} {gen : Gen} {emitted : List Resource} {r : Resource}
    (hinv : LoopInv nodes g gen emitted) (hr : r ∈ nodes) (hready : g.isReady r = true)
    (hok : (resourcePlan 1 r).2 = none) :
    LoopInv nodes (g.mark r.id) (gen.resource w r).1 (emitted ++ [r]) := by
  obtain ⟨rfl, hsub, hnd, hord, hind, hplan, hsent⟩ := hinv
  rw [isReady_iff] at hready
  refine ⟨by simp [Graph.mark, ids], ?_, ?_, hord.snoc hready.2, hind, ?_, ?_⟩
  · intro x hx
    rcases List.mem_append.mp hx with hx | hx
    · exact hsub x hx
    · rw [List.mem_singleton.mp hx]; exact hr
  · simp only [ids, List.map_append, List.map_cons, List.map_nil]
    exact hnd.append (List.nodup_singleton _) (List.disjoint_singleton.mpr hready.1)
  · intro x hx
    rcases List.mem_append.mp hx with hx | hx
    · exact hplan x hx
    · rw [List.mem_singleton.mp hx]; exact hok
  · intro herr
    obtain ⟨h0, h1⟩ := ErrWriter.writeAll_err_none herr
    simp only [Gen.resource, hind] at h1 ⊢
    rw [h1, hsent h0]
    simp [block]

/-- One ready snapshot: the loop returns early with a resource's error, or
marks the whole snapshot. -/
theorem batch_spec (hnd : (ids nodes).Nodup) (rs : List UInt64) : ∀ (g : Graph) (gen : Gen)
    (emitted : List Resource), LoopInv nodes g gen emitted → rs.Nodup →
    (∀ id ∈ rs, ∃ r ∈ nodes, r.id = id ∧ g.isReady r = true) →
    (∀ e, (batch w rs g gen).2 = .error e → ResourceFailed nodes e) ∧
    (∀ g', (batch w rs g gen).2 = .ok g' →
      ∃ bs : List Resource, bs.length = rs.length ∧
        LoopInv nodes g' (batch w rs g gen).1 (emitted ++ bs)) := by
  induction rs with
  | nil =>
    intro g gen emitted hinv _ _
    exact ⟨by simp [batch], fun g' h => ⟨[], rfl, by simp [batch] at h; subst h; simpa using hinv⟩⟩
  | cons id rest ih =>
    intro g gen emitted hinv hnodup hready
    obtain ⟨r, hr, rfl, hrdy⟩ := hready id (List.mem_cons_self _ _)
    have hlook : (g.resource r.id).getD default = r := by
      rw [hinv.graph_eq, resource_of_mem hnd hr]; rfl
    simp only [batch, hlook]
    split
    · rename_i e hfail
      refine ⟨fun e' h => ?_, fun g' h => by cases h⟩
      cases h
      exact ⟨r, hr, e, rfl, by simpa [Gen.resource, hinv.indent] using hfail⟩
    · rename_i hok
      have hinv' := resource_step w hinv hr hrdy (by simpa [Gen.resource, hinv.indent] using hok)
      have hrest : ∀ id' ∈ rest, ∃ r' ∈ nodes, r'.id = id' ∧ (g.mark r.id).isReady r' = true := by
        intro id' hid'
        obtain ⟨r', hr', rfl, hrdy'⟩ := hready id' (List.mem_cons_of_mem _ hid')
        refine ⟨r', hr', rfl, ?_⟩
        rw [hinv.graph_eq] at hrdy' ⊢
        rw [isReady_iff] at hrdy'
        simp only [Graph.mark, isReady_iff, List.mem_append, List.mem_singleton, not_or]
        exact ⟨⟨hrdy'.1, fun e => (List.nodup_cons.mp hnodup).1 (e ▸ hid')⟩,
          fun d hd => .inl (hrdy'.2 d hd)⟩
      obtain ⟨h1, h2⟩ := ih _ _ _ hinv' (List.nodup_cons.mp hnodup).2 hrest
      refine ⟨h1, fun g' h => ?_⟩
      obtain ⟨bs, hlen, hinv''⟩ := h2 g' h
      exact ⟨r :: bs, by simp [hlen], by simpa using hinv''⟩

theorem batch_indent (rs : List UInt64) : ∀ (g : Graph) (gen : Gen),
    (batch w rs g gen).1.indent = gen.indent := by
  induction rs with
  | nil => exact fun _ _ => rfl
  | cons id rest ih =>
    intro g gen
    simp only [batch]
    split
    · rfl
    · exact ih _ _

theorem length_le_of_sub {emitted : List Resource}
    (hsub : ∀ r ∈ emitted, r ∈ nodes) (he : (ids emitted).Nodup) :
    emitted.length ≤ nodes.length := by
  have := (List.subperm_of_subset he (fun x hx => by
    obtain ⟨r, hr, rfl⟩ := List.mem_map.mp hx
    exact List.mem_map_of_mem _ (hsub r hr))).length_le
  simpa [ids] using this

/-- The whole loop, given more rounds than resources left to write. -/
theorem loop_spec (rd : Graph → List UInt64) (hrd : ReadyContract rd) (ha : Accepted nodes) :
    ∀ (n : Nat) (g : Graph) (gen : Gen) (emitted : List Resource),
    LoopInv nodes g gen emitted → nodes.length < emitted.length + n →
    ∃ gen' err, loop rd w n g gen = some (gen', err) ∧
      (∀ e, err = some e → ResourceFailed nodes e) ∧ gen'.indent = 1 ∧
      (err = none → gen'.ew.err = none →
        ∃ emitted', LoopInv nodes ⟨nodes, ids emitted'⟩ gen' emitted' ∧
          ∀ r ∈ nodes, r ∈ emitted') := by
  intro n
  induction n with
  | zero =>
    intro g gen emitted hinv hlt
    exact absurd (length_le_of_sub hinv.sub hinv.nodup) (by omega)
  | succ n ih =>
    intro g gen emitted hinv hlt
    rw [loop]
    split
    · rename_i hexit
      refine ⟨gen, none, rfl, by simp, hinv.indent, fun _ herr => ⟨emitted, hinv.graph_eq ▸ hinv, ?_⟩⟩
      have hdone : g.done = true := by simpa [herr] using hexit
      rw [hinv.graph_eq] at hdone
      simp only [Graph.done, List.all_eq_true] at hdone
      intro r hr
      obtain ⟨r', hr', hid⟩ : ∃ r' ∈ emitted, r'.id = r.id := by simpa [ids] using hdone r hr
      rwa [← eq_of_id_eq ha.nodup (hinv.sub r' hr') hr hid]
    · rename_i hrun
      have hnotdone : Graph.done ⟨nodes, ids emitted⟩ = false := by
        rw [← hinv.graph_eq]; simpa using (not_or.mp hrun).2
      obtain ⟨rnd, hcontract⟩ := hrd g (hinv.graph_eq ▸ ha.nodup)
      dsimp only
      split
      · rename_i hempty
        obtain ⟨r, hr, hrdy⟩ := exists_ready_of_accepted ha _ hnotdone
        have : r.id ∈ rd g := (hcontract r.id).mpr
          ⟨r, by rw [hinv.graph_eq]; exact hr, rfl, by rw [hinv.graph_eq]; exact hrdy⟩
        rw [hempty] at this
        cases this
      · rename_i hne
        have hready : ∀ id ∈ rd g, ∃ r ∈ nodes, r.id = id ∧ g.isReady r = true := by
          intro id hid
          obtain ⟨r, hr, hrid, hrdy⟩ := (hcontract id).mp hid
          exact ⟨r, by rw [hinv.graph_eq] at hr; exact hr, hrid, hrdy⟩
        obtain ⟨herr, hok⟩ := batch_spec w ha.nodup (rd g) g gen emitted hinv rnd hready
        split
        · rename_i gen' e hb
          rw [hb] at herr
          have hind : gen'.indent = 1 := by
            have := batch_indent w (rd g) g gen
            rw [hb] at this
            exact this.trans hinv.indent
          exact ⟨gen', some e, rfl, fun e' h => by cases h; exact herr e rfl, hind, by simp⟩
        · rename_i gen' g' hb
          rw [hb] at hok
          obtain ⟨bs, hlen, hinv'⟩ := hok g' rfl
          have : 0 < (rd g).length := List.length_pos.mpr hne
          exact ih g' gen' (emitted ++ bs) hinv' (by simp; omega)

end Loop

/-! ## `WriteScript` -/

/-- `WriteScript` on an accepted catalog stops; the error it returns is the
writer's or `gen.resource`'s for one of the catalog's resources (so never
"stuck"); and when it returns nil the writer has accepted the header, one block
per resource in dependency order, each written without error, and the footer. -/
theorem writeScript_spec (rd : Graph → List UInt64) (hrd : ReadyContract rd) (w : Writer)
    (c : Catalog) (g : Graph) (hnew : Depgraph.new c.resources = .ok g) :
    ∃ o, writeScript rd w c = some o ∧
      (∀ e, o.err = some e → (∃ we, e = .write we) ∨ ResourceFailed c.resources e) ∧
      (o.err = none → ∃ order : List Resource, order.Perm c.resources ∧ DepOrdered order ∧
        (∀ r ∈ order, (resourcePlan 1 r).2 = none) ∧
        o.written = header ++ (order.map block).flatten ++ footer) := by
  obtain ⟨ha, rfl⟩ := accepted_of_new hnew
  have hinv0 : LoopInv c.resources ⟨c.resources, []⟩ (Gen.start w) [] :=
    ⟨rfl, by simp, by simp [ids], depOrdered_nil, Gen.start_indent w, by simp, fun h => by
      rw [Gen.start_ew] at h ⊢
      simpa using (@ErrWriter.writeAll_err_none w header ⟨[], none⟩ h).2⟩
  obtain ⟨gen', err, hloop, hfail, hind, hdone⟩ :=
    loop_spec w rd hrd ha (c.resources.length + 1) _ _ _ hinv0 (by simp)
  simp only [writeScript, hnew, hloop]
  cases err with
  | some e => exact ⟨_, rfl, fun e' h => by cases h; exact .inr (hfail e rfl), by simp⟩
  | none =>
    refine ⟨_, rfl, fun e h => ?_, fun hnil => ?_⟩
    · obtain ⟨we, -, rfl⟩ := Option.map_eq_some'.mp h
      exact .inl ⟨we, rfl⟩
    simp only [Option.map_eq_none', Gen.finish_ew w hind] at hnil ⊢
    have hfoot := @ErrWriter.writeAll_err_none w footer gen'.ew hnil
    obtain ⟨emitted, hinv, hall⟩ := hdone rfl hfoot.1
    refine ⟨emitted, ?_, hinv.ordered, hinv.planOk, by rw [hfoot.2, hinv.sent hfoot.1]⟩
    have hnde : emitted.Nodup := List.Nodup.of_map _ hinv.nodup
    have hndn : c.resources.Nodup := List.Nodup.of_map _ ha.nodup
    exact (List.perm_ext_iff_of_nodup hnde hndn).mpr fun r => ⟨hinv.sub r, hall r⟩

/-- For every catalog that `depgraph.New` accepts and every `Ready()` that meets
its contract, `WriteScript` stops, never with "graph not done, but has nothing
to do", and when it returns nil the writer has accepted exactly the header, one
block per resource of the catalog with each block after those of the
resource's dependencies, and the footer. -/
theorem writeScript_emits_in_dependency_order (rd : Graph → List UInt64)
    (hrd : ReadyContract rd) (w : Writer) (c : Catalog) (g : Graph)
    (hnew : Depgraph.new c.resources = .ok g) :
    ∃ o, writeScript rd w c = some o ∧ o.err ≠ some .stuck ∧
      (o.err = none → ∃ order : List Resource, order.Perm c.resources ∧ DepOrdered order ∧
        o.written = header ++ (order.map block).flatten ++ footer) := by
  obtain ⟨o, ho, herr, hok⟩ := writeScript_spec rd hrd w c g hnew
  refine ⟨o, ho, fun hs => ?_, fun hnil => ?_⟩
  · rcases herr _ hs with ⟨we, h⟩ | h
    · cases h
    · exact h.ne_stuck rfl
  obtain ⟨order, hperm, hord, -, hw⟩ := hok hnil
  exact ⟨order, hperm, hord, hw⟩

/-- Two directories, the second listed first and depending on the first. -/
def nestedDirs : Catalog :=
  ⟨[⟨2, ascii "inner", [1], .file, ⟨.ok (ascii "/d/e"), .directory, none⟩⟩,
    ⟨1, ascii "outer", [], .file, ⟨.ok (ascii "/d"), .directory, none⟩⟩]⟩

theorem writeScript_nestedDirs :
    ReadyContract Graph.ready ∧ Depgraph.new nestedDirs.resources = .ok ⟨nestedDirs.resources, []⟩ ∧
    ∃ o, writeScript Graph.ready (fun _ _ => none) nestedDirs = some o ∧ o.err ≠ some .stuck ∧
      (o.err = none → ∃ order : List Resource, order.Perm nestedDirs.resources ∧ DepOrdered order ∧
        o.written = header ++ (order.map block).flatten ++ footer) :=
  ⟨ready_contract, by decide, writeScript_emits_in_dependency_order Graph.ready ready_contract
    (fun _ _ => none) nestedDirs ⟨nestedDirs.resources, []⟩ (by decide)⟩

/-! ## Resources whose `r.File()` reads a null pointer -/

/-- `gen.resource` reads the path before it looks at the variant, so a null
`File` fails on the empty path, at any indentation. -/
theorem resourcePlan_null {r : Resource} (h : r.file = File.null) (indent : Nat) :
    (resourcePlan indent r).2 = some .emptyPath := by
  rw [resourcePlan, h]
  rfl

/-- For every catalog that `depgraph.New` accepts and every `Ready()` that
meets its contract, a resource whose `r.File()` reads a null pointer, as every
noop resource's does, makes `WriteScript` return an error: whatever else the
catalog holds, the run cannot end with nil. -/
theorem writeScript_null_file_fails (rd : Graph → List UInt64) (hrd : ReadyContract rd)
    (w : Writer) (c : Catalog) (g : Graph) (hnew : Depgraph.new c.resources = .ok g)
    {r : Resource} (hr : r ∈ c.resources) (hnull : r.file = File.null) :
    ∃ o, writeScript rd w c = some o ∧ o.err ≠ none := by
  obtain ⟨o, ho, -, hok⟩ := writeScript_spec rd hrd w c g hnew
  refine ⟨o, ho, fun hnil => ?_⟩
  obtain ⟨order, hperm, -, hplan, -⟩ := hok hnil
  have hfail := hplan r (hperm.mem_iff.mpr hr)
  rw [resourcePlan_null hnull] at hfail
  cases hfail

/-- One noop resource, as `mcm.resource("n", \x7b\x7d, mcm.noop)` leaves it
(with the id shortened to 1). -/
def oneNoop : Catalog := ⟨[⟨1, ascii "n", [], .noop, File.null⟩]⟩

theorem writeScript_oneNoop_fails :
    ReadyContract Graph.ready ∧ Depgraph.new oneNoop.resources = .ok ⟨oneNoop.resources, []⟩ ∧
    (∃ o, writeScript Graph.ready (fun _ _ => none) oneNoop = some o ∧ o.err ≠ none) ∧
    (writeScript Graph.ready (fun _ _ => none) oneNoop).map (fun o => o.err.bind ScriptError.text) =
      some (some (ascii "resource ID=1: file path is empty")) :=
  ⟨ready_contract, by decide, writeScript_null_file_fails Graph.ready ready_contract
    (fun _ _ => none) oneNoop ⟨oneNoop.resources, []⟩ (by decide) (List.mem_singleton_self _) rfl,
    by decide⟩

end Mcm.Shlib
