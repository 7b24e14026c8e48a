/-
  Mcm/Depgraph.lean --- the dependency graph over a catalog's resources.

  SOURCE.  The `depgraph` package is not among the source files; only its
  caller, `shlib.WriteScript`, is.  Everything in this file is modelled from
  the spec, section 3 (Invariants) and section 4.1 (Dependency graph), and each
  definition says so.  The graph used by the script generator marks a node
  done with `Mark(id)`, there being no failure outcome on that path.

  THE MODEL.  A graph is the catalog's resources together with the ids marked
  so far, in marking order.  A node is ready when it is not marked and all its
  dependencies are.  `new` rejects a duplicate id, a dependency naming no
  resource, and a cycle, the last by the construction-time walk of section
  4.1: mark every ready node, round after round, and fail if some node is
  never reached.

  WHAT IS PROVED.  `ready_contract`: `ready` lists each ready node once.
  `exists_ready_of_accepted`: for an accepted catalog, whatever set of ids has
  been marked, a graph that is not done has a ready node.  This is the fact
  that keeps the script generator from getting stuck.
-/
import Mcm.Catalog

set_option autoImplicit false

namespace Mcm.Depgraph

/-- Modelled from the spec: why `depgraph.New` rejects a catalog. -/
inductive Error where
  /-- two resources share an id -/
  | duplicate (id : UInt64)
  /-- resource `id` depends on `dep`, which is not in the catalog -/
  | missing (id dep : UInt64)
  /-- the ids the construction-time walk never reaches -/
  | cycle (ids : List UInt64)
  deriving DecidableEq, Repr

/-- Modelled from the spec: a dependency graph, as the resources of the
catalog and the ids marked done so far. -/
structure Graph where
  nodes : List Resource
  marked : List UInt64
  deriving DecidableEq, Repr

namespace Graph

/-- Not marked, and every dependency marked. -/
def isReady (g : Graph) (r : Resource) : Bool :=
  !g.marked.contains r.id && r.dependencies.all g.marked.contains

/-- Modelled from the spec: `Ready()`, the ready nodes, ties broken by
catalog order. -/
def ready (g : Graph) : List UInt64 := ids (g.nodes.filter g.isReady)

/-- Modelled from the spec: `Mark(id)` with outcome `ok`. -/
def mark (g : Graph) (id : UInt64) : Graph := { g with marked := g.marked ++ [id] }

/-- Modelled from the spec: `Done()`, every node marked. -/
def done (g : Graph) : Bool := g.nodes.all (fun r => g.marked.contains r.id)

/-- Modelled from the spec: `Resource(id)`. -/
def resource (g : Graph) (id : UInt64) : Option Resource := g.nodes.find? (·.id == id)

/-- One round of the construction-time walk: mark every ready node. -/
def settleStep (g : Graph) : Graph := { g with marked := g.marked ++ g.ready }

/-- `n` rounds of the walk. -/
def settle : Nat → Graph → Graph
  | 0, g => g
  | n + 1, g => settle n g.settleStep

/-- The nodes not marked yet; the script generator's loop makes it shrink. -/
def unmarked (g : Graph) : List Resource := g.nodes.filter (fun r => !g.marked.contains r.id)

end Graph

/-- The first id that occurs again later. -/
def firstDuplicate : List UInt64 → Option UInt64
  | [] => none
  | x :: xs => if xs.contains x then some x else firstDuplicate xs

/-- The first dependency that names no resource, with the resource that has it. -/
def firstMissing (rs : List Resource) : Option (UInt64 × UInt64) :=
  (rs.flatMap (fun r => r.dependencies.map (r.id, ·))).find? (fun p => !(ids rs).contains p.2)

/-- Modelled from the spec: `depgraph.New`.  A catalog of `n` resources
needs at most `n` rounds of the walk, since every round that marks nothing
leaves the graph as it is. -/
def new (rs : List Resource) : Except Error Graph :=
  match firstDuplicate (ids rs), firstMissing rs with
  | some id, _ => .error (.duplicate id)
  | none, some (id, d) => .error (.missing id d)
  | none, none =>
    let walk := Graph.settle rs.length ⟨rs, []⟩
    if walk.done then .ok ⟨rs, []⟩
    else .error (.cycle (ids (walk.unmarked)))

/-- What spec section 4.1 promises of `Ready()` on a graph with distinct ids:
every ready node, each once, in some order. -/
def ReadyContract (rd : Graph → List UInt64) : Prop :=
  ∀ g : Graph, (ids g.nodes).Nodup →
    (rd g).Nodup ∧ ∀ id, id ∈ rd g ↔ ∃ r ∈ g.nodes, r.id = id ∧ g.isReady r = true

/-! ## `Ready` -/

theorem ready_contract : ReadyContract Graph.ready := by
  intro g hnd
  refine ⟨?_, fun id => ?_⟩
  · exact hnd.sublist ((List.filter_sublist _).map _)
  · simp only [Graph.ready, ids, List.mem_map, List.mem_filter]
    constructor
    · rintro ⟨r, ⟨hr, hready⟩, rfl⟩
      exact ⟨r, hr, rfl, hready⟩
    · rintro ⟨r, hr, rfl, hready⟩
      exact ⟨r, ⟨hr, hready⟩, rfl⟩

/-! ## Accepted catalogs -/

theorem firstDuplicate_eq_none {l : List UInt64} (h : firstDuplicate l = none) : l.Nodup := by
  induction l with
  | nil => exact List.nodup_nil
  | cons x xs ih =>
    simp only [firstDuplicate] at h
    split at h
    · cases h
    · rename_i hx
      exact List.nodup_cons.mpr ⟨by simpa using hx, ih h⟩

theorem firstMissing_eq_none {rs : List Resource} (h : firstMissing rs = none) :
    ∀ r ∈ rs, ∀ d ∈ r.dependencies, d ∈ ids rs := by
  intro r hr d hd
  have := List.find?_eq_none.mp h (r.id, d) (List.mem_flatMap.mpr ⟨r, hr, List.mem_map_of_mem _ hd⟩)
  simpa using this

/-- What acceptance by `new` says about a catalog. -/
structure Accepted (rs : List Resource) : Prop where
  nodup : (ids rs).Nodup
  closed : ∀ r ∈ rs, ∀ d ∈ r.dependencies, d ∈ ids rs
  walk : (Graph.settle rs.length ⟨rs, []⟩).done = true

theorem accepted_of_new {rs : List Resource} {g : Graph} (h : new rs = .ok g) :
    Accepted rs ∧ g = ⟨rs, []⟩ := by
  unfold new at h
  split at h
  · cases h
  · cases h
  · rename_i hd hm
    dsimp only at h
    split at h
    · cases h
      exact ⟨⟨firstDuplicate_eq_none hd, firstMissing_eq_none hm, by assumption⟩, rfl⟩
    · cases h

/-! ## An accepted graph is never stuck -/

section Walk

variable (nodes : List Resource) (M : List UInt64)

/-- One round of the walk from marks inside `M` either stays inside `M` or
finds a node that is ready for the marks `M`. -/
theorem settleStep_inside (h : Graph) (hn : h.nodes = nodes) (hM : ∀ x ∈ h.marked, x ∈ M) :
    (∀ x ∈ h.settleStep.marked, x ∈ M) ∨
      ∃ r ∈ nodes, (Graph.isReady ⟨nodes, M⟩ r) = true := by
  by_cases hall : ∀ x ∈ h.ready, x ∈ M
  · left
    intro x hx
    simp only [Graph.settleStep, List.mem_append] at hx
    exact hx.elim (hM x) (hall x)
  · right
    push_neg at hall
    obtain ⟨x, hx, hxM⟩ := hall
    simp only [Graph.ready, ids, List.mem_map, List.mem_filter] at hx
    obtain ⟨r, ⟨hr, hready⟩, rfl⟩ := hx
    refine ⟨r, hn ▸ hr, ?_⟩
    simp only [Graph.isReady, Bool.and_eq_true, Bool.not_eq_true', List.all_eq_true] at hready ⊢
    refine ⟨by simpa using hxM, fun d hd => ?_⟩
    simpa using hM d (by simpa using hready.2 d hd)

theorem settle_inside (n : Nat) : ∀ h : Graph, h.nodes = nodes → (∀ x ∈ h.marked, x ∈ M) →
    (∀ x ∈ (Graph.settle n h).marked, x ∈ M) ∨
      ∃ r ∈ nodes, (Graph.isReady ⟨nodes, M⟩ r) = true := by
  induction n with
  | zero => exact fun h _ hM => .inl hM
  | succ n ih =>
    intro h hn hM
    rcases settleStep_inside nodes M h hn hM with hs | hr
    · exact ih h.settleStep hn hs
    · exact .inr hr

end Walk

theorem settle_nodes (n : Nat) : ∀ h : Graph, (Graph.settle n h).nodes = h.nodes := by
  induction n with
  | zero => exact fun _ => rfl
  | succ n ih => exact fun h => ih h.settleStep

/-- For an accepted catalog, whatever has been marked, a graph that is not
done has a ready node. -/
theorem exists_ready_of_accepted {rs : List Resource} (ha : Accepted rs) (M : List UInt64)
    (hnd : (Graph.done ⟨rs, M⟩) = false) : ∃ r ∈ rs, (Graph.isReady ⟨rs, M⟩ r) = true := by
  rcases settle_inside rs M rs.length ⟨rs, []⟩ rfl (by simp) with hin | hr
  · have hw := ha.walk
    simp only [Graph.done, List.all_eq_true, settle_nodes] at hw
    simp only [Graph.done, List.all_eq_false] at hnd
    obtain ⟨r, hr, hrM⟩ := hnd
    exact absurd (hin _ (by simpa using hw r hr)) (by simpa using hrM)
  · exact hr

end Mcm.Depgraph
