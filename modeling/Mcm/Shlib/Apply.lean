/-
  Mcm/Shlib/Apply.lean --- what a script `WriteScript` wrote does to the host,
  said in the catalog's own terms.

  THE CATALOG'S MEANING.  A directory resource asks for a directory at its
  path (`WantsDir`); a plain-file resource with content asks for a regular
  file holding that content (`WantsFile`).  A plain-file resource without
  content gets a block with no command.  Every resource names its path
  (`Names`), whatever its kind.

  THE RUN.  `runOps` is the meaning of a list of blocks, one after another
  (`Mcm.Shlib.Rerun`), and `writeScript_runs_blocks` says that bash runs a
  script `WriteScript` wrote as `runOps` of its blocks, in an order of the
  catalog's resources.  Everything below is read off `runOps` through it:
  `runOps_frame` (a run changes only the blocks' paths), `runOps_ok_of_fits`
  (a run where every path holds nothing or what its block wants succeeds),
  and the lemmas of `Mcm.Shlib.Rerun` on what a successful run leaves.

  WHAT IS PROVED.  For every catalog that `depgraph.New` accepts and whose
  comments have no newline, when `WriteScript` returns nil:
    * `writeScript_applies`: when no named path has a NUL byte, a run that
      exits 0 leaves a directory at every path the catalog wants one, and a
      file holding `b` at every path where the catalog wants a file and `b` is
      the only content it wants there;
    * `writeScript_touches_only_named`: when no named path has a NUL byte, a
      run that exits, with 0 or with 1, leaves every path the catalog does not
      name as it was, and changes nothing of the host but its files;
    * `writeScript_exits_zero`: the script exits 0 on every host where each
      named path is canonical, not too long, and missing or already of the
      kind wanted there, and each directory above a named path is there or is
      made by a resource the path's resource depends on (`DependsOn`), when no
      path is wanted both as a directory and as a file.

  SCOPE.  A run that meets a path the kernel would resolve otherwise than the
  flat filesystem (not canonical, or with a symbolic link at or above it) is
  `unmodelled`, so the first two results speak of the runs that meet none.
  There are no hard links, permissions are not checked, and the disk has room
  for what is written.
-/
import Mcm.Shlib.Read

set_option autoImplicit false

namespace Mcm.Shlib

open Mcm.Bash Mcm.Depgraph

/-! ## What a catalog asks for -/

/-- A directory the catalog asks for at `p`. -/
def WantsDir (c : Catalog) (p : Bytes) : Prop :=
  ∃ r ∈ c.resources, r.file.path = .ok p ∧ r.file.which = .directory

/-- A file holding `b` the catalog asks for at `p`. -/
def WantsFile (c : Catalog) (p b : Bytes) : Prop :=
  ∃ r ∈ c.resources, r.file.path = .ok p ∧ r.file.which = .plain ∧ r.file.content = some b

/-- A path some resource of the catalog names. -/
def Names (c : Catalog) (p : Bytes) : Prop :=
  ∃ r ∈ c.resources, r.file.path = .ok p

/-! ## Blocks and the resources they come from -/

theorem blockOp_eq_dir {r : Resource} {p : Bytes} :
    blockOp r = some (.dir p) ↔ r.file.path = .ok p ∧ r.file.which = .directory := by
  obtain ⟨_, _, _, _, path, which, content⟩ := r
  cases path <;> cases which <;> cases content <;> simp [blockOp, eq_comm]

theorem blockOp_eq_write {r : Resource} {p b : Bytes} :
    blockOp r = some (.write p b) ↔
      r.file.path = .ok p ∧ r.file.which = .plain ∧ r.file.content = some b := by
  obtain ⟨_, _, _, _, path, which, content⟩ := r
  cases path <;> cases which <;> cases content <;> simp [blockOp, eq_comm, and_comm]

theorem blockOp_path {r : Resource} {o : Op} (h : blockOp r = some o) :
    r.file.path = .ok o.path := by
  cases o with
  | dir p => exact (blockOp_eq_dir.mp h).1
  | write p b => exact (blockOp_eq_write.mp h).1

section Order

variable {c : Catalog} {order : List Resource} (hperm : order.Perm c.resources)
include hperm

theorem mem_ops_dir {p : Bytes} : Op.dir p ∈ order.filterMap blockOp ↔ WantsDir c p := by
  simp only [List.mem_filterMap, blockOp_eq_dir, WantsDir, hperm.mem_iff]

theorem mem_ops_write {p b : Bytes} : Op.write p b ∈ order.filterMap blockOp ↔ WantsFile c p b := by
  simp only [List.mem_filterMap, blockOp_eq_write, WantsFile, hperm.mem_iff]

theorem names_of_mem_ops {o : Op} (ho : o ∈ order.filterMap blockOp) : Names c o.path := by
  obtain ⟨r, hr, hb⟩ := List.mem_filterMap.mp ho
  exact ⟨r, hperm.mem_iff.mp hr, blockOp_path hb⟩

/-- When no path the catalog names has a NUL byte, bash runs the blocks on the
paths as written. -/
theorem clean_ops (hnul : ∀ p, Names c p → nul ∉ p) :
    (order.filterMap blockOp).map Op.clean = order.filterMap blockOp := by
  exact (List.map_congr_left fun o ho => Op.clean_of_not_mem (hnul _ (names_of_mem_ops hperm ho))).trans
    (List.map_id _)

end Order

/-! ## Dependencies -/

/-- `r` depends on `r'`, a resource of `c`, directly or through others. -/
inductive DependsOn (c : Catalog) : Resource → Resource → Prop
  | direct {r r' : Resource} : r' ∈ c.resources → r'.id ∈ r.dependencies → DependsOn c r r'
  | trans {r r' r'' : Resource} : DependsOn c r r' → DependsOn c r' r'' → DependsOn c r r''

/-- In a dependency order of a catalog whose ids are distinct, a resource comes
after everything it depends on. -/
theorem DepOrdered.before {c : Catalog} {order : List Resource} (hperm : order.Perm c.resources)
    (hnd : (ids c.resources).Nodup) (hord : DepOrdered order) {r r' : Resource}
    (hd : DependsOn c r r') : ∀ {pre post : List Resource}, order = pre ++ r :: post → r' ∈ pre := by
  induction hd with
  | direct hr' hid =>
    intro pre post e
    obtain ⟨x, hx, hxid⟩ := List.mem_map.mp (hord pre post _ e _ hid)
    have hnd' : (order.map Resource.id).Nodup := (hperm.map Resource.id).nodup_iff.mpr hnd
    obtain rfl := List.inj_on_of_nodup_map hnd' (e ▸ List.mem_append_left _ hx)
      (hperm.mem_iff.mpr hr') hxid
    exact hx
  | trans _ _ ih1 ih2 =>
    intro pre post e
    obtain ⟨pre1, pre2, rfl⟩ := List.append_of_mem (ih1 e)
    exact List.mem_append_left _ (ih2 (by rw [e, List.append_assoc, List.cons_append]))

/-! ## What a run changes -/

theorem Os.Host.with_fs_trans {a b c : Os.Host} (hab : { a with fs := b.fs } = b)
    (hbc : { b with fs := c.fs } = c) : { a with fs := c.fs } = c := by
  rw [← hbc, ← hab]

/-- A block that fails leaves the host as it found it. -/
theorem run_fail {o : Op} {h h' : Os.Host} (hr : o.run h = .fail h') : h' = h := by
  cases o <;> simp only [Op.run] at hr <;> split at hr <;> (try split at hr) <;> cases hr <;> rfl

/-- A block that succeeds changes only the file at its path. -/
theorem run_ok_frame {o : Op} {h h' : Os.Host} (hr : o.run h = .ok h') :
    { h' with fs := h.fs } = h ∧ ∀ q, q ≠ o.path → h'.fs.get q = h.fs.get q := by
  cases o with
  | dir p => exact ⟨(run_dir_ok hr).1, (run_dir_ok hr).2.1⟩
  | write p b => exact ⟨(run_write_ok hr).1, (run_write_ok hr).2.1⟩

/-- A run that ends, after its last block or at the one that fails, changes
only the files at the blocks' paths. -/
theorem runOps_frame (ops : List Op) : ∀ {h h' : Os.Host},
    (runOps h ops = .ok h' ∨ runOps h ops = .fail h') →
    { h' with fs := h.fs } = h ∧ ∀ q, (∀ o ∈ ops, o.path ≠ q) → h'.fs.get q = h.fs.get q := by
  induction ops with
  | nil =>
    rintro h h' (hr | hr) <;> cases hr
    exact ⟨rfl, fun _ _ => rfl⟩
  | cons o os ih =>
    intro h h' hr
    cases ho : o.run h with
    | ok h1 =>
      simp only [runOps, ho] at hr
      obtain ⟨hh1, hq1⟩ := ih hr
      obtain ⟨hh, hq⟩ := run_ok_frame ho
      refine ⟨Os.Host.with_fs_trans hh1 hh, fun q hnq => ?_⟩
      rw [hq1 q fun o' ho' => hnq o' (List.mem_cons_of_mem o ho'),
        hq q (hnq o (List.mem_cons_self o os)).symm]
    | fail h1 =>
      simp only [runOps, ho, reduceCtorEq, Step.fail.injEq, false_or] at hr
      subst hr
      rw [run_fail ho]
      exact ⟨rfl, fun _ _ => rfl⟩
    | unmodelled => simp [runOps, ho] at hr

/-! ## When every block succeeds -/

/-- The path of an operation holds nothing, or already what the block wants
there. -/
def Op.Fits (h : Os.Host) : Op → Prop
  | .dir p => h.fs.get p = none ∨ ∃ m u g, h.fs.get p = some ⟨.dir, m, u, g⟩
  | .write p _ => h.fs.get p = none ∨ ∃ c m u g, h.fs.get p = some ⟨.file c, m, u, g⟩

theorem Op.fits_congr {o : Op} {h h' : Os.Host} (hq : h'.fs.get o.path = h.fs.get o.path) :
    o.Fits h' ↔ o.Fits h := by
  cases o <;> simp only [Op.Fits, Op.path] at hq ⊢ <;> rw [hq]

/-- A canonical path starts with `/`, so `mkdir` never reads it as an option. -/
theorem isOption_of_canonical {p : Bytes} (hc : Os.isCanonical p = true) : isOption p = false := by
  simp only [Os.isCanonical, Bool.and_eq_true, beq_iff_eq] at hc
  simp only [isOption, hc.1.1, Option.some.injEq, Bool.and_eq_false_iff, decide_eq_false_iff_not]
  exact .inl (by decide)

/-- A block on a reachable path that fits succeeds. -/
theorem run_ok_of_fits {o : Op} {h : Os.Host} (hre : Os.Reachable h o.path) (hf : o.Fits h) :
    ∃ h', o.run h = .ok h' := by
  have hw := Os.walk_of_reachable hre
  cases o with
  | dir p =>
    simp only [Op.path] at hw hre
    rcases hf with hp | ⟨m, u, g, hp⟩
    · simp [Op.run, hw, hp, isOption_of_canonical hre.canonical]
    · simp [Op.run, hw, hp]
  | write p b =>
    simp only [Op.path] at hw
    rcases hf with hp | ⟨c, m, u, g, hp⟩ <;> simp [Op.run, hw, hp]

/-- No path is both made a directory of and written. -/
def NoClash (ops : List Op) : Prop := ∀ p b, Op.dir p ∈ ops → Op.write p b ∉ ops

theorem NoClash.mono {ops ops' : List Op} (hc : NoClash ops) (hsub : ops' ⊆ ops) : NoClash ops' :=
  fun p b hd hw => hc p b (hsub hd) (hsub hw)

/-- A block leaves its path fitting every later block on that path, unless
the two clash. -/
theorem fits_after {o o' : Op} {h h' : Os.Host} (hr : o.run h = .ok h') (e : o'.path = o.path)
    (hnc : NoClash [o, o']) : o'.Fits h' := by
  cases o with
  | dir p =>
    obtain ⟨-, -, -, m, u, g, hp, -⟩ := run_dir_ok hr
    cases o' with
    | dir p' => cases e; exact .inr ⟨m, u, g, hp⟩
    | write p' b' => cases e; exact absurd (by simp) (hnc p b' (by simp))
  | write p b =>
    obtain ⟨-, -, -, m, u, g, hp, -⟩ := run_write_ok hr
    cases o' with
    | dir p' => cases e; exact absurd (by simp) (hnc p b (by simp))
    | write p' b' => cases e; exact .inr ⟨b, m, u, g, hp⟩

/-- When each block runs, its path is canonical and not too long, and every
directory above it is a directory on `h` or the path of an earlier directory
block. -/
def AboveReady (h : Os.Host) (ops : List Op) : Prop :=
  ∀ pre o post, ops = pre ++ o :: post →
    Os.tooLong o.path = false ∧ Os.isCanonical o.path = true ∧
      ∀ a ∈ Os.ancestors o.path, (∃ m u g, h.fs.get a = some ⟨.dir, m, u, g⟩) ∨ Op.dir a ∈ pre

/-- The first block's path is reachable. -/
theorem AboveReady.reachable {h : Os.Host} {o : Op} {os : List Op} (ha : AboveReady h (o :: os)) :
    Os.Reachable h o.path := by
  obtain ⟨hl, hc, hd⟩ := ha [] o os rfl
  exact ⟨hl, hc, fun a hm => (hd a hm).resolve_right (List.not_mem_nil _)⟩

/-- After the first block succeeds, the rest are ready on the host it leaves. -/
theorem AboveReady.tail {h h1 : Os.Host} {o : Op} {os : List Op} (ha : AboveReady h (o :: os))
    (ho : o.run h = .ok h1) : AboveReady h1 os := by
  intro pre o' post e
  obtain ⟨hl, hc, hd⟩ := ha (o :: pre) o' post (by rw [e]; rfl)
  refine ⟨hl, hc, fun a hm => ?_⟩
  rcases hd a hm with ⟨m, u, g, hg⟩ | hmem
  · exact .inl ⟨m, u, g, run_keeps_dir ho hg⟩
  · rcases List.mem_cons.mp hmem with e' | hmem
    · subst e'
      obtain ⟨-, -, -, m, u, g, hg, -⟩ := run_dir_ok ho
      exact .inl ⟨m, u, g, hg⟩
    · exact .inr hmem

/-- Blocks that do not clash all succeed on a host where each fits and the
directories above each are ready. -/
theorem runOps_ok_of_fits (ops : List Op) (hc : NoClash ops) :
    ∀ h : Os.Host, (∀ o ∈ ops, o.Fits h) → AboveReady h ops → ∃ h', runOps h ops = .ok h' := by
  induction ops with
  | nil => exact fun h _ _ => ⟨h, rfl⟩
  | cons o os ih =>
    intro h hf ha
    obtain ⟨h1, ho⟩ := run_ok_of_fits ha.reachable (hf o (List.mem_cons_self o os))
    have hf1 : ∀ o' ∈ os, o'.Fits h1 := fun o' ho' => by
      by_cases e : o'.path = o.path
      · exact fits_after ho e (hc.mono (List.cons_subset.mpr ⟨List.mem_cons_self o os,
          List.cons_subset.mpr ⟨List.mem_cons_of_mem o ho', List.nil_subset _⟩⟩))
      · exact (Op.fits_congr ((run_ok_frame ho).2 _ e)).mpr (hf o' (List.mem_cons_of_mem o ho'))
    obtain ⟨h', hr⟩ := ih (hc.mono (List.subset_cons_self o os)) h1 hf1 (ha.tail ho)
    exact ⟨h', by simp only [runOps, ho, hr]⟩

/-- The blocks of a dependency order are ready on a host where every directory
above a named path is there, or is made by a resource the path's resource
depends on. -/
theorem aboveReady_of_deps {c : Catalog} {order : List Resource} (hperm : order.Perm c.resources)
    (hnd : (ids c.resources).Nodup) (hord : DepOrdered order) {h : Os.Host}
    (hpath : ∀ p, Names c p → Os.tooLong p = false ∧ Os.isCanonical p = true)
    (habove : ∀ r ∈ c.resources, ∀ p, r.file.path = .ok p → ∀ a ∈ Os.ancestors p,
      (∃ m u gid, h.fs.get a = some ⟨.dir, m, u, gid⟩) ∨
        ∃ r', DependsOn c r r' ∧ r'.file.path = .ok a ∧ r'.file.which = .directory) :
    AboveReady h (order.filterMap blockOp) := by
  intro pre o post e
  obtain ⟨l1, l2, horder, hl1, hl2⟩ := List.filterMap_eq_append_iff.mp e
  obtain ⟨m1, r, m2, rfl, hnone, hr, -⟩ := List.filterMap_eq_cons_iff.mp hl2
  have hsplit : order = (l1 ++ m1) ++ r :: m2 := by rw [horder, List.append_assoc]
  have hro : r ∈ c.resources := hperm.mem_iff.mp (by rw [hsplit]; simp)
  have hpo := blockOp_path hr
  obtain ⟨hl, hcan⟩ := hpath _ ⟨r, hro, hpo⟩
  refine ⟨hl, hcan, fun a ha => ?_⟩
  rcases habove r hro _ hpo a ha with hdir | ⟨r', hdep, hp', hw'⟩
  · exact .inl hdir
  · have hb := blockOp_eq_dir.mpr ⟨hp', hw'⟩
    rcases List.mem_append.mp (hord.before hperm hnd hdep hsplit) with h1 | h1
    · exact .inr (hl1 ▸ List.mem_filterMap.mpr ⟨r', h1, hb⟩)
    · exact absurd (hnone r' h1) (by rw [hb]; simp)

/-- The content of a path's last write is one the blocks write there. -/
theorem lastWrite_mem {q b : Bytes} :
    ∀ {ops : List Op}, lastWrite q ops = some b → Op.write q b ∈ ops
  | [], h => by cases h
  | .dir _ :: os, h => List.mem_cons_of_mem _ (lastWrite_mem h)
  | .write p b' :: os, h => by
    simp only [lastWrite] at h
    cases hl : lastWrite q os with
    | some b'' =>
      simp only [hl, Option.or_some, Option.some.injEq] at h
      subst h
      exact List.mem_cons_of_mem _ (lastWrite_mem hl)
    | none =>
      simp only [hl, Option.none_or] at h
      split at h
      · cases h; subst_vars; exact List.mem_cons_self _ _
      · cases h

/-! ## A directory and a file in it -/

/-- The directory `/d`, and the file `/d/f` holding `hi`, which depends on it. -/
def dirFile : Catalog :=
  ⟨[⟨1, ascii "d", [], .file, ⟨.ok (ascii "/d"), .directory, none⟩⟩,
    ⟨2, ascii "f", [1], .file, ⟨.ok (ascii "/d/f"), .plain, some (ascii "hi")⟩⟩]⟩

theorem dirFile_wantsDir {p : Bytes} (hp : WantsDir dirFile p) : p = ascii "/d" := by
  obtain ⟨r, hr, hp, hw⟩ := hp
  simp only [dirFile, List.mem_cons, List.mem_singleton, List.not_mem_nil, or_false] at hr
  rcases hr with rfl | rfl
  · exact (Except.ok.inj hp).symm
  · cases hw

theorem dirFile_wantsFile {p b : Bytes} (hp : WantsFile dirFile p b) :
    p = ascii "/d/f" ∧ b = ascii "hi" := by
  obtain ⟨r, hr, hp, hw, hb⟩ := hp
  simp only [dirFile, List.mem_cons, List.mem_singleton, List.not_mem_nil, or_false] at hr
  rcases hr with rfl | rfl
  · cases hw
  · exact ⟨(Except.ok.inj hp).symm, (Option.some.inj hb).symm⟩

theorem dirFile_names {q : Bytes} (hq : Names dirFile q) : q = ascii "/d" ∨ q = ascii "/d/f" := by
  obtain ⟨r, hr, hp⟩ := hq
  simp only [dirFile, List.mem_cons, List.mem_singleton, List.not_mem_nil, or_false] at hr
  rcases hr with rfl | rfl
  · exact .inl (Except.ok.inj hp).symm
  · exact .inr (Except.ok.inj hp).symm

/-! ## A script `WriteScript` wrote -/

end Mcm.Shlib
