/-
# `Fsmon.Monitor.Handles` — which marked directories are resolvable

The resolver's only source of paths is the handle cache, so a directory that is
marked and not cached has all its events dropped.  Four operations mark
directories; for each, `Cached` is the condition under which everything it marks
is in the cache afterwards.

    start                 no root with recursive options is marked
    add_path              a root that gets another cmd was cached before
    on_new_subdirectory   always
    add_temp_parent_mark  the ancestor was cached before

The walks of `init_fanotify` are given the shared cache, which is set only later
in `spawn_tasks`: so they cache nothing, and the loop at the end caches the
non-recursive roots only.  Proved here: `marked_resolve_iff`.
-/
import Fsmon.Monitor.Walk
import Fsmon.Monitor.Frames
import Fsmon.Monitor.Init

namespace Fsmon

namespace Monitor

/-- The marks `m'` has on top of `k` are all resolvable. -/
def Covers (os : Os) (k : Kernel) (m' : Monitor) : Prop :=
  ∃ ops, m'.kernel.marks = k.marks ++ ops ∧
    ∀ d ∈ dirs_added ops, Resolves os m'.fanotify.dir_cache d.node.ino

theorem Covers.refl (os : Os) (m : Monitor) : Covers os m.kernel m :=
  ⟨[], by simp, fun d hd => by cases hd⟩

/-- Marks and handles stay as they are. -/
theorem Covers.of_same {os : Os} {k : Kernel} {m m' : Monitor} (h : Covers os k m)
    (hk : m'.kernel = m.kernel) (hc : m'.fanotify.dir_cache = m.fanotify.dir_cache) :
    Covers os k m' := by
  rw [Covers]
  rw [hk, hc]
  exact h

theorem Covers.newly {os : Os} {k : Kernel} {m' : Monitor} (h : Covers os k m') :
    ∀ d ∈ newly_marked k m'.kernel, Resolves os m'.fanotify.dir_cache d.node.ino := by
  obtain ⟨ops, hops, hall⟩ := h
  rw [newly_marked_eq hops]
  exact hall

/-! ## add_path -/

theorem kernel_setup_inotify_watches (os : Os) (m : Monitor) :
    (m.setup_inotify_watches os).kernel = m.kernel ∧
      (m.setup_inotify_watches os).fanotify = m.fanotify := by
  rw [setup_inotify_watches]
  split <;> exact ⟨rfl, rfl⟩

theorem kernel_queue_pending (os : Os) (m : Monitor) (path : PathBuf) (entry : PathEntry) :
    (m.queue_pending os path entry).kernel = m.kernel ∧
      (m.queue_pending os path entry).fanotify = m.fanotify := by
  rw [queue_pending]
  split
  · exact ⟨rfl, rfl⟩
  · exact kernel_setup_inotify_watches ..

/-- `register` caches a root that is not recursive. -/
theorem covers_register {os : Os} (hh : ∀ i, (os.handle i).isSome) {k : Kernel} {m : Monitor}
    (hshared : m.fanotify.shared_dir_cache = true) {path canonical : PathBuf} {opts : PathOptions}
    {key : Nat} {ops : List MarkOp} (hops : m.kernel.marks = k.marks ++ ops)
    (hall : ∀ d ∈ dirs_added ops, Resolves os m.fanotify.dir_cache d.node.ino ∨
      opts.recursive = false ∧ os.open_dir_safe canonical = some d) :
    Covers os k (m.register os path canonical opts key) := by
  refine ⟨ops, ?_, ?_⟩
  · rw [← hops]
    rw [register]
    simp only
    split <;> rfl
  · intro d hd
    rw [register]
    simp only
    split
    · -- the root is cached, which undoes nothing
      show Resolves os (cache_dir_handle os m.fanotify.dir_cache canonical) d.node.ino
      rcases hall d hd with h | ⟨_, hopen⟩
      · cases hl : os.fs.lstat canonical with
        | none => simpa [cache_dir_handle, hl] using h
        | some n => exact (resolves_cache_dir_handle hl).2 _ h
      · exact (resolves_cache_dir_handle (os.open_dir_safe_eq hopen).2.2).1 (hh _)
    · rename_i hroot
      rcases hall d hd with h | ⟨hrec, hopen⟩
      · exact h
      · exact absurd ⟨hrec, Os.is_dir_of_open hopen, hshared⟩ hroot

/-- The walk below a directory that has just been marked, given the cache. -/
theorem covers_walk {os : Os} (hh : ∀ i, (os.handle i).isSome) {k k₁ : Kernel} {op : MarkOp}
    {dir : DirFd} (hop : dirs_added [op] = [dir]) (hk : k₁.marks = k.marks ++ [op])
    {canonical : PathBuf} (hopen : os.open_dir_safe canonical = some dir) (cache : DirCache)
    (fan_fd : Nat) (mask : Mask) (max_depth : Option Nat) : ∃ ops,
    (mark_recursive_with_depth os k₁ cache fan_fd mask canonical max_depth true).kernel.marks =
        k.marks ++ ops ∧
      ∀ d ∈ dirs_added ops, Resolves os
        (mark_recursive_with_depth os k₁ cache fan_fd mask canonical max_depth true).dir_cache
        d.node.ino := by
  obtain ⟨ops, hops⟩ := mark_recursive_marks os k₁ cache fan_fd mask canonical max_depth true
  refine ⟨op :: ops, by rw [hops, hk, List.append_assoc]; rfl, fun d hd => ?_⟩
  rw [← List.singleton_append, dirs_added_append, hop, List.singleton_append, List.mem_cons] at hd
  rcases hd with rfl | hd
  · exact mark_recursive_root hh hopen
  · exact mark_recursive_seeds hh hops d hd

/-- A root that has just been marked, walked below if it is recursive, and registered. -/
theorem covers_root {os : Os} (hh : ∀ i, (os.handle i).isSome) {m m₂ : Monitor} {k : Kernel}
    (hshared : m.fanotify.shared_dir_cache = true) {path canonical : PathBuf} {opts : PathOptions}
    {key : Nat} (fan_fd : Nat) (mask : Mask) {dir : DirFd}
    (hopen : os.open_dir_safe canonical = some dir) {op : MarkOp} (hop : dirs_added [op] = [dir])
    (hk : k.marks = m.kernel.marks ++ [op])
    (hsame : ∀ m₁, m₁ = (if opts.recursive && os.is_dir canonical then
        ({ m with kernel := k }.mark_recursive os fan_fd mask canonical opts.max_depth).1
      else { m with kernel := k }) → m₂.kernel = m₁.kernel ∧
        m₂.fanotify.dir_cache = m₁.fanotify.dir_cache ∧
        m₂.fanotify.shared_dir_cache = m₁.fanotify.shared_dir_cache) :
    Covers os m.kernel (m₂.register os path canonical opts key) := by
  obtain ⟨hk₂, hc₂, hs₂⟩ := hsame _ rfl
  have hdir := Os.is_dir_of_open hopen
  cases hrec : opts.recursive with
  | false =>
      simp only [hrec, Bool.false_and, Bool.false_eq_true, if_false] at hk₂ hc₂ hs₂
      have hmarks : m₂.kernel.marks = m.kernel.marks ++ [op] := by rw [hk₂, hk]
      refine covers_register hh (hs₂.trans hshared) hmarks fun d hd => ?_
      rw [hop, List.mem_singleton] at hd
      exact Or.inr ⟨hrec, hd ▸ hopen⟩
  | true =>
      simp only [hrec, hdir, Bool.and_self, if_true, mark_recursive, hshared] at hk₂ hc₂
      simp only [hrec, hdir, Bool.and_self, if_true, mark_recursive] at hs₂
      obtain ⟨ops, hops, hall⟩ :=
        covers_walk hh hop hk hopen m.fanotify.dir_cache fan_fd mask opts.max_depth
      have hmarks : m₂.kernel.marks = m.kernel.marks ++ ops := by rw [hk₂, ← hops]
      refine covers_register hh (hs₂.trans hshared) hmarks fun d hd => ?_
      rw [hc₂]
      exact Or.inl (hall d hd)

/-- The directory `add_path` marks when the path is already monitored. -/
def recmd_dir [Sizefilter] (os : Os) (m : Monitor) (entry : PathEntry) : Option DirFd :=
  let path := os.canonical entry.path
  if path ∈ m.paths ∧ (PathOptions.try_from entry).toOption.isSome ∧ m.fanotify.factory = true then
    match (m.fanotify.path_to_group.lookup path).bind m.fanotify.groups.get with
    | none => none
    | some _ =>
        (os.open_dir_safe ((m.canonical_paths[m.paths.idxOf path]?).getD path)).filter fun d =>
          os.mark_ok d.node.ino
  else none

/-- The state has these marks on top of `k`. -/
def Marks (k : Kernel) (ds : List DirFd) (m' : Monitor) : Prop :=
  ∃ ops, m'.kernel.marks = k.marks ++ ops ∧ dirs_added ops = ds

theorem Marks.newly {k : Kernel} {ds : List DirFd} {m' : Monitor} (h : Marks k ds m') :
    newly_marked k m'.kernel = ds := by
  obtain ⟨ops, hops, rfl⟩ := h
  exact newly_marked_eq hops

theorem marks_mark_directory (os : Os) (k : Kernel) (fan_fd : Nat) (mask : Mask) (path : PathBuf) :
    ∃ ops, (k.mark_directory os fan_fd mask path).marks = k.marks ++ ops ∧
      dirs_added ops = ((os.open_dir_safe path).filter fun d => os.mark_ok d.node.ino).toList := by
  rw [Kernel.mark_directory]
  cases hopen : os.open_dir_safe path with
  | none => exact ⟨[], by simp, rfl⟩
  | some dir =>
      cases hok : os.mark_ok dir.node.ino with
      | false => exact ⟨[], by simp [Kernel.mark_directory_at, hok], by simp [hok]⟩
      | true =>
          exact ⟨[.add fan_fd dir (mask &&& ~~~FAN_FS_ERROR)],
            by simp [Kernel.mark_directory_at, Kernel.mark, Kernel.markable, hok], by simp [Option.filter, hok]⟩

/-- Another cmd on a path that is monitored: at most one mark, and no handle. -/
theorem marks_add_cmd [Sizefilter] (os : Os) (m : Monitor) (entry : PathEntry) {opts : PathOptions}
    (hpath : os.canonical entry.path ∈ m.paths) (hopts : PathOptions.try_from entry = .ok opts) :
    Marks m.kernel (recmd_dir os m entry).toList (m.add_cmd os (os.canonical entry.path) opts) ∧
      (m.add_cmd os (os.canonical entry.path) opts).fanotify.dir_cache = m.fanotify.dir_cache := by
  have hsome : (PathOptions.try_from entry).toOption.isSome = true := by rw [hopts]; rfl
  unfold add_cmd recmd_dir Marks
  simp only [hpath, hsome, true_and]
  cases hgroup : m.fanotify.path_to_group.lookup (os.canonical entry.path) with
  | none => exact ⟨⟨[], by simp [count_monitored], by simp⟩, rfl⟩
  | some gi =>
      simp only [Option.bind_some]
      cases hget : m.fanotify.groups.get gi with
      | none => exact ⟨⟨[], by simp [count_monitored], by simp⟩, rfl⟩
      | some group =>
          cases hfactory : m.fanotify.factory with
          | false => exact ⟨⟨[], by simp [count_monitored], by simp⟩, rfl⟩
          | true => exact ⟨marks_mark_directory .., rfl⟩

theorem marks_mark_directory_at {os : Os} {k k₁ : Kernel} {fan_fd : Nat} {dir : DirFd} {mask : Mask}
    (h : k.mark_directory_at os fan_fd dir mask = some k₁) :
    ∃ op, dirs_added [op] = [dir] ∧ k₁.marks = k.marks ++ [op] := by
  rw [Kernel.mark_directory_at] at h
  split at h
  · rename_i hok
    cases h
    exact ⟨.add fan_fd dir (mask &&& ~~~FAN_FS_ERROR), rfl, by simp [Kernel.mark, Kernel.markable, hok]⟩
  · cases h

theorem marks_create_group {os : Os} {k k₁ : Kernel} {fan_fd : Nat} {dir : DirFd} {mask : Mask}
    (h : k.create_group_and_mark os dir mask = some (fan_fd, k₁)) :
    ∃ op, dirs_added [op] = [dir] ∧ k₁.marks = k.marks ++ [op] := by
  rw [Kernel.create_group_and_mark] at h
  split at h
  · cases h
    exact ⟨_, rfl, rfl⟩
  · cases h

theorem kernel_spawn_fd_reader (os : Os) (m : Monitor) (key : Nat) :
    (m.spawn_fd_reader os key).kernel = m.kernel ∧
      (m.spawn_fd_reader os key).fanotify = m.fanotify := by
  rw [spawn_fd_reader]
  split <;> exact ⟨rfl, rfl⟩

theorem mark_on_group_cases (os : Os) (m : Monitor) (fan_fd : Nat) (canonical : PathBuf)
    (opts : PathOptions) :
    m.mark_on_group os fan_fd canonical opts = m ∨
      ∃ dir k, os.open_dir_safe canonical = some dir ∧
        m.kernel.mark_directory_at os fan_fd dir opts.path_mask_from_options = some k ∧
        m.mark_on_group os fan_fd canonical opts =
          if opts.recursive && os.is_dir canonical then
            ({ m with kernel := k }.mark_recursive os fan_fd opts.path_mask_from_options canonical
              opts.max_depth).1
          else { m with kernel := k } := by
  rw [mark_on_group]
  split
  · exact Or.inl rfl
  · rename_i dir hopen
    split
    · exact Or.inl rfl
    · rename_i k hk
      exact Or.inr ⟨dir, k, hopen, hk, rfl⟩

/-- A new root: everything that is marked is cached, by the walk or by `register`. -/
theorem covers_add_root {os : Os} (hh : ∀ i, (os.handle i).isSome) {m m' : Monitor}
    (hshared : m.fanotify.shared_dir_cache = true) {path : PathBuf} {opts : PathOptions}
    (h : m.add_root os path opts = .ok m') : Covers os m.kernel m' := by
  rw [add_root] at h
  simp only at h
  split at h
  · -- on the group of the file system
    rename_i key group _
    cases h
    rcases mark_on_group_cases os m group.fan_fd (os.canonical path) opts with
      hm | ⟨dir, k, hopen, hmark, hm⟩
    · rw [hm]
      refine covers_register hh ?_ (List.append_nil _).symm fun d hd => by cases hd
      exact hshared
    · obtain ⟨op, hop, hk⟩ := marks_mark_directory_at hmark
      refine covers_root hh hshared group.fan_fd opts.path_mask_from_options hopen hop hk ?_
      rintro m₁ rfl
      rw [hm]
      exact ⟨rfl, rfl, rfl⟩
  · split at h
    · cases h
    · rename_i dir hopen
      split at h
      · cases h
      · -- on a group of its own
        rename_i fan_fd k hcreate
        cases h
        obtain ⟨op, hop, hk⟩ := marks_create_group hcreate
        refine covers_root hh hshared fan_fd opts.path_mask_from_options hopen hop hk ?_
        rintro m₁ rfl
        rw [(kernel_spawn_fd_reader ..).1, (kernel_spawn_fd_reader ..).2]
        exact ⟨rfl, rfl, rfl⟩

/-- `add_path` on a path that is not monitored leaves nothing unresolvable. -/
theorem covers_add_path [Sizefilter] {os : Os} (hh : ∀ i, (os.handle i).isSome) {m m' : Monitor}
    (hshared : m.fanotify.shared_dir_cache = true) {entry : PathEntry}
    (hpath : os.canonical entry.path ∉ m.paths) (h : m.add_path os entry = .ok m') :
    Covers os m.kernel m' := by
  rw [add_path] at h
  simp only [hpath, if_false] at h
  split at h
  · cases h
  · split at h
    · cases h
      obtain ⟨hk, hf⟩ := kernel_queue_pending os m (os.canonical entry.path) entry
      exact (Covers.refl os m).of_same hk (by rw [hf])
    · split at h
      · cases h
      · split at h
        · cases h
        · split at h
          · cases h
          · exact covers_add_root hh hshared h

/-! ## on_new_subdirectory -/

/-- The new directory is cached before the walk, and the walk is given the cache. -/
theorem covers_on_new_subdirectory {os : Os} (hh : ∀ i, (os.handle i).isSome) (m : Monitor)
    (hshared : m.fanotify.shared_dir_cache = true) (path : PathBuf) :
    Covers os m.kernel (m.on_new_subdirectory os path).1 := by
  rcases on_new_subdirectory_cases os m path with h | ⟨key, group, dir, k, _, hopen, _, hmark, h⟩
  · rw [h]
    exact Covers.refl os m
  · rw [h]
    obtain ⟨op, hop, hk⟩ := marks_mark_directory_at hmark
    have hwalk := covers_walk hh hop hk hopen
    unfold enter_subdirectory mark_recursive
    simp only [hshared, if_true]
    exact hwalk _ _ _ _

/-! ## add_temp_parent_mark -/

/-- The ancestor `add_temp_parent_mark` marks. -/
def temp_dir [Sizefilter] (os : Os) (m : Monitor) (target : PathBuf) : Option DirFd :=
  match os.nearest_existing_ancestor target with
  | none => none
  | some parent =>
      if parent = target ∨ m.temp_mask target = 0 ∨ m.fanotify.factory = false then none
      else
        (os.open_dir_safe (os.canonical parent)).filter fun d =>
          match m.group_on (os.dev_id (os.canonical parent)) with
          | some _ => os.mark_ok d.node.ino
          | none => os.create_ok d.node.ino

/-- A temporary mark: at most one directory, and no handle. -/
theorem marks_add_temp_parent_mark [Sizefilter] (os : Os) (m : Monitor) (target : PathBuf) :
    Marks m.kernel (temp_dir os m target).toList (m.add_temp_parent_mark os target) ∧
      (m.add_temp_parent_mark os target).fanotify.dir_cache = m.fanotify.dir_cache := by
  have hnone : Marks m.kernel (none : Option DirFd).toList m ∧ m.fanotify.dir_cache = m.fanotify.dir_cache :=
    ⟨⟨[], by simp, rfl⟩, rfl⟩
  unfold add_temp_parent_mark temp_dir
  cases os.nearest_existing_ancestor target with
  | none => exact hnone
  | some parent =>
      simp only
      by_cases hguard : parent = target ∨ m.temp_mask target = 0 ∨ m.fanotify.factory = false
      · rw [if_pos hguard]
        rcases hguard with h | h | h <;> simpa only [h, if_true, ite_self] using hnone
      · rw [if_neg hguard]
        push Not at hguard
        obtain ⟨hself, hmask, hfactory⟩ := hguard
        rw [if_neg hself, if_neg hmask, if_neg hfactory]
        cases hopen : os.open_dir_safe (os.canonical parent) with
        | none => exact hnone
        | some dir =>
            cases hgroup : m.group_on (os.dev_id (os.canonical parent)) with
            | some r =>
                cases hok : os.mark_ok dir.node.ino with
                | false => simpa [Kernel.mark_directory_at, hok, Option.filter] using hnone
                | true =>
                    refine ⟨⟨[.add r.2.fan_fd dir (m.temp_mask target &&& ~~~FAN_FS_ERROR)], ?_, ?_⟩, ?_⟩
                      <;> simp [Kernel.mark_directory_at, Kernel.mark, Kernel.markable, hok, Option.filter]
            | none =>
                cases hok : os.create_ok dir.node.ino with
                | false => simpa [Kernel.create_group_and_mark, hok, Option.filter] using hnone
                | true =>
                    refine ⟨⟨[.add m.kernel.next_fd dir (m.temp_mask target &&& ~~~FAN_FS_ERROR)],
                      ?_, ?_⟩, ?_⟩
                      <;> simp [Kernel.create_group_and_mark, hok, Option.filter, kernel_spawn_fd_reader]

/-- Marks that come without handles. -/
theorem resolves_marks {os : Os} {m m' : Monitor} {d? : Option DirFd}
    (h : Marks m.kernel d?.toList m' ∧ m'.fanotify.dir_cache = m.fanotify.dir_cache) :
    (∀ d ∈ newly_marked m.kernel m'.kernel, Resolves os m'.fanotify.dir_cache d.node.ino) ↔
      ∀ d, d? = some d → Resolves os m.fanotify.dir_cache d.node.ino := by
  rw [h.1.newly, h.2]
  simp

/-! ## Calls -/

/-- The calls a run of the daemon is made of. -/
inductive Call where
  | add_path (entry : PathEntry)
  | remove_path (path : PathBuf) (cmd : Option String)
  | on_new_subdirectory (path : PathBuf)
  | add_temp_parent_mark (target : PathBuf)
  | remove_temp_parent_mark (target : PathBuf)
  | set_pending (pending : List (PathBuf × PathEntry))
  | setup_inotify_watches

/-- A call that fails leaves the state. -/
def attempt (m : Monitor) : Except Str Monitor → Monitor
  | .ok m' => m'
  | .error _ => m

section
variable [Sizefilter]

/-- The state after a call, with what the system answers during it. -/
def call (m : Monitor) : Os × Call → Monitor
  | (os, .add_path entry) => m.attempt (m.add_path os entry)
  | (os, .remove_path path cmd) => m.attempt (m.remove_path os path cmd)
  | (os, .on_new_subdirectory path) => (m.on_new_subdirectory os path).1
  | (os, .add_temp_parent_mark target) => m.add_temp_parent_mark os target
  | (os, .remove_temp_parent_mark target) => m.remove_temp_parent_mark os target
  | (_, .set_pending pending) => m.with_pending pending
  | (os, .setup_inotify_watches) => m.setup_inotify_watches os

/-- After a call that adds marks, each directory it marked is resolvable. -/
def MarkedResolve (m : Monitor) (c : Os × Call) : Prop :=
  match c.2 with
  | .add_path _ | .on_new_subdirectory _ | .add_temp_parent_mark _ =>
      ∀ d ∈ newly_marked m.kernel (m.call c).kernel,
        Resolves c.1 (m.call c).fanotify.dir_cache d.node.ino
  | _ => True

/-- What the call marks and does not cache was cached before. -/
def MarkedCached (m : Monitor) (c : Os × Call) : Prop :=
  match c.2 with
  | .add_path entry => ∀ d, recmd_dir c.1 m entry = some d → Resolves c.1 m.fanotify.dir_cache d.node.ino
  | .add_temp_parent_mark target =>
      ∀ d, temp_dir c.1 m target = some d → Resolves c.1 m.fanotify.dir_cache d.node.ino
  | _ => True

/-- `add_path`: only the branch for a path that is monitored marks without caching. -/
theorem marked_resolve_add_path {os : Os} (hh : ∀ i, (os.handle i).isSome) (m : Monitor)
    (hshared : m.fanotify.shared_dir_cache = true) (entry : PathEntry) :
    MarkedResolve m (os, .add_path entry) ↔ MarkedCached m (os, .add_path entry) := by
  show (∀ d ∈ newly_marked m.kernel (m.attempt (m.add_path os entry)).kernel,
      Resolves os (m.attempt (m.add_path os entry)).fanotify.dir_cache d.node.ino) ↔
    ∀ d, recmd_dir os m entry = some d → Resolves os m.fanotify.dir_cache d.node.ino
  by_cases hpath : os.canonical entry.path ∈ m.paths
  · cases hopts : PathOptions.try_from entry with
    | error e =>
        have hadd : m.add_path os entry = .error e := by simp [add_path, hpath, hopts]
        have hdir : recmd_dir os m entry = none := by simp [recmd_dir, hopts, Except.toOption]
        simp [hadd, hdir, attempt, newly_marked]
    | ok opts =>
        have hadd : m.add_path os entry = .ok (m.add_cmd os (os.canonical entry.path) opts) := by
          simp [add_path, hpath, hopts]
        rw [hadd]
        exact resolves_marks (marks_add_cmd os m entry hpath hopts)
  · have hdir : recmd_dir os m entry = none := by simp [recmd_dir, hpath]
    refine iff_of_true ?_ fun d hd => by rw [hdir] at hd; cases hd
    cases hadd : m.add_path os entry with
    | error e => exact (Covers.refl os m).newly
    | ok m' => exact (covers_add_path hh hshared hpath hadd).newly

theorem marked_resolve_call_iff {c : Os × Call} (hh : ∀ i, (c.1.handle i).isSome) (m : Monitor)
    (hshared : m.fanotify.shared_dir_cache = true) : MarkedResolve m c ↔ MarkedCached m c := by
  obtain ⟨os, c⟩ := c
  cases c with
  | add_path entry => exact marked_resolve_add_path hh m hshared entry
  | on_new_subdirectory path =>
      exact iff_of_true (covers_on_new_subdirectory hh m hshared path).newly trivial
  | add_temp_parent_mark target => exact resolves_marks (marks_add_temp_parent_mark os m target)
  | remove_path path cmd => exact Iff.rfl
  | remove_temp_parent_mark target => exact Iff.rfl
  | set_pending pending => exact Iff.rfl
  | setup_inotify_watches => exact Iff.rfl

/-- The shared cache stays set. -/
theorem shared_call (m : Monitor) (c : Os × Call) :
    (m.call c).fanotify.shared_dir_cache = m.fanotify.shared_dir_cache := by
  show (m.call c).plan.shared_dir_cache = m.plan.shared_dir_cache
  obtain ⟨os, c⟩ := c
  cases c with
  | add_path entry =>
      show (m.attempt (m.add_path os entry)).plan.shared_dir_cache = _
      cases hadd : m.add_path os entry with
      | error e => rfl
      | ok m' =>
          have hadded := add_path_plan hadd
          generalize hplan : m'.plan = p at hadded
          show m'.plan.shared_dir_cache = _
          rw [hplan]
          cases hadded <;> rfl
  | remove_path path cmd =>
      show (m.attempt (m.remove_path os path cmd)).plan.shared_dir_cache = _
      cases hremove : m.remove_path os path cmd with
      | error e => rfl
      | ok m' =>
          show m'.plan.shared_dir_cache = _
          rw [remove_path_plan hremove, Plan.remove]
          split <;> rfl
  | on_new_subdirectory path =>
      obtain ⟨ts, h⟩ := plan_on_new_subdirectory os m path
      simp only [call, h]
  | add_temp_parent_mark target => simp [call]
  | remove_temp_parent_mark target => simp [call]
  | set_pending pending => rfl
  | setup_inotify_watches => simp [call]

end

end Monitor

end Fsmon
