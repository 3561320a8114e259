/-
# `Fsmon.Monitor.Calls` — the daemon reaches marks and handles by single calls

The states of `Monitor` keep every handle that was ever cached.  Here what one step
of the daemon does to its marks and to its handles is taken apart into the calls of
`Fsmon.Monitor.Resolvable`, for which the cache has its clock and its bound.

    Reach        marks and handles after some calls
    step_reach   each step of a running daemon, by `Closed`
    init_reach   its start
    known_run    what the bounded cache answers is what was put into the other one
-/
import Fsmon.Monitor.Closed
import Fsmon.Monitor.Init
import Fsmon.Monitor.Handles
import Fsmon.Monitor.Resolvable

namespace Fsmon

/-- A call on the marks and on a cache that drops nothing. -/
def CacheCall.replay (s : Kernel × DirCache) (call : CacheCall) : Kernel × DirCache :=
  (kernel_after s.1 call,
    match call.inserts with
    | some (key, path, _) => s.2.insert key path
    | none => s.2)

/-- The daemon's own calls: it marks, unmarks and caches. -/
def CacheCall.ByDaemon : CacheCall → Prop
  | .create_group_and_mark .. | .mark .. | .unmark_directory_at .. => True
  | .cache_handle_from_fd .. | .cache_dir_handle .. => True
  | _ => False

/-- Marks and handles after some calls of the daemon. -/
def Reach (s s' : Kernel × DirCache) : Prop :=
  ∃ calls : List CacheCall, (∀ call ∈ calls, call.ByDaemon) ∧ Run.exec CacheCall.replay s calls = s'

namespace Reach

variable {os : Os} {k k' : Kernel} {c : DirCache} {fan_fd : Nat} {mask : Mask}

theorem refl (s : Kernel × DirCache) : Reach s s := ⟨[], fun _ hc => (by cases hc), rfl⟩

theorem trans {s s' s'' : Kernel × DirCache} (h : Reach s s') (h' : Reach s' s'') : Reach s s'' := by
  obtain ⟨calls, hcalls, rfl⟩ := h
  obtain ⟨calls', hcalls', rfl⟩ := h'
  exact ⟨calls ++ calls', fun c hc => (List.mem_append.1 hc).elim (hcalls c) (hcalls' c), Run.exec_append ..⟩

/-- One call. -/
theorem one {s s' : Kernel × DirCache} (call : CacheCall) (hcall : call.ByDaemon)
    (h : CacheCall.replay s call = s') : Reach s s' :=
  ⟨[call], fun _ hc => List.mem_singleton.1 hc ▸ hcall, h⟩

theorem mark (os : Os) (k : Kernel) (c : DirCache) (fan_fd : Nat) (dirs : List DirFd) (mask : Mask) :
    Reach (k, c) (k.mark os fan_fd dirs mask, c) := one (.mark os fan_fd dirs mask) trivial rfl

theorem mark_directory_at {dir : DirFd} (h : k.mark_directory_at os fan_fd dir mask = some k') :
    Reach (k, c) (k', c) := by
  rw [Kernel.mark_directory_at] at h
  split at h
  · cases h
    exact mark os k c fan_fd [dir] mask
  · cases h

theorem mark_directory (os : Os) (k : Kernel) (c : DirCache) (fan_fd : Nat) (mask : Mask) (path : PathBuf) :
    Reach (k, c) (k.mark_directory os fan_fd mask path, c) := by
  rw [Kernel.mark_directory]
  cases os.open_dir_safe path with
  | none => exact refl _
  | some dir =>
      simp only
      cases h : k.mark_directory_at os fan_fd dir mask with
      | none => exact refl _
      | some k' => exact mark_directory_at h

theorem create {dir : DirFd} (h : k.create_group_and_mark os dir mask = some (fan_fd, k')) :
    Reach (k, c) (k', c) := by
  refine one (.create_group_and_mark os dir mask) trivial ?_
  show (((k.create_group_and_mark os dir mask).map (·.2)).getD k, c) = _
  rw [h]
  rfl

theorem unmark (os : Os) (k : Kernel) (c : DirCache) (fan_fd : Nat) (dir : DirFd) :
    Reach (k, c) (k.unmark_directory_at os fan_fd dir, c) :=
  one (.unmark_directory_at os fan_fd dir) trivial rfl

theorem cache_handle_from_fd (os : Os) (k : Kernel) (c : DirCache) (dir : DirFd) (path : PathBuf) :
    Reach (k, c) (k, Fsmon.cache_handle_from_fd os c dir path) := by
  refine one (.cache_handle_from_fd os dir path (0, [])) trivial ?_
  rw [CacheCall.replay, CacheCall.inserts, Fsmon.cache_handle_from_fd]
  cases os.handle dir.node.ino with
  | none => rfl
  | some key => rfl

theorem cache_dir_handle (os : Os) (k : Kernel) (c : DirCache) (path : PathBuf) :
    Reach (k, c) (k, Fsmon.cache_dir_handle os c path) := by
  refine one (.cache_dir_handle os path (0, [])) trivial ?_
  rw [CacheCall.replay, CacheCall.inserts, Fsmon.cache_dir_handle]
  cases (os.fs.lstat path).bind fun n => os.handle n.ino with
  | none => rfl
  | some key => rfl

/-- The marking walk: a handle for each directory it opens, and the marks level by level. -/
theorem walk (os : Os) (k : Kernel) (c : DirCache) (fan_fd : Nat) (mask : Mask) (dir : PathBuf)
    (max_depth : Option Nat) (caching : Bool) :
    Reach (k, c)
      ((mark_recursive_with_depth os k c fan_fd mask dir max_depth caching).kernel,
        (mark_recursive_with_depth os k c fan_fd mask dir max_depth caching).dir_cache) := by
  let P : Walk → Prop := fun w => Reach (k, c) (w.kernel, w.dir_cache)
  have hflush : ∀ w : Walk, P w → P (w.flush_pending_marks os fan_fd (mask &&& ~~~FAN_FS_ERROR)) :=
    fun w hw => hw.trans (Reach.mark os w.kernel w.dir_cache fan_fd w.pending _)
  refine hflush _ (Walk.run_inv (P := P) ?_ _ _ (refl _))
  intro w current depth rest h _
  refine Walk.visit_inv (P := P) (fun _ _ _ h => h) hflush ?_ _ current depth h
  intro w current depth dir _ h
  have hseed : P (w.seed os caching current dir) := by
    rw [Walk.seed]
    split
    · exact h.trans (cache_handle_from_fd os w.kernel w.dir_cache dir current)
    · exact h
  rw [Walk.enter]
  split
  · exact hseed
  · exact Walk.collect_inv (P := P) hflush hseed

end Reach

namespace Monitor

/-- Marks and handles. -/
def names (m : Monitor) : Kernel × DirCache := (m.kernel, m.fanotify.dir_cache)

theorem reach_mark_recursive (os : Os) (m : Monitor) (fan_fd : Nat) (mask : Mask) (dir : PathBuf)
    (max_depth : Option Nat) : Reach m.names (m.mark_recursive os fan_fd mask dir max_depth).1.names :=
  Reach.walk os m.kernel m.fanotify.dir_cache fan_fd mask dir max_depth _

theorem names_spawn_fd_reader (os : Os) (m : Monitor) (key : Nat) : (m.spawn_fd_reader os key).names = m.names := by
  rw [spawn_fd_reader]
  split <;> rfl

theorem reach_mark_on_group (os : Os) (m : Monitor) (fan_fd : Nat) (canonical : PathBuf) (opts : PathOptions) :
    Reach m.names (m.mark_on_group os fan_fd canonical opts).names := by
  rcases mark_on_group_cases os m fan_fd canonical opts with h | ⟨dir, k, _, hmark, h⟩
  · rw [h]
    exact .refl _
  · rw [h]
    have hroot : Reach m.names (k, m.fanotify.dir_cache) := Reach.mark_directory_at hmark
    split
    · exact hroot.trans (reach_mark_recursive os { m with kernel := k } ..)
    · exact hroot

theorem reach_register {os : Os} {m : Monitor} {s : Kernel × DirCache} (h : Reach s m.names)
    (path canonical : PathBuf) (opts : PathOptions) (key : Nat) :
    Reach s (m.register os path canonical opts key).names := by
  rw [register]
  simp only
  split
  · exact h.trans (Reach.cache_dir_handle os m.kernel m.fanotify.dir_cache canonical)
  · exact h

theorem reach_add_root {os : Os} {m m' : Monitor} {path : PathBuf} {opts : PathOptions}
    (h : m.add_root os path opts = .ok m') : Reach m.names m'.names := by
  rw [add_root] at h
  simp only at h
  split at h
  · next key group _ =>
    cases h
    refine reach_register ?_ ..
    exact reach_mark_on_group os m group.fan_fd (os.canonical path) opts
  · split at h
    · cases h
    · next dir _ =>
      split at h
      · cases h
      · next fan_fd k hcreate =>
        cases h
        refine reach_register ?_ ..
        rw [names_spawn_fd_reader]
        have hroot : Reach m.names (k, m.fanotify.dir_cache) := Reach.create hcreate
        simp only [names]
        split
        · exact hroot.trans (reach_mark_recursive os { m with kernel := k } ..)
        · exact hroot

section
variable [Sizefilter]

omit [Sizefilter] in
theorem reach_add_cmd (os : Os) (m : Monitor) (path : PathBuf) (opts : PathOptions) :
    Reach m.names (m.add_cmd os path opts).names := by
  rw [add_cmd]
  simp only
  cases m.fanotify.path_to_group.lookup path with
  | none => exact .refl _
  | some gi =>
      simp only
      cases m.fanotify.groups.get gi with
      | none => exact .refl _
      | some group =>
          simp only
          split
          · exact Reach.mark_directory os m.kernel m.fanotify.dir_cache ..
          · exact .refl _

theorem reach_add_path {os : Os} {m m' : Monitor} {entry : PathEntry} (h : m.add_path os entry = .ok m') :
    Reach m.names m'.names := by
  rw [add_path] at h
  split at h
  · split at h
    · cases h
    · cases h
      exact reach_add_cmd ..
  · split at h
    · cases h
    · split at h
      · cases h
        obtain ⟨hk, hf⟩ := kernel_queue_pending os m (os.canonical entry.path) entry
        rw [names, names, hk, hf]
        exact .refl _
      · split at h
        · cases h
        · split at h
          · cases h
          · split at h
            · cases h
            · exact reach_add_root h

omit [Sizefilter] in
/-- The mark of a directory that can be opened is removed. -/
theorem reach_unmark (os : Os) (m : Monitor) (fan_fd : Nat) (canonical : PathBuf) :
    Reach m.names
      (match m.fanotify.factory, os.open_dir_safe canonical with
        | true, some dir => { m with kernel := m.kernel.unmark_directory_at os fan_fd dir }
        | _, _ => m).names := by
  split
  · next dir _ _ => exact Reach.unmark os m.kernel m.fanotify.dir_cache fan_fd dir
  · exact .refl _

omit [Sizefilter] in
theorem reach_remark_path (os : Os) (m : Monitor) (path : PathBuf) :
    Reach m.names (m.remark_path os path).names := by
  rw [remark_path]
  simp only
  cases m.fanotify.path_to_group.lookup path with
  | none => exact .refl _
  | some gi =>
      simp only
      cases m.fanotify.groups.get gi with
      | none => exact .refl _
      | some group =>
          simp only
          split
          · exact Reach.mark_directory os m.kernel m.fanotify.dir_cache ..
          · exact .refl _

omit [Sizefilter] in
theorem reach_forget_path (os : Os) (m : Monitor) (path : PathBuf) :
    Reach m.names (m.forget_path os path).names := by
  rw [forget_path]
  split
  · show Reach m.names (m.release_root os path (m.paths.idxOf path)).names
    rw [release_root]
    cases m.fanotify.path_to_group.lookup path with
    | none => exact .refl _
    | some key =>
        simp only
        split
        · next group canonical _ _ => exact reach_unmark os m group.fan_fd canonical
        · exact .refl _
  · exact .refl _

omit [Sizefilter] in
theorem reach_remove_path {os : Os} {m m' : Monitor} {path : PathBuf} {cmd : Option String}
    (h : m.remove_path os path cmd = .ok m') : Reach m.names m'.names := by
  rw [remove_path] at h
  simp only at h
  split at h
  · cases h
  · cases h
    show Reach m.names (if _ then _ else _ : Monitor).names
    split
    · exact reach_remark_path os { m with monitored_entries := m.monitored_entries.filter (keeps path cmd) } path
    · exact reach_forget_path os { m with monitored_entries := m.monitored_entries.filter (keeps path cmd) } path

theorem reach_add_temp_parent_mark (os : Os) (m : Monitor) (target : PathBuf) :
    Reach m.names (m.add_temp_parent_mark os target).names := by
  rw [add_temp_parent_mark]
  cases os.nearest_existing_ancestor target with
  | none => exact .refl _
  | some parent =>
      simp only
      split
      · exact .refl _
      · split
        · exact .refl _
        · split
          · exact .refl _
          · cases os.open_dir_safe (os.canonical parent) with
            | none => exact .refl _
            | some dir =>
                simp only
                cases m.group_on (os.dev_id (os.canonical parent)) with
                | some r =>
                    simp only
                    cases hmark : m.kernel.mark_directory_at os r.2.fan_fd dir (m.temp_mask target) with
                    | none => exact .refl _
                    | some k => exact Reach.mark_directory_at hmark
                | none =>
                    simp only
                    cases hcreate : m.kernel.create_group_and_mark os dir (m.temp_mask target) with
                    | none => exact .refl _
                    | some r =>
                        obtain ⟨fan_fd, k⟩ := r
                        show Reach m.names (spawn_fd_reader os _ _).names
                        rw [names_spawn_fd_reader]
                        exact Reach.create hcreate

omit [Sizefilter] in
theorem reach_remove_temp_parent_mark (os : Os) (m : Monitor) (target : PathBuf) :
    Reach m.names (m.remove_temp_parent_mark os target).names := by
  rw [remove_temp_parent_mark]
  cases m.inotify_state.temp_parent_marks.lookup target with
  | none => exact .refl _
  | some r =>
      simp only
      cases m.fanotify.groups.get r.2 with
      | none => exact .refl _
      | some group =>
          simp only
          split
          · exact Reach.unmark os m.kernel m.fanotify.dir_cache group.fan_fd _
          · exact .refl _

omit [Sizefilter] in
theorem reach_on_new_subdirectory (os : Os) (m : Monitor) (path : PathBuf) :
    Reach m.names (m.on_new_subdirectory os path).1.names := by
  rcases on_new_subdirectory_cases os m path with h | ⟨key, group, dir, k, _, _, _, hmark, h⟩
  · rw [h]
    exact .refl _
  · rw [h, enter_subdirectory]
    have hroot : Reach m.names (k, m.fanotify.dir_cache) := Reach.mark_directory_at hmark
    refine hroot.trans (Reach.trans ?_ (reach_mark_recursive ..))
    simp only [names]
    split
    · exact Reach.cache_dir_handle ..
    · exact .refl _

/-- Every call of a handler is a row of these. -/
theorem closed_reach : Closed AnyOs AnyTemp fun m m' => Reach m.names m'.names where
  trans h h' := h.trans h'
  add _ h := reach_add_path h
  remove _ h := reach_remove_path h
  retain _ _ _ := .refl _
  temp _ _ := reach_add_temp_parent_mark ..
  untemp _ _ _ := reach_remove_temp_parent_mark ..
  subdir _ _ _ := reach_on_new_subdirectory ..
  other {m m'} h := by
    rw [names, names, h.dir_cache, show m'.kernel = m.kernel from congrArg View.kernel h.view]
    exact .refl _

/-- **A running daemon** reaches its marks and handles by such calls. -/
theorem step_reach (m : Monitor) {s : Step} (hs : Running s) : Reach m.names (m.step s).names :=
  closed_reach.step m hs s.on_any (any_temps m s)

end

end Monitor

/-! ## The start -/

namespace Monitor

theorem reach_init_walk (os : Os) (m : Monitor) (fan_fd : Nat) (mask : Mask) (path canonical : PathBuf) :
    Reach m.names (init_walk os m fan_fd mask path canonical).names := by
  rw [init_walk]
  split
  · exact reach_mark_recursive ..
  · exact .refl _

theorem reach_init_root (os : Os) (mask : Mask) (st : Monitor × HashMap Nat Nat) (root : PathBuf × PathBuf) :
    Reach st.1.names (init_root os mask st root).1.names := by
  obtain ⟨m, devs⟩ := st
  simp only [init_root]
  cases os.open_dir_safe root.2 with
  | none => exact .refl _
  | some dir =>
      simp only
      cases devs.lookup (os.dev_id root.2) with
      | some key =>
          simp only
          cases m.fanotify.groups.get key with
          | none => exact .refl _
          | some group =>
              simp only
              cases hmark : m.kernel.mark_directory_at os group.fan_fd dir mask with
              | none => exact .refl _
              | some k =>
                  have hroot : Reach m.names (k, m.fanotify.dir_cache) := Reach.mark_directory_at hmark
                  exact hroot.trans (reach_init_walk os { m with kernel := k } ..)
      | none =>
          simp only
          cases hcreate : m.kernel.create_group_and_mark os dir mask with
          | none => exact .refl _
          | some r =>
              obtain ⟨fan_fd, k⟩ := r
              have hroot : Reach m.names (k, m.fanotify.dir_cache) := Reach.create hcreate
              exact hroot.trans (reach_init_walk os { m with kernel := k } ..)

theorem reach_init_cache (os : Os) (m : Monitor) (root : PathBuf × PathBuf) :
    Reach m.names (init_cache os m root).names := by
  rw [init_cache]
  split
  · exact Reach.cache_dir_handle ..
  · exact .refl _

theorem reach_foldl {α σ : Type} {f : σ → α → σ} (names : σ → Kernel × DirCache)
    (hf : ∀ s a, Reach (names s) (names (f s a))) (as : List α) :
    ∀ s, Reach (names s) (names (as.foldl f s)) :=
  Run.rel_foldl (R := fun s s' => Reach (names s) (names s')) (fun s => .refl (names s)) Reach.trans hf as

/-- **A daemon that starts** reaches its marks and handles by such calls. -/
theorem init_reach [Sizefilter] {os : Os} {m m' : Monitor} (h : m.init_fanotify os = .ok m') :
    Reach m.names m'.names := by
  have hpath : ∀ (m : Monitor) (p : PathBuf), (init_path os m p).names = m.names := by
    intro m p
    rw [init_path]
    split <;> rfl
  have hfirst : (m.init_paths os).names = m.names := by
    rw [init_paths, names, names, (Closed.quiet_setup_inotify_watches ..).dir_cache,
      show (setup_inotify_watches os _).kernel = _ from
        congrArg View.kernel (Closed.quiet_setup_inotify_watches ..).view]
    exact Run.frame_exec (f := names) hpath m.paths { m with paths := [] }
  rw [init_fanotify] at h
  split at h
  · cases h
  · simp only at h
    split at h
    · cases h
    · cases h
      have hroots := reach_foldl (fun st => st.1.names) (reach_init_root os m.combined_mask)
        ((m.init_paths os).paths.zip (m.init_paths os).canonical_paths) (m.init_paths os, ∅)
      simp only [hfirst] at hroots
      split
      · exact hroots.trans (reach_foldl names (reach_init_cache os) _ _)
      · exact hroots

end Monitor

/-! ## The two caches -/

/-- Each handle of the bounded cache has the path it has in the other. -/
def TtlCache.Within (c : TtlCache) (d : DirCache) : Prop :=
  ∀ key e, c.inner.lookup key = some e → d.lookup key = some e.1

namespace TtlCache.Within

variable {c : TtlCache} {d : DirCache}

theorem with_path (h : c.Within d) (now : Nat) (key : HandleKey) : (c.with_path now key).2.Within d := by
  intro q e he
  rw [TtlCache.with_path] at he
  split at he
  · split at he
    · exact h q e he
    · rw [HashMap.lookup_erase'] at he
      split at he
      · cases he
      · exact h q e he
  · exact h q e he

theorem forget (h : c.Within d) (key : HandleKey) : (c.forget key).Within d := by
  intro q e he
  rw [TtlCache.forget, HashMap.lookup_erase'] at he
  split at he
  · cases he
  · exact h q e he

theorem insert (h : c.Within d) (now : Nat) (victim key : HandleKey) (path : PathBuf) :
    (c.insert now victim key path).Within (d.insert key path) := by
  have hretained : ∀ q e, (c.retained now).lookup q = some e → d.lookup q = some e.1 := by
    intro q e he
    rw [TtlCache.retained] at he
    split at he
    · rw [HashMap.lookup_retain, Option.filter_eq_some_iff] at he
      exact h q e he.1
    · exact h q e he
  intro q e he
  rw [TtlCache.insert, HashMap.lookup_insert'] at he
  rw [HashMap.lookup_insert']
  split at he
  · next hq =>
    cases he
    rw [if_pos hq]
  · next hq =>
    rw [if_neg hq]
    split at he
    · rw [HashMap.lookup_erase'] at he
      split at he
      · cases he
      · exact hretained q e he
    · exact hretained q e he

end TtlCache.Within

/-- **What the bounded cache answers** after some calls is the path the other has; and the marks are the
same. -/
theorem known_run (capacity ttl : Nat) (calls : List CacheCall) :
    (Run.exec Names.step (.start capacity ttl) calls).kernel =
        (Run.exec CacheCall.replay (.initial, ∅) calls).1 ∧
      (Run.exec Names.step (.start capacity ttl) calls).dir_cache.Within
        (Run.exec CacheCall.replay (.initial, ∅) calls).2 := by
  refine Run.sim_exec (R := fun (s : Names) (r : Kernel × DirCache) =>
    s.kernel = r.1 ∧ s.dir_cache.Within r.2) ?_ calls ⟨rfl, fun key e he => by cases he⟩
  rintro s r call ⟨hk, hc⟩
  constructor
  · show CacheCall.kernel_after s.kernel call = CacheCall.kernel_after r.1 call
    rw [hk]
  · show (CacheCall.cache_after s.dir_cache s.now call).Within (CacheCall.replay r call).2
    rw [CacheCall.cache_after.eq_def, CacheCall.replay]
    cases call.inserts with
    | some i => exact hc.insert s.now i.2.2 i.1 i.2.1
    | none =>
        simp only
        split
        · exact hc.with_path s.now _
        · exact hc.forget _
        · exact hc

end Fsmon
