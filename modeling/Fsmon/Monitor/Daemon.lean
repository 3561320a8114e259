/-
# `Fsmon.Monitor.Daemon` — the daemon's runs, and what they do to its entries

`reload_config` of `socket_handler.rs`, and the steps a daemon takes after
`Monitor::new`: the start sequence, socket commands, reloads, retries of pending
paths, inotify events and batches of fanotify events.

Roots, entries and pending entries are the *core* of the plan.  Every step
changes it by a chain of

    fewer      entries are dropped
    park       the entries of a root that is gone become pending
    added      a call of `add_path` that succeeds

and each operation is one of them, or nothing (`fewer_remove_path`,
`add_path_core`, `core_on_new_subdirectory`).
-/
import Fsmon.Monitor.Confined
import Fsmon.Monitor.Init
import Fsmon.Monitor.Socket
import Fsmon.Store

namespace Fsmon.Monitor

section
variable [Sizefilter]

/-! ## reload_config -/

/-- An entry whose path is no root is added; a failure is only printed. -/
def reload_add (os : Os) (m : Monitor) (entry : PathEntry) : Monitor :=
  if entry.path ∈ m.paths then m
  else
    match m.add_path os entry with
    | .ok m' => m'
    | .error _ => m

/-- A root that the store does not name is removed; a failure is only printed. -/
def reload_remove (os : Os) (flat_entries : List PathEntry) (m : Monitor) (path : PathBuf) : Monitor :=
  if flat_entries.any fun e => e.path = path then m else m.try_remove os path

/-- Reload the store; `store` is what `Monitored::load` returns for the configured path. -/
def reload_config (os : Os) (m : Monitor) : Except Str Monitored → Except Str Unit × Monitor
  | .error e => (.error e, m)
  | .ok store =>
      let flat_entries := store.flatten
      let m₁ := flat_entries.foldl (reload_add os) m
      (.ok (), m₁.paths.foldl (reload_remove os flat_entries) m₁)

/-! ## Steps -/

/-- What the daemon is given to do. -/
inductive Step where
  | factory
  | init (os : Os)
  | tasks (os : Os)
  | socket (os : Os) (cmd : SocketCmd)
  | reload (os : Os) (store : Except Str Monitored)
  | retry (os : Os)
  | inotify (os : Os) (events : Option (List InotifyEvent))
  | batch (os : Nat → Os) (events : List DecodedEvent)

/-- One step; an `init` that fails ends the daemon, and leaves the state here. -/
def step (m : Monitor) : Step → Monitor
  | .factory => m.spawn_factory
  | .init os =>
      match m.init_fanotify os with
      | .ok m' => m'
      | .error _ => m
  | .tasks os => m.spawn_tasks os
  | .socket os cmd => (m.handle_socket_cmd os cmd).2
  | .reload os store => (m.reload_config os store).2
  | .retry os => m.check_pending os
  | .inotify os events => m.handle_inotify_events os events
  | .batch os events => (m.process_event_batch os events).1

end

/-! ## The core -/

/-- Roots, entries and pending entries, and the log directory they must not hold. -/
structure Core where
  paths : List PathBuf
  monitored_entries : List (PathBuf × PathOptions)
  pending_paths : List (PathBuf × PathEntry)
  log_dir : Option PathBuf

def Plan.core (p : Plan) : Core := ⟨p.paths, p.monitored_entries, p.pending_paths, p.log_dir⟩

def core (m : Monitor) : Core := m.plan.core

theorem core_of_plan {m m' : Monitor} (h : m'.plan = m.plan) : m'.core = m.core :=
  congrArg Plan.core h

namespace Core

def with_pending (c : Core) (pending : List (PathBuf × PathEntry)) : Core :=
  { c with pending_paths := pending }

/-- Every entry's path is a root. -/
def Rooted (c : Core) : Prop := ∀ e ∈ c.monitored_entries, e.1 ∈ c.paths

/-- Entries have been dropped, and nothing else but roots without entries. -/
structure Fewer (c c' : Core) : Prop where
  entries : c'.monitored_entries.Sublist c.monitored_entries
  pending : c'.pending_paths.Sublist c.pending_paths
  log_dir : c'.log_dir = c.log_dir
  rooted : c.Rooted → c'.Rooted

theorem Fewer.refl (c : Core) : Fewer c c := ⟨.refl _, .refl _, rfl, id⟩

theorem Fewer.trans {a b c : Core} (h : Fewer a b) (h' : Fewer b c) : Fewer a c where
  entries := h'.entries.trans h.entries
  pending := h'.pending.trans h.pending
  log_dir := h'.log_dir.trans h.log_dir
  rooted := h'.rooted ∘ h.rooted

/-- The options of the entries of a path. -/
def opts_for_path (c : Core) (path : PathBuf) : List PathOptions :=
  (c.monitored_entries.filter fun e => e.1 = path).map (·.2)

section
variable [Sizefilter]

/-- The entries of a root that is gone become pending. -/
def park (c : Core) (path : PathBuf) : Core :=
  { c with
    monitored_entries := c.monitored_entries.filter fun e => e.1 ≠ path
    pending_paths := c.pending_paths ++ pending_of path (c.opts_for_path path) }

/-- The pending entries with one more, unless it is there. -/
def queued (c : Core) (path : PathBuf) (entry : PathEntry) : List (PathBuf × PathEntry) :=
  if c.pending_paths.any fun e => e.1 = path && e.2.cmd = entry.cmd then c.pending_paths
  else c.pending_paths ++ [(path, entry)]

/-- The log directory is apart from a path, and not below it when the path is recursive. -/
def ApartFromLog (os : Os) (c : Core) (path : PathBuf) (recursive : Bool) : Prop :=
  ∀ log_dir, c.log_dir = some log_dir →
    os.canonical log_dir ≠ path ∧ (recursive = true → (os.canonical log_dir).startsWith path = false)

/-- What a call of `add_path` that succeeds does. -/
inductive Added (os : Os) (c : Core) (entry : PathEntry) : Core → Prop
  | cmd (opts : PathOptions) (hpath : os.canonical entry.path ∈ c.paths)
      (hopts : PathOptions.try_from entry = .ok opts) :
      Added os c entry
        { c with monitored_entries := c.monitored_entries ++ [(os.canonical entry.path, opts)] }
  | pending (hpath : os.canonical entry.path ∉ c.paths)
      (hexists : os.exists (os.canonical entry.path) = false) :
      Added os c entry { c with pending_paths := c.queued (os.canonical entry.path) entry }
  | root (opts : PathOptions) (hpath : os.canonical entry.path ∉ c.paths)
      (hexists : os.exists (os.canonical entry.path) = true)
      (hopts : PathOptions.try_from entry = .ok opts)
      (hlog : c.ApartFromLog os (os.canonical entry.path) opts.recursive)
      (hcmd : opts.cmd ≠ some "fsmon") :
      Added os c entry
        { c with
          paths := c.paths ++ [os.canonical entry.path]
          monitored_entries := c.monitored_entries ++ [(os.canonical entry.path, opts)] }

/-- A successful call, as seen with other pending entries. -/
theorem Added.with_pending {os : Os} {c c' : Core} {entry : PathEntry} (h : Added os c entry c')
    (pending : List (PathBuf × PathEntry)) :
    Added os (c.with_pending pending) entry (c'.with_pending pending) ∨
      c'.with_pending pending = c.with_pending pending := by
  cases h with
  | cmd opts hpath hopts => exact .inl (.cmd opts hpath hopts)
  | pending hpath hexists => exact .inr rfl
  | root opts hpath hexists hopts hlog hcmd =>
      exact .inl (.root opts hpath hexists hopts hlog hcmd)

theorem Added.rooted {os : Os} {c c' : Core} {entry : PathEntry} (h : Added os c entry c')
    (hr : c.Rooted) : c'.Rooted := by
  cases h with
  | cmd opts hpath hopts =>
      intro e he
      rcases List.mem_append.1 he with he | he
      · exact hr e he
      · rw [List.mem_singleton.1 he]
        exact hpath
  | pending hpath hexists => exact hr
  | root opts hpath hexists hopts hlog hcmd =>
      intro e he
      rcases List.mem_append.1 he with he | he
      · exact List.mem_append_left _ (hr e he)
      · rw [List.mem_singleton.1 he]
        exact List.mem_append_right _ (List.mem_singleton_self _)

end

end Core

/-! ## What the operations do to the core -/

/-- Removing one occurrence of a path keeps every other path. -/
theorem mem_eraseIdx_idxOf {ps : List PathBuf} {p q : PathBuf} (hp : p ∈ ps) (hne : p ≠ q) :
    p ∈ ps.eraseIdx (ps.idxOf q) := by
  rw [← List.erase_eq_eraseIdx_of_idxOf rfl]
  exact (List.mem_erase_of_ne hne).2 hp

theorem fewer_plan_remove (p : Plan) (path : PathBuf) (cmd : Option String) :
    Core.Fewer p.core (p.remove path cmd).core := by
  have hsub : (p.monitored_entries.filter (keeps path cmd)).Sublist p.monitored_entries :=
    List.filter_sublist
  rw [Plan.remove]
  split
  · exact ⟨hsub, .refl _, rfl, fun hr e he => hr e (hsub.subset he)⟩
  · next hother =>
      refine ⟨hsub, .refl _, rfl, fun hr e he => ?_⟩
      have hne : e.1 ≠ path := fun heq => hother (List.any_eq_true.2 ⟨e, he, by simp [heq]⟩)
      have hroot := hr e (hsub.subset he)
      show e.1 ∈ if path ∈ p.paths then _ else _
      split
      · exact mem_eraseIdx_idxOf hroot hne
      · exact hroot

theorem fewer_remove_path {os : Os} {m m' : Monitor} {path : PathBuf} {cmd : Option String}
    (h : m.remove_path os path cmd = .ok m') : Core.Fewer m.core m'.core := by
  rw [core, core, remove_path_plan h]
  exact fewer_plan_remove ..

theorem fewer_try_remove (os : Os) (m : Monitor) (path : PathBuf) :
    Core.Fewer m.core (m.try_remove os path).core := by
  rw [try_remove]
  cases h : m.remove_path os path none with
  | ok m' => exact fewer_remove_path h
  | error e => exact .refl _

theorem fewer_retain_others (m : Monitor) (path : PathBuf) (cmd : Option String) :
    Core.Fewer m.core (m.retain_others path cmd).core where
  entries := List.filter_sublist
  pending := .refl _
  log_dir := rfl
  rooted hr e he := hr e (List.mem_of_mem_filter he)

theorem fewer_prepare_add (os : Os) (m : Monitor) (path : PathBuf) (cmd : Option String) :
    Core.Fewer m.core (m.prepare_add os path cmd).core := by
  rw [prepare_add]
  split
  · exact fewer_retain_others m path cmd
  · exact (fewer_retain_others m path cmd).trans (fewer_try_remove os _ path)

theorem core_on_new_subdirectory (os : Os) (m : Monitor) (path : PathBuf) :
    (m.on_new_subdirectory os path).1.core = m.core := by
  obtain ⟨ts, h⟩ := plan_on_new_subdirectory os m path
  rw [core, h]
  rfl

/-- The entries of a root that has been removed. -/
theorem try_remove_core (os : Os) (m : Monitor) (path : PathBuf) :
    (m.try_remove os path).core.monitored_entries = m.core.monitored_entries.filter (fun e => e.1 ≠ path) ∧
      (m.try_remove os path).core.pending_paths = m.core.pending_paths := by
  have hkeeps : keeps path none = fun e => decide (e.1 ≠ path) := by
    funext e
    rw [keeps]
    split <;> simp_all
  rw [← hkeeps]
  exact try_remove_entries os m path

/-! ### The start -/

theorem plan_init_walk (os : Os) (m : Monitor) (fan_fd : Nat) (mask : Mask)
    (path canonical : PathBuf) : (m.init_walk os fan_fd mask path canonical).plan = m.plan := by
  rw [init_walk]
  split <;> rfl

theorem plan_init_root (os : Os) (mask : Mask) (st : Monitor × HashMap Nat Nat)
    (root : PathBuf × PathBuf) : (init_root os mask st root).1.plan = st.1.plan := by
  rw [init_root]
  cases os.open_dir_safe root.2 with
  | none => rfl
  | some dir =>
      simp only
      cases st.2.lookup (os.dev_id root.2) with
      | some key =>
          simp only
          cases st.1.fanotify.groups.get key with
          | none => rfl
          | some group =>
              simp only
              cases st.1.kernel.mark_directory_at os group.fan_fd dir mask with
              | none => rfl
              | some k => exact plan_init_walk os { st.1 with kernel := k } group.fan_fd mask root.1 root.2
      | none =>
          simp only
          cases st.1.kernel.create_group_and_mark os dir mask with
          | none => rfl
          | some r => exact plan_init_walk os { st.1 with kernel := r.2 } r.1 mask root.1 root.2

theorem plan_init_roots (os : Os) (mask : Mask) (roots : List (PathBuf × PathBuf))
    (st : Monitor × HashMap Nat Nat) : (roots.foldl (init_root os mask) st).1.plan = st.1.plan :=
  Run.frame_exec (f := fun st => st.1.plan) (plan_init_root os mask) roots st

theorem plan_init_caches (os : Os) (roots : List (PathBuf × PathBuf)) (m : Monitor) :
    (roots.foldl (init_cache os) m).plan = m.plan := by
  have hroot : ∀ (m : Monitor) (r : PathBuf × PathBuf), (init_cache os m r).plan = m.plan := by
    intro m r
    rw [init_cache]
    split <;> rfl
  exact Run.frame_exec hroot roots m

theorem core_spawn_tasks (os : Os) (m : Monitor) : (m.spawn_tasks os).core = m.core := by
  have hreaders : ∀ (keys : List Nat) (m : Monitor),
      (keys.foldl (spawn_fd_reader os) m).plan = m.plan := Run.frame_exec (plan_spawn_fd_reader os)
  rw [spawn_tasks, core_of_plan (hreaders _ _)]
  rfl

section
variable [Sizefilter]

omit [Sizefilter] in
theorem queue_pending_core (os : Os) (m : Monitor) (path : PathBuf) (entry : PathEntry) :
    (m.queue_pending os path entry).core = { m.core with pending_paths := m.core.queued path entry } := by
  rw [core, plan_queue_pending]
  rfl

omit [Sizefilter] in
/-- A path that is added as a root is apart from the log directory. -/
theorem apart_of_overlap {os : Os} {m : Monitor} {path : PathBuf} {recursive : Bool}
    (h : m.log_dir_overlap os path recursive = none) : m.core.ApartFromLog os path recursive := by
  intro log_dir hlog
  have hm : m.log_dir = some log_dir := hlog
  simp only [log_dir_overlap, hm] at h
  split at h
  · cases h
  · next hno =>
      rw [not_or, Bool.and_eq_true, not_and] at hno
      exact ⟨hno.1, fun hr => Bool.eq_false_iff.2 (hno.2 hr)⟩

/-- The core after a start that succeeds is the one the loop over the roots leaves. -/
theorem init_fanotify_core {os : Os} {m m' : Monitor} (h : m.init_fanotify os = .ok m') :
    m'.core = (m.paths.foldl (init_path os) { m with paths := [] }).core := by
  have hpaths : (m.init_paths os).core = (m.paths.foldl (init_path os) { m with paths := [] }).core :=
    core_of_plan (plan_setup_inotify_watches ..)
  rw [init_fanotify] at h
  split at h
  · cases h
  · simp only at h
    split at h
    · cases h
    · rw [← hpaths]
      cases h
      split
      · exact core_of_plan ((plan_init_caches ..).trans (plan_init_roots ..))
      · exact core_of_plan (plan_init_roots ..)

/-- **add_path**, as a change of the core. -/
theorem add_path_core {os : Os} {m m' : Monitor} {entry : PathEntry}
    (h : m.add_path os entry = .ok m') : Core.Added os m.core entry m'.core := by
  simp only [add_path] at h
  split at h
  · next hpath =>
      split at h
      · cases h
      · next opts hopts =>
          cases h
          have hcore : (m.add_cmd os (os.canonical entry.path) opts).core = _ :=
            congrArg Plan.core (plan_add_cmd ..)
          rw [hcore]
          exact .cmd opts hpath hopts
  · next hpath =>
      split at h
      · cases h
      · next hlog =>
          split at h
          · next hexists =>
              cases h
              rw [queue_pending_core]
              exact .pending hpath hexists
          · next hexists =>
            split at h
            · cases h
            · next opts hopts =>
                split at h
                · cases h
                · next hcmd =>
                    split at h
                    · cases h
                    · have hcore : m'.core = _ := congrArg Plan.core (plan_add_root h)
                      rw [hcore]
                      refine .root opts hpath (by simpa using hexists) hopts ?_ hcmd
                      rw [(PathOptions.try_from_ok hopts).2.1]
                      exact apart_of_overlap hlog

end

end Fsmon.Monitor
