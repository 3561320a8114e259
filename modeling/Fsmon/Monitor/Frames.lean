/-
# `Fsmon.Monitor.Frames` — what each operation does to the plan

The *plan* is the part of the state that says what is to be monitored and what
has been reported: the entries, active and pending, the roots, what was set up at
the start, the counters of losses and warnings, and the history of new directories.  Marks, handles,
groups, watches and gauges are how the plan is carried out.

Most operations leave the plan as it is (`plan_setup_inotify_watches`,
`plan_add_temp_parent_mark`, `plan_cleanup_temp_parent_marks`); the others change
it in a way one equation says in full:

    on_new_subdirectory   one more touch, or nothing
    add_path              one more cmd, one more pending entry, or one more root
    remove_path           the entries it does not keep, with the root if it was the last

A claim that does not look at marks works with these equations and never opens
an operation again.
-/
import Fsmon.Lib.Run
import Fsmon.Monitor.Events

namespace Fsmon.Monitor

/-- What is to be monitored, and what has been reported. -/
structure Plan where
  paths : List PathBuf
  canonical_paths : List PathBuf
  monitored_entries : List (PathBuf × PathOptions)
  pending_paths : List (PathBuf × PathEntry)
  log_dir : Option PathBuf
  factory : Bool
  shared_dir_cache : Bool
  daemon_pid : Nat
  losses : Nat × Nat
  overflow_warnings : Nat
  touched : List Touch

def plan (m : Monitor) : Plan where
  paths := m.paths
  canonical_paths := m.canonical_paths
  monitored_entries := m.monitored_entries
  pending_paths := m.inotify_state.pending_paths
  log_dir := m.log_dir
  factory := m.fanotify.factory
  shared_dir_cache := m.fanotify.shared_dir_cache
  daemon_pid := m.daemon_pid
  losses := m.metrics.losses
  overflow_warnings := m.overflow_warnings
  touched := m.touched

/-! ## Watches -/

/-- The same inotify state, but for the watches. -/
def SameInotify (s s' : InotifyState) : Prop :=
  ∃ ws added entered, s' = { s with watches := ws, added := added, entered := entered }

theorem SameInotify.refl (s : InotifyState) : SameInotify s s := ⟨_, _, _, rfl⟩

theorem SameInotify.trans {s s' s'' : InotifyState} (h : SameInotify s s') (h' : SameInotify s' s'') :
    SameInotify s s'' := by
  obtain ⟨_, _, _, rfl⟩ := h
  obtain ⟨_, _, _, rfl⟩ := h'
  exact ⟨_, _, _, rfl⟩

theorem sameInotify_add_watch (os : Os) (s : InotifyState) (path : PathBuf) (mask : WatchMask) :
    SameInotify s (add_watch os s path mask) := by
  rw [add_watch]
  split <;> exact ⟨_, _, _, rfl⟩

theorem sameInotify_foldl {α : Type} {f : InotifyState → α → InotifyState}
    (hf : ∀ s a, SameInotify s (f s a)) : ∀ (as : List α) (s : InotifyState),
    SameInotify s (as.foldl f s) := Run.rel_foldl SameInotify.refl SameInotify.trans hf

theorem sameInotify_watch_pending (os : Os) (s : InotifyState) (e : PathBuf × PathEntry) :
    SameInotify s (watch_pending os s e) := by
  rw [watch_pending]
  split
  · exact SameInotify.refl s
  · split
    · exact SameInotify.refl s
    · exact sameInotify_add_watch ..

theorem sameInotify_watch_root (os : Os) (s : InotifyState) (e : PathBuf × PathOptions) :
    SameInotify s (watch_root os s e) := by
  rw [watch_root]
  split
  · exact SameInotify.refl s
  · exact sameInotify_add_watch ..

theorem sameInotify_watch_self (os : Os) (s : InotifyState) (e : PathBuf × PathOptions) :
    SameInotify s (watch_self os s e) := by
  rw [watch_self]
  split
  · exact SameInotify.refl s
  · exact sameInotify_add_watch ..

theorem sameInotify_watch_recursive (os : Os) (mask : WatchMask) : ∀ (n : Nat) (dir : PathBuf)
    (s : InotifyState), SameInotify s (watch_recursive os mask n dir s) := by
  intro n
  induction n with
  | zero =>
      intro _ s
      exact SameInotify.refl s
  | succ n ih =>
      intro dir s
      rw [watch_recursive]
      split
      · exact SameInotify.refl s
      · have hentered : SameInotify s { s with entered := s.entered ++ [dir] } := ⟨_, _, _, rfl⟩
        refine (hentered.trans (sameInotify_add_watch ..)).trans (sameInotify_foldl ?_ _ _)
        intro s e
        split
        · exact ih (dir.join e.1) s
        · exact SameInotify.refl s

theorem plan_with_inotify {m : Monitor} {s : InotifyState} (h : SameInotify m.inotify_state s) :
    plan { m with inotify_state := s } = m.plan := by
  obtain ⟨_, _, _, rfl⟩ := h
  rfl

@[simp] theorem plan_setup_inotify_watches (os : Os) (m : Monitor) :
    (m.setup_inotify_watches os).plan = m.plan := by
  rw [setup_inotify_watches]
  split
  · rfl
  · exact plan_with_inotify (((sameInotify_foldl (sameInotify_watch_pending os) _ _).trans
      (sameInotify_foldl (sameInotify_watch_root os) _ _)).trans
      (sameInotify_foldl (sameInotify_watch_self os) _ _))

/-! ## Marks and groups -/

@[simp] theorem plan_count_monitored (m : Monitor) : m.count_monitored.plan = m.plan := by
  simp [plan, count_monitored]

@[simp] theorem plan_count_groups (m : Monitor) : m.count_groups.plan = m.plan := by
  simp [plan, count_groups]

@[simp] theorem plan_count_pending (m : Monitor) : m.count_pending.plan = m.plan := by
  simp [plan, count_pending]

@[simp] theorem plan_spawn_fd_reader (os : Os) (m : Monitor) (key : Nat) :
    (m.spawn_fd_reader os key).plan = m.plan := by
  rw [spawn_fd_reader]
  split
  · exact plan_count_groups _
  · rfl

@[simp] theorem plan_mark_on_group (os : Os) (m : Monitor) (fan_fd : Nat) (canonical : PathBuf)
    (opts : PathOptions) : (m.mark_on_group os fan_fd canonical opts).plan = m.plan := by
  rw [mark_on_group]
  split
  · rfl
  · split
    · rfl
    · split <;> rfl

@[simp] theorem plan_remark_path (os : Os) (m : Monitor) (path : PathBuf) :
    (m.remark_path os path).plan = m.plan := by
  rw [remark_path]
  simp only
  split
  · rfl
  · split
    · rfl
    · split <;> rfl

@[simp] theorem plan_release_root (os : Os) (m : Monitor) (path : PathBuf) (pos : Nat) :
    (m.release_root os path pos).plan = m.plan := by
  rw [release_root]
  split
  · rfl
  · split
    · split <;> rfl
    · rfl

@[simp] theorem plan_remove_temp_parent_mark (os : Os) (m : Monitor) (target : PathBuf) :
    (m.remove_temp_parent_mark os target).plan = m.plan := by
  rw [remove_temp_parent_mark]
  split
  · rfl
  · simp only
    split
    · rfl
    · split <;> rfl

@[simp] theorem plan_cleanup_temp_parent_marks (os : Os) (m : Monitor) :
    (m.cleanup_temp_parent_marks os).plan = m.plan := by
  rw [cleanup_temp_parent_marks]
  exact Run.frame_exec (f := plan) (plan_remove_temp_parent_mark os) _ m

theorem plan_enter_subdirectory (os : Os) (m : Monitor) (canonical : PathBuf) (fan_fd : Nat) :
    ∃ t, (m.enter_subdirectory os canonical fan_fd).1.plan = { m.plan with touched := m.touched ++ [t] } := by
  rw [enter_subdirectory]
  have hs : SameInotify m.inotify_state
      (if m.inotify_state.inotify then
        watch_recursive os (IN_CREATE ||| IN_MOVED_TO) (watch_depth os) canonical m.inotify_state
      else m.inotify_state) := by
    split
    · exact sameInotify_watch_recursive ..
    · exact SameInotify.refl _
  generalize (if m.inotify_state.inotify then _ else m.inotify_state) = s at hs
  obtain ⟨_, _, _, rfl⟩ := hs
  exact ⟨_, rfl⟩

/-- A new directory leaves one more touch, or nothing. -/
theorem plan_on_new_subdirectory (os : Os) (m : Monitor) (path : PathBuf) :
    ∃ ts, (m.on_new_subdirectory os path).1.plan = { m.plan with touched := m.touched ++ ts } := by
  rcases on_new_subdirectory_cases os m path with h | ⟨_, _, _, k, _, _, _, _, h⟩
  · exact ⟨[], by rw [h, List.append_nil]; rfl⟩
  · obtain ⟨t, ht⟩ :=
      plan_enter_subdirectory os { m with kernel := k } (os.canonical path) _
    exact ⟨[t], by rw [h, ht]; rfl⟩

section
variable [Sizefilter]

@[simp] theorem plan_add_temp_parent_mark (os : Os) (m : Monitor) (target : PathBuf) :
    (m.add_temp_parent_mark os target).plan = m.plan := by
  rw [add_temp_parent_mark]
  split
  · rfl
  · simp only
    split
    · rfl
    · split
      · rfl
      · split
        · rfl
        · split
          · rfl
          · split
            · rfl
            · rename_i m₁ key hmarked
              show m₁.plan = m.plan
              split at hmarked
              · -- on the group of the file system
                simp only [Option.map_eq_some_iff] at hmarked
                obtain ⟨k, _, hk⟩ := hmarked
                cases hk
                rfl
              · -- on a group of its own
                simp only [Option.map_eq_some_iff] at hmarked
                obtain ⟨r, _, hr⟩ := hmarked
                cases hr
                exact plan_spawn_fd_reader ..

end

/-! ## add_path -/

theorem plan_add_cmd (os : Os) (m : Monitor) (path : PathBuf) (opts : PathOptions) :
    (m.add_cmd os path opts).plan =
      { m.plan with monitored_entries := m.monitored_entries ++ [(path, opts)] } := by
  rw [add_cmd]
  simp only [plan_count_monitored]
  split
  · rfl
  · split
    · rfl
    · split <;> rfl

/-- The pending entries after `queue_pending`. -/
def queued (m : Monitor) (path : PathBuf) (entry : PathEntry) : List (PathBuf × PathEntry) :=
  if m.inotify_state.pending_paths.any fun e => e.1 = path && e.2.cmd = entry.cmd then
    m.inotify_state.pending_paths
  else m.inotify_state.pending_paths ++ [(path, entry)]

theorem plan_queue_pending (os : Os) (m : Monitor) (path : PathBuf) (entry : PathEntry) :
    (m.queue_pending os path entry).plan =
      { m.plan with pending_paths := m.queued path entry } := by
  unfold queue_pending queued
  split
  · rfl
  · rw [plan_setup_inotify_watches]
    rfl

theorem plan_register (os : Os) (m : Monitor) (path canonical : PathBuf) (opts : PathOptions)
    (key : Nat) :
    (m.register os path canonical opts key).plan =
      { m.plan with
        paths := m.paths ++ [path]
        canonical_paths := m.canonical_paths ++ [canonical]
        monitored_entries := m.monitored_entries ++ [(path, opts)] } := by
  rw [register]
  simp only [plan_count_monitored]
  split <;> rfl

/-- The plan with one more root. -/
def Plan.add_root (p : Plan) (path canonical : PathBuf) (opts : PathOptions) : Plan :=
  { p with
    paths := p.paths ++ [path]
    canonical_paths := p.canonical_paths ++ [canonical]
    monitored_entries := p.monitored_entries ++ [(path, opts)] }

theorem plan_register_of_plan {os : Os} {m m' : Monitor} {path canonical : PathBuf}
    {opts : PathOptions} {key : Nat} (h : m'.plan = m.plan) :
    (m'.register os path canonical opts key).plan = m.plan.add_root path canonical opts := by
  rw [plan_register, ← h]
  rfl

theorem plan_add_root {os : Os} {m m' : Monitor} {path : PathBuf} {opts : PathOptions}
    (h : m.add_root os path opts = .ok m') :
    m'.plan = m.plan.add_root path (os.canonical path) opts := by
  rw [add_root] at h
  simp only at h
  split at h
  · -- on the group of the file system
    cases h
    exact plan_register_of_plan (plan_mark_on_group ..)
  · split at h
    · cases h
    · split at h
      · cases h
      · -- on a group of its own
        cases h
        refine plan_register_of_plan ((plan_spawn_fd_reader ..).trans ?_)
        split <;> rfl

/-! ## Records -/

/-- Recording an event type touches the file size cache only. -/
@[simp] theorem plan_record_type (os : Os) (raw : DecodedEvent) (opts : PathOptions)
    (r : Monitor × List PendingEvent) (t : EventType) :
    (record_type os raw opts r t).1.plan = r.1.plan := by
  rw [record_type]
  simp only
  split <;> rfl

/-- A fold over a step that keeps the plan keeps the plan. -/
theorem plan_foldl {α : Type} {f : Monitor × List PendingEvent → α → Monitor × List PendingEvent}
    (hf : ∀ r a, (f r a).1.plan = r.1.plan) : ∀ (as : List α) (r : Monitor × List PendingEvent),
    (as.foldl f r).1.plan = r.1.plan :=
  Run.frame_exec (f := fun r : Monitor × List PendingEvent => r.1.plan) hf

@[simp] theorem plan_record_entry (os : Os) (raw : DecodedEvent) (r : Monitor × List PendingEvent)
    (e : PathBuf × PathOptions) : (record_entry os raw r e).1.plan = r.1.plan := by
  rw [record_entry]
  split
  · exact plan_foldl (plan_record_type os raw e.2) _ _
  · rfl

section
variable [Sizefilter]

/-- What `add_path` records when it succeeds. -/
inductive Added (os : Os) (m : Monitor) (entry : PathEntry) : Plan → Prop
  | cmd (opts : PathOptions) (hpath : os.canonical entry.path ∈ m.paths)
      (hopts : PathOptions.try_from entry = .ok opts) :
      Added os m entry
        { m.plan with
          monitored_entries := m.monitored_entries ++ [(os.canonical entry.path, opts)] }
  | pending (hpath : os.canonical entry.path ∉ m.paths)
      (hexists : os.exists (os.canonical entry.path) = false) :
      Added os m entry { m.plan with pending_paths := m.queued (os.canonical entry.path) entry }
  | root (opts : PathOptions) (hpath : os.canonical entry.path ∉ m.paths)
      (hexists : os.exists (os.canonical entry.path) = true)
      (hopts : PathOptions.try_from entry = .ok opts) :
      Added os m entry
        (m.plan.add_root (os.canonical entry.path) (os.canonical (os.canonical entry.path)) opts)

theorem add_path_plan {os : Os} {m m' : Monitor} {entry : PathEntry}
    (h : m.add_path os entry = .ok m') : Added os m entry m'.plan := by
  unfold add_path at h
  simp only at h
  split at h
  · rename_i hpath
    split at h
    · cases h
    · rename_i opts hopts
      cases h
      rw [plan_add_cmd]
      exact .cmd opts hpath hopts
  · rename_i hpath
    split at h
    · cases h
    · split at h
      · rename_i hexists
        cases h
        rw [plan_queue_pending]
        exact .pending hpath hexists
      · rename_i hexists
        split at h
        · cases h
        · rename_i opts hopts
          split at h
          · cases h
          · split at h
            · cases h
            · rw [plan_add_root h]
              exact .root opts hpath (by simpa using hexists) hopts

/-- The plan after `check_pending` is the one its loop leaves. -/
theorem plan_check_pending (os : Os) (m : Monitor) :
    (m.check_pending os).plan =
      ((retry_pending os m.inotify_state.pending_paths (m.with_pending []) []).1.with_pending
        (retry_pending os m.inotify_state.pending_paths (m.with_pending []) []).2).plan := by
  unfold check_pending
  split
  · rename_i h
    rw [h.1]
    show m.plan = ((m.with_pending []).with_pending []).plan
    unfold with_pending
    simp only [← h.1]
  · rw [plan_count_pending, plan_setup_inotify_watches, plan_cleanup_temp_parent_marks]

end

/-! ## remove_path -/

/-- The plan without the entries `remove_path` does not keep. -/
def Plan.remove (p : Plan) (path : PathBuf) (cmd : Option String) : Plan :=
  let kept := p.monitored_entries.filter (keeps path cmd)
  if kept.any fun e => e.1 = path then { p with monitored_entries := kept }
  else
    { p with
      monitored_entries := kept
      paths := if path ∈ p.paths then p.paths.eraseIdx (p.paths.idxOf path) else p.paths
      canonical_paths :=
        if path ∈ p.paths then p.canonical_paths.eraseIdx (p.paths.idxOf path)
        else p.canonical_paths }

theorem plan_forget_path (os : Os) (m : Monitor) (path : PathBuf) :
    (m.forget_path os path).plan =
      { m.plan with
        paths := if path ∈ m.paths then m.paths.eraseIdx (m.paths.idxOf path) else m.paths
        canonical_paths :=
          if path ∈ m.paths then m.canonical_paths.eraseIdx (m.paths.idxOf path)
          else m.canonical_paths } := by
  rw [forget_path]
  simp only
  split
  · have h := plan_release_root os m path (m.paths.idxOf path)
    generalize m.release_root os path (m.paths.idxOf path) = m₁ at h
    show { m₁.plan with
        paths := m₁.plan.paths.eraseIdx (m.paths.idxOf path)
        canonical_paths := m₁.plan.canonical_paths.eraseIdx (m.paths.idxOf path) } = _
    rw [h]
    rfl
  · rfl

theorem remove_path_plan {os : Os} {m m' : Monitor} {path : PathBuf} {cmd : Option String}
    (h : m.remove_path os path cmd = .ok m') : m'.plan = m.plan.remove path cmd := by
  rw [remove_path] at h
  simp only at h
  split at h
  · cases h
  · cases h
    rw [plan_count_groups, plan_count_monitored]
    split
    · rename_i hother
      rw [plan_remark_path]
      exact (if_pos hother).symm
    · rename_i hother
      rw [plan_forget_path]
      exact (if_neg hother).symm

/-- `remove_path` fails exactly when no entry matches. -/
theorem remove_path_error {os : Os} {m : Monitor} {path : PathBuf} {cmd : Option String} {e : Str}
    (h : m.remove_path os path cmd = .error e) :
    m.monitored_entries.filter (keeps path cmd) = m.monitored_entries := by
  rw [remove_path] at h
  simp only at h
  split at h
  · rename_i hlen
    have hle := List.length_filter_le (keeps path cmd) m.monitored_entries
    exact List.filter_eq_self.2 (List.length_filter_eq_length_iff.1 (by omega))
  · cases h

/-- Removing a path with all its cmds. -/
theorem try_remove_entries (os : Os) (m : Monitor) (path : PathBuf) :
    (m.try_remove os path).monitored_entries = m.monitored_entries.filter (keeps path none) ∧
      (m.try_remove os path).inotify_state.pending_paths = m.inotify_state.pending_paths := by
  rw [try_remove]
  cases h : m.remove_path os path none with
  | error e => exact ⟨(remove_path_error h).symm, rfl⟩
  | ok m' =>
      have hplan := remove_path_plan h
      have hentries : m'.plan.monitored_entries = m.monitored_entries.filter (keeps path none) := by
        rw [hplan, Plan.remove]
        split <;> rfl
      have hpending : m'.plan.pending_paths = m.inotify_state.pending_paths := by
        rw [hplan, Plan.remove]
        split <;> rfl
      exact ⟨hentries, hpending⟩

/-! ## What entries have no part in -/

/-- The plan without its roots and entries. -/
def Plan.still (p : Plan) : Plan :=
  { p with paths := [], canonical_paths := [], monitored_entries := [], pending_paths := [] }

def still (m : Monitor) : Plan := m.plan.still

theorem still_of_plan {m m' : Monitor} (h : m'.plan = m.plan) : m'.still = m.still :=
  congrArg Plan.still h

theorem Plan.still_remove (p : Plan) (path : PathBuf) (cmd : Option String) :
    (p.remove path cmd).still = p.still := by
  unfold Plan.remove
  simp only
  split <;> rfl

theorem still_remove_path {os : Os} {m m' : Monitor} {path : PathBuf} {cmd : Option String}
    (h : m.remove_path os path cmd = .ok m') : m'.still = m.still := by
  rw [still, remove_path_plan h, Plan.still_remove]
  rfl

theorem still_try_remove (os : Os) (m : Monitor) (path : PathBuf) :
    (m.try_remove os path).still = m.still := by
  rw [try_remove]
  split
  · rename_i h
    exact still_remove_path h
  · rfl

section
variable [Sizefilter]

theorem still_add_path {os : Os} {m m' : Monitor} {entry : PathEntry}
    (h : m.add_path os entry = .ok m') : m'.still = m.still := by
  have hadded := add_path_plan h
  rw [still]
  generalize m'.plan = p at hadded
  cases hadded <;> rfl

theorem still_retry_pending (os : Os) : ∀ (es : List (PathBuf × PathEntry)) (m : Monitor)
    (still : List (PathBuf × PathEntry)), (retry_pending os es m still).1.still = m.still := by
  intro es
  induction es with
  | nil =>
      intro _ _
      exact rfl
  | cons e es ih =>
      intro m still
      rw [retry_pending]
      split
      · exact ih m _
      · split
        · rename_i m' h
          exact (ih m' _).trans (still_add_path h)
        · exact ih m _

theorem still_check_pending (os : Os) (m : Monitor) : (m.check_pending os).still = m.still := by
  have hretry := still_retry_pending os m.inotify_state.pending_paths (m.with_pending []) []
  exact (still_of_plan (plan_check_pending os m)).trans hretry

theorem still_handle_canonical_root_deleted (os : Os) (m : Monitor) (path : PathBuf) :
    (m.handle_canonical_root_deleted os path).still = m.still := by
  rw [handle_canonical_root_deleted]
  rw [still_check_pending]
  exact (still_of_plan ((plan_add_temp_parent_mark ..).trans (plan_setup_inotify_watches ..))).trans
    (still_try_remove os m path)

/-- An event, past the counters: what its new directory leaves. -/
theorem still_handle_event (os : Os) (m : Monitor) (raw : DecodedEvent) :
    (handle_event os m raw).1.still =
      if m.is_skipped raw = false ∧ m.is_new_subdirectory os raw = true then
        (m.on_new_subdirectory os raw.path).1.still
      else m.still := by
  rw [handle_event]
  simp only
  cases m.is_skipped raw with
  | true => rfl
  | false =>
      have hrec : ∀ m₁ : Monitor, ((m.matching_opts_for_event raw.path).foldl (record_entry os raw)
          (m₁, [])).1.still = m₁.still := fun m₁ =>
        still_of_plan (plan_foldl (plan_record_entry os raw) _ (m₁, []))
      simp only [Bool.false_eq_true, if_false, true_and]
      split
      · rw [hrec]
        split <;> rfl
      · rw [still_handle_canonical_root_deleted, hrec]
        split <;> rfl

end

end Fsmon.Monitor
