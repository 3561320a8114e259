/-
# `Fsmon.Monitor.Gauges` — three gauges against the state they report

`monitored_paths`, `reader_groups` and `pending_paths` are written by hand, at some
ends of some operations.  A call either writes the gauge of what it changes, or is
followed by one that does (`Tallied`), except for

    an Add that drops an entry and then fails, or finds no path
    an Add or a reload that queues a path that does not exist
    a group whose reader cannot be spawned
    a temporary mark that takes the last reference of its group

`Counted` says that the three gauges are right, `Counts` of a step that it does none
of these.
-/
import Fsmon.Cli.Agree
import Fsmon.Monitor.Cleanup
import Fsmon.Monitor.Closed

namespace Fsmon

namespace SlotMap

variable {υ : Type}

theorem len_modify (m : SlotMap υ) (k : Nat) (f : υ → υ) : (m.modify k f).len = m.len := by
  have hone : ∀ (l : List (Option υ)) (i : Nat),
      (l.modify i (Option.map f)).countP Option.isSome = l.countP Option.isSome := by
    intro l
    induction l with
    | nil =>
        intro i
        rw [List.modify_nil]
    | cons o l ih =>
        intro i
        cases i with
        | zero => cases o <;> rfl
        | succ i => rw [List.modify_succ_cons, List.countP_cons, List.countP_cons, ih i]
  exact hone m.slots k

end SlotMap

namespace MetricsRegistry

@[simp] theorem enabled_set_monitored_paths (r : MetricsRegistry) (n : Nat) :
    (r.set_monitored_paths n).enabled = r.enabled := by
  rw [set_monitored_paths]
  split <;> rfl

@[simp] theorem enabled_set_reader_groups (r : MetricsRegistry) (n : Nat) :
    (r.set_reader_groups n).enabled = r.enabled := by
  rw [set_reader_groups]
  split <;> rfl

@[simp] theorem enabled_set_pending_paths (r : MetricsRegistry) (n : Nat) :
    (r.set_pending_paths n).enabled = r.enabled := by
  rw [set_pending_paths]
  split <;> rfl

@[simp] theorem pending_set_monitored_paths (r : MetricsRegistry) (n : Nat) :
    (r.set_monitored_paths n).pending_paths = r.pending_paths := by
  rw [set_monitored_paths]
  split <;> rfl

@[simp] theorem pending_set_reader_groups (r : MetricsRegistry) (n : Nat) :
    (r.set_reader_groups n).pending_paths = r.pending_paths := by
  rw [set_reader_groups]
  split <;> rfl

end MetricsRegistry

namespace Monitor

def EntriesCounted (m : Monitor) : Prop := m.metrics.monitored_paths = m.monitored_entries.length

def GroupsCounted (m : Monitor) : Prop := m.metrics.reader_groups = m.fanotify.groups.len

def PendingCounted (m : Monitor) : Prop := m.metrics.pending_paths = m.inotify_state.pending_paths.length

/-- Metrics are on, and the tasks have been spawned. -/
structure Reporting (m : Monitor) : Prop where
  enabled : m.metrics.enabled = true
  spawns : m.ledger.spawns = true

/-- A call keeps entries and groups counted, and leaves the gauge of the pending paths alone. -/
structure Tallied (m m' : Monitor) : Prop where
  reporting : m.Reporting → m'.Reporting
  pending : m'.metrics.pending_paths = m.metrics.pending_paths
  entries : m.Reporting → m.EntriesCounted → m'.EntriesCounted
  groups : m.Reporting → m.GroupsCounted → m'.GroupsCounted

namespace Tallied

variable {m m' m'' : Monitor}

theorem trans (h : Tallied m m') (h' : Tallied m' m'') : Tallied m m'' where
  reporting hm := h'.reporting (h.reporting hm)
  pending := h'.pending.trans h.pending
  entries hm he := h'.entries (h.reporting hm) (h.entries hm he)
  groups hm hg := h'.groups (h.reporting hm) (h.groups hm hg)

/-- Nothing is counted, and nothing that is counted changes. -/
theorem still (hmetrics : m'.metrics = m.metrics) (hentries : m'.monitored_entries = m.monitored_entries)
    (hgroups : m'.fanotify.groups.len = m.fanotify.groups.len)
    (hspawns : m'.ledger.spawns = m.ledger.spawns) : Tallied m m' where
  reporting hm := ⟨hmetrics ▸ hm.enabled, hspawns ▸ hm.spawns⟩
  pending := by rw [hmetrics]
  entries _ he := by
    rw [EntriesCounted, hmetrics, hentries]
    exact he
  groups _ hg := by
    rw [GroupsCounted, hmetrics, hgroups]
    exact hg

theorem refl (m : Monitor) : Tallied m m := still rfl rfl rfl rfl

/-- As `still`, from the plan and the ledger. -/
theorem quiet (hmetrics : m'.metrics = m.metrics) (hplan : m'.plan = m.plan)
    (hledger : m'.ledger = m.ledger) :
    Tallied m m' :=
  still hmetrics (congrArg Plan.monitored_entries hplan)
    (congrArg (fun l : Ledger => l.groups.len) hledger) (congrArg Ledger.spawns hledger)

theorem foldl {α : Type} {f : Monitor → α → Monitor} (hf : ∀ m a, Tallied m (f m a)) (as : List α) :
    ∀ m, Tallied m (as.foldl f m) := Run.rel_foldl refl trans hf as

/-- As `foldl`, when every turn meets a guard. -/
theorem guarded {α : Type} {f : Monitor → α → Monitor} {ok : Monitor → α → Prop}
    (hf : ∀ m a, ok m a → Tallied m (f m a)) (as : List α) :
    ∀ m, Run.Guarded f ok m as → Tallied m (as.foldl f m) := Run.rel_exec refl trans hf as

end Tallied

/-! ## Calls that count nothing -/

theorem metrics_setup_inotify_watches (os : Os) (m : Monitor) :
    (m.setup_inotify_watches os).metrics = m.metrics := by
  rw [setup_inotify_watches]
  split <;> rfl

theorem tallied_setup (os : Os) (m : Monitor) : Tallied m (m.setup_inotify_watches os) :=
  .quiet (metrics_setup_inotify_watches os m) (plan_setup_inotify_watches os m)
    (ledger_setup_inotify_watches os m)

theorem tallied_with_pending (m : Monitor) (ps : List (PathBuf × PathEntry)) :
    Tallied m (m.with_pending ps) :=
  .still rfl rfl rfl rfl

theorem tallied_mark_on_group (os : Os) (m : Monitor) (fan_fd : Nat) (canonical : PathBuf)
    (opts : PathOptions) : Tallied m (m.mark_on_group os fan_fd canonical opts) := by
  refine .quiet ?_ (plan_mark_on_group ..) (ledger_mark_on_group ..)
  rw [mark_on_group]
  split
  · rfl
  · split
    · rfl
    · split <;> rfl

theorem metrics_remark_path (os : Os) (m : Monitor) (path : PathBuf) :
    (m.remark_path os path).metrics = m.metrics := by
  rw [remark_path]
  simp only
  split
  · rfl
  · split
    · rfl
    · split <;> rfl

theorem metrics_forget_path (os : Os) (m : Monitor) (path : PathBuf) :
    (m.forget_path os path).metrics = m.metrics ∧
      (m.forget_path os path).ledger.spawns = m.ledger.spawns := by
  rw [forget_path]
  split
  · show (m.release_root os path _).metrics = _ ∧ (m.release_root os path _).ledger.spawns = _
    rw [release_root]
    split
    · exact ⟨rfl, rfl⟩
    · split
      · split <;> exact ⟨rfl, rfl⟩
      · exact ⟨rfl, rfl⟩
  · exact ⟨rfl, rfl⟩

theorem tallied_on_new_subdirectory (os : Os) (m : Monitor) (path : PathBuf) :
    Tallied m (m.on_new_subdirectory os path).1 := by
  obtain ⟨ts, hplan⟩ := plan_on_new_subdirectory os m path
  have hledger := ledger_on_new_subdirectory os m path
  refine .still ?_ (congrArg Plan.monitored_entries hplan)
    (congrArg (fun l : Ledger => l.groups.len) hledger) (congrArg Ledger.spawns hledger)
  rcases on_new_subdirectory_cases os m path with h | ⟨_, _, _, _, _, _, _, _, h⟩
  · rw [h]
  · rw [h]
    rfl

theorem tallied_record_entry (os : Os) (raw : DecodedEvent) (r : Monitor × List PendingEvent)
    (e : PathBuf × PathOptions) : Tallied r.1 (record_entry os raw r e).1 := by
  rw [record_entry]
  split
  · induction mask_to_event_types raw.mask generalizing r with
    | nil => exact .refl _
    | cons t ts ih =>
        have hone : Tallied r.1 (record_type os raw e.2 r t).1 := by
          rw [record_type]
          simp only
          split <;> exact .still rfl rfl rfl rfl
        exact hone.trans (ih (record_type os raw e.2 r t))
  · exact .refl _

/-! ## Calls that count -/

/-- The entries are counted at the end. -/
theorem Tallied.counted {m m' : Monitor}
    (hmetrics : m'.metrics = m.metrics.set_monitored_paths m'.monitored_entries.length)
    (hgroups : m'.fanotify.groups.len = m.fanotify.groups.len)
    (hspawns : m'.ledger.spawns = m.ledger.spawns) :
    Tallied m m' ∧ (m.Reporting → m'.EntriesCounted) := by
  have hon : m.Reporting →
      m'.metrics = { m.metrics with monitored_paths := m'.monitored_entries.length } := fun hm => by
    rw [hmetrics, MetricsRegistry.set_monitored_paths, if_pos hm.enabled]
  have hentries : m.Reporting → m'.EntriesCounted := fun hm => by rw [EntriesCounted, hon hm]
  refine ⟨⟨fun hm => ⟨by rw [hon hm]; exact hm.enabled, hspawns ▸ hm.spawns⟩, ?_,
    fun hm _ => hentries hm, fun hm hg => ?_⟩, hentries⟩
  · rw [hmetrics, MetricsRegistry.pending_set_monitored_paths]
  · rw [GroupsCounted, hon hm, hgroups]
    exact hg

theorem tallied_add_cmd (os : Os) (m : Monitor) (path : PathBuf) (opts : PathOptions) :
    Tallied m (m.add_cmd os path opts) ∧ (m.Reporting → (m.add_cmd os path opts).EntriesCounted) := by
  have hledger := ledger_add_cmd os m path opts
  refine Tallied.counted ?_ (congrArg (fun l : Ledger => l.groups.len) hledger)
    (congrArg Ledger.spawns hledger)
  rw [add_cmd]
  simp only
  cases m.fanotify.path_to_group.lookup path with
  | none => rfl
  | some gi =>
      simp only
      cases m.fanotify.groups.get gi with
      | none => rfl
      | some group =>
          simp only
          split <;> rfl

theorem tallied_register (os : Os) (m : Monitor) (path canonical : PathBuf) (opts : PathOptions)
    (key : Nat) :
    Tallied m (m.register os path canonical opts key) ∧
      (m.Reporting → (m.register os path canonical opts key).EntriesCounted) := by
  have hledger := ledger_register os m path canonical opts key
  refine Tallied.counted ?_ (congrArg (fun l : Ledger => l.groups.len) hledger)
    (congrArg Ledger.spawns hledger)
  rw [register]
  simp only
  split <;> rfl

/-- One reference more. -/
theorem tallied_refer (m : Monitor) (key : Nat) (f : FsGroup → FsGroup) :
    Tallied m { m with fanotify := { m.fanotify with groups := m.fanotify.groups.modify key f } } :=
  .still rfl rfl (SlotMap.len_modify ..) rfl

/-- A new group is counted by its reader. -/
theorem tallied_create {os : Os} (hdup : os.dup_ok = true) (m : Monitor) (group : FsGroup) (key : Nat) :
    Tallied m
      (spawn_fd_reader os
        { m with fanotify := { m.fanotify with groups := m.fanotify.groups.insert group } } key) := by
  have hspawns : (spawn_fd_reader os
      { m with fanotify := { m.fanotify with groups := m.fanotify.groups.insert group } } key).ledger.spawns =
        m.ledger.spawns := by rw [ledger_spawn_fd_reader]; rfl
  have hon : m.Reporting → (spawn_fd_reader os
      { m with fanotify := { m.fanotify with groups := m.fanotify.groups.insert group } } key) =
        { m with
          fanotify := { m.fanotify with groups := m.fanotify.groups.insert group }
          readers := m.readers ++ [key]
          metrics :=
            { m.metrics with reader_groups := (m.fanotify.groups.insert group).len } } := fun hm => by
    have hspawn : (m.event_tx && m.fanotify.shared_dir_cache) = true := hm.spawns
    rw [spawn_fd_reader]
    simp only [hspawn, hdup, Bool.and_true, if_true, count_groups, MetricsRegistry.set_reader_groups,
      hm.enabled]
  refine ⟨fun hm => ⟨by rw [hon hm]; exact hm.enabled, hspawns ▸ hm.spawns⟩, ?_, fun hm he => ?_,
    fun hm _ => by rw [GroupsCounted, hon hm]⟩
  · rw [spawn_fd_reader]
    split
    · exact MetricsRegistry.pending_set_reader_groups ..
    · rfl
  · rw [EntriesCounted, hon hm]
    exact he

theorem tallied_add_root {os : Os} (hdup : os.dup_ok = true) {m m' : Monitor} {path : PathBuf}
    {opts : PathOptions} (h : m.add_root os path opts = .ok m') :
    Tallied m m' ∧ (m.Reporting → m'.EntriesCounted) := by
  rw [add_root] at h
  simp only at h
  split at h
  · next key group _ =>
    cases h
    have hmarked := (tallied_mark_on_group os m group.fan_fd (os.canonical path) opts).trans
      (tallied_refer _ key fun g => { g with ref_count := g.ref_count + 1 })
    obtain ⟨hreg, hentries⟩ := tallied_register os _ path (os.canonical path) opts key
    exact ⟨hmarked.trans hreg, fun hm => hentries (hmarked.reporting hm)⟩
  · split at h
    · cases h
    · split at h
      · cases h
      · next new_fd k _ =>
        cases h
        generalize hm₁ :
          (if (opts.recursive && os.is_dir (os.canonical path)) = true then _ else _ : Monitor) = m₁
        have hwalked : Tallied m m₁ := by
          rw [← hm₁]
          split <;> exact .still rfl rfl rfl rfl
        have hspawned := hwalked.trans
          (tallied_create hdup m₁ ⟨os.dev_id (os.canonical path), new_fd, 1⟩ m₁.fanotify.groups.next)
        obtain ⟨hreg, hentries⟩ :=
          tallied_register os _ path (os.canonical path) opts m₁.fanotify.groups.next
        exact ⟨hspawned.trans hreg, fun hm => hentries (hspawned.reporting hm)⟩

section
variable [Sizefilter]

/-- `add_path` would queue the entry: its path does not exist, and is not pending for its cmd. -/
def WouldQueue (os : Os) (m : Monitor) (entry : PathEntry) : Prop :=
  os.canonical entry.path ∉ m.paths ∧
    m.log_dir_overlap os (os.canonical entry.path) (entry.recursive.getD false) = none ∧
    os.exists (os.canonical entry.path) = false ∧
    (m.inotify_state.pending_paths.any fun e =>
      e.1 = os.canonical entry.path && e.2.cmd = entry.cmd) = false

omit [Sizefilter] in
theorem tallied_queue_pending (os : Os) (m : Monitor) (path : PathBuf) (entry : PathEntry) :
    Tallied m (m.queue_pending os path entry) := by
  rw [queue_pending]
  split
  · exact .refl m
  · exact (tallied_with_pending m _).trans (tallied_setup os _)

/-- What a call that succeeds does: it queues an entry, or counts the one it adds. -/
theorem tallied_add_path {os : Os} (hdup : os.dup_ok = true) {m m' : Monitor} {entry : PathEntry}
    (h : m.add_path os entry = .ok m') :
    Tallied m m' ∧ (¬ WouldQueue os m entry →
      m'.inotify_state.pending_paths = m.inotify_state.pending_paths ∧
        ((m.Reporting → m'.EntriesCounted) ∨
          os.canonical entry.path ∉ m.paths ∧ os.exists (os.canonical entry.path) = false)) := by
  rw [add_path] at h
  split at h
  · split at h
    · cases h
    · next opts _ =>
      cases h
      obtain ⟨htally, hentries⟩ := tallied_add_cmd os m (os.canonical entry.path) opts
      exact ⟨htally, fun _ => ⟨congrArg Plan.pending_paths (plan_add_cmd ..), .inl hentries⟩⟩
  · next hpath =>
    split at h
    · cases h
    · next hoverlap =>
      split at h
      · next hexists =>
        cases h
        refine ⟨tallied_queue_pending .., fun hnot => ?_⟩
        have hany : (m.inotify_state.pending_paths.any fun e =>
            e.1 = os.canonical entry.path && e.2.cmd = entry.cmd) = true := by
          by_contra hany
          exact hnot ⟨hpath, hoverlap, hexists, Bool.eq_false_iff.2 hany⟩
        have hsame : m.queue_pending os (os.canonical entry.path) entry = m := if_pos hany
        exact ⟨by rw [hsame], .inr ⟨hpath, hexists⟩⟩
      · split at h
        · cases h
        · split at h
          · cases h
          · split at h
            · cases h
            · obtain ⟨htally, hentries⟩ := tallied_add_root hdup h
              exact ⟨htally, fun _ => ⟨congrArg Plan.pending_paths (plan_add_root h), .inl hentries⟩⟩

/-! ### Removing -/

omit [Sizefilter] in
/-- Entries and groups are both counted. -/
theorem Tallied.both {m m' : Monitor} (hmetrics : m'.metrics = m.metrics)
    (hspawns : m'.ledger.spawns = m.ledger.spawns) : Tallied m m'.count_monitored.count_groups := by
  have hon : m.Reporting → m'.count_monitored.count_groups.metrics =
      { m.metrics with
        monitored_paths := m'.monitored_entries.length
        reader_groups := m'.fanotify.groups.len } := by
    intro hm
    rw [← hmetrics]
    have henabled : m'.metrics.enabled = true := by rw [hmetrics]; exact hm.enabled
    simp [count_groups, count_monitored, MetricsRegistry.set_reader_groups,
      MetricsRegistry.set_monitored_paths, henabled]
  refine ⟨fun hm => ⟨by rw [hon hm]; exact hm.enabled, hspawns.trans hm.spawns⟩, ?_, fun hm _ => ?_,
    fun hm _ => ?_⟩
  · simp [count_groups, count_monitored, hmetrics]
  · rw [EntriesCounted, hon hm]
    rfl
  · rw [GroupsCounted, hon hm]
    rfl

omit [Sizefilter] in
theorem tallied_remove_path {os : Os} {m m' : Monitor} {path : PathBuf} {cmd : Option String}
    (h : m.remove_path os path cmd = .ok m') : Tallied m m' := by
  rw [remove_path] at h
  simp only at h
  split at h
  · cases h
  · cases h
    refine Tallied.both ?_ ?_
    · split
      · exact metrics_remark_path ..
      · exact (metrics_forget_path ..).1
    · split
      · exact congrArg Ledger.spawns (ledger_remark_path ..)
      · exact (metrics_forget_path ..).2

omit [Sizefilter] in
theorem pending_remove_path {os : Os} {m m' : Monitor} {path : PathBuf} {cmd : Option String}
    (h : m.remove_path os path cmd = .ok m') :
    m'.inotify_state.pending_paths = m.inotify_state.pending_paths := by
  have hplan : m'.plan.pending_paths = (m.plan.remove path cmd).pending_paths :=
    congrArg Plan.pending_paths (remove_path_plan h)
  refine hplan.trans ?_
  rw [Plan.remove]
  split <;> rfl

omit [Sizefilter] in
theorem tallied_try_remove (os : Os) (m : Monitor) (path : PathBuf) :
    Tallied m (m.try_remove os path) := by
  rw [try_remove]
  cases hr : m.remove_path os path none with
  | ok m' => exact tallied_remove_path hr
  | error e => exact .refl m

/-! ### Temporary marks -/

theorem tallied_add_temp_parent_mark {os : Os} (hdup : os.dup_ok = true) (m : Monitor)
    (target : PathBuf) :
    Tallied m (m.add_temp_parent_mark os target) := by
  rw [add_temp_parent_mark]
  cases os.nearest_existing_ancestor target with
  | none => exact .refl m
  | some parent =>
      simp only
      split
      · exact .refl m
      · split
        · exact .refl m
        · split
          · exact .refl m
          · cases os.open_dir_safe (os.canonical parent) with
            | none => exact .refl m
            | some dir =>
                simp only
                cases m.group_on (os.dev_id (os.canonical parent)) with
                | some r =>
                    simp only
                    cases m.kernel.mark_directory_at os r.2.fan_fd dir (m.temp_mask target) with
                    | none => exact .refl m
                    | some k => exact .still rfl rfl (SlotMap.len_modify ..) rfl
                | none =>
                    simp only
                    cases m.kernel.create_group_and_mark os dir (m.temp_mask target) with
                    | none => exact .refl m
                    | some r =>
                        have hkernel : Tallied m { m with kernel := r.2 } := .still rfl rfl rfl rfl
                        refine (hkernel.trans (tallied_create hdup { m with kernel := r.2 }
                          ⟨os.dev_id (os.canonical parent), r.1, 1⟩ m.fanotify.groups.next)).trans ?_
                        exact .still rfl rfl rfl rfl

omit [Sizefilter] in
/-- The temporary mark of a target does not hold the last reference of its group. -/
def Shares (m : Monitor) (target : PathBuf) : Prop :=
  ∀ parent key group, m.inotify_state.temp_parent_marks.lookup target = some (parent, key) →
    m.fanotify.groups.get key = some group → 2 ≤ group.ref_count

omit [Sizefilter] in
theorem tallied_remove_temp_parent_mark (os : Os) {m : Monitor} {target : PathBuf} (h : m.Shares target) :
    Tallied m (m.remove_temp_parent_mark os target) := by
  rw [remove_temp_parent_mark]
  cases hmark : m.inotify_state.temp_parent_marks.lookup target with
  | none => exact .refl m
  | some r =>
      obtain ⟨parent, key⟩ := r
      simp only
      cases hgroup : m.fanotify.groups.get key with
      | none => exact .still rfl rfl rfl rfl
      | some group =>
          have hlast : ¬ group.ref_count - 1 = 0 := by
            have hmore := h parent key group hmark hgroup
            omega
          simp only [if_neg hlast]
          split <;> exact .still rfl rfl (SlotMap.len_modify ..) rfl

/-! ## Handlers -/

omit [Sizefilter] in
/-- The three gauges are right. -/
structure Counted (m : Monitor) : Prop where
  reporting : m.Reporting
  entries : m.EntriesCounted
  groups : m.GroupsCounted
  pending : m.PendingCounted

omit [Sizefilter] in
/-- As `Counted`, but the pending paths are only counted when there are none. -/
structure ToCount (m : Monitor) : Prop where
  reporting : m.Reporting
  entries : m.EntriesCounted
  groups : m.GroupsCounted
  pending : m.inotify_state.pending_paths = [] → m.PendingCounted

omit [Sizefilter] in
theorem Counted.tallied {m m' : Monitor} (h : m.Counted) (ht : Tallied m m')
    (hp : m'.inotify_state.pending_paths = m.inotify_state.pending_paths) : m'.Counted where
  reporting := ht.reporting h.reporting
  entries := ht.entries h.reporting h.entries
  groups := ht.groups h.reporting h.groups
  pending := by
    rw [PendingCounted, ht.pending, hp]
    exact h.pending

omit [Sizefilter] in
theorem Counted.to_count {m : Monitor} (h : m.Counted) : m.ToCount :=
  ⟨h.reporting, h.entries, h.groups, fun _ => h.pending⟩

omit [Sizefilter] in
/-- More may be pending than before. -/
theorem ToCount.tallied {m m' : Monitor} (h : m.ToCount) (ht : Tallied m m')
    (hp : m.inotify_state.pending_paths <+: m'.inotify_state.pending_paths) : m'.ToCount where
  reporting := ht.reporting h.reporting
  entries := ht.entries h.reporting h.entries
  groups := ht.groups h.reporting h.groups
  pending hnone := by
    rw [hnone] at hp
    have hnone' := List.prefix_nil.1 hp
    rw [PendingCounted, ht.pending, hnone, ← hnone']
    exact h.pending hnone'

theorem tallied_retry {os : Os} (hdup : os.dup_ok = true) (es : List (PathBuf × PathEntry)) :
    ∀ (m : Monitor) (still : List (PathBuf × PathEntry)), Tallied m (retry_pending os es m still).1 := by
  induction es with
  | nil => exact fun m _ => .refl m
  | cons e es ih =>
      intro m still
      rw [retry_pending]
      split
      · exact ih m _
      · cases hadd : m.add_path os e.2 with
        | ok m' => exact (tallied_add_path hdup hadd).1.trans (ih m' still)
        | error msg => exact ih m _

/-- The clean-up of temporary marks takes no last reference. -/
def CleanupShares (os : Os) (m : Monitor) : Prop :=
  Run.Guarded (remove_temp_parent_mark os) Shares m
    (m.inotify_state.temp_parent_marks.keys.filter fun t => t ∈ m.paths)

/-- The state in which a retry cleans up the temporary marks. -/
def retried (os : Os) (m : Monitor) : Monitor :=
  let r := retry_pending os m.inotify_state.pending_paths (m.with_pending []) []
  r.1.with_pending r.2

/-- If the retry does anything, its clean-up takes no last reference. -/
def RetryShares (os : Os) (m : Monitor) : Prop :=
  ¬ (m.inotify_state.pending_paths = [] ∧ m.inotify_state.temp_parent_marks.entries = []) →
    (m.retried os).CleanupShares os

omit [Sizefilter] in
theorem counted_count_pending {m : Monitor} (hm : m.Reporting) (hentries : m.EntriesCounted)
    (hgroups : m.GroupsCounted) : m.count_pending.Counted := by
  have hmetrics : m.count_pending.metrics =
      { m.metrics with pending_paths := m.inotify_state.pending_paths.length } := by
    rw [count_pending, MetricsRegistry.set_pending_paths, if_pos hm.enabled]
  refine ⟨⟨by rw [hmetrics]; exact hm.enabled, hm.spawns⟩, ?_, ?_, ?_⟩
  · rw [EntriesCounted, hmetrics]
    exact hentries
  · rw [GroupsCounted, hmetrics]
    exact hgroups
  · rw [PendingCounted, hmetrics]
    rfl

/-- A retry counts what is pending. -/
theorem counted_check_pending {os : Os} (hdup : os.dup_ok = true) {m : Monitor} (h : m.ToCount)
    (hshares : m.RetryShares os) : (m.check_pending os).Counted := by
  rw [check_pending]
  split
  · next hnone => exact ⟨h.reporting, h.entries, h.groups, h.pending hnone.1⟩
  · next hsome =>
      have htally : Tallied m (m.retried os) :=
        ((tallied_with_pending m []).trans (tallied_retry hdup _ _ _)).trans (tallied_with_pending _ _)
      have hcleaned : Tallied m (((m.retried os).cleanup_temp_parent_marks os).setup_inotify_watches os) :=
        (htally.trans (.guarded (fun m t ht => tallied_remove_temp_parent_mark os ht) _ _ (hshares hsome))).trans
          (tallied_setup os _)
      exact counted_count_pending (hcleaned.reporting h.reporting)
        (hcleaned.entries h.reporting h.entries) (hcleaned.groups h.reporting h.groups)

/-! ### Commands and reloads -/

/-- An `Add` of this path and cmd drops an entry. -/
def DropsEntry (m : Monitor) (path : PathBuf) (cmd : Option String) : Prop :=
  ∃ e ∈ m.monitored_entries, e.1 = path ∧ e.2.cmd = cmd

/-- An `Add` queues nothing, and if it drops an entry it adds one. -/
def SocketCounts (os : Os) (m : Monitor) : SocketCmd → Prop
  | .add path recursive types size track_cmd max_depth =>
      check_path_allowed path = none →
        let m₁ := m.prepare_add os path (cmd_filter track_cmd)
        let entry := add_request path recursive types size track_cmd max_depth
        ¬ WouldQueue os m₁ entry ∧
          (m.DropsEntry path (cmd_filter track_cmd) →
            m₁.Accepts os entry ∧ cmd_filter entry.cmd ≠ some "fsmon" ∧
              (os.canonical path ∈ m₁.paths ∨ os.exists (os.canonical path) = true))
  | .remove _ _ => True

theorem counted_socket {os : Os} (hdup : os.dup_ok = true) {m : Monitor} (h : m.Counted) {cmd : SocketCmd}
    (hcounts : m.SocketCounts os cmd) : (m.handle_socket_cmd os cmd).2.Counted := by
  cases cmd with
  | remove path track_cmd =>
      rw [handle_socket_cmd]
      cases hr : m.remove_path os path track_cmd with
      | ok m' =>
          exact h.tallied (tallied_remove_path hr) (pending_remove_path hr)
      | error msg => exact h
  | add path recursive types size track_cmd max_depth =>
      rw [handle_socket_cmd]
      cases hallowed : check_path_allowed path with
      | some msg => exact h
      | none =>
          obtain ⟨hqueue, hdrops⟩ := hcounts hallowed
          simp only
          generalize hm₁ : m.prepare_add os path (cmd_filter track_cmd) = m₁ at hqueue hdrops
          have htried : Tallied (m.retain_others path (cmd_filter track_cmd)) m₁ ∧
              m₁.inotify_state.pending_paths = m.inotify_state.pending_paths := by
            rw [← hm₁, prepare_add]
            split
            · exact ⟨.refl _, rfl⟩
            · exact ⟨tallied_try_remove os _ path, (try_remove_entries os _ path).2⟩
          have hkept : ¬ m.DropsEntry path (cmd_filter track_cmd) →
              Tallied m (m.retain_others path (cmd_filter track_cmd)) := by
            intro hnone
            refine .still rfl (List.filter_eq_self.2 fun e he => ?_) rfl rfl
            by_contra hdrop
            exact hnone ⟨e, he, by simpa using hdrop⟩
          by_cases hdrop : m.DropsEntry path (cmd_filter track_cmd)
          · obtain ⟨haccepts, hcmd, hthere⟩ := hdrops hdrop
            obtain ⟨m₂, hadd⟩ := add_path_accepts haccepts hcmd
            obtain ⟨htally, hsame⟩ := tallied_add_path hdup hadd
            obtain ⟨hpending, hentries⟩ := hsame hqueue
            have hm : (m.retain_others path (cmd_filter track_cmd)).Reporting :=
              ⟨h.reporting.enabled, h.reporting.spawns⟩
            have hm' := htried.1.reporting hm
            rw [hadd]
            refine ⟨htally.reporting hm', ?_, htally.groups hm' (htried.1.groups hm h.groups), ?_⟩
            · rcases hentries with hentries | ⟨hpath, hexists⟩
              · exact hentries hm'
              · rcases hthere with hpath' | hexists'
                · exact absurd hpath' hpath
                · rw [show os.exists (os.canonical path) = false from hexists] at hexists'
                  cases hexists'
            · rw [PendingCounted, htally.pending, htried.1.pending, hpending, htried.2]
              exact h.pending
          · have hprepared : m₁.Counted := h.tallied ((hkept hdrop).trans htried.1) htried.2
            cases hadd : m₁.add_path os (add_request path recursive types size track_cmd max_depth) with
            | error msg => exact hprepared
            | ok m₂ =>
                obtain ⟨htally, hsame⟩ := tallied_add_path hdup hadd
                exact hprepared.tallied htally (hsame hqueue).1

/-- A reload queues nothing. -/
def ReloadCounts (os : Os) (m : Monitor) (entry : PathEntry) : Prop :=
  entry.path ∉ m.paths → ¬ WouldQueue os m entry

theorem counted_reload {os : Os} (hdup : os.dup_ok = true) {m : Monitor} (h : m.Counted)
    {store : Except Str Monitored}
    (hcounts : ∀ s, store = .ok s → Run.Guarded (reload_add os) (ReloadCounts os) m s.flatten) :
    (m.reload_config os store).2.Counted := by
  have hadd : ∀ (m : Monitor) (e : PathEntry), m.Counted → ReloadCounts os m e → (m.reload_add os e).Counted := by
    intro m e hm hcount
    rw [reload_add]
    split
    · exact hm
    · next hpath =>
      cases ha : m.add_path os e with
      | error msg => exact hm
      | ok m' =>
          obtain ⟨htally, hsame⟩ := tallied_add_path hdup ha
          exact hm.tallied htally (hsame (hcount hpath)).1
  have hremove : ∀ (flat : List PathEntry) (ps : List PathBuf) (m : Monitor), m.Counted →
      (ps.foldl (reload_remove os flat) m).Counted := by
    intro flat ps m hm
    refine List.foldlRecOn (motive := Counted) ps _ hm ?_
    intro m hm p _
    rw [reload_remove]
    split
    · exact hm
    · exact hm.tallied (tallied_try_remove os m p) (try_remove_entries os m p).2
  cases store with
  | error e => exact h
  | ok s => exact hremove _ _ _ (Run.inv_exec hadd s.flatten m h (hcounts s rfl))

/-! ### Deletions -/

theorem prefix_pushed (path : PathBuf) (opts : List PathOptions) : ∀ m : Monitor,
    Tallied m (opts.foldl (push_pending path) m) ∧
      m.inotify_state.pending_paths <+:
        (opts.foldl (push_pending path) m).inotify_state.pending_paths := by
  refine Run.rel_foldl (R := fun m m' =>
    Tallied m m' ∧ m.inotify_state.pending_paths <+: m'.inotify_state.pending_paths)
    (fun m => ⟨.refl m, List.prefix_rfl⟩) (fun h h' => ⟨h.1.trans h'.1, h.2.trans h'.2⟩) ?_ opts
  intro m o
  rw [push_pending]
  split
  · exact ⟨.refl m, List.prefix_rfl⟩
  · exact ⟨tallied_with_pending m _, List.prefix_append ..⟩

theorem to_count_inotify_deleted {os : Os} (hdup : os.dup_ok = true) {m : Monitor} (h : m.ToCount)
    (path : PathBuf) :
    (m.inotify_deleted os path).ToCount := by
  have hremoved := tallied_try_remove os m path
  obtain ⟨hpushed, hprefix⟩ := prefix_pushed path (m.opts_for_path path) (m.try_remove os path)
  rw [(try_remove_entries os m path).2] at hprefix
  refine h.tallied ((hremoved.trans hpushed).trans (tallied_add_temp_parent_mark hdup _ path)) ?_
  rw [show (m.inotify_deleted os path).inotify_state.pending_paths = _ from
    congrArg Plan.pending_paths (plan_add_temp_parent_mark os _ path)]
  exact hprefix

theorem to_count_root_gone {os : Os} (hdup : os.dup_ok = true) {m : Monitor} (h : m.ToCount)
    (root : PathBuf) :
    (m.root_gone os root).ToCount := by
  refine h.tallied ((((tallied_try_remove os m root).trans (tallied_with_pending _ _)).trans
    (tallied_setup os _)).trans (tallied_add_temp_parent_mark hdup _ root)) ?_
  rw [root_gone_pending, queue_of]
  exact List.prefix_append ..

/-! ### Steps -/

/-- The retries of an inotify batch. -/
def InotifyRetries (os : Os) (m : Monitor) : Option (List InotifyEvent) → Prop
  | none => m.RetryShares os
  | some events =>
      (events.filterMap m.deleted_path ≠ [] →
          (((events.filterMap m.deleted_path).foldl (inotify_deleted os) m).setup_inotify_watches
            os).RetryShares os) ∧
        (events.foldl (inotify_created os) (m.after_deleted os events)).RetryShares os

/-- The retry for a root that an event says is gone. -/
def EventRetries (os : Os) (m : Monitor) (raw : DecodedEvent) : Prop :=
  raw.mask &&& FAN_Q_OVERFLOW = 0 → m.is_skipped raw = false →
    ∀ root, m.gone_root (mask_to_event_types raw.mask) raw.path = some root →
      (((m.counted raw).recorded os raw).root_gone os root).RetryShares os

def BatchRetries : (Nat → Os) → Monitor → List DecodedEvent → Prop
  | _, _, [] => True
  | os, m, raw :: rest =>
      EventRetries (os 0) m raw ∧ BatchRetries (fun i => os (i + 1)) (process_event (os 0) m raw).1 rest

/-- What each step must not do: queue an entry, drop one for nothing, fail to spawn a reader, or take
the last reference of a group with a temporary mark. -/
def Counts (m : Monitor) : Step → Prop
  | .factory | .init _ | .tasks _ => False
  | .socket os cmd => os.dup_ok = true ∧ m.SocketCounts os cmd
  | .reload os store =>
      os.dup_ok = true ∧ ∀ s, store = .ok s → Run.Guarded (reload_add os) (ReloadCounts os) m s.flatten
  | .retry os => os.dup_ok = true ∧ m.RetryShares os
  | .inotify os events => os.dup_ok = true ∧ (m.inotify_state.inotify = true → m.InotifyRetries os events)
  | .batch os events =>
      (∀ i, (os i).dup_ok = true) ∧
        BatchRetries os
          { m with metrics := m.metrics.inc_events_unresolved_rename (expand_renames events).2 }
          (expand_renames events).1

theorem counted_inotify {os : Os} (hdup : os.dup_ok = true) {m : Monitor} (h : m.Counted)
    {events : Option (List InotifyEvent)}
    (hcounts : m.inotify_state.inotify = true → m.InotifyRetries os events) :
    (m.handle_inotify_events os events).Counted := by
  have hcreated : ∀ (evs : List InotifyEvent) (m : Monitor), m.ToCount →
      (evs.foldl (inotify_created os) m).ToCount := by
    intro evs m hm
    refine List.foldlRecOn (motive := ToCount) evs _ hm ?_
    intro m hm ev _
    rw [inotify_created]
    cases m.new_dir_of ev with
    | none => exact hm
    | some dir =>
        obtain ⟨ts, hplan⟩ := plan_on_new_subdirectory os m dir
        have hpending : (m.on_new_subdirectory os dir).1.inotify_state.pending_paths =
            m.inotify_state.pending_paths := congrArg Plan.pending_paths hplan
        refine hm.tallied (tallied_on_new_subdirectory os m dir) ?_
        simp only [hpending]
        exact List.prefix_rfl
  have hdeleted : ∀ (ps : List PathBuf) (m : Monitor), m.ToCount →
      (ps.foldl (inotify_deleted os) m).ToCount := by
    intro ps m hm
    refine List.foldlRecOn (motive := ToCount) ps _ hm ?_
    intro m hm p _
    exact to_count_inotify_deleted hdup hm p
  cases events with
  | none =>
      rw [handle_inotify_events]
      split
      · exact h
      · next hon => exact counted_check_pending hdup h.to_count (hcounts (by simpa using hon))
  | some evs =>
      rw [handle_inotify_events_eq]
      split
      · exact h
      · next hon =>
        obtain ⟨hfirst, hlast⟩ := hcounts (by simpa using hon)
        refine counted_check_pending hdup (hcreated evs _ ?_) hlast
        rw [after_deleted]
        split
        · exact hdeleted _ m h.to_count
        · next hsome =>
          refine (counted_check_pending hdup ?_ (hfirst hsome)).to_count
          refine (hdeleted _ m h.to_count).tallied (tallied_setup os _) ?_
          rw [show (setup_inotify_watches os _).inotify_state.pending_paths = _ from
            congrArg Plan.pending_paths (plan_setup_inotify_watches os _)]
          exact List.prefix_rfl

theorem counted_recorded {m : Monitor} (h : m.Counted) (os : Os) (raw : DecodedEvent) :
    (m.recorded os raw).Counted := by
  have hrecords : ∀ (es : List (PathBuf × PathOptions)) (r : Monitor × List PendingEvent),
      Tallied r.1 (es.foldl (record_entry os raw) r).1 :=
    Run.rel_foldl (R := fun r r' : Monitor × List PendingEvent => Tallied r.1 r'.1) (fun r => .refl r.1)
      Tallied.trans (tallied_record_entry os raw)
  refine h.tallied ?_ (congrArg Core.pending_paths (Stable.recorded_core os m raw))
  rw [recorded]
  refine Tallied.trans ?_ (hrecords _ (_, []))
  split
  · exact tallied_on_new_subdirectory os m raw.path
  · exact .refl m

theorem counted_event {os : Os} (hdup : os.dup_ok = true) {m : Monitor} (h : m.Counted)
    {raw : DecodedEvent}
    (hcounts : EventRetries os m raw) : (process_event os m raw).1.Counted := by
  have hseen : (m.counted raw).Counted := by
    rw [counted]
    split
    · exact ⟨⟨h.reporting.enabled, h.reporting.spawns⟩, h.entries, h.groups, h.pending⟩
    · exact h
  have hgone : (m.counted raw).gone_root (mask_to_event_types raw.mask) raw.path =
      m.gone_root (mask_to_event_types raw.mask) raw.path := by
    rw [counted]
    split <;> rfl
  have hskipped : (m.counted raw).is_skipped raw = m.is_skipped raw := by
    rw [counted]
    split <;> rfl
  rw [process_event]
  split
  · exact ⟨⟨h.reporting.enabled, h.reporting.spawns⟩, h.entries, h.groups, h.pending⟩
  · next hmask =>
    show (handle_event os (m.counted raw) raw).1.Counted
    rw [Stable.handle_event_eq, hskipped, hgone]
    split
    · exact hseen
    · next hskip =>
      have hrecorded := counted_recorded hseen os raw
      cases hroot : m.gone_root (mask_to_event_types raw.mask) raw.path with
      | none => exact hrecorded
      | some root =>
          simp only
          rw [handle_canonical_root_deleted_eq]
          exact counted_check_pending hdup (to_count_root_gone hdup hrecorded.to_count root)
            (hcounts (by simpa using hmask) (by simpa using hskip) root hroot)

theorem counted_events (raws : List DecodedEvent) : ∀ {os : Nat → Os}, (∀ i, (os i).dup_ok = true) →
    ∀ m : Monitor, m.Counted → BatchRetries os m raws → (process_events os m raws).1.Counted := by
  induction raws with
  | nil => exact fun _ m hm _ => hm
  | cons raw raws ih =>
      exact fun hdup m hm hcounts =>
        ih (fun i => hdup (i + 1)) _ (counted_event (hdup 0) hm hcounts.1) hcounts.2

/-- **A step that counts keeps the gauges right.** -/
theorem counted_step (m : Monitor) (s : Step) (h : m.Counted) (hcounts : m.Counts s) :
    (m.step s).Counted := by
  cases s with
  | factory | init _ | tasks _ => exact hcounts.elim
  | socket os cmd => exact counted_socket hcounts.1 h hcounts.2
  | reload os store => exact counted_reload hcounts.1 h hcounts.2
  | retry os => exact counted_check_pending hcounts.1 h.to_count hcounts.2
  | inotify os events => exact counted_inotify hcounts.1 h hcounts.2
  | batch os events =>
      refine counted_events _ hcounts.1 _ ?_ hcounts.2
      exact ⟨⟨h.reporting.enabled, h.reporting.spawns⟩, h.entries, h.groups, h.pending⟩

/-! ## The start -/

omit [Sizefilter] in
/-- The gauges are first set here. -/
def print_startup_status (m : Monitor) : Monitor := m.count_monitored.count_pending.count_groups

/-- The start of `run`, with its status report. -/
def launch (os : Os) (cfg : MonitorConfig) : Except Str Monitor :=
  match new os cfg with
  | .error e => .error e
  | .ok m =>
      match m.spawn_factory.init_fanotify os with
      | .error e => .error e
      | .ok m' => .ok (m'.print_startup_status.spawn_tasks os)

omit [Sizefilter] in
theorem enabled_spawn_fd_reader (os : Os) (m : Monitor) (key : Nat) :
    (m.spawn_fd_reader os key).metrics.enabled = m.metrics.enabled := by
  rw [spawn_fd_reader]
  split
  · exact MetricsRegistry.enabled_set_reader_groups ..
  · rfl

omit [Sizefilter] in
/-- A reader that is spawned counts the groups again. -/
theorem counted_spawn_fd_reader (os : Os) {m : Monitor} (h : m.Counted) (key : Nat) :
    (m.spawn_fd_reader os key).Counted := by
  have hledger := ledger_spawn_fd_reader os m key
  refine ⟨⟨(enabled_spawn_fd_reader os m key).trans h.reporting.enabled, ?_⟩, ?_, ?_, ?_⟩
  · rw [hledger]
    exact h.reporting.spawns
  all_goals
    rw [spawn_fd_reader]
    split
  · rw [EntriesCounted, count_groups, MetricsRegistry.set_reader_groups, if_pos h.reporting.enabled]
    exact h.entries
  · exact h.entries
  · rw [GroupsCounted, count_groups, MetricsRegistry.set_reader_groups, if_pos h.reporting.enabled]
  · exact h.groups
  · rw [PendingCounted, count_groups, MetricsRegistry.set_reader_groups, if_pos h.reporting.enabled]
    exact h.pending
  · exact h.pending

/-- **The gauges are right at the start**, if metrics are on. -/
theorem counted_launch {os : Os} {cfg : MonitorConfig} {m : Monitor} (h : launch os cfg = .ok m)
    (henabled : m.metrics.enabled = true) : m.Counted := by
  have hspawned : ∀ (keys : List Nat) (m : Monitor), m.Counted →
      (keys.foldl (spawn_fd_reader os) m).Counted := by
    intro keys m hm
    refine List.foldlRecOn (motive := Counted) keys _ hm ?_
    intro m hm key _
    exact counted_spawn_fd_reader os hm key
  have hkept : ∀ (keys : List Nat) (m : Monitor),
      (keys.foldl (spawn_fd_reader os) m).metrics.enabled = m.metrics.enabled :=
    Run.frame_exec (f := fun m : Monitor => m.metrics.enabled) (enabled_spawn_fd_reader os)
  rw [launch] at h
  split at h
  · cases h
  · split at h
    · cases h
    · next m₁ _ =>
      cases h
      rw [spawn_tasks, hkept] at henabled
      refine hspawned _ _ ⟨⟨henabled, rfl⟩, ?_, ?_, ?_⟩
      all_goals
        have hon : m₁.metrics.enabled = true := by
          simpa [print_startup_status, count_groups, count_pending, count_monitored] using henabled
      · simp [EntriesCounted, print_startup_status, count_groups, count_pending, count_monitored,
          MetricsRegistry.set_reader_groups, MetricsRegistry.set_pending_paths,
          MetricsRegistry.set_monitored_paths, hon]
      · simp [GroupsCounted, print_startup_status, count_groups, count_pending, count_monitored,
          MetricsRegistry.set_reader_groups, MetricsRegistry.set_pending_paths,
          MetricsRegistry.set_monitored_paths, hon]
      · simp [PendingCounted, print_startup_status, count_groups, count_pending, count_monitored,
          MetricsRegistry.set_reader_groups, MetricsRegistry.set_pending_paths,
          MetricsRegistry.set_monitored_paths, hon]

end

end Monitor

end Fsmon
