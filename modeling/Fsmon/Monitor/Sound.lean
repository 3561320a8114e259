/-
# `Fsmon.Monitor.Sound` — the books of a daemon that is at work

Once a daemon is started, each of its entries has its root, a root is listed once
and under its canonical path, and no group has more users than references
(`View.Sound`); and a pending entry waits under the path it names (`Core.Named`).
Every act keeps this, so every step does (`sound_run`).
-/
import Fsmon.Monitor.CoverStart
import Fsmon.Monitor.Distinct
import Fsmon.Monitor.Heard
import Fsmon.Monitor.Ledger

namespace Fsmon.Monitor

/-! ## The books -/

namespace View

structure Sound (v : View) : Prop where
  rooted : ∀ e ∈ v.monitored_entries, e.1 ∈ v.paths
  canonical : v.canonical_paths = v.paths
  nodup : v.paths.Nodup
  counted : v.Counted

theorem Sound.grow {v v' : View} (h : v.Sound) (hgrow : v.Grow v')
    (hrooted : ∀ e ∈ v'.monitored_entries, e.1 ∈ v'.paths) (hnodup : v'.paths.Nodup) : v'.Sound :=
  ⟨hrooted, hgrow.canonical h.canonical, hnodup, hgrow.counted h.counted⟩

theorem Sound.grow_same {v v' : View} (h : v.Sound) (hgrow : v.Grow v')
    (hentries : v'.monitored_entries = v.monitored_entries) (hpaths : v'.paths = v.paths) : v'.Sound := by
  refine h.grow hgrow ?_ (hpaths ▸ h.nodup)
  rw [hentries, hpaths]
  exact h.rooted

/-- Entries are dropped. -/
theorem Sound.filter {v : View} (h : v.Sound) (keep : PathBuf × PathOptions → Bool) :
    Sound { v with monitored_entries := v.monitored_entries.filter keep } :=
  ⟨fun e he => h.rooted e (List.mem_of_mem_filter he), h.canonical, h.nodup, h.counted⟩

end View

/-! ### Removing -/

/-- The state without the entries that `remove_path` drops. -/
def left (m : Monitor) (path : PathBuf) (cmd : Option String) : Monitor :=
  { m with monitored_entries := m.monitored_entries.filter (keeps path cmd) }

/-- The path has entries, and `remove_path` drops them all. -/
def Drops (m : Monitor) (path : PathBuf) (cmd : Option String) : Prop :=
  (∃ e ∈ m.monitored_entries, e.1 = path) ∧ ∀ e ∈ m.monitored_entries, e.1 = path → keeps path cmd e = false

instance (m : Monitor) (path : PathBuf) (cmd : Option String) : Decidable (m.Drops path cmd) :=
  inferInstanceAs (Decidable (_ ∧ _))

theorem keeps_of_ne {path : PathBuf} {cmd : Option String} {e : PathBuf × PathOptions} (h : e.1 ≠ path) :
    keeps path cmd e = true := by rw [keeps.eq_def, if_pos h]

/-- Then the root is forgotten. -/
theorem removed_of_drops (os : Os) {m : Monitor} {path : PathBuf} {cmd : Option String}
    (h : m.Drops path cmd) :
    m.removed os path cmd = ((m.left path cmd).forget_path os path).count_monitored.count_groups := by
  obtain ⟨⟨e, he, heq⟩, hdropped⟩ := h
  have hfewer : (m.monitored_entries.filter (keeps path cmd)).length < m.monitored_entries.length :=
    List.length_filter_lt_length_iff_exists.2 ⟨e, he, by simp [hdropped e he heq]⟩
  have hother : ((m.monitored_entries.filter (keeps path cmd)).any fun e => e.1 = path) = false := by
    refine List.any_eq_false.2 fun d hd hdpath => ?_
    obtain ⟨hd, hkeep⟩ := List.mem_filter.1 hd
    rw [hdropped d hd (of_decide_eq_true hdpath)] at hkeep
    cases hkeep
  rw [removed, remove_path]
  simp only [hother, Bool.false_eq_true, if_false]
  rw [if_neg (by omega)]
  rfl

/-- Else it stays, marked for the entries that are left. -/
theorem removed_of_not_drops (os : Os) {m : Monitor} {path : PathBuf} {cmd : Option String}
    (h : ¬ m.Drops path cmd) :
    (m.removed os path cmd).ledger = m.ledger ∧ ∃ k, Kernel.Adds m.kernel k ∧
      (m.removed os path cmd).view = { (m.left path cmd).view with kernel := k } := by
  rw [removed]
  cases hm : m.remove_path os path cmd with
  | error e =>
      have hall : m.monitored_entries.filter (keeps path cmd) = m.monitored_entries := remove_path_error hm
      refine ⟨rfl, m.kernel, .refl _, ?_⟩
      rw [left, hall]
      rfl
  | ok m' =>
      rw [remove_path] at hm
      simp only at hm
      split at hm
      · cases hm
      · next hfewer =>
          cases hm
          have hother : ((m.monitored_entries.filter (keeps path cmd)).any fun e => e.1 = path) = true := by
            by_contra hnone
            have hgone : ∀ e ∈ m.monitored_entries, e.1 = path → keeps path cmd e = false := by
              intro e he heq
              by_contra hkeep
              rw [Bool.not_eq_false] at hkeep
              exact hnone (List.any_eq_true.2 ⟨e, List.mem_filter.2 ⟨he, hkeep⟩, decide_eq_true heq⟩)
            refine h ⟨by_contra fun habsent => hfewer ?_, hgone⟩
            have hall : m.monitored_entries.filter (keeps path cmd) = m.monitored_entries :=
              List.filter_eq_self.2 fun e he => keeps_of_ne fun heq => habsent ⟨e, he, heq⟩
            show m.monitored_entries.length - (m.monitored_entries.filter (keeps path cmd)).length = 0
            rw [hall, Nat.sub_self]
          rw [if_pos hother]
          refine ⟨?_, (m.left path cmd).widened os path (m.left path cmd).monitored_entries,
            adds_widened .., ?_⟩
          · exact ledger_remark_path os (m.left path cmd) path
          · exact view_remark_path os (m.left path cmd) path

/-- What is left of the view when a root is forgotten. -/
structure Forgotten (m : Monitor) (path : PathBuf) (v : View) (groups : SlotMap FsGroup) (k : Kernel) :
    Prop where
  view : v =
    { m.view with
      paths := m.paths.erase path
      canonical_paths := m.paths.erase path
      groups := groups
      path_to_group := m.fanotify.path_to_group.erase path
      kernel := k }
  groups : (m.fanotify.path_to_group.lookup path = none ∧ groups = m.fanotify.groups) ∨
    ∃ key group, m.fanotify.path_to_group.lookup path = some key ∧
      m.fanotify.groups.get key = some group ∧ groups = released m.fanotify.groups key group

theorem view_forget_path (os : Os) {m : Monitor} {path : PathBuf} (hcanonical : m.canonical_paths = m.paths)
    (hcounted : m.view.Counted) (hpath : path ∈ m.paths) :
    ∃ groups k, Forgotten m path (m.forget_path os path).view groups k := by
  have herase : m.paths.eraseIdx (m.paths.idxOf path) = m.paths.erase path :=
    (List.erase_eq_eraseIdx_of_idxOf rfl).symm
  rw [forget_path, if_pos hpath]
  simp only
  cases hkey : m.fanotify.path_to_group.lookup path with
  | none =>
      have hunmapped : m.release_root os path (m.paths.idxOf path) = m := by rw [release_root, hkey]
      refine ⟨m.fanotify.groups, m.kernel, ?_, .inl ⟨hkey, rfl⟩⟩
      rw [hunmapped, hcanonical, herase]
      rfl
  | some key =>
      obtain ⟨group, hgroup⟩ := hcounted.group_of_user (@View.users_pos m.view path key hkey)
      have hplace : m.canonical_paths[m.paths.idxOf path]? = some path := by
        rw [hcanonical, List.getElem?_eq_getElem (List.idxOf_lt_length_of_mem hpath), List.getElem_idxOf]
      have hview := view_release_root os hkey hgroup hplace
      refine ⟨_, m.unmarked os group.fan_fd path, ?_, .inr ⟨key, group, hkey, hgroup, rfl⟩⟩
      generalize m.release_root os path (m.paths.idxOf path) = m₁ at hview ⊢
      show ({ m₁.view with
          paths := m₁.view.paths.eraseIdx (m.paths.idxOf path)
          canonical_paths := m₁.view.canonical_paths.eraseIdx (m.paths.idxOf path)
          path_to_group := m₁.view.path_to_group.erase path } : View) = _
      rw [hview]
      show ({ m.view with
          paths := m.paths.eraseIdx (m.paths.idxOf path)
          canonical_paths := m.canonical_paths.eraseIdx (m.paths.idxOf path)
          groups := _, path_to_group := _, kernel := _ } : View) = _
      rw [hcanonical, herase]
      rfl

theorem ledger_forget_path (os : Os) {m : Monitor} {path : PathBuf} (hcanonical : m.canonical_paths = m.paths)
    {key : Nat} {group : FsGroup} (hpath : path ∈ m.paths)
    (hkey : m.fanotify.path_to_group.lookup path = some key)
    (hgroup : m.fanotify.groups.get key = some group) :
    (m.forget_path os path).ledger = m.ledger.release key group := by
  have hplace : m.canonical_paths[m.paths.idxOf path]? = some path := by
    rw [hcanonical, List.getElem?_eq_getElem (List.idxOf_lt_length_of_mem hpath), List.getElem_idxOf]
  rw [forget_path, if_pos hpath]
  exact ledger_release_root os hkey hgroup hplace

theorem ledger_forget_unmapped (os : Os) {m : Monitor} {path : PathBuf}
    (hkey : m.fanotify.path_to_group.lookup path = none) : (m.forget_path os path).ledger = m.ledger := by
  rw [forget_path]
  split
  · show (m.release_root os path (m.paths.idxOf path)).ledger = _
    rw [release_root, hkey]
  · rfl

theorem Forgotten.sound {m : Monitor} {path : PathBuf} {v : View} {groups : SlotMap FsGroup} {k : Kernel}
    (h : Forgotten m path v groups k) (hm : m.view.Sound) (hgone : ∀ e ∈ m.monitored_entries, e.1 ≠ path) :
    v.Sound := by
  obtain ⟨rfl, hgroups⟩ := h
  refine ⟨fun e he => (List.mem_erase_of_ne (hgone e he)).2 (hm.rooted e he), rfl, hm.nodup.erase path, ?_⟩
  rcases hgroups with ⟨_, rfl⟩ | ⟨key, group, hkey, hgroup, rfl⟩
  · intro q
    exact Nat.le_trans (Nat.add_le_add_right (HashMap.count_erase_le ..) _) (hm.counted q)
  · have hused : HashMap.count (m.fanotify.path_to_group.erase path) (· = key) + 1 =
        HashMap.count m.fanotify.path_to_group (· = key) :=
      HashMap.count_erase hkey (decide_eq_true rfl)
    refine (View.counted_release hm.counted hgroup rfl ?_ fun q => ?_).1
    · simp only [View.users, Monitor.view]
      omega
    · exact Nat.add_le_add_right (HashMap.count_erase_le ..) _

theorem sound_removed (os : Os) {m : Monitor} (h : m.view.Sound) (path : PathBuf) (cmd : Option String) :
    (m.removed os path cmd).view.Sound := by
  have hleft : (m.left path cmd).view.Sound := h.filter (keeps path cmd)
  by_cases hdrops : m.Drops path cmd
  · have hgone : ∀ e ∈ (m.left path cmd).monitored_entries, e.1 ≠ path := by
      intro e he heq
      obtain ⟨he, hkeep⟩ := List.mem_filter.1 he
      rw [hdrops.2 e he heq] at hkeep
      cases hkeep
    obtain ⟨e, he, heq⟩ := hdrops.1
    have hpath : path ∈ (m.left path cmd).paths := heq ▸ h.rooted e he
    obtain ⟨groups, k, hforgot⟩ := view_forget_path os hleft.canonical hleft.counted hpath
    rw [removed_of_drops os hdrops]
    exact hforgot.sound hleft hgone
  · obtain ⟨_, k, hadds, hview⟩ := removed_of_not_drops os hdrops
    rw [hview]
    exact hleft.grow_same (.of_adds hadds _) rfl rfl

theorem sound_remove_temp_parent_mark (os : Os) {m : Monitor} (h : m.view.Sound) (target : PathBuf) :
    (m.remove_temp_parent_mark os target).view.Sound := by
  cases hmark : m.inotify_state.temp_parent_marks.lookup target with
  | none =>
      have hnone : m.remove_temp_parent_mark os target = m := by rw [remove_temp_parent_mark, hmark]
      rw [hnone]
      exact h
  | some found =>
      obtain ⟨parent, key⟩ := found
      have hused : HashMap.count (m.inotify_state.temp_parent_marks.erase target) (·.2 = key) + 1 =
          HashMap.count m.inotify_state.temp_parent_marks (·.2 = key) :=
        HashMap.count_erase hmark (decide_eq_true rfl)
      have hless : HashMap.count m.fanotify.path_to_group (· = key) +
          HashMap.count (m.inotify_state.temp_parent_marks.erase target) (·.2 = key) + 1 ≤
            m.view.users key := by
        rw [Nat.add_assoc, hused]
        exact Nat.le_refl _
      obtain ⟨group, hgroup⟩ : ∃ group, m.fanotify.groups.get key = some group :=
        h.counted.group_of_user (Nat.lt_of_lt_of_le (Nat.succ_pos _) hless)
      rw [view_remove_temp_parent_mark hmark hgroup]
      refine ⟨h.rooted, h.canonical, h.nodup, ?_⟩
      refine (View.counted_release h.counted hgroup rfl ?_ fun q => ?_).1
      · exact hless
      · exact Nat.add_le_add_left (HashMap.count_erase_le ..) _

/-! ### Adding -/

section
variable [Sizefilter]

theorem grow_add_path {os : Os} {m m' : Monitor} {entry : PathEntry} (h : m.add_path os entry = .ok m') :
    m.view.Grow m'.view := by
  simp only [add_path] at h
  split at h
  · split at h
    · cases h
    · cases h
      rw [view_add_cmd]
      exact .of_adds (adds_widened ..) _
  · next hpath =>
      split at h
      · cases h
      · split at h
        · cases h
          rw [view_queue_pending]
          exact .refl _
        · split at h
          · cases h
          · split at h
            · cases h
            · split at h
              · cases h
              · exact (grow_add_root (os.canonical_idem entry.path) hpath h).1

theorem sound_add_path {os : Os} {m m' : Monitor} {entry : PathEntry} (h : m.view.Sound)
    (hadd : m.add_path os entry = .ok m') : m'.view.Sound := by
  refine h.grow (grow_add_path hadd) ((add_path_core hadd).rooted h.rooted) ?_
  have hadded := add_path_core hadd
  show m'.core.paths.Nodup
  generalize m'.core = c at hadded
  cases hadded with
  | cmd opts hpath hopts => exact h.nodup
  | pending hpath hexists => exact h.nodup
  | root opts hpath hexists hopts hlog hcmd => exact List.concat_eq_append ▸ h.nodup.concat hpath

/-- **Every act** keeps the books. -/
theorem sound_perform {Ok : Os → Prop} (m : Monitor) (a : Act) (h : m.view.Sound) (hapart : Apart Ok m a) :
    (m.perform a).view.Sound := by
  cases a with
  | add os entry =>
      rw [perform]
      cases hadd : m.add_path os entry with
      | ok m' => exact sound_add_path h hadd
      | error e => exact h
  | remove os path cmd => exact sound_removed os h path cmd
  | retain path cmd => exact h.filter fun e => !(e.1 = path && e.2.cmd = cmd)
  | temp os target =>
      exact h.grow_same (grow_add_temp_parent_mark os m target) (entries_add_temp_parent_mark os m target)
        (congrArg Plan.paths (plan_add_temp_parent_mark os m target))
  | untemp os target => exact sound_remove_temp_parent_mark os h target
  | subdir os path =>
      exact h.grow_same (grow_on_new_subdirectory os m path).1 (grow_on_new_subdirectory os m path).2
        (congrArg Core.paths (core_on_new_subdirectory os m path))
  | other m' =>
      have hview : m'.view = m.view := hapart.1
      show m'.view.Sound
      rw [hview]
      exact h

theorem Through.sound {Ok : Os → Prop} {m m' : Monitor} (h : Through Ok m m') (hm : m.view.Sound) : m'.view.Sound := by
  obtain ⟨acts, rfl, hapart⟩ := h
  exact Run.inv_exec (fun m a hm ha => sound_perform m a hm ha) acts m hm hapart

/-! ### Groups -/

omit [Sizefilter] in
/-- The group whose reference an act gives back. -/
def gives_back (m : Monitor) : Act → Option Nat
  | .remove _ path cmd => if m.Drops path cmd then m.fanotify.path_to_group.lookup path else none
  | .untemp _ target => (m.inotify_state.temp_parent_marks.lookup target).map (·.2)
  | _ => none

omit [Sizefilter] in
/-- A reader can be spawned for a group that the act makes. -/
def Act.dup_ok : Act → Bool
  | .add os _ | .temp os _ => os.dup_ok
  | _ => true

/-- A reference that is given back is given back to a group that is there. -/
theorem ledger_returns {m : Monitor} {a : Act} {key : Nat} (h : m.view.Sound)
    (hback : m.gives_back a = some key) :
    ∃ group, m.fanotify.groups.get key = some group ∧ (m.perform a).ledger = m.ledger.release key group := by
  cases a with
  | remove os path cmd =>
      rw [gives_back] at hback
      split at hback
      · next hdrops =>
          obtain ⟨e, he, heq⟩ := hdrops.1
          have hpath : path ∈ (m.left path cmd).paths := heq ▸ h.rooted e he
          obtain ⟨group, hgroup⟩ := h.counted.group_of_user (@View.users_pos m.view path key hback)
          refine ⟨group, hgroup, ?_⟩
          rw [perform, removed_of_drops os hdrops]
          exact ledger_forget_path os (m := m.left path cmd) h.canonical hpath hback hgroup
      · cases hback
  | untemp os target =>
      obtain ⟨⟨parent, found⟩, hmark, hfound⟩ := Option.map_eq_some_iff.1 hback
      cases hfound
      obtain ⟨group, hgroup⟩ := h.counted.group_of_user (@View.users_pos_temp m.view target parent found hmark)
      exact ⟨group, hgroup, ledger_remove_temp_parent_mark os hmark hgroup⟩
  | add | retain | temp | subdir | other => cases hback

/-- Any other act gains a reference at most. -/
theorem ledger_gains {Ok : Os → Prop} {m : Monitor} {a : Act} (hapart : Apart Ok m a)
    (hback : m.gives_back a = none) : Ledger.Gain a.dup_ok m.ledger (m.perform a).ledger := by
  have hjoined : ∀ {os : Os} {m' : Monitor},
      (m'.ledger = m.ledger ∨ ∃ dev_id key, Joined os m m' dev_id key) →
        Ledger.Gain os.dup_ok m.ledger m'.ledger := by
    rintro os m' (hsame | ⟨dev_id, key, hjoined⟩)
    · rw [hsame]
      exact .same
    · exact hjoined.gain
  cases a with
  | add os entry =>
      rw [perform]
      cases hadd : m.add_path os entry with
      | ok m' => exact hjoined (ledger_add_path hadd)
      | error e => exact .same
  | remove os path cmd =>
      rw [perform]
      by_cases hdrops : m.Drops path cmd
      · rw [gives_back, if_pos hdrops] at hback
        rw [removed_of_drops os hdrops]
        show Ledger.Gain true _ ((m.left path cmd).forget_path os path).ledger
        rw [ledger_forget_unmapped os (m := m.left path cmd) hback]
        exact .same
      · rw [(removed_of_not_drops os hdrops).1]
        exact .same
  | retain path cmd => exact .same
  | temp os target => exact hjoined (joined_add_temp_parent_mark os m target)
  | untemp os target =>
      have hmark := Option.map_eq_none_iff.1 hback
      rw [perform, remove_temp_parent_mark, hmark]
      exact .same
  | subdir os path =>
      rw [perform, ledger_on_new_subdirectory]
      exact .same
  | other m' =>
      rw [perform, hapart.2]
      exact .same

theorem aged_perform {Ok : Os → Prop} {m : Monitor} {a : Act} (h : m.view.Sound) (hapart : Apart Ok m a) :
    Aged m.fanotify.groups (m.perform a).fanotify.groups := by
  cases hback : m.gives_back a with
  | none => exact (ledger_gains hapart hback).aged
  | some key =>
      obtain ⟨group, _, hledger⟩ := ledger_returns h hback
      rw [show (m.perform a).fanotify.groups = released m.fanotify.groups key group from
        congrArg Ledger.groups hledger]
      exact aged_released ..

theorem Through.aged {Ok : Os → Prop} {m m' : Monitor} (h : Through Ok m m') (hm : m.view.Sound) :
    Aged m.fanotify.groups m'.fanotify.groups := by
  obtain ⟨acts, rfl, hapart⟩ := h
  refine (@Run.inv_exec _ _ _ _ (fun m' => m'.view.Sound ∧ Aged m.fanotify.groups m'.fanotify.groups)
    (fun m' a hm' ha => ?_) acts m ⟨hm, .refl _⟩ hapart).2
  exact ⟨sound_perform m' a hm'.1 ha, hm'.2.trans (aged_perform hm'.1 ha)⟩

/-! ## The start -/

theorem sound_init {os : Os} {cfg : MonitorConfig} {m m' : Monitor} (hnew : new os cfg = .ok m)
    (hinit : m.spawn_factory.init_fanotify os = .ok m') : m'.view.Sound := by
  have hnew_rooted : m.spawn_factory.core.Rooted := @new_rooted os cfg m hnew
  have hrooted := (init_fanotify_entries hnew_rooted hinit).1
  have hloop := looped_init hnew hinit
  obtain ⟨hgrow, _⟩ := init_roots_held m.combined_mask (m.spawn_factory.init_paths os).paths []
    (m.spawn_factory.init_paths os, ∅) hloop.nodup hloop.selves fun _ _ h => by cases h
  refine ⟨hrooted, ?_, ?_, ?_⟩
  · have hplan := plan_init_roots os m.combined_mask
      ((m.spawn_factory.init_paths os).paths.map fun p => (p, p)) (m.spawn_factory.init_paths os, ∅)
    rw [hloop.view]
    exact (congrArg Plan.canonical_paths hplan).trans
      (hloop.canonical.trans (congrArg Plan.paths hplan).symm)
  · show m'.paths.Nodup
    rw [hloop.paths]
    exact hloop.nodup
  · rw [hloop.view]
    refine hgrow.counted fun key => ?_
    show HashMap.count (m.spawn_factory.init_paths os).fanotify.path_to_group _ +
      HashMap.count (m.spawn_factory.init_paths os).inotify_state.temp_parent_marks _ ≤ _
    rw [hloop.unmapped, hloop.untemped]
    exact Nat.zero_le _

theorem start_cases {os : Os} {cfg : MonitorConfig} {m : Monitor} (h : start os cfg = .ok m) :
    ∃ m₀ m₁, new os cfg = .ok m₀ ∧ m₀.spawn_factory.init_fanotify os = .ok m₁ ∧ m = m₁.spawn_tasks os := by
  rw [start] at h
  cases hnew : new os cfg with
  | error e =>
      rw [hnew] at h
      cases h
  | ok m₀ =>
      rw [hnew] at h
      simp only at h
      cases hinit : m₀.spawn_factory.init_fanotify os with
      | error e =>
          rw [hinit] at h
          cases h
      | ok m₁ =>
          rw [hinit] at h
          cases h
          exact ⟨m₀, m₁, rfl, hinit, rfl⟩

theorem sound_start {os : Os} {cfg : MonitorConfig} {m : Monitor} (h : start os cfg = .ok m) :
    m.view.Sound := by
  obtain ⟨m₀, m₁, hnew, hinit, rfl⟩ := start_cases h
  rw [view_spawn_tasks]
  exact sound_init hnew hinit

/-! ## Pending entries -/

/-- A pending entry waits under the path it names. -/
def Core.Named (c : Core) : Prop := ∀ e ∈ c.pending_paths, e.2.path = e.1

theorem stable_named : Stable Stable.Any Core.Named where
  fewer h _ hpending _ e he := h e (hpending.subset he)
  park path h e he := by
    rcases List.mem_append.1 he with he | he
    · exact h e he
    · obtain ⟨o, _, rfl⟩ := List.mem_map.1 he
      rfl
  added {os c c' entry} _ h _ hadded e he := by
    cases hadded with
    | cmd opts hpath hopts => exact h e he
    | root opts hpath hexists hopts hlog hcmd => exact h e he
    | pending hpath hexists =>
        have hself : os.canonical entry.path = entry.path :=
          os.canonical_of_missing (os.exists_canonical _ ▸ hexists)
        rw [Core.queued] at he
        split at he
        · exact h e he
        · rcases List.mem_append.1 he with he | he
          · exact h e he
          · rw [List.mem_singleton.1 he]
            exact hself.symm

omit [Sizefilter] in
theorem new_named {os : Os} {cfg : MonitorConfig} {m : Monitor} (h : new os cfg = .ok m) :
    m.spawn_factory.core.Named := by
  intro e he
  have hnone : m.spawn_factory.core.pending_paths = [] := @new_pending os cfg m h
  rw [hnone] at he
  cases he

theorem named_start {os : Os} {cfg : MonitorConfig} {m : Monitor} (h : start os cfg = .ok m) :
    Stable.Holds Core.Named m.core := by
  obtain ⟨m₀, m₁, hnew, hinit, rfl⟩ := start_cases h
  rw [core_spawn_tasks]
  have hnew_rooted : m₀.spawn_factory.core.Rooted := @new_rooted os cfg m₀ hnew
  exact stable_named.init_fanotify ⟨hnew_rooted, new_named hnew⟩ hinit

/-! ## Every event of every run -/

theorem through_visits : ∀ (raws : List DecodedEvent) (os : Nat → Os) (m : Monitor),
    ∀ v ∈ visits os m raws, Through AnyOs m v.monitor := by
  intro raws
  induction raws with
  | nil =>
      intro os m v hv
      cases hv
  | cons raw raws ih =>
      intro os m v hv
      rcases List.mem_cons.1 hv with rfl | hv
      · exact .refl m
      · exact (Through.event trivial m raw).trans (ih _ _ v hv)

theorem Stable.visits {Inv : Core → Prop} (h : Stable Any Inv) : ∀ (raws : List DecodedEvent)
    (os : Nat → Os) (m : Monitor), Holds Inv m.core → ∀ v ∈ visits os m raws, Holds Inv v.monitor.core := by
  intro raws
  induction raws with
  | nil =>
      intro os m _ v hv
      cases hv
  | cons raw raws ih =>
      intro os m hm v hv
      rcases List.mem_cons.1 hv with rfl | hv
      · exact hm
      · exact ih _ _ (h.event hm (batch_any [raw] os m).1) v hv

/-- **Whatever event a daemon at work looks at**, it finds the books in order. -/
theorem sound_run {os₀ : Os} {cfg : MonitorConfig} {m₀ : Monitor} (h : start os₀ cfg = .ok m₀)
    {steps : List Step} (hrun : ∀ s ∈ steps, Running s) {os : Nat → Os} {events : List DecodedEvent}
    {v : Visit} (hv : v ∈ batch_visits os (Run.exec step m₀ steps) events) :
    v.monitor.view.Sound ∧ v.monitor.core.Named := by
  have hnamed := stable_named.run_any steps m₀ (named_start h)
  have hthrough := Through.run steps m₀ hrun fun s _ => s.on_any
  generalize Run.exec step m₀ steps = m at hv hnamed hthrough
  have hcount : Through AnyOs m
      { m with metrics := m.metrics.inc_events_unresolved_rename (expand_renames events).2 } :=
    .other rfl rfl
  have hnamed' : Stable.Holds Core.Named (core
      { m with metrics := m.metrics.inc_events_unresolved_rename (expand_renames events).2 }) := hnamed
  rw [batch_visits] at hv
  generalize ({ m with metrics := _ } : Monitor) = m' at hv hcount hnamed'
  exact ⟨((hthrough.trans hcount).trans (through_visits _ _ m' v hv)).sound (sound_start h),
    (stable_named.visits _ _ m' hnamed' v hv).2⟩

end

end Fsmon.Monitor
