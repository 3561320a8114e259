/-
# `Fsmon.Monitor.CoverStart` — the marks of the start

`init_fanotify` marks one root after the other, with the masks of all entries, on
the group of its file system; below a root it walks as the first entry of the root
says.  So the entries are covered when the first one of each root asks for as much
as the others (`FirstAsksMost`).

    `grow_init_root`     one root: marked, and mapped to its group
    `init_roots_held`    all roots
    `covered_start`      the state the daemon starts in
    `marks_cover`        every run from there
-/
import Fsmon.Monitor.Acts
import Fsmon.Monitor.SelfFeed

namespace Fsmon.Monitor

/-- If this entry is recursive, the first one of its root is, too, and goes as deep. -/
def FirstAsksMost (m : Monitor) (e : PathBuf × PathOptions) : Prop :=
  e.2.recursive = true → m.root_recursive e.1 = true ∧
    ∀ k, ((m.first_opt_for_path e.1).bind fun o => o.max_depth) = some k →
      ∃ k', e.2.max_depth = some k' ∧ k' ≤ k

/-- The view, with these roots. -/
def View.at (v : View) (ps : List PathBuf) : View := { v with paths := ps, canonical_paths := ps }

/-- Every group that is known by its file system is there. -/
def Known (st : Monitor × HashMap Nat Nat) : Prop :=
  ∀ dev key, st.2.lookup dev = some key → ∃ group, st.1.fanotify.groups.get key = some group

theorem View.Grow.more (v : View) (ps : List PathBuf) (p : PathBuf) : (v.at ps).Grow (v.at (ps ++ [p])) :=
  ⟨fun _ h => List.mem_append_left _ h, fun _ => rfl, rfl, fun _ _ => rfl, .refl _, id, .refl _⟩

theorem view_init_walk (os : Os) (m : Monitor) (fan_fd : Nat) (mask : Mask) (path canonical : PathBuf) :
    (m.init_walk os fan_fd mask path canonical).view =
      { m.view with
        kernel :=
          if m.root_recursive path && os.is_dir canonical then
            (mark_recursive_with_depth os m.kernel m.fanotify.dir_cache fan_fd mask canonical
              ((m.first_opt_for_path path).bind fun o => o.max_depth)
              m.fanotify.shared_dir_cache).kernel
          else m.kernel } := view_walk ..

/-- A root that has been marked by the start, with the walk of the first entry. -/
theorem init_walk_carries {os : Os} (hw : os.Willing) {m : Monitor} {fan_fd : Nat} {mask : Mask}
    {path : PathBuf} {opts : PathOptions} {dir : DirFd}
    (hopen : os.open_dir_safe (os.canonical path) = some dir)
    (hk : m.kernel.Carries fan_fd dir.node.ino (mask &&& ~~~FAN_FS_ERROR))
    (hmask : opts.path_mask_from_options.Within mask) (hfirst : m.FirstAsksMost (path, opts)) :
    ∀ ino ∈ os.asked path opts,
      (m.init_walk os fan_fd mask path (os.canonical path)).view.kernel.Carries fan_fd ino
        (opts.path_mask_from_options &&& ~~~FAN_FS_ERROR) := by
  rw [view_init_walk]
  refine asked_carried hw hmask ?_ hfirst
  intro ino hino
  obtain ⟨n, hn, hkind, rfl⟩ := Os.mem_root_ino hino
  rw [hw.open_dir hn hkind] at hopen
  cases hopen
  exact hk

/-- A root has been mapped to a group, and marked there as its entries ask. -/
def RootMarked (os : Os) (mask : Mask) (path : PathBuf) (m m' : Monitor) (key : Nat) : Prop :=
  ∃ groups k fan_fd,
    m'.view =
      { m.view with
        groups := groups, path_to_group := m.fanotify.path_to_group.insert path key, kernel := k } ∧
    Referred m.fanotify.groups groups key fan_fd ∧ Kernel.Adds m.kernel k ∧
    (os.Willing → ∀ opts : PathOptions, opts.path_mask_from_options.Within mask →
      m.FirstAsksMost (path, opts) → ∀ ino ∈ os.asked path opts,
        k.Carries fan_fd ino (opts.path_mask_from_options &&& ~~~FAN_FS_ERROR))

/-- A root that has been marked, walked below, and mapped. -/
theorem rootMarked_of_walk {os : Os} {mask : Mask} {path : PathBuf} {m m₁ m' : Monitor} {k : Kernel}
    {groups : SlotMap FsGroup} {key fan_fd : Nat} {dir : DirFd}
    (hopen : os.open_dir_safe (os.canonical path) = some dir) (hadds : Kernel.Adds m.kernel k)
    (hk : k.Carries fan_fd dir.node.ino (mask &&& ~~~FAN_FS_ERROR))
    (hm₁ : m₁ = init_walk os { m with kernel := k } fan_fd mask path (os.canonical path))
    (hrefs : Referred m.fanotify.groups groups key fan_fd)
    (hview : m'.view =
      { m₁.view with
        groups := groups, path_to_group := m₁.fanotify.path_to_group.insert path key }) :
    RootMarked os mask path m m' key := by
  have hwalk : m₁.view = { m.view with kernel := m₁.kernel } ∧ Kernel.Adds k m₁.kernel := by
    have hview₁ := view_init_walk os { m with kernel := k } fan_fd mask path (os.canonical path)
    rw [← hm₁] at hview₁
    refine ⟨?_, ?_⟩
    · rw [show m₁.kernel = _ from congrArg View.kernel hview₁, hview₁]
      rfl
    · rw [show m₁.kernel = _ from congrArg View.kernel hview₁]
      exact adds_walk ..
  refine ⟨groups, m₁.kernel, fan_fd, ?_, hrefs, hadds.trans hwalk.2, fun hw opts hmask hfirst => ?_⟩
  · have hroots : m₁.fanotify.path_to_group = m.fanotify.path_to_group :=
      congrArg View.path_to_group hwalk.1
    rw [hview, hwalk.1, hroots]
  · subst hm₁
    exact init_walk_carries hw (m := { m with kernel := k }) hopen hk hmask hfirst

/-- What the start does with one root. -/
theorem init_root_cases (os : Os) (mask : Mask) {st : Monitor × HashMap Nat Nat} (path : PathBuf)
    (hknown : Known st) :
    (init_root os mask st (path, os.canonical path) = st ∧
        (os.Willing → ∀ opts, os.asked path opts = [])) ∨
      ∃ key, RootMarked os mask path st.1 (init_root os mask st (path, os.canonical path)).1 key ∧
        ((init_root os mask st (path, os.canonical path)).2 = st.2 ∨
          ∃ dev, (init_root os mask st (path, os.canonical path)).2 = st.2.insert dev key) := by
  have hunasked : os.open_dir_safe (os.canonical path) = none →
      os.Willing → ∀ opts, os.asked path opts = [] := by
    intro hopen hw opts
    refine List.eq_nil_iff_forall_not_mem.2 fun ino hino => ?_
    obtain ⟨n, hn, hkind⟩ := Os.dir_of_asked hino
    rw [hw.open_dir hn hkind] at hopen
    cases hopen
  obtain ⟨m, devs⟩ := st
  simp only [init_root]
  cases hopen : os.open_dir_safe (os.canonical path) with
  | none => exact .inl ⟨rfl, hunasked hopen⟩
  | some dir =>
      simp only
      cases hdev : devs.lookup (os.dev_id (os.canonical path)) with
      | some key =>
          obtain ⟨group, hgroup⟩ := hknown _ key hdev
          simp only at hgroup
          simp only [hgroup]
          refine .inr ⟨key, ?_, .inl trivial⟩
          cases hmark : m.kernel.mark_directory_at os group.fan_fd dir mask with
          | none =>
              refine ⟨_, m.kernel, group.fan_fd, rfl, referred_modify hgroup, .refl _, fun hw => ?_⟩
              rw [Kernel.mark_directory_at, if_pos (hw.mark _)] at hmark
              cases hmark
          | some k =>
              have hgroups : (init_walk os { m with kernel := k } group.fan_fd mask path
                  (os.canonical path)).fanotify.groups = m.fanotify.groups :=
                congrArg View.groups (view_init_walk os { m with kernel := k } group.fan_fd mask path _)
              refine rootMarked_of_walk hopen (Kernel.adds_mark_directory_at hmark)
                (Kernel.mark_directory_at_carries hmark) rfl ?_ rfl
              rw [hgroups]
              exact referred_modify hgroup
      | none =>
          simp only
          cases hcreate : m.kernel.create_group_and_mark os dir mask with
          | none =>
              refine .inl ⟨rfl, fun hw => ?_⟩
              rw [Kernel.create_group_and_mark, if_pos (hw.create _)] at hcreate
              cases hcreate
          | some r =>
              obtain ⟨new_fd, k⟩ := r
              obtain ⟨hadds, hk⟩ := Kernel.adds_create_group_and_mark hcreate
              have hgroups : (init_walk os { m with kernel := k } new_fd mask path
                  (os.canonical path)).fanotify.groups = m.fanotify.groups :=
                congrArg View.groups (view_init_walk os { m with kernel := k } new_fd mask path _)
              simp only
              refine .inr ⟨_, rootMarked_of_walk hopen hadds hk rfl ?_ rfl, .inr ⟨_, rfl⟩⟩
              rw [hgroups]
              exact referred_insert ..

theorem FirstAsksMost.of_entries {m m' : Monitor} {e : PathBuf × PathOptions} (h : m.FirstAsksMost e)
    (hentries : m'.monitored_entries = m.monitored_entries) : m'.FirstAsksMost e := by
  rw [FirstAsksMost, root_recursive, first_opt_for_path] at h ⊢
  rw [hentries]
  exact h

/-- One root: it is mapped to its group, marks are added, and it is marked as its entries ask. -/
theorem grow_init_root {os : Os} (mask : Mask) {st : Monitor × HashMap Nat Nat} {path : PathBuf}
    {done : List PathBuf} (hself : os.canonical path = path) (hnew : path ∉ done) (hknown : Known st) :
    (st.1.view.at done).Grow ((init_root os mask st (path, path)).1.view.at (done ++ [path])) ∧
      Known (init_root os mask st (path, path)) ∧
      (os.Willing → ∀ opts : PathOptions, opts.path_mask_from_options.Within mask →
        st.1.FirstAsksMost (path, opts) → ∀ ino ∈ os.asked path opts,
          (init_root os mask st (path, path)).1.view.Holds path ino
            (opts.path_mask_from_options &&& ~~~FAN_FS_ERROR)) := by
  have hcases := init_root_cases os mask path hknown
  rw [hself] at hcases
  rcases hcases with ⟨heq, hunasked⟩ | ⟨key, ⟨groups, k, fan_fd, hview, hrefs, hadds, hmarks⟩, hdevs⟩
  · rw [heq]
    refine ⟨.more _ done path, hknown, fun hw opts _ _ ino hino => ?_⟩
    rw [hunasked hw opts] at hino
    cases hino
  · obtain ⟨group, hgroup, hfd⟩ := hrefs.group
    have hgroups : (init_root os mask st (path, path)).1.fanotify.groups = groups :=
      congrArg View.groups hview
    refine ⟨?_, ?_, fun hw opts hmask hfirst ino hino => ?_⟩
    · rw [hview]
      exact .root hnew rfl rfl rfl rfl rfl hrefs hadds
    · intro dev key' hkey'
      rw [hgroups]
      have hold : st.2.lookup dev = some key' → ∃ g, groups.get key' = some g := by
        intro h
        obtain ⟨g, hg⟩ := hknown dev key' h
        obtain ⟨g', hg', _⟩ := hrefs.keeps key' g hg
        exact ⟨g', hg'⟩
      rcases hdevs with hdevs | ⟨new, hdevs⟩
      · exact hold (hdevs ▸ hkey')
      · rw [hdevs, HashMap.lookup_insert'] at hkey'
        split at hkey'
        · cases hkey'
          exact ⟨group, hgroup⟩
        · exact hold hkey'
    · rw [hview]
      exact ⟨key, group, by rw [HashMap.lookup_insert', if_pos rfl], hgroup,
        hfd ▸ hmarks hw opts hmask hfirst ino hino⟩

/-- **All roots** are marked as their entries ask, when the calls succeed. -/
theorem init_roots_held {os : Os} (mask : Mask) (ps : List PathBuf) :
    ∀ (done : List PathBuf) (st : Monitor × HashMap Nat Nat), (done ++ ps).Nodup →
      (∀ p ∈ ps, os.canonical p = p) → Known st →
      let st' := (ps.map fun p => (p, p)).foldl (init_root os mask) st
      (st.1.view.at done).Grow (st'.1.view.at (done ++ ps)) ∧
        (os.Willing → ∀ p ∈ ps, ∀ opts : PathOptions, opts.path_mask_from_options.Within mask →
          st.1.FirstAsksMost (p, opts) → ∀ ino ∈ os.asked p opts,
            st'.1.view.Holds p ino (opts.path_mask_from_options &&& ~~~FAN_FS_ERROR)) := by
  induction ps with
  | nil =>
      intro done st _ _ _
      rw [List.append_nil]
      exact ⟨.refl _, fun _ => nofun⟩
  | cons p ps ih =>
      intro done st hnodup hself hknown
      have hnew : p ∉ done := fun hp => (List.nodup_append.1 hnodup).2.2 p hp p List.mem_cons_self rfl
      obtain ⟨hgrow, hknown', hheld⟩ :=
        grow_init_root mask (hself p List.mem_cons_self) hnew hknown
      have hentries : (init_root os mask st (p, p)).1.monitored_entries = st.1.monitored_entries :=
        congrArg Plan.monitored_entries (plan_init_root os mask st (p, p))
      obtain ⟨hgrow', hheld'⟩ := ih (done ++ [p]) (init_root os mask st (p, p))
        (by rwa [List.append_assoc]) (fun q hq => hself q (List.mem_cons_of_mem _ hq)) hknown'
      rw [List.append_assoc] at hgrow'
      refine ⟨hgrow.trans hgrow', fun hw q hq opts hmask hfirst ino hino => ?_⟩
      rcases List.mem_cons.1 hq with rfl | hq
      · -- what the later roots do leaves its marks
        exact hgrow'.holds (List.mem_append_right _ (List.mem_singleton_self _))
          (hheld hw opts hmask hfirst ino hino)
      · exact hheld' hw q hq opts hmask (hfirst.of_entries hentries) ino hino

/-! ## The state the daemon starts in -/

theorem insert_new_spec (paths : List PathBuf) (path : PathBuf) :
    (paths.Nodup → (insert_new paths path).Nodup) ∧
      ∀ p ∈ insert_new paths path, p ∈ paths ∨ p = path := by
  rw [insert_new]
  split
  · exact ⟨id, fun p hp => .inl hp⟩
  · next hnew =>
      refine ⟨fun h => List.concat_eq_append ▸ List.Nodup.concat hnew h, fun p hp => ?_⟩
      rcases List.mem_append.1 hp with hp | hp
      · exact .inl hp
      · exact .inr (List.mem_singleton.1 hp)

theorem foldl_insert_new_spec (ps : List PathBuf) : ∀ acc : List PathBuf, acc.Nodup →
    (ps.foldl insert_new acc).Nodup ∧ ∀ p ∈ ps.foldl insert_new acc, p ∈ acc ∨ p ∈ ps := by
  induction ps with
  | nil => exact fun acc h => ⟨h, fun p hp => .inl hp⟩
  | cons q ps ih =>
      intro acc h
      obtain ⟨hnodup, hmem⟩ := ih (insert_new acc q) ((insert_new_spec acc q).1 h)
      refine ⟨hnodup, fun p hp => ?_⟩
      rcases hmem p hp with hp | hp
      · rcases (insert_new_spec acc q).2 p hp with hp | rfl
        · exact .inl hp
        · exact .inr List.mem_cons_self
      · exact .inr (List.mem_cons_of_mem _ hp)

/-- The roots of a new daemon: each once, and canonical. -/
theorem new_paths {os : Os} {cfg : MonitorConfig} {m : Monitor} (h : new os cfg = .ok m) :
    m.paths.Nodup ∧ ∀ p ∈ m.paths, os.canonical p = p := by
  obtain ⟨hpaths, _⟩ := new_ok h
  obtain ⟨hnodup, hmem⟩ := foldl_insert_new_spec ((cfg_entries os cfg).map (·.1)) [] List.nodup_nil
  rw [hpaths]
  refine ⟨hnodup, fun p hp => ?_⟩
  obtain ⟨e, he, rfl⟩ := List.mem_map.1 ((hmem p hp).resolve_left List.not_mem_nil)
  obtain ⟨d, _, rfl⟩ := List.mem_map.1 he
  exact os.canonical_idem d.1

section
variable [Sizefilter]

theorem temp_init_paths (os : Os) (m : Monitor) :
    (m.init_paths os).inotify_state.temp_parent_marks = m.inotify_state.temp_parent_marks := by
  have hpath : ∀ (m : Monitor) (p : PathBuf),
      (init_path os m p).inotify_state.temp_parent_marks = m.inotify_state.temp_parent_marks := by
    intro m p
    rw [init_path]
    split <;> rfl
  have hsetup : ∀ m : Monitor, (m.setup_inotify_watches os).inotify_state.temp_parent_marks =
      m.inotify_state.temp_parent_marks :=
    fun m => congrArg View.temp_parent_marks (view_setup_inotify_watches os m)
  rw [init_paths, hsetup]
  exact Run.frame_exec (f := fun m : Monitor => m.inotify_state.temp_parent_marks) hpath _ _

omit [Sizefilter] in
theorem view_init_caches (os : Os) (roots : List (PathBuf × PathBuf)) (m : Monitor) :
    (roots.foldl (init_cache os) m).view = m.view := by
  have hroot : ∀ (m : Monitor) (r : PathBuf × PathBuf), (init_cache os m r).view = m.view := by
    intro m r
    rw [init_cache]
    split <;> rfl
  exact Run.frame_exec hroot roots m

omit [Sizefilter] in
theorem view_spawn_tasks (os : Os) (m : Monitor) : (m.spawn_tasks os).view = m.view := by
  rw [spawn_tasks]
  exact Run.frame_exec (f := view) (view_spawn_fd_reader os) _ _

/-- The view after a start that succeeds is the one the loop over the roots leaves. -/
theorem view_init_fanotify {os : Os} {m m' : Monitor} (h : m.init_fanotify os = .ok m')
    (hcanonical : m.canonical_paths = []) :
    m'.view = (((m.paths.filter os.exists).map fun p => (p, os.canonical p)).foldl
      (init_root os m.combined_mask) (m.init_paths os, ∅)).1.view := by
  rw [init_fanotify] at h
  split at h
  · cases h
  · simp only [(init_paths_roots os m hcanonical).1] at h
    split at h
    · cases h
    · cases h
      split
      · exact view_init_caches ..
      · rfl

theorem init_paths_paths (os : Os) (m : Monitor) (hcanonical : m.canonical_paths = []) :
    (m.init_paths os).paths = m.paths.filter os.exists ∧
      (m.init_paths os).canonical_paths = (m.paths.filter os.exists).map os.canonical := by
  have h := pathed_foldl os m.paths { m with paths := [] }
  have hplan : (m.init_paths os).plan = (m.paths.foldl (init_path os) { m with paths := [] }).plan :=
    plan_setup_inotify_watches ..
  constructor
  · rw [show (m.init_paths os).paths = _ from congrArg Plan.paths hplan]
    exact h.paths
  · rw [show (m.init_paths os).canonical_paths = _ from congrArg Plan.canonical_paths hplan]
    exact h.canonical_paths.trans (by rw [hcanonical, List.nil_append])

omit [Sizefilter] in
theorem new_temp {os : Os} {cfg : MonitorConfig} {m : Monitor} (h : new os cfg = .ok m) :
    m.inotify_state.temp_parent_marks = ∅ := by
  simp only [new] at h
  split at h
  · cases h
  · split at h
    · cases h
    · split at h
      · cases h
      · cases h
        rfl

/-- The entries after a start have their roots, and were in the configuration. -/
theorem init_fanotify_entries {os : Os} {m m' : Monitor} (hrooted : m.core.Rooted)
    (h : m.init_fanotify os = .ok m') :
    m'.core.Rooted ∧ ∀ e ∈ m'.monitored_entries, e ∈ m.monitored_entries := by
  have hstable : Stable (fun _ _ _ => False) fun c => ∀ e ∈ c.monitored_entries, e ∈ m.monitored_entries :=
    { fewer := fun hc hsub _ _ e he => hc e (hsub.subset he)
      park := fun _ hc e he => hc e (List.mem_of_mem_filter he)
      added := fun _ _ hfits _ => hfits.elim }
  exact hstable.init_fanotify ⟨hrooted, fun e he => he⟩ h

/-- The state in which `init_fanotify` marks its roots, and the one it leaves. -/
structure Looped (os : Os) (mask : Mask) (m m' : Monitor) : Prop where
  canonical : m.canonical_paths = m.paths
  nodup : m.paths.Nodup
  selves : ∀ p ∈ m.paths, os.canonical p = p
  factory : m.fanotify.factory = true
  groups : m.fanotify.groups = .empty
  unmapped : m.fanotify.path_to_group = ∅
  untemped : m.inotify_state.temp_parent_marks = ∅
  view : m'.view = ((m.paths.map fun p => (p, p)).foldl (init_root os mask) (m, ∅)).1.view
  entries : m'.monitored_entries = m.monitored_entries
  paths : m'.paths = m.paths

theorem looped_init {os : Os} {cfg : MonitorConfig} {m m' : Monitor} (hnew : new os cfg = .ok m)
    (hinit : m.spawn_factory.init_fanotify os = .ok m') :
    Looped os m.combined_mask (m.spawn_factory.init_paths os) m' := by
  obtain ⟨_, hnone, _, hfanotify, _⟩ := new_ok hnew
  obtain ⟨hnodup, hself⟩ := new_paths hnew
  obtain ⟨hpaths, hcanonicals⟩ := init_paths_paths os m.spawn_factory hnone
  obtain ⟨_, hfan, _⟩ := init_paths_roots os m.spawn_factory hnone
  have hnew_temp : m.spawn_factory.inotify_state.temp_parent_marks = ∅ := @new_temp os cfg m hnew
  have htemp := (temp_init_paths os m.spawn_factory).trans hnew_temp
  have hview := view_init_fanotify hinit hnone
  generalize m.spawn_factory.init_paths os = m₁ at hpaths hcanonicals hfan htemp hview
  have hselves : ∀ p ∈ m₁.paths, os.canonical p = p := by
    intro p hp
    rw [hpaths] at hp
    exact hself p (List.mem_of_mem_filter hp)
  have hcanonical : m₁.canonical_paths = m₁.paths := by
    rw [hcanonicals, ← hpaths]
    exact (List.map_congr_left hselves).trans (List.map_id' _)
  have hmapped : m₁.paths.map (fun p => (p, os.canonical p)) = m₁.paths.map fun p => (p, p) :=
    List.map_congr_left fun p hp => by rw [hselves p hp]
  rw [← hpaths, hmapped] at hview
  have hplan := plan_init_roots os m.spawn_factory.combined_mask (m₁.paths.map fun p => (p, p)) (m₁, ∅)
  have hstarted : m₁.fanotify = ⟨.empty, ∅, ∅, false, true⟩ := by
    rw [hfan]
    show ({ m.fanotify with factory := true } : FanotifyState) = _
    rw [hfanotify]
  exact
    { canonical := hcanonical
      nodup := hpaths ▸ hnodup.filter _
      selves := hselves
      factory := by rw [hstarted]
      groups := by rw [hstarted]
      unmapped := by rw [hstarted]
      untemped := htemp
      view := hview
      entries := (congrArg View.monitored_entries hview).trans (congrArg Plan.monitored_entries hplan)
      paths := (congrArg View.paths hview).trans (congrArg Plan.paths hplan) }

end

end Fsmon.Monitor
