/-
# `Fsmon.Monitor.Cover` — marks cover what the entries ask for

A `Demand` is an entry with the directories that were there when it was added: its
root, and below it what a recursive entry asks for.  A state covers its demands
(`Covered`) when each of these directories carries, in the group of the root, the
entry's mask without `FAN_FS_ERROR`.

Whatever only adds marks keeps this (`Covered.grow`).  Giving a reference back keeps
it when no demand asks, in the same group, for the directory that is unmarked
(`Covered.release`).
-/
import Fsmon.Monitor.Groups
import Fsmon.Monitor.Daemon

namespace Fsmon.Monitor

/-- An entry, and the directories that it asked for. -/
structure Demand where
  path : PathBuf
  opts : PathOptions
  inos : List Nat
  deriving DecidableEq, Repr

namespace Demand

def entry (d : Demand) : PathBuf × PathOptions := (d.path, d.opts)

/-- What an inode mark can carry of the entry's mask. -/
def bits (d : Demand) : Mask := d.opts.path_mask_from_options &&& ~~~FAN_FS_ERROR

/-- What an entry asks for when it is added. -/
def of (os : Os) (e : PathBuf × PathOptions) : Demand := ⟨e.1, e.2, os.asked e.1 e.2⟩

end Demand

/-- The demands are those of the entries, and they are met. -/
structure Covered (v : View) (ds : List Demand) : Prop where
  entries : ds.map Demand.entry = v.monitored_entries
  rooted : ∀ d ∈ ds, d.path ∈ v.paths
  canonical : v.canonical_paths = v.paths
  factory : v.factory = true
  counted : v.Counted
  marked : ∀ d ∈ ds, ∀ ino ∈ d.inos, v.Holds d.path ino d.bits

/-- Marks are added; each demand is an old one, or is met. -/
theorem Covered.grow {v v' : View} {ds ds' : List Demand} (h : Covered v ds) (hgrow : v.Grow v')
    (hentries : ds'.map Demand.entry = v'.monitored_entries)
    (hds : ∀ d ∈ ds', d ∈ ds ∨ d.path ∈ v'.paths ∧ ∀ ino ∈ d.inos, v'.Holds d.path ino d.bits) :
    Covered v' ds' where
  entries := hentries
  rooted d hd := by
    rcases hds d hd with hold | hnew
    · exact hgrow.paths _ (h.rooted d hold)
    · exact hnew.1
  canonical := hgrow.canonical h.canonical
  factory := hgrow.factory.trans h.factory
  counted := hgrow.counted h.counted
  marked d hd ino hino := by
    rcases hds d hd with hold | hnew
    · exact hgrow.holds (h.rooted d hold) (h.marked d hold ino hino)
    · exact hnew.2 ino hino

/-- Marks are added, and the entries stay. -/
theorem Covered.grow_same {v v' : View} {ds : List Demand} (h : Covered v ds) (hgrow : v.Grow v')
    (hentries : v'.monitored_entries = v.monitored_entries) : Covered v' ds :=
  h.grow hgrow (h.entries.trans hentries.symm) fun _ hd => .inl hd

/-- Entries are dropped. -/
theorem Covered.filter {v : View} {ds : List Demand} (h : Covered v ds)
    (keep : PathBuf × PathOptions → Bool) :
    Covered { v with monitored_entries := v.monitored_entries.filter keep }
      (ds.filter fun d => keep d.entry) := by
  refine h.grow (.of_adds (.refl _) _) ?_ fun d hd => .inl (List.mem_of_mem_filter hd)
  show _ = v.monitored_entries.filter keep
  rw [← h.entries, List.filter_map]
  rfl

/-- A reference is given back, and nothing is unmarked that a demand asks for. -/
theorem Covered.release {v v' : View} {ds : List Demand} {key : Nat} {group : FsGroup}
    (h : Covered v ds) (hgroup : v.groups.get key = some group)
    (hgroups : v'.groups = released v.groups key group)
    (hentries : v'.monitored_entries = v.monitored_entries) (hpaths : ∀ d ∈ ds, d.path ∈ v'.paths)
    (hcanonical : v'.canonical_paths = v'.paths) (hfactory : v'.factory = v.factory)
    (hroots : ∀ d ∈ ds, v'.path_to_group.lookup d.path = v.path_to_group.lookup d.path)
    (hless : v'.users key + 1 ≤ v.users key) (hle : ∀ q, v'.users q ≤ v.users q)
    (hkernel : ∀ d ∈ ds, ∀ ino ∈ d.inos, ∀ key' group', v.path_to_group.lookup d.path = some key' →
      v.groups.get key' = some group' → v.kernel.Carries group'.fan_fd ino d.bits →
        v'.kernel.Carries group'.fan_fd ino d.bits) :
    Covered v' ds where
  entries := h.entries.trans hentries.symm
  rooted := hpaths
  canonical := hcanonical
  factory := hfactory.trans h.factory
  counted := (View.counted_release h.counted hgroup hgroups hless hle).1
  marked d hd ino hino := by
    obtain ⟨key', group', hkey', hgroup', hc⟩ := h.marked d hd ino hino
    have hlook := (hroots d hd).trans hkey'
    -- the root still uses its group
    obtain ⟨group'', hgroup'', hfd⟩ :=
      (View.counted_release h.counted hgroup hgroups hless hle).2 key' group' hgroup'
        (View.users_pos hlook)
    refine ⟨key', group'', hlook, hgroup'', ?_⟩
    rw [hfd]
    exact hkernel d hd ino hino key' group' hkey' hgroup' hc

/-! ## Adding -/

/-- A walk, if there is one, changes the kernel only. -/
theorem view_walk (os : Os) (m : Monitor) (fan_fd : Nat) (mask : Mask) (dir : PathBuf)
    (max_depth : Option Nat) (walks : Bool) :
    (if walks then (m.mark_recursive os fan_fd mask dir max_depth).1 else m).view =
      { m.view with
        kernel :=
          if walks then
            (mark_recursive_with_depth os m.kernel m.fanotify.dir_cache fan_fd mask dir max_depth
              m.fanotify.shared_dir_cache).kernel
          else m.kernel } := by
  cases walks <;> rfl

theorem adds_walk (os : Os) (k : Kernel) (cache : DirCache) (fan_fd : Nat) (mask : Mask)
    (dir : PathBuf) (max_depth : Option Nat) (caching walks : Bool) :
    Kernel.Adds k (if walks then
      (mark_recursive_with_depth os k cache fan_fd mask dir max_depth caching).kernel else k) := by
  cases walks
  · exact .refl k
  · exact adds_mark_recursive ..

/-- A root that has just been marked, and walked below if the entry is recursive. -/
theorem root_carried {os : Os} (hw : os.Willing) {k : Kernel} {cache : DirCache} {fan_fd : Nat}
    {path : PathBuf} {opts : PathOptions} {caching : Bool} {dir : DirFd}
    (hopen : os.open_dir_safe (os.canonical path) = some dir)
    (hk : k.Carries fan_fd dir.node.ino (opts.path_mask_from_options &&& ~~~FAN_FS_ERROR)) :
    ∀ ino ∈ os.asked path opts,
      (if opts.recursive && os.is_dir (os.canonical path) then
        (mark_recursive_with_depth os k cache fan_fd opts.path_mask_from_options (os.canonical path)
          opts.max_depth caching).kernel
      else k).Carries fan_fd ino (opts.path_mask_from_options &&& ~~~FAN_FS_ERROR) := by
  refine asked_carried hw (.refl _) ?_ fun hrec => ⟨hrec, fun k hk => ⟨k, hk, Nat.le_refl k⟩⟩
  intro ino hino
  obtain ⟨n, hn, hkind, rfl⟩ := Os.mem_root_ino hino
  rw [hw.open_dir hn hkind] at hopen
  cases hopen
  exact hk

theorem view_mark_on_group (os : Os) (m : Monitor) (fan_fd : Nat) (path : PathBuf) (opts : PathOptions) :
    ∃ k, (m.mark_on_group os fan_fd (os.canonical path) opts).view = { m.view with kernel := k } ∧
      Kernel.Adds m.kernel k ∧
      (os.Willing → ∀ ino ∈ os.asked path opts,
        k.Carries fan_fd ino (opts.path_mask_from_options &&& ~~~FAN_FS_ERROR)) := by
  rw [mark_on_group]
  cases hopen : os.open_dir_safe (os.canonical path) with
  | none =>
      refine ⟨m.kernel, rfl, .refl _, fun hw ino hino => ?_⟩
      obtain ⟨n, hn, hkind⟩ := Os.dir_of_asked hino
      rw [hw.open_dir hn hkind] at hopen
      cases hopen
  | some dir =>
      simp only
      cases hmark : m.kernel.mark_directory_at os fan_fd dir opts.path_mask_from_options with
      | none =>
          refine ⟨m.kernel, rfl, .refl _, fun hw _ _ => ?_⟩
          rw [Kernel.mark_directory_at, if_pos (hw.mark _)] at hmark
          cases hmark
      | some k =>
          refine ⟨_, view_walk os { m with kernel := k } .., ?_, fun hw => ?_⟩
          · exact (Kernel.adds_mark_directory_at hmark).trans (adds_walk ..)
          · exact root_carried hw hopen (Kernel.mark_directory_at_carries hmark)

/-- The view after a new root has been added. -/
theorem view_add_root {os : Os} {m m' : Monitor} {path : PathBuf} {opts : PathOptions}
    (h : m.add_root os path opts = .ok m') :
    ∃ groups k key fan_fd,
      m'.view =
        View.with_root { m.view with groups := groups, kernel := k } path (os.canonical path) opts key ∧
      Referred m.fanotify.groups groups key fan_fd ∧ Kernel.Adds m.kernel k ∧
      (os.Willing → ∀ ino ∈ os.asked path opts,
        k.Carries fan_fd ino (opts.path_mask_from_options &&& ~~~FAN_FS_ERROR)) := by
  simp only [add_root] at h
  cases hgroup : m.group_on (os.dev_id (os.canonical path)) with
  | some found =>
      obtain ⟨key, group⟩ := found
      rw [hgroup] at h
      cases h
      obtain ⟨k, hk, hadds, hmarks⟩ := view_mark_on_group os m group.fan_fd path opts
      generalize m.mark_on_group os group.fan_fd (os.canonical path) opts = m₁ at hk
      refine ⟨_, k, key, group.fan_fd, ?_, referred_modify (SlotMap.find_some hgroup).1, hadds, hmarks⟩
      have hgroups : m₁.fanotify.groups = m.fanotify.groups := congrArg View.groups hk
      rw [view_register, ← hgroups]
      exact congrArg (fun v : View => View.with_root { v with groups := _ } path _ opts key) hk
  | none =>
      rw [hgroup] at h
      simp only at h
      cases hopen : os.open_dir_safe (os.canonical path) with
      | none =>
          rw [hopen] at h
          cases h
      | some dir =>
          rw [hopen] at h
          simp only at h
          cases hcreate : m.kernel.create_group_and_mark os dir opts.path_mask_from_options with
          | none =>
              rw [hcreate] at h
              cases h
          | some r =>
              rw [hcreate] at h
              simp only at h
              obtain ⟨hadds, hmarks⟩ := Kernel.adds_create_group_and_mark hcreate
              have hk := view_walk os { m with kernel := r.2 } r.1 opts.path_mask_from_options
                (os.canonical path) opts.max_depth (opts.recursive && os.is_dir (os.canonical path))
              generalize (if opts.recursive && os.is_dir (os.canonical path) then
                (mark_recursive os { m with kernel := r.2 } r.1 opts.path_mask_from_options
                  (os.canonical path) opts.max_depth).1
                else { m with kernel := r.2 }) = m₁ at h hk
              have hgroups : m₁.fanotify.groups = m.fanotify.groups := congrArg View.groups hk
              refine ⟨_, _, _, r.1, ?_,
                referred_insert m.fanotify.groups (os.dev_id (os.canonical path)) r.1,
                hadds.trans (adds_walk os r.2 m.fanotify.dir_cache r.1 _ _ _ m.fanotify.shared_dir_cache _),
                fun hw => root_carried hw hopen hmarks⟩
              rw [← Except.ok.inj h, view_register, view_spawn_fd_reader, ← hgroups]
              exact congrArg (fun v : View => View.with_root { v with groups := _ } path _ opts _) hk

/-- A new root grows the view, and is marked as its entry asks. -/
theorem grow_add_root {os : Os} {m m' : Monitor} {path : PathBuf} {opts : PathOptions}
    (hself : os.canonical path = path) (hpath : path ∉ m.paths)
    (h : m.add_root os path opts = .ok m') :
    m.view.Grow m'.view ∧ m'.monitored_entries = m.monitored_entries ++ [(path, opts)] ∧
      path ∈ m'.paths ∧
      (os.Willing → ∀ ino ∈ os.asked path opts,
        m'.view.Holds path ino (opts.path_mask_from_options &&& ~~~FAN_FS_ERROR)) := by
  obtain ⟨groups, k, key, fan_fd, hm', hrefs, hadds, hmarks⟩ := view_add_root h
  rw [hself] at hm'
  refine ⟨?_, congrArg View.monitored_entries hm', ?_, fun hw ino hino => ?_⟩
  · rw [hm']
    exact .root hpath rfl rfl rfl rfl rfl hrefs hadds
  · rw [show m'.paths = m.paths ++ [path] from congrArg View.paths hm']
    exact List.mem_append_right _ (List.mem_singleton_self _)
  · obtain ⟨group, hgroup, hfd⟩ := hrefs.group
    rw [hm']
    exact ⟨key, group, by rw [View.with_root, HashMap.lookup_insert', if_pos rfl], hgroup,
      hfd ▸ hmarks hw ino hino⟩

/-- A new directory changes the kernel only. -/
theorem view_on_new_subdirectory (os : Os) (m : Monitor) (path : PathBuf) :
    ∃ k, (m.on_new_subdirectory os path).1.view = { m.view with kernel := k } ∧
      Kernel.Adds m.kernel k := by
  rcases on_new_subdirectory_cases os m path with h | ⟨_, group, dir, k, _, _, _, hmark, h⟩
  · rw [h]
    exact ⟨m.kernel, rfl, .refl _⟩
  · have hs : SameInotify m.inotify_state
        (if m.inotify_state.inotify then
          watch_recursive os (IN_CREATE ||| IN_MOVED_TO) (watch_depth os) (os.canonical path)
            m.inotify_state
        else m.inotify_state) := by
      split
      · exact sameInotify_watch_recursive ..
      · exact .refl _
    rw [h, enter_subdirectory]
    generalize (if m.inotify_state.inotify then _ else m.inotify_state) = s at hs
    obtain ⟨_, _, _, rfl⟩ := hs
    exact ⟨_, rfl, (Kernel.adds_mark_directory_at hmark).trans (adds_mark_recursive ..)⟩

theorem grow_on_new_subdirectory (os : Os) (m : Monitor) (path : PathBuf) :
    m.view.Grow (m.on_new_subdirectory os path).1.view ∧
      (m.on_new_subdirectory os path).1.monitored_entries = m.monitored_entries := by
  obtain ⟨k, hview, hadds⟩ := view_on_new_subdirectory os m path
  refine ⟨?_, congrArg View.monitored_entries hview⟩
  rw [hview]
  exact .of_adds hadds _

/-- A temporary mark on an ancestor. -/
theorem grow_add_temp_parent_mark [Sizefilter] (os : Os) (m : Monitor) (target : PathBuf) :
    m.view.Grow (m.add_temp_parent_mark os target).view := by
  rw [add_temp_parent_mark]
  cases os.nearest_existing_ancestor target with
  | none => exact .refl _
  | some parent =>
      simp only
      split
      · exact .refl _
      · split
        · exact .refl _
        · split
          · exact .refl _
          · cases os.open_dir_safe (os.canonical parent) with
            | none => exact .refl _
            | some dir =>
                simp only
                cases hgroup : m.group_on (os.dev_id (os.canonical parent)) with
                | some found =>
                    simp only
                    cases hmark : m.kernel.mark_directory_at os found.2.fan_fd dir (m.temp_mask target) with
                    | none => exact .refl _
                    | some k =>
                        exact .temp rfl rfl rfl rfl rfl (referred_modify (SlotMap.find_some hgroup).1)
                          (Kernel.adds_mark_directory_at hmark)
                | none =>
                    simp only
                    cases hcreate : m.kernel.create_group_and_mark os dir (m.temp_mask target) with
                    | none => exact .refl _
                    | some r =>
                        simp only [Option.map_some]
                        have hview := view_spawn_fd_reader os
                          { m with
                            kernel := r.2
                            fanotify :=
                              { m.fanotify with
                                groups :=
                                  m.fanotify.groups.insert ⟨os.dev_id (os.canonical parent), r.1, 1⟩ } }
                          m.fanotify.groups.next
                        generalize spawn_fd_reader os _ m.fanotify.groups.next = m₁ at hview
                        show m.view.Grow
                          { m₁.view with
                            temp_parent_marks :=
                              m₁.view.temp_parent_marks.insert target (parent, m.fanotify.groups.next) }
                        rw [hview]
                        exact .temp rfl rfl rfl rfl rfl (referred_insert ..)
                          (Kernel.adds_create_group_and_mark hcreate).1

theorem entries_add_temp_parent_mark [Sizefilter] (os : Os) (m : Monitor) (target : PathBuf) :
    (m.add_temp_parent_mark os target).monitored_entries = m.monitored_entries :=
  congrArg Plan.monitored_entries (plan_add_temp_parent_mark os m target)

/-! ## Removing -/

/-- The kernel after the directory at a path has been unmarked, if it is open to that. -/
def unmarked (os : Os) (m : Monitor) (fan_fd : Nat) (canonical : PathBuf) : Kernel :=
  match m.fanotify.factory, os.open_dir_safe canonical with
  | true, some dir => m.kernel.unmark_directory_at os fan_fd dir
  | _, _ => m.kernel

/-- The view after a root has given its reference back. -/
theorem view_release_root (os : Os) {m : Monitor} {path canonical : PathBuf} {pos key : Nat}
    {group : FsGroup} (hkey : m.fanotify.path_to_group.lookup path = some key)
    (hgroup : m.fanotify.groups.get key = some group) (hplace : m.canonical_paths[pos]? = some canonical) :
    (m.release_root os path pos).view =
      { m.view with
        groups := released m.fanotify.groups key group
        kernel := m.unmarked os group.fan_fd canonical } := by
  simp only [release_root, unmarked, hkey, hgroup, hplace]
  cases m.fanotify.factory with
  | false => rfl
  | true => cases os.open_dir_safe canonical <;> rfl

/-- `remove_path`; a failure leaves the state as it is. -/
def removed (os : Os) (m : Monitor) (path : PathBuf) (cmd : Option String) : Monitor :=
  match m.remove_path os path cmd with
  | .ok m' => m'
  | .error _ => m

/-- The view after a temporary mark has been removed. -/
theorem view_remove_temp_parent_mark {os : Os} {m : Monitor} {target parent : PathBuf} {key : Nat}
    {group : FsGroup} (hmark : m.inotify_state.temp_parent_marks.lookup target = some (parent, key))
    (hgroup : m.fanotify.groups.get key = some group) :
    (m.remove_temp_parent_mark os target).view =
      { m.view with
        groups := released m.fanotify.groups key group
        temp_parent_marks := m.inotify_state.temp_parent_marks.erase target
        kernel := m.unmarked os group.fan_fd (os.canonical parent) } := by
  simp only [remove_temp_parent_mark, unmarked, hmark, hgroup]
  cases m.fanotify.factory with
  | false => rfl
  | true => cases os.open_dir_safe (os.canonical parent) <;> rfl

section
variable [Sizefilter]

end

end Fsmon.Monitor
