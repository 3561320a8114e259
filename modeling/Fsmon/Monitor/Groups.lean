/-
# `Fsmon.Monitor.Groups` — groups, their users, and operations that only add marks

Of the daemon's state the marks depend on a part, the `View`: the roots, the entries,
the groups with their reference counts, and the kernel.  `Grow v v'` says that the
roots of `v` are roots of `v'` in the same groups, and that marks were only added.
All operations grow the view but two, `remove_path` and `remove_temp_parent_mark`,
which give a reference back and unmark a directory.

A group lives as long as its count is positive, and the count is never less than the
number of its users (`Counted`): the roots that are mapped to it, and the temporary
marks.  So whoever uses a group finds it (`counted_release`).
-/
import Fsmon.Monitor.Reach
import Fsmon.Monitor.Frames
import Fsmon.Monitor.Init

namespace Fsmon

/-- Each mask is within the masks of all. -/
theorem PathOptions.within_masks_of {o : PathOptions} {os : List PathOptions} (h : o ∈ os) :
    o.path_mask_from_options.Within (masks_of os) := by
  have hfold : ∀ (ms : List Mask) (a b : Mask), a.Within b ∨ a ∈ ms →
      a.Within (ms.foldl (· ||| ·) b) := by
    intro ms
    induction ms with
    | nil =>
        intro a b ha
        rcases ha with ha | ha
        · exact ha
        · cases ha
    | cons m ms ih =>
        intro a b ha
        refine ih a (b ||| m) ?_
        rcases ha with ha | ha
        · exact .inl (ha.trans (Mask.within_or_left b m))
        · rcases List.mem_cons.1 ha with rfl | ha
          · exact .inl (Mask.within_or_right b a)
          · exact .inr ha
  exact hfold _ _ 0 (.inr (List.mem_map.2 ⟨o, h, rfl⟩))

namespace Monitor

/-! ## References -/

/-- The reference count of a group; 0 when it is gone. -/
def refs (groups : SlotMap FsGroup) (key : Nat) : Nat :=
  ((groups.get key).map fun g => g.ref_count).getD 0

/-- Every group is still there. -/
def Keeps (groups groups' : SlotMap FsGroup) : Prop :=
  ∀ key group, groups.get key = some group →
    ∃ group', groups'.get key = some group' ∧ group'.fan_fd = group.fan_fd

theorem Keeps.refl (groups : SlotMap FsGroup) : Keeps groups groups := fun _ group h => ⟨group, h, rfl⟩

theorem Keeps.trans {a b c : SlotMap FsGroup} (h : Keeps a b) (h' : Keeps b c) : Keeps a c := by
  intro key group hgroup
  obtain ⟨g, hg, hfd⟩ := h key group hgroup
  obtain ⟨g', hg', hfd'⟩ := h' key g hg
  exact ⟨g', hg', hfd'.trans hfd⟩

/-- One more reference to a group that was there, or is new. -/
structure Referred (groups groups' : SlotMap FsGroup) (key fan_fd : Nat) : Prop where
  keeps : Keeps groups groups'
  group : ∃ group, groups'.get key = some group ∧ group.fan_fd = fan_fd
  here : refs groups' key = refs groups key + 1
  other : ∀ q, q ≠ key → refs groups' q = refs groups q

theorem referred_modify {groups : SlotMap FsGroup} {key : Nat} {group : FsGroup}
    (h : groups.get key = some group) :
    Referred groups (groups.modify key fun g => { g with ref_count := g.ref_count + 1 }) key
      group.fan_fd where
  keeps q g hg := by
    rw [SlotMap.get_modify]
    split
    · rw [hg]
      exact ⟨_, rfl, rfl⟩
    · exact ⟨g, hg, rfl⟩
  group := by
    rw [SlotMap.get_modify, if_pos rfl, h]
    exact ⟨_, rfl, rfl⟩
  here := by
    rw [refs, refs, SlotMap.get_modify, if_pos rfl, h]
    rfl
  other q hq := by rw [refs, refs, SlotMap.get_modify, if_neg hq]

theorem get_next (groups : SlotMap FsGroup) : groups.get groups.next = none := by
  cases h : groups.get groups.next with
  | none => rfl
  | some g => exact absurd (SlotMap.lt_next h) (Nat.lt_irrefl _)

theorem referred_insert (groups : SlotMap FsGroup) (dev_id fan_fd : Nat) :
    Referred groups (groups.insert ⟨dev_id, fan_fd, 1⟩) groups.next fan_fd where
  keeps q g hg := by
    rw [SlotMap.get_insert, if_neg (Nat.ne_of_lt (SlotMap.lt_next hg))]
    exact ⟨g, hg, rfl⟩
  group := by
    rw [SlotMap.get_insert, if_pos rfl]
    exact ⟨_, rfl, rfl⟩
  here := by
    rw [refs, refs, SlotMap.get_insert, if_pos rfl, get_next]
    rfl
  other q hq := by rw [refs, refs, SlotMap.get_insert, if_neg hq]

/-- The groups after one reference has been given back. -/
def released (groups : SlotMap FsGroup) (key : Nat) (group : FsGroup) : SlotMap FsGroup :=
  let groups' := groups.modify key fun g => { g with ref_count := g.ref_count - 1 }
  if group.ref_count - 1 = 0 then groups'.remove key else groups'

theorem get_released {groups : SlotMap FsGroup} {key : Nat} {group : FsGroup}
    (hgroup : groups.get key = some group) (q : Nat) :
    (released groups key group).get q =
      if q = key then
        (if group.ref_count - 1 = 0 then none else some { group with ref_count := group.ref_count - 1 })
      else groups.get q := by
  rw [released]
  split
  · next hlast =>
      rw [SlotMap.get_remove, SlotMap.get_modify]
      by_cases hq : q = key <;> simp [hq]
  · next hmore =>
      rw [SlotMap.get_modify]
      by_cases hq : q = key
      · subst hq
        simp [hgroup]
      · simp [hq]

/-! ## The view -/

/-- The part of the state that marks depend on. -/
structure View where
  paths : List PathBuf
  canonical_paths : List PathBuf
  monitored_entries : List (PathBuf × PathOptions)
  groups : SlotMap FsGroup
  path_to_group : HashMap PathBuf Nat
  factory : Bool
  temp_parent_marks : HashMap PathBuf (PathBuf × Nat)
  kernel : Kernel

def view (m : Monitor) : View where
  paths := m.paths
  canonical_paths := m.canonical_paths
  monitored_entries := m.monitored_entries
  groups := m.fanotify.groups
  path_to_group := m.fanotify.path_to_group
  factory := m.fanotify.factory
  temp_parent_marks := m.inotify_state.temp_parent_marks
  kernel := m.kernel

namespace View

/-- The roots and the temporary marks that are mapped to a group. -/
def users (v : View) (key : Nat) : Nat :=
  HashMap.count v.path_to_group (· = key) + HashMap.count v.temp_parent_marks (·.2 = key)

theorem users_pos {v : View} {path : PathBuf} {key : Nat} (h : v.path_to_group.lookup path = some key) :
    0 < v.users key :=
  Nat.lt_of_lt_of_le (HashMap.count_pos h (decide_eq_true rfl)) (Nat.le_add_right _ _)

theorem users_pos_temp {v : View} {target parent : PathBuf} {key : Nat}
    (h : v.temp_parent_marks.lookup target = some (parent, key)) : 0 < v.users key :=
  Nat.lt_of_lt_of_le (HashMap.count_pos h (decide_eq_true rfl)) (Nat.le_add_left _ _)

/-- No group has more users than references. -/
def Counted (v : View) : Prop := ∀ key, v.users key ≤ refs v.groups key

/-- A user of a group finds it. -/
theorem Counted.group_of_user {v : View} (h : v.Counted) {key : Nat} (hused : 0 < v.users key) :
    ∃ group, v.groups.get key = some group := by
  have hrefs := Nat.lt_of_lt_of_le hused (h key)
  rw [refs] at hrefs
  cases hgroup : v.groups.get key with
  | some group => exact ⟨group, rfl⟩
  | none =>
      rw [hgroup] at hrefs
      cases hrefs

/-- The mark of the inode, in the group of the root, carries the bits. -/
def Holds (v : View) (path : PathBuf) (ino : Nat) (bits : Mask) : Prop :=
  ∃ key group, v.path_to_group.lookup path = some key ∧ v.groups.get key = some group ∧
    v.kernel.Carries group.fan_fd ino bits

/-- Roots stay in their groups, and marks are only added. -/
structure Grow (v v' : View) : Prop where
  paths : ∀ p ∈ v.paths, p ∈ v'.paths
  canonical : v.canonical_paths = v.paths → v'.canonical_paths = v'.paths
  factory : v'.factory = v.factory
  roots : ∀ p ∈ v.paths, v'.path_to_group.lookup p = v.path_to_group.lookup p
  groups : Keeps v.groups v'.groups
  counted : v.Counted → v'.Counted
  adds : Kernel.Adds v.kernel v'.kernel

theorem Grow.refl (v : View) : Grow v v :=
  ⟨fun _ h => h, id, rfl, fun _ _ => rfl, .refl _, id, .refl _⟩

theorem Grow.trans {u v w : View} (h : Grow u v) (h' : Grow v w) : Grow u w where
  paths p hp := h'.paths p (h.paths p hp)
  canonical := h'.canonical ∘ h.canonical
  factory := h'.factory.trans h.factory
  roots p hp := (h'.roots p (h.paths p hp)).trans (h.roots p hp)
  groups := h.groups.trans h'.groups
  counted := h'.counted ∘ h.counted
  adds := h.adds.trans h'.adds

/-- Marks are added, and entries come or go. -/
theorem Grow.of_adds {v : View} {k : Kernel} (h : Kernel.Adds v.kernel k)
    (entries : List (PathBuf × PathOptions)) :
    Grow v { v with monitored_entries := entries, kernel := k } :=
  ⟨fun _ hp => hp, id, rfl, fun _ _ => rfl, .refl _, id, h⟩

theorem Grow.holds {v v' : View} (h : Grow v v') {path : PathBuf} (hp : path ∈ v.paths) {ino : Nat}
    {bits : Mask} (hholds : v.Holds path ino bits) : v'.Holds path ino bits := by
  obtain ⟨key, group, hkey, hgroup, hc⟩ := hholds
  obtain ⟨group', hgroup', hfd⟩ := h.groups key group hgroup
  exact ⟨key, group', (h.roots path hp).trans hkey, hgroup', hfd ▸ h.adds.carries hc⟩

/-! ### Users and references -/

/-- One more root, and one more reference. -/
theorem counted_insert {v v' : View} {path : PathBuf} {key fan_fd : Nat} (h : v.Counted)
    (hroots : v'.path_to_group = v.path_to_group.insert path key)
    (htemp : v'.temp_parent_marks = v.temp_parent_marks)
    (hrefs : Referred v.groups v'.groups key fan_fd) : v'.Counted := by
  intro q
  have hle := HashMap.count_insert_le v.path_to_group path key fun k => decide (k = q)
  have hq := h q
  rw [users] at hq ⊢
  rw [hroots, htemp]
  by_cases hk : key = q
  · subst hk
    rw [hrefs.here]
    simp only [decide_true, if_true] at hle
    omega
  · rw [hrefs.other q (Ne.symm hk)]
    simp only [hk, decide_false, Bool.false_eq_true, if_false, Nat.add_zero] at hle
    omega

/-- One more temporary mark, and one more reference. -/
theorem counted_insert_temp {v v' : View} {target parent : PathBuf} {key fan_fd : Nat} (h : v.Counted)
    (hroots : v'.path_to_group = v.path_to_group)
    (htemp : v'.temp_parent_marks = v.temp_parent_marks.insert target (parent, key))
    (hrefs : Referred v.groups v'.groups key fan_fd) : v'.Counted := by
  intro q
  have hle := HashMap.count_insert_le v.temp_parent_marks target (parent, key) fun t => decide (t.2 = q)
  have hq := h q
  rw [users] at hq ⊢
  rw [hroots, htemp]
  by_cases hk : key = q
  · subst hk
    rw [hrefs.here]
    simp only [decide_true, if_true] at hle
    omega
  · rw [hrefs.other q (Ne.symm hk)]
    simp only [hk, decide_false, Bool.false_eq_true, if_false, Nat.add_zero] at hle
    omega

/-- One user less, and one reference less: whoever still uses a group finds it. -/
theorem counted_release {v v' : View} {key : Nat} {group : FsGroup} (h : v.Counted)
    (hgroup : v.groups.get key = some group) (hgroups : v'.groups = released v.groups key group)
    (hless : v'.users key + 1 ≤ v.users key) (hle : ∀ q, v'.users q ≤ v.users q) :
    v'.Counted ∧ ∀ q g, v.groups.get q = some g → 0 < v'.users q →
      ∃ g', v'.groups.get q = some g' ∧ g'.fan_fd = g.fan_fd := by
  have hkey : refs v.groups key = group.ref_count := by
    rw [refs, hgroup]
    rfl
  have hcount := h key
  rw [hkey] at hcount
  constructor
  · intro q
    rw [refs, hgroups, get_released hgroup]
    by_cases hq : q = key
    · subst hq
      rw [if_pos rfl]
      split
      · show v'.users q ≤ 0
        omega
      · show v'.users q ≤ group.ref_count - 1
        omega
    · rw [if_neg hq]
      exact Nat.le_trans (hle q) (h q)
  · intro q g hg hused
    rw [hgroups, get_released hgroup]
    by_cases hq : q = key
    · subst hq
      rw [hgroup] at hg
      cases hg
      rw [if_pos rfl, if_neg (by omega)]
      exact ⟨_, rfl, rfl⟩
    · rw [if_neg hq]
      exact ⟨g, hg, rfl⟩

/-- A new root, on a group that was there or is new. -/
theorem Grow.root {v v' : View} {path : PathBuf} {key fan_fd : Nat} (hpath : path ∉ v.paths)
    (hpaths : v'.paths = v.paths ++ [path])
    (hcanonical : v'.canonical_paths = v.canonical_paths ++ [path]) (hfactory : v'.factory = v.factory)
    (hroots : v'.path_to_group = v.path_to_group.insert path key)
    (htemp : v'.temp_parent_marks = v.temp_parent_marks)
    (hrefs : Referred v.groups v'.groups key fan_fd) (hadds : Kernel.Adds v.kernel v'.kernel) :
    Grow v v' where
  paths p hp := by
    rw [hpaths]
    exact List.mem_append_left _ hp
  canonical h := by rw [hcanonical, hpaths, h]
  factory := hfactory
  roots p hp := by
    rw [hroots, HashMap.lookup_insert', if_neg]
    rintro rfl
    exact hpath hp
  groups := hrefs.keeps
  counted h := counted_insert h hroots htemp hrefs
  adds := hadds

/-- A new temporary mark, on a group that was there or is new. -/
theorem Grow.temp {v v' : View} {target parent : PathBuf} {key fan_fd : Nat}
    (hpaths : v'.paths = v.paths) (hcanonical : v'.canonical_paths = v.canonical_paths)
    (hfactory : v'.factory = v.factory) (hroots : v'.path_to_group = v.path_to_group)
    (htemp : v'.temp_parent_marks = v.temp_parent_marks.insert target (parent, key))
    (hrefs : Referred v.groups v'.groups key fan_fd) (hadds : Kernel.Adds v.kernel v'.kernel) :
    Grow v v' where
  paths p hp := hpaths ▸ hp
  canonical h := by rw [hcanonical, hpaths, h]
  factory := hfactory
  roots p _ := by rw [hroots]
  groups := hrefs.keeps
  counted h := counted_insert_temp h hroots htemp hrefs
  adds := hadds

end View

/-! ## Operations that leave the view as it is -/

@[simp] theorem view_spawn_fd_reader (os : Os) (m : Monitor) (key : Nat) :
    (m.spawn_fd_reader os key).view = m.view := by
  rw [spawn_fd_reader]
  split <;> rfl

theorem view_with_inotify {m : Monitor} {s : InotifyState} (h : SameInotify m.inotify_state s) :
    view { m with inotify_state := s } = m.view := by
  obtain ⟨_, _, _, rfl⟩ := h
  rfl

@[simp] theorem view_setup_inotify_watches (os : Os) (m : Monitor) :
    (m.setup_inotify_watches os).view = m.view := by
  rw [setup_inotify_watches]
  split
  · rfl
  · exact view_with_inotify (((sameInotify_foldl (sameInotify_watch_pending os) _ _).trans
      (sameInotify_foldl (sameInotify_watch_root os) _ _)).trans
      (sameInotify_foldl (sameInotify_watch_self os) _ _))

theorem view_queue_pending (os : Os) (m : Monitor) (path : PathBuf) (entry : PathEntry) :
    (m.queue_pending os path entry).view = m.view := by
  rw [queue_pending]
  split
  · rfl
  · rw [view_setup_inotify_watches]
    rfl

/-! ## Roots -/

/-- The mark of the root is widened to all its entries. -/
def widened (os : Os) (m : Monitor) (path : PathBuf) (entries : List (PathBuf × PathOptions)) : Kernel :=
  let canonical := (m.canonical_paths[m.paths.idxOf path]?).getD path
  let new_mask := PathOptions.masks_of ((entries.filter fun e => e.1 = path).map (·.2))
  match (m.fanotify.path_to_group.lookup path).bind m.fanotify.groups.get with
  | none => m.kernel
  | some group =>
      if m.fanotify.factory then m.kernel.mark_directory os group.fan_fd new_mask canonical
      else m.kernel

theorem adds_widened (os : Os) (m : Monitor) (path : PathBuf)
    (entries : List (PathBuf × PathOptions)) : Kernel.Adds m.kernel (m.widened os path entries) := by
  rw [widened]
  cases (m.fanotify.path_to_group.lookup path).bind m.fanotify.groups.get with
  | none => exact .refl _
  | some group =>
      simp only
      split
      · exact Kernel.adds_mark_directory ..
      · exact .refl _

theorem view_add_cmd (os : Os) (m : Monitor) (path : PathBuf) (opts : PathOptions) :
    (m.add_cmd os path opts).view =
      { m.view with
        monitored_entries := m.monitored_entries ++ [(path, opts)]
        kernel := m.widened os path (m.monitored_entries ++ [(path, opts)]) } := by
  rw [add_cmd, widened]
  simp only
  cases m.fanotify.path_to_group.lookup path with
  | none => rfl
  | some key =>
      simp only [Option.bind_some]
      cases m.fanotify.groups.get key with
      | none => rfl
      | some group =>
          simp only
          cases m.fanotify.factory <;> rfl

theorem view_remark_path (os : Os) (m : Monitor) (path : PathBuf) :
    (m.remark_path os path).view = { m.view with kernel := m.widened os path m.monitored_entries } := by
  rw [remark_path, widened]
  simp only
  cases m.fanotify.path_to_group.lookup path with
  | none => rfl
  | some key =>
      simp only [Option.bind_some]
      cases m.fanotify.groups.get key with
      | none => rfl
      | some group =>
          simp only
          cases m.fanotify.factory <;> rfl

/-- The view with one more root. -/
def View.with_root (v : View) (path canonical : PathBuf) (opts : PathOptions) (key : Nat) : View :=
  { v with
    paths := v.paths ++ [path]
    canonical_paths := v.canonical_paths ++ [canonical]
    monitored_entries := v.monitored_entries ++ [(path, opts)]
    path_to_group := v.path_to_group.insert path key }

theorem view_register (os : Os) (m : Monitor) (path canonical : PathBuf) (opts : PathOptions)
    (key : Nat) :
    (m.register os path canonical opts key).view = m.view.with_root path canonical opts key := by
  simp only [register]
  split <;> rfl

end Monitor

end Fsmon
