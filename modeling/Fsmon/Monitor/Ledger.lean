/-
# `Fsmon.Monitor.Ledger` — the groups and their readers

The ledger is the groups with their reference counts and the reader tasks that were
spawned for them.  One call of an operation makes at most one entry in it:

    refer      one more reference to a group
    create     a new group, with a reader if one can be spawned
    release    a reference given back; the last one takes the group with it

Readers are only ever added: nothing stops a task.  Of the groups two things follow:

    Aged     a group keeps its file system and its descriptor, and no key comes back
    Homes    as long as nothing is given back, a file system keeps its group
-/
import Fsmon.Monitor.Cover

namespace Fsmon.Monitor

/-! ## What becomes of a group -/

/-- What is there was there, under the same key, or is new. -/
structure Aged (groups groups' : SlotMap FsGroup) : Prop where
  next_le : groups.next ≤ groups'.next
  old : ∀ key < groups.next, ∀ group', groups'.get key = some group' →
    ∃ group, groups.get key = some group ∧ group.dev_id = group'.dev_id ∧ group.fan_fd = group'.fan_fd

theorem Aged.refl (groups : SlotMap FsGroup) : Aged groups groups :=
  ⟨Nat.le_refl _, fun _ _ group h => ⟨group, h, rfl, rfl⟩⟩

theorem Aged.trans {a b c : SlotMap FsGroup} (h : Aged a b) (h' : Aged b c) : Aged a c where
  next_le := Nat.le_trans h.next_le h'.next_le
  old key hkey group' hgroup' := by
    obtain ⟨g, hg, hdev, hfd⟩ := h'.old key (Nat.lt_of_lt_of_le hkey h.next_le) group' hgroup'
    obtain ⟨g', hg', hdev', hfd'⟩ := h.old key hkey g hg
    exact ⟨g', hg', hdev'.trans hdev, hfd'.trans hfd⟩

theorem aged_modify (groups : SlotMap FsGroup) (key : Nat) (f : Nat → Nat) :
    Aged groups (groups.modify key fun g => { g with ref_count := f g.ref_count }) where
  next_le := Nat.le_of_eq (SlotMap.next_modify ..).symm
  old q _ g' hg' := by
    rw [SlotMap.get_modify] at hg'
    split at hg'
    · next hq =>
        subst hq
        obtain ⟨g, hg, rfl⟩ := Option.map_eq_some_iff.1 hg'
        exact ⟨g, hg, rfl, rfl⟩
    · exact ⟨g', hg', rfl, rfl⟩

theorem aged_remove (groups : SlotMap FsGroup) (key : Nat) : Aged groups (groups.remove key) where
  next_le := Nat.le_of_eq (SlotMap.next_remove ..).symm
  old q _ g' hg' := by
    rw [SlotMap.get_remove] at hg'
    split at hg'
    · cases hg'
    · exact ⟨g', hg', rfl, rfl⟩

theorem aged_insert (groups : SlotMap FsGroup) (group : FsGroup) : Aged groups (groups.insert group) where
  next_le := by
    rw [SlotMap.next_insert]
    exact Nat.le_succ _
  old q hq g' hg' := by
    rw [SlotMap.get_insert, if_neg (Nat.ne_of_lt hq)] at hg'
    exact ⟨g', hg', rfl, rfl⟩

theorem aged_released (groups : SlotMap FsGroup) (key : Nat) (group : FsGroup) :
    Aged groups (released groups key group) := by
  rw [released]
  have hmod := aged_modify groups key fun n => n - 1
  split
  · exact hmod.trans (aged_remove ..)
  · exact hmod

/-- The file system of a group. -/
def dev_of (groups : SlotMap FsGroup) (key : Nat) : Option Nat := (groups.get key).map fun g => g.dev_id

/-- The group of a file system. -/
def home (groups : SlotMap FsGroup) (dev_id : Nat) : Option Nat :=
  (groups.find fun g => g.dev_id = dev_id).map (·.1)

/-- A file system that has a group keeps it; one that has none may get a new one. -/
structure Homes (groups groups' : SlotMap FsGroup) : Prop where
  next_le : groups.next ≤ groups'.next
  kept : ∀ dev_id key, home groups dev_id = some key → home groups' dev_id = some key
  fresh : ∀ dev_id key, home groups dev_id = none → home groups' dev_id = some key → groups.next ≤ key

theorem Homes.refl (groups : SlotMap FsGroup) : Homes groups groups := by
  refine ⟨Nat.le_refl _, fun _ _ h => h, fun dev_id key hnone hsome => ?_⟩
  rw [hnone] at hsome
  cases hsome

theorem Homes.trans {a b c : SlotMap FsGroup} (h : Homes a b) (h' : Homes b c) : Homes a c where
  next_le := Nat.le_trans h.next_le h'.next_le
  kept dev_id key hkey := h'.kept dev_id key (h.kept dev_id key hkey)
  fresh dev_id key hnone hkey := by
    cases hb : home b dev_id with
    | none => exact Nat.le_trans h.next_le (h'.fresh dev_id key hb hkey)
    | some k =>
        rw [h'.kept dev_id k hb] at hkey
        cases hkey
        exact h.fresh dev_id key hnone hb

theorem home_eq_some {groups : SlotMap FsGroup} {dev_id key : Nat} :
    home groups dev_id = some key ↔
      dev_of groups key = some dev_id ∧ ∀ q < key, dev_of groups q ≠ some dev_id := by
  have hdev : ∀ q, dev_of groups q = some dev_id ↔ ∃ g, groups.get q = some g ∧ g.dev_id = dev_id :=
    fun q => Option.map_eq_some_iff
  rw [home, Option.map_eq_some_iff, hdev]
  constructor
  · rintro ⟨⟨_, group⟩, hfind, rfl⟩
    obtain ⟨hget, hp, hfirst⟩ := SlotMap.find_eq_some.1 hfind
    refine ⟨⟨group, hget, of_decide_eq_true hp⟩, fun q hq hq' => ?_⟩
    obtain ⟨g, hg, hgdev⟩ := (hdev q).1 hq'
    exact of_decide_eq_false (hfirst q hq g hg) hgdev
  · rintro ⟨⟨group, hget, hp⟩, hfirst⟩
    refine ⟨(key, group), SlotMap.find_eq_some.2 ⟨hget, decide_eq_true hp, fun q hq g hg => ?_⟩, rfl⟩
    exact decide_eq_false fun hgdev => hfirst q hq ((hdev q).2 ⟨g, hg, hgdev⟩)

theorem dev_of_ne_of_home_none {groups : SlotMap FsGroup} {dev_id : Nat} (h : home groups dev_id = none)
    (key : Nat) : dev_of groups key ≠ some dev_id := by
  intro hkey
  obtain ⟨g, hg, hdev⟩ := Option.map_eq_some_iff.1 hkey
  exact of_decide_eq_false (SlotMap.find_none (Option.map_eq_none_iff.1 h) hg) hdev

theorem home_congr {groups groups' : SlotMap FsGroup} (h : ∀ q, dev_of groups' q = dev_of groups q)
    (dev_id : Nat) : home groups' dev_id = home groups dev_id := by
  refine Option.ext fun key => ?_
  rw [home_eq_some, home_eq_some]
  simp only [h]

/-- Counting references moves no file system. -/
theorem home_modify (groups : SlotMap FsGroup) (key : Nat) (f : Nat → Nat) (dev_id : Nat) :
    home (groups.modify key fun g => { g with ref_count := f g.ref_count }) dev_id = home groups dev_id := by
  refine home_congr (fun q => ?_) dev_id
  rw [dev_of, dev_of, SlotMap.get_modify]
  split
  · next hq =>
      subst hq
      cases groups.get q <;> rfl
  · rfl

theorem homes_modify (groups : SlotMap FsGroup) (key : Nat) (f : Nat → Nat) :
    Homes groups (groups.modify key fun g => { g with ref_count := f g.ref_count }) where
  next_le := Nat.le_of_eq (SlotMap.next_modify ..).symm
  kept dev_id k h := (home_modify groups key f dev_id).trans h
  fresh dev_id k hnone hsome := by
    rw [home_modify, hnone] at hsome
    cases hsome

theorem homes_insert (groups : SlotMap FsGroup) (group : FsGroup) : Homes groups (groups.insert group) := by
  have hold : ∀ q < groups.next, dev_of (groups.insert group) q = dev_of groups q := by
    intro q hq
    rw [dev_of, dev_of, SlotMap.get_insert, if_neg (Nat.ne_of_lt hq)]
  refine ⟨(aged_insert groups group).next_le, fun dev_id key h => ?_, fun dev_id key hnone hsome => ?_⟩
  · obtain ⟨hdev, hfirst⟩ := home_eq_some.1 h
    obtain ⟨g, hg, _⟩ := Option.map_eq_some_iff.1 hdev
    have hkey := SlotMap.lt_next hg
    refine home_eq_some.2 ⟨(hold key hkey).trans hdev, fun q hq => ?_⟩
    rw [hold q (Nat.lt_trans hq hkey)]
    exact hfirst q hq
  · by_contra hlt
    have hdev := (home_eq_some.1 hsome).1
    rw [hold key (Nat.lt_of_not_le hlt)] at hdev
    exact dev_of_ne_of_home_none hnone key hdev

/-- A file system whose group has a user left keeps it. -/
theorem home_released {groups : SlotMap FsGroup} {key : Nat} {group : FsGroup} (dev_id : Nat)
    (hgroup : groups.get key = some group) :
    home (released groups key group) dev_id = some key ↔
      home groups dev_id = some key ∧ 2 ≤ group.ref_count := by
  have hother : ∀ q, q ≠ key → dev_of (released groups key group) q = dev_of groups q := by
    intro q hq
    rw [dev_of, dev_of, get_released hgroup, if_neg hq]
  have hself : dev_of (released groups key group) key = some dev_id ↔
      dev_of groups key = some dev_id ∧ 2 ≤ group.ref_count := by
    rw [dev_of, dev_of, get_released hgroup, if_pos rfl, hgroup]
    split
    · next hlast => simp; omega
    · next hmore => simp; omega
  rw [home_eq_some, home_eq_some, hself, and_right_comm]
  refine and_congr_left fun _ => and_congr_right fun _ => ?_
  constructor
  · intro h q hq
    rw [← hother q (Nat.ne_of_lt hq)]
    exact h q hq
  · intro h q hq
    rw [hother q (Nat.ne_of_lt hq)]
    exact h q hq

/-! ## The ledger -/

structure Ledger where
  groups : SlotMap FsGroup
  readers : List Nat
  /-- The channel and the shared cache are there. -/
  spawns : Bool

def ledger (m : Monitor) : Ledger :=
  ⟨m.fanotify.groups, m.readers, m.event_tx && m.fanotify.shared_dir_cache⟩

namespace Ledger

/-- A new group, with its reader. -/
def create (l : Ledger) (dup_ok : Bool) (group : FsGroup) : Ledger :=
  { l with
    groups := l.groups.insert group
    readers := if l.spawns && dup_ok then l.readers ++ [l.groups.next] else l.readers }

/-- At most one reference more. -/
inductive Gain (dup_ok : Bool) (l : Ledger) : Ledger → Prop
  | same : Gain dup_ok l l
  | refer (key : Nat) (group : FsGroup) (hgroup : l.groups.get key = some group) :
      Gain dup_ok l
        { l with groups := l.groups.modify key fun g => { g with ref_count := g.ref_count + 1 } }
  | create (dev_id fan_fd : Nat) : Gain dup_ok l (l.create dup_ok ⟨dev_id, fan_fd, 1⟩)

/-- A reference is given back. -/
def release (l : Ledger) (key : Nat) (group : FsGroup) : Ledger :=
  { l with groups := released l.groups key group }

theorem Gain.aged {dup_ok : Bool} {l l' : Ledger} (h : Gain dup_ok l l') : Aged l.groups l'.groups := by
  cases h with
  | same => exact .refl _
  | refer key group hgroup => exact aged_modify l.groups key fun n => n + 1
  | create dev_id fan_fd => exact aged_insert ..

end Ledger

/-! ### Operations that make no entry -/

theorem ledger_setup_inotify_watches (os : Os) (m : Monitor) :
    (m.setup_inotify_watches os).ledger = m.ledger := by
  rw [setup_inotify_watches]
  split <;> rfl

theorem ledger_mark_on_group (os : Os) (m : Monitor) (fan_fd : Nat) (canonical : PathBuf)
    (opts : PathOptions) : (m.mark_on_group os fan_fd canonical opts).ledger = m.ledger := by
  rw [mark_on_group]
  split
  · rfl
  · split
    · rfl
    · split <;> rfl

theorem ledger_register (os : Os) (m : Monitor) (path canonical : PathBuf) (opts : PathOptions)
    (key : Nat) : (m.register os path canonical opts key).ledger = m.ledger := by
  simp only [register]
  split <;> rfl

theorem ledger_add_cmd (os : Os) (m : Monitor) (path : PathBuf) (opts : PathOptions) :
    (m.add_cmd os path opts).ledger = m.ledger := by
  rw [add_cmd]
  simp only
  split
  · rfl
  · split
    · rfl
    · split <;> rfl

theorem ledger_queue_pending (os : Os) (m : Monitor) (path : PathBuf) (entry : PathEntry) :
    (m.queue_pending os path entry).ledger = m.ledger := by
  rw [queue_pending]
  split
  · rfl
  · exact ledger_setup_inotify_watches ..

theorem ledger_remark_path (os : Os) (m : Monitor) (path : PathBuf) :
    (m.remark_path os path).ledger = m.ledger := by
  rw [remark_path]
  simp only
  split
  · rfl
  · split
    · rfl
    · split <;> rfl

theorem ledger_on_new_subdirectory (os : Os) (m : Monitor) (path : PathBuf) :
    (m.on_new_subdirectory os path).1.ledger = m.ledger := by
  rcases on_new_subdirectory_cases os m path with h | ⟨_, _, _, _, _, _, _, _, h⟩
  · rw [h]
  · rw [h]
    rfl

/-! ### Operations that make one -/

/-- The reader of a new group. -/
theorem ledger_spawn_fd_reader (os : Os) (m : Monitor) (key : Nat) :
    (m.spawn_fd_reader os key).ledger =
      { m.ledger with
        readers := if m.ledger.spawns && os.dup_ok then m.readers ++ [key] else m.readers } := by
  rw [spawn_fd_reader, show m.ledger.spawns = (m.event_tx && m.fanotify.shared_dir_cache) from rfl]
  split <;> rfl

theorem ledger_create (os : Os) (m : Monitor) (group : FsGroup) :
    (spawn_fd_reader os
      { m with fanotify := { m.fanotify with groups := m.fanotify.groups.insert group } }
      m.fanotify.groups.next).ledger = m.ledger.create os.dup_ok group := by
  rw [ledger_spawn_fd_reader]
  rfl

theorem home_of_group_on {m : Monitor} {dev_id key : Nat} {group : FsGroup}
    (h : m.group_on dev_id = some (key, group)) : home m.fanotify.groups dev_id = some key :=
  Option.map_eq_some_iff.2 ⟨(key, group), h, rfl⟩

/-- A new group is the one of its file system, if there was none. -/
theorem home_insert {groups : SlotMap FsGroup} {group : FsGroup} (h : home groups group.dev_id = none) :
    home (groups.insert group) group.dev_id = some groups.next := by
  refine home_eq_some.2 ⟨?_, fun q hq => ?_⟩
  · rw [dev_of, SlotMap.get_insert, if_pos rfl]
    rfl
  · rw [dev_of, SlotMap.get_insert, if_neg (Nat.ne_of_lt hq)]
    exact dev_of_ne_of_home_none h q

/-- What a new root or a temporary mark does: one more reference, in the file system's own group. -/
structure Joined (os : Os) (m m' : Monitor) (dev_id key : Nat) : Prop where
  gain : Ledger.Gain os.dup_ok m.ledger m'.ledger
  homes : Homes m.fanotify.groups m'.fanotify.groups
  home : home m'.fanotify.groups dev_id = some key

theorem joined_refer {os : Os} {m m' : Monitor} {dev_id key : Nat} {group : FsGroup}
    (h : m.group_on dev_id = some (key, group))
    (hm' : m'.ledger =
      { m.ledger with
        groups := m.fanotify.groups.modify key fun g => { g with ref_count := g.ref_count + 1 } }) :
    Joined os m m' dev_id key := by
  have hgroups : m'.fanotify.groups = _ := congrArg Ledger.groups hm'
  refine ⟨?_, ?_, ?_⟩
  · rw [hm']
    exact .refer key group (SlotMap.find_some h).1
  · rw [hgroups]
    exact homes_modify m.fanotify.groups key fun n => n + 1
  · rw [hgroups]
    exact (home_modify m.fanotify.groups key (fun n => n + 1) dev_id).trans (home_of_group_on h)

theorem joined_create {os : Os} {m m' : Monitor} {dev_id : Nat} (fan_fd : Nat) (h : m.group_on dev_id = none)
    (hm' : m'.ledger = m.ledger.create os.dup_ok ⟨dev_id, fan_fd, 1⟩) :
    Joined os m m' dev_id m.fanotify.groups.next := by
  have hgroups : m'.fanotify.groups = m.fanotify.groups.insert ⟨dev_id, fan_fd, 1⟩ :=
    congrArg Ledger.groups hm'
  refine ⟨?_, ?_, ?_⟩
  · rw [hm']
    exact .create dev_id fan_fd
  · rw [hgroups]
    exact homes_insert ..
  · rw [hgroups]
    exact @home_insert _ ⟨dev_id, fan_fd, 1⟩ (Option.map_eq_none_iff.2 h)

theorem lookup_register (os : Os) (m : Monitor) (path canonical : PathBuf) (opts : PathOptions)
    (key : Nat) : (m.register os path canonical opts key).fanotify.path_to_group.lookup path = some key := by
  have hroots : (m.register os path canonical opts key).fanotify.path_to_group =
      m.fanotify.path_to_group.insert path key := congrArg View.path_to_group (view_register ..)
  rw [hroots, HashMap.lookup_insert', if_pos rfl]

theorem joined_add_root {os : Os} {m m' : Monitor} {path : PathBuf} {opts : PathOptions}
    (h : m.add_root os path opts = .ok m') :
    ∃ key, m'.fanotify.path_to_group.lookup path = some key ∧
      Joined os m m' (os.dev_id (os.canonical path)) key := by
  simp only [add_root] at h
  cases hgroup : m.group_on (os.dev_id (os.canonical path)) with
  | some found =>
      obtain ⟨key, group⟩ := found
      rw [hgroup] at h
      cases h
      refine ⟨key, lookup_register .., joined_refer hgroup ?_⟩
      have hmark := ledger_mark_on_group os m group.fan_fd (os.canonical path) opts
      generalize m.mark_on_group os group.fan_fd (os.canonical path) opts = m₁ at hmark
      rw [ledger_register]
      show ({ m₁.ledger with groups := m₁.ledger.groups.modify key _ } : Ledger) = _
      rw [hmark]
      rfl
  | none =>
      rw [hgroup] at h
      simp only at h
      split at h
      · cases h
      · split at h
        · cases h
        · next r new_fd k hcreate =>
            cases h
            have hwalk : (if opts.recursive && os.is_dir (os.canonical path) then
                (mark_recursive os { m with kernel := k } new_fd opts.path_mask_from_options
                  (os.canonical path) opts.max_depth).1
                else { m with kernel := k }).ledger = m.ledger := by
              split <;> rfl
            generalize (if opts.recursive && os.is_dir (os.canonical path) then
                (mark_recursive os { m with kernel := k } new_fd opts.path_mask_from_options
                  (os.canonical path) opts.max_depth).1
                else { m with kernel := k }) = m₁ at hwalk
            have hnext : m₁.fanotify.groups.next = m.fanotify.groups.next :=
              congrArg (fun l : Ledger => l.groups.next) hwalk
            refine ⟨_, lookup_register .., ?_⟩
            rw [hnext]
            refine joined_create new_fd hgroup ?_
            rw [← hwalk, ← hnext, ledger_register]
            exact ledger_create os m₁ _

/-- A temporary mark makes an entry, too, or does nothing. -/
theorem joined_add_temp_parent_mark [Sizefilter] (os : Os) (m : Monitor) (target : PathBuf) :
    (m.add_temp_parent_mark os target).ledger = m.ledger ∨
      ∃ dev_id key, Joined os m (m.add_temp_parent_mark os target) dev_id key := by
  rw [add_temp_parent_mark]
  cases os.nearest_existing_ancestor target with
  | none => exact .inl rfl
  | some parent =>
      simp only
      split
      · exact .inl rfl
      · split
        · exact .inl rfl
        · split
          · exact .inl rfl
          · cases os.open_dir_safe (os.canonical parent) with
            | none => exact .inl rfl
            | some dir =>
                simp only
                cases hgroup : m.group_on (os.dev_id (os.canonical parent)) with
                | some found =>
                    simp only
                    cases m.kernel.mark_directory_at os found.2.fan_fd dir (m.temp_mask target) with
                    | none => exact .inl rfl
                    | some k => exact .inr ⟨_, _, joined_refer hgroup rfl⟩
                | none =>
                    simp only
                    cases m.kernel.create_group_and_mark os dir (m.temp_mask target) with
                    | none => exact .inl rfl
                    | some r =>
                        refine .inr ⟨_, _, joined_create r.1 hgroup ?_⟩
                        exact ledger_create os { m with kernel := r.2 } _

/-- What `add_path` does to the ledger. -/
theorem ledger_add_path [Sizefilter] {os : Os} {m m' : Monitor} {entry : PathEntry}
    (h : m.add_path os entry = .ok m') :
    m'.ledger = m.ledger ∨ ∃ dev_id key, Joined os m m' dev_id key := by
  simp only [add_path] at h
  split at h
  · split at h
    · cases h
    · cases h
      exact .inl (ledger_add_cmd ..)
  · split at h
    · cases h
    · split at h
      · cases h
        exact .inl (ledger_queue_pending ..)
      · split at h
        · cases h
        · split at h
          · cases h
          · split at h
            · cases h
            · obtain ⟨key, _, hjoined⟩ := joined_add_root h
              exact .inr ⟨_, key, hjoined⟩

/-! ### Operations that give a reference back -/

theorem ledger_release_root (os : Os) {m : Monitor} {path canonical : PathBuf} {pos key : Nat}
    {group : FsGroup} (hkey : m.fanotify.path_to_group.lookup path = some key)
    (hgroup : m.fanotify.groups.get key = some group) (hplace : m.canonical_paths[pos]? = some canonical) :
    (m.release_root os path pos).ledger = m.ledger.release key group := by
  rw [release_root, hkey]
  simp only [hgroup, hplace]
  split <;> rfl

theorem ledger_remove_temp_parent_mark (os : Os) {m : Monitor} {target parent : PathBuf} {key : Nat}
    {group : FsGroup} (hmark : m.inotify_state.temp_parent_marks.lookup target = some (parent, key))
    (hgroup : m.fanotify.groups.get key = some group) :
    (m.remove_temp_parent_mark os target).ledger = m.ledger.release key group := by
  rw [remove_temp_parent_mark, hmark]
  simp only [hgroup]
  split <;> rfl

end Fsmon.Monitor
