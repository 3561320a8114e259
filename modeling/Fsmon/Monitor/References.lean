/-
# `Fsmon.Monitor.References` — the daemon's operations keep the books

Each call changes the books by `Change`s, a temporary mark for a target that has one by a
`Remark`.  So in every state that operations lead to from a start that succeeded

    no_dangling        no root, key or position dangles, and no access is out of range
    references_exact   no group has a reference without a user, as long as no target is
                       marked twice before it is cleaned up
-/
import Fsmon.Monitor.Books
import Fsmon.Monitor.Sound

namespace Fsmon.Monitor

/-! ## Calls that keep what they find -/

theorem panicked_spawn_fd_reader (os : Os) (m : Monitor) (key : Nat) :
    (m.spawn_fd_reader os key).panicked = m.panicked := by
  rw [spawn_fd_reader]
  split <;> rfl

theorem panicked_on_new_subdirectory (os : Os) (m : Monitor) (path : PathBuf) :
    (m.on_new_subdirectory os path).1.panicked = m.panicked := by
  rcases on_new_subdirectory_cases os m path with h | ⟨_, _, _, _, _, _, _, _, h⟩
  · rw [h]
  · rw [h]
    rfl

theorem panicked_register (os : Os) (m : Monitor) (path canonical : PathBuf) (opts : PathOptions)
    (key : Nat) : (m.register os path canonical opts key).panicked = m.panicked := by
  simp only [register]
  split <;> rfl

theorem panicked_mark_on_group (os : Os) (m : Monitor) (fan_fd : Nat) (canonical : PathBuf)
    (opts : PathOptions) : (m.mark_on_group os fan_fd canonical opts).panicked = m.panicked := by
  rw [mark_on_group]
  split
  · rfl
  · split
    · rfl
    · split <;> rfl

theorem panicked_queue_pending (os : Os) (m : Monitor) (path : PathBuf) (entry : PathEntry) :
    (m.queue_pending os path entry).panicked = m.panicked := by
  rw [queue_pending]
  split
  · rfl
  · exact (Closed.quiet_setup_inotify_watches ..).panicked

/-! ## Adding -/

/-- One reference more, in the group of the file system. -/
theorem entered_of_joined {os : Os} {m m' : Monitor} {dev_id key fan_fd : Nat} (h : Joined os m m' dev_id key)
    (hrefs : Referred m.fanotify.groups m'.fanotify.groups key fan_fd) :
    Entered m.fanotify.groups m'.fanotify.groups key := by
  have hhere := hrefs.here
  have hgain := h.gain
  have hhome := h.home
  generalize hl : m'.ledger = l at hgain
  have hgroups : m'.fanotify.groups = l.groups := congrArg Ledger.groups hl
  rw [hgroups] at hhere hhome ⊢
  cases hgain with
  | same => exact absurd hhere (Nat.ne_of_lt (Nat.lt_succ_self _))
  | refer key' group hgroup =>
      have hentered : Entered m.fanotify.groups _ key' := .refer hgroup
      have hkey := hentered.refs key
      have heq : key' = key := by
        by_contra hne
        rw [if_neg hne] at hkey
        exact absurd (hhere.symm.trans hkey) (Nat.succ_ne_self _)
      exact heq ▸ hentered
  | create dev_id' fan_fd' =>
      obtain ⟨hdev, hfirst⟩ := home_eq_some.1 hhome
      have hother : ∀ q, q ≠ m.fanotify.groups.next →
          (m.fanotify.groups.insert ⟨dev_id', fan_fd', 1⟩).get q = m.fanotify.groups.get q := by
        intro q hq
        rw [SlotMap.get_insert, if_neg hq]
      have hkey : key = m.fanotify.groups.next := by
        by_contra hne
        have hsame : refs (m.fanotify.groups.insert ⟨dev_id', fan_fd', 1⟩) key =
            refs m.fanotify.groups key := by rw [refs, refs, hother key hne]
        exact absurd (hhere.symm.trans hsame) (Nat.succ_ne_self _)
      subst hkey
      have hsame : dev_id' = dev_id := by
        have hnew : dev_of (m.fanotify.groups.insert ⟨dev_id', fan_fd', 1⟩) m.fanotify.groups.next =
            some dev_id' := by
          rw [dev_of, SlotMap.get_insert, if_pos rfl]
          rfl
        exact Option.some.inj (hnew.symm.trans hdev)
      subst hsame
      refine .create fan_fd' ?_
      cases hfree : home m.fanotify.groups dev_id' with
      | none => rfl
      | some q =>
          obtain ⟨hq, _⟩ := home_eq_some.1 hfree
          obtain ⟨g, hg, _⟩ := Option.map_eq_some_iff.1 hq
          have hlt := SlotMap.lt_next hg
          refine absurd ?_ (hfirst q hlt)
          show dev_of (m.fanotify.groups.insert ⟨dev_id', fan_fd', 1⟩) q = _
          rw [dev_of, hother q (Nat.ne_of_lt hlt)]
          exact hq

/-- A new root is listed, and mapped. -/
theorem changes_add_root {os : Os} {m m' : Monitor} {path : PathBuf} {opts : PathOptions}
    (hv : m.view.Intact) (hpath : path ∉ m.paths) (h : m.add_root os path opts = .ok m') :
    View.Changes m.view m'.view := by
  obtain ⟨groups, k, key, fan_fd, hview, hrefs, _⟩ := view_add_root h
  obtain ⟨key', hkey', hjoined⟩ := joined_add_root h
  have hgroups : m'.fanotify.groups = groups := congrArg View.groups hview
  have hkey : m'.fanotify.path_to_group.lookup path = some key := by
    rw [show m'.fanotify.path_to_group = m.fanotify.path_to_group.insert path key from
      congrArg View.path_to_group hview, HashMap.lookup_insert', if_pos rfl]
  rw [hkey'] at hkey
  cases hkey
  have hentered : Entered m.fanotify.groups groups key := hgroups ▸ entered_of_joined hjoined (hgroups.symm ▸ hrefs)
  have hfree : m.fanotify.path_to_group.lookup path = none := by
    by_contra hmapped
    obtain ⟨q, hq⟩ := Option.ne_none_iff_exists'.1 hmapped
    exact hpath (hv.listed path q hq)
  rw [hview]
  have hlist := View.Change.list (v := m.view) path (os.canonical path) hpath
  have hmap := View.Change.map
    (v := { m.view with
      paths := m.paths ++ [path]
      canonical_paths := m.canonical_paths ++ [os.canonical path] })
    path groups key (List.mem_append_right _ (List.mem_singleton_self _)) hfree hentered
  exact ((Relation.ReflTransGen.single hlist).tail hmap).tail
    (.still (m.monitored_entries ++ [(path, opts)]) k)

theorem panicked_add_root {os : Os} {m m' : Monitor} {path : PathBuf} {opts : PathOptions}
    (h : m.add_root os path opts = .ok m') : m'.panicked = m.panicked := by
  simp only [add_root] at h
  split at h
  · cases h
    rw [panicked_register]
    exact panicked_mark_on_group ..
  · split at h
    · cases h
    · split at h
      · cases h
      · cases h
        rw [panicked_register, panicked_spawn_fd_reader]
        show (if _ then _ else _ : Monitor).panicked = _
        split <;> rfl

/-- A root that is listed finds its group, if it has one. -/
theorem group_of_root {m : Monitor} (hv : m.view.Intact) {path : PathBuf} {key : Nat}
    (hkey : m.fanotify.path_to_group.lookup path = some key) :
    ∃ group, m.fanotify.groups.get key = some group :=
  hv.counted.group_of_user (@View.users_pos m.view path key hkey)

section
variable [Sizefilter]

theorem changes_add_path {os : Os} {m m' : Monitor} {entry : PathEntry} (hv : m.view.Intact)
    (h : m.add_path os entry = .ok m') :
    View.Changes m.view m'.view ∧ m'.panicked = m.panicked := by
  simp only [add_path] at h
  split at h
  · split at h
    · cases h
    · cases h
      refine ⟨?_, ?_⟩
      · rw [view_add_cmd]
        exact .single (.still _ _)
      · rw [add_cmd]
        simp only
        cases hkey : m.fanotify.path_to_group.lookup (os.canonical entry.path) with
        | none => rfl
        | some key =>
            obtain ⟨group, hgroup⟩ := group_of_root hv hkey
            simp only [hgroup]
            split <;> rfl
  · next hpath =>
      split at h
      · cases h
      · split at h
        · cases h
          exact ⟨.of_eq (view_queue_pending ..), panicked_queue_pending ..⟩
        · split at h
          · cases h
          · split at h
            · cases h
            · split at h
              · cases h
              · exact ⟨changes_add_root hv hpath h, panicked_add_root h⟩

/-! ## Removing -/

omit [Sizefilter] in
/-- A root without entries gives its reference back, and is not listed any more. -/
theorem changes_forget_path (os : Os) {m : Monitor} (hv : m.view.Intact) (path : PathBuf) :
    View.Changes m.view (m.forget_path os path).view ∧
      (m.forget_path os path).panicked = m.panicked := by
  rw [forget_path]
  split
  · next hlisted =>
      simp only
      cases hkey : m.fanotify.path_to_group.lookup path with
      | none =>
          have hunmapped : m.release_root os path (m.paths.idxOf path) = m := by rw [release_root, hkey]
          have herase : m.fanotify.path_to_group.erase path = m.fanotify.path_to_group :=
            AList.ext (List.kerase_of_notMem_keys (AList.lookup_eq_none.1 hkey))
          rw [hunmapped, herase]
          exact ⟨.single (.unlist (v := m.view) path hlisted hkey), rfl⟩
      | some key =>
          obtain ⟨group, hgroup⟩ := group_of_root hv hkey
          have hin : m.paths.idxOf path < m.canonical_paths.length :=
            hv.paired.symm ▸ List.idxOf_lt_length_of_mem hlisted
          have hplace := List.getElem?_eq_getElem hin
          have hview := view_release_root os hkey hgroup hplace
          have hpanicked : (m.release_root os path (m.paths.idxOf path)).panicked = m.panicked := by
            rw [release_root, hkey]
            simp only [hgroup, hplace]
            split <;> rfl
          generalize m.release_root os path (m.paths.idxOf path) = m₁ at hview hpanicked ⊢
          refine ⟨?_, hpanicked⟩
          show View.Changes m.view
            { m₁.view with
              paths := m₁.view.paths.eraseIdx (m.paths.idxOf path)
              canonical_paths := m₁.view.canonical_paths.eraseIdx (m.paths.idxOf path)
              path_to_group := m₁.view.path_to_group.erase path }
          rw [hview]
          have hunmap := View.Change.unmap (v := m.view) path key group hkey hgroup
          have hunlist := View.Change.unlist
            (v := { m.view with
              groups := released m.fanotify.groups key group
              path_to_group := m.fanotify.path_to_group.erase path })
            path hlisted (by rw [HashMap.lookup_erase', if_pos rfl])
          exact ((Relation.ReflTransGen.single hunmap).tail hunlist).tail (.still m.monitored_entries _)
  · exact ⟨.refl, rfl⟩

omit [Sizefilter] in
theorem panicked_remark_path (os : Os) {m : Monitor} (hv : m.view.Intact) (path : PathBuf) :
    (m.remark_path os path).panicked = m.panicked := by
  rw [remark_path]
  simp only
  cases hkey : m.fanotify.path_to_group.lookup path with
  | none => rfl
  | some key =>
      obtain ⟨group, hgroup⟩ := group_of_root hv hkey
      simp only [hgroup]
      split <;> rfl

omit [Sizefilter] in
theorem changes_remove_path {os : Os} {m m' : Monitor} {path : PathBuf} {cmd : Option String}
    (hv : m.view.Intact) (h : m.remove_path os path cmd = .ok m') :
    View.Changes m.view m'.view ∧ m'.panicked = m.panicked := by
  have hleft : (m.left path cmd).view.Intact := (View.Change.still _ m.kernel).intact hv
  have hdrop : View.Changes m.view (m.left path cmd).view := .single (.still _ m.kernel)
  simp only [remove_path] at h
  split at h
  · cases h
  · cases h
    split
    · refine ⟨hdrop.tail ?_, panicked_remark_path os hleft path⟩
      show View.Change (m.left path cmd).view ((m.left path cmd).remark_path os path).view
      rw [view_remark_path]
      exact .still (m.left path cmd).monitored_entries _
    · obtain ⟨hchanges, hpanicked⟩ := changes_forget_path os hleft path
      exact ⟨hdrop.trans hchanges, hpanicked⟩

/-! ## Temporary marks -/

/-- The ancestor that is marked for a target, if the call gets through. -/
def temp_parent (os : Os) (m : Monitor) (target : PathBuf) : Option PathBuf :=
  match os.nearest_existing_ancestor target with
  | none => none
  | some parent =>
      if parent = target ∨ m.temp_mask target = 0 ∨ m.fanotify.factory = false then none
      else
        match os.open_dir_safe (os.canonical parent) with
        | none => none
        | some dir =>
            if (m.group_on (os.dev_id (os.canonical parent))).isSome then
              if os.mark_ok dir.node.ino then some parent else none
            else if os.create_ok dir.node.ino then some parent else none

/-- The target refers to the group of its ancestor. -/
structure Lent (m : Monitor) (target parent : PathBuf) (m' : Monitor) : Prop where
  view : ∃ groups key k, Entered m.fanotify.groups groups key ∧
    m'.view =
      { m.view with
        groups := groups
        temp_parent_marks := m.inotify_state.temp_parent_marks.insert target (parent, key)
        kernel := k }
  panicked : m'.panicked = m.panicked

theorem lent_add_temp_parent_mark (os : Os) (m : Monitor) (target : PathBuf) :
    (m.temp_parent os target = none ∧ m.add_temp_parent_mark os target = m) ∨
      ∃ parent, m.temp_parent os target = some parent ∧
        m.Lent target parent (m.add_temp_parent_mark os target) := by
  rw [temp_parent, add_temp_parent_mark]
  cases os.nearest_existing_ancestor target with
  | none => exact .inl ⟨rfl, rfl⟩
  | some parent =>
      simp only
      by_cases hself : parent = target
      · rw [if_pos (.inl hself), if_pos hself]
        exact .inl ⟨rfl, rfl⟩
      · by_cases hmask : m.temp_mask target = 0
        · rw [if_pos (.inr (.inl hmask)), if_neg hself, if_pos hmask]
          exact .inl ⟨rfl, rfl⟩
        · by_cases hfactory : m.fanotify.factory = false
          · rw [if_pos (.inr (.inr hfactory)), if_neg hself, if_neg hmask, if_pos hfactory]
            exact .inl ⟨rfl, rfl⟩
          · rw [if_neg (by tauto), if_neg hself, if_neg hmask, if_neg hfactory]
            cases os.open_dir_safe (os.canonical parent) with
            | none => exact .inl ⟨rfl, rfl⟩
            | some dir =>
                simp only
                cases hgroup : m.group_on (os.dev_id (os.canonical parent)) with
                | some found =>
                    simp only [Option.isSome_some, if_true, Kernel.mark_directory_at]
                    cases os.mark_ok dir.node.ino with
                    | false => exact .inl ⟨rfl, rfl⟩
                    | true =>
                        exact .inr ⟨parent, rfl, ⟨_, _, _, .refer (SlotMap.find_some hgroup).1, rfl⟩, rfl⟩
                | none =>
                    simp only [Option.isSome_none, Bool.false_eq_true, if_false,
                      Kernel.create_group_and_mark]
                    cases os.create_ok dir.node.ino with
                    | false => exact .inl ⟨rfl, rfl⟩
                    | true =>
                        simp only [if_true, Option.map_some]
                        have hview := view_spawn_fd_reader os
                          { m with
                            kernel := ⟨m.kernel.marks ++
                              [.add m.kernel.next_fd dir (m.temp_mask target &&& ~~~FAN_FS_ERROR)],
                              m.kernel.next_fd + 1⟩
                            fanotify :=
                              { m.fanotify with
                                groups := m.fanotify.groups.insert
                                  ⟨os.dev_id (os.canonical parent), m.kernel.next_fd, 1⟩ } }
                          m.fanotify.groups.next
                        have hpanicked := panicked_spawn_fd_reader os
                          { m with
                            kernel := ⟨m.kernel.marks ++
                              [.add m.kernel.next_fd dir (m.temp_mask target &&& ~~~FAN_FS_ERROR)],
                              m.kernel.next_fd + 1⟩
                            fanotify :=
                              { m.fanotify with
                                groups := m.fanotify.groups.insert
                                  ⟨os.dev_id (os.canonical parent), m.kernel.next_fd, 1⟩ } }
                          m.fanotify.groups.next
                        generalize spawn_fd_reader os _ m.fanotify.groups.next = m₁ at hview hpanicked
                        have hentered : Entered m.fanotify.groups _ m.fanotify.groups.next :=
                          .create m.kernel.next_fd (Option.map_eq_none_iff.2 hgroup)
                        refine .inr ⟨parent, rfl, ⟨_, _, m₁.kernel, hentered, ?_⟩, hpanicked⟩
                        show ({ m₁.view with
                          temp_parent_marks := m₁.view.temp_parent_marks.insert target
                            (parent, m.fanotify.groups.next) } : View) = _
                        rw [show m₁.kernel = _ from congrArg View.kernel hview, hview]
                        rfl

/-- The target has a mark, and would get another one. -/
def Remarks (os : Os) (m : Monitor) (target : PathBuf) : Prop :=
  (m.inotify_state.temp_parent_marks.lookup target).isSome = true ∧
    (m.temp_parent os target).isSome = true

instance (os : Os) (m : Monitor) (target : PathBuf) : Decidable (Remarks os m target) :=
  inferInstanceAs (Decidable (_ ∧ _))

/-- A mark for a target that has none. -/
theorem changes_add_temp {os : Os} {m : Monitor} {target : PathBuf} (h : ¬ Remarks os m target) :
    View.Changes m.view (m.add_temp_parent_mark os target).view ∧
      (m.add_temp_parent_mark os target).panicked = m.panicked := by
  rcases lent_add_temp_parent_mark os m target with ⟨_, hsame⟩ | ⟨parent, hparent, hlent⟩
  · rw [hsame]
    exact ⟨.refl, rfl⟩
  · obtain ⟨groups, key, k, hentered, hview⟩ := hlent.view
    have hfree : m.inotify_state.temp_parent_marks.lookup target = none := by
      by_contra hmarked
      exact h ⟨Option.isSome_iff_ne_none.2 hmarked, by rw [hparent]; rfl⟩
    refine ⟨?_, hlent.panicked⟩
    rw [hview]
    exact (Relation.ReflTransGen.single (.lend (v := m.view) target parent groups key hfree hentered)).tail
      (.still m.monitored_entries k)

/-- A second mark for a target. -/
theorem remark_add_temp {os : Os} {m : Monitor} {target : PathBuf} (h : Remarks os m target) :
    (∃ v, View.Remark m.view v ∧ View.Changes v (m.add_temp_parent_mark os target).view) ∧
      (m.add_temp_parent_mark os target).panicked = m.panicked := by
  obtain ⟨hmarked, hparent⟩ := h
  obtain ⟨old, hold⟩ := Option.isSome_iff_exists.1 hmarked
  rcases lent_add_temp_parent_mark os m target with ⟨hnone, _⟩ | ⟨parent, _, hlent⟩
  · rw [hnone] at hparent
    cases hparent
  · obtain ⟨groups, key, k, hentered, hview⟩ := hlent.view
    refine ⟨⟨_, .remark target parent groups key old hold hentered, ?_⟩, hlent.panicked⟩
    rw [hview]
    exact .single (.still m.monitored_entries k)

omit [Sizefilter] in
theorem changes_remove_temp (os : Os) {m : Monitor} (hv : m.view.Intact) (target : PathBuf) :
    View.Changes m.view (m.remove_temp_parent_mark os target).view ∧
      (m.remove_temp_parent_mark os target).panicked = m.panicked := by
  cases hmark : m.inotify_state.temp_parent_marks.lookup target with
  | none =>
      have hsame : m.remove_temp_parent_mark os target = m := by rw [remove_temp_parent_mark, hmark]
      rw [hsame]
      exact ⟨.refl, rfl⟩
  | some found =>
      obtain ⟨parent, key⟩ := found
      obtain ⟨group, hgroup⟩ : ∃ group, m.fanotify.groups.get key = some group :=
        hv.counted.group_of_user (@View.users_pos_temp m.view target parent key hmark)
      refine ⟨?_, ?_⟩
      · rw [view_remove_temp_parent_mark hmark hgroup]
        exact (Relation.ReflTransGen.single
          (.untemp (v := m.view) target parent key group hmark hgroup)).tail (.still m.monitored_entries _)
      · rw [remove_temp_parent_mark, hmark]
        simp only [hgroup]
        split <;> rfl

/-! ## Steps -/

/-- The books are in order after a call, and nothing was out of range. -/
structure InOrder (m m' : Monitor) : Prop where
  intact : m'.view.Intact
  panicked : m'.panicked = m.panicked

omit [Sizefilter] in
theorem inOrder_of_changes {m m' : Monitor} (hv : m.view.Intact)
    (h : View.Changes m.view m'.view ∧ m'.panicked = m.panicked) : InOrder m m' :=
  ⟨h.1.intact hv, h.2⟩

theorem inOrder_add_temp {os : Os} {m : Monitor} (hv : m.view.Intact) (target : PathBuf) :
    InOrder m (m.add_temp_parent_mark os target) := by
  by_cases h : Remarks os m target
  · obtain ⟨⟨v, hremark, hchanges⟩, hpanicked⟩ := remark_add_temp h
    exact ⟨hchanges.intact (hremark.intact hv), hpanicked⟩
  · exact inOrder_of_changes hv (changes_add_temp h)

omit [Sizefilter] in
theorem changes_on_new_subdirectory (os : Os) (m : Monitor) (path : PathBuf) :
    View.Changes m.view (m.on_new_subdirectory os path).1.view ∧
      (m.on_new_subdirectory os path).1.panicked = m.panicked := by
  obtain ⟨k, hview, _⟩ := view_on_new_subdirectory os m path
  refine ⟨?_, panicked_on_new_subdirectory os m path⟩
  rw [hview]
  exact .single (.still m.monitored_entries k)

/-- **Every step keeps the books intact**, and panics nowhere. -/
theorem closed_inOrder : Closed AnyOs AnyTemp fun m m' => m.view.Intact → InOrder m m' where
  trans h h' hv := ⟨(h' (h hv).intact).intact, (h' (h hv).intact).panicked.trans (h hv).panicked⟩
  add _ h hv := inOrder_of_changes hv (changes_add_path hv h)
  remove _ h hv := inOrder_of_changes hv (changes_remove_path hv h)
  retain m _ _ hv := inOrder_of_changes hv ⟨.single (.still _ m.kernel), rfl⟩
  temp _ _ hv := inOrder_add_temp hv _
  untemp _ target _ hv := inOrder_of_changes hv (changes_remove_temp _ hv target)
  subdir m path _ hv := inOrder_of_changes hv (changes_on_new_subdirectory _ m path)
  other hq hv := ⟨hq.view ▸ hv, hq.panicked⟩

/-- A temporary mark for a target that has none, or that is not given. -/
def Unmarked (os : Os) (m : Monitor) (target : PathBuf) : Prop := ¬ Remarks os m target

/-- **A step that marks no target twice** keeps exact books exact. -/
theorem closed_exact : Closed AnyOs Unmarked fun m m' =>
    m.view.Intact ∧ m.view.Exact → m'.view.Intact ∧ m'.view.Exact := by
  have hkeep : ∀ {m m' : Monitor}, m.view.Intact ∧ m.view.Exact → View.Changes m.view m'.view →
      m'.view.Intact ∧ m'.view.Exact :=
    fun hv h => ⟨h.intact hv.1, (h.exact_iff hv.1).2 hv.2⟩
  exact
    { trans := fun h h' hv => h' (h hv)
      add := fun _ h hv => hkeep hv (changes_add_path hv.1 h).1
      remove := fun _ h hv => hkeep hv (changes_remove_path hv.1 h).1
      retain := fun m path cmd hv => hkeep hv (.single (.still _ m.kernel))
      temp := fun _ hfit hv => hkeep hv (changes_add_temp hfit).1
      untemp := fun m target _ hv => hkeep hv (changes_remove_temp _ hv.1 target).1
      subdir := fun m path _ hv => hkeep hv (changes_on_new_subdirectory _ m path).1
      other := fun hq hv => hq.view ▸ hv }

/-! ## The start -/

omit [Sizefilter] in
theorem home_insert_of_ne {groups : SlotMap FsGroup} {group : FsGroup} {dev_id : Nat}
    (h : group.dev_id ≠ dev_id) : home (groups.insert group) dev_id = home groups dev_id := by
  refine Option.ext fun key => ?_
  have hold : ∀ q, dev_of (groups.insert group) q = some dev_id ↔ dev_of groups q = some dev_id := by
    intro q
    rw [dev_of, dev_of, SlotMap.get_insert]
    split
    · next hq =>
        subst hq
        rw [get_next]
        exact ⟨fun hnew => absurd (Option.some.inj hnew) h, fun hnone => by cases hnone⟩
    · exact Iff.rfl
  simp only [home_eq_some, ne_eq, hold]

/-- The table of the loop is the groups by file system. -/
def Indexed (st : Monitor × HashMap Nat Nat) : Prop :=
  ∀ dev_id, st.2.lookup dev_id = home st.1.fanotify.groups dev_id

omit [Sizefilter] in
theorem panicked_init_walk (os : Os) (m : Monitor) (fan_fd : Nat) (mask : Mask) (path canonical : PathBuf) :
    (m.init_walk os fan_fd mask path canonical).panicked = m.panicked := by
  rw [init_walk]
  split <;> rfl

/-- What the start does with one root. -/
structure InitRoot (path : PathBuf) (st st' : Monitor × HashMap Nat Nat) : Prop where
  changes : View.Changes st.1.view st'.1.view
  panicked : st'.1.panicked = st.1.panicked
  indexed : Indexed st'
  paths : st'.1.paths = st.1.paths
  others : ∀ p, p ≠ path → st'.1.fanotify.path_to_group.lookup p = st.1.fanotify.path_to_group.lookup p

/-- Nothing but the kernel, so far as the books go. -/
structure Walked (m m₁ : Monitor) : Prop where
  view : ∃ k, m₁.view = { m.view with kernel := k }
  panicked : m₁.panicked = m.panicked

omit [Sizefilter] in
theorem walked_init_walk (os : Os) (m : Monitor) (k : Kernel) (fan_fd : Nat) (mask : Mask)
    (path canonical : PathBuf) :
    Walked m (init_walk os { m with kernel := k } fan_fd mask path canonical) :=
  ⟨⟨_, view_init_walk os { m with kernel := k } fan_fd mask path canonical⟩,
    panicked_init_walk os { m with kernel := k } fan_fd mask path canonical⟩

omit [Sizefilter] in
theorem Walked.groups {m m₁ : Monitor} (h : Walked m m₁) : m₁.fanotify.groups = m.fanotify.groups := by
  obtain ⟨k, hview⟩ := h.view
  exact congrArg View.groups hview

omit [Sizefilter] in
/-- A root that is walked below, and mapped. -/
theorem Walked.initRoot {m m₁ m' : Monitor} (h : Walked m m₁) {path : PathBuf} {devs devs' : HashMap Nat Nat}
    {groups : SlotMap FsGroup} {key : Nat} (hlisted : path ∈ m.paths)
    (hfree : m.fanotify.path_to_group.lookup path = none) (hentered : Entered m.fanotify.groups groups key)
    (hindexed : ∀ dev_id, devs'.lookup dev_id = home groups dev_id)
    (hm' : m' =
      { m₁ with
        fanotify :=
          { m₁.fanotify with
            groups := groups
            path_to_group := m₁.fanotify.path_to_group.insert path key } }) :
    InitRoot path (m, devs) (m', devs') := by
  subst hm'
  obtain ⟨k, hview⟩ := h.view
  have hroots : m₁.fanotify.path_to_group = m.fanotify.path_to_group := congrArg View.path_to_group hview
  refine ⟨?_, h.panicked, hindexed, congrArg View.paths hview, fun p hp => ?_⟩
  · show View.Changes m.view
      { m₁.view with groups := groups, path_to_group := m₁.view.path_to_group.insert path key }
    rw [hview]
    exact (Relation.ReflTransGen.single
      (.map (v := m.view) path groups key hlisted hfree hentered)).tail (.still m.monitored_entries k)
  · show (m₁.fanotify.path_to_group.insert path key).lookup p = _
    rw [hroots, HashMap.lookup_insert', if_neg hp]

omit [Sizefilter] in
theorem initRoot_init_root (os : Os) (mask : Mask) {st : Monitor × HashMap Nat Nat} {path : PathBuf}
    (canonical : PathBuf) (hindexed : Indexed st) (hlisted : path ∈ st.1.paths)
    (hfree : st.1.fanotify.path_to_group.lookup path = none) :
    InitRoot path st (init_root os mask st (path, canonical)) := by
  obtain ⟨m, devs⟩ := st
  have hsame : InitRoot path (m, devs) (m, devs) := ⟨.refl, rfl, hindexed, rfl, fun _ _ => rfl⟩
  rw [init_root]
  cases os.open_dir_safe canonical with
  | none => exact hsame
  | some dir =>
      simp only
      cases hdev : devs.lookup (os.dev_id canonical) with
      | some key =>
          have hhome : home m.fanotify.groups (os.dev_id canonical) = some key :=
            (hindexed (os.dev_id canonical)).symm.trans hdev
          obtain ⟨group, hgroup, _⟩ := Option.map_eq_some_iff.1 (home_eq_some.1 hhome).1
          simp only [hgroup]
          have hmodified : ∀ dev_id, devs.lookup dev_id =
              home (m.fanotify.groups.modify key fun g => { g with ref_count := g.ref_count + 1 }) dev_id :=
            fun dev_id => (hindexed dev_id).trans
              (home_modify m.fanotify.groups key (fun n => n + 1) dev_id).symm
          cases m.kernel.mark_directory_at os group.fan_fd dir mask with
          | none =>
              have hwalked : Walked m m := ⟨⟨m.kernel, rfl⟩, rfl⟩
              exact hwalked.initRoot hlisted hfree (.refer hgroup) hmodified rfl
          | some k =>
              have hwalked := walked_init_walk os m k group.fan_fd mask path canonical
              refine hwalked.initRoot hlisted hfree (.refer hgroup) hmodified ?_
              simp only [hwalked.groups]
      | none =>
          simp only
          cases m.kernel.create_group_and_mark os dir mask with
          | none => exact hsame
          | some r =>
              obtain ⟨new_fd, k⟩ := r
              have hhome : home m.fanotify.groups (os.dev_id canonical) = none :=
                (hindexed (os.dev_id canonical)).symm.trans hdev
              have hwalked := walked_init_walk os m k new_fd mask path canonical
              simp only [hwalked.groups]
              refine hwalked.initRoot hlisted hfree (.create new_fd hhome) (fun dev_id => ?_) rfl
              rw [HashMap.lookup_insert']
              split
              · next hsame =>
                  subst hsame
                  exact (@home_insert _ ⟨os.dev_id canonical, new_fd, 1⟩ hhome).symm
              · next hne => exact (hindexed dev_id).trans (home_insert_of_ne (Ne.symm hne)).symm

omit [Sizefilter] in
/-- The loop over the roots: each is listed once, and none is mapped yet. -/
theorem changes_init_roots (os : Os) (mask : Mask) (canonical : PathBuf → PathBuf) : ∀ (ps : List PathBuf)
    (st : Monitor × HashMap Nat Nat), ps.Nodup → Indexed st → (∀ p ∈ ps, p ∈ st.1.paths) →
      (∀ p ∈ ps, st.1.fanotify.path_to_group.lookup p = none) →
      View.Changes st.1.view ((ps.map fun p => (p, canonical p)).foldl (init_root os mask) st).1.view ∧
        ((ps.map fun p => (p, canonical p)).foldl (init_root os mask) st).1.panicked = st.1.panicked := by
  intro ps
  induction ps with
  | nil => exact fun st _ _ _ _ => ⟨.refl, rfl⟩
  | cons p ps ih =>
      intro st hnodup hindexed hlisted hfree
      obtain ⟨hnew, hnodup⟩ := List.nodup_cons.1 hnodup
      have hroot := initRoot_init_root os mask (canonical p) hindexed (hlisted p List.mem_cons_self)
        (hfree p List.mem_cons_self)
      obtain ⟨hchanges, hpanicked⟩ := ih _ hnodup hroot.indexed
        (fun q hq => hroot.paths ▸ hlisted q (List.mem_cons_of_mem _ hq)) fun q hq => by
          rw [hroot.others q fun heq => hnew (heq ▸ hq)]
          exact hfree q (List.mem_cons_of_mem _ hq)
      exact ⟨hroot.changes.trans hchanges, hpanicked.trans hroot.panicked⟩

theorem panicked_init_paths (os : Os) (m : Monitor) : (m.init_paths os).panicked = m.panicked := by
  have hpath : ∀ (m : Monitor) (p : PathBuf), (init_path os m p).panicked = m.panicked := by
    intro m p
    rw [init_path]
    split <;> rfl
  rw [init_paths, (Closed.quiet_setup_inotify_watches ..).panicked]
  exact Run.frame_exec (f := panicked) hpath _ _

theorem panicked_init_fanotify {os : Os} {m m' : Monitor} (h : m.init_fanotify os = .ok m')
    (hcanonical : m.canonical_paths = []) :
    m'.panicked = (((m.paths.filter os.exists).map fun p => (p, os.canonical p)).foldl
      (init_root os m.combined_mask) (m.init_paths os, ∅)).1.panicked := by
  have hcache : ∀ (m : Monitor) (r : PathBuf × PathBuf), (init_cache os m r).panicked = m.panicked := by
    intro m r
    rw [init_cache]
    split <;> rfl
  rw [init_fanotify] at h
  split at h
  · cases h
  · simp only [(init_paths_roots os m hcanonical).1] at h
    split at h
    · cases h
    · cases h
      split
      · exact Run.frame_exec (f := panicked) hcache _ _
      · rfl

/-- **A start that succeeds** leaves the books in order, and exact. -/
theorem exact_init {os₁ os₂ : Os} {cfg : MonitorConfig} {m m' : Monitor} (hnew : new os₁ cfg = .ok m)
    (hinit : m.spawn_factory.init_fanotify os₂ = .ok m') :
    m'.view.Intact ∧ m'.view.Exact ∧ m'.panicked = m.panicked := by
  obtain ⟨_, hnone, _, hfanotify, _⟩ := new_ok hnew
  obtain ⟨hnodup, _⟩ := new_paths hnew
  obtain ⟨hpaths, hcanonicals⟩ := init_paths_paths os₂ m.spawn_factory hnone
  obtain ⟨_, hfan, _⟩ := init_paths_roots os₂ m.spawn_factory hnone
  have hnew_temp : m.spawn_factory.inotify_state.temp_parent_marks = ∅ := @new_temp os₁ cfg m hnew
  have htemp := (temp_init_paths os₂ m.spawn_factory).trans hnew_temp
  have hview := view_init_fanotify hinit hnone
  have hpanicked := panicked_init_fanotify hinit hnone
  have hbefore : (m.spawn_factory.init_paths os₂).panicked = m.panicked := panicked_init_paths os₂ _
  have hstarted : (m.spawn_factory.init_paths os₂).fanotify = ⟨.empty, ∅, ∅, false, true⟩ := by
    rw [hfan]
    show ({ m.fanotify with factory := true } : FanotifyState) = _
    rw [hfanotify]
  generalize m.spawn_factory.init_paths os₂ = m₁ at *
  have hroots : m.spawn_factory.paths.filter os₂.exists = m₁.paths := hpaths.symm
  rw [hroots] at hview hpanicked
  have hintact : m₁.view.Intact := by
    refine ⟨?_, ?_, fun p key hp => ?_, fun key => ?_, fun key key' dev_id hk => ?_, fun key hk => ?_⟩
    · show m₁.paths.Nodup
      rw [hpaths]
      exact hnodup.filter _
    · show m₁.canonical_paths.length = m₁.paths.length
      rw [hcanonicals, hpaths, List.length_map]
    · rw [show m₁.view.path_to_group = ∅ from congrArg FanotifyState.path_to_group hstarted] at hp
      cases hp
    · show HashMap.count m₁.fanotify.path_to_group _ + HashMap.count m₁.inotify_state.temp_parent_marks _ ≤ _
      rw [hstarted, htemp]
      exact Nat.zero_le _
    · rw [show m₁.view.groups = .empty from congrArg FanotifyState.groups hstarted] at hk
      cases hk
    · rw [show m₁.view.groups = .empty from congrArg FanotifyState.groups hstarted] at hk
      cases hk
  have hexact : m₁.view.Exact := by
    intro key group hgroup
    rw [show m₁.view.groups = .empty from congrArg FanotifyState.groups hstarted] at hgroup
    cases hgroup
  have hindexed : Indexed (m₁, ∅) := by
    intro dev_id
    rw [hstarted]
    rfl
  obtain ⟨hchanges, hsame⟩ := changes_init_roots os₂ m.spawn_factory.combined_mask os₂.canonical m₁.paths
    (m₁, ∅) hintact.nodup hindexed (fun _ hp => hp) fun p _ => by
      rw [hstarted]
      rfl
  rw [hview]
  exact ⟨hchanges.intact hintact, (hchanges.exact_iff hintact).2 hexact,
    hpanicked.trans (hsame.trans hbefore)⟩

/-! ## Operations -/

omit [Sizefilter] in
/-- What can be asked of a daemon whose start has succeeded. -/
inductive Op where
  | spawn_tasks (os : Os)
  | add_path (os : Os) (entry : PathEntry)
  | remove_path (os : Os) (path : PathBuf) (cmd : Option String)
  | add_temp_parent_mark (os : Os) (target : PathBuf)
  | remove_temp_parent_mark (os : Os) (target : PathBuf)
  | check_pending (os : Os)
  | root_deleted (os : Os) (path : PathBuf)
  | reload_config (os : Os) (store : Except Str Monitored)
  | socket (os : Os) (cmd : SocketCmd)
  | inotify (os : Os) (events : Option (List InotifyEvent))
  | batch (os : Nat → Os) (events : List DecodedEvent)

/-- One operation; a call that fails leaves the state as it is. -/
def op (m : Monitor) : Op → Monitor
  | .spawn_tasks os => m.spawn_tasks os
  | .add_path os entry =>
      match m.add_path os entry with
      | .ok m' => m'
      | .error _ => m
  | .remove_path os path cmd => m.removed os path cmd
  | .add_temp_parent_mark os target => m.add_temp_parent_mark os target
  | .remove_temp_parent_mark os target => m.remove_temp_parent_mark os target
  | .check_pending os => m.check_pending os
  | .root_deleted os path => m.handle_canonical_root_deleted os path
  | .reload_config os store => (m.reload_config os store).2
  | .socket os cmd => (m.handle_socket_cmd os cmd).2
  | .inotify os events => m.handle_inotify_events os events
  | .batch os events => (m.process_event_batch os events).1

/-- The temporary marks an operation asks for fit. -/
def OpTemps (Fits : Os → Monitor → PathBuf → Prop) (m : Monitor) : Op → Prop
  | .add_temp_parent_mark os target => Fits os m target
  | .root_deleted os path => RootTemps Fits os m path
  | .inotify os events => InotifyTemps Fits os m events
  | .batch os events => Temps Fits m (.batch os events)
  | _ => True

theorem op_any_temps (m : Monitor) (o : Op) : OpTemps AnyTemp m o := by
  cases o with
  | inotify os events => exact any_temps m (.inotify os events)
  | batch os events => exact any_temps m (.batch os events)
  | _ => exact trivial

theorem Closed.op {Fits : Os → Monitor → PathBuf → Prop} {R : Monitor → Monitor → Prop}
    (h : Closed AnyOs Fits R) (htasks : ∀ os (m : Monitor), R m (m.spawn_tasks os)) (m : Monitor) (o : Op)
    (hfit : OpTemps Fits m o) : R m (m.op o) := by
  cases o with
  | spawn_tasks os => exact htasks os m
  | add_path os entry =>
      rw [Monitor.op]
      cases hadd : m.add_path os entry with
      | ok m' => exact h.add trivial hadd
      | error e => exact h.refl m
  | remove_path os path cmd =>
      rw [Monitor.op, removed]
      cases hremove : m.remove_path os path cmd with
      | ok m' => exact h.remove trivial hremove
      | error e => exact h.refl m
  | add_temp_parent_mark os target => exact h.temp trivial hfit
  | remove_temp_parent_mark os target => exact h.untemp m target trivial
  | check_pending os => exact h.check_pending trivial m
  | root_deleted os path => exact h.root_deleted trivial m path hfit
  | reload_config os store => exact h.reload trivial m store
  | socket os cmd => exact h.socket trivial m cmd
  | inotify os events => exact h.inotify trivial m events hfit
  | batch os events => exact h.step m (s := .batch os events) trivial (fun _ => trivial) hfit

/-- **Operations one after the other**, if their temporary marks fit. -/
theorem Closed.ops {Fits : Os → Monitor → PathBuf → Prop} {R : Monitor → Monitor → Prop}
    (h : Closed AnyOs Fits R) (htasks : ∀ os (m : Monitor), R m (m.spawn_tasks os)) (ops : List Op)
    (m : Monitor) (hfit : Run.Guarded Monitor.op (OpTemps Fits) m ops) : R m (Run.exec Monitor.op m ops) := by
  have hstep : ∀ (m' : Monitor) (o : Op), R m m' → OpTemps Fits m' o → R m (m'.op o) :=
    fun m' o hm' ho => h.trans hm' (h.op htasks m' o ho)
  exact Run.inv_exec hstep ops m (h.refl m) hfit

omit [Sizefilter] in
theorem spawn_tasks_still (os : Os) (m : Monitor) :
    (m.spawn_tasks os).view = m.view ∧ (m.spawn_tasks os).panicked = m.panicked := by
  refine ⟨view_spawn_tasks os m, ?_⟩
  rw [spawn_tasks]
  exact Run.frame_exec (f := panicked) (panicked_spawn_fd_reader os) _ _

/-- Nothing dangles. -/
structure NoDangling (m : Monitor) : Prop where
  paths_nodup : m.paths.Nodup
  canonical_len : m.canonical_paths.length = m.paths.length
  mapped : ∀ path key, m.fanotify.path_to_group.lookup path = some key → path ∈ m.paths
  mapped_live : ∀ path key, m.fanotify.path_to_group.lookup path = some key →
    ∃ group, m.fanotify.groups.get key = some group
  temp_live : ∀ target parent key, m.inotify_state.temp_parent_marks.lookup target = some (parent, key) →
    ∃ group, m.fanotify.groups.get key = some group
  dev_ids : ∀ key key' group group', m.fanotify.groups.get key = some group →
    m.fanotify.groups.get key' = some group' → group.dev_id = group'.dev_id → key = key'

omit [Sizefilter] in
theorem View.Intact.noDangling {m : Monitor} (h : m.view.Intact) : NoDangling m where
  paths_nodup := h.nodup
  canonical_len := h.paired
  mapped := h.listed
  mapped_live path key hkey := group_of_root h hkey
  temp_live target parent key hmark :=
    h.counted.group_of_user (@View.users_pos_temp m.view target parent key hmark)
  dev_ids key key' group group' hgroup hgroup' hdev := by
    refine h.onePerDev key key' group.dev_id ?_ ?_
    · rw [dev_of, show m.view.groups.get key = some group from hgroup]
      rfl
    · rw [dev_of, show m.view.groups.get key' = some group' from hgroup', hdev]
      rfl

/-- **Nothing dangles**, whatever is done after a start that succeeded, and whatever fails: so no
index or key is ever out of range. -/
theorem no_dangling {os₁ os₂ : Os} {cfg : MonitorConfig} {m m' : Monitor} (hnew : new os₁ cfg = .ok m)
    (hinit : m.spawn_factory.init_fanotify os₂ = .ok m') (ops : List Op) :
    NoDangling (Run.exec op m' ops) ∧ (Run.exec op m' ops).panicked = m.panicked := by
  obtain ⟨hintact, _, hsame⟩ := exact_init hnew hinit
  have hrun := closed_inOrder.ops
    (fun os m hv => ⟨(spawn_tasks_still os m).1 ▸ hv, (spawn_tasks_still os m).2⟩) ops m'
    (Run.Guarded.of_forall op_any_temps ops m') hintact
  exact ⟨hrun.intact.noDangling, hrun.panicked.trans hsame⟩

end

/-- `/a` is removed, and made again. -/
def removeAndRetry : List Op :=
  [.inotify (.calm Os.bareTree) (some [⟨2, IN_DELETE_SELF, none⟩]), .check_pending (.calm nestedTree)]

/-- A root that is deleted and recreated. -/
theorem no_dangling_recreated : ∃ m m',
    new (.calm nestedTree) (oneEntry ⟨none, none, false, none, none⟩) = .ok m ∧
      @init_fanotify noSizes (.calm nestedTree) m.spawn_factory = .ok m' ∧
      NoDangling (Run.exec (@op noSizes) m' removeAndRetry) ∧
      (Run.exec (@op noSizes) m' removeAndRetry).panicked = m.panicked := by
  have hstart : ∃ m m',
      new (.calm nestedTree) (oneEntry ⟨none, none, false, none, none⟩) = .ok m ∧
      @init_fanotify noSizes (.calm nestedTree) m.spawn_factory = .ok m' := ⟨_, _, rfl, rfl⟩
  obtain ⟨m, m', hm, hm'⟩ := hstart
  exact ⟨m, m', hm, hm', @no_dangling noSizes _ _ _ _ _ hm hm' removeAndRetry⟩

section
variable [Sizefilter]

/-- **No reference is without a user**, as long as no target is marked while it has a mark: so a group
is there exactly as long as someone uses it. -/
theorem references_exact {os₁ os₂ : Os} {cfg : MonitorConfig} {m m' : Monitor}
    (hnew : new os₁ cfg = .ok m) (hinit : m.spawn_factory.init_fanotify os₂ = .ok m') (ops : List Op)
    (hfit : Run.Guarded op (OpTemps Unmarked) m' ops) :
    (Run.exec op m' ops).view.Exact ∧ ∀ key,
      ((Run.exec op m' ops).fanotify.groups.get key).isSome = true ↔
        0 < (Run.exec op m' ops).view.users key := by
  obtain ⟨hintact, hexact, _⟩ := exact_init hnew hinit
  obtain ⟨hintact', hexact'⟩ := closed_exact.ops (fun os m hv => (spawn_tasks_still os m).1 ▸ hv) ops m'
    hfit ⟨hintact, hexact⟩
  exact ⟨hexact', hexact'.released_iff hintact'⟩

end

/-- The books after the root was deleted, and after it was made again. -/
theorem references_exact_recreated : ∃ m m',
    new (.calm nestedTree) (oneEntry ⟨none, none, false, none, none⟩) = .ok m ∧
      @init_fanotify noSizes (.calm nestedTree) m.spawn_factory = .ok m' ∧
      @Run.Guarded _ _ (@op noSizes) (@OpTemps noSizes (@Unmarked noSizes)) m' removeAndRetry ∧
      (Run.exec (@op noSizes) m' removeAndRetry).view.Exact := by
  have hstart : ∃ m m',
      new (.calm nestedTree) (oneEntry ⟨none, none, false, none, none⟩) = .ok m ∧
      @init_fanotify noSizes (.calm nestedTree) m.spawn_factory = .ok m' ∧
      @Run.Guarded _ _ (@op noSizes) (@OpTemps noSizes (@Unmarked noSizes)) m' removeAndRetry :=
    ⟨_, _, rfl, rfl, fun _ => ⟨fun h => Bool.noConfusion h.1, trivial⟩, trivial, trivial⟩
  obtain ⟨m, m', hm, hm', hfit⟩ := hstart
  exact ⟨m, m', hm, hm', hfit, (@references_exact noSizes _ _ _ _ _ hm hm' removeAndRetry hfit).1⟩

/-- `/a` is moved away and deleted: the batch says so twice. -/
def goneTwice : List Op :=
  [.inotify (.calm Os.bareTree) (some [⟨2, IN_MOVE_SELF, none⟩, ⟨2, IN_DELETE_SELF, none⟩])]

/-- The one mark on `/` counts as two references. -/
theorem reference_leaked : ∃ m m',
    new (.calm nestedTree) (oneEntry ⟨none, none, false, none, none⟩) = .ok m ∧
      @init_fanotify noSizes (.calm nestedTree) m.spawn_factory = .ok m' ∧
      ¬ (Run.exec (@op noSizes) m' goneTwice).view.Exact := by
  have hstart : ∃ m m',
      new (.calm nestedTree) (oneEntry ⟨none, none, false, none, none⟩) = .ok m ∧
      @init_fanotify noSizes (.calm nestedTree) m.spawn_factory = .ok m' ∧
      ∃ g, (Run.exec (@op noSizes) m' goneTwice).fanotify.groups.get 1 = some g ∧ g.ref_count = 2 ∧
        (Run.exec (@op noSizes) m' goneTwice).view.users 1 = 1 := ⟨_, _, rfl, rfl, _, rfl, rfl, rfl⟩
  obtain ⟨m, m', hm, hm', g, hgroup, hrefs, husers⟩ := hstart
  refine ⟨m, m', hm, hm', fun h => ?_⟩
  have hexact := h 1 g hgroup
  rw [hrefs, husers] at hexact
  cases hexact

end Fsmon.Monitor
