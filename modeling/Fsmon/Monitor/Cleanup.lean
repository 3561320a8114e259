/-
# `Fsmon.Monitor.Cleanup` — the root that a destructive event cleans up

A `DELETE`, `DELETE_SELF` or `MOVED_FROM` event cleans up the first root that is its
path or ends in the same name.  The root is removed, its entries are queued, and the
queue is tried at once: a root that still exists is added again from the entries that
were written for it.

    CleansUp     what should come of it: the root that is gone waits, the others stay
    HitsRight    when it does

The steps are `root_gone`, up to the retry, and `tried`, after it (`cleaned_view`).
-/
import Fsmon.Monitor.Retry

namespace Fsmon.Monitor

section
variable [Sizefilter]

/-! ## The root is removed -/

omit [Sizefilter] in
theorem any_iff_opts {m : Monitor} {path : PathBuf} :
    (m.monitored_entries.any fun e => e.1 = path) = true ↔ m.opts_for_path path ≠ [] := by
  rw [opts_for_path, ne_eq, List.map_eq_nil_iff, List.filter_eq_nil_iff, List.any_eq_true]
  simp only [not_forall, not_not]
  constructor
  · rintro ⟨e, he, h⟩
    exact ⟨e, he, h⟩
  · rintro ⟨e, he, h⟩
    exact ⟨e, he, h⟩

omit [Sizefilter] in
theorem drops_all {m : Monitor} {path : PathBuf} (hopts : m.opts_for_path path ≠ []) : m.Drops path none := by
  refine ⟨?_, fun e _ heq => by rw [keeps, if_neg (not_not.2 heq)]⟩
  obtain ⟨e, he, heq⟩ := List.any_eq_true.1 (any_iff_opts.2 hopts)
  exact ⟨e, he, of_decide_eq_true heq⟩

omit [Sizefilter] in
theorem forgotten_try_remove (os : Os) {m : Monitor} {path : PathBuf} (h : m.view.Sound)
    (hopts : m.opts_for_path path ≠ []) :
    ∃ groups k, Forgotten (m.left path none) path (m.try_remove os path).view groups k := by
  have hdrops := drops_all hopts
  obtain ⟨e, he, heq⟩ := hdrops.1
  have hpath : path ∈ m.paths := heq ▸ h.rooted e he
  obtain ⟨groups, k, hforgot⟩ := view_forget_path os (m := m.left path none) h.canonical h.counted hpath
  refine ⟨groups, k, ?_⟩
  rw [show m.try_remove os path = m.removed os path none from rfl, removed_of_drops os hdrops]
  exact hforgot

omit [Sizefilter] in
theorem opts_left {m : Monitor} {path root : PathBuf} (h : root ≠ path) :
    (m.left path none).opts_for_path root = m.opts_for_path root := by
  rw [opts_for_path, opts_for_path, left, List.filter_filter]
  refine congrArg _ (List.filter_congr fun e _ => ?_)
  by_cases heq : e.1 = root
  · rw [keeps_of_ne (heq ▸ h), Bool.and_true]
  · simp [heq]

/-- What `handle_canonical_root_deleted` retries. -/
def queue_of (m : Monitor) (root : PathBuf) : List (PathBuf × PathEntry) :=
  m.inotify_state.pending_paths ++ pending_of root (m.opts_for_path root)

theorem root_gone_pending (os : Os) (m : Monitor) (root : PathBuf) :
    (m.root_gone os root).inotify_state.pending_paths = m.queue_of root := by
  have hplan : (m.root_gone os root).plan = ((m.try_remove os root).with_pending
      ((m.try_remove os root).inotify_state.pending_paths ++
        pending_of root (m.opts_for_path root))).plan :=
    (plan_add_temp_parent_mark ..).trans (plan_setup_inotify_watches ..)
  have hpending := congrArg Plan.pending_paths hplan
  exact hpending.trans (congrArg (· ++ _) (try_remove_entries os m root).2)

/-- After the removal the root's mark may be put on an ancestor: groups are only joined. -/
theorem grow_root_gone (os : Os) (m : Monitor) (root : PathBuf) :
    (m.try_remove os root).view.Grow (m.root_gone os root).view ∧
      (m.root_gone os root).monitored_entries = (m.try_remove os root).monitored_entries ∧
      (m.root_gone os root).paths = (m.try_remove os root).paths ∧
      Homes (m.try_remove os root).fanotify.groups (m.root_gone os root).fanotify.groups := by
  generalize hm₂ : ((m.try_remove os root).with_pending ((m.try_remove os root).inotify_state.pending_paths ++
    pending_of root (m.opts_for_path root))).setup_inotify_watches os = m₂
  have hview : m₂.view = (m.try_remove os root).view := by
    rw [← hm₂, view_setup_inotify_watches]
    rfl
  have hgone : m.root_gone os root = m₂.add_temp_parent_mark os root := by rw [← hm₂]; rfl
  have hplan := plan_add_temp_parent_mark os m₂ root
  rw [hgone, ← hview]
  refine ⟨grow_add_temp_parent_mark os m₂ root, ?_, ?_, ?_⟩
  · exact (congrArg Plan.monitored_entries hplan).trans (congrArg View.monitored_entries hview)
  · exact (congrArg Plan.paths hplan).trans (congrArg View.paths hview)
  · rw [← show m₂.fanotify.groups = (m.try_remove os root).fanotify.groups from congrArg View.groups hview]
    rcases joined_add_temp_parent_mark os m₂ root with hsame | ⟨dev_id, key, hjoined⟩
    · rw [show (m₂.add_temp_parent_mark os root).fanotify.groups = m₂.fanotify.groups from
        congrArg Ledger.groups hsame]
      exact .refl _
    · exact hjoined.homes

/-- A root stays listed, with its options and its group. -/
structure OnList (m m' : Monitor) (root : PathBuf) : Prop where
  mem : root ∈ m'.paths
  opts : m'.opts_for_path root = m.opts_for_path root
  group : m'.fanotify.path_to_group.lookup root = m.fanotify.path_to_group.lookup root

omit [Sizefilter] in
theorem listed_of_grow {m m' : Monitor} {root : PathBuf} (h : m.view.Grow m'.view)
    (hentries : m'.monitored_entries = m.monitored_entries) (hroot : root ∈ m.paths) : OnList m m' root :=
  ⟨h.paths root hroot, by rw [opts_for_path, hentries, opts_for_path], h.roots root hroot⟩

theorem root_gone_listed (os : Os) {m : Monitor} {gone root : PathBuf} (h : m.view.Sound)
    (hroot : root ∈ m.paths) (hother : root ≠ gone ∨ m.opts_for_path gone = []) :
    OnList m (m.root_gone os gone) root := by
  obtain ⟨hgrow, hentries, hpaths, _⟩ := grow_root_gone os m gone
  by_cases hopts : m.opts_for_path gone = []
  · have hsame : m.try_remove os gone = m :=
      try_remove_absent (Bool.eq_false_iff.2 fun hany => any_iff_opts.1 hany hopts)
    rw [hsame] at hgrow hentries
    exact listed_of_grow hgrow hentries hroot
  · have hne := hother.resolve_right hopts
    obtain ⟨groups, k, hforgot⟩ := forgotten_try_remove os h hopts
    have hmem : root ∈ (m.try_remove os gone).paths := by
      rw [show (m.try_remove os gone).paths = m.paths.erase gone from congrArg View.paths hforgot.view]
      exact (List.mem_erase_of_ne hne).2 hroot
    obtain ⟨hmem', hopts', hlook⟩ := listed_of_grow hgrow hentries hmem
    refine ⟨hmem', hopts'.trans (Eq.trans ?_ (opts_left hne)), hlook.trans ?_⟩
    · rw [opts_for_path, opts_for_path]
      rw [show (m.try_remove os gone).monitored_entries = (m.left gone none).monitored_entries from
        congrArg View.monitored_entries hforgot.view]
    · rw [show (m.try_remove os gone).fanotify.path_to_group = m.fanotify.path_to_group.erase gone from
        congrArg View.path_to_group hforgot.view, HashMap.lookup_erase', if_neg hne]

/-- The root that is gone is not listed any more. -/
theorem root_gone_unlisted (os : Os) {m : Monitor} {gone : PathBuf} (h : m.view.Sound)
    (hopts : m.opts_for_path gone ≠ []) : gone ∉ (m.root_gone os gone).paths := by
  obtain ⟨groups, k, hforgot⟩ := forgotten_try_remove os h hopts
  rw [(grow_root_gone os m gone).2.2.1]
  rw [show (m.try_remove os gone).paths = m.paths.erase gone from congrArg View.paths hforgot.view]
  exact h.nodup.not_mem_erase

/-- Its file system keeps the group if the group has a reference left. -/
theorem root_gone_homes (os : Os) {m : Monitor} {gone : PathBuf} {key : Nat} (h : m.view.Sound)
    (hopts : m.opts_for_path gone ≠ []) (hkey : m.fanotify.path_to_group.lookup gone = some key) :
    ∃ group, m.fanotify.groups.get key = some group ∧
      Homes (released m.fanotify.groups key group) (m.root_gone os gone).fanotify.groups := by
  obtain ⟨groups, k, hforgot⟩ := forgotten_try_remove os h hopts
  have hhomes := (grow_root_gone os m gone).2.2.2
  rw [show (m.try_remove os gone).fanotify.groups = groups from congrArg View.groups hforgot.view] at hhomes
  rcases hforgot.groups with ⟨hnone, _⟩ | ⟨key', group, hkey', hgroup, hgroups⟩
  · have hlook : m.fanotify.path_to_group.lookup gone = none := hnone
    rw [hkey] at hlook
    cases hlook
  · have hlook : m.fanotify.path_to_group.lookup gone = some key' := hkey'
    rw [hkey] at hlook
    cases hlook
    refine ⟨group, hgroup, ?_⟩
    rw [hgroups] at hhomes
    exact hhomes

/-! ## The clean-up -/

/-- The queue has been tried. -/
def tried (os : Os) (m : Monitor) (root : PathBuf) : Monitor :=
  (retry_pending os (m.queue_of root) ((m.root_gone os root).with_pending []) []).1

omit [Sizefilter] in
/-- Taking temporary marks off changes no root. -/
theorem cleaned_roots (os : Os) (m : Monitor) :
    (m.cleanup_temp_parent_marks os).fanotify.path_to_group = m.fanotify.path_to_group := by
  have hmark : ∀ (m : Monitor) (target : PathBuf),
      (m.remove_temp_parent_mark os target).fanotify.path_to_group = m.fanotify.path_to_group := by
    intro m target
    rw [remove_temp_parent_mark]
    split
    · rfl
    · simp only
      split
      · rfl
      · split <;> rfl
  rw [cleanup_temp_parent_marks]
  exact Run.frame_exec (f := fun m => m.fanotify.path_to_group) hmark _ m

theorem cleaned_view (os : Os) (m : Monitor) (root : PathBuf) :
    (m.handle_canonical_root_deleted os root).core =
        (m.tried os root).core.with_pending
          (retry_pending os (m.queue_of root) ((m.root_gone os root).with_pending []) []).2 ∧
      (m.handle_canonical_root_deleted os root).fanotify.path_to_group =
        (m.tried os root).fanotify.path_to_group := by
  have hqueue := root_gone_pending os m root
  rw [handle_canonical_root_deleted_eq]
  constructor
  · rw [core, plan_check_pending, hqueue]
    rfl
  · rw [check_pending, hqueue]
    split
    · next hempty =>
        rw [tried, hempty.1]
        rfl
    · show (setup_inotify_watches os _).fanotify.path_to_group = _
      rw [show ∀ m' : Monitor, (m'.setup_inotify_watches os).fanotify.path_to_group =
        m'.fanotify.path_to_group from fun m' => congrArg View.path_to_group (view_setup_inotify_watches os m')]
      exact cleaned_roots os _

/-! ### A root before and after -/

/-- The group of a root: its key and its descriptor. -/
def group_of (m : Monitor) (root : PathBuf) : Option (Nat × Nat) :=
  (m.fanotify.path_to_group.lookup root).bind fun key =>
    (m.fanotify.groups.get key).map fun group => (key, group.fan_fd)

/-- Still monitored, for the same options and in the same group. -/
structure SameRoot (m m' : Monitor) (root : PathBuf) : Prop where
  mem : root ∈ m'.canonical_paths
  opts : ∀ o, o ∈ m'.opts_for_path root ↔ o ∈ m.opts_for_path root
  group : m'.group_of root = m.group_of root

omit [Sizefilter] in
/-- A mapped root is in the group of its key. -/
theorem group_of_mapped {m : Monitor} (h : m.view.Sound) {root : PathBuf} {key : Nat}
    (hkey : m.fanotify.path_to_group.lookup root = some key) :
    ∃ group, m.fanotify.groups.get key = some group ∧ m.group_of root = some (key, group.fan_fd) := by
  obtain ⟨group, hgroup⟩ : ∃ group, m.fanotify.groups.get key = some group :=
    h.counted.group_of_user (@View.users_pos m.view root key hkey)
  exact ⟨group, hgroup, by rw [group_of, hkey, Option.bind_some, hgroup, Option.map_some]⟩

omit [Sizefilter] in
theorem group_of_iff {m m' : Monitor} (h : m.view.Sound) (h' : m'.view.Sound)
    (haged : Aged m.fanotify.groups m'.fanotify.groups) (root : PathBuf) :
    m'.group_of root = m.group_of root ↔
      m'.fanotify.path_to_group.lookup root = m.fanotify.path_to_group.lookup root := by
  cases hkey : m.fanotify.path_to_group.lookup root with
  | none =>
      have hnone : m.group_of root = none := by rw [group_of, hkey, Option.bind_none]
      rw [hnone]
      cases hkey' : m'.fanotify.path_to_group.lookup root with
      | none => simp [group_of, hkey']
      | some key' =>
          obtain ⟨_, _, hsome⟩ := group_of_mapped h' hkey'
          simp [hsome]
  | some key =>
      obtain ⟨group, hgroup, hsome⟩ := group_of_mapped h hkey
      rw [hsome]
      constructor
      · intro hsame
        cases hkey' : m'.fanotify.path_to_group.lookup root with
        | none => simp [group_of, hkey'] at hsame
        | some key' =>
            obtain ⟨_, _, hsome'⟩ := group_of_mapped h' hkey'
            rw [hsome', Option.some.injEq] at hsame
            exact congrArg (fun x => some x.1) hsame
      · intro hkey'
        obtain ⟨group', hgroup', hsome'⟩ := group_of_mapped h' hkey'
        obtain ⟨g, hg, _, hfd⟩ := haged.old key (SlotMap.lt_next hgroup) group' hgroup'
        rw [hgroup] at hg
        cases hg
        rw [hsome', hfd]

/-- The options that a root which is removed is made of anew. -/
def remade (os : Os) (m : Monitor) (root : PathBuf) : List PathOptions :=
  readable ((claims os root (m.queue_of root)).dropWhile fun e => !m.admits os root e)

/-- Removing the root and adding it again changes nothing. -/
structure Restored (os : Os) (m : Monitor) (root : PathBuf) : Prop where
  /-- Its group is the one its file system has now, and has another user. -/
  group : ∃ key group, m.fanotify.path_to_group.lookup root = some key ∧
    m.group_on (os.dev_id root) = some (key, group) ∧ 2 ≤ group.ref_count
  opts : ∀ o, o ∈ m.remade os root ↔ o ∈ m.opts_for_path root

/-- The clean-up of `gone` leaves the root as it is. -/
def Spared (os : Os) (m : Monitor) (gone root : PathBuf) : Prop :=
  (root = gone ∧ m.opts_for_path gone ≠ [] → Restored os m root) ∧
    (root ≠ gone ∨ m.opts_for_path gone = [] →
      ∀ o ∈ claimed os root (m.queue_of gone), o ∈ m.opts_for_path root)

theorem opts_cleaned (os : Os) (m : Monitor) (gone root : PathBuf) :
    (m.handle_canonical_root_deleted os gone).opts_for_path root = (m.tried os gone).opts_for_path root :=
  congrArg (Core.opts_for_path · root) (cleaned_view os m gone).1

theorem paths_cleaned (os : Os) (m : Monitor) (gone : PathBuf) :
    (m.handle_canonical_root_deleted os gone).paths = (m.tried os gone).paths :=
  congrArg Core.paths (cleaned_view os m gone).1

/-- A root that stays listed keeps its group, and gains what is claimed for it. -/
theorem kept_root (os : Os) {m : Monitor} (h : m.view.Sound) {gone root : PathBuf} (hroot : root ∈ m.paths)
    (hother : root ≠ gone ∨ m.opts_for_path gone = []) :
    root ∈ (m.tried os gone).paths ∧
      (m.tried os gone).opts_for_path root = m.opts_for_path root ++ claimed os root (m.queue_of gone) ∧
      (m.tried os gone).fanotify.path_to_group.lookup root = m.fanotify.path_to_group.lookup root := by
  have hlisted := root_gone_listed os h hroot hother
  obtain ⟨hmem, hopts, hlook⟩ := retry_listed os (m.queue_of gone)
    ((m.root_gone os gone).with_pending []) [] hlisted.mem
  refine ⟨hmem, hopts.trans ?_, hlook.trans hlisted.group⟩
  rw [← hlisted.opts]
  rfl

theorem admits_root_gone (os : Os) (m : Monitor) (gone root : PathBuf) :
    ((m.root_gone os gone).with_pending []).admits os root = m.admits os root := by
  funext e
  have hstill : (m.root_gone os gone).still = m.still := by
    refine (still_of_plan ((plan_add_temp_parent_mark ..).trans (plan_setup_inotify_watches ..))).trans ?_
    exact still_try_remove os m gone
  have hlog : ((m.root_gone os gone).with_pending []).log_dir = m.log_dir := congrArg Plan.log_dir hstill
  have hfactory : ((m.root_gone os gone).with_pending []).fanotify.factory = m.fanotify.factory :=
    congrArg Plan.factory hstill
  simp only [admits, log_dir_overlap, hlog, hfactory]

theorem rooted_root_gone (os : Os) {m : Monitor} (h : m.view.Sound) (gone : PathBuf) :
    (m.root_gone os gone).core.Rooted := by
  have hthrough : Through AnyOs m (m.root_gone os gone) :=
    Through.closed.root_gone trivial m gone trivial
  exact (hthrough.sound h).rooted

/-- The queue's entries wait under the paths they name. -/
theorem named_queue {m : Monitor} (h : m.core.Named) (root : PathBuf) :
    ∀ e ∈ m.queue_of root, e.2.path = e.1 := (stable_named.park root h)

/-- A root that was removed, while its file system still has its group. -/
theorem remade_root (os : Os) {m : Monitor} (h : m.view.Sound) (hnamed : m.core.Named) {gone : PathBuf}
    {key : Nat} (hopts : m.opts_for_path gone ≠ [])
    (hhome : home (m.root_gone os gone).fanotify.groups (os.dev_id gone) = some key) :
    (m.tried os gone).opts_for_path gone = m.remade os gone := by
  refine (retry_removed os (m.queue_of gone) ((m.root_gone os gone).with_pending []) []
    (named_queue hnamed gone) (rooted_root_gone os h gone) (root_gone_unlisted os h hopts) hhome).trans ?_
  rw [admits_root_gone, remade]

/-- **The clean-up of a root spares another** exactly when nothing is added to it, and itself exactly
when it is made of the same again, in the same group. -/
theorem spared_iff (os : Os) {m : Monitor} (h : m.view.Sound) (hnamed : m.core.Named)
    (gone : PathBuf) {root : PathBuf} (hroot : root ∈ m.canonical_paths) :
    SameRoot m (m.handle_canonical_root_deleted os gone) root ↔ m.Spared os gone root := by
  have hthrough : Through AnyOs m (m.handle_canonical_root_deleted os gone) :=
    Through.closed.root_deleted trivial m gone trivial
  have hsound := hthrough.sound h
  have hpaths : (m.handle_canonical_root_deleted os gone).canonical_paths = (m.tried os gone).paths :=
    hsound.canonical.trans (paths_cleaned os m gone)
  have hopts_after := opts_cleaned os m gone root
  have hgroup_iff := group_of_iff h hsound (hthrough.aged h) root
  rw [(cleaned_view os m gone).2] at hgroup_iff
  have hmem : root ∈ m.paths := by rwa [← show m.canonical_paths = m.paths from h.canonical]
  by_cases hother : root ≠ gone ∨ m.opts_for_path gone = []
  · obtain ⟨hlisted, hopts, hlook⟩ := kept_root os h hmem hother
    rw [hopts] at hopts_after
    constructor
    · refine fun hsame => ⟨fun hself => absurd hother (by tauto), fun _ o ho => (hsame.opts o).1 ?_⟩
      rw [hopts_after]
      exact List.mem_append_right _ ho
    · refine fun hspared => ⟨hpaths ▸ hlisted, fun o => ?_, hgroup_iff.2 hlook⟩
      rw [hopts_after, List.mem_append]
      exact ⟨fun ho => ho.elim id (hspared.2 hother o), .inl⟩
  · obtain ⟨rfl, hopts⟩ : root = gone ∧ m.opts_for_path gone ≠ [] := by tauto
    have hunlisted := root_gone_unlisted os h hopts
    have hretry := homes_retry os (m.queue_of root) ((m.root_gone os root).with_pending []) []
    constructor
    · refine fun hsame => ⟨fun _ => ?_, fun h => absurd h hother⟩
      obtain ⟨_, key', hlook', hhome'⟩ := retry_unlisted os (m.queue_of root)
        ((m.root_gone os root).with_pending []) [] hunlisted (hpaths ▸ hsame.mem)
      have hkey : m.fanotify.path_to_group.lookup root = some key' := (hgroup_iff.1 hsame.group) ▸ hlook'
      obtain ⟨group, hgroup, hhomes⟩ := root_gone_homes os h hopts hkey
      -- a group made after the removal would have a new key
      have hreleased : home (released m.fanotify.groups key' group) (os.dev_id root) = some key' := by
        have hall := hhomes.trans hretry
        cases hbefore : home (released m.fanotify.groups key' group) (os.dev_id root) with
        | none =>
            have hnew := hall.fresh _ _ hbefore hhome'
            have hold := SlotMap.lt_next hgroup
            have hnext := (aged_released m.fanotify.groups key' group).next_le
            omega
        | some k =>
            have hk := hall.kept _ _ hbefore
            exact hk.symm.trans hhome'
      obtain ⟨hhome, hmore⟩ := (home_released _ hgroup).1 hreleased
      obtain ⟨⟨_, g⟩, hon, rfl⟩ := Option.map_eq_some_iff.1 hhome
      have hg := (SlotMap.find_some hon).1
      rw [hgroup] at hg
      cases hg
      refine ⟨⟨_, group, hkey, hon, hmore⟩, fun o => ?_⟩
      rw [← hsame.opts o, hopts_after, remade_root os h hnamed hopts (hhomes.kept _ _ hreleased)]
    · intro hspared
      obtain ⟨⟨key, group, hkey, hon, hmore⟩, hsame⟩ := hspared.1 ⟨rfl, hopts⟩
      obtain ⟨group', hgroup', hhomes⟩ := root_gone_homes os h hopts hkey
      have hgroup := (SlotMap.find_some hon).1
      rw [hgroup'] at hgroup
      cases hgroup
      have hhome := hhomes.kept _ _ ((home_released _ hgroup').2 ⟨home_of_group_on hon, hmore⟩)
      have hremade := remade_root os h hnamed hopts hhome
      have hlisted : root ∈ (m.tried os root).paths := by
        by_contra hno
        have hnone : m.remade os root = [] := by
          rw [← hremade, ← hopts_after]
          exact opts_of_unlisted hsound.rooted fun hin => hno (paths_cleaned os m root ▸ hin)
        obtain ⟨o, ho⟩ := List.exists_mem_of_ne_nil _ hopts
        have hin := (hsame o).2 ho
        rw [hnone] at hin
        cases hin
      obtain ⟨_, key', hlook', hhome'⟩ := retry_unlisted os (m.queue_of root)
        ((m.root_gone os root).with_pending []) [] hunlisted hlisted
      rw [hretry.kept _ _ hhome, Option.some.injEq] at hhome'
      refine ⟨hpaths ▸ hlisted, fun o => ?_, hgroup_iff.2 ?_⟩
      · rw [hopts_after, hremade]
        exact hsame o
      · rw [hkey, hhome']
        exact hlook'

/-- Nothing is claimed for a path that does not exist. -/
theorem claimed_of_missing {os : Os} {path : PathBuf} {es : List (PathBuf × PathEntry)}
    (hnamed : ∀ e ∈ es, e.2.path = e.1) (hgone : os.exists path = false) : claimed os path es = [] := by
  have hnone : es.filter (fun e => os.exists e.1 && os.canonical e.2.path = path) = [] := by
    refine List.filter_eq_nil_iff.2 fun e he hclaims => ?_
    obtain ⟨hexists, hpath⟩ := Bool.and_eq_true_iff.1 hclaims
    rw [← hnamed e he, ← os.exists_canonical, of_decide_eq_true hpath, hgone] at hexists
    cases hexists
  rw [claimed, claims, hnone]
  rfl

/-- The entries of a path are parked: not active, and all pending. -/
def Parked (m m' : Monitor) (path : PathBuf) : Prop :=
  m'.opts_for_path path = [] ∧
    ∀ o ∈ m.opts_for_path path, (path, o.to_entry path) ∈ m'.inotify_state.pending_paths

/-- **A root that does not exist** is parked by its own clean-up, and by no other. -/
theorem parked_iff (os : Os) {m : Monitor} (h : m.view.Sound) (hnamed : m.core.Named) (gone : PathBuf)
    {path : PathBuf} (hpath : path ∈ m.canonical_paths) (hmissing : os.exists path = false) :
    Parked m (m.handle_canonical_root_deleted os gone) path ↔ m.opts_for_path path = [] ∨ gone = path := by
  have hopts_after := opts_cleaned os m gone path
  have hmem : path ∈ m.paths := by rwa [← show m.canonical_paths = m.paths from h.canonical]
  by_cases hother : path ≠ gone ∨ m.opts_for_path gone = []
  · obtain ⟨_, hopts, _⟩ := kept_root os h hmem hother
    rw [hopts, claimed_of_missing (named_queue hnamed gone) hmissing, List.append_nil] at hopts_after
    have hnone : m.opts_for_path path = [] ∨ gone = path → m.opts_for_path path = [] := by
      rintro (hnone | rfl)
      · exact hnone
      · exact hother.resolve_left (not_not.2 rfl)
    constructor
    · exact fun hparked => .inl (hopts_after ▸ hparked.1)
    · intro hor
      have hopts := hnone hor
      refine ⟨hopts_after.trans hopts, fun o ho => ?_⟩
      rw [hopts] at ho
      cases ho
  · obtain ⟨rfl, hopts⟩ : path = gone ∧ m.opts_for_path gone ≠ [] := by tauto
    refine ⟨fun _ => .inr rfl, fun _ => ⟨?_, fun o ho => ?_⟩⟩
    · have hthrough : Through AnyOs m (m.handle_canonical_root_deleted os path) :=
        Through.closed.root_deleted trivial m path trivial
      refine opts_of_unlisted (hthrough.sound h).rooted fun hlisted => ?_
      obtain ⟨hexists, _⟩ := retry_unlisted os (m.queue_of path)
        ((m.root_gone os path).with_pending []) [] (root_gone_unlisted os h hopts)
        (paths_cleaned os m path ▸ hlisted)
      rw [hmissing] at hexists
      cases hexists
    · have hpending : (m.handle_canonical_root_deleted os path).inotify_state.pending_paths = _ :=
        congrArg Core.pending_paths (cleaned_view os m path).1
      rw [hpending]
      refine pending_retry os hmissing _ _ _ ?_
      rw [List.nil_append]
      exact List.mem_append_right _ (List.mem_map.2 ⟨o, ho, rfl⟩)

/-! ### Up to the clean-up -/

/-- The same roots, entries and groups; marks may have been added. -/
def Alike (m m' : Monitor) : Prop := m'.core = m.core ∧ ∃ k, m'.view = { m.view with kernel := k }

theorem alike_recorded (os : Os) (m : Monitor) (raw : DecodedEvent) :
    Alike m ((m.counted raw).recorded os raw) := by
  refine ⟨(Stable.recorded_core os _ raw).trans (Stable.counted_core m raw), ?_⟩
  have hcounted : (m.counted raw).view = m.view := by
    rw [counted]
    split <;> rfl
  rw [← hcounted]
  generalize m.counted raw = m₁
  rw [recorded]
  rw [(Closed.records_still os raw _ _).view]
  split
  · obtain ⟨k, hview, _⟩ := view_on_new_subdirectory os m₁ raw.path
    exact ⟨k, hview⟩
  · exact ⟨m₁.kernel, rfl⟩

namespace Alike

variable {m m' : Monitor} (h : Alike m m')

include h

omit [Sizefilter] in
theorem opts (root : PathBuf) : m'.opts_for_path root = m.opts_for_path root :=
  congrArg (Core.opts_for_path · root) h.1

omit [Sizefilter] in
theorem fanotify : m'.fanotify.groups = m.fanotify.groups ∧
    m'.fanotify.path_to_group = m.fanotify.path_to_group ∧ m'.fanotify.factory = m.fanotify.factory := by
  obtain ⟨_, k, hview⟩ := h
  exact ⟨congrArg View.groups hview, congrArg View.path_to_group hview, congrArg View.factory hview⟩

omit [Sizefilter] in
theorem sound (hm : m.view.Sound) : m'.view.Sound := by
  obtain ⟨_, k, hview⟩ := h
  rw [hview]
  exact ⟨hm.rooted, hm.canonical, hm.nodup, hm.counted⟩

omit [Sizefilter] in
theorem canonical : m'.canonical_paths = m.canonical_paths := by
  obtain ⟨_, k, hview⟩ := h
  exact congrArg View.canonical_paths hview

omit [Sizefilter] in
theorem same_root {m'' : Monitor} {root : PathBuf} : SameRoot m' m'' root ↔ SameRoot m m'' root := by
  have hgroup : m'.group_of root = m.group_of root := by
    rw [group_of, group_of, h.fanotify.1, h.fanotify.2.1]
  constructor
  · exact fun hs => ⟨hs.mem, fun o => (hs.opts o).trans (by rw [h.opts]), hs.group.trans hgroup⟩
  · exact fun hs => ⟨hs.mem, fun o => (hs.opts o).trans (by rw [h.opts]), hs.group.trans hgroup.symm⟩

theorem spared (os : Os) (gone root : PathBuf) : m'.Spared os gone root ↔ m.Spared os gone root := by
  have hqueue : ∀ root, m'.queue_of root = m.queue_of root := by
    intro root
    rw [queue_of, queue_of, h.opts]
    exact congrArg (· ++ _) (congrArg Core.pending_paths h.1)
  have hadmits : m'.admits os root = m.admits os root := by
    funext e
    have hlog : m'.log_dir = m.log_dir := congrArg Core.log_dir h.1
    simp only [admits, log_dir_overlap, hlog, h.fanotify.2.2]
  have hrestored : Restored os m' root ↔ Restored os m root := by
    have hremade : m'.remade os root = m.remade os root := by rw [remade, remade, hqueue, hadmits]
    have hon : m'.group_on (os.dev_id root) = m.group_on (os.dev_id root) := by
      rw [group_on, group_on, h.fanotify.1]
    constructor
    · intro hr
      obtain ⟨key, group, hkey, hgroup, hmore⟩ := hr.group
      exact ⟨⟨key, group, h.fanotify.2.1 ▸ hkey, hon ▸ hgroup, hmore⟩, fun o => by
        rw [← hremade, ← h.opts]
        exact hr.opts o⟩
    · intro hr
      obtain ⟨key, group, hkey, hgroup, hmore⟩ := hr.group
      exact ⟨⟨key, group, h.fanotify.2.1 ▸ hkey, hon ▸ hgroup, hmore⟩, fun o => by
        rw [hremade, h.opts]
        exact hr.opts o⟩
  rw [Spared, Spared, hrestored, hqueue, h.opts, h.opts]

end Alike

/-! ## Every destructive event -/

/-- A `DELETE`, `DELETE_SELF` or `MOVED_FROM` event. -/
def Destructive (raw : DecodedEvent) : Prop :=
  .delete ∈ mask_to_event_types raw.mask ∨ .deleteSelf ∈ mask_to_event_types raw.mask ∨
    .movedFrom ∈ mask_to_event_types raw.mask

/-- The daemon after the event. -/
def Visit.after (v : Visit) : Monitor := (process_event v.os v.monitor v.raw).1

/-- What should come of the event: the root it names, if it is gone, waits; the others that exist
stay as they are. -/
structure CleansUp (v : Visit) : Prop where
  gone : v.raw.path ∈ v.monitor.canonical_paths → v.os.exists v.raw.path = false →
    Parked v.monitor v.after v.raw.path
  others : ∀ root ∈ v.monitor.canonical_paths, root ≠ v.raw.path → v.os.exists root = true →
    SameRoot v.monitor v.after root

/-- The first root that the event's path or its name fits; an overflow is about no path. -/
def Visit.hit (v : Visit) : Option PathBuf :=
  if v.raw.mask &&& FAN_Q_OVERFLOW ≠ 0 then none
  else v.monitor.canonical_paths.find? fun cp => is_canonical_root_path cp v.raw.path

/-- When it does: a root that is gone comes first, unless it has no entries, and the clean-up of the
root that comes first spares the others. -/
structure HitsRight (v : Visit) : Prop where
  gone : v.raw.path ∈ v.monitor.canonical_paths → v.os.exists v.raw.path = false →
    v.monitor.opts_for_path v.raw.path = [] ∨ v.hit = some v.raw.path
  others : ∀ hit, v.hit = some hit → ∀ root ∈ v.monitor.canonical_paths, root ≠ v.raw.path →
    v.os.exists root = true → v.monitor.Spared v.os hit root

omit [Sizefilter] in
theorem gone_root_of_destructive {m : Monitor} {raw : DecodedEvent} (h : Destructive raw) :
    m.gone_root (mask_to_event_types raw.mask) raw.path =
      m.canonical_paths.find? fun cp => is_canonical_root_path cp raw.path := by
  rw [gone_root, if_pos]
  simp only [Bool.or_eq_true, List.contains_iff_mem]
  rcases h with h | h | h
  · exact .inr h
  · exact .inl (.inl h)
  · exact .inl (.inr h)

/-- Up to the clean-up, nothing that matters to it changes. -/
theorem after_hit {v : Visit} (hskip : v.monitor.is_skipped v.raw = false) (hraw : Destructive v.raw) :
    ∃ m, Alike v.monitor m ∧
      v.after = match v.hit with
        | none => m
        | some root => m.handle_canonical_root_deleted v.os root := by
  rw [Visit.after, Visit.hit, process_event]
  split
  · exact ⟨{ v.monitor with overflow_warnings := v.monitor.overflow_warnings + 1 },
      ⟨rfl, v.monitor.kernel, rfl⟩, rfl⟩
  · refine ⟨_, alike_recorded v.os v.monitor v.raw, ?_⟩
    show (handle_event v.os (v.monitor.counted v.raw) v.raw).1 = _
    have hskip' : (v.monitor.counted v.raw).is_skipped v.raw = false := by
      rw [counted]
      split <;> exact hskip
    have hcanonical : (v.monitor.counted v.raw).canonical_paths = v.monitor.canonical_paths := by
      rw [counted]
      split <;> rfl
    rw [Stable.handle_event_eq, hskip', gone_root_of_destructive hraw, hcanonical]
    rfl

/-- **In every run**, a destructive event that is read cleans up as it should exactly when it hits
right. -/
theorem cleanup_iff {os₀ : Os} {cfg : MonitorConfig} {m₀ : Monitor} (h : start os₀ cfg = .ok m₀)
    {steps : List Step} (hrun : ∀ s ∈ steps, Running s) {os : Nat → Os} {events : List DecodedEvent}
    {v : Visit} (hv : v ∈ batch_visits os (Run.exec step m₀ steps) events)
    (hskip : v.monitor.is_skipped v.raw = false) (hraw : Destructive v.raw) :
    CleansUp v ↔ HitsRight v := by
  obtain ⟨hsound, hnamed⟩ := sound_run h hrun hv
  obtain ⟨m, halike, hafter⟩ := after_hit hskip hraw
  have hsound' := halike.sound hsound
  have hnamed' : m.core.Named := halike.1 ▸ hnamed
  have hgone : v.raw.path ∈ v.monitor.canonical_paths → v.os.exists v.raw.path = false →
      (Parked v.monitor v.after v.raw.path ↔
        v.monitor.opts_for_path v.raw.path = [] ∨ v.hit = some v.raw.path) := by
    intro hpath hmissing
    rw [hafter]
    cases hhit : v.hit with
    | none =>
        show Parked v.monitor m v.raw.path ↔ _
        rw [Parked, halike.opts]
        simp only [reduceCtorEq, or_false, and_iff_left_iff_imp]
        intro hnone o ho
        rw [hnone] at ho
        cases ho
    | some hit =>
        have hiff := parked_iff v.os hsound' hnamed' hit (halike.canonical ▸ hpath) hmissing
        rw [Parked, halike.opts] at hiff
        rw [Option.some.injEq]
        exact hiff
  have hothers : ∀ root ∈ v.monitor.canonical_paths,
      (SameRoot v.monitor v.after root ↔ ∀ hit, v.hit = some hit → v.monitor.Spared v.os hit root) := by
    intro root hroot
    rw [hafter]
    cases hhit : v.hit with
    | none =>
        refine ⟨nofun, fun _ => halike.same_root.1 ⟨halike.canonical ▸ hroot, fun _ => .rfl, rfl⟩⟩
    | some hit =>
        show SameRoot v.monitor (m.handle_canonical_root_deleted v.os hit) root ↔ _
        rw [← halike.same_root, spared_iff v.os hsound' hnamed' hit (halike.canonical ▸ hroot),
          halike.spared]
        exact ⟨fun hspared _ heq => Option.some.inj heq ▸ hspared, fun hall => hall hit rfl⟩
  constructor
  · intro hclean
    refine ⟨fun hpath hmissing => (hgone hpath hmissing).1 (hclean.gone hpath hmissing), ?_⟩
    exact fun hit hhit root hroot hne hexists =>
      (hothers root hroot).1 (hclean.others root hroot hne hexists) hit hhit
  · intro hright
    refine ⟨fun hpath hmissing => (hgone hpath hmissing).2 (hright.gone hpath hmissing), ?_⟩
    exact fun root hroot hne hexists =>
      (hothers root hroot).2 fun hit hhit => hright.others hit hhit root hroot hne hexists

/-- An event that comes alone, and is no rename. -/
theorem visit_alone {os : Nat → Os} {m : Monitor} (hm : m.metrics.inc_events_unresolved_rename 0 = m.metrics)
    (raw : DecodedEvent) (hraw : raw.rename = none) :
    ⟨os 0, m, raw⟩ ∈ batch_visits os m [raw] := by
  have hexpand : expand_renames [raw] = ([raw], 0) := by rw [expand_renames, hraw]; rfl
  rw [batch_visits, hexpand]
  show _ ∈ [(⟨os 0, { m with metrics := m.metrics.inc_events_unresolved_rename 0 }, raw⟩ : Visit)]
  rw [hm]
  exact List.mem_singleton_self _

end

/-- `/a/x` and `/b/x`. -/
def twinTree : FsTree.Tree OsString :=
  ⟨⟨1, 1, .dir, true, true⟩, Os.root_is_dir,
    [([[0x61]], ⟨2, 1, .dir, true, true⟩), ([[0x62]], ⟨3, 1, .dir, true, true⟩),
      ([[0x61], [0x78]], ⟨4, 1, .dir, true, true⟩), ([[0x62], [0x78]], ⟨5, 1, .dir, true, true⟩)],
    by decide, by decide, by decide⟩

/-- `/a/x` has been deleted. -/
def orphanTree : FsTree.Tree OsString :=
  ⟨⟨1, 1, .dir, true, true⟩, Os.root_is_dir,
    [([[0x61]], ⟨2, 1, .dir, true, true⟩), ([[0x62]], ⟨3, 1, .dir, true, true⟩),
      ([[0x62], [0x78]], ⟨5, 1, .dir, true, true⟩)],
    by decide, by decide, by decide⟩

/-- The event that says so. -/
def deletedTwin : DecodedEvent := ⟨FAN_DELETE_SELF, 7, [[0x61], [0x78]], none, none, 0⟩

/-- `/a/x` is monitored before `/b/x`. -/
theorem cleanup_first_twin : ∃ m,
    @start noSizes (.calm twinTree) (plainRoots [[[0x61], [0x78]], [[0x62], [0x78]]]) = .ok m ∧
      @CleansUp noSizes ⟨.calm orphanTree, m, deletedTwin⟩ := by
  have hstart : ∃ m,
      @start noSizes (.calm twinTree) (plainRoots [[[0x61], [0x78]], [[0x62], [0x78]]]) = .ok m ∧
      m.canonical_paths = [[[0x61], [0x78]], [[0x62], [0x78]]] ∧ m.inotify_state.pending_paths = [] ∧
      m.opts_for_path [[0x61], [0x78]] = [⟨none, none, false, none, none⟩] ∧ m.daemon_pid = 1 ∧
      m.metrics.inc_events_unresolved_rename 0 = m.metrics := ⟨_, rfl, rfl, rfl, rfl, rfl, rfl⟩
  obtain ⟨m, hm, hcanonical, hpending, hopts, hpid, hmetrics⟩ := hstart
  have hv := @visit_alone noSizes (fun _ => .calm orphanTree) _ hmetrics deletedTwin rfl
  have hskip : m.is_skipped deletedTwin = false := by
    rw [is_skipped, hpid]
    decide
  have hhit : Visit.hit ⟨.calm orphanTree, m, deletedTwin⟩ = some deletedTwin.path := by
    have hover : deletedTwin.mask &&& FAN_Q_OVERFLOW = 0 := by decide
    rw [Visit.hit, if_neg (not_not.2 hover), hcanonical]
    rfl
  have hraw : Destructive deletedTwin := .inr (.inl (by decide))
  have hiff := @cleanup_iff noSizes _ _ m hm [] (fun _ h => absurd h List.not_mem_nil)
    (fun _ => .calm orphanTree) [deletedTwin] _ hv hskip hraw
  refine ⟨m, hm, hiff.2 ?_⟩
  refine @HitsRight.mk noSizes _ (fun _ _ => .inr hhit) fun hit hhit' root hroot hne _ => ?_
  rw [hhit] at hhit'
  cases hhit'
  have hroots : root ∈ [[[0x61], [0x78]], [[0x62], [0x78]]] := hcanonical ▸ hroot
  rcases List.mem_pair.1 hroots with rfl | rfl
  · exact absurd rfl hne
  · refine ⟨fun hself => absurd hself.1 hne, fun _ o ho => ?_⟩
    have hqueue : @queue_of noSizes m deletedTwin.path =
        @pending_of noSizes [[0x61], [0x78]] [⟨none, none, false, none, none⟩] := by
      show m.inotify_state.pending_paths ++ @pending_of noSizes _ (m.opts_for_path [[0x61], [0x78]]) = _
      rw [hpending, hopts]
      rfl
    rw [hqueue] at ho
    cases ho

/-- `/b/x` is monitored before `/a/x`: it is cleaned up in its place, and `/a/x` stays active. -/
theorem cleanup_second_twin : ∃ m,
    @start noSizes (.calm twinTree) (plainRoots [[[0x62], [0x78]], [[0x61], [0x78]]]) = .ok m ∧
      ∃ v ∈ @batch_visits noSizes (fun _ => .calm orphanTree) m [deletedTwin],
        v.monitor.is_skipped v.raw = false ∧ Destructive v.raw ∧ ¬ @CleansUp noSizes v := by
  have hstart : ∃ m,
      @start noSizes (.calm twinTree) (plainRoots [[[0x62], [0x78]], [[0x61], [0x78]]]) = .ok m ∧
      m.canonical_paths = [[[0x62], [0x78]], [[0x61], [0x78]]] ∧ m.daemon_pid = 1 ∧
      m.metrics.inc_events_unresolved_rename 0 = m.metrics ∧
      (@process_event noSizes (.calm orphanTree) m deletedTwin).1.opts_for_path [[0x61], [0x78]] =
        [⟨none, none, false, none, none⟩] := ⟨_, rfl, rfl, rfl, rfl, rfl⟩
  obtain ⟨m, hm, hcanonical, hpid, hmetrics, hopts⟩ := hstart
  have hraw : Destructive deletedTwin := .inr (.inl (by decide))
  have hmissing : (Os.calm orphanTree).exists deletedTwin.path = false := by decide
  have hpath : deletedTwin.path ∈ m.canonical_paths := hcanonical ▸ by decide
  have hskip : m.is_skipped deletedTwin = false := by
    rw [is_skipped, hpid]
    decide
  refine ⟨m, hm, ⟨.calm orphanTree, m, deletedTwin⟩,
    @visit_alone noSizes _ _ hmetrics deletedTwin rfl, hskip, hraw, fun h => ?_⟩
  have hgone : (@process_event noSizes (.calm orphanTree) m deletedTwin).1.opts_for_path _ = [] :=
    (@CleansUp.gone noSizes _ h hpath hmissing).1
  rw [show deletedTwin.path = [[0x61], [0x78]] from rfl, hopts] at hgone
  cases hgone

end Fsmon.Monitor
