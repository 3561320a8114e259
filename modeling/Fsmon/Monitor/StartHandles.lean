/-
# `Fsmon.Monitor.StartHandles` — which marks of the start are resolvable

`init_fanotify` marks its roots in order: on the group of the file system if an
earlier root made one, on a new group otherwise (`init_marks`).  Its walks are
given the shared cache, which is not set before `spawn_tasks`, so they cache
nothing; the loop at the end caches the roots without recursion.

A recursive root is cached by none of them, since a directory has one canonical
path: so the marks of a start are all resolvable exactly when none of the marked
roots is recursive (`start_resolve_iff`).  With the calls that may follow, that
is `marked_resolve_iff`.
-/
import Fsmon.Monitor.Handles
import Fsmon.Monitor.Init
import Fsmon.Lib.Run

namespace Fsmon

namespace Monitor

/-! ## What the configuration says -/

section
variable (os : Os) (cfg : MonitorConfig)

/-- The entries by canonical path. -/
def cfg_entries : List (PathBuf × PathOptions) :=
  cfg.paths_and_options.map fun e => (os.canonical e.1, e.2)

def insert_new (paths : List PathBuf) (path : PathBuf) : List PathBuf :=
  if path ∈ paths then paths else paths ++ [path]

/-- The paths, each once, that exist. -/
def cfg_roots : List PathBuf :=
  (((cfg_entries os cfg).map (·.1)).foldl insert_new []).filter os.exists

/-- The first entry of a path asks for recursion. -/
def cfg_recursive (path : PathBuf) : Bool :=
  (((cfg_entries os cfg).find? fun e => e.1 = path).map (·.2)).any fun o => o.recursive

end

theorem new_entries_ok {os : Os} {log_dir : Option PathBuf} :
    ∀ {es : List (PathBuf × PathOptions)} {acc r : List PathBuf × List (PathBuf × PathOptions)},
      new_entries os log_dir es acc = .ok r →
        r = ((es.map fun e => os.canonical e.1).foldl insert_new acc.1,
          acc.2 ++ es.map fun e => (os.canonical e.1, e.2))
  | [], acc, r, h => by
      cases h
      simp
  | e :: es, acc, r, h => by
      unfold new_entries at h
      simp only at h
      split at h
      · cases h
      · split at h
        · cases h
        · rw [new_entries_ok h]
          simp [insert_new]

/-- What `new` has read from the configuration. -/
theorem new_ok {os : Os} {cfg : MonitorConfig} {m : Monitor} (h : new os cfg = .ok m) :
    m.paths = ((cfg_entries os cfg).map (·.1)).foldl insert_new [] ∧ m.canonical_paths = [] ∧
      m.monitored_entries = cfg_entries os cfg ∧
      m.fanotify = ⟨.empty, ∅, ∅, false, false⟩ ∧ m.kernel = .initial := by
  unfold new at h
  simp only at h
  split at h
  · cases h
  · split at h
    · cases h
    · split at h
      · cases h
      · rename_i paths entries hentries
        cases h
        have := new_entries_ok hentries
        simp only [List.nil_append, Prod.mk.injEq] at this
        obtain ⟨rfl, rfl⟩ := this
        simp [cfg_entries, Function.comp_def]

/-! ## The roots -/

/-- The paths `ps` have been looked at, in the parts a later mark depends on. -/
structure Pathed (os : Os) (ps : List PathBuf) (m m' : Monitor) : Prop where
  paths : m'.paths = m.paths ++ ps.filter os.exists
  canonical_paths : m'.canonical_paths = m.canonical_paths ++ (ps.filter os.exists).map os.canonical
  fanotify : m'.fanotify = m.fanotify
  kernel : m'.kernel = m.kernel
  first : ∀ p, os.exists p = true → m'.first_opt_for_path p = m.first_opt_for_path p

theorem Pathed.trans {os : Os} {ps qs : List PathBuf} {m m' m'' : Monitor} (h : Pathed os ps m m')
    (h' : Pathed os qs m' m'') : Pathed os (ps ++ qs) m m'' where
  paths := by rw [h'.paths, h.paths, List.filter_append, List.append_assoc]
  canonical_paths := by
    rw [h'.canonical_paths, h.canonical_paths, List.filter_append, List.map_append, List.append_assoc]
  fanotify := h'.fanotify.trans h.fanotify
  kernel := h'.kernel.trans h.kernel
  first p hp := (h'.first p hp).trans (h.first p hp)

section
variable [Sizefilter]

theorem pathed_init_path (os : Os) (m : Monitor) (q : PathBuf) : Pathed os [q] m (init_path os m q) := by
  rw [init_path]
  split
  · rename_i hq
    exact ⟨by simp [hq], by simp [hq], rfl, rfl, fun _ _ => rfl⟩
  · rename_i hq
    refine ⟨by simp [hq, with_pending], by simp [hq, with_pending], rfl, rfl, fun p hp => ?_⟩
    -- the entries of another path are gone
    have hne : p ≠ q := by
      rintro rfl
      exact hq hp
    simp only [first_opt_for_path, with_pending, List.find?_filter]
    congr 2
    funext e
    by_cases he : e.1 = p <;> simp [he, hne]

theorem pathed_foldl (os : Os) : ∀ (ps : List PathBuf) (m : Monitor),
    Pathed os ps m (ps.foldl (init_path os) m) := by
  intro ps
  induction ps with
  | nil =>
      intro m
      exact ⟨by simp, by simp, rfl, rfl, fun _ _ => rfl⟩
  | cons q ps ih =>
      intro m
      exact (pathed_init_path os m q).trans (ih (init_path os m q))

/-- The roots `init_fanotify` goes through, and their first options. -/
theorem init_paths_roots (os : Os) (m : Monitor) (hcanonical : m.canonical_paths = []) :
    (m.init_paths os).paths.zip (m.init_paths os).canonical_paths =
        (m.paths.filter os.exists).map (fun p => (p, os.canonical p)) ∧
      (m.init_paths os).fanotify = m.fanotify ∧ (m.init_paths os).kernel = m.kernel ∧
      ∀ p, os.exists p = true →
        (m.init_paths os).first_opt_for_path p = m.first_opt_for_path p := by
  have h := pathed_foldl os m.paths { m with paths := [] }
  rw [init_paths]
  simp only
  generalize m.paths.foldl (init_path os) { m with paths := [] } = m₁ at h
  have hplan := plan_setup_inotify_watches os
    { m₁ with inotify_state := { m₁.inotify_state with inotify := true } }
  obtain ⟨hkernel, hfanotify⟩ := kernel_setup_inotify_watches os
    { m₁ with inotify_state := { m₁.inotify_state with inotify := true } }
  generalize setup_inotify_watches os _ = m₂ at hplan hkernel hfanotify
  have hpaths : m₂.paths = m₁.paths := congrArg Plan.paths hplan
  have hcanonicals : m₂.canonical_paths = m₁.canonical_paths := congrArg Plan.canonical_paths hplan
  have hentries : m₂.monitored_entries = m₁.monitored_entries := congrArg Plan.monitored_entries hplan
  refine ⟨?_, hfanotify.trans h.fanotify, hkernel.trans h.kernel, fun p hp => ?_⟩
  · rw [hpaths, hcanonicals, h.paths, h.canonical_paths]
    simp only [hcanonical, List.nil_append]
    exact List.map_prod_left_eq_zip.symm
  · rw [first_opt_for_path, hentries]
    exact h.first p hp

end

/-! ## The marks -/

/-- The mark of one root, when these file systems have a group. -/
def init_mark (os : Os) (devs : List Nat) (root : PathBuf × PathBuf) : Option DirFd :=
  (os.open_dir_safe root.2).filter fun d =>
    if os.dev_id root.2 ∈ devs then os.mark_ok d.node.ino else os.create_ok d.node.ino

/-- The roots that are marked, each with its directory. -/
def init_marks (os : Os) : List Nat → List (PathBuf × PathBuf) → List ((PathBuf × PathBuf) × DirFd)
  | _, [] => []
  | devs, root :: rest =>
      match init_mark os devs root with
      | none => init_marks os devs rest
      | some d => (root, d) :: init_marks os (os.dev_id root.2 :: devs) rest

/-- The state of the loop when these file systems have a group. -/
structure InitInv (devs : List Nat) (st : Monitor × HashMap Nat Nat) : Prop where
  blind : st.1.fanotify.shared_dir_cache = false
  groups : ∀ dev key, st.2.lookup dev = some key → (st.1.fanotify.groups.get key).isSome = true
  devs : ∀ dev, (st.2.lookup dev).isSome = true ↔ dev ∈ devs

/-- A walk without a cache: marks are added, and nothing else changes. -/
theorem init_walk_eq (os : Os) {m : Monitor} (hblind : m.fanotify.shared_dir_cache = false)
    (fan_fd : Nat) (mask : Mask) (path canonical : PathBuf) : ∃ k ops,
    m.init_walk os fan_fd mask path canonical = { m with kernel := k } ∧
      k.marks = m.kernel.marks ++ ops ∧ (m.root_recursive path = false → ops = []) := by
  rw [init_walk]
  split
  · rename_i hrec
    obtain ⟨ops, hops⟩ := mark_recursive_marks os m.kernel m.fanotify.dir_cache fan_fd mask canonical
      ((m.first_opt_for_path path).bind fun o => o.max_depth) false
    refine ⟨_, ops, ?_, hops, fun h => by simp [h] at hrec⟩
    rw [mark_recursive]
    simp only [hblind, mark_recursive_blind]
    rw [← hblind]
  · exact ⟨m.kernel, [], rfl, by simp, fun _ => rfl⟩

/-- One root, from a state in which these file systems have a group: `ops` are its mark calls. -/
structure Rooted (os : Os) (devs : List Nat) (root : PathBuf × PathBuf) (ops : List MarkOp)
    (st st' : Monitor × HashMap Nat Nat) : Prop where
  marks : st'.1.kernel.marks = st.1.kernel.marks ++ ops
  dir_cache : st'.1.fanotify.dir_cache = st.1.fanotify.dir_cache
  entries : st'.1.monitored_entries = st.1.monitored_entries
  mark : match init_mark os devs root with
    | none => ops = [] ∧ InitInv devs st'
    | some d => InitInv (os.dev_id root.2 :: devs) st' ∧ ∃ op more, ops = op :: more ∧
        dirs_added [op] = [d] ∧ (st.1.root_recursive root.1 = false → more = [])

/-- A root on the group of its file system. -/
theorem rooted_on_group {os : Os} {devs : List Nat} {m : Monitor} {fs_group_devs : HashMap Nat Nat}
    (h : InitInv devs (m, fs_group_devs)) (mask : Mask) {path canonical : PathBuf} {dir : DirFd}
    (hopen : os.open_dir_safe canonical = some dir) {key : Nat}
    (hdev : fs_group_devs.lookup (os.dev_id canonical) = some key) :
    ∃ ops, Rooted os devs (path, canonical) ops (m, fs_group_devs)
      (init_root os mask (m, fs_group_devs) (path, canonical)) := by
  obtain ⟨hblind, hgroups, hdevs⟩ := h
  have hmem : os.dev_id canonical ∈ devs := (hdevs _).1 (by simp [hdev])
  obtain ⟨group, hgroup⟩ := Option.isSome_iff_exists.1 (hgroups _ _ hdev)
  have hkeep : ∀ dev k, fs_group_devs.lookup dev = some k →
      ((m.fanotify.groups.modify key fun g => { g with ref_count := g.ref_count + 1 }).get k).isSome =
        true := by
    intro dev k hk
    rw [SlotMap.get_modify]
    have := hgroups dev k hk
    split <;> simpa using this
  cases hmark : m.kernel.mark_directory_at os group.fan_fd dir mask with
  | none =>
      have hno : os.mark_ok dir.node.ino = false := by
        simpa [Kernel.mark_directory_at] using hmark
      refine ⟨[], ?_⟩
      simp only [init_root, hopen, hdev, hgroup, hmark]
      refine ⟨by simp, rfl, rfl, ?_⟩
      simp only [init_mark, hopen, hmem, hno, Option.filter, if_true]
      exact ⟨trivial, hblind, hkeep, hdevs⟩
  | some k =>
      have hok : os.mark_ok dir.node.ino = true := by
        by_contra hno
        simp [Kernel.mark_directory_at, hno] at hmark
      obtain ⟨op, hop, hk⟩ := marks_mark_directory_at hmark
      obtain ⟨k', more, hwalk, hmore, hrec⟩ :=
        init_walk_eq os (m := { m with kernel := k }) hblind group.fan_fd mask path canonical
      refine ⟨op :: more, ?_⟩
      simp only [init_root, hopen, hdev, hgroup, hmark, hwalk]
      refine ⟨by simp [hmore, hk], rfl, rfl, ?_⟩
      simp only [init_mark, hopen, hmem, hok, Option.filter, if_true]
      refine ⟨⟨hblind, hkeep, fun dev => ?_⟩, op, more, rfl, hop, hrec⟩
      show (fs_group_devs.lookup dev).isSome = true ↔ _
      rw [hdevs dev, List.mem_cons]
      constructor
      · exact Or.inr
      · rintro (rfl | hd)
        · exact hmem
        · exact hd

/-- A root on a file system without a group. -/
theorem rooted_new_group {os : Os} {devs : List Nat} {m : Monitor} {fs_group_devs : HashMap Nat Nat}
    (h : InitInv devs (m, fs_group_devs)) (mask : Mask) {path canonical : PathBuf} {dir : DirFd}
    (hopen : os.open_dir_safe canonical = some dir)
    (hdev : fs_group_devs.lookup (os.dev_id canonical) = none) :
    ∃ ops, Rooted os devs (path, canonical) ops (m, fs_group_devs)
      (init_root os mask (m, fs_group_devs) (path, canonical)) := by
  obtain ⟨hblind, hgroups, hdevs⟩ := h
  have hmem : os.dev_id canonical ∉ devs := fun hm => by simpa [hdev] using (hdevs _).2 hm
  cases hcreate : m.kernel.create_group_and_mark os dir mask with
  | none =>
      have hno : os.create_ok dir.node.ino = false := by
        simpa [Kernel.create_group_and_mark] using hcreate
      refine ⟨[], ?_⟩
      simp only [init_root, hopen, hdev, hcreate]
      refine ⟨by simp, rfl, rfl, ?_⟩
      simp only [init_mark, hopen, hmem, hno, Option.filter, if_false]
      exact ⟨trivial, hblind, hgroups, hdevs⟩
  | some r =>
      obtain ⟨new_fd, k⟩ := r
      have hok : os.create_ok dir.node.ino = true := by
        by_contra hno
        simp [Kernel.create_group_and_mark, hno] at hcreate
      obtain ⟨op, hop, hk⟩ := marks_create_group hcreate
      obtain ⟨k', more, hwalk, hmore, hrec⟩ :=
        init_walk_eq os (m := { m with kernel := k }) hblind new_fd mask path canonical
      refine ⟨op :: more, ?_⟩
      simp only [init_root, hopen, hdev, hcreate, hwalk]
      refine ⟨by simp [hmore, hk], rfl, rfl, ?_⟩
      simp only [init_mark, hopen, hmem, hok, Option.filter, if_false, if_true]
      refine ⟨⟨hblind, fun dev key hkey => ?_, fun dev => ?_⟩, op, more, rfl, hop, hrec⟩
      · simp only [HashMap.lookup_insert'] at hkey
        simp only [SlotMap.get_insert]
        split at hkey
        · cases hkey
          simp
        · split
          · rfl
          · exact hgroups dev key hkey
      · simp only [HashMap.lookup_insert', List.mem_cons]
        split
        · rename_i hd
          simp [hd]
        · rename_i hd
          rw [hdevs dev]
          simp [hd]

/-- What one root leaves: its mark, if it has one, and then those of its walk. -/
theorem init_root_rooted (os : Os) (mask : Mask) {devs : List Nat} {st : Monitor × HashMap Nat Nat}
    (h : InitInv devs st) (root : PathBuf × PathBuf) :
    ∃ ops, Rooted os devs root ops st (init_root os mask st root) := by
  obtain ⟨m, fs_group_devs⟩ := st
  obtain ⟨path, canonical⟩ := root
  cases hopen : os.open_dir_safe canonical with
  | none =>
      refine ⟨[], ?_⟩
      simp only [init_root, hopen]
      exact ⟨by simp, rfl, rfl, by simpa [init_mark, hopen] using h⟩
  | some dir =>
      cases hdev : fs_group_devs.lookup (os.dev_id canonical) with
      | some key => exact rooted_on_group h mask hopen hdev
      | none => exact rooted_new_group h mask hopen hdev

/-- The loop over the roots: each marked root is among the directories marked, and is all of them
when none of them is recursive. -/
theorem init_roots_marks (os : Os) (mask : Mask) :
    ∀ (roots : List (PathBuf × PathBuf)) {devs : List Nat} {st : Monitor × HashMap Nat Nat},
      InitInv devs st → ∃ ops devs',
        (roots.foldl (init_root os mask) st).1.kernel.marks = st.1.kernel.marks ++ ops ∧
        (roots.foldl (init_root os mask) st).1.fanotify.dir_cache = st.1.fanotify.dir_cache ∧
        (roots.foldl (init_root os mask) st).1.monitored_entries = st.1.monitored_entries ∧
        InitInv devs' (roots.foldl (init_root os mask) st) ∧
        (init_marks os devs roots ≠ [] ∨ devs ≠ [] → devs' ≠ []) ∧
        (∀ r ∈ init_marks os devs roots, r.2 ∈ dirs_added ops) ∧
        ((∀ r ∈ init_marks os devs roots, st.1.root_recursive r.1.1 = false) →
          dirs_added ops = (init_marks os devs roots).map (·.2)) := by
  intro roots
  induction roots with
  | nil =>
      intro devs st h
      exact ⟨[], devs, by simp, rfl, rfl, h, by simp [init_marks], by simp [init_marks],
        by simp [init_marks]⟩
  | cons root roots ih =>
      intro devs st h
      obtain ⟨ops, hmarks, hcache, hentries, hmark⟩ := init_root_rooted os mask h root
      rw [List.foldl_cons]
      have hrec : ∀ p, (init_root os mask st root).1.root_recursive p = st.1.root_recursive p :=
        fun p => by simp only [root_recursive, first_opt_for_path, hentries]
      rw [init_marks]
      cases hd : init_mark os devs root with
      | none =>
          rw [hd] at hmark
          obtain ⟨rfl, hinv⟩ := hmark
          obtain ⟨ops', devs', hmarks', hcache', hentries', hinv', hdevs', hall', hplain'⟩ :=
            ih hinv
          refine ⟨ops', devs', ?_, hcache'.trans hcache, hentries'.trans hentries, hinv', hdevs', hall',
            fun hr => hplain' fun r hmem => (hrec _).trans (hr r hmem)⟩
          rw [hmarks', hmarks, List.append_nil]
      | some d =>
          rw [hd] at hmark
          obtain ⟨hinv, op, more, rfl, hop, hmore⟩ := hmark
          obtain ⟨ops', devs', hmarks', hcache', hentries', hinv', hdevs', hall', hplain'⟩ :=
            ih hinv
          have hadded : dirs_added (op :: more ++ ops') = d :: dirs_added more ++ dirs_added ops' := by
            rw [dirs_added_append, ← List.singleton_append, dirs_added_append, hop,
              List.singleton_append]
          refine ⟨op :: more ++ ops', devs', ?_, hcache'.trans hcache, hentries'.trans hentries, hinv',
            fun _ => hdevs' (Or.inr (by simp)), ?_, ?_⟩
          · rw [hmarks', hmarks, List.append_assoc]
          · rw [hadded]
            intro r hr
            rcases List.mem_cons.1 hr with rfl | hr
            · exact List.mem_append_left _ List.mem_cons_self
            · exact List.mem_append_right _ (hall' r hr)
          · intro hr
            rw [hadded, hmore (hr _ List.mem_cons_self), hplain' fun r hmem =>
              (hrec _).trans (hr r (List.mem_cons_of_mem _ hmem))]
            rfl

theorem mem_init_marks {os : Os} : ∀ {roots : List (PathBuf × PathBuf)} {devs : List Nat}
    {r : (PathBuf × PathBuf) × DirFd}, r ∈ init_marks os devs roots →
      r.1 ∈ roots ∧ os.open_dir_safe r.1.2 = some r.2
  | [], _, _, h => by cases h
  | root :: roots, devs, r, h => by
      rw [init_marks] at h
      cases hd : init_mark os devs root with
      | none =>
          simp only [hd] at h
          obtain ⟨hmem, hopen⟩ := mem_init_marks h
          exact ⟨List.mem_cons_of_mem _ hmem, hopen⟩
      | some d =>
          simp only [hd, List.mem_cons] at h
          rcases h with rfl | h
          · exact ⟨List.mem_cons_self, (Option.filter_eq_some_iff.1 hd).1⟩
          · obtain ⟨hmem, hopen⟩ := mem_init_marks h
            exact ⟨List.mem_cons_of_mem _ hmem, hopen⟩

/-! ## The handles -/

/-- The roots `init_cache` caches. -/
def Caches (os : Os) (m : Monitor) (root : PathBuf × PathBuf) : Prop :=
  os.is_dir root.2 = true ∧ m.root_recursive root.1 = false

/-- These roots have been looked at: `Caches` says whose handles are new. -/
structure Cached (os : Os) (roots : List (PathBuf × PathBuf)) (m m' : Monitor) : Prop where
  kernel : m'.kernel = m.kernel
  entries : m'.monitored_entries = m.monitored_entries
  kept : ∀ ino, Resolves os m.fanotify.dir_cache ino → Resolves os m'.fanotify.dir_cache ino
  new : ∀ root ∈ roots, Caches os m root → ∀ n, os.fs.lstat root.2 = some n →
    (os.handle n.ino).isSome → Resolves os m'.fanotify.dir_cache n.ino
  only : ∀ key p, m'.fanotify.dir_cache.lookup key = some p →
    m.fanotify.dir_cache.lookup key = some p ∨ ∃ root ∈ roots, Caches os m root ∧
      ∃ n, os.fs.lstat root.2 = some n ∧ os.handle n.ino = some key

theorem cached_init_cache (os : Os) (m : Monitor) (root : PathBuf × PathBuf) :
    Cached os [root] m (init_cache os m root) := by
  rw [init_cache]
  split
  · rename_i hroot
    refine ⟨rfl, rfl, fun ino h => ?_, fun r hr _ n hn hh => ?_, fun key p h => ?_⟩
    · show Resolves os (cache_dir_handle os m.fanotify.dir_cache root.2) ino
      cases hl : os.fs.lstat root.2 with
      | none => simpa [cache_dir_handle, hl] using h
      | some n => exact (resolves_cache_dir_handle hl).2 _ h
    · rw [List.mem_singleton.1 hr] at hn
      exact (resolves_cache_dir_handle hn).1 hh
    · simp only [cache_dir_handle] at h
      split at h
      · exact Or.inl h
      · rename_i key' hkey'
        rw [HashMap.lookup_insert'] at h
        split at h
        · rename_i hkey
          subst hkey
          obtain ⟨n, hn, hhandle⟩ := Option.bind_eq_some_iff.1 hkey'
          exact Or.inr ⟨root, List.mem_singleton.2 rfl, by simpa [Caches] using hroot, n, hn, hhandle⟩
        · exact Or.inl h
  · rename_i hroot
    refine ⟨rfl, rfl, fun _ h => h, fun r hr hcaches => ?_, fun _ _ h => Or.inl h⟩
    rw [List.mem_singleton.1 hr] at hcaches
    exact absurd (by simpa [Caches] using hcaches) hroot

theorem Cached.trans {os : Os} {rs rs' : List (PathBuf × PathBuf)} {m m' m'' : Monitor}
    (h : Cached os rs m m') (h' : Cached os rs' m' m'') : Cached os (rs ++ rs') m m'' := by
  have hsame : ∀ root, Caches os m' root ↔ Caches os m root := fun root => by
    simp only [Caches, root_recursive, first_opt_for_path, h.entries]
  refine ⟨h'.kernel.trans h.kernel, h'.entries.trans h.entries, fun ino hr => h'.kept _ (h.kept _ hr),
    fun r hr hcaches n hn hh => ?_, fun key p hlook => ?_⟩
  · rcases List.mem_append.1 hr with hr | hr
    · exact h'.kept _ (h.new r hr hcaches n hn hh)
    · exact h'.new r hr ((hsame r).2 hcaches) n hn hh
  · rcases h'.only key p hlook with hlook | ⟨r, hr, hcaches, hn⟩
    · rcases h.only key p hlook with hlook | ⟨r, hr, hcaches, hn⟩
      · exact Or.inl hlook
      · exact Or.inr ⟨r, List.mem_append_left _ hr, hcaches, hn⟩
    · exact Or.inr ⟨r, List.mem_append_right _ hr, (hsame r).1 hcaches, hn⟩

theorem cached_foldl (os : Os) : ∀ (roots : List (PathBuf × PathBuf)) (m : Monitor),
    Cached os roots m (roots.foldl (init_cache os) m) := by
  intro roots
  induction roots with
  | nil =>
      intro _
      exact ⟨rfl, rfl, fun _ h => h, fun _ h => (by cases h), fun _ _ h => Or.inl h⟩
  | cons root roots ih =>
      intro m
      exact (cached_init_cache os m root).trans (ih _)

/-! ## The start -/

theorem kernel_spawn_tasks (os : Os) (m : Monitor) :
    (m.spawn_tasks os).kernel = m.kernel ∧
      (m.spawn_tasks os).fanotify = { m.fanotify with shared_dir_cache := true } := by
  have hfold : ∀ (keys : List Nat) (m : Monitor),
      (keys.foldl (spawn_fd_reader os) m).kernel = m.kernel ∧
        (keys.foldl (spawn_fd_reader os) m).fanotify = m.fanotify := by
    intro keys m
    refine Prod.ext_iff.1 (Run.frame_exec (f := fun m : Monitor => (m.kernel, m.fanotify)) ?_ keys m)
    intro m key
    exact Prod.ext_iff.2 (kernel_spawn_fd_reader os m key)
  exact hfold _ { m with event_tx := true, fanotify := { m.fanotify with shared_dir_cache := true } }

/-- A path of the configuration that exists is its own canonical path. -/
theorem cfg_roots_real {os : Os} {cfg : MonitorConfig} {p : PathBuf} (h : p ∈ cfg_roots os cfg) :
    os.fs.IsReal p ∧ os.exists p = true := by
  obtain ⟨hmem, hexists⟩ := List.mem_filter.1 h
  refine ⟨?_, hexists⟩
  have hkeys : ∀ (qs acc : List PathBuf), p ∈ qs.foldl insert_new acc → p ∈ acc ∨ p ∈ qs := by
    intro qs
    induction qs with
    | nil => exact fun acc h => Or.inl h
    | cons q qs ih =>
        intro acc h
        rcases ih _ h with h | h
        · rw [insert_new] at h
          split at h
          · exact Or.inl h
          · simp only [List.mem_append, List.mem_singleton] at h
            exact h.imp_right fun h => List.mem_cons.2 (Or.inl h)
        · exact Or.inr (List.mem_cons_of_mem _ h)
  rcases hkeys _ _ hmem with hnil | hmem
  · cases hnil
  · simp only [cfg_entries, List.map_map, List.mem_map, Function.comp_apply] at hmem
    obtain ⟨e, _, rfl⟩ := hmem
    cases hc : os.fs.canonicalize e.1 with
    | some c => simpa [Os.canonical, hc] using FsTree.Tree.canonicalize_isReal hc
    | none => simp [Os.exists, Os.canonical, FsTree.Tree.metadata, hc] at hexists

/-- The roots of a start, with their canonical paths. -/
def start_roots (os : Os) (cfg : MonitorConfig) : List (PathBuf × PathBuf) :=
  (cfg_roots os cfg).map fun p => (p, os.canonical p)

theorem mem_start_roots {os : Os} {cfg : MonitorConfig} {r : PathBuf × PathBuf}
    (h : r ∈ start_roots os cfg) : r.1 = r.2 ∧ os.fs.IsReal r.2 ∧ os.exists r.1 = true := by
  obtain ⟨p, hp, rfl⟩ := List.mem_map.1 h
  obtain ⟨hreal, hexists⟩ := cfg_roots_real hp
  have hself : os.canonical p = p := by simp [Os.canonical, hreal.canonicalize]
  exact ⟨hself.symm, hself.symm ▸ hreal, hexists⟩

section
variable [Sizefilter]

/-- The state the marking loop of a start begins with. -/
theorem start_paths {os : Os} {cfg : MonitorConfig} {m : Monitor} (h : new os cfg = .ok m) :
    ∃ m₁, m.spawn_factory.init_paths os = m₁ ∧
      m₁.paths.zip m₁.canonical_paths = start_roots os cfg ∧ InitInv [] (m₁, ∅) ∧
      m₁.kernel = .initial ∧ m₁.fanotify.dir_cache = ∅ ∧
      ∀ r ∈ start_roots os cfg, m₁.root_recursive r.1 = cfg_recursive os cfg r.1 := by
  obtain ⟨hpaths, hcanonical, hentries, hfanotify, hkernel⟩ := new_ok h
  obtain ⟨hroots, hf₁, hk₁, hfirst⟩ := init_paths_roots os m.spawn_factory hcanonical
  have hf : (m.spawn_factory.init_paths os).fanotify = ⟨.empty, ∅, ∅, false, true⟩ := by
    rw [hf₁]
    simp [spawn_factory, hfanotify]
  refine ⟨_, rfl, ?_, ⟨by rw [hf], fun dev key hkey => by simp at hkey, fun dev => by simp⟩,
    hk₁.trans hkernel, by rw [hf], fun r hr => ?_⟩
  · rw [hroots, start_roots, cfg_roots, ← hpaths]
    rfl
  · rw [root_recursive, hfirst r.1 (mem_start_roots hr).2.2]
    simp only [first_opt_for_path, spawn_factory, hentries, cfg_recursive]

/-- What a start marks and caches, put together from its loops. -/
theorem start_spec {os : Os} {cfg : MonitorConfig} {m : Monitor} (h : start os cfg = .ok m) :
    ∃ m₂ m₃, m.kernel = m₂.kernel ∧ m.fanotify = { m₃.fanotify with shared_dir_cache := true } ∧
      (∀ r ∈ start_roots os cfg, m₂.root_recursive r.1 = cfg_recursive os cfg r.1) ∧
      m₂.fanotify.dir_cache = ∅ ∧
      (init_marks os [] (start_roots os cfg) = [] ∨ Cached os (start_roots os cfg) m₂ m₃) ∧
      (∀ r ∈ init_marks os [] (start_roots os cfg), r.2 ∈ newly_marked .initial m₂.kernel) ∧
      ((∀ r ∈ init_marks os [] (start_roots os cfg), cfg_recursive os cfg r.1.1 = false) →
        newly_marked .initial m₂.kernel = (init_marks os [] (start_roots os cfg)).map (·.2)) := by
  rw [start] at h
  split at h
  · cases h
  · rename_i m₀ hnew
    split at h
    · cases h
    · rename_i m₃ hinit
      cases h
      obtain ⟨m₁, hm₁, hroots, hinv, hkernel, hempty, hrec⟩ := start_paths hnew
      simp only [init_fanotify, hm₁, hroots] at hinit
      split at hinit
      · cases hinit
      · split at hinit
        · cases hinit
        · obtain ⟨ops, devs', hmarks, hcache, hentries, hinv₂, hdevs, hall, hplain⟩ :=
            init_roots_marks os m₀.spawn_factory.combined_mask (start_roots os cfg) hinv
          generalize (start_roots os cfg).foldl
            (init_root os m₀.spawn_factory.combined_mask) (m₁, ∅) = st at *
          have hnewly : newly_marked .initial st.1.kernel = dirs_added ops :=
            newly_marked_eq (by rw [hmarks, hkernel])
          obtain ⟨hks, hfs⟩ := kernel_spawn_tasks os m₃
          refine ⟨st.1, m₃, ?_, hfs, fun r hr => ?_, hcache.trans hempty, ?_, ?_, fun hr => ?_⟩
          · rw [hks]
            cases hinit
            split
            · exact (cached_foldl os _ st.1).kernel
            · rfl
          · rw [← hrec r hr]
            simp only [root_recursive, first_opt_for_path, hentries]
          · by_cases hnone : init_marks os [] (start_roots os cfg) = []
            · exact Or.inl hnone
            · -- a marked root has a group
              have hlen : 0 < st.1.fanotify.groups.len := by
                obtain ⟨dev, hdev⟩ := List.exists_mem_of_ne_nil _ (hdevs (Or.inl hnone))
                obtain ⟨key, hkey⟩ := Option.isSome_iff_exists.1 ((hinv₂.devs dev).2 hdev)
                obtain ⟨group, hgroup⟩ := Option.isSome_iff_exists.1 (hinv₂.groups dev key hkey)
                exact SlotMap.len_pos hgroup
              rw [if_pos hlen] at hinit
              cases hinit
              exact Or.inr (cached_foldl os _ st.1)
          · rw [hnewly]
            exact hall
          · rw [hnewly]
            exact hplain fun r hmem => (hrec r.1 (mem_init_marks hmem).1).trans (hr r hmem)

/-- After a start, each directory that was marked is resolvable. -/
def StartResolve (os : Os) (m : Monitor) : Prop :=
  ∀ d ∈ newly_marked .initial m.kernel, Resolves os m.fanotify.dir_cache d.node.ino

/-- No root that is marked has a recursive first entry. -/
def StartCached (os : Os) (cfg : MonitorConfig) : Prop :=
  ∀ r ∈ init_marks os [] (start_roots os cfg), cfg_recursive os cfg r.1.1 = false

/-- After a start, every mark is resolvable exactly when no marked root is recursive: the walks
run before the cache is shared, and the last loop leaves recursive roots out. -/
theorem start_resolve_iff {os : Os} {cfg : MonitorConfig} {m : Monitor}
    (h : start os cfg = .ok m) (hh : ∀ i, (os.handle i).isSome) :
    StartResolve os m ↔ StartCached os cfg := by
  unfold StartResolve StartCached
  obtain ⟨m₂, m₃, hkernel, hfanotify, hrec, hempty, hcached, hall, hplain⟩ := start_spec h
  rw [hkernel, hfanotify]
  constructor
  · intro hresolve r hr
    rcases hcached with hnone | hcached
    · rw [hnone] at hr
      cases hr
    · obtain ⟨hmem, hopen⟩ := mem_init_marks hr
      obtain ⟨key, p, _, hkey, hlook, _, _⟩ := hresolve r.2 (hall r hr)
      rcases hcached.only key p hlook with hlook | ⟨r', hr', ⟨hdir', hrec'⟩, n, hn, hkey'⟩
      · rw [hempty] at hlook
        cases hlook
      · -- the handle is that of the marked root: a directory has one canonical path
        have hino : n.ino = r.2.node.ino := os.handle_inj _ _ _ hkey' hkey
        obtain ⟨heq, hreal, _⟩ := mem_start_roots hmem
        obtain ⟨heq', hreal', _⟩ := mem_start_roots hr'
        rw [hreal'.lstat] at hn
        have hdir : n.kind = .dir := by
          have : os.fs.is_dir r'.2 = true := hdir'
          simpa [FsTree.Tree.is_dir, hreal'.metadata, hn] using this
        obtain ⟨_, hod, hls⟩ := os.open_dir_safe_eq hopen
        rw [hreal.lstat] at hls
        have hpath : r'.2 = r.1.2 :=
          FsTree.Tree.dir_unique hn hls hdir (FsTree.Tree.open_dir_eq hod).2.1 hino
        rw [heq, ← hpath, ← heq', ← hrec r' hr']
        exact hrec'
  · intro hplainrec d hd
    rw [hplain hplainrec] at hd
    obtain ⟨r, hr, rfl⟩ := List.mem_map.1 hd
    rcases hcached with hnone | hcached
    · rw [hnone] at hr
      cases hr
    · obtain ⟨hmem, hopen⟩ := mem_init_marks hr
      exact hcached.new r.1 hmem ⟨Os.is_dir_of_open hopen, (hrec _ hmem).trans (hplainrec r hr)⟩ _
        (os.open_dir_safe_eq hopen).2.2 (hh _)

/-- **Marked directories are resolvable** exactly when no marked root of the start is recursive and
every later call that marks without caching finds the directory cached.  The state after a call is
the one the next call starts from; each call sees its own tree. -/
theorem marked_resolve_iff {os : Os} {cfg : MonitorConfig} {m : Monitor} (h : start os cfg = .ok m)
    (calls : List (Os × Call)) (hh : ∀ i, (os.handle i).isSome)
    (hcalls : ∀ c ∈ calls, ∀ i, (c.1.handle i).isSome) :
    StartResolve os m ∧ Run.Guarded call MarkedResolve m calls ↔
      StartCached os cfg ∧ Run.Guarded call MarkedCached m calls := by
  obtain ⟨_, _, _, hfanotify, _⟩ := start_spec h
  have hshared : m.fanotify.shared_dir_cache = true := by rw [hfanotify]
  refine and_congr (start_resolve_iff h hh) ?_
  exact Run.guarded_congr (fun m => m.fanotify.shared_dir_cache = true)
    (fun m c hm => (shared_call m c).trans hm) calls m hshared fun m hm c hc =>
      marked_resolve_call_iff (hcalls c hc) m hm

end

/-- A directory with one subdirectory, below the root. -/
def nestedTree : FsTree.Tree OsString :=
  ⟨⟨1, 1, .dir, true, true⟩, Os.root_is_dir,
    [([[0x61]], ⟨2, 1, .dir, true, true⟩), ([[0x61], [0x62]], ⟨3, 1, .dir, true, true⟩)],
    by decide, by decide, by decide⟩

/-- A start with one entry. -/
def oneEntry (opts : PathOptions) : MonitorConfig where
  paths_and_options := [([[0x61]], opts)]
  log_dir := none
  buffer_size := none
  cache_buffer_size := 65536
  file_size_capacity := 10
  metrics_interval := none
  pid := 1

/-- Some paths, each with a plain entry. -/
def plainRoots (paths : List PathBuf) : MonitorConfig :=
  { oneEntry ⟨none, none, false, none, none⟩ with
    paths_and_options := paths.map fun p => (p, ⟨none, none, false, none, none⟩) }

/-- A root without recursion, and a directory that appears below it. -/
theorem marked_resolve_iff_plain : ∃ m,
    @start noSizes (.calm nestedTree) (oneEntry ⟨none, none, false, none, none⟩) = .ok m ∧
      (StartResolve (.calm nestedTree) m ∧ @Run.Guarded _ _ (@call noSizes) (@MarkedResolve noSizes) m
          [(.calm nestedTree, .on_new_subdirectory [[0x61], [0x62]])] ↔
        StartCached (.calm nestedTree) (oneEntry ⟨none, none, false, none, none⟩) ∧
          @Run.Guarded _ _ (@call noSizes) (@MarkedCached noSizes) m
            [(.calm nestedTree, .on_new_subdirectory [[0x61], [0x62]])]) :=
  ⟨_, rfl, @marked_resolve_iff noSizes _ _ _ rfl _ (fun _ => rfl) (by
    intro c hc i
    rw [List.mem_singleton.1 hc]
    rfl)⟩

/-- A recursive root at the start: neither it nor its subdirectory is in the cache. -/
theorem recursive_root_unresolvable : ∃ m,
    @start noSizes (.calm nestedTree) (oneEntry ⟨none, none, true, none, none⟩) = .ok m ∧
      ¬ StartResolve (.calm nestedTree) m := by
  refine ⟨_, rfl, fun h => ?_⟩
  obtain ⟨key, p, n, _, hlook, _⟩ := h ⟨[[0x61]], ⟨2, 1, .dir, true, true⟩⟩ (by decide)
  cases hlook

end Monitor

end Fsmon
