/-
# `Fsmon.Monitor.Reload` — what a reload makes of the daemon

A reload looks at paths only, and what the daemon holds is told apart by path, cmd
and options.  Its first loop takes an entry of the store when the path of the entry
is no root (`Taken`); the entry becomes active (`Activates`) or pending (`Queues`),
under the path it resolves to.  Its second loop drops the roots the store does not
name.  So a daemon that has been reloaded holds

    `stays`    the entries it had for paths the store names, and all its pending ones
    `takes_up`    what was taken for a path the store names, and what was queued

(`holds_reload_config`), and it mirrors the store exactly when these are the entries
of the store, each once.

    `reload_mirrors_iff`    `Mirrors` after the reload iff `Converges` before
    `second_cmd_ignored`    a second cmd for a path that is monitored
-/
import Fsmon.Cli.Agree
import Fsmon.Monitor.SelfFeed

namespace Fsmon

/-- The store names the path. -/
def Monitored.lists (s : Monitored) (path : PathBuf) : Bool := s.flatten.any fun e => e.path = path

namespace Monitor

/-! ## Lists, each element with those before it -/

def splits {α : Type} : List α → List (List α × α)
  | [] => []
  | x :: xs => ([], x) :: (splits xs).map fun s => (x :: s.1, s.2)

theorem splits_concat {α : Type} (xs : List α) (x : α) :
    splits (xs ++ [x]) = splits xs ++ [(xs, x)] := by
  induction xs with
  | nil => rfl
  | cons y ys ih =>
      rw [List.cons_append, splits, splits, ih, List.map_append]
      rfl

/-- Two filters that no element passes together, as one. -/
theorem filter_or_perm {α : Type} {p q : α → Prop} [DecidablePred p] [DecidablePred q]
    (h : ∀ a, p a → ¬ q a) (l : List α) :
    (l.filter (fun a => p a) ++ l.filter (fun a => q a)).Perm (l.filter fun a => p a ∨ q a) := by
  have hsplit := List.filter_append_perm (fun a => decide (p a)) (l.filter fun a => p a ∨ q a)
  rw [List.filter_filter, List.filter_filter] at hsplit
  have hp : (fun a => decide (p a) && decide (p a ∨ q a)) = fun a => decide (p a) := by
    funext a
    by_cases hpa : p a <;> simp [hpa]
  have hq : (fun a => (!decide (p a)) && decide (p a ∨ q a)) = fun a => decide (q a) := by
    funext a
    by_cases hpa : p a
    · simp [hpa, h a hpa]
    · simp [hpa]
  rwa [hp, hq] at hsplit

/-! ## What the first loop does with an entry -/

section
variable (os : Os) (m : Monitor)

/-- The path of the entry is no root, and no entry before it makes it one. -/
def Taken (before : List PathEntry) (e : PathEntry) : Prop :=
  e.path ∉ m.paths ∧
    ¬ (os.exists e.path = true ∧ ∃ d ∈ before, d.path ∉ m.paths ∧ os.canonical d.path = e.path)

/-- The path exists, or leads to a root. -/
def Found (e : PathEntry) : Prop := os.canonical e.path ∈ m.paths ∨ os.exists e.path = true

/-- The path does not exist, and is apart from the log directory. -/
def Waits (e : PathEntry) : Prop :=
  e.path ∉ m.paths ∧ ¬ Found os m e ∧
    m.log_dir_overlap os (os.canonical e.path) (e.recursive.getD false) = none

/-- A pending entry, or an entry before, waits for the path under the same cmd, letter by letter. -/
def Awaited (before : List PathEntry) (path : PathBuf) (cmd : Option String) : Prop :=
  (∃ q ∈ m.inotify_state.pending_paths, q.1 = path ∧ q.2.cmd = cmd) ∨
    ∃ d ∈ before, Waits os m d ∧ os.canonical d.path = path ∧ d.cmd = cmd

def Activates (before : List PathEntry) (e : PathEntry) : Prop := Taken os m before e ∧ Found os m e

def Queues (before : List PathEntry) (e : PathEntry) : Prop :=
  Waits os m e ∧ ¬ Awaited os m before (os.canonical e.path) e.cmd

instance (before : List PathEntry) (e : PathEntry) : Decidable (Taken os m before e) :=
  inferInstanceAs (Decidable (_ ∧ ¬ (_ ∧ _)))

instance (e : PathEntry) : Decidable (Found os m e) := inferInstanceAs (Decidable (_ ∨ _))

instance (e : PathEntry) : Decidable (Waits os m e) := inferInstanceAs (Decidable (_ ∧ _ ∧ _))

instance (before : List PathEntry) (path : PathBuf) (cmd : Option String) :
    Decidable (Awaited os m before path cmd) := inferInstanceAs (Decidable (_ ∨ _))

instance (before : List PathEntry) (e : PathEntry) : Decidable (Activates os m before e) :=
  inferInstanceAs (Decidable (_ ∧ _))

instance (before : List PathEntry) (e : PathEntry) : Decidable (Queues os m before e) :=
  inferInstanceAs (Decidable (_ ∧ ¬ _))

end

section
variable [Sizefilter]

/-- What a reloaded daemon still holds. -/
def stays (m : Monitor) (store : Monitored) : List Held :=
  (m.monitored_entries.map active_held).filter (fun h => store.lists h.1) ++
    m.inotify_state.pending_paths.map pending_held

/-- What a reload adds for good, under the paths the entries resolve to. -/
def takes_up (os : Os) (m : Monitor) (store : Monitored) : List Held :=
  ((splits store.flatten).filter fun s =>
      (Activates os m s.1 s.2 ∧ store.lists (os.canonical s.2.path) = true) ∨ Queues os m s.1 s.2).map
    fun s => pending_held (os.canonical s.2.path, s.2)

/-- What the daemon holds, active entries first. -/
def holds (m : Monitor) : List Held :=
  m.monitored_entries.map active_held ++ m.inotify_state.pending_paths.map pending_held

/-- The daemon holds what the store says, each entry once. -/
structure Mirrors (m : Monitor) (store : Monitored) : Prop where
  live : m.live = store.held
  once : m.holds.Nodup

/-- What stays and what is taken are the entries of the store, each once. -/
structure Converges (os : Os) (m : Monitor) (store : Monitored) : Prop where
  /-- No cmd is gone from a path that is still listed, and no options have changed. -/
  listed : ∀ e ∈ m.monitored_entries, store.lists e.1 = true → active_held e ∈ store.held
  /-- No pending entry is gone. -/
  pending : ∀ e ∈ m.inotify_state.pending_paths, pending_held e ∈ store.held
  /-- What is taken is asked for as it is taken: under the path it resolves to. -/
  taken : ∀ h ∈ m.takes_up os store, h ∈ store.held
  /-- An entry that the daemon does not hold is taken. -/
  asked : ∀ h ∈ store.held, h ∈ m.stays store ∨ h ∈ m.takes_up os store
  once : (m.stays store ++ m.takes_up os store).Nodup

/-! ## Calls that go on succeeding -/

/-- What a reload that goes on leaves: the log directory, the factory, a group for each file system
that had one. -/
structure Grown (m m' : Monitor) : Prop where
  log_dir : m'.log_dir = m.log_dir
  factory : m'.fanotify.factory = m.fanotify.factory
  groups : ∀ dev, (m.group_on dev).isSome = true → (m'.group_on dev).isSome = true

omit [Sizefilter] in
theorem Grown.refl (m : Monitor) : Grown m m := ⟨rfl, rfl, fun _ => id⟩

omit [Sizefilter] in
theorem Grown.trans {a b c : Monitor} (h : Grown a b) (h' : Grown b c) : Grown a c where
  log_dir := h'.log_dir.trans h.log_dir
  factory := h'.factory.trans h.factory
  groups dev := h'.groups dev ∘ h.groups dev

omit [Sizefilter] in
theorem Grown.of_fanotify {m m' : Monitor} (hlog : m'.log_dir = m.log_dir)
    (hfan : m'.fanotify = m.fanotify) : Grown m m' where
  log_dir := hlog
  factory := congrArg _ hfan
  groups dev := by
    rw [group_on, group_on, hfan]
    exact id

omit [Sizefilter] in
theorem grown_setup_inotify_watches (os : Os) (m : Monitor) : Grown m (m.setup_inotify_watches os) := by
  rw [setup_inotify_watches]
  split <;> exact .of_fanotify rfl rfl

omit [Sizefilter] in
theorem grown_add_cmd (os : Os) (m : Monitor) (path : PathBuf) (opts : PathOptions) :
    Grown m (m.add_cmd os path opts) := by
  simp only [add_cmd, count_monitored]
  split
  · exact .of_fanotify rfl rfl
  · split
    · exact .of_fanotify rfl rfl
    · split <;> exact .of_fanotify rfl rfl

omit [Sizefilter] in
theorem grown_queue_pending (os : Os) (m : Monitor) (path : PathBuf) (entry : PathEntry) :
    Grown m (m.queue_pending os path entry) := by
  rw [queue_pending]
  split
  · exact .refl m
  · refine Grown.trans ?_ (grown_setup_inotify_watches os _)
    exact .of_fanotify rfl rfl

omit [Sizefilter] in
/-- Groups that are modified keep their file system. -/
theorem grown_groups {m m' : Monitor} (hlog : m'.log_dir = m.log_dir)
    (hfactory : m'.fanotify.factory = m.fanotify.factory)
    (hgroups : ∀ k g, m.fanotify.groups.get k = some g →
      ∃ g', m'.fanotify.groups.get k = some g' ∧ g'.dev_id = g.dev_id) : Grown m m' where
  log_dir := hlog
  factory := hfactory
  groups dev h := by
    obtain ⟨k, g, hg, hdev⟩ := SlotMap.find_isSome.1 h
    obtain ⟨g', hg', hsame⟩ := hgroups k g hg
    exact SlotMap.find_isSome.2 ⟨k, g', hg', by rwa [hsame]⟩

omit [Sizefilter] in
theorem grown_mark_on_group (os : Os) (m : Monitor) (fan_fd : Nat) (canonical : PathBuf)
    (opts : PathOptions) : Grown m (m.mark_on_group os fan_fd canonical opts) := by
  rw [mark_on_group]
  split
  · exact .refl m
  · split
    · exact .refl m
    · split
      · exact grown_groups rfl rfl fun k g hg => ⟨g, hg, rfl⟩
      · exact .of_fanotify rfl rfl

omit [Sizefilter] in
theorem grown_spawn_fd_reader (os : Os) (m : Monitor) (key : Nat) :
    Grown m (m.spawn_fd_reader os key) := by
  rw [spawn_fd_reader]
  split <;> exact .of_fanotify rfl rfl

omit [Sizefilter] in
theorem grown_register (os : Os) (m : Monitor) (path canonical : PathBuf) (opts : PathOptions)
    (key : Nat) : Grown m (m.register os path canonical opts key) := by
  simp only [register, count_monitored]
  split <;> exact grown_groups rfl rfl fun k g hg => ⟨g, hg, rfl⟩

omit [Sizefilter] in
theorem grown_add_root {os : Os} {m m' : Monitor} {path : PathBuf} {opts : PathOptions}
    (h : m.add_root os path opts = .ok m') : Grown m m' := by
  simp only [add_root] at h
  split at h
  · next key group hgroup =>
      cases h
      refine ((grown_mark_on_group os m group.fan_fd (os.canonical path) opts).trans ?_).trans
        (grown_register ..)
      refine grown_groups rfl rfl fun k g hg => ?_
      rw [SlotMap.get_modify, hg]
      split
      · exact ⟨_, rfl, rfl⟩
      · exact ⟨g, rfl, rfl⟩
  · split at h
    · cases h
    · split at h
      · cases h
      · next new_fd k hcreate =>
          cases h
          refine Grown.trans ?_ ((grown_spawn_fd_reader ..).trans (grown_register ..))
          refine grown_groups (by split <;> rfl) (by split <;> rfl) fun q g hg => ⟨g, ?_, rfl⟩
          have hold : ∀ m₁ : Monitor, m₁.fanotify.groups = m.fanotify.groups →
              (m₁.fanotify.groups.insert ⟨os.dev_id (os.canonical path), new_fd, 1⟩).get q = some g := by
            intro m₁ hsame
            rw [SlotMap.get_insert, hsame, if_neg (Nat.ne_of_lt (SlotMap.lt_next hg)), hg]
          exact hold _ (by split <;> rfl)

theorem grown_add_path {os : Os} {m m' : Monitor} {entry : PathEntry}
    (h : m.add_path os entry = .ok m') : Grown m m' := by
  simp only [add_path] at h
  split at h
  · split at h
    · cases h
    · cases h
      exact grown_add_cmd ..
  · split at h
    · cases h
    · split at h
      · cases h
        exact grown_queue_pending ..
      · split at h
        · cases h
        · split at h
          · cases h
          · split at h
            · cases h
            · exact grown_add_root h

omit [Sizefilter] in
theorem Grown.overlap {m m' : Monitor} (h : Grown m m') (os : Os) (path : PathBuf) (recursive : Bool) :
    m'.log_dir_overlap os path recursive = m.log_dir_overlap os path recursive := by
  rw [log_dir_overlap, log_dir_overlap, h.log_dir]

omit [Sizefilter] in
theorem Grown.add_root_isOk {os : Os} {m m' r : Monitor} {path : PathBuf} {opts : PathOptions}
    (hgrown : Grown m m') (h : m.add_root os path opts = .ok r) :
    ∃ r', m'.add_root os path opts = .ok r' := by
  refine Monitor.add_root_isOk opts ?_
  simp only [add_root] at h
  split at h
  · next key group hgroup => exact .inl (hgrown.groups _ (by rw [hgroup]; rfl))
  · split at h
    · cases h
    · next dir hdir =>
        split at h
        · cases h
        · next new_fd k hcreate =>
            refine .inr ⟨dir, hdir, ?_⟩
            rw [Kernel.create_group_and_mark] at hcreate
            split at hcreate
            · assumption
            · cases hcreate

/-- A path that exists and could be added is added after others have been. -/
theorem Grown.add_path_isOk {os : Os} {m m' r : Monitor} {entry : PathEntry} (hgrown : Grown m m')
    (hpaths : os.canonical entry.path ∈ m.paths → os.canonical entry.path ∈ m'.paths)
    (hexists : os.exists entry.path = true) (h : m.add_path os entry = .ok r) :
    ∃ r', m'.add_path os entry = .ok r' := by
  have hexists : ¬ os.exists (os.canonical entry.path) = false := by rw [os.exists_canonical, hexists]; nofun
  obtain ⟨opts, hopts⟩ : ∃ opts, PathOptions.try_from entry = .ok opts := by
    have hadded := add_path_core h
    generalize r.core = c at hadded
    cases hadded with
    | cmd opts _ hopts => exact ⟨opts, hopts⟩
    | pending _ hno => exact absurd hno hexists
    | root opts _ _ hopts _ _ => exact ⟨opts, hopts⟩
  by_cases hpath' : os.canonical entry.path ∈ m'.paths
  · exact ⟨m'.add_cmd os (os.canonical entry.path) opts, by simp only [add_path, if_pos hpath', hopts]⟩
  · have hpath : os.canonical entry.path ∉ m.paths := fun hp => hpath' (hpaths hp)
    simp only [add_path, if_neg hpath, if_neg hpath', hgrown.overlap, hgrown.factory, if_neg hexists,
      hopts] at h ⊢
    split at h
    · cases h
    · split at h
      · cases h
      · next hcmd =>
          split at h
          · cases h
          · next hfactory =>
              obtain ⟨r', hr'⟩ := hgrown.add_root_isOk h
              exact ⟨r', by rw [if_neg hcmd, if_neg hfactory, hr']⟩

/-! ## The first loop -/

/-- After the entries `before`. -/
structure Reloading (os : Os) (m : Monitor) (before : List PathEntry) (m' : Monitor) : Prop where
  paths : ∀ p, p ∈ m'.paths ↔ p ∈ m.paths ∨
    os.exists p = true ∧ ∃ d ∈ before, d.path ∉ m.paths ∧ os.canonical d.path = p
  active : m'.monitored_entries.map active_held = m.monitored_entries.map active_held ++
    ((splits before).filter fun s => Activates os m s.1 s.2).map fun s =>
      pending_held (os.canonical s.2.path, s.2)
  pending : m'.inotify_state.pending_paths = m.inotify_state.pending_paths ++
    ((splits before).filter fun s => Queues os m s.1 s.2).map fun s => (os.canonical s.2.path, s.2)
  awaited : ∀ p c, (∃ q ∈ m'.inotify_state.pending_paths, q.1 = p ∧ q.2.cmd = c) ↔ Awaited os m before p c
  rooted : m'.core.Rooted
  grown : Grown m m'

theorem Reloading.start {os : Os} {m : Monitor} (h : m.core.Rooted) : Reloading os m [] m where
  paths p := by simp
  active := by simp [splits]
  pending := by simp [splits]
  awaited p c := by simp [Awaited]
  rooted := h
  grown := .refl m

omit [Sizefilter] in
theorem filter_splits_concat {P : List PathEntry → PathEntry → Prop} [∀ b e, Decidable (P b e)]
    (before : List PathEntry) (e : PathEntry) :
    (splits (before ++ [e])).filter (fun s => P s.1 s.2) =
      (splits before).filter (fun s => P s.1 s.2) ++ if P before e then [(before, e)] else [] := by
  rw [splits_concat, List.filter_append, List.filter_singleton]
  by_cases h : P before e <;> simp [h]

omit [Sizefilter] in
theorem awaited_concat {os : Os} {m : Monitor} {before : List PathEntry} {e : PathEntry} {p : PathBuf}
    {c : Option String} : Awaited os m (before ++ [e]) p c ↔
      Awaited os m before p c ∨ Waits os m e ∧ os.canonical e.path = p ∧ e.cmd = c := by
  simp only [Awaited, List.mem_append, List.mem_singleton, or_and_right, exists_or, exists_eq_left]
  exact or_assoc.symm

namespace Reloading

variable {os : Os} {m m' : Monitor} {before : List PathEntry} {e : PathEntry}

/-- The code skips what is not taken. -/
theorem taken_iff (h : Reloading os m before m') : e.path ∉ m'.paths ↔ Taken os m before e := by
  rw [h.paths, not_or]
  rfl

/-- The entry is skipped. -/
theorem skip (h : Reloading os m before m') (hpath : e.path ∈ m'.paths) :
    Reloading os m (before ++ [e]) m' := by
  have hactive : ¬ Activates os m before e := fun ha => h.taken_iff.2 ha.1 hpath
  have hwaits : ¬ Waits os m e := by
    rintro ⟨hno, hfound, _⟩
    rcases (h.paths _).1 hpath with hp | ⟨hexists, _⟩
    · exact hno hp
    · exact hfound (.inr hexists)
  have hqueues : ¬ Queues os m before e := fun hq => hwaits hq.1
  refine ⟨fun p => ?_, ?_, ?_, fun p c => ?_, h.rooted, h.grown⟩
  · rw [h.paths]
    constructor
    · rintro (hp | ⟨hexists, d, hd, hno, hdp⟩)
      · exact .inl hp
      · exact .inr ⟨hexists, d, List.mem_append_left _ hd, hno, hdp⟩
    · rintro (hp | ⟨hexists, d, hd, hno, hdp⟩)
      · exact .inl hp
      · rcases List.mem_append.1 hd with hd | hd
        · exact .inr ⟨hexists, d, hd, hno, hdp⟩
        · -- its path is a root, and so resolves to itself
          rw [List.mem_singleton.1 hd] at hno hdp
          obtain ⟨_, d', hd', hno', hdp'⟩ := ((h.paths _).1 hpath).resolve_left hno
          refine .inr ⟨hexists, d', hd', hno', ?_⟩
          rw [← hdp, ← hdp', os.canonical_idem]
  · rw [filter_splits_concat (P := Activates os m), if_neg hactive, List.append_nil]
    exact h.active
  · rw [filter_splits_concat (P := Queues os m), if_neg hqueues, List.append_nil]
    exact h.pending
  · rw [awaited_concat, h.awaited, or_iff_left fun hw => hwaits hw.1]

/-- The entry becomes active. -/
theorem activate {m'' : Monitor} (h : Reloading os m before m') (hpath : e.path ∉ m'.paths)
    (hfound : Found os m e) (hadd : m'.add_path os e = .ok m'') :
    Reloading os m (before ++ [e]) m'' := by
  have hactive : Activates os m before e := ⟨h.taken_iff.1 hpath, hfound⟩
  have hwaits : ¬ Waits os m e := fun hw => hw.2.1 hfound
  have hqueues : ¬ Queues os m before e := fun hq => hwaits hq.1
  have hexists : os.canonical e.path ∉ m'.paths → os.exists (os.canonical e.path) = true := by
    intro hno
    rw [os.exists_canonical]
    exact hfound.resolve_left fun hp => hno ((h.paths _).2 (.inl hp))
  have hadded := add_path_core hadd
  generalize hcore : m''.core = c at hadded
  obtain ⟨opts, hopts, hentries, hpending, hpaths⟩ : ∃ opts, PathOptions.try_from e = .ok opts ∧
      c.monitored_entries = m'.monitored_entries ++ [(os.canonical e.path, opts)] ∧
      c.pending_paths = m'.inotify_state.pending_paths ∧
      ∀ p, p ∈ c.paths ↔ p ∈ m'.paths ∨ os.exists p = true ∧ os.canonical e.path = p := by
    cases hadded with
    | cmd opts hroot hopts =>
        refine ⟨opts, hopts, rfl, rfl, fun p => ⟨.inl, ?_⟩⟩
        rintro (hp | ⟨_, rfl⟩)
        · exact hp
        · exact hroot
    | pending hno hmissing =>
        rw [hexists hno] at hmissing
        cases hmissing
    | root opts hno hthere hopts hlog hcmd =>
        refine ⟨opts, hopts, rfl, rfl, fun p => ?_⟩
        show p ∈ m'.paths ++ [os.canonical e.path] ↔ _
        rw [List.mem_append, List.mem_singleton]
        refine or_congr_right ⟨?_, fun hp => hp.2.symm⟩
        rintro rfl
        exact ⟨hthere, rfl⟩
  have hheld : active_held (os.canonical e.path, opts) = pending_held (os.canonical e.path, e) := by
    rw [active_held, pending_held, hopts, (PathOptions.try_from_ok hopts).1]
  refine ⟨fun p => ?_, ?_, ?_, fun p c' => ?_, hcore ▸ hadded.rooted h.rooted,
    h.grown.trans (grown_add_path hadd)⟩
  · rw [show m''.paths = c.paths from congrArg Core.paths hcore, hpaths, h.paths]
    simp only [List.mem_append, List.mem_singleton, or_and_right, exists_or, exists_eq_left, and_or_left,
      hactive.1.1, not_false_eq_true, true_and, or_assoc]
  · rw [show m''.monitored_entries = c.monitored_entries from congrArg Core.monitored_entries hcore,
      hentries, filter_splits_concat (P := Activates os m), if_pos hactive, List.map_append,
      List.map_append, h.active, List.append_assoc, List.map_singleton, hheld, List.map_singleton]
  · rw [show m''.inotify_state.pending_paths = c.pending_paths from congrArg Core.pending_paths hcore,
      hpending, filter_splits_concat (P := Queues os m), if_neg hqueues, List.append_nil]
    exact h.pending
  · rw [show m''.inotify_state.pending_paths = c.pending_paths from congrArg Core.pending_paths hcore,
      hpending, awaited_concat, h.awaited, or_iff_left fun hw => hwaits hw.1]

/-- The entry is refused, or waits. -/
theorem wait (h : Reloading os m before m') (hpath : e.path ∉ m'.paths) (hfound : ¬ Found os m e) :
    Reloading os m (before ++ [e]) (m'.reload_add os e) := by
  have hno : e.path ∉ m.paths := (h.taken_iff.1 hpath).1
  have hactive : ¬ Activates os m before e := fun ha => hfound ha.2
  have hmissing : os.exists (os.canonical e.path) = false := by
    rw [os.exists_canonical]
    exact Bool.eq_false_iff.2 fun hexists => hfound (.inr hexists)
  have hroot : os.canonical e.path ∉ m'.paths := by
    rw [h.paths, hmissing]
    rintro (hp | ⟨hexists, _⟩)
    · exact hfound (.inl hp)
    · cases hexists
  have hpaths : ∀ p, p ∈ m'.paths ↔ p ∈ m.paths ∨
      os.exists p = true ∧ ∃ d ∈ before ++ [e], d.path ∉ m.paths ∧ os.canonical d.path = p := by
    intro p
    rw [h.paths]
    have hlast : ¬ (os.exists p = true ∧ os.canonical e.path = p) := by
      rintro ⟨hexists, rfl⟩
      rw [hmissing] at hexists
      cases hexists
    simp only [List.mem_append, List.mem_singleton, or_and_right, exists_or, exists_eq_left,
      and_or_left, hno, not_false_eq_true, true_and, hlast, or_false]
  have hentries : ∀ q : Monitor, q.monitored_entries = m'.monitored_entries →
      q.monitored_entries.map active_held = m.monitored_entries.map active_held ++
        ((splits (before ++ [e])).filter fun s => Activates os m s.1 s.2).map fun s =>
          pending_held (os.canonical s.2.path, s.2) := by
    intro q hq
    rw [hq, filter_splits_concat (P := Activates os m), if_neg hactive, List.append_nil]
    exact h.active
  rw [reload_add, if_neg hpath]
  simp only [add_path, if_neg hroot, h.grown.overlap, if_pos hmissing]
  cases hoverlap : m.log_dir_overlap os (os.canonical e.path) (e.recursive.getD false) with
  | some msg =>
      have hwaits : ¬ Waits os m e := by
        intro hw
        have hnone := hoverlap.symm.trans hw.2.2
        cases hnone
      have hqueues : ¬ Queues os m before e := fun hq => hwaits hq.1
      refine ⟨hpaths, hentries _ rfl, ?_, fun p c => ?_, h.rooted, h.grown⟩
      · rw [filter_splits_concat (P := Queues os m), if_neg hqueues, List.append_nil]
        exact h.pending
      · rw [awaited_concat, h.awaited, or_iff_left fun hw => hwaits hw.1]
  | none =>
      have hwaits : Waits os m e := ⟨hno, hfound, hoverlap⟩
      have hcore := queue_pending_core os m' (os.canonical e.path) e
      have hgrown := h.grown.trans (grown_queue_pending os m' (os.canonical e.path) e)
      simp only
      generalize m'.queue_pending os (os.canonical e.path) e = m'' at hcore hgrown
      have hpending : m''.inotify_state.pending_paths = m'.core.queued (os.canonical e.path) e :=
        congrArg Core.pending_paths hcore
      have hpaths' : m''.paths = m'.paths := congrArg Core.paths hcore
      have hentries' : m''.monitored_entries = m'.monitored_entries := congrArg Core.monitored_entries hcore
      have hany : (m'.core.pending_paths.any fun q => q.1 = os.canonical e.path && q.2.cmd = e.cmd) = true ↔
          Awaited os m before (os.canonical e.path) e.cmd := by
        rw [← h.awaited]
        simp only [List.any_eq_true, Bool.and_eq_true, decide_eq_true_eq]
        rfl
      refine ⟨fun p => hpaths' ▸ hpaths p, hentries _ hentries', ?_, fun p c => ?_, ?_, hgrown⟩
      · rw [hpending, Core.queued, filter_splits_concat (P := Queues os m)]
        by_cases hawaited : Awaited os m before (os.canonical e.path) e.cmd
        · rw [if_pos (hany.2 hawaited), if_neg fun hq : Queues os m before e => hq.2 hawaited,
            List.append_nil]
          exact h.pending
        · rw [if_neg fun ha => hawaited (hany.1 ha), if_pos ⟨hwaits, hawaited⟩, List.map_append,
            List.map_singleton, ← List.append_assoc]
          exact congrArg (· ++ [(os.canonical e.path, e)]) h.pending
      · rw [hpending, Core.queued, awaited_concat, ← h.awaited]
        split
        · next ha =>
            refine ⟨.inl, ?_⟩
            rintro (hq | ⟨_, rfl, rfl⟩)
            · exact hq
            · exact (h.awaited _ _).2 (hany.1 ha)
        · simp only [List.mem_append, List.mem_singleton, or_and_right, exists_or, exists_eq_left,
            hwaits, true_and]
          rfl
      · rw [hcore]
        exact h.rooted

end Reloading

/-- **One entry** of the first loop. -/
theorem reloading_add {os : Os} {m m' : Monitor} {before : List PathEntry} {e : PathEntry}
    (h : Reloading os m before m') (hconv : ∃ opts, PathOptions.try_from e = .ok opts)
    (haddable : os.exists e.path = true → ∃ r, m.add_path os e = .ok r) :
    Reloading os m (before ++ [e]) (m'.reload_add os e) := by
  by_cases hpath : e.path ∈ m'.paths
  · rw [reload_add, if_pos hpath]
    exact h.skip hpath
  · by_cases hfound : Found os m e
    · obtain ⟨m'', hm''⟩ : ∃ m'', m'.add_path os e = .ok m'' := by
        by_cases hexists : os.exists e.path = true
        · obtain ⟨r, hr⟩ := haddable hexists
          exact h.grown.add_path_isOk (fun hp => (h.paths _).2 (.inl hp)) hexists hr
        · obtain ⟨opts, hopts⟩ := hconv
          have hroot : os.canonical e.path ∈ m'.paths := (h.paths _).2 (.inl (hfound.resolve_right hexists))
          exact ⟨m'.add_cmd os (os.canonical e.path) opts, by simp only [add_path, if_pos hroot, hopts]⟩
      rw [reload_add, if_neg hpath, hm'']
      exact h.activate hpath hfound hm''
    · exact h.wait hpath hfound

theorem reloading_foldl {os : Os} {m : Monitor} : ∀ (es before : List PathEntry) (m' : Monitor),
    Reloading os m before m' → (∀ e ∈ es, ∃ opts, PathOptions.try_from e = .ok opts) →
      (∀ e ∈ es, os.exists e.path = true → ∃ r, m.add_path os e = .ok r) →
        Reloading os m (before ++ es) (es.foldl (reload_add os) m') := by
  intro es
  induction es with
  | nil =>
      intro before m' h _ _
      rw [List.append_nil]
      exact h
  | cons e es ih =>
      intro before m' h hconv haddable
      have hnext := reloading_add h (hconv e List.mem_cons_self) (haddable e List.mem_cons_self)
      rw [List.foldl_cons, ← List.singleton_append, ← List.append_assoc]
      exact ih _ _ hnext (fun d hd => hconv d (List.mem_cons_of_mem _ hd))
        fun d hd => haddable d (List.mem_cons_of_mem _ hd)

/-! ## The second loop -/

omit [Sizefilter] in
theorem reload_remove_foldl (os : Os) (store : Monitored) : ∀ (ps : List PathBuf) (m : Monitor),
    (ps.foldl (reload_remove os store.flatten) m).monitored_entries =
        m.monitored_entries.filter (fun e => e.1 ∉ ps ∨ store.lists e.1 = true) ∧
      (ps.foldl (reload_remove os store.flatten) m).inotify_state.pending_paths =
        m.inotify_state.pending_paths := by
  intro ps
  induction ps with
  | nil =>
      intro m
      simp
  | cons p ps ih =>
      intro m
      obtain ⟨hentries, hpending⟩ := ih (m.reload_remove os store.flatten p)
      rw [List.foldl_cons, hentries, hpending, reload_remove]
      split
      · next hlisted =>
          have hlisted : store.lists p = true := hlisted
          refine ⟨List.filter_congr fun e _ => ?_, rfl⟩
          by_cases hp : e.1 = p
          · simp [hp, hlisted]
          · simp [hp]
      · next hlisted =>
          have hlisted : store.lists p = false := Bool.eq_false_iff.2 hlisted
          obtain ⟨hentries, hpending⟩ := try_remove_core os m p
          refine ⟨?_, hpending⟩
          rw [show (m.try_remove os p).monitored_entries = m.monitored_entries.filter (fun e => e.1 ≠ p)
            from hentries, List.filter_filter]
          refine List.filter_congr fun e _ => ?_
          by_cases hp : e.1 = p
          · simp [hp, hlisted]
          · simp [hp]

/-! ## The reload -/

/-- **What a reloaded daemon holds**: what stays, and what is taken. -/
theorem holds_reload_config {os : Os} {m : Monitor} {store : Monitored} (hrooted : m.core.Rooted)
    (hconv : ∀ e ∈ store.flatten, ∃ opts, PathOptions.try_from e = .ok opts)
    (haddable : ∀ e ∈ store.flatten, os.exists e.path = true → ∃ r, m.add_path os e = .ok r) :
    (m.reload_config os (.ok store)).2.holds.Perm (m.stays store ++ m.takes_up os store) := by
  have hloop := reloading_foldl store.flatten [] m (.start hrooted) hconv haddable
  show ((store.flatten.foldl (reload_add os) m).paths.foldl (reload_remove os store.flatten)
    (store.flatten.foldl (reload_add os) m)).holds.Perm _
  rw [List.nil_append] at hloop
  generalize store.flatten.foldl (reload_add os) m = m₁ at hloop
  obtain ⟨hentries, hpending⟩ := reload_remove_foldl os store m₁.paths m₁
  have hlisted : (m₁.monitored_entries.filter fun e => e.1 ∉ m₁.paths ∨ store.lists e.1 = true) =
      m₁.monitored_entries.filter fun e => store.lists e.1 := by
    refine List.filter_congr fun e he => ?_
    have hroot : e.1 ∈ m₁.paths := hloop.rooted e he
    simp [hroot]
  have hactive : (m₁.monitored_entries.filter fun e => store.lists e.1).map active_held =
      (m.monitored_entries.map active_held).filter (fun h => store.lists h.1) ++
        ((splits store.flatten).filter fun s =>
          Activates os m s.1 s.2 ∧ store.lists (os.canonical s.2.path) = true).map fun s =>
            pending_held (os.canonical s.2.path, s.2) := by
    have hmap : (m₁.monitored_entries.filter fun e => store.lists e.1).map active_held =
        (m₁.monitored_entries.map active_held).filter fun h => store.lists h.1 := by
      rw [List.filter_map]
      rfl
    rw [hmap, hloop.active, List.filter_append]
    refine congrArg _ ?_
    rw [List.filter_map, List.filter_filter]
    refine congrArg _ (List.filter_congr fun s _ => ?_)
    by_cases ha : Activates os m s.1 s.2 <;> simp [ha, pending_held]
  have htaken := filter_or_perm
    (p := fun s => Activates os m s.1 s.2 ∧ store.lists (os.canonical s.2.path) = true)
    (q := fun s => Queues os m s.1 s.2) (fun s ha hq => hq.1.2.1 ha.1.2) (splits store.flatten)
  have htakes := htaken.map fun s => pending_held (os.canonical s.2.path, s.2)
  rw [List.map_append] at htakes
  rw [holds, hentries, hpending, hlisted, hactive, hloop.pending, List.map_append, stays, takes_up,
    List.append_assoc, List.append_assoc]
  refine List.Perm.append_left _ ?_
  rw [← List.append_assoc]
  refine (List.Perm.append_right _ List.perm_append_comm).trans ?_
  rw [List.append_assoc, List.map_map]
  exact List.Perm.append_left _ htakes

theorem mem_live_iff_holds {m : Monitor} {h : Held} : h ∈ m.live ↔ h ∈ m.holds := by
  rw [holds, List.mem_append]
  rfl

/-- The daemon mirrors the store after a reload exactly when what stays and what is taken do. -/
theorem mirrors_iff {os : Os} {m r : Monitor} {store : Monitored}
    (h : r.holds.Perm (m.stays store ++ m.takes_up os store)) : Mirrors r store ↔ Converges os m store := by
  have hmem : ∀ x, x ∈ r.live ↔ x ∈ m.stays store ∨ x ∈ m.takes_up os store := by
    intro x
    rw [mem_live_iff_holds, h.mem_iff, List.mem_append]
  constructor
  · intro hm
    have hheld : ∀ x, x ∈ m.stays store ∨ x ∈ m.takes_up os store → x ∈ store.held := fun x hx =>
      hm.live ▸ (hmem x).2 hx
    refine ⟨fun e he hlisted => hheld _ (.inl ?_), fun e he => hheld _ (.inl ?_),
      fun x hx => hheld x (.inr hx), fun x hx => (hmem x).1 (hm.live ▸ hx), h.nodup_iff.1 hm.once⟩
    · exact List.mem_append_left _ (List.mem_filter.2 ⟨List.mem_map_of_mem he, hlisted⟩)
    · exact List.mem_append_right _ (List.mem_map_of_mem he)
  · intro hc
    refine ⟨?_, h.nodup_iff.2 hc.once⟩
    ext x
    rw [hmem]
    refine ⟨?_, hc.asked x⟩
    rintro (hx | hx)
    · rcases List.mem_append.1 hx with hx | hx
      · obtain ⟨hx, hlisted⟩ := List.mem_filter.1 hx
        obtain ⟨e, he, rfl⟩ := List.mem_map.1 hx
        exact hc.listed e he hlisted
      · obtain ⟨e, he, rfl⟩ := List.mem_map.1 hx
        exact hc.pending e he
    · exact hc.taken x hx

/-- Entries have their roots along every run. -/
theorem rooted_run {os : Os} {cfg : MonitorConfig} {m : Monitor} (h : new os cfg = .ok m)
    (steps : List Step) : (Run.exec step m steps).core.Rooted := by
  have hstable : Stable Stable.Any fun _ => True :=
    ⟨fun _ _ _ _ => trivial, fun _ _ => trivial, fun _ _ _ _ => trivial⟩
  exact (hstable.run_any steps m ⟨new_rooted h, trivial⟩).1

/-- **SIGHUP converges to the store** exactly when what the daemon keeps and what it takes are the
entries of the store: in any state that a run reaches, for a store whose entries can be read and
whose existing paths can be added. -/
theorem reload_mirrors_iff {os₀ : Os} {cfg : MonitorConfig} {m₀ : Monitor} (h : new os₀ cfg = .ok m₀)
    (steps : List Step) (os : Os) (store : Monitored)
    (hconv : ∀ e ∈ store.flatten, ∃ opts, PathOptions.try_from e = .ok opts)
    (haddable : ∀ e ∈ store.flatten, os.exists e.path = true →
      ∃ r, (Run.exec step m₀ steps).add_path os e = .ok r) :
    Mirrors ((Run.exec step m₀ steps).reload_config os (.ok store)).2 store ↔
      Converges os (Run.exec step m₀ steps) store :=
  mirrors_iff (holds_reload_config (rooted_run h steps) hconv haddable)

end

/-! ## A cmd more, for a path that is monitored -/

/-- `/a` in the groups of these cmds. -/
def storeA (cmds : List String) : Monitored :=
  ⟨cmds.map fun c => ⟨c, AList.insert [[0x61]] ⟨some false, none, none, none⟩ ∅⟩⟩

/-- The daemon that monitors `/a`, once it has started. -/
def startedA (m : Monitor) : Monitor := @Run.exec _ _ (@step noSizes) m startSteps

/-- `/a` for all cmds, in the daemon and in the store. -/
theorem reload_mirrors_one : ∃ m, new (.calm nestedTree) (oneEntry ⟨none, none, false, none, none⟩) = .ok m ∧
    @Mirrors noSizes (@reload_config noSizes (.calm nestedTree) (startedA m)
      (.ok (storeA [CMD_GLOBAL]))).2 (storeA [CMD_GLOBAL]) := by
  refine ⟨_, rfl, (@reload_mirrors_iff noSizes (.calm nestedTree) (oneEntry ⟨none, none, false, none, none⟩) _
    rfl startSteps (.calm nestedTree) (storeA [CMD_GLOBAL]) ?_ ?_).2 ?_⟩
  · intro e he
    rw [List.mem_singleton.1 he]
    exact ⟨_, rfl⟩
  · intro e he _
    rw [List.mem_singleton.1 he]
    exact ⟨_, rfl⟩
  · have hheld : (([[0x61]], none, .ok ⟨none, none, false, none, none⟩) : Held) ∈
        @Monitored.held noSizes (storeA [CMD_GLOBAL]) := ⟨_, List.mem_cons_self, rfl⟩
    refine @Converges.mk noSizes _ _ _ (fun e he _ => ?_) (fun e he => nomatch he)
      (fun h hh => nomatch hh) ?_ ?_
    · rw [List.mem_singleton.1 he]
      exact hheld
    · rintro h ⟨e, he, rfl⟩
      rw [List.mem_singleton.1 he]
      exact .inl List.mem_cons_self
    · exact List.nodup_singleton _

/-- The store asks for `/a` under `sh` too: the reload leaves it out. -/
theorem second_cmd_ignored : ∃ m, new (.calm nestedTree) (oneEntry ⟨none, none, false, none, none⟩) = .ok m ∧
    (∀ e ∈ (storeA [CMD_GLOBAL, "sh"]).flatten, ∃ opts, @PathOptions.try_from noSizes e = .ok opts) ∧
    (∀ e ∈ (storeA [CMD_GLOBAL, "sh"]).flatten, Os.exists (.calm nestedTree) e.path = true →
      ∃ r, @add_path noSizes (.calm nestedTree) (startedA m) e = .ok r) ∧
    ¬ @Mirrors noSizes (@reload_config noSizes (.calm nestedTree) (startedA m)
      (.ok (storeA [CMD_GLOBAL, "sh"]))).2 (storeA [CMD_GLOBAL, "sh"]) := by
  have hmem : ∀ e ∈ (storeA [CMD_GLOBAL, "sh"]).flatten,
      e = ⟨some CMD_GLOBAL, [[0x61]], some false, none, none, none⟩ ∨
        e = ⟨some "sh", [[0x61]], some false, none, none, none⟩ := by
    intro e he
    rcases List.mem_cons.1 he with rfl | he
    · exact .inl rfl
    · exact .inr (List.mem_singleton.1 he)
  refine ⟨_, rfl, fun e he => ?_, fun e he _ => ?_, fun h => ?_⟩
  · rcases hmem e he with rfl | rfl
    · exact ⟨_, rfl⟩
    · exact ⟨_, rfl⟩
  · rcases hmem e he with rfl | rfl
    · exact ⟨_, rfl⟩
    · exact ⟨_, rfl⟩
  · have hheld : (([[0x61]], some "sh", .ok ⟨none, none, false, some "sh", none⟩) : Held) ∈
        @Monitored.held noSizes (storeA [CMD_GLOBAL, "sh"]) :=
      ⟨_, List.mem_cons_of_mem _ List.mem_cons_self, rfl⟩
    rw [← @Mirrors.live noSizes _ _ h, @mem_live_iff_holds noSizes] at hheld
    have hcmd := congrArg (fun x : Held => x.2.1) (List.mem_singleton.1 hheld)
    cases hcmd

end Monitor

end Fsmon
