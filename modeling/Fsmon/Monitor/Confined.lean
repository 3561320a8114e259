/-
# `Fsmon.Monitor.Confined` — new directories and what lies outside the roots

`on_new_subdirectory` takes a path, follows it to its canonical directory, and
sends two walks below that.  The marking walk leaves links alone; so it stays
below the directory.  `watch_recursive` follows them.

`Met` is where the second walk can go.  A call is `SubdirSafe` when the directory
lies below a recursive root and no link it meets leads out of the roots; in a run
of such calls nothing outside is ever touched (`confined_run`).
-/
import Fsmon.Monitor.Frames
import Fsmon.Monitor.Walk
import Fsmon.Lib.Run

namespace Fsmon

/-- At or below one of these. -/
def Below (roots : List PathBuf) (p : PathBuf) : Prop := ∃ r ∈ roots, p.startsWith r = true

theorem Below.startsWith {roots : List PathBuf} {p q : PathBuf} (h : Below roots p)
    (hq : q.startsWith p = true) : Below roots q := by
  obtain ⟨r, hr, hp⟩ := h
  exact ⟨r, hr, PathBuf.startsWith_trans hq hp⟩

theorem Below.join {roots : List PathBuf} {p : PathBuf} (h : Below roots p) (name : OsString) :
    Below roots (p.join name) := by
  obtain ⟨r, hr, hp⟩ := h
  exact ⟨r, hr, PathBuf.startsWith_join hp name⟩

/-- Everything a call touched lies below a root of the time. -/
def Touch.Confined (t : Touch) : Prop := ∀ d ∈ t.dirs, Below t.roots d

section
variable {os : Os}

theorem Os.canonical_of_is_dir {p : PathBuf} (h : os.is_dir p = true) :
    os.fs.canonicalize p = some (os.canonical p) := by
  rw [Os.canonical]
  cases hc : os.fs.canonicalize p with
  | some c => rfl
  | none => simp [Os.is_dir, FsTree.Tree.is_dir, FsTree.Tree.metadata, hc] at h

/-- Resolving a path that is a directory ends at a real one. -/
theorem Os.isReal_canonical {p : PathBuf} (h : os.is_dir (os.canonical p) = true) :
    os.fs.IsReal (os.canonical p) := by
  have hc := Os.canonical_of_is_dir h
  rw [os.canonical_idem] at hc
  exact FsTree.Tree.canonicalize_isReal hc

/-- A real path is its own canonical path. -/
theorem Os.canonical_of_isReal {p : PathBuf} (h : os.fs.IsReal p) : os.canonical p = p := by
  rw [Os.canonical, h.canonicalize, Option.getD_some]

/-! ## The marking walk -/

/-- What is queued and discovered is a real path below the directory. -/
def Inside (os : Os) (dir : PathBuf) (w : Walk) : Prop :=
  (∀ e ∈ w.queue, os.fs.IsReal e.1 ∧ e.1.startsWith dir = true) ∧
    ∀ p ∈ w.discovered, os.fs.IsReal p ∧ p.startsWith dir = true

theorem subdirs_inside {dir current : PathBuf} (hreal : os.fs.IsReal current)
    (hbelow : current.startsWith dir = true) :
    ∀ p ∈ Walk.subdirs os current, os.fs.IsReal p ∧ p.startsWith dir = true := by
  intro p hp
  obtain ⟨⟨x, node⟩, he, hx⟩ := List.mem_filterMap.1 hp
  simp only [Option.ite_none_right_eq_some, Option.some.injEq] at hx
  obtain ⟨hdir, rfl⟩ := hx
  cases hread : os.fs.read_dir current with
  | none => simp [hread] at he
  | some es =>
      rw [hread, Option.getD_some] at he
      obtain ⟨⟨parent, hparent, hkind⟩, hlook⟩ := FsTree.Tree.read_dir_mem hreal hread he
      refine ⟨hreal.join hparent hkind hlook fun target => by simp [hdir], ?_⟩
      exact PathBuf.startsWith_join hbelow x

theorem inside_visit {dir : PathBuf} {fan_fd : Nat} {mask : Mask} {max_depth : Option Nat}
    {caching : Bool} {w : Walk} {current : PathBuf} {depth : Nat} {rest : List (PathBuf × Nat)}
    (h : Inside os dir w) (hqueue : w.queue = (current, depth) :: rest) :
    Inside os dir (Walk.visit os fan_fd mask max_depth caching current depth
      { w with queue := rest }) := by
  obtain ⟨hq, hd⟩ := h
  obtain ⟨hreal, hbelow⟩ := hq (current, depth) (by rw [hqueue]; exact List.mem_cons_self)
  have hrest : ∀ e ∈ rest, os.fs.IsReal e.1 ∧ e.1.startsWith dir = true := fun e he =>
    hq e (by rw [hqueue]; exact List.mem_cons_of_mem _ he)
  have hlevel : ((({ w with queue := rest } : Walk).level os fan_fd mask depth).queue = rest) ∧
      (({ w with queue := rest } : Walk).level os fan_fd mask depth).discovered = w.discovered := by
    rw [Walk.level]
    split <;> exact ⟨rfl, rfl⟩
  rw [Walk.visit]
  generalize ({ w with queue := rest } : Walk).level os fan_fd mask depth = w₁ at hlevel
  obtain ⟨hq₁, hd₁⟩ := hlevel
  simp only
  split
  · exact ⟨by rw [hq₁]; exact hrest, by rw [hd₁]; exact hd⟩
  · split
    · exact ⟨by rw [hq₁]; exact hrest, by rw [hd₁]; exact hd⟩
    · rename_i fd _
      have henter : (w₁.enter os fan_fd mask caching current depth fd).queue = rest ∧
          ∀ p ∈ (w₁.enter os fan_fd mask caching current depth fd).discovered,
            p ∈ w.discovered ∨ p = current := by
        have hseed : (w₁.seed os caching current fd).queue = rest ∧
            (w₁.seed os caching current fd).discovered = w.discovered := by
          rw [Walk.seed]
          split <;> exact ⟨hq₁, hd₁⟩
        rw [Walk.enter]
        split
        · exact ⟨hseed.1, fun p hp => Or.inl (hseed.2 ▸ hp)⟩
        · rw [Walk.collect]
          simp only
          split
          all_goals
            refine ⟨hseed.1, fun p hp => ?_⟩
            rw [← hseed.2]
            exact (List.mem_append.1 hp).imp_right List.mem_singleton.1
      refine ⟨fun e he => ?_, fun p hp => ?_⟩
      · rcases List.mem_append.1 he with he | he
        · exact hrest e (henter.1 ▸ he)
        · obtain ⟨p, hp, rfl⟩ := List.mem_map.1 he
          exact subdirs_inside hreal hbelow p hp
      · rcases henter.2 p hp with hp | rfl
        · exact hd p hp
        · exact ⟨hreal, hbelow⟩

/-- The walk discovers real paths below the directory it is sent to. -/
theorem discovered_inside {k : Kernel} {cache : DirCache} {fan_fd : Nat} {mask : Mask} {dir : PathBuf}
    {max_depth : Option Nat} {caching : Bool} (hreal : os.fs.IsReal dir) :
    ∀ p ∈ (mark_recursive_with_depth os k cache fan_fd mask dir max_depth caching).discovered,
      os.fs.IsReal p ∧ p.startsWith dir = true := by
  have hstart : Inside os dir ⟨k, cache, [(dir, 0)], [], 0, []⟩ :=
    ⟨fun e he => by
      rw [List.mem_singleton.1 he]
      exact ⟨hreal, PathBuf.startsWith_refl dir⟩, fun p hp => by cases hp⟩
  exact (Walk.run_inv (fun w current depth rest h hqueue => inside_visit h hqueue) _ _ hstart).2

end

/-! ## The watching walk -/

/-- The directories `watch_recursive` can go into from `dir`, by the paths it uses. -/
inductive Met (os : Os) (dir : PathBuf) : PathBuf → Prop
  | refl : Met os dir dir
  | step {p : PathBuf} {es : List (OsString × FsTree.Node OsString)} {x : OsString}
      {node : FsTree.Node OsString} (h : Met os dir p) (hread : os.fs.read_dir p = some es)
      (hx : (x, node) ∈ es) (hdir : os.is_dir (p.join x) = true) : Met os dir (p.join x)

theorem Met.trans {os : Os} {a b c : PathBuf} (h : Met os a b) (h' : Met os b c) : Met os a c := by
  induction h' with
  | refl => exact h
  | step _ hread hx hdir ih => exact ih.step hread hx hdir

/-- From a directory that is empty there is nowhere to go. -/
theorem Met.eq_of_empty {os : Os} {a b : PathBuf} (h : Met os a b) (hread : os.fs.read_dir a = some []) :
    b = a := by
  induction h with
  | refl => rfl
  | step _ hread' hx _ ih =>
      rw [ih, hread] at hread'
      cases hread'
      cases hx

/-- No link to a directory that is met leads out of the roots. -/
def LinksInside (os : Os) (roots : List PathBuf) (dir : PathBuf) : Prop :=
  ∀ p es x node target, Met os dir p → os.fs.read_dir p = some es → (x, node) ∈ es →
    node.kind = .symlink target → os.is_dir (p.join x) = true →
      Below roots (os.canonical (p.join x))

/-- Below a directory that can be read, a name that is no link extends the canonical path. -/
theorem canonical_join_of_read {os : Os} {p : PathBuf} {es : List (OsString × FsTree.Node OsString)}
    {x : OsString} {node : FsTree.Node OsString} (hdir : os.is_dir p = true)
    (hread : os.fs.read_dir p = some es) (hx : (x, node) ∈ es)
    (hlink : ∀ target, node.kind ≠ .symlink target) :
    os.canonical (p.join x) = (os.canonical p).join x := by
  have hc := Os.canonical_of_is_dir hdir
  rw [FsTree.Tree.read_dir, hc, Option.bind_some] at hread
  cases hd : os.fs.lookup (os.canonical p) with
  | none => simp [hd] at hread
  | some parent =>
      simp only [hd, Option.bind_some, Option.ite_none_right_eq_some, Bool.and_eq_true,
        decide_eq_true_eq, Option.some.injEq] at hread
      obtain ⟨⟨hkind, _⟩, rfl⟩ := hread
      have hjoin := FsTree.Tree.canonicalize_join hc hd hkind (FsTree.Tree.mem_children hx) hlink
      show (os.fs.canonicalize (p ++ [x])).getD _ = _
      rw [hjoin]
      rfl

/-- With the links inside, everything met is. -/
theorem met_below {os : Os} {roots : List PathBuf} {dir p : PathBuf} (h : Met os dir p)
    (hdir : os.is_dir dir = true) (hroot : Below roots (os.canonical dir))
    (hlinks : LinksInside os roots dir) :
    os.is_dir p = true ∧ Below roots (os.canonical p) := by
  induction h with
  | refl => exact ⟨hdir, hroot⟩
  | @step p es x node hmet hread hx hd ih =>
      refine ⟨hd, ?_⟩
      have hplain : (∀ target, node.kind ≠ .symlink target) → Below roots (os.canonical (p.join x)) := by
        intro hlink
        rw [canonical_join_of_read ih.1 hread hx hlink]
        exact ih.2.join x
      cases hk : node.kind with
      | symlink target => exact hlinks p es x node target hmet hread hx hk hd
      | dir => exact hplain fun target => by simp [hk]
      | file size => exact hplain fun target => by simp [hk]

namespace Monitor

/-- The watching walk goes into directories it can meet. -/
theorem watch_recursive_met (os : Os) (mask : WatchMask) : ∀ (n : Nat) (dir : PathBuf)
    (s : InotifyState), ∃ ds, (watch_recursive os mask n dir s).entered = s.entered ++ ds ∧
      ∀ d ∈ ds, Met os dir d
  | 0, _, s => ⟨[], by simp [watch_recursive], fun d hd => by cases hd⟩
  | n + 1, dir, s => by
      rw [watch_recursive]
      split
      · exact ⟨[], by simp, fun d hd => by cases hd⟩
      · -- the entries of the directory, one after the other
        have hfold : ∀ (l : List (OsString × FsTree.Node OsString)) (s : InotifyState),
            (∀ e ∈ l, e ∈ (os.fs.read_dir dir).getD []) → ∃ ds,
              (l.foldl (fun s e => if os.is_dir (dir.join e.1) then
                watch_recursive os mask n (dir.join e.1) s else s) s).entered = s.entered ++ ds ∧
              ∀ d ∈ ds, Met os dir d := by
          intro l
          induction l with
          | nil => exact fun s _ => ⟨[], by simp, fun d hd => by cases hd⟩
          | cons e l ih =>
              intro s hl
              have hrest : ∀ e' ∈ l, e' ∈ (os.fs.read_dir dir).getD [] := fun e' he' =>
                hl e' (List.mem_cons_of_mem _ he')
              rw [List.foldl_cons]
              split
              · rename_i hdir
                obtain ⟨ds, hds, hmet⟩ := watch_recursive_met os mask n (dir.join e.1) s
                obtain ⟨ds', hds', hmet'⟩ := ih (watch_recursive os mask n (dir.join e.1) s) hrest
                have hstep : Met os dir (dir.join e.1) := by
                  have he := hl e List.mem_cons_self
                  cases hread : os.fs.read_dir dir with
                  | none => simp [hread] at he
                  | some es =>
                      rw [hread, Option.getD_some] at he
                      exact Met.refl.step hread (show (e.1, e.2) ∈ es from he) hdir
                refine ⟨ds ++ ds', by rw [hds', hds, List.append_assoc], fun d hd => ?_⟩
                rcases List.mem_append.1 hd with hd | hd
                · exact hstep.trans (hmet d hd)
                · exact hmet' d hd
              · exact ih s hrest
        obtain ⟨ds, hds, hmet⟩ := hfold _
          (add_watch os { s with entered := s.entered ++ [dir] } dir mask) fun e he => he
        have hadd : (add_watch os { s with entered := s.entered ++ [dir] } dir mask).entered =
            s.entered ++ [dir] := by
          rw [add_watch]
          split <;> rfl
        refine ⟨dir :: ds, by rw [hds, hadd, List.append_assoc, List.singleton_append], fun d hd => ?_⟩
        rcases List.mem_cons.1 hd with rfl | hd
        · exact Met.refl
        · exact hmet d hd

/-! ## A new directory -/

/-- The touch a call leaves: the directory, what the marking walk discovered, and what the watching
walk met. -/
theorem touched_enter_subdirectory (os : Os) (m : Monitor) (canonical : PathBuf) (fan_fd : Nat) :
    ∃ entered, (∀ d ∈ entered, m.inotify_state.inotify = true ∧ Met os canonical d) ∧
      (m.enter_subdirectory os canonical fan_fd).1.touched =
        m.touched ++
          [⟨(canonical :: (m.enter_subdirectory os canonical fan_fd).2 ++ entered).map os.canonical,
            m.recursive_roots os⟩] := by
  cases hinotify : m.inotify_state.inotify with
  | false =>
      refine ⟨[], fun d hd => (by cases hd), ?_⟩
      simp [enter_subdirectory, hinotify]
  | true =>
      obtain ⟨ds, hds, hmet⟩ := watch_recursive_met os (IN_CREATE ||| IN_MOVED_TO) (watch_depth os)
        canonical m.inotify_state
      refine ⟨ds, fun d hd => ⟨rfl, hmet d hd⟩, ?_⟩
      simp [enter_subdirectory, hinotify, hds]

/-- The call gets past its guards: a directory on a monitored file system, opened and marked. -/
def Enters (os : Os) (m : Monitor) (path : PathBuf) : Prop :=
  os.is_dir (os.canonical path) = true ∧ (m.group_on (os.dev_id (os.canonical path))).isSome = true ∧
    m.fanotify.factory = true ∧
      ∃ dir, os.open_dir_safe (os.canonical path) = some dir ∧ os.mark_ok dir.node.ino = true

/-- The directory lies below a recursive root, and so does every directory that a link the
watching walk meets leads to. -/
def SubdirSafe (os : Os) (m : Monitor) (path : PathBuf) : Prop :=
  m.Enters os path →
    Below (m.recursive_roots os) (os.canonical path) ∧
      (m.inotify_state.inotify = true → LinksInside os (m.recursive_roots os) (os.canonical path))

/-- The history after a call: one more touch, which is confined if the call is safe. -/
theorem confined_on_new_subdirectory {os : Os} {m : Monitor} {path : PathBuf}
    (hsafe : m.SubdirSafe os path) (h : ∀ t ∈ m.touched, t.Confined) :
    ∀ t ∈ (m.on_new_subdirectory os path).1.touched, t.Confined := by
  rcases on_new_subdirectory_cases os m path with heq | ⟨key, group, dir, k, hgroup, hopen, hfactory,
    hmark, heq⟩
  · rw [heq]
    exact h
  · have hdir := Os.is_dir_of_open hopen
    have hok : os.mark_ok dir.node.ino = true := by
      by_contra hno
      simp [Kernel.mark_directory_at, hno] at hmark
    obtain ⟨hroot, hlinks⟩ := hsafe ⟨hdir, by rw [hgroup]; rfl, hfactory, dir, hopen, hok⟩
    have hself : os.canonical (os.canonical path) = os.canonical path := os.canonical_idem path
    rw [heq]
    intro t ht
    obtain ⟨entered, hentered, ht'⟩ := touched_enter_subdirectory os { m with kernel := k }
      (os.canonical path) group.fan_fd
    rw [ht'] at ht
    rcases List.mem_append.1 ht with ht | ht
    · exact h t ht
    · rw [List.mem_singleton.1 ht]
      intro d hd
      obtain ⟨p, hp, rfl⟩ := List.mem_map.1 hd
      rcases List.mem_append.1 hp with hp | hp
      · -- the directory itself, and what the marking walk found
        have hreal : os.fs.IsReal p ∧ p.startsWith (os.canonical path) = true := by
          rcases List.mem_cons.1 hp with rfl | hp
          · exact ⟨Os.isReal_canonical hdir, PathBuf.startsWith_refl _⟩
          · exact discovered_inside (Os.isReal_canonical hdir) p hp
        rw [Os.canonical_of_isReal hreal.1]
        exact hroot.startsWith hreal.2
      · -- where the watching walk went
        obtain ⟨hinotify, hmet⟩ := hentered p hp
        exact (met_below hmet hdir (by rw [hself]; exact hroot) (hlinks hinotify)).2

theorem touched_of_still {m m' : Monitor} (h : m'.still = m.still) : m'.touched = m.touched :=
  congrArg Plan.touched h

/-! ## Batches -/

section
variable [Sizefilter]

/-- An event that reaches `on_new_subdirectory` hands it a safe path. -/
def NewDirSafe (os : Os) (m : Monitor) (raw : DecodedEvent) : Prop :=
  raw.mask &&& FAN_Q_OVERFLOW = 0 → m.is_skipped raw = false → m.is_new_subdirectory os raw = true →
    m.SubdirSafe os raw.path

theorem confined_handle_event {os : Os} {m : Monitor} {raw : DecodedEvent}
    (hsafe : m.is_skipped raw = false → m.is_new_subdirectory os raw = true → m.SubdirSafe os raw.path)
    (h : ∀ t ∈ m.touched, t.Confined) : ∀ t ∈ (handle_event os m raw).1.touched, t.Confined := by
  have hstill := still_handle_event os m raw
  split at hstill
  · rename_i hnew
    rw [touched_of_still hstill]
    exact confined_on_new_subdirectory (hsafe hnew.1 hnew.2) h
  · rw [touched_of_still hstill]
    exact h

theorem confined_process_event {os : Os} {m : Monitor} {raw : DecodedEvent}
    (hsafe : m.NewDirSafe os raw) (h : ∀ t ∈ m.touched, t.Confined) :
    ∀ t ∈ (process_event os m raw).1.touched, t.Confined := by
  rw [process_event]
  split
  · exact h
  · rename_i hover
    have hsafe := hsafe (by simpa using hover)
    -- the counter of unread records is no part of what the guard looks at
    split
    · exact confined_handle_event (m := { m with metrics := _ }) hsafe h
    · exact confined_handle_event hsafe h

/-- What a batch needs, event by event. -/
def NewDirsSafe : (Nat → Os) → Monitor → List DecodedEvent → Prop
  | _, _, [] => True
  | os, m, raw :: rest =>
      m.NewDirSafe (os 0) raw ∧ NewDirsSafe (fun i => os (i + 1)) (process_event (os 0) m raw).1 rest

theorem confined_process_events : ∀ (raws : List DecodedEvent) (os : Nat → Os) (m : Monitor),
    NewDirsSafe os m raws → (∀ t ∈ m.touched, t.Confined) →
      ∀ t ∈ (process_events os m raws).1.touched, t.Confined := by
  intro raws
  induction raws with
  | nil =>
      intro _ _ _ h
      exact h
  | cons _ rest ih =>
      intro _ _ hsafe h
      exact ih _ _ hsafe.2 (confined_process_event hsafe.1 h)

/-! ## Inotify events -/

theorem still_push_pending (path : PathBuf) (m : Monitor) (opts : PathOptions) :
    (push_pending path m opts).still = m.still := by
  rw [push_pending]
  split <;> rfl

theorem still_inotify_deleted (os : Os) (m : Monitor) (path : PathBuf) :
    (inotify_deleted os m path).still = m.still := by
  rw [inotify_deleted, still_of_plan (plan_add_temp_parent_mark ..)]
  exact (Run.frame_exec (f := still) (still_push_pending path) _ _).trans (still_try_remove ..)

/-- The state the second pass starts from: the directories that are gone have become pending. -/
def after_deleted (os : Os) (m : Monitor) (events : List InotifyEvent) : Monitor :=
  let m₁ := (events.filterMap m.deleted_path).foldl (inotify_deleted os) m
  if events.filterMap m.deleted_path = [] then m₁ else (m₁.setup_inotify_watches os).check_pending os

theorem still_after_deleted (os : Os) (m : Monitor) (events : List InotifyEvent) :
    (m.after_deleted os events).still = m.still := by
  have hdel := Run.frame_exec (f := still) (still_inotify_deleted os) (events.filterMap m.deleted_path) m
  unfold after_deleted
  simp only
  split
  · exact hdel
  · rw [still_check_pending, still_of_plan (plan_setup_inotify_watches ..)]
    exact hdel

/-- What the second pass needs, event by event. -/
def CreatedSafe (os : Os) : Monitor → List InotifyEvent → Prop
  | _, [] => True
  | m, ev :: rest =>
      (∀ dir, m.new_dir_of ev = some dir → m.SubdirSafe os dir) ∧
        CreatedSafe os (m.inotify_created os ev) rest

omit [Sizefilter] in
theorem confined_inotify_created (os : Os) : ∀ (events : List InotifyEvent) (m : Monitor),
    CreatedSafe os m events → (∀ t ∈ m.touched, t.Confined) →
      ∀ t ∈ (events.foldl (inotify_created os) m).touched, t.Confined := by
  intro events
  induction events with
  | nil =>
      intro _ _ h
      exact h
  | cons ev rest ih =>
      intro m hsafe h
      refine ih _ hsafe.2 ?_
      rw [inotify_created]
      split
      · exact h
      · rename_i dir hdir
        exact confined_on_new_subdirectory (hsafe.1 dir hdir) h

theorem handle_inotify_events_eq (os : Os) (m : Monitor) (events : List InotifyEvent) :
    m.handle_inotify_events os (some events) =
      if m.inotify_state.inotify = false then m
      else (events.foldl (inotify_created os) (m.after_deleted os events)).check_pending os := rfl

theorem confined_handle_inotify_events {os : Os} {m : Monitor} {events : Option (List InotifyEvent)}
    (hsafe : ∀ evs, events = some evs → CreatedSafe os (m.after_deleted os evs) evs)
    (h : ∀ t ∈ m.touched, t.Confined) :
    ∀ t ∈ (m.handle_inotify_events os events).touched, t.Confined := by
  cases events with
  | none =>
      rw [handle_inotify_events]
      split
      · exact h
      · rw [touched_of_still (still_check_pending os m)]
        exact h
  | some evs =>
      rw [handle_inotify_events_eq]
      split
      · exact h
      · rw [touched_of_still (still_check_pending ..)]
        refine confined_inotify_created os evs _ (hsafe evs rfl) ?_
        rw [touched_of_still (still_after_deleted os m evs)]
        exact h

/-! ## Runs -/

/-- What the daemon's loop reads: a batch of events, or inotify's. -/
inductive Feed where
  | batch (os : Nat → Os) (events : List DecodedEvent)
  | inotify (os : Os) (events : Option (List InotifyEvent))

def feed (m : Monitor) : Feed → Monitor
  | .batch os events => (m.process_event_batch os events).1
  | .inotify os events => m.handle_inotify_events os events

/-- Each call of `on_new_subdirectory` is safe in the state it starts from. -/
def FeedSafe (m : Monitor) : Feed → Prop
  | .batch os events =>
      NewDirsSafe os
        { m with metrics := m.metrics.inc_events_unresolved_rename (expand_renames events).2 }
        (expand_renames events).1
  | .inotify os events => ∀ evs, events = some evs → CreatedSafe os (m.after_deleted os evs) evs

theorem confined_feed (m : Monitor) (f : Feed) (h : ∀ t ∈ m.touched, t.Confined)
    (hsafe : m.FeedSafe f) : ∀ t ∈ (m.feed f).touched, t.Confined := by
  cases f with
  | batch os events => exact confined_process_events _ os _ hsafe h
  | inotify os events => exact confined_handle_inotify_events hsafe h

/-- **New directories stay inside** in a run of safe calls: whatever a call marked, walked, cached
or watched lies below a root that was recursive at the time. -/
theorem confined_run (m : Monitor) (feeds : List Feed) (h : ∀ t ∈ m.touched, t.Confined)
    (hsafe : Run.Guarded feed FeedSafe m feeds) :
    ∀ t ∈ (Run.exec feed m feeds).touched, t.Confined :=
  Run.inv_exec confined_feed feeds m h hsafe

end

/-- Two directories below the root; `/a/l` is a link to the second. -/
def linkTree : FsTree.Tree OsString :=
  ⟨⟨1, 1, .dir, true, true⟩, Os.root_is_dir,
    [([[0x61]], ⟨2, 1, .dir, true, true⟩), ([[0x62]], ⟨3, 1, .dir, true, true⟩),
      ([[0x61], [0x6c]], ⟨4, 1, .symlink [[0x62]], true, true⟩),
      ([[0x61], [0x64]], ⟨5, 1, .dir, true, true⟩)],
    by decide, by decide, by decide⟩

/-- `/a`, recursive. -/
def recursiveHome : PathEntry := ⟨none, [[0x61]], some true, none, none, none⟩

/-- A process creates something at `path`. -/
def createdAt (path : PathBuf) : DecodedEvent := ⟨FAN_CREATE, 7, path, none, none, 0⟩

/-- A directory is created in the root. -/
theorem confined_run_dir : ∃ m,
    @add_path noSizes (.calm linkTree) .idle recursiveHome = .ok m ∧
      ∀ t ∈ (Run.exec (@feed noSizes) m
        [.batch (fun _ => .calm linkTree) [createdAt [[0x61], [0x64]]]]).touched, t.Confined := by
  refine ⟨_, rfl, @confined_run noSizes _ _ (fun t ht => by cases ht) ⟨⟨fun _ _ _ _ => ?_, trivial⟩, trivial⟩⟩
  refine ⟨⟨[[0x61]], by decide, by decide⟩, fun _ p es x node target hmet hread hx => ?_⟩
  rw [hmet.eq_of_empty rfl, show (Os.calm linkTree).fs.read_dir _ = some [] from rfl] at hread
  cases hread
  cases hx

/-- A link to `/b` is created in `/a`, the only root. -/
theorem link_leads_out : ∃ m,
    @add_path noSizes (.calm linkTree) .idle recursiveHome = .ok m ∧
      (∀ t ∈ m.touched, t.Confined) ∧
      ¬ ∀ t ∈ (Run.exec (@feed noSizes) m
        [.batch (fun _ => .calm linkTree) [createdAt [[0x61], [0x6c]]]]).touched, t.Confined := by
  refine ⟨_, rfl, fun t ht => (by cases ht), fun h => ?_⟩
  obtain ⟨r, hr, hbelow⟩ := h ⟨[[[0x62]], [[0x62]]], [[[0x61]]]⟩ (by decide) [[0x62]] (by decide)
  rw [List.mem_singleton.1 hr] at hbelow
  exact absurd hbelow (by decide)

end Monitor

end Fsmon
