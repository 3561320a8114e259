/-
# `Fsmon.Monitor.TwoWalks` — the watching walk beside the marking walk

The two walks go over the same tree.  `mark_recursive_with_depth` leaves links
alone and goes into what it can open; `watch_recursive` goes into what is a
directory, links followed, and stops at a path that is watched already.

    `kids os p`              where the watching walk goes from `p`
    `watch_recursive_ends`   it ends, whatever links there are
    `watch_recursive_eq`     below a directory without watches it visits each path once
    `Agrees`                 both walks find the same directories
    `Plain`                  no link to a directory is met, and nothing is refused
    `walks_agree_iff`        they agree where the tree is plain
-/
import Fsmon.Lib.Dfs
import Fsmon.Monitor.Confined
import Fsmon.Monitor.Exact
import Fsmon.Monitor.Records

namespace Fsmon

namespace Os

/-- The directories that the names in `p` lead to. -/
def kids (os : Os) (p : PathBuf) : List PathBuf :=
  (((os.fs.read_dir p).getD []).map fun e => p.join e.1).filter os.is_dir

/-- There is something at `p`, and inotify takes a watch for it. -/
def watchable (os : Os) (p : PathBuf) : Bool := (os.fs.metadata p).any fun n => os.watch_ok n.ino

/-- The object at `p`, links followed. -/
def ino (os : Os) (p : PathBuf) : Nat := ((os.fs.metadata p).map (·.ino)).getD 0

variable {os : Os}

theorem mem_kids {p q : PathBuf} : q ∈ os.kids p ↔
    ∃ es x node, os.fs.read_dir p = some es ∧ (x, node) ∈ es ∧ os.is_dir (p.join x) = true ∧
      q = p.join x := by
  rw [kids, List.mem_filter, List.mem_map]
  constructor
  · rintro ⟨⟨e, he, rfl⟩, hdir⟩
    cases hread : os.fs.read_dir p with
    | none => simp [hread] at he
    | some es =>
        rw [hread, Option.getD_some] at he
        exact ⟨es, e.1, e.2, rfl, he, hdir, rfl⟩
  · rintro ⟨es, x, node, hread, hx, hdir, rfl⟩
    refine ⟨⟨(x, node), ?_, rfl⟩, hdir⟩
    rwa [hread, Option.getD_some]

theorem kids_forest : Bfs.Forest os.kids where
  nodup p := by
    have hmap := (os.fs.read_dir_nodup p).map (f := fun x => p ++ [x]) fun x y hxy => by simpa using hxy
    rw [List.map_map] at hmap
    exact hmap.filter _
  parent {p p' q} h h' := by
    obtain ⟨_, x, _, _, _, _, rfl⟩ := mem_kids.1 h
    obtain ⟨_, x', _, _, _, _, heq⟩ := mem_kids.1 h'
    exact (List.append_inj' heq rfl).1

theorem length_of_kids {p q : PathBuf} (h : q ∈ os.kids p) : q.length = p.length + 1 := by
  obtain ⟨_, x, _, _, _, _, rfl⟩ := mem_kids.1 h
  rw [PathBuf.join, List.length_append, List.length_singleton]

/-- What a walk comes to lies below where it starts. -/
theorem startsWith_of_level {p : PathBuf} : ∀ {n : Nat} {q : PathBuf},
    q ∈ Bfs.level os.kids n [p] → q.startsWith p = true := by
  intro n
  induction n with
  | zero =>
      intro q hq
      rw [List.mem_singleton.1 hq]
      exact PathBuf.startsWith_refl p
  | succ n ih =>
      intro q hq
      rw [Bfs.level_succ] at hq
      obtain ⟨r, hr, hq⟩ := List.mem_flatMap.1 hq
      obtain ⟨_, x, _, _, _, _, rfl⟩ := mem_kids.1 hq
      exact PathBuf.startsWith_join (ih hr) x

theorem startsWith_of_visits {n : Nat} {p q : PathBuf} (h : q ∈ Dfs.visits os.kids n p) :
    q.startsWith p = true := by
  obtain ⟨m, _, h⟩ := (Dfs.mem_visits n).1 h
  exact startsWith_of_level h

/-- A path has a limit to its length: what is a directory resolves. -/
theorem level_kids_eq_nil (dir : PathBuf) {n : Nat}
    (hn : (FsTree.MAX_LINKS + 1) * os.fs.nodes.length < n) : Bfs.level os.kids n [dir] = [] := by
  refine List.eq_nil_iff_forall_not_mem.2 fun q hq => ?_
  have hlength := Dfs.depth_of_level length_of_kids hq
  cases n with
  | zero => exact absurd hn (Nat.not_lt_zero _)
  | succ n =>
      rw [Bfs.level_succ] at hq
      obtain ⟨p, _, hkid⟩ := List.mem_flatMap.1 hq
      obtain ⟨_, x, _, _, _, hdir, rfl⟩ := mem_kids.1 hkid
      have hle := FsTree.Tree.length_of_canonicalize (canonical_of_is_dir hdir)
      omega

end Os

namespace Monitor

/-! ## The watching walk -/

/-- A directory is entered and watched. -/
def enter_watch (os : Os) (mask : WatchMask) (s : InotifyState) (p : PathBuf) : InotifyState :=
  add_watch os { s with entered := s.entered ++ [p] } p mask

theorem watch_recursive_succ (os : Os) (mask : WatchMask) (n : Nat) (dir : PathBuf)
    (s : InotifyState) : watch_recursive os mask (n + 1) dir s =
      if is_watched s dir then s
      else (os.kids dir).foldl (fun s c => watch_recursive os mask n c s) (enter_watch os mask s dir) := by
  rw [watch_recursive, Os.kids, List.foldl_filter, List.foldl_map]
  rfl

/-- **The watching walk ends**: no path is longer than what resolves, whatever links there are. -/
theorem watch_recursive_deep (os : Os) (mask : WatchMask) (k : Nat) : ∀ (n : Nat) (dir : PathBuf)
    (s : InotifyState), Bfs.level os.kids n [dir] = [] →
      watch_recursive os mask (n + k) dir s = watch_recursive os mask n dir s := by
  intro n
  induction n with
  | zero =>
      intro dir s h
      cases h
  | succ n ih =>
      intro dir s h
      rw [Nat.add_right_comm, watch_recursive_succ, watch_recursive_succ]
      split
      · rfl
      · exact List.foldl_ext _ _ _ fun s c hc => ih c s (Bfs.level_next_eq_nil h hc)

theorem watch_recursive_ends (os : Os) (mask : WatchMask) (dir : PathBuf) (s : InotifyState)
    (k : Nat) : watch_recursive os mask (watch_depth os + k) dir s =
      watch_recursive os mask (watch_depth os) dir s := by
  refine watch_recursive_deep os mask k _ dir s (Os.level_kids_eq_nil dir ?_)
  rw [watch_depth, Nat.mul_succ]
  omega

theorem enter_watch_watches (os : Os) (mask : WatchMask) (s : InotifyState) (p : PathBuf) :
    (enter_watch os mask s p).watches =
      s.watches ++ if os.watchable p then [(p, os.ino p)] else [] := by
  rw [enter_watch, add_watch, Os.watchable, Os.ino]
  cases os.fs.metadata p with
  | none => simp
  | some node =>
      rw [Option.filter_some, Option.any_some, Option.map_some, Option.getD_some]
      cases os.watch_ok node.ino with
      | true => rfl
      | false => exact (List.append_nil _).symm

theorem enter_watch_entered (os : Os) (mask : WatchMask) (s : InotifyState) (p : PathBuf) :
    (enter_watch os mask s p).entered = s.entered ++ [p] := by
  rw [enter_watch, add_watch]
  split <;> rfl

/-- Entering a list of directories. -/
theorem watches_foldl (os : Os) (mask : WatchMask) (ps : List PathBuf) : ∀ s : InotifyState,
    (ps.foldl (enter_watch os mask) s).watches =
        s.watches ++ (ps.filter os.watchable).map fun p => (p, os.ino p) := by
  induction ps with
  | nil =>
      intro s
      exact (List.append_nil _).symm
  | cons p ps ih =>
      intro s
      rw [List.foldl_cons, ih, enter_watch_watches, List.append_assoc]
      cases hp : os.watchable p with
      | true => rw [List.filter_cons_of_pos hp]; rfl
      | false => rw [List.filter_cons_of_neg (by simp [hp])]; rfl

theorem entered_foldl (os : Os) (mask : WatchMask) (ps : List PathBuf) : ∀ s : InotifyState,
    (ps.foldl (enter_watch os mask) s).entered = s.entered ++ ps := by
  induction ps with
  | nil =>
      intro s
      exact (List.append_nil _).symm
  | cons p ps ih =>
      intro s
      rw [List.foldl_cons, ih, enter_watch_entered, List.append_assoc, List.singleton_append]

/-- No watch at or below `dir`. -/
def Unwatched (s : InotifyState) (dir : PathBuf) : Prop :=
  ∀ w ∈ s.watches, w.1.startsWith dir = false

theorem Unwatched.is_watched {s : InotifyState} {dir : PathBuf} (h : Unwatched s dir) :
    is_watched s dir = false := by
  rw [Monitor.is_watched, List.any_eq_false]
  intro w hw heq
  rw [decide_eq_true_eq] at heq
  have hfree := h w hw
  rw [heq, PathBuf.startsWith_refl] at hfree
  cases hfree

/-- Paths that are elsewhere leave a directory unwatched. -/
theorem Unwatched.foldl {os : Os} {mask : WatchMask} {s : InotifyState} {dir : PathBuf}
    {ps : List PathBuf} (h : Unwatched s dir) (hps : ∀ p ∈ ps, p.startsWith dir = false) :
    Unwatched (ps.foldl (enter_watch os mask) s) dir := by
  intro w hw
  rw [watches_foldl] at hw
  rcases List.mem_append.1 hw with hw | hw
  · exact h w hw
  · obtain ⟨p, hp, rfl⟩ := List.mem_map.1 hw
    exact hps p (List.mem_of_mem_filter hp)

/-- Of two paths of one length, one is below the other if they are the same. -/
theorem eq_of_below {p q r : PathBuf} (hp : r.startsWith p = true) (hq : r.startsWith q = true)
    (hlength : p.length = q.length) : p = q := by
  rw [PathBuf.startsWith_iff] at hp hq
  exact (List.prefix_of_prefix_length_le hp hq (Nat.le_of_eq hlength)).eq_of_length hlength

/-- **Below a directory without watches the walk enters each directory it comes to**, in its order. -/
theorem watch_recursive_eq (os : Os) (mask : WatchMask) : ∀ (n : Nat) (dir : PathBuf)
    (s : InotifyState), Unwatched s dir → watch_recursive os mask n dir s =
      (Dfs.visits os.kids n dir).foldl (enter_watch os mask) s := by
  intro n
  induction n with
  | zero =>
      intro dir s _
      rfl
  | succ n ih =>
      intro dir s h
      rw [watch_recursive_succ, h.is_watched, if_neg Bool.false_ne_true, Dfs.visits, List.foldl_cons]
      -- the children, each of which is unwatched when its turn comes
      have hkids : ∀ (cs : List PathBuf) (s : InotifyState), cs.Nodup →
          (∀ c ∈ cs, c.length = dir.length + 1) → (∀ c ∈ cs, Unwatched s c) →
            cs.foldl (fun s c => watch_recursive os mask n c s) s =
              (cs.flatMap (Dfs.visits os.kids n)).foldl (enter_watch os mask) s := by
        intro cs
        induction cs with
        | nil =>
            intro s _ _ _
            rfl
        | cons c cs ihcs =>
            intro s hnodup hlength hfree
            rw [List.nodup_cons] at hnodup
            rw [List.foldl_cons, ih c s (hfree c List.mem_cons_self), List.flatMap_cons,
              List.foldl_append]
            refine ihcs _ hnodup.2 (fun c' hc' => hlength c' (List.mem_cons_of_mem c hc')) ?_
            intro c' hc'
            refine (hfree c' (List.mem_cons_of_mem c hc')).foldl fun p hp => ?_
            rw [← Bool.not_eq_true]
            intro hbelow
            have heq := eq_of_below (Os.startsWith_of_visits hp) hbelow
              ((hlength c List.mem_cons_self).trans (hlength c' (List.mem_cons_of_mem c hc')).symm)
            exact hnodup.1 (heq ▸ hc')
      refine hkids _ _ (Os.kids_forest.nodup dir) (fun c hc => Os.length_of_kids hc) ?_
      intro c hc
      have hbelow : c.startsWith dir = true :=
        Os.startsWith_of_level (n := 1) (Bfs.mem_level_cons.2 ⟨c, hc, List.mem_singleton_self c⟩)
      have hlength := Os.length_of_kids hc
      have hstart : Unwatched ([dir].foldl (enter_watch os mask) s) c := by
        refine Unwatched.foldl (fun w hw => ?_) fun p hp => ?_
        · rw [← Bool.not_eq_true]
          intro hw'
          have hfree := h w hw
          rw [PathBuf.startsWith_trans hw' hbelow] at hfree
          cases hfree
        · rw [List.mem_singleton.1 hp, ← Bool.not_eq_true, PathBuf.startsWith_iff]
          intro hprefix
          have hle := hprefix.length_le
          omega
      exact hstart

/-! ## Both walks -/

/-- A directory of the tree: where the walks start, or what the marking walk finds. -/
def InTree (os : Os) (dir p : PathBuf) : Prop := p = dir ∨ ∃ n, Walk.Found os dir n p

/-- A tree that both walks see alike. -/
structure Plain (os : Os) (dir : PathBuf) : Prop where
  /-- inotify takes a watch for each directory. -/
  watchable : ∀ p, InTree os dir p → os.watchable p = true
  /-- A directory with a name that leads to a directory can be opened, and so can be what the name
  stands for: it is no link. -/
  opened : ∀ p c, InTree os dir p → c ∈ os.kids p →
    (os.open_dir_safe p).isSome = true ∧ (os.open_dir_safe c).isSome = true

/-- The watching walk from `dir` has added a watch for `dir` and each directory that has been
discovered, one for a physical directory, and it has been to each of them once. -/
structure Agrees (os : Os) (mask : WatchMask) (dir : PathBuf) (s : InotifyState)
    (discovered : List PathBuf) : Prop where
  kept : s.watches <+: (watch_recursive os mask (watch_depth os) dir s).watches
  watched : (((watch_recursive os mask (watch_depth os) dir s).watches.drop
    s.watches.length).map (·.1)).Perm (dir :: discovered)
  physical : (((watch_recursive os mask (watch_depth os) dir s).watches.drop
    s.watches.length).map (·.2)).Nodup
  visited : ((watch_recursive os mask (watch_depth os) dir s).entered.drop
    s.entered.length).Perm (dir :: discovered)
  ends : ∀ k, watch_recursive os mask (watch_depth os + k) dir s =
    watch_recursive os mask (watch_depth os) dir s

section
variable {os : Os} {dir : PathBuf}

theorem found_zero {n : Nat} {p : PathBuf} (h : Walk.Found os dir n p) (hn : n = 0) : p = dir := by
  cases h with
  | root => rfl
  | step => cases hn

theorem found_opened {n : Nat} {p : PathBuf} (h : Walk.Found os dir n p) :
    (os.open_dir_safe p).isSome = true := by
  cases h with
  | root hopen => exact hopen
  | step _ _ _ _ hopen => exact hopen

theorem reaches_of_found {n : Nat} {p : PathBuf} (h : Walk.Found os dir n p) :
    Bfs.Reaches (Walk.next os none) (dir, 0) (p, n) := by
  induction h with
  | root => exact .refl
  | step hp hread hx hdir _ ih =>
      exact .tail ih (Walk.mem_next_iff.2
        ⟨rfl, found_opened hp, Walk.mem_subdirs_iff.2 ⟨_, _, _, hread, hx, hdir, rfl⟩, rfl⟩)

/-- The watching walk comes to what the marking walk finds. -/
theorem level_of_found {n : Nat} {p : PathBuf} (h : Walk.Found os dir n p) :
    p ∈ Bfs.level os.kids n [dir] := by
  induction h with
  | root => exact List.mem_singleton_self dir
  | step _ hread hx _ hopen ih =>
      obtain ⟨d, hd⟩ := Option.isSome_iff_exists.1 hopen
      rw [Bfs.level_succ]
      exact List.mem_flatMap.2 ⟨_, ih, Os.mem_kids.2 ⟨_, _, _, hread, hx, Os.is_dir_of_open hd, rfl⟩⟩

theorem visits_of_level {n : Nat} {p : PathBuf} (h : p ∈ Bfs.level os.kids n [dir]) :
    p ∈ Dfs.visits os.kids (watch_depth os) dir := by
  refine (Dfs.mem_visits _).2 ⟨n, ?_, h⟩
  by_contra hdeep
  rw [Os.level_kids_eq_nil dir (n := n)] at h
  · cases h
  · rw [watch_depth, Nat.mul_succ] at hdeep
    omega

/-- What is opened below a directory is what its name stands for. -/
theorem kind_of_open {p : PathBuf} {es : List (OsString × FsTree.Node OsString)} {x : OsString}
    {node : FsTree.Node OsString} (hread : os.fs.read_dir p = some es) (hx : (x, node) ∈ es)
    (hopen : (os.open_dir_safe (p.join x)).isSome = true) : node.kind = .dir := by
  obtain ⟨d, hd⟩ := Option.isSome_iff_exists.1 hopen
  obtain ⟨hstat, hkind, _⟩ := FsTree.Tree.open_dir_eq (os.open_dir_safe_eq hd).2.1
  obtain ⟨c, hc, hes⟩ := Option.bind_eq_some_iff.1 hread
  obtain ⟨parent, _, hes⟩ := Option.bind_eq_some_iff.1 hes
  rw [Option.ite_none_right_eq_some, Option.some.injEq] at hes
  have hnode := FsTree.Tree.mem_children (hes.2 ▸ hx)
  rw [FsTree.Tree.lstat, PathBuf.join, List.getLast?_concat, List.dropLast_concat, hc] at hstat
  simp only [Option.bind_some, hnode, Option.some.injEq] at hstat
  rw [hstat]
  exact hkind

/-- In a plain tree the marking walk finds what the watching walk comes to. -/
theorem Plain.found (h : Plain os dir) : ∀ {n : Nat} {p : PathBuf},
    p ∈ Bfs.level os.kids n [dir] → InTree os dir p := by
  intro n
  induction n with
  | zero =>
      intro p hp
      exact .inl (List.mem_singleton.1 hp)
  | succ n ih =>
      intro c hc
      rw [Bfs.level_succ] at hc
      obtain ⟨p, hp, hkid⟩ := List.mem_flatMap.1 hc
      obtain ⟨hparent, hopen⟩ := h.opened p c (ih hp) hkid
      obtain ⟨es, x, node, hread, hx, _, rfl⟩ := Os.mem_kids.1 hkid
      have hfound : ∃ m, Walk.Found os dir m p := by
        rcases ih hp with rfl | hfound
        · exact ⟨0, .root hparent⟩
        · exact hfound
      obtain ⟨m, hfound⟩ := hfound
      exact .inr ⟨m + 1, .step hfound hread hx (kind_of_open hread hx hopen) hopen⟩

/-- Two paths of the tree are two directories. -/
theorem ino_inj (hdir : os.is_dir dir = true) {p q : PathBuf} (hp : InTree os dir p)
    (hq : InTree os dir q) (h : os.ino p = os.ino q) : p = q := by
  have hc := Os.canonical_of_is_dir hdir
  rw [Os.is_dir, FsTree.Tree.is_dir, FsTree.Tree.metadata, hc, Option.bind_some, Option.any_eq_true]
    at hdir
  obtain ⟨n, hn, hkind⟩ := hdir
  rw [decide_eq_true_eq] at hkind
  have hplace : ∀ {r : PathBuf}, InTree os dir r → ∃ s node, r = dir ++ s ∧ os.ino r = node.ino ∧
      os.fs.lookup (os.canonical dir ++ s) = some node ∧ node.kind = .dir := by
    intro r hr
    have hreach : ∃ m, Bfs.Reaches (Walk.next os none) (dir, 0) (r, m) := by
      rcases hr with rfl | ⟨m, hfound⟩
      · exact ⟨0, .refl⟩
      · exact ⟨m, reaches_of_found hfound⟩
    obtain ⟨m, hreach⟩ := hreach
    obtain ⟨s, heq, hcanonical, node, hnode, hdir⟩ := Walk.reaches_physical hc hn hkind hreach
    refine ⟨s, node, congrArg Prod.fst heq, ?_, hnode, hdir⟩
    rw [Os.ino, FsTree.Tree.metadata, hcanonical, Option.bind_some, hnode]
    rfl
  obtain ⟨s, node, rfl, hino, hnode, hdirp⟩ := hplace hp
  obtain ⟨s', node', rfl, hino', hnode', hdirq⟩ := hplace hq
  have hplaces := FsTree.Tree.dir_unique hnode hnode' hdirp hdirq (hino.symm.trans (h.trans hino'))
  rw [List.append_cancel_left hplaces]

/-- What the marking walk discovers, and where it starts. -/
theorem mem_discovered {k : Kernel} {cache : DirCache} {fan_fd : Nat} {mask : Mask} {caching : Bool}
    {p : PathBuf} :
    p ∈ dir :: (mark_recursive_with_depth os k cache fan_fd mask dir none caching).discovered ↔
      InTree os dir p := by
  rw [List.mem_cons, (mark_recursive_exact os k cache fan_fd mask dir none caching).mem]
  constructor
  · rintro (rfl | ⟨n, _, _, hfound⟩)
    · exact .inl rfl
    · exact .inr ⟨n, hfound⟩
  · rintro (rfl | ⟨n, hfound⟩)
    · exact .inl rfl
    · cases n with
      | zero => exact .inl (found_zero hfound rfl)
      | succ n => exact .inr ⟨n + 1, Nat.succ_pos n, fun d hd => (by cases hd), hfound⟩

theorem nodup_discovered (k : Kernel) (cache : DirCache) (fan_fd : Nat) (mask : Mask)
    (caching : Bool) :
    (dir :: (mark_recursive_with_depth os k cache fan_fd mask dir none caching).discovered).Nodup := by
  have hexact := mark_recursive_exact os k cache fan_fd mask dir none caching
  refine List.nodup_cons.2 ⟨fun hmem => ?_, hexact.once⟩
  obtain ⟨n, hone, _, hfound⟩ := (hexact.mem dir).1 hmem
  have hlength : dir.length = dir.length + n := Walk.length_of_reaches (reaches_of_found hfound)
  omega

/-- The walk in full, from a directory without watches. -/
theorem agrees_iff_visits {mask : WatchMask} {s : InotifyState} {discovered : List PathBuf}
    (h : Unwatched s dir) : Agrees os mask dir s discovered ↔
      ((Dfs.visits os.kids (watch_depth os) dir).filter os.watchable).Perm (dir :: discovered) ∧
        (((Dfs.visits os.kids (watch_depth os) dir).filter os.watchable).map os.ino).Nodup ∧
          (Dfs.visits os.kids (watch_depth os) dir).Perm (dir :: discovered) := by
  have heq := watch_recursive_eq os mask (watch_depth os) dir s h
  have hwatches : (watch_recursive os mask (watch_depth os) dir s).watches = s.watches ++
      ((Dfs.visits os.kids (watch_depth os) dir).filter os.watchable).map fun p => (p, os.ino p) := by
    rw [heq, watches_foldl]
  have hpaths : (((Dfs.visits os.kids (watch_depth os) dir).filter os.watchable).map fun p =>
      (p, os.ino p)).map (·.1) = (Dfs.visits os.kids (watch_depth os) dir).filter os.watchable := by
    rw [List.map_map]
    exact List.map_id _
  have hentered : (watch_recursive os mask (watch_depth os) dir s).entered =
      s.entered ++ Dfs.visits os.kids (watch_depth os) dir := by
    rw [heq, entered_foldl]
  constructor
  · rintro ⟨_, hwatched, hphysical, hvisited, _⟩
    rw [hwatches, List.drop_left, hpaths] at hwatched
    rw [hwatches, List.drop_left, List.map_map] at hphysical
    rw [hentered, List.drop_left] at hvisited
    exact ⟨hwatched, hphysical, hvisited⟩
  · rintro ⟨hwatched, hphysical, hvisited⟩
    exact {
      kept := hwatches ▸ List.prefix_append ..
      watched := by
        rw [hwatches, List.drop_left, hpaths]
        exact hwatched
      physical := by
        rw [hwatches, List.drop_left, List.map_map]
        exact hphysical
      visited := by
        rw [hentered, List.drop_left]
        exact hvisited
      ends := watch_recursive_ends os mask dir s }

/-- From a directory without watches the walks agree in a plain tree, and only there. -/
theorem agrees_iff_plain {mask : WatchMask} {s : InotifyState} (hdir : os.is_dir dir = true)
    (h : Unwatched s dir) (k : Kernel) (cache : DirCache) (fan_fd : Nat) (mark : Mask) (caching : Bool) :
    Agrees os mask dir s
        (mark_recursive_with_depth os k cache fan_fd mark dir none caching).discovered ↔
      Plain os dir := by
  rw [agrees_iff_visits h]
  constructor
  · rintro ⟨hwatched, _, hvisited⟩
    refine ⟨fun p hp => ?_, fun p c hp hkid => ?_⟩
    · exact (List.mem_filter.1 (hwatched.mem_iff.2 (mem_discovered.2 hp))).2
    · obtain ⟨n, _, hlevel⟩ := (Dfs.mem_visits _).1 (hvisited.mem_iff.2 (mem_discovered.2 hp))
      have hbelow : c ∈ Bfs.level os.kids (n + 1) [dir] := by
        rw [Bfs.level_succ]
        exact List.mem_flatMap.2 ⟨p, hlevel, hkid⟩
      -- the watching walk goes on to `c`, which must have been found as a child of `p`
      rcases mem_discovered.1 (hvisited.mem_iff.1 (visits_of_level hbelow)) with rfl | ⟨m, hfound⟩
      · have hdeeper := Dfs.depth_of_level Os.length_of_kids hbelow
        omega
      · obtain ⟨_, _, _, _, _, _, hjoin⟩ := Os.mem_kids.1 hkid
        refine ⟨?_, found_opened hfound⟩
        cases hfound with
        | root =>
            have hdeeper := Dfs.depth_of_level Os.length_of_kids hbelow
            omega
        | step hparent _ _ _ _ =>
            rw [← (List.append_inj' hjoin rfl).1]
            exact found_opened hparent
  · intro hplain
    have hmem : ∀ p, p ∈ Dfs.visits os.kids (watch_depth os) dir ↔ InTree os dir p := by
      intro p
      constructor
      · intro hp
        obtain ⟨n, _, hlevel⟩ := (Dfs.mem_visits _).1 hp
        exact hplain.found hlevel
      · rintro (rfl | ⟨n, hfound⟩)
        · exact visits_of_level (n := 0) (List.mem_singleton_self p)
        · exact visits_of_level (level_of_found hfound)
    have hnodup : (Dfs.visits os.kids (watch_depth os) dir).Nodup :=
      Dfs.nodup_visits Os.kids_forest Os.length_of_kids (watch_depth os) dir
    have hperm := (List.perm_ext_iff_of_nodup hnodup (nodup_discovered k cache fan_fd mark caching)).2
      fun p => (hmem p).trans mem_discovered.symm
    have hall : (Dfs.visits os.kids (watch_depth os) dir).filter os.watchable =
        Dfs.visits os.kids (watch_depth os) dir :=
      List.filter_eq_self.2 fun p hp => hplain.watchable p ((hmem p).1 hp)
    rw [hall]
    refine ⟨hperm, hnodup.map_on fun p hp q hq => ?_, hperm⟩
    exact ino_inj hdir ((hmem p).1 hp) ((hmem q).1 hq)

end

/-- **Where the walks agree**: started on a directory that has no watch below it, the watching walk
adds its watches for what the marking walk discovers if the directory is not watched itself and
the tree is plain, and not otherwise. -/
theorem walks_agree_iff {os : Os} {mask : WatchMask} {dir : PathBuf} {s : InotifyState}
    (hdir : os.is_dir dir = true) (hbelow : ∀ w ∈ s.watches, w.1.startsWith dir = true → w.1 = dir)
    (k : Kernel) (cache : DirCache) (fan_fd : Nat) (mark : Mask) (caching : Bool) :
    Agrees os mask dir s
        (mark_recursive_with_depth os k cache fan_fd mark dir none caching).discovered ↔
      is_watched s dir = false ∧ Plain os dir := by
  cases hwatched : is_watched s dir with
  | true =>
      -- the walk does not even enter
      have hnothing : watch_recursive os mask (watch_depth os) dir s = s := by
        rw [watch_depth, watch_recursive_succ, hwatched, if_pos rfl]
      refine ⟨fun h => ?_, fun h => by cases h.1⟩
      have hvisited := h.visited
      rw [hnothing, List.drop_length] at hvisited
      cases hvisited.nil_eq
  | false =>
      have hfree : Unwatched s dir := by
        intro w hw
        rw [← Bool.not_eq_true]
        intro hw'
        rw [is_watched, List.any_eq_false] at hwatched
        exact hwatched w hw (decide_eq_true (hbelow w hw hw'))
      rw [agrees_iff_plain hdir hfree]
      exact (and_iff_right rfl).symm

/-- Below `/a` there are a directory and, in it, a file. -/
theorem walks_agree_deep : Agrees (.calm deepTree) IN_CREATE [[0x61]] Monitor.idle.inotify_state
    (mark_recursive_with_depth (.calm deepTree) Monitor.idle.kernel ∅ 3 FAN_CREATE [[0x61]] none
      false).discovered := by
  refine (walks_agree_iff rfl (fun w hw => by cases hw) Monitor.idle.kernel ∅ 3 FAN_CREATE
    false).2 ⟨rfl, ?_⟩
  have htree : ∀ p, InTree (.calm deepTree) [[0x61]] p → p = [[0x61]] ∨ p = [[0x61], [0x62]] := by
    intro p hp
    have hmem : p ∈ [[[0x61]], [[0x61], [0x62]]] :=
      (@mem_discovered (.calm deepTree) [[0x61]] Monitor.idle.kernel ∅ 3 FAN_CREATE false p).2 hp
    simpa using hmem
  refine ⟨fun p hp => ?_, fun p c hp hc => ?_⟩
  · rcases htree p hp with rfl | rfl <;> rfl
  · rcases htree p hp with rfl | rfl
    · have hkids : c ∈ [[[0x61], [0x62]]] := hc
      rw [List.mem_singleton.1 hkids]
      exact ⟨rfl, rfl⟩
    · have hkids : c ∈ [] := hc
      cases hkids

/-- The link `/a/l` leads to `/b`: the watching walk from the root takes it for a directory of its
own, which the marking walk does not discover, and watches `/b` twice. -/
theorem link_watched_twice :
    (Os.calm linkTree).is_dir [] = true ∧ is_watched Monitor.idle.inotify_state [] = false ∧
      ¬ Agrees (.calm linkTree) IN_CREATE [] Monitor.idle.inotify_state
        (mark_recursive_with_depth (.calm linkTree) Monitor.idle.kernel ∅ 3 FAN_CREATE [] none
          false).discovered := by
  refine ⟨rfl, rfl, fun h => ?_⟩
  have hinodes : (((watch_recursive (.calm linkTree) IN_CREATE (watch_depth (.calm linkTree)) []
      Monitor.idle.inotify_state).watches.drop 0).map (·.2)) = [1, 2, 3, 5, 3] := rfl
  have honce := h.physical
  rw [show Monitor.idle.inotify_state.watches.length = 0 from rfl, hinodes] at honce
  exact absurd honce (by decide)

end Monitor

end Fsmon
