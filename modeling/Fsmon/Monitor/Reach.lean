/-
# `Fsmon.Monitor.Reach` — the marking walk marks every directory it should

The loop of `mark_recursive_with_depth` is a queue walk over the directories below
its root (`Walk.next`): the same turns, with marks on the side.  The directories of a
tree form a forest, so the turns the loop is given are enough, and where every
directory can be opened and read (`Os.Willing`) the walk comes to each that is not
too deep.

    `Walk.run_sends`        what is visited is marked, or about to be
    `Walk.next_forest`      a directory is queued by its parent only
    `mark_recursive_all`    every directory below, up to the depth, is marked
-/
import Fsmon.Monitor.Marks
import Fsmon.Lib.Bfs

namespace Fsmon

/-! ## The way to a directory -/

/-- The directories on the way from `dir` to `dir ++ s`, the last one left out, can be opened and
read. -/
def Os.Through (os : Os) (dir : PathBuf) (s : List OsString) : Prop :=
  ∀ i < s.length, ∃ n, os.fs.lookup (dir ++ s.take i) = some n ∧ n.kind = .dir ∧
    n.openable = true ∧ n.readable = true

theorem Os.through_snoc {os : Os} {dir : PathBuf} {s : List OsString} {x : OsString} :
    os.Through dir (s ++ [x]) ↔ os.Through dir s ∧ ∃ n, os.fs.lookup (dir ++ s) = some n ∧
      n.kind = .dir ∧ n.openable = true ∧ n.readable = true := by
  constructor
  · intro h
    refine ⟨fun i hi => ?_, ?_⟩
    · have hway := h i (by rw [List.length_append]; omega)
      rwa [List.take_append_of_le_length (Nat.le_of_lt hi)] at hway
    · have hway := h s.length (by rw [List.length_append, List.length_singleton]; omega)
      rwa [List.take_left] at hway
  · rintro ⟨h, hlast⟩ i hi
    rw [List.length_append, List.length_singleton] at hi
    rcases Nat.lt_succ_iff_lt_or_eq.1 hi with hlt | rfl
    · rw [List.take_append_of_le_length (Nat.le_of_lt hlt)]
      exact h i hlt
    · rw [List.take_left]
      exact hlast

/-- Where every call succeeds, there is a way to every object. -/
theorem Os.Willing.through {os : Os} (hw : os.Willing) {dir : PathBuf} {s : List OsString} :
    ∀ {node : FsTree.Node OsString}, os.fs.lookup (dir ++ s) = some node → os.Through dir s := by
  induction s using List.reverseRecOn with
  | nil => exact fun _ i hi => absurd hi (Nat.not_lt_zero i)
  | append_singleton s x ih =>
      intro node hnode
      rw [← List.append_assoc] at hnode
      obtain ⟨parent, hparent, hdir⟩ := FsTree.Tree.lookup_parent hnode
      exact Os.through_snoc.2 ⟨ih hparent, parent, hparent, hdir, hw.dirs _ _ hparent hdir⟩

namespace Walk

section
variable (os : Os) (max_depth : Option Nat)

/-- What a turn queues. -/
def next (e : PathBuf × Nat) : List (PathBuf × Nat) :=
  if max_depth.any (· < e.2) then []
  else
    match os.open_dir_safe e.1 with
    | none => []
    | some _ => (subdirs os e.1).map fun p => (p, e.2 + 1)

end

section
variable {os : Os} {fan_fd : Nat} {mask : Mask} {max_depth : Option Nat} {caching : Bool}

/-! ## The turns -/

theorem visit_queue (w : Walk) (current : PathBuf) (depth : Nat) :
    (visit os fan_fd mask max_depth caching current depth w).queue =
      w.queue ++ next os max_depth (current, depth) := by
  have hlevel : (w.level os fan_fd mask depth).queue = w.queue := by
    rw [level]
    split <;> rfl
  rw [visit, next]
  generalize w.level os fan_fd mask depth = w₁ at hlevel
  simp only
  split
  · rw [hlevel, List.append_nil]
  · cases os.open_dir_safe current with
    | none =>
        show w₁.queue = w.queue ++ []
        rw [hlevel, List.append_nil]
    | some dir =>
        have henter : (w₁.enter os fan_fd mask caching current depth dir).queue = w₁.queue := by
          have hseed : (w₁.seed os caching current dir).queue = w₁.queue := by
            rw [seed]
            split <;> rfl
          rw [enter]
          split
          · exact hseed
          · rw [collect]
            simp only
            split <;> exact hseed
        show (w₁.enter os fan_fd mask caching current depth dir).queue ++ _ = _
        rw [henter, hlevel]

/-! ## Marks that are sent -/

/-- The directory has been marked, or is waiting to be. -/
def Sent (fan_fd : Nat) (mask : Mask) (dir : DirFd) (w : Walk) : Prop :=
  w.kernel.Carries fan_fd dir.node.ino (mask &&& ~~~FAN_FS_ERROR) ∨ dir ∈ w.pending

theorem sent_flush {dir : DirFd} (hmark : os.mark_ok dir.node.ino = true) (w : Walk)
    (h : Sent fan_fd mask dir w) :
    (w.flush_pending_marks os fan_fd mask).kernel.Carries fan_fd dir.node.ino
      (mask &&& ~~~FAN_FS_ERROR) := by
  rcases h with hmarked | hpending
  · exact (Kernel.adds_mark os w.kernel fan_fd w.pending mask).carries hmarked
  · exact Kernel.mark_carries w.kernel hpending hmark

theorem sent_collect {dir d : DirFd} (hmark : os.mark_ok dir.node.ino = true) {current : PathBuf}
    (w : Walk) (h : Sent fan_fd mask dir w ∨ dir = d) :
    Sent fan_fd mask dir (w.collect os fan_fd mask current d) := by
  refine collect_inv (P := Sent fan_fd mask dir) (fun w hw => .inl (sent_flush hmark w hw)) ?_
  rcases h with (hmarked | hpending) | rfl
  · exact .inl hmarked
  · exact .inr (List.mem_append_left _ hpending)
  · exact .inr (List.mem_append_right _ (List.mem_singleton_self _))

theorem sent_seed {dir d : DirFd} {current : PathBuf} (w : Walk) (h : Sent fan_fd mask dir w) :
    Sent fan_fd mask dir (w.seed os caching current d) := by
  rw [seed]
  split <;> exact h

/-- What is sent stays sent. -/
theorem sent_visit {dir : DirFd} (hmark : os.mark_ok dir.node.ino = true) (w : Walk)
    (current : PathBuf) (depth : Nat) (h : Sent fan_fd mask dir w) :
    Sent fan_fd mask dir (visit os fan_fd mask max_depth caching current depth w) := by
  refine visit_inv (P := Sent fan_fd mask dir) (fun _ _ _ hw => hw)
    (fun w hw => .inl (sent_flush hmark w hw)) ?_ w current depth h
  intro w current depth d _ hw
  rw [enter]
  split
  · exact sent_seed w hw
  · exact sent_collect hmark _ (.inl (sent_seed w hw))

/-- A turn sends the directory it opens. -/
theorem visit_sends {dir : DirFd} (hmark : os.mark_ok dir.node.ino = true) (w : Walk)
    {current : PathBuf} {depth : Nat} (hdepth : depth ≠ 0) (hmax : ∀ k, max_depth = some k → depth ≤ k)
    (hopen : os.open_dir_safe current = some dir) :
    Sent fan_fd mask dir (visit os fan_fd mask max_depth caching current depth w) := by
  have hshallow : max_depth.any (· < depth) = false := by
    cases max_depth with
    | none => rfl
    | some k => simpa using hmax k rfl
  rw [visit]
  simp only [hshallow, hopen, Bool.false_eq_true, if_false]
  rw [enter, if_neg hdepth]
  exact sent_collect hmark _ (.inr rfl)

/-- **What is visited is sent.** -/
theorem run_sends (n : Nat) (w : Walk) :
    ∀ e ∈ Bfs.visits (next os max_depth) n w.queue, e.2 ≠ 0 →
      (∀ k, max_depth = some k → e.2 ≤ k) → ∀ dir, os.open_dir_safe e.1 = some dir →
        os.mark_ok dir.node.ino = true →
        Sent fan_fd mask dir (run os fan_fd mask max_depth caching n w) := by
  induction n generalizing w with
  | zero =>
      intro e he
      cases he
  | succ n ih =>
      intro e he hdepth hmax dir hopen hmark
      rw [run]
      cases hqueue : w.queue with
      | nil =>
          rw [hqueue] at he
          cases he
      | cons f rest =>
          rw [hqueue] at he
          have hturn := @visit_queue os fan_fd mask max_depth caching { w with queue := rest } f.1 f.2
          rcases List.mem_cons.1 he with rfl | he
          · refine run_inv (P := Sent fan_fd mask dir) ?_ n _ (visit_sends hmark _ hdepth hmax hopen)
            intro w current depth rest hw _
            exact sent_visit hmark _ current depth hw
          · refine ih _ e ?_ hdepth hmax dir hopen hmark
            rw [hturn]
            exact he

end

/-! ## The forest -/

section
variable {os : Os} {max_depth : Option Nat}

theorem mem_next {e f : PathBuf × Nat} (h : f ∈ next os max_depth e) :
    ∃ p ∈ subdirs os e.1, f = (p, e.2 + 1) := by
  rw [next] at h
  split at h
  · cases h
  · split at h
    · cases h
    · obtain ⟨p, hp, rfl⟩ := List.mem_map.1 h
      exact ⟨p, hp, rfl⟩

theorem mem_subdirs {current p : PathBuf} (h : p ∈ subdirs os current) :
    ∃ es x node, os.fs.read_dir current = some es ∧ (x, node) ∈ es ∧ node.kind = .dir ∧
      p = current ++ [x] := by
  obtain ⟨⟨x, node⟩, he, hx⟩ := List.mem_filterMap.1 h
  simp only [Option.ite_none_right_eq_some, Option.some.injEq] at hx
  obtain ⟨hdir, rfl⟩ := hx
  cases hread : os.fs.read_dir current with
  | none => simp [hread] at he
  | some es =>
      rw [hread, Option.getD_some] at he
      exact ⟨es, x, node, rfl, he, hdir, rfl⟩

theorem subdirs_nodup (current : PathBuf) : (subdirs os current).Nodup := by
  have hjoined : (((os.fs.read_dir current).getD []).map fun e => current ++ [e.1]).Nodup := by
    have hmap := (os.fs.read_dir_nodup current).map (f := fun x => current ++ [x]) fun x y hxy => by simpa using hxy
    rwa [List.map_map] at hmap
  have hsub : ∀ es : List (OsString × FsTree.Node OsString),
      (es.filterMap fun e => if e.2.kind = .dir then some (PathBuf.join current e.1) else none).Sublist
        (es.map fun e => current ++ [e.1]) := by
    intro es
    induction es with
    | nil => exact .slnil
    | cons e es ih =>
        rw [List.filterMap_cons, List.map_cons]
        by_cases hdir : e.2.kind = .dir
        · rw [if_pos hdir]
          exact ih.cons_cons _
        · rw [if_neg hdir]
          exact ih.cons _
  exact (hsub _).nodup hjoined

/-- A directory is queued by its parent only, and once. -/
theorem next_forest : Bfs.Forest (next os max_depth) where
  nodup e := by
    rw [next]
    split
    · exact List.nodup_nil
    · split
      · exact List.nodup_nil
      · exact (subdirs_nodup e.1).map fun p q hpq => congrArg Prod.fst hpq
  parent {e e' f} h h' := by
    obtain ⟨p, hp, rfl⟩ := mem_next h
    obtain ⟨p', hp', heq⟩ := mem_next h'
    obtain ⟨_, x, _, _, _, _, rfl⟩ := mem_subdirs hp
    obtain ⟨_, x', _, _, _, _, rfl⟩ := mem_subdirs hp'
    have hpath : e.1 = e'.1 := (List.append_inj' (congrArg Prod.fst heq) rfl).1
    have hdepth : e.2 = e'.2 := Nat.succ.inj (congrArg Prod.snd heq)
    exact Prod.ext hpath hdepth

/-- What a walk comes to is a directory, as far below the physical one as the path is below `dir`. -/
theorem reaches_physical {dir c : PathBuf} {n : FsTree.Node OsString}
    (hc : os.fs.canonicalize dir = some c) (hn : os.fs.lookup c = some n) (hdir : n.kind = .dir)
    {e : PathBuf × Nat} (h : Bfs.Reaches (next os max_depth) (dir, 0) e) :
    ∃ s, e = (dir ++ s, s.length) ∧ os.fs.canonicalize e.1 = some (c ++ s) ∧
      ∃ node, os.fs.lookup (c ++ s) = some node ∧ node.kind = .dir := by
  induction h with
  | refl => exact ⟨[], by simp, by simpa using hc, n, by simpa using hn, hdir⟩
  | @tail e f _ hnext ih =>
      obtain ⟨s, rfl, hcanonical, parent, hparent, hkind⟩ := ih
      obtain ⟨p, hp, rfl⟩ := mem_next hnext
      obtain ⟨es, x, node, hread, hmem, hnode, rfl⟩ := mem_subdirs hp
      rw [FsTree.Tree.read_dir, hcanonical, Option.bind_some, hparent, Option.bind_some,
        Option.ite_none_right_eq_some, Option.some.injEq] at hread
      rw [← hread.2] at hmem
      have hlook := FsTree.Tree.mem_children hmem
      refine ⟨s ++ [x], ?_, ?_, node, ?_, hnode⟩
      · rw [List.append_assoc, List.length_append, List.length_singleton]
      · rw [← List.append_assoc]
        exact FsTree.Tree.canonicalize_join hcanonical hparent hkind hlook fun target => by simp [hnode]
      · rw [← List.append_assoc]
        exact hlook

/-- From a real directory it comes to real ones. -/
theorem reaches_real {dir : PathBuf} (hreal : os.fs.IsReal dir) {e : PathBuf × Nat}
    (h : Bfs.Reaches (next os max_depth) (dir, 0) e) : os.fs.IsReal e.1 := by
  rcases Relation.ReflTransGen.cases_head h with rfl | ⟨f, hnext, _⟩
  · exact hreal
  · obtain ⟨p, hp, rfl⟩ := mem_next hnext
    obtain ⟨es, x, node, hread, hmem, _, _⟩ := mem_subdirs hp
    obtain ⟨⟨n, hn, hdir⟩, _⟩ := FsTree.Tree.read_dir_mem hreal hread hmem
    obtain ⟨s, rfl, _, node, hnode, hkind⟩ := reaches_physical hreal.canonicalize hn hdir h
    exact FsTree.Tree.isReal_of_dir hnode hkind

/-- The root is queued by no turn. -/
theorem root_not_next (dir : PathBuf) : ∀ b ∈ [(dir, 0)], ∀ c, b ∉ next os max_depth c := by
  intro b hb c hc
  obtain ⟨p, _, hp⟩ := mem_next hc
  rw [List.mem_singleton.1 hb] at hp
  cases hp

/-- **The walk ends**: as many turns as there are objects empty the queue. -/
theorem left_eq_nil (os : Os) (max_depth : Option Nat) (dir : PathBuf) :
    Bfs.left (next os max_depth) (os.fs.nodes.length + 1) [(dir, 0)] = [] := by
  cases hopen : os.open_dir_safe dir with
  | none =>
      -- the only turn there is
      have hnext : next os max_depth (dir, 0) = [] := by
        rw [next, hopen]
        split <;> rfl
      rw [Bfs.left, hnext, List.append_nil]
      cases os.fs.nodes.length <;> rfl
  | some fd =>
      have hdir := FsTree.Tree.metadata_of_open_dir (os.open_dir_safe_eq hopen).2.1
      have hkind := (FsTree.Tree.open_dir_eq (os.open_dir_safe_eq hopen).2.1).2.1
      obtain ⟨c, hc, hn⟩ := Option.bind_eq_some_iff.1 hdir
      have hall : ∀ a ∈ [(dir, 0)], ∀ b, Bfs.Reaches (next os max_depth) a b →
          b ∈ (dir, 0) :: os.fs.nodes.map fun e => (dir ++ e.1.drop c.length, e.1.length - c.length) := by
        intro a ha b hreach
        rw [List.mem_singleton.1 ha] at hreach
        obtain ⟨s, rfl, _, node, hnode, _⟩ := reaches_physical hc hn hkind hreach
        rcases List.mem_cons.1 (FsTree.Tree.mem_of_lookup hnode) with hroot | hmem
        · have hs : s = [] := (List.append_eq_nil_iff.1 (congrArg Prod.fst hroot)).2
          rw [hs, List.append_nil]
          exact List.mem_cons_self
        · refine List.mem_cons_of_mem _ (List.mem_map.2 ⟨_, hmem, ?_⟩)
          rw [List.drop_left, List.length_append, Nat.add_sub_cancel_left]
      have hlength : ((dir, 0) :: os.fs.nodes.map fun e : PathBuf × FsTree.Node OsString =>
          (dir ++ e.1.drop c.length, e.1.length - c.length)).length = os.fs.nodes.length + 1 := by
        rw [List.length_cons, List.length_map]
      rw [← hlength]
      exact Bfs.left_eq_nil next_forest (List.nodup_singleton _) (root_not_next dir) hall

/-- The walk comes to what can be reached through directories it can open and read, up to the depth. -/
theorem reaches_through {dir : PathBuf} {s : List OsString} :
    ∀ {node : FsTree.Node OsString}, os.Through dir s → os.fs.lookup (dir ++ s) = some node →
      node.kind = .dir → (∀ k, max_depth = some k → s.length ≤ k) →
        Bfs.Reaches (next os max_depth) (dir, 0) (dir ++ s, s.length) := by
  induction s using List.reverseRecOn with
  | nil =>
      intro node _ _ _ _
      rw [List.append_nil]
      exact .refl
  | append_singleton s x ih =>
      intro node hthrough hnode hkind hmax
      obtain ⟨habove, parent, hparent, hdir, hopen, hread⟩ := Os.through_snoc.1 hthrough
      rw [← List.append_assoc] at hnode ⊢
      have hshallow : ∀ k, max_depth = some k → s.length ≤ k := by
        intro k hk
        have hle := hmax k hk
        rw [List.length_append, List.length_singleton] at hle
        omega
      refine .tail (ih habove hparent hdir hshallow) ?_
      have hany : max_depth.any (· < s.length) = false := by
        cases max_depth with
        | none => rfl
        | some k => simpa using hshallow k rfl
      have hopened : os.open_dir_safe (dir ++ s) = some ⟨dir ++ s, parent⟩ := by
        rw [Os.open_dir_safe, FsTree.Tree.open_dir_of_lookup hparent hdir hopen]
        rfl
      rw [next, hany, hopened]
      simp only [Bool.false_eq_true, if_false]
      rw [List.length_append, List.length_singleton]
      refine List.mem_map.2 ⟨dir ++ s ++ [x], ?_, rfl⟩
      rw [subdirs, FsTree.Tree.read_dir_of_lookup hparent hdir hread, Option.getD_some]
      refine List.mem_filterMap.2 ⟨_, FsTree.Tree.mem_children_of_lookup hnode, ?_⟩
      rw [if_pos hkind]
      rfl

end

end Walk

/-- **The walk marks what it comes to**, up to the depth. -/
theorem mark_recursive_through {os : Os} {k : Kernel} {cache : DirCache} {fan_fd : Nat}
    {mask : Mask} {dir : PathBuf} {max_depth : Option Nat} {caching : Bool}
    {s : List OsString} (hs : s ≠ []) {node : FsTree.Node OsString}
    (hthrough : os.Through dir s) (hnode : os.fs.lookup (dir ++ s) = some node) (hkind : node.kind = .dir)
    (hopen : node.openable = true) (hmark : os.mark_ok node.ino = true)
    (hmax : ∀ k, max_depth = some k → s.length ≤ k) :
    (mark_recursive_with_depth os k cache fan_fd mask dir max_depth caching).kernel.Carries fan_fd
      node.ino (mask &&& ~~~FAN_FS_ERROR) := by
  have hvisited := Bfs.mem_visits_of_reaches (Walk.left_eq_nil os max_depth dir) (List.mem_singleton_self _)
    (Walk.reaches_through hthrough hnode hkind hmax)
  have hdepth : s.length ≠ 0 := fun h => hs (List.length_eq_zero_iff.1 h)
  have hopened : os.open_dir_safe (dir ++ s) = some ⟨dir ++ s, node⟩ := by
    rw [Os.open_dir_safe, FsTree.Tree.open_dir_of_lookup hnode hkind hopen]
    rfl
  have hsent := @Walk.run_sends os fan_fd (mask &&& ~~~FAN_FS_ERROR) max_depth caching
    (os.fs.nodes.length + 1) ⟨k, cache, [(dir, 0)], [], 0, []⟩ _ hvisited hdepth hmax _ hopened hmark
  have hmarked := Walk.sent_flush hmark _ hsent
  rw [BitVec.and_assoc, BitVec.and_self] at hmarked
  exact hmarked

/-- **The walk marks every directory below, up to the depth**, where every call succeeds. -/
theorem mark_recursive_all {os : Os} (hw : os.Willing) {k : Kernel} {cache : DirCache} {fan_fd : Nat}
    {mask : Mask} {dir : PathBuf} {max_depth : Option Nat} {caching : Bool}
    {s : List OsString} (hs : s ≠ []) {node : FsTree.Node OsString}
    (hnode : os.fs.lookup (dir ++ s) = some node) (hkind : node.kind = .dir)
    (hmax : ∀ k, max_depth = some k → s.length ≤ k) :
    (mark_recursive_with_depth os k cache fan_fd mask dir max_depth caching).kernel.Carries fan_fd
      node.ino (mask &&& ~~~FAN_FS_ERROR) :=
  mark_recursive_through hs (hw.through hnode) hnode hkind (hw.dirs _ _ hnode hkind).1
    (hw.mark _) hmax

/-! ## What an entry asks for -/

/-- The directory at the path, links followed. -/
def Os.root_ino (os : Os) (path : PathBuf) : List Nat :=
  (((os.fs.lookup (os.canonical path)).filter fun n => n.kind = .dir).map fun n => n.ino).toList

/-- The directories below it that a recursive entry asks for: on its file system, not too deep. -/
def Os.below_inos (os : Os) (path : PathBuf) (opts : PathOptions) : List Nat :=
  if opts.recursive then
    (os.fs.nodes.filter fun e =>
      e.2.kind = .dir && PathBuf.startsWith e.1 (os.canonical path) && e.1 ≠ os.canonical path &&
        e.2.dev = os.dev_id (os.canonical path) &&
        opts.max_depth.all fun k => e.1.length - (os.canonical path).length ≤ k).map fun e => e.2.ino
  else []

/-- Every directory an entry asks for. -/
def Os.asked (os : Os) (path : PathBuf) (opts : PathOptions) : List Nat :=
  os.root_ino path ++ os.below_inos path opts

namespace Os

variable {os : Os} {path : PathBuf} {opts : PathOptions} {ino : Nat}

theorem mem_root_ino (h : ino ∈ os.root_ino path) :
    ∃ n, os.fs.lookup (os.canonical path) = some n ∧ n.kind = .dir ∧ n.ino = ino := by
  rw [root_ino, Option.mem_toList, Option.map_eq_some_iff] at h
  obtain ⟨n, hn, rfl⟩ := h
  rw [Option.filter_eq_some_iff, decide_eq_true_eq] at hn
  exact ⟨n, hn.1, hn.2, rfl⟩

theorem mem_below_inos (h : ino ∈ os.below_inos path opts) :
    opts.recursive = true ∧ ∃ s n, s ≠ [] ∧ os.fs.lookup (os.canonical path ++ s) = some n ∧
      n.kind = .dir ∧ n.ino = ino ∧ ∀ k, opts.max_depth = some k → s.length ≤ k := by
  rw [below_inos] at h
  split at h
  · next hrec =>
      obtain ⟨⟨p, n⟩, he, rfl⟩ := List.mem_map.1 h
      simp only [List.mem_filter, Bool.and_eq_true, decide_eq_true_eq, PathBuf.startsWith_iff,
        Option.all_eq_true] at he
      obtain ⟨hmem, ⟨⟨⟨hkind, s, rfl⟩, hne⟩, _⟩, hdepth⟩ := he
      refine ⟨hrec, s, n, ?_, FsTree.Tree.lookup_of_mem hmem, hkind, rfl, fun k hk => ?_⟩
      · rintro rfl
        exact hne (List.append_nil _)
      · simpa using hdepth k hk
  · cases h

theorem dir_of_asked (h : ino ∈ os.asked path opts) :
    ∃ n, os.fs.lookup (os.canonical path) = some n ∧ n.kind = .dir := by
  rcases List.mem_append.1 h with h | h
  · obtain ⟨n, hn, hkind, _⟩ := mem_root_ino h
    exact ⟨n, hn, hkind⟩
  · obtain ⟨_, s, n, hs, hn, _⟩ := mem_below_inos h
    exact FsTree.Tree.lookup_above hn hs

end Os

/-- **A root that is marked, and walked below as deep as the entry asks, is marked as it asks.** -/
theorem asked_carried {os : Os} (hw : os.Willing) {k : Kernel} {cache : DirCache} {fan_fd : Nat}
    {mask : Mask} {path : PathBuf} {opts : PathOptions} {recursive : Bool} {max_depth : Option Nat}
    {caching : Bool} (hmask : opts.path_mask_from_options.Within mask)
    (hroot : ∀ ino ∈ os.root_ino path, k.Carries fan_fd ino (mask &&& ~~~FAN_FS_ERROR))
    (hwalk : opts.recursive = true → recursive = true ∧
      ∀ k, max_depth = some k → ∃ k', opts.max_depth = some k' ∧ k' ≤ k) :
    ∀ ino ∈ os.asked path opts,
      (if recursive && os.is_dir (os.canonical path) then
        (mark_recursive_with_depth os k cache fan_fd mask (os.canonical path) max_depth caching).kernel
      else k).Carries fan_fd ino (opts.path_mask_from_options &&& ~~~FAN_FS_ERROR) := by
  intro ino hino
  refine (hmask.strip _).trans ?_
  rcases List.mem_append.1 hino with hino | hino
  · split
    · exact (adds_mark_recursive ..).carries (hroot ino hino)
    · exact hroot ino hino
  · obtain ⟨hopts, s, n, hs, hn, hkind, rfl, hshallow⟩ := Os.mem_below_inos hino
    obtain ⟨dir, hdir, hdirkind⟩ := FsTree.Tree.lookup_above hn hs
    have hreal := FsTree.Tree.isReal_of_dir hdir hdirkind
    have his : os.is_dir (os.canonical path) = true := by
      rw [Os.is_dir, FsTree.Tree.is_dir, hreal.metadata, hdir]
      simpa using hdirkind
    obtain ⟨hrec, hdepth⟩ := hwalk hopts
    rw [hrec, his]
    refine mark_recursive_all hw hs hn hkind fun k hk => ?_
    obtain ⟨k', hk', hle⟩ := hdepth k hk
    exact Nat.le_trans (hshallow k' hk') hle

end Fsmon
