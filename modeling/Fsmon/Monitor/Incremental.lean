/-
# `Fsmon.Monitor.Incremental` — marking as directories appear, against marking at once

A directory that appears below a recursive root is marked by `on_new_subdirectory`
when its parent reports it.  Here the marks a run of such creations leaves are
compared with those one walk from the root would leave on the last tree.

    Os.Walked          what a walk marks, exactly
    mark_recursive_mask_iff, on_new_subdirectory_mask_iff
    Watched.step       a directory appears, and its parent reports it
    Watched.SameMarks  the marks below the root are those of one walk
    Watched.Fits       what a creation must be like

The limit of `on_new_subdirectory` is the smallest of all entries and is counted
from the new directory, whose own depth is not looked at.
-/
import Fsmon.Monitor.Closed
import Fsmon.Monitor.Records
import Fsmon.Monitor.Groups
import Fsmon.Monitor.Reach

namespace Fsmon

/-! ## What a walk marks -/

/-- A walk from `dir` comes to the directory at `dir ++ s`, opens it and sends its mark. -/
structure Os.Comes (os : Os) (max_depth : Option Nat) (dir : PathBuf) (s : List OsString)
    (n : FsTree.Node OsString) : Prop where
  below : s ≠ []
  through : os.Through dir s
  found : os.fs.lookup (dir ++ s) = some n
  is_dir : n.kind = .dir
  openable : n.openable = true
  shallow : ∀ k, max_depth = some k → s.length ≤ k

/-- It comes to the directory, and the mark succeeds. -/
def Os.Walked (os : Os) (max_depth : Option Nat) (dir : PathBuf) (s : List OsString)
    (n : FsTree.Node OsString) : Prop :=
  os.Comes max_depth dir s n ∧ os.mark_ok n.ino = true

namespace Walk

section
variable {os : Os} {max_depth : Option Nat} {dir : PathBuf}

/-- Where a walk comes to, it has come through directories it could open and read. -/
theorem through_of_reaches (hreal : os.fs.IsReal dir) {e : PathBuf × Nat}
    (h : Bfs.Reaches (next os max_depth) (dir, 0) e) :
    ∃ s, e = (dir ++ s, s.length) ∧ os.Through dir s := by
  induction h with
  | refl => exact ⟨[], by simp, fun i hi => absurd hi (Nat.not_lt_zero i)⟩
  | @tail e f hreach hnext ih =>
      obtain ⟨s, rfl, hthrough⟩ := ih
      have hhere := reaches_real hreal hreach
      obtain ⟨p, hp, rfl⟩ := mem_next hnext
      obtain ⟨es, x, node, hread, hmem, _, rfl⟩ := mem_subdirs hp
      refine ⟨s ++ [x], ?_, Os.through_snoc.2 ⟨hthrough, ?_⟩⟩
      · rw [List.length_append, List.length_singleton, List.append_assoc]
      · rw [next] at hnext
        split at hnext
        · cases hnext
        · cases hopen : os.open_dir_safe (dir ++ s) with
          | none =>
              rw [hopen] at hnext
              cases hnext
          | some d =>
              obtain ⟨hlstat, hdir, hopenable⟩ := FsTree.Tree.open_dir_eq (os.open_dir_safe_eq hopen).2.1
              rw [hhere.lstat] at hlstat
              refine ⟨d.node, hlstat, hdir, hopenable, ?_⟩
              rw [FsTree.Tree.read_dir, hhere.canonicalize, Option.bind_some, hlstat,
                Option.bind_some] at hread
              have hlisted : d.node.readable = true ∧ os.fs.children (dir ++ s) = es := by
                simpa [hdir] using hread
              exact hlisted.1

end

/-! ### The loop -/

section
variable (os : Os) (max_depth : Option Nat) (dir : PathBuf) (k : Kernel)

/-- What waits is where the walk comes to, and what it has marked could be marked, too. -/
structure Honest (w : Walk) : Prop where
  marks : ∃ ops, w.kernel.marks = k.marks ++ ops ∧
    ∀ d ∈ dirs_added ops, ∃ s, os.Walked max_depth dir s d.node
  pending : ∀ d ∈ w.pending, ∃ s, os.Comes max_depth dir s d.node

end

section
variable {os : Os} {fan_fd : Nat} {mask : Mask} {max_depth : Option Nat} {caching : Bool}
  {dir : PathBuf} {k : Kernel}

theorem honest_flush {w : Walk} (h : Honest os max_depth dir k w) :
    Honest os max_depth dir k (w.flush_pending_marks os fan_fd mask) := by
  obtain ⟨⟨ops, hops, hwalked⟩, hpending⟩ := h
  refine ⟨⟨ops ++ (Kernel.markable os w.pending).map fun d => .add fan_fd d (mask &&& ~~~FAN_FS_ERROR),
    ?_, fun d hd => ?_⟩, fun d hd => absurd hd List.not_mem_nil⟩
  · show w.kernel.marks ++ _ = _
    rw [hops, List.append_assoc]
  · rw [dirs_added_append, dirs_added_map, List.mem_append] at hd
    rcases hd with hd | hd
    · exact hwalked d hd
    · obtain ⟨hmem, hmark⟩ := List.mem_filter.1 hd
      obtain ⟨s, hcomes⟩ := hpending d hmem
      exact ⟨s, hcomes, hmark⟩

theorem honest_seed {w : Walk} (h : Honest os max_depth dir k w) (current : PathBuf) (d : DirFd) :
    Honest os max_depth dir k (w.seed os caching current d) := by
  rw [seed]
  split
  · exact ⟨h.marks, h.pending⟩
  · exact h

/-- A turn, where the walk comes to. -/
theorem honest_visit (hreal : os.fs.IsReal dir) {w : Walk} (h : Honest os max_depth dir k w)
    {e : PathBuf × Nat} (he : Bfs.Reaches (next os max_depth) (dir, 0) e) :
    Honest os max_depth dir k (visit os fan_fd mask max_depth caching e.1 e.2 w) := by
  have hlevel : Honest os max_depth dir k (w.level os fan_fd mask e.2) := by
    rw [level]
    split
    · have hflush : Honest os max_depth dir k (w.flush_pending_marks os fan_fd mask) := honest_flush h
      exact ⟨hflush.marks, hflush.pending⟩
    · exact h
  obtain ⟨s, rfl, hthrough⟩ := through_of_reaches hreal he
  have hhere := reaches_real hreal he
  rw [visit]
  simp only at hlevel ⊢
  split
  · exact hlevel
  · next hdeep =>
    cases hopen : os.open_dir_safe (dir ++ s) with
    | none => exact hlevel
    | some d =>
        have henter : Honest os max_depth dir k
            ((w.level os fan_fd mask s.length).enter os fan_fd mask caching (dir ++ s) s.length d) := by
          rw [enter]
          split
          · exact honest_seed hlevel (dir ++ s) d
          · next hdepth =>
            refine collect_inv (P := Honest os max_depth dir k) (fun _ hw => honest_flush hw) ?_
            have hseed : Honest os max_depth dir k
                ((w.level os fan_fd mask s.length).seed os caching (dir ++ s) d) :=
              honest_seed hlevel (dir ++ s) d
            refine ⟨hseed.marks, fun d' hd' => ?_⟩
            rcases List.mem_append.1 hd' with hd' | hd'
            · exact hseed.pending d' hd'
            · obtain ⟨hlstat, hdir, hopenable⟩ := FsTree.Tree.open_dir_eq (os.open_dir_safe_eq hopen).2.1
              rw [hhere.lstat] at hlstat
              rw [List.mem_singleton.1 hd']
              refine ⟨s, ?_, hthrough, hlstat, hdir, hopenable, fun n hn => ?_⟩
              · rintro rfl
                exact hdepth rfl
              · rw [hn] at hdeep
                simpa using hdeep
        exact ⟨henter.marks, henter.pending⟩

/-- **The walk is honest.** -/
theorem honest_run (hreal : os.fs.IsReal dir) {w : Walk} (h : Honest os max_depth dir k w)
    (hqueue : ∀ e ∈ w.queue, Bfs.Reaches (next os max_depth) (dir, 0) e) (n : Nat) :
    Honest os max_depth dir k (run os fan_fd mask max_depth caching n w) := by
  refine (run_inv (P := fun w => Honest os max_depth dir k w ∧
    ∀ e ∈ w.queue, Bfs.Reaches (next os max_depth) (dir, 0) e) ?_ n w ⟨h, hqueue⟩).1
  rintro w current depth rest ⟨hw, hq⟩ hhead
  rw [hhead] at hq
  have he := hq (current, depth) List.mem_cons_self
  refine ⟨honest_visit hreal (w := { w with queue := rest }) ⟨hw.marks, hw.pending⟩ he, fun f hf => ?_⟩
  rw [visit_queue] at hf
  rcases List.mem_append.1 hf with hf | hf
  · exact hq f (List.mem_cons_of_mem _ hf)
  · exact he.tail hf

end

end Walk

namespace Kernel

variable {k k' : Kernel} {fan_fd ino : Nat} {bits : Mask}

/-- A mark that carries something is there. -/
theorem mask_ne_zero (h : k.Carries fan_fd ino bits) (hbits : bits ≠ 0) : k.mask fan_fd ino ≠ 0 := by
  intro hnone
  rw [Carries, Mask.Within, hnone] at h
  exact hbits (h.symm.trans BitVec.and_zero)

/-- A mark that was not there has been added. -/
theorem added_of_mask {ops : List MarkOp} : ∀ m : Mask, ops.foldl (after fan_fd ino) m ≠ 0 →
    m ≠ 0 ∨ ∃ d ∈ dirs_added ops, d.node.ino = ino := by
  induction ops with
  | nil => exact fun m h => Or.inl h
  | cons op ops ih =>
      intro m h
      rcases ih _ h with hm | ⟨d, hd, hino⟩
      · cases op with
        | add g d b =>
            rw [after] at hm
            split at hm
            · next hhit => exact Or.inr ⟨d, List.mem_cons_self, hhit.2⟩
            · exact Or.inl hm
        | remove g d =>
            rw [after] at hm
            split at hm
            · exact absurd rfl hm
            · exact Or.inl hm
      · rw [← List.singleton_append, dirs_added_append]
        exact Or.inr ⟨d, List.mem_append_right _ hd, hino⟩

end Kernel

/-- **What a walk marks**: what was marked, and what it comes to and can mark. -/
theorem mark_recursive_mask_iff {os : Os} {k : Kernel} {cache : DirCache} {fan_fd ino : Nat} {mask : Mask}
    {dir : PathBuf} {max_depth : Option Nat} {caching : Bool} (hreal : os.fs.IsReal dir)
    (hbits : mask &&& ~~~FAN_FS_ERROR ≠ 0) :
    (mark_recursive_with_depth os k cache fan_fd mask dir max_depth caching).kernel.mask fan_fd ino ≠ 0 ↔
      k.mask fan_fd ino ≠ 0 ∨ ∃ s n, os.Walked max_depth dir s n ∧ n.ino = ino := by
  constructor
  · intro h
    have hstart : Walk.Honest os max_depth dir k ⟨k, cache, [(dir, 0)], [], 0, []⟩ :=
      ⟨⟨[], by simp, fun d hd => absurd hd List.not_mem_nil⟩, fun d hd => absurd hd List.not_mem_nil⟩
    have hrun : Walk.Honest os max_depth dir k (Walk.run os fan_fd (mask &&& ~~~FAN_FS_ERROR) max_depth
        caching (os.fs.nodes.length + 1) ⟨k, cache, [(dir, 0)], [], 0, []⟩) := by
      refine Walk.honest_run hreal hstart (fun e he => ?_) _
      rw [List.mem_singleton.1 he]
      exact .refl
    have hend : Walk.Honest os max_depth dir k
        (mark_recursive_with_depth os k cache fan_fd mask dir max_depth caching) := Walk.honest_flush hrun
    obtain ⟨⟨ops, hops, hwalked⟩, _⟩ := hend
    rw [Kernel.mask_append hops] at h
    refine (Kernel.added_of_mask _ h).imp id ?_
    rintro ⟨d, hd, rfl⟩
    obtain ⟨s, hs⟩ := hwalked d hd
    exact ⟨s, d.node, hs, rfl⟩
  · rintro (hold | ⟨s, n, ⟨hcomes, hmark⟩, rfl⟩)
    · exact Kernel.mask_ne_zero ((adds_mark_recursive ..).carries (BitVec.and_self ..)) hold
    · exact Kernel.mask_ne_zero (mark_recursive_through hcomes.below hcomes.through hcomes.found
        hcomes.is_dir hcomes.openable hmark hcomes.shallow) hbits

/-! ## What a new directory is marked with -/

/-- A mask of options is not empty, `FS_ERROR` or not. -/
theorem PathOptions.path_mask_ne_zero (opts : PathOptions) :
    opts.path_mask_from_options &&& ~~~FAN_FS_ERROR ≠ 0 := by
  have hfold : ∀ (ts : List EventType) (m : Mask), FAN_ONDIR.Within m →
      FAN_ONDIR.Within (ts.foldl (fun m t => m ||| event_type_to_kernel_flag t) m) := by
    intro ts m h
    refine List.foldlRecOn (motive := FAN_ONDIR.Within) ts _ h ?_
    intro m h t _
    exact h.trans (Mask.within_or_left m _)
  have hdir : FAN_ONDIR.Within opts.path_mask_from_options := by
    rw [path_mask_from_options]
    split
    · exact hfold _ _ (Mask.within_or_right _ _)
    · exact rfl
  intro hnone
  have hstrip : (FAN_ONDIR &&& ~~~FAN_FS_ERROR) &&& (opts.path_mask_from_options &&& ~~~FAN_FS_ERROR) =
      FAN_ONDIR &&& ~~~FAN_FS_ERROR := hdir.strip _
  rw [hnone] at hstrip
  exact absurd hstrip (by decide)

/-- The limit `on_new_subdirectory` walks with. -/
def Monitor.least_depth (m : Monitor) : Option Nat :=
  (m.monitored_entries.filterMap fun e => e.2.max_depth).min?

theorem Kernel.mark_directory_at_mask_iff {os : Os} {k k' : Kernel} {fan_fd ino : Nat} {dir : DirFd}
    {mask : Mask} (h : k.mark_directory_at os fan_fd dir mask = some k')
    (hbits : mask &&& ~~~FAN_FS_ERROR ≠ 0) :
    k'.mask fan_fd ino ≠ 0 ↔ k.mask fan_fd ino ≠ 0 ∨ dir.node.ino = ino := by
  have hcarries := mark_directory_at_carries h
  have hadds := adds_mark_directory_at h
  constructor
  · intro hmask
    rw [mark_directory_at] at h
    split at h
    · next hmark =>
      cases h
      rw [mask_append (k := k) (by rw [mark]), markable, List.filter_cons_of_pos (by exact hmark)] at hmask
      refine (added_of_mask _ hmask).imp id ?_
      rintro ⟨d, hd, hino⟩
      rw [List.mem_singleton.1 hd] at hino
      exact hino
    · cases h
  · rintro (hold | rfl)
    · exact mask_ne_zero (hadds.carries (BitVec.and_self ..)) hold
    · exact mask_ne_zero hcarries hbits

namespace Monitor

/-- The entries, the groups and the factory are left alone. -/
theorem on_new_subdirectory_keeps (os : Os) (m : Monitor) (path : PathBuf) :
    (m.on_new_subdirectory os path).1.monitored_entries = m.monitored_entries ∧
      (m.on_new_subdirectory os path).1.fanotify.groups = m.fanotify.groups ∧
      (m.on_new_subdirectory os path).1.fanotify.factory = m.fanotify.factory := by
  rcases on_new_subdirectory_cases os m path with h | ⟨_, _, _, _, _, _, _, _, h⟩
  · rw [h]
    exact ⟨rfl, rfl, rfl⟩
  · rw [h]
    exact ⟨rfl, rfl, rfl⟩

/-- **What `on_new_subdirectory` marks**: the directory, if it can be opened and marked, and what a
walk comes to from there with the least limit of all entries. -/
theorem on_new_subdirectory_mask_iff {os : Os} {m : Monitor} {path : PathBuf} {n : FsTree.Node OsString}
    {key ino : Nat} {group : FsGroup} (hn : os.fs.lookup path = some n) (hdir : n.kind = .dir)
    (hgroup : m.group_on n.dev = some (key, group)) (hfactory : m.fanotify.factory = true)
    (hbits : m.combined_mask &&& ~~~FAN_FS_ERROR ≠ 0) :
    (m.on_new_subdirectory os path).1.kernel.mask group.fan_fd ino ≠ 0 ↔
      m.kernel.mask group.fan_fd ino ≠ 0 ∨ n.openable = true ∧ os.mark_ok n.ino = true ∧
        (n.ino = ino ∨ ∃ s n', os.Walked m.least_depth path s n' ∧ n'.ino = ino) := by
  have hreal := FsTree.Tree.isReal_of_dir hn hdir
  have hcanonical : os.canonical path = path := by
    rw [Os.canonical, hreal.canonicalize, Option.getD_some]
  have hisdir : os.is_dir path = true := by
    rw [Os.is_dir, FsTree.Tree.is_dir, hreal.metadata, hn]
    simpa using hdir
  have hdev : os.dev_id path = n.dev := by
    rw [Os.dev_id, hreal.metadata, hn, Option.map_some, Option.getD_some]
  have hopen : os.open_dir_safe path = if n.openable then some ⟨path, n⟩ else none := by
    rw [Os.open_dir_safe, FsTree.Tree.open_dir, hreal.lstat, hn]
    cases hopenable : n.openable <;> simp [hdir, hopenable]
  rw [on_new_subdirectory]
  simp only [hcanonical, hisdir, hdev, hgroup, hopen, hfactory, Bool.true_eq_false, if_false]
  cases hopenable : n.openable with
  | false => simp
  | true =>
      simp only [if_true, true_and]
      cases hmark : m.kernel.mark_directory_at os group.fan_fd ⟨path, n⟩ m.combined_mask with
      | none =>
          have hno : os.mark_ok n.ino = false := by simpa [Kernel.mark_directory_at] using hmark
          simp [hno]
      | some k =>
          have hok : os.mark_ok n.ino = true := by
            by_contra hno
            simp [Kernel.mark_directory_at, hno] at hmark
          show (mark_recursive_with_depth os k _ group.fan_fd m.combined_mask path m.least_depth
            _).kernel.mask group.fan_fd ino ≠ 0 ↔ _
          rw [mark_recursive_mask_iff hreal hbits, Kernel.mark_directory_at_mask_iff hmark hbits, or_assoc]
          simp only [hok, true_and]

end Monitor

/-! ## Directories that appear -/

theorem Os.through_append {os : Os} {dir : PathBuf} {s t : List OsString} :
    os.Through dir (s ++ t) ↔ os.Through dir s ∧ os.Through (dir ++ s) t := by
  induction t using List.reverseRecOn with
  | nil => simp [Os.Through]
  | append_singleton t x ih =>
      rw [← List.append_assoc, Os.through_snoc, ih, Os.through_snoc, and_assoc, List.append_assoc]

/-- The system, and the daemon that watches it. -/
structure Watched where
  monitor : Monitor
  os : Os

/-- A directory appears below the root, with what is below it, and an event that says so. -/
structure Creation where
  /-- The system from then on. -/
  os : Os
  /-- The directory it appears in, from the root. -/
  above : List OsString
  name : OsString
  raw : DecodedEvent

namespace Creation

/-- Its place, from the root. -/
def place (c : Creation) : List OsString := c.above ++ [c.name]

/-- Once renames are split there is one event, and it says that the directory has appeared. -/
structure Reports (c : Creation) (root : PathBuf) (ev : DecodedEvent) : Prop where
  alone : (expand_renames [c.raw]).1 = [ev]
  path : ev.path = root ++ c.place
  read : ev.mask &&& FAN_Q_OVERFLOW = 0
  appears : ((mask_to_event_types ev.mask).contains .create ||
    (mask_to_event_types ev.mask).contains .movedTo) = true
  stays : ((mask_to_event_types ev.mask).contains .deleteSelf ||
    (mask_to_event_types ev.mask).contains .movedFrom ||
      (mask_to_event_types ev.mask).contains .delete) = false

end Creation

/-- What can be opened can be read, and it is marked exactly on the file system of the group. -/
structure Os.Plain (os : Os) (root : PathBuf) (dev : Nat) : Prop where
  readable : ∀ r n, os.fs.lookup (root ++ r) = some n → n.kind = .dir → n.openable = true →
    n.readable = true
  mark : ∀ r n, os.fs.lookup (root ++ r) = some n → n.kind = .dir → n.openable = true →
    (os.mark_ok n.ino = true ↔ n.dev = dev)

namespace Watched

section
variable (root : PathBuf) (opts : PathOptions) (fan_fd dev : Nat)

/-- The inode has a mark in the group. -/
def marked (s : Watched) (ino : Nat) : Bool := s.monitor.kernel.mask fan_fd ino ≠ 0

/-- The directory it appears in is marked. -/
def heard (s : Watched) (c : Creation) : Bool :=
  (s.os.fs.lookup (root ++ c.above)).any fun n => s.marked fan_fd n.ino

section
variable [Sizefilter]

/-- A directory appears; if that is reported, the event is handled before the next one. -/
def step (s : Watched) (c : Creation) : Watched where
  monitor :=
    if s.heard root fan_fd c then (s.monitor.process_event_batch (fun _ => c.os) [c.raw]).1
    else s.monitor
  os := c.os

end

/-- What a creation is: the directory was not there, is there now with what is below it, on the
file system it appears in; and nothing else changes below the root. -/
structure Appears (s : Watched) (c : Creation) : Prop where
  fresh : s.os.fs.lookup (root ++ c.place) = none
  made : ∃ n, c.os.fs.lookup (root ++ c.place) = some n ∧ n.kind = .dir
  kept : ∀ r, ¬ c.place <+: r → c.os.fs.lookup (root ++ r) = s.os.fs.lookup (root ++ r)
  same_dev : ∀ parent, c.os.fs.lookup (root ++ c.above) = some parent → ∀ t n,
    c.os.fs.lookup (root ++ (c.place ++ t)) = some n → n.kind = .dir → n.dev = parent.dev
  plain : c.os.Plain root dev
  report : ∃ ev, c.Reports root ev

/-- The marks below the root are those of one walk from it. -/
def SameMarks (s : Watched) : Prop :=
  ∀ r n, r ≠ [] → s.os.fs.lookup (root ++ r) = some n → n.kind = .dir →
    (s.marked fan_fd n.ino = true ↔
      (mark_recursive_with_depth s.os .initial ∅ fan_fd opts.path_mask_from_options root opts.max_depth
        false).kernel.mask fan_fd n.ino ≠ 0)

/-- A walk from the new directory without a limit marks the directory at `t` below it. -/
def Opens (c : Creation) (t : List OsString) (n : FsTree.Node OsString) : Prop :=
  c.os.Through (root ++ c.place) t ∧ n.openable = true

/-- **What a creation must be like.**  If it is reported, its event is not skipped, and for each of its
directories the least limit of all entries, counted from the new directory, which itself is not
limited, says the same as the limit of the entry, counted from the root; a directory that had its
mark before it was moved counts as marked.  No other of its directories comes with a mark. -/
structure Fits (s : Watched) (c : Creation) : Prop where
  processed : s.heard root fan_fd c = true → ∀ ev, c.Reports root ev → s.monitor.is_skipped ev = false
  depth : s.heard root fan_fd c = true → ∀ t n, c.os.fs.lookup (root ++ (c.place ++ t)) = some n →
    n.kind = .dir → Opens root c t n →
      ((s.marked fan_fd n.ino = true ∨ t = [] ∨ ∀ k, s.monitor.least_depth = some k → t.length ≤ k) ↔
        ∀ k, opts.max_depth = some k → c.place.length + t.length ≤ k)
  unmarked : ∀ t n, c.os.fs.lookup (root ++ (c.place ++ t)) = some n → n.kind = .dir →
    (s.heard root fan_fd c = true → ¬ Opens root c t n) → s.marked fan_fd n.ino = false

/-- The root is an entry's, marked and walked. -/
structure Settled (s : Watched) : Prop where
  entry : (root, opts) ∈ s.monitor.monitored_entries
  recursive : opts.recursive = true
  group : ∃ key group, s.monitor.group_on dev = some (key, group) ∧ group.fan_fd = fan_fd
  factory : s.monitor.fanotify.factory = true
  root_dir : ∃ n, s.os.fs.lookup root = some n ∧ n.kind = .dir ∧ n.openable = true ∧ n.dev = dev ∧
    s.marked fan_fd n.ino = true
  plain : s.os.Plain root dev
  marks : ∀ r n, r ≠ [] → s.os.fs.lookup (root ++ r) = some n → n.kind = .dir →
    (s.marked fan_fd n.ino = true ↔ s.os.Walked opts.max_depth root r n)

end

/-! ### What one walk would mark -/

section
variable {root : PathBuf} {opts : PathOptions} {fan_fd dev : Nat} {s : Watched}

/-- An inode below the root that a walk marks is marked at its own place. -/
theorem walked_at {os : Os} {max_depth : Option Nat} {dir : PathBuf} {r : List OsString}
    {n : FsTree.Node OsString} (hn : os.fs.lookup (dir ++ r) = some n) (hdir : n.kind = .dir) :
    (∃ s n', os.Walked max_depth dir s n' ∧ n'.ino = n.ino) ↔ os.Walked max_depth dir r n := by
  constructor
  · rintro ⟨s, n', hwalked, hino⟩
    have hplace := FsTree.Tree.dir_unique hwalked.1.found hn hwalked.1.is_dir hdir hino
    obtain rfl := List.append_cancel_left hplace
    have hnode : n' = n := Option.some.inj (hwalked.1.found.symm.trans hn)
    exact hnode ▸ hwalked
  · exact fun h => ⟨r, n, h, rfl⟩

theorem Settled.same_marks (h : s.Settled root opts fan_fd dev) : s.SameMarks root opts fan_fd := by
  intro r n hr hn hdir
  obtain ⟨top, htop, htopdir, _⟩ := h.root_dir
  rw [mark_recursive_mask_iff (FsTree.Tree.isReal_of_dir htop htopdir) opts.path_mask_ne_zero,
    walked_at hn hdir, h.marks r n hr hn hdir]
  exact (or_iff_right (fun hno => hno rfl)).symm

/-! ### The event of a creation -/

section
variable [Sizefilter] {c : Creation} {ev : DecodedEvent}

/-- The event of a creation is handed to `on_new_subdirectory`. -/
theorem batch_of_creation {m : Monitor} (hreport : c.Reports root ev) (hskip : m.is_skipped ev = false)
    (hnew : m.is_new_subdirectory c.os ev = true) :
    ∃ r cache, (m.process_event_batch (fun _ => c.os) [c.raw]).1 =
      { ({ m with metrics := r }.on_new_subdirectory c.os (root ++ c.place)).1 with
        file_size_cache := cache } := by
  have hsplit : expand_renames [c.raw] = ([ev], (expand_renames [c.raw]).2) := by rw [← hreport.alone]
  have hgone : ∀ m' : Monitor, m'.gone_root (mask_to_event_types ev.mask) ev.path = none := fun m' => by
    rw [Monitor.gone_root, hreport.stays]
    rfl
  generalize hstart : ({ m with
    metrics := m.metrics.inc_events_unresolved_rename (expand_renames [c.raw]).2 } : Monitor) = m₁
  have hone : (m.process_event_batch (fun _ => c.os) [c.raw]).1 = (m₁.process_event c.os ev).1 := by
    rw [Monitor.process_event_batch, hsplit, ← hstart]
    rfl
  have hcounted : ∃ r, m₁.counted ev = { m with metrics := r } := by
    rw [Monitor.counted, ← hstart]
    split
    · exact ⟨_, rfl⟩
    · exact ⟨_, rfl⟩
  obtain ⟨r, hr⟩ := hcounted
  have hhandled : (m₁.process_event c.os ev).1 = (Monitor.handle_event c.os (m₁.counted ev) ev).1 := by
    rw [Monitor.process_event, if_neg (fun hno => hno hreport.read)]
    rfl
  have hskip' : (m₁.counted ev).is_skipped ev = false := by
    rw [hr]
    exact hskip
  have hnew' : (m₁.counted ev).is_new_subdirectory c.os ev = true := by
    rw [hr]
    exact hnew
  rw [hone, hhandled, Monitor.Stable.handle_event_eq, hskip', hgone, Monitor.recorded, hnew']
  simp only [Bool.false_eq_true, if_false, if_true]
  obtain ⟨cache, hcache, _⟩ := Monitor.record_entries_eq c.os ev
    ((m₁.counted ev).matching_opts_for_event ev.path)
    ((m₁.counted ev).on_new_subdirectory c.os ev.path).1 []
  refine ⟨r, cache, ?_⟩
  rw [hcache, hr, hreport.path]

/-- A recursive entry at the root asks for it. -/
theorem new_of_creation (h : s.Settled root opts fan_fd dev) (happears : s.Appears root dev c)
    (hreport : c.Reports root ev) : s.monitor.is_new_subdirectory c.os ev = true := by
  obtain ⟨n, hn, hdir⟩ := happears.made
  have hisdir : c.os.is_dir (root ++ c.place) = true := by
    rw [Os.is_dir, FsTree.Tree.is_dir, (FsTree.Tree.isReal_of_dir hn hdir).metadata, hn]
    simpa using hdir
  have hmatch : (root, opts) ∈ s.monitor.matching_opts_for_event (root ++ c.place) := by
    refine List.mem_append_left _ (List.mem_filter.2 ⟨h.entry, ?_⟩)
    rw [Monitor.path_matches, h.recursive]
    exact PathBuf.startsWith_iff.2 ⟨_, rfl⟩
  have hbelow : root ++ c.place ≠ root := fun hself => by simp [Creation.place] at hself
  rw [Monitor.is_new_subdirectory, hreport.appears, hreport.path, hisdir, Bool.true_and, Bool.true_and,
    List.any_eq_true]
  exact ⟨_, hmatch, by simp [h.recursive, hbelow]⟩

end

/-! ### One creation -/

section
variable {c : Creation}

/-- What has been there below the root is as it was. -/
theorem Appears.lookup_old (h : s.Appears root dev c) {r : List OsString} (hr : ¬ c.place <+: r)
    (i : Nat) :
    c.os.fs.lookup (root ++ r.take i) = s.os.fs.lookup (root ++ r.take i) :=
  h.kept _ fun hpre => hr (hpre.trans (List.take_prefix i r))

theorem place_not_above (c : Creation) : ¬ c.place <+: c.above := by
  intro hpre
  have hle := hpre.length_le
  rw [Creation.place, List.length_append, List.length_singleton] at hle
  omega

theorem Appears.through_old (h : s.Appears root dev c) {r : List OsString} (hr : ¬ c.place <+: r) :
    c.os.Through root r ↔ s.os.Through root r := by
  rw [Os.Through, Os.Through]
  exact forall₂_congr fun i _ => by rw [h.lookup_old hr i]

/-- A walk marks an old directory now exactly when it did before. -/
theorem Appears.walked_old (h : s.Appears root dev c) (hplain : s.os.Plain root dev)
    {max_depth : Option Nat}
    {r : List OsString} {n : FsTree.Node OsString} (hr : ¬ c.place <+: r) :
    c.os.Walked max_depth root r n ↔ s.os.Walked max_depth root r n := by
  have hsame : c.os.fs.lookup (root ++ r) = s.os.fs.lookup (root ++ r) := h.kept r hr
  have hthrough := h.through_old hr
  constructor
  · rintro ⟨⟨hbelow, hway, hn, hdir, hopen, hshallow⟩, hmark⟩
    have hdev := (h.plain.mark r n hn hdir hopen).1 hmark
    rw [hsame] at hn
    exact ⟨⟨hbelow, hthrough.1 hway, hn, hdir, hopen, hshallow⟩, (hplain.mark r n hn hdir hopen).2 hdev⟩
  · rintro ⟨⟨hbelow, hway, hn, hdir, hopen, hshallow⟩, hmark⟩
    have hdev := (hplain.mark r n hn hdir hopen).1 hmark
    rw [← hsame] at hn
    exact ⟨⟨hbelow, hthrough.2 hway, hn, hdir, hopen, hshallow⟩, (h.plain.mark r n hn hdir hopen).2 hdev⟩

/-- A directory below the root that is marked, or the root, leads on and lies on the file system of
the group. -/
theorem Settled.leads (h : s.Settled root opts fan_fd dev) {r : List OsString} {n : FsTree.Node OsString}
    (hn : s.os.fs.lookup (root ++ r) = some n) (hdir : n.kind = .dir)
    (hmarked : s.marked fan_fd n.ino = true) :
    s.os.Through root r ∧ n.openable = true ∧ n.readable = true ∧ n.dev = dev := by
  rcases List.eq_nil_or_concat r with rfl | ⟨r', x, rfl⟩
  · obtain ⟨top, htop, _, hopen, hdev, _⟩ := h.root_dir
    rw [List.append_nil] at hn
    obtain rfl : top = n := Option.some.inj (htop.symm.trans hn)
    exact ⟨fun i hi => absurd hi (Nat.not_lt_zero i), hopen,
      h.plain.readable [] top (by rw [List.append_nil]; exact hn) hdir hopen, hdev⟩
  · have hwalked := (h.marks _ n (by simp) hn hdir).1 hmarked
    exact ⟨hwalked.1.through, hwalked.1.openable, h.plain.readable _ n hn hdir hwalked.1.openable,
      (h.plain.mark _ n hn hdir hwalked.1.openable).1 hwalked.2⟩

/-- The directory it appears in. -/
theorem Appears.parent (h : s.Appears root dev c) : ∃ p, s.os.fs.lookup (root ++ c.above) = some p ∧
    c.os.fs.lookup (root ++ c.above) = some p ∧ p.kind = .dir := by
  obtain ⟨n, hn, _⟩ := h.made
  rw [Creation.place, ← List.append_assoc] at hn
  obtain ⟨p, hp, hdir⟩ := FsTree.Tree.lookup_parent hn
  exact ⟨p, (h.kept c.above (place_not_above c)) ▸ hp, hp, hdir⟩

/-- One walk from the root marks a new directory exactly when the way to the directory it appears in
leads on, a walk from the new directory opens it, and it is not too deep. -/
theorem Appears.walked_new (h : s.Appears root dev c) {p n : FsTree.Node OsString}
    {max_depth : Option Nat}
    (hp : c.os.fs.lookup (root ++ c.above) = some p) (hpdir : p.kind = .dir) {t : List OsString}
    (hn : c.os.fs.lookup (root ++ (c.place ++ t)) = some n) (hdir : n.kind = .dir) :
    c.os.Walked max_depth root (c.place ++ t) n ↔
      (c.os.Through root c.above ∧ p.openable = true ∧ p.readable = true) ∧ Opens root c t n ∧
        p.dev = dev ∧ ∀ k, max_depth = some k → c.place.length + t.length ≤ k := by
  have hway : c.os.Through root c.place ↔
      c.os.Through root c.above ∧ p.openable = true ∧ p.readable = true := by
    rw [Creation.place, Os.through_snoc]
    refine and_congr_right fun _ => ⟨?_, fun hlead => ⟨p, hp, hpdir, hlead⟩⟩
    rintro ⟨p', hp', _, hlead⟩
    obtain rfl : p = p' := Option.some.inj (hp.symm.trans hp')
    exact hlead
  have hdev := h.same_dev p hp t n hn hdir
  constructor
  · rintro ⟨⟨_, hthrough, _, _, hopen, hshallow⟩, hmark⟩
    obtain ⟨htop, hbelow⟩ := Os.through_append.1 hthrough
    refine ⟨hway.1 htop, ⟨hbelow, hopen⟩, ?_, fun k hk => ?_⟩
    · rw [← hdev]
      exact (h.plain.mark _ n hn hdir hopen).1 hmark
    · have hle := hshallow k hk
      rwa [List.length_append] at hle
  · rintro ⟨hlead, ⟨hbelow, hopen⟩, hpdev, hshallow⟩
    refine ⟨⟨by simp [Creation.place], Os.through_append.2 ⟨hway.2 hlead, hbelow⟩, hn, hdir, hopen, ?_⟩,
      (h.plain.mark _ n hn hdir hopen).2 (hdev.trans hpdev)⟩
    intro k hk
    rw [List.length_append]
    exact hshallow k hk

/-- What is marked on a report: the new directory, and what a walk comes to from there. -/
theorem Appears.reached_new (h : s.Appears root dev c) {n₀ n : FsTree.Node OsString}
    (hn₀ : c.os.fs.lookup (root ++ c.place) = some n₀) (hdir₀ : n₀.kind = .dir) (hdev₀ : n₀.dev = dev)
    {limit : Option Nat} {t : List OsString} (hn : c.os.fs.lookup (root ++ (c.place ++ t)) = some n)
    (hdir : n.kind = .dir) :
    (n₀.openable = true ∧ c.os.mark_ok n₀.ino = true ∧ (n₀.ino = n.ino ∨
        ∃ t' n', c.os.Walked limit (root ++ c.place) t' n' ∧ n'.ino = n.ino)) ↔
      Opens root c t n ∧ (t = [] ∨ ∀ k, limit = some k → t.length ≤ k) := by
  have hmark₀ := h.plain.mark _ n₀ hn₀ hdir₀
  have hbelow : c.os.fs.lookup (root ++ c.place ++ t) = some n := by rwa [List.append_assoc]
  rw [walked_at hbelow hdir]
  rcases eq_or_ne t [] with rfl | ht
  · -- the new directory itself
    rw [List.append_nil] at hn
    obtain rfl : n₀ = n := Option.some.inj (hn₀.symm.trans hn)
    constructor
    · exact fun hnew => ⟨⟨fun i hi => absurd hi (Nat.not_lt_zero i), hnew.1⟩, Or.inl rfl⟩
    · exact fun hopens => ⟨hopens.1.2, (hmark₀ hopens.1.2).2 hdev₀, Or.inl rfl⟩
  · have hother : n₀.ino ≠ n.ino := fun hino => by
      have hplace := FsTree.Tree.dir_unique hn₀ hn hdir₀ hdir hino
      exact ht (by simpa using hplace)
    rw [or_iff_right hother, or_iff_right ht]
    constructor
    · rintro ⟨_, _, hwalked, _⟩
      exact ⟨⟨hwalked.through, hwalked.openable⟩, hwalked.shallow⟩
    · rintro ⟨⟨hway, hopen⟩, hshallow⟩
      -- the way leads through the new directory
      obtain ⟨n', hn', _, hopen', _⟩ := hway 0 (List.length_pos_of_ne_nil ht)
      rw [List.take_zero, List.append_nil] at hn'
      obtain rfl : n₀ = n' := Option.some.inj (hn₀.symm.trans hn')
      have hdevn : n.dev = dev := by
        obtain ⟨p, _, hp, _⟩ := h.parent
        have hsame₀ := h.same_dev p hp [] n₀ (by rw [List.append_nil]; exact hn₀) hdir₀
        exact (h.same_dev p hp t n hn hdir).trans (hsame₀.symm.trans hdev₀)
      exact ⟨hopen', (hmark₀ hopen').2 hdev₀, ⟨ht, hway, hbelow, hdir, hopen, hshallow⟩,
        (h.plain.mark _ n hn hdir hopen).2 hdevn⟩

end

section
variable [Sizefilter] {c : Creation}

/-- What a creation that is reported changes: the marks that `on_new_subdirectory` adds. -/
theorem step_heard (h : s.Settled root opts fan_fd dev) (happears : s.Appears root dev c)
    (hfits : s.Fits root opts fan_fd c) (hheard : s.heard root fan_fd c = true) {n : FsTree.Node OsString}
    (hn : c.os.fs.lookup (root ++ c.place) = some n) (hdir : n.kind = .dir) (hdev : n.dev = dev) :
    (s.step root fan_fd c).monitor.monitored_entries = s.monitor.monitored_entries ∧
      (s.step root fan_fd c).monitor.fanotify.groups = s.monitor.fanotify.groups ∧
      (s.step root fan_fd c).monitor.fanotify.factory = s.monitor.fanotify.factory ∧
      ∀ ino, (s.step root fan_fd c).marked fan_fd ino = true ↔ s.marked fan_fd ino = true ∨
        n.openable = true ∧ c.os.mark_ok n.ino = true ∧ (n.ino = ino ∨
          ∃ t n', c.os.Walked s.monitor.least_depth (root ++ c.place) t n' ∧ n'.ino = ino) := by
  obtain ⟨ev, hreport⟩ := happears.report
  obtain ⟨key, group, hgroup, rfl⟩ := h.group
  obtain ⟨r, cache, hbatch⟩ := batch_of_creation hreport (hfits.processed hheard ev hreport)
    (new_of_creation h happears hreport)
  obtain ⟨hentries, hgroups, hfactory⟩ :=
    Monitor.on_new_subdirectory_keeps c.os { s.monitor with metrics := r } (root ++ c.place)
  have hbits : s.monitor.combined_mask &&& ~~~FAN_FS_ERROR ≠ 0 := by
    have hin : opts ∈ s.monitor.monitored_entries.map (·.2) := List.mem_map.2 ⟨_, h.entry, rfl⟩
    have hwithin := (PathOptions.within_masks_of hin).strip (~~~FAN_FS_ERROR)
    intro hnone
    rw [Mask.Within, show PathOptions.masks_of _ &&& ~~~FAN_FS_ERROR = 0 from hnone] at hwithin
    exact opts.path_mask_ne_zero (hwithin.symm.trans BitVec.and_zero)
  have hstep : (s.step root group.fan_fd c).monitor =
      { ({ s.monitor with metrics := r }.on_new_subdirectory c.os (root ++ c.place)).1 with
        file_size_cache := cache } := by
    rw [step, hheard, if_pos rfl, hbatch]
  have hmask := fun ino => @Monitor.on_new_subdirectory_mask_iff c.os { s.monitor with metrics := r }
    (root ++ c.place) n key ino group hn hdir (by rw [hdev]; exact hgroup) h.factory hbits
  refine ⟨?_, ?_, ?_, fun ino => ?_⟩
  · rw [hstep]
    exact hentries
  · rw [hstep]
    exact hgroups
  · rw [hstep]
    exact hfactory
  · rw [marked, marked, hstep, decide_eq_true_eq, decide_eq_true_eq]
    exact hmask ino

/-- **One creation that fits keeps the marks right.** -/
theorem settled_step (h : s.Settled root opts fan_fd dev) (happears : s.Appears root dev c)
    (hfits : s.Fits root opts fan_fd c) : (s.step root fan_fd c).Settled root opts fan_fd dev := by
  obtain ⟨p, hp, hp', hpdir⟩ := happears.parent
  obtain ⟨n₀, hn₀, hdir₀⟩ := happears.made
  have hheard : s.heard root fan_fd c = s.marked fan_fd p.ino := by rw [heard, hp, Option.any_some]
  have htop : c.os.fs.lookup root = s.os.fs.lookup root := by
    have hkept := happears.kept [] fun hpre => by simp [Creation.place] at hpre
    rwa [List.append_nil] at hkept
  -- the facts that do not speak of the new directories, and what is marked now
  obtain ⟨hentries, hgroups, hfactory, hold, hnew⟩ :
      (s.step root fan_fd c).monitor.monitored_entries = s.monitor.monitored_entries ∧
      (s.step root fan_fd c).monitor.fanotify.groups = s.monitor.fanotify.groups ∧
      (s.step root fan_fd c).monitor.fanotify.factory = s.monitor.fanotify.factory ∧
      (∀ r n, ¬ c.place <+: r → c.os.fs.lookup (root ++ r) = some n → n.kind = .dir →
        ((s.step root fan_fd c).marked fan_fd n.ino = true ↔ s.marked fan_fd n.ino = true)) ∧
      (∀ t n, c.os.fs.lookup (root ++ (c.place ++ t)) = some n → n.kind = .dir →
        ((s.step root fan_fd c).marked fan_fd n.ino = true ↔
          c.os.Walked opts.max_depth root (c.place ++ t) n)) := by
    cases hmarked : s.marked fan_fd p.ino with
    | false =>
        rw [hmarked] at hheard
        have hsame : (s.step root fan_fd c).monitor = s.monitor := by
          rw [step, hheard]
          rfl
        have hmarks : ∀ ino, (s.step root fan_fd c).marked fan_fd ino = s.marked fan_fd ino :=
          fun ino => by rw [marked, marked, hsame]
        refine ⟨by rw [hsame], by rw [hsame], by rw [hsame], fun r n _ _ _ => by rw [hmarks],
          fun t n hn hdir => ?_⟩
        rw [hmarks, hfits.unmarked t n hn hdir fun hno => by rw [hheard] at hno; cases hno]
        refine iff_of_false (by decide) fun hwalked => ?_
        -- a walk that marks it marks the directory it is in, which would have reported it
        rw [happears.walked_new hp' hpdir hn hdir] at hwalked
        obtain ⟨⟨hway, hopen, _⟩, _, hdev, hshallow⟩ := hwalked
        have hparent : s.marked fan_fd p.ino = true := by
          rcases eq_or_ne c.above [] with hroot | hbelow
          · obtain ⟨top, hlook, _, _, _, hmark⟩ := h.root_dir
            rw [hroot, List.append_nil, hlook] at hp
            rwa [← Option.some.inj hp]
          · refine (h.marks _ p hbelow hp hpdir).2
              ((happears.walked_old h.plain (place_not_above c)).1 ?_)
            refine ⟨⟨hbelow, hway, hp', hpdir, hopen, fun k hk => ?_⟩,
              (happears.plain.mark _ p hp' hpdir hopen).2 hdev⟩
            have hle := hshallow k hk
            rw [Creation.place, List.length_append, List.length_singleton] at hle
            omega
        rw [hmarked] at hparent
        cases hparent
    | true =>
        rw [hmarked] at hheard
        obtain ⟨hway, hopen, hread, hdev⟩ := h.leads hp hpdir hmarked
        have hdev₀ : n₀.dev = dev :=
          (happears.same_dev p hp' [] n₀ (by rw [List.append_nil]; exact hn₀) hdir₀).trans hdev
        obtain ⟨hentries, hgroups, hfactory, hmarks⟩ := step_heard h happears hfits hheard hn₀ hdir₀ hdev₀
        refine ⟨hentries, hgroups, hfactory, fun r n hr hn hdir => ?_, fun t n hn hdir => ?_⟩
        · -- only directories at or below the new one are marked
          rw [hmarks]
          refine or_iff_left ?_
          rintro ⟨_, _, hino | ⟨t, n', hwalked, hino⟩⟩
          · have hplace := FsTree.Tree.dir_unique hn₀ hn hdir₀ hdir hino
            exact hr (List.append_cancel_left hplace ▸ List.prefix_rfl)
          · have hplace := FsTree.Tree.dir_unique hwalked.1.found hn hwalked.1.is_dir hdir hino
            rw [List.append_assoc] at hplace
            exact hr (List.append_cancel_left hplace ▸ List.prefix_append _ _)
        · have hlead : c.os.Through root c.above ∧ p.openable = true ∧ p.readable = true :=
            ⟨(happears.through_old (place_not_above c)).2 hway, hopen, hread⟩
          rw [hmarks, happears.reached_new hn₀ hdir₀ hdev₀ hn hdir, happears.walked_new hp' hpdir hn hdir,
            and_iff_right hlead, and_iff_right hdev]
          by_cases hopens : Opens root c t n
          · rw [and_iff_right hopens, and_iff_right hopens]
            exact hfits.depth hheard t n hn hdir hopens
          · rw [hfits.unmarked t n hn hdir fun _ => hopens]
            simp [hopens]
  obtain ⟨key, group, hgroup, hfan⟩ := h.group
  refine ⟨hentries ▸ h.entry, h.recursive, ⟨key, group, ?_, hfan⟩, hfactory.trans h.factory, ?_,
    happears.plain, fun r n hr hn hdir => ?_⟩
  · rw [Monitor.group_on, hgroups]
    exact hgroup
  · obtain ⟨top, hlook, hdir, hopen, hdev, hmark⟩ := h.root_dir
    have hlook' : c.os.fs.lookup root = some top := htop.trans hlook
    refine ⟨top, hlook', hdir, hopen, hdev, (hold [] top ?_ ?_ hdir).2 hmark⟩
    · intro hpre
      simp [Creation.place] at hpre
    · rw [List.append_nil]
      exact hlook'
  · by_cases hbelow : c.place <+: r
    · obtain ⟨t, rfl⟩ := hbelow
      exact hnew t n hn hdir
    · rw [hold r n hbelow hn hdir]
      refine (h.marks r n hr ?_ hdir).trans (happears.walked_old h.plain hbelow).symm
      rw [← happears.kept r hbelow]
      exact hn

end

end

/-! ## Over runs -/

/-- The entry has been added: its root is marked, and one walk with its limit has marked what is below. -/
structure Started (root : PathBuf) (opts : PathOptions) (fan_fd dev : Nat) (s : Watched) : Prop where
  entry : (root, opts) ∈ s.monitor.monitored_entries
  recursive : opts.recursive = true
  group : ∃ key group, s.monitor.group_on dev = some (key, group) ∧ group.fan_fd = fan_fd
  factory : s.monitor.fanotify.factory = true
  plain : s.os.Plain root dev
  walked : ∃ top k cache mask caching, s.os.fs.lookup root = some top ∧ top.kind = .dir ∧
    top.openable = true ∧ top.dev = dev ∧ k.mask fan_fd top.ino ≠ 0 ∧
    (∀ r n, r ≠ [] → s.os.fs.lookup (root ++ r) = some n → n.kind = .dir → k.mask fan_fd n.ino = 0) ∧
    mask &&& ~~~FAN_FS_ERROR ≠ 0 ∧ s.monitor.kernel =
      (mark_recursive_with_depth s.os k cache fan_fd mask root opts.max_depth caching).kernel

section
variable {root : PathBuf} {opts : PathOptions} {fan_fd dev : Nat} {s : Watched}

theorem settled_start (h : s.Started root opts fan_fd dev) : s.Settled root opts fan_fd dev := by
  obtain ⟨top, k, cache, mask, caching, hlook, hdir, hopen, hdev, hmarked, hclear, hbits, hkernel⟩ :=
    h.walked
  have hreal := FsTree.Tree.isReal_of_dir hlook hdir
  refine ⟨h.entry, h.recursive, h.group, h.factory, ⟨top, hlook, hdir, hopen, hdev, ?_⟩, h.plain,
    fun r n hr hn hndir => ?_⟩
  · rw [marked, hkernel, decide_eq_true_eq, mark_recursive_mask_iff hreal hbits]
    exact Or.inl hmarked
  · rw [marked, hkernel, decide_eq_true_eq, mark_recursive_mask_iff hreal hbits, walked_at hn hndir]
    exact or_iff_right fun hno => hno (hclear r n hr hn hndir)

/-- **Incremental marking is batch marking** in every run of creations that fit: the marks below the
root are those of one walk from it on the last tree. -/
theorem incremental_marks [Sizefilter] (hstart : s.Started root opts fan_fd dev) (run : List Creation)
    (hrun : Run.Guarded (step root fan_fd)
      (fun s c => s.Appears root dev c ∧ s.Fits root opts fan_fd c) s run) :
    (Run.exec (step root fan_fd) s run).SameMarks root opts fan_fd :=
  (Run.inv_exec (fun _ _ h hok => settled_step h hok.1 hok.2) run s (settled_start hstart) hrun).same_marks

end

/-! ### Two trees -/

/-- `/a` and `/e`. -/
def twoRoots : FsTree.Tree OsString :=
  ⟨⟨1, 1, .dir, true, true⟩, Os.root_is_dir,
    [([[0x61]], ⟨2, 1, .dir, true, true⟩), ([[0x65]], ⟨3, 1, .dir, true, true⟩)],
    by decide, by decide, by decide⟩

/-- `/a/b` as well. -/
def oneBelow : FsTree.Tree OsString :=
  ⟨⟨1, 1, .dir, true, true⟩, Os.root_is_dir,
    twoRoots.nodes ++ [([[0x61], [0x62]], ⟨4, 1, .dir, true, true⟩)],
    by decide, by decide, by decide⟩

/-- `/a/b/c` as well. -/
def twoBelow : FsTree.Tree OsString :=
  ⟨⟨1, 1, .dir, true, true⟩, Os.root_is_dir,
    oneBelow.nodes ++ [([[0x61], [0x62], [0x63]], ⟨5, 1, .dir, true, true⟩)],
    by decide, by decide, by decide⟩

/-- Below `/a` a directory appears. -/
def appear (fs : FsTree.Tree OsString) (above : List OsString) (name : OsString) : Creation :=
  ⟨.calm fs, above, name, ⟨FAN_CREATE ||| FAN_ONDIR, 7, [0x61] :: (above ++ [name]), none, none, 0⟩⟩

theorem plain_calm {fs : FsTree.Tree OsString} (root : PathBuf)
    (h : ∀ e ∈ ([], fs.root) :: fs.nodes, e.2.dev = 1 ∧ e.2.readable = true) :
    (Os.calm fs).Plain root 1 where
  readable _ _ hn _ _ := (h _ (FsTree.Tree.mem_of_lookup hn)).2
  mark _ _ hn _ _ := iff_of_true rfl (h _ (FsTree.Tree.mem_of_lookup hn)).1

/-- Nodes are added at and below the new directory. -/
theorem appears_calm {m : Monitor} {fs fs' : FsTree.Tree OsString}
    {new : List (PathBuf × FsTree.Node OsString)} {above : List OsString} {name : OsString}
    {n : FsTree.Node OsString}
    (hroot : fs'.root = fs.root) (hnodes : fs'.nodes = fs.nodes ++ new)
    (hnew : ∀ e ∈ new, ([0x61] :: (above ++ [name])) <+: e.1)
    (hfresh : fs.lookup ([0x61] :: (above ++ [name])) = none)
    (hmade : fs'.lookup ([0x61] :: (above ++ [name])) = some n) (hdir : n.kind = .dir)
    (hflags : ∀ e ∈ ([], fs'.root) :: fs'.nodes, e.2.dev = 1 ∧ e.2.readable = true) :
    Appears [[0x61]] 1 ⟨m, .calm fs⟩ (appear fs' above name) where
  fresh := hfresh
  made := ⟨n, hmade, hdir⟩
  kept r hr := by
    refine FsTree.Tree.lookup_grown hroot hnodes fun e he hself => hr ?_
    have hpre := hnew e he
    rw [hself] at hpre
    exact (List.cons_prefix_cons.1 hpre).2
  same_dev parent hparent t n' hn' _ :=
    (hflags _ (FsTree.Tree.mem_of_lookup hn')).1.trans
      (hflags _ (FsTree.Tree.mem_of_lookup hparent)).1.symm
  plain := plain_calm _ hflags
  report := by
    refine ⟨(appear fs' above name).raw, rfl, rfl, ?_, ?_, ?_⟩
    · show (FAN_CREATE ||| FAN_ONDIR) &&& FAN_Q_OVERFLOW = 0
      rfl
    · show ((mask_to_event_types (FAN_CREATE ||| FAN_ONDIR)).contains .create ||
        (mask_to_event_types (FAN_CREATE ||| FAN_ONDIR)).contains .movedTo) = true
      rfl
    · show ((mask_to_event_types (FAN_CREATE ||| FAN_ONDIR)).contains .deleteSelf ||
        (mask_to_event_types (FAN_CREATE ||| FAN_ONDIR)).contains .movedFrom ||
          (mask_to_event_types (FAN_CREATE ||| FAN_ONDIR)).contains .delete) = false
      rfl

/-- `/a` for all processes, down to a depth. -/
def rootEntry (max_depth : Option Nat) : PathEntry := ⟨none, [[0x61]], some true, none, none, max_depth⟩

def rootOptions (max_depth : Option Nat) : PathOptions := ⟨none, none, true, none, max_depth⟩

/-- Nothing is below `/a`, so a walk marks nothing. -/
theorem started_twoRoots {m : Monitor} {opts : PathOptions} {key : Nat} {group : FsGroup}
    (hentry : ([[0x61]], opts) ∈ m.monitored_entries) (hrec : opts.recursive = true)
    (hgroup : m.group_on 1 = some (key, group)) (hfan : group.fan_fd = 0)
    (hfactory : m.fanotify.factory = true) (hroot : m.kernel.mask 0 2 ≠ 0)
    (hkernel : m.kernel = (mark_recursive_with_depth (.calm twoRoots) m.kernel ∅ 0
      opts.path_mask_from_options [[0x61]] opts.max_depth false).kernel) :
    Started [[0x61]] opts 0 1 ⟨m, .calm twoRoots⟩ := by
  refine ⟨hentry, hrec, ⟨key, group, hgroup, hfan⟩, hfactory, plain_calm _ (by decide),
    ⟨⟨2, 1, .dir, true, true⟩, m.kernel, ∅, _, false, rfl, rfl, rfl, rfl, hroot, ?_, opts.path_mask_ne_zero,
      hkernel⟩⟩
  intro r n hr hn _
  have hmem := FsTree.Tree.mem_of_lookup hn
  simp [Os.calm, twoRoots, hr] at hmem

/-- Nothing is below `/a/b`. -/
theorem at_oneBelow {t : List OsString} {n : FsTree.Node OsString}
    (hn : oneBelow.lookup ([0x61] :: ([0x62] :: t)) = some n) :
    t = [] ∧ n = ⟨4, 1, .dir, true, true⟩ := by
  have hmem := FsTree.Tree.mem_of_lookup hn
  simpa [oneBelow, twoRoots] using hmem

/-- `/a/b` appears below a root that is watched one level deep. -/
theorem incremental_marks_mkdir : ∃ m,
    @Monitor.add_path noSizes (.calm twoRoots) .idle (rootEntry (some 1)) = .ok m ∧
      (Run.exec (@step [[0x61]] 0 noSizes) ⟨m, .calm twoRoots⟩ [appear oneBelow [] [0x62]]).SameMarks
        [[0x61]] (rootOptions (some 1)) 0 := by
  refine ⟨_, rfl, @incremental_marks [[0x61]] (rootOptions (some 1)) 0 1 _ noSizes ?_ _
    ⟨⟨?_, ?_⟩, trivial⟩⟩
  · exact started_twoRoots (List.mem_singleton_self _) rfl rfl rfl rfl (by decide) rfl
  · exact appears_calm rfl rfl (by decide) rfl rfl rfl (by decide)
  · refine ⟨fun _ ev hev => ?_, fun _ t n hn _ _ => ?_, fun t n hn _ _ => ?_⟩
    · obtain rfl := List.singleton_inj.1 hev.alone
      rfl
    · obtain ⟨rfl, rfl⟩ := at_oneBelow hn
      exact iff_of_true (Or.inr (Or.inl rfl)) fun k hk => by cases hk; exact Nat.le_refl 1
    · obtain ⟨rfl, rfl⟩ := at_oneBelow hn
      rfl

/-- Two levels below a root that is watched one level deep, a directory is marked; and a limit of
another entry, elsewhere, cuts a tree that is moved below a root without a limit. -/
theorem marks_differ :
    (∃ m, @Monitor.add_path noSizes (.calm twoRoots) .idle (rootEntry (some 1)) = .ok m ∧
      Started [[0x61]] (rootOptions (some 1)) 0 1 ⟨m, .calm twoRoots⟩ ∧
      Run.Guarded (@step [[0x61]] 0 noSizes) (Appears [[0x61]] 1) ⟨m, .calm twoRoots⟩
        [appear oneBelow [] [0x62], appear twoBelow [[0x62]] [0x63]] ∧
      ¬ (Run.exec (@step [[0x61]] 0 noSizes) ⟨m, .calm twoRoots⟩
        [appear oneBelow [] [0x62], appear twoBelow [[0x62]] [0x63]]).SameMarks
          [[0x61]] (rootOptions (some 1)) 0) ∧
    ∃ m₁ m,
      @Monitor.add_path noSizes (.calm twoRoots) .idle ⟨none, [[0x65]], some true, none, none, some 0⟩ =
        .ok m₁ ∧
      @Monitor.add_path noSizes (.calm twoRoots) m₁ (rootEntry none) = .ok m ∧
      Started [[0x61]] (rootOptions none) 0 1 ⟨m, .calm twoRoots⟩ ∧
      Run.Guarded (@step [[0x61]] 0 noSizes) (Appears [[0x61]] 1) ⟨m, .calm twoRoots⟩
        [appear twoBelow [] [0x62]] ∧
      ¬ (Run.exec (@step [[0x61]] 0 noSizes) ⟨m, .calm twoRoots⟩
        [appear twoBelow [] [0x62]]).SameMarks [[0x61]] (rootOptions none) 0 := by
  constructor
  · refine ⟨_, rfl, ?_, ⟨?_, ?_, trivial⟩, fun h => ?_⟩
    · exact started_twoRoots (List.mem_singleton_self _) rfl rfl rfl rfl (by decide) rfl
    · exact appears_calm rfl rfl (by decide) rfl rfl rfl (by decide)
    · exact appears_calm rfl rfl (by decide) rfl rfl rfl (by decide)
    · have hc := h [[0x62], [0x63]] ⟨5, 1, .dir, true, true⟩ (by decide) rfl rfl
      revert hc
      decide +kernel
  · refine ⟨_, _, rfl, rfl, ?_, ⟨?_, trivial⟩, fun h => ?_⟩
    · exact started_twoRoots (List.mem_cons_of_mem _ (List.mem_singleton_self _)) rfl rfl rfl rfl
        (by decide) rfl
    · exact @appears_calm _ _ _ [([[0x61], [0x62]], ⟨4, 1, .dir, true, true⟩),
        ([[0x61], [0x62], [0x63]], ⟨5, 1, .dir, true, true⟩)] _ _ _ rfl rfl (by decide) rfl rfl rfl
        (by decide)
    · have hc := h [[0x62], [0x63]] ⟨5, 1, .dir, true, true⟩ (by decide) rfl rfl
      revert hc
      decide +kernel

end Watched

end Fsmon
