/-
# `Fsmon.Monitor.Marks` — what the mark of an inode carries

A mark only grows until an unmark drops it whole: `Adds k k'` says that calls between
`k` and `k'` were additions, and what a mark carries it still carries then.
-/
import Fsmon.Monitor.Walk

namespace Fsmon

/-- Every call about a directory succeeds. -/
structure Os.Willing (os : Os) : Prop where
  mark : ∀ ino, os.mark_ok ino = true
  create : ∀ ino, os.create_ok ino = true
  dirs : ∀ p n, os.fs.lookup p = some n → n.kind = .dir → n.openable = true ∧ n.readable = true

namespace Os.Willing

variable {os : Os} (h : os.Willing) {p : PathBuf} {n : FsTree.Node OsString}

include h

theorem open_dir (hn : os.fs.lookup p = some n) (hkind : n.kind = .dir) :
    os.open_dir_safe p = some ⟨p, n⟩ := by
  rw [Os.open_dir_safe, FsTree.Tree.open_dir_of_lookup hn hkind (h.dirs p n hn hkind).1]
  rfl

theorem read_dir (hn : os.fs.lookup p = some n) (hkind : n.kind = .dir) :
    os.fs.read_dir p = some (os.fs.children p) :=
  FsTree.Tree.read_dir_of_lookup hn hkind (h.dirs p n hn hkind).2

end Os.Willing

/-! ## Bits -/

/-- All bits of the one are in the other. -/
def Mask.Within (a b : Mask) : Prop := a &&& b = a

namespace Mask

variable {a b c : Mask}

theorem Within.refl (a : Mask) : Within a a := BitVec.and_self

theorem Within.trans (h : Within a b) (h' : Within b c) : Within a c := by
  rw [Within, ← h, BitVec.and_assoc, h', h]

theorem within_or_left (a b : Mask) : Within a (a ||| b) := by
  rw [Within]
  ext i hi
  simp only [BitVec.getElem_and, BitVec.getElem_or]
  grind

theorem within_or_right (a b : Mask) : Within b (a ||| b) := by
  rw [BitVec.or_comm]
  exact within_or_left b a

theorem Within.strip (h : Within a b) (c : Mask) : Within (a &&& c) (b &&& c) := by
  rw [Within] at h ⊢
  rw [← h]
  ext i hi
  simp only [BitVec.getElem_and]
  grind

end Mask

/-! ## The mark of an inode in a group -/

namespace Kernel

variable {k k' k'' : Kernel} {fan_fd ino : Nat} {bits : Mask}

/-- The mark of the inode carries these bits. -/
def Carries (k : Kernel) (fan_fd ino : Nat) (bits : Mask) : Prop := bits.Within (k.mask fan_fd ino)

/-- One call, on the mark of an inode. -/
def after (fan_fd ino : Nat) (m : Mask) : MarkOp → Mask
  | .add g d b => if g = fan_fd ∧ d.node.ino = ino then m ||| b else m
  | .remove g d => if g = fan_fd ∧ d.node.ino = ino then 0 else m

theorem mask_append {ops : List MarkOp} (h : k'.marks = k.marks ++ ops) :
    k'.mask fan_fd ino = ops.foldl (after fan_fd ino) (k.mask fan_fd ino) := by
  rw [mask, mask, h, List.foldl_append]
  rfl

/-- Only marks were added. -/
def Adds (k k' : Kernel) : Prop :=
  ∃ ops, k'.marks = k.marks ++ ops ∧ ∀ op ∈ ops, ∃ g d b, op = .add g d b

theorem Adds.refl (k : Kernel) : Adds k k := ⟨[], by rw [List.append_nil], nofun⟩

theorem Adds.trans (h : Adds k k') (h' : Adds k' k'') : Adds k k'' := by
  obtain ⟨ops, hops, hadds⟩ := h
  obtain ⟨ops', hops', hadds'⟩ := h'
  refine ⟨ops ++ ops', by rw [hops', hops, List.append_assoc], fun op hop => ?_⟩
  rcases List.mem_append.1 hop with hop | hop
  · exact hadds op hop
  · exact hadds' op hop

theorem within_foldl_adds {ops : List MarkOp} (hadds : ∀ op ∈ ops, ∃ g d b, op = .add g d b) :
    ∀ m, bits.Within m → bits.Within (ops.foldl (after fan_fd ino) m) := by
  intro m hm
  refine List.foldlRecOn (motive := bits.Within) ops _ hm ?_
  intro m hm op hop
  obtain ⟨g, d, b, rfl⟩ := hadds op hop
  rw [after]
  split
  · exact hm.trans (Mask.within_or_left m b)
  · exact hm

/-- What a mark carries it carries after additions. -/
theorem Adds.carries (h : Adds k k') (hc : k.Carries fan_fd ino bits) :
    k'.Carries fan_fd ino bits := by
  obtain ⟨ops, hops, hadds⟩ := h
  rw [Carries, mask_append hops]
  exact within_foldl_adds hadds _ hc

/-- An addition that has not been undone. -/
theorem Adds.added {ops : List MarkOp} (hops : k'.marks = k.marks ++ ops)
    (hadds : ∀ op ∈ ops, ∃ g d b, op = .add g d b) {dir : DirFd} {b : Mask}
    (hmem : .add fan_fd dir b ∈ ops) : k'.Carries fan_fd dir.node.ino b := by
  obtain ⟨before, after_, hsplit⟩ := List.append_of_mem hmem
  rw [Carries, mask_append hops, hsplit, List.foldl_append, List.foldl_cons]
  refine within_foldl_adds (fun op hop => hadds op ?_) _ ?_
  · rw [hsplit]
    exact List.mem_append_right _ (List.mem_cons_of_mem _ hop)
  · rw [after, if_pos ⟨rfl, rfl⟩]
    exact Mask.within_or_right _ b

theorem adds_mark (os : Os) (k : Kernel) (fan_fd : Nat) (dirs : List DirFd) (mask : Mask) :
    Adds k (k.mark os fan_fd dirs mask) := by
  refine ⟨_, rfl, fun op hop => ?_⟩
  obtain ⟨d, _, rfl⟩ := List.mem_map.1 hop
  exact ⟨fan_fd, d, _, rfl⟩

theorem mark_carries {os : Os} (k : Kernel) {dirs : List DirFd} {dir : DirFd} {mask : Mask}
    (hmem : dir ∈ dirs) (hok : os.mark_ok dir.node.ino = true) :
    (k.mark os fan_fd dirs mask).Carries fan_fd dir.node.ino (mask &&& ~~~FAN_FS_ERROR) := by
  refine Adds.added rfl (fun op hop => ?_) (List.mem_map.2 ⟨dir, List.mem_filter.2 ⟨hmem, hok⟩, rfl⟩)
  obtain ⟨d, _, rfl⟩ := List.mem_map.1 hop
  exact ⟨fan_fd, d, _, rfl⟩

theorem adds_mark_directory_at {os : Os} {dir : DirFd} {mask : Mask}
    (h : k.mark_directory_at os fan_fd dir mask = some k') : Adds k k' := by
  rw [mark_directory_at] at h
  split at h
  · cases h
    exact adds_mark ..
  · cases h

theorem mark_directory_at_carries {os : Os} {dir : DirFd} {mask : Mask}
    (h : k.mark_directory_at os fan_fd dir mask = some k') :
    k'.Carries fan_fd dir.node.ino (mask &&& ~~~FAN_FS_ERROR) := by
  rw [mark_directory_at] at h
  split at h
  · next hok =>
      cases h
      exact mark_carries k (List.mem_singleton_self _) hok
  · cases h

theorem adds_mark_directory (os : Os) (k : Kernel) (fan_fd : Nat) (mask : Mask) (path : PathBuf) :
    Adds k (k.mark_directory os fan_fd mask path) := by
  rw [mark_directory]
  cases os.open_dir_safe path with
  | none => exact .refl k
  | some dir =>
      simp only
      cases h : k.mark_directory_at os fan_fd dir mask with
      | none => exact .refl k
      | some k' => exact adds_mark_directory_at h

theorem adds_create_group_and_mark {os : Os} {dir : DirFd} {mask : Mask} {r : Nat × Kernel}
    (h : k.create_group_and_mark os dir mask = some r) :
    Adds k r.2 ∧ r.2.Carries r.1 dir.node.ino (mask &&& ~~~FAN_FS_ERROR) := by
  rw [create_group_and_mark] at h
  split at h
  · cases h
    have hadds : ∀ op ∈ [MarkOp.add k.next_fd dir (mask &&& ~~~FAN_FS_ERROR)],
        ∃ g d b, op = .add g d b := by
      intro op hop
      exact ⟨_, _, _, List.mem_singleton.1 hop⟩
    exact ⟨⟨_, rfl, hadds⟩, Adds.added rfl hadds (List.mem_singleton_self _)⟩
  · cases h

end Kernel

/-- The walk only adds marks. -/
theorem adds_mark_recursive (os : Os) (k : Kernel) (cache : DirCache) (fan_fd : Nat) (mask : Mask)
    (dir : PathBuf) (max_depth : Option Nat) (caching : Bool) :
    Kernel.Adds k
      (mark_recursive_with_depth os k cache fan_fd mask dir max_depth caching).kernel := by
  have hflush : ∀ w : Walk, Kernel.Adds k w.kernel →
      Kernel.Adds k (w.flush_pending_marks os fan_fd (mask &&& ~~~FAN_FS_ERROR)).kernel :=
    fun w hw => hw.trans (Kernel.adds_mark ..)
  refine hflush _ (Walk.run_inv (P := fun w => Kernel.Adds k w.kernel) ?_ _ _ (.refl k))
  intro w current depth rest h _
  refine Walk.visit_inv (P := fun w => Kernel.Adds k w.kernel) (fun _ _ _ h => h) hflush ?_ _ current
    depth h
  intro w current depth dir _ h
  have hseed : Kernel.Adds k (w.seed os caching current dir).kernel := by
    rw [Walk.seed]
    split <;> exact h
  rw [Walk.enter]
  split
  · exact hseed
  · exact Walk.collect_inv (P := fun w => Kernel.Adds k w.kernel) hflush hseed

end Fsmon
