/-
# `Fsmon.Monitor.Walk` — the loop rule of the marking walk, and the handles it seeds

`mark_recursive_with_depth` is a loop over a queue; `run_inv` lifts what one turn
keeps to the whole loop.  Its first use is about handles: a walk that is given a
cache leaves every directory it marks resolvable (`mark_recursive_seeds`), one
that is given none leaves the cache as it is (`mark_recursive_blind`).

`Resolves os cache ino` says that the handle of the directory is in the cache,
for a path that leads to it.  Inserting the handle of another directory does not
undo it, since a handle names one directory (`Resolves.insert`).
-/
import Fsmon.Monitor.LivePath

namespace Fsmon

/-! ## Marks added -/

/-- The directories of the additions among some mark calls. -/
def dirs_added (ops : List MarkOp) : List DirFd :=
  ops.filterMap fun
    | .add _ d _ => some d
    | .remove .. => none

@[simp] theorem dirs_added_nil : dirs_added [] = [] := rfl

@[simp] theorem dirs_added_append (ops ops' : List MarkOp) :
    dirs_added (ops ++ ops') = dirs_added ops ++ dirs_added ops' := List.filterMap_append ..

@[simp] theorem dirs_added_add (fan_fd : Nat) (d : DirFd) (mask : Mask) :
    dirs_added [.add fan_fd d mask] = [d] := rfl

theorem dirs_added_map (fan_fd : Nat) (mask : Mask) (ds : List DirFd) :
    dirs_added (ds.map fun d => .add fan_fd d mask) = ds := by
  simp [dirs_added, List.filterMap_map]

/-- The marks one operation adds. -/
def newly_marked (k k' : Kernel) : List DirFd := dirs_added (k'.marks.drop k.marks.length)

theorem newly_marked_eq {k k' : Kernel} {ops : List MarkOp} (h : k'.marks = k.marks ++ ops) :
    newly_marked k k' = dirs_added ops := by
  rw [newly_marked, h, List.drop_left]

/-! ## Handles -/

/-- The directory's handle is in the cache, for a path that leads to the directory. -/
def Resolves (os : Os) (cache : DirCache) (ino : Nat) : Prop :=
  ∃ key p n, os.handle ino = some key ∧ cache.lookup key = some p ∧ os.fs.lstat p = some n ∧
    n.ino = ino

section
variable {os : Os} {cache : DirCache}

/-- Inserting the handle of a directory under a path of it: it resolves, and nothing is undone. -/
theorem Resolves.insert {key : HandleKey} {p : PathBuf} {n : FsTree.Node OsString}
    (hkey : os.handle n.ino = some key) (hp : os.fs.lstat p = some n) :
    Resolves os (cache.insert key p) n.ino ∧
      ∀ ino, Resolves os cache ino → Resolves os (cache.insert key p) ino := by
  refine ⟨⟨key, p, n, hkey, by rw [HashMap.lookup_insert', if_pos rfl], hp, rfl⟩, ?_⟩
  rintro ino ⟨key', p', n', hkey', hlook, hp', rfl⟩
  by_cases hk : key' = key
  · -- the same handle, hence the same directory
    subst hk
    refine ⟨key', p, n, hkey', ?_, hp, os.handle_inj _ _ _ hkey hkey'⟩
    rw [HashMap.lookup_insert', if_pos rfl]
  · exact ⟨key', p', n', hkey', by rw [HashMap.lookup_insert', if_neg hk]; exact hlook, hp', rfl⟩

theorem resolves_cache_handle_from_fd {dir : DirFd} {p : PathBuf} (hp : os.fs.lstat p = some dir.node) :
    ((os.handle dir.node.ino).isSome → Resolves os (cache_handle_from_fd os cache dir p) dir.node.ino) ∧
      ∀ ino, Resolves os cache ino → Resolves os (cache_handle_from_fd os cache dir p) ino := by
  rw [cache_handle_from_fd]
  cases hkey : os.handle dir.node.ino with
  | none => exact ⟨fun h => by simp at h, fun _ h => h⟩
  | some key => exact ⟨fun _ => (Resolves.insert hkey hp).1, (Resolves.insert hkey hp).2⟩

theorem resolves_cache_dir_handle {p : PathBuf} {n : FsTree.Node OsString}
    (hp : os.fs.lstat p = some n) :
    ((os.handle n.ino).isSome → Resolves os (cache_dir_handle os cache p) n.ino) ∧
      ∀ ino, Resolves os cache ino → Resolves os (cache_dir_handle os cache p) ino := by
  rw [cache_dir_handle]
  rw [hp]
  show ((os.handle n.ino).isSome → _) ∧ _
  cases hkey : os.handle n.ino with
  | none => exact ⟨fun h => by simp at h, fun ino h => by simpa [hkey] using h⟩
  | some key =>
      simp only [Option.bind_some, hkey]
      exact ⟨fun _ => (Resolves.insert hkey hp).1, (Resolves.insert hkey hp).2⟩

/-- An open directory is what `lstat` finds at its path. -/
theorem Os.open_dir_safe_eq {p : PathBuf} {dir : DirFd} (h : os.open_dir_safe p = some dir) :
    dir.path = p ∧ os.fs.open_dir p = some dir.node ∧ os.fs.lstat p = some dir.node := by
  obtain ⟨n, hn, rfl⟩ := Option.map_eq_some_iff.1 h
  exact ⟨rfl, hn, (FsTree.Tree.open_dir_eq hn).1⟩

theorem Os.is_dir_of_open {p : PathBuf} {dir : DirFd} (h : os.open_dir_safe p = some dir) :
    os.is_dir p = true :=
  FsTree.Tree.is_dir_of_open_dir (os.open_dir_safe_eq h).2.1

end

/-! ## The loop -/

namespace Walk

section
variable {os : Os} {fan_fd : Nat} {mask : Mask} {max_depth : Option Nat} {caching : Bool}

/-- **The loop rule.**  What each turn keeps, the walk keeps. -/
theorem run_inv {P : Walk → Prop}
    (hturn : ∀ w current depth rest, P w → w.queue = (current, depth) :: rest →
      P (visit os fan_fd mask max_depth caching current depth { w with queue := rest })) :
    ∀ (n : Nat) (w : Walk), P w → P (run os fan_fd mask max_depth caching n w) := by
  intro n
  induction n with
  | zero =>
      intro _ h
      exact h
  | succ n ih =>
      intro w h
      rw [run]
      split
      · exact h
      · rename_i current depth rest hqueue
        exact ih _ (hturn w current depth rest h hqueue)

/-- A property that the queue and the depth have no part in, kept by a flush and by entering a
directory, is kept by a turn. -/
theorem visit_inv {P : Walk → Prop} (hqueue : ∀ w q d, P w → P { w with queue := q, pending_depth := d })
    (hflush : ∀ w, P w → P (w.flush_pending_marks os fan_fd mask))
    (henter : ∀ w current depth dir, os.open_dir_safe current = some dir → P w →
      P (w.enter os fan_fd mask caching current depth dir))
    (w : Walk) (current : PathBuf) (depth : Nat) (h : P w) :
    P (visit os fan_fd mask max_depth caching current depth w) := by
  have hlevel : P (w.level os fan_fd mask depth) := by
    rw [level]
    split
    · exact hqueue _ (w.flush_pending_marks os fan_fd mask).queue depth (hflush w h)
    · exact h
  rw [visit]
  simp only
  split
  · exact hlevel
  · split
    · exact hlevel
    · rename_i dir hdir
      exact hqueue _ _ (((w.level os fan_fd mask depth).enter os fan_fd mask caching current depth
        dir)).pending_depth (henter _ current depth dir hdir hlevel)

/-! ## Marks are kept -/

/-- The marks of the walk come after those it started with, and `Q` holds of each. -/
def Marked (k : Kernel) (Q : Walk → DirFd → Prop) (w : Walk) : Prop :=
  (∃ ops, w.kernel.marks = k.marks ++ ops ∧ ∀ d ∈ dirs_added ops, Q w d) ∧ ∀ d ∈ w.pending, Q w d

theorem marked_flush {k : Kernel} {Q : Walk → DirFd → Prop}
    (hQ : ∀ w d, Q w d → Q (w.flush_pending_marks os fan_fd mask) d) (w : Walk) (h : Marked k Q w) :
    Marked k Q (w.flush_pending_marks os fan_fd mask) := by
  obtain ⟨⟨ops, hops, hQops⟩, hpending⟩ := h
  refine ⟨⟨ops ++ (Kernel.markable os w.pending).map fun d => .add fan_fd d (mask &&& ~~~FAN_FS_ERROR),
    ?_, ?_⟩, fun d hd => by cases hd⟩
  · show w.kernel.marks ++ _ = _
    rw [hops, List.append_assoc]
  · intro d hd
    rw [dirs_added_append, dirs_added_map, List.mem_append] at hd
    rcases hd with hd | hd
    · exact hQ w d (hQops d hd)
    · exact hQ w d (hpending d (List.mem_of_mem_filter hd))

theorem collect_inv {P : Walk → Prop} (hflush : ∀ w, P w → P (w.flush_pending_marks os fan_fd mask))
    {w : Walk} {current : PathBuf} {dir : DirFd}
    (h : P { w with pending := w.pending ++ [dir], discovered := w.discovered ++ [current] }) :
    P (w.collect os fan_fd mask current dir) := by
  rw [collect]
  simp only
  split
  · exact hflush _ h
  · exact h

/-! ## Handles are seeded -/

/-- Resolvable stays resolvable. -/
theorem resolves_visit {ino : Nat} (w : Walk) (current : PathBuf) (depth : Nat)
    (h : Resolves os w.dir_cache ino) :
    Resolves os (visit os fan_fd mask max_depth caching current depth w).dir_cache ino := by
  refine visit_inv (P := fun w => Resolves os w.dir_cache ino) (fun _ _ _ h => h) (fun _ h => h) ?_
    w current depth h
  intro w current depth dir hdir h
  have hseed : Resolves os (w.seed os caching current dir).dir_cache ino := by
    rw [seed]
    split
    · exact (resolves_cache_handle_from_fd (os.open_dir_safe_eq hdir).2.2).2 _ h
    · exact h
  rw [enter]
  split
  · exact hseed
  · exact collect_inv (P := fun w => Resolves os w.dir_cache ino) (fun _ h => h) hseed

/-- Everything marked, or about to be, is resolvable. -/
def Seeded (os : Os) (k : Kernel) (w : Walk) : Prop :=
  Marked k (fun w d => Resolves os w.dir_cache d.node.ino) w

theorem seeded_visit (hh : ∀ i, (os.handle i).isSome) {k : Kernel} (w : Walk) (current : PathBuf)
    (depth : Nat) (h : Seeded os k w) :
    Seeded os k (visit os fan_fd mask max_depth true current depth w) := by
  have hflush : ∀ w, Seeded os k w → Seeded os k (w.flush_pending_marks os fan_fd mask) :=
    fun w hw => marked_flush (fun _ _ h => h) w hw
  refine visit_inv (P := Seeded os k) (fun w q d h => h) hflush ?_ w current depth h
  rintro w current depth dir hdir ⟨⟨ops, hops, hmarked⟩, hpending⟩
  have hcache := @resolves_cache_handle_from_fd os w.dir_cache dir current (os.open_dir_safe_eq hdir).2.2
  have hseed : Seeded os k (w.seed os true current dir) :=
    ⟨⟨ops, hops, fun d hd => hcache.2 _ (hmarked d hd)⟩, fun d hd => hcache.2 _ (hpending d hd)⟩
  rw [enter]
  split
  · exact hseed
  · refine collect_inv hflush ⟨hseed.1, fun d hd => ?_⟩
    rcases List.mem_append.1 hd with hd | hd
    · exact hseed.2 d hd
    · rw [List.mem_singleton.1 hd]
      exact hcache.1 (hh _)

/-- A walk without a cache leaves the cache alone. -/
theorem blind_visit {cache : DirCache} (w : Walk) (current : PathBuf) (depth : Nat)
    (h : w.dir_cache = cache) :
    (visit os fan_fd mask max_depth false current depth w).dir_cache = cache := by
  refine visit_inv (P := fun w => w.dir_cache = cache) (fun _ _ _ h => h) (fun _ h => h) ?_
    w current depth h
  intro w current depth dir _ h
  rw [enter]
  split
  · exact h
  · exact collect_inv (P := fun w => w.dir_cache = cache) (fun _ h => h) h

end

end Walk

/-! ## The whole walk -/

section
variable {os : Os} {k : Kernel} {cache : DirCache} {fan_fd : Nat} {mask : Mask} {dir : PathBuf}
  {max_depth : Option Nat} {caching : Bool}

/-- The walk adds marks, and removes none. -/
theorem mark_recursive_marks (os : Os) (k : Kernel) (cache : DirCache) (fan_fd : Nat) (mask : Mask)
    (dir : PathBuf) (max_depth : Option Nat) (caching : Bool) : ∃ ops,
    (mark_recursive_with_depth os k cache fan_fd mask dir max_depth caching).kernel.marks =
      k.marks ++ ops := by
  have hflush : ∀ w : Walk, (∃ ops, w.kernel.marks = k.marks ++ ops) →
      ∃ ops, (w.flush_pending_marks os fan_fd (mask &&& ~~~FAN_FS_ERROR)).kernel.marks =
        k.marks ++ ops := by
    rintro w ⟨ops, hops⟩
    exact ⟨_, by rw [Walk.flush_pending_marks, Kernel.mark, hops, List.append_assoc]⟩
  refine hflush _ (Walk.run_inv (P := fun w => ∃ ops, w.kernel.marks = k.marks ++ ops) ?_ _ _
    ⟨[], by simp⟩)
  intro w current depth rest h _
  refine Walk.visit_inv (P := fun w => ∃ ops, w.kernel.marks = k.marks ++ ops) (fun _ _ _ h => h)
    hflush ?_ _ current depth h
  intro w current depth dir _ h
  have hseed : ∃ ops, (w.seed os caching current dir).kernel.marks = k.marks ++ ops := by
    rw [Walk.seed]
    split <;> exact h
  rw [Walk.enter]
  split
  · exact hseed
  · exact Walk.collect_inv (P := fun w => ∃ ops, w.kernel.marks = k.marks ++ ops) hflush hseed

/-- A walk that is given the cache leaves everything it marks resolvable. -/
theorem mark_recursive_seeds (hh : ∀ i, (os.handle i).isSome) {ops : List MarkOp}
    (hops : (mark_recursive_with_depth os k cache fan_fd mask dir max_depth true).kernel.marks =
      k.marks ++ ops) :
    ∀ d ∈ dirs_added ops, Resolves os
      (mark_recursive_with_depth os k cache fan_fd mask dir max_depth true).dir_cache d.node.ino := by
  have hstart : Walk.Seeded os k ⟨k, cache, [(dir, 0)], [], 0, []⟩ :=
    ⟨⟨[], by simp, fun d hd => by cases hd⟩, fun d hd => by cases hd⟩
  have hrun : Walk.Seeded os k (Walk.run os fan_fd (mask &&& ~~~FAN_FS_ERROR) max_depth true
      (os.fs.nodes.length + 1) ⟨k, cache, [(dir, 0)], [], 0, []⟩) :=
    Walk.run_inv
      (fun w current depth rest h _ => Walk.seeded_visit hh { w with queue := rest } current depth h)
      _ _ hstart
  obtain ⟨⟨ops', hops', hmarked⟩, _⟩ :=
    @Walk.marked_flush os fan_fd (mask &&& ~~~FAN_FS_ERROR) k _ (fun _ _ h => h) _ hrun
  have : ops = ops' := List.append_cancel_left (hops.symm.trans hops')
  rw [this]
  exact hmarked

/-- Its root is resolvable, too. -/
theorem mark_recursive_root (hh : ∀ i, (os.handle i).isSome) {root : DirFd}
    (hroot : os.open_dir_safe dir = some root) :
    Resolves os (mark_recursive_with_depth os k cache fan_fd mask dir max_depth true).dir_cache
      root.node.ino := by
  -- the first turn caches the root; no later one undoes it
  have hfirst : Resolves os (Walk.visit os fan_fd (mask &&& ~~~FAN_FS_ERROR) max_depth true dir 0
      ⟨k, cache, [], [], 0, []⟩).dir_cache root.node.ino := by
    have hdeep : max_depth.any (· < 0) = false := by cases max_depth <;> simp
    unfold Walk.visit Walk.level
    simp only [ne_eq, not_true, if_false, hdeep, hroot, Bool.false_eq_true]
    exact (resolves_cache_handle_from_fd (os.open_dir_safe_eq hroot).2.2).1 (hh _)
  have hrest := Walk.run_inv (P := fun w => Resolves os w.dir_cache root.node.ino)
    (fun w current depth rest h _ => @Walk.resolves_visit os fan_fd (mask &&& ~~~FAN_FS_ERROR)
      max_depth true root.node.ino { w with queue := rest } current depth h)
    os.fs.nodes.length _ hfirst
  exact hrest

/-- A walk that is given none caches nothing. -/
theorem mark_recursive_blind :
    (mark_recursive_with_depth os k cache fan_fd mask dir max_depth false).dir_cache = cache :=
  Walk.run_inv (P := fun w => w.dir_cache = cache)
    (fun _ current depth _ h _ => Walk.blind_visit _ current depth h) _ _ rfl

end

end Fsmon
