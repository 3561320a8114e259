/-
# `Fsmon.Lib.FsTree` — a finite file system tree with symbolic links

The objects of a file system by their physical path: a list of names none of
which is a link.  A path is resolved from the root, name by name; a link starts
over at its target, at most `MAX_LINKS` times.

    walk            one pass over the names, `next` taking over at a link
    resolve         the passes, one for each link followed
    canonicalize    the physical path of an object, links followed
    metadata        the object itself
    lstat           the object, the last name not followed
    open_dir        `O_DIRECTORY | O_NOFOLLOW`
    read_dir        the names in a directory, each with its object

`IsReal` says that a path resolves to itself without a link.  Canonical paths
are real (`canonicalize_isReal`), real paths are canonical (`IsReal.canonicalize`),
and a name below a directory that is not a link extends both
(`IsReal.join`, `canonicalize_join`).

The link of a target is kept absolute: on a tree at rest a relative target and
the absolute one it stands for name the same object.
-/
import Mathlib.Data.List.Nodup
import Mathlib.Data.List.Induction

namespace Fsmon.FsTree

variable {α : Type}

inductive Kind (α : Type) where
  | dir
  | file (size : Nat)
  | symlink (target : List α)
  deriving DecidableEq, Repr

/-- An object: its identity, its file system, and whether a directory can be opened and read. -/
structure Node (α : Type) where
  ino : Nat
  dev : Nat
  kind : Kind α
  openable : Bool
  readable : Bool
  deriving DecidableEq, Repr

def Node.is_dir {α : Type} (n : Node α) : Bool :=
  match n.kind with
  | .dir => true
  | _ => false

theorem Node.is_dir_iff {α : Type} {n : Node α} : n.is_dir = true ↔ n.kind = .dir := by
  rw [Node.is_dir]
  cases n.kind <;> simp

/-- A tree: the root directory and the other objects by physical path.  Every object lies in a
directory, and a directory in one place only (it has no second link). -/
structure Tree (α : Type) where
  root : Node α
  root_dir : root.kind = .dir
  nodes : List (List α × Node α)
  nodup : (nodes.map (·.1)).Nodup
  parents : ∀ e ∈ nodes, e.1 ≠ [] ∧
    (e.1.dropLast = [] ∨ ∃ d ∈ nodes, d.1 = e.1.dropLast ∧ d.2.kind = .dir)
  inodes : ((((([], root) :: nodes).filter fun e => e.2.is_dir)).map fun e => e.2.ino).Nodup

/-- `ELOOP` comes after this many links. -/
def MAX_LINKS : Nat := 40

namespace Tree

variable [DecidableEq α]

/-- The object at a physical path. -/
def lookup (t : Tree α) (p : List α) : Option (Node α) :=
  if p = [] then some t.root else (t.nodes.find? fun e => e.1 = p).map (·.2)

/-- Resolve the names `todo` below the physical directory `done`. -/
def walk (t : Tree α) (next : List α → Option (List α)) : List α → List α → Option (List α)
  | done, [] => some done
  | done, c :: rest =>
      match t.lookup (done ++ [c]) with
      | none => none
      | some node =>
          match node.kind with
          | .dir => walk t next (done ++ [c]) rest
          | .file _ => if rest = [] then some (done ++ [c]) else none
          | .symlink target => next (target ++ rest)

/-- Resolve a path, following at most `n` links. -/
def resolve (t : Tree α) : Nat → List α → Option (List α)
  | 0, p => t.walk (fun _ => none) [] p
  | n + 1, p => t.walk (resolve t n) [] p

def canonicalize (t : Tree α) (p : List α) : Option (List α) := t.resolve MAX_LINKS p

def metadata (t : Tree α) (p : List α) : Option (Node α) := (t.canonicalize p).bind t.lookup

def is_dir (t : Tree α) (p : List α) : Bool := (t.metadata p).any fun n => n.kind = .dir

def lstat (t : Tree α) (p : List α) : Option (Node α) :=
  match p.getLast? with
  | none => some t.root
  | some x => (t.canonicalize p.dropLast).bind fun d => t.lookup (d ++ [x])

def open_dir (t : Tree α) (p : List α) : Option (Node α) :=
  (t.lstat p).filter fun n => n.kind = .dir && n.openable

/-- The names below the physical directory `d`. -/
def children (t : Tree α) (d : List α) : List (α × Node α) :=
  t.nodes.filterMap fun e =>
    match e.1.getLast? with
    | some x => if e.1.dropLast = d then some (x, e.2) else none
    | none => none

def read_dir (t : Tree α) (p : List α) : Option (List (α × Node α)) :=
  (t.canonicalize p).bind fun d =>
    (t.lookup d).bind fun n =>
      if n.kind = .dir && n.readable then some (t.children d) else none

/-- The path resolves to itself, without a link. -/
def IsReal (t : Tree α) (p : List α) : Prop := t.walk (fun _ => none) [] p = some p

variable {t : Tree α}

@[simp] theorem lookup_nil : t.lookup [] = some t.root := by simp [lookup]

theorem isReal_nil : t.IsReal [] := rfl

/-- What a walk finds below a real directory without a link, it finds for every `next`. -/
theorem walk_mono {next : List α → Option (List α)} : ∀ (todo done : List α) {c : List α},
    t.walk (fun _ => none) done todo = some c → t.walk next done todo = some c := by
  intro todo
  induction todo with
  | nil =>
      intro done c h
      exact h
  | cons x rest ih =>
      intro done c h
      simp only [walk] at h ⊢
      cases hl : t.lookup (done ++ [x]) with
      | none => simp [hl] at h
      | some node =>
          simp only [hl] at h ⊢
          cases hk : node.kind with
          | dir =>
              simp only [hk] at h
              exact ih (done ++ [x]) h
          | file size => simpa [hk] using h
          | symlink target => simp [hk] at h

/-- Real paths are canonical. -/
theorem IsReal.resolve {p : List α} (h : t.IsReal p) : ∀ n : Nat, t.resolve n p = some p
  | 0 => h
  | _ + 1 => walk_mono p [] h

theorem IsReal.canonicalize {p : List α} (h : t.IsReal p) : t.canonicalize p = some p :=
  h.resolve MAX_LINKS

/-- A walk splits where its names split, as long as the first part ends in a directory. -/
theorem walk_append {next : List α → Option (List α)} : ∀ (todo more done c : List α)
    {node : Node α}, t.walk (fun _ => none) done todo = some c → t.lookup c = some node →
    node.kind = .dir → t.walk next done (todo ++ more) = t.walk next c more := by
  intro todo
  induction todo with
  | nil =>
      intro more done c node h _ _
      cases h
      rfl
  | cons x rest ih =>
      intro more done c node h hc hd
      simp only [walk, List.cons_append] at h ⊢
      cases hl : t.lookup (done ++ [x]) with
      | none => simp [hl] at h
      | some m =>
          simp only [hl] at h ⊢
          cases hk : m.kind with
          | dir =>
              simp only [hk] at h
              exact ih more (done ++ [x]) c h hc hd
          | file size =>
              simp only [hk] at h
              split at h
              · -- a file is no directory
                cases h
                rw [hl] at hc
                cases hc
                rw [hk] at hd
                cases hd
              · cases h
          | symlink target => simp [hk] at h

/-- A name that is not a link, below a real directory, makes a real path. -/
theorem IsReal.join {d : List α} {x : α} {dir node : Node α} (h : t.IsReal d)
    (hd : t.lookup d = some dir) (hdir : dir.kind = .dir) (hx : t.lookup (d ++ [x]) = some node)
    (hlink : ∀ target, node.kind ≠ .symlink target) : t.IsReal (d ++ [x]) := by
  rw [IsReal, walk_append d [x] [] d h hd hdir]
  simp only [walk, hx]
  cases hk : node.kind with
  | dir => rfl
  | file size => rfl
  | symlink target => exact absurd hk (hlink target)

/-- What a walk finds below a real directory is real, if what `next` finds is. -/
theorem walk_isReal {next : List α → Option (List α)}
    (hnext : ∀ p c, next p = some c → t.IsReal c) : ∀ (todo done : List α) {dir : Node α}
    {c : List α}, t.IsReal done → t.lookup done = some dir → dir.kind = .dir →
    t.walk next done todo = some c → t.IsReal c := by
  intro todo
  induction todo with
  | nil =>
      intro done dir c hdone _ _ h
      cases h
      exact hdone
  | cons x rest ih =>
      intro done dir c hdone hd hdir h
      simp only [walk] at h
      cases hl : t.lookup (done ++ [x]) with
      | none => simp [hl] at h
      | some node =>
          simp only [hl] at h
          cases hk : node.kind with
          | dir =>
              simp only [hk] at h
              exact ih (done ++ [x])
                (hdone.join hd hdir hl fun target => by simp [hk]) hl hk h
          | file size =>
              simp only [hk] at h
              split at h
              · cases h
                exact hdone.join hd hdir hl fun target => by simp [hk]
              · cases h
          | symlink target =>
              simp only [hk] at h
              exact hnext _ _ h

theorem resolve_isReal : ∀ (n : Nat) (p : List α) {c : List α}, t.resolve n p = some c → t.IsReal c := by
  intro n
  induction n with
  | zero =>
      intro p _ h
      exact have hnone : ∀ q c, (fun _ : List α => (none : Option (List α))) q = some c → t.IsReal c :=
        fun _ _ hq => by cases hq
          walk_isReal hnone p [] isReal_nil lookup_nil t.root_dir h
  | succ n ih =>
      intro p _ h
      exact walk_isReal (fun q _ hq => ih q hq) p [] isReal_nil lookup_nil t.root_dir h

/-- Canonical paths are real. -/
theorem canonicalize_isReal {p c : List α} (h : t.canonicalize p = some c) : t.IsReal c :=
  resolve_isReal MAX_LINKS p h

/-- A walk without links ends at an object. -/
theorem walk_lookup : ∀ (todo done : List α) {c : List α}, (t.lookup done).isSome = true →
    t.walk (fun _ => none) done todo = some c → (t.lookup c).isSome = true := by
  intro todo
  induction todo with
  | nil =>
      intro done c hdone h
      rw [walk, Option.some.injEq] at h
      exact h ▸ hdone
  | cons x rest ih =>
      intro done c _ h
      rw [walk] at h
      cases hx : t.lookup (done ++ [x]) with
      | none =>
          rw [hx] at h
          cases h
      | some node =>
          have hsome : (t.lookup (done ++ [x])).isSome = true := by rw [hx]; rfl
          rw [hx] at h
          simp only at h
          split at h
          · exact ih _ hsome h
          · split at h
            · cases h
              exact hsome
            · cases h
          · cases h

theorem IsReal.lookup {p : List α} (h : t.IsReal p) : (t.lookup p).isSome = true :=
  walk_lookup p [] (by rw [lookup_nil]; rfl) h

/-- A canonical path is its own canonical path. -/
theorem canonicalize_idem {p c : List α} (h : t.canonicalize p = some c) :
    t.canonicalize c = some c := (canonicalize_isReal h).canonicalize

theorem walk_join {next : List α → Option (List α)} {c : List α} {x : α} {dir node : Node α}
    (hc : t.lookup c = some dir) (hdir : dir.kind = .dir) (hx : t.lookup (c ++ [x]) = some node)
    (hlink : ∀ target, node.kind ≠ .symlink target)
    (hnext : ∀ p, next p = some c → next (p ++ [x]) = some (c ++ [x])) :
    ∀ todo done : List α, t.walk next done todo = some c →
      t.walk next done (todo ++ [x]) = some (c ++ [x]) := by
  intro todo
  induction todo with
  | nil =>
      intro done h
      cases h
      simp only [List.nil_append, walk, hx]
      cases hk : node.kind with
      | dir => rfl
      | file size => rfl
      | symlink target => exact absurd hk (hlink target)
  | cons y rest ih =>
      intro done h
      simp only [walk, List.cons_append] at h ⊢
      cases hl : t.lookup (done ++ [y]) with
      | none => simp [hl] at h
      | some m =>
          simp only [hl] at h ⊢
          cases hk : m.kind with
          | dir =>
              simp only [hk] at h
              exact ih (done ++ [y]) h
          | file size =>
              simp only [hk] at h
              split at h
              · cases h
                rw [hl] at hc
                cases hc
                rw [hk] at hdir
                cases hdir
              · cases h
          | symlink target =>
              simp only [hk] at h
              have := hnext _ h
              rwa [List.append_assoc] at this

theorem resolve_join {c : List α} {x : α} {dir node : Node α} (hc : t.lookup c = some dir)
    (hdir : dir.kind = .dir) (hx : t.lookup (c ++ [x]) = some node)
    (hlink : ∀ target, node.kind ≠ .symlink target) :
    ∀ (n : Nat) (p : List α), t.resolve n p = some c → t.resolve n (p ++ [x]) = some (c ++ [x]) := by
  intro n
  induction n with
  | zero =>
      intro p h
      exact have hnone : ∀ q, (fun _ : List α => (none : Option (List α))) q = some c →
              (fun _ : List α => (none : Option (List α))) (q ++ [x]) = some (c ++ [x]) :=
            fun _ hq => by cases hq
          walk_join hc hdir hx hlink hnone p [] h
  | succ n ih =>
      intro p h
      exact walk_join hc hdir hx hlink (fun q hq => ih q hq) p [] h

/-- Below a directory, a name that is not a link extends the canonical path. -/
theorem canonicalize_join {p c : List α} {x : α} {dir node : Node α}
    (h : t.canonicalize p = some c) (hc : t.lookup c = some dir) (hdir : dir.kind = .dir)
    (hx : t.lookup (c ++ [x]) = some node) (hlink : ∀ target, node.kind ≠ .symlink target) :
    t.canonicalize (p ++ [x]) = some (c ++ [x]) :=
  resolve_join hc hdir hx hlink MAX_LINKS p h

/-! ## Objects and their places -/

/-- Without duplicate keys, searching for a key finds its entry. -/
theorem find?_nodup {β : Type} : ∀ {l : List (List α × β)} {q : List α} {m : β},
    (l.map (·.1)).Nodup → (q, m) ∈ l → l.find? (fun e => e.1 = q) = some (q, m)
  | e :: l, q, m, hl, hm => by
      rw [List.map_cons, List.nodup_cons] at hl
      rcases List.mem_cons.1 hm with rfl | hm
      · simp
      · have hne : e.1 ≠ q := by
          rintro he
          exact hl.1 (List.mem_map.2 ⟨_, hm, he.symm⟩)
        simp [hne, find?_nodup hl.2 hm]

theorem lookup_of_mem {p : List α} {n : Node α} (h : (p, n) ∈ t.nodes) : t.lookup p = some n := by
  rw [lookup, if_neg (t.parents _ h).1, find?_nodup t.nodup h]
  rfl

/-- Objects elsewhere do not change what is at a path. -/
theorem lookup_grown {t' : Tree α} {new : List (List α × Node α)} (hroot : t'.root = t.root)
    (hnodes : t'.nodes = t.nodes ++ new) {p : List α} (hp : ∀ e ∈ new, e.1 ≠ p) :
    t'.lookup p = t.lookup p := by
  have hnone : new.find? (fun e => e.1 = p) = none := by
    rw [List.find?_eq_none]
    intro e he
    simpa using hp e he
  rw [lookup, lookup, hroot, hnodes, List.find?_append, hnone, Option.or_none]

theorem mem_of_lookup {p : List α} {n : Node α} (h : t.lookup p = some n) :
    (p, n) ∈ ([], t.root) :: t.nodes := by
  rw [lookup] at h
  split at h
  · rename_i hp
    cases h
    rw [hp]
    exact List.mem_cons_self
  · obtain ⟨e, he, rfl⟩ := Option.map_eq_some_iff.1 h
    have hkey : e.1 = p := by simpa using List.find?_some he
    rw [← hkey]
    exact List.mem_cons_of_mem _ (List.mem_of_find?_eq_some he)

/-- What holds an object is a directory. -/
theorem lookup_parent {d : List α} {x : α} {n : Node α} (h : t.lookup (d ++ [x]) = some n) :
    ∃ dir, t.lookup d = some dir ∧ dir.kind = .dir := by
  rcases List.mem_cons.1 (mem_of_lookup h) with hroot | hmem
  · simp at hroot
  · rcases (t.parents _ hmem).2 with hd | ⟨e, he, hkey, hdir⟩
    · have : d = [] := by simpa using hd
      exact ⟨t.root, by rw [this, lookup_nil], t.root_dir⟩
    · have : e.1 = d := by simpa using hkey
      exact ⟨e.2, this ▸ lookup_of_mem he, hdir⟩

/-- A directory has one place. -/
theorem dir_unique {p q : List α} {n m : Node α} (hp : t.lookup p = some n) (hq : t.lookup q = some m)
    (hn : n.kind = .dir) (hm : m.kind = .dir) (h : n.ino = m.ino) : p = q := by
  have hmem : ∀ {r : List α} {k : Node α}, t.lookup r = some k → k.kind = .dir →
      (r, k) ∈ (([], t.root) :: t.nodes).filter fun e => e.2.is_dir :=
    fun hr hk => List.mem_filter.2 ⟨mem_of_lookup hr, Node.is_dir_iff.2 hk⟩
  exact congrArg Prod.fst (List.inj_on_of_nodup_map t.inodes (hmem hp hn) (hmem hq hm) h)

/-- Without links, a walk ends where its names say, and so does each part of it. -/
theorem walk_take : ∀ (todo more done : List α) {c : List α},
    t.walk (fun _ => none) done (todo ++ more) = some c →
      t.walk (fun _ => none) done todo = some (done ++ todo) := by
  intro todo
  induction todo with
  | nil =>
      intro _ done _ _
      simp [walk]
  | cons x rest ih =>
      intro more done c h
      simp only [walk, List.cons_append] at h ⊢
      cases hl : t.lookup (done ++ [x]) with
      | none => simp [hl] at h
      | some node =>
          simp only [hl] at h ⊢
          cases hk : node.kind with
          | dir =>
              simp only [hk] at h
              simpa using ih more (done ++ [x]) h
          | file size =>
              simp only [hk] at h ⊢
              split at h
              · rename_i hnil
                rw [(List.append_eq_nil_iff.1 hnil).1, if_pos rfl]
              · cases h
          | symlink target => simp [hk] at h

/-- At a real path, `lstat` and `metadata` find the object of that path. -/
theorem IsReal.lstat {p : List α} (h : t.IsReal p) : t.lstat p = t.lookup p := by
  rcases List.eq_nil_or_concat p with rfl | ⟨d, x, rfl⟩
  · rw [lookup_nil]
    rfl
  · rw [List.concat_eq_append] at h ⊢
    have hd : t.IsReal d := by
      have hwalk := walk_take d [x] [] h
      rwa [List.nil_append] at hwalk
    simp [Tree.lstat, hd.canonicalize]

theorem IsReal.metadata {p : List α} (h : t.IsReal p) : t.metadata p = t.lookup p := by
  rw [Tree.metadata, h.canonicalize]
  rfl

/-! ## Directories -/

theorem open_dir_eq {p : List α} {n : Node α} (h : t.open_dir p = some n) :
    t.lstat p = some n ∧ n.kind = .dir ∧ n.openable = true := by
  rw [open_dir, Option.filter_eq_some_iff] at h
  simpa using h

/-- What `lstat` finds without a link at the end, `metadata` finds, too. -/
theorem metadata_of_lstat {p : List α} {n : Node α} (h : t.lstat p = some n)
    (hlink : ∀ target, n.kind ≠ .symlink target) : t.metadata p = some n := by
  rcases List.eq_nil_or_concat p with rfl | ⟨d, x, rfl⟩
  · have hnil : t.canonicalize [] = some [] := isReal_nil.canonicalize
    simpa [metadata, hnil, lstat] using h
  · rw [List.concat_eq_append] at h ⊢
    simp only [lstat, List.getLast?_append, List.getLast?_singleton, Option.some_or,
      List.dropLast_concat, Option.bind_eq_some_iff] at h
    obtain ⟨c, hc, hx⟩ := h
    obtain ⟨dir, hdir, hkind⟩ := lookup_parent hx
    rw [metadata, canonicalize_join hc hdir hkind hx hlink]
    exact hx

theorem metadata_of_open_dir {p : List α} {n : Node α} (h : t.open_dir p = some n) :
    t.metadata p = some n := by
  obtain ⟨hn, hdir, _⟩ := open_dir_eq h
  exact metadata_of_lstat hn fun target => by simp [hdir]

theorem is_dir_of_open_dir {p : List α} {n : Node α} (h : t.open_dir p = some n) :
    t.is_dir p = true := by
  rw [is_dir, metadata_of_open_dir h]
  simpa using (open_dir_eq h).2.1

/-- A listed name is the object below the directory. -/
theorem mem_children {d : List α} {x : α} {node : Node α} (h : (x, node) ∈ t.children d) :
    t.lookup (d ++ [x]) = some node := by
  obtain ⟨⟨q, m⟩, hmem, hq⟩ := List.mem_filterMap.1 h
  cases hlast : q.getLast? with
  | none => simp [hlast] at hq
  | some y =>
      simp only [hlast, Option.ite_none_right_eq_some, Option.some.injEq, Prod.mk.injEq] at hq
      obtain ⟨hd, rfl, rfl⟩ := hq
      have hjoin : q = d ++ [y] := by
        rw [← hd]
        exact (List.dropLast_append_getLast? y hlast).symm
      exact hjoin ▸ lookup_of_mem hmem

/-- What `read_dir` lists at a real directory. -/
theorem read_dir_mem {p : List α} {es : List (α × Node α)} {x : α} {node : Node α}
    (h : t.IsReal p) (hr : t.read_dir p = some es) (hx : (x, node) ∈ es) :
    (∃ dir, t.lookup p = some dir ∧ dir.kind = .dir) ∧ t.lookup (p ++ [x]) = some node := by
  rw [read_dir, h.canonicalize, Option.bind_some] at hr
  cases hd : t.lookup p with
  | none => simp [hd] at hr
  | some dir =>
      simp only [hd, Option.bind_some, Option.ite_none_right_eq_some, Bool.and_eq_true,
        decide_eq_true_eq, Option.some.injEq] at hr
      obtain ⟨⟨hk, _⟩, rfl⟩ := hr
      exact ⟨⟨dir, rfl, hk⟩, mem_children hx⟩

/-- Everything below a directory is listed. -/
theorem mem_children_of_lookup {d : List α} {x : α} {node : Node α}
    (h : t.lookup (d ++ [x]) = some node) : (x, node) ∈ t.children d := by
  have hmem : (d ++ [x], node) ∈ t.nodes := by
    rcases List.mem_cons.1 (mem_of_lookup h) with hroot | hmem
    · simp at hroot
    · exact hmem
  refine List.mem_filterMap.2 ⟨_, hmem, ?_⟩
  simp

/-- No name is listed twice. -/
theorem children_nodup (d : List α) : ((t.children d).map (·.1)).Nodup := by
  have hsub : ∀ es : List (List α × Node α),
      (((es.filterMap fun e =>
        match e.1.getLast? with
        | some x => if e.1.dropLast = d then some (x, e.2) else none
        | none => none).map (·.1)).map fun x => d ++ [x]).Sublist (es.map (·.1)) := by
    intro es
    induction es with
    | nil => exact .slnil
    | cons e es ih =>
        rw [List.filterMap_cons, List.map_cons]
        cases hlast : e.1.getLast? with
        | none => exact ih.cons _
        | some x =>
            simp only
            by_cases hd : e.1.dropLast = d
            · have hjoin : e.1 = d ++ [x] := by
                rw [← hd]
                exact (List.dropLast_append_getLast? x hlast).symm
              rw [if_pos hd, List.map_cons, List.map_cons, hjoin]
              exact ih.cons_cons _
            · rw [if_neg hd]
              exact ih.cons _
  exact ((hsub t.nodes).nodup t.nodup).of_map _

/-- No name is listed twice where it can be read. -/
theorem read_dir_nodup (t : Tree α) (p : List α) : (((t.read_dir p).getD []).map (·.1)).Nodup := by
  rw [read_dir]
  cases t.canonicalize p with
  | none => exact List.nodup_nil
  | some d =>
      rw [Option.bind_some]
      cases t.lookup d with
      | none => exact List.nodup_nil
      | some n =>
          rw [Option.bind_some]
          split
          · exact children_nodup d
          · exact List.nodup_nil

/-- What lies above an object is a directory. -/
theorem lookup_above {d s : List α} : ∀ {n : Node α}, t.lookup (d ++ s) = some n → s ≠ [] →
    ∃ dir, t.lookup d = some dir ∧ dir.kind = .dir := by
  induction s using List.reverseRecOn with
  | nil =>
      intro n _ hs
      exact absurd rfl hs
  | append_singleton s x ih =>
      intro n hn _
      rw [← List.append_assoc] at hn
      obtain ⟨dir, hdir, hkind⟩ := lookup_parent hn
      by_cases hs : s = []
      · rw [hs, List.append_nil] at hdir
        exact ⟨dir, hdir, hkind⟩
      · exact ih hdir hs

/-- Where there is a directory, its physical path is real. -/
theorem isReal_of_lookup {p : List α} : ∀ {n : Node α}, t.lookup p = some n →
    (∀ target, n.kind ≠ .symlink target) → t.IsReal p := by
  induction p using List.reverseRecOn with
  | nil =>
      intro n _ _
      exact isReal_nil
  | append_singleton d x ih =>
      intro n hn hlink
      obtain ⟨dir, hdir, hkind⟩ := lookup_parent hn
      exact (ih hdir fun target => by simp [hkind]).join hdir hkind hn hlink

theorem isReal_of_dir {p : List α} {n : Node α} (h : t.lookup p = some n) (hkind : n.kind = .dir) :
    t.IsReal p := isReal_of_lookup h fun target => by simp [hkind]

/-- The directory at a real path that can be opened. -/
theorem open_dir_of_lookup {p : List α} {n : Node α} (h : t.lookup p = some n) (hkind : n.kind = .dir)
    (hopen : n.openable = true) : t.open_dir p = some n := by
  rw [open_dir, (isReal_of_dir h hkind).lstat, h]
  simp [hkind, hopen]

/-- A directory that can be read lists what is below it. -/
theorem read_dir_of_lookup {p : List α} {n : Node α} (h : t.lookup p = some n) (hkind : n.kind = .dir)
    (hread : n.readable = true) : t.read_dir p = some (t.children p) := by
  rw [read_dir, (isReal_of_dir h hkind).canonicalize, Option.bind_some, h, Option.bind_some]
  simp [hkind, hread]

/-! ## How long a path can be -/

/-- A physical path has no more names than there are objects. -/
theorem length_of_lookup {p : List α} {n : Node α} (h : t.lookup p = some n) :
    p.length ≤ t.nodes.length := by
  -- each of its parts is an object
  have hparts : (List.range p.length).map (fun i => p.take (i + 1)) ⊆ t.nodes.map (·.1) := by
    intro q hq
    obtain ⟨i, hi, rfl⟩ := List.mem_map.1 hq
    have hi := List.mem_range.1 hi
    have hpart : ∃ m, t.lookup (p.take (i + 1)) = some m := by
      by_cases hrest : p.drop (i + 1) = []
      · rw [List.take_of_length_le (List.drop_eq_nil_iff.1 hrest)]
        exact ⟨n, h⟩
      · rw [← List.take_append_drop (i + 1) p] at h
        obtain ⟨m, hm, _⟩ := lookup_above h hrest
        exact ⟨m, hm⟩
    obtain ⟨m, hm⟩ := hpart
    rcases List.mem_cons.1 (mem_of_lookup hm) with hroot | hmem
    · have hempty := congrArg (fun e : List α × Node α => e.1.length) hroot
      simp only [List.length_take, List.length_nil] at hempty
      omega
    · exact List.mem_map.2 ⟨_, hmem, rfl⟩
  have hnodup : ((List.range p.length).map fun i => p.take (i + 1)).Nodup := by
    refine List.nodup_range.map_on fun i hi j hj heq => ?_
    have hlength := congrArg List.length heq
    have hi := List.mem_range.1 hi
    have hj := List.mem_range.1 hj
    rw [List.length_take, List.length_take] at hlength
    omega
  have hle := hnodup.length_le_of_subset hparts
  rwa [List.length_map, List.length_map, List.length_range] at hle

/-- Each pass over the names goes down the tree, until a link leads to the next one. -/
theorem length_of_walk {next : List α → Option (List α)} {k : Nat}
    (hnext : ∀ q c, next q = some c → q.length ≤ k) : ∀ (todo done : List α) {c : List α},
    (t.lookup done).isSome = true → t.walk next done todo = some c →
      done.length + todo.length ≤ t.nodes.length + k := by
  intro todo
  induction todo with
  | nil =>
      intro done c hdone _
      obtain ⟨n, hn⟩ := Option.isSome_iff_exists.1 hdone
      exact Nat.le_add_right_of_le (length_of_lookup hn)
  | cons x rest ih =>
      intro done c _ h
      rw [walk] at h
      cases hx : t.lookup (done ++ [x]) with
      | none =>
          rw [hx] at h
          cases h
      | some node =>
          have hdepth := length_of_lookup hx
          rw [List.length_append, List.length_singleton] at hdepth
          rw [hx] at h
          simp only at h
          rw [List.length_cons]
          split at h
          · have hdeeper := ih (done ++ [x]) (by rw [hx]; rfl) h
            rw [List.length_append, List.length_singleton] at hdeeper
            omega
          · split at h
            · rename_i hrest
              rw [hrest, List.length_nil]
              omega
            · cases h
          · rename_i target _
            have hrest := hnext _ _ h
            rw [List.length_append] at hrest
            omega

theorem length_of_resolve : ∀ (n : Nat) (p : List α) {c : List α}, t.resolve n p = some c →
    p.length ≤ (n + 1) * t.nodes.length := by
  intro n
  induction n with
  | zero =>
      intro p c h
      have hle := length_of_walk (k := 0) (fun _ _ hq => by cases hq) p [] (by rw [lookup_nil]; rfl) h
      rw [List.length_nil] at hle
      omega
  | succ n ih =>
      intro p c h
      have hle := length_of_walk (fun q _ hq => ih q hq) p [] (by rw [lookup_nil]; rfl) h
      rw [List.length_nil] at hle
      rw [Nat.succ_mul]
      omega

/-- A path that resolves is not too long: it is as long as the tree is deep, for each link and once
more. -/
theorem length_of_canonicalize {p c : List α} (h : t.canonicalize p = some c) :
    p.length ≤ (MAX_LINKS + 1) * t.nodes.length := length_of_resolve MAX_LINKS p h

end Tree

end Fsmon.FsTree
