/-
# `Fsmon.Monitor.Resolvable` — how long a marked directory can be named

An event names a directory by its handle, and `DirCache` is what turns the handle
into a path: with the system-call fallback off, a handle it does not answer is an
event dropped.  Here the cache has its clock and its bound; elsewhere `DirCache` is
what the daemon puts into it.

    with_path     answer, unless the entry is as old as `ttl`; a lookup refreshes nothing
    insert        when full, drop what is too old, and if that is not enough one entry
    forget        the resolver's

What reaches the cache is one list of `CacheCall`s, in any order: marks and handles
cached by the daemon, lookups and handles learned or forgotten by the readers, and
the clock.  (That a step of the daemon is such a list is shown in
`Fsmon.Monitor.Calls`.)  A mark stays until it is removed, an entry does not: so what was cached
when it was marked stays resolvable exactly while no tracked entry gets as old as
`ttl`, is the one dropped for room, or is forgotten (`resolvable_iff`).
-/
import Fsmon.Monitor.Records
import Fsmon.Lib.Run

namespace Fsmon

/-! ## The cache -/

/-- `DirCache` of `dir_cache.rs`; instants and durations in nanoseconds. -/
structure TtlCache where
  inner : HashMap HandleKey (PathBuf × Nat)
  capacity : Nat
  ttl : Nat
  misses : Nat

/-- Capacity for the directory handle cache. -/
def DIR_CACHE_CAP : Nat := 100000

/-- TTL for directory handle cache entries. -/
def DIR_CACHE_TTL_SECS : Nat := 3600

/-- `Duration::from_secs`. -/
def from_secs (secs : Nat) : Nat := secs * 1000000000

namespace TtlCache

def new (capacity ttl : Nat) : TtlCache := ⟨∅, max capacity 1, ttl, 0⟩

/-- The entry is younger than `ttl`. -/
def live (c : TtlCache) (now : Nat) (e : PathBuf × Nat) : Bool := now - e.2 < c.ttl

/-- The path of a handle that is known; an entry that is too old is dropped. -/
def with_path (c : TtlCache) (now : Nat) (key : HandleKey) : Option PathBuf × TtlCache :=
  match c.inner.lookup key with
  | some e =>
      if c.live now e then (some e.1, c)
      else (none, { c with inner := c.inner.erase key, misses := c.misses + 1 })
  | none => (none, { c with misses := c.misses + 1 })

/-- What is left when the entries that are too old are dropped, if the cache is full. -/
def retained (c : TtlCache) (now : Nat) : HashMap HandleKey (PathBuf × Nat) :=
  if c.capacity ≤ c.inner.len then c.inner.retain (c.live now) else c.inner

/-- The entry dropped for room: the first key in the order of the map, `victim` if it is one. -/
def oldest (c : TtlCache) (now : Nat) (victim : HandleKey) : Option HandleKey :=
  if c.capacity ≤ (c.retained now).len then
    if (c.retained now).contains_key victim then some victim else (c.retained now).keys.head?
  else none

def insert (c : TtlCache) (now : Nat) (victim key : HandleKey) (path : PathBuf) : TtlCache :=
  let kept :=
    match c.oldest now victim with
    | some k => (c.retained now).erase k
    | none => c.retained now
  { c with inner := kept.insert key (path, now) }

/-- Drop what is known about one handle. -/
def forget (c : TtlCache) (key : HandleKey) : TtlCache := { c with inner := c.inner.erase key }

/-- `with_path` answers. -/
def answers (c : TtlCache) (now : Nat) (key : HandleKey) : Bool := (c.with_path now key).1.isSome

theorem answers_eq (c : TtlCache) (now : Nat) (key : HandleKey) :
    c.answers now key = (c.inner.lookup key).any (c.live now) := by
  rw [answers, with_path]
  cases c.inner.lookup key with
  | none => rfl
  | some e =>
      simp only [Option.any_some]
      cases hlive : c.live now e with
      | true => rfl
      | false => rfl

/-- A lookup takes nothing away that it would answer. -/
theorem answers_with_path (c : TtlCache) (now : Nat) (key q : HandleKey) :
    (c.with_path now key).2.answers now q = c.answers now q := by
  rw [with_path]
  cases hl : c.inner.lookup key with
  | none =>
      rw [answers_eq, answers_eq]
      rfl
  | some e =>
      simp only
      split
      · rfl
      · next hlive =>
        rw [answers_eq, answers_eq]
        simp only [HashMap.lookup_erase']
        split
        · next hq =>
          subst hq
          rw [hl]
          simpa using hlive
        · rfl

theorem answers_forget (c : TtlCache) (now : Nat) (key q : HandleKey) :
    (c.forget key).answers now q = (decide (q ≠ key) && c.answers now q) := by
  rw [answers_eq, answers_eq, forget]
  simp only [HashMap.lookup_erase']
  split
  · next hq => simp [hq]
  · next hq =>
    rw [decide_eq_true hq, Bool.true_and]
    rfl

/-- What a cache answers survives an insertion, unless it is what is dropped for room. -/
theorem answers_insert {c : TtlCache} {now : Nat} {q : HandleKey} (h : c.answers now q = true)
    (victim key : HandleKey) (path : PathBuf) :
    (c.insert now victim key path).answers now q = true ↔ (c.oldest now victim = some q → q = key) := by
  rw [answers_eq, Option.any_eq_true] at h
  obtain ⟨e, he, hlive⟩ := h
  have hretained : (c.retained now).lookup q = some e := by
    rw [retained]
    split
    · rw [HashMap.lookup_retain, he]
      exact Option.filter_some_pos hlive
    · exact he
  have hpos : 0 < c.ttl := Nat.lt_of_le_of_lt (Nat.zero_le _) (of_decide_eq_true hlive)
  rw [answers_eq, insert]
  simp only [HashMap.lookup_insert']
  by_cases hq : q = key
  · rw [if_pos hq]
    refine iff_of_true ?_ fun _ => hq
    simpa [live] using hpos
  · rw [if_neg hq]
    cases hold : c.oldest now victim with
    | none =>
        simp only
        rw [hretained]
        refine iff_of_true hlive fun h => by cases h
    | some k =>
        simp only [HashMap.lookup_erase', Option.some.injEq]
        by_cases hk : q = k
        · rw [if_pos hk]
          exact iff_of_false (by simp) fun h => hq (h hk.symm)
        · rw [if_neg hk, hretained]
          exact iff_of_true hlive fun h => absurd h.symm hk

end TtlCache

/-! ## Marks -/

namespace Kernel

/-- The inode carries a mark of some group. -/
def carries (k : Kernel) (ino : Nat) : Bool := (List.range k.next_fd).any fun g => k.mask g ino ≠ 0

/-- The last reference to a group is gone, and its marks with it. -/
def close (k : Kernel) (fan_fd : Nat) : Kernel :=
  { k with
    marks := k.marks.filter fun
      | .add g _ _ => g ≠ fan_fd
      | .remove g _ => g ≠ fan_fd }

end Kernel

/-! ## What reaches the cache -/

/-- A call of the daemon or of a reader, or the clock. -/
inductive CacheCall where
  | create_group_and_mark (os : Os) (dir : DirFd) (mask : Mask)
  | mark (os : Os) (fan_fd : Nat) (dirs : List DirFd) (mask : Mask)
  | unmark_directory_at (os : Os) (fan_fd : Nat) (dir : DirFd)
  | close (fan_fd : Nat)
  /-- No entry asks for these inodes any more; their marks may stay. -/
  | release (gone : Nat → Bool)
  | cache_handle_from_fd (os : Os) (dir : DirFd) (path : PathBuf) (victim : HandleKey)
  | cache_dir_handle (os : Os) (path : PathBuf) (victim : HandleKey)
  /-- The resolver looks a handle up. -/
  | with_path (key : HandleKey)
  /-- The resolver learns a handle. -/
  | remember (key : HandleKey) (path : PathBuf) (victim : HandleKey)
  /-- The resolver gives a handle up. -/
  | forget (key : HandleKey)
  /-- Time passes. -/
  | advance (elapsed : Nat)

/-- The marks, the cache, and what it has answered for. -/
structure Names where
  kernel : Kernel
  dir_cache : TtlCache
  now : Nat
  /-- Inodes that carry a mark, and whose handle the cache answered when they were marked or cached; with the
  handle (a history variable). -/
  tracked : List (Nat × HandleKey)

namespace CacheCall

/-- The inode with its handle, if it has one. -/
def handled (os : Os) (ino : Nat) : List (Nat × HandleKey) := (os.handle ino).toList.map fun key => (ino, key)

/-- The directories a call marks or caches. -/
def about : CacheCall → List (Nat × HandleKey)
  | .create_group_and_mark os dir _ => handled os dir.node.ino
  | .mark os _ dirs _ => dirs.flatMap fun dir => handled os dir.node.ino
  | .cache_handle_from_fd os dir _ _ => handled os dir.node.ino
  | .cache_dir_handle os path _ => (os.fs.lstat path).toList.flatMap fun n => handled os n.ino
  | _ => []

/-- What a call inserts: the handle, the path, and what would be dropped for room. -/
def inserts : CacheCall → Option (HandleKey × PathBuf × HandleKey)
  | .cache_handle_from_fd os dir path victim => (os.handle dir.node.ino).map fun key => (key, path, victim)
  | .cache_dir_handle os path victim =>
      ((os.fs.lstat path).bind fun n => os.handle n.ino).map fun key => (key, path, victim)
  | .remember key path victim => some (key, path, victim)
  | _ => none

def kernel_after (k : Kernel) : CacheCall → Kernel
  | .create_group_and_mark os dir mask => ((k.create_group_and_mark os dir mask).map (·.2)).getD k
  | .mark os fan_fd dirs mask => k.mark os fan_fd dirs mask
  | .unmark_directory_at os fan_fd dir => k.unmark_directory_at os fan_fd dir
  | .close fan_fd => k.close fan_fd
  | _ => k

def cache_after (c : TtlCache) (now : Nat) (call : CacheCall) : TtlCache :=
  match call.inserts with
  | some (key, path, victim) => c.insert now victim key path
  | none =>
      match call with
      | .with_path key => (c.with_path now key).2
      | .forget key => c.forget key
      | _ => c

def elapsed : CacheCall → Nat
  | .advance elapsed => elapsed
  | _ => 0

def released : CacheCall → Nat → Bool
  | .release gone, ino => gone ino
  | _, _ => false

end CacheCall

namespace Names

open CacheCall

/-- A daemon that has just been built. -/
def start (capacity ttl : Nat) : Names := ⟨.initial, .new capacity ttl, 0, []⟩

def step (s : Names) (call : CacheCall) : Names :=
  let kernel := kernel_after s.kernel call
  let dir_cache := cache_after s.dir_cache s.now call
  let now := s.now + call.elapsed
  { kernel, dir_cache, now
    tracked :=
      (s.tracked.filter fun t => !call.released t.1 && kernel.carries t.1) ++
        call.about.filter fun t => kernel.carries t.1 && dir_cache.answers now t.2 }

/-- Each directory that carries a mark for an active entry, and was in the cache, is still answered. -/
def Resolvable (s : Names) : Prop := ∀ t ∈ s.tracked, s.dir_cache.answers s.now t.2 = true

/-- No tracked directory is dropped for room, forgotten, or cached too long ago. -/
def Keeps (s : Names) (call : CacheCall) : Prop :=
  ∀ t ∈ s.tracked, s.kernel.carries t.1 = true →
    (∀ key path victim, call.inserts = some (key, path, victim) →
      s.dir_cache.oldest s.now victim = some t.2 → t.2 = key) ∧
    call ≠ .forget t.2 ∧
    ∀ e, s.dir_cache.inner.lookup t.2 = some e → s.now + call.elapsed - e.2 < s.dir_cache.ttl

/-- What has just been tracked is answered; the rest is what was tracked before. -/
theorem resolvable_step (s : Names) (call : CacheCall) :
    (s.step call).Resolvable ↔
      ∀ t ∈ s.tracked, call.released t.1 = false → (kernel_after s.kernel call).carries t.1 = true →
        (cache_after s.dir_cache s.now call).answers (s.now + call.elapsed) t.2 = true := by
  constructor
  · intro h t ht hkept hmarked
    refine h t (List.mem_append_left _ (List.mem_filter.2 ⟨ht, ?_⟩))
    rw [hkept, hmarked]
    rfl
  · intro h t ht
    rcases List.mem_append.1 ht with ht | ht
    · obtain ⟨ht, hkept⟩ := List.mem_filter.1 ht
      simp only [Bool.and_eq_true, Bool.not_eq_true'] at hkept
      exact h t ht hkept.1 hkept.2
    · exact (Bool.and_eq_true_iff.1 (List.mem_filter.1 ht).2).2

/-- A handle that is answered has an entry, and a young one. -/
theorem young {c : TtlCache} {now : Nat} {key : HandleKey} (h : c.answers now key = true)
    {e : PathBuf × Nat} (he : c.inner.lookup key = some e) : now - e.2 < c.ttl := by
  rw [TtlCache.answers_eq, he] at h
  exact of_decide_eq_true h

/-- A call that inserts nothing, forgets nothing and takes no time. -/
theorem keeps_still {s : Names} (h : s.Resolvable) {call : CacheCall} (hinserts : call.inserts = none)
    (hforget : ∀ key, call ≠ .forget key) (helapsed : call.elapsed = 0) : s.Keeps call := by
  intro t ht _
  refine ⟨fun key path victim hi => ?_, hforget t.2, fun e he => ?_⟩
  · rw [hinserts] at hi
    cases hi
  · rw [helapsed]
    exact young (h t ht) he

/-- A call that takes no time and leaves the answers alone. -/
theorem still_iff {s : Names} (h : s.Resolvable) {call : CacheCall} (hinserts : call.inserts = none)
    (hforget : ∀ key, call ≠ .forget key) (helapsed : call.elapsed = 0)
    (hanswers : ∀ key, (cache_after s.dir_cache s.now call).answers s.now key = s.dir_cache.answers s.now key) :
    (s.step call).Resolvable ↔ s.Keeps call := by
  refine iff_of_true ((resolvable_step s call).2 fun t ht _ _ => ?_) (keeps_still h hinserts hforget helapsed)
  rw [helapsed, Nat.add_zero, hanswers]
  exact h t ht

/-- A call that caches a handle. -/
theorem insert_iff {s : Names} (h : s.Resolvable) {call : CacheCall} {key victim : HandleKey} {path : PathBuf}
    (hinserts : call.inserts = some (key, path, victim)) (hkernel : kernel_after s.kernel call = s.kernel)
    (hforget : ∀ key, call ≠ .forget key) (helapsed : call.elapsed = 0)
    (hreleased : ∀ ino, call.released ino = false) : (s.step call).Resolvable ↔ s.Keeps call := by
  have hcache : cache_after s.dir_cache s.now call = s.dir_cache.insert s.now victim key path := by
    rw [cache_after.eq_def, hinserts]
  rw [resolvable_step, hkernel, hcache, helapsed, Nat.add_zero]
  constructor
  · intro hall t ht hmarked
    refine ⟨fun key' path' victim' hi => ?_, hforget t.2, fun e he => ?_⟩
    · rw [hinserts] at hi
      cases hi
      exact (TtlCache.answers_insert (h t ht) victim key path).1 (hall t ht (hreleased t.1) hmarked)
    · rw [helapsed]
      exact young (h t ht) he
  · intro hkeeps t ht _ hmarked
    exact (TtlCache.answers_insert (h t ht) victim key path).2 ((hkeeps t ht hmarked).1 key path victim hinserts)

/-- One call: what is tracked stays resolvable exactly if the call keeps it so. -/
theorem step_iff (s : Names) (call : CacheCall) (h : s.Resolvable) :
    (s.step call).Resolvable ↔ s.Keeps call := by
  cases call with
  | create_group_and_mark os dir mask => exact still_iff h rfl nofun rfl fun _ => rfl
  | mark os fan_fd dirs mask => exact still_iff h rfl nofun rfl fun _ => rfl
  | unmark_directory_at os fan_fd dir => exact still_iff h rfl nofun rfl fun _ => rfl
  | close fan_fd => exact still_iff h rfl nofun rfl fun _ => rfl
  | release gone => exact still_iff h rfl nofun rfl fun _ => rfl
  | with_path key => exact still_iff h rfl nofun rfl (s.dir_cache.answers_with_path s.now key)
  | remember key path victim => exact insert_iff h rfl rfl nofun rfl fun _ => rfl
  | cache_handle_from_fd os dir path victim =>
      cases hkey : os.handle dir.node.ino with
      | some key => exact insert_iff h (by rw [inserts, hkey]; rfl) rfl nofun rfl fun _ => rfl
      | none =>
          have hi : (CacheCall.cache_handle_from_fd os dir path victim).inserts = none := by
            rw [inserts, hkey]
            rfl
          exact still_iff h hi nofun rfl fun _ => by rw [cache_after.eq_def, hi]
  | cache_dir_handle os path victim =>
      cases hkey : (os.fs.lstat path).bind fun n => os.handle n.ino with
      | some key => exact insert_iff h (by rw [inserts, hkey]; rfl) rfl nofun rfl fun _ => rfl
      | none =>
          have hi : (CacheCall.cache_dir_handle os path victim).inserts = none := by
            rw [inserts, hkey]
            rfl
          exact still_iff h hi nofun rfl fun _ => by rw [cache_after.eq_def, hi]
  | forget key =>
      rw [resolvable_step]
      constructor
      · intro hall t ht hmarked
        refine ⟨nofun, fun hf => ?_, fun e he => young (h t ht) he⟩
        have hlost := hall t ht rfl hmarked
        have hkey : key = t.2 := by cases hf; rfl
        rw [show cache_after s.dir_cache s.now (.forget key) = s.dir_cache.forget key from rfl,
          show s.now + (CacheCall.forget key).elapsed = s.now from rfl, TtlCache.answers_forget, hkey] at hlost
        simp at hlost
      · intro hkeeps t ht _ hmarked
        rw [show cache_after s.dir_cache s.now (.forget key) = s.dir_cache.forget key from rfl,
          show s.now + (CacheCall.forget key).elapsed = s.now from rfl, TtlCache.answers_forget, h t ht,
          Bool.and_true]
        refine decide_eq_true fun hkey => (hkeeps t ht hmarked).2.1 (by rw [hkey])
  | advance elapsed =>
      rw [resolvable_step]
      have hentry : ∀ t ∈ s.tracked, ∃ e, s.dir_cache.inner.lookup t.2 = some e := by
        intro t ht
        have hans := h t ht
        rw [TtlCache.answers_eq, Option.any_eq_true] at hans
        exact ⟨_, hans.choose_spec.1⟩
      constructor
      · intro hall t ht hmarked
        exact ⟨nofun, nofun, fun e he => young (hall t ht rfl hmarked) he⟩
      · intro hkeeps t ht _ hmarked
        obtain ⟨e, he⟩ := hentry t ht
        rw [TtlCache.answers_eq]
        show (s.dir_cache.inner.lookup t.2).any _ = true
        rw [he]
        exact decide_eq_true ((hkeeps t ht hmarked).2.2 e he)

/-- **What was cached when it was marked stays resolvable** along a run exactly when no call drops it for
room or forgets it, and no entry gets too old. -/
theorem resolvable_iff (capacity ttl : Nat) (calls : List CacheCall) :
    (∀ n, (Run.exec step (start capacity ttl) (calls.take n)).Resolvable) ↔
      Run.Guarded step Keeps (start capacity ttl) calls :=
  Run.always_iff step_iff calls _ fun t ht => by cases ht

/-- `/a` is marked and cached; its handle is looked up half an hour later, and once more after another. -/
def halfHours : List CacheCall :=
  [.create_group_and_mark (.calm Monitor.deepTree) ⟨[[0x61]], ⟨2, 1, .dir, true, true⟩⟩ FAN_CREATE,
    .cache_dir_handle (.calm Monitor.deepTree) [[0x61]] (0, []),
    .advance (from_secs 1800), .with_path (0, List.replicate 2 0),
    .advance (from_secs 1800), .with_path (0, List.replicate 2 0)]

/-- An hour after it was cached, a directory that is in use is not known any more. -/
theorem resolvable_for_an_hour :
    (∀ n, (Run.exec step (start DIR_CACHE_CAP (from_secs DIR_CACHE_TTL_SECS)) (halfHours.take n)).tracked.length ≤
        DIR_CACHE_CAP) ∧
      ¬ ∀ n, (Run.exec step (start DIR_CACHE_CAP (from_secs DIR_CACHE_TTL_SECS)) (halfHours.take n)).Resolvable := by
  constructor
  · have hsix : ∀ n ≤ 6, (Run.exec step (start DIR_CACHE_CAP (from_secs DIR_CACHE_TTL_SECS))
        (halfHours.take n)).tracked.length ≤ DIR_CACHE_CAP := by decide +kernel
    intro n
    rw [List.take_eq_take_min]
    exact hsix _ (Nat.min_le_right _ _)
  · intro h
    have hlast := h 6 (2, (0, List.replicate 2 0)) (by decide +kernel)
    revert hlast
    decide +kernel

end Names

end Fsmon
