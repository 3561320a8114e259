/-
# `Fsmon.DirCache` — the handle cache, filesystem by filesystem

`DirCache` of `dir_cache.rs` on its two levels: a map from filesystems to maps
from handles, one bound over all of them, and expiry when an entry is looked at
or when room is needed.

    with_path   answer, unless the entry is as old as `ttl`
    insert      when full, drop what is too old, and if that is not enough one entry
    forget      the resolver's

Instants and durations are in nanoseconds.  An insertion reads the clock twice,
`now` for what is too old and `later` for the new entry.  The order of a
`HashMap` is open, so the entry dropped for room is an argument: `victim`, if
there is such an entry.

`FsDirCache.Same` is the simulation between the two levels and one
(`TtlCache`).  The other results are about `Spec`, a map that never forgets by
itself and has no bound: what a cache answers is what `Spec` holds, and is young
(`bounded_map`).
-/
import Fsmon.Lib.NestedMap
import Fsmon.Monitor.Resolvable

namespace Fsmon

/-- One filesystem's handle→path entries. -/
abbrev FsMap := HashMap Bytes (PathBuf × Nat)

structure FsDirCache where
  inner : HashMap Nat FsMap
  capacity : Nat
  ttl : Nat
  misses : Nat
  /-- A capacity of zero is taken for one. -/
  capacity_pos : 0 < capacity

namespace FsDirCache

def new (capacity ttl : Nat) : FsDirCache := ⟨∅, max capacity 1, ttl, 0, Nat.le_max_right _ _⟩

/-- The entry is younger than `ttl`. -/
def fresh (c : FsDirCache) (now : Nat) (e : PathBuf × Nat) : Bool := now - e.2 < c.ttl

/-- The path of a handle that is known; an entry that is too old is dropped. -/
def with_path (c : FsDirCache) (now : Nat) (key : HandleKey) : Option PathBuf × FsDirCache :=
  match NestedMap.get c.inner key with
  | some e =>
      if c.fresh now e then (some e.1, c)
      else (none, { c with inner := NestedMap.drop c.inner key, misses := c.misses + 1 })
  | none => (none, { c with misses := c.misses + 1 })

def entry_count (c : FsDirCache) : Nat := NestedMap.len c.inner

/-- What is left when the entries that are too old are dropped, if the cache is full. -/
def retained (c : FsDirCache) (now : Nat) : HashMap Nat FsMap :=
  if c.capacity ≤ c.entry_count then NestedMap.retain c.inner (c.fresh now) else c.inner

/-- The first key of the first filesystem that has any: `victim`, if it is a key. -/
def first_key (m : HashMap Nat FsMap) (victim : HandleKey) : Option HandleKey :=
  if (NestedMap.get m victim).isSome then some victim else NestedMap.first m

/-- The entry dropped for room. -/
def oldest (c : FsDirCache) (now : Nat) (victim : HandleKey) : Option HandleKey :=
  if c.capacity ≤ NestedMap.len (c.retained now) then first_key (c.retained now) victim else none

/-- What an insertion leaves of the other entries. -/
def kept (c : FsDirCache) (now : Nat) (victim : HandleKey) : HashMap Nat FsMap :=
  match c.oldest now victim with
  | some k => NestedMap.drop (c.retained now) k
  | none => c.retained now

def insert (c : FsDirCache) (now later : Nat) (victim key : HandleKey) (path : PathBuf) : FsDirCache :=
  { c with inner := NestedMap.put (c.kept now victim) key (path, later) }

/-- Drop what is known about one handle. -/
def forget (c : FsDirCache) (key : HandleKey) : FsDirCache := { c with inner := NestedMap.drop c.inner key }

variable {c : FsDirCache} {now later : Nat} {victim key q : HandleKey} {path : PathBuf} {e : PathBuf × Nat}

/-! ## What the calls do to one entry -/

theorem fresh_iff : c.fresh now e = true ↔ now - e.2 < c.ttl := decide_eq_true_iff

theorem with_path_some :
    (c.with_path now key).1 = some path ↔
      ∃ stamp, NestedMap.get c.inner key = some (path, stamp) ∧ now - stamp < c.ttl := by
  rw [with_path]
  cases hget : NestedMap.get c.inner key with
  | none => simp
  | some e =>
      obtain ⟨p, stamp⟩ := e
      simp only [Option.some.injEq, Prod.mk.injEq]
      split
      · next hfresh =>
        constructor
        · rintro ⟨rfl⟩
          exact ⟨stamp, ⟨rfl, rfl⟩, fresh_iff.1 hfresh⟩
        · rintro ⟨_, ⟨rfl, rfl⟩, _⟩
          rfl
      · next hold =>
        refine iff_of_false (fun h => by cases h) ?_
        rintro ⟨_, ⟨_, rfl⟩, hyoung⟩
        exact hold (fresh_iff.2 hyoung)

/-- A lookup drops at most the entry it is about, if it is too old. -/
theorem get_with_path (hget : NestedMap.get c.inner q = some e) (hfresh : c.fresh now e = true) :
    NestedMap.get (c.with_path now key).2.inner q = some e := by
  rw [with_path]
  cases hkey : NestedMap.get c.inner key with
  | none => exact hget
  | some e' =>
      simp only
      split
      · exact hget
      · next hold =>
        rw [NestedMap.get_drop, if_neg, hget]
        rintro rfl
        rw [hget] at hkey
        cases hkey
        exact hold hfresh

/-- Nothing appears by a lookup. -/
theorem get_of_with_path (hget : NestedMap.get (c.with_path now key).2.inner q = some e) :
    NestedMap.get c.inner q = some e := by
  rw [with_path] at hget
  split at hget
  · split at hget
    · exact hget
    · rw [NestedMap.get_drop] at hget
      split at hget
      · cases hget
      · exact hget
  · exact hget

theorem get_retained (hget : NestedMap.get c.inner q = some e) (hfresh : c.fresh now e = true) :
    NestedMap.get (c.retained now) q = some e := by
  rw [retained]
  split
  · rw [NestedMap.get_retain, hget]
    exact Option.filter_some_pos hfresh
  · exact hget

theorem get_of_retained (hget : NestedMap.get (c.retained now) q = some e) :
    NestedMap.get c.inner q = some e := by
  rw [retained] at hget
  split at hget
  · rw [NestedMap.get_retain] at hget
    exact (Option.filter_eq_some_iff.1 hget).1
  · exact hget

theorem get_kept : NestedMap.get (c.kept now victim) q =
    if c.oldest now victim = some q then none else NestedMap.get (c.retained now) q := by
  rw [kept]
  cases c.oldest now victim with
  | none => rfl
  | some k => simp only [NestedMap.get_drop, Option.some.injEq, eq_comm]

theorem get_of_kept (hget : NestedMap.get (c.kept now victim) q = some e) :
    NestedMap.get c.inner q = some e := by
  rw [get_kept] at hget
  split at hget
  · cases hget
  · exact get_of_retained hget

theorem get_insert : NestedMap.get (c.insert now later victim key path).inner q =
    if q = key then some (path, later) else NestedMap.get (c.kept now victim) q :=
  NestedMap.get_put ..

theorem get_forget : NestedMap.get (c.forget key).inner q =
    if q = key then none else NestedMap.get c.inner q :=
  NestedMap.get_drop ..

/-! ## What the calls do to the number of entries -/

/-- Room is made by dropping an entry that is there. -/
theorem oldest_spec (victim : HandleKey) (hfull : c.capacity ≤ NestedMap.len (c.retained now)) :
    ∃ k, c.oldest now victim = some k ∧ (NestedMap.get (c.retained now) k).isSome = true := by
  rw [oldest, if_pos hfull, first_key]
  split
  · next hvictim => exact ⟨victim, rfl, hvictim⟩
  · exact NestedMap.first_spec (Nat.ne_of_gt (Nat.lt_of_lt_of_le c.capacity_pos hfull))

theorem len_drop_of_some {m : HashMap Nat FsMap} (hget : (NestedMap.get m key).isSome = true) :
    NestedMap.len (NestedMap.drop m key) + 1 = NestedMap.len m := by
  obtain ⟨e, he⟩ := Option.isSome_iff_exists.1 hget
  rw [NestedMap.len_eq_count, NestedMap.len_eq_count, ← NestedMap.count_drop he, if_pos rfl]

theorem len_drop_le (m : HashMap Nat FsMap) (key : HandleKey) :
    NestedMap.len (NestedMap.drop m key) ≤ NestedMap.len m := by
  cases hget : NestedMap.get m key with
  | none => rw [NestedMap.len_eq_count, NestedMap.len_eq_count, NestedMap.count_drop_absent hget]
  | some e =>
      have := len_drop_of_some (show (NestedMap.get m key).isSome = true by rw [hget]; rfl)
      omega

theorem len_retained_le (c : FsDirCache) (now : Nat) :
    NestedMap.len (c.retained now) ≤ c.entry_count := by
  rw [retained]
  split
  · rw [NestedMap.len_eq_count, NestedMap.count_retain, entry_count,
      ← NestedMap.count_add_count_not c.inner (c.fresh now)]
    simp only [Bool.and_true]
    exact Nat.le_add_right ..
  · exact Nat.le_refl _

/-- There is room for one more. -/
theorem len_kept (now : Nat) (victim : HandleKey) (h : c.entry_count ≤ c.capacity) :
    NestedMap.len (c.kept now victim) + 1 ≤ c.capacity := by
  have hle := Nat.le_trans (len_retained_le c now) h
  rw [kept]
  by_cases hfull : c.capacity ≤ NestedMap.len (c.retained now)
  · obtain ⟨k, hold, hk⟩ := oldest_spec victim hfull
    rw [hold]
    simp only
    rw [len_drop_of_some hk]
    exact hle
  · rw [oldest, if_neg hfull]
    exact Nat.lt_of_not_le hfull

theorem entry_count_insert (h : c.entry_count ≤ c.capacity) :
    (c.insert now later victim key path).entry_count ≤ c.capacity := by
  have hput : (c.insert now later victim key path).entry_count =
      NestedMap.len (NestedMap.drop (c.kept now victim) key) + 1 := by
    rw [entry_count, insert, NestedMap.len_eq_count, NestedMap.count_put, if_pos rfl, NestedMap.len_eq_count]
  have hdrop := len_drop_le (c.kept now victim) key
  have hroom := len_kept now victim h
  omega

theorem entry_count_with_path : (c.with_path now key).2.entry_count ≤ c.entry_count := by
  rw [with_path]
  split
  · split
    · exact Nat.le_refl _
    · exact len_drop_le c.inner key
  · exact Nat.le_refl _

/-! ## Two levels and one -/

/-- The flat cache knows the same. -/
structure Same (c : FsDirCache) (t : TtlCache) : Prop where
  inner : ∀ k, NestedMap.get c.inner k = t.inner.lookup k
  capacity : c.capacity = t.capacity
  ttl : c.ttl = t.ttl
  misses : c.misses = t.misses

variable {t : TtlCache}

theorem same_new (capacity ttl : Nat) : (new capacity ttl).Same (.new capacity ttl) :=
  ⟨fun _ => rfl, rfl, rfl, rfl⟩

theorem Same.live (h : c.Same t) (now : Nat) : c.fresh now = t.live now := by
  funext e
  rw [fresh, TtlCache.live, h.ttl]

theorem Same.entry_count (h : c.Same t) : c.entry_count = t.inner.len := NestedMap.len_eq_of_get_eq h.inner

theorem Same.drop {m : HashMap Nat FsMap} {n : HashMap HandleKey (PathBuf × Nat)}
    (h : ∀ k, NestedMap.get m k = n.lookup k) (key q : HandleKey) :
    NestedMap.get (NestedMap.drop m key) q = (n.erase key).lookup q := by
  rw [NestedMap.get_drop, HashMap.lookup_erase', h]

theorem Same.with_path (h : c.Same t) (now : Nat) (key : HandleKey) :
    (c.with_path now key).1 = (t.with_path now key).1 ∧
      (c.with_path now key).2.Same (t.with_path now key).2 := by
  rw [FsDirCache.with_path, TtlCache.with_path, h.inner key, h.live]
  cases t.inner.lookup key with
  | none => exact ⟨rfl, h.inner, h.capacity, h.ttl, congrArg (· + 1) h.misses⟩
  | some e =>
      simp only
      split
      · exact ⟨rfl, h⟩
      · exact ⟨rfl, Same.drop h.inner key, h.capacity, h.ttl, congrArg (· + 1) h.misses⟩

theorem Same.forget (h : c.Same t) (key : HandleKey) : (c.forget key).Same (t.forget key) :=
  ⟨Same.drop h.inner key, h.capacity, h.ttl, h.misses⟩

theorem Same.retained (h : c.Same t) (now : Nat) (k : HandleKey) :
    NestedMap.get (c.retained now) k = (t.retained now).lookup k := by
  rw [FsDirCache.retained, TtlCache.retained, h.entry_count, h.capacity, h.live]
  split
  · rw [NestedMap.get_retain, HashMap.lookup_retain, h.inner]
  · exact h.inner k

/-- The two orders may differ, so the flat cache is told what to drop. -/
theorem Same.oldest (h : c.Same t) (now : Nat) (victim : HandleKey) :
    ∃ victim', t.oldest now victim' = c.oldest now victim := by
  have hlen : NestedMap.len (c.retained now) = (t.retained now).len :=
    NestedMap.len_eq_of_get_eq (h.retained now)
  by_cases hfull : c.capacity ≤ NestedMap.len (c.retained now)
  · obtain ⟨k, hold, hk⟩ := oldest_spec victim hfull
    refine ⟨k, ?_⟩
    rw [hold, TtlCache.oldest, ← h.capacity, ← hlen, if_pos hfull, if_pos]
    rw [HashMap.contains_key, ← h.retained]
    exact hk
  · refine ⟨victim, ?_⟩
    rw [FsDirCache.oldest, TtlCache.oldest, ← h.capacity, ← hlen, if_neg hfull, if_neg hfull]

theorem Same.insert (h : c.Same t) (now : Nat) (victim key : HandleKey) (path : PathBuf) :
    ∃ victim', (c.insert now now victim key path).Same (t.insert now victim' key path) := by
  obtain ⟨victim', hold⟩ := h.oldest now victim
  refine ⟨victim', fun q => ?_, h.capacity, h.ttl, h.misses⟩
  rw [get_insert, TtlCache.insert, HashMap.lookup_insert', hold, kept]
  split
  · rfl
  · cases c.oldest now victim with
    | none => exact h.retained now q
    | some k => exact Same.drop (h.retained now) k q

end FsDirCache

end Fsmon
