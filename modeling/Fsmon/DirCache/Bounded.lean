/-
# `Fsmon.DirCache.Bounded` — the handle cache as a bounded map with expiry

`Spec` is what the cache is for: the latest path that was inserted for a handle
and not forgotten since, with its instant, and no bound.  A cache knows less, as
it drops entries for room and for age, and nothing else:

    Sim           what is cached is the latest, and fits
    BoundedMap    the bound, what a lookup returns, what it finds, what it counts
    lookup_flat   a flat cache answers the same
    Refreshes     an insertion that leaves the other entries alone

An insertion makes room before it looks whether the handle is there.  So a handle
that is inserted again costs another entry its place, once the cache is full of
young entries (`refreshes_iff`).
-/
import Fsmon.DirCache

namespace Fsmon.FsDirCache

/-! ## Runs -/

/-- A call, or the clock.  (`get` is `with_path` with a copy of the path.) -/
inductive Call where
  /-- While the call runs the clock goes on by `lag`. -/
  | insert (key : HandleKey) (path : PathBuf) (victim : HandleKey) (lag : Nat)
  | with_path (key : HandleKey)
  | forget (key : HandleKey)
  | advance (elapsed : Nat)

/-- A cache and the clock. -/
structure Clocked where
  cache : FsDirCache
  now : Nat

namespace Clocked

def start (capacity ttl : Nat) : Clocked := ⟨.new capacity ttl, 0⟩

def step (s : Clocked) : Call → Clocked
  | .insert key path victim lag => ⟨s.cache.insert s.now (s.now + lag) victim key path, s.now + lag⟩
  | .with_path key => ⟨(s.cache.with_path s.now key).2, s.now⟩
  | .forget key => ⟨s.cache.forget key, s.now⟩
  | .advance elapsed => ⟨s.cache, s.now + elapsed⟩

/-- What a lookup returns now. -/
def lookup (s : Clocked) (key : HandleKey) : Option PathBuf := (s.cache.with_path s.now key).1

/-- The call is a lookup that returns nothing. -/
def fails (s : Clocked) : Call → Bool
  | .with_path key => s.lookup key = none
  | .insert .. | .forget _ | .advance _ => false

end Clocked

/-- A lookup, or the clock. -/
def Call.quiet : Call → Bool
  | .with_path _ | .advance _ => true
  | .insert .. | .forget _ => false

/-- What was inserted last for a handle, and not forgotten since; and when. -/
structure Spec where
  now : Nat
  latest : HandleKey → Option (PathBuf × Nat)

namespace Spec

def start : Spec := ⟨0, fun _ => none⟩

def step (a : Spec) : Call → Spec
  | .insert key path _ lag => ⟨a.now + lag, Function.update a.latest key (some (path, a.now + lag))⟩
  | .with_path _ => a
  | .forget key => { a with latest := Function.update a.latest key none }
  | .advance elapsed => { a with now := a.now + elapsed }

end Spec

/-- What has become of a cache, and what of the map it is for. -/
structure BoundedMap (capacity ttl : Nat) (s : Clocked) (a : Spec) : Prop where
  bounded : s.cache.entry_count ≤ max capacity 1
  latest : ∀ key path, s.lookup key = some path →
    ∃ stamp, a.latest key = some (path, stamp) ∧ s.now - stamp < ttl
  /-- What has just been inserted is found, after lookups and while it is young. -/
  found : ∀ key path victim lag quiet, (∀ call ∈ quiet, call.quiet = true) →
    let s' := Run.exec Clocked.step (s.step (.insert key path victim lag)) quiet
    s'.now - (s.now + lag) < ttl → s'.lookup key = some path
  misses : ∀ call, (s.step call).cache.misses = s.cache.misses + if s.fails call then 1 else 0

/-! ## The simulation -/

variable {s : Clocked} {a : Spec} {key : HandleKey} {path : PathBuf}

structure Sim (s : Clocked) (a : Spec) : Prop where
  now : s.now = a.now
  latest : ∀ k e, NestedMap.get s.cache.inner k = some e → a.latest k = some e
  fits : s.cache.entry_count ≤ s.cache.capacity

theorem sim_start (capacity ttl : Nat) : Sim (.start capacity ttl) .start where
  now := rfl
  latest k e h := by cases h
  fits := Nat.zero_le _

theorem sim_step (h : Sim s a) (call : Call) : Sim (s.step call) (a.step call) := by
  cases call with
  | insert key path victim lag =>
      refine ⟨congrArg (· + lag) h.now, fun k e hget => ?_, entry_count_insert h.fits⟩
      rw [Clocked.step, get_insert] at hget
      simp only [Spec.step, Function.update_apply, ← h.now]
      split
      · next hk =>
        rw [if_pos hk] at hget
        exact hget
      · next hk =>
        rw [if_neg hk] at hget
        exact h.latest k e (get_of_kept hget)
  | with_path key =>
      refine ⟨h.now, fun k e hget => h.latest k e (get_of_with_path hget), ?_⟩
      have hcapacity : (s.cache.with_path s.now key).2.capacity = s.cache.capacity := by
        rw [FsDirCache.with_path]
        split
        · split <;> rfl
        · rfl
      rw [Clocked.step, hcapacity]
      exact Nat.le_trans entry_count_with_path h.fits
  | forget key =>
      refine ⟨h.now, fun k e hget => ?_, Nat.le_trans (len_drop_le s.cache.inner key) h.fits⟩
      rw [Clocked.step, get_forget] at hget
      simp only [Spec.step, Function.update_apply]
      split
      · next hk =>
        rw [if_pos hk] at hget
        cases hget
      · next hk =>
        rw [if_neg hk] at hget
        exact h.latest k e hget
  | advance elapsed => exact ⟨congrArg (· + elapsed) h.now, h.latest, h.fits⟩

/-- The bound and the age limit stay what they are. -/
theorem limits_exec (calls : List Call) (s : Clocked) :
    ((Run.exec Clocked.step s calls).cache.capacity, (Run.exec Clocked.step s calls).cache.ttl) =
      (s.cache.capacity, s.cache.ttl) := by
  refine Run.frame_exec (f := fun s : Clocked => (s.cache.capacity, s.cache.ttl)) (fun s call => ?_) calls s
  cases call with
  | insert key path victim lag => rfl
  | forget key => rfl
  | advance elapsed => rfl
  | with_path key =>
      rw [Clocked.step, FsDirCache.with_path]
      split
      · split <;> rfl
      · rfl

/-! ## One entry over quiet calls -/

theorem now_le_exec : ∀ (calls : List Call) (s : Clocked), s.now ≤ (Run.exec Clocked.step s calls).now := by
  intro calls
  induction calls with
  | nil =>
      intro s
      exact Nat.le_refl _
  | cons call calls ih =>
      intro s
      refine Nat.le_trans ?_ (ih (s.step call))
      cases call with
      | insert key path victim lag => exact Nat.le_add_right ..
      | with_path key => exact Nat.le_refl _
      | forget key => exact Nat.le_refl _
      | advance elapsed => exact Nat.le_add_right ..

/-- An entry stays over lookups and the clock, as long as it is young at the end. -/
theorem get_exec_quiet : ∀ (quiet : List Call), (∀ call ∈ quiet, call.quiet = true) →
    ∀ {s : Clocked} {e : PathBuf × Nat}, NestedMap.get s.cache.inner key = some e →
      (Run.exec Clocked.step s quiet).now - e.2 < s.cache.ttl →
        NestedMap.get (Run.exec Clocked.step s quiet).cache.inner key = some e := by
  intro quiet
  induction quiet with
  | nil =>
      intro _ s e hget _
      exact hget
  | cons call quiet ih =>
      intro hquiet s e hget hyoung
      have hrest := @ih fun c hc => hquiet c (List.mem_cons_of_mem _ hc)
      have hcall := hquiet call List.mem_cons_self
      have httl := (Prod.ext_iff.1 (limits_exec [call] s)).2
      rw [Run.exec_cons] at hyoung ⊢
      have hnow := now_le_exec quiet (s.step call)
      cases call with
      | insert key path victim lag => cases hcall
      | forget key => cases hcall
      | advance elapsed => exact hrest hget hyoung
      | with_path q =>
          refine hrest (get_with_path hget (fresh_iff.2 ?_)) (lt_of_lt_of_eq hyoung httl.symm)
          have hle : s.now ≤ (Run.exec Clocked.step (s.step (.with_path q)) quiet).now := hnow
          omega

/-! ## What the cache answers -/

theorem misses_step (s : Clocked) (call : Call) :
    (s.step call).cache.misses = s.cache.misses + if s.fails call then 1 else 0 := by
  cases call with
  | insert key path victim lag => rfl
  | forget key => rfl
  | advance elapsed => rfl
  | with_path key =>
      rw [Clocked.step, Clocked.fails, Clocked.lookup, FsDirCache.with_path]
      split
      · split
        · rfl
        · rfl
      · rfl

/-- **The cache is a bounded map with expiry**, after any calls, for any capacity and any age limit. -/
theorem bounded_map (capacity ttl : Nat) (calls : List Call) :
    BoundedMap capacity ttl (Run.exec Clocked.step (.start capacity ttl) calls)
      (Run.exec Spec.step .start calls) := by
  have hsim := Run.sim_exec (R := Sim) (fun _ _ call h => sim_step h call) calls (sim_start capacity ttl)
  obtain ⟨hcapacity, httl⟩ := Prod.ext_iff.1 (limits_exec calls (.start capacity ttl))
  generalize Run.exec Clocked.step (.start capacity ttl) calls = s at hsim hcapacity httl ⊢
  refine ⟨Nat.le_trans hsim.fits (Nat.le_of_eq hcapacity), fun key path hlook => ?_,
    fun key path victim lag quiet hquiet hyoung => ?_, misses_step s⟩
  · obtain ⟨stamp, hget, hyoung⟩ := with_path_some.1 hlook
    exact ⟨stamp, hsim.latest key _ hget, lt_of_lt_of_eq hyoung httl⟩
  · have hput : NestedMap.get (s.step (.insert key path victim lag)).cache.inner key =
        some (path, s.now + lag) := by
      rw [Clocked.step, get_insert, if_pos rfl]
    have hyoung' := lt_of_lt_of_eq hyoung httl.symm
    have hstill := get_exec_quiet quiet hquiet hput hyoung'
    have hlimit := (Prod.ext_iff.1 (limits_exec quiet (s.step (.insert key path victim lag)))).2
    exact with_path_some.2 ⟨_, hstill, lt_of_lt_of_eq hyoung' hlimit.symm⟩

/-! ## The flat cache -/

/-- A flat cache and the clock. -/
structure FlatClocked where
  cache : TtlCache
  now : Nat

namespace FlatClocked

def start (capacity ttl : Nat) : FlatClocked := ⟨.new capacity ttl, 0⟩

/-- It reads the clock once for an insertion. -/
def step (f : FlatClocked) : Call → FlatClocked
  | .insert key path victim _ => ⟨f.cache.insert f.now victim key path, f.now⟩
  | .with_path key => ⟨(f.cache.with_path f.now key).2, f.now⟩
  | .forget key => ⟨f.cache.forget key, f.now⟩
  | .advance elapsed => ⟨f.cache, f.now + elapsed⟩

/-- What a lookup returns now. -/
def lookup (f : FlatClocked) (key : HandleKey) : Option PathBuf := (f.cache.with_path f.now key).1

end FlatClocked

/-- The call takes no time of its own. -/
def Call.instant : Call → Bool
  | .insert _ _ _ lag => lag = 0
  | .with_path _ | .forget _ | .advance _ => true

/-- The call, but for the entry that may go. -/
def Call.any_victim : Call → Call
  | .insert key path _ lag => .insert key path (0, []) lag
  | .with_path key => .with_path key
  | .forget key => .forget key
  | .advance elapsed => .advance elapsed

/-- The same entries at the same time. -/
def SameNow (s : Clocked) (f : FlatClocked) : Prop := s.cache.Same f.cache ∧ s.now = f.now

theorem SameNow.step {f : FlatClocked} (h : SameNow s f) {call : Call} (hinstant : call.instant = true) :
    ∃ call', call'.any_victim = call.any_victim ∧ SameNow (s.step call) (f.step call') := by
  obtain ⟨hsame, hnow⟩ := h
  cases call with
  | insert key path victim lag =>
      cases of_decide_eq_true hinstant
      obtain ⟨victim', hinsert⟩ := hsame.insert s.now victim key path
      refine ⟨.insert key path victim' 0, rfl, ?_, hnow⟩
      rw [FlatClocked.step, ← hnow]
      exact hinsert
  | with_path key =>
      refine ⟨.with_path key, rfl, ?_, hnow⟩
      rw [FlatClocked.step, ← hnow]
      exact (hsame.with_path s.now key).2
  | forget key => exact ⟨.forget key, rfl, hsame.forget key, hnow⟩
  | advance elapsed => exact ⟨.advance elapsed, rfl, hsame, congrArg (· + elapsed) hnow⟩

theorem SameNow.lookup {f : FlatClocked} (h : SameNow s f) (key : HandleKey) : s.lookup key = f.lookup key := by
  rw [Clocked.lookup, FlatClocked.lookup, ← h.2]
  exact (h.1.with_path s.now key).1

theorem sameNow_exec : ∀ (calls : List Call), (∀ call ∈ calls, call.instant = true) →
    ∀ {s : Clocked} {f : FlatClocked}, SameNow s f →
      ∃ calls', calls'.map Call.any_victim = calls.map Call.any_victim ∧
        SameNow (Run.exec Clocked.step s calls) (Run.exec FlatClocked.step f calls') := by
  intro calls
  induction calls with
  | nil =>
      intro _ s f h
      exact ⟨[], rfl, h⟩
  | cons call calls ih =>
      intro hinstant s f h
      obtain ⟨call', hcall, hstep⟩ := h.step (hinstant call List.mem_cons_self)
      obtain ⟨calls', hcalls, hexec⟩ := ih (fun c hc => hinstant c (List.mem_cons_of_mem _ hc)) hstep
      exact ⟨call' :: calls', by rw [List.map_cons, List.map_cons, hcall, hcalls], hexec⟩

/-- What the two levels answer, a flat cache answers that drops the same entries for room. -/
theorem lookup_flat (capacity ttl : Nat) {calls : List Call} (h : ∀ call ∈ calls, call.instant = true) :
    ∃ calls', calls'.map Call.any_victim = calls.map Call.any_victim ∧
      (Run.exec Clocked.step (.start capacity ttl) calls).lookup =
        (Run.exec FlatClocked.step (.start capacity ttl) calls').lookup := by
  have hstart : SameNow (.start capacity ttl) (.start capacity ttl) := ⟨same_new capacity ttl, rfl⟩
  obtain ⟨calls', hcalls, hexec⟩ := sameNow_exec calls h hstart
  exact ⟨calls', hcalls, funext hexec.lookup⟩

/-! ## An insertion of a handle that is there -/

variable {c : FsDirCache} {now later : Nat} {victim : HandleKey}

/-- How many entries are younger than `ttl`. -/
def unexpired (c : FsDirCache) (now : Nat) : Nat := NestedMap.count c.inner (c.fresh now)

/-- The insertion leaves every other young entry in place, and the number of entries as it is, but for
other entries that are too old. -/
structure Refreshes (c : FsDirCache) (now later : Nat) (victim key : HandleKey) (path : PathBuf) : Prop where
  others : ∀ q e, q ≠ key → NestedMap.get c.inner q = some e → c.fresh now e = true →
    NestedMap.get (c.insert now later victim key path).inner q = some e
  no_more : (c.insert now later victim key path).entry_count ≤ c.entry_count
  no_less : c.entry_count ≤ (c.insert now later victim key path).entry_count +
    NestedMap.count (NestedMap.drop c.inner key) fun e => !c.fresh now e

/-- Room is needed when the cache is full of young entries. -/
theorem oldest_eq : c.oldest now victim =
    if c.capacity ≤ c.entry_count ∧ c.capacity ≤ c.unexpired now then
      first_key (NestedMap.retain c.inner (c.fresh now)) victim
    else none := by
  have hyoung : NestedMap.len (NestedMap.retain c.inner (c.fresh now)) = c.unexpired now := by
    rw [NestedMap.len_eq_count, NestedMap.count_retain, unexpired]
    simp only [Bool.and_true]
  rw [oldest, retained]
  by_cases hfull : c.capacity ≤ c.entry_count
  · rw [if_pos hfull, hyoung]
    simp only [hfull, true_and]
  · rw [if_neg hfull, if_neg fun h : c.capacity ≤ NestedMap.len c.inner => hfull h, if_neg fun h => hfull h.1]

/-- The entry is replaced, and at most what is too old goes. -/
theorem refreshes_of_oldest (hkey : (NestedMap.get c.inner key).isSome = true)
    (hold : ∀ k, c.oldest now victim = some k → k = key) : c.Refreshes now later victim key path := by
  have hother : ∀ q, q ≠ key → NestedMap.get (c.kept now victim) q = NestedMap.get (c.retained now) q := by
    intro q hq
    rw [get_kept, if_neg fun h => hq (hold q h)]
  -- with or without the handle, as many others are left
  have hdrop : NestedMap.len (NestedMap.drop (c.kept now victim) key) =
      NestedMap.len (NestedMap.drop (c.retained now) key) := by
    rw [kept]
    cases hk : c.oldest now victim with
    | none => rfl
    | some k =>
        cases hold k hk
        simp only
        rw [NestedMap.len_eq_count, NestedMap.len_eq_count, NestedMap.count_drop_absent]
        rw [NestedMap.get_drop, if_pos rfl]
  have hcount : (c.insert now later victim key path).entry_count =
      NestedMap.len (NestedMap.drop (c.retained now) key) + 1 := by
    rw [← hdrop, entry_count, insert, NestedMap.len_eq_count, NestedMap.count_put, if_pos rfl,
      NestedMap.len_eq_count]
  have hbefore : NestedMap.len (NestedMap.drop c.inner key) + 1 = c.entry_count := len_drop_of_some hkey
  have hsplit := NestedMap.count_add_count_not (NestedMap.drop c.inner key) (c.fresh now)
  have hretained :
      NestedMap.len (NestedMap.drop (c.retained now) key) ≤ NestedMap.len (NestedMap.drop c.inner key) ∧
      NestedMap.count (NestedMap.drop c.inner key) (c.fresh now) ≤
        NestedMap.len (NestedMap.drop (c.retained now) key) := by
    rw [retained]
    split
    · have hyoung : NestedMap.len (NestedMap.drop (NestedMap.retain c.inner (c.fresh now)) key) =
          NestedMap.count (NestedMap.drop c.inner key) (c.fresh now) := by
        rw [NestedMap.len_eq_count, NestedMap.count_drop_retain]
        simp only [Bool.and_true]
      omega
    · omega
  refine ⟨fun q e hq hget hfresh => ?_, by omega, by omega⟩
  rw [get_insert, if_neg hq, hother q hq]
  exact get_retained hget hfresh

/-- **A handle that is inserted again evicts nobody** exactly if there is room: fewer entries than the
capacity, or fewer young ones, or the entry dropped for room is its own. -/
theorem refreshes_iff (c : FsDirCache) (now later : Nat) (victim : HandleKey) {key : HandleKey} (path : PathBuf)
    (hkey : (NestedMap.get c.inner key).isSome = true) :
    c.Refreshes now later victim key path ↔
      c.entry_count < c.capacity ∨ c.unexpired now < c.capacity ∨
        first_key (NestedMap.retain c.inner (c.fresh now)) victim = some key := by
  have hold := @oldest_eq c now victim
  constructor
  · intro h
    by_cases hroom : c.capacity ≤ c.entry_count ∧ c.capacity ≤ c.unexpired now
    · rw [if_pos hroom] at hold
      have hretained : c.retained now = NestedMap.retain c.inner (c.fresh now) := by
        rw [retained, if_pos hroom.1]
      obtain ⟨k, hk, hsome⟩ : ∃ k, c.oldest now victim = some k ∧
          (NestedMap.get (c.retained now) k).isSome = true := by
        refine oldest_spec _ ?_
        rw [hretained, NestedMap.len_eq_count, NestedMap.count_retain]
        simp only [Bool.and_true]
        exact hroom.2
      refine .inr (.inr ?_)
      rw [← hold, hk]
      by_cases hne : k = key
      · rw [hne]
      · exfalso
        obtain ⟨e, he⟩ := Option.isSome_iff_exists.1 hsome
        rw [hretained, NestedMap.get_retain] at he
        obtain ⟨hget, hfresh⟩ := Option.filter_eq_some_iff.1 he
        have hstays := h.others k e hne hget hfresh
        rw [get_insert, if_neg hne, get_kept, if_pos hk] at hstays
        cases hstays
    · rcases not_and_or.1 hroom with hless | hless
      · exact .inl (Nat.lt_of_not_le hless)
      · exact .inr (.inl (Nat.lt_of_not_le hless))
  · intro h
    refine refreshes_of_oldest hkey fun k hk => ?_
    rw [hold] at hk
    split at hk
    · next hroom =>
      rcases h with hless | hless | hfirst
      · exact absurd hroom.1 (Nat.not_le_of_lt hless)
      · exact absurd hroom.2 (Nat.not_le_of_lt hless)
      · rw [hk] at hfirst
        exact Option.some.inj hfirst
    · cases hk

/-- Two handles in a cache for two. -/
def fullOfTwo : FsDirCache :=
  ((new 2 3600).insert 0 0 (0, []) (1, [0x01]) [[0x61]]).insert 0 0 (0, []) (1, [0x02]) [[0x62]]

/-- The first is inserted again, and its own entry happens to be the one that is dropped. -/
theorem refreshes_fullOfTwo :
    fullOfTwo.entry_count = 2 ∧ fullOfTwo.Refreshes 1 1 (1, [0x01]) (1, [0x01]) [[0x61]] :=
  ⟨by decide, (refreshes_iff fullOfTwo 1 1 (1, [0x01]) [[0x61]] (by decide)).2 (.inr (.inr (by decide)))⟩

/-- The first is inserted again, and the second is gone. -/
theorem refresh_evicts : (NestedMap.get fullOfTwo.inner (1, [0x01])).isSome = true ∧
    ¬ fullOfTwo.Refreshes 1 1 (1, [0x02]) (1, [0x01]) [[0x61]] := by
  refine ⟨by decide, fun h => ?_⟩
  have hstays := h.others (1, [0x02]) ([[0x62]], 0) (by decide) (by decide) (by decide)
  revert hstays
  decide

end Fsmon.FsDirCache
