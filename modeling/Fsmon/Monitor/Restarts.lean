/-
# `Fsmon.Monitor.Restarts` — readers that die, and are spawned again

`reader.rs`: every spawn of a group's reader is counted, and the time of the last one
is kept.  `restart_reader` gives up a group whose count has reached `MAX_RESTARTS`,
if the last spawn is younger than `BACKOFF_WINDOW`.  The count is never taken back.

    Step             a call, or what else the daemon does, some time after the last
    spawned          the spawns with their times (a history variable)
    GivesUpRight     a restart spawns no reader exactly when `MAX_RESTARTS` spawns of
                     the group are younger than the window
    CountsRecent     the count and the last time say no more than the last three times
    gives_up_iff     these are the same runs

Times are nanoseconds of the monotonic clock; the count has 32 bits and wraps around.
-/
import Fsmon.Monitor.LivePath
import Fsmon.Lib.Run
import Mathlib.Algebra.Ring.Nat

namespace Fsmon

def MAX_RESTARTS : Nat := 3

/-- 60 seconds. -/
def BACKOFF_WINDOW : Nat := 60 * 10 ^ 9

/-- Per-reader-task restart tracking. -/
structure ReaderState where
  restart_count : Nat
  last_restart : Nat
  /-- Set when `restart_reader` gives up. -/
  gave_up : Bool
  deriving DecidableEq, Repr

/-- The monitor with its readers' states. -/
structure Supervised where
  monitor : Monitor
  reader_states : HashMap Nat ReaderState
  clock : Nat
  /-- Groups and times of the spawns, oldest first (a history variable). -/
  spawned : List (Nat × Nat)

namespace Supervised

/-- The daemon's start. -/
def new (m : Monitor) : Supervised := ⟨m, ∅, 0, []⟩

/-- Track reader state for restart backoff. -/
def track (states : HashMap Nat ReaderState) (key now : Nat) : HashMap Nat ReaderState :=
  match states.lookup key with
  | some state => states.insert key ⟨(state.restart_count + 1) % 2 ^ 32, now, false⟩
  | none => states.insert key ⟨1, now, false⟩

/-- `spawn_fd_reader`, at a time. -/
def spawn_fd_reader (os : Os) (now : Nat) (s : Supervised) (key : Nat) : Supervised :=
  if s.monitor.event_tx && s.monitor.fanotify.shared_dir_cache then
    match s.monitor.fanotify.groups.get key with
    | none => { s with monitor := { s.monitor with panicked := true } }
    | some _ =>
        if os.dup_ok then
          { s with
            monitor := s.monitor.spawn_fd_reader os key
            reader_states := track s.reader_states key now
            spawned := s.spawned ++ [(key, now)] }
        else s
  else s

/-- The limit is reached within the window; `duration_since` does not go below zero. -/
def exhausted (s : Supervised) (now key : Nat) : Bool :=
  match s.reader_states.lookup key with
  | some state =>
      let in_window := now - state.last_restart < BACKOFF_WINDOW
      in_window && MAX_RESTARTS ≤ state.restart_count
  | none => false

def give_up (s : Supervised) (key : Nat) : Supervised :=
  match s.reader_states.lookup key with
  | some state => { s with reader_states := s.reader_states.insert key { state with gave_up := true } }
  | none => s

/-- `restart_reader`; the clock is read at the check, and again when the reader has been spawned. -/
def restart_reader (os : Os) (now again : Nat) (s : Supervised) (key : Nat) : Supervised :=
  if s.exhausted now key then s.give_up key
  -- the group was removed while its reader died
  else if (s.monitor.fanotify.groups.get key).isNone then s
  else s.spawn_fd_reader os again key

/-- A call, or what else the daemon does; `wait` is the time since the last one. -/
inductive Step where
  | spawn (os : Os) (key wait : Nat)
  /-- `lag` is the time between the two looks at the clock. -/
  | restart (os : Os) (key wait lag : Nat)
  /-- Anything that leaves the readers' states as they are. -/
  | other (m : Monitor) (wait : Nat)

def step (s : Supervised) : Step → Supervised
  | .spawn os key wait => { s.spawn_fd_reader os (s.clock + wait) key with clock := s.clock + wait }
  | .restart os key wait lag =>
      { s.restart_reader os (s.clock + wait) (s.clock + wait + lag) key with clock := s.clock + wait + lag }
  | .other m wait => { s with monitor := m, clock := s.clock + wait }

/-- When the group's reader was spawned, oldest first. -/
def times (s : Supervised) (key : Nat) : List Nat :=
  s.spawned.filterMap fun e => if e.1 = key then some e.2 else none

/-- The group lives, and its descriptor can be duplicated for a reader. -/
def CanSpawn (os : Os) (m : Monitor) (key : Nat) : Prop :=
  m.event_tx = true ∧ m.fanotify.shared_dir_cache = true ∧ (m.fanotify.groups.get key).isSome = true ∧
    os.dup_ok = true

/-- There is such a time, within the window before `now`. -/
def Young (now : Nat) (time : Option Nat) : Prop := ∃ t, time = some t ∧ now - t < BACKOFF_WINDOW

/-- How many of the times are within the window. -/
def recent (now : Nat) (times : List Nat) : Nat := times.countP fun t => now - t < BACKOFF_WINDOW

/-- A restart of a reader that can be spawned spawns none exactly when there were too many spawns. -/
def GivesUpRight (s : Supervised) : Step → Prop
  | .restart os key wait lag => CanSpawn os s.monitor key →
      ((s.step (.restart os key wait lag)).times key = s.times key ↔
        MAX_RESTARTS ≤ recent (s.clock + wait) (s.times key))
  | .spawn .. | .other .. => True

/-- With enough spawns in the count, the last one is young only if the third last is; and if that one
is, there are enough in the count. -/
def CountsRecent (s : Supervised) : Step → Prop
  | .restart os key wait _ => CanSpawn os s.monitor key →
      let times := s.times key
      let third := times.reverse[MAX_RESTARTS - 1]?
      (MAX_RESTARTS ≤ times.length % 2 ^ 32 → Young (s.clock + wait) times.getLast? →
          Young (s.clock + wait) third) ∧
        (Young (s.clock + wait) third → MAX_RESTARTS ≤ times.length % 2 ^ 32)
  | .spawn .. | .other .. => True

/-! ## What a call does -/

variable {s : Supervised} {os : Os} {m : Monitor} {now key q : Nat}

/-- A reader is spawned, or nothing but the monitor is touched. -/
theorem spawn_cases (os : Os) (now : Nat) (s : Supervised) (key : Nat) :
    (CanSpawn os s.monitor key ∧ ∃ m, s.spawn_fd_reader os now key =
        { s with
          monitor := m
          reader_states := track s.reader_states key now
          spawned := s.spawned ++ [(key, now)] }) ∨
      (¬ CanSpawn os s.monitor key ∧ ∃ m, s.spawn_fd_reader os now key = { s with monitor := m }) := by
  rw [spawn_fd_reader]
  split
  · next hopen =>
    rw [Bool.and_eq_true] at hopen
    split
    · next hget =>
      refine .inr ⟨?_, _, rfl⟩
      rintro ⟨_, _, hlive, _⟩
      rw [hget] at hlive
      cases hlive
    · next group hget =>
      split
      · next hdup => exact .inl ⟨⟨hopen.1, hopen.2, by rw [hget]; rfl, hdup⟩, _, rfl⟩
      · next hdup => exact .inr ⟨fun h => hdup h.2.2.2, _, rfl⟩
  · next hclosed =>
    rw [Bool.and_eq_true] at hclosed
    exact .inr ⟨fun h => hclosed ⟨h.1, h.2.1⟩, _, rfl⟩

theorem times_spawned (s : Supervised) (m : Monitor) (states : HashMap Nat ReaderState) (c key now q : Nat) :
    times ⟨m, states, c, s.spawned ++ [(key, now)]⟩ q = s.times q ++ if q = key then [now] else [] := by
  rw [times, List.filterMap_append, List.filterMap_cons, List.filterMap_nil]
  by_cases hq : q = key
  · rw [if_pos hq, if_pos hq.symm]
    rfl
  · rw [if_neg hq, if_neg (Ne.symm hq)]
    rfl

/-- Giving up is noted, and that is all. -/
theorem give_up_cases (s : Supervised) (key : Nat) :
    ∃ states, s.give_up key = { s with reader_states := states } ∧ ∀ q,
      (states.lookup q).map (fun r => (r.restart_count, r.last_restart)) =
        (s.reader_states.lookup q).map fun r => (r.restart_count, r.last_restart) := by
  rw [give_up]
  cases hlook : s.reader_states.lookup key with
  | none => exact ⟨_, rfl, fun _ => rfl⟩
  | some state =>
      refine ⟨_, rfl, ?_⟩
      intro q
      rw [HashMap.lookup_insert']
      split
      · next hq => rw [hq, hlook]; rfl
      · rfl

theorem lookup_track (states : HashMap Nat ReaderState) (key now q : Nat) :
    (track states key now).lookup q = if q = key then
      some (match states.lookup key with
        | some state => ⟨(state.restart_count + 1) % 2 ^ 32, now, false⟩
        | none => ⟨1, now, false⟩) else states.lookup q := by
  rw [track]
  cases states.lookup key with
  | none => exact HashMap.lookup_insert' ..
  | some state => exact HashMap.lookup_insert' ..

/-! ## The state that is kept -/

/-- The count, modulo `2 ^ 32`, and the time of the last spawn are kept for each group; the times go up. -/
structure Tracked (s : Supervised) : Prop where
  kept : ∀ key, (s.reader_states.lookup key).map (fun r => (r.restart_count, r.last_restart)) =
    (s.times key).getLast?.map fun t => ((s.times key).length % 2 ^ 32, t)
  sorted : ∀ key, (s.times key).Pairwise (· ≤ ·)
  past : ∀ key, ∀ t ∈ s.times key, t ≤ s.clock

theorem Tracked.spawn (h : s.Tracked) (os : Os) (key wait lag : Nat) :
    Tracked { s.spawn_fd_reader os (s.clock + wait + lag) key with clock := s.clock + wait + lag } := by
  have hlater : ∀ q, ∀ t ∈ s.times q, t ≤ s.clock + wait + lag := fun q t ht =>
    Nat.le_trans (h.past q t ht) (by omega)
  obtain ⟨_, m, heq⟩ | ⟨_, m, heq⟩ := spawn_cases os (s.clock + wait + lag) s key
  · rw [heq]
    refine ⟨?_, ?_, ?_⟩
    · intro q
      show ((track s.reader_states key _).lookup q).map _ = _
      rw [times_spawned, lookup_track]
      have hq := h.kept q
      split
      · next hkey =>
        subst hkey
        rw [List.getLast?_append, List.length_append]
        cases hlook : s.reader_states.lookup q with
        | none =>
            rw [hlook] at hq
            have hnil : s.times q = [] := List.getLast?_eq_none_iff.1 (Option.map_eq_none_iff.1 hq.symm)
            rw [hnil]
            rfl
        | some state =>
            rw [hlook] at hq
            obtain ⟨t, _, hcount⟩ := Option.map_eq_some_iff.1 hq.symm
            show some ((state.restart_count + 1) % 2 ^ 32, _) = some (_, _)
            rw [← (Prod.mk.inj hcount).1, Nat.mod_add_mod]
            rfl
      · rw [List.append_nil]
        exact hq
    · intro q
      rw [times_spawned, List.pairwise_append]
      refine ⟨h.sorted q, ?_, ?_⟩
      · split
        · exact List.pairwise_singleton ..
        · exact List.Pairwise.nil
      · intro t ht t' ht'
        split at ht'
        · rw [List.mem_singleton.1 ht']
          exact hlater q t ht
        · cases ht'
    · intro q t ht
      rw [times_spawned, List.mem_append] at ht
      rcases ht with ht | ht
      · exact hlater q t ht
      · split at ht
        · exact Nat.le_of_eq (List.mem_singleton.1 ht)
        · cases ht
  · rw [heq]
    exact ⟨h.kept, h.sorted, hlater⟩

theorem Tracked.step (h : s.Tracked) (a : Step) : (s.step a).Tracked := by
  cases a with
  | spawn os key wait => exact h.spawn os key wait 0
  | other m wait => exact ⟨h.kept, h.sorted, fun q t ht => Nat.le_trans (h.past q t ht) (Nat.le_add_right ..)⟩
  | restart os key wait lag =>
      have hlater : ∀ q, ∀ t ∈ s.times q, t ≤ s.clock + wait + lag := fun q t ht =>
        Nat.le_trans (h.past q t ht) (by omega)
      rw [Supervised.step, restart_reader]
      split
      · obtain ⟨states, heq, hsame⟩ := give_up_cases s key
        rw [heq]
        exact ⟨fun q => (hsame q).trans (h.kept q), h.sorted, hlater⟩
      · split
        · exact ⟨h.kept, h.sorted, hlater⟩
        · exact h.spawn os key wait lag

/-- The check knows the count modulo `2 ^ 32`, and the last time. -/
theorem Tracked.exhausted_iff (h : s.Tracked) (now key : Nat) :
    s.exhausted now key = true ↔
      MAX_RESTARTS ≤ (s.times key).length % 2 ^ 32 ∧ Young now (s.times key).getLast? := by
  have hkept := h.kept key
  rw [exhausted]
  cases hlook : s.reader_states.lookup key with
  | none =>
      rw [hlook] at hkept
      have hnone := Option.map_eq_none_iff.1 hkept.symm
      refine iff_of_false Bool.false_ne_true ?_
      rintro ⟨_, t, hlast, _⟩
      rw [hnone] at hlast
      cases hlast
  | some state =>
      rw [hlook] at hkept
      obtain ⟨t, hlast, hpair⟩ := Option.map_eq_some_iff.1 hkept.symm
      obtain ⟨hcount, rfl⟩ := Prod.mk.inj hpair
      show (decide _ && decide _) = true ↔ _
      rw [Bool.and_eq_true, decide_eq_true_eq, decide_eq_true_eq, hcount, hlast, and_comm]
      refine and_congr_right fun _ => ?_
      constructor
      · exact fun hyoung => ⟨_, rfl, hyoung⟩
      · rintro ⟨t, ht, hyoung⟩
        cases ht
        exact hyoung

/-- A restart of a reader that can be spawned spawns none exactly when the check says so. -/
theorem refuses_iff (h : CanSpawn os s.monitor key) (wait lag : Nat) :
    (s.step (.restart os key wait lag)).times key = s.times key ↔ s.exhausted (s.clock + wait) key = true := by
  rw [step, restart_reader]
  split
  · next hex =>
    obtain ⟨states, heq, _⟩ := give_up_cases s key
    rw [heq]
    exact iff_of_true rfl hex
  · next hex =>
    rw [if_neg (by rw [Option.isNone_eq_false_iff.2 h.2.2.1]; exact Bool.false_ne_true)]
    obtain ⟨_, m, heq⟩ | ⟨hnot, _⟩ := spawn_cases os (s.clock + wait + lag) s key
    · rw [heq]
      refine iff_of_false ?_ hex
      rw [times_spawned, if_pos rfl]
      intro hsame
      have hlen := congrArg List.length hsame
      rw [List.length_append, List.length_singleton] at hlen
      omega
    · exact absurd h hnot

/-! ## The window -/

/-- What goes down, and meets `p` only as long as it is high, meets it more than `n` times if it does at `n`. -/
theorem lt_countP_iff {p : Nat → Bool} : ∀ {xs : List Nat} {n : Nat},
    xs.Pairwise (fun a b => p b = true → p a = true) →
      (n < xs.countP p ↔ ∃ x, xs[n]? = some x ∧ p x = true) := by
  intro xs
  induction xs with
  | nil =>
      intro n _
      refine iff_of_false (Nat.not_lt_zero n) ?_
      rintro ⟨x, h, _⟩
      cases h
  | cons a xs ih =>
      intro n hdown
      obtain ⟨hhead, htail⟩ := List.pairwise_cons.1 hdown
      rw [List.countP_cons]
      cases ha : p a with
      | true =>
          cases n with
          | zero => exact iff_of_true (Nat.succ_pos _) ⟨a, rfl, ha⟩
          | succ n =>
              rw [if_pos rfl, Nat.succ_lt_succ_iff]
              exact ih htail
      | false =>
          -- nothing behind it meets `p` either
          have hnone : ∀ x ∈ xs, ¬ p x = true := fun x hx hpx => by
            rw [hhead x hx hpx] at ha
            cases ha
          rw [List.countP_eq_zero.2 hnone, if_neg Bool.false_ne_true]
          refine iff_of_false (Nat.not_lt_zero n) ?_
          rintro ⟨x, hx, hpx⟩
          rcases List.mem_cons.1 (List.mem_of_getElem? hx) with rfl | hmem
          · rw [ha] at hpx
            cases hpx
          · exact hnone x hmem hpx

/-- There are more than `n` young spawns exactly when the one `n` before the last is young. -/
theorem Tracked.recent_iff (h : s.Tracked) (now key n : Nat) :
    n < recent now (s.times key) ↔ Young now (s.times key).reverse[n]? := by
  have hdown : (s.times key).reverse.Pairwise fun a b =>
      decide (now - b < BACKOFF_WINDOW) = true → decide (now - a < BACKOFF_WINDOW) = true := by
    rw [List.pairwise_reverse]
    refine (h.sorted key).imp ?_
    intro a b hab hyoung
    rw [decide_eq_true_eq] at hyoung ⊢
    omega
  have hcount := @lt_countP_iff _ _ n hdown
  rw [List.countP_reverse] at hcount
  refine hcount.trans ?_
  refine exists_congr fun t => ?_
  rw [decide_eq_true_eq]

/-- If the third last spawn is young, the last one is. -/
theorem Tracked.young_last (h : s.Tracked) (hthird : Young now (s.times key).reverse[MAX_RESTARTS - 1]?) :
    Young now (s.times key).getLast? := by
  have hmany := (h.recent_iff now key (MAX_RESTARTS - 1)).2 hthird
  rw [← List.head?_reverse, List.head?_eq_getElem?]
  exact (h.recent_iff now key 0).1 (Nat.lt_of_le_of_lt (Nat.zero_le _) hmany)

/-! ## Runs -/

theorem tracked_new (m : Monitor) : (new m).Tracked :=
  ⟨fun _ => rfl, fun _ => List.Pairwise.nil, fun _ _ h => by cases h⟩

theorem Tracked.gives_up_right_iff (h : s.Tracked) (a : Step) : s.GivesUpRight a ↔ s.CountsRecent a := by
  cases a with
  | spawn os key wait => exact .rfl
  | other m wait => exact .rfl
  | restart os key wait lag =>
      refine forall_congr' fun hcan => ?_
      have hmany := h.recent_iff (s.clock + wait) key (MAX_RESTARTS - 1)
      rw [refuses_iff hcan, h.exhausted_iff]
      constructor
      · intro hright
        exact ⟨fun hcount hlast => hmany.1 (hright.1 ⟨hcount, hlast⟩),
          fun hthird => (hright.2 (hmany.2 hthird)).1⟩
      · rintro ⟨hthird, hcount⟩
        constructor
        · exact fun hex => hmany.2 (hthird hex.1 hex.2)
        · exact fun hrecent => ⟨hcount (hmany.1 hrecent), h.young_last (hmany.1 hrecent)⟩

/-- **Readers are given up exactly when they crash too often** in the runs in which the count and the last
time say no more than the last three times. -/
theorem gives_up_iff (m : Monitor) (steps : List Step) :
    Run.Guarded step GivesUpRight (new m) steps ↔ Run.Guarded step CountsRecent (new m) steps :=
  Run.guarded_congr Tracked (fun _ a h => h.step a) steps (new m) (tracked_new m)
    fun _ h a _ => h.gives_up_right_iff a

/-- A daemon with one group. -/
def oneGroup : Monitor :=
  { Monitor.idle with fanotify := { Monitor.idle.fanotify with groups := SlotMap.empty.insert ⟨1, 3, 1⟩ } }

/-- Seconds. -/
def secs (n : Nat) : Nat := n * 10 ^ 9

/-- A reader that is spawned, dies twice, each time after 1000 seconds, and then once more. -/
def longLived : List Step :=
  [.spawn (.calm Os.bareTree) 0 0, .restart (.calm Os.bareTree) 0 (secs 1000) 0,
    .restart (.calm Os.bareTree) 0 (secs 1000) 0, .restart (.calm Os.bareTree) 0 (secs 1) 0]

/-- It is given up, and has been spawned once within the last minute. -/
theorem gives_up_long_lived :
    ¬ Run.Guarded step GivesUpRight (new oneGroup) longLived ∧
      recent (secs 2001) ((Run.exec step (new oneGroup) longLived).times 0) = 1 := by
  constructor
  · rintro ⟨_, _, _, hlast, _⟩
    have hright := (hlast ⟨rfl, rfl, rfl, rfl⟩).1 (by decide)
    revert hright
    decide
  · decide

end Supervised

end Fsmon
