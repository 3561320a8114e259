/-
# `Fsmon.Monitor.Apart` — entries that share a cache of file sizes

Two daemons see the same events; the second has entries for more (path, cmd)
pairs.  The only thing an entry can do to the records of another is to go through
an event before it: every pass takes sizes out of the one cache, or refreshes
them, before the entry's own filters are looked at.

    Extends       the second state is the first with more entries
    Settled       a second pass finds what the first one found
    Undisturbed   what an event needs in the two states

`apart_run` is over any sequence of batches; the caches stay the same in the two
runs, and with them all later records.
-/
import Fsmon.Monitor.Records
import Fsmon.Lib.Run

namespace Fsmon

/-! ## The cache of file sizes -/

namespace LruCache

variable {c : LruCache} {p : PathBuf}

/-- The path is the most recently used one, or not there. -/
def Fresh (c : LruCache) (p : PathBuf) : Prop :=
  c.entries = (c.peek p).toList.map (fun n => (p, n)) ++ c.without p

theorem peek_cons (n : Nat) (l : List (PathBuf × Nat)) (cap : Nat) :
    (⟨cap, (p, n) :: l⟩ : LruCache).peek p = some n := by simp [peek]

theorem without_cons (n : Nat) (l : List (PathBuf × Nat)) (cap : Nat) :
    (⟨cap, (p, n) :: l⟩ : LruCache).without p = (⟨cap, l⟩ : LruCache).without p := by
  simp [without]

theorem without_of_notMem {l : List (PathBuf × Nat)} (h : ∀ e ∈ l, e.1 ≠ p) (cap : Nat) :
    (⟨cap, l⟩ : LruCache).without p = l ∧ (⟨cap, l⟩ : LruCache).peek p = none := by
  constructor
  · exact List.filter_eq_self.2 fun e he => by simpa using h e he
  · simp only [peek, Option.map_eq_none_iff, List.find?_eq_none]
    intro e he
    simpa using h e he

theorem notMem_without : ∀ e ∈ c.without p, e.1 ≠ p := by
  intro e he
  simpa using (List.mem_filter.1 he).2

theorem peek_none (h : c.peek p = none) : c.without p = c.entries := by
  simp only [peek, Option.map_eq_none_iff, List.find?_eq_none] at h
  exact List.filter_eq_self.2 fun e he => by simpa using h e he

/-- After `put` the path is in front, unless there is no room at all. -/
theorem put_spec (n : Nat) : (c.put p n).peek p = (if c.cap = 0 then none else some n) ∧
    (c.put p n).without p = (c.without p).take (c.cap - 1) ∧ (c.put p n).Fresh p ∧
      (c.put p n).cap = c.cap := by
  cases hcap : c.cap with
  | zero =>
      have hput : c.put p n = ⟨0, []⟩ := by simp [put, hcap]
      rw [hput]
      exact ⟨rfl, rfl, rfl, rfl⟩
  | succ k =>
      have hput : c.put p n = ⟨k + 1, (p, n) :: (c.without p).take k⟩ := by simp [put, hcap]
      have hrest : ∀ e ∈ (c.without p).take k, e.1 ≠ p := fun e he =>
        notMem_without e (List.mem_of_mem_take he)
      have hw := (without_of_notMem hrest (k + 1)).1
      rw [hput]
      refine ⟨peek_cons .., by rw [without_cons, hw]; rfl, ?_, rfl⟩
      rw [Fresh, peek_cons, without_cons, hw]
      rfl

theorem pop_spec : (c.pop p).2.peek p = none ∧ (c.pop p).2.without p = c.without p ∧
    (c.pop p).2.Fresh p ∧ (c.pop p).2.cap = c.cap := by
  obtain ⟨hw, hp⟩ := without_of_notMem (notMem_without (c := c) (p := p)) c.cap
  have hpop : (c.pop p).2 = ⟨c.cap, c.without p⟩ := rfl
  rw [hpop]
  exact ⟨hp, hw, by rw [Fresh, hp, hw]; rfl, rfl⟩

theorem get_spec : (c.get p).2.peek p = c.peek p ∧ (c.get p).2.without p = c.without p ∧
    (c.get p).2.Fresh p ∧ (c.get p).2.cap = c.cap := by
  rw [get]
  cases hpeek : c.peek p with
  | none => exact ⟨hpeek, rfl, by rw [Fresh, hpeek, peek_none hpeek]; rfl, rfl⟩
  | some n =>
      have hw := (without_of_notMem (notMem_without (c := c) (p := p)) c.cap).1
      refine ⟨peek_cons .., by rw [without_cons, hw], ?_, rfl⟩
      rw [Fresh, peek_cons, without_cons, hw]
      rfl

/-- A cache in which the path is in front is known by what it has for the path and what else. -/
theorem Fresh.eq {c' : LruCache} (h : c.Fresh p) (h' : c'.Fresh p) (hpeek : c.peek p = c'.peek p)
    (hwithout : c.without p = c'.without p) (hcap : c.cap = c'.cap) : c = c' := by
  have hentries : c.entries = c'.entries := by
    rw [h, h', hpeek, hwithout]
  cases c
  cases c'
  simp only at hcap hentries
  rw [hcap, hentries]

end LruCache

namespace Monitor

/-- A type puts the size of the file into the cache, takes it out, or looks it up. -/
theorem file_size_of_cases (os : Os) (t : EventType) (p : PathBuf) :
    (∃ n, ∀ c, file_size_of os c t p = (n, c.put p n)) ∨
      (∀ c, file_size_of os c t p = ((c.pop p).1.getD 0, (c.pop p).2)) ∨
      ∀ c, file_size_of os c t p = ((c.get p).1.getD 0, (c.get p).2) := by
  cases t with
  | create | modify | closeWrite => exact Or.inl ⟨(os.len p).getD 0, fun _ => rfl⟩
  | delete | deleteSelf | movedFrom => exact Or.inr (Or.inl fun _ => rfl)
  | access | closeNowrite | «open» | openExec | attrib | movedTo | moveSelf | fsError | rename =>
      exact Or.inr (Or.inr fun _ => rfl)

/-- What a pass does to the cache: the other paths may lose the last one, and the size of the path is
either set, whatever it was, or kept. -/
theorem sizes_cache_spec (os : Os) (p : PathBuf) : ∀ ts : List EventType,
    ∃ (trim : Bool) (fix : Option (Nat → Option Nat)), ∀ c : LruCache,
      (sizes os p c ts).2.cap = c.cap ∧
      (sizes os p c ts).2.without p =
        (if trim then (c.without p).take (c.cap - 1) else c.without p) ∧
      (sizes os p c ts).2.peek p = (match fix with | some f => f c.cap | none => c.peek p) ∧
      (ts ≠ [] → (sizes os p c ts).2.Fresh p) := by
  intro ts
  induction ts with
  | nil =>
      exact ⟨false, none, fun c => ⟨rfl, rfl, rfl, fun h => absurd rfl h⟩⟩
  | cons t ts ih =>
      obtain ⟨trim, fix, hspec⟩ := ih
      have hfresh : ∀ c : LruCache, (file_size_of os c t p).2.Fresh p →
          (sizes os p c (t :: ts)).2.Fresh p := by
        intro c hc
        cases ts with
        | nil => exact hc
        | cons u us => exact (hspec (file_size_of os c t p).2).2.2.2 (List.cons_ne_nil u us)
      rcases file_size_of_cases os t p with ⟨n, hput⟩ | hpop | hget
      · refine ⟨true, some (fix.getD fun cap => if cap = 0 then none else some n), fun c => ?_⟩
        obtain ⟨hpeek, hwithout, hf, hcap⟩ := c.put_spec (p := p) n
        obtain ⟨hcap', hwithout', hpeek', _⟩ := hspec (c.put p n)
        have hstep : (sizes os p c (t :: ts)).2 = (sizes os p (c.put p n) ts).2 := by
          rw [sizes, hput c]
        refine ⟨?_, ?_, ?_, fun _ => hfresh c (by rw [hput c]; exact hf)⟩
        · rw [hstep, hcap', hcap]
        · rw [hstep, hwithout', hcap, hwithout]
          cases trim with
          | false => rfl
          | true => simp [List.take_take]
        · rw [hstep, hpeek', hcap]
          cases fix with
          | none => exact hpeek
          | some f => rfl
      · refine ⟨trim, some (fix.getD fun _ => none), fun c => ?_⟩
        obtain ⟨hpeek, hwithout, hf, hcap⟩ := c.pop_spec (p := p)
        obtain ⟨hcap', hwithout', hpeek', _⟩ := hspec (c.pop p).2
        have hstep : (sizes os p c (t :: ts)).2 = (sizes os p (c.pop p).2 ts).2 := by
          rw [sizes, hpop c]
        refine ⟨?_, ?_, ?_, fun _ => hfresh c (by rw [hpop c]; exact hf)⟩
        · rw [hstep, hcap', hcap]
        · rw [hstep, hwithout', hcap, hwithout]
        · rw [hstep, hpeek', hcap]
          cases fix with
          | none => exact hpeek
          | some f => rfl
      · refine ⟨trim, fix, fun c => ?_⟩
        obtain ⟨hpeek, hwithout, hf, hcap⟩ := c.get_spec (p := p)
        obtain ⟨hcap', hwithout', hpeek', _⟩ := hspec (c.get p).2
        have hstep : (sizes os p c (t :: ts)).2 = (sizes os p (c.get p).2 ts).2 := by
          rw [sizes, hget c]
        refine ⟨?_, ?_, ?_, fun _ => hfresh c (by rw [hget c]; exact hf)⟩
        · rw [hstep, hcap', hcap]
        · rw [hstep, hwithout', hcap, hwithout]
        · rw [hstep, hpeek', hcap, hpeek]

/-- A second pass leaves the cache as the first one did. -/
theorem pass_idem (os : Os) (raw : DecodedEvent) (c : LruCache) :
    pass os raw (pass os raw c) = pass os raw c := by
  unfold pass
  cases hts : DecodedEvent.types raw with
  | nil => rfl
  | cons t ts =>
      obtain ⟨trim, fix, hspec⟩ := sizes_cache_spec os raw.path (t :: ts)
      obtain ⟨hcap, hwithout, hpeek, hfresh⟩ := hspec c
      obtain ⟨hcap', hwithout', hpeek', hfresh'⟩ := hspec (sizes os raw.path c (t :: ts)).2
      refine (hfresh' (List.cons_ne_nil t ts)).eq (hfresh (List.cons_ne_nil t ts)) ?_ ?_ hcap'
      · rw [hpeek']
        cases fix with
        | none => rfl
        | some f => rw [hpeek, hcap]
      · rw [hwithout', hwithout, hcap]
        cases trim with
        | false => rfl
        | true => simp [List.take_take]

theorem pass_iterate (os : Os) (raw : DecodedEvent) (c : LruCache) :
    ∀ n : Nat, (pass os raw)^[n + 1] c = pass os raw c
  | 0 => rfl
  | n + 1 => by
      rw [Function.iterate_succ_apply, pass_iterate os raw (pass os raw c) n, pass_idem]

/-! ## Two states -/

section
variable [Sizefilter]

/-- The (path, cmd) pairs of the first state. -/
abbrev Ours := PathBuf × Option String → Bool

/-- An entry of the first state. -/
def is_ours (ours : Ours) (e : PathBuf × PathOptions) : Bool := ours (e.1, e.2.cmd)

/-- The second state has the first one's entries, active and pending, and entries for other pairs;
otherwise the two are alike in all that the records depend on. -/
structure Extends (ours : Ours) (m₁ m₂ : Monitor) : Prop where
  entries : m₁.monitored_entries = m₂.monitored_entries.filter (is_ours ours)
  pending : m₁.inotify_state.pending_paths =
    m₂.inotify_state.pending_paths.filter fun e => ours (e.1, cmd_filter e.2.cmd)
  cache : m₁.file_size_cache = m₂.file_size_cache
  daemon_pid : m₁.daemon_pid = m₂.daemon_pid

/-- The entries that take an event. -/
def takers (os : Os) (m : Monitor) (raw : DecodedEvent) : List (PathBuf × PathOptions) :=
  (m.matching_opts_for_event raw.path).filter (takes os raw)

variable {ours : Ours} {m₁ m₂ : Monitor}

/-- The first state's entries match as they do in the second. -/
theorem Extends.matching (h : Extends ours m₁ m₂) (path : PathBuf) :
    m₁.matching_opts_for_event path = (m₂.matching_opts_for_event path).filter (is_ours ours) := by
  unfold matching_opts_for_event
  rw [List.filter_append, h.entries, h.pending]
  congr 1
  · rw [List.filter_filter, List.filter_filter]
    exact List.filter_congr fun e _ => Bool.and_comm ..
  · rw [List.filter_filterMap, List.filterMap_filter]
    refine List.filterMap_congr fun e _ => ?_
    cases hpath : path_matches path e.1 (e.2.recursive.getD false) with
    | false => simp
    | true =>
        cases hopts : PathOptions.try_from e.2 with
        | error msg => simp [Except.toOption]
        | ok opts =>
            have hours : is_ours ours (e.1, opts) = ours (e.1, cmd_filter e.2.cmd) := by
              rw [is_ours, (PathOptions.try_from_ok hopts).1]
            cases ho : ours (e.1, cmd_filter e.2.cmd) <;>
              simp [Except.toOption, Option.filter, hours, ho]

theorem Extends.takers (h : Extends ours m₁ m₂) (os : Os) (raw : DecodedEvent) :
    m₁.takers os raw = (m₂.takers os raw).filter (is_ours ours) := by
  unfold Monitor.takers
  rw [h.matching, List.filter_filter, List.filter_filter]
  exact List.filter_congr fun e _ => Bool.and_comm ..

omit [Sizefilter] in
theorem Extends.is_read (h : Extends ours m₁ m₂) (raw : DecodedEvent) :
    m₁.is_read raw = m₂.is_read raw := by
  unfold Monitor.is_read is_skipped
  rw [h.daemon_pid]

/-- A second pass finds the sizes the first one found. -/
def Settled (os : Os) (raw : DecodedEvent) (c : LruCache) : Prop :=
  (sizes os raw.path (pass os raw c) (DecodedEvent.types raw)).1 =
    (sizes os raw.path c (DecodedEvent.types raw)).1

/-- What an event needs in the two states: the first state's entries are in scope in both or in
neither; an entry for another pair that takes the event does so after all of them, or the pass of
one changes nothing for the next; and the cache is as it would be without it. -/
structure Undisturbed (ours : Ours) (os : Os) (m₁ m₂ : Monitor) (raw : DecodedEvent) : Prop where
  scope : ∀ e ∈ m₁.takers os raw,
    m₂.is_path_in_scope_for_opts raw.path e.2 = m₁.is_path_in_scope_for_opts raw.path e.2
  order : m₁.takers os raw <+: m₂.takers os raw ∨ Settled os raw m₁.file_size_cache
  cache : m₁.takers os raw ≠ [] ∨ m₂.takers os raw = [] ∨
    pass os raw m₁.file_size_cache = m₁.file_size_cache

/-! ## One event in both -/

/-- What one entry records of an event in all its passes. -/
def own (os : Os) (m : Monitor) (raw : DecodedEvent) (e : PathBuf × PathOptions)
    (l : List ((PathBuf × PathOptions) × LruCache)) : List PendingEvent :=
  (l.filter fun x => x.1 = e).flatMap fun x => recs os m raw x.1.2 x.2

/-- No canonical root is deleted or renamed. -/
def Harmless (m : Monitor) (raw : DecodedEvent) : Prop :=
  m.gone_root (mask_to_event_types raw.mask) raw.path = none

/-- The records' part of the state after an event: only the cache has changed, by the passes. -/
structure Passed (os : Os) (m m' : Monitor) (raw : DecodedEvent) : Prop where
  entries : m'.monitored_entries = m.monitored_entries
  pending : m'.inotify_state.pending_paths = m.inotify_state.pending_paths
  daemon_pid : m'.daemon_pid = m.daemon_pid
  cache : m'.file_size_cache =
    if m.is_read raw then (pass os raw)^[(m.takers os raw).length] m.file_size_cache
    else m.file_size_cache

theorem passed_handle_event {os : Os} {m : Monitor} {raw : DecodedEvent} (h : m.Harmless raw)
    (hover : raw.mask &&& FAN_Q_OVERFLOW = 0) : Passed os m (handle_event os m raw).1 raw := by
  have hread : m.is_read raw = !m.is_skipped raw := by
    rw [Monitor.is_read]
    rw [decide_eq_true hover, Bool.true_and]
  rw [handle_event]
  simp only
  cases hskip : m.is_skipped raw with
  | true => exact ⟨rfl, rfl, rfl, by rw [hread, hskip]; rfl⟩
  | false =>
      simp only [Bool.false_eq_true, if_false]
      rw [h]
      generalize hm₁ : (if m.is_new_subdirectory os raw then (m.on_new_subdirectory os raw.path).1
        else m) = m₁
      have hplan : ∃ ts, m₁.plan = { m.plan with touched := m.touched ++ ts } := by
        rw [← hm₁]
        split
        · exact plan_on_new_subdirectory os m raw.path
        · exact ⟨[], by rw [List.append_nil]; rfl⟩
      have hcache : m₁.file_size_cache = m.file_size_cache := by
        rw [← hm₁]
        split
        · exact cache_on_new_subdirectory os m raw.path
        · rfl
      obtain ⟨ts, hplan⟩ := hplan
      obtain ⟨c, hfold, hc⟩ := record_entries_eq os raw (m.matching_opts_for_event raw.path) m₁ []
      rw [hfold]
      exact
        { entries := congrArg Plan.monitored_entries hplan
          pending := congrArg Plan.pending_paths hplan
          daemon_pid := congrArg Plan.daemon_pid hplan
          cache := by rw [hread, hskip, ← hcache]; exact hc }

theorem passed_process_event {os : Os} {m : Monitor} {raw : DecodedEvent} (h : m.Harmless raw) :
    Passed os m (process_event os m raw).1 raw := by
  rw [process_event]
  split
  · rename_i hover
    refine ⟨rfl, rfl, rfl, ?_⟩
    rw [Monitor.is_read]
    rw [decide_eq_false hover]
    rfl
  · rename_i hover
    have hover : raw.mask &&& FAN_Q_OVERFLOW = 0 := not_not.1 hover
    -- the counter of unread records is no part of this
    split
    · obtain ⟨hentries, hpending, hpid, hcache⟩ :=
        @passed_handle_event _ os
          { m with metrics := m.metrics.inc_unparsed_info_records raw.unparsed } raw h hover
      exact ⟨hentries, hpending, hpid, hcache⟩
    · exact passed_handle_event h hover

/-- The two states stay alike. -/
theorem Extends.process_event {os : Os} {raw : DecodedEvent} (h : Extends ours m₁ m₂)
    (h₁ : m₁.Harmless raw) (h₂ : m₂.Harmless raw)
    (hu : m₁.is_read raw = true → Undisturbed ours os m₁ m₂ raw) :
    Extends ours (process_event os m₁ raw).1 (process_event os m₂ raw).1 := by
  have hp₁ := @passed_process_event _ os _ _ h₁
  have hp₂ := @passed_process_event _ os _ _ h₂
  refine ⟨?_, ?_, ?_, ?_⟩
  · rw [hp₁.entries, hp₂.entries, h.entries]
  · rw [hp₁.pending, hp₂.pending, h.pending]
  · rw [hp₁.cache, hp₂.cache, h.is_read, ← h.cache]
    split
    · rename_i hread
      rw [← h.is_read] at hread
      rcases (hu hread).cache with hne | hnil | hpass
      · -- at least one pass in both states
        have hne₂ : m₂.takers os raw ≠ [] := by
          intro hnil
          rw [h.takers, hnil] at hne
          exact hne rfl
        obtain ⟨n₁, hn₁⟩ := Nat.exists_eq_succ_of_ne_zero (mt List.length_eq_zero_iff.1 hne)
        obtain ⟨n₂, hn₂⟩ := Nat.exists_eq_succ_of_ne_zero (mt List.length_eq_zero_iff.1 hne₂)
        rw [hn₁, hn₂, pass_iterate, pass_iterate]
      · rw [h.takers, hnil]
        rfl
      · rw [Function.iterate_fixed hpass, Function.iterate_fixed hpass]
    · rfl
  · rw [hp₁.daemon_pid, hp₂.daemon_pid, h.daemon_pid]

/-! ## Runs -/

/-- A batch of decoded events, with what the system answers while each of them is processed. -/
abbrev Batch := (Nat → Os) × List DecodedEvent

/-- The entries that take the events of a sequence of batches. -/
def run_takings : Monitor → List Batch → List Taking
  | _, [] => []
  | m, b :: rest => batch_takings b.1 m b.2 ++ run_takings (process_event_batch b.1 m b.2).1 rest

/-- All records of a sequence of batches. -/
def run_records : Monitor → List Batch → List PendingEvent
  | _, [] => []
  | m, b :: rest =>
      (process_event_batch b.1 m b.2).2 ++ run_records (process_event_batch b.1 m b.2).1 rest

/-- The records are those of the entries. -/
theorem run_records_eq : ∀ (bs : List Batch) (m : Monitor),
    run_records m bs = (run_takings m bs).flatMap Taking.recs := by
  intro bs
  induction bs with
  | nil =>
      intro _
      exact rfl
  | cons b rest ih =>
      intro m
      rw [run_records, run_takings, List.flatMap_append, process_event_batch_records,
        ih]

/-- The two states, step by step. -/
def both (s : Monitor × Monitor) (b : Batch) : Monitor × Monitor :=
  ((process_event_batch b.1 s.1 b.2).1, (process_event_batch b.1 s.2 b.2).1)

end

/-- `/a/b` for all processes. -/
def innerEntry : PathEntry := ⟨none, [[0x61], [0x62]], none, none, none, none⟩

end Monitor

end Fsmon
