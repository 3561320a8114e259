/-
# `Fsmon.Monitor.Heard` — events that an entry asks for

An entry hears of an event when a record is made for it.  Two entries that ask
for an event and may not hear of it:

    RENAME    the rename is split into its two moves first, and neither half
              carries the type (`rename_heard_iff`)
    pending   the match looks at the pending entries, the test of scope that comes
              after it at the active ones only (`pending_heard_iff`)

An expanded event is *visited* in the state that those before it have left
(`visits`); `batch_out` says that the records of a batch are those of its visits.
-/
import Fsmon.Monitor.Asked
import Fsmon.Monitor.Stable

namespace Fsmon.Monitor

section
variable [Sizefilter]

/-! ## Visits -/

/-- An expanded event, with the system and the state it finds. -/
structure Visit where
  os : Os
  monitor : Monitor
  raw : DecodedEvent

/-- The entries that take the event. -/
def Visit.takings (v : Visit) : List Taking :=
  if v.monitor.is_read v.raw then
    (v.monitor.taken v.os v.raw).map fun x => ⟨v.os, v.monitor, v.raw, x.1, x.2⟩
  else []

/-- The records of the event. -/
def Visit.out (v : Visit) : List PendingEvent := (process_event v.os v.monitor v.raw).2

theorem Visit.out_eq (v : Visit) : v.out = v.takings.flatMap Taking.recs := by
  unfold Visit.out Visit.takings
  rw [process_event_records]
  split
  · rw [List.flatMap_map]
    rfl
  · rfl

/-- The visits of expanded events. -/
def visits : (Nat → Os) → Monitor → List DecodedEvent → List Visit
  | _, _, [] => []
  | os, m, raw :: rest =>
      ⟨os 0, m, raw⟩ :: visits (fun i => os (i + 1)) (process_event (os 0) m raw).1 rest

theorem out_visits : ∀ (raws : List DecodedEvent) (os : Nat → Os) (m : Monitor),
    (process_events os m raws).2 = (visits os m raws).flatMap Visit.out := by
  intro raws
  induction raws with
  | nil =>
      intro _ _
      exact rfl
  | cons raw rest ih =>
      intro os m
      rw [visits, List.flatMap_cons, ← ih]
      exact rfl

theorem visits_append : ∀ (raws more : List DecodedEvent) (os : Nat → Os) (m : Monitor),
    visits os m (raws ++ more) = visits os m raws ++
      visits (fun i => os (i + raws.length)) (process_events os m raws).1 more := by
  intro raws
  induction raws with
  | nil =>
      intro _ _ _
      exact rfl
  | cons raw rest ih =>
      intro more os m
      rw [List.cons_append, visits, visits, ih, List.cons_append, List.length_cons]
      simp only [Nat.add_assoc]
      exact rfl

/-- The visits of a batch. -/
def batch_visits (os : Nat → Os) (m : Monitor) (events : List DecodedEvent) : List Visit :=
  visits os { m with metrics := m.metrics.inc_events_unresolved_rename (expand_renames events).2 }
    (expand_renames events).1

/-- A batch records what its visits record. -/
theorem batch_out (os : Nat → Os) (m : Monitor) (events : List DecodedEvent) :
    (process_event_batch os m events).2 = (batch_visits os m events).flatMap Visit.out :=
  out_visits ..

omit [Sizefilter] in
theorem expand_renames_append (events more : List DecodedEvent) :
    (expand_renames (events ++ more)).1 = (expand_renames events).1 ++ (expand_renames more).1 := by
  induction events with
  | nil => rfl
  | cons ev events ih =>
      rw [List.cons_append]
      cases hrename : ev.rename with
      | none => simp only [expand_renames, hrename, ih, List.cons_append]
      | some halves => simp only [expand_renames, hrename, ih, List.append_assoc]

/-- The system and the state that what follows `before` in a batch finds. -/
def reached (os : Nat → Os) (m : Monitor) (before rest : List DecodedEvent) : (Nat → Os) × Monitor :=
  (fun i => os (i + (expand_renames before).1.length),
    (process_events os
      { m with
        metrics := m.metrics.inc_events_unresolved_rename (expand_renames (before ++ rest)).2 }
      (expand_renames before).1).1)

/-- The visits of one event of a batch: those of its halves, if it is a rename. -/
def event_visits (os : Nat → Os) (m : Monitor) (before : List DecodedEvent) (ev : DecodedEvent)
    (after : List DecodedEvent) : List Visit :=
  visits (reached os m before (ev :: after)).1 (reached os m before (ev :: after)).2
    (expand_renames [ev]).1

/-- They are visits of the batch. -/
theorem event_visits_sublist (os : Nat → Os) (m : Monitor) (before : List DecodedEvent)
    (ev : DecodedEvent) (after : List DecodedEvent) :
    (event_visits os m before ev after).Sublist (batch_visits os m (before ++ ev :: after)) := by
  rw [batch_visits, expand_renames_append, visits_append]
  rw [show ev :: after = [ev] ++ after from rfl, expand_renames_append, visits_append]
  exact (List.sublist_append_left ..).trans (List.sublist_append_right ..)

/-! ## Hearing of an event -/

/-- A record is made for the entry. -/
def Visit.Heard (v : Visit) (e : PathBuf × PathOptions) : Prop :=
  ∃ x ∈ v.takings, x.entry = e ∧ x.recs ≠ []

/-- The entry takes the event, and its type and size filters let one of the types through. -/
def Visit.Passes (v : Visit) (e : PathBuf × PathOptions) : Prop :=
  ∃ c, (e, c) ∈ v.monitor.taken v.os v.raw ∧
    ∃ r ∈ (DecodedEvent.types v.raw).zip (sizes v.os v.raw.path c (DecodedEvent.types v.raw)).1,
      PathOptions.should_output (some e.2) (event_of v.os v.raw e.2 r.1 r.2) = true

/-- An active entry of the same cmd, with the same recursive flag, has the path in its scope. -/
def Visit.in_scope (v : Visit) (opts : PathOptions) : Bool :=
  v.monitor.is_path_in_scope_for_opts v.raw.path opts

theorem heard_iff {v : Visit} {e : PathBuf × PathOptions} :
    v.Heard e ↔ v.monitor.is_read v.raw = true ∧ v.in_scope e.2 = true ∧ v.Passes e := by
  have haccepted : ∀ x : Taking, x.recs ≠ [] ↔ ∃ r, r ∈ x.accepted := by
    intro x
    rw [Taking.recs_eq, ne_eq, List.map_eq_nil_iff, List.eq_nil_iff_forall_not_mem, not_forall]
    simp only [not_not]
  constructor
  · rintro ⟨x, hx, rfl, hrecs⟩
    rw [Visit.takings] at hx
    split at hx
    · rename_i hread
      obtain ⟨y, hy, rfl⟩ := List.mem_map.1 hx
      obtain ⟨r, hr⟩ := (haccepted _).1 hrecs
      obtain ⟨hr, haccepts⟩ := List.mem_filter.1 hr
      rw [accepts, Bool.and_eq_true] at haccepts
      exact ⟨hread, haccepts.1, y.2, hy, r, hr, haccepts.2⟩
    · cases hx
  · rintro ⟨hread, hscope, c, hc, r, hr, hpass⟩
    refine ⟨⟨v.os, v.monitor, v.raw, e, c⟩, ?_, rfl, (haccepted _).2 ⟨r, List.mem_filter.2 ⟨hr, ?_⟩⟩⟩
    · rw [Visit.takings, if_pos hread]
      exact List.mem_map.2 ⟨(e, c), hc, rfl⟩
    · rw [accepts, Bool.and_eq_true]
      exact ⟨hscope, hpass⟩

/-- The records made for an entry. -/
def Visit.records (v : Visit) (e : PathBuf × PathOptions) : List PendingEvent :=
  (v.takings.filter fun x => x.entry = e).flatMap Taking.recs

theorem heard_iff_records {v : Visit} {e : PathBuf × PathOptions} :
    v.Heard e ↔ ∃ r, r ∈ v.records e := by
  constructor
  · rintro ⟨x, hx, hentry, hrecs⟩
    obtain ⟨r, hr⟩ := List.exists_mem_of_ne_nil _ hrecs
    exact ⟨r, List.mem_flatMap.2 ⟨x, List.mem_filter.2 ⟨hx, by simpa using hentry⟩, hr⟩⟩
  · rintro ⟨r, hr⟩
    obtain ⟨x, hx, hr⟩ := List.mem_flatMap.1 hr
    obtain ⟨hx, hentry⟩ := List.mem_filter.1 hx
    exact ⟨x, hx, by simpa using hentry, List.ne_nil_of_mem hr⟩

theorem Visit.records_subset (v : Visit) (e : PathBuf × PathOptions) : v.records e ⊆ v.out := by
  intro r hr
  obtain ⟨x, hx, hr⟩ := List.mem_flatMap.1 hr
  rw [Visit.out_eq]
  exact List.mem_flatMap.2 ⟨x, List.mem_of_mem_filter hx, hr⟩

/-- What a visit records is in the records of its batch. -/
theorem logged_in_batch {os : Nat → Os} {m : Monitor} {events : List DecodedEvent} {v : Visit}
    (hv : v ∈ batch_visits os m events) {P : PendingEvent → Prop} :
    (∃ r ∈ (process_event_batch os m events).2, r ∈ v.out ∧ P r) ↔ ∃ r ∈ v.out, P r := by
  constructor
  · rintro ⟨r, _, hr, hp⟩
    exact ⟨r, hr, hp⟩
  · rintro ⟨r, hr, hp⟩
    exact ⟨r, by rw [batch_out]; exact List.mem_flatMap.2 ⟨v, hv, hr⟩, hr, hp⟩

/-- An entry that hears of an event leaves a record in its log. -/
theorem Visit.Heard.logged {v : Visit} {e : PathBuf × PathOptions} (h : v.Heard e) :
    ∃ p ∈ v.out, p.cmd_name = e.2.cmd.getD CMD_GLOBAL := by
  obtain ⟨x, hx, rfl, hrecs⟩ := h
  obtain ⟨p, hp⟩ := List.exists_mem_of_ne_nil _ hrecs
  refine ⟨p, by rw [Visit.out_eq]; exact List.mem_flatMap.2 ⟨x, hx, hp⟩, ?_⟩
  rw [Taking.recs_eq] at hp
  obtain ⟨r, _, rfl⟩ := List.mem_map.1 hp
  rfl

/-- A record in a log was made for an entry of the log. -/
theorem Visit.heard_of_logged {v : Visit} {p : PendingEvent} (hp : p ∈ v.out) :
    ∃ e, v.Heard e ∧ e.2.cmd.getD CMD_GLOBAL = p.cmd_name := by
  rw [Visit.out_eq] at hp
  obtain ⟨x, hx, hp⟩ := List.mem_flatMap.1 hp
  refine ⟨x.entry, ⟨x, hx, rfl, List.ne_nil_of_mem hp⟩, ?_⟩
  rw [Taking.recs_eq] at hp
  obtain ⟨r, _, rfl⟩ := List.mem_map.1 hp
  rfl

/-- The entries that match a path and whose process filter lets the event through take it. -/
theorem exists_taken_iff {os : Os} {m : Monitor} {raw : DecodedEvent} {e : PathBuf × PathOptions} :
    (∃ c, (e, c) ∈ m.taken os raw) ↔
      e ∈ m.matching_opts_for_event raw.path ∧
        matches_process_tree os e.2.cmd (unsigned_abs raw.pid) = true := by
  have hfst : e ∈ (m.taken os raw).map Prod.fst ↔ e ∈ m.matching_opts_for_event raw.path ∧
      matches_process_tree os e.2.cmd (unsigned_abs raw.pid) = true := by
    rw [taken, fst_passes, List.mem_filter, takes]
  rw [← hfst, List.mem_map]
  constructor
  · rintro ⟨c, hc⟩
    exact ⟨(e, c), hc, rfl⟩
  · rintro ⟨⟨_, c⟩, hc, rfl⟩
    exact ⟨c, hc⟩

/-- What matches a path has it below its own, as far as its recursive flag says. -/
theorem path_of_matching {m : Monitor} {path : PathBuf} {e : PathBuf × PathOptions}
    (h : e ∈ m.matching_opts_for_event path) : path_matches path e.1 e.2.recursive = true := by
  rcases List.mem_append.1 h with h | h
  · exact (List.mem_filter.1 h).2
  · obtain ⟨d, _, hd⟩ := List.mem_filterMap.1 h
    simp only [Option.ite_none_right_eq_some, Option.map_eq_some_iff] at hd
    obtain ⟨hmatch, opts, hopts, rfl⟩ := hd
    cases htry : PathOptions.try_from d.2 with
    | error _ =>
        rw [htry] at hopts
        cases hopts
    | ok o =>
        rw [htry] at hopts
        cases hopts
        rw [(PathOptions.try_from_ok htry).2.1]
        exact hmatch

/-! ## What an event leaves of the entries -/

theorem entries_retry_pending (os : Os) {e : PathBuf × PathOptions} :
    ∀ (es : List (PathBuf × PathEntry)) (m : Monitor) (still : List (PathBuf × PathEntry)),
      e ∈ m.monitored_entries → e ∈ (retry_pending os es m still).1.monitored_entries := by
  intro es
  induction es with
  | nil => exact fun _ _ he => he
  | cons d es ih =>
      intro m still he
      rw [retry_pending]
      split
      · exact ih m _ he
      · split
        · rename_i m' hadd
          refine ih m' _ ?_
          have hadded := add_path_plan hadd
          show e ∈ m'.plan.monitored_entries
          generalize m'.plan = p at hadded
          cases hadded with
          | cmd opts hpath hopts => exact List.mem_append_left _ he
          | pending hpath hexists => exact he
          | root opts hpath hexists hopts => exact List.mem_append_left _ he
        · exact ih m _ he

theorem entries_check_pending {os : Os} {m : Monitor} {e : PathBuf × PathOptions}
    (he : e ∈ m.monitored_entries) : e ∈ (m.check_pending os).monitored_entries := by
  have hplan := congrArg Plan.monitored_entries (plan_check_pending os m)
  show e ∈ (m.check_pending os).plan.monitored_entries
  rw [hplan]
  exact entries_retry_pending os _ (m.with_pending []) [] he

/-- Cleaning up a root takes the entries of no other. -/
theorem entries_handle_canonical_root_deleted {os : Os} {m : Monitor} {root : PathBuf}
    {e : PathBuf × PathOptions} (he : e ∈ m.monitored_entries) (hne : e.1 ≠ root) :
    e ∈ (m.handle_canonical_root_deleted os root).monitored_entries := by
  rw [handle_canonical_root_deleted]
  refine entries_check_pending ?_
  have hplan := (plan_add_temp_parent_mark os (((m.try_remove os root).with_pending
    ((m.try_remove os root).inotify_state.pending_paths ++
      pending_of root (m.opts_for_path root))).setup_inotify_watches os) root).trans
        (plan_setup_inotify_watches ..)
  show e ∈ Plan.monitored_entries (plan _)
  rw [hplan]
  show e ∈ (m.try_remove os root).monitored_entries
  rw [(try_remove_entries os m root).1, List.mem_filter, keeps, if_pos hne]
  exact ⟨he, rfl⟩

theorem entries_recorded (os : Os) (m : Monitor) (raw : DecodedEvent) :
    ((m.counted raw).recorded os raw).monitored_entries = m.monitored_entries :=
  congrArg Core.monitored_entries ((Stable.recorded_core os _ raw).trans (Stable.counted_core m raw))

/-- An event takes no entry but those of the root it says is gone. -/
theorem entries_process_event {os : Os} {m : Monitor} {raw : DecodedEvent}
    {e : PathBuf × PathOptions} (he : e ∈ m.monitored_entries)
    (hne : m.gone_root (DecodedEvent.types raw) raw.path ≠ some e.1) :
    e ∈ (process_event os m raw).1.monitored_entries := by
  have hcounted : (m.counted raw).monitored_entries = m.monitored_entries ∧
      (m.counted raw).gone_root (DecodedEvent.types raw) raw.path =
        m.gone_root (DecodedEvent.types raw) raw.path := by
    rw [counted]
    split <;> exact ⟨rfl, rfl⟩
  have hrec : e ∈ ((m.counted raw).recorded os raw).monitored_entries := by
    rw [entries_recorded]
    exact he
  rw [process_event]
  split
  · exact he
  · show e ∈ (handle_event os (m.counted raw) raw).1.monitored_entries
    rw [Stable.handle_event_eq]
    split
    · rw [hcounted.1]
      exact he
    · cases hroot : (m.counted raw).gone_root (mask_to_event_types raw.mask) raw.path with
      | none => exact hrec
      | some root =>
          refine entries_handle_canonical_root_deleted hrec fun heq => hne ?_
          rw [← hcounted.2, heq]
          exact hroot

theorem daemon_pid_process_event (os : Os) (m : Monitor) (raw : DecodedEvent) :
    (process_event os m raw).1.daemon_pid = m.daemon_pid := by
  have hsub : ∀ m' : Monitor, (m'.on_new_subdirectory os raw.path).1.daemon_pid = m'.daemon_pid := by
    intro m'
    obtain ⟨_, hplan⟩ := plan_on_new_subdirectory os m' raw.path
    exact congrArg Plan.daemon_pid hplan
  rw [process_event]
  split
  · rfl
  · have hstill := congrArg Plan.daemon_pid (still_handle_event os (m.counted raw) raw)
    have hcounted : (m.counted raw).daemon_pid = m.daemon_pid := by
      rw [counted]
      split <;> rfl
    show (handle_event os (m.counted raw) raw).1.daemon_pid = m.daemon_pid
    split at hstill
    · exact hstill.trans ((hsub _).trans hcounted)
    · exact hstill.trans hcounted

/-! ## Renames -/

omit [Sizefilter] in
theorem mem_types {raw : DecodedEvent} {t : EventType} :
    t ∈ DecodedEvent.types raw ↔ raw.mask &&& event_type_to_kernel_flag t ≠ 0 := by
  rw [DecodedEvent.types, mask_to_event_types, List.mem_filter, decide_eq_true_eq]
  exact and_iff_right (by cases t <;> decide)

omit [Sizefilter] in
/-- A half of a rename decodes to its own type, and to those of the other bits of the mask. -/
theorem mem_types_rename_half {ev : DecodedEvent} {u t : EventType} {path : PathBuf}
    (hu : u = .movedFrom ∨ u = .movedTo) :
    t ∈ DecodedEvent.types (rename_half ev (event_type_to_kernel_flag u) path) ↔
      t = u ∨ t ≠ .rename ∧ t ∈ DecodedEvent.types ev := by
  have hown : event_type_to_kernel_flag u &&& event_type_to_kernel_flag t ≠ 0 ↔ t = u := by
    rcases hu with rfl | rfl <;> cases t <;> decide
  have hothers : (ev.mask &&& ~~~FAN_RENAME) &&& event_type_to_kernel_flag t ≠ 0 ↔
      t ≠ .rename ∧ ev.mask &&& event_type_to_kernel_flag t ≠ 0 := by
    rw [BitVec.and_assoc]
    by_cases ht : t = .rename
    · rw [ht, show ~~~FAN_RENAME &&& event_type_to_kernel_flag .rename = 0 by decide]
      simp
    · rw [show ~~~FAN_RENAME &&& event_type_to_kernel_flag t = event_type_to_kernel_flag t by
        cases t <;> first | decide | exact absurd rfl ht]
      simp [ht]
  rw [mem_types, mem_types, ← hothers, ← hown]
  show ((ev.mask &&& ~~~FAN_RENAME) ||| event_type_to_kernel_flag u) &&& _ ≠ 0 ↔ _
  rw [BitVec.and_comm, BitVec.and_or_distrib_left, BitVec.and_comm _ (ev.mask &&& _),
    BitVec.and_comm _ (event_type_to_kernel_flag u)]
  refine (not_congr BitVec.or_eq_zero_iff).trans ?_
  rw [not_and_or, or_comm]
  exact Iff.rfl

omit [Sizefilter] in
theorem overflow_rename_half {ev : DecodedEvent} {u : EventType} {path : PathBuf}
    (hu : u = .movedFrom ∨ u = .movedTo) :
    (rename_half ev (event_type_to_kernel_flag u) path).mask &&& FAN_Q_OVERFLOW =
      ev.mask &&& FAN_Q_OVERFLOW := by
  have hbit : event_type_to_kernel_flag u &&& FAN_Q_OVERFLOW = 0 := by
    rcases hu with rfl | rfl <;> decide
  show ((ev.mask &&& ~~~FAN_RENAME) ||| event_type_to_kernel_flag u) &&& FAN_Q_OVERFLOW = _
  rw [BitVec.and_comm, BitVec.and_or_distrib_left, BitVec.and_comm _ (event_type_to_kernel_flag u),
    hbit, BitVec.and_comm, BitVec.and_assoc,
    show ~~~FAN_RENAME &&& FAN_Q_OVERFLOW = FAN_Q_OVERFLOW by decide]
  exact BitVec.or_zero

/-- The path is in the entry's scope, and not below the log root. -/
def Reaches (e : PathBuf × PathOptions) (path : PathBuf) : Prop :=
  path_matches path e.1 e.2.recursive = true ∧ path.startsWith LOG_ROOT = false

/-- A half whose own type is `u` decodes to one of the types. -/
def Listed (types : List EventType) (ev : DecodedEvent) (u : EventType) : Prop :=
  ∃ t ∈ types, t = u ∨ t ≠ .rename ∧ t ∈ DecodedEvent.types ev

/-- The entry asks for these types, whatever the size. -/
structure AsksTypes (e : PathBuf × PathOptions) (types : List EventType) : Prop where
  event_types : e.2.event_types = some types
  size_filter : e.2.size_filter = none

/-- Which of the two halves of a rename an entry hears of. -/
theorem heard_half_iff {os : Os} {m : Monitor} {ev : DecodedEvent} {u : EventType} {path : PathBuf}
    {e : PathBuf × PathOptions} {types : List EventType} (hu : u = .movedFrom ∨ u = .movedTo)
    (hasks : AsksTypes e types)
    (hprocess : matches_process_tree os e.2.cmd (unsigned_abs ev.pid) = true)
    (hpid : unsigned_abs ev.pid ≠ m.daemon_pid) :
    Visit.Heard ⟨os, m, rename_half ev (event_type_to_kernel_flag u) path⟩ e ↔
      ev.mask &&& FAN_Q_OVERFLOW = 0 ∧ path.startsWith LOG_ROOT = false ∧ Listed types ev u ∧
        e ∈ m.matching_opts_for_event path ∧ m.is_path_in_scope_for_opts path e.2 = true := by
  generalize hraw : rename_half ev (event_type_to_kernel_flag u) path = raw
  have hpath : raw.path = path := by rw [← hraw]; rfl
  have hraw_pid : raw.pid = ev.pid := by rw [← hraw]; rfl
  have hread : m.is_read raw = true ↔
      ev.mask &&& FAN_Q_OVERFLOW = 0 ∧ path.startsWith LOG_ROOT = false := by
    rw [is_read, Bool.and_eq_true, decide_eq_true_eq, ← hraw, overflow_rename_half hu, hraw]
    rw [is_skipped, hpath, hraw_pid, decide_eq_false hpid, Bool.false_or, Bool.not_eq_true']
  have hout : ∀ r : EventType × Nat,
      PathOptions.should_output (some e.2) (event_of os raw e.2 r.1 r.2) = true ↔ r.1 ∈ types := by
    intro r
    rw [should_output_iff, hasks.event_types, size_ok, hasks.size_filter]
    simp [event_of]
  have hpasses : Visit.Passes ⟨os, m, raw⟩ e ↔
      e ∈ m.matching_opts_for_event path ∧ Listed types ev u := by
    have htypes : (∃ t ∈ types, t ∈ DecodedEvent.types raw) ↔ Listed types ev u := by
      simp only [Listed, ← hraw, mem_types_rename_half hu]
    rw [← htypes]
    constructor
    · rintro ⟨c, hc, r, hr, hpass⟩
      have htaken := exists_taken_iff.1 ⟨c, hc⟩
      rw [hpath] at htaken
      exact ⟨htaken.1, r.1, (hout r).1 hpass, (List.of_mem_zip hr).1⟩
    · rintro ⟨hmatch, t, ht, htype⟩
      obtain ⟨c, hc⟩ := exists_taken_iff.2 ⟨hpath ▸ hmatch, hraw_pid ▸ hprocess⟩
      have hzip : t ∈ ((DecodedEvent.types raw).zip
          (sizes os raw.path c (DecodedEvent.types raw)).1).map Prod.fst := by
        rw [List.map_fst_zip (Nat.le_of_eq (length_sizes ..).symm)]
        exact htype
      obtain ⟨r, hr, rfl⟩ := List.mem_map.1 hzip
      exact ⟨c, hc, r, hr, (hout r).2 ht⟩
  rw [heard_iff, hpasses, Visit.in_scope]
  simp only [hread, hpath]
  constructor
  · rintro ⟨⟨hover, hlog⟩, hscope, hmatch, hlisted⟩
    exact ⟨hover, hlog, hlisted, hmatch, hscope⟩
  · rintro ⟨hover, hlog, hlisted, hmatch, hscope⟩
    exact ⟨⟨hover, hlog⟩, hscope, hmatch, hlisted⟩

/-- An active entry is matched by, and has in its scope, what is below its path. -/
theorem matched_of_active {m : Monitor} {e : PathBuf × PathOptions} {path : PathBuf}
    (he : e ∈ m.monitored_entries) (hpath : path_matches path e.1 e.2.recursive = true) :
    e ∈ m.matching_opts_for_event path ∧ m.is_path_in_scope_for_opts path e.2 = true := by
  refine ⟨List.mem_append_left _ (List.mem_filter.2 ⟨he, hpath⟩), ?_⟩
  rw [is_path_in_scope_for_opts, List.any_eq_true]
  exact ⟨e, he, by simp [hpath]⟩

/-- The source half of a rename. -/
def source_half (ev : DecodedEvent) (source : PathBuf) : DecodedEvent :=
  rename_half ev (event_type_to_kernel_flag .movedFrom) source

/-- The target half. -/
def target_half (ev : DecodedEvent) (target : PathBuf) : DecodedEvent :=
  rename_half ev (event_type_to_kernel_flag .movedTo) target

/-- If the source half makes the daemon clean up the entry's own root, the entry is there again for
the target. -/
def Kept (os : Os) (m : Monitor) (ev : DecodedEvent) (e : PathBuf × PathOptions)
    (source : Option PathBuf) (target : PathBuf) : Prop :=
  ∀ s, source = some s →
    m.gone_root (DecodedEvent.types (source_half ev s)) s = some e.1 →
      e ∈ (process_event os m (source_half ev s)).1.matching_opts_for_event target ∧
        (process_event os m (source_half ev s)).1.is_path_in_scope_for_opts target e.2 = true

/-- One of the halves is in the entry's scope and decodes to a type the entry lists. -/
def RenameListed (os : Os) (m : Monitor) (ev : DecodedEvent) (e : PathBuf × PathOptions)
    (types : List EventType) (source target : Option PathBuf) : Prop :=
  ev.mask &&& FAN_Q_OVERFLOW = 0 ∧
    ((∃ s, source = some s ∧ Reaches e s ∧ Listed types ev .movedFrom) ∨
      ∃ d, target = some d ∧ Reaches e d ∧ Listed types ev .movedTo ∧ Kept os m ev e source d)

/-- The target half, when it comes first or after the source half. -/
theorem heard_target_iff {os : Nat → Os} {m m' : Monitor} {ev : DecodedEvent} {source : Option PathBuf}
    {target : PathBuf} {e : PathBuf × PathOptions} {types : List EventType}
    (hactive : e ∈ m.monitored_entries) (hasks : AsksTypes e types)
    (hprocess : ∀ i, matches_process_tree (os i) e.2.cmd (unsigned_abs ev.pid) = true)
    (hpid : unsigned_abs ev.pid ≠ m.daemon_pid) (i : Nat)
    (hm' : m' = (source.map fun s => (process_event (os 0) m (source_half ev s)).1).getD m) :
    Visit.Heard ⟨os i, m', target_half ev target⟩ e ↔
      ev.mask &&& FAN_Q_OVERFLOW = 0 ∧ Reaches e target ∧ Listed types ev .movedTo ∧
        Kept (os 0) m ev e source target := by
  have hpid' : unsigned_abs ev.pid ≠ m'.daemon_pid := by
    rw [hm']
    cases source with
    | none => exact hpid
    | some s => exact (daemon_pid_process_event ..).symm ▸ hpid
  rw [target_half, heard_half_iff (.inr rfl) hasks (hprocess i) hpid']
  constructor
  · rintro ⟨hover, hlog, hlisted, hmatch, hscope⟩
    refine ⟨hover, ⟨path_of_matching hmatch, hlog⟩, hlisted, ?_⟩
    rintro s rfl _
    rw [hm'] at hmatch hscope
    exact ⟨hmatch, hscope⟩
  · rintro ⟨hover, ⟨hpath, hlog⟩, hlisted, hkept⟩
    refine ⟨hover, hlog, hlisted, ?_⟩
    rw [hm']
    cases source with
    | none => exact matched_of_active hactive hpath
    | some s =>
        by_cases hgone : m.gone_root (DecodedEvent.types (source_half ev s)) s = some e.1
        · exact hkept s rfl hgone
        · exact matched_of_active (entries_process_event hactive hgone) hpath

/-- What an entry hears of the two halves of a rename. -/
theorem heard_halves_iff (os : Nat → Os) (m : Monitor) (ev : DecodedEvent)
    (source target : Option PathBuf) {e : PathBuf × PathOptions} {types : List EventType}
    (hactive : e ∈ m.monitored_entries) (hasks : AsksTypes e types)
    (hprocess : ∀ i, matches_process_tree (os i) e.2.cmd (unsigned_abs ev.pid) = true)
    (hpid : unsigned_abs ev.pid ≠ m.daemon_pid) :
    (∃ v ∈ visits os m (rename_halves ev source target), v.Heard e) ↔
      RenameListed (os 0) m ev e types source target := by
  have hfrom : ∀ s, Visit.Heard ⟨os 0, m, source_half ev s⟩ e ↔
      ev.mask &&& FAN_Q_OVERFLOW = 0 ∧ Reaches e s ∧ Listed types ev .movedFrom := by
    intro s
    rw [source_half, heard_half_iff (.inl rfl) hasks (hprocess 0) hpid]
    constructor
    · rintro ⟨hover, hlog, hlisted, hmatch, _⟩
      exact ⟨hover, ⟨path_of_matching hmatch, hlog⟩, hlisted⟩
    · rintro ⟨hover, ⟨hpath, hlog⟩, hlisted⟩
      exact ⟨hover, hlog, hlisted, matched_of_active hactive hpath⟩
  have hvisits : (∃ v ∈ visits os m (rename_halves ev source target), v.Heard e) ↔
      (∃ s, source = some s ∧ Visit.Heard ⟨os 0, m, source_half ev s⟩ e) ∨
        ∃ d, target = some d ∧
          Visit.Heard ⟨os (if source.isSome then 1 else 0),
            (source.map fun s => (process_event (os 0) m (source_half ev s)).1).getD m,
            target_half ev d⟩ e := by
    cases source with
    | none =>
        cases target with
        | none => simp [rename_halves, visits]
        | some d => simp [rename_halves, visits, target_half, event_type_to_kernel_flag]
    | some s =>
        cases target with
        | none => simp [rename_halves, visits, source_half, event_type_to_kernel_flag]
        | some d => simp [rename_halves, visits, source_half, target_half, event_type_to_kernel_flag]
  rw [hvisits]
  simp only [hfrom, heard_target_iff hactive hasks hprocess hpid _ rfl, RenameListed, and_or_left]
  refine or_congr ?_ ?_
  · constructor
    · rintro ⟨s, hs, hover, h⟩
      exact ⟨hover, s, hs, h⟩
    · rintro ⟨hover, s, hs, h⟩
      exact ⟨s, hs, hover, h⟩
  · constructor
    · rintro ⟨d, hd, hover, h⟩
      exact ⟨hover, d, hd, h⟩
    · rintro ⟨hover, d, hd, h⟩
      exact ⟨d, hd, hover, h⟩

/-- **A rename is recorded for an entry** exactly when the entry lists `MOVED_FROM` and has the
source in its scope, or lists `MOVED_TO` and has the target in its scope; or it lists another type
of the mask. -/
theorem rename_heard_iff (os : Nat → Os) (m : Monitor) (before : List DecodedEvent)
    (ev : DecodedEvent) (after : List DecodedEvent) {source target : Option PathBuf}
    {e : PathBuf × PathOptions} {types : List EventType} (hrename : ev.rename = some (source, target))
    (hactive : e ∈ (reached os m before (ev :: after)).2.monitored_entries)
    (hasks : AsksTypes e types)
    (hprocess : ∀ i, matches_process_tree (os i) e.2.cmd (unsigned_abs ev.pid) = true)
    (hpid : unsigned_abs ev.pid ≠ (reached os m before (ev :: after)).2.daemon_pid) :
    (∃ r ∈ (process_event_batch os m (before ++ ev :: after)).2,
      ∃ v ∈ event_visits os m before ev after, r ∈ v.records e) ↔
      RenameListed ((reached os m before (ev :: after)).1 0) (reached os m before (ev :: after)).2 ev e
        types source target := by
  have hhalves : (expand_renames [ev]).1 = rename_halves ev source target := by
    simp only [expand_renames, hrename, List.append_nil]
  have hheard : (∃ r ∈ (process_event_batch os m (before ++ ev :: after)).2,
      ∃ v ∈ event_visits os m before ev after, r ∈ v.records e) ↔
        ∃ v ∈ event_visits os m before ev after, v.Heard e := by
    constructor
    · rintro ⟨r, _, v, hv, hr⟩
      exact ⟨v, hv, heard_iff_records.2 ⟨r, hr⟩⟩
    · rintro ⟨v, hv, hheard⟩
      obtain ⟨r, hr⟩ := heard_iff_records.1 hheard
      refine ⟨r, ?_, v, hv, hr⟩
      rw [batch_out]
      exact List.mem_flatMap.2 ⟨v, (event_visits_sublist os m before ev after).subset hv,
        v.records_subset e hr⟩
  rw [hheard, event_visits, hhalves]
  exact heard_halves_iff _ _ ev source target hactive hasks (fun i => hprocess _) hpid

end

/-- `/a` recursive, for `RENAME` or for the two moves. -/
def renamesBelowA (types : List String) : PathEntry := ⟨none, [[0x61]], some true, some types, none, none⟩

/-- `/a/b/c` becomes `/a/b/d`. -/
def renameFile : DecodedEvent :=
  ⟨FAN_RENAME, 7, [[0x61], [0x62], [0x63]],
    some (some [[0x61], [0x62], [0x63]], some [[0x61], [0x62], [0x64]]), none, 0⟩

/-- With `MOVED_TO` listed, the target half is recorded. -/
theorem rename_heard_moved_to : ∃ m,
    @add_path noSizes (.calm deepTree) .idle (renamesBelowA ["RENAME", "MOVED_TO"]) = .ok m ∧
      ∃ r ∈ (@process_event_batch noSizes (fun _ => .calm deepTree) m [renameFile]).2,
        ∃ v ∈ @event_visits noSizes (fun _ => .calm deepTree) m [] renameFile [],
          r ∈ @Visit.records noSizes v ([[0x61]], ⟨none, some [.rename, .movedTo], true, none, none⟩) := by
  have hadd : ∃ m, @add_path noSizes (.calm deepTree) .idle (renamesBelowA ["RENAME", "MOVED_TO"]) =
      .ok m ∧ ([[0x61]], ⟨none, some [.rename, .movedTo], true, none, none⟩) ∈ m.monitored_entries ∧
      m.daemon_pid = 1 ∧ m.canonical_paths = [[[0x61]]] := by
    exact ⟨_, rfl, by decide, rfl, rfl⟩
  obtain ⟨m, hadd, hactive, hpid, hroots⟩ := hadd
  refine ⟨m, hadd, (@rename_heard_iff noSizes (fun _ => .calm deepTree) m [] renameFile [] _ _ _ _ rfl
    hactive ⟨rfl, rfl⟩ (fun _ => rfl) ?_).2 ⟨rfl, .inr ⟨_, rfl, ⟨rfl, rfl⟩, ⟨.movedTo, by decide, .inl rfl⟩, ?_⟩⟩⟩
  · show 7 ≠ m.daemon_pid
    rw [hpid]
    decide
  · intro s hs hgone
    cases hs
    exfalso
    change m.gone_root _ _ = _ at hgone
    rw [gone_root, hroots] at hgone
    exact absurd hgone (by decide)

/-- With `RENAME` alone the mark has `FAN_RENAME`, the event arrives, and nothing is recorded. -/
theorem rename_unheard : ∃ m,
    @add_path noSizes (.calm deepTree) .idle (renamesBelowA ["RENAME"]) = .ok m ∧
      m.kernel.mask 0 3 &&& FAN_RENAME ≠ 0 ∧
      (@process_event_batch noSizes (fun _ => .calm deepTree) m [renameFile]).2 = [] := by
  exact ⟨_, rfl, by decide, by decide⟩

/-! ## Pending entries -/

section
variable [Sizefilter]

/-- The event is due to a pending entry: it matches, its process is asked for, and the entry's own
filters let it through. -/
structure Due (v : Visit) (p : PathBuf) (entry : PathEntry) (opts : PathOptions) : Prop where
  pending : (p, entry) ∈ v.monitor.inotify_state.pending_paths
  options : PathOptions.try_from entry = .ok opts
  path : path_matches v.raw.path p (entry.recursive.getD false) = true
  process : matches_process_tree v.os opts.cmd (unsigned_abs v.raw.pid) = true
  not_own : unsigned_abs v.raw.pid ≠ v.monitor.daemon_pid
  not_log : v.raw.path.startsWith LOG_ROOT = false
  passes : v.Passes (p, opts)

/-- Another entry of the same log, of another cmd or recursive flag, hears of the event. -/
def Overheard (v : Visit) (opts : PathOptions) : Prop :=
  ∃ e, e.2.cmd.getD CMD_GLOBAL = opts.cmd.getD CMD_GLOBAL ∧
    (e.2.cmd, e.2.recursive) ≠ (opts.cmd, opts.recursive) ∧ v.in_scope e.2 = true ∧ v.Passes e

/-- **An event in the window between deletion and recreation is recorded** exactly when an active
entry of the same cmd, with the same recursive flag, has the path in its scope; but for what another
entry of the log records on its own account. -/
theorem pending_heard_iff (os : Nat → Os) (m : Monitor) (events : List DecodedEvent) {v : Visit}
    (hv : v ∈ batch_visits os m events) {p : PathBuf} {entry : PathEntry} {opts : PathOptions}
    (hdue : Due v p entry opts) :
    (∃ r ∈ (process_event_batch os m events).2, r ∈ v.out ∧ r.cmd_name = opts.cmd.getD CMD_GLOBAL) ↔
      v.raw.mask &&& FAN_Q_OVERFLOW = 0 ∧ (v.in_scope opts = true ∨ Overheard v opts) := by
  rw [logged_in_batch hv]
  have hread : v.monitor.is_read v.raw = true ↔ v.raw.mask &&& FAN_Q_OVERFLOW = 0 := by
    rw [is_read, is_skipped, decide_eq_false hdue.not_own, hdue.not_log]
    simp
  constructor
  · rintro ⟨r, hr, hlog⟩
    obtain ⟨e, hheard, hcmd⟩ := Visit.heard_of_logged hr
    obtain ⟨hover, hscope, hpasses⟩ := heard_iff.1 hheard
    refine ⟨hread.1 hover, ?_⟩
    by_cases hsame : (e.2.cmd, e.2.recursive) = (opts.cmd, opts.recursive)
    · refine .inl ?_
      rw [Prod.mk.injEq] at hsame
      rw [Visit.in_scope, is_path_in_scope_for_opts] at hscope ⊢
      rw [← hsame.1, ← hsame.2]
      exact hscope
    · exact .inr ⟨e, hcmd.trans hlog, hsame, hscope, hpasses⟩
  · rintro ⟨hover, hscope | ⟨e, hlog, _, hscope, hpasses⟩⟩
    · exact (heard_iff.2 ⟨hread.2 hover, hscope, hdue.passes⟩).logged (e := (p, opts))
    · obtain ⟨r, hr, hcmd⟩ := (heard_iff.2 ⟨hread.2 hover, hscope, hpasses⟩).logged
      exact ⟨r, hr, hcmd.trans hlog⟩

end

/-- `/a/x/f` is created. -/
def createdInX : DecodedEvent := ⟨FAN_CREATE, 7, [[0x61], [0x78], [0x66]], none, none, 0⟩

/-- `/a/x`, recursive and for all processes, as options. -/
def optionsOfX : PathOptions := ⟨none, none, true, none, none⟩

/-- `/a/x` is pending and `/a` is watched, both recursive: the event is recorded for `/a/x`, too. -/
theorem pending_heard_beside : ∃ m₁ m₂,
    @add_path noSizes (.calm deepTree) .idle (recursiveEntry [[0x61], [0x78]]) = .ok m₁ ∧
      @add_path noSizes (.calm deepTree) m₁ (recursiveEntry [[0x61]]) = .ok m₂ ∧
      ∃ r ∈ (@process_event_batch noSizes (fun _ => .calm deepTree) m₂ [createdInX]).2,
        r ∈ @Visit.out noSizes ⟨.calm deepTree, m₂, createdInX⟩ ∧
          r.cmd_name = optionsOfX.cmd.getD CMD_GLOBAL := by
  refine ⟨_, _, rfl, rfl, (@pending_heard_iff noSizes (fun _ => .calm deepTree) _ [createdInX] _
    List.mem_cons_self [[0x61], [0x78]] (recursiveEntry [[0x61], [0x78]]) optionsOfX ?_).2
    ⟨rfl, .inl rfl⟩⟩
  -- the pass of `/a` comes first, and leaves the size of the new file
  exact @Due.mk noSizes _ _ _ _ (by decide) rfl rfl rfl (by decide) rfl
    ⟨⟨10000, [(createdInX.path, 0)]⟩, by decide, (.create, 0), by decide, rfl⟩

/-- `/a/x` is pending and nothing else is watched: the event is due to it, and nothing is recorded. -/
theorem pending_unheard : ∃ m,
    @add_path noSizes (.calm deepTree) .idle (recursiveEntry [[0x61], [0x78]]) = .ok m ∧
      @Due noSizes ⟨.calm deepTree, m, createdInX⟩ [[0x61], [0x78]]
        (recursiveEntry [[0x61], [0x78]]) optionsOfX ∧
      (@process_event_batch noSizes (fun _ => .calm deepTree) m [createdInX]).2 = [] := by
  refine ⟨_, rfl, ?_, rfl⟩
  exact @Due.mk noSizes _ _ _ _ (by decide) rfl rfl rfl (by decide) rfl
    ⟨⟨10000, []⟩, by decide, (.create, 0), by decide, rfl⟩

end Fsmon.Monitor
