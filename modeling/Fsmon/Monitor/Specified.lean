/-
# `Fsmon.Monitor.Specified` — what is recorded, said without the loops

What the records of an event are meant to be, over the active entries alone:

    concerned    the entries that reckon with the path, for the event's process
    candidates   each of them with each type of the event
    tests        the event that is built for a candidate, one after the other
    wanted       the entry's type filter and its size filter

The code looks at the pending entries too, and asks a second time, over all the
entries, whether the path is in the scope of an entry.  Without pending entries
the second question has been answered by the first (`in_scope_of_concerned`), and
`records_specified` says that the records are the wanted candidates.
-/
import Fsmon.Monitor.Heard

namespace Fsmon.Monitor

/-- An entry reckons with what is below its path, if it is recursive; else the path and what is in it. -/
def Reckons (e : PathBuf × PathOptions) (path : PathBuf) : Prop :=
  if e.2.recursive then e.1 <+: path else path = e.1 ∨ ∃ name, path = e.1.join name

theorem reckons_iff {e : PathBuf × PathOptions} {path : PathBuf} :
    path_matches path e.1 e.2.recursive = true ↔ Reckons e path := by
  have hparent : path.parent = some e.1 ↔ ∃ name, path = e.1.join name := by
    rcases List.eq_nil_or_concat path with rfl | ⟨init, name, rfl⟩
    · simp [PathBuf.parent, PathBuf.join]
    · have hconcat : PathBuf.parent (init ++ [name]) = some init := by
        cases init with
        | nil => rfl
        | cons c init =>
            have hlast : (c :: init ++ [name]).dropLast = c :: init := List.dropLast_concat
            exact congrArg some hlast
      rw [List.concat_eq_append, hconcat, Option.some.injEq]
      constructor
      · rintro rfl
        exact ⟨name, rfl⟩
      · rintro ⟨other, hother⟩
        exact (List.append_inj' hother rfl).1
  unfold path_matches Reckons
  split
  · exact List.isPrefixOf_iff_prefix
  · simp [hparent]

instance (e : PathBuf × PathOptions) (path : PathBuf) : Decidable (Reckons e path) :=
  decidable_of_iff _ reckons_iff

/-- The entries an event concerns, in their order. -/
def concerned (os : Os) (m : Monitor) (raw : DecodedEvent) : List (PathBuf × PathOptions) :=
  m.monitored_entries.filter fun e =>
    Reckons e raw.path && matches_process_tree os e.2.cmd (unsigned_abs raw.pid)

/-- Each of them with each type of the event. -/
def candidates (os : Os) (m : Monitor) (raw : DecodedEvent) :
    List ((PathBuf × PathOptions) × EventType) :=
  (m.concerned os raw).flatMap fun e => (mask_to_event_types raw.mask).map fun t => (e, t)

/-- The events that are built for candidates: the cache of sizes is passed from one to the next. -/
def tests (os : Os) (raw : DecodedEvent) :
    Monitor → List ((PathBuf × PathOptions) × EventType) → List ((PathBuf × PathOptions) × FileEvent)
  | _, [] => []
  | m, (e, t) :: rest =>
      let built := m.build_file_event_for_opts os raw t e.2
      (e, built.1) :: tests os raw built.2 rest

/-- The type filter of the entry. -/
def type_ok (opts : PathOptions) (t : EventType) : Bool :=
  match opts.event_types with
  | none => true
  | some ts => ts.contains t

/-- The entry's filters let the event through. -/
def wanted (x : (PathBuf × PathOptions) × FileEvent) : Bool :=
  type_ok x.1.2 x.2.event_type && size_ok x.1.2 x.2.file_size

/-- The record: the event under the entry's cmd, or `_global`. -/
def record_of (raw : DecodedEvent) (x : (PathBuf × PathOptions) × FileEvent) : PendingEvent :=
  ⟨x.2, x.1.2.cmd.getD CMD_GLOBAL, unsigned_abs raw.pid⟩

/-- The records an event is to leave. -/
def specified (os : Os) (m : Monitor) (raw : DecodedEvent) : List PendingEvent :=
  ((tests os raw m (m.candidates os raw)).filter wanted).map (record_of raw)

/-! ## The types of one entry, then the entries -/

theorem tests_types (os : Os) (raw : DecodedEvent) (e : PathBuf × PathOptions)
    (rest : List ((PathBuf × PathOptions) × EventType)) : ∀ (ts : List EventType) (m : Monitor),
      tests os raw m (ts.map (fun t => (e, t)) ++ rest) =
        ((ts.zip (sizes os raw.path m.file_size_cache ts).1).map fun r =>
          (e, event_of os raw e.2 r.1 r.2)) ++
        tests os raw { m with file_size_cache := (sizes os raw.path m.file_size_cache ts).2 } rest := by
  intro ts
  induction ts with
  | nil =>
      intro _
      exact rfl
  | cons t ts ih =>
      intro m
      rw [List.map_cons, List.cons_append, tests]
      exact congrArg (_ :: ·) (ih _)

/-- The filters are those of `should_output`. -/
theorem wanted_eq (e : PathBuf × PathOptions) (event : FileEvent) :
    wanted (e, event) = PathOptions.should_output (some e.2) event := by
  rw [Bool.eq_iff_iff, should_output_iff, wanted, Bool.and_eq_true]
  refine and_congr_left' ?_
  unfold type_ok
  cases e.2.event_types with
  | none => simp
  | some ts => simp

/-- What one entry records, if the path is in its scope. -/
theorem recs_of_in_scope {os : Os} {m : Monitor} {raw : DecodedEvent} {e : PathBuf × PathOptions}
    (hscope : m.is_path_in_scope_for_opts raw.path e.2 = true) (c : LruCache) :
    recs os m raw e.2 c =
      ((((DecodedEvent.types raw).zip (sizes os raw.path c (DecodedEvent.types raw)).1).map fun r =>
        (e, event_of os raw e.2 r.1 r.2)).filter wanted).map (record_of raw) := by
  unfold recs
  rw [List.filter_map, List.map_map, ← List.filterMap_eq_map, List.filterMap_filter]
  refine List.filterMap_congr fun r _ => ?_
  simp only [accepts, hscope, Bool.true_and, Function.comp, wanted_eq]
  rfl

theorem records_of_tests {os : Os} {m : Monitor} {raw : DecodedEvent} :
    ∀ (es : List (PathBuf × PathOptions)) (m' : Monitor),
      (∀ e ∈ es, m.is_path_in_scope_for_opts raw.path e.2 = true) →
      ((tests os raw m' (es.flatMap fun e =>
        (mask_to_event_types raw.mask).map fun t => (e, t))).filter wanted).map (record_of raw) =
      (passes os raw m'.file_size_cache es).flatMap fun x => recs os m raw x.1.2 x.2 := by
  intro es
  induction es with
  | nil =>
      intro _ _
      exact rfl
  | cons e es ih =>
      intro m' hscope
      rw [List.flatMap_cons, tests_types, List.filter_append, List.map_append,
        ih _ fun d hd => hscope d (List.mem_cons_of_mem e hd), passes, List.flatMap_cons,
        recs_of_in_scope (hscope e List.mem_cons_self)]
      exact rfl

section
variable [Sizefilter]

/-- **The second test of scope removes nothing**: a covered path is in the scope of its entry. -/
theorem in_scope_of_concerned {os : Os} {m : Monitor} {raw : DecodedEvent} {e : PathBuf × PathOptions}
    (he : e ∈ m.concerned os raw) : m.is_path_in_scope_for_opts raw.path e.2 = true := by
  obtain ⟨he, hconcerned⟩ := List.mem_filter.1 he
  have hreckons : Reckons e raw.path := of_decide_eq_true (Bool.and_eq_true_iff.1 hconcerned).1
  exact (matched_of_active he (reckons_iff.2 hreckons)).2

/-- Without pending entries the entries that take an event are those it concerns. -/
theorem taken_of_no_pending {os : Os} {m : Monitor} {raw : DecodedEvent}
    (h : m.inotify_state.pending_paths = []) :
    m.taken os raw = passes os raw m.file_size_cache (m.concerned os raw) := by
  have hreckons : ∀ e : PathBuf × PathOptions,
      path_matches raw.path e.1 e.2.recursive = decide (Reckons e raw.path) := by
    intro e
    rw [Bool.eq_iff_iff, reckons_iff, decide_eq_true_eq]
  rw [taken, matching_opts_for_event, h, List.filterMap_nil, List.append_nil, List.filter_filter,
    concerned]
  simp only [hreckons, takes, Bool.and_comm]

/-- An event that is no overflow, not the daemon's own and not below the log root. -/
structure Visit.Ordinary (v : Visit) : Prop where
  overflow : v.raw.mask &&& FAN_Q_OVERFLOW = 0
  own : unsigned_abs v.raw.pid ≠ v.monitor.daemon_pid
  log : v.raw.path.startsWith LOG_ROOT = false

theorem Visit.out_eq_specified {v : Visit} (h : v.Ordinary)
    (hpending : v.monitor.inotify_state.pending_paths = []) :
    v.out = specified v.os v.monitor v.raw := by
  have hread : v.monitor.is_read v.raw = true := by
    simp [is_read, is_skipped, h.overflow, h.own, h.log]
  rw [Visit.out, process_event_records, if_pos hread, taken_of_no_pending hpending]
  exact (records_of_tests _ _ fun _ => in_scope_of_concerned).symm

/-- The counters of a monitor have no part in what is recorded. -/
theorem out_process_event_batch_one (os : Nat → Os) (m : Monitor) {raw : DecodedEvent}
    (hrename : raw.rename = none) :
    (process_event_batch os m [raw]).2 = Visit.out ⟨os 0, m, raw⟩ := by
  have hexpand : (expand_renames [raw]).1 = [raw] := by
    simp only [expand_renames, hrename]
  rw [batch_out, batch_visits, hexpand, visits, visits, List.flatMap_cons, List.flatMap_nil,
    List.append_nil, Visit.out, Visit.out, process_event_records, process_event_records]
  exact rfl

/-- **Recording is what it is specified to be.**  A batch records what its visits do, one after the
other; and an ordinary event that finds no pending entries leaves the records it is to leave, of
which the second test of scope has removed none. -/
theorem records_specified (os : Nat → Os) (m : Monitor) (events : List DecodedEvent) :
    (process_event_batch os m events).2 = (batch_visits os m events).flatMap Visit.out ∧
      (∀ v ∈ batch_visits os m events, v.Ordinary → v.monitor.inotify_state.pending_paths = [] →
        v.out = specified v.os v.monitor v.raw ∧
          ∀ e ∈ v.monitor.concerned v.os v.raw,
            v.monitor.is_path_in_scope_for_opts v.raw.path e.2 = true) ∧
      ∀ raw, events = [raw] → raw.rename = none → Visit.Ordinary ⟨os 0, m, raw⟩ →
        m.inotify_state.pending_paths = [] →
          (process_event_batch os m events).2 = specified (os 0) m raw := by
  refine ⟨batch_out os m events, fun v _ hordinary hpending => ?_, ?_⟩
  · exact ⟨v.out_eq_specified hordinary hpending, fun _ => in_scope_of_concerned⟩
  · rintro raw rfl hrename hordinary hpending
    rw [out_process_event_batch_one os m hrename, Visit.out_eq_specified hordinary hpending]

omit [Sizefilter] in
/-- `/a` for all events and `/a/b` for creations: a file created in `/a/b` is recorded twice. -/
theorem created_specified : ∃ m₁ m₂,
    @add_path noSizes (.calm deepTree) .idle (recursiveEntry [[0x61]]) = .ok m₁ ∧
      @add_path noSizes (.calm deepTree) m₁
        ⟨none, [[0x61], [0x62]], none, some ["CREATE"], none, none⟩ = .ok m₂ ∧
      (@process_event_batch noSizes (fun _ => .calm deepTree) m₂ [onFile FAN_CREATE]).2 =
        specified (.calm deepTree) m₂ (onFile FAN_CREATE) ∧
      (specified (.calm deepTree) m₂ (onFile FAN_CREATE)).length = 2 := by
  refine ⟨_, _, rfl, rfl, ?_, rfl⟩
  exact (@records_specified noSizes (fun _ => .calm deepTree) _ [onFile FAN_CREATE]).2.2 _ rfl rfl
    ⟨rfl, by decide, by decide⟩ rfl

end

end Fsmon.Monitor
