/-
# `Fsmon.Monitor.Records` — which records an event leaves

The loops of `process_event_batch` in closed form.  An event is *taken* by the
entries that match it and whose process filter lets it through, one after the
other; each of them goes through the event's types, and each type touches the
cache of file sizes before the entry's own filters are applied.

    sizes      the sizes one pass finds, and the cache it leaves
    passes     the entries that take an event, each with the cache it starts from
    recs       what one entry records in its pass
    handle_event_records, process_event_records

What follows about records works with these equations and never opens a loop
again.
-/
import Fsmon.Monitor.Frames
import Mathlib.Logic.Function.Iterate

namespace Fsmon.Monitor

/-- The record of an event for options, with the size that was found. -/
def event_of (os : Os) (raw : DecodedEvent) (opts : PathOptions) (t : EventType) (size : Nat) :
    FileEvent where
  time := os.now
  event_type := t
  path := raw.path
  pid := unsigned_abs raw.pid
  comm := (os.proc_info (unsigned_abs raw.pid) raw.path).comm
  cmd := (os.proc_info (unsigned_abs raw.pid) raw.path).cmd
  user := (os.proc_info (unsigned_abs raw.pid) raw.path).user
  file_size := size
  ppid := (os.proc_info (unsigned_abs raw.pid) raw.path).ppid
  tgid := (os.proc_info (unsigned_abs raw.pid) raw.path).tgid
  chain := if opts.cmd.isSome then os.chain (unsigned_abs raw.pid) else []
  fs_error := if t = .fsError then raw.fs_error else none

/-- The sizes of one pass over the types of an event, and the cache it leaves. -/
def sizes (os : Os) (path : PathBuf) : LruCache → List EventType → List Nat × LruCache
  | c, [] => ([], c)
  | c, t :: ts =>
      let r := sizes os path (file_size_of os c t path).2 ts
      ((file_size_of os c t path).1 :: r.1, r.2)

theorem length_sizes (os : Os) (path : PathBuf) : ∀ (ts : List EventType) (c : LruCache),
    (sizes os path c ts).1.length = ts.length := by
  intro ts
  induction ts with
  | nil =>
      intro _
      exact rfl
  | cons _ ts ih =>
      intro _
      exact congrArg (· + 1) (ih _)

/-- The types of an event. -/
def DecodedEvent.types (raw : DecodedEvent) : List EventType := mask_to_event_types raw.mask

/-- The entry's filters let this type of the event through, with this size. -/
def accepts (os : Os) (m : Monitor) (raw : DecodedEvent) (opts : PathOptions) (t : EventType)
    (size : Nat) : Bool :=
  m.is_path_in_scope_for_opts raw.path opts &&
    PathOptions.should_output (some opts) (event_of os raw opts t size)

/-- What one entry records of an event, when it starts from this cache. -/
def recs (os : Os) (m : Monitor) (raw : DecodedEvent) (opts : PathOptions) (c : LruCache) :
    List PendingEvent :=
  ((DecodedEvent.types raw).zip (sizes os raw.path c (DecodedEvent.types raw)).1).filterMap fun r =>
    if accepts os m raw opts r.1 r.2 then
      some ⟨event_of os raw opts r.1 r.2, opts.cmd.getD CMD_GLOBAL, unsigned_abs raw.pid⟩
    else none

/-- One pass over the types of an event. -/
def pass (os : Os) (raw : DecodedEvent) (c : LruCache) : LruCache :=
  (sizes os raw.path c (DecodedEvent.types raw)).2

/-- The entries that take an event, each with the cache it starts from. -/
def passes (os : Os) (raw : DecodedEvent) :
    LruCache → List (PathBuf × PathOptions) → List ((PathBuf × PathOptions) × LruCache)
  | _, [] => []
  | c, e :: es => (e, c) :: passes os raw (pass os raw c) es

theorem fst_passes (os : Os) (raw : DecodedEvent) : ∀ (es : List (PathBuf × PathOptions)) (c : LruCache),
    (passes os raw c es).map Prod.fst = es := by
  intro es
  induction es with
  | nil =>
      intro _
      exact rfl
  | cons e es ih =>
      intro c
      exact congrArg (e :: ·) (ih (pass os raw c))

/-- The process filter of an entry lets the event through. -/
def takes (os : Os) (raw : DecodedEvent) (e : PathBuf × PathOptions) : Bool :=
  matches_process_tree os e.2.cmd (unsigned_abs raw.pid)

/-! ## The loops -/

theorem record_types_eq (os : Os) (raw : DecodedEvent) (opts : PathOptions) :
    ∀ (ts : List EventType) (m : Monitor) (out : List PendingEvent),
      ts.foldl (record_type os raw opts) (m, out) =
        ({ m with file_size_cache := (sizes os raw.path m.file_size_cache ts).2 },
          out ++ (ts.zip (sizes os raw.path m.file_size_cache ts).1).filterMap fun r =>
            if accepts os m raw opts r.1 r.2 then
              some ⟨event_of os raw opts r.1 r.2, opts.cmd.getD CMD_GLOBAL, unsigned_abs raw.pid⟩
            else none) := by
  intro ts
  induction ts with
  | nil =>
      intro m out
      simp [sizes]
  | cons t ts ih =>
      intro m out
      have hstep : record_type os raw opts (m, out) t =
          ({ m with file_size_cache := (file_size_of os m.file_size_cache t raw.path).2 },
            out ++ (if accepts os m raw opts t (file_size_of os m.file_size_cache t raw.path).1 then
              [⟨event_of os raw opts t (file_size_of os m.file_size_cache t raw.path).1,
                opts.cmd.getD CMD_GLOBAL, unsigned_abs raw.pid⟩] else [])) := by
        show (if accepts os m raw opts t (file_size_of os m.file_size_cache t raw.path).1 then _
          else _) = _
        split
        · rfl
        · rw [List.append_nil]
          rfl
      rw [List.foldl_cons, hstep, ih]
      simp only [sizes, List.zip_cons_cons, List.filterMap_cons, List.append_assoc]
      congr 1
      split <;> rfl

theorem record_entries_eq (os : Os) (raw : DecodedEvent) :
    ∀ (es : List (PathBuf × PathOptions)) (m : Monitor) (out : List PendingEvent),
      ∃ c, es.foldl (record_entry os raw) (m, out) =
        ({ m with file_size_cache := c },
          out ++ (passes os raw m.file_size_cache (es.filter (takes os raw))).flatMap fun x =>
            recs os m raw x.1.2 x.2) ∧
        c = (pass os raw)^[(es.filter (takes os raw)).length] m.file_size_cache := by
  intro es
  induction es with
  | nil =>
      intro m out
      exact ⟨m.file_size_cache, by simp [passes], rfl⟩
  | cons e es ih =>
      intro m out
      rw [List.foldl_cons]
      cases htakes : takes os raw e with
      | false =>
          have hstep : record_entry os raw (m, out) e = (m, out) := by
            rw [takes] at htakes
            simp [record_entry, htakes]
          rw [hstep, List.filter_cons_of_neg (by simp [htakes])]
          exact ih m out
      | true =>
          have hstep : record_entry os raw (m, out) e =
              ({ m with file_size_cache := pass os raw m.file_size_cache },
                out ++ recs os m raw e.2 m.file_size_cache) := by
            rw [takes] at htakes
            simp only [record_entry, htakes, if_true]
            exact record_types_eq os raw e.2 _ m out
          obtain ⟨c, hc, hpass⟩ := ih
            { m with file_size_cache := pass os raw m.file_size_cache }
            (out ++ recs os m raw e.2 m.file_size_cache)
          refine ⟨c, ?_, ?_⟩
          · rw [hstep, hc, List.filter_cons_of_pos htakes, passes, List.flatMap_cons,
              List.append_assoc]
            rfl
          · rw [hpass, List.filter_cons_of_pos htakes, List.length_cons, Function.iterate_succ_apply]

/-! ## One event -/

theorem cache_on_new_subdirectory (os : Os) (m : Monitor) (path : PathBuf) :
    (m.on_new_subdirectory os path).1.file_size_cache = m.file_size_cache := by
  rcases on_new_subdirectory_cases os m path with h | ⟨_, _, _, _, _, _, _, _, h⟩
  · rw [h]
  · rw [h]
    rfl

/-- What is in scope depends on the active entries only. -/
theorem accepts_congr {os : Os} {m m' : Monitor} (h : m'.monitored_entries = m.monitored_entries)
    (raw : DecodedEvent) (opts : PathOptions) (t : EventType) (size : Nat) :
    accepts os m' raw opts t size = accepts os m raw opts t size := by
  unfold accepts is_path_in_scope_for_opts
  rw [h]

theorem recs_congr {os : Os} {m m' : Monitor} (h : m'.monitored_entries = m.monitored_entries)
    (raw : DecodedEvent) (opts : PathOptions) (c : LruCache) :
    recs os m' raw opts c = recs os m raw opts c := by
  unfold recs
  simp only [accepts_congr h]

section
variable [Sizefilter]

/-- The entries that take an event, each with the cache it starts from. -/
def taken (os : Os) (m : Monitor) (raw : DecodedEvent) : List ((PathBuf × PathOptions) × LruCache) :=
  passes os raw m.file_size_cache ((m.matching_opts_for_event raw.path).filter (takes os raw))

/-- The records of an event are those of the entries that take it, in their order; the cache is
passed from one to the next, and on to what cleans up a root that is gone. -/
theorem handle_event_records (os : Os) (m : Monitor) (raw : DecodedEvent) :
    (handle_event os m raw).2 =
      if m.is_skipped raw then [] else (m.taken os raw).flatMap fun x => recs os m raw x.1.2 x.2 := by
  rw [handle_event]
  simp only
  split
  · rfl
  · generalize hm₁ : (if m.is_new_subdirectory os raw then (m.on_new_subdirectory os raw.path).1
      else m) = m₁
    have hcache : m₁.file_size_cache = m.file_size_cache := by
      rw [← hm₁]
      split
      · exact cache_on_new_subdirectory os m raw.path
      · rfl
    have hentries : m₁.monitored_entries = m.monitored_entries := by
      rw [← hm₁]
      split
      · obtain ⟨ts, hplan⟩ := plan_on_new_subdirectory os m raw.path
        exact congrArg Plan.monitored_entries hplan
      · rfl
    obtain ⟨c, hfold, _⟩ := record_entries_eq os raw (m.matching_opts_for_event raw.path) m₁ []
    have hrecs : (passes os raw m₁.file_size_cache
        ((m.matching_opts_for_event raw.path).filter (takes os raw))).flatMap
          (fun x => recs os m₁ raw x.1.2 x.2) =
        (m.taken os raw).flatMap fun x => recs os m raw x.1.2 x.2 := by
      rw [hcache]
      simp only [recs_congr hentries]
      rfl
    rw [hfold, List.nil_append, hrecs]
    split <;> rfl

/-- The events that get as far as being matched. -/
def is_read (m : Monitor) (raw : DecodedEvent) : Bool :=
  raw.mask &&& FAN_Q_OVERFLOW = 0 && !m.is_skipped raw

theorem process_event_records (os : Os) (m : Monitor) (raw : DecodedEvent) :
    (process_event os m raw).2 =
      if m.is_read raw then (m.taken os raw).flatMap fun x => recs os m raw x.1.2 x.2 else [] := by
  unfold process_event is_read
  split
  · rename_i hover
    rw [decide_eq_false hover]
    rfl
  · rename_i hover
    rw [decide_eq_true (not_not.1 hover)]
    have hreset : ∀ m' : Monitor, (m' = if 0 < raw.unparsed then
        { m with metrics := m.metrics.inc_unparsed_info_records raw.unparsed } else m) →
        (handle_event os m' raw).2 = if m.is_skipped raw then []
          else (m.taken os raw).flatMap fun x => recs os m raw x.1.2 x.2 := by
      rintro m' rfl
      split
      · exact handle_event_records os { m with metrics := _ } raw
      · exact handle_event_records os m raw
    rw [hreset _ rfl]
    cases m.is_skipped raw <;> rfl

/-! ## A batch -/

/-- One entry that takes one event, in the state it finds. -/
structure Taking where
  os : Os
  monitor : Monitor
  raw : DecodedEvent
  entry : PathBuf × PathOptions
  cache : LruCache

/-- The entries that take the events, in the order they do. -/
def takings : (Nat → Os) → Monitor → List DecodedEvent → List Taking
  | _, _, [] => []
  | os, m, raw :: rest =>
      (if m.is_read raw then (m.taken (os 0) raw).map fun x => ⟨os 0, m, raw, x.1, x.2⟩ else []) ++
        takings (fun i => os (i + 1)) (process_event (os 0) m raw).1 rest

omit [Sizefilter] in
/-- What the entry records. -/
def Taking.recs (x : Taking) : List PendingEvent := Monitor.recs x.os x.monitor x.raw x.entry.2 x.cache

theorem process_events_records : ∀ (raws : List DecodedEvent) (os : Nat → Os) (m : Monitor),
    (process_events os m raws).2 = (takings os m raws).flatMap Taking.recs := by
  intro raws
  induction raws with
  | nil =>
      intro _ _
      exact rfl
  | cons raw rest ih =>
      intro os m
      show (process_event (os 0) m raw).2 ++ (process_events _ _ rest).2 = _
      rw [process_event_records, ih, takings, List.flatMap_append]
      congr 1
      split
      · rw [List.flatMap_map]
        rfl
      · rfl

/-- The entries that take the events of a batch, renames split. -/
def batch_takings (os : Nat → Os) (m : Monitor) (events : List DecodedEvent) : List Taking :=
  takings os { m with metrics := m.metrics.inc_events_unresolved_rename (expand_renames events).2 }
    (expand_renames events).1

theorem process_event_batch_records (os : Nat → Os) (m : Monitor) (events : List DecodedEvent) :
    (process_event_batch os m events).2 = (batch_takings os m events).flatMap Taking.recs :=
  process_events_records ..

omit [Sizefilter] in
/-- The types of its event that an entry's filters let through, with the sizes it finds. -/
def Taking.accepted (x : Taking) : List (EventType × Nat) :=
  ((DecodedEvent.types x.raw).zip (sizes x.os x.raw.path x.cache (DecodedEvent.types x.raw)).1).filter
    fun r => accepts x.os x.monitor x.raw x.entry.2 r.1 r.2

omit [Sizefilter] in
/-- The log an entry's records go to. -/
def Taking.cmd_name (x : Taking) : String := x.entry.2.cmd.getD CMD_GLOBAL

omit [Sizefilter] in
theorem Taking.recs_eq (x : Taking) : x.recs = x.accepted.map fun r =>
    ⟨event_of x.os x.raw x.entry.2 r.1 r.2, x.cmd_name, unsigned_abs x.raw.pid⟩ := by
  unfold Taking.recs Monitor.recs Taking.accepted
  rw [← List.filterMap_eq_map, List.filterMap_filter]
  rfl

end

/-! ## Two nested directories -/

/-- `/a` with `/a/b` and the file `/a/b/c` in it. -/
def deepTree : FsTree.Tree OsString :=
  ⟨⟨1, 1, .dir, true, true⟩, Os.root_is_dir,
    [([[0x61]], ⟨2, 1, .dir, true, true⟩), ([[0x61], [0x62]], ⟨3, 1, .dir, true, true⟩),
      ([[0x61], [0x62], [0x63]], ⟨4, 1, .file 7, true, true⟩)],
    by decide, by decide, by decide⟩

/-- `fsmon add _global --path <path> -r`. -/
def recursiveEntry (path : PathBuf) : PathEntry := ⟨none, path, some true, none, none, none⟩

/-- Something happens to `/a/b/c`. -/
def onFile (mask : Mask) : DecodedEvent := ⟨mask, 7, [[0x61], [0x62], [0x63]], none, none, 0⟩

end Fsmon.Monitor
