/-
# `Fsmon.LogWriter.Clean` — cleaning a log the daemon is writing

`clean_single_log` (`common/clean/core.rs`) next to the writer, on one log
directory.  The cleaner reads the lines of the open file one by one into a
temporary file, may trim its front, and renames it over the log; the writer's
calls fall anywhere between these steps.  All I/O succeeds here, and a size
trim drops whole lines.

    idle --open--> reading src pos temp --end of file--> copied temp --rename--> idle

The rename puts another inode under the name.  The writer keeps its handle to
the old one until a tick sees `nlink == 0`, and only a tick on a dirty log
looks.  Three things are needed for no event to be lost (`NotLate`): no write
between the end of the cleaner's read and its rename, none through the stale
handle after it, and nothing buffered when the cleaner reaches the end.
-/
import Fsmon.LogWriter.Order

namespace Fsmon

open Query (parse_log_line_jsonl)

/-! ## The cleaner -/

/-- `rename` of a temporary file with these lines over the name `p`. -/
def LogDir.replace (d : LogDir) (p : LogPath) (temp : List Str) : LogDir where
  inode := Function.update d.inode p (some d.next)
  content := Function.update d.content d.next temp
  nlink :=
    match d.inode p with
    | some old => Function.update (Function.update d.nlink old (d.nlink old - 1)) d.next 1
    | none => Function.update d.nlink d.next 1
  next := d.next + 1

theorem LogDir.Wf.replace {d : LogDir} (h : d.Wf) (p : LogPath) (temp : List Str) :
    (d.replace p temp).Wf where
  inj a b i ha hb := by
    simp only [LogDir.replace, Function.update_apply] at ha hb
    split at ha <;> split at hb
    · next hap hbp => rw [hap, hbp]
    · cases ha
      exact absurd (h.fresh b _ hb) (Nat.lt_irrefl _)
    · cases hb
      exact absurd (h.fresh a _ ha) (Nat.lt_irrefl _)
    · exact h.inj a b i ha hb
  fresh a i ha := by
    simp only [LogDir.replace, Function.update_apply] at ha
    split at ha
    · cases ha
      exact Nat.lt_succ_self _
    · exact Nat.lt_succ_of_lt (h.fresh a i ha)

theorem LogDir.lines_replace_self (d : LogDir) (p : LogPath) (temp : List Str) :
    (d.replace p temp).lines p = temp := by simp [LogDir.lines, LogDir.replace]

theorem LogDir.lines_replace_ne {d : LogDir} (hd : d.Wf) {p q : LogPath} (hne : q ≠ p)
    (temp : List Str) : (d.replace p temp).lines q = d.lines q := by
  simp only [LogDir.lines, LogDir.replace, Function.update_of_ne hne]
  cases hq : d.inode q with
  | none => rfl
  | some i =>
      have hlt := hd.fresh q i hq
      simp only [Function.update_of_ne (Nat.ne_of_lt hlt)]

/-- Where a run of `clean_single_log` stands. -/
inductive Cleaner where
  | idle
  | reading (p : LogPath) (time_filter : Option TimeFilter) (src pos : Nat) (temp : List Str)
  | copied (p : LogPath) (temp : List Str)
  deriving DecidableEq, Repr

/-- The daemon's writer, the cleaner, and the events `write_event` returned `Ok` for. -/
structure CleanSys where
  writer : FileLogWriter
  cleaner : Cleaner
  acked : List (FileEvent × String)

namespace CleanSys

/-- A step of the writer or of the cleaner. -/
inductive Label where
  /-- `write_event`, with `n` lines leaving the buffer. -/
  | write (now n : Nat) (victim : LogPath) (event : FileEvent) (cmd_name : String)
  | tick
  | openLog (p : LogPath) (time_filter : Option TimeFilter)
  | readLine
  /-- The trim drops the first `n` lines of the temporary file. -/
  | trim (n : Nat)
  | rename

/-- The answers of a system on which everything succeeds. -/
def goodIo (n : Nat) (victim : LogPath) : Io := ⟨true, .accepted n, victim, .done, .done⟩

section
variable (from_jsonl_str : Str → Option FileEvent) (jsonl_string : FileEvent → Str)

/-- What the copy loop writes for a line. -/
def keep_line (time_filter : Option TimeFilter) (line : Str) : List Str :=
  if Text.trim line = [] then []
  else
    match parse_log_line_jsonl from_jsonl_str (Text.trim line) with
    | some event => if time_filter.all (·.is_match event.time) then [line] else []
    | none => [line]

/-- One step; a step the cleaner is not at does nothing. -/
def step (s : CleanSys) : Label → CleanSys
  | .write now n victim event cmd_name =>
      let (r, w) := s.writer.write_event jsonl_string now (fun _ => goodIo 0 []) (goodIo n victim)
        event cmd_name
      match r with
      | .ok () => { s with writer := w, acked := s.acked ++ [(event, cmd_name)] }
      | .error _ => { s with writer := w }
  | .tick => { s with writer := s.writer.flush_and_sync_dirty_logs fun _ => .done }
  | .openLog p time_filter =>
      match s.cleaner, s.writer.log_dir.inode p with
      | .idle, some src => { s with cleaner := .reading p time_filter src 0 [] }
      | _, _ => s
  | .readLine =>
      match s.cleaner with
      | .reading p time_filter src pos temp =>
          match (s.writer.log_dir.content src)[pos]? with
          | some line =>
              let temp := temp ++ keep_line from_jsonl_str time_filter line
              { s with cleaner := .reading p time_filter src (pos + 1) temp }
          | none => { s with cleaner := .copied p temp }
      | _ => s
  | .trim n =>
      match s.cleaner with
      | .copied p temp => { s with cleaner := .copied p (temp.drop n) }
      | _ => s
  | .rename =>
      match s.cleaner with
      | .copied p temp =>
          { s with
            writer := { s.writer with log_dir := s.writer.log_dir.replace p temp }
            cleaner := .idle }
      | _ => s

/-- The filters of the clean keep every event: the time filter passes the event of the line it
is at, and the trim drops no event. -/
def FiltersKeep (s : CleanSys) : Label → Prop
  | .readLine =>
      match s.cleaner with
      | .reading _ time_filter src pos _ =>
          ((s.writer.log_dir.content src)[pos]?.bind
            (parse_log_line_jsonl from_jsonl_str)).all
              (fun event => time_filter.all (·.is_match event.time)) = true
      | _ => True
  | .trim n =>
      match s.cleaner with
      | .copied _ temp => eventsOf from_jsonl_str (temp.take n) = []
      | _ => True
  | _ => True

end

/-- The name `p` is not between the end of the cleaner's read and its rename. -/
def NotCopied (s : CleanSys) (p : LogPath) : Prop :=
  match s.cleaner with
  | .copied q _ => q ≠ p
  | _ => True

instance (s : CleanSys) (p : LogPath) : Decidable (NotCopied s p) := by
  rw [NotCopied]
  split <;> infer_instance

/-- The step comes not too late for the clean: a write goes to the file the name is bound to and
not behind the cleaner's back, and the cleaner reaches the end of the file with nothing buffered. -/
def NotLate (s : CleanSys) : Label → Prop
  | .write _ _ _ _ cmd_name =>
      NotCopied s (cmd_to_log_name cmd_name) ∧
        (s.writer.handles.lookup (cmd_to_log_name cmd_name)).all
          (fun h => s.writer.log_dir.inode (cmd_to_log_name cmd_name) = some h.inode) = true
  | .readLine =>
      match s.cleaner with
      | .reading p _ src pos _ =>
          pos < (s.writer.log_dir.content src).length ∨ s.writer.pending p = []
      | _ => True
  | _ => True

instance (s : CleanSys) (l : Label) : Decidable (NotLate s l) := by
  unfold NotLate
  split
  · infer_instance
  · split <;> infer_instance
  · infer_instance

instance (from_jsonl_str : Str → Option FileEvent) (s : CleanSys) (l : Label) :
    Decidable (FiltersKeep from_jsonl_str s l) := by
  unfold FiltersKeep
  split
  · split <;> infer_instance
  · split <;> infer_instance
  · infer_instance

/-- The event a label hands to the writer. -/
def Label.handed : Label → List FileEvent
  | .write _ _ _ event _ => [event]
  | _ => []

/-- A new writer, no clean under way. -/
def start (log_dir : LogDir) (now : Nat) : CleanSys := ⟨.new log_dir now, .idle, []⟩

/-- The acknowledged events of the log `p`, in order. -/
def ackedOn (s : CleanSys) (p : LogPath) : List FileEvent :=
  (s.acked.filter fun q => cmd_to_log_name q.2 = p).map (·.1)

/-! ## The accounts -/

/-- What the cleaner has copied so far: every event of the lines it has read; after the end of
the file, every event of the log, with nothing left in the writer's buffer. -/
def CopyInv (from_jsonl_str : Str → Option FileEvent) (w : FileLogWriter) : Cleaner → Prop
  | .idle => True
  | .reading p _ src pos temp =>
      w.log_dir.inode p = some src ∧ pos ≤ (w.log_dir.lines p).length ∧
        eventsOf from_jsonl_str temp = eventsOf from_jsonl_str ((w.log_dir.lines p).take pos)
  | .copied p temp =>
      w.pending p = [] ∧
        eventsOf from_jsonl_str temp = eventsOf from_jsonl_str (w.log_dir.lines p)

/-- Every log holds, on disk or buffered, its old events and then the acknowledged ones. -/
structure Accounted (from_jsonl_str : Str → Option FileEvent) (old : LogPath → List FileEvent)
    (s : CleanSys) : Prop where
  sound : FileLogWriter.Sound (fun _ => True) s.writer
  healthy : s.writer.disk_healthy = true
  stream : ∀ p, eventsOf from_jsonl_str (s.writer.stream p) = old p ++ s.ackedOn p
  copy : CopyInv from_jsonl_str s.writer s.cleaner

variable {from_jsonl_str : Str → Option FileEvent} {jsonl_string : FileEvent → Str}
  {old : LogPath → List FileEvent}

open FileLogWriter

theorem eventsOf_append (ls ms : List Str) : eventsOf from_jsonl_str (ls ++ ms)
    = eventsOf from_jsonl_str ls ++ eventsOf from_jsonl_str ms := List.filterMap_append

/-- When nothing is buffered and the stream stays, so does the file. -/
theorem settled {w w' : FileLogWriter} {p : LogPath} (hstream : w'.stream p = w.stream p)
    (hdisk : w.log_dir.lines p <+: w'.log_dir.lines p) (hpend : w.pending p = []) :
    w'.pending p = [] ∧ w'.log_dir.lines p = w.log_dir.lines p := by
  obtain ⟨t, ht⟩ := hdisk
  have hsplit : w.log_dir.lines p ++ (t ++ w'.pending p) = w.log_dir.lines p ++ [] := by
    rw [← List.append_assoc, ht]
    show w'.stream p = _
    rw [hstream, stream, hpend]
  obtain ⟨rfl, hp⟩ := List.append_eq_nil_iff.1 (List.append_cancel_left hsplit)
  exact ⟨hp, by rw [← ht, List.append_nil]⟩

/-- A step of the writer that does not write to a copied log keeps the copy good. -/
theorem CopyInv.writer {w w' : FileLogWriter} {c : Cleaner} (h : CopyInv from_jsonl_str w c)
    (hdisk : ∀ p, w.log_dir.lines p <+: w'.log_dir.lines p)
    (hbound : ∀ p i, w.log_dir.inode p = some i → w'.log_dir.inode p = some i)
    (hstream : ∀ p temp, c = .copied p temp → w'.stream p = w.stream p) :
    CopyInv from_jsonl_str w' c := by
  cases c with
  | idle => trivial
  | reading p time_filter src pos temp =>
      obtain ⟨hi, hpos, hev⟩ := h
      obtain ⟨t, ht⟩ := hdisk p
      refine ⟨hbound p src hi, ?_, ?_⟩
      · rw [← ht, List.length_append]
        omega
      · rw [hev, ← ht, List.take_append_of_le_length hpos]
  | copied p temp =>
      obtain ⟨hpend, hev⟩ := h
      obtain ⟨hpend', hlines⟩ := settled (hstream p temp rfl) (hdisk p) hpend
      exact ⟨hpend', by rw [hev, hlines]⟩

/-- The tick. -/
theorem tick_accounted {s : CleanSys} (h : Accounted from_jsonl_str old s) :
    Accounted from_jsonl_str old (step from_jsonl_str jsonl_string s .tick) := by
  have htrim := flush_and_sync_trims h.sound fun _ => .done
  have heq := htrim.stream_eq fun _ => rfl
  exact
    { sound := htrim.sound
      healthy := (flush_and_sync_sameBooks s.writer _).disk_healthy.trans h.healthy
      stream := fun p => (congrArg (eventsOf from_jsonl_str) (heq p)).trans (h.stream p)
      copy := h.copy.writer htrim.disk htrim.bound fun p _ _ => heq p }

/-- A write that succeeds, through a handle on the file of the name, comes to the end of its
log. -/
theorem write_appends {stale : LogPath → Prop} {w : FileLogWriter} {n : Nat} {cmd_name : String}
    (jsonl_string : FileEvent → Str) (now : Nat) (ios : Nat → Io) (io : Io) (event : FileEvent)
    (hs : Sound stale w) (hhealthy : w.disk_healthy = true)
    (hopen : io.open_ok = true) (hwrite : io.write = .accepted n) (hevict : io.evict = .done)
    (hfresh : (w.handles.lookup (cmd_to_log_name cmd_name)).all
      (fun h => w.log_dir.inode (cmd_to_log_name cmd_name) = some h.inode) = true) :
    ∃ w', w.write_event jsonl_string now ios io event cmd_name = (.ok (), w') ∧
      w'.disk_healthy = true ∧ w'.disk_buf = w.disk_buf ∧
      Appends stale w w' (cmd_to_log_name cmd_name) (jsonl_string event) := by
  have hretry : w.retry jsonl_string now ios = w := by
    simp [retry, retry_due, hhealthy]
  rw [write_event, hretry]
  rcases write_line_cases jsonl_string w now io event cmd_name with
    ⟨h, w₁, m, hg, _, he⟩ | ⟨h, w₁, m, _, hw, _⟩ | ⟨w₁, buf, hg, _, _⟩
  · obtain ⟨htrim, hcached⟩ := get_or_open_trims hs hg
    obtain ⟨hl, hor⟩ := hcached h rfl
    have hi : w₁.log_dir.inode (cmd_to_log_name cmd_name) = some h.inode := by
      rcases hor with hbefore | hi
      · rw [hbefore, Option.all_some, decide_eq_true_eq] at hfresh
        exact htrim.bound _ _ hfresh
      · exact hi
    have happ := accept_appends htrim.sound hl hi (jsonl_string event) m
    have heq := htrim.stream_eq hevict
    refine ⟨_, he, rfl, (get_or_open_sameBooks hg).disk_buf,
      ⟨⟨happ.sound.wf, happ.sound.live⟩, ?_, fun q hq => ?_, fun p => ?_,
        fun p i hp => happ.bound p i (htrim.bound p i hp)⟩⟩
    · rw [← heq]
      exact happ.stream_self
    · rw [← heq]
      exact happ.stream_ne q hq
    · exact (htrim.disk p).trans (happ.disk p)
  · rw [hwrite] at hw
    cases hw
  · -- the open cannot fail
    have hopens : w.opens io (cmd_to_log_name cmd_name) = true := by simp [opens, hopen]
    rw [← get_or_open_isSome, hg] at hopens
    cases hopens

theorem ackedOn_append (s : CleanSys) (w : FileLogWriter) (event : FileEvent) (cmd_name : String)
    (p : LogPath) :
    ackedOn ⟨w, s.cleaner, s.acked ++ [(event, cmd_name)]⟩ p
      = s.ackedOn p ++ if p = cmd_to_log_name cmd_name then [event] else [] := by
  by_cases hp : p = cmd_to_log_name cmd_name
  · simp [ackedOn, hp]
  · simp [ackedOn, hp, Ne.symm hp]

theorem write_accounted {s : CleanSys} {now n : Nat} {victim : LogPath} {event : FileEvent}
    {cmd_name : String} (h : Accounted from_jsonl_str old s)
    (hread : parse_log_line_jsonl from_jsonl_str (jsonl_string event) = some event)
    (hlate : NotLate s (.write now n victim event cmd_name)) :
    Accounted from_jsonl_str old
      (step from_jsonl_str jsonl_string s (.write now n victim event cmd_name)) := by
  obtain ⟨hcopied, hfresh⟩ := hlate
  obtain ⟨w', he, hhealthy, _, happ⟩ := write_appends jsonl_string now
    (fun _ => goodIo 0 []) (goodIo n victim) event h.sound h.healthy rfl rfl rfl hfresh
  simp only [step, he]
  refine ⟨happ.sound, hhealthy, fun p => ?_, h.copy.writer happ.disk happ.bound ?_⟩
  · rw [ackedOn_append]
    by_cases hp : p = cmd_to_log_name cmd_name
    · subst hp
      have hone : eventsOf from_jsonl_str [jsonl_string event] = [event] := by
        simp [eventsOf, hread]
      rw [if_pos rfl, happ.stream_self, eventsOf_append, h.stream, hone, List.append_assoc]
    · rw [if_neg hp, List.append_nil, happ.stream_ne p hp, h.stream]
  · intro p temp hc
    rw [NotCopied, hc] at hcopied
    exact happ.stream_ne p hcopied

/-- A kept line holds the event of the line it was made from. -/
theorem eventsOf_keep_line {time_filter : Option TimeFilter} {line : Str}
    (hkeep : (parse_log_line_jsonl from_jsonl_str line).all
      (fun event => time_filter.all (·.is_match event.time)) = true) :
    eventsOf from_jsonl_str (keep_line from_jsonl_str time_filter line)
      = eventsOf from_jsonl_str [line] := by
  rw [keep_line]
  split
  · next hblank => simp [eventsOf, Query.parse_blank hblank]
  · rw [Query.parse_trim]
    cases hp : parse_log_line_jsonl from_jsonl_str line with
    | none => rfl
    | some event =>
        rw [hp, Option.all_some] at hkeep
        simp only [hkeep, if_true]

theorem openLog_accounted {s : CleanSys} (h : Accounted from_jsonl_str old s) (p : LogPath)
    (time_filter : Option TimeFilter) :
    Accounted from_jsonl_str old (step from_jsonl_str jsonl_string s (.openLog p time_filter)) := by
  simp only [step]
  split
  · next hi => exact ⟨h.sound, h.healthy, h.stream, hi, Nat.zero_le _, by simp⟩
  · exact h

theorem readLine_accounted {s : CleanSys} (h : Accounted from_jsonl_str old s)
    (hkeep : FiltersKeep from_jsonl_str s .readLine) (hlate : NotLate s .readLine) :
    Accounted from_jsonl_str old (step from_jsonl_str jsonl_string s .readLine) := by
  simp only [step]
  cases hc : s.cleaner with
  | idle => exact h
  | copied p temp => exact h
  | reading p time_filter src pos temp =>
      have hcopy := h.copy
      rw [hc] at hcopy
      obtain ⟨hi, hpos, hev⟩ := hcopy
      have hlines : s.writer.log_dir.lines p = s.writer.log_dir.content src := by
        rw [LogDir.lines, hi]
      simp only [FiltersKeep, hc] at hkeep
      simp only [NotLate, hc] at hlate
      cases hline : (s.writer.log_dir.content src)[pos]? with
      | some line =>
          simp only [hline]
          rw [hline, Option.bind_some] at hkeep
          have hlt : pos < (s.writer.log_dir.content src).length :=
            (List.getElem?_eq_some_iff.1 hline).1
          refine ⟨h.sound, h.healthy, h.stream, hi, by rw [hlines]; exact hlt, ?_⟩
          rw [eventsOf_append, eventsOf_keep_line hkeep, hev, hlines, List.take_add_one, hline,
            eventsOf_append]
          rfl
      | none =>
          simp only [hline]
          have hge : (s.writer.log_dir.content src).length ≤ pos := List.getElem?_eq_none_iff.1 hline
          refine ⟨h.sound, h.healthy, h.stream, hlate.resolve_left (Nat.not_lt.2 hge), ?_⟩
          rw [hev, hlines, List.take_of_length_le hge]

theorem trim_accounted {s : CleanSys} (h : Accounted from_jsonl_str old s) {n : Nat}
    (hkeep : FiltersKeep from_jsonl_str s (.trim n)) :
    Accounted from_jsonl_str old (step from_jsonl_str jsonl_string s (.trim n)) := by
  simp only [step]
  cases hc : s.cleaner with
  | idle => exact h
  | reading p time_filter src pos temp => exact h
  | copied p temp =>
      have hcopy := h.copy
      rw [hc] at hcopy
      simp only [FiltersKeep, hc] at hkeep
      refine ⟨h.sound, h.healthy, h.stream, hcopy.1, ?_⟩
      rw [← hcopy.2]
      conv_rhs => rw [← List.take_append_drop n temp, eventsOf_append, hkeep]
      rfl

/-! ### The rename -/

/-- The rename: the log has the copied lines, its handle is stale and empty. -/
theorem rename_accounted {s : CleanSys} (h : Accounted from_jsonl_str old s) :
    Accounted from_jsonl_str old (step from_jsonl_str jsonl_string s .rename) := by
  simp only [step]
  cases hc : s.cleaner with
  | idle => exact h
  | reading p time_filter src pos temp => exact h
  | copied p temp =>
      have hcopy := h.copy
      rw [hc] at hcopy
      obtain ⟨hpend, hev⟩ := hcopy
      refine ⟨⟨h.sound.wf.replace p temp, fun q g hq => ?_⟩, h.healthy, fun q => ?_, trivial⟩
      · by_cases hqp : q = p
        · subst hqp
          exact .inr ⟨trivial, (pending_eq hq).symm.trans hpend⟩
        · refine (h.sound.live q g hq).imp_left fun hi => ?_
          simpa [LogDir.replace, hqp] using hi
      · show eventsOf from_jsonl_str ((s.writer.log_dir.replace p temp).lines q
          ++ s.writer.pending q) = _
        by_cases hqp : q = p
        · subst hqp
          have hstream := h.stream q
          rw [FileLogWriter.stream, hpend, List.append_nil] at hstream
          rw [LogDir.lines_replace_self, hpend, List.append_nil, hev, hstream]
          rfl
        · rw [LogDir.lines_replace_ne h.sound.wf hqp]
          exact h.stream q

/-! ## Runs -/

/-- **A run** in which the filters keep every event and no step comes too late. -/
theorem run_accounted : ∀ (ls : List Label) (s : CleanSys), Accounted from_jsonl_str old s →
    (∀ l ∈ ls, ∀ event ∈ l.handed,
      parse_log_line_jsonl from_jsonl_str (jsonl_string event) = some event) →
    Run.Guarded (step from_jsonl_str jsonl_string) (FiltersKeep from_jsonl_str) s ls →
    Run.Guarded (step from_jsonl_str jsonl_string) NotLate s ls →
    Accounted from_jsonl_str old (Run.exec (step from_jsonl_str jsonl_string) s ls) := by
  intro ls
  induction ls with
  | nil =>
      intro _ h _ _ _
      exact h
  | cons l ls ih =>
      intro s h hread hkeep hlate
      refine ih _ ?_ (fun l' hl' => hread l' (List.mem_cons_of_mem _ hl')) hkeep.2
        hlate.2
      cases l with
      | write now n victim event cmd_name =>
          exact write_accounted h (hread _ List.mem_cons_self event List.mem_cons_self) hlate.1
      | tick => exact tick_accounted h
      | openLog p time_filter => exact openLog_accounted h p time_filter
      | readLine => exact readLine_accounted h hkeep.1 hlate.1
      | trim n => exact trim_accounted h hkeep.1
      | rename => exact rename_accounted h

variable (from_jsonl_str jsonl_string) in
/-- **Cleaning a live log.**  In a run of the writer and the cleaner in which the filters keep
every event and no step comes too late, after the writer's last flush the file of every log holds
the events it held at the start and then every acknowledged event, each once and in order. -/
theorem clean_keeps_acked (log_dir : LogDir) (hdir : log_dir.Wf) (now : Nat) (ls : List Label)
    (hread : ∀ l ∈ ls, ∀ event ∈ l.handed,
      parse_log_line_jsonl from_jsonl_str (jsonl_string event) = some event)
    (hkeep : Run.Guarded (step from_jsonl_str jsonl_string) (FiltersKeep from_jsonl_str)
      (start log_dir now) ls)
    (hlate : Run.Guarded (step from_jsonl_str jsonl_string) NotLate (start log_dir now) ls)
    (p : LogPath) :
    let s := Run.exec (step from_jsonl_str jsonl_string) (start log_dir now) ls
    fileEvents from_jsonl_str s.writer.finish.log_dir p
      = fileEvents from_jsonl_str log_dir p ++ s.ackedOn p := by
  intro s
  have hstart : Accounted from_jsonl_str (fileEvents from_jsonl_str log_dir) (start log_dir now) :=
    { sound := new_sound hdir now
      healthy := rfl
      stream := fun q => by
        show eventsOf from_jsonl_str ((new log_dir now).stream q) = _ ++ []
        rw [stream_new, List.append_nil]
        rfl
      copy := trivial }
  have hend := run_accounted ls _ hstart hread hkeep hlate
  rw [fileEvents, finish_lines hend.sound]
  exact hend.stream p

/-! ## A write behind the cleaner's back -/

/-- The second event is written after the cleaner has read the log and before it renames. -/
def lateRun : List Label :=
  [.write 0 0 [] (sampleEvent 1) "sh", .tick,
   .openLog (cmd_to_log_name "sh") none, .readLine, .readLine,
   .write 1 0 [] (sampleEvent 2) "sh", .rename, .tick]

theorem clean_loses_acked :
    let s := Run.exec (step sampleParse sampleJsonl) (start .empty 0) lateRun
    Run.Guarded (step sampleParse sampleJsonl) (FiltersKeep sampleParse) (start .empty 0) lateRun ∧
      s.cleaner = .idle ∧
      s.ackedOn (cmd_to_log_name "sh") = [sampleEvent 1, sampleEvent 2] ∧
      fileEvents sampleParse s.writer.finish.log_dir (cmd_to_log_name "sh") = [sampleEvent 1] := by
  decide +kernel

/-- The second event is written while the cleaner still reads, and flushed in time. -/
theorem clean_keeps_acked_in_time :
    let s := Run.exec (step sampleParse sampleJsonl) (start .empty 0)
      [.write 0 0 [] (sampleEvent 1) "sh", .tick, .openLog (cmd_to_log_name "sh") none, .readLine,
       .write 1 0 [] (sampleEvent 2) "sh", .tick, .readLine, .readLine, .trim 0, .rename]
    fileEvents sampleParse s.writer.finish.log_dir (cmd_to_log_name "sh")
      = fileEvents sampleParse LogDir.empty (cmd_to_log_name "sh")
        ++ s.ackedOn (cmd_to_log_name "sh") :=
  clean_keeps_acked sampleParse sampleJsonl .empty LogDir.empty_wf 0 _
    (by decide +kernel) (by decide +kernel) (by decide +kernel) _

end CleanSys

end Fsmon
