/-
# `Fsmon.LogWriter.Order` — the time order of a log

Events are handed over in time order; a log keeps that order as long as no
event overtakes an older one of its log that still waits in `disk_buf`.

    Ordered w waiting T     every log sorted, nothing in it later than T or than
                            a waiting event of the same log
    retry_loop_ordered      the loop keeps it, what remains being the new waiting list
    logs_in_order           a run without overtaking leaves every log in time order

`disk_buf` is shared by all logs and a retry is made at most every ten seconds,
while any log that opens is written to at once: an open that fails for one event
and succeeds for the next puts them in the wrong order.
-/
import Fsmon.Lib.Run
import Fsmon.LogWriter.Stream
import Fsmon.Query

namespace Fsmon

open Query (parse_log_line_jsonl)

/-- The events of lines, in their order. -/
def eventsOf (from_jsonl_str : Str → Option FileEvent) (ls : List Str) : List FileEvent :=
  ls.filterMap (parse_log_line_jsonl from_jsonl_str)

/-- Non-decreasing times. -/
def TimeSorted (es : List FileEvent) : Prop := es.Pairwise fun a b => a.time ≤ b.time

instance (es : List FileEvent) : Decidable (TimeSorted es) :=
  inferInstanceAs (Decidable (es.Pairwise fun a b => a.time ≤ b.time))

theorem TimeSorted.append_one {es : List FileEvent} {e : FileEvent} (h : TimeSorted es)
    (hlast : ∀ a ∈ es, a.time ≤ e.time) : TimeSorted (es ++ [e]) := by
  refine List.pairwise_append.2 ⟨h, List.pairwise_singleton _ _, fun a ha b hb => ?_⟩
  obtain rfl := List.mem_singleton.1 hb
  exact hlast a ha

namespace FileLogWriter

/-- No waiting event of the same log is older than `q`. -/
def InTurn (q : FileEvent × String) (waiting : List (FileEvent × String)) : Prop :=
  ∀ r ∈ waiting, cmd_to_log_name r.2 = cmd_to_log_name q.2 → q.1.time ≤ r.1.time

section
variable (from_jsonl_str : Str → Option FileEvent) (jsonl_string : FileEvent → Str)

/-- The events of the log `p`, on disk or buffered in its handle. -/
def logged (w : FileLogWriter) (p : LogPath) : List FileEvent :=
  eventsOf from_jsonl_str (w.stream p)

/-- The retry loop accepts no event while an older one of its log remains from this round. -/
def RetryInTurn : FileLogWriter → (Nat → Io) → List (FileEvent × String) →
    List (FileEvent × String) → Prop
  | _, _, _, [] => True
  | w, ios, remaining, q :: rest =>
      let (ok, w') := w.retry_one jsonl_string (ios 0) q
      (w.opens (ios 0) (cmd_to_log_name q.2) = true → (∃ n, (ios 0).write = .accepted n) →
        InTurn q remaining) ∧
      RetryInTurn w' (fun i => ios (i + 1)) (if ok then remaining else remaining ++ [q]) rest

/-- No event overtakes an older one of its log that waits in the buffer. -/
def NoOvertaking (w : FileLogWriter) : Op → Prop
  | .write now ios io event cmd_name =>
      (w.retry_due now = true → RetryInTurn jsonl_string w ios [] w.disk_buf) ∧
      ((w.retry jsonl_string now ios).opens io (cmd_to_log_name cmd_name) = true →
        (∃ n, io.write = .accepted n) →
          InTurn (event, cmd_name) (w.retry jsonl_string now ios).disk_buf)
  | .retry_buf _ ios => RetryInTurn jsonl_string w ios [] w.disk_buf
  | _ => True

end

/-- The logs are in time order: each is sorted, and nothing in it is later than `T` or than an
event of the same log that still waits. -/
structure Ordered (from_jsonl_str : Str → Option FileEvent) (w : FileLogWriter)
    (waiting : List (FileEvent × String)) (T : Int) : Prop where
  sound : Sound (fun _ => False) w
  sorted : ∀ p, TimeSorted (logged from_jsonl_str w p)
  before : ∀ q ∈ waiting, ∀ e ∈ logged from_jsonl_str w (cmd_to_log_name q.2), e.time ≤ q.1.time
  latest : ∀ p, ∀ e ∈ logged from_jsonl_str w p, e.time ≤ T
  waiting_sorted : waiting.Pairwise fun a b => a.1.time ≤ b.1.time
  waiting_latest : ∀ q ∈ waiting, q.1.time ≤ T

variable {from_jsonl_str : Str → Option FileEvent} {jsonl_string : FileEvent → Str}

/-- No handle is ever stale here: nothing but the writer touches the names. -/
abbrev Cuts (w w' : FileLogWriter) : Prop := Trims (fun _ => False) False w w'

/-- Every cached handle is open on the file of its name. -/
theorem Sound.inode {w : FileLogWriter} (hs : Sound (fun _ => False) w) {p : LogPath}
    {h : BufWriter} (hl : w.handles.lookup p = some h) : w.log_dir.inode p = some h.inode :=
  (hs.live p h hl).resolve_right fun hf => hf.1

theorem logged_cut {w w' : FileLogWriter} (h : Cuts w w') (p : LogPath) :
    logged from_jsonl_str w' p <+: logged from_jsonl_str w p := (h.stream p).filterMap _

/-- `get_or_open` loses at most tails, and the handle it returns is in the cache. -/
theorem get_or_open_cuts {w w₁ : FileLogWriter} {io : Io} {p : LogPath} {h? : Option BufWriter}
    (hs : Sound (fun _ => False) w) (hg : w.get_or_open io p = (h?, w₁)) :
    Cuts w w₁ ∧ ∀ h, h? = some h → w₁.handles.lookup p = some h := by
  obtain ⟨htrim, hcached⟩ := get_or_open_trims hs hg
  exact ⟨htrim.mono False.elim, fun h hh => (hcached h hh).1⟩

/-- Losing tails keeps the order. -/
theorem Ordered.trims {w w' : FileLogWriter} {waiting : List (FileEvent × String)} {T : Int}
    (h : Ordered from_jsonl_str w waiting T) (ht : Cuts w w') :
    Ordered from_jsonl_str w' waiting T where
  sound := ht.sound
  sorted p := (h.sorted p).sublist (logged_cut ht p).sublist
  before q hq e he := h.before q hq e ((logged_cut ht _).mem he)
  latest p e he := h.latest p e ((logged_cut ht p).mem he)
  waiting_sorted := h.waiting_sorted
  waiting_latest := h.waiting_latest

/-- The order is about the directory and the handles alone. -/
theorem Ordered.sameFiles {w w' : FileLogWriter} {waiting : List (FileEvent × String)} {T : Int}
    (h : Ordered from_jsonl_str w waiting T) (hd : w'.log_dir = w.log_dir)
    (hh : w'.handles = w.handles) : Ordered from_jsonl_str w' waiting T := by
  have hstream : ∀ p, logged from_jsonl_str w' p = logged from_jsonl_str w p := fun p => by
    rw [logged, logged, stream, stream, pending, pending, hd, hh]
  exact ⟨⟨hd ▸ h.sound.wf, hd ▸ hh ▸ h.sound.live⟩, fun p => hstream p ▸ h.sorted p,
    fun q hq e he => h.before q hq e (hstream _ ▸ he), fun p e he => h.latest p e (hstream p ▸ he),
    h.waiting_sorted, h.waiting_latest⟩

/-- A shorter waiting list asks less. -/
theorem Ordered.sublist {w : FileLogWriter} {waiting waiting' : List (FileEvent × String)} {T : Int}
    (h : Ordered from_jsonl_str w waiting T) (hsub : waiting'.Sublist waiting) :
    Ordered from_jsonl_str w waiting' T where
  sound := h.sound
  sorted := h.sorted
  before q hq := h.before q (hsub.subset hq)
  latest := h.latest
  waiting_sorted := h.waiting_sorted.sublist hsub
  waiting_latest q hq := h.waiting_latest q (hsub.subset hq)

/-- An event that is in turn and not older than its log comes to the end of it. -/
theorem Ordered.appends {w w' : FileLogWriter} {waiting : List (FileEvent × String)} {T : Int}
    {q : FileEvent × String}
    (hread : ∀ e e', parse_log_line_jsonl from_jsonl_str (jsonl_string e) = some e' → e' = e)
    (h : Ordered from_jsonl_str w waiting T)
    (ha : Appends (fun _ => False) w w' (cmd_to_log_name q.2) (jsonl_string q.1))
    (hlast : ∀ e ∈ logged from_jsonl_str w (cmd_to_log_name q.2), e.time ≤ q.1.time)
    (hT : q.1.time ≤ T) (hturn : InTurn q waiting) : Ordered from_jsonl_str w' waiting T := by
  -- the new line is the event, or is not read at all
  have hself : logged from_jsonl_str w' (cmd_to_log_name q.2)
        = logged from_jsonl_str w (cmd_to_log_name q.2) ∨
      logged from_jsonl_str w' (cmd_to_log_name q.2)
        = logged from_jsonl_str w (cmd_to_log_name q.2) ++ [q.1] := by
    simp only [logged, eventsOf, ha.stream_self, List.filterMap_append, List.filterMap_cons,
      List.filterMap_nil]
    cases hp : parse_log_line_jsonl from_jsonl_str (jsonl_string q.1) with
    | none => exact .inl (List.append_nil _)
    | some e' => exact .inr (by rw [hread _ _ hp])
  have hne : ∀ p, p ≠ cmd_to_log_name q.2 →
      logged from_jsonl_str w' p = logged from_jsonl_str w p := fun p hp => by
    rw [logged, ha.stream_ne p hp, logged]
  have hmem : ∀ p e, e ∈ logged from_jsonl_str w' p →
      e ∈ logged from_jsonl_str w p ∨ (e = q.1 ∧ p = cmd_to_log_name q.2) := by
    intro p e he
    by_cases hp : p = cmd_to_log_name q.2
    · subst hp
      rcases hself with hs | hs
      · exact .inl (hs ▸ he)
      · rw [hs, List.mem_append, List.mem_singleton] at he
        exact he.imp_right fun h => ⟨h, rfl⟩
    · exact .inl (hne p hp ▸ he)
  refine ⟨ha.sound, fun p => ?_, fun r hr e he => ?_, fun p e he => ?_, h.waiting_sorted,
    h.waiting_latest⟩
  · by_cases hp : p = cmd_to_log_name q.2
    · subst hp
      rcases hself with hs | hs
      · exact hs ▸ h.sorted _
      · exact hs ▸ (h.sorted _).append_one hlast
    · exact hne p hp ▸ h.sorted p
  · rcases hmem _ e he with he | ⟨rfl, hp⟩
    · exact h.before r hr e he
    · exact hturn r hr hp
  · rcases hmem p e he with he | ⟨rfl, _⟩
    · exact h.latest p e he
    · exact hT

/-! ## The retry loop -/

section
variable (hread : ∀ e e', parse_log_line_jsonl from_jsonl_str (jsonl_string e) = some e' → e' = e)
include hread

/-- One retry in turn. -/
theorem retry_one_ordered {w w' : FileLogWriter} {io : Io} {q : FileEvent × String} {ok : Bool}
    {remaining rest : List (FileEvent × String)} {T : Int}
    (h : Ordered from_jsonl_str w (remaining ++ q :: rest) T)
    (hr : w.retry_one jsonl_string io q = (ok, w'))
    (hturn : w.opens io (cmd_to_log_name q.2) = true → (∃ n, io.write = .accepted n) →
      InTurn q remaining) :
    Ordered from_jsonl_str w' ((if ok then remaining else remaining ++ [q]) ++ rest) T := by
  have hq : q ∈ remaining ++ q :: rest := by simp
  have hsub : (remaining ++ rest).Sublist (remaining ++ q :: rest) :=
    (List.sublist_cons_self q rest).append_left remaining
  have hopen : ∀ h, (w.get_or_open io (cmd_to_log_name q.2)).1 = some h →
      w.opens io (cmd_to_log_name q.2) = true := by
    intro h hh
    rw [← get_or_open_isSome, hh]
    rfl
  rcases retry_one_cases hr with ⟨g, w₁, n, hg, hw, rfl, rfl⟩ | ⟨g, w₁, n, hg, hw, rfl, rfl⟩ |
    ⟨hg, rfl⟩
  · obtain ⟨htrim, hcached⟩ := get_or_open_cuts h.sound hg
    have h₁ := h.trims htrim
    have hrem := hturn (hopen g (by rw [hg])) ⟨n, hw⟩
    refine (h₁.sublist hsub).appends hread (accept_appends htrim.sound (hcached g rfl)
      (htrim.sound.inode (hcached g rfl)) _ n)
      (h₁.before q hq) (h.waiting_latest q hq) fun r hr hname => ?_
    rcases List.mem_append.1 hr with hr | hr
    · exact hrem r hr hname
    · -- the events still to come are later in the buffer
      have htail := (List.pairwise_append.1 h.waiting_sorted).2.1
      exact (List.pairwise_cons.1 htail).1 r hr
  · obtain ⟨htrim, hcached⟩ := get_or_open_cuts h.sound hg
    have hrefuse := refuse_trims htrim.sound (hcached g rfl) n False
    have hdrop := drop_handle_trims hrefuse.sound (cmd_to_log_name q.2) io.drop
    simpa using h.trims ((htrim.trans hrefuse).trans (hdrop.mono False.elim))
  · obtain ⟨htrim, _⟩ := get_or_open_cuts h.sound hg
    simpa using h.trims htrim

/-- **The retry loop** in turn: what remains is the new waiting list. -/
theorem retry_loop_ordered {T : Int} : ∀ (todo remaining : List (FileEvent × String))
    (w : FileLogWriter) (ios : Nat → Io), Ordered from_jsonl_str w (remaining ++ todo) T →
    RetryInTurn jsonl_string w ios remaining todo →
    Ordered from_jsonl_str (retry_loop jsonl_string w ios remaining todo).2
      (retry_loop jsonl_string w ios remaining todo).1 T := by
  intro todo
  induction todo with
  | nil =>
      intro remaining w ios h _
      simpa [retry_loop] using h
  | cons q rest ih =>
      intro remaining w ios h hturn
      simp only [retry_loop]
      rw [RetryInTurn] at hturn
      rcases hr : w.retry_one jsonl_string (ios 0) q with ⟨ok, w₁⟩
      rw [hr] at hturn
      have h₁ := retry_one_ordered hread h hr hturn.1
      exact ih _ w₁ _ h₁ hturn.2

theorem flush_disk_buf_ordered {w : FileLogWriter} {now : Nat} {ios : Nat → Io} {T : Int}
    (h : Ordered from_jsonl_str w w.disk_buf T)
    (hturn : RetryInTurn jsonl_string w ios [] w.disk_buf) :
    Ordered from_jsonl_str (w.flush_disk_buf jsonl_string now ios)
      (w.flush_disk_buf jsonl_string now ios).disk_buf T := by
  rw [flush_disk_buf]
  split
  · exact h.sameFiles rfl rfl
  · exact (retry_loop_ordered hread w.disk_buf [] w ios h hturn).sameFiles rfl rfl

theorem retry_ordered {w : FileLogWriter} {ios : Nat → Io} {T : Int} (now : Nat)
    (h : Ordered from_jsonl_str w w.disk_buf T)
    (hturn : w.retry_due now = true → RetryInTurn jsonl_string w ios [] w.disk_buf) :
    Ordered from_jsonl_str (w.retry jsonl_string now ios)
      (w.retry jsonl_string now ios).disk_buf T := by
  rw [retry]
  split
  · next hdue => exact flush_disk_buf_ordered hread h (hturn hdue)
  · exact h

/-- A direct write of the newest event, in turn. -/
theorem write_line_ordered {w : FileLogWriter} {now : Nat} {io : Io} {event : FileEvent}
    {cmd_name : String} {T : Int} (h : Ordered from_jsonl_str w w.disk_buf T)
    (hT : T ≤ event.time)
    (hturn : w.opens io (cmd_to_log_name cmd_name) = true → (∃ n, io.write = .accepted n) →
      InTurn (event, cmd_name) w.disk_buf) :
    Ordered from_jsonl_str (w.write_line jsonl_string now io event cmd_name).2
      (w.write_line jsonl_string now io event cmd_name).2.disk_buf event.time := by
  -- nothing is later than the new event
  have hnew : Ordered from_jsonl_str w w.disk_buf event.time :=
    { h with
      latest := fun p e he => Int.le_trans (h.latest p e he) hT
      waiting_latest := fun q hq => Int.le_trans (h.waiting_latest q hq) hT }
  rcases write_line_cases jsonl_string w now io event cmd_name with
    ⟨g, w₁, n, hg, hw, he⟩ | ⟨g, w₁, n, hg, hw, he⟩ | ⟨w₁, buf, hg, rfl, he⟩
  · obtain ⟨htrim, hcached⟩ := get_or_open_cuts h.sound hg
    have hbuf := (get_or_open_sameBooks hg).disk_buf
    have hin := hturn (by rw [← get_or_open_isSome, hg]; rfl) ⟨n, hw⟩
    have h₁ := (hnew.trims htrim).appends (q := (event, cmd_name)) hread
      (accept_appends htrim.sound (hcached g rfl) (htrim.sound.inode (hcached g rfl)) _ n)
      ((hnew.trims htrim).latest _) (Int.le_refl _) hin
    rw [he]
    rw [← hbuf] at h₁
    exact h₁.sameFiles rfl rfl
  · obtain ⟨htrim, hcached⟩ := get_or_open_cuts h.sound hg
    have hbuf := (get_or_open_sameBooks hg).disk_buf
    rw [he]
    have h₁ := hnew.trims (htrim.trans (refuse_trims htrim.sound (hcached g rfl) n False))
    rw [← hbuf] at h₁
    exact h₁
  · obtain ⟨htrim, _⟩ := get_or_open_cuts h.sound hg
    have hbuf := (get_or_open_sameBooks hg).disk_buf
    have hdrop := drop_handle_trims htrim.sound (cmd_to_log_name cmd_name) io.drop
    have h₁ := hnew.trims (htrim.trans (hdrop.mono False.elim))
    rw [he]
    -- the new event joins the end of the buffer, or there is no room for it
    have hpush : Ordered from_jsonl_str (w₁.drop_handle (cmd_to_log_name cmd_name) io.drop)
        (if w₁.disk_buf.length < DISK_BUF_CAP then w₁.disk_buf ++ [(event, cmd_name)]
          else w₁.disk_buf) event.time := by
      rw [hbuf]
      split
      · refine { h₁ with
          before := fun q hq e he => ?_
          waiting_sorted := ?_
          waiting_latest := fun q hq => ?_ }
        · rcases List.mem_append.1 hq with hq | hq
          · exact h₁.before q hq e he
          · obtain rfl := List.mem_singleton.1 hq
            exact h₁.latest _ e he
        · refine List.pairwise_append.2 ⟨h₁.waiting_sorted, List.pairwise_singleton _ _, ?_⟩
          intro a ha b hb
          obtain rfl := List.mem_singleton.1 hb
          exact h₁.waiting_latest a ha
        · rcases List.mem_append.1 hq with hq | hq
          · exact h₁.waiting_latest q hq
          · obtain rfl := List.mem_singleton.1 hq
            exact Int.le_refl _
      · exact h₁
    exact hpush.sameFiles rfl rfl

/-! ## Runs -/

/-- The times of the events a run hands over. -/
def times (ops : List Op) : List Int := ops.flatMap fun op => op.handed.map (·.1.time)

/-- One call that hands over nothing. -/
theorem apply_ordered_quiet {w : FileLogWriter} {op : Op} {T : Int}
    (h : Ordered from_jsonl_str w w.disk_buf T) (hquiet : op.handed = [])
    (hturn : NoOvertaking jsonl_string w op) :
    Ordered from_jsonl_str (w.apply jsonl_string op) (w.apply jsonl_string op).disk_buf T := by
  cases op with
  | write now ios io event cmd_name => cases hquiet
  | retry_buf now ios => exact flush_disk_buf_ordered hread h hturn
  | tick f =>
      have hbuf : (w.flush_and_sync_dirty_logs f).disk_buf = w.disk_buf :=
        (flush_and_sync_sameBooks w f).disk_buf
      have := h.trims ((flush_and_sync_trims h.sound f).mono False.elim)
      rwa [← hbuf] at this
  | flush f =>
      have hbuf := (flush_all_sameBooks w f).disk_buf
      have := h.trims ((flush_all_trims h.sound f).mono False.elim)
      rwa [← hbuf] at this

/-- **A run** whose events are handed over in time order, none overtaking another. -/
theorem run_ordered : ∀ (ops : List Op) (w : FileLogWriter) (T : Int),
    Ordered from_jsonl_str w w.disk_buf T → (T :: times ops).Pairwise (· ≤ ·) →
    Run.Guarded (apply jsonl_string) (NoOvertaking jsonl_string) w ops →
    ∃ T', Ordered from_jsonl_str (Run.exec (apply jsonl_string) w ops)
      (Run.exec (apply jsonl_string) w ops).disk_buf T'
  | [], _, T, h, _, _ => ⟨T, h⟩
  | .write now ios io event cmd_name :: ops, w, T, h, htimes, hturn => by
      obtain ⟨hT, htail⟩ := List.pairwise_cons.1 htimes
      have hretry := retry_ordered hread now h hturn.1.1
      exact run_ordered ops _ event.time
        (write_line_ordered hread hretry (hT event.time (by simp [times, Op.handed])) hturn.1.2)
        htail hturn.2
  | .retry_buf now ios :: ops, w, T, h, htimes, hturn =>
      run_ordered ops _ T (apply_ordered_quiet hread h rfl hturn.1) htimes hturn.2
  | .tick f :: ops, w, T, h, htimes, hturn =>
      run_ordered ops _ T (apply_ordered_quiet hread h rfl hturn.1) htimes hturn.2
  | .flush f :: ops, w, T, h, htimes, hturn =>
      run_ordered ops _ T (apply_ordered_quiet hread h rfl hturn.1) htimes hturn.2

end

/-- The events in the file of the log `p`. -/
def fileEvents (from_jsonl_str : Str → Option FileEvent) (d : LogDir) (p : LogPath) :
    List FileEvent := eventsOf from_jsonl_str (d.lines p)

variable (from_jsonl_str jsonl_string) in
/-- **Time order.**  A writer started on a directory whose logs are sorted and not later than
`earlier`, given events from `earlier` on in time order, leaves the file of every log in time order
if no event overtakes an older one of its log that waits in the buffer. -/
theorem logs_in_order
    (hread : ∀ e e', parse_log_line_jsonl from_jsonl_str (jsonl_string e) = some e' → e' = e)
    (log_dir : LogDir) (hdir : log_dir.Wf) (now : Nat) (earlier : Int)
    (hold : ∀ p, TimeSorted (fileEvents from_jsonl_str log_dir p) ∧
      ∀ e ∈ fileEvents from_jsonl_str log_dir p, e.time ≤ earlier)
    (ops : List Op) (htimes : (earlier :: times ops).Pairwise (· ≤ ·))
    (hturn : Run.Guarded (apply jsonl_string) (NoOvertaking jsonl_string) (new log_dir now) ops)
    (p : LogPath) :
    TimeSorted (fileEvents from_jsonl_str
      (Run.exec (apply jsonl_string) (new log_dir now) ops).log_dir p) := by
  have hlogged : ∀ q, logged from_jsonl_str (new log_dir now) q
      = fileEvents from_jsonl_str log_dir q := fun q => by rw [logged, stream_new, fileEvents]
  have hstart : Ordered from_jsonl_str (new log_dir now) (new log_dir now).disk_buf earlier :=
    { sound := new_sound hdir now
      sorted := fun q => hlogged q ▸ (hold q).1
      before := fun q hq => absurd hq List.not_mem_nil
      latest := fun q e he => (hold q).2 e (hlogged q ▸ he)
      waiting_sorted := .nil
      waiting_latest := fun q hq => absurd hq List.not_mem_nil }
  obtain ⟨T, hend⟩ := run_ordered hread ops _ earlier hstart htimes hturn
  -- the file is the part of the stream on disk
  have hdisk : fileEvents from_jsonl_str
      (Run.exec (apply jsonl_string) (new log_dir now) ops).log_dir p
        <+: logged from_jsonl_str (Run.exec (apply jsonl_string) (new log_dir now) ops) p :=
    (List.prefix_append _ _).filterMap _
  exact (hend.sorted p).sublist hdisk.sublist

/-! ## An event that overtakes -/

/-- The log cannot be opened for the first event, and can be for the second; the failure of
another log then makes the writer retry its buffer ten seconds on. -/
def overtakingRun : List Op :=
  [.write 0 (fun _ => .calm) .noOpen (sampleEvent 1) "sh",
   .write 1 (fun _ => .calm) .calm (sampleEvent 2) "sh",
   .write 2 (fun _ => .calm) .noOpen (sampleEvent 2) "vi",
   .write 12 (fun _ => .calm) .calm (sampleEvent 2) "vi",
   .flush fun _ => .done]

theorem logs_out_of_order :
    (0 :: times overtakingRun).Pairwise (· ≤ ·) ∧
    fileEvents sampleParse (Run.exec (apply sampleJsonl) (new .empty 0) overtakingRun).log_dir
        (cmd_to_log_name "sh") = [sampleEvent 2, sampleEvent 1] ∧
    ¬ TimeSorted (fileEvents sampleParse
        (Run.exec (apply sampleJsonl) (new .empty 0) overtakingRun).log_dir
        (cmd_to_log_name "sh")) := by
  decide +kernel

/-- Two events in order. -/
theorem logs_in_order_two :
    TimeSorted (fileEvents sampleParse
      (Run.exec (apply sampleJsonl) (new .empty 0)
        [.write 0 (fun _ => .calm) .calm (sampleEvent 1) "sh",
         .write 1 (fun _ => .calm) .calm (sampleEvent 2) "sh",
         .flush fun _ => .done]).log_dir (cmd_to_log_name "sh")) := by
  refine logs_in_order sampleParse sampleJsonl ?_ .empty LogDir.empty_wf 0 0
    (fun p => ⟨.nil, fun e he => absurd he List.not_mem_nil⟩) _ (by decide) ?_ _
  · intro e e' h
    simp only [sampleJsonl] at h
    split at h
    · next he =>
        subst he
        have : parse_log_line_jsonl sampleParse (sampleLine 1) = some (sampleEvent 1) := by
          decide +kernel
        exact (Option.some.inj (this.symm.trans h)).symm
    · split at h
      · next he =>
          subst he
          have : parse_log_line_jsonl sampleParse (sampleLine 2) = some (sampleEvent 2) := by
            decide +kernel
          exact (Option.some.inj (this.symm.trans h)).symm
      · have : parse_log_line_jsonl sampleParse [] = none := by decide
        exact absurd (this.symm.trans h) (Option.some_ne_none e').symm
  · refine ⟨⟨fun h => absurd h (by decide), fun _ _ r hr => ?_⟩,
      ⟨fun h => absurd h (by decide +kernel), fun _ _ r hr => ?_⟩, trivial, trivial⟩
    · exact absurd hr List.not_mem_nil
    · have hempty : ((apply sampleJsonl (new .empty 0)
          (.write 0 (fun _ => .calm) .calm (sampleEvent 1) "sh")).retry sampleJsonl 1
            fun _ => .calm).disk_buf = [] := by decide +kernel
      rw [hempty] at hr
      exact absurd hr List.not_mem_nil

end FileLogWriter

end Fsmon
