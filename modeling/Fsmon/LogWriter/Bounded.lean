/-
# `Fsmon.LogWriter.Bounded` — the memory of the log writer

Whatever is written, whatever fails and whatever happens to the directory in
between, the writer keeps at most 64 handles and at most 10,000 events.  A handle
is inserted only after `get_or_open` has made room for it; a retry only moves
events from the buffer to `remaining`.

    `get_or_open_expect`   `get_or_open` with the panic of its `expect`
    `Bounded`              both bounds, kept by every operation
    `memory_bounded`       they hold in every state of every run
-/
import Fsmon.LogWriter.Conserve

namespace Fsmon

namespace FileLogWriter

/-! ## The `expect` of `get_or_open` -/

/-- What `get_or_open` comes to. -/
inductive Opened where
  | handle (h : BufWriter)
  /-- The `?` of `open_log_file(..)?`. -/
  | error
  /-- `handle should exist after insert or contains_key check` -/
  | expect_failed
  deriving DecidableEq, Repr

/-- `handles.get_mut(log_path).expect(..)`. -/
def expect_handle (w : FileLogWriter) (p : LogPath) : Opened × FileLogWriter :=
  match w.handles.lookup p with
  | some h => (.handle h, w)
  | none => (.expect_failed, w)

/-- `get_or_open` with its last lookup, which may panic. -/
def get_or_open_expect (w : FileLogWriter) (io : Io) (p : LogPath) : Opened × FileLogWriter :=
  if !w.handles.contains_key p then
    let w := w.evict io
    if io.open_ok then
      let (i, d) := w.log_dir.openAppend p
      expect_handle { w with log_dir := d, handles := w.handles.insert p ⟨i, []⟩ } p
    else (.error, w)
  else w.expect_handle p

/-- A handle or the error of the open. -/
def Opened.of : Option BufWriter → Opened
  | some h => .handle h
  | none => .error

/-- **The `expect` never fires**, whatever state the writer is in. -/
theorem get_or_open_expect_eq (w : FileLogWriter) (io : Io) (p : LogPath) :
    w.get_or_open_expect io p = (.of (w.get_or_open io p).1, (w.get_or_open io p).2) := by
  cases hl : w.handles.lookup p with
  | some h => simp [get_or_open_expect, get_or_open, expect_handle, HashMap.contains_key, hl, Opened.of]
  | none =>
      cases ho : io.open_ok with
      | true => simp [get_or_open_expect, get_or_open, expect_handle, HashMap.contains_key, hl, ho, Opened.of]
      | false => simp [get_or_open_expect, get_or_open, HashMap.contains_key, hl, ho, Opened.of]

theorem Opened.of_ne_expect_failed (h? : Option BufWriter) : Opened.of h? ≠ .expect_failed := by
  cases h? <;> intro h <;> cases h

/-! ## Handles -/

/-- The handles that are cached. -/
def open_handles (w : FileLogWriter) : Nat := w.handles.len

theorem put_open_handles {w : FileLogWriter} {p : LogPath} {h : BufWriter}
    (hl : w.handles.lookup p = some h) (g : BufWriter) (out rest : List Str) :
    (w.put p g out rest).open_handles = w.open_handles :=
  HashMap.len_insert_present hl _

theorem drop_handle_open_handles_le (w : FileLogWriter) (p : LogPath) (f : Flush) :
    (w.drop_handle p f).open_handles ≤ w.open_handles := by
  rw [drop_handle]
  cases w.handles.lookup p with
  | none => exact Nat.le_refl _
  | some h => exact HashMap.len_erase_le w.handles p

/-- The handle to evict is a cached one, and there is one in a cache that is not empty. -/
theorem evict_path_cached {w : FileLogWriter} {victim q : LogPath} (h : w.evict_path victim = some q) :
    ∃ g, w.handles.lookup q = some g := by
  rw [evict_path] at h
  split at h
  · rename_i hcached
    cases h
    exact Option.isSome_iff_exists.1 hcached
  · have hkey : q ∈ w.handles := AList.mem_keys.2 (List.mem_of_mem_head? h)
    exact Option.isSome_iff_exists.1 (AList.lookup_isSome.2 hkey)

theorem evict_path_isSome {w : FileLogWriter} (h : 0 < w.open_handles) (victim : LogPath) :
    ∃ q, w.evict_path victim = some q := by
  rw [evict_path]
  split
  · exact ⟨victim, rfl⟩
  · refine Option.isSome_iff_exists.1 ?_
    rw [List.isSome_head?]
    intro hempty
    have hlength : w.handles.keys.length = w.open_handles := List.length_map _
    rw [hempty] at hlength
    exact absurd hlength (Nat.ne_of_lt h)

/-- An eviction makes room for one more. -/
theorem evict_room {w : FileLogWriter} (h : w.open_handles ≤ MAX_OPEN_HANDLES) (io : Io) :
    (w.evict io).open_handles < MAX_OPEN_HANDLES := by
  rw [evict]
  split
  · rename_i hfull
    have hpos : 0 < w.open_handles := Nat.lt_of_lt_of_le (by decide) hfull
    obtain ⟨q, hq⟩ := evict_path_isSome hpos io.victim
    obtain ⟨g, hg⟩ := evict_path_cached hq
    simp only [hq, drop_handle, hg]
    have hone := HashMap.len_erase_present hg
    exact Nat.lt_of_lt_of_le (Nat.lt_of_succ_le (Nat.le_of_eq hone)) h
  · rename_i hroom
    exact Nat.lt_of_not_le hroom

/-- `get_or_open` stays within the limit, and the handle it returns is cached. -/
theorem get_or_open_room {w w₁ : FileLogWriter} {io : Io} {p : LogPath} {h? : Option BufWriter}
    (hw : w.open_handles ≤ MAX_OPEN_HANDLES) (hg : w.get_or_open io p = (h?, w₁)) :
    w₁.open_handles ≤ MAX_OPEN_HANDLES ∧ ∀ h, h? = some h → w₁.handles.lookup p = some h := by
  rw [get_or_open] at hg
  cases hl : w.handles.lookup p with
  | some h =>
      simp only [hl] at hg
      cases hg
      exact ⟨hw, fun g hg => hg ▸ hl⟩
  | none =>
      have hroom := evict_room hw io
      cases ho : io.open_ok with
      | true =>
          simp only [hl, ho, if_true] at hg
          cases hg
          refine ⟨Nat.le_trans (HashMap.len_insert_le ..) (Nat.succ_le_of_lt hroom), ?_⟩
          intro g hg
          cases hg
          exact AList.lookup_insert _
      | false =>
          simp only [hl, ho] at hg
          cases hg
          refine ⟨Nat.le_of_lt hroom, ?_⟩
          intro g hg
          cases hg

/-! ## Both bounds -/

/-- At most 64 handles are cached and at most 10,000 events are buffered. -/
structure Bounded (w : FileLogWriter) : Prop where
  handles : w.open_handles ≤ MAX_OPEN_HANDLES
  disk_buf : w.disk_buf.length ≤ DISK_BUF_CAP

theorem new_bounded (log_dir : LogDir) (now : Nat) : (new log_dir now).Bounded :=
  ⟨Nat.zero_le _, Nat.zero_le _⟩

/-- What keeps the books and opens no further handle keeps the bounds. -/
theorem Bounded.fewer {w w' : FileLogWriter} (h : w.Bounded) (hbooks : SameBooks w w')
    (hle : w'.open_handles ≤ w.open_handles) : w'.Bounded where
  handles := Nat.le_trans hle h.handles
  disk_buf := by
    rw [hbooks.disk_buf]
    exact h.disk_buf

theorem get_or_open_bounded {w w₁ : FileLogWriter} {io : Io} {p : LogPath} {h? : Option BufWriter}
    (hw : w.Bounded) (hg : w.get_or_open io p = (h?, w₁)) : w₁.Bounded where
  handles := (get_or_open_room hw.handles hg).1
  disk_buf := by
    rw [(get_or_open_sameBooks hg).disk_buf]
    exact hw.disk_buf

theorem drop_handle_bounded {w : FileLogWriter} (h : w.Bounded) (p : LogPath) (f : Flush) :
    (w.drop_handle p f).Bounded :=
  h.fewer (drop_handle_sameBooks w p f) (drop_handle_open_handles_le w p f)

/-- A line through a cached handle. -/
theorem accept_bounded {w : FileLogWriter} {p : LogPath} {h : BufWriter} (hw : w.Bounded)
    (hl : w.handles.lookup p = some h) (line : Str) (n : Nat) : (w.accept p h line n).Bounded := by
  have hsame : (w.accept p h line n).open_handles = w.open_handles :=
    HashMap.len_insert_present hl _
  exact ⟨hsame ▸ hw.handles, hw.disk_buf⟩

theorem refuse_bounded {w : FileLogWriter} {p : LogPath} {h : BufWriter} (hw : w.Bounded)
    (hl : w.handles.lookup p = some h) (n : Nat) : (w.refuse p h n).Bounded :=
  hw.fewer (put_sameBooks ..) (Nat.le_of_eq (put_open_handles hl ..))

section
variable {jsonl_string : FileEvent → Str}

theorem retry_one_bounded {w w' : FileLogWriter} {io : Io} {q : FileEvent × String} {ok : Bool}
    (h : w.Bounded) (hr : w.retry_one jsonl_string io q = (ok, w')) : w'.Bounded := by
  rcases retry_one_cases hr with ⟨g, w₁, n, hg, _, _, rfl⟩ | ⟨g, w₁, n, hg, _, _, rfl⟩ | ⟨hg, _⟩
  · have hcached := (get_or_open_room h.handles hg).2 g rfl
    exact accept_bounded (get_or_open_bounded h hg) hcached _ n
  · have hcached := (get_or_open_room h.handles hg).2 g rfl
    exact drop_handle_bounded (refuse_bounded (get_or_open_bounded h hg) hcached n) _ _
  · exact get_or_open_bounded h hg

/-- Each round of the retry loop takes an event from the buffer before it keeps one in
`remaining`. -/
theorem retry_loop_bounded : ∀ (todo remaining : List (FileEvent × String)) (w : FileLogWriter)
    (ios : Nat → Io), w.Bounded →
      (retry_loop jsonl_string w ios remaining todo).2.Bounded ∧
        (retry_loop jsonl_string w ios remaining todo).1.length ≤ remaining.length + todo.length := by
  intro todo
  induction todo with
  | nil =>
      intro remaining w ios hw
      exact ⟨hw, Nat.le_refl _⟩
  | cons q todo ih =>
      intro remaining w ios hw
      rw [retry_loop]
      rcases hr : w.retry_one jsonl_string (ios 0) q with ⟨ok, w'⟩
      obtain ⟨hbounded, hle⟩ := ih (if ok then remaining else remaining ++ [q]) w'
        (fun i => ios (i + 1)) (retry_one_bounded hw hr)
      refine ⟨hbounded, Nat.le_trans hle ?_⟩
      cases ok with
      | true => simp
      | false =>
          simp
          omega

theorem flush_disk_buf_bounded {w : FileLogWriter} (h : w.Bounded) (now : Nat) (ios : Nat → Io) :
    (w.flush_disk_buf jsonl_string now ios).Bounded := by
  rw [flush_disk_buf]
  split
  · exact ⟨h.handles, h.disk_buf⟩
  · obtain ⟨hbounded, hle⟩ := @retry_loop_bounded jsonl_string w.disk_buf [] w ios h
    rw [List.length_nil, Nat.zero_add] at hle
    exact ⟨hbounded.handles, Nat.le_trans hle h.disk_buf⟩

theorem retry_bounded {w : FileLogWriter} (h : w.Bounded) (now : Nat) (ios : Nat → Io) :
    (w.retry jsonl_string now ios).Bounded := by
  rw [retry]
  split
  · exact flush_disk_buf_bounded h now ios
  · exact h

/-- The buffer takes an event only while it is not full. -/
theorem write_line_bounded {w : FileLogWriter} (h : w.Bounded) (now : Nat) (io : Io)
    (event : FileEvent) (cmd_name : String) :
    (w.write_line jsonl_string now io event cmd_name).2.Bounded := by
  rcases write_line_cases jsonl_string w now io event cmd_name with
    ⟨g, w₁, n, hg, _, he⟩ | ⟨g, w₁, n, hg, _, he⟩ | ⟨w₁, buf, hg, rfl, he⟩
  · have hcached := (get_or_open_room h.handles hg).2 g rfl
    have haccepted := accept_bounded (get_or_open_bounded h hg) hcached (jsonl_string event) n
    rw [he]
    exact ⟨haccepted.handles, haccepted.disk_buf⟩
  · have hcached := (get_or_open_room h.handles hg).2 g rfl
    rw [he]
    exact refuse_bounded (get_or_open_bounded h hg) hcached n
  · have hw₁ := get_or_open_bounded h hg
    rw [he]
    refine ⟨(drop_handle_bounded hw₁ _ _).handles, ?_⟩
    show List.length (if _ then _ else _) ≤ _
    split
    · rename_i hroom
      rw [List.length_append]
      exact hroom
    · exact hw₁.disk_buf

end

theorem flush_handle_open_handles (w : FileLogWriter) (f : Flush) (p : LogPath) :
    (w.flush_handle f p).open_handles = w.open_handles := by
  rw [flush_handle]
  cases hl : w.handles.lookup p with
  | none => rfl
  | some h => exact put_open_handles hl ..

theorem flush_log_open_handles_le (w : FileLogWriter) (f : Flush) (p : LogPath) :
    (w.flush_log f p).open_handles ≤ w.open_handles := by
  rw [flush_log]
  cases hl : w.handles.lookup p with
  | none => exact Nat.le_refl _
  | some h =>
      simp only
      split
      · exact drop_handle_open_handles_le w p f
      · exact Nat.le_of_eq (put_open_handles hl ..)

/-- A loop over log paths that only flushes or drops handles. -/
theorem foldl_open_handles_le {g : FileLogWriter → LogPath → FileLogWriter}
    (hg : ∀ w p, (g w p).open_handles ≤ w.open_handles) (ps : List LogPath) (w : FileLogWriter) :
    (ps.foldl g w).open_handles ≤ w.open_handles :=
  @Run.rel_foldl _ _ g (fun w w' => w'.open_handles ≤ w.open_handles) (fun _ => Nat.le_refl _)
    (fun h₁ h₂ => Nat.le_trans h₂ h₁) hg ps w

theorem apply_bounded (jsonl_string : FileEvent → Str) {w : FileLogWriter} (h : w.Bounded) (op : Op) :
    (w.apply jsonl_string op).Bounded := by
  cases op with
  | write now ios io event cmd_name => exact write_line_bounded (retry_bounded h now ios) now io event cmd_name
  | retry_buf now ios => exact flush_disk_buf_bounded h now ios
  | tick f =>
      have hdrained : Bounded { w with dirty_logs := [] } := ⟨h.handles, h.disk_buf⟩
      exact hdrained.fewer (flush_and_sync_sameBooks w f)
        (foldl_open_handles_le (fun w p => flush_log_open_handles_le w (f p) p) ..)
  | flush f =>
      exact h.fewer (flush_all_sameBooks w f)
        (foldl_open_handles_le (fun w p => Nat.le_of_eq (flush_handle_open_handles w (f p) p)) ..)

/-! ## Runs -/

/-- A call on the writer, or whatever others do to the directory between two calls. -/
inductive Turn where
  | call (op : Op)
  | outside (log_dir : LogDir)

def turn (jsonl_string : FileEvent → Str) (w : FileLogWriter) : Turn → FileLogWriter
  | .call op => w.apply jsonl_string op
  | .outside log_dir => { w with log_dir := log_dir }

theorem turn_bounded (jsonl_string : FileEvent → Str) {w : FileLogWriter} (h : w.Bounded) (t : Turn) :
    (w.turn jsonl_string t).Bounded := by
  cases t with
  | call op => exact apply_bounded jsonl_string h op
  | outside log_dir => exact ⟨h.handles, h.disk_buf⟩

/-- **The writer's memory is bounded** in every state of every run; and `get_or_open`, called in
whatever state, between the calls of the run or within one of them, returns what the model of
these calls says, and its `expect` does not fire. -/
theorem memory_bounded (jsonl_string : FileEvent → Str) (log_dir : LogDir) (now : Nat)
    (turns : List Turn) :
    (turns.foldl (turn jsonl_string) (new log_dir now)).handles.len ≤ 64 ∧
      (turns.foldl (turn jsonl_string) (new log_dir now)).disk_buf.length ≤ 10000 ∧
        ∀ (w : FileLogWriter) (io : Io) (p : LogPath),
          (w.get_or_open_expect io p).1 ≠ .expect_failed ∧
            w.get_or_open_expect io p = (.of (w.get_or_open io p).1, (w.get_or_open io p).2) := by
  have hrun : (turns.foldl (turn jsonl_string) (new log_dir now)).Bounded := by
    refine List.foldlRecOn turns (turn jsonl_string) (new_bounded log_dir now) ?_
    intro w hw t _
    exact turn_bounded jsonl_string hw t
  refine ⟨hrun.handles, hrun.disk_buf, fun w io p => ?_⟩
  have heq := get_or_open_expect_eq w io p
  refine ⟨?_, heq⟩
  rw [heq]
  exact Opened.of_ne_expect_failed _

end FileLogWriter

end Fsmon
