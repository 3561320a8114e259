/-
# `Fsmon.Clean.Kept` — what a clean keeps

    `keeps`         a line that is not blank, and unparseable or in time
    `kept_lines`    those of a log
    `Copies`        every call of the copy loop succeeds; the loop has then added its lines
                    to the temporary file, and counted them (`copy_lines_ok`)
    `clean_exact`   what a clean leaves and reports where all I/O succeeds

The new log is a tail of the kept lines, by `find_tail_offset_eq`.
-/
import Fsmon.Clean.Tail

namespace Fsmon

open Text Query

section
variable (from_jsonl_str : Str → Option FileEvent) (time_filter : Option TimeFilter)

/-- A line that is not blank. -/
def nonblank (line : Str) : Bool := trim line ≠ []

/-- The line is unparseable, or its event passes the time filter. -/
def in_time (line : Str) : Bool :=
  (parse_log_line_jsonl from_jsonl_str (trim line)).all fun event =>
    time_filter.all (·.is_match event.time)

def keeps (line : Str) : Bool := nonblank line && in_time from_jsonl_str time_filter line

/-- A line whose event is out of time. -/
def drops (line : Str) : Bool := nonblank line && !in_time from_jsonl_str time_filter line

/-- The lines of a log that are to be kept. -/
def kept_lines (file : Bytes) : List Str :=
  (linesOf file).filter (keeps from_jsonl_str time_filter)

/-- The loop has gone over these lines. -/
def Copied.add (c : Copied) (lines : List Str) : Copied where
  written := c.written ++ fileOf (lines.filter (keeps from_jsonl_str time_filter))
  kept_bytes := c.kept_bytes + (fileOf (lines.filter (keeps from_jsonl_str time_filter))).length
  time_deleted := c.time_deleted + lines.countP (drops from_jsonl_str time_filter)
  to_delete := c.to_delete ++
    (lines.filter (drops from_jsonl_str time_filter)).filterMap fun line =>
      parse_log_line_jsonl from_jsonl_str (trim line)

/-- The loop gets through: from the line with the number `i` on, each is read and is UTF-8, and each
that is kept is written. -/
def Copies (io : CleanIo) (i : Nat) (ls : List Bytes) : Prop :=
  (∀ k ≤ ls.length, io.read (i + k) = true) ∧ (∀ l ∈ ls, (fromUtf8 l).isSome = true) ∧
    ∀ k l s, ls[k]? = some l → fromUtf8 l = some s →
      keeps from_jsonl_str time_filter (chomp s) = true → io.write (i + k) = true

end

section
variable {from_jsonl_str : Str → Option FileEvent} {time_filter : Option TimeFilter} {io : CleanIo}

/-! ## The copy loop -/

theorem Copied.add_nil (c : Copied) : c.add from_jsonl_str time_filter [] = c := by
  simp [Copied.add]

theorem Copied.add_cons (c : Copied) (line : Str) (lines : List Str) :
    (c.add from_jsonl_str time_filter [line]).add from_jsonl_str time_filter lines =
      c.add from_jsonl_str time_filter (line :: lines) := by
  have hsplit : line :: lines = [line] ++ lines := rfl
  rw [hsplit]
  simp only [Copied.add, List.filter_append, fileOf_append, List.countP_append, List.filterMap_append,
    List.length_append, List.append_assoc, Nat.add_assoc]

theorem copy_line_cases (i : Nat) (line : Str) (c : Copied) :
    copy_line from_jsonl_str io time_filter i line c =
      if trim line = [] then (true, c)
      else if in_time from_jsonl_str time_filter line then
        if io.write i then
          (true,
            { c with
              written := c.written ++ lineBytes line
              kept_bytes := c.kept_bytes + ((encode line).length + 1) })
        else (false, { c with written := c.written ++ lineBytes line })
      else
        (true,
          { c with
            time_deleted := c.time_deleted + 1
            to_delete := c.to_delete ++ (parse_log_line_jsonl from_jsonl_str (trim line)).toList }) := by
  rw [copy_line, in_time]
  cases parse_log_line_jsonl from_jsonl_str (trim line) <;> rfl

/-- One line: the loop goes on unless a write fails, and has then gone over the line. -/
theorem copy_line_eq (i : Nat) (line : Str) (c : Copied) :
    (copy_line from_jsonl_str io time_filter i line c).1 =
        (!keeps from_jsonl_str time_filter line || io.write i) ∧
      ((copy_line from_jsonl_str io time_filter i line c).1 = true →
        (copy_line from_jsonl_str io time_filter i line c).2 =
          c.add from_jsonl_str time_filter [line]) := by
  rw [copy_line_cases, Copied.add]
  by_cases hblank : trim line = []
  · have hkeeps : keeps from_jsonl_str time_filter line = false := by simp [keeps, nonblank, hblank]
    have hdrops : drops from_jsonl_str time_filter line = false := by simp [drops, nonblank, hblank]
    simp [hblank, hkeeps, hdrops]
  · rw [if_neg hblank]
    cases htime : in_time from_jsonl_str time_filter line with
    | true =>
        have hkeeps : keeps from_jsonl_str time_filter line = true := by
          simp [keeps, nonblank, hblank, htime]
        have hdrops : drops from_jsonl_str time_filter line = false := by simp [drops, htime]
        cases hwrite : io.write i with
        | true => simp [hkeeps, hdrops, lineBytes]
        | false => simp [hkeeps]
    | false =>
        have hkeeps : keeps from_jsonl_str time_filter line = false := by simp [keeps, htime]
        have hdrops : drops from_jsonl_str time_filter line = true := by
          simp [drops, nonblank, hblank, htime]
        cases hparse : parse_log_line_jsonl from_jsonl_str (trim line) with
        | none => simp [in_time, hparse] at htime
        | some event => simp [hkeeps, hdrops, hparse]

theorem copies_nil (i : Nat) :
    Copies from_jsonl_str time_filter io i [] ↔ io.read i = true := by
  simp [Copies]

theorem copies_cons {i : Nat} {l : Bytes} {ls : List Bytes} :
    Copies from_jsonl_str time_filter io i (l :: ls) ↔ io.read i = true ∧
      ∃ s, fromUtf8 l = some s ∧
        (!keeps from_jsonl_str time_filter (chomp s) || io.write i) = true ∧
        Copies from_jsonl_str time_filter io (i + 1) ls := by
  have hnum : ∀ k, i + 1 + k = i + (k + 1) := fun k => by omega
  constructor
  · rintro ⟨hread, hutf8, hwrite⟩
    obtain ⟨s, hs⟩ := Option.isSome_iff_exists.1 (hutf8 l List.mem_cons_self)
    refine ⟨hread 0 (Nat.zero_le _), s, hs, ?_, ?_, ?_, ?_⟩
    · cases hk : keeps from_jsonl_str time_filter (chomp s) with
      | false => rfl
      | true => exact hwrite 0 l s rfl hs hk
    · intro k hk
      rw [hnum]
      exact hread (k + 1) (Nat.succ_le_succ hk)
    · intro l' hl'
      exact hutf8 l' (List.mem_cons_of_mem l hl')
    · intro k l' s' hl' hs' hk
      rw [hnum]
      exact hwrite (k + 1) l' s' hl' hs' hk
  · rintro ⟨hfirst, s, hs, hwritten, hread, hutf8, hwrite⟩
    refine ⟨fun k hk => ?_, fun l' hl' => ?_, fun k l' s' hl' hs' hk => ?_⟩
    · cases k with
      | zero => exact hfirst
      | succ k =>
          rw [← hnum]
          exact hread k (Nat.le_of_succ_le_succ hk)
    · rcases List.mem_cons.1 hl' with rfl | hl'
      · rw [hs]
        rfl
      · exact hutf8 l' hl'
    · cases k with
      | zero =>
          cases hl'
          rw [hs] at hs'
          cases hs'
          rw [hk] at hwritten
          exact hwritten
      | succ k =>
          rw [← hnum]
          exact hwrite k l' s' hl' hs' hk

/-- **The copy loop**: it gets through where its calls succeed, and has then gone over all lines. -/
theorem copy_lines_ok (ls : List Bytes) : ∀ (i : Nat) (c : Copied),
    ((copy_lines from_jsonl_str io time_filter ls i c).1 = true ↔
        Copies from_jsonl_str time_filter io i ls) ∧
      (Copies from_jsonl_str time_filter io i ls →
        copy_lines from_jsonl_str io time_filter ls i c =
          (true, c.add from_jsonl_str time_filter (ls.filterMap fun l => (fromUtf8 l).map chomp))) := by
  induction ls with
  | nil =>
      intro i c
      rw [copies_nil, copy_lines, List.filterMap_nil, Copied.add_nil]
      exact ⟨Iff.rfl, fun h => by rw [h]⟩
  | cons l ls ih =>
      intro i c
      rw [copies_cons, copy_lines]
      cases hread : io.read i with
      | false => simp
      | true =>
          rw [if_pos rfl]
          cases hs : fromUtf8 l with
          | none => simp
          | some s =>
              obtain ⟨hgoes, hline⟩ := @copy_line_eq from_jsonl_str time_filter io i (chomp s) c
              simp only [Option.some.injEq, exists_eq_left', true_and, List.filterMap_cons, hs,
                Option.map_some]
              rw [← hgoes]
              cases hgo : (copy_line from_jsonl_str io time_filter i (chomp s) c).1 with
              | false => simp [hgo]
              | true =>
                  obtain ⟨hiff, hrest⟩ := ih (i + 1) (c.add from_jsonl_str time_filter [chomp s])
                  rw [if_pos rfl, hline hgo, hiff]
                  refine ⟨(and_iff_right rfl).symm, fun h => ?_⟩
                  rw [hrest h.2, Copied.add_cons]

/-! ## Lines -/

/-- A line that is written, and read again. -/
def strip_cr (line : Str) : Str := chomp (line ++ ['\n'])

theorem strip_cr_eq (line : Str) : (∃ t, line = t ++ ['\r'] ∧ strip_cr line = t) ∨
    line.getLast? ≠ some '\r' ∧ strip_cr line = line := by
  rcases List.eq_nil_or_concat line with rfl | ⟨t, c, rfl⟩
  · exact .inr ⟨by simp, rfl⟩
  · by_cases hc : c = '\r'
    · subst hc
      exact .inl ⟨t, List.concat_eq_append, by simp [strip_cr, chomp]⟩
    · exact .inr ⟨by simpa using hc, by simp [strip_cr, chomp, hc]⟩

theorem strip_cr_sublist (line : Str) : (strip_cr line).Sublist line := by
  rcases strip_cr_eq line with ⟨t, rfl, h⟩ | ⟨_, h⟩
  · rw [h]
    exact List.sublist_append_left ..
  · rw [h]

theorem chomp_sublist (s : Str) : (chomp s).Sublist s := by
  rcases chomp_eq s with ⟨t, rfl, h⟩ | ⟨t, rfl, h⟩ | h
  · rw [h]
    exact List.sublist_append_left ..
  · rw [h]
    exact List.sublist_append_left ..
  · rw [h]

theorem isLines_mem {ls : List Bytes} (h : IsLines ls) : ∀ l ∈ ls, Complete l ∨ newline ∉ l := by
  induction h with
  | nil =>
      intro l hl
      cases hl
  | cut _ hcut =>
      intro l hl
      rw [List.mem_singleton.1 hl]
      exact .inr hcut
  | cons hfirst _ ih =>
      intro l hl
      rcases List.mem_cons.1 hl with rfl | hl
      · exact .inl hfirst
      · exact ih l hl

/-- No line of a file has a newline in it. -/
theorem newline_notMem_linesOf {file : Bytes} : ∀ k ∈ linesOf file, '\n' ∉ k := by
  intro k hk hmem
  obtain ⟨l, hl, hk⟩ := List.mem_filterMap.1 hk
  obtain ⟨s, hs, rfl⟩ := Option.map_eq_some_iff.1 hk
  rcases isLines_mem (splitLines_isLines file) l hl with ⟨body, rfl, hbody⟩ | hcut
  · -- the newline at the end of the line is the only one, and it is dropped
    have hdecode : decode (body ++ [newline]) = decode body ++ decode [newline] :=
      decode_append_ascii (by decide) body []
    have hutf8 : ∃ t, fromUtf8 body = some t ∧ s = t ++ ['\n'] := by
      rw [fromUtf8, hdecode, Option.ite_none_right_eq_some, List.all_append, Bool.and_eq_true,
        List.filterMap_append, Option.some.injEq] at hs
      exact ⟨_, by rw [fromUtf8, if_pos hs.1.1], hs.2.symm⟩
    obtain ⟨t, ht, rfl⟩ := hutf8
    exact hbody (newline_mem_of_fromUtf8 ht ((strip_cr_sublist t).subset hmem))
  · exact hcut (newline_mem_of_fromUtf8 hs ((chomp_sublist s).subset hmem))

theorem newline_notMem_kept {file : Bytes} :
    ∀ k ∈ kept_lines from_jsonl_str time_filter file, '\n' ∉ k := by
  intro k hk
  exact newline_notMem_linesOf k (List.mem_of_mem_filter hk)

/-- A file of lines has as many newlines. -/
theorem count_newline_fileOf : ∀ {ks : List Str}, (∀ k ∈ ks, '\n' ∉ k) →
    (fileOf ks).count newline = ks.length := by
  intro ks
  induction ks with
  | nil =>
      intro _
      exact rfl
  | cons k ks ih =>
      intro h
      rw [fileOf_cons, lineBytes, List.count_append, List.count_append,
        List.count_eq_zero.2 (newline_notMem_encode (h k List.mem_cons_self)),
        ih fun l hl => h l (List.mem_cons_of_mem k hl), List.count_singleton_self, List.length_cons,
        Nat.zero_add, Nat.add_comm]

/-! ## The trim -/

/-- There is a size limit, and so many bytes are beyond it. -/
def triggered (max_size : Option SizeFilter) (kept_bytes : Nat) : Bool :=
  max_size.any (should_trim kept_bytes)

theorem trim_start_some (temp : Bytes) (filter : SizeFilter) : trim_start temp (some filter) =
    if should_trim temp.length filter then find_tail_offset temp (max_bytes filter) else 0 := rfl

/-- **The trim**, where its calls succeed, cuts off some first lines, and counts them. -/
theorem trim_temp_calm {ks : List Str} (h : ∀ k ∈ ks, '\n' ∉ k) (path : PathBuf)
    (max_size : Option SizeFilter) : ∃ pre post, ks = pre ++ post ∧
      trim_temp .calm path max_size (fileOf ks) (fileOf ks).length =
        .ok (pre.length, (fileOf ks).length - (fileOf pre).length, fileOf post) ∧
      trim_start (fileOf ks) max_size = (fileOf pre).length ∧
      (triggered max_size (fileOf ks).length = false → pre = []) ∧
      ∀ filter, max_size = some filter → should_trim (fileOf ks).length filter = true →
        TailOf ks (max_bytes filter) post := by
  cases max_size with
  | none =>
      exact ⟨[], ks, rfl, by rw [trim_temp]; rfl, rfl, fun _ => rfl, fun filter hf => by cases hf⟩
  | some filter =>
      rw [trim_temp, triggered, Option.any_some, trim_start_some]
      cases htrim : should_trim (fileOf ks).length filter with
      | false =>
          refine ⟨[], ks, rfl, rfl, rfl, fun _ => rfl, fun filter' hf htrim' => ?_⟩
          cases hf
          rw [htrim] at htrim'
          cases htrim'
      | true =>
          obtain ⟨pre, post, hks, hoffset, htail⟩ := find_tail_offset_eq h (max_bytes filter)
          have hpre : ∀ k ∈ pre, '\n' ∉ k := fun k hk => h k (hks ▸ List.mem_append_left _ hk)
          have hbytes : fileOf ks = fileOf pre ++ fileOf post := by rw [hks, fileOf_append]
          refine ⟨pre, post, hks, ?_, (if_pos rfl).trans hoffset, fun hno => (by cases hno), fun filter' hf _ => ?_⟩
          · have hcount : count_lines (fileOf ks) (fileOf pre).length = pre.length := by
              rw [count_lines, hbytes, List.take_left, count_newline_fileOf hpre]
            have hcut : truncate_from_start .calm path (fileOf ks) (fileOf pre).length =
                .ok (fileOf post) := by
              rw [truncate_from_start]
              split
              · rename_i hzero
                rw [List.length_eq_zero_iff] at hzero
                rw [hbytes, hzero, List.nil_append]
              · show Except.ok (if (fileOf ks).length ≤ (fileOf pre).length then []
                  else (fileOf ks).drop (fileOf pre).length) = _
                rw [hbytes, List.drop_left, List.length_append]
                split
                · rename_i hall
                  rw [List.length_eq_zero_iff.1 (show (fileOf post).length = 0 by omega)]
                · rfl
            rw [if_pos rfl, hoffset]
            show (truncate_from_start .calm path (fileOf ks) (fileOf pre).length).map _ = _
            rw [hcut, hcount]
            rfl
          · cases hf
            exact htail

/-! ## The whole clean -/

/-- The lines that are not blank are kept or dropped. -/
theorem length_nonblank (lines : List Str) : (lines.filter nonblank).length =
    (lines.filter (keeps from_jsonl_str time_filter)).length +
      lines.countP (drops from_jsonl_str time_filter) := by
  induction lines with
  | nil => rfl
  | cons line lines ih =>
      rw [List.filter_cons, List.filter_cons, List.countP_cons, keeps, drops]
      cases nonblank line with
      | false => simpa using ih
      | true =>
          cases in_time from_jsonl_str time_filter line with
          | false =>
              simp only [if_true, Bool.and_false, Bool.false_eq_true, if_false, Bool.not_false,
                Bool.and_self, List.length_cons, ih]
              omega
          | true =>
              simp only [if_true, Bool.and_self, Bool.not_true, Bool.and_false, Bool.false_eq_true,
                if_false, List.length_cons, ih]
              omega

/-- Where all I/O succeeds the copy loop gets through a log that is UTF-8. -/
theorem copies_calm {ls : List Bytes} (h : ∀ l ∈ ls, (fromUtf8 l).isSome = true) :
    Copies from_jsonl_str time_filter .calm 0 ls :=
  ⟨fun _ _ => rfl, h, fun _ _ _ _ _ _ => rfl⟩

/-- What the loop has done after these lines. -/
theorem copied_calm {ls : List Bytes} (h : ∀ l ∈ ls, (fromUtf8 l).isSome = true) :
    copy_lines from_jsonl_str .calm time_filter ls 0 ⟨[], 0, 0, []⟩ =
      (true, (⟨[], 0, 0, []⟩ : Copied).add from_jsonl_str time_filter
        (ls.filterMap fun l => (fromUtf8 l).map chomp)) :=
  (copy_lines_ok ls 0 _).2 (copies_calm h)

/-- The copy of a whole log. -/
theorem copied_file (file : Bytes) :
    (⟨[], 0, 0, []⟩ : Copied).add from_jsonl_str time_filter (linesOf file) =
      ⟨fileOf (kept_lines from_jsonl_str time_filter file),
        (fileOf (kept_lines from_jsonl_str time_filter file)).length,
        (linesOf file).countP (drops from_jsonl_str time_filter),
        ((linesOf file).filter (drops from_jsonl_str time_filter)).filterMap fun line =>
          parse_log_line_jsonl from_jsonl_str (trim line)⟩ := by
  rw [Copied.add, Nat.zero_add, Nat.zero_add]
  rfl

/-- The clean of a log, with all I/O succeeding: some last lines of those to be kept are left. -/
theorem clean_calm {file : Bytes} (hutf8 : (fromUtf8 file).isSome = true) (log_file : PathBuf)
    (max_size : Option SizeFilter) (temp backup : Option Bytes) :
    ∃ pre post, kept_lines from_jsonl_str time_filter file = pre ++ post ∧
      trim_start (fileOf (kept_lines from_jsonl_str time_filter file)) max_size =
        (fileOf pre).length ∧
      (triggered max_size (fileOf (kept_lines from_jsonl_str time_filter file)).length = false →
        pre = []) ∧
      (∀ filter, max_size = some filter →
        should_trim (fileOf (kept_lines from_jsonl_str time_filter file)).length filter = true →
          TailOf (kept_lines from_jsonl_str time_filter file) (max_bytes filter) post) ∧
      ∀ dry_run, ∃ report,
        CleanDir.clean_single_log from_jsonl_str .calm time_filter log_file max_size dry_run
            ⟨.file file, temp, backup⟩ =
          (.ok report, if dry_run then ⟨.file file, none, backup⟩ else ⟨.file (fileOf post), none, none⟩) ∧
        report.kept_bytes = (fileOf post).length ∧ report.original_size = file.length ∧
        report.total_deleted =
          (linesOf file).countP (drops from_jsonl_str time_filter) + pre.length := by
  obtain ⟨pre, post, hks, htrim, hstart, hnone, htail⟩ := @trim_temp_calm
    (kept_lines from_jsonl_str time_filter file) newline_notMem_kept (temp_file log_file) max_size
  refine ⟨pre, post, hks, hstart, hnone, htail, fun dry_run => ?_⟩
  have hkept : (fileOf (kept_lines from_jsonl_str time_filter file)).length - (fileOf pre).length =
      (fileOf post).length := by
    rw [hks, fileOf_append, List.length_append, Nat.add_sub_cancel_left]
  have hcopied := @copied_calm from_jsonl_str time_filter _ (fromUtf8_splitLines hutf8)
  rw [show (splitLines file).filterMap (fun l => (fromUtf8 l).map chomp) = linesOf file from rfl,
    copied_file] at hcopied
  refine ⟨⟨if dry_run then
      ((linesOf file).filter (drops from_jsonl_str time_filter)).filterMap fun line =>
        parse_log_line_jsonl from_jsonl_str (trim line)
      else [], _, _, _⟩, ?_, rfl, rfl, rfl⟩
  rw [CleanDir.clean_single_log]
  show (if (copy_lines from_jsonl_str .calm time_filter (splitLines file) 0 ⟨[], 0, 0, []⟩).1 then _
    else _) = _
  rw [hcopied, if_pos rfl, CleanDir.finish]
  simp only [show ∀ bs, CleanIo.calm.flush bs = bs from fun _ => rfl, htrim, hkept]
  cases dry_run <;> rfl

/-! ## The clean without its calls -/

theorem keep_line_eq (line : Str) : CleanSys.keep_line from_jsonl_str time_filter line =
    if keeps from_jsonl_str time_filter line then [line] else [] := by
  rw [CleanSys.keep_line, keeps, nonblank, in_time]
  by_cases hblank : trim line = []
  · simp [hblank]
  · rw [if_neg hblank]
    cases parse_log_line_jsonl from_jsonl_str (trim line) <;> simp [hblank]

theorem copy_loop_kept : ∀ {ls : List Bytes}, (∀ l ∈ ls, (fromUtf8 l).isSome = true) →
    copy_loop from_jsonl_str time_filter ls =
      .ok ((ls.filterMap fun l => (fromUtf8 l).map chomp).filter (keeps from_jsonl_str time_filter)) := by
  intro ls
  induction ls with
  | nil =>
      intro _
      exact rfl
  | cons l ls ih =>
      intro h
      obtain ⟨s, hs⟩ := Option.isSome_iff_exists.1 (h l List.mem_cons_self)
      rw [copy_loop, hs, List.filterMap_cons, hs]
      simp only [ih fun k hk => h k (List.mem_cons_of_mem l hk), keep_line_eq, Option.map_some,
        List.filter_cons, Except.map]
      split <;> rfl

/-- **Both models of a clean agree**: with all I/O succeeding, what the calls leave under the log's
name is what the clean of its bytes says. -/
theorem clean_single_log_agrees {file : Bytes} (hutf8 : (fromUtf8 file).isSome = true)
    (log_file : PathBuf) (max_size : Option SizeFilter) (dry_run : Bool) (temp backup : Option Bytes) :
    ∃ after, clean_single_log from_jsonl_str file time_filter max_size dry_run = .ok after ∧
      (CleanDir.clean_single_log from_jsonl_str .calm time_filter log_file max_size dry_run
        ⟨.file file, temp, backup⟩).2.log = .file after := by
  obtain ⟨pre, post, hks, hstart, _, _, hrun⟩ :=
    @clean_calm from_jsonl_str time_filter file hutf8 log_file max_size temp backup
  obtain ⟨report, hreal, _⟩ := hrun dry_run
  have hkept : copy_loop from_jsonl_str time_filter (splitLines file) =
      .ok (kept_lines from_jsonl_str time_filter file) := copy_loop_kept (fromUtf8_splitLines hutf8)
  rw [clean_single_log, hkept, hreal]
  refine ⟨_, rfl, ?_⟩
  cases dry_run with
  | true => rfl
  | false =>
      simp only [Bool.false_eq_true, if_false]
      rw [hstart, hks, fileOf_append, List.drop_left]

/-! ## What it keeps -/

variable (from_jsonl_str time_filter) in
/-- A clean of the log `file`, with all I/O succeeding, reports `report` and leaves the lines `post`. -/
structure CleanExact (log_file : PathBuf) (max_size : Option SizeFilter) (d : CleanDir) (file : Bytes)
    (report : CleanReport) (pre post : List Str) : Prop where
  /-- Some last ones of the lines that are to be kept. -/
  suffix : kept_lines from_jsonl_str time_filter file = pre ++ post
  ok : (d.clean_single_log from_jsonl_str .calm time_filter log_file max_size false).1 = .ok report
  log : (d.clean_single_log from_jsonl_str .calm time_filter log_file max_size false).2.log =
    .file (fileOf post)
  /-- All of them, if no size limit is exceeded. -/
  whole : triggered max_size (fileOf (kept_lines from_jsonl_str time_filter file)).length = false →
    fileOf post = fileOf (kept_lines from_jsonl_str time_filter file)
  /-- The bytes are counted as they are written, -/
  counted : ∀ ls, ls <+: splitLines file →
    (copy_lines from_jsonl_str .calm time_filter ls 0 ⟨[], 0, 0, []⟩).2.kept_bytes =
      (copy_lines from_jsonl_str .calm time_filter ls 0 ⟨[], 0, 0, []⟩).2.written.length
  /-- not more are cut off than there are, -/
  fits : ∀ filter, max_size = some filter →
    find_tail_offset (fileOf (kept_lines from_jsonl_str time_filter file)) (max_bytes filter) ≤
      (fileOf (kept_lines from_jsonl_str time_filter file)).length
  /-- and what is left is reported. -/
  kept_bytes : report.kept_bytes = (fileOf post).length
  total : report.total_deleted + (fileOf post).count newline = ((linesOf file).filter nonblank).length
  dry : ∃ report',
    (d.clean_single_log from_jsonl_str .calm time_filter log_file max_size true).1 = .ok report' ∧
      report'.total_deleted = report.total_deleted ∧
      (d.clean_single_log from_jsonl_str .calm time_filter log_file max_size true).2.log = .file file

/-- **A clean keeps what it should**, and counts what it does not keep: for every log that is
UTF-8, and all filters. -/
theorem clean_exact {file : Bytes} (hutf8 : (fromUtf8 file).isSome = true) {d : CleanDir}
    (hlog : d.log = .file file) (log_file : PathBuf) (max_size : Option SizeFilter) :
    ∃ report pre post,
      CleanExact from_jsonl_str time_filter log_file max_size d file report pre post := by
  obtain ⟨log, temp, backup⟩ := d
  cases hlog
  obtain ⟨pre, post, hks, _, hwhole, _, hrun⟩ :=
    @clean_calm from_jsonl_str time_filter file hutf8 log_file max_size temp backup
  obtain ⟨report, hreal, hkept, _, htotal⟩ := hrun false
  obtain ⟨report', hdry, _, _, htotal'⟩ := hrun true
  have hpost : ∀ k ∈ post, '\n' ∉ k := by
    intro k hk
    exact newline_notMem_kept k (hks ▸ List.mem_append_right pre hk)
  refine ⟨report, pre, post, hks, by rw [hreal], by rw [hreal]; rfl, ?_, ?_, ?_, hkept, ?_,
    report', by rw [hdry], htotal'.trans htotal.symm, by rw [hdry]; rfl⟩
  · intro hno
    rw [hks, hwhole hno, List.nil_append]
  · intro ls hls
    have hlines : ∀ l ∈ ls, (fromUtf8 l).isSome = true := fun l hl =>
      fromUtf8_splitLines hutf8 l (hls.subset hl)
    rw [copied_calm hlines, Copied.add, Nat.zero_add, List.nil_append]
  · intro filter _
    obtain ⟨pre', post', hks', hoffset, _⟩ := @find_tail_offset_eq
      (kept_lines from_jsonl_str time_filter file) newline_notMem_kept (max_bytes filter)
    rw [hoffset, hks', fileOf_append, List.length_append]
    exact Nat.le_add_right ..
  · have hcount : (kept_lines from_jsonl_str time_filter file).length = pre.length + post.length := by
      rw [hks, List.length_append]
    rw [htotal, count_newline_fileOf hpost,
      @length_nonblank from_jsonl_str time_filter (linesOf file)]
    show _ = (kept_lines from_jsonl_str time_filter file).length + _
    omega

/-- Two lines, one of them blank; the limit is exceeded. -/
theorem clean_exact_two_lines : ∃ report pre post, CleanExact (fun _ => none) none [[0x61]]
    (some ⟨.gt, 1⟩) ⟨.file [0x61, 0x0D, 0x0A, 0x20, 0x0A], none, none⟩ [0x61, 0x0D, 0x0A, 0x20, 0x0A]
      report pre post :=
  clean_exact (by decide) rfl _ _

end

end Fsmon
