/-
# `Fsmon.Clean.Limit` — how much a size limit leaves, and what cleaning again does

A limit of `max` bytes leaves about `max` bytes: the cut is made at the end of a
line, before the limit if there is one in reach, else after it.

    `cleaned`             the files after a clean with a size limit, all I/O succeeding
    `Limited`             the log after one such clean, after a second, and after a third
    `cleaned_to_about`    every clean that the limit triggers is so
    `cleaned_above_limit` a log that is longer than the limit afterwards
-/
import Fsmon.Clean.Kept

namespace Fsmon

open Text Query

section
variable (from_jsonl_str : Str → Option FileEvent) (time_filter : Option TimeFilter)

/-- The files after a clean with a size limit, all I/O succeeding. -/
def CleanDir.cleaned (log_file : PathBuf) (filter : SizeFilter) (d : CleanDir) : CleanDir :=
  (d.clean_single_log from_jsonl_str .calm time_filter log_file (some filter) false).2

/-- The clean of the log `file` leaves the lines `post`. -/
structure Limited (log_file : PathBuf) (filter : SizeFilter) (d : CleanDir) (file : Bytes)
    (pre post : List Str) : Prop where
  suffix : kept_lines from_jsonl_str time_filter file = pre ++ post
  log : (d.cleaned from_jsonl_str time_filter log_file filter).log = .file (fileOf post)
  /-- The cut is made at the end of a line, as near the limit as the search goes. -/
  tail : TailOf (kept_lines from_jsonl_str time_filter file) (max_bytes filter) post
  about : (fileOf post).length ≤ max_bytes filter + 4095
  /-- Another clean finds each line in time; it does without a carriage return at its end. -/
  again : kept_lines from_jsonl_str time_filter (fileOf post) = post.map strip_cr
  /-- Without such lines it removes one line if the log is longer than the limit, and nothing if
  it is not; -/
  second : (∀ k ∈ post, k.getLast? ≠ some '\r') →
    ((d.cleaned from_jsonl_str time_filter log_file filter).cleaned from_jsonl_str time_filter
      log_file filter).log =
        .file (fileOf (if (fileOf post).length ≤ max_bytes filter then post else post.tail))
  shorter : max_bytes filter < (fileOf post).length → (fileOf post.tail).length < max_bytes filter
  /-- and a third removes nothing. -/
  third : (∀ k ∈ post, k.getLast? ≠ some '\r') →
    (((d.cleaned from_jsonl_str time_filter log_file filter).cleaned from_jsonl_str time_filter
      log_file filter).cleaned from_jsonl_str time_filter log_file filter).log =
        ((d.cleaned from_jsonl_str time_filter log_file filter).cleaned from_jsonl_str time_filter
          log_file filter).log

end

/-! ## Tails of lines -/

theorem TailOf.le {ks post : List Str} {max : Nat} (h : TailOf ks max post) :
    (fileOf post).length ≤ max + 4095 := by
  by_cases hlong : (fileOf ks).length ≤ max
  · rw [h.whole hlong]
    exact Nat.le_add_right_of_le hlong
  · by_cases hnear : Near ks max
    · obtain ⟨pre', post', hks, _, hmax, hle⟩ := hnear
      exact Nat.le_trans ((h.near (Nat.lt_of_not_le hlong) ⟨pre', post', hks, ‹_›, hmax, hle⟩).2
        pre' post' hks hmax) hle
    · have hlt := (h.far (Nat.lt_of_not_le hlong) hnear).1
      omega

/-- A tail that is longer than the limit is the shortest that has so many bytes. -/
theorem TailOf.shortest {ks post : List Str} {max : Nat} (h : TailOf ks max post)
    (hlong : max < (fileOf post).length) (hle : (fileOf post).length ≤ (fileOf ks).length) :
    ∀ pre' post', ks = pre' ++ post' → max ≤ (fileOf post').length →
      (fileOf post).length ≤ (fileOf post').length := by
  have hks : max < (fileOf ks).length := by omega
  by_cases hnear : Near ks max
  · exact (h.near hks hnear).2
  · have hlt := (h.far hks hnear).1
    omega

/-- Cutting such a tail again takes its first line away. -/
theorem TailOf.twice {ks pre post pre₂ post₂ : List Str} {max : Nat} (hks : ks = pre ++ post)
    (h : TailOf ks max post) (hlong : max < (fileOf post).length) (hpost : post = pre₂ ++ post₂)
    (h₂ : TailOf post max post₂) : post₂ = post.tail ∧ (fileOf post.tail).length < max := by
  have hbytes : (fileOf ks).length = (fileOf pre).length + (fileOf post).length := by
    rw [hks, fileOf_append, List.length_append]
  have hshortest := h.shortest hlong (by omega)
  -- a proper tail of it is within the limit
  have hproper : ∀ pre' post', post = pre' ++ post' → pre' ≠ [] → (fileOf post').length < max := by
    intro pre' post' heq hne
    by_contra hmax
    have hle := hshortest (pre ++ pre') post' (by rw [hks, heq, List.append_assoc])
      (Nat.le_of_not_lt hmax)
    rw [heq, fileOf_append, List.length_append] at hle
    have hpos := fileOf_pos hne
    omega
  cases post with
  | nil => exact absurd hlong (Nat.not_lt_zero _)
  | cons k rest =>
      have htail : (fileOf rest).length < max := hproper [k] rest rfl (List.cons_ne_nil k [])
      have hfar : ¬ Near (k :: rest) max := by
        rintro ⟨pre', post', heq, hne, hmax, _⟩
        exact absurd (hproper pre' post' heq hne) (Nat.not_lt.2 hmax)
      obtain ⟨hlt, hlongest⟩ := h₂.far hlong hfar
      refine ⟨?_, htail⟩
      cases pre₂ with
      | nil =>
          rw [List.nil_append] at hpost
          rw [← hpost] at hlt
          omega
      | cons k' pre₂ =>
          rw [List.cons_append, List.cons.injEq] at hpost
          have hle := hlongest [k] rest rfl htail
          rw [hpost.2, fileOf_append, List.length_append] at hle
          have hnil : pre₂ = [] := by
            by_contra hne
            have hpos := fileOf_pos hne
            omega
          rw [List.tail_cons, hpost.2, hnil, List.nil_append]

/-! ## Reading the lines again -/

theorem fromUtf8_fileOf (ks : List Str) : (fromUtf8 (fileOf ks)).isSome = true := by
  have hencode : fileOf ks = encode (ks.flatMap (· ++ ['\n'])) := by
    induction ks with
    | nil => rfl
    | cons k ks ih => rw [fileOf_cons, ih, lineBytes_eq, List.flatMap_cons, ← encode_append]
  rw [hencode, fromUtf8_encode]
  rfl

section
variable {from_jsonl_str : Str → Option FileEvent} {time_filter : Option TimeFilter}

/-- A carriage return at the end of a line is blank. -/
theorem keeps_strip_cr (line : Str) : keeps from_jsonl_str time_filter (strip_cr line) =
    keeps from_jsonl_str time_filter line := by
  have htrim : trim (strip_cr line) = trim line := by
    rw [strip_cr, trim_chomp, trim_append_blank (by decide)]
  rw [keeps, keeps, nonblank, nonblank, in_time, in_time, htrim]

theorem kept_again {ks : List Str} (h : ∀ k ∈ ks, '\n' ∉ k)
    (hkeeps : ∀ k ∈ ks, keeps from_jsonl_str time_filter k = true) :
    kept_lines from_jsonl_str time_filter (fileOf ks) = ks.map strip_cr := by
  rw [kept_lines, linesOf_fileOf h]
  refine List.filter_eq_self.2 fun k hk => ?_
  obtain ⟨line, hline, rfl⟩ := List.mem_map.1 hk
  exact (keeps_strip_cr line).trans (hkeeps line hline)

theorem map_strip_cr {ks : List Str} (h : ∀ k ∈ ks, k.getLast? ≠ some '\r') :
    ks.map strip_cr = ks := by
  have hsame : ∀ k ∈ ks, strip_cr k = id k := by
    intro k hk
    rcases strip_cr_eq k with ⟨t, rfl, _⟩ | ⟨_, hk'⟩
    · exact absurd (by simp) (h _ hk)
    · exact hk'
  rw [List.map_congr_left hsame, List.map_id]

/-! ## Cleaning again -/

variable {log_file : PathBuf} {filter : SizeFilter}

/-- The limits that are lower bounds of what is too long. -/
theorem should_trim_bounds (hop : filter.op = .gt ∨ filter.op = .ge) (n : Nat) :
    (should_trim n filter = true → max_bytes filter ≤ n) ∧
      (max_bytes filter < n → should_trim n filter = true) := by
  rw [should_trim, ← max_bytes]
  rcases hop with hop | hop
  · simp only [hop, decide_eq_true_eq]
    exact ⟨Nat.le_of_lt, id⟩
  · simp only [hop, decide_eq_true_eq]
    exact ⟨id, Nat.le_of_lt⟩

/-- A clean of lines that are all kept. -/
theorem cleaned_lines {ks : List Str} (h : ∀ k ∈ ks, '\n' ∉ k)
    (hkeeps : ∀ k ∈ ks, keeps from_jsonl_str time_filter k = true)
    (hcr : ∀ k ∈ ks, k.getLast? ≠ some '\r') {d : CleanDir} (hlog : d.log = .file (fileOf ks)) :
    ∃ pre post, ks = pre ++ post ∧
      (d.cleaned from_jsonl_str time_filter log_file filter).log = .file (fileOf post) ∧
      (should_trim (fileOf ks).length filter = false → pre = []) ∧
      (should_trim (fileOf ks).length filter = true → TailOf ks (max_bytes filter) post) := by
  obtain ⟨log, temp, backup⟩ := d
  cases hlog
  have hsame : kept_lines from_jsonl_str time_filter (fileOf ks) = ks :=
    (kept_again h hkeeps).trans (map_strip_cr hcr)
  obtain ⟨pre, post, hks, _, hwhole, htail, hrun⟩ := @clean_calm from_jsonl_str time_filter
    (fileOf ks) (fromUtf8_fileOf ks) log_file (some filter) temp backup
  rw [hsame] at hks hwhole htail
  obtain ⟨report, hreal, _⟩ := hrun false
  exact ⟨pre, post, hks, by rw [CleanDir.cleaned, hreal]; rfl, hwhole, htail filter rfl⟩

/-- What is within the limit stays. -/
theorem cleaned_settled {ks : List Str} (h : ∀ k ∈ ks, '\n' ∉ k)
    (hkeeps : ∀ k ∈ ks, keeps from_jsonl_str time_filter k = true)
    (hcr : ∀ k ∈ ks, k.getLast? ≠ some '\r') (hle : (fileOf ks).length ≤ max_bytes filter)
    {d : CleanDir} (hlog : d.log = .file (fileOf ks)) :
    (d.cleaned from_jsonl_str time_filter log_file filter).log = .file (fileOf ks) := by
  obtain ⟨pre, post, hks, hafter, hwhole, htail⟩ :=
    @cleaned_lines from_jsonl_str time_filter log_file filter ks h hkeeps hcr d hlog
  rw [hafter]
  cases htrim : should_trim (fileOf ks).length filter with
  | true => rw [(htail htrim).whole hle]
  | false => rw [hks, hwhole htrim, List.nil_append]

/-- **What a size limit leaves**: about as many bytes as it says, and after one more clean not more. -/
theorem cleaned_to_about {file : Bytes} (hutf8 : (fromUtf8 file).isSome = true) {d : CleanDir}
    (hlog : d.log = .file file) (log_file : PathBuf) {filter : SizeFilter}
    (hop : filter.op = .gt ∨ filter.op = .ge)
    (htrim : should_trim (fileOf (kept_lines from_jsonl_str time_filter file)).length filter = true) :
    ∃ pre post, Limited from_jsonl_str time_filter log_file filter d file pre post := by
  obtain ⟨log, temp, backup⟩ := d
  cases hlog
  obtain ⟨pre, post, hks, _, _, htail, hrun⟩ := @clean_calm from_jsonl_str time_filter file hutf8
    log_file (some filter) temp backup
  obtain ⟨report, hreal, _⟩ := hrun false
  have htail := htail filter rfl htrim
  have hpost : ∀ k ∈ post, k ∈ kept_lines from_jsonl_str time_filter file := fun k hk =>
    hks ▸ List.mem_append_right pre hk
  have hnewline : ∀ k ∈ post, '\n' ∉ k := fun k hk => newline_notMem_kept k (hpost k hk)
  have hkeeps : ∀ k ∈ post, keeps from_jsonl_str time_filter k = true := fun k hk =>
    (List.mem_filter.1 (hpost k hk)).2
  have hcleaned : (CleanDir.cleaned from_jsonl_str time_filter log_file filter
      ⟨.file file, temp, backup⟩).log = .file (fileOf post) := by
    rw [CleanDir.cleaned, hreal]
    rfl
  have hshorter : max_bytes filter < (fileOf post).length →
      (fileOf post.tail).length < max_bytes filter := by
    intro hlong
    obtain ⟨pre₂, post₂, hpost₂, _, htail₂⟩ := find_tail_offset_eq hnewline (max_bytes filter)
    exact (TailOf.twice hks htail hlong hpost₂ htail₂).2
  have hsecond : (∀ k ∈ post, k.getLast? ≠ some '\r') →
      ((CleanDir.cleaned from_jsonl_str time_filter log_file filter
        ⟨.file file, temp, backup⟩).cleaned from_jsonl_str time_filter log_file filter).log =
          .file (fileOf (if (fileOf post).length ≤ max_bytes filter then post else post.tail)) := by
    intro hcr
    by_cases hle : (fileOf post).length ≤ max_bytes filter
    · rw [if_pos hle]
      exact cleaned_settled hnewline hkeeps hcr hle hcleaned
    · rw [if_neg hle]
      have hlong := Nat.lt_of_not_le hle
      obtain ⟨pre₂, post₂, hpost₂, hafter, _, htail₂⟩ := @cleaned_lines from_jsonl_str time_filter
        log_file filter post hnewline hkeeps hcr _ hcleaned
      have hagain := htail₂ ((should_trim_bounds hop _).2 hlong)
      rw [hafter, (TailOf.twice hks htail hlong hpost₂ hagain).1]
  refine ⟨pre, post, hks, hcleaned, htail, htail.le, kept_again hnewline hkeeps, hsecond, hshorter,
    fun hcr => ?_⟩
  rw [hsecond hcr]
  have hsub : (if (fileOf post).length ≤ max_bytes filter then post else post.tail) ⊆ post := by
    split
    · exact List.Subset.refl post
    · exact List.tail_subset post
  refine cleaned_settled (fun k hk => hnewline k (hsub hk)) (fun k hk => hkeeps k (hsub hk))
    (fun k hk => hcr k (hsub hk)) ?_ (hsecond hcr)
  split
  · assumption
  · exact Nat.le_of_lt (hshorter (Nat.lt_of_not_le ‹_›))

end

/-- `aaaa` and `bbbb`, five bytes each with their newlines. -/
def twoLines : Bytes := [0x61, 0x61, 0x61, 0x61, 0x0A, 0x62, 0x62, 0x62, 0x62, 0x0A]

/-- A limit of three bytes. -/
theorem cleaned_to_about_three : ∃ pre post, Limited (fun _ => none) none [[0x61]] ⟨.gt, 3⟩
    ⟨.file twoLines, none, none⟩ twoLines pre post :=
  cleaned_to_about (by decide) rfl _ (.inl rfl) (by decide)

/-- The limit of three bytes leaves five, and a second clean removes them, too. -/
theorem cleaned_above_limit :
    ¬ (∀ content, (CleanDir.cleaned (fun _ => none) none [[0x61]] ⟨.gt, 3⟩
        ⟨.file twoLines, none, none⟩).log = .file content → content.length ≤ 3) ∧
      ((CleanDir.cleaned (fun _ => none) none [[0x61]] ⟨.gt, 3⟩
        ⟨.file twoLines, none, none⟩).cleaned (fun _ => none) none [[0x61]] ⟨.gt, 3⟩).log ≠
        (CleanDir.cleaned (fun _ => none) none [[0x61]] ⟨.gt, 3⟩ ⟨.file twoLines, none, none⟩).log := by
  have hfirst : (CleanDir.cleaned (fun _ => none) none [[0x61]] ⟨.gt, 3⟩
      ⟨.file twoLines, none, none⟩).log = .file [0x62, 0x62, 0x62, 0x62, 0x0A] := rfl
  have hsecond : ((CleanDir.cleaned (fun _ => none) none [[0x61]] ⟨.gt, 3⟩
      ⟨.file twoLines, none, none⟩).cleaned (fun _ => none) none [[0x61]] ⟨.gt, 3⟩).log = .file [] := rfl
  rw [hsecond, hfirst]
  refine ⟨fun hlimit => ?_, fun hsame => by cases hsame⟩
  exact absurd (hlimit _ rfl) (by decide)

end Fsmon
