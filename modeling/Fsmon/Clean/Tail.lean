/-
# `Fsmon.Clean.Tail` — where the size limit cuts

`find_tail_offset` looks for a newline, backwards from the byte at which `max`
bytes are left, but not further than 4096 bytes, and then forwards.  Of a file
of lines it finds the end of a line.

    `Near lines max`       a proper tail of the lines has `max` bytes, or at most 4095 more
    `TailOf lines max`     the tail it keeps
    `find_tail_offset_eq`  it cuts a file of lines down to such a tail
    `find_tail_offset_checked`   the search with the panics of its arithmetic
    `find_tail_offset_boundary`  of any file, lines or not, it finds a line boundary
-/
import Fsmon.Clean
import Fsmon.Lib.Checked

namespace Fsmon

open Text

/-! ## The first and the last place of an element -/

theorem first_at {α : Type*} [DecidableEq α] {l : List α} {a : α} (h : a ∈ l) :
    l[l.idxOf a]? = some a ∧ ∀ i, i < l.idxOf a → l[i]? ≠ some a := by
  refine ⟨List.getElem?_idxOf h, fun i hi hat => ?_⟩
  have htaken : a ∈ l.take (i + 1) := by
    refine List.mem_of_getElem? (i := i) ?_
    rw [List.getElem?_take, if_pos (Nat.lt_succ_self i)]
    exact hat
  have hle := (List.mem_take_iff_idxOf_lt h).1 htaken
  omega

theorem last_at {α : Type*} [DecidableEq α] {l : List α} {a : α} (h : a ∈ l) :
    ∃ p, l.length - l.reverse.idxOf a = p + 1 ∧ l[p]? = some a ∧ ∀ i, p < i → l[i]? ≠ some a := by
  obtain ⟨hat, hfirst⟩ := first_at (List.mem_reverse.2 h)
  have hlt : l.reverse.idxOf a < l.length := by
    rw [← List.length_reverse]
    exact List.idxOf_lt_length_of_mem (List.mem_reverse.2 h)
  refine ⟨l.length - 1 - l.reverse.idxOf a, by omega, ?_, fun i hi hat' => ?_⟩
  · rwa [List.getElem?_reverse hlt] at hat
  · obtain ⟨hil, _⟩ := List.getElem?_eq_some_iff.1 hat'
    refine hfirst (l.length - 1 - i) (by omega) ?_
    rw [List.getElem?_reverse (by omega), show l.length - 1 - (l.length - 1 - i) = i by omega]
    exact hat'

/-! ## The search -/

/-- Where the search ends, in a file that is longer than `max`. -/
theorem find_tail_offset_cases {file : Bytes} {max : Nat} (h : max < file.length) :
    (∃ p, file.length - max ≤ p + 4096 ∧ p < file.length - max ∧ file[p]? = some newline ∧
        (∀ i, p < i → i < file.length - max → file[i]? ≠ some newline) ∧
        find_tail_offset file max = p + 1) ∨
      (∀ i, file.length - max ≤ i + 4096 → i < file.length - max → file[i]? ≠ some newline) ∧
        ((∃ q, file.length - max ≤ q ∧ file[q]? = some newline ∧
            (∀ i, file.length - max ≤ i → i < q → file[i]? ≠ some newline) ∧
            find_tail_offset file max = q + 1) ∨
          (∀ i, file.length - max ≤ i → file[i]? ≠ some newline) ∧
            find_tail_offset file max = file.length) := by
  rw [find_tail_offset, if_neg (Nat.not_le.2 h)]
  generalize htarget : file.length - max = target
  have hbefore : ∀ i, ((file.drop (target - 4096)).take (target - (target - 4096)))[i]? =
      if i < target - (target - 4096) then file[target - 4096 + i]? else none := by
    intro i
    rw [List.getElem?_take, List.getElem?_drop]
  simp only
  split
  · rename_i hmem
    obtain ⟨p, hp, hat, hlast⟩ := last_at hmem
    rw [hbefore, Option.ite_none_right_eq_some] at hat
    refine .inl ⟨target - 4096 + p, by omega, by omega, hat.2, fun i hi hlt hnl => ?_,
      by rw [hp, Nat.add_assoc]⟩
    refine hlast (i - (target - 4096)) (by omega) ?_
    rw [hbefore, if_pos (by omega), show target - 4096 + (i - (target - 4096)) = i by omega]
    exact hnl
  · rename_i hnone
    refine .inr ⟨fun i hi hlt hnl => hnone ?_, ?_⟩
    · refine List.mem_of_getElem? (i := i - (target - 4096)) ?_
      rw [hbefore, if_pos (by omega), show target - 4096 + (i - (target - 4096)) = i by omega]
      exact hnl
    · split
      · rename_i hmem
        obtain ⟨hat, hfirst⟩ := first_at hmem
        rw [List.getElem?_drop] at hat
        refine .inl ⟨target + (file.drop target).idxOf newline, Nat.le_add_right .., hat,
          fun i hi hlt hnl => ?_, rfl⟩
        refine hfirst (i - target) (by omega) ?_
        rw [List.getElem?_drop, show target + (i - target) = i by omega]
        exact hnl
      · rename_i hmem
        refine .inr ⟨fun i hi hnl => hmem ?_, rfl⟩
        refine List.mem_of_getElem? (i := i - target) ?_
        rw [List.getElem?_drop, show target + (i - target) = i by omega]
        exact hnl

/-! ## Ends of lines -/

@[simp] theorem fileOf_append (ks ls : List Str) : fileOf (ks ++ ls) = fileOf ks ++ fileOf ls :=
  List.flatMap_append

theorem fileOf_pos {ks : List Str} (h : ks ≠ []) : 0 < (fileOf ks).length := by
  cases ks with
  | nil => exact absurd rfl h
  | cons k ks =>
      rw [fileOf_cons, lineBytes, List.length_append, List.length_append, List.length_singleton]
      omega

/-- Before the end of a line there is a newline. -/
theorem newline_at_end {pre post : List Str} (h : pre ≠ []) :
    (fileOf (pre ++ post))[(fileOf pre).length - 1]? = some newline := by
  obtain ⟨init, k, rfl⟩ := List.eq_nil_or_concat pre |>.resolve_left h
  have hbytes : fileOf (init.concat k ++ post) =
      (fileOf init ++ encode k) ++ newline :: fileOf post := by
    simp [lineBytes]
  have hlength : (fileOf (init.concat k)).length - 1 = (fileOf init ++ encode k).length := by
    simp [lineBytes]
  rw [hbytes, hlength, List.getElem?_append_right (Nat.le_refl _), Nat.sub_self]
  rfl

/-- After a newline there is the end of a line. -/
theorem end_at_newline : ∀ {ks : List Str} {i : Nat}, (∀ k ∈ ks, '\n' ∉ k) →
    (fileOf ks)[i]? = some newline →
      ∃ pre post, ks = pre ++ post ∧ (fileOf pre).length = i + 1 := by
  intro ks
  induction ks with
  | nil =>
      intro i _ h
      cases h
  | cons k ks ih =>
      intro i hks h
      have hk := newline_notMem_encode (hks k List.mem_cons_self)
      have hlength : (lineBytes k).length = (encode k).length + 1 := by
        rw [lineBytes, List.length_append, List.length_singleton]
      rw [fileOf_cons] at h
      by_cases hi : i < (lineBytes k).length
      · -- the newline of the first line
        rw [List.getElem?_append_left hi, lineBytes] at h
        refine ⟨[k], ks, rfl, ?_⟩
        rw [fileOf_cons, fileOf_nil, List.append_nil, hlength]
        by_contra hne
        rw [List.getElem?_append_left (by omega)] at h
        exact hk (List.mem_of_getElem? h)
      · rw [List.getElem?_append_right (Nat.le_of_not_lt hi)] at h
        obtain ⟨pre, post, rfl, hpre⟩ := ih (fun l hl => hks l (List.mem_cons_of_mem k hl)) h
        refine ⟨k :: pre, post, rfl, ?_⟩
        rw [fileOf_cons, List.length_append, hpre]
        omega

/-! ## The tail that is kept -/

/-- Some tail of the lines, without the first, has `max` bytes or a few more: the search finds a
newline on its way back. -/
def Near (ks : List Str) (max : Nat) : Prop :=
  ∃ pre post, ks = pre ++ post ∧ pre ≠ [] ∧ max ≤ (fileOf post).length ∧
    (fileOf post).length ≤ max + 4095

/-- The tail of the lines that is kept for a limit of `max` bytes. -/
structure TailOf (ks : List Str) (max : Nat) (post : List Str) : Prop where
  /-- All of them, if they are within the limit. -/
  whole : (fileOf ks).length ≤ max → post = ks
  /-- The shortest tail that has `max` bytes. -/
  near : max < (fileOf ks).length → Near ks max → max ≤ (fileOf post).length ∧
    ∀ pre' post', ks = pre' ++ post' → max ≤ (fileOf post').length →
      (fileOf post).length ≤ (fileOf post').length
  /-- The longest tail that has fewer. -/
  far : max < (fileOf ks).length → ¬ Near ks max → (fileOf post).length < max ∧
    ∀ pre' post', ks = pre' ++ post' → (fileOf post').length < max →
      (fileOf post').length ≤ (fileOf post).length

/-- **The size limit cuts between two lines**, and keeps such a tail. -/
theorem find_tail_offset_eq {ks : List Str} (h : ∀ k ∈ ks, '\n' ∉ k) (max : Nat) :
    ∃ pre post, ks = pre ++ post ∧ find_tail_offset (fileOf ks) max = (fileOf pre).length ∧
      TailOf ks max post := by
  by_cases hlong : (fileOf ks).length ≤ max
  · refine ⟨[], ks, rfl, by rw [find_tail_offset, if_pos hlong]; rfl, fun _ => rfl, ?_, ?_⟩
    · intro hlt
      exact absurd hlong (Nat.not_le.2 hlt)
    · intro hlt
      exact absurd hlong (Nat.not_le.2 hlt)
  have hlt := Nat.lt_of_not_le hlong
  -- a tail ends the file, and it begins behind a newline
  have htails : ∀ pre post, ks = pre ++ post →
      (fileOf ks).length = (fileOf pre).length + (fileOf post).length ∧
        (pre ≠ [] → (fileOf ks)[(fileOf pre).length - 1]? = some newline) := by
    rintro pre post rfl
    rw [fileOf_append, List.length_append, ← fileOf_append]
    exact ⟨rfl, newline_at_end⟩
  rcases find_tail_offset_cases hlt with ⟨p, hback, hp, hat, hlast, heq⟩ | ⟨hnone, hforward⟩
  · obtain ⟨pre, post, hks, hpre⟩ := end_at_newline h hat
    obtain ⟨hlength, _⟩ := htails pre post hks
    have hne : pre ≠ [] := by
      rintro rfl
      cases hpre
    refine ⟨pre, post, hks, heq.trans hpre.symm, fun hle => absurd hle hlong, fun _ _ => ?_, ?_⟩
    · refine ⟨by omega, fun pre' post' hks' hmax => ?_⟩
      obtain ⟨hlength', hend⟩ := htails pre' post' hks'
      by_contra hshorter
      have hne' : pre' ≠ [] := by
        rintro rfl
        rw [fileOf_nil, List.length_nil] at hlength'
        omega
      exact hlast ((fileOf pre').length - 1) (by omega) (by omega) (hend hne')
    · intro _ hfar
      exact absurd ⟨pre, post, hks, hne, by omega, by omega⟩ hfar
  · have hfar : ¬ Near ks max := by
      rintro ⟨pre, post, hks, hne, hmax, hnear⟩
      obtain ⟨hlength, hend⟩ := htails pre post hks
      have hpos := fileOf_pos hne
      exact hnone ((fileOf pre).length - 1) (by omega) (by omega) (hend hne)
    rcases hforward with ⟨q, hq, hat, hfirst, heq⟩ | ⟨hnothing, heq⟩
    · obtain ⟨pre, post, hks, hpre⟩ := end_at_newline h hat
      obtain ⟨hlength, _⟩ := htails pre post hks
      refine ⟨pre, post, hks, heq.trans hpre.symm, fun hle => absurd hle hlong,
        fun _ hnear => absurd hnear hfar, fun _ _ => ⟨by omega, fun pre' post' hks' hmax => ?_⟩⟩
      obtain ⟨hlength', hend⟩ := htails pre' post' hks'
      by_contra hlonger
      have hne' : pre' ≠ [] := by
        rintro rfl
        rw [fileOf_nil, List.length_nil] at hlength'
        omega
      exact hfirst ((fileOf pre').length - 1) (by omega) (by omega) (hend hne')
    · -- the file ends in a newline
      exfalso
      have hne : ks ≠ [] := by
        rintro rfl
        exact Nat.not_lt_zero _ hlt
      obtain ⟨_, hend⟩ := htails ks [] (List.append_nil ks).symm
      by_cases hmax : max = 0
      · exact hnone ((fileOf ks).length - 1) (by omega) (by omega) (hend hne)
      · exact hnothing ((fileOf ks).length - 1) (by omega) (hend hne)

/-! ## Any bytes -/

/-- `buf.iter().position(|&b| b == b'\n')`. -/
def position (buf : Bytes) : Option Nat :=
  if newline ∈ buf then some (buf.idxOf newline) else none

/-- `buf.iter().rposition(|&b| b == b'\n')`. -/
def rposition (buf : Bytes) : Option Nat :=
  if newline ∈ buf then some (buf.length - 1 - buf.reverse.idxOf newline) else none

/-- The scan from `scan_start`, and the two searches from `target`. -/
def scan_tail (file : Bytes) (target scan_start : Nat) : Option Nat := do
  let scan_len ← Checked.sub file.length scan_start
  -- `read_exact` after the `seek`
  let buf ← Checked.slice file scan_start (scan_start + scan_len)
  let target_rel ← Checked.sub target scan_start
  let before ← Checked.slice buf 0 target_rel
  let behind ← Checked.slice buf target_rel buf.length
  match rposition before, position behind with
  | some pos, _ => (Checked.add scan_start pos).bind fun at_nl => Checked.add at_nl 1
  | none, some pos => (Checked.add target pos).bind fun at_nl => Checked.add at_nl 1
  | none, none => some file.length

/-- `find_tail_offset` with every difference, sum, slice and read that must be in range. -/
def find_tail_offset_checked (file : Bytes) (max_bytes : Nat) : Option Nat :=
  if file.length ≤ max_bytes then some 0
  else do
    let target ← Checked.sub file.length max_bytes
    -- `saturating_sub`
    scan_tail file target (target - 4096)

/-- The scan is in range, wherever it starts. -/
theorem scan_tail_eq {file : Bytes} (hlen : file.length ≤ Checked.USIZE_MAX) {target scan_start : Nat}
    (hstart : scan_start ≤ target) (htarget : target ≤ file.length) :
    scan_tail file target scan_start = some
      (if newline ∈ (file.drop scan_start).take (target - scan_start) then
        scan_start + (((file.drop scan_start).take (target - scan_start)).length -
          ((file.drop scan_start).take (target - scan_start)).reverse.idxOf newline)
      else if newline ∈ file.drop target then target + (file.drop target).idxOf newline + 1
      else file.length) := by
  have hbuf : Checked.slice file scan_start (scan_start + (file.length - scan_start)) =
      some (file.drop scan_start) := by
    rw [Checked.slice_of_le (by omega) (by omega), Nat.add_sub_cancel_left, ← List.length_drop,
      List.take_length]
  have hrel : target - scan_start ≤ (file.drop scan_start).length := by
    rw [List.length_drop]
    omega
  have hbehind : (file.drop scan_start).drop (target - scan_start) = file.drop target := by
    rw [List.drop_drop, Nat.add_sub_cancel' hstart]
  have htail : (file.drop target).take ((file.drop scan_start).length - (target - scan_start)) =
      file.drop target := by
    refine List.take_of_length_le ?_
    rw [List.length_drop, List.length_drop]
    omega
  simp only [scan_tail, Option.bind_eq_bind, Option.bind_some, hbuf, Checked.sub_of_le hstart,
    Checked.sub_of_le (Nat.le_trans hstart htarget), Checked.slice_of_le (Nat.zero_le _) hrel,
    Checked.slice_of_le hrel (Nat.le_refl _), List.drop_zero, Nat.sub_zero, hbehind, htail]
  generalize hbefore : (file.drop scan_start).take (target - scan_start) = before
  have hlength : before.length = target - scan_start := by
    rw [← hbefore, List.length_take]
    omega
  rw [rposition, position]
  by_cases hmem : newline ∈ before
  · have hidx : before.reverse.idxOf newline < before.length := by
      rw [← List.length_reverse]
      exact List.idxOf_lt_length_of_mem (List.mem_reverse.2 hmem)
    simp only [if_pos hmem]
    rw [Checked.add_of_le (by omega), Option.bind_some, Checked.add_of_le (by omega), Nat.add_assoc,
      show before.length - 1 - before.reverse.idxOf newline + 1 =
        before.length - before.reverse.idxOf newline by omega]
  simp only [if_neg hmem]
  by_cases hafter : newline ∈ file.drop target
  · have hidx := List.idxOf_lt_length_of_mem hafter
    rw [List.length_drop] at hidx
    simp only [if_pos hafter]
    rw [Checked.add_of_le (by omega), Option.bind_some, Checked.add_of_le (by omega)]
  · simp only [if_neg hafter]

/-- Its arithmetic is in range. -/
theorem find_tail_offset_checked_eq {file : Bytes} (hlen : file.length ≤ Checked.USIZE_MAX)
    (max : Nat) : find_tail_offset_checked file max = some (find_tail_offset file max) := by
  rw [find_tail_offset_checked, find_tail_offset]
  by_cases hlong : file.length ≤ max
  · rw [if_pos hlong, if_pos hlong]
  · rw [if_neg hlong, if_neg hlong, Checked.sub_of_le (Nat.le_of_not_le hlong), Option.bind_eq_bind,
      Option.bind_some, scan_tail_eq hlen (Nat.sub_le _ _) (Nat.sub_le _ _)]

/-- **A line boundary near the limit.**  The arithmetic is in range; the result is the start of
the file, its end, or a place behind a newline; what it keeps is the whole of a file within the
limit, and of a longer one less than `max_bytes + 4096` bytes.  The length of a file is a `usize`. -/
theorem find_tail_offset_boundary (file : Bytes) (hlen : file.length ≤ Checked.USIZE_MAX)
    (max_bytes : Nat) :
    ∃ offset, find_tail_offset_checked file max_bytes = some offset ∧
      (offset = 0 ∨ offset = file.length ∨ 0 < offset ∧ file[offset - 1]? = some newline) ∧
      offset ≤ file.length ∧
      (file.length ≤ max_bytes → offset = 0) ∧
      (max_bytes < file.length → file.length - offset < max_bytes + 4096) := by
  refine ⟨_, find_tail_offset_checked_eq hlen max_bytes, ?_⟩
  rcases Nat.lt_or_ge max_bytes file.length with hlong | hshort
  · have hnewline : ∀ {p : Nat}, file[p]? = some newline → p < file.length :=
      fun h => (List.getElem?_eq_some_iff.1 h).1
    rcases find_tail_offset_cases hlong with
      ⟨p, hback, _, hat, _, heq⟩ | ⟨_, ⟨q, hq, hat, _, heq⟩ | ⟨_, heq⟩⟩
    · have hp := hnewline hat
      rw [heq]
      exact ⟨.inr (.inr ⟨Nat.succ_pos p, hat⟩), by omega, by omega, by omega⟩
    · have hq' := hnewline hat
      rw [heq]
      exact ⟨.inr (.inr ⟨Nat.succ_pos q, hat⟩), by omega, by omega, by omega⟩
    · rw [heq]
      exact ⟨.inr (.inl rfl), Nat.le_refl _, by omega, by omega⟩
  · have hzero : find_tail_offset file max_bytes = 0 := if_pos hshort
    rw [hzero]
    exact ⟨.inl rfl, Nat.zero_le _, fun _ => rfl, by omega⟩

/-- Three records and a limit inside the second. -/
theorem find_tail_offset_boundary_records :
    ∃ offset, find_tail_offset_checked [97, 10, 98, 99, 10, 100, 10] 4 = some offset ∧
      (offset = 0 ∨ offset = 7 ∨ 0 < offset ∧ [97, 10, 98, 99, 10, 100, 10][offset - 1]? = some newline) ∧
      offset ≤ 7 ∧ (7 ≤ 4 → offset = 0) ∧ (4 < 7 → 7 - offset < 4 + 4096) :=
  find_tail_offset_boundary [97, 10, 98, 99, 10, 100, 10] (by decide) 4

end Fsmon
