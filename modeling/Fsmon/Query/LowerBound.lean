/-
# `Fsmon.Query.LowerBound` — the search by bytes is a search by lines

A plain log is ASCII, its lines fit the scan-back window and hold one event each,
and the events are in the order of their times.  On it the bisection over byte
offsets returns the byte at which the first line at or after `since` starts.

    Plain       what the search needs of a log
    FirstAt     the offset it is to return
    find_first_event_after_first

The lines before the first one at or after `since` are those `lineTooEarly` takes
from the front (`List.takeWhile`); what `find_first_event_after_plain` asks of the
others is what the order of the times says (`late_of_sorted`).
-/
import Fsmon.Query

namespace Fsmon.Query

open Text

variable (from_jsonl_str : Str → Option FileEvent)

/-- A log of ASCII lines, short enough to be scanned back over, with one event each, in the order of
their times.  The last line may be without its newline. -/
structure Plain (file : Bytes) : Prop where
  ascii : isAscii file
  short : ∀ l ∈ splitLines file, l.length ≤ SCAN_BACK_BYTES
  parse : ∀ l ∈ splitLines file, (lineEvent from_jsonl_str l).isSome
  sorted : (events from_jsonl_str file).Pairwise fun a b => a.time ≤ b.time

/-- Where the first line at or after `since` starts; the length of the file, if there is none. -/
inductive FirstAt (file : Bytes) (since : Int) : Nat → Prop
  | line {pre post : List Bytes} {l : Bytes} {e : FileEvent} :
      splitLines file = pre ++ l :: post → lineEvent from_jsonl_str l = some e → since ≤ e.time →
      (∀ k ∈ pre, ∀ d, lineEvent from_jsonl_str k = some d → d.time < since) →
      FirstAt file since pre.flatten.length
  | none : (∀ e ∈ events from_jsonl_str file, e.time < since) → FirstAt file since file.length

section
variable {from_jsonl_str}

theorem lineTooEarly_some {since : Int} {l : Bytes} {e : FileEvent}
    (h : lineEvent from_jsonl_str l = some e) :
    lineTooEarly from_jsonl_str since l = decide (e.time < since) := by
  rw [lineTooEarly, h]

/-- What is left after the early lines is late, if the times are in order. -/
theorem late_of_sorted {since : Int} : ∀ {ls : List Bytes},
    (∀ l ∈ ls, (lineEvent from_jsonl_str l).isSome) →
    (ls.filterMap (lineEvent from_jsonl_str)).Pairwise (fun a b => a.time ≤ b.time) →
    ∀ l ∈ ls.dropWhile (lineTooEarly from_jsonl_str since),
      lineTooEarly from_jsonl_str since l = false := by
  intro ls
  induction ls with
  | nil =>
      intro _ _ l hl
      cases hl
  | cons k ls ih =>
      intro hparse hsorted
      obtain ⟨e, he⟩ := Option.isSome_iff_exists.1 (hparse k List.mem_cons_self)
      rw [List.filterMap_cons_some he, List.pairwise_cons] at hsorted
      have hparse : ∀ l ∈ ls, (lineEvent from_jsonl_str l).isSome := fun l hl =>
        hparse l (List.mem_cons_of_mem k hl)
      by_cases hearly : e.time < since
      · rw [List.dropWhile_cons_of_pos (by rw [lineTooEarly_some he, decide_eq_true hearly])]
        exact ih hparse hsorted.2
      · rw [List.dropWhile_cons_of_neg (by rw [lineTooEarly_some he, decide_eq_false hearly]; simp)]
        intro l hl
        rcases List.mem_cons.1 hl with rfl | hl
        · rw [lineTooEarly_some he, decide_eq_false hearly]
        · -- a line after the first late one is no earlier
          obtain ⟨d, hd⟩ := Option.isSome_iff_exists.1 (hparse l hl)
          have hle := hsorted.1 d (List.mem_filterMap.2 ⟨l, hl, hd⟩)
          rw [lineTooEarly_some hd, decide_eq_false (by omega)]

/-- The end of the early lines is where the first late one starts. -/
theorem firstAt_of_split {file : Bytes} {since : Int} {early late : List Bytes}
    (hsplit : splitLines file = early ++ late)
    (hparse : ∀ l ∈ splitLines file, (lineEvent from_jsonl_str l).isSome)
    (hearly : ∀ l ∈ early, lineTooEarly from_jsonl_str since l = true)
    (hlate : ∀ l ∈ late, lineTooEarly from_jsonl_str since l = false) :
    FirstAt from_jsonl_str file since early.flatten.length := by
  have hbefore : ∀ k ∈ early, ∀ d, lineEvent from_jsonl_str k = some d → d.time < since := by
    intro k hk d hd
    have htrue := hearly k hk
    rw [lineTooEarly_some hd] at htrue
    exact of_decide_eq_true htrue
  cases late with
  | nil =>
      rw [List.append_nil] at hsplit
      have hlen : early.flatten.length = file.length := by
        rw [← hsplit, splitLines_flatten]
      rw [hlen]
      refine .none fun e he => ?_
      obtain ⟨k, hk, hd⟩ := List.mem_filterMap.1 he
      exact hbefore k (hsplit ▸ hk) e hd
  | cons l late =>
      obtain ⟨e, he⟩ := Option.isSome_iff_exists.1 (hparse l (by rw [hsplit]; simp))
      have hfalse := hlate l List.mem_cons_self
      rw [lineTooEarly_some he] at hfalse
      exact .line hsplit he (Int.not_lt.1 (of_decide_eq_false hfalse)) hbefore

/-- **An exact lower bound.**  On a plain log the search ends, with the byte at which the first line
at or after `since` starts, or with the length of the file. -/
theorem find_first_event_after_first {file : Bytes} (h : Plain from_jsonl_str file) (since : Int) :
    ∃ p, find_first_event_after from_jsonl_str file since = .ok p ∧
      Bisect.Loop (probe from_jsonl_str file since) 0 file.length (.ok p) ∧
      FirstAt from_jsonl_str file since p := by
  have hsplit : splitLines file =
      (splitLines file).takeWhile (lineTooEarly from_jsonl_str since) ++
        (splitLines file).dropWhile (lineTooEarly from_jsonl_str since) :=
    (List.takeWhile_append_dropWhile ..).symm
  have hearly : ∀ l ∈ (splitLines file).takeWhile (lineTooEarly from_jsonl_str since),
      lineTooEarly from_jsonl_str since l = true := List.all_eq_true.1 List.all_takeWhile
  have hlate : ∀ l ∈ (splitLines file).dropWhile (lineTooEarly from_jsonl_str since),
      lineTooEarly from_jsonl_str since l = false := late_of_sorted h.parse h.sorted
  generalize (splitLines file).takeWhile (lineTooEarly from_jsonl_str since) = early at *
  generalize (splitLines file).dropWhile (lineTooEarly from_jsonl_str since) = late at *
  have hfile : file = (early ++ late).flatten := by rw [← hsplit, splitLines_flatten]
  have hfind : find_first_event_after from_jsonl_str file since = .ok early.flatten.length := by
    rw [hfile]
    refine find_first_event_after_plain ?_ (hfile ▸ h.ascii) ?_ hearly hlate
    · exact hsplit ▸ splitLines_isLines file
    · exact hsplit ▸ h.short
  refine ⟨_, hfind, ?_, firstAt_of_split hsplit h.parse hearly hlate⟩
  rw [← hfind]
  exact Bisect.loop_bisect _ _ _ (by omega)

/-- One record: searched for its own time, it is found at the start. -/
theorem find_first_event_after_whole :
    Plain parseWhole (bytesOf wholeLine ++ [newline]) ∧
      find_first_event_after parseWhole (bytesOf wholeLine ++ [newline]) wholeEvent.time = .ok 0 ∧
      ∃ p, find_first_event_after parseWhole (bytesOf wholeLine ++ [newline]) wholeEvent.time =
        .ok p ∧ FirstAt parseWhole (bytesOf wholeLine ++ [newline]) wholeEvent.time p := by
  have hascii : ∀ b ∈ bytesOf wholeLine ++ [newline], b < 0x80 := by decide +kernel
  have hplain : Plain parseWhole (bytesOf wholeLine ++ [newline]) :=
    ⟨hascii, by decide +kernel, by decide +kernel, by decide +kernel⟩
  obtain ⟨p, hp, _, hfirst⟩ := find_first_event_after_first hplain wholeEvent.time
  exact ⟨hplain, by decide +kernel, p, hp, hfirst⟩

end

end Fsmon.Query
