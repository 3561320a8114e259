/-
# `Fsmon.LogWriter.Names` — one log for each cmd group, or one for several

Writer, query and cleaner each derive the file of a cmd group from its name, by
`cmd_to_log_name`.  What is written under a name comes to the end of its file, in
order (`run_untroubled`); so the file of a name holds the events of all names that
become the same file name, and it separates a group from the others exactly when
nothing is written under another name of its file (`logs_separate_iff`).

`/` becomes `_`, so names without `/` never share a file
(`cmd_to_log_name_inj`); a command line and a name that spells its path with
underscores do.
-/
import Fsmon.LogWriter.Untroubled

namespace Fsmon

open Query (parse_log_line_jsonl)

/-! ## Names -/

/-- Names without `/` have logs of their own. -/
theorem cmd_to_log_name_inj {c d : String} (hc : '/' ∉ c.toList) (hd : '/' ∉ d.toList)
    (h : cmd_to_log_name c = cmd_to_log_name d) : c = d := by
  have hself : ∀ {s : String}, '/' ∉ s.toList →
      (s.toList.map fun a => if a = '/' then '_' else a) = s.toList := by
    intro s hs
    refine (List.map_congr_left fun a ha => if_neg ?_).trans (List.map_id' _)
    rintro rfl
    exact hs ha
  rw [cmd_to_log_name, cmd_to_log_name, hself hc, hself hd] at h
  exact String.toList_inj.1 (List.append_cancel_right h)

/-- Two filters, one within the other, leave the same of a list exactly when they agree on it. -/
theorem map_filter_eq_iff {α β : Type*} {p q : α → Bool} (f : α → β) (hqp : ∀ a, q a = true → p a = true)
    (l : List α) : (l.filter p).map f = (l.filter q).map f ↔ ∀ a ∈ l, p a = true → q a = true := by
  have hsub : l.filter q = (l.filter p).filter q := by
    rw [List.filter_filter]
    refine List.filter_congr fun a _ => ?_
    cases hq : q a with
    | false => rfl
    | true => rw [hqp a hq]; rfl
  rw [hsub]
  constructor
  · intro h a ha hp
    have hlen := congrArg List.length h
    rw [List.length_map, List.length_map] at hlen
    have hall := List.filter_sublist.eq_of_length hlen.symm
    exact List.filter_eq_self.1 hall a (List.mem_filter.2 ⟨ha, hp⟩)
  · intro h
    rw [List.filter_eq_self.2 fun a ha => h a (List.mem_filter.1 ha).1 (List.mem_filter.1 ha).2]

namespace FileLogWriter

/-! ## What is left behind -/

/-- What a run hands to the writer, in order. -/
def written (ops : List Op) : List (FileEvent × String) := ops.flatMap Op.handed

/-- The events written under a name. -/
def written_as (ops : List Op) (cmd : String) : List FileEvent :=
  ((written ops).filter fun q => q.2 = cmd).map (·.1)

variable (jsonl_string : FileEvent → Str)

/-- The directory a writer leaves that started on an empty one. -/
def left_behind (now : Nat) (ops : List Op) : LogDir :=
  (Run.exec (apply jsonl_string) (new .empty now) ops).finish.log_dir

/-- Each file holds the lines of the events written to it. -/
theorem lines_left_behind (now : Nat) {ops : List Op} (hok : ∀ o ∈ ops, o.Succeeds) (p : LogPath) :
    (left_behind jsonl_string now ops).lines p = (handedTo p ops).map jsonl_string :=
  finish_appended jsonl_string LogDir.empty_wf rfl now hok

theorem wf_left_behind (now : Nat) {ops : List Op} (hok : ∀ o ∈ ops, o.Succeeds) :
    (left_behind jsonl_string now ops).Wf := by
  have hend := (run_untroubled jsonl_string ops (w := new .empty now)
    ⟨new_sound LogDir.empty_wf now, rfl, rfl⟩ hok).1
  exact (flush_all_trims (flush_and_sync_trims hend.sound fun _ => .done).sound fun _ => .done).sound.wf

end FileLogWriter

/-! ## Query and cleaner -/

/-- `Query::resolve_log_files` with a cmd filter. -/
def resolve_log_files (d : LogDir) (cmd : String) : List LogPath :=
  if (d.inode (cmd_to_log_name cmd)).isSome then [cmd_to_log_name cmd] else []

section
variable (from_jsonl_str : Str → Option FileEvent)

/-- What is read of the files a query resolves to. -/
def read_resolved (d : LogDir) (cmd : String) : List FileEvent :=
  (resolve_log_files d cmd).flatMap (FileLogWriter.fileEvents from_jsonl_str d)

theorem read_resolved_eq (d : LogDir) (cmd : String) :
    read_resolved from_jsonl_str d cmd = eventsOf from_jsonl_str (d.lines (cmd_to_log_name cmd)) := by
  rw [read_resolved, resolve_log_files]
  cases hi : d.inode (cmd_to_log_name cmd) with
  | some i => simp [FileLogWriter.fileEvents]
  | none => simp [LogDir.lines, hi, eventsOf]

/-- `clean_logs`, alone on the directory; the trim drops the first `dropped` lines that are left. -/
def clean_logs (d : LogDir) (cmd : String) (time_filter : Option TimeFilter) (dropped : Nat) : LogDir :=
  match d.inode (cmd_to_log_name cmd) with
  -- `symlink_metadata` fails
  | none => d
  | some i =>
      d.replace (cmd_to_log_name cmd)
        (((d.content i).flatMap (CleanSys.keep_line from_jsonl_str time_filter)).drop dropped)

/-- A clean changes the file of its name only, and has nothing to change in an empty one. -/
theorem lines_clean_logs {d : LogDir} (hd : d.Wf) (cmd : String) (time_filter : Option TimeFilter)
    (dropped : Nat) {p : LogPath} (h : p = cmd_to_log_name cmd → d.lines p = []) :
    (clean_logs from_jsonl_str d cmd time_filter dropped).lines p = d.lines p := by
  rw [clean_logs]
  cases hi : d.inode (cmd_to_log_name cmd) with
  | none => rfl
  | some i =>
      simp only
      by_cases hp : p = cmd_to_log_name cmd
      · have hempty := h hp
        subst hp
        have hcontent : d.content i = [] := by
          rw [LogDir.lines, hi] at hempty
          exact hempty
        rw [LogDir.lines_replace_self, hempty, hcontent]
        exact List.drop_nil
      · exact LogDir.lines_replace_ne hd hp _

end

namespace FileLogWriter

section
variable (from_jsonl_str : Str → Option FileEvent) (jsonl_string : FileEvent → Str)

/-- Each group of the store reads what was written under its name, and a clean of one leaves the others'
logs as they are. -/
structure LogsSeparate (cmds : List String) (now : Nat) (ops : List Op) : Prop where
  read : ∀ c ∈ cmds, read_resolved from_jsonl_str (left_behind jsonl_string now ops) c = written_as ops c
  clean : ∀ c ∈ cmds, ∀ d ∈ cmds, d ≠ c → ∀ time_filter dropped,
    (clean_logs from_jsonl_str (left_behind jsonl_string now ops) c time_filter dropped).lines
      (cmd_to_log_name d) = (left_behind jsonl_string now ops).lines (cmd_to_log_name d)

/-- Nothing is written under another name that becomes the file name of a group of the store. -/
def NamesApart (cmds : List String) (ops : List Op) : Prop :=
  ∀ c ∈ cmds, ∀ q ∈ written ops, cmd_to_log_name q.2 = cmd_to_log_name c → q.2 = c

instance (cmds : List String) (ops : List Op) : Decidable (NamesApart cmds ops) :=
  inferInstanceAs (Decidable (∀ c ∈ cmds, ∀ q ∈ written ops, _ → _))

variable {from_jsonl_str} {jsonl_string}

/-- A group reads what was written to its file. -/
theorem read_left_behind (now : Nat) {ops : List Op} (hok : ∀ o ∈ ops, o.Succeeds)
    (hread : ∀ q ∈ written ops, parse_log_line_jsonl from_jsonl_str (jsonl_string q.1) = some q.1)
    (c : String) :
    read_resolved from_jsonl_str (left_behind jsonl_string now ops) c =
      handedTo (cmd_to_log_name c) ops := by
  have hlines : ∀ es : List FileEvent, (∀ e ∈ es, ∃ q ∈ written ops, q.1 = e) →
      eventsOf from_jsonl_str (es.map jsonl_string) = es := by
    intro es hes
    rw [eventsOf, List.filterMap_map]
    refine (List.filterMap_congr fun e he => ?_).trans List.filterMap_some
    obtain ⟨q, hq, rfl⟩ := hes e he
    exact hread q hq
  rw [read_resolved_eq, lines_left_behind jsonl_string now hok]
  refine hlines _ fun e he => ?_
  obtain ⟨q, hq, rfl⟩ := List.mem_map.1 he
  exact ⟨q, (List.mem_filter.1 hq).1, rfl⟩

variable (from_jsonl_str jsonl_string) in
/-- **The logs separate the groups of a store** exactly when nothing is written to a group's file under
another name. -/
theorem logs_separate_iff (cmds : List String) (now : Nat) (ops : List Op) (hok : ∀ o ∈ ops, o.Succeeds)
    (hread : ∀ q ∈ written ops, parse_log_line_jsonl from_jsonl_str (jsonl_string q.1) = some q.1) :
    LogsSeparate from_jsonl_str jsonl_string cmds now ops ↔ NamesApart cmds ops := by
  have hfile : ∀ c, read_resolved from_jsonl_str (left_behind jsonl_string now ops) c = written_as ops c ↔
      ∀ q ∈ written ops, cmd_to_log_name q.2 = cmd_to_log_name c → q.2 = c := by
    intro c
    rw [read_left_behind now hok hread, handedTo, written_as, written, map_filter_eq_iff]
    · simp only [decide_eq_true_eq]
    · intro q hq
      rw [of_decide_eq_true hq]
      exact decide_eq_true rfl
  refine ⟨fun h c hc => (hfile c).1 (h.read c hc), fun h => ⟨fun c hc => (hfile c).2 (h c hc), ?_⟩⟩
  intro c hc d hd hne time_filter dropped
  refine lines_clean_logs from_jsonl_str (wf_left_behind jsonl_string now hok) c time_filter dropped fun hsame => ?_
  -- both names would be the one that was written
  have hnone : handedTo (cmd_to_log_name d) ops = [] := by
    rw [handedTo, List.map_eq_nil_iff, List.filter_eq_nil_iff]
    intro q hq hname
    have hq' := of_decide_eq_true hname
    exact hne ((h d hd q hq hq').symm.trans (h c hc q hq (hq'.trans hsame)))
  rw [lines_left_behind jsonl_string now hok, hnone]
  rfl

end

/-- One event for each of two groups, with nothing failing. -/
def twoGroups (c d : String) : List Op :=
  [.write 0 (fun _ => .calm) .calm (sampleEvent 1) c, .write 1 (fun _ => .calm) .calm (sampleEvent 2) d]

theorem twoGroups_succeed (c d : String) : ∀ o ∈ twoGroups c d, o.Succeeds := by
  intro o ho
  rcases List.mem_pair.1 ho with rfl | rfl <;> exact ⟨rfl, ⟨0, rfl⟩, rfl⟩

/-- Two names without `/`. -/
theorem logs_separate_plain :
    LogsSeparate sampleParse sampleJsonl ["sh", "vi"] 0 (twoGroups "sh" "vi") ↔
      NamesApart ["sh", "vi"] (twoGroups "sh" "vi") :=
  logs_separate_iff sampleParse sampleJsonl ["sh", "vi"] 0 _ (twoGroups_succeed "sh" "vi") (by decide +kernel)

/-- `bin/sh` and `bin_sh` share a log. -/
theorem logs_shared : ¬ LogsSeparate sampleParse sampleJsonl ["bin/sh", "bin_sh"] 0
    (twoGroups "bin/sh" "bin_sh") := by
  intro h
  have hread := h.read "bin/sh" List.mem_cons_self
  have hboth : read_resolved sampleParse (left_behind sampleJsonl 0 (twoGroups "bin/sh" "bin_sh")) "bin/sh" =
      [sampleEvent 1, sampleEvent 2] := by decide +kernel
  rw [hboth] at hread
  exact absurd hread (by decide +kernel)

end FileLogWriter

end Fsmon
