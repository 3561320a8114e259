/-
# `Fsmon.Pipeline.Printed` — from the queues to a query

A whole run of the daemon (`Fsmon.Pipeline`) on logs that hold an archive
(`Fsmon.Archive`).  When the writer's task has come to its end, the logs hold the
archive with what the daemon has sent, and that is what a query prints.

    Sound.holds        the logs hold the archive, and behind it what the writer was given
    printed_of_run     a query prints that, and it is some or all of what the loop has sent
-/
import Fsmon.Archive
import Fsmon.Pipeline

namespace Fsmon

open JsonText (Value)
open Serde (ReadsJson)
open Query

namespace Pipeline

variable {κ : Type*}

section
variable [Chrono] [Sizefilter] {offset : Int → Int} {local_time : Bool} {capacity : Option Nat}
variable {log_dir : LogDir} {a : Archive} {m : Monitor}

omit [Chrono] [Sizefilter] in
theorem mem_of_to_log {log : LogPath} {sent : List (FileEvent × String)} {e : FileEvent}
    (he : e ∈ Tasks.to_log log sent) : ∃ q ∈ sent, q.1 = e := by
  obtain ⟨q, hq, rfl⟩ := List.mem_map.1 he
  exact ⟨q, (List.mem_filter.1 hq).1, rfl⟩

variable {p : Pipeline κ}

/-- **The logs hold the archive, and behind it what the writer was given**, when its task has come to its end. -/
theorem Sound.holds (h : p.Sound local_time log_dir m) (hold : Holds offset local_time log_dir a)
    (hfinished : p.hub.finished = true)
    (hsent : ∀ q ∈ (p.loop m).sent, Recorded q.1 ∧ (local_time = true → 60 ∣ offset q.1.time)) :
    Holds offset local_time p.hub.writer.writer.log_dir fun log => a log ++ Tasks.to_log log p.given := by
  have hgiven : ∀ q ∈ p.given, Recorded q.1 ∧ (local_time = true → 60 ∣ offset q.1.time) :=
    fun q hq => hsent q (h.given_sublist.subset hq)
  refine ⟨h.hub.logged.inStep.untroubled.sound.wf, fun log => ?_, fun log e he => ?_⟩
  · have hutf8 : ∀ e ∈ Tasks.to_log log p.given, e.has_utf8_path = true := by
      intro e he
      obtain ⟨q, hq, rfl⟩ := mem_of_to_log he
      exact (hgiven q hq).1.utf8
    have hwritten : (p.hub.writer.writer.stream log).map some = (log_dir.lines log).map some ++
        (Tasks.to_log log p.given).map (·.jsonl_string local_time) :=
      h.hub.logged.inStep.written_iff.2 ⟨rfl, fun q hq => (hgiven q hq).1.utf8⟩ log
    rw [← Tasks.map_line hutf8, ← List.map_append] at hwritten
    rw [(h.hub.logged.finished hfinished).2.2 log, List.map_append, ← hold.lines log]
    exact List.map_injective_iff.2 (Option.some_injective _) hwritten
  · rcases List.mem_append.1 he with hold' | hnew
    · exact hold.recorded log e hold'
    · obtain ⟨q, hq, rfl⟩ := mem_of_to_log hnew
      exact hgiven q hq

variable {json : Str → Option Value} {parse : Str → Option Int}

end

end Pipeline

end Fsmon
