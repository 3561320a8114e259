/-
# `Fsmon.Monitor.Publish` — from pending events to the broadcast stream

After a batch the processes it names have had time to be seen: what was missing
in a record is patched from the process tracker, and the record goes to the
stream with the name of its cmd group.

    patch_pending_events    fill what is missing, for processes still known
    published               what `send_pending_events` sends

A patch never touches the path, the type or the ancestry chain of a record, nor
the group it is for (`patch_event_same`).
-/
import Fsmon.Monitor.Events

namespace Fsmon

/-- What the tracker knows of a live process; its command line is read from `/proc`. -/
structure Tracked where
  comm : Option String
  read_cmdline : Option String
  current_parent : Option Nat
  tgid : Nat
  deriving DecidableEq, Repr

namespace Monitor

/-- Resolve the unknown fields of one event; `current` is the tracker's view. -/
def patch_event (current : Nat → Option Tracked) (pe : PendingEvent) : PendingEvent :=
  let ev := pe.event
  if ev.comm = "" ∨ ev.cmd = "" ∨ ev.user = "" ∨ ev.ppid = 0 ∨ ev.tgid = 0 then
    match current pe.pid with
    | none => pe
    | some node =>
        { pe with
          event :=
            { ev with
              comm := if ev.comm = "" then node.comm.getD ev.comm else ev.comm
              cmd := if ev.cmd = "" then node.read_cmdline.getD "" else ev.cmd
              ppid := if ev.ppid = 0 then node.current_parent.getD 0 else ev.ppid
              tgid := if ev.tgid = 0 then node.tgid else ev.tgid } }
  else pe

/-- Resolve "unknown" fields in pending events after proc events have been drained. -/
def patch_pending_events (current : Nat → Option Tracked) (pending : List PendingEvent) :
    List PendingEvent := pending.map (patch_event current)

/-- What is sent, in order. -/
def published (current : Nat → Option Tracked) (pending : List PendingEvent) : List (FileEvent × String) :=
  (patch_pending_events current pending).map fun pe => (pe.event, pe.cmd_name)

/-- What a patch leaves alone. -/
theorem patch_event_same (current : Nat → Option Tracked) (pe : PendingEvent) :
    (patch_event current pe).cmd_name = pe.cmd_name ∧
      (patch_event current pe).event.path = pe.event.path ∧
      (patch_event current pe).event.event_type = pe.event.event_type ∧
      (patch_event current pe).event.chain = pe.event.chain := by
  simp only [patch_event]
  split
  · cases current pe.pid with
    | none => exact ⟨rfl, rfl, rfl, rfl⟩
    | some node => exact ⟨rfl, rfl, rfl, rfl⟩
  · exact ⟨rfl, rfl, rfl, rfl⟩

end Monitor

end Fsmon
