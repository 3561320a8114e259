/-
# `Fsmon.Monitor.Socket` — the daemon's end of `fsmon add` and `fsmon remove`

`check_path_allowed` of `security.rs` and the `Add` and `Remove` arms of
`handle_socket_cmd`.  `Add` reads `_global` as no cmd; `Remove` hands the name on
as it came.  An error is permanent or transient by a phrase in its text.
-/
import Fsmon.Monitor.LivePath

namespace Fsmon

/-- `s.contains(text)`. -/
def Str.contains (s : Str) (text : String) : Prop := text.toList <:+: s

instance (s : Str) (text : String) : Decidable (s.contains text) :=
  inferInstanceAs (Decidable (_ <:+: _))

/-- Default blocked paths, with the reason. -/
def DEFAULT_BLOCKED : List (String × String) := [("/proc/self", "fsmon process (self-monitoring)")]

/-- Check if a path is allowed for monitoring: the message when it is not. -/
def check_path_allowed (path : PathBuf) : Option Str :=
  (DEFAULT_BLOCKED.find? fun b => b.1.toList.isPrefixOf path.display).map fun b =>
    "Path '".toList ++ path.display ++ "' is blocked: ".toList ++ b.2.toList

/-- The two commands that change what is monitored. -/
inductive SocketCmd where
  | add (path : PathBuf) (recursive : Option Bool) (types : Option (List String))
      (size : Option String) (track_cmd : Option String) (max_depth : Option Nat)
  | remove (path : PathBuf) (track_cmd : Option String)
  deriving DecidableEq, Repr

inductive SocketError where
  | permanent (msg : Str)
  | transient (msg : Str)
  deriving DecidableEq, Repr

/-- Recursion and conflict errors will fail after a restart, too. -/
def is_permanent (msg : Str) : Prop :=
  msg.contains "infinite recursion" ∨ msg.contains "log directory"

instance (msg : Str) : Decidable (is_permanent msg) := inferInstanceAs (Decidable (_ ∨ _))

def SocketError.classify (msg : Str) : SocketError :=
  if is_permanent msg then .permanent msg else .transient msg

/-- An entry as the `List` arm reports it: no cmd is spelled out as `_global`. -/
def list_entry [Sizefilter] (path : PathBuf) (opts : PathOptions) : PathEntry :=
  { opts.to_entry path with cmd := opts.cmd.or (some CMD_GLOBAL) }

namespace Monitor

/-- Remove only this (path, cmd) pair, not other cmd groups for same path. -/
def retain_others (m : Monitor) (path : PathBuf) (cmd : Option String) : Monitor :=
  { m with
    monitored_entries := m.monitored_entries.filter fun e => !(e.1 = path && e.2.cmd = cmd) }

/-- The entry an `Add` asks for. -/
def add_request (path : PathBuf) (recursive : Option Bool) (types : Option (List String))
    (size : Option String) (track_cmd : Option String) (max_depth : Option Nat) : PathEntry where
  cmd := cmd_filter track_cmd
  path := path
  recursive := recursive
  types := types
  size := size
  max_depth := max_depth

section
variable [Sizefilter]

/-- The state in which `add_path` is called for an `Add`. -/
def prepare_add (os : Os) (m : Monitor) (path : PathBuf) (cmd : Option String) : Monitor :=
  let m₁ := m.retain_others path cmd
  if m₁.monitored_entries.any fun e => e.1 = path then m₁ else m₁.try_remove os path

def handle_socket_cmd (os : Os) (m : Monitor) : SocketCmd → Except SocketError Unit × Monitor
  | .add path recursive types size track_cmd max_depth =>
      match check_path_allowed path with
      | some msg => (.error (.permanent msg), m)
      | none =>
          let m₁ := m.prepare_add os path (cmd_filter track_cmd)
          match m₁.add_path os (add_request path recursive types size track_cmd max_depth) with
          | .ok m₂ => (.ok (), m₂)
          | .error msg => (.error (.classify msg), m₁)
  | .remove path track_cmd =>
      match m.remove_path os path track_cmd with
      | .ok m₁ => (.ok (), m₁)
      | .error msg => (.error (.classify msg), m)

end

end Monitor

end Fsmon
