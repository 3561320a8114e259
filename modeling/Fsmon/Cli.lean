/-
# `Fsmon.Cli` — `fsmon add` and `fsmon remove`

`cmd_add` and `cmd_remove`: each changes the store, then tells the daemon over
the socket.  The state is the store together with the daemon, and a request is
processed as soon as it is sent.  An error is a `bail!`, which leaves both as they were.

Arguments are absolute paths without `.`, `..` and tilde: `resolve_path_arg` has
made them so.  What only prints notes is left out, and so are I/O errors on the
store itself, which end a command before the socket.
-/
import Fsmon.Store
import Fsmon.Monitor.Socket

namespace Fsmon

/-- `AddArgs`. -/
structure AddArgs where
  cmd : Option String
  path : Option PathBuf
  recursive : Bool
  types : List String
  size : Option String
  max_depth : Option Nat
  deriving DecidableEq, Repr

/-- The store and the daemon. -/
structure Site where
  store : Monitored
  monitor : Monitor

/-- Resolve a user-provided path. -/
def resolve_path_arg (os : Os) (raw : PathBuf) : PathBuf := os.canonical raw

/-- `s.eq_ignore_ascii_case("all")`. -/
def is_all (s : String) : Bool := s.toLower = "all"

/-- The event types of the command line, checked. -/
def add_types (types : List String) : Except Str (Option (List String)) :=
  if types = [] then .ok none
  else if types.any is_all then .ok (some (EventType.ALL.map EventType.toString))
  else
    match PathOptions.parse_types types with
    | .error e => .error e
    | .ok _ => .ok (some types)

/-- The path of the command line, checked and resolved. -/
def add_target (os : Os) (log_path : Option PathBuf) (recursive : Bool) (raw : PathBuf) :
    Except Str PathBuf :=
  if raw.any fun name => name.contains 0 then .error "Invalid path: contains null byte".toList
  else
    match check_path_allowed raw with
    | some msg => .error msg
    | none =>
        let resolved := resolve_path_arg os raw
        match check_path_allowed resolved with
        | some msg => .error msg
        | none =>
            match log_path with
            | none => .ok resolved
            | some log_path =>
                let log_dir_canon := os.canonical log_path
                if (recursive && log_dir_canon.startsWith resolved) = true ∨ log_dir_canon = resolved then
                  .error
                    ("Cannot monitor '".toList ++ raw.display ++ "': ".toList ++
                      (if log_dir_canon = resolved then "this path is the log directory itself".toList
                       else "log directory '".toList ++ log_path.display ++ "' is inside this path".toList) ++
                      "\nTip: use a path outside the log directory, or use a different logging.path".toList)
                else .ok resolved

section
variable [Sizefilter]

/-- Add a path to the monitoring list. -/
def cmd_add (os : Os) (log_path : Option PathBuf) (args : AddArgs) (site : Site) : Except Str Site :=
  match args.cmd with
  | none => .error "CMD is required. Use '_global' for global monitoring.".toList
  | some process_name =>
      match args.path with
      | none => .error "At least one of --path or a process name is required".toList
      | some raw_path =>
          if process_name = "fsmon" then
            .error
              ("Cannot monitor 'fsmon' process: fsmon daemon's own events are excluded " ++
                "from monitoring.\nTip: use a different process name, or omit the process name " ++
                "to capture all events.").toList
          else
            match add_target os log_path args.recursive raw_path with
            | .error msg => .error msg
            | .ok path =>
                match add_types args.types with
                | .error e => .error e
                | .ok types =>
                    let entry : PathEntry :=
                      ⟨some process_name, path, some args.recursive, types, args.size, args.max_depth⟩
                    let store := site.store.validate.add_entry entry
                    let result :=
                      site.monitor.handle_socket_cmd os
                        (.add path entry.recursive types args.size (some process_name) args.max_depth)
                    match result.1 with
                    | .error (.permanent _) =>
                        .ok ⟨(store.validate.remove_entry path entry.cmd).1, result.2⟩
                    | _ => .ok ⟨store, result.2⟩

/-- Tell the daemon, path by path, until it refuses one. -/
def send_removes (os : Os) (cmd : String) : List PathBuf → Monitor → Monitor
  | [], m => m
  | p :: ps, m =>
      let result := m.handle_socket_cmd os (.remove p (some cmd))
      match result.1 with
      | .ok _ => send_removes os cmd ps result.2
      | .error _ => result.2

/-- Remove one or more paths from the monitoring list. -/
def cmd_remove (os : Os) (cmd : Option String) (paths : List PathBuf) (site : Site) : Except Str Site :=
  let paths := paths.map (resolve_path_arg os)
  let store := site.store.validate
  match cmd with
  | none => .error "CMD is required. Use '_global' for global monitoring.".toList
  | some cmd_str =>
      if paths = [] then
        let (store, removed) := store.remove_cmd_group (some cmd_str)
        if removed then .ok ⟨store, site.monitor⟩
        else .error ("Cmd group '".toList ++ cmd_str.toList ++ "' not found".toList)
      else
        match paths.find? fun p => !store.has_entry p (some cmd_str) with
        | some p =>
            .error
              ("Path '".toList ++ p.display ++ "' not found under cmd '".toList ++ cmd_str.toList ++
                "'".toList)
        | none =>
            -- every path has an entry, so at least one is removed
            .ok
              ⟨paths.foldl (fun s p => (s.remove_entry p (some cmd_str)).1) store,
                send_removes os cmd_str paths site.monitor⟩

end

end Fsmon
