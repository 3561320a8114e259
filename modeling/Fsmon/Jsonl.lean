/-
# `Fsmon.Jsonl` — a record as one line of JSON

`FileEvent::to_jsonl_string` and `to_jsonl_string_local` of `common.rs`.  The
derived serializer writes the fields in the order of the struct, and the first
field that fails ends it; `expect` turns that failure into a panic.

A path is written as a string, so only when its bytes are UTF-8; no other field
can fail.  How `chrono` prints an instant is a parameter.

    to_string               `serde_json::to_string`
    to_jsonl_string         its line, or a panic
    to_jsonl_string_local   the same, with the time patched to local time
-/
import Fsmon.Event

namespace Fsmon

/-- What `chrono` prints for an instant: in UTC, as `serde` writes it, and in local time. -/
class Chrono where
  utc : Int → Str
  local_rfc3339 : Int → Str

namespace Json

def quotationMark : Char := Char.ofNat 0x22

def backslash : Char := Char.ofNat 0x5C

/-- A character inside a string literal. -/
def escape (c : Char) : Str :=
  match c.toNat with
  | 0x08 => [backslash, 'b']
  | 0x09 => [backslash, 't']
  | 0x0A => [backslash, 'n']
  | 0x0C => [backslash, 'f']
  | 0x0D => [backslash, 'r']
  | 0x22 => [backslash, quotationMark]
  | 0x5C => [backslash, backslash]
  | n =>
      if n < 0x20 then
        [backslash, 'u', '0', '0', Nat.digitChar (n / 16), Nat.digitChar (n % 16)]
      else [c]

def string (s : Str) : Str := quotationMark :: s.flatMap escape ++ [quotationMark]

def nat (n : Nat) : Str := (toString n).toList

def int (n : Int) : Str := (toString n).toList

def array (values : List Str) : Str := '[' :: (List.intercalate [','] values ++ [']'])

/-- A struct: its fields by name, in order. -/
def object (fields : List (String × Str)) : Str :=
  "\x7b".toList ++ List.intercalate [','] (fields.map fun f => string f.1.toList ++ ':' :: f.2) ++
    "\x7d".toList

end Json

namespace ChainLink

def toJson (l : ChainLink) : Str :=
  Json.object
    [("pid", Json.nat l.pid), ("comm", Json.string l.comm.toList), ("cmd", Json.string l.cmd.toList),
      ("user", Json.string l.user.toList)]

end ChainLink

/-- `Serialize for Path`. -/
def serialize_path (p : PathBuf) : Except Str Str :=
  match Text.fromUtf8 p.toBytes with
  | some s => .ok (Json.string s)
  | none => .error "path contains invalid UTF-8 characters".toList

/-- The text before the first occurrence of `pat`, and the text after it. -/
def splitAtFirst (pat : Str) : Str → Option (Str × Str)
  | [] => if pat = [] then some ([], []) else none
  | c :: cs =>
      if pat.isPrefixOf (c :: cs) then some ([], (c :: cs).drop pat.length)
      else (splitAtFirst pat cs).map fun r => (c :: r.1, r.2)

namespace FileEvent

section
variable [Chrono]

/-- The fields of the struct; `fs_error` is left out when there is none. -/
def fields (e : FileEvent) (path : Str) : List (String × Str) :=
  [("time", Json.string (Chrono.utc e.time)),
    ("event_type", Json.string e.event_type.toString.toList),
    ("path", path),
    ("pid", Json.nat e.pid),
    ("comm", Json.string e.comm.toList),
    ("cmd", Json.string e.cmd.toList),
    ("user", Json.string e.user.toList),
    ("file_size", Json.nat e.file_size),
    ("ppid", Json.nat e.ppid),
    ("tgid", Json.nat e.tgid),
    ("chain", Json.array (e.chain.map ChainLink.toJson))] ++
  (e.fs_error.map fun r => ("fs_error", Json.array [Json.int r.1, Json.nat r.2])).toList

/-- `serde_json::to_string`. -/
def to_string (e : FileEvent) : Except Str Str :=
  match serialize_path e.path with
  | .error msg => .error msg
  | .ok path => .ok (Json.object (e.fields path))

/-- Serialize to a single JSON line; `none` is the panic of `expect`. -/
def to_jsonl_string (e : FileEvent) : Option Str := e.to_string.toOption

/-- The key of the time, up to its value. -/
def TIME_KEY : Str := "\"time\":\"".toList

/-- Replace the value of the time, where one is found. -/
def patch_time (json local_time : Str) : Str :=
  match splitAtFirst TIME_KEY json with
  | none => json
  | some (before, value) =>
      match splitAtFirst [Json.quotationMark] value with
      | none => json
      | some (_, after) => before ++ TIME_KEY ++ local_time ++ Json.quotationMark :: after

/-- Serialize to JSONL with the timestamp converted to local time. -/
def to_jsonl_string_local (e : FileEvent) : Option Str :=
  e.to_jsonl_string.map fun json => patch_time json (Chrono.local_rfc3339 e.time)

/-- UTC or local time, as the configuration selects. -/
def jsonl_string (local_time : Bool) (e : FileEvent) : Option Str :=
  if local_time then e.to_jsonl_string_local else e.to_jsonl_string

/-- The bytes of the path are UTF-8. -/
def has_utf8_path (e : FileEvent) : Bool := (Text.fromUtf8 e.path.toBytes).isSome

theorem to_jsonl_string_isSome (e : FileEvent) : e.to_jsonl_string.isSome = e.has_utf8_path := by
  unfold to_jsonl_string to_string serialize_path has_utf8_path
  cases Text.fromUtf8 e.path.toBytes <;> rfl

/-- There is a line exactly for the paths that are UTF-8, whichever clock is shown. -/
theorem jsonl_string_isSome (local_time : Bool) (e : FileEvent) :
    (e.jsonl_string local_time).isSome = e.has_utf8_path := by
  rw [← to_jsonl_string_isSome]
  cases local_time with
  | false => rfl
  | true => exact Option.isSome_map

end

end FileEvent

end Fsmon
