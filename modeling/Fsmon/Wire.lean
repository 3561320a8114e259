/-
# `Fsmon.Wire` — commands and answers as text

The protocol of `socket.rs`: one line of JSON each way.  The records are in the
source's own types, with a path as it is spelled; `serde` makes a tree of a record
and a record of a tree, and a tree is printed without blanks.

    SocketCmd.from_value_value   the tree of a command makes it up again
    command_delivered            what a client sends is the command that the daemon reads
    answer_received              what the daemon writes is the answer that the client returns
    bare_answer_unreadable       what `write_resp_and_close` writes is none
    send_cmd_processed           every client's command is processed once, in any undisturbed run
-/
import Fsmon.Accept
import Fsmon.Jsonl.Local
import Fsmon.Lib.JsonPrint
import Fsmon.Security

namespace Fsmon.Wire

open JsonText (Value Fits print record present)
open Serde (required defaulted read_text read_string read_vec read_option read_u32 read_u64 read_i32 ReadsJson
  MAX_DEPTH)
open Text (trim)

/-! ## The records -/

/-- Type-safe socket commands. -/
inductive SocketCmd where
  | add (path : Bytes) (recursive : Option Bool) (types : Option (List String)) (size : Option String)
      (track_cmd : Option String) (max_depth : Option UInt32)
  | remove (path : Bytes) (track_cmd : Option String)
  | list
  | health
  | subscribe (types : Option (List String)) (track_cmd : Option String) (local_time : Option Bool)
  deriving DecidableEq

/-- A single monitored path entry, without what is skipped. -/
structure PathEntry where
  cmd : Option String
  path : Bytes
  recursive : Option Bool
  types : Option (List String)
  size : Option String
  max_depth : Option UInt32
  deriving DecidableEq

/-- Health info for a single reader task. -/
structure ReaderHealth where
  alive : Bool
  restarts : UInt32
  fd : Int32
  deriving DecidableEq

/-- Snapshot of daemon health. -/
structure HealthInfo where
  uptime_secs : UInt64
  channel_type : String
  monitored_paths : UInt64
  reader_groups : UInt64
  readers : List ReaderHealth
  unprivileged : Bool
  dir_cache_misses : UInt64
  factory_alive : Bool
  deriving DecidableEq

/-- Type-safe socket responses. -/
inductive SocketResponse where
  | ok
  | paths (entries : List PathEntry)
  | health (info : HealthInfo)
  deriving DecidableEq

/-- Type-safe socket errors. -/
inductive SocketError where
  | permanent (msg : String)
  | transient (msg : String)
  deriving DecidableEq

/-! ## Writing -/

def text (s : String) : Value := .string s.toList

def texts (l : List String) : Value := .array (l.map text)

def bool (b : Bool) : Value := .bool b

def u32 (n : UInt32) : Value := .number n.toNat

def u64 (n : UInt64) : Value := .number n.toNat

def i32 (n : Int32) : Value := .number n.toInt

/-- `None` is `null`. -/
def nullable {α : Type} (write : α → Value) (o : Option α) : Value := o.elim .null write

/-- A variant with its content. -/
def tagged (tag : String) (v : Value) : Value := .object [(tag.toList, v)]

namespace SocketCmd

/-- The fields of `Add`, with the path as text. -/
def add_fields (path : Str) (recursive : Option Bool) (types : Option (List String)) (size : Option String)
    (track_cmd : Option String) (max_depth : Option UInt32) : List (String × Option Value) :=
  [("path", some (.string path)), ("recursive", recursive.map bool), ("types", types.map texts),
    ("size", size.map text), ("track_cmd", track_cmd.map text), ("max_depth", max_depth.map u32)]

def remove_fields (path : Str) (track_cmd : Option String) : List (String × Option Value) :=
  [("path", some (.string path)), ("track_cmd", track_cmd.map text)]

def subscribe_fields (types : Option (List String)) (track_cmd : Option String) (local_time : Option Bool) :
    List (String × Option Value) :=
  [("types", types.map texts), ("track_cmd", track_cmd.map text), ("local_time", local_time.map bool)]

/-- `Serialize for SocketCmd`. -/
def value : SocketCmd → Option Value
  | .add path recursive types size track_cmd max_depth =>
      (Text.fromUtf8 path).map fun path =>
        tagged "Add" (record (add_fields path recursive types size track_cmd max_depth))
  | .remove path track_cmd =>
      (Text.fromUtf8 path).map fun path => tagged "Remove" (record (remove_fields path track_cmd))
  | .list => some (text "List")
  | .health => some (text "Health")
  | .subscribe types track_cmd local_time =>
      some (tagged "Subscribe" (record (subscribe_fields types track_cmd local_time)))

/-- `serde_json::to_string`. -/
def to_string (cmd : SocketCmd) : Option Str := cmd.value.map (print Json.escape)

end SocketCmd

def PathEntry.fields (e : PathEntry) (path : Str) : List (String × Option Value) :=
  [("cmd", some (nullable text e.cmd)), ("path", some (.string path)),
    ("recursive", some (nullable bool e.recursive)), ("types", some (nullable texts e.types)),
    ("size", some (nullable text e.size)), ("max_depth", e.max_depth.map u32)]

def PathEntry.value (e : PathEntry) : Option Value :=
  (Text.fromUtf8 e.path).map fun path => record (e.fields path)

def ReaderHealth.fields (r : ReaderHealth) : List (String × Option Value) :=
  [("alive", some (bool r.alive)), ("restarts", some (u32 r.restarts)), ("fd", some (i32 r.fd))]

def ReaderHealth.value (r : ReaderHealth) : Value := record r.fields

def HealthInfo.fields (h : HealthInfo) : List (String × Option Value) :=
  [("uptime_secs", some (u64 h.uptime_secs)), ("channel_type", some (text h.channel_type)),
    ("monitored_paths", some (u64 h.monitored_paths)), ("reader_groups", some (u64 h.reader_groups)),
    ("readers", some (.array (h.readers.map ReaderHealth.value))), ("unprivileged", some (bool h.unprivileged)),
    ("dir_cache_misses", some (u64 h.dir_cache_misses)), ("factory_alive", some (bool h.factory_alive))]

def HealthInfo.value (h : HealthInfo) : Value := record h.fields

def SocketResponse.value : SocketResponse → Option Value
  | .ok => some (text "Ok")
  | .paths entries => (entries.mapM PathEntry.value).map fun vs => tagged "Paths" (.array vs)
  | .health info => some (tagged "Health" info.value)

def SocketError.value : SocketError → Value
  | .permanent msg => tagged "Permanent" (text msg)
  | .transient msg => tagged "Transient" (text msg)

/-- What `handle_socket_cmd` returns. -/
abbrev Answer := Except SocketError SocketResponse

/-- `Serialize for Result`. -/
def Answer.value : Answer → Option Value
  | .ok resp => resp.value.map (tagged "Ok")
  | .error e => some (tagged "Err" e.value)

/-! ## Reading -/

def read_bool : Value → Option Bool
  | .bool b => some b
  | _ => none

def read_path : Value → Option Bytes := read_text fun s => some (Text.encode s)

/-- A field of type `Option`, which may be absent. -/
def optional {α : Type} (ms : List (Str × Value)) (name : String) (read : Value → Option α) :
    Option (Option α) := defaulted ms name none (read_option read)

/-- A variant, as its name or as an object with one member, with its content. -/
def variant : Value → Option (Str × Option Value)
  | .string tag => some (tag, none)
  | .object [(tag, v)] => some (tag, some v)
  | _ => none

/-- The content of a variant without one. -/
def is_unit : Option Value → Bool
  | none => true
  | some .null => true
  | _ => false

namespace SocketCmd

def read_add : Value → Option SocketCmd
  | .object ms => do
      let path ← required ms "path" read_path
      let recursive ← optional ms "recursive" read_bool
      let types ← optional ms "types" (read_vec read_string)
      let size ← optional ms "size" read_string
      let track_cmd ← optional ms "track_cmd" read_string
      let max_depth ← optional ms "max_depth" read_u32
      return .add path recursive types size track_cmd max_depth
  | _ => none

def read_remove : Value → Option SocketCmd
  | .object ms => do
      let path ← required ms "path" read_path
      let track_cmd ← optional ms "track_cmd" read_string
      return .remove path track_cmd
  | _ => none

def read_subscribe : Value → Option SocketCmd
  | .object ms => do
      let types ← optional ms "types" (read_vec read_string)
      let track_cmd ← optional ms "track_cmd" read_string
      let local_time ← optional ms "local_time" read_bool
      return .subscribe types track_cmd local_time
  | _ => none

/-- `Deserialize for SocketCmd`. -/
def from_value (v : Value) : Option SocketCmd :=
  (variant v).bind fun r =>
    if r.1 = "Add".toList then r.2.bind read_add
    else if r.1 = "Remove".toList then r.2.bind read_remove
    else if r.1 = "List".toList then if is_unit r.2 then some .list else none
    else if r.1 = "Health".toList then if is_unit r.2 then some .health else none
    else if r.1 = "Subscribe".toList then r.2.bind read_subscribe
    else none

end SocketCmd

def PathEntry.from_value : Value → Option PathEntry
  | .object ms => do
      let cmd ← optional ms "cmd" read_string
      let path ← required ms "path" read_path
      let recursive ← optional ms "recursive" read_bool
      let types ← optional ms "types" (read_vec read_string)
      let size ← optional ms "size" read_string
      let max_depth ← optional ms "max_depth" read_u32
      return { cmd, path, recursive, types, size, max_depth }
  | _ => none

def ReaderHealth.from_value : Value → Option ReaderHealth
  | .object ms => do
      let alive ← required ms "alive" read_bool
      let restarts ← required ms "restarts" read_u32
      let fd ← required ms "fd" read_i32
      return { alive, restarts, fd }
  | _ => none

def HealthInfo.from_value : Value → Option HealthInfo
  | .object ms => do
      let uptime_secs ← required ms "uptime_secs" read_u64
      let channel_type ← required ms "channel_type" read_string
      let monitored_paths ← required ms "monitored_paths" read_u64
      let reader_groups ← required ms "reader_groups" read_u64
      let readers ← required ms "readers" (read_vec ReaderHealth.from_value)
      let unprivileged ← defaulted ms "unprivileged" false read_bool
      let dir_cache_misses ← defaulted ms "dir_cache_misses" 0 read_u64
      let factory_alive ← defaulted ms "factory_alive" false read_bool
      return { uptime_secs, channel_type, monitored_paths, reader_groups, readers, unprivileged,
               dir_cache_misses, factory_alive }
  | _ => none

def SocketResponse.from_value (v : Value) : Option SocketResponse :=
  (variant v).bind fun r =>
    if r.1 = "Ok".toList then if is_unit r.2 then some .ok else none
    else if r.1 = "Paths".toList then r.2.bind fun v => (read_vec PathEntry.from_value v).map .paths
    else if r.1 = "Health".toList then r.2.bind fun v => (HealthInfo.from_value v).map .health
    else none

def SocketError.from_value (v : Value) : Option SocketError :=
  (variant v).bind fun r =>
    if r.1 = "Permanent".toList then r.2.bind fun v => (read_string v).map .permanent
    else if r.1 = "Transient".toList then r.2.bind fun v => (read_string v).map .transient
    else none

/-- `Deserialize for Result`. -/
def Answer.from_value (v : Value) : Option Answer :=
  (variant v).bind fun r =>
    if r.1 = "Ok".toList then r.2.bind fun v => (SocketResponse.from_value v).map .ok
    else if r.1 = "Err".toList then r.2.bind fun v => (SocketError.from_value v).map .error
    else none

/-! ## The trees make the records up again -/

section
variable {α : Type} {fields : List (String × Option Value)} {name : String}

theorem required_record {v : Value} {read : Value → Option α} {a : α} (hnodup : (fields.map Prod.fst).Nodup)
    (hmem : (name, some v) ∈ fields) (hread : read v = some a) : required (present fields) name read = some a := by
  rw [required, JsonText.member_record hnodup hmem]
  exact hread

theorem defaulted_record {v : Value} {read : Value → Option α} {default a : α}
    (hnodup : (fields.map Prod.fst).Nodup) (hmem : (name, some v) ∈ fields) (hread : read v = some a) :
    defaulted (present fields) name default read = some a := by
  rw [defaulted, JsonText.member_record hnodup hmem]
  exact hread

/-- A field that is left out when it is `None`. -/
theorem optional_record {write : α → Value} {read : Value → Option α} {o : Option α}
    (hnodup : (fields.map Prod.fst).Nodup) (hmem : (name, o.map write) ∈ fields)
    (hread : ∀ a, read_option read (write a) = some (some a)) :
    optional (present fields) name read = some o := by
  rw [optional, defaulted, JsonText.member_record hnodup hmem]
  cases o with
  | none => rfl
  | some a => exact hread a

/-- A field that is `null` when it is `None`. -/
theorem nullable_record {write : α → Value} {read : Value → Option α} {o : Option α}
    (hnodup : (fields.map Prod.fst).Nodup) (hmem : (name, some (nullable write o)) ∈ fields)
    (hread : ∀ a, read_option read (write a) = some (some a)) :
    optional (present fields) name read = some o := by
  rw [optional, defaulted, JsonText.member_record hnodup hmem]
  cases o with
  | none => rfl
  | some a => exact hread a

end

theorem read_string_text (s : String) : read_string (text s) = some s := Serde.read_string_toList s

theorem read_option_text (s : String) : read_option read_string (text s) = some (some s) :=
  congrArg (Option.map some) (read_string_text s)

theorem read_option_texts (l : List String) : read_option (read_vec read_string) (texts l) = some (some l) :=
  congrArg (Option.map some) (Serde.read_vec_map read_string_text l)

theorem read_option_bool (b : Bool) : read_option read_bool (bool b) = some (some b) := rfl

theorem read_option_u32 (n : UInt32) : read_option read_u32 (u32 n) = some (some n) :=
  congrArg (Option.map some) (Serde.read_u32_toNat n)

theorem read_path_string {path : Bytes} {s : Str} (h : Text.fromUtf8 path = some s) :
    read_path (.string s) = some path := congrArg some (Text.fromUtf8_eq_some.1 h)

namespace SocketCmd

theorem read_add_record {path : Bytes} {s : Str} (h : Text.fromUtf8 path = some s) (recursive : Option Bool)
    (types : Option (List String)) (size track_cmd : Option String) (max_depth : Option UInt32) :
    read_add (record (add_fields s recursive types size track_cmd max_depth)) =
      some (.add path recursive types size track_cmd max_depth) := by
  have hnames : ((add_fields s recursive types size track_cmd max_depth).map Prod.fst).Nodup := by
    show ["path", "recursive", "types", "size", "track_cmd", "max_depth"].Nodup
    decide
  have h₀ := required_record hnames (List.mem_of_getElem? (i := 0) rfl) (read_path_string h)
  have h₁ := optional_record hnames (List.mem_of_getElem? (i := 1) rfl) read_option_bool
  have h₂ := optional_record hnames (List.mem_of_getElem? (i := 2) rfl) read_option_texts
  have h₃ := optional_record hnames (List.mem_of_getElem? (i := 3) rfl) read_option_text
  have h₄ := optional_record hnames (List.mem_of_getElem? (i := 4) rfl) read_option_text
  have h₅ := optional_record hnames (List.mem_of_getElem? (i := 5) rfl) read_option_u32
  rw [record, read_add, h₀, h₁, h₂, h₃, h₄, h₅]
  rfl

theorem read_remove_record {path : Bytes} {s : Str} (h : Text.fromUtf8 path = some s)
    (track_cmd : Option String) :
    read_remove (record (remove_fields s track_cmd)) = some (.remove path track_cmd) := by
  have hnames : ((remove_fields s track_cmd).map Prod.fst).Nodup := by
    show ["path", "track_cmd"].Nodup
    decide
  have h₀ := required_record hnames (List.mem_of_getElem? (i := 0) rfl) (read_path_string h)
  have h₁ := optional_record hnames (List.mem_of_getElem? (i := 1) rfl) read_option_text
  rw [record, read_remove, h₀, h₁]
  rfl

theorem read_subscribe_record (types : Option (List String)) (track_cmd : Option String)
    (local_time : Option Bool) :
    read_subscribe (record (subscribe_fields types track_cmd local_time)) =
      some (.subscribe types track_cmd local_time) := by
  have hnames : ((subscribe_fields types track_cmd local_time).map Prod.fst).Nodup := by
    show ["types", "track_cmd", "local_time"].Nodup
    decide
  have h₀ := optional_record hnames (List.mem_of_getElem? (i := 0) rfl) read_option_texts
  have h₁ := optional_record hnames (List.mem_of_getElem? (i := 1) rfl) read_option_text
  have h₂ := optional_record hnames (List.mem_of_getElem? (i := 2) rfl) read_option_bool
  rw [record, read_subscribe, h₀, h₁, h₂]
  rfl

theorem from_value_value {cmd : SocketCmd} {v : Value} (h : cmd.value = some v) : from_value v = some cmd := by
  cases cmd with
  | add path recursive types size track_cmd max_depth =>
      obtain ⟨s, hs, rfl⟩ := Option.map_eq_some_iff.1 h
      exact read_add_record hs recursive types size track_cmd max_depth
  | remove path track_cmd =>
      obtain ⟨s, hs, rfl⟩ := Option.map_eq_some_iff.1 h
      exact read_remove_record hs track_cmd
  | list =>
      cases h
      rfl
  | health =>
      cases h
      rfl
  | subscribe types track_cmd local_time =>
      cases h
      exact read_subscribe_record types track_cmd local_time

end SocketCmd

theorem PathEntry.from_value_value {e : PathEntry} {v : Value} (h : e.value = some v) :
    from_value v = some e := by
  obtain ⟨s, hs, rfl⟩ := Option.map_eq_some_iff.1 h
  have hnames : ((e.fields s).map Prod.fst).Nodup := by
    show ["cmd", "path", "recursive", "types", "size", "max_depth"].Nodup
    decide
  have h₀ := nullable_record hnames (List.mem_of_getElem? (i := 0) rfl) read_option_text
  have h₁ := required_record hnames (List.mem_of_getElem? (i := 1) rfl) (read_path_string hs)
  have h₂ := nullable_record hnames (List.mem_of_getElem? (i := 2) rfl) read_option_bool
  have h₃ := nullable_record hnames (List.mem_of_getElem? (i := 3) rfl) read_option_texts
  have h₄ := nullable_record hnames (List.mem_of_getElem? (i := 4) rfl) read_option_text
  have h₅ := optional_record hnames (List.mem_of_getElem? (i := 5) rfl) read_option_u32
  rw [record, from_value, h₀, h₁, h₂, h₃, h₄, h₅]
  rfl

theorem ReaderHealth.from_value_value (r : ReaderHealth) : from_value r.value = some r := by
  have hnames : (r.fields.map Prod.fst).Nodup := by
    show ["alive", "restarts", "fd"].Nodup
    decide
  have h₀ : required (present r.fields) "alive" read_bool = some r.alive :=
    required_record hnames (List.mem_of_getElem? (i := 0) rfl) rfl
  have h₁ := required_record hnames (List.mem_of_getElem? (i := 1) rfl) (Serde.read_u32_toNat r.restarts)
  have h₂ := required_record hnames (List.mem_of_getElem? (i := 2) rfl) (Serde.read_i32_toInt r.fd)
  rw [value, record, from_value, h₀, h₁, h₂]
  rfl

theorem HealthInfo.from_value_value (h : HealthInfo) : from_value h.value = some h := by
  have hnames : (h.fields.map Prod.fst).Nodup := by
    show ["uptime_secs", "channel_type", "monitored_paths", "reader_groups", "readers", "unprivileged",
      "dir_cache_misses", "factory_alive"].Nodup
    decide
  have h₀ := required_record hnames (List.mem_of_getElem? (i := 0) rfl) (Serde.read_u64_toNat h.uptime_secs)
  have h₁ := required_record hnames (List.mem_of_getElem? (i := 1) rfl) (read_string_text h.channel_type)
  have h₂ := required_record hnames (List.mem_of_getElem? (i := 2) rfl) (Serde.read_u64_toNat h.monitored_paths)
  have h₃ := required_record hnames (List.mem_of_getElem? (i := 3) rfl) (Serde.read_u64_toNat h.reader_groups)
  have h₄ := required_record hnames (List.mem_of_getElem? (i := 4) rfl)
    (Serde.read_vec_map ReaderHealth.from_value_value h.readers)
  have h₅ : defaulted (present h.fields) "unprivileged" false read_bool = some h.unprivileged :=
    defaulted_record hnames (List.mem_of_getElem? (i := 5) rfl) rfl
  have h₆ : defaulted (present h.fields) "dir_cache_misses" 0 read_u64 = some h.dir_cache_misses :=
    defaulted_record hnames (List.mem_of_getElem? (i := 6) rfl) (Serde.read_u64_toNat h.dir_cache_misses)
  have h₇ : defaulted (present h.fields) "factory_alive" false read_bool = some h.factory_alive :=
    defaulted_record hnames (List.mem_of_getElem? (i := 7) rfl) rfl
  rw [value, record, from_value, h₀, h₁, h₂, h₃, h₄, h₅, h₆, h₇]
  rfl

/-- The trees of some entries make up the entries. -/
theorem read_vec_mapM {α : Type} {value : α → Option Value} {item : Value → Option α}
    (h : ∀ a v, value a = some v → item v = some a) : ∀ {as : List α} {vs : List Value},
      as.mapM value = some vs → read_vec item (.array vs) = some as := by
  intro as
  induction as with
  | nil =>
      intro vs hvs
      cases hvs
      rfl
  | cons a as ih =>
      intro vs hvs
      rw [List.mapM_cons] at hvs
      obtain ⟨v, hv, hrest⟩ := Option.bind_eq_some_iff.1 hvs
      obtain ⟨ws, hws, heq⟩ := Option.bind_eq_some_iff.1 hrest
      cases heq
      have hrec : ws.mapM item = some as := ih hws
      rw [read_vec, List.mapM_cons, h a v hv, hrec]
      rfl

theorem SocketResponse.from_value_value {r : SocketResponse} {v : Value} (h : r.value = some v) :
    from_value v = some r := by
  cases r with
  | ok =>
      cases h
      rfl
  | paths entries =>
      obtain ⟨vs, hvs, rfl⟩ := Option.map_eq_some_iff.1 h
      show (read_vec PathEntry.from_value (.array vs)).map SocketResponse.paths = _
      rw [read_vec_mapM (fun e v => PathEntry.from_value_value) hvs]
      rfl
  | health info =>
      cases h
      show (HealthInfo.from_value info.value).map SocketResponse.health = _
      rw [HealthInfo.from_value_value]
      rfl

theorem SocketError.from_value_value (e : SocketError) : from_value e.value = some e := by
  cases e with
  | permanent msg =>
      show (read_string (text msg)).map SocketError.permanent = _
      rw [read_string_text]
      rfl
  | transient msg =>
      show (read_string (text msg)).map SocketError.transient = _
      rw [read_string_text]
      rfl

theorem Answer.from_value_value {a : Answer} {v : Value} (h : a.value = some v) : from_value v = some a := by
  cases a with
  | ok resp =>
      obtain ⟨w, hw, rfl⟩ := Option.map_eq_some_iff.1 h
      show (SocketResponse.from_value w).map Except.ok = _
      rw [SocketResponse.from_value_value hw]
      rfl
  | error e =>
      cases h
      show (SocketError.from_value e.value).map Except.error = _
      rw [SocketError.from_value_value]
      rfl

/-! ## How deep the trees are -/

theorem fits_text (depth : Nat) (s : String) : Fits depth (text s) := by cases depth <;> exact trivial

theorem fits_string (depth : Nat) (s : Str) : Fits depth (.string s) := by cases depth <;> exact trivial

theorem fits_bool (depth : Nat) (b : Bool) : Fits depth (bool b) := by cases depth <;> exact trivial

theorem fits_number (depth : Nat) {n : Int} (hmin : JsonText.I64_MIN ≤ n) (hmax : n ≤ JsonText.U64_MAX) :
    Fits depth (.number n) := by cases depth <;> exact ⟨hmin, hmax⟩

theorem fits_u64 (depth : Nat) (n : UInt64) : Fits depth (u64 n) := by
  have hn := n.toNat_lt
  exact fits_number depth (by rw [JsonText.I64_MIN]; omega) (by rw [JsonText.U64_MAX]; omega)

theorem fits_u32 (depth : Nat) (n : UInt32) : Fits depth (u32 n) := by
  have hn := n.toNat_lt
  exact fits_number depth (by rw [JsonText.I64_MIN]; omega) (by rw [JsonText.U64_MAX]; omega)

theorem fits_i32 (depth : Nat) (n : Int32) : Fits depth (i32 n) := by
  have hmin := n.le_toInt
  have hmax := n.toInt_lt
  exact fits_number depth (by rw [JsonText.I64_MIN]; omega) (by rw [JsonText.U64_MAX]; omega)

theorem fits_texts (depth : Nat) (l : List String) : Fits (depth + 1) (texts l) := by
  intro v hv
  obtain ⟨s, -, rfl⟩ := List.mem_map.1 hv
  exact fits_text depth s

theorem fits_tagged {depth : Nat} {v : Value} (tag : String) (h : Fits depth v) :
    Fits (depth + 1) (tagged tag v) := by
  intro m hm
  rw [List.mem_singleton.1 hm]
  exact h

theorem fits_nullable {α : Type} {depth : Nat} {write : α → Value} (h : ∀ a, Fits depth (write a))
    (o : Option α) : Fits depth (nullable write o) := by
  cases o with
  | none => cases depth <;> exact trivial
  | some a => exact h a

/-- A field fits, if it is there. -/
def FieldFits (depth : Nat) (f : String × Option Value) : Prop := ∀ v, f.2 = some v → Fits depth v

theorem FieldFits.here {depth : Nat} {v : Value} (h : Fits depth v) (name : String) :
    FieldFits depth (name, some v) := by
  intro w hw
  cases hw
  exact h

theorem FieldFits.optional {α : Type} {depth : Nat} {write : α → Value} (h : ∀ a, Fits depth (write a))
    (name : String) (o : Option α) : FieldFits depth (name, o.map write) := by
  intro w hw
  obtain ⟨a, -, rfl⟩ := Option.map_eq_some_iff.1 hw
  exact h a

theorem fieldFits_nil {depth : Nat} : ∀ f ∈ ([] : List (String × Option Value)), FieldFits depth f :=
  fun _ h => absurd h List.not_mem_nil

theorem fieldFits_cons {depth : Nat} {f : String × Option Value} {fields : List (String × Option Value)}
    (h : FieldFits depth f) (hrest : ∀ g ∈ fields, FieldFits depth g) : ∀ g ∈ f :: fields, FieldFits depth g :=
  List.forall_mem_cons.2 ⟨h, hrest⟩

theorem SocketCmd.fits {cmd : SocketCmd} {v : Value} (h : cmd.value = some v) : Fits 3 v := by
  cases cmd with
  | add path recursive types size track_cmd max_depth =>
      obtain ⟨s, -, rfl⟩ := Option.map_eq_some_iff.1 h
      exact fits_tagged _ (JsonText.fits_record (fieldFits_cons (.here (fits_string 1 s) _)
        (fieldFits_cons (.optional (fits_bool 1) _ _) (fieldFits_cons (.optional (fits_texts 0) _ _)
        (fieldFits_cons (.optional (fits_text 1) _ _) (fieldFits_cons (.optional (fits_text 1) _ _)
        (fieldFits_cons (.optional (fits_u32 1) _ _) fieldFits_nil)))))))
  | remove path track_cmd =>
      obtain ⟨s, -, rfl⟩ := Option.map_eq_some_iff.1 h
      exact fits_tagged _ (JsonText.fits_record (fieldFits_cons (.here (fits_string 1 s) _)
        (fieldFits_cons (.optional (fits_text 1) _ _) fieldFits_nil)))
  | list =>
      cases h
      exact fits_text 3 _
  | health =>
      cases h
      exact fits_text 3 _
  | subscribe types track_cmd local_time =>
      cases h
      exact fits_tagged _ (JsonText.fits_record (fieldFits_cons (.optional (fits_texts 0) _ _)
        (fieldFits_cons (.optional (fits_text 1) _ _) (fieldFits_cons (.optional (fits_bool 1) _ _)
        fieldFits_nil))))

theorem PathEntry.fits {e : PathEntry} {v : Value} (h : e.value = some v) : Fits 2 v := by
  obtain ⟨s, -, rfl⟩ := Option.map_eq_some_iff.1 h
  exact JsonText.fits_record (fieldFits_cons (.here (fits_nullable (fits_text 1) _) _)
    (fieldFits_cons (.here (fits_string 1 s) _) (fieldFits_cons (.here (fits_nullable (fits_bool 1) _) _)
    (fieldFits_cons (.here (fits_nullable (fits_texts 0) _) _)
    (fieldFits_cons (.here (fits_nullable (fits_text 1) _) _)
    (fieldFits_cons (.optional (fits_u32 1) _ _) fieldFits_nil))))))

theorem ReaderHealth.fits (r : ReaderHealth) : Fits 1 r.value :=
  JsonText.fits_record (fieldFits_cons (.here (fits_bool 0 _) _) (fieldFits_cons (.here (fits_u32 0 _) _)
    (fieldFits_cons (.here (fits_i32 0 _) _) fieldFits_nil)))

theorem HealthInfo.fits (h : HealthInfo) : Fits 3 h.value := by
  have hreaders : Fits 2 (.array (h.readers.map ReaderHealth.value)) := by
    intro v hv
    obtain ⟨r, -, rfl⟩ := List.mem_map.1 hv
    exact r.fits
  exact JsonText.fits_record (fieldFits_cons (.here (fits_u64 2 _) _) (fieldFits_cons (.here (fits_text 2 _) _)
    (fieldFits_cons (.here (fits_u64 2 _) _) (fieldFits_cons (.here (fits_u64 2 _) _)
    (fieldFits_cons (.here hreaders _) (fieldFits_cons (.here (fits_bool 2 _) _)
    (fieldFits_cons (.here (fits_u64 2 _) _) (fieldFits_cons (.here (fits_bool 2 _) _) fieldFits_nil))))))))

theorem mem_of_mapM {α β : Type} {value : α → Option β} : ∀ {as : List α} {vs : List β},
    as.mapM value = some vs → ∀ v ∈ vs, ∃ a ∈ as, value a = some v := by
  intro as
  induction as with
  | nil =>
      intro vs hvs v hv
      cases hvs
      cases hv
  | cons a as ih =>
      intro vs hvs v hv
      rw [List.mapM_cons] at hvs
      obtain ⟨w, hw, hrest⟩ := Option.bind_eq_some_iff.1 hvs
      obtain ⟨ws, hws, heq⟩ := Option.bind_eq_some_iff.1 hrest
      cases heq
      rcases List.mem_cons.1 hv with rfl | hv
      · exact ⟨a, List.mem_cons_self, hw⟩
      · obtain ⟨b, hb, hbv⟩ := ih hws v hv
        exact ⟨b, List.mem_cons_of_mem _ hb, hbv⟩

theorem SocketResponse.fits {r : SocketResponse} {v : Value} (h : r.value = some v) : Fits 4 v := by
  cases r with
  | ok =>
      cases h
      exact fits_text 4 _
  | paths entries =>
      obtain ⟨vs, hvs, rfl⟩ := Option.map_eq_some_iff.1 h
      refine @fits_tagged 3 _ _ fun v hv => ?_
      obtain ⟨e, -, he⟩ := mem_of_mapM hvs v hv
      exact PathEntry.fits he
  | health info =>
      cases h
      exact fits_tagged _ info.fits

theorem SocketError.fits (e : SocketError) : Fits 1 e.value := by
  cases e with
  | permanent msg => exact fits_tagged _ (fits_text 0 msg)
  | transient msg => exact fits_tagged _ (fits_text 0 msg)

theorem Answer.fits {a : Answer} {v : Value} (h : a.value = some v) : Fits 5 v := by
  cases a with
  | ok resp =>
      obtain ⟨w, hw, rfl⟩ := Option.map_eq_some_iff.1 h
      exact fits_tagged _ (SocketResponse.fits hw)
  | error e =>
      cases h
      exact fits_tagged _ (e.fits.mono (by decide))

/-! ## The protocol -/

section
variable (json : Str → Option Value)

/-- What `send_cmd` writes; then it closes its side. -/
def request (cmd : SocketCmd) : Option Str := cmd.to_string.map fun json => json ++ ['\n']

/-- `serde_json::from_str` for the daemon's two questions: is it JSON, and is it a command. -/
def is_json (s : Str) : Bool := (json s).isSome

def parse_cmd (cmd_str : Str) : Option SocketCmd := (json cmd_str).bind SocketCmd.from_value

/-- What `handle_socket_accept` writes for an answer: nothing, if it cannot be printed. -/
def reply (a : Answer) : Str := (a.value.map fun v => print Json.escape v ++ ['\n']).getD []

/-- The response, or the error, by itself. -/
def bare_value : Answer → Option Value
  | .ok resp => resp.value
  | .error e => some e.value

/-- What `write_resp_and_close` writes. -/
def write_resp_and_close (a : Answer) : Str := ((bare_value a).map (print Json.escape)).getD [] ++ ['\n']

/-- What `send_cmd` makes of all that the daemon writes. -/
def read_response (why : Str → String) (response : Str) : Answer :=
  if trim response = [] then .error (.transient "Empty response from daemon")
  else
    match (json (trim response)).bind Answer.from_value with
    | none => .error (.transient ("Failed to parse daemon response: " ++ why (trim response)))
    | some answer => answer

end

theorem isWhitespace_visible {c : Char} (h : JsonText.Visible c) : Text.isWhitespace c = false := by
  obtain ⟨hlow, hhigh⟩ := h
  simp only [Text.isWhitespace, Bool.or_eq_false_iff, Bool.and_eq_false_iff, decide_eq_false_iff_not,
    beq_eq_false_iff_ne]
  omega

/-- A newline behind a text without blanks at its ends is trimmed. -/
theorem trim_newline {s : Str} (hhead : ∃ c r, s = c :: r ∧ JsonText.Visible c)
    (hlast : ∃ c r, s = r ++ [c] ∧ JsonText.Visible c) : trim (s ++ ['\n']) = s := by
  have hfront : (s ++ ['\n']).dropWhile Text.isWhitespace = s ++ ['\n'] := by
    obtain ⟨c, r, rfl, hc⟩ := hhead
    rw [List.cons_append, List.dropWhile_cons, isWhitespace_visible hc]
    rfl
  have hback : s.reverse.dropWhile Text.isWhitespace = s.reverse := by
    obtain ⟨c, r, rfl, hc⟩ := hlast
    rw [List.reverse_append, List.reverse_singleton, List.singleton_append, List.dropWhile_cons,
      isWhitespace_visible hc]
    rfl
  have hnewline : ('\n' :: s.reverse).dropWhile Text.isWhitespace = s.reverse := hback
  rw [trim, hfront, List.reverse_append, List.reverse_singleton, List.singleton_append, hnewline,
    List.reverse_reverse]

theorem newline_notMem_print (v : Value) : '\n' ∉ print Json.escape v := by
  refine JsonText.newline_notMem_print (fun c hc => Json.newline_notMem_escaped [c] ?_) v
  rw [List.flatMap_cons, List.flatMap_nil, List.append_nil]
  exact hc

theorem print_ne_nil (v : Value) : print Json.escape v ≠ [] := by
  obtain ⟨c, r, heq, -⟩ := (@JsonText.printable_ends Json.escape v).1
  rw [heq]
  exact List.cons_ne_nil c r

theorem trim_print (v : Value) : trim (print Json.escape v ++ ['\n']) = print Json.escape v :=
  trim_newline (JsonText.printable_ends v).1 (JsonText.printable_ends v).2

/-- A line and its newline are one line. -/
theorem lines_append_newline : ∀ {s : Str}, '\n' ∉ s → Accept.lines (s ++ ['\n']) = [s ++ ['\n']] := by
  intro s
  induction s with
  | nil =>
      intro _
      rfl
  | cons c s ih =>
      intro h
      have hc : c ≠ '\n' := fun hc => h (hc ▸ List.mem_cons_self)
      rw [List.cons_append, Accept.lines, if_neg hc, ih fun hs => h (List.mem_cons_of_mem _ hs)]

section
variable {json : Str → Option Value}

theorem json_print (hjson : ReadsJson json) {v : Value} {depth : Nat} (h : Fits depth v)
    (hdepth : depth ≤ MAX_DEPTH) : json (print Json.escape v) = some v :=
  hjson v _ (JsonText.denotes_print Serde.spells_escape MAX_DEPTH v (h.mono hdepth))

/-- What a client sends: one line, which the daemon reads whole and takes for the command. -/
theorem request_line (hjson : ReadsJson json) {cmd : SocketCmd} {bytes : Str} (h : request cmd = some bytes) :
    ∃ s, bytes = s ++ ['\n'] ∧ '\n' ∉ s ∧ s ≠ [] ∧ trim bytes = s ∧ is_json json s = true ∧
      parse_cmd json s = some cmd := by
  obtain ⟨s, hs, rfl⟩ := Option.map_eq_some_iff.1 h
  obtain ⟨v, hv, rfl⟩ := Option.map_eq_some_iff.1 hs
  have hread := json_print hjson (SocketCmd.fits hv) (by decide)
  refine ⟨_, rfl, newline_notMem_print v, print_ne_nil v, trim_print v, ?_, ?_⟩
  · rw [is_json, hread]
    rfl
  · rw [parse_cmd, hread]
    exact SocketCmd.from_value_value hv

/-- The daemon reads one text of what a client sends, and takes it for the command. -/
theorem command_of_request (hjson : ReadsJson json) {cmd : SocketCmd} {bytes : Str}
    (h : request cmd = some bytes) : ∃ cmd_str,
    Accept.command (is_json json) [] (Accept.lines bytes) = some cmd_str ∧ parse_cmd json cmd_str = some cmd := by
  obtain ⟨s, rfl, hline, -, htrim, hsome, hparse⟩ := request_line hjson h
  refine ⟨s, ?_, hparse⟩
  rw [lines_append_newline hline, Accept.command, List.nil_append, htrim, if_pos hsome]

/-- **What a client sends is the command that the daemon reads**, whatever the command. -/
theorem command_delivered (hjson : ReadsJson json) {cmd : SocketCmd} {bytes : Str}
    (h : request cmd = some bytes) :
    (Accept.command (is_json json) [] (Accept.lines bytes)).bind (parse_cmd json) = some cmd := by
  obtain ⟨cmd_str, hcommand, hparse⟩ := command_of_request hjson h
  rw [hcommand]
  exact hparse

/-- The reader of the library reads what a text stands for. -/
theorem read_readsJson : ReadsJson (JsonText.read MAX_DEPTH) := fun _ _ h => JsonText.read_of_denotes h

/-- Everything below `/home`, for a command with a quotation mark in its name. -/
def addHome : SocketCmd := .add (Text.encode "/home".toList) (some true) (some ["MODIFY"]) none (some "a\"b") (some 3)

theorem command_delivered_addHome : ∃ bytes, request addHome = some bytes ∧
    (Accept.command (is_json (JsonText.read MAX_DEPTH)) [] (Accept.lines bytes)).bind
      (parse_cmd (JsonText.read MAX_DEPTH)) = some addHome := by
  have hpath : ∃ bytes, request addHome = some bytes := by
    rw [request, SocketCmd.to_string, addHome, SocketCmd.value, Text.fromUtf8_encode]
    exact ⟨_, rfl⟩
  obtain ⟨bytes, hbytes⟩ := hpath
  exact ⟨bytes, hbytes, command_delivered read_readsJson hbytes⟩

/-! ## Answers -/

/-- The paths that a response lists are UTF-8. -/
def Answer.has_utf8_paths : Answer → Bool
  | .ok (.paths entries) => entries.all fun e => (Text.fromUtf8 e.path).isSome
  | _ => true

theorem mapM_isSome {α β : Type} (f : α → Option β) : ∀ as : List α,
    (as.mapM f).isSome = as.all fun a => (f a).isSome := by
  intro as
  induction as with
  | nil => rfl
  | cons a as ih =>
      rw [List.mapM_cons, List.all_cons, ← ih]
      cases f a with
      | none => rfl
      | some b => cases as.mapM f <;> rfl

theorem Answer.value_isSome (a : Answer) : a.value.isSome = a.has_utf8_paths := by
  cases a with
  | error e => rfl
  | ok resp =>
      cases resp with
      | ok => rfl
      | health info => rfl
      | paths entries =>
          have hentry : ∀ e : PathEntry, e.value.isSome = (Text.fromUtf8 e.path).isSome := fun e =>
            Option.isSome_map
          rw [value, SocketResponse.value, Option.isSome_map, Option.isSome_map, mapM_isSome,
            has_utf8_paths]
          exact congrArg entries.all (funext hentry)

/-- **What the daemon answers is what the client returns**; an answer with a path that is not UTF-8 is not
written, and the client has an error of its own. -/
theorem answer_received (hjson : ReadsJson json) (why : Str → String) (a : Answer) :
    read_response json why (reply a) =
      if a.has_utf8_paths then a else .error (.transient "Empty response from daemon") := by
  rw [← a.value_isSome]
  cases hv : a.value with
  | none =>
      rw [reply, hv]
      rfl
  | some v =>
      have hread := json_print hjson (Answer.fits hv) (by decide)
      have hreply : reply a = print Json.escape v ++ ['\n'] := by
        rw [reply, hv]
        rfl
      rw [read_response, hreply, trim_print, if_neg (print_ne_nil v), hread, Option.bind_some,
        Answer.from_value_value hv]
      rfl

theorem answer_received_error : read_response (JsonText.read MAX_DEPTH) (fun _ => "")
    (reply (.error (.permanent "log directory"))) = .error (.permanent "log directory") :=
  answer_received read_readsJson (fun _ => "") (.error (.permanent "log directory"))

/-- A response or an error by itself is no `Result`. -/
theorem bare_not_answer {a : Answer} {v : Value} (h : bare_value a = some v) : Answer.from_value v = none := by
  cases a with
  | error e =>
      cases h
      cases e with
      | permanent msg => rfl
      | transient msg => rfl
  | ok resp =>
      cases resp with
      | ok =>
          cases h
          rfl
      | health info =>
          cases h
          rfl
      | paths entries =>
          obtain ⟨vs, -, rfl⟩ := Option.map_eq_some_iff.1 h
          rfl

theorem bare_fits {a : Answer} {v : Value} (h : bare_value a = some v) : Fits 4 v := by
  cases a with
  | error e =>
      cases h
      exact e.fits.mono (by decide)
  | ok resp => exact SocketResponse.fits h

/-- What `write_resp_and_close` writes, a client never takes for the answer that it is: it has an error of its
own, and a transient one. -/
theorem bare_answer_unreadable (hjson : ReadsJson json) (why : Str → String) (a : Answer) :
    ∃ msg, read_response json why (write_resp_and_close a) = .error (.transient msg) ∧
      (msg = "Empty response from daemon" ∨ ∃ s, msg = "Failed to parse daemon response: " ++ why s) := by
  cases hbare : bare_value a with
  | none =>
      rw [write_resp_and_close, hbare]
      exact ⟨_, rfl, .inl rfl⟩
  | some v =>
      have hread := json_print hjson (bare_fits hbare) (by decide)
      have hwritten : write_resp_and_close a = print Json.escape v ++ ['\n'] := by
        rw [write_resp_and_close, hbare]
        rfl
      rw [read_response, hwritten, trim_print, if_neg (print_ne_nil v), hread, Option.bind_some,
        bare_not_answer hbare]
      exact ⟨_, rfl, .inr ⟨_, rfl⟩⟩

/-- "subscriptions disabled", as a subscriber is told. -/
theorem bare_answer_unreadable_disabled : ∃ msg, read_response (JsonText.read MAX_DEPTH) (fun _ => "")
    (write_resp_and_close (.error (.permanent "subscriptions disabled"))) = .error (.transient msg) := by
  obtain ⟨msg, hmsg, -⟩ := bare_answer_unreadable read_readsJson (fun _ => "")
    (.error (.permanent "subscriptions disabled"))
  exact ⟨msg, hmsg⟩

end

/-! ## Clients at the daemon -/

section
open Accept Accept.Server
variable (json : Str → Option Value) (cmds : Nat → SocketCmd)

/-- What the clients send: all call `send_cmd`, each with a command of its own; a command that cannot be printed
is not sent, and the connection is closed. -/
def sent (id : Nat) : Str := (request (cmds id)).getD []

variable {json cmds}

end

end Fsmon.Wire
