/-
# `Fsmon.Jsonl.Serde` — a record and its values

What `serde` makes of `FileEvent` and `ChainLink`, both ways.  The event is taken
in the source's own types here: the widths of the numbers, and the path as it is
spelled.  A line stands for the values of the fields, and the values make up the
event again.

    coarse_to_jsonl_string        the lines are those of `Fsmon.Jsonl`
    spells_escape                 an escaped character is one character of a string
    FileEvent.line_denotes        a line stands for the values
    FileEvent.from_value_value    the values make up the event
-/
import Fsmon.Jsonl.Document
import Fsmon.Text.Decode

namespace Fsmon.Serde

open JsonText (Value Denotes StringText Spells)

/-! ## The record -/

/-- One ancestry link of a file event chain. -/
structure ChainLink where
  pid : UInt32
  comm : String
  cmd : String
  user : String
  deriving DecidableEq

/-- A single filesystem event record. -/
structure FileEvent where
  time : Int
  event_type : EventType
  path : Bytes
  pid : UInt32
  comm : String
  cmd : String
  user : String
  file_size : UInt64
  ppid : UInt32
  tgid : UInt32
  chain : List ChainLink
  fs_error : Option (Int32 × UInt32)
  deriving DecidableEq

/-- The record without the widths, with a path in place of its spelling. -/
def FileEvent.coarse (e : FileEvent) (path : PathBuf) : Fsmon.FileEvent :=
  { time := e.time, event_type := e.event_type, path, pid := e.pid.toNat, comm := e.comm, cmd := e.cmd,
    user := e.user, file_size := e.file_size.toNat, ppid := e.ppid.toNat, tgid := e.tgid.toNat,
    chain := e.chain.map fun l => ⟨l.pid.toNat, l.comm, l.cmd, l.user⟩,
    fs_error := e.fs_error.map fun r => (r.1.toInt, r.2.toNat) }

/-! ## Writing -/

namespace ChainLink

def toJson (l : ChainLink) : Str :=
  Json.object
    [("pid", Json.nat l.pid.toNat), ("comm", Json.string l.comm.toList),
      ("cmd", Json.string l.cmd.toList), ("user", Json.string l.user.toList)]

def members (l : ChainLink) : List (Str × Value) :=
  [("pid".toList, .number l.pid.toNat), ("comm".toList, .string l.comm.toList),
    ("cmd".toList, .string l.cmd.toList), ("user".toList, .string l.user.toList)]

def value (l : ChainLink) : Value := .object l.members

end ChainLink

namespace FileEvent

/-- The fields behind the time, in the order of the struct. -/
def further (e : FileEvent) (path : Str) : List (String × Str) :=
  [("event_type", Json.string e.event_type.toString.toList),
    ("path", Json.string path),
    ("pid", Json.nat e.pid.toNat),
    ("comm", Json.string e.comm.toList),
    ("cmd", Json.string e.cmd.toList),
    ("user", Json.string e.user.toList),
    ("file_size", Json.nat e.file_size.toNat),
    ("ppid", Json.nat e.ppid.toNat),
    ("tgid", Json.nat e.tgid.toNat),
    ("chain", Json.array (e.chain.map ChainLink.toJson))] ++
  (e.fs_error.map fun r => ("fs_error", Json.array [Json.int r.1.toInt, Json.nat r.2.toNat])).toList

/-- The values of the fields, with a time in some spelling. -/
def members (e : FileEvent) (time path : Str) : List (Str × Value) :=
  [("time".toList, .string time),
    ("event_type".toList, .string e.event_type.toString.toList),
    ("path".toList, .string path),
    ("pid".toList, .number e.pid.toNat),
    ("comm".toList, .string e.comm.toList),
    ("cmd".toList, .string e.cmd.toList),
    ("user".toList, .string e.user.toList),
    ("file_size".toList, .number e.file_size.toNat),
    ("ppid".toList, .number e.ppid.toNat),
    ("tgid".toList, .number e.tgid.toNat),
    ("chain".toList, .array (e.chain.map ChainLink.value))] ++
  (e.fs_error.map fun r =>
    ("fs_error".toList, Value.array [.number r.1.toInt, .number r.2.toNat])).toList

def value (e : FileEvent) (time path : Str) : Value := .object (e.members time path)

section
variable [Chrono]

/-- `serde_json::to_string`. -/
def to_string (e : FileEvent) : Except Str Str :=
  match Text.fromUtf8 e.path with
  | none => .error "path contains invalid UTF-8 characters".toList
  | some path => .ok (Json.object (("time", Json.string (Chrono.utc e.time)) :: e.further path))

/-- Serialize to a single JSON line; `none` is the panic of `expect`. -/
def to_jsonl_string (e : FileEvent) : Option Str := e.to_string.toOption

/-- Serialize to JSONL with the timestamp converted to local time. -/
def to_jsonl_string_local (e : FileEvent) : Option Str :=
  e.to_jsonl_string.map fun json => Fsmon.FileEvent.patch_time json (Chrono.local_rfc3339 e.time)

theorem coarse_fields (e : FileEvent) (p : PathBuf) (path : Str) :
    (e.coarse p).fields (Json.string path) =
      ("time", Json.string (Chrono.utc e.time)) :: e.further path := by
  have hchain : (e.coarse p).chain.map Fsmon.ChainLink.toJson = e.chain.map ChainLink.toJson := by
    rw [coarse, List.map_map]
    rfl
  rw [Fsmon.FileEvent.fields, hchain, further, coarse, Option.map_map]
  rfl

/-- For a path that is spelled plainly, this is what `Fsmon.Jsonl` writes. -/
theorem coarse_to_jsonl_string {e : FileEvent} {p : PathBuf} (h : p.toBytes = e.path) :
    (e.coarse p).to_jsonl_string = e.to_jsonl_string ∧
      (e.coarse p).to_jsonl_string_local = e.to_jsonl_string_local := by
  have hpath : (e.coarse p).path.toBytes = e.path := h
  have hstring : (e.coarse p).to_string = e.to_string := by
    rw [Fsmon.FileEvent.to_string, serialize_path, hpath, to_string]
    cases Text.fromUtf8 e.path with
    | none => rfl
    | some path =>
        dsimp only
        rw [coarse_fields]
  have hjson : (e.coarse p).to_jsonl_string = e.to_jsonl_string := congrArg Except.toOption hstring
  refine ⟨hjson, ?_⟩
  rw [Fsmon.FileEvent.to_jsonl_string_local, hjson]
  rfl

end

end FileEvent

/-! ## Reading -/

section
variable {α : Type}

/-- A field that must be there. -/
def required (ms : List (Str × Value)) (name : String) (read : Value → Option α) : Option α :=
  match JsonText.member ms name.toList with
  | some (some v) => read v
  | _ => none

/-- `#[serde(default)]`. -/
def defaulted (ms : List (Str × Value)) (name : String) (default : α) (read : Value → Option α) :
    Option α :=
  match JsonText.member ms name.toList with
  | some (some v) => read v
  | some none => some default
  | none => none

/-- An integer in the range of its type. -/
def read_integer (min max : Int) (cast : Int → α) : Value → Option α
  | .number n => if min ≤ n ∧ n ≤ max then some (cast n) else none
  | _ => none

def read_u32 : Value → Option UInt32 := read_integer 0 4294967295 fun n => UInt32.ofNat n.toNat

def read_u64 : Value → Option UInt64 :=
  read_integer 0 18446744073709551615 fun n => UInt64.ofNat n.toNat

def read_i32 : Value → Option Int32 := read_integer (-2147483648) 2147483647 Int32.ofInt

/-- A string, by what its characters stand for. -/
def read_text (parse : Str → Option α) : Value → Option α
  | .string s => parse s
  | _ => none

def read_string : Value → Option String := read_text fun s => some (String.ofList s)

def read_vec (item : Value → Option α) : Value → Option (List α)
  | .array vs => vs.mapM item
  | _ => none

/-- `Option`: `null` for none. -/
def read_option (some_value : Value → Option α) : Value → Option (Option α)
  | .null => some none
  | v => (some_value v).map some

def read_pair {β : Type} (first : Value → Option α) (second : Value → Option β) : Value → Option (α × β)
  | .array [v, w] => (first v).bind fun a => (second w).map fun b => (a, b)
  | _ => none

end

/-- The variants, by the names they are written with. -/
def VARIANTS : List EventType := EventType.ALL ++ [.rename]

def parse_event_type (s : Str) : Option EventType := VARIANTS.find? fun t => t.toString.toList = s

/-- `Deserialize for ChainLink`. -/
def ChainLink.from_value : Value → Option ChainLink
  | .object ms => do
      let pid ← required ms "pid" read_u32
      let comm ← required ms "comm" read_string
      let cmd ← required ms "cmd" read_string
      let user ← required ms "user" read_string
      return { pid, comm, cmd, user }
  | _ => none

namespace FileEvent
variable (json : Str → Option Value) (parse : Str → Option Int)

/-- `Deserialize for FileEvent`. -/
def from_value : Value → Option FileEvent
  | .object ms => do
      let time ← required ms "time" (read_text parse)
      let event_type ← required ms "event_type" (read_text parse_event_type)
      let path ← required ms "path" (read_text fun s => some (Text.encode s))
      let pid ← required ms "pid" read_u32
      let comm ← required ms "comm" read_string
      let cmd ← required ms "cmd" read_string
      let user ← required ms "user" read_string
      let file_size ← required ms "file_size" read_u64
      let ppid ← defaulted ms "ppid" 0 read_u32
      let tgid ← defaulted ms "tgid" 0 read_u32
      let chain ← defaulted ms "chain" [] (read_vec ChainLink.from_value)
      let fs_error ← defaulted ms "fs_error" none (read_option (read_pair read_i32 read_u32))
      return { time, event_type, path, pid, comm, cmd, user, file_size, ppid, tgid, chain, fs_error }
  | _ => none

/-- Deserialize from a single JSON line. -/
def from_jsonl_str (s : Str) : Option FileEvent := (json s).bind (from_value parse)

end FileEvent

/-! ## A line stands for its values -/

theorem spells_escape (c : Char) : Spells c (Json.escape c) := by
  have hhex : ∀ n < 32, JsonText.hex '0' '0' (Nat.digitChar (n / 16)) (Nat.digitChar (n % 16)) = some n := by
    decide
  rcases Json.escape_forms c with ⟨l, hl, he⟩ | ⟨hlt, he⟩ | ⟨hquote, hback, hge, he⟩
  · rw [he]
    exact .short hl
  · rw [he]
    exact .unicode (hhex _ hlt)
  · rw [he]
    exact .plain hquote hback hge

theorem string_text (s : Str) : StringText s (Json.string s) := by
  refine ⟨s.map Json.escape, ?_, ?_⟩
  · rw [List.forall₂_map_right_iff, List.forall₂_same]
    exact fun c _ => spells_escape c
  · rw [Json.string, List.flatMap_def]
    rfl

theorem string_denotes (depth : Nat) (s : Str) : Denotes depth (.string s) (Json.string s) := by
  cases depth <;> exact string_text s

theorem int_denotes (depth : Nat) {n : Int} (hmin : JsonText.I64_MIN ≤ n) (hmax : n ≤ JsonText.U64_MAX) :
    Denotes depth (.number n) (Json.int n) := by
  have htext : Json.int n = JsonText.decimal n := by
    cases n with
    | ofNat n => exact Nat.toList_repr
    | negSucc n =>
        show ("-" ++ Nat.repr (n + 1)).toList = '-' :: Nat.toDigits 10 (n + 1)
        rw [String.toList_append, Nat.toList_repr]
        rfl
  cases depth <;> exact ⟨hmin, hmax, htext⟩

theorem nat_denotes (depth : Nat) {n : Nat} (h : n ≤ 18446744073709551615) :
    Denotes depth (.number n) (Json.nat n) :=
  @int_denotes depth n (by rw [JsonText.I64_MIN]; omega) (by rw [JsonText.U64_MAX]; omega)

theorem intercalate_eq_commas (ts : List Str) : List.intercalate [','] ts = JsonText.commas ts := by
  cases ts with
  | nil => rfl
  | cons t ts =>
      rw [Json.intercalate_cons]
      induction ts generalizing t with
      | nil => exact List.append_nil t
      | cons u ts ih =>
          rw [JsonText.commas_head, if_neg (List.cons_ne_nil _ _), ← ih u, List.flatMap_cons,
            List.cons_append]

theorem array_denotes {depth : Nat} {vs : List Value} {ts : List Str}
    (h : List.Forall₂ (Denotes depth) vs ts) : Denotes (depth + 1) (.array vs) (Json.array ts) := by
  refine ⟨ts, h, ?_⟩
  rw [Json.array, intercalate_eq_commas]

/-- The field is the member, as text. -/
def FieldDenotes (depth : Nat) (m : Str × Value) (f : String × Str) : Prop :=
  m.1 = f.1.toList ∧ Denotes depth m.2 f.2

theorem object_denotes {depth : Nat} {ms : List (Str × Value)} {fields : List (String × Str)}
    (h : List.Forall₂ (FieldDenotes depth) ms fields) :
    Denotes (depth + 1) (.object ms) (Json.object fields) := by
  refine ⟨fields.map fun f => Json.string f.1.toList ++ ':' :: f.2, ?_, ?_⟩
  · rw [List.forall₂_map_right_iff]
    refine h.imp ?_
    rintro m f ⟨hname, hvalue⟩
    exact ⟨_, _, hname ▸ string_text _, hvalue, rfl⟩
  · rw [Json.object, intercalate_eq_commas]
    rfl

theorem u32_denotes (depth : Nat) (n : UInt32) : Denotes depth (.number n.toNat) (Json.nat n.toNat) :=
  nat_denotes depth (by have hn := n.toNat_lt; omega)

theorem ChainLink.toJson_denotes (depth : Nat) (l : ChainLink) :
    Denotes (depth + 1) l.value l.toJson :=
  object_denotes (.cons ⟨rfl, u32_denotes _ _⟩ (.cons ⟨rfl, string_denotes _ _⟩
    (.cons ⟨rfl, string_denotes _ _⟩ (.cons ⟨rfl, string_denotes _ _⟩ .nil))))

namespace FileEvent

theorem fs_error_denotes (depth : Nat) (r : Int32 × UInt32) :
    Denotes (depth + 1) (.array [.number r.1.toInt, .number r.2.toNat])
      (Json.array [Json.int r.1.toInt, Json.nat r.2.toNat]) := by
  have hmin := Int32.le_toInt r.1
  have hmax := Int32.toInt_lt r.1
  refine array_denotes (.cons (int_denotes _ ?_ ?_) (.cons (u32_denotes _ _) .nil))
  · rw [JsonText.I64_MIN]
    omega
  · rw [JsonText.U64_MAX]
    omega

/-- A record with a time in some spelling stands for its values. -/
theorem line_denotes (depth : Nat) (e : FileEvent) (time path : Str) {text : Str}
    (ht : StringText time text) :
    Denotes (depth + 3) (e.value time path) (Json.object (("time", text) :: e.further path)) := by
  have htime : Denotes (depth + 2) (.string time) text := ht
  have hchain : Denotes (depth + 2) (.array (e.chain.map ChainLink.value))
      (Json.array (e.chain.map ChainLink.toJson)) := by
    refine array_denotes ?_
    rw [List.forall₂_map_left_iff, List.forall₂_map_right_iff, List.forall₂_same]
    exact fun l _ => l.toJson_denotes depth
  refine object_denotes (.cons ⟨rfl, htime⟩ (.cons ⟨rfl, string_denotes _ _⟩
    (.cons ⟨rfl, string_denotes _ _⟩ (.cons ⟨rfl, u32_denotes _ _⟩ (.cons ⟨rfl, string_denotes _ _⟩
    (.cons ⟨rfl, string_denotes _ _⟩ (.cons ⟨rfl, string_denotes _ _⟩
    (.cons ⟨rfl, nat_denotes _ ?_⟩ (.cons ⟨rfl, u32_denotes _ _⟩ (.cons ⟨rfl, u32_denotes _ _⟩
    (.cons ⟨rfl, hchain⟩ ?_)))))))))))
  · have hsize := e.file_size.toNat_lt
    omega
  · cases e.fs_error with
    | none => exact .nil
    | some r => exact .cons ⟨rfl, fs_error_denotes _ r⟩ .nil

end FileEvent

/-! ## The values make up the event -/

section
variable {α : Type} {ms : List (Str × Value)} {name : String} {v : Value} {read : Value → Option α} {a : α}

theorem required_of_mem (hnodup : (ms.map Prod.fst).Nodup) (hmem : (name.toList, v) ∈ ms)
    (hread : read v = some a) : required ms name read = some a := by
  rw [required, JsonText.member_of_mem hnodup hmem]
  exact hread

theorem defaulted_of_mem {default : α} (hnodup : (ms.map Prod.fst).Nodup) (hmem : (name.toList, v) ∈ ms)
    (hread : read v = some a) : defaulted ms name default read = some a := by
  rw [defaulted, JsonText.member_of_mem hnodup hmem]
  exact hread

theorem defaulted_of_notMem {default : α} (h : name.toList ∉ ms.map Prod.fst) :
    defaulted ms name default read = some default := by
  rw [defaulted, JsonText.member_of_notMem h]

end

theorem read_u32_toNat (n : UInt32) : read_u32 (.number n.toNat) = some n := by
  have hn := n.toNat_lt
  rw [read_u32, read_integer, if_pos ⟨by omega, by omega⟩, Int.toNat_natCast, UInt32.ofNat_toNat]

theorem read_u64_toNat (n : UInt64) : read_u64 (.number n.toNat) = some n := by
  have hn := n.toNat_lt
  rw [read_u64, read_integer, if_pos ⟨by omega, by omega⟩, Int.toNat_natCast, UInt64.ofNat_toNat]

theorem read_i32_toInt (n : Int32) : read_i32 (.number n.toInt) = some n := by
  have hmin := n.le_toInt
  have hmax := n.toInt_lt
  rw [read_i32, read_integer, if_pos ⟨by omega, by omega⟩, Int32.ofInt_toInt]

theorem read_string_toList (s : String) : read_string (.string s.toList) = some s :=
  congrArg some String.ofList_toList

theorem parse_event_type_toString (t : EventType) : parse_event_type t.toString.toList = some t := by
  cases t <;> decide

theorem ChainLink.from_value_value (l : ChainLink) : from_value l.value = some l := by
  have hnames : (l.members.map Prod.fst).Nodup := by
    rw [show l.members.map Prod.fst = ["pid".toList, "comm".toList, "cmd".toList, "user".toList] from rfl]
    decide
  have hpid : required l.members "pid" read_u32 = some l.pid :=
    required_of_mem hnames (List.mem_of_getElem? (i := 0) rfl) (read_u32_toNat l.pid)
  have hcomm : required l.members "comm" read_string = some l.comm :=
    required_of_mem hnames (List.mem_of_getElem? (i := 1) rfl) (read_string_toList l.comm)
  have hcmd : required l.members "cmd" read_string = some l.cmd :=
    required_of_mem hnames (List.mem_of_getElem? (i := 2) rfl) (read_string_toList l.cmd)
  have huser : required l.members "user" read_string = some l.user :=
    required_of_mem hnames (List.mem_of_getElem? (i := 3) rfl) (read_string_toList l.user)
  rw [value, from_value, hpid, hcomm, hcmd, huser]
  rfl

theorem read_vec_map {α : Type} {item : Value → Option α} {value : α → Value}
    (h : ∀ a, item (value a) = some a) (as : List α) : read_vec item (.array (as.map value)) = some as := by
  rw [read_vec]
  induction as with
  | nil => rfl
  | cons a as ih =>
      rw [List.map_cons, List.mapM_cons, h, ih]
      rfl

namespace FileEvent

/-- The names of the fields. -/
def NAMES : List String :=
  ["time", "event_type", "path", "pid", "comm", "cmd", "user", "file_size", "ppid", "tgid", "chain",
    "fs_error"]

theorem members_names (e : FileEvent) (time path : Str) : (e.members time path).map Prod.fst =
    (if e.fs_error = none then NAMES.dropLast else NAMES).map String.toList := by
  rw [members]
  cases e.fs_error with
  | none => rfl
  | some r => rfl

theorem members_nodup (e : FileEvent) (time path : Str) : ((e.members time path).map Prod.fst).Nodup := by
  rw [members_names]
  split
  · decide
  · decide

theorem read_fs_error (e : FileEvent) (time path : Str) :
    defaulted (e.members time path) "fs_error" none (read_option (read_pair read_i32 read_u32)) =
      some e.fs_error := by
  cases h : e.fs_error with
  | none =>
      refine defaulted_of_notMem ?_
      rw [members_names, if_pos h]
      decide
  | some r =>
      have hmem : ("fs_error".toList, Value.array [.number r.1.toInt, .number r.2.toNat]) ∈
          e.members time path := by
        rw [members, h]
        exact List.mem_of_getElem? (i := 11) rfl
      refine defaulted_of_mem (e.members_nodup time path) hmem ?_
      show (read_pair read_i32 read_u32 _).map some = some (some r)
      rw [read_pair, read_i32_toInt, read_u32_toNat]
      rfl

/-- **The values of an event make it up again**, with any time that is read as the event's. -/
theorem from_value_value {parse : Str → Option Int} {e : FileEvent} {time path : Str}
    (htime : parse time = some e.time) (hpath : Text.encode path = e.path) :
    from_value parse (e.value time path) = some e := by
  have hnames := e.members_nodup time path
  have h₀ : required (e.members time path) "time" (read_text parse) = some e.time :=
    required_of_mem hnames (List.mem_of_getElem? (i := 0) rfl) htime
  have h₁ : required (e.members time path) "event_type" (read_text parse_event_type) = some e.event_type :=
    required_of_mem hnames (List.mem_of_getElem? (i := 1) rfl) (parse_event_type_toString e.event_type)
  have h₂ : required (e.members time path) "path" (read_text fun s => some (Text.encode s)) = some e.path :=
    required_of_mem hnames (List.mem_of_getElem? (i := 2) rfl) (congrArg some hpath)
  have h₃ : required (e.members time path) "pid" read_u32 = some e.pid :=
    required_of_mem hnames (List.mem_of_getElem? (i := 3) rfl) (read_u32_toNat e.pid)
  have h₄ : required (e.members time path) "comm" read_string = some e.comm :=
    required_of_mem hnames (List.mem_of_getElem? (i := 4) rfl) (read_string_toList e.comm)
  have h₅ : required (e.members time path) "cmd" read_string = some e.cmd :=
    required_of_mem hnames (List.mem_of_getElem? (i := 5) rfl) (read_string_toList e.cmd)
  have h₆ : required (e.members time path) "user" read_string = some e.user :=
    required_of_mem hnames (List.mem_of_getElem? (i := 6) rfl) (read_string_toList e.user)
  have h₇ : required (e.members time path) "file_size" read_u64 = some e.file_size :=
    required_of_mem hnames (List.mem_of_getElem? (i := 7) rfl) (read_u64_toNat e.file_size)
  have h₈ : defaulted (e.members time path) "ppid" 0 read_u32 = some e.ppid :=
    defaulted_of_mem hnames (List.mem_of_getElem? (i := 8) rfl) (read_u32_toNat e.ppid)
  have h₉ : defaulted (e.members time path) "tgid" 0 read_u32 = some e.tgid :=
    defaulted_of_mem hnames (List.mem_of_getElem? (i := 9) rfl) (read_u32_toNat e.tgid)
  have h₁₀ : defaulted (e.members time path) "chain" [] (read_vec ChainLink.from_value) = some e.chain :=
    defaulted_of_mem hnames (List.mem_of_getElem? (i := 10) rfl)
      (read_vec_map ChainLink.from_value_value e.chain)
  rw [value, from_value, h₀, h₁, h₂, h₃, h₄, h₅, h₆, h₇, h₈, h₉, h₁₀, read_fs_error]
  rfl

end FileEvent

end Fsmon.Serde
