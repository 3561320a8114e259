/-
# `Fsmon.Event` — paths, event types, masks and records

The data every other module reads: `PathBuf`, `EventType` with its fanotify
bits, the decoded kernel event and the `FileEvent` record, and the two filters
(`TimeFilter`, `SizeFilter`) with the operators the `timefilter` and
`sizefilter` crates export.

A path is the list of its components below `/`, each a byte string: the
component-wise equality, `starts_with`, `parent` and `file_name` of
`std::path` are then list operations.  Every path the daemon handles is
absolute (`resolve_path_arg` makes it so).
-/
import Fsmon.Text
import Mathlib.Data.List.Basic

namespace Fsmon

/-! ## Paths -/

/-- A file name: any bytes but NUL and `/`. -/
abbrev OsString := Bytes

/-- An absolute path, by its components. -/
abbrev PathBuf := List OsString

instance : LawfulBEq PathBuf := inferInstance

namespace PathBuf

/-- `Path::starts_with`: a prefix of components. -/
def startsWith (p base : PathBuf) : Bool := base.isPrefixOf p

/-- `Path::parent`: the root has none. -/
def parent : PathBuf → Option PathBuf
  | [] => none
  | c :: cs => some (c :: cs).dropLast

/-- `Path::file_name`. -/
def fileName (p : PathBuf) : Option OsString := p.getLast?

/-- `Path::join` with one relative component. -/
def join (p : PathBuf) (name : OsString) : PathBuf := p ++ [name]

/-- The path as text. -/
def toBytes : PathBuf → Bytes
  | [] => [0x2F]
  | cs => cs.flatMap fun c => 0x2F :: c

@[simp] theorem startsWith_iff {p base : PathBuf} : p.startsWith base = true ↔ base <+: p := by
  simp [startsWith]

theorem startsWith_refl (p : PathBuf) : p.startsWith p = true := by simp

theorem startsWith_trans {p q r : PathBuf} (h₁ : p.startsWith q = true)
    (h₂ : q.startsWith r = true) : p.startsWith r = true := by
  simp only [startsWith_iff] at *
  exact h₂.trans h₁

theorem startsWith_join {p base : PathBuf} (h : p.startsWith base = true) (name : OsString) :
    (p.join name).startsWith base = true := by
  simp only [startsWith_iff] at *
  exact h.trans (List.prefix_append ..)

end PathBuf

/-! ## Event types and fanotify masks -/

/-- Type of filesystem event captured by fsmon. -/
inductive EventType where
  | access | modify | closeWrite | closeNowrite | open | openExec | attrib | create | delete
  | deleteSelf | movedFrom | movedTo | moveSelf | fsError | rename
  deriving DecidableEq, Repr

/-- A kernel event mask (`u64`). -/
abbrev Mask := BitVec 64

section Consts

def FAN_ACCESS : Mask := 0x1
def FAN_MODIFY : Mask := 0x2
def FAN_ATTRIB : Mask := 0x4
def FAN_CLOSE_WRITE : Mask := 0x8
def FAN_CLOSE_NOWRITE : Mask := 0x10
def FAN_OPEN : Mask := 0x20
def FAN_MOVED_FROM : Mask := 0x40
def FAN_MOVED_TO : Mask := 0x80
def FAN_CREATE : Mask := 0x100
def FAN_DELETE : Mask := 0x200
def FAN_DELETE_SELF : Mask := 0x400
def FAN_MOVE_SELF : Mask := 0x800
def FAN_OPEN_EXEC : Mask := 0x1000
def FAN_Q_OVERFLOW : Mask := 0x4000
def FAN_FS_ERROR : Mask := 0x8000
def FAN_EVENT_ON_CHILD : Mask := 0x08000000
def FAN_RENAME : Mask := 0x10000000
def FAN_ONDIR : Mask := 0x40000000

end Consts

namespace EventType

/-- `EventType::ALL`: every type but the fused `RENAME`. -/
def ALL : List EventType :=
  [access, modify, closeWrite, closeNowrite, .open, openExec, attrib, create, delete, deleteSelf,
    movedFrom, movedTo, moveSelf, fsError]

/-- `Display for EventType`. -/
def toString : EventType → String
  | access => "ACCESS"
  | modify => "MODIFY"
  | closeWrite => "CLOSE_WRITE"
  | closeNowrite => "CLOSE_NOWRITE"
  | .open => "OPEN"
  | openExec => "OPEN_EXEC"
  | attrib => "ATTRIB"
  | create => "CREATE"
  | delete => "DELETE"
  | deleteSelf => "DELETE_SELF"
  | movedFrom => "MOVED_FROM"
  | movedTo => "MOVED_TO"
  | moveSelf => "MOVE_SELF"
  | fsError => "FS_ERROR"
  | rename => "RENAME"

/-- `char::to_uppercase` as far as it can produce ASCII: the ASCII letters and the few other
characters whose uppercase is ASCII.  Every other character keeps a non-ASCII character in its
uppercase, so a string that holds one equals no event name before or after. -/
def toUppercaseChar (c : Char) : List Char :=
  if c.toNat = 0x131 then ['I']
  else if c.toNat = 0x17F then ['S']
  else if c.toNat = 0xDF then ['S', 'S']
  else if c.toNat = 0xFB00 then ['F', 'F']
  else if c.toNat = 0xFB01 then ['F', 'I']
  else if c.toNat = 0xFB02 then ['F', 'L']
  else if c.toNat = 0xFB03 then ['F', 'F', 'I']
  else if c.toNat = 0xFB04 then ['F', 'F', 'L']
  else if c.toNat = 0xFB05 then ['S', 'T']
  else if c.toNat = 0xFB06 then ['S', 'T']
  else [c.toUpper]

/-- `FromStr for EventType`; the error is `Unknown event type: {input}`. -/
def fromStr (s : String) : Except String EventType :=
  match String.ofList (s.toList.flatMap toUppercaseChar) with
  | "ACCESS" => .ok access
  | "MODIFY" => .ok modify
  | "CLOSE_WRITE" => .ok closeWrite
  | "CLOSE_NOWRITE" => .ok closeNowrite
  | "OPEN" => .ok .open
  | "OPEN_EXEC" => .ok openExec
  | "ATTRIB" => .ok attrib
  | "CREATE" => .ok create
  | "DELETE" => .ok delete
  | "DELETE_SELF" => .ok deleteSelf
  | "MOVED_FROM" => .ok movedFrom
  | "MOVED_TO" => .ok movedTo
  | "MOVE_SELF" => .ok moveSelf
  | "FS_ERROR" => .ok fsError
  | "RENAME" => .ok rename
  | _ => .error ("Unknown event type: " ++ s)

/-- Every printed event type parses back to itself. -/
theorem fromStr_toString (t : EventType) : fromStr t.toString = .ok t := by
  cases t <;> decide

end EventType

/-- Convert an EventType to its fanotify kernel flag. -/
def event_type_to_kernel_flag : EventType → Mask
  | .access => FAN_ACCESS
  | .modify => FAN_MODIFY
  | .closeWrite => FAN_CLOSE_WRITE
  | .closeNowrite => FAN_CLOSE_NOWRITE
  | .open => FAN_OPEN
  | .openExec => FAN_OPEN_EXEC
  | .attrib => FAN_ATTRIB
  | .create => FAN_CREATE
  | .delete => FAN_DELETE
  | .deleteSelf => FAN_DELETE_SELF
  | .movedFrom => FAN_MOVED_FROM
  | .movedTo => FAN_MOVED_TO
  | .moveSelf => FAN_MOVE_SELF
  | .fsError => FAN_FS_ERROR
  | .rename => FAN_RENAME

/-- Default mask: the core events. -/
def DEFAULT_EVENT_MASK : Mask :=
  FAN_CLOSE_WRITE ||| FAN_ATTRIB ||| FAN_CREATE ||| FAN_DELETE ||| FAN_DELETE_SELF |||
    FAN_RENAME ||| FAN_MOVE_SELF ||| FAN_EVENT_ON_CHILD ||| FAN_ONDIR

/-- The order in which `mask_to_event_types` tests the bits. -/
def BITS : List EventType :=
  [.access, .modify, .closeWrite, .closeNowrite, .open, .openExec, .attrib, .create, .delete,
    .deleteSelf, .movedFrom, .movedTo, .moveSelf, .fsError, .rename]

/-- Convert a fanotify event mask to fsmon's EventType enum. -/
def mask_to_event_types (mask : Mask) : List EventType :=
  BITS.filter fun t => mask &&& event_type_to_kernel_flag t ≠ 0

/-! ## Filters -/

inductive SizeOp where
  | gt | ge | lt | le | eq
  deriving DecidableEq, Repr

/-- `Display for SizeOp`. -/
def SizeOp.toString : SizeOp → String
  | .gt => ">"
  | .ge => ">="
  | .lt => "<"
  | .le => "<="
  | .eq => "="

/-- `sizefilter::SizeFilter`: an operator and an `i64` byte count. -/
structure SizeFilter where
  op : SizeOp
  bytes : Int
  deriving DecidableEq, Repr

inductive TimeOp where
  | gt | ge | lt | le | eq
  deriving DecidableEq, Repr

/-- `timefilter::TimeFilter`; a time is its offset in nanoseconds. -/
structure TimeFilter where
  op : TimeOp
  time : Int
  deriving DecidableEq, Repr

namespace TimeFilter

/-- Check if a timestamp matches this filter. -/
def is_match (f : TimeFilter) (time : Int) : Bool :=
  match f.op with
  | .gt => f.time < time
  | .ge => f.time ≤ time
  | .lt => time < f.time
  | .le => time ≤ f.time
  | .eq => time = f.time

def is_lower_bound (f : TimeFilter) : Bool := f.op = .gt || f.op = .ge

def is_upper_bound (f : TimeFilter) : Bool := f.op = .lt || f.op = .le

theorem le_of_upper {f : TimeFilter} {t : Int} (hu : f.is_upper_bound = true)
    (hm : f.is_match t = true) : t ≤ f.time := by
  rw [is_upper_bound] at hu
  rw [is_match] at hm
  cases hop : f.op <;> simp_all
  all_goals omega

end TimeFilter

/-! ## Records -/

/-- One ancestry link of a file event chain. -/
structure ChainLink where
  pid : Nat
  comm : String
  cmd : String
  user : String
  deriving DecidableEq, Repr

/-- A single filesystem event record. -/
structure FileEvent where
  time : Int
  event_type : EventType
  path : PathBuf
  pid : Nat
  comm : String
  cmd : String
  user : String
  file_size : Nat
  ppid : Nat
  tgid : Nat
  chain : List ChainLink
  fs_error : Option (Int × Nat)
  deriving DecidableEq, Repr

end Fsmon
