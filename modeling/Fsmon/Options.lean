/-
# `Fsmon.Options` — what an entry asks for, as text and as options

The flat `PathEntry` that the store, the socket and the command line carry, the
`PathOptions` the daemon works with, and the two conversions between them:
`PathOptions.try_from` reads an entry, and `PathOptions.to_entry` writes one
back when a root disappears (in `init_fanotify`, `handle_canonical_root_deleted`
and `handle_inotify_events`, in the same words).

`parse_size_filter` and `format_size` come from the `sizefilter` crate and stay
parameters, as an instance of `Sizefilter`.  Writing an entry back loses nothing
but what `format_size` rounds away (`try_from_to_entry`).
-/
import Fsmon.Event
import Mathlib.Algebra.Group.Int.Defs

namespace Fsmon

/-- The two functions used of the `sizefilter` crate. -/
class Sizefilter where
  parse_size_filter : String → Except Str SizeFilter
  format_size : Int → String

/-- For entries without a size text: there is nothing to read or to write. -/
@[reducible] def noSizes : Sizefilter where
  parse_size_filter := fun s => .error ("Invalid size: ".toList ++ s.toList)
  format_size := fun bytes => toString bytes ++ "B"

/-- Sentinel value for the global cmd group. -/
def CMD_GLOBAL : String := "_global"

/-- Options for filtering filesystem events by path. -/
structure PathOptions where
  size_filter : Option SizeFilter
  event_types : Option (List EventType)
  recursive : Bool
  cmd : Option String
  max_depth : Option Nat
  deriving DecidableEq, Repr

/-- `PathOptions::default()`. -/
def PathOptions.default : PathOptions := ⟨none, none, false, none, none⟩

/-- A single monitored path entry, in its flat form. -/
structure PathEntry where
  cmd : Option String
  path : PathBuf
  recursive : Option Bool
  types : Option (List String)
  size : Option String
  max_depth : Option Nat
  deriving DecidableEq, Repr

/-- The cmd group a name stands for: `_global` is no particular process. -/
def cmd_filter (cmd : Option String) : Option String :=
  cmd.bind fun c => if c = CMD_GLOBAL then none else some c

theorem cmd_filter_ne (cmd : Option String) : cmd_filter cmd ≠ some CMD_GLOBAL := by
  intro h
  simp only [cmd_filter, Option.bind_eq_some_iff, Option.ite_none_left_eq_some,
    Option.some.injEq] at h
  obtain ⟨c, _, hc, rfl⟩ := h
  exact hc rfl

theorem cmd_filter_of_ne {cmd : Option String} (h : cmd ≠ some CMD_GLOBAL) : cmd_filter cmd = cmd := by
  cases cmd with
  | none => rfl
  | some c =>
      have hc : c ≠ CMD_GLOBAL := fun he => h (congrArg some he)
      simp [cmd_filter, hc]

theorem cmd_filter_idem (cmd : Option String) : cmd_filter (cmd_filter cmd) = cmd_filter cmd :=
  cmd_filter_of_ne (cmd_filter_ne cmd)

namespace PathOptions

/-- `v.iter().map(|s| s.parse::<EventType>()).collect()`. -/
def parse_types : List String → Except Str (List EventType)
  | [] => .ok []
  | s :: rest =>
      match EventType.fromStr s with
      | .error e => .error e.toList
      | .ok t =>
          match parse_types rest with
          | .error e => .error e
          | .ok ts => .ok (t :: ts)

/-- `Option::map(..).transpose()`. -/
def transpose {α β ε : Type} (f : α → Except ε β) : Option α → Except ε (Option β)
  | none => .ok none
  | some a => (f a).map some

theorem parse_types_toString : ∀ ts : List EventType, parse_types (ts.map EventType.toString) = .ok ts := by
  intro ts
  induction ts with
  | nil =>
      exact rfl
  | cons t ts ih =>
      simp only [List.map_cons, parse_types, EventType.fromStr_toString, ih]

section
variable [Sizefilter]

/-- The size text: `>=` is put before a text without an operator. -/
def parse_size (s : String) : Except Str SizeFilter :=
  let t := Text.trim s.toList
  if [">=", "<=", ">", "<", "="].any fun op => op.toList.isPrefixOf t then
    Sizefilter.parse_size_filter (String.ofList t)
  else Sizefilter.parse_size_filter (String.ofList (">=".toList ++ t))

/-- `TryFrom<&PathEntry> for PathOptions`. -/
def try_from (entry : PathEntry) : Except Str PathOptions :=
  match transpose parse_size entry.size with
  | .error e => .error e
  | .ok size_filter =>
      match transpose parse_types entry.types with
      | .error e => .error e
      | .ok event_types =>
          .ok
            { size_filter
              event_types
              recursive := entry.recursive.getD false
              cmd := cmd_filter entry.cmd
              max_depth := entry.max_depth }

/-- The entry that asks for these options. -/
def to_entry (path : PathBuf) (opts : PathOptions) : PathEntry where
  path := path
  recursive := some opts.recursive
  types := opts.event_types.map fun v => v.map EventType.toString
  size := opts.size_filter.map fun f => f.op.toString ++ Sizefilter.format_size f.bytes
  cmd := opts.cmd
  max_depth := opts.max_depth

/-- What a conversion that succeeds has read. -/
theorem try_from_ok {entry : PathEntry} {opts : PathOptions} (h : try_from entry = .ok opts) :
    opts.cmd = cmd_filter entry.cmd ∧ opts.recursive = entry.recursive.getD false ∧
      opts.max_depth = entry.max_depth := by
  rw [try_from] at h
  split at h
  · cases h
  · split at h
    · cases h
    · cases h
      exact ⟨rfl, rfl, rfl⟩

/-- Convert a `PathEntry` list to (path, options) pairs. -/
def parse_path_entries : List PathEntry → Except Str (List (PathBuf × PathOptions))
  | [] => .ok []
  | entry :: rest =>
      match try_from entry with
      | .error e => .error e
      | .ok opts =>
          match parse_path_entries rest with
          | .error e => .error e
          | .ok pairs => .ok ((entry.path, opts) :: pairs)

/-- The size filter survives being written as text. -/
def SizeKept (opts : PathOptions) : Prop :=
  ∀ f, opts.size_filter = some f →
    parse_size (f.op.toString ++ Sizefilter.format_size f.bytes) = .ok f

/-- Writing an entry back and reading it again loses nothing but what the size text loses. -/
theorem try_from_to_entry {opts : PathOptions} (path : PathBuf) (hcmd : opts.cmd ≠ some CMD_GLOBAL)
    (hsize : opts.SizeKept) : try_from (to_entry path opts) = .ok opts := by
  have hs : transpose parse_size (to_entry path opts).size = .ok opts.size_filter := by
    cases hf : opts.size_filter with
    | none => simp [to_entry, hf, transpose]
    | some f =>
        simp only [to_entry, hf, Option.map_some, transpose, hsize f hf]
        rfl
  have ht : transpose parse_types (to_entry path opts).types = .ok opts.event_types := by
    cases ht : opts.event_types with
    | none => simp [to_entry, ht, transpose]
    | some ts =>
        simp only [to_entry, ht, Option.map_some, transpose, parse_types_toString ts]
        rfl
  simp only [try_from, hs, ht]
  simp [to_entry, cmd_filter_of_ne hcmd]

end

/-! ## Masks -/

/-- Build kernel mask from PathOptions: explicit types or default. -/
def path_mask_from_options (opts : PathOptions) : Mask :=
  match opts.event_types with
  | some (t :: ts) =>
      (t :: ts).foldl (fun m t => m ||| event_type_to_kernel_flag t)
        (FAN_EVENT_ON_CHILD ||| FAN_ONDIR)
  | _ => DEFAULT_EVENT_MASK

/-- The masks of several options, or-ed. -/
def masks_of (os : List PathOptions) : Mask :=
  (os.map path_mask_from_options).foldl (· ||| ·) 0

/-- `filter.bytes() as u64`. -/
def u64_of (bytes : Int) : Nat := (bytes % 2 ^ 64).toNat

/-- Check whether an event should be output, given its path options. -/
def should_output (opts : Option PathOptions) (event : FileEvent) : Bool :=
  match opts with
  | none => true
  | some o =>
      (match o.event_types with
        | none => true
        | some types => types.contains event.event_type) &&
      (match o.size_filter with
        | none => true
        | some filter =>
            match filter.op with
            | .gt => u64_of filter.bytes < event.file_size
            | .ge => u64_of filter.bytes ≤ event.file_size
            | .lt => event.file_size < u64_of filter.bytes
            | .le => event.file_size ≤ u64_of filter.bytes
            | .eq => event.file_size = u64_of filter.bytes)

end PathOptions

end Fsmon
