/-
# `Fsmon.Monitor.WriteBack` — the options of a root, written as an entry and read again

When a root disappears its options are written as a `PathEntry` (`to_entry`), and
`PathOptions::try_from` reads that entry when the root is added again; `List`
writes them once more, for a client (`list_entry`).  The types, the depth and the
recursion go through unchanged.  The size filter does not: its byte count is
written by `format_size`, in binary units with one decimal.

    size_kept_iff     the filter survives  ⟺  its count is what some number of tenths reads as
    rewritten_iff     the options survive both ways

What `format_size` and `parse_size_filter` do is assumed of the one filter that
is written (`Renders`): a nearest number of tenths, and a reading that is exact
but for the part of a byte.
-/
import Fsmon.Monitor.Socket
import Fsmon.Lib.Tenths

namespace Fsmon

/-! ## The size text -/

/-- The name of a power of 1024. -/
def unit_name : Nat → String
  | 0 => "B"
  | 1 => "KB"
  | 2 => "MB"
  | 3 => "GB"
  | 4 => "TB"
  | 5 => "PB"
  | _ => "EB"

/-- `t` tenths of a power of 1024 in words; bytes may go without the decimal. -/
def Worded (k t : Nat) (text : String) : Prop :=
  text = toString (t / 10) ++ "." ++ toString (t % 10) ++ unit_name k ∨
    k = 0 ∧ text = toString (t / 10) ++ unit_name k

theorem unit_name_ends (k : Nat) : ∃ s, (unit_name k).toList = s ++ ['B'] := by
  have h : (unit_name k).toList = ['B'] ∨ ∃ c, (unit_name k).toList = [c] ++ ['B'] := by
    fun_cases unit_name k
    · exact .inl String.toList_ofList
    all_goals exact .inr ⟨_, String.toList_ofList⟩
  rcases h with h | ⟨c, h⟩
  · exact ⟨[], h⟩
  · exact ⟨[c], h⟩

theorem Worded.ends {k t : Nat} {text : String} (h : Worded k t text) :
    ∃ s, text.toList = s ++ ['B'] := by
  obtain ⟨s, hs⟩ := unit_name_ends k
  rcases h with rfl | ⟨_, rfl⟩
  · refine ⟨(toString (t / 10) ++ "." ++ toString (t % 10)).toList ++ s, ?_⟩
    rw [String.toList_append, hs, List.append_assoc]
  · refine ⟨(toString (t / 10)).toList ++ s, ?_⟩
    rw [String.toList_append, hs, List.append_assoc]

/-- A text with no blank at either end is trimmed already. -/
theorem Text.trim_of_ends {a z : Char} {m : Str} (ha : isWhitespace a = false)
    (hz : isWhitespace z = false) : trim (a :: (m ++ [z])) = a :: (m ++ [z]) := by
  have hfront : (a :: (m ++ [z])).dropWhile isWhitespace = a :: (m ++ [z]) := by
    rw [List.dropWhile_cons, ha]
    rfl
  have hback : (a :: (m ++ [z])).reverse = z :: (a :: m).reverse := by simp
  have hdrop : (z :: (a :: m).reverse).dropWhile isWhitespace = z :: (a :: m).reverse := by
    rw [List.dropWhile_cons, hz]
    rfl
  rw [trim, hfront, hback, hdrop, ← hback, List.reverse_reverse]

/-- An operator starts with a character that is no blank, and `parse_size` knows it. -/
theorem SizeOp.toString_starts (op : SizeOp) :
    ∃ a s, op.toString.toList = a :: s ∧ Text.isWhitespace a = false := by
  cases op <;> simp only [SizeOp.toString, String.reduceToList]
  all_goals exact ⟨_, _, rfl, by decide⟩

theorem SizeOp.toString_listed (op : SizeOp) : op.toString ∈ [">=", "<=", ">", "<", "="] := by
  cases op <;> simp [SizeOp.toString]

namespace PathOptions

section
variable [Sizefilter]

/-- A text with an operator and no blank at its end is parsed as it is. -/
theorem parse_size_worded {op : SizeOp} {text : String} {s : Str} (h : text.toList = s ++ ['B']) :
    parse_size (op.toString ++ text) = Sizefilter.parse_size_filter (op.toString ++ text) := by
  obtain ⟨a, r, hop, ha⟩ := op.toString_starts
  have htrim : Text.trim (op.toString ++ text).toList = (op.toString ++ text).toList := by
    rw [String.toList_append, hop, h, List.cons_append, ← List.append_assoc]
    exact Text.trim_of_ends ha (by decide)
  have hany : [">=", "<=", ">", "<", "="].any
      (fun o => o.toList.isPrefixOf (op.toString ++ text).toList) = true := by
    refine List.any_eq_true.2 ⟨op.toString, op.toString_listed, ?_⟩
    rw [List.isPrefixOf_iff_prefix, String.toList_append]
    exact List.prefix_append ..
  rw [parse_size, htrim, if_pos hany, String.ofList_toList]

/-! ## What survives -/

/-- The crate writes the filter's count with one decimal, and reads what it has written. -/
structure Renders (top : Nat) (whole : Nat → Nat) (f : SizeFilter) (t : Nat) : Prop where
  nonneg : 0 ≤ f.bytes
  nearest : Tenths.Nearest (Tenths.unit top f.bytes.toNat) f.bytes.toNat t
  worded : Worded (Tenths.power top f.bytes.toNat) t (Sizefilter.format_size f.bytes)
  read : Sizefilter.parse_size_filter (f.op.toString ++ Sizefilter.format_size f.bytes) =
    .ok ⟨f.op, whole (t * Tenths.unit top f.bytes.toNat)⟩

/-- The count is what some number of tenths of its unit reads as. -/
def InTenths (top : Nat) (whole : Nat → Nat) (f : SizeFilter) : Prop :=
  Tenths.Reads whole (Tenths.unit top f.bytes.toNat) f.bytes.toNat

theorem Renders.parse_size {top t : Nat} {whole : Nat → Nat} {f : SizeFilter}
    (h : Renders top whole f t) :
    PathOptions.parse_size (f.op.toString ++ Sizefilter.format_size f.bytes) =
      .ok ⟨f.op, whole (t * Tenths.unit top f.bytes.toNat)⟩ := by
  obtain ⟨s, hs⟩ := h.worded.ends
  rw [parse_size_worded hs, h.read]

theorem Renders.kept_iff {top t : Nat} {whole : Nat → Nat} (hw : Tenths.Wholes whole)
    {f : SizeFilter} (h : Renders top whole f t) :
    PathOptions.parse_size (f.op.toString ++ Sizefilter.format_size f.bytes) = .ok f ↔
      InTenths top whole f := by
  have hnat : ((f.bytes.toNat : Nat) : Int) = f.bytes := Int.toNat_of_nonneg h.nonneg
  rw [h.parse_size, InTenths, ← Tenths.rounds_iff hw (Tenths.unit_ge ..) h.nearest]
  constructor
  · intro he
    have hb := congrArg SizeFilter.bytes (Except.ok.inj he)
    dsimp only at hb
    omega
  · intro he
    rw [he, hnat]

/-- The options keep their size filter exactly when its count is in tenths. -/
theorem size_kept_iff {top : Nat} {whole : Nat → Nat} (hw : Tenths.Wholes whole) {opts : PathOptions}
    (h : ∀ f, opts.size_filter = some f → ∃ t, Renders top whole f t) :
    opts.SizeKept ↔ ∀ f, opts.size_filter = some f → InTenths top whole f := by
  refine forall_congr' fun f => forall_congr' fun hf => ?_
  obtain ⟨t, ht⟩ := h f hf
  exact ht.kept_iff hw

/-- An entry that reads as the options has kept their size filter. -/
theorem size_kept_of_try_from {path : PathBuf} {opts : PathOptions}
    (h : try_from (to_entry path opts) = .ok opts) : opts.SizeKept := by
  intro f hf
  rw [try_from] at h
  simp only [to_entry, hf, Option.map_some, transpose] at h
  cases hp : parse_size (f.op.toString ++ Sizefilter.format_size f.bytes) with
  | error e =>
      rw [hp] at h
      cases h
  | ok g =>
      rw [hp] at h
      dsimp only [Except.map] at h
      split at h
      · cases h
      · have hg := congrArg PathOptions.size_filter (Except.ok.inj h)
        dsimp only at hg
        rw [hf, Option.some.injEq] at hg
        rw [hg]

/-- Reading looks at the cmd through `cmd_filter` only. -/
theorem try_from_cmd {entry : PathEntry} {cmd : Option String}
    (h : cmd_filter cmd = cmd_filter entry.cmd) :
    try_from { entry with cmd := cmd } = try_from entry := by
  simp only [try_from, h]

omit [Sizefilter] in
theorem cmd_filter_or_global (cmd : Option String) :
    cmd_filter (cmd.or (some CMD_GLOBAL)) = cmd_filter cmd := by
  cases cmd with
  | none => simp [cmd_filter]
  | some c => rfl

/-- `List` reports what reads as the entry that is queued for the root. -/
theorem try_from_list_entry (path : PathBuf) (opts : PathOptions) :
    try_from (list_entry path opts) = try_from (to_entry path opts) :=
  try_from_cmd (cmd_filter_or_global opts.cmd)

theorem cmd_ne_of_try_from {entry : PathEntry} {opts : PathOptions} (h : try_from entry = .ok opts) :
    opts.cmd ≠ some CMD_GLOBAL := by
  rw [(try_from_ok h).1]
  exact cmd_filter_ne entry.cmd

/-- The options of a root come back from the entry that is queued for it, and from the one that
`List` reports, exactly when the size filter's count is in tenths of its unit. -/
theorem rewritten_iff {top : Nat} {whole : Nat → Nat} (hw : Tenths.Wholes whole) {opts : PathOptions}
    (h : ∀ f, opts.size_filter = some f → ∃ t, Renders top whole f t) (path : PathBuf) :
    (try_from (to_entry path opts) = .ok opts ∧ try_from (list_entry path opts) = .ok opts) ↔
      opts.cmd ≠ some CMD_GLOBAL ∧ ∀ f, opts.size_filter = some f → InTenths top whole f := by
  rw [try_from_list_entry, and_self, ← size_kept_iff hw h]
  constructor
  · intro he
    exact ⟨cmd_ne_of_try_from he, size_kept_of_try_from he⟩
  · rintro ⟨hcmd, hsize⟩
    exact try_from_to_entry path hcmd hsize

end

/-- The crate on counts from a kilobyte to a megabyte; of texts only `>=1.0KB` is read. -/
@[reducible] def kilobytes : Sizefilter where
  parse_size_filter := fun s =>
    if s = ">=" ++ "1" ++ "." ++ "0" ++ "KB" then .ok ⟨.ge, 1024⟩ else .error "Invalid size".toList
  format_size := fun bytes =>
    let tenths := (20 * bytes.toNat + 1024) / 2048
    toString (tenths / 10) ++ "." ++ toString (tenths % 10) ++ "KB"

/-- The default options, for files of so many bytes and more. -/
def sized (bytes : Int) : PathOptions := { PathOptions.default with size_filter := some ⟨.ge, bytes⟩ }

theorem sized_filter {bytes : Int} {f : SizeFilter} (h : (sized bytes).size_filter = some f) :
    f = ⟨.ge, bytes⟩ := (Option.some.inj h).symm

theorem power_kilo {b : Nat} (h₁ : 1024 ≤ b) (h₂ : b < 1024 * 1024) : Tenths.power 6 b = 1 := by
  have hlog : Nat.log 1024 b = 1 := Nat.log_eq_of_pow_le_of_lt_pow h₁ h₂
  rw [Tenths.power, hlog]
  rfl

theorem unit_kilo {b : Nat} (h₁ : 1024 ≤ b) (h₂ : b < 1024 * 1024) : Tenths.unit 6 b = 1024 := by
  rw [Tenths.unit, power_kilo h₁ h₂, Nat.pow_one]

/-- The two counts that are written `1.0KB`. -/
theorem kilobytes_renders {b : Nat} (h : b = 1024 ∨ b = 1025) :
    @Renders kilobytes 6 (· / 10) ⟨.ge, b⟩ 10 := by
  have hp : Tenths.power 6 b = 1 := power_kilo (by omega) (by omega)
  have hu : Tenths.unit 6 b = 1024 := unit_kilo (by omega) (by omega)
  refine @Renders.mk kilobytes _ _ _ _ (Int.natCast_nonneg b) ?_ ?_ ?_
  · rw [Int.toNat_natCast, hu, Tenths.Nearest]
    omega
  · rw [Int.toNat_natCast, hp]
    rcases h with rfl | rfl <;> exact .inl rfl
  · rw [Int.toNat_natCast, hu]
    rcases h with rfl | rfl <;> rfl

theorem rewritten_kilobyte :
    @try_from kilobytes (@to_entry kilobytes ["a".toUTF8.toList] (sized 1024)) = .ok (sized 1024) ∧
      @try_from kilobytes (@list_entry kilobytes ["a".toUTF8.toList] (sized 1024)) =
        .ok (sized 1024) := by
  refine (@rewritten_iff kilobytes 6 (· / 10) Tenths.wholes_div (sized 1024) ?_
    ["a".toUTF8.toList]).2 ⟨?_, ?_⟩
  · intro f hf
    rw [sized_filter hf]
    exact ⟨10, kilobytes_renders (b := 1024) (.inl rfl)⟩
  · intro hcmd
    cases hcmd
  · intro f hf
    rw [sized_filter hf]
    exact ⟨10, rfl⟩

/-- One byte more, and the root is watched for files from 1024 bytes on. -/
theorem rewritten_loses_byte :
    @Renders kilobytes 6 (· / 10) ⟨.ge, 1025⟩ 10 ∧
      @try_from kilobytes (@to_entry kilobytes ["a".toUTF8.toList] (sized 1025)) ≠
        .ok (sized 1025) := by
  have hr : @Renders kilobytes 6 (· / 10) ⟨.ge, 1025⟩ 10 := kilobytes_renders (b := 1025) (.inr rfl)
  refine ⟨hr, fun he => ?_⟩
  have hkept := @size_kept_of_try_from kilobytes _ _ he ⟨.ge, 1025⟩ rfl
  rw [@Renders.parse_size kilobytes _ _ _ _ hr] at hkept
  have hunit : Tenths.unit 6 (1025 : Int).toNat = 1024 := unit_kilo (b := 1025) (by omega) (by omega)
  have hbytes := congrArg SizeFilter.bytes (Except.ok.inj hkept)
  rw [hunit] at hbytes
  cases hbytes

end PathOptions

end Fsmon
