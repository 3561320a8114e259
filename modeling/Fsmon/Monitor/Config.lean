/-
# `Fsmon.Monitor.Config` — the numbers of a configuration, and what they start

From `fsmon.toml` and the command line to the constructors: `resolve_with_cli`,
the values `cmd_daemon` derives, `Monitor::new`, `spawn_tasks`.  Each setting is
the command line's, else the file's, else the default (`resolve_with_cli_eq`);
some are checked, and some reach a constructor that panics.

    cmd_daemon     an error, a panic with its place, or a daemon
    Refused        an error ends the start before a constructor is reached
    InRange        what the constructors ask for
    cmd_daemon_no_panic_iff   a start without a panic is one of these two

What `run` does between `Monitor::new` and `spawn_tasks` is left out, and what the
constructors allocate is taken to fit.
-/
import Fsmon.Lib.Checked
import Fsmon.Monitor.Init
import Fsmon.Monitor.Resolvable

namespace Fsmon

/-! ## The configuration -/

/-- Cache configuration (optional — missing fields use code defaults). -/
structure CacheConfig where
  dir_capacity : Option Nat
  dir_ttl_secs : Option Nat
  file_size_capacity : Option Nat
  proc_ttl_secs : Option Nat
  channel_capacity : Option Nat
  subscribe_buf : Option Nat
  buffer_size : Option Nat
  deriving DecidableEq, Repr

/-- CLI-level cache overrides (highest priority in the merge chain). -/
structure CliCacheOverride where
  dir_capacity : Option Nat
  dir_ttl_secs : Option Nat
  file_size_capacity : Option Nat
  proc_ttl_secs : Option Nat
  buffer_size : Option Nat
  channel_capacity : Option Nat
  subscribe_buf : Option Nat
  deriving DecidableEq, Repr

structure WatchdogConfig where
  interval_secs : Option Nat
  multiplier : Option Nat
  deriving DecidableEq, Repr

structure DaemonConfig where
  metrics_interval : Option Nat
  deriving DecidableEq, Repr

/-- The numbers of `fsmon.toml`. -/
structure Config where
  daemon : Option DaemonConfig
  cache : Option CacheConfig
  watchdog : Option WatchdogConfig
  deriving DecidableEq, Repr

/-- The numbers of the command line. -/
structure DaemonArgs where
  metrics_interval : Option Nat
  watchdog_interval : Option Nat
  watchdog_multiplier : Option Nat
  cli_cache : CliCacheOverride
  deriving DecidableEq, Repr

/-- Resolved cache configuration with all defaults filled in. -/
structure ResolvedCacheConfig where
  dir_capacity : Nat
  dir_ttl_secs : Nat
  file_size_capacity : Nat
  proc_ttl_secs : Nat
  buffer_size : Nat
  /-- None = unbounded, Some(N) = bounded(N). -/
  channel_capacity : Option Nat
  subscribe_buf : Nat
  deriving DecidableEq, Repr

def FILE_SIZE_CACHE_CAP : Nat := 10000
def PROC_HISTORY_CAP : Nat := 65536

def ResolvedCacheConfig.default : ResolvedCacheConfig where
  dir_capacity := DIR_CACHE_CAP
  dir_ttl_secs := DIR_CACHE_TTL_SECS
  file_size_capacity := FILE_SIZE_CACHE_CAP
  proc_ttl_secs := PROC_HISTORY_CAP
  buffer_size := 4096 * 8
  channel_capacity := none
  subscribe_buf := 4096

namespace CacheConfig

/-- All fields missing. -/
def empty : CacheConfig := ⟨none, none, none, none, none, none, none⟩

/-- Explicit values from this config override defaults, then CLI overrides override config values.
Each `if let Some(v)` of the source is one update, in its order. -/
def resolve_with_cli (self : CacheConfig) (cli : CliCacheOverride) : ResolvedCacheConfig :=
  let r := ResolvedCacheConfig.default
  let r := { r with dir_capacity := self.dir_capacity.getD r.dir_capacity }
  let r := { r with dir_ttl_secs := self.dir_ttl_secs.getD r.dir_ttl_secs }
  let r := { r with file_size_capacity := self.file_size_capacity.getD r.file_size_capacity }
  let r := { r with proc_ttl_secs := self.proc_ttl_secs.getD r.proc_ttl_secs }
  let r := { r with channel_capacity := self.channel_capacity.or r.channel_capacity }
  let r := { r with subscribe_buf := self.subscribe_buf.getD r.subscribe_buf }
  let r := { r with buffer_size := self.buffer_size.getD r.buffer_size }
  let r := { r with dir_capacity := cli.dir_capacity.getD r.dir_capacity }
  let r := { r with dir_ttl_secs := cli.dir_ttl_secs.getD r.dir_ttl_secs }
  let r := { r with file_size_capacity := cli.file_size_capacity.getD r.file_size_capacity }
  let r := { r with proc_ttl_secs := cli.proc_ttl_secs.getD r.proc_ttl_secs }
  let r := { r with buffer_size := cli.buffer_size.getD r.buffer_size }
  let r := { r with channel_capacity := cli.channel_capacity.or r.channel_capacity }
  -- the config's value once more, before the command line's
  let r := { r with subscribe_buf := self.subscribe_buf.getD r.subscribe_buf }
  let r := { r with subscribe_buf := cli.subscribe_buf.getD r.subscribe_buf }
  r

end CacheConfig

/-- A setting: the command line's, else the file's, else the default. -/
def setting (cli file : Option Nat) (default : Nat) : Nat := (cli.or file).getD default

theorem setting_eq (cli file : Option Nat) (default : Nat) :
    setting cli file default = cli.getD (file.getD default) := by
  cases cli with
  | none => rfl
  | some v => rfl

/-- **Every merged value is its setting.** -/
theorem CacheConfig.resolve_with_cli_eq (c : CacheConfig) (cli : CliCacheOverride) :
    c.resolve_with_cli cli =
      { dir_capacity := setting cli.dir_capacity c.dir_capacity DIR_CACHE_CAP
        dir_ttl_secs := setting cli.dir_ttl_secs c.dir_ttl_secs DIR_CACHE_TTL_SECS
        file_size_capacity := setting cli.file_size_capacity c.file_size_capacity FILE_SIZE_CACHE_CAP
        proc_ttl_secs := setting cli.proc_ttl_secs c.proc_ttl_secs PROC_HISTORY_CAP
        buffer_size := setting cli.buffer_size c.buffer_size (4096 * 8)
        channel_capacity := cli.channel_capacity.or c.channel_capacity
        subscribe_buf := setting cli.subscribe_buf c.subscribe_buf 4096 } := by
  have htwice : c.subscribe_buf.getD (c.subscribe_buf.getD 4096) = c.subscribe_buf.getD 4096 := by
    cases c.subscribe_buf with
    | none => rfl
    | some v => rfl
  simp only [resolve_with_cli, ResolvedCacheConfig.default, setting_eq, htwice, Option.or_none]

/-! ## The start -/

/-- Where the start panics. -/
inductive StartPanic where
  /-- The product of `watchdog_sec` overflows. -/
  | watchdog_sec
  /-- `NonZeroUsize::new(0).unwrap()`. -/
  | file_size_capacity
  | broadcast_channel
  | mpsc_channel
  deriving DecidableEq, Repr

inductive Started where
  | error (e : Str)
  | panicked (p : StartPanic)
  | daemon (m : Monitor)

/-- `tokio::sync::broadcast::channel` takes this capacity. -/
def broadcast_capacity (cap : Nat) : Prop := 0 < cap ∧ cap ≤ Checked.USIZE_MAX / 2

/-- `tokio::sync::mpsc::channel` takes this capacity. -/
def mpsc_capacity (cap : Nat) : Prop := 0 < cap ∧ cap ≤ Checked.USIZE_MAX / 8

instance (cap : Nat) : Decidable (broadcast_capacity cap) := inferInstanceAs (Decidable (_ ∧ _))

instance (cap : Nat) : Decidable (mpsc_capacity cap) := inferInstanceAs (Decidable (_ ∧ _))

namespace Config

/-- A value of the `[cache]` table. -/
def cached (cfg : Config) (field : CacheConfig → Option Nat) : Option Nat := cfg.cache.bind field

/-- Merge cache config: CLI > fsmon.toml > code defaults. -/
def cache_cfg (cfg : Config) (args : DaemonArgs) : ResolvedCacheConfig :=
  match cfg.cache with
  | some c => c.resolve_with_cli args.cli_cache
  | none => CacheConfig.empty.resolve_with_cli args.cli_cache

def metrics_interval (cfg : Config) (args : DaemonArgs) : Option Nat :=
  (args.metrics_interval.or (cfg.daemon.bind fun d => d.metrics_interval)).filter (0 < ·)

/-- CLI > config > None (disabled). -/
def watchdog_interval (cfg : Config) (args : DaemonArgs) : Option Nat :=
  (args.watchdog_interval.or (cfg.watchdog.bind fun w => w.interval_secs)).filter (0 < ·)

/-- CLI > config > None (default: 2). -/
def watchdog_multiplier (cfg : Config) (args : DaemonArgs) : Nat :=
  (args.watchdog_multiplier.or (cfg.watchdog.bind fun w => w.multiplier)).getD 2

/-- With no `[cache]` table its values are missing. -/
theorem cache_cfg_eq (cfg : Config) (args : DaemonArgs) :
    cfg.cache_cfg args =
      { dir_capacity :=
          setting args.cli_cache.dir_capacity (cfg.cached fun c => c.dir_capacity) DIR_CACHE_CAP
        dir_ttl_secs :=
          setting args.cli_cache.dir_ttl_secs (cfg.cached fun c => c.dir_ttl_secs) DIR_CACHE_TTL_SECS
        file_size_capacity :=
          setting args.cli_cache.file_size_capacity (cfg.cached fun c => c.file_size_capacity)
            FILE_SIZE_CACHE_CAP
        proc_ttl_secs :=
          setting args.cli_cache.proc_ttl_secs (cfg.cached fun c => c.proc_ttl_secs) PROC_HISTORY_CAP
        buffer_size := setting args.cli_cache.buffer_size (cfg.cached fun c => c.buffer_size) (4096 * 8)
        channel_capacity := args.cli_cache.channel_capacity.or (cfg.cached fun c => c.channel_capacity)
        subscribe_buf := setting args.cli_cache.subscribe_buf (cfg.cached fun c => c.subscribe_buf) 4096 } := by
  rw [cache_cfg]
  cases hc : cfg.cache with
  | none => simp only [CacheConfig.resolve_with_cli_eq, cached, hc, CacheConfig.empty, Option.bind_none]
  | some c => simp only [CacheConfig.resolve_with_cli_eq, cached, hc, Option.bind_some]

end Config

namespace Monitor

/-- `Monitor::new` with its panics, in the order of its fields: the file size cache, then the event
stream. -/
def new_checked (os : Os) (cfg : MonitorConfig) (subscribe_buf : Nat) : Started :=
  match new os cfg with
  | .error e => .error e
  | .ok m =>
      if m.panicked then .panicked .file_size_capacity
      else if broadcast_capacity (max subscribe_buf 1) then .daemon m
      else .panicked .broadcast_channel

/-- `spawn_tasks` with its panic: a capacity of zero means unbounded. -/
def spawn_tasks_checked (os : Os) (channel_capacity : Option Nat) (m : Monitor) : Started :=
  match channel_capacity with
  | some cap =>
      if 0 < cap then
        if mpsc_capacity cap then .daemon (m.spawn_tasks os) else .panicked .mpsc_channel
      else .daemon (m.spawn_tasks os)
  | none => .daemon (m.spawn_tasks os)

end Monitor

section
variable [Sizefilter] (os : Os) (cfg : Config) (args : DaemonArgs) (entries : List PathEntry)
  (log_dir : Option PathBuf) (pid : Nat)

/-- The multiplication, and `Monitor::new` and `spawn_tasks` with what has been merged. -/
def construct (paths_and_options : List (PathBuf × PathOptions)) : Started :=
  let cache_cfg := cfg.cache_cfg args
  match (cfg.watchdog_interval args).map fun i => Checked.mul i (cfg.watchdog_multiplier args) with
  | some none => .panicked .watchdog_sec
  | _ =>
      match Monitor.new_checked os
          { paths_and_options
            log_dir
            buffer_size := some cache_cfg.buffer_size
            cache_buffer_size := cache_cfg.buffer_size
            file_size_capacity := cache_cfg.file_size_capacity
            metrics_interval := cfg.metrics_interval args
            pid } cache_cfg.subscribe_buf with
      | .daemon m => m.spawn_tasks_checked os cache_cfg.channel_capacity
      | ended => ended

/-- `cmd_daemon` from the entries of the store on. -/
def cmd_daemon : Started :=
  match PathOptions.parse_path_entries entries with
  | .error e => .error e
  | .ok paths_and_options =>
      if cfg.watchdog_multiplier args ≤ 1 then
        .error ("Error: watchdog multiplier must be > 1, got ".toList ++
          (toString (cfg.watchdog_multiplier args)).toList ++ ".".toList)
      else construct os cfg args log_dir pid paths_and_options

end

/-! ## What is checked, and what is not -/

namespace Monitor

/-- An entry that `Monitor::new` refuses: it overlaps with the log directory, or is for `fsmon`. -/
def RefusesEntry (os : Os) (log_dir_canonical : Option PathBuf) (entry : PathBuf × PathOptions) : Prop :=
  (∃ log_dir, log_dir_canonical = some log_dir ∧ (log_dir = os.canonical entry.1 ∨
    (entry.2.recursive && log_dir.startsWith (os.canonical entry.1)) = true)) ∨
      entry.2.cmd = some "fsmon"

theorem new_entries_refused {os : Os} {log_dir_canonical : Option PathBuf}
    {entry : PathBuf × PathOptions} (h : RefusesEntry os log_dir_canonical entry)
    (rest : List (PathBuf × PathOptions)) (acc : List PathBuf × List (PathBuf × PathOptions)) :
    ∃ e, new_entries os log_dir_canonical (entry :: rest) acc = .error e := by
  cases log_dir_canonical with
  | none =>
      rcases h with ⟨_, hlog, _⟩ | hcmd
      · cases hlog
      · exact ⟨_, by simp only [new_entries, if_pos hcmd]; rfl⟩
  | some log_dir =>
      by_cases hover : log_dir = os.canonical entry.1 ∨
          (entry.2.recursive && log_dir.startsWith (os.canonical entry.1)) = true
      · exact ⟨_, by simp only [new_entries, if_pos hover]; rfl⟩
      · rcases h with ⟨_, hlog, h⟩ | hcmd
        · cases hlog
          exact absurd h hover
        · exact ⟨_, by simp only [new_entries, if_neg hover, if_pos hcmd]; rfl⟩

theorem new_entries_next {os : Os} {log_dir_canonical : Option PathBuf}
    {entry : PathBuf × PathOptions} (h : ¬ RefusesEntry os log_dir_canonical entry)
    (rest : List (PathBuf × PathOptions)) (acc : List PathBuf × List (PathBuf × PathOptions)) :
    ∃ acc', new_entries os log_dir_canonical (entry :: rest) acc =
      new_entries os log_dir_canonical rest acc' := by
  have hcmd : entry.2.cmd ≠ some "fsmon" := fun hcmd => h (.inr hcmd)
  cases log_dir_canonical with
  | none => exact ⟨_, by simp only [new_entries, if_neg hcmd]; rfl⟩
  | some log_dir =>
      have hover : ¬ (log_dir = os.canonical entry.1 ∨
          (entry.2.recursive && log_dir.startsWith (os.canonical entry.1)) = true) :=
        fun hover => h (.inl ⟨log_dir, rfl, hover⟩)
      exact ⟨_, by simp only [new_entries, if_neg hover, if_neg hcmd]; rfl⟩

/-- One such entry is an error. -/
theorem new_entries_error_iff (os : Os) (log_dir_canonical : Option PathBuf) :
    ∀ (entries : List (PathBuf × PathOptions)) (acc : List PathBuf × List (PathBuf × PathOptions)),
      (∃ e, new_entries os log_dir_canonical entries acc = .error e) ↔
        ∃ x ∈ entries, RefusesEntry os log_dir_canonical x := by
  intro entries
  induction entries with
  | nil =>
      intro acc
      constructor
      · rintro ⟨e, he⟩
        cases he
      · rintro ⟨x, hx, _⟩
        cases hx
  | cons entry rest ih =>
      intro acc
      rw [List.exists_mem_cons_iff]
      by_cases h : RefusesEntry os log_dir_canonical entry
      · exact iff_of_true (new_entries_refused h rest acc) (.inl h)
      · obtain ⟨acc', hnext⟩ := new_entries_next h rest acc
        rw [hnext, ih]
        exact (or_iff_right h).symm

/-- What `Monitor::new` checks, and the panic it does not guard against. -/
theorem new_cases (os : Os) (cfg : MonitorConfig) :
    (∃ e, new os cfg = .error e) ∧
      (cfg.buffer_size.getD cfg.cache_buffer_size < 4096 ∨
        1024 * 1024 < cfg.buffer_size.getD cfg.cache_buffer_size ∨
          ∃ x ∈ cfg.paths_and_options, RefusesEntry os (cfg.log_dir.map os.canonical) x) ∨
    (∃ m, new os cfg = .ok m ∧ (m.panicked = true ↔ cfg.file_size_capacity = 0)) ∧
      ¬ (cfg.buffer_size.getD cfg.cache_buffer_size < 4096 ∨
        1024 * 1024 < cfg.buffer_size.getD cfg.cache_buffer_size ∨
          ∃ x ∈ cfg.paths_and_options, RefusesEntry os (cfg.log_dir.map os.canonical) x) := by
  have hentries := new_entries_error_iff os (cfg.log_dir.map os.canonical) cfg.paths_and_options ([], [])
  rw [new]
  by_cases hlow : cfg.buffer_size.getD cfg.cache_buffer_size < 4096
  · rw [if_pos hlow]
    exact .inl ⟨⟨_, rfl⟩, .inl hlow⟩
  rw [if_neg hlow]
  by_cases hhigh : 1024 * 1024 < cfg.buffer_size.getD cfg.cache_buffer_size
  · rw [if_pos hhigh]
    exact .inl ⟨⟨_, rfl⟩, .inr (.inl hhigh)⟩
  rw [if_neg hhigh]
  cases hnew : new_entries os (cfg.log_dir.map os.canonical) cfg.paths_and_options ([], []) with
  | error e => exact .inl ⟨⟨e, rfl⟩, .inr (.inr (hentries.1 ⟨e, hnew⟩))⟩
  | ok r =>
      refine .inr ⟨⟨_, rfl, decide_eq_true_iff⟩, ?_⟩
      rintro (h | h | h)
      · exact hlow h
      · exact hhigh h
      · obtain ⟨e, he⟩ := hentries.2 h
        rw [hnew] at he
        cases he

theorem new_error_iff {os : Os} {cfg : MonitorConfig} :
    (∃ e, new os cfg = .error e) ↔
      cfg.buffer_size.getD cfg.cache_buffer_size < 4096 ∨
        1024 * 1024 < cfg.buffer_size.getD cfg.cache_buffer_size ∨
          ∃ x ∈ cfg.paths_and_options, RefusesEntry os (cfg.log_dir.map os.canonical) x := by
  rcases new_cases os cfg with ⟨he, href⟩ | ⟨⟨m, hm, _⟩, hno⟩
  · exact iff_of_true he href
  · refine iff_of_false ?_ hno
    rintro ⟨e, he⟩
    rw [hm] at he
    cases he

end Monitor

section
variable (cfg : Config) (args : DaemonArgs)

/-- The buffer size or an entry is refused. -/
def Refused (os : Os) (log_dir : Option PathBuf) (paths_and_options : List (PathBuf × PathOptions)) :
    Prop :=
  setting args.cli_cache.buffer_size (cfg.cached fun c => c.buffer_size) (4096 * 8) < 4096 ∨
    1024 * 1024 < setting args.cli_cache.buffer_size (cfg.cached fun c => c.buffer_size) (4096 * 8) ∨
      ∃ x ∈ paths_and_options, Monitor.RefusesEntry os (log_dir.map os.canonical) x

/-- `watchdog_sec` can be computed. -/
def ProductFits : Prop :=
  ∀ interval, args.watchdog_interval.or (cfg.watchdog.bind fun w => w.interval_secs) = some interval →
    interval * setting args.watchdog_multiplier (cfg.watchdog.bind fun w => w.multiplier) 2 ≤
      Checked.USIZE_MAX

/-- The capacities that reach a constructor unchecked are such that it does not panic. -/
structure InRange : Prop where
  file_size_capacity : setting args.cli_cache.file_size_capacity
    (cfg.cached fun c => c.file_size_capacity) FILE_SIZE_CACHE_CAP ≠ 0
  subscribe_buf : setting args.cli_cache.subscribe_buf (cfg.cached fun c => c.subscribe_buf) 4096 ≤
    Checked.USIZE_MAX / 2
  channel_capacity : ∀ cap,
    args.cli_cache.channel_capacity.or (cfg.cached fun c => c.channel_capacity) = some cap →
      cap ≤ Checked.USIZE_MAX / 8

end

/-! ## A start without a panic -/

/-- An interval of zero is no interval, and its product is zero. -/
theorem productFits_iff (cfg : Config) (args : DaemonArgs) :
    ProductFits cfg args ↔
      ∀ interval, cfg.watchdog_interval args = some interval →
        Checked.mul interval (cfg.watchdog_multiplier args) ≠ none := by
  have hmul : ∀ interval, Checked.mul interval (cfg.watchdog_multiplier args) ≠ none ↔
      interval * setting args.watchdog_multiplier (cfg.watchdog.bind fun w => w.multiplier) 2 ≤
        Checked.USIZE_MAX := by
    intro interval
    rw [ne_eq, Checked.mul_eq_none, Nat.not_lt]
    rfl
  constructor
  · intro h interval hinterval
    rw [Config.watchdog_interval, Option.filter_eq_some_iff] at hinterval
    exact (hmul interval).2 (h interval hinterval.1)
  · intro h interval hinterval
    by_cases hzero : interval = 0
    · subst hzero
      rw [Nat.zero_mul]
      exact Nat.zero_le _
    · refine (hmul interval).1 (h interval ?_)
      rw [Config.watchdog_interval, Option.filter_eq_some_iff]
      exact ⟨hinterval, decide_eq_true (Nat.pos_of_ne_zero hzero)⟩

/-- A capacity of zero is none for the channel, and one for the event stream. -/
theorem broadcast_capacity_max {cap : Nat} :
    broadcast_capacity (max cap 1) ↔ cap ≤ Checked.USIZE_MAX / 2 := by
  rw [broadcast_capacity, Checked.USIZE_MAX]
  omega

theorem spawn_tasks_no_panic_iff (os : Os) (channel_capacity : Option Nat) (m : Monitor) :
    (∀ p, m.spawn_tasks_checked os channel_capacity ≠ .panicked p) ↔
      ∀ cap, channel_capacity = some cap → cap ≤ Checked.USIZE_MAX / 8 := by
  cases channel_capacity with
  | none => exact iff_of_true nofun nofun
  | some cap =>
      simp only [Monitor.spawn_tasks_checked]
      by_cases hpos : 0 < cap
      · rw [if_pos hpos]
        by_cases hcap : mpsc_capacity cap
        · rw [if_pos hcap]
          refine iff_of_true nofun ?_
          intro cap' hsome
          cases hsome
          exact hcap.2
        · rw [if_neg hcap]
          refine iff_of_false (fun h => h _ rfl) ?_
          intro h
          exact hcap ⟨hpos, h cap rfl⟩
      · rw [if_neg hpos]
        refine iff_of_true nofun ?_
        intro cap' hsome
        cases hsome
        exact Nat.le_trans (Nat.le_of_not_lt hpos) (Nat.zero_le _)

section
variable [Sizefilter] (os : Os) (cfg : Config) (args : DaemonArgs) (entries : List PathEntry)
  (log_dir : Option PathBuf) (pid : Nat)

omit [Sizefilter] in
/-- `Monitor::new` panics on a configuration that it does not refuse. -/
theorem new_no_panic (mc : MonitorConfig) (subscribe_buf : Nat) (channel_capacity : Option Nat) :
    (∀ p, (match Monitor.new_checked os mc subscribe_buf with
        | .daemon m => m.spawn_tasks_checked os channel_capacity
        | ended => ended) ≠ .panicked p) ↔
      (∃ e, Monitor.new os mc = .error e) ∨
        (mc.file_size_capacity ≠ 0 ∧ subscribe_buf ≤ Checked.USIZE_MAX / 2 ∧
          ∀ cap, channel_capacity = some cap → cap ≤ Checked.USIZE_MAX / 8) := by
  rw [Monitor.new_checked]
  rcases Monitor.new_cases os mc with ⟨⟨e, he⟩, _⟩ | ⟨⟨m, hm, hpanicked⟩, _⟩
  · simp only [he]
    exact iff_of_true nofun (.inl ⟨e, rfl⟩)
  have hok : ¬ ∃ e, Monitor.new os mc = .error e := by
    rintro ⟨e, he⟩
    rw [hm] at he
    cases he
  rw [or_iff_right hok]
  simp only [hm]
  by_cases hfile : mc.file_size_capacity = 0
  · simp only [hpanicked.2 hfile, if_true]
    exact iff_of_false (fun h => h _ rfl) fun h => h.1 hfile
  simp only [if_neg (fun h => hfile (hpanicked.1 h))]
  by_cases hbuf : subscribe_buf ≤ Checked.USIZE_MAX / 2
  · simp only [if_pos (broadcast_capacity_max.2 hbuf), spawn_tasks_no_panic_iff]
    exact ⟨fun h => ⟨hfile, hbuf, h⟩, fun h => h.2.2⟩
  · simp only [if_neg fun h => hbuf (broadcast_capacity_max.1 h)]
    exact iff_of_false (fun h => h _ rfl) fun h => hbuf h.2.1

omit [Sizefilter] in
/-- The constructors, for entries that have been read. -/
theorem construct_no_panic_iff (paths_and_options : List (PathBuf × PathOptions)) :
    (∀ p, construct os cfg args log_dir pid paths_and_options ≠ .panicked p) ↔
      ProductFits cfg args ∧ (Refused cfg args os log_dir paths_and_options ∨ InRange cfg args) := by
  rw [productFits_iff, construct]
  split
  · rename_i hoverflow
    obtain ⟨interval, hinterval, hnone⟩ := Option.map_eq_some_iff.1 hoverflow
    refine iff_of_false (fun h => h _ rfl) ?_
    rintro ⟨h, _⟩
    exact h interval hinterval hnone
  · rename_i hfits
    have hproduct : ∀ interval, cfg.watchdog_interval args = some interval →
        Checked.mul interval (cfg.watchdog_multiplier args) ≠ none := by
      intro interval hinterval hnone
      exact hfits (by rw [hinterval, Option.map_some, hnone])
    rw [new_no_panic, and_iff_right hproduct, Monitor.new_error_iff, cfg.cache_cfg_eq args]
    refine or_congr Iff.rfl ?_
    exact ⟨fun h => ⟨h.1, h.2.1, h.2.2⟩, fun h => ⟨h.1, h.2, h.3⟩⟩

/-- **When the start does not panic**: an entry does not parse, or the multiplier is refused; or the
product fits, and `Monitor::new` refuses the buffer size or an entry before a capacity is looked at,
or the capacities are in range. -/
theorem cmd_daemon_no_panic_iff :
    (∀ p, cmd_daemon os cfg args entries log_dir pid ≠ .panicked p) ↔
      (∃ e, PathOptions.parse_path_entries entries = .error e) ∨
        setting args.watchdog_multiplier (cfg.watchdog.bind fun w => w.multiplier) 2 ≤ 1 ∨
        ProductFits cfg args ∧
          ((∃ paths_and_options, PathOptions.parse_path_entries entries = .ok paths_and_options ∧
              Refused cfg args os log_dir paths_and_options) ∨
            InRange cfg args) := by
  rw [cmd_daemon]
  cases hparse : PathOptions.parse_path_entries entries with
  | error e => exact iff_of_true nofun (.inl ⟨e, rfl⟩)
  | ok paths_and_options =>
      have hno : ¬ ∃ e, (Except.ok paths_and_options : Except Str _) = .error e := nofun
      have hone : (∃ pairs, (Except.ok paths_and_options : Except Str _) = .ok pairs ∧
          Refused cfg args os log_dir pairs) ↔ Refused cfg args os log_dir paths_and_options := by
        constructor
        · rintro ⟨_, hpairs, h⟩
          cases hpairs
          exact h
        · intro h
          exact ⟨paths_and_options, rfl, h⟩
      rw [or_iff_right hno, hone]
      simp only
      by_cases hmultiplier :
          setting args.watchdog_multiplier (cfg.watchdog.bind fun w => w.multiplier) 2 ≤ 1
      · rw [if_pos (show cfg.watchdog_multiplier args ≤ 1 from hmultiplier)]
        exact iff_of_true nofun (.inl hmultiplier)
      · rw [if_neg (show ¬ cfg.watchdog_multiplier args ≤ 1 from hmultiplier), construct_no_panic_iff]
        exact (or_iff_right hmultiplier).symm

end

/-- `[cache] file_size_capacity = 0`, and nothing else. -/
def zeroCapacity : Config := ⟨none, some { CacheConfig.empty with file_size_capacity := some 0 }, none⟩

/-- No numbers on the command line. -/
def noArgs : DaemonArgs := ⟨none, none, none, ⟨none, none, none, none, none, none, none⟩⟩

/-- No path is monitored, the capacity is zero, and the start panics. -/
theorem cmd_daemon_panics : ∃ p,
    @cmd_daemon noSizes (.calm Os.bareTree) zeroCapacity noArgs [] none 1 = .panicked p :=
  ⟨.file_size_capacity, rfl⟩

end Fsmon
