/-
# `Fsmon.Monitor.Attempts` — a retry while the file system changes

`check_pending` takes the pending entries out, tries each that it finds, and puts
back the ones that failed.  Each test, resolution and factory call of an attempt has
an answer of its own here (`Answers`); what marking and watching leave in the kernel
and in the caches is left open.

    Attempts        the pending entries, each with its answers
    Refused         `add_path` fails, in terms of the answers
    Retry.attempt   one turn of the loop: the entry stays, is monitored, or vanishes
    Vanishes        found, and then missing at `add_path`'s own test: the entry goes to
                    the pending list, which is written over at the end
    LosesNothing    each entry is tried once at most, and is monitored or pending after
    loses_nothing_iff   the same as: what vanishes is also pending or monitored otherwise

With one system that answers everything this is `check_pending` (`check_pending_calm`).
-/
import Fsmon.Monitor.Handles

namespace Fsmon.Monitor

/-- What the system answers in one attempt, in the order of the questions. -/
structure Answers where
  /-- `entry.0.exists()`. -/
  found : Bool
  /-- `resolve_recursion_check(&entry.path)`. -/
  resolved : PathBuf
  /-- `log_dir.canonicalize()`, or the path itself. -/
  log_canonical : PathBuf
  /-- `path.exists()`, in `add_path`. -/
  found_again : Bool
  /-- `path.canonicalize()`, or the path itself. -/
  canonical : PathBuf
  dev_id : Nat
  /-- `open_dir_safe` succeeds. -/
  opened : Bool
  /-- The descriptor of a new group, if the factory makes one. -/
  created : Option Nat
  dup_ok : Bool
  /-- The marks, the handles and the watches after the attempt. -/
  kernel : Kernel
  dir_cache : DirCache
  watches : List (PathBuf × Nat)
  added : List (Nat × WatchMask)
  entered : List PathBuf

namespace Answers

/-! ## `add_path` -/

/-- The path is already monitored: add the cmd and widen the mark of the root. -/
def add_cmd (a : Answers) (m : Monitor) (path : PathBuf) (opts : PathOptions) : Monitor :=
  let m₁ := { m with monitored_entries := m.monitored_entries ++ [(path, opts)] }
  let m₂ :=
    match m₁.fanotify.path_to_group.lookup path with
    | none => m₁
    | some gi =>
        match m₁.fanotify.groups.get gi with
        | none => { m₁ with panicked := true }
        | some _ => if m₁.fanotify.factory then { m₁ with kernel := a.kernel } else m₁
  m₂.count_monitored

/-- Reject paths that overlap with the log directory. -/
def log_dir_overlap (a : Answers) (m : Monitor) (path : PathBuf) (recursive : Bool) : Option Str :=
  match m.log_dir with
  | none => none
  | some log_dir =>
      if a.log_canonical = path ∨ (recursive && a.log_canonical.startsWith path) = true then
        some (overlap_message path log_dir (a.log_canonical = path))
      else none

/-- The path does not exist yet. -/
def queue_pending (a : Answers) (m : Monitor) (path : PathBuf) (entry : PathEntry) : Monitor :=
  if m.inotify_state.pending_paths.any fun e => e.1 = path && e.2.cmd = entry.cmd then m
  else
    { m with
      inotify_state :=
        { m.inotify_state with
          pending_paths := m.inotify_state.pending_paths ++ [(path, entry)]
          watches := a.watches
          added := a.added
          entered := a.entered } }

def spawn_fd_reader (a : Answers) (m : Monitor) (key : Nat) : Monitor :=
  if m.event_tx && m.fanotify.shared_dir_cache && a.dup_ok then
    { m with readers := m.readers ++ [key] }.count_groups
  else m

/-- The end of `add_path`: record the new root under its group. -/
def register (a : Answers) (m : Monitor) (path : PathBuf) (opts : PathOptions) (key : Nat) : Monitor :=
  { m with
    fanotify :=
      { m.fanotify with
        path_to_group := m.fanotify.path_to_group.insert path key
        dir_cache := a.dir_cache }
    paths := m.paths ++ [path]
    canonical_paths := m.canonical_paths ++ [a.canonical]
    monitored_entries := m.monitored_entries ++ [(path, opts)] }.count_monitored

/-- A root that exists and is not monitored yet: mark it and record it. -/
def add_root (a : Answers) (m : Monitor) (path : PathBuf) (opts : PathOptions) : Except Str Monitor :=
  match m.group_on a.dev_id with
  | some (key, _) =>
      let groups := m.fanotify.groups.modify key fun g => { g with ref_count := g.ref_count + 1 }
      .ok (a.register { m with kernel := a.kernel, fanotify := { m.fanotify with groups } } path opts key)
  | none =>
      if a.opened = false then .error ("open_dir_safe failed: ".toList ++ a.canonical.display)
      else
        match a.created with
        | none =>
            .error
              ("fanotify group creation failed for ".toList ++ a.canonical.display ++
                " (requires Linux 5.9+ kernel)".toList)
        | some new_fd =>
            let key := m.fanotify.groups.next
            let groups := m.fanotify.groups.insert ⟨a.dev_id, new_fd, 1⟩
            let m₁ := { m with kernel := a.kernel, fanotify := { m.fanotify with groups } }
            .ok (a.register (a.spawn_fd_reader m₁ key) path opts key)

/-! ### What it does to the entries -/

theorem entries_add_cmd (a : Answers) (m : Monitor) (path : PathBuf) (opts : PathOptions) :
    (a.add_cmd m path opts).monitored_entries = m.monitored_entries ++ [(path, opts)] := by
  rw [add_cmd]
  simp only
  split
  · rfl
  · split
    · rfl
    · split
      · rfl
      · rfl

theorem entries_queue_pending (a : Answers) (m : Monitor) (path : PathBuf) (entry : PathEntry) :
    (a.queue_pending m path entry).monitored_entries = m.monitored_entries := by
  rw [queue_pending]
  split
  · rfl
  · rfl

theorem entries_spawn_fd_reader (a : Answers) (m : Monitor) (key : Nat) :
    (a.spawn_fd_reader m key).monitored_entries = m.monitored_entries := by
  rw [spawn_fd_reader]
  split
  · rfl
  · rfl

theorem entries_add_root {a : Answers} {m m' : Monitor} {path : PathBuf} {opts : PathOptions}
    (h : a.add_root m path opts = .ok m') : m'.monitored_entries = m.monitored_entries ++ [(path, opts)] := by
  rw [add_root] at h
  split at h
  · cases h
    rfl
  · split at h
    · cases h
    · split at h
      · cases h
      · cases h
        exact congrArg (· ++ [(path, opts)]) (entries_spawn_fd_reader a _ _)

section
variable [Sizefilter]

def add_path (a : Answers) (m : Monitor) (entry : PathEntry) : Except Str Monitor :=
  let path := a.resolved
  if path ∈ m.paths then
    match PathOptions.try_from entry with
    | .error e => .error e
    | .ok opts => .ok (a.add_cmd m path opts)
  else
    match a.log_dir_overlap m path (entry.recursive.getD false) with
    | some msg => .error msg
    | none =>
        if a.found_again = false then .ok (a.queue_pending m path entry)
        else
          match PathOptions.try_from entry with
          | .error e => .error e
          | .ok opts =>
              if opts.cmd = some "fsmon" then .error CMD_FSMON
              else if m.fanotify.factory = false then
                .error "fanotify factory has not been started".toList
              else a.add_root m path opts

/-- The entry is missing at the second test, and nothing before it has ended the call. -/
def Missing (a : Answers) (m : Monitor) (entry : PathEntry) : Prop :=
  a.resolved ∉ m.paths ∧ a.log_dir_overlap m a.resolved (entry.recursive.getD false) = none ∧
    a.found_again = false

/-- No group can be had for the path. -/
def Groupless (a : Answers) (m : Monitor) : Prop :=
  m.group_on a.dev_id = none ∧ (a.opened = false ∨ a.created = none)

/-- The call fails: the options are wrong, the logs are in the way, or the path cannot be marked. -/
def Refused (a : Answers) (m : Monitor) (entry : PathEntry) : Prop :=
  if a.resolved ∈ m.paths then ∀ opts, PathOptions.try_from entry ≠ .ok opts
  else
    a.log_dir_overlap m a.resolved (entry.recursive.getD false) ≠ none ∨
      a.found_again = true ∧ ∀ opts, PathOptions.try_from entry = .ok opts →
        opts.cmd = some "fsmon" ∨ m.fanotify.factory = false ∨ a.Groupless m

omit [Sizefilter] in
theorem groupless_iff {a : Answers} {m : Monitor} {path : PathBuf} {opts : PathOptions} :
    a.Groupless m ↔ ∃ msg, a.add_root m path opts = .error msg := by
  rw [Groupless, add_root]
  cases hgroup : m.group_on a.dev_id with
  | some g =>
      refine iff_of_false (fun h => by cases h.1) ?_
      rintro ⟨msg, h⟩
      cases h
  | none =>
      by_cases hopened : a.opened = false
      · rw [if_pos hopened]
        exact iff_of_true ⟨rfl, .inl hopened⟩ ⟨_, rfl⟩
      · rw [if_neg hopened]
        cases hcreated : a.created with
        | none => exact iff_of_true ⟨rfl, .inr rfl⟩ ⟨_, rfl⟩
        | some new_fd =>
            refine iff_of_false (fun h => ?_) ?_
            · rcases h.2 with hclosed | hnone
              · exact hopened hclosed
              · cases hnone
            · rintro ⟨msg, h⟩
              cases h

omit [Sizefilter] in
theorem unmarked_iff {a : Answers} {m : Monitor} {path : PathBuf} {opts : PathOptions} :
    opts.cmd = some "fsmon" ∨ m.fanotify.factory = false ∨ a.Groupless m ↔
      ∃ msg, (if opts.cmd = some "fsmon" then .error CMD_FSMON
        else if m.fanotify.factory = false then .error "fanotify factory has not been started".toList
        else a.add_root m path opts) = .error msg := by
  by_cases hcmd : opts.cmd = some "fsmon"
  · rw [if_pos hcmd]
    exact iff_of_true (.inl hcmd) ⟨_, rfl⟩
  · rw [if_neg hcmd]
    by_cases hfactory : m.fanotify.factory = false
    · rw [if_pos hfactory]
      exact iff_of_true (.inr (.inl hfactory)) ⟨_, rfl⟩
    · rw [if_neg hfactory, ← groupless_iff]
      exact ⟨fun h => (h.resolve_left hcmd).resolve_left hfactory, fun h => .inr (.inr h)⟩

theorem refused_iff {a : Answers} {m : Monitor} {entry : PathEntry} :
    a.Refused m entry ↔ ∃ msg, a.add_path m entry = .error msg := by
  rw [Refused, add_path]
  by_cases hpath : a.resolved ∈ m.paths
  · rw [if_pos hpath, if_pos hpath]
    cases PathOptions.try_from entry with
    | error e => exact iff_of_true (fun opts h => by cases h) ⟨e, rfl⟩
    | ok opts =>
        refine iff_of_false (fun h => h opts rfl) ?_
        rintro ⟨msg, h⟩
        cases h
  · rw [if_neg hpath, if_neg hpath]
    cases a.log_dir_overlap m a.resolved (entry.recursive.getD false) with
    | some msg => exact iff_of_true (.inl fun h => by cases h) ⟨msg, rfl⟩
    | none =>
        refine (or_iff_right fun h => h rfl).trans ?_
        cases hagain : a.found_again with
        | false =>
            refine iff_of_false (fun h => Bool.false_ne_true h.1) ?_
            rintro ⟨msg, h⟩
            cases h
        | true =>
            refine (and_iff_right rfl).trans ?_
            cases PathOptions.try_from entry with
            | error e => exact iff_of_true (fun opts h => by cases h) ⟨e, rfl⟩
            | ok opts =>
                refine Iff.trans ⟨fun h => h opts rfl, fun h opts' heq => ?_⟩ unmarked_iff
                cases heq
                exact h

/-- What a call that succeeds has done: one more entry under the resolved path, or nothing to the
entries if the path was missing. -/
theorem add_path_ok {a : Answers} {m m' : Monitor} {entry : PathEntry} (h : a.add_path m entry = .ok m') :
    (a.Missing m entry ∧ m'.monitored_entries = m.monitored_entries) ∨
      (¬ a.Missing m entry ∧ ∃ opts, opts.cmd = cmd_filter entry.cmd ∧
        m'.monitored_entries = m.monitored_entries ++ [(a.resolved, opts)]) := by
  rw [add_path] at h
  split at h
  · next hpath =>
    split at h
    · cases h
    · next opts hopts =>
      cases h
      refine .inr ⟨fun hmiss => hmiss.1 hpath, opts, (PathOptions.try_from_ok hopts).1, ?_⟩
      exact entries_add_cmd a m a.resolved opts
  · next hpath =>
    split at h
    · cases h
    · next hlog =>
      split at h
      · next hgone =>
        cases h
        exact .inl ⟨⟨hpath, hlog, hgone⟩, entries_queue_pending a m a.resolved entry⟩
      · next hthere =>
        split at h
        · cases h
        · next opts hopts =>
          refine .inr ⟨fun hmiss => hthere hmiss.2.2, opts, (PathOptions.try_from_ok hopts).1, ?_⟩
          split at h
          · cases h
          · split at h
            · cases h
            · exact entries_add_root h

end

end Answers

/-! ## The retry -/

section
variable [Sizefilter]

/-- The variables of the loop. -/
structure Retry where
  monitor : Monitor
  still_pending : List (PathBuf × PathEntry)
  /-- The calls of `add_path`, oldest first (a history variable). -/
  tried : List (PathBuf × PathEntry)

/-- One attempt. -/
def Retry.attempt (r : Retry) (x : Answers × (PathBuf × PathEntry)) : Retry :=
  if x.1.found = false then { r with still_pending := r.still_pending ++ [x.2] }
  else
    match x.1.add_path r.monitor x.2.2 with
    | .ok m => { r with monitor := m, tried := r.tried ++ [x.2] }
    | .error _ => { r with still_pending := r.still_pending ++ [x.2], tried := r.tried ++ [x.2] }

/-- The pending entries, each with the answers it gets. -/
structure Attempts (m : Monitor) where
  list : List (Answers × (PathBuf × PathEntry))
  entries : list.map Prod.snd = m.inotify_state.pending_paths

/-- What `cleanup_temp_parent_marks` and `setup_inotify_watches` leave. -/
structure Cleanup where
  temp_parent_marks : HashMap PathBuf (PathBuf × Nat)
  kernel : Kernel
  groups : SlotMap FsGroup
  watches : List (PathBuf × Nat)
  added : List (Nat × WatchMask)
  entered : List PathBuf

def Cleanup.apply (c : Cleanup) (m : Monitor) : Monitor :=
  { m with
    kernel := c.kernel
    fanotify := { m.fanotify with groups := c.groups }
    inotify_state :=
      { m.inotify_state with
        temp_parent_marks := c.temp_parent_marks
        watches := c.watches
        added := c.added
        entered := c.entered } }

/-- The loop, with the pending entries taken out. -/
def retry_loop (m : Monitor) (xs : List (Answers × (PathBuf × PathEntry))) : Retry :=
  Run.exec Retry.attempt ⟨m.with_pending [], [], []⟩ xs

/-- `check_pending`, and the calls of `add_path` it makes. -/
def check_pending_at (m : Monitor) (xs : Attempts m) (c : Cleanup) : Monitor × List (PathBuf × PathEntry) :=
  if m.inotify_state.pending_paths = [] ∧ m.inotify_state.temp_parent_marks.entries = [] then (m, [])
  else
    let r := m.retry_loop xs.list
    ((c.apply (r.monitor.with_pending r.still_pending)).count_pending, r.tried)

/-- The entry is monitored under the path, for its cmd. -/
def Monitors (m : Monitor) (path : PathBuf) (entry : PathEntry) : Prop :=
  ∃ opts, (path, opts) ∈ m.monitored_entries ∧ opts.cmd = cmd_filter entry.cmd

/-- Each entry is tried once at most, and afterwards it is monitored under its resolved path, or pending. -/
structure LosesNothing (m : Monitor) (xs : Attempts m) (c : Cleanup) : Prop where
  once : (m.check_pending_at xs c).2.Sublist m.inotify_state.pending_paths
  kept : ∀ x ∈ xs.list, (m.check_pending_at xs c).1.Monitors x.1.resolved x.2.2 ∨
    x.2 ∈ (m.check_pending_at xs c).1.inotify_state.pending_paths

/-! ### What becomes of an entry -/

/-- It is not found, or refused. -/
def Stays (r : Retry) (x : Answers × (PathBuf × PathEntry)) : Prop :=
  x.1.found = false ∨ x.1.Refused r.monitor x.2.2

/-- It is found, and then missing. -/
def Vanishes (r : Retry) (x : Answers × (PathBuf × PathEntry)) : Prop :=
  x.1.found = true ∧ x.1.Missing r.monitor x.2.2

/-- It is there, and not refused. -/
def Succeeds (r : Retry) (x : Answers × (PathBuf × PathEntry)) : Prop :=
  x.1.found = true ∧ ¬ x.1.Refused r.monitor x.2.2 ∧ ¬ x.1.Missing r.monitor x.2.2

/-- What vanishes in some attempt stays pending as an equal entry in another one, or is monitored: before
the call, or by another attempt. -/
def NothingVanishes (m : Monitor) (xs : Attempts m) : Prop :=
  ∀ pre x post, xs.list = pre ++ x :: post → Vanishes (m.retry_loop pre) x →
    m.Monitors x.1.resolved x.2.2 ∨
      ∃ pre' y post', xs.list = pre' ++ y :: post' ∧
        (Stays (m.retry_loop pre') y ∧ y.2 = x.2 ∨
          Succeeds (m.retry_loop pre') y ∧ y.1.resolved = x.1.resolved ∧
            cmd_filter y.2.2.cmd = cmd_filter x.2.2.cmd)

/-! ### One attempt -/

theorem stays_vanishes_or_succeeds (r : Retry) (x : Answers × (PathBuf × PathEntry)) :
    Stays r x ∨ Vanishes r x ∨ Succeeds r x := by
  cases hfound : x.1.found with
  | false => exact .inl (.inl hfound)
  | true =>
      by_cases hrefused : x.1.Refused r.monitor x.2.2
      · exact .inl (.inr hrefused)
      · by_cases hmiss : x.1.Missing r.monitor x.2.2
        · exact .inr (.inl ⟨hfound, hmiss⟩)
        · exact .inr (.inr ⟨hfound, hrefused, hmiss⟩)

/-- What the attempt puts back. -/
def puts_back (r : Retry) (x : Answers × (PathBuf × PathEntry)) : List (PathBuf × PathEntry) :=
  if x.1.found = false then [x.2]
  else
    match x.1.add_path r.monitor x.2.2 with
    | .ok _ => []
    | .error _ => [x.2]

theorem still_attempt (r : Retry) (x : Answers × (PathBuf × PathEntry)) :
    (r.attempt x).still_pending = r.still_pending ++ puts_back r x := by
  rw [Retry.attempt, puts_back]
  split
  · rfl
  · split
    · exact (List.append_nil _).symm
    · rfl

theorem mem_puts_back {r : Retry} {x : Answers × (PathBuf × PathEntry)} {e : PathBuf × PathEntry} :
    e ∈ puts_back r x ↔ Stays r x ∧ x.2 = e := by
  rw [puts_back, Stays, Answers.refused_iff]
  by_cases hfound : x.1.found = false
  · rw [if_pos hfound, List.mem_singleton]
    exact ⟨fun h => ⟨.inl hfound, h.symm⟩, fun h => h.2.symm⟩
  · rw [if_neg hfound]
    cases hadd : x.1.add_path r.monitor x.2.2 with
    | error msg =>
        rw [List.mem_singleton]
        exact ⟨fun h => ⟨.inr ⟨msg, rfl⟩, h.symm⟩, fun h => h.2.symm⟩
    | ok m =>
        refine iff_of_false List.not_mem_nil ?_
        rintro ⟨hgone | ⟨msg, hmsg⟩, _⟩
        · exact hfound hgone
        · cases hmsg

/-- What the attempt monitors. -/
def gains (r : Retry) (x : Answers × (PathBuf × PathEntry)) : List (PathBuf × PathOptions) :=
  (r.attempt x).monitor.monitored_entries.drop r.monitor.monitored_entries.length

/-- One entry under the resolved path if it succeeds, and none if not. -/
theorem gains_cases (r : Retry) (x : Answers × (PathBuf × PathEntry)) :
    (r.attempt x).monitor.monitored_entries = r.monitor.monitored_entries ++ gains r x ∧
      ((Succeeds r x ∧ ∃ opts, opts.cmd = cmd_filter x.2.2.cmd ∧ gains r x = [(x.1.resolved, opts)]) ∨
        (¬ Succeeds r x ∧ gains r x = [])) := by
  have hgain : ∀ {es}, (r.attempt x).monitor.monitored_entries = r.monitor.monitored_entries ++ es →
      gains r x = es := by
    intro es h
    rw [gains, h, List.drop_left]
  have hsame : (r.attempt x).monitor.monitored_entries = r.monitor.monitored_entries → ¬ Succeeds r x →
      (r.attempt x).monitor.monitored_entries = r.monitor.monitored_entries ++ gains r x ∧
        ((Succeeds r x ∧ ∃ opts, opts.cmd = cmd_filter x.2.2.cmd ∧ gains r x = [(x.1.resolved, opts)]) ∨
          (¬ Succeeds r x ∧ gains r x = [])) := by
    intro h hnot
    have hnone := hgain (h.trans (List.append_nil _).symm)
    rw [hnone, List.append_nil]
    exact ⟨h, .inr ⟨hnot, rfl⟩⟩
  cases hfound : x.1.found with
  | false =>
      refine hsame ?_ fun h => ?_
      · rw [Retry.attempt, if_pos hfound]
      · exact Bool.false_ne_true (hfound.symm.trans h.1)
  | true =>
      have hnot : ¬ x.1.found = false := by
        rw [hfound]
        exact Bool.noConfusion
      cases hadd : x.1.add_path r.monitor x.2.2 with
      | error msg =>
          refine hsame ?_ fun h => ?_
          · rw [Retry.attempt, if_neg hnot, hadd]
          · exact h.2.1 (Answers.refused_iff.2 ⟨msg, hadd⟩)
      | ok m =>
          have hstep : (r.attempt x).monitor = m := by rw [Retry.attempt, if_neg hnot, hadd]
          rcases Answers.add_path_ok hadd with ⟨hmiss, hentries⟩ | ⟨hmiss, opts, hcmd, hentries⟩
          · exact hsame (hstep ▸ hentries) fun h => h.2.2 hmiss
          · have hone := hgain (hstep ▸ hentries)
            rw [hone, hstep]
            have haccepted : ¬ x.1.Refused r.monitor x.2.2 := by
              rw [Answers.refused_iff, hadd]
              rintro ⟨msg, h⟩
              cases h
            exact ⟨hentries, .inl ⟨⟨hfound, haccepted, hmiss⟩, opts, hcmd, rfl⟩⟩

/-! ### The whole call -/

variable {m : Monitor} {xs : List (Answers × (PathBuf × PathEntry))}

theorem mem_still {e : PathBuf × PathEntry} : e ∈ (m.retry_loop xs).still_pending ↔
    ∃ pre x post, xs = pre ++ x :: post ∧ Stays (m.retry_loop pre) x ∧ x.2 = e := by
  rw [retry_loop, Run.mem_exec_iff still_attempt]
  refine (or_iff_right List.not_mem_nil).trans ?_
  simp only [mem_puts_back, retry_loop]

theorem monitors_loop {path : PathBuf} {entry : PathEntry} : (m.retry_loop xs).monitor.Monitors path entry ↔
    m.Monitors path entry ∨ ∃ pre x post, xs = pre ++ x :: post ∧ Succeeds (m.retry_loop pre) x ∧
      x.1.resolved = path ∧ cmd_filter x.2.2.cmd = cmd_filter entry.cmd := by
  have hmem := fun b => @Run.mem_exec_iff Retry (Answers × (PathBuf × PathEntry)) Retry.attempt _
    (fun r => r.monitor.monitored_entries) gains (fun r x => (gains_cases r x).1) xs
    ⟨m.with_pending [], [], []⟩ b
  constructor
  · rintro ⟨opts, hopts, hcmd⟩
    rcases (hmem _).1 hopts with hbefore | ⟨pre, x, post, hxs, hgain⟩
    · exact .inl ⟨opts, hbefore, hcmd⟩
    · rcases (gains_cases _ x).2 with ⟨hsucceeds, opts', hcmd', hone⟩ | ⟨_, hnone⟩
      · rw [hone] at hgain
        cases List.mem_singleton.1 hgain
        exact .inr ⟨pre, x, post, hxs, hsucceeds, rfl, hcmd'.symm.trans hcmd⟩
      · rw [hnone] at hgain
        cases hgain
  · rintro (⟨opts, hopts, hcmd⟩ | ⟨pre, x, post, hxs, hsucceeds, hpath, hcmd⟩)
    · exact ⟨opts, (hmem _).2 (.inl hopts), hcmd⟩
    · rcases (gains_cases (m.retry_loop pre) x).2 with ⟨_, opts, hcmd', hone⟩ | ⟨hnot, _⟩
      · refine ⟨opts, (hmem _).2 (.inr ⟨pre, x, post, hxs, ?_⟩), hcmd'.trans hcmd⟩
        rw [← hpath]
        exact hone ▸ List.mem_singleton_self _
      · exact absurd hsucceeds hnot

theorem tried_sublist : ∀ (xs : List (Answers × (PathBuf × PathEntry))) (r : Retry),
    ∃ ts, (Run.exec Retry.attempt r xs).tried = r.tried ++ ts ∧ ts.Sublist (xs.map Prod.snd) := by
  intro xs
  induction xs with
  | nil =>
      intro r
      exact ⟨[], (List.append_nil _).symm, List.nil_sublist _⟩
  | cons x xs ih =>
      intro r
      obtain ⟨ts, htried, hsub⟩ := ih (r.attempt x)
      have hstep : (r.attempt x).tried = r.tried ∨ (r.attempt x).tried = r.tried ++ [x.2] := by
        rw [Retry.attempt]
        split
        · exact .inl rfl
        · split
          · exact .inr rfl
          · exact .inr rfl
      rcases hstep with hnone | hone
      · exact ⟨ts, by rw [Run.exec_cons, htried, hnone], hsub.cons _⟩
      · exact ⟨x.2 :: ts, by rw [Run.exec_cons, htried, hone, List.append_assoc]; rfl, hsub.cons_cons _⟩

/-- **A retry loses nothing** exactly if nothing vanishes between the two tests. -/
theorem loses_nothing_iff (m : Monitor) (xs : Attempts m) (c : Cleanup) :
    LosesNothing m xs c ↔ NothingVanishes m xs := by
  -- without pending entries and marks nothing is done
  by_cases hidle : m.inotify_state.pending_paths = [] ∧ m.inotify_state.temp_parent_marks.entries = []
  · have hcall : m.check_pending_at xs c = (m, []) := if_pos hidle
    have hnil : xs.list = [] := List.map_eq_nil_iff.1 (xs.entries.trans hidle.1)
    refine iff_of_true ⟨?_, ?_⟩ ?_
    · rw [hcall]
      exact List.nil_sublist _
    · rw [hnil]
      exact fun x hx => absurd hx List.not_mem_nil
    · intro pre x post hxs
      rw [hnil] at hxs
      cases pre <;> cases hxs
  · have hcall : m.check_pending_at xs c =
        ((c.apply ((m.retry_loop xs.list).monitor.with_pending
            (m.retry_loop xs.list).still_pending)).count_pending,
          (m.retry_loop xs.list).tried) := if_neg hidle
    have hmonitors : ∀ path entry, (m.check_pending_at xs c).1.Monitors path entry ↔
        (m.retry_loop xs.list).monitor.Monitors path entry := by
      intro path entry
      rw [hcall]
      exact .rfl
    have hpending : (m.check_pending_at xs c).1.inotify_state.pending_paths =
        (m.retry_loop xs.list).still_pending := by
      rw [hcall]
      rfl
    constructor
    · intro h pre x post hxs _
      have hx : x ∈ xs.list := by
        rw [hxs]
        exact List.mem_append_right _ List.mem_cons_self
      rcases h.kept x hx with hmon | hpend
      · rcases monitors_loop.1 ((hmonitors _ _).1 hmon) with hbefore | ⟨pre', y, post', hy, hsucceeds⟩
        · exact .inl hbefore
        · exact .inr ⟨pre', y, post', hy, .inr hsucceeds⟩
      · rw [hpending] at hpend
        obtain ⟨pre', y, post', hy, hstays⟩ := mem_still.1 hpend
        exact .inr ⟨pre', y, post', hy, .inl hstays⟩
    · intro h
      refine ⟨?_, ?_⟩
      · -- the history starts empty, so it is what the loop has tried
        obtain ⟨ts, htried, hsub⟩ := tried_sublist xs.list ⟨m.with_pending [], [], []⟩
        have htried' : (m.check_pending_at xs c).2 = ts := by
          rw [hcall]
          exact htried
        rw [htried', ← xs.entries]
        exact hsub
      · intro x hx
        obtain ⟨pre, post, hxs⟩ := List.append_of_mem hx
        rw [hmonitors, hpending, monitors_loop, mem_still]
        rcases stays_vanishes_or_succeeds (m.retry_loop pre) x with hstays | hvanishes | hsucceeds
        · exact .inr ⟨pre, x, post, hxs, hstays, rfl⟩
        · rcases h pre x post hxs hvanishes with hbefore | ⟨pre', y, post', hy, hstays | hsucceeds⟩
          · exact .inl (.inl hbefore)
          · exact .inr ⟨pre', y, post', hy, hstays⟩
          · exact .inl (.inr ⟨pre', y, post', hy, hsucceeds⟩)
        · exact .inl (.inr ⟨pre, x, post, hxs, hsucceeds, rfl, rfl⟩)

end

/-- `/a` is waited for. -/
def waiting : Monitor :=
  Monitor.idle.with_pending [([[0x61]], ⟨none, [[0x61]], none, none, none, none⟩)]

/-- It is there, and then it is not. -/
def flicker : Answers where
  found := true
  resolved := [[0x61]]
  log_canonical := []
  found_again := false
  canonical := [[0x61]]
  dev_id := 1
  opened := false
  created := none
  dup_ok := true
  kernel := .initial
  dir_cache := ∅
  watches := []
  added := []
  entered := []

/-- The entry is queued again, and the queue is written over. -/
theorem retry_loses_entry : ¬ @LosesNothing noSizes waiting
    ⟨[(flicker, [[0x61]], ⟨none, [[0x61]], none, none, none, none⟩)], rfl⟩
    ⟨∅, .initial, .empty, [], [], []⟩ := by
  intro h
  rcases @LosesNothing.kept noSizes _ _ _ h _ List.mem_cons_self with ⟨opts, hentry, _⟩ | hpending
  · exact absurd hentry List.not_mem_nil
  · exact absurd hpending List.not_mem_nil

/-! ## One system for all answers -/

section
variable {os : Os} {m m' : Monitor} {e : PathBuf × PathEntry}

/-- Only the watches change. -/
theorem sameInotify_setup (os : Os) (m : Monitor) : ∃ ws added entered, m.setup_inotify_watches os =
    { m with
      inotify_state := { m.inotify_state with watches := ws, added := added, entered := entered } } := by
  rw [setup_inotify_watches]
  split
  · exact ⟨_, _, _, rfl⟩
  · obtain ⟨ws, added, entered, heq⟩ := ((sameInotify_foldl (sameInotify_watch_pending os)
      m.inotify_state.pending_paths m.inotify_state).trans
        (sameInotify_foldl (sameInotify_watch_root os) m.monitored_entries _)).trans
          (sameInotify_foldl (sameInotify_watch_self os) m.monitored_entries _)
    exact ⟨ws, added, entered, by simp only [heq]⟩

/-- The answers of one system that marks and watches as given. -/
def Answers.of (os : Os) (m m' : Monitor) (e : PathBuf × PathEntry) : Answers where
  found := os.exists e.1
  resolved := os.canonical e.2.path
  log_canonical := (m.log_dir.map os.canonical).getD []
  found_again := os.exists (os.canonical e.2.path)
  canonical := os.canonical (os.canonical e.2.path)
  dev_id := os.dev_id (os.canonical (os.canonical e.2.path))
  opened := (os.open_dir_safe (os.canonical (os.canonical e.2.path))).isSome
  created := (os.open_dir_safe (os.canonical (os.canonical e.2.path))).bind fun dir =>
    if os.create_ok dir.node.ino then some m.kernel.next_fd else none
  dup_ok := os.dup_ok
  kernel := m'.kernel
  dir_cache := m'.fanotify.dir_cache
  watches := m'.inotify_state.watches
  added := m'.inotify_state.added
  entered := m'.inotify_state.entered

theorem add_cmd_of (os : Os) (m : Monitor) (e : PathBuf × PathEntry) (path : PathBuf) (opts : PathOptions) :
    (Answers.of os m (m.add_cmd os path opts) e).add_cmd m path opts = m.add_cmd os path opts := by
  rw [Answers.add_cmd, add_cmd, Answers.of]
  simp only
  cases m.fanotify.path_to_group.lookup path with
  | none => rfl
  | some gi =>
      simp only
      cases m.fanotify.groups.get gi with
      | none => rfl
      | some group =>
          simp only
          split
          · rfl
          · rfl

theorem queue_pending_of (os : Os) (m : Monitor) (e : PathBuf × PathEntry) (path : PathBuf)
    (entry : PathEntry) :
    (Answers.of os m (m.queue_pending os path entry) e).queue_pending m path entry =
      m.queue_pending os path entry := by
  rw [Answers.queue_pending, queue_pending, Answers.of]
  split
  · rfl
  · obtain ⟨ws, added, entered, heq⟩ := sameInotify_setup os
      { m with
        inotify_state :=
          { m.inotify_state with pending_paths := m.inotify_state.pending_paths ++ [(path, entry)] } }
    rw [heq]

theorem log_dir_overlap_of (os : Os) (m m' : Monitor) (e : PathBuf × PathEntry) (path : PathBuf)
    (recursive : Bool) :
    (Answers.of os m m' e).log_dir_overlap m path recursive = m.log_dir_overlap os path recursive := by
  rw [Answers.log_dir_overlap, log_dir_overlap, Answers.of]
  cases m.log_dir with
  | none => rfl
  | some log_dir => rfl

/-- Marking the tree of a root changes the marks and the handles. -/
theorem mark_tree_eq (os : Os) (m : Monitor) (k : Kernel) (fan_fd : Nat) (mask : Mask) (canonical : PathBuf)
    (opts : PathOptions) :
    ∃ k' c, (if opts.recursive && os.is_dir canonical then
        ({ m with kernel := k }.mark_recursive os fan_fd mask canonical opts.max_depth).1
      else { m with kernel := k }) =
        { m with kernel := k', fanotify := { m.fanotify with dir_cache := c } } := by
  split
  · exact ⟨_, _, rfl⟩
  · exact ⟨_, _, rfl⟩

/-- So does marking on a group. -/
theorem mark_on_group_eq (os : Os) (m : Monitor) (fan_fd : Nat) (canonical : PathBuf) (opts : PathOptions) :
    ∃ k c, m.mark_on_group os fan_fd canonical opts =
      { m with kernel := k, fanotify := { m.fanotify with dir_cache := c } } := by
  rcases mark_on_group_cases os m fan_fd canonical opts with hsame | ⟨dir, k, _, _, hmarked⟩
  · exact ⟨m.kernel, m.fanotify.dir_cache, hsame⟩
  · rw [hmarked]
    exact mark_tree_eq os m k fan_fd opts.path_mask_from_options canonical opts

/-- Both ends of `add_path` record the same. -/
theorem register_eq (os : Os) (m : Monitor) (path canonical : PathBuf) (opts : PathOptions) (key : Nat)
    (a : Answers) (hcanonical : a.canonical = canonical)
    (hcache : a.dir_cache = (m.register os path canonical opts key).fanotify.dir_cache) :
    a.register m path opts key = m.register os path canonical opts key := by
  rw [Answers.register, hcanonical, hcache, register]
  split
  · rfl
  · rfl

theorem kernel_register (os : Os) (m : Monitor) (path canonical : PathBuf) (opts : PathOptions) (key : Nat) :
    (m.register os path canonical opts key).kernel = m.kernel := by
  rw [register]
  split
  · rfl
  · rfl

/-- The group of a new root is there, and its tree is marked. -/
def new_group (m : Monitor) (k : Kernel) (c : DirCache) (dev_id new_fd : Nat) : Monitor :=
  { m with
    kernel := k
    fanotify := { m.fanotify with groups := m.fanotify.groups.insert ⟨dev_id, new_fd, 1⟩, dir_cache := c } }

/-- The handles are set at the end. -/
theorem register_with_cache (a : Answers) (m : Monitor) (c : DirCache) (k : Kernel) (dev_id new_fd key : Nat)
    (path : PathBuf) (opts : PathOptions) :
    a.register (spawn_fd_reader os (new_group m k c dev_id new_fd) key) path opts key =
      a.register (spawn_fd_reader os (new_group m k m.fanotify.dir_cache dev_id new_fd) key)
        path opts key := by
  by_cases hspawn : (m.event_tx && m.fanotify.shared_dir_cache && os.dup_ok) = true
  · have hreader : ∀ c, spawn_fd_reader os (new_group m k c dev_id new_fd) key =
        { new_group m k c dev_id new_fd with readers := m.readers ++ [key] }.count_groups :=
      fun _ => if_pos hspawn
    rw [hreader, hreader]
    rfl
  · have hnone : ∀ c, spawn_fd_reader os (new_group m k c dev_id new_fd) key = new_group m k c dev_id new_fd :=
      fun _ => if_neg hspawn
    rw [hnone, hnone]
    rfl

/-- A root on a group of its own. -/
theorem add_root_new {path : PathBuf} {opts : PathOptions}
    (hgroup : m.group_on (os.dev_id (os.canonical path)) = none) (h : m.add_root os path opts = .ok m') :
    ∃ dir k c, os.open_dir_safe (os.canonical path) = some dir ∧ os.create_ok dir.node.ino = true ∧
      m' = (spawn_fd_reader os (m.new_group k c (os.dev_id (os.canonical path)) m.kernel.next_fd)
        m.fanotify.groups.next).register os path (os.canonical path) opts m.fanotify.groups.next := by
  rw [add_root, hgroup] at h
  simp only at h
  cases hopen : os.open_dir_safe (os.canonical path) with
  | none =>
      rw [hopen] at h
      cases h
  | some dir =>
      rw [hopen] at h
      simp only [Kernel.create_group_and_mark] at h
      cases hcreate : os.create_ok dir.node.ino with
      | false =>
          rw [hcreate] at h
          cases h
      | true =>
          rw [hcreate] at h
          simp only [if_true] at h
          obtain ⟨k, c, hmark⟩ := mark_tree_eq os m _ m.kernel.next_fd opts.path_mask_from_options
            (os.canonical path) opts
          rw [hmark] at h
          exact ⟨dir, k, c, rfl, hcreate, (Except.ok.inj h).symm⟩

theorem add_root_of {opts : PathOptions} (h : m.add_root os (os.canonical e.2.path) opts = .ok m') :
    (Answers.of os m m' e).add_root m (os.canonical e.2.path) opts = .ok m' := by
  have hdev : (Answers.of os m m' e).dev_id = os.dev_id (os.canonical (os.canonical e.2.path)) := rfl
  rw [Answers.add_root, hdev]
  cases hgroup : m.group_on (os.dev_id (os.canonical (os.canonical e.2.path))) with
  | some g =>
      obtain ⟨key, group⟩ := g
      rw [add_root, hgroup] at h
      obtain ⟨k, c, hmark⟩ := mark_on_group_eq os m group.fan_fd (os.canonical (os.canonical e.2.path)) opts
      simp only at h ⊢
      rw [hmark] at h
      cases h
      refine congrArg Except.ok (Eq.trans ?_ (register_eq os _ _ _ opts key (Answers.of os m _ e) rfl rfl))
      rw [Answers.of, kernel_register]
      rfl
  | none =>
      obtain ⟨dir, k, c, hopen, hcreate, hm'⟩ := add_root_new hgroup h
      have hopened : ¬ (Answers.of os m m' e).opened = false := by
        rw [Answers.of, hopen]
        exact Bool.noConfusion
      have hcreated : (Answers.of os m m' e).created = some m.kernel.next_fd := by
        rw [Answers.of, hopen]
        exact if_pos hcreate
      have hkernel : (Answers.of os m m' e).kernel = k := by
        rw [Answers.of, hm', kernel_register, (kernel_spawn_fd_reader ..).1]
        rfl
      simp only [if_neg hopened, hcreated, hkernel]
      refine congrArg Except.ok (Eq.trans ?_ (Eq.trans
        (register_eq os _ _ _ opts _ (Answers.of os m m' e) rfl ?_) hm'.symm))
      · exact (register_with_cache ..).symm
      · exact congrArg (fun m => m.fanotify.dir_cache) hm'

theorem add_root_error_of {opts : PathOptions} {msg : Str}
    (h : m.add_root os (os.canonical e.2.path) opts = .error msg) :
    (Answers.of os m m' e).add_root m (os.canonical e.2.path) opts = .error msg := by
  have hdev : (Answers.of os m m' e).dev_id = os.dev_id (os.canonical (os.canonical e.2.path)) := rfl
  rw [add_root] at h
  rw [Answers.add_root, hdev]
  cases hgroup : m.group_on (os.dev_id (os.canonical (os.canonical e.2.path))) with
  | some g =>
      obtain ⟨key, group⟩ := g
      rw [hgroup] at h
      cases h
  | none =>
      rw [hgroup] at h
      simp only at h ⊢
      cases hopen : os.open_dir_safe (os.canonical (os.canonical e.2.path)) with
      | none =>
          have hopened : (Answers.of os m m' e).opened = false := by
            rw [Answers.of, hopen]
            rfl
          rw [hopen] at h
          rw [if_pos hopened]
          exact h
      | some dir =>
          have hopened : ¬ (Answers.of os m m' e).opened = false := by
            rw [Answers.of, hopen]
            exact Bool.noConfusion
          rw [hopen] at h
          rw [if_neg hopened]
          simp only [Kernel.create_group_and_mark] at h
          cases hcreate : os.create_ok dir.node.ino with
          | true =>
              rw [hcreate] at h
              cases h
          | false =>
              have hcreated : (Answers.of os m m' e).created = none := by
                rw [Answers.of, hopen]
                exact if_neg (Bool.not_eq_true _ ▸ hcreate)
              rw [hcreate] at h
              rw [hcreated]
              exact h

/-! ### The end of the call -/

theorem exists_cleanup (m : Monitor) : ∃ c : Cleanup, m = c.apply m :=
  ⟨⟨m.inotify_state.temp_parent_marks, m.kernel, m.fanotify.groups, m.inotify_state.watches,
    m.inotify_state.added, m.inotify_state.entered⟩, rfl⟩

theorem remove_temp_parent_mark_eq (os : Os) (m : Monitor) (target : PathBuf) :
    ∃ c : Cleanup, m.remove_temp_parent_mark os target = c.apply m := by
  rw [remove_temp_parent_mark]
  split
  · exact exists_cleanup m
  · next parent key _ =>
    simp only
    split
    · exact ⟨⟨_, m.kernel, m.fanotify.groups, m.inotify_state.watches, m.inotify_state.added,
        m.inotify_state.entered⟩, rfl⟩
    · split
      · exact ⟨⟨_, _, _, m.inotify_state.watches, m.inotify_state.added, m.inotify_state.entered⟩, rfl⟩
      · exact ⟨⟨_, m.kernel, _, m.inotify_state.watches, m.inotify_state.added, m.inotify_state.entered⟩, rfl⟩

/-- The end of the call: the marks of the targets that are monitored go, and the watches are set. -/
theorem cleanup_of (os : Os) (m : Monitor) :
    ∃ c : Cleanup, (m.cleanup_temp_parent_marks os).setup_inotify_watches os = c.apply m := by
  obtain ⟨c, hc⟩ : ∃ c : Cleanup, m.cleanup_temp_parent_marks os = c.apply m := by
    refine Run.rel_foldl (R := fun m m' => ∃ c : Cleanup, m' = c.apply m) exists_cleanup ?_
      (remove_temp_parent_mark_eq os) _ m
    rintro m _ _ ⟨c, rfl⟩ ⟨c', rfl⟩
    exact ⟨c', rfl⟩
  obtain ⟨ws, added, entered, hsetup⟩ := sameInotify_setup os (m.cleanup_temp_parent_marks os)
  refine ⟨{ c with watches := ws, added := added, entered := entered }, hsetup.trans ?_⟩
  rw [hc]
  rfl

/-! ### The calls of `add_path` -/

variable [Sizefilter]

/-- A call whose questions are all put to one system. -/
theorem add_path_of (os : Os) (m : Monitor) (e : PathBuf × PathEntry) :
    (Answers.of os m ((m.add_path os e.2).toOption.getD m) e).add_path m e.2 = m.add_path os e.2 := by
  generalize hcall : m.add_path os e.2 = r
  rw [add_path] at hcall
  rw [Answers.add_path]
  have hresolved : (Answers.of os m (r.toOption.getD m) e).resolved = os.canonical e.2.path := rfl
  have hagain : (Answers.of os m (r.toOption.getD m) e).found_again = os.exists (os.canonical e.2.path) := rfl
  simp only [hresolved, log_dir_overlap_of, hagain]
  by_cases hpath : os.canonical e.2.path ∈ m.paths
  · rw [if_pos hpath] at hcall ⊢
    cases hopts : PathOptions.try_from e.2 with
    | error msg =>
        rw [hopts] at hcall
        exact hcall
    | ok opts =>
        rw [hopts] at hcall
        rw [← hcall]
        exact congrArg Except.ok (add_cmd_of os m e _ opts)
  · rw [if_neg hpath] at hcall ⊢
    cases hlog : m.log_dir_overlap os (os.canonical e.2.path) (e.2.recursive.getD false) with
    | some msg =>
        rw [hlog] at hcall
        exact hcall
    | none =>
        rw [hlog] at hcall
        simp only at hcall ⊢
        by_cases hgone : os.exists (os.canonical e.2.path) = false
        · rw [if_pos hgone] at hcall ⊢
          rw [← hcall]
          exact congrArg Except.ok (queue_pending_of os m e _ e.2)
        · rw [if_neg hgone] at hcall ⊢
          cases hopts : PathOptions.try_from e.2 with
          | error msg =>
              rw [hopts] at hcall
              exact hcall
          | ok opts =>
              rw [hopts] at hcall
              simp only at hcall ⊢
              by_cases hcmd : opts.cmd = some "fsmon"
              · rw [if_pos hcmd] at hcall ⊢
                exact hcall
              · rw [if_neg hcmd] at hcall ⊢
                by_cases hfactory : m.fanotify.factory = false
                · rw [if_pos hfactory] at hcall ⊢
                  exact hcall
                · rw [if_neg hfactory] at hcall ⊢
                  cases r with
                  | ok m' => exact add_root_of hcall
                  | error msg => exact add_root_error_of hcall

theorem retry_pending_cons {a : Answers} (hfound : a.found = os.exists e.1)
    (es : List (PathBuf × PathEntry)) (r : Retry)
    (hadd : a.add_path r.monitor e.2 = r.monitor.add_path os e.2) :
    retry_pending os (e :: es) r.monitor r.still_pending =
      retry_pending os es (r.attempt (a, e)).monitor (r.attempt (a, e)).still_pending := by
  rw [retry_pending, Retry.attempt]
  simp only [hfound, hadd]
  by_cases hgone : os.exists e.1 = false
  · simp only [if_pos hgone]
  · simp only [if_neg hgone]
    cases r.monitor.add_path os e.2 with
    | ok m => rfl
    | error msg => rfl

/-- The loop, with one system. -/
theorem retry_pending_of (os : Os) : ∀ (es : List (PathBuf × PathEntry)) (r : Retry),
    ∃ xs, xs.map Prod.snd = es ∧
      (Run.exec Retry.attempt r xs).monitor = (retry_pending os es r.monitor r.still_pending).1 ∧
      (Run.exec Retry.attempt r xs).still_pending = (retry_pending os es r.monitor r.still_pending).2 := by
  intro es
  induction es with
  | nil =>
      intro r
      exact ⟨[], rfl, rfl, rfl⟩
  | cons e es ih =>
      intro r
      let a := Answers.of os r.monitor (((r.monitor.add_path os e.2).toOption).getD r.monitor) e
      obtain ⟨xs, hentries, hmonitor, hstill⟩ := ih (r.attempt (a, e))
      have hstep := retry_pending_cons (show a.found = os.exists e.1 from rfl) es r
        (add_path_of os r.monitor e)
      exact ⟨(a, e) :: xs, congrArg (e :: ·) hentries, hmonitor.trans (congrArg Prod.fst hstep.symm),
        hstill.trans (congrArg Prod.snd hstep.symm)⟩

/-- With one system for all answers this is `check_pending`. -/
theorem check_pending_calm (os : Os) (m : Monitor) :
    ∃ xs c, (m.check_pending_at xs c).1 = m.check_pending os := by
  obtain ⟨xs, hentries, hmonitor, hstill⟩ :=
    retry_pending_of os m.inotify_state.pending_paths ⟨m.with_pending [], [], []⟩
  obtain ⟨c, hc⟩ := cleanup_of os ((m.retry_loop xs).monitor.with_pending (m.retry_loop xs).still_pending)
  refine ⟨⟨xs, hentries⟩, c, ?_⟩
  rw [check_pending_at, check_pending]
  split
  · rfl
  · simp only
    rw [← hc, retry_loop, hmonitor, hstill]

end

end Fsmon.Monitor
