/-
# `Fsmon.Cli.Agree` — the store and the daemon hold the same entries

`live` is what the daemon holds, active and pending, in the terms of
`Monitored.held`; the two agree when the sets are equal.  They part

    fsmon add       on a pending path with other options, or when the daemon refuses
                    for the moment what the store has already taken
    fsmon remove    of the global group, of a pending path, of a whole group, and
                    after a path named twice
    a gone root     when a size filter does not survive being written as text
    check_pending   when a pending path now resolves to another one

`Safe` says that a step is none of these; in a run of safe steps the two agree
after every step (`agree_run`).
-/
import Fsmon.Cli
import Fsmon.Monitor.Refused
import Fsmon.Lib.Run

namespace Fsmon

namespace Monitor

section
variable [Sizefilter]

/-! ## What the daemon holds -/

def active_held (e : PathBuf × PathOptions) : Held := (e.1, e.2.cmd, .ok e.2)

def pending_held (e : PathBuf × PathEntry) : Held :=
  (e.1, cmd_filter e.2.cmd, PathOptions.try_from e.2)

/-- What a plan holds, active and pending. -/
def Plan.live (p : Plan) : Set Held :=
  fun h => h ∈ p.monitored_entries.map active_held ∨ h ∈ p.pending_paths.map pending_held

/-- What the daemon holds. -/
def live (m : Monitor) : Set Held := m.plan.live

theorem mem_live {m : Monitor} {h : Held} :
    h ∈ m.live ↔ (∃ e ∈ m.monitored_entries, active_held e = h) ∨
      ∃ e ∈ m.inotify_state.pending_paths, pending_held e = h :=
  or_congr List.mem_map List.mem_map

/-- No pending entry has this path and cmd. -/
def NotPending (m : Monitor) (path : PathBuf) (cmd : Option String) : Prop :=
  ∀ e ∈ m.inotify_state.pending_paths, e.1 = path → cmd_filter e.2.cmd ≠ cmd

/-- Removing one cmd group of a path that is not pending. -/
theorem live_remove_path {os : Os} {m m' : Monitor} {path : PathBuf} {c : String}
    (h : m.remove_path os path (some c) = .ok m') (hpending : m.NotPending path (some c)) (x : Held) :
    x ∈ m'.live ↔ x ∈ m.live ∧ ¬ (x.1 = path ∧ x.2.1 = some c) := by
  have hplan := remove_path_plan h
  have hentries : m'.monitored_entries = m.monitored_entries.filter (keeps path (some c)) := by
    show m'.plan.monitored_entries = _
    rw [hplan, Plan.remove]
    split <;> rfl
  have hsame : m'.inotify_state.pending_paths = m.inotify_state.pending_paths := by
    show m'.plan.pending_paths = _
    rw [hplan, Plan.remove]
    split <;> rfl
  have hkeeps : ∀ e : PathBuf × PathOptions, keeps path (some c) e = true ↔
      ¬ ((active_held e).1 = path ∧ (active_held e).2.1 = some c) := fun e => by
    unfold keeps active_held
    by_cases he : e.1 = path <;> simp [he]
  rw [mem_live, mem_live, hentries, hsame]
  constructor
  · rintro (⟨e, he, rfl⟩ | ⟨e, he, rfl⟩)
    · rw [List.mem_filter] at he
      exact ⟨Or.inl ⟨e, he.1, rfl⟩, (hkeeps e).1 he.2⟩
    · exact ⟨Or.inr ⟨e, he, rfl⟩, fun hb => hpending e he hb.1 hb.2⟩
  · rintro ⟨⟨e, he, rfl⟩ | ⟨e, he, rfl⟩, hb⟩
    · exact Or.inl ⟨e, List.mem_filter.2 ⟨he, (hkeeps e).2 hb⟩, rfl⟩
    · exact Or.inr ⟨e, he, rfl⟩

omit [Sizefilter] in
/-- Removing succeeds when an active entry matches. -/
theorem remove_path_isOk (os : Os) {m : Monitor} {path : PathBuf} {c : String}
    {e : PathBuf × PathOptions} (he : e ∈ m.monitored_entries) (hpath : e.1 = path)
    (hcmd : e.2.cmd = some c) : ∃ m', m.remove_path os path (some c) = .ok m' := by
  cases h : m.remove_path os path (some c) with
  | ok m' => exact ⟨m', rfl⟩
  | error msg =>
      have hall := List.filter_eq_self.1 (remove_path_error h) e he
      simp [keeps, hpath, hcmd] at hall

/-! ## Roots that are gone, and pending paths -/

/-- Every pending path that exists now leads where it led when it was added. -/
def PendingResolve (os : Os) (m : Monitor) : Prop :=
  ∀ e ∈ m.inotify_state.pending_paths, os.exists e.1 = true → os.canonical e.2.path = e.1

theorem mem_live_with_pending {m : Monitor} {pending : List (PathBuf × PathEntry)} {h : Held} :
    h ∈ (m.with_pending pending).live ↔ (∃ e ∈ m.monitored_entries, active_held e = h) ∨
      ∃ e ∈ pending, pending_held e = h := mem_live

/-- The retry loop moves entries from one list to the other. -/
theorem live_retry_pending {os : Os} (h : Held) :
    ∀ (es : List (PathBuf × PathEntry)) (m : Monitor) (still : List (PathBuf × PathEntry)),
      (∀ e ∈ es, os.exists e.1 = true → os.canonical e.2.path = e.1) →
        (h ∈ ((retry_pending os es m still).1.with_pending (retry_pending os es m still).2).live ↔
          h ∈ (m.with_pending (still ++ es)).live) := by
  intro es
  induction es with
  | nil =>
      intro m still _
      simp [retry_pending]
  | cons e es ih =>
      intro m still hes
      have hrest : ∀ e' ∈ es, os.exists e'.1 = true → os.canonical e'.2.path = e'.1 :=
        fun e' he' => hes e' (List.mem_cons_of_mem _ he')
      have hskip : h ∈ (m.with_pending ((still ++ [e]) ++ es)).live ↔
          h ∈ (m.with_pending (still ++ e :: es)).live := by
        rw [List.append_assoc, List.singleton_append]
      rw [retry_pending]
      split
      · exact (ih m _ hrest).trans hskip
      · rename_i hexists
        have hpath := hes e List.mem_cons_self (by simpa using hexists)
        split
        · rename_i m' hadd
          rw [ih m' still hrest]
          -- the entry has become an active one
          have hadded : ∃ opts, PathOptions.try_from e.2 = .ok opts ∧
              m'.monitored_entries = m.monitored_entries ++ [(e.1, opts)] := by
            have hplan := add_path_plan hadd
            generalize hp : m'.plan = p at hplan
            have hentries : m'.monitored_entries = p.monitored_entries := by rw [← hp]; rfl
            rw [hentries]
            cases hplan with
            | cmd opts _ hopts => exact ⟨opts, hopts, by rw [hpath]⟩
            | pending _ hno =>
                rw [hpath] at hno
                exact absurd hno hexists
            | root opts _ _ hopts => exact ⟨opts, hopts, by rw [hpath]; rfl⟩
          obtain ⟨opts, hopts, hentries⟩ := hadded
          have htriple : active_held (e.1, opts) = pending_held e := by
            simp only [active_held, pending_held, hopts, (PathOptions.try_from_ok hopts).1]
          rw [mem_live_with_pending, mem_live_with_pending, hentries]
          simp only [List.mem_append, List.mem_cons, List.not_mem_nil, or_false, or_and_right,
            exists_or, exists_eq_left, htriple]
          exact or_assoc.trans (or_congr Iff.rfl or_left_comm)
        · exact (ih m _ hrest).trans hskip

theorem live_of_plan {m m' : Monitor} (h : m'.plan = m.plan) : m'.live = m.live := by
  rw [live, h]
  rfl

theorem live_check_pending {os : Os} {m : Monitor} (h : m.PendingResolve os) :
    (m.check_pending os).live = m.live := by
  have hplan : (m.check_pending os).live =
      ((retry_pending os m.inotify_state.pending_paths (m.with_pending []) []).1.with_pending
        (retry_pending os m.inotify_state.pending_paths (m.with_pending []) []).2).live :=
    live_of_plan (plan_check_pending os m)
  rw [hplan]
  ext x
  exact live_retry_pending x _ _ _ h

/-! ## A gone root -/

/-- Entries that become pending entries say what they said. -/
theorem pending_of_held {path : PathBuf} {opts : List PathOptions}
    (hcmd : ∀ o ∈ opts, o.cmd ≠ some CMD_GLOBAL) (hsize : ∀ o ∈ opts, o.SizeKept) (h : Held) :
    (∃ e ∈ pending_of path opts, pending_held e = h) ↔ ∃ o ∈ opts, active_held (path, o) = h := by
  have heq : ∀ o ∈ opts, pending_held (path, o.to_entry path) = active_held (path, o) := by
    intro o ho
    simp only [pending_held, active_held, PathOptions.try_from_to_entry path (hcmd o ho) (hsize o ho)]
    rw [show (o.to_entry path).cmd = o.cmd from rfl, cmd_filter_of_ne (hcmd o ho)]
  rw [pending_of]
  constructor
  · rintro ⟨_, he, rfl⟩
    obtain ⟨o, ho, rfl⟩ := List.mem_map.1 he
    exact ⟨o, ho, (heq o ho).symm⟩
  · rintro ⟨o, ho, rfl⟩
    exact ⟨_, List.mem_map.2 ⟨o, ho, rfl⟩, heq o ho⟩

/-- What a gone root needs so that nothing is lost when its entries become pending. -/
structure RootSafe (os : Os) (m : Monitor) (path : PathBuf) : Prop where
  size : ∀ o ∈ m.opts_for_path path, o.SizeKept
  pending : m.PendingResolve os
  root : m.opts_for_path path ≠ [] → os.exists path = true → os.canonical path = path

theorem live_root_deleted {os : Os} {m : Monitor} {path : PathBuf} (h : RootSafe os m path)
    (hcmd : ∀ e ∈ m.monitored_entries, e.2.cmd ≠ some CMD_GLOBAL) :
    (m.handle_canonical_root_deleted os path).live = m.live := by
  unfold handle_canonical_root_deleted
  simp only
  obtain ⟨hentries, hpending⟩ := try_remove_entries os m path
  generalize m.try_remove os path = m₁ at hentries hpending
  rw [hpending]
  have hopts : ∀ o ∈ m.opts_for_path path, (path, o) ∈ m.monitored_entries := by
    intro o ho
    simp only [opts_for_path, List.mem_map, List.mem_filter, decide_eq_true_eq] at ho
    obtain ⟨⟨_, _⟩, ⟨he, rfl⟩, rfl⟩ := ho
    exact he
  rw [live_check_pending]
  · rw [live_of_plan ((plan_add_temp_parent_mark ..).trans (plan_setup_inotify_watches ..))]
    ext x
    rw [mem_live_with_pending, hentries]
    simp only [List.mem_append, or_and_right, exists_or]
    rw [pending_of_held (fun o ho => hcmd _ (hopts o ho)) h.size, mem_live]
    have hsplit : (∃ e ∈ m.monitored_entries, active_held e = x) ↔
        (∃ e ∈ m.monitored_entries.filter (keeps path none), active_held e = x) ∨
          ∃ o ∈ m.opts_for_path path, active_held (path, o) = x := by
      constructor
      · rintro ⟨⟨p, o⟩, he, rfl⟩
        by_cases hp : p = path
        · subst hp
          exact Or.inr ⟨o, List.mem_map.2 ⟨(p, o), List.mem_filter.2 ⟨he, by simp⟩, rfl⟩, rfl⟩
        · exact Or.inl ⟨(p, o), List.mem_filter.2 ⟨he, by simp [keeps, hp]⟩, rfl⟩
      · rintro (⟨e, he, rfl⟩ | ⟨o, ho, rfl⟩)
        · exact ⟨e, List.mem_of_mem_filter he, rfl⟩
        · exact ⟨_, hopts o ho, rfl⟩
    rw [hsplit]
    exact (or_congr Iff.rfl or_comm).trans or_assoc.symm
  · -- the entries that have become pending lead to the root itself
    generalize hm₂ : add_temp_parent_mark os (setup_inotify_watches os (m₁.with_pending
      (m.inotify_state.pending_paths ++ pending_of path (m.opts_for_path path)))) path = m₂
    have hplan : m₂.plan.pending_paths =
        m.inotify_state.pending_paths ++ pending_of path (m.opts_for_path path) := by
      rw [← hm₂, plan_add_temp_parent_mark, plan_setup_inotify_watches]
      rfl
    intro e he hexists
    have he : e ∈ m₂.plan.pending_paths := he
    rw [hplan, List.mem_append] at he
    rcases he with he | he
    · exact h.pending e he hexists
    · obtain ⟨o, ho, rfl⟩ := List.mem_map.1 he
      exact h.root (List.ne_nil_of_mem ho) hexists

/-- What an event needs: its gone root, if it has one, is safe. -/
def EventSafe (os : Os) (m : Monitor) (raw : DecodedEvent) : Prop :=
  raw.mask &&& FAN_Q_OVERFLOW = 0 → m.is_skipped raw = false →
    ∀ path, m.gone_root (mask_to_event_types raw.mask) raw.path = some path → RootSafe os m path

theorem live_handle_event {os : Os} {m : Monitor} {raw : DecodedEvent}
    (h : m.is_skipped raw = false → ∀ path,
      m.gone_root (mask_to_event_types raw.mask) raw.path = some path → RootSafe os m path)
    (hcmd : ∀ e ∈ m.monitored_entries, e.2.cmd ≠ some CMD_GLOBAL) :
    (handle_event os m raw).1.live = m.live := by
  rw [handle_event]
  simp only
  split
  · rfl
  · rename_i hskip
    obtain ⟨ts, hts⟩ := plan_on_new_subdirectory os m raw.path
    -- a new directory and the records leave the entries as they are
    have hrecord : ∀ m₁ : Monitor, (m₁ = if m.is_new_subdirectory os raw then
        (m.on_new_subdirectory os raw.path).1 else m) →
        ∃ ts, (((m.matching_opts_for_event raw.path).foldl (record_entry os raw) (m₁, [])).1).plan =
          { m.plan with touched := m.touched ++ ts } := by
      rintro m₁ rfl
      rw [plan_foldl (plan_record_entry os raw)]
      split
      · exact ⟨ts, hts⟩
      · exact ⟨[], by rw [List.append_nil]; rfl⟩
    obtain ⟨ts', hplan⟩ := hrecord _ rfl
    generalize (m.matching_opts_for_event raw.path).foldl (record_entry os raw) _ = r at hplan
    have hlive : r.1.live = m.live := by
      rw [live, hplan]
      rfl
    cases hgone : m.gone_root (mask_to_event_types raw.mask) raw.path with
    | none => exact hlive
    | some path =>
        obtain ⟨hsize, hpending, hroot⟩ := h (by simpa using hskip) path hgone
        have hentries : r.1.monitored_entries = m.monitored_entries :=
          congrArg Plan.monitored_entries hplan
        have hsame : r.1.inotify_state.pending_paths = m.inotify_state.pending_paths :=
          congrArg Plan.pending_paths hplan
        have hopts : r.1.opts_for_path path = m.opts_for_path path := by
          rw [opts_for_path, hentries]
          rfl
        rw [← hlive]
        refine live_root_deleted ⟨?_, ?_, ?_⟩ (by rw [hentries]; exact hcmd)
        · rw [hopts]
          exact hsize
        · rw [PendingResolve, hsame]
          exact hpending
        · rw [hopts]
          exact hroot

theorem live_process_event {os : Os} {m : Monitor} {raw : DecodedEvent} (h : EventSafe os m raw)
    (hcmd : ∀ e ∈ m.monitored_entries, e.2.cmd ≠ some CMD_GLOBAL) :
    (process_event os m raw).1.live = m.live := by
  rw [process_event]
  split
  · rfl
  · rename_i hover
    have hover : raw.mask &&& FAN_Q_OVERFLOW = 0 := by simpa using hover
    have hreset : ∀ m' : Monitor, (m' = if 0 < raw.unparsed then
        { m with metrics := m.metrics.inc_unparsed_info_records raw.unparsed } else m) →
        m'.live = m.live ∧ m'.monitored_entries = m.monitored_entries ∧ EventSafe os m' raw := by
      rintro m' rfl
      split
      · refine ⟨rfl, rfl, fun ho hs path hgone => ?_⟩
        obtain ⟨hsize, hpending, hroot⟩ := h ho hs path hgone
        exact ⟨hsize, hpending, hroot⟩
      · exact ⟨rfl, rfl, h⟩
    obtain ⟨hlive, hentries, hsafe⟩ := hreset _ rfl
    rw [← hlive]
    exact live_handle_event (hsafe hover) (by rw [hentries]; exact hcmd)

/-- What a batch needs, event by event. -/
def EventsSafe : (Nat → Os) → Monitor → List DecodedEvent → Prop
  | _, _, [] => True
  | os, m, raw :: rest =>
      EventSafe (os 0) m raw ∧ EventsSafe (fun i => os (i + 1)) (process_event (os 0) m raw).1 rest

/-- The cmds of what agrees with a store are never spelled `_global`. -/
def Normal (m : Monitor) : Prop := ∀ h ∈ m.live, h.2.1 ≠ some CMD_GLOBAL

theorem Normal.entries {m : Monitor} (h : m.Normal) : ∀ e ∈ m.monitored_entries, e.2.cmd ≠ some CMD_GLOBAL :=
  fun e he => h _ (mem_live.2 (Or.inl ⟨e, he, rfl⟩))

theorem live_process_events : ∀ (raws : List DecodedEvent) (os : Nat → Os) (m : Monitor),
    EventsSafe os m raws → m.Normal → (process_events os m raws).1.live = m.live := by
  intro raws
  induction raws with
  | nil =>
      intro _ _ _ _
      exact rfl
  | cons raw rest ih =>
      intro os m h hn
      have hstep := live_process_event h.1 hn.entries
      have hn' : (process_event (os 0) m raw).1.Normal := by
        rw [Normal, hstep]
        exact hn
      exact (ih _ _ h.2 hn').trans hstep

end

end Monitor

/-! ## fsmon add -/

section
variable [Sizefilter]

/-- The store and the daemon hold the same. -/
def Agree (site : Site) : Prop := site.monitor.live = site.store.held

/-- What a store holds is spelled without `_global`. -/
theorem Monitored.held_normal {s : Monitored} {h : Held} (hh : h ∈ s.held) : h.2.1 ≠ some CMD_GLOBAL := by
  obtain ⟨e, _, rfl⟩ := hh
  exact cmd_filter_ne e.cmd

theorem Agree.normal {site : Site} (h : Agree site) : site.monitor.Normal := fun x hx =>
  Monitored.held_normal (h ▸ hx : x ∈ site.store.held)

namespace Monitor

theorem mem_live_retain {m : Monitor} {path : PathBuf} {cmd : Option String} {x : Held} :
    x ∈ (m.retain_others path cmd).live ↔
      (∃ e ∈ m.monitored_entries, active_held e = x ∧ ¬ (x.1 = path ∧ x.2.1 = cmd)) ∨
        ∃ e ∈ m.inotify_state.pending_paths, pending_held e = x := by
  rw [mem_live]
  refine or_congr ?_ Iff.rfl
  rw [retain_others]
  constructor
  · rintro ⟨e, he, rfl⟩
    rw [List.mem_filter] at he
    exact ⟨e, he.1, rfl, by simpa [active_held, imp_iff_not_or] using he.2⟩
  · rintro ⟨e, he, rfl, hb⟩
    exact ⟨e, List.mem_filter.2 ⟨he, by simpa [active_held, imp_iff_not_or] using hb⟩, rfl⟩

/-- The daemon takes the request: its options can be read, and a path that exists finds a group. -/
def Accepts (os : Os) (m : Monitor) (entry : PathEntry) : Prop :=
  let path := os.canonical entry.path
  (path ∈ m.paths ∧ ∃ o, PathOptions.try_from entry = .ok o) ∨
    (path ∉ m.paths ∧ m.log_dir_overlap os path (entry.recursive.getD false) = none ∧
      (os.exists path = true →
        (∃ o, PathOptions.try_from entry = .ok o) ∧ m.fanotify.factory = true ∧
          ((m.group_on (os.dev_id (os.canonical path))).isSome = true ∨
            ∃ dir, os.open_dir_safe (os.canonical path) = some dir ∧ os.create_ok dir.node.ino = true)))

/-- The daemon refuses the request for good. -/
def Refuses (os : Os) (m : Monitor) (entry : PathEntry) : Prop :=
  let path := os.canonical entry.path
  (∃ e, PathOptions.try_from entry = .error e ∧ is_permanent e ∧
      (path ∈ m.paths ∨ os.exists path = true)) ∨
    (path ∉ m.paths ∧ m.log_dir_overlap os path (entry.recursive.getD false) ≠ none)

omit [Sizefilter] in
theorem add_root_isOk {os : Os} {m : Monitor} {path : PathBuf} (opts : PathOptions)
    (h : (m.group_on (os.dev_id (os.canonical path))).isSome = true ∨
      ∃ dir, os.open_dir_safe (os.canonical path) = some dir ∧ os.create_ok dir.node.ino = true) :
    ∃ m', m.add_root os path opts = .ok m' := by
  rw [add_root]
  simp only
  split
  · exact ⟨_, rfl⟩
  · rename_i hgroup
    rcases h with h | ⟨dir, hopen, hok⟩
    · rw [hgroup] at h
      cases h
    · simp only [hopen, Kernel.create_group_and_mark, hok, if_true]
      exact ⟨_, rfl⟩

theorem add_path_accepts {os : Os} {m : Monitor} {entry : PathEntry} (h : m.Accepts os entry)
    (hcmd : cmd_filter entry.cmd ≠ some "fsmon") : ∃ m', m.add_path os entry = .ok m' := by
  rcases h with ⟨hpath, o, ho⟩ | ⟨hpath, hoverlap, hexists⟩
  · exact ⟨m.add_cmd os (os.canonical entry.path) o, by simp [add_path, hpath, ho]⟩
  · cases he : os.exists (os.canonical entry.path) with
    | false =>
        exact ⟨m.queue_pending os (os.canonical entry.path) entry,
          by simp [add_path, hpath, hoverlap, he]⟩
    | true =>
        obtain ⟨⟨o, ho⟩, hfactory, hgroup⟩ := hexists he
        have hfsmon : o.cmd ≠ some "fsmon" := by
          rw [(PathOptions.try_from_ok ho).1]
          exact hcmd
        obtain ⟨m', hm'⟩ := add_root_isOk o hgroup
        exact ⟨m', by simp [add_path, hpath, hoverlap, he, ho, hfsmon, hfactory, hm']⟩

theorem add_path_refuses {os : Os} {m : Monitor} {entry : PathEntry} (h : m.Refuses os entry) :
    ∃ msg, m.add_path os entry = .error msg ∧ is_permanent msg := by
  by_cases hpath : os.canonical entry.path ∈ m.paths
  · rcases h with ⟨e, he, hpermanent, _⟩ | ⟨hno, _⟩
    · exact ⟨e, by simp [add_path, hpath, he], hpermanent⟩
    · exact absurd hpath hno
  · cases hoverlap : m.log_dir_overlap os (os.canonical entry.path) (entry.recursive.getD false) with
    | some msg =>
        exact ⟨msg, by simp [add_path, hpath, hoverlap], overlap_is_permanent hoverlap⟩
    | none =>
        rcases h with ⟨e, he, hpermanent, hmem | hexists⟩ | ⟨_, hsome⟩
        · exact absurd hmem hpath
        · exact ⟨e, by simp [add_path, hpath, hoverlap, he, hexists], hpermanent⟩
        · exact absurd hoverlap hsome

/-- The pending entries of this path and cmd ask for what the entry asks for. -/
def SamePending (m : Monitor) (path : PathBuf) (entry : PathEntry) : Prop :=
  ∀ e ∈ m.inotify_state.pending_paths, e.1 = path → cmd_filter e.2.cmd = cmd_filter entry.cmd →
    PathOptions.try_from e.2 = PathOptions.try_from entry

/-- A successful `add_path` makes the daemon hold the entry, and drops nothing. -/
theorem live_add_path {os : Os} {m m' : Monitor} {entry : PathEntry}
    (h : m.add_path os entry = .ok m') (hpending : m.SamePending (os.canonical entry.path) entry)
    (x : Held) :
    x ∈ m'.live ↔ x = pending_held (os.canonical entry.path, entry) ∨ x ∈ m.live := by
  have hadded := add_path_plan h
  have hactive : ∀ opts, PathOptions.try_from entry = .ok opts →
      active_held (os.canonical entry.path, opts) = pending_held (os.canonical entry.path, entry) := by
    intro opts hopts
    simp only [active_held, pending_held, hopts, (PathOptions.try_from_ok hopts).1]
  have happend : ∀ opts (q : Plan), PathOptions.try_from entry = .ok opts →
      q.monitored_entries = m.monitored_entries ++ [(os.canonical entry.path, opts)] →
      q.pending_paths = m.inotify_state.pending_paths →
      (x ∈ q.live ↔ x = pending_held (os.canonical entry.path, entry) ∨ x ∈ m.live) := by
    intro opts q hopts hentries hsame
    show x ∈ q.monitored_entries.map active_held ∨ x ∈ q.pending_paths.map pending_held ↔ _
    rw [hentries, hsame, List.map_append, List.mem_append, List.map_singleton, List.mem_singleton,
      hactive opts hopts, or_comm (b := x = _), or_assoc]
    rfl
  show x ∈ m'.plan.live ↔ _
  generalize m'.plan = q at hadded
  cases hadded with
  | cmd opts _ hopts => exact happend opts _ hopts rfl rfl
  | root opts _ _ hopts => exact happend opts _ hopts rfl rfl
  | pending hpath hexists =>
      show x ∈ m.monitored_entries.map active_held ∨
        x ∈ (m.queued (os.canonical entry.path) entry).map pending_held ↔ _
      rw [queued]
      split
      · -- already pending, for the same options
        rename_i hany
        obtain ⟨e, he, hmatch⟩ := List.any_eq_true.1 hany
        simp only [Bool.and_eq_true, decide_eq_true_eq] at hmatch
        obtain ⟨hpath', hcmd⟩ := hmatch
        have heq : pending_held e = pending_held (os.canonical entry.path, entry) := by
          simp only [pending_held, hpath', hcmd, hpending e he hpath' (by rw [hcmd])]
        refine ⟨Or.inr, ?_⟩
        rintro (rfl | hx)
        · exact Or.inr (List.mem_map.2 ⟨e, he, heq⟩)
        · exact hx
      · rw [List.map_append, List.mem_append, List.map_singleton, List.mem_singleton,
          or_comm (b := x = _), or_left_comm]
        rfl

end Monitor

/-! ## fsmon add, the command -/

/-- The request of a command whose arguments were accepted. -/
def AddArgs.request (args : AddArgs) (path : PathBuf) (c : String) (types : Option (List String)) :
    PathEntry :=
  Monitor.add_request path (some args.recursive) types args.size (some c) args.max_depth

/-- What `fsmon add` needs: the store has the entry in one group at most; the daemon takes the
request, with what is pending asking for the same, or refuses it for good with nothing pending. -/
def AddSafe (os : Os) (log_path : Option PathBuf) (args : AddArgs) (site : Site) : Prop :=
  ∀ c raw path types, args.cmd = some c → args.path = some raw →
    add_target os log_path args.recursive raw = .ok path → add_types args.types = .ok types →
      site.store.validate.Single c path ∧
        (site.monitor.Accepts os (args.request path c types) ∧
            site.monitor.SamePending path (args.request path c types) ∨
          site.monitor.Refuses os (args.request path c types) ∧
            site.monitor.NotPending path (cmd_filter (some c)))

omit [Sizefilter] in
theorem add_target_ok {os : Os} {log_path : Option PathBuf} {recursive : Bool} {raw path : PathBuf}
    (h : add_target os log_path recursive raw = .ok path) :
    path = os.canonical raw ∧ check_path_allowed path = none := by
  rw [add_target] at h
  simp only at h
  split at h
  · cases h
  · split at h
    · cases h
    · split at h
      · cases h
      · rename_i hallowed
        split at h
        · cases h
          exact ⟨rfl, hallowed⟩
        · split at h
          · cases h
          · cases h
            exact ⟨rfl, hallowed⟩

/-- The daemon's side of an `Add` that it takes. -/
theorem live_add_accepts {os : Os} {m : Monitor} {path : PathBuf} {entry : PathEntry}
    (hpath : os.canonical entry.path = path) (haccepts : m.Accepts os entry)
    (hsame : m.SamePending path entry) (hcmd : cmd_filter entry.cmd ≠ some "fsmon") :
    ∃ m', (m.prepare_add os path (cmd_filter entry.cmd)).add_path os entry = .ok m' ∧
      ∀ x, x ∈ m'.live ↔ x = Monitor.pending_held (path, entry) ∨
        x ∈ m.live ∧ ¬ (x.1 = path ∧ x.2.1 = cmd_filter entry.cmd) := by
  rw [Monitor.prepare_add_eq]
  obtain ⟨m', hm'⟩ := Monitor.add_path_accepts
    (m := m.retain_others path (cmd_filter entry.cmd)) haccepts hcmd
  refine ⟨m', hm', fun x => ?_⟩
  rw [Monitor.live_add_path hm' (by rw [hpath]; exact hsame), hpath, Monitor.mem_live_retain,
    Monitor.mem_live]
  constructor
  · rintro (hx | ⟨e, he, rfl, hb⟩ | ⟨e, he, rfl⟩)
    · exact Or.inl hx
    · exact Or.inr ⟨Or.inl ⟨e, he, rfl⟩, hb⟩
    · -- a pending entry of this path and cmd says the same
      by_cases hb : e.1 = path ∧ cmd_filter e.2.cmd = cmd_filter entry.cmd
      · refine Or.inl ?_
        simp only [Monitor.pending_held, hb.1, hb.2, hsame e he hb.1 hb.2]
      · exact Or.inr ⟨Or.inr ⟨e, he, rfl⟩, hb⟩
  · rintro (hx | ⟨⟨e, he, rfl⟩ | ⟨e, he, rfl⟩, hb⟩)
    · exact Or.inl hx
    · exact Or.inr (Or.inl ⟨e, he, rfl, hb⟩)
    · exact Or.inr (Or.inr ⟨e, he, rfl⟩)

/-- The daemon's side of an `Add` that it refuses for good. -/
theorem live_add_refuses {m : Monitor} {path : PathBuf} {cmd : Option String} (os : Os)
    (hpending : m.NotPending path cmd) (x : Held) :
    x ∈ (m.prepare_add os path cmd).live ↔ x ∈ m.live ∧ ¬ (x.1 = path ∧ x.2.1 = cmd) := by
  rw [Monitor.prepare_add_eq, Monitor.mem_live_retain, Monitor.mem_live]
  constructor
  · rintro (⟨e, he, rfl, hb⟩ | ⟨e, he, rfl⟩)
    · exact ⟨Or.inl ⟨e, he, rfl⟩, hb⟩
    · exact ⟨Or.inr ⟨e, he, rfl⟩, fun hb => hpending e he hb.1 hb.2⟩
  · rintro ⟨⟨e, he, rfl⟩ | ⟨e, he, rfl⟩, hb⟩
    · exact Or.inl ⟨e, he, rfl, hb⟩
    · exact Or.inr ⟨e, he, rfl⟩

/-- The entry the store takes and the request the daemon gets say the same. -/
theorem held_request (args : AddArgs) (path : PathBuf) (c : String) (types : Option (List String)) :
    Monitored.held_of ⟨some c, path, some args.recursive, types, args.size, args.max_depth⟩ =
      Monitor.pending_held (path, args.request path c types) := by
  simp only [Monitored.held_of, Monitor.pending_held, AddArgs.request, Monitor.add_request,
    cmd_filter_idem, PathOptions.try_from]

/-- The end of `cmd_add`, from the store and the daemon's answer. -/
def add_result (store : Monitored) (path : PathBuf) (c : String)
    (result : Except SocketError Unit × Monitor) : Except Str Site :=
  match result.1 with
  | .error (.permanent _) => .ok ⟨(store.validate.remove_entry path (some c)).1, result.2⟩
  | _ => .ok ⟨store, result.2⟩

section
variable {os : Os} {args : AddArgs} {site site' : Site} {path : PathBuf} {c : String}
  {types : Option (List String)}

theorem agree_accepted
    (h : add_result (site.store.validate.add_entry
        ⟨some c, path, some args.recursive, types, args.size, args.max_depth⟩) path c
      (site.monitor.handle_socket_cmd os
        (.add path (some args.recursive) types args.size (some c) args.max_depth)) = .ok site')
    (hagree : Agree site) (hsingle : site.store.validate.Single c path)
    (hallowed : check_path_allowed path = none) (hself : os.canonical path = path)
    (hfsmon : c ≠ "fsmon") (haccepts : site.monitor.Accepts os (args.request path c types))
    (hsame : site.monitor.SamePending path (args.request path c types)) : Agree site' := by
  have hcmd : cmd_filter (args.request path c types).cmd = cmd_filter (some c) :=
    cmd_filter_idem (some c)
  have hne : cmd_filter (args.request path c types).cmd ≠ some "fsmon" := by
    rw [hcmd, cmd_filter, Option.bind_some]
    split
    · simp
    · simpa using hfsmon
  have hself : os.canonical (args.request path c types).path = path := hself
  obtain ⟨m', hm', hlive⟩ := live_add_accepts hself haccepts hsame hne
  rw [hcmd] at hm' hlive
  have hresult : site.monitor.handle_socket_cmd os
      (.add path (some args.recursive) types args.size (some c) args.max_depth) = (.ok (), m') := by
    rw [AddArgs.request] at hm'
    simp only [Monitor.handle_socket_cmd, hallowed, hm']
  rw [hresult] at h
  cases h
  ext x
  rw [Monitored.held_add_entry rfl hsingle, Monitored.held_validate, held_request, ← hagree]
  exact hlive x

theorem agree_refused
    (h : add_result (site.store.validate.add_entry
        ⟨some c, path, some args.recursive, types, args.size, args.max_depth⟩) path c
      (site.monitor.handle_socket_cmd os
        (.add path (some args.recursive) types args.size (some c) args.max_depth)) = .ok site')
    (hagree : Agree site) (hsingle : site.store.validate.Single c path)
    (hallowed : check_path_allowed path = none)
    (hrefuses : site.monitor.Refuses os (args.request path c types))
    (hpending : site.monitor.NotPending path (cmd_filter (some c))) : Agree site' := by
  obtain ⟨msg, hmsg, hpermanent⟩ := Monitor.add_path_refuses
    (m := site.monitor.retain_others path (cmd_filter (some c))) hrefuses
  have hresult : site.monitor.handle_socket_cmd os
      (.add path (some args.recursive) types args.size (some c) args.max_depth) =
        (.error (.permanent msg), site.monitor.prepare_add os path (cmd_filter (some c))) := by
    rw [← Monitor.prepare_add_eq os] at hmsg
    rw [AddArgs.request] at hmsg
    simp only [Monitor.handle_socket_cmd, hallowed, hmsg, SocketError.classify, hpermanent, if_true]
  rw [hresult] at h
  cases h
  ext x
  rw [Monitored.held_remove_entry, Monitored.held_validate, Monitored.held_add_entry rfl hsingle,
    Monitored.held_validate, ← hagree, live_add_refuses os hpending]
  constructor
  · rintro ⟨hx, hb⟩
    exact ⟨Or.inr ⟨hx, hb⟩, hb⟩
  · rintro ⟨rfl | ⟨hx, _⟩, hb⟩
    · exact absurd ⟨rfl, rfl⟩ hb
    · exact ⟨hx, hb⟩

end

theorem agree_cmd_add {os : Os} {log_path : Option PathBuf} {args : AddArgs} {site site' : Site}
    (h : cmd_add os log_path args site = .ok site') (hagree : Agree site)
    (hsafe : AddSafe os log_path args site) : Agree site' := by
  rw [cmd_add] at h
  split at h
  · cases h
  · rename_i c hc
    split at h
    · cases h
    · rename_i raw hraw
      split at h
      · cases h
      · rename_i hfsmon
        split at h
        · cases h
        · rename_i path htarget
          split at h
          · cases h
          · rename_i types htypes
            obtain ⟨hsingle, hdaemon⟩ := hsafe c raw path types hc hraw htarget htypes
            obtain ⟨hpath, hallowed⟩ := add_target_ok htarget
            have hself : os.canonical path = path := by rw [hpath, os.canonical_idem]
            rcases hdaemon with ⟨haccepts, hsame⟩ | ⟨hrefuses, hpending⟩
            · exact agree_accepted h hagree hsingle hallowed hself hfsmon haccepts hsame
            · exact agree_refused h hagree hsingle hallowed hrefuses hpending

/-! ## fsmon remove -/

/-- Nothing is held for this path and cmd. -/
def Absent (m : Monitor) (path : PathBuf) (c : String) : Prop :=
  ∀ x ∈ m.live, ¬ (x.1 = path ∧ x.2.1 = some c)

theorem Absent.notPending {m : Monitor} {path : PathBuf} {c : String} (h : Absent m path c) :
    m.NotPending path (some c) := fun e he hpath hcmd =>
  h _ (Monitor.mem_live.2 (Or.inr ⟨e, he, rfl⟩)) ⟨hpath, hcmd⟩

theorem send_removes_ok {os : Os} {c : String} {p : PathBuf} {m m' : Monitor}
    (h : m.remove_path os p (some c) = .ok m') (ps : List PathBuf) :
    send_removes os c (p :: ps) m = send_removes os c ps m' := by
  simp only [send_removes, Monitor.handle_socket_cmd, h]

theorem send_removes_error {os : Os} {c : String} {p : PathBuf} {m : Monitor} {msg : Str}
    (h : m.remove_path os p (some c) = .error msg) (ps : List PathBuf) :
    send_removes os c (p :: ps) m = m := by
  simp only [send_removes, Monitor.handle_socket_cmd, h]

/-- Requests about what is not there change nothing. -/
theorem live_send_absent {os : Os} {c : String} (x : Held) : ∀ (ps : List PathBuf) (m : Monitor),
    (∀ p ∈ ps, Absent m p c) → (x ∈ (send_removes os c ps m).live ↔ x ∈ m.live) := by
  intro ps
  induction ps with
  | nil =>
      intro _ _
      exact Iff.rfl
  | cons p ps ih =>
      intro m h
      have hp := h p List.mem_cons_self
      cases hremove : m.remove_path os p (some c) with
      | error msg => rw [send_removes_error hremove]
      | ok m' =>
          rw [send_removes_ok hremove]
          have hlive : ∀ y, y ∈ m'.live ↔ y ∈ m.live := fun y =>
            (Monitor.live_remove_path hremove hp.notPending y).trans
              (and_iff_left_of_imp fun hy => hp y hy)
          have habsent : ∀ q ∈ ps, Absent m' q c := fun q hq y hy =>
            h q (List.mem_cons_of_mem _ hq) y ((hlive y).1 hy)
          exact (ih m' habsent).trans (hlive x)

/-- Requests about distinct paths that are there remove them; what comes after names one again. -/
theorem live_send_removes {os : Os} {c : String} (x : Held) {rs : List PathBuf} :
    ∀ (us : List PathBuf) (m : Monitor), us.Nodup →
      (∀ p ∈ us, ∃ e ∈ m.monitored_entries, e.1 = p ∧ e.2.cmd = some c) →
      (∀ p ∈ us, m.NotPending p (some c)) → (∀ r ∈ rs, Absent m r c ∨ r ∈ us) →
      (x ∈ (send_removes os c (us ++ rs) m).live ↔
        x ∈ m.live ∧ ¬ (x.1 ∈ us ∧ x.2.1 = some c)) := by
  intro us
  induction us with
  | nil =>
      intro m _ _ _ hrs
      have habsent : ∀ r ∈ rs, Absent m r c := fun r hr =>
        (hrs r hr).resolve_right List.not_mem_nil
      simpa using live_send_absent x rs m habsent
  | cons p us ih =>
      intro m hnodup hactive hpending hrs
      obtain ⟨hp, hus⟩ := List.nodup_cons.1 hnodup
      obtain ⟨e, he, hpath, hcmd⟩ := hactive p List.mem_cons_self
      obtain ⟨m', hm'⟩ := Monitor.remove_path_isOk os he hpath hcmd
      have hlive := Monitor.live_remove_path hm' (hpending p List.mem_cons_self)
      have hplan := Monitor.remove_path_plan hm'
      have hsame : m'.inotify_state.pending_paths = m.inotify_state.pending_paths := by
        show m'.plan.pending_paths = _
        rw [hplan, Monitor.Plan.remove]
        split <;> rfl
      have hentries : m'.monitored_entries = m.monitored_entries.filter (Monitor.keeps p (some c)) := by
        show m'.plan.monitored_entries = _
        rw [hplan, Monitor.Plan.remove]
        split <;> rfl
      rw [List.cons_append, send_removes_ok hm', ih m' hus ?_ ?_ ?_, hlive]
      · simp only [List.mem_cons]
        tauto
      · intro q hq
        obtain ⟨e', he', hpath', hcmd'⟩ := hactive q (List.mem_cons_of_mem _ hq)
        refine ⟨e', ?_, hpath', hcmd'⟩
        have hne : e'.1 ≠ p := by
          rintro rfl
          exact hp (hpath' ▸ hq)
        rw [hentries, List.mem_filter]
        exact ⟨he', by simp [Monitor.keeps, hne]⟩
      · intro q hq
        rw [Monitor.NotPending, hsame]
        exact hpending q (List.mem_cons_of_mem _ hq)
      · intro r hr
        rcases hrs r hr with habsent | hmem
        · exact Or.inl fun y hy => habsent y ((hlive y).1 hy).1
        · rcases List.mem_cons.1 hmem with rfl | hmem
          · exact Or.inl fun y hy => ((hlive y).1 hy).2
          · exact Or.inr hmem

/-- The store after the removals. -/
theorem held_remove_entries (c : String) (x : Held) : ∀ (ps : List PathBuf) (s : Monitored),
    x ∈ (ps.foldl (fun s p => (s.remove_entry p (some c)).1) s).held ↔
      x ∈ s.held ∧ ¬ (x.1 ∈ ps ∧ x.2.1 = cmd_filter (some c)) := by
  intro ps
  induction ps with
  | nil =>
      intro s
      simp
  | cons p ps ih =>
      intro s
      rw [List.foldl_cons, ih, Monitored.held_remove_entry]
      simp only [List.mem_cons]
      tauto

/-- What `fsmon remove` needs when it finds its entries: paths of a named cmd, none of them pending,
and each named before one that has been named already. -/
def RemoveSafe (os : Os) (cmd : Option String) (paths : List PathBuf) (site : Site) : Prop :=
  ∀ c, cmd = some c →
    if paths = [] then (site.store.validate.remove_cmd_group (some c)).2 = false
    else
      (∀ p ∈ paths.map (resolve_path_arg os), site.store.validate.has_entry p (some c) = true) →
        c ≠ CMD_GLOBAL ∧ (∀ p ∈ paths.map (resolve_path_arg os), site.monitor.NotPending p (some c)) ∧
          ∃ us rs, paths.map (resolve_path_arg os) = us ++ rs ∧ us.Nodup ∧ ∀ r ∈ rs, r ∈ us

theorem agree_cmd_remove {os : Os} {cmd : Option String} {paths : List PathBuf} {site site' : Site}
    (h : cmd_remove os cmd paths site = .ok site') (hagree : Agree site)
    (hsafe : RemoveSafe os cmd paths site) : Agree site' := by
  unfold cmd_remove at h
  simp only at h
  split at h
  · cases h
  · rename_i c
    have hsafe := hsafe c rfl
    by_cases hnil : paths = []
    · simp only [hnil, if_true] at hsafe
      simp [hnil, hsafe] at h
    · simp only [hnil, if_false] at hsafe
      rw [if_neg (by simpa using hnil)] at h
      split at h
      · cases h
      · rename_i hfind
        cases h
        have hall : ∀ p ∈ paths.map (resolve_path_arg os),
            site.store.validate.has_entry p (some c) = true := by
          intro p hp
          simpa using List.find?_eq_none.1 hfind p hp
        obtain ⟨hc, hpending, us, rs, hps, hnodup, hrs⟩ := hsafe hall
        have hfilter : cmd_filter (some c) = some c := by simp [cmd_filter, hc]
        have hactive : ∀ p ∈ us, ∃ e ∈ site.monitor.monitored_entries, e.1 = p ∧ e.2.cmd = some c := by
          intro p hp
          have hmem : p ∈ paths.map (resolve_path_arg os) := hps ▸ List.mem_append_left _ hp
          obtain ⟨opts, hheld⟩ := Monitored.has_entry_held (hall p hmem)
          rw [Monitored.held_validate, ← hagree, Monitor.mem_live] at hheld
          rcases hheld with ⟨e, he, heq⟩ | ⟨e, he, heq⟩
          · refine ⟨e, he, congrArg Prod.fst heq, ?_⟩
            rw [← hfilter]
            exact congrArg (fun y => y.2.1) heq
          · refine absurd ?_ (hpending p hmem e he (congrArg Prod.fst heq))
            rw [← hfilter]
            exact congrArg (fun y => y.2.1) heq
        ext x
        rw [held_remove_entries, Monitored.held_validate, ← hagree]
        show x ∈ (send_removes os c (paths.map (resolve_path_arg os)) site.monitor).live ↔ _
        have hnot : ∀ p ∈ us, site.monitor.NotPending p (some c) := fun p hp =>
          hpending p (hps ▸ List.mem_append_left _ hp)
        rw [hps, live_send_removes x us site.monitor hnodup hactive hnot fun r hr => Or.inr (hrs r hr)]
        have hmem : x.1 ∈ us ++ rs ↔ x.1 ∈ us :=
          ⟨fun hx => (List.mem_append.1 hx).elim id (hrs _), List.mem_append_left _⟩
        rw [hmem, hfilter]

/-! ## Runs -/

/-- What happens between two looks at the store and the daemon. -/
inductive SiteStep where
  | add (os : Os) (log_path : Option PathBuf) (args : AddArgs)
  | remove (os : Os) (cmd : Option String) (paths : List PathBuf)
  | batch (os : Nat → Os) (events : List DecodedEvent)
  | check_pending (os : Os)

/-- A command that fails changes nothing. -/
def Site.attempt (site : Site) : Except Str Site → Site
  | .ok site' => site'
  | .error _ => site

def Site.step (site : Site) : SiteStep → Site
  | .add os log_path args => site.attempt (cmd_add os log_path args site)
  | .remove os cmd paths => site.attempt (cmd_remove os cmd paths site)
  | .batch os events => { site with monitor := (Monitor.process_event_batch os site.monitor events).1 }
  | .check_pending os => { site with monitor := site.monitor.check_pending os }

/-- What a step needs to keep the two together. -/
def Safe (site : Site) : SiteStep → Prop
  | .add os log_path args => AddSafe os log_path args site
  | .remove os cmd paths => RemoveSafe os cmd paths site
  | .batch os events =>
      Monitor.EventsSafe os
        { site.monitor with
          metrics := site.monitor.metrics.inc_events_unresolved_rename (expand_renames events).2 }
        (expand_renames events).1
  | .check_pending os => site.monitor.PendingResolve os

theorem agree_step (site : Site) (s : SiteStep) (h : Agree site) (hsafe : Safe site s) :
    Agree (site.step s) := by
  cases s with
  | add os log_path args =>
      show Agree (site.attempt (cmd_add os log_path args site))
      cases hadd : cmd_add os log_path args site with
      | error e => exact h
      | ok site' => exact agree_cmd_add hadd h hsafe
  | remove os cmd paths =>
      show Agree (site.attempt (cmd_remove os cmd paths site))
      cases hremove : cmd_remove os cmd paths site with
      | error e => exact h
      | ok site' => exact agree_cmd_remove hremove h hsafe
  | batch os events =>
      show (Monitor.process_event_batch os site.monitor events).1.live = site.store.held
      rw [Monitor.process_event_batch]
      rw [Monitor.live_process_events _ _ _ hsafe]
      · exact h
      · exact h.normal
  | check_pending os =>
      show (site.monitor.check_pending os).live = site.store.held
      rw [Monitor.live_check_pending hsafe]
      exact h

/-- **The store and the daemon agree** after every step of a run of safe steps. -/
theorem agree_run (site : Site) (steps : List SiteStep) (h : Agree site)
    (hsafe : Run.Guarded Site.step Safe site steps) (n : Nat) :
    Agree (Run.exec Site.step site (steps.take n)) :=
  Run.inv_exec agree_step (steps.take n) site h (hsafe.take n)

end

/-- A tree with one directory below the root. -/
def homeTree : FsTree.Tree OsString :=
  ⟨⟨1, 1, .dir, true, true⟩, Os.root_is_dir, [([[0x61]], ⟨2, 1, .dir, true, true⟩)], by decide, by decide,
    by decide⟩

/-- An empty store and a daemon without entries. -/
def emptySite : Site := ⟨⟨[]⟩, .idle⟩

/-- `fsmon add <cmd> --path /a`. -/
def addHome (cmd : String) : AddArgs := ⟨some cmd, some [[0x61]], false, [], none, none⟩

theorem agree_emptySite [Sizefilter] : Agree emptySite := by
  ext x
  rw [Monitor.mem_live, Monitored.mem_held]
  simp [emptySite, Monitor.idle]

/-- Adding a directory for one cmd, in a run of one safe step. -/
theorem agree_run_add :
    @Agree noSizes (Run.exec (@Site.step noSizes) emptySite
      ([SiteStep.add (.calm homeTree) none (addHome "sh")].take 1)) :=
  @agree_run noSizes emptySite [.add (.calm homeTree) none (addHome "sh")] (@agree_emptySite noSizes)
    ⟨by
      rintro c raw path types ⟨⟩ ⟨⟩ htarget htypes
      obtain ⟨rfl, _⟩ := add_target_ok htarget
      cases htypes
      refine ⟨fun g hg => (by cases hg), Or.inl ⟨Or.inr ⟨by decide, rfl, fun _ => ?_⟩,
        fun e he => (by cases he)⟩⟩
      exact ⟨⟨_, rfl⟩, rfl, Or.inr ⟨_, rfl, rfl⟩⟩, trivial⟩ 1

/-- `fsmon add _global --path /a` and `fsmon remove _global --path /a` both succeed; the store is
empty again and the daemon still monitors. -/
theorem global_remove_disagrees : ∃ site₁ site₂,
    @Agree noSizes emptySite ∧
      @cmd_add noSizes (.calm homeTree) none (addHome "_global") emptySite = .ok site₁ ∧
      @cmd_remove noSizes (.calm homeTree) (some "_global") [[[0x61]]] site₁ = .ok site₂ ∧
      ¬ @Agree noSizes site₂ := by
  refine ⟨_, _, @agree_emptySite noSizes, rfl, rfl, fun h => ?_⟩
  have hsame := Set.ext_iff.1 h ([[0x61]], none, .ok ⟨none, none, false, none, none⟩)
  have hheld := hsame.1 ((@Monitor.mem_live noSizes _ _).2
    (Or.inl ⟨([[0x61]], ⟨none, none, false, none, none⟩), List.mem_cons_self, rfl⟩))
  obtain ⟨g, hg, _⟩ := (@Monitored.mem_held noSizes _ _).1 hheld
  cases hg

end Fsmon
