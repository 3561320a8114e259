/-
# `Fsmon.Monitor.Distinct` — one configuration for each path and cmd

The entries, active and pending, by path and cmd, with `_global` read as none.
Parking a root moves its pairs from the one list to the other, so the pairs stay
distinct as long as `add_path` is called for new ones (`Fresh`).  The duplicate
checks of the source do not see to that: `add_path` looks for pending entries
only when it is about to queue one, and then compares the cmd as it is written.

    `one_config_run`        along runs of fresh calls, no pair occurs twice
    `one_config_pending`    a pending path is added again once it exists, before a retry
-/
import Fsmon.Monitor.Stable
import Fsmon.Monitor.SelfFeed

namespace Fsmon.Monitor

def active_pair (e : PathBuf × PathOptions) : PathBuf × Option String := (e.1, cmd_filter e.2.cmd)

def pending_pair (e : PathBuf × PathEntry) : PathBuf × Option String := (e.1, cmd_filter e.2.cmd)

/-- The pairs of all entries, active ones first. -/
def Core.pairs (c : Core) : List (PathBuf × Option String) :=
  c.monitored_entries.map active_pair ++ c.pending_paths.map pending_pair

/-- No pair twice among the active entries, none twice among the pending ones, and none in both. -/
structure OneConfig (c : Core) : Prop where
  active : (c.monitored_entries.map fun e => (e.1, e.2.cmd)).Nodup
  pending : (c.pending_paths.map pending_pair).Nodup
  apart : ∀ e ∈ c.monitored_entries, ∀ p ∈ c.pending_paths, (e.1, e.2.cmd) ≠ pending_pair p

theorem OneConfig.of_pairs {c : Core} (h : c.pairs.Nodup) : OneConfig c := by
  obtain ⟨hactive, hpending, hapart⟩ := List.nodup_append.1 h
  refine ⟨?_, hpending, fun e he p hp heq => ?_⟩
  · have hmap : c.monitored_entries.map active_pair
        = (c.monitored_entries.map fun e => (e.1, e.2.cmd)).map fun q => (q.1, cmd_filter q.2) := by
      rw [List.map_map]
      rfl
    rw [hmap] at hactive
    exact hactive.of_map _
  · have hsame : active_pair e = pending_pair p := by
      have hcmd : e.2.cmd = cmd_filter p.2.cmd := congrArg Prod.snd heq
      rw [active_pair, pending_pair, hcmd, cmd_filter_idem, show e.1 = p.1 from congrArg Prod.fst heq]
    exact hapart _ (List.mem_map_of_mem he) _ (List.mem_map_of_mem hp) hsame

theorem new_pending {os : Os} {cfg : MonitorConfig} {m : Monitor} (h : new os cfg = .ok m) :
    m.inotify_state.pending_paths = [] := by
  rw [new] at h
  split at h
  · cases h
  · split at h
    · cases h
    · split at h
      · cases h
      · cases h
        rfl

section
variable [Sizefilter]

/-- The call queues an entry that is pending for the path under the same cmd, letter by letter. -/
def Repeats (os : Os) (c : Core) (entry : PathEntry) : Prop :=
  os.canonical entry.path ∉ c.paths ∧ os.exists (os.canonical entry.path) = false ∧
    c.queued (os.canonical entry.path) entry = c.pending_paths

/-- A call of `add_path` that its checks refuse, that repeats a pending entry, or that is for a
pair without an entry. -/
def Fresh (os : Os) (c : Core) (entry : PathEntry) : Prop :=
  (¬ ∃ c', Core.Added os c entry c') ∨ Repeats os c entry ∨
    (os.canonical entry.path, cmd_filter entry.cmd) ∉ c.pairs

omit [Sizefilter] in
theorem nodup_insert {α : Type*} {as bs : List α} {x : α} (h : (as ++ bs).Nodup)
    (hx : x ∉ as ++ bs) : ((as ++ [x]) ++ bs).Nodup := by
  have hperm : ((as ++ [x]) ++ bs).Perm (x :: (as ++ bs)) := by
    rw [List.append_assoc]
    exact List.perm_middle
  exact hperm.nodup_iff.2 (List.nodup_cons.2 ⟨hx, h⟩)

omit [Sizefilter] in
/-- An entry more, for a fresh pair. -/
theorem pairs_add_entry {c : Core} {path : PathBuf} {opts : PathOptions} {paths : List PathBuf}
    (h : c.pairs.Nodup) (hfresh : (path, cmd_filter opts.cmd) ∉ c.pairs) :
    Core.pairs { c with paths, monitored_entries := c.monitored_entries ++ [(path, opts)] } |>.Nodup := by
  show (List.map active_pair (c.monitored_entries ++ [(path, opts)]) ++ _).Nodup
  rw [List.map_append]
  exact nodup_insert h hfresh

theorem pairs_added {os : Os} {c c' : Core} {entry : PathEntry} (h : c.pairs.Nodup)
    (hfresh : (os.canonical entry.path, cmd_filter entry.cmd) ∉ c.pairs)
    (hadded : Core.Added os c entry c') : c'.pairs.Nodup := by
  have hpair : ∀ {opts}, PathOptions.try_from entry = .ok opts →
      (os.canonical entry.path, cmd_filter opts.cmd) ∉ c.pairs := by
    intro opts hopts
    rw [(PathOptions.try_from_ok hopts).1, cmd_filter_idem]
    exact hfresh
  cases hadded with
  | cmd opts hpath hopts => exact pairs_add_entry h (hpair hopts)
  | root opts hpath hexists hopts hlog hcmd => exact pairs_add_entry h (hpair hopts)
  | pending hpath hexists =>
      rw [Core.queued]
      split
      · exact h
      · show (_ ++ List.map pending_pair (c.pending_paths ++ [(os.canonical entry.path, entry)])).Nodup
        rw [List.map_append, ← List.append_assoc]
        exact List.concat_eq_append ▸ List.Nodup.concat hfresh h

/-- Parking a root moves its pairs. -/
theorem pairs_park (c : Core) (path : PathBuf) : (c.park path).pairs.Perm c.pairs := by
  have hparked : (pending_of path (c.opts_for_path path)).map pending_pair
      = (c.monitored_entries.filter fun e => e.1 = path).map active_pair := by
    rw [pending_of, Core.opts_for_path, List.map_map, List.map_map]
    refine List.map_congr_left fun e he => ?_
    have hpath : e.1 = path := by simpa using (List.mem_filter.1 he).2
    rw [active_pair, hpath]
    rfl
  have hsplit : ((c.monitored_entries.filter fun e => e.1 ≠ path).map active_pair ++
      (c.monitored_entries.filter fun e => e.1 = path).map active_pair).Perm
      (c.monitored_entries.map active_pair) := by
    rw [← List.map_append]
    refine List.Perm.map _ (List.perm_append_comm.trans ?_)
    have h := List.filter_append_perm (fun e : PathBuf × PathOptions => decide (e.1 = path))
      c.monitored_entries
    simpa only [ne_eq, decide_not] using h
  show ((c.monitored_entries.filter fun e => e.1 ≠ path).map active_pair ++
    (c.pending_paths ++ pending_of path (c.opts_for_path path)).map pending_pair).Perm c.pairs
  rw [List.map_append, hparked]
  refine (List.Perm.append_left _ List.perm_append_comm).trans ?_
  rw [← List.append_assoc]
  exact hsplit.append_right _

theorem stable_pairs : Stable Fresh fun c => c.pairs.Nodup where
  fewer h hentries hpending _ := h.sublist ((hentries.map _).append (hpending.map _))
  park {c} path h := (pairs_park c path).nodup_iff.2 h
  added {os c c' entry} _ h hfits hadded := by
    rcases hfits with hrefused | ⟨hpath, hexists, hsame⟩ | hfresh
    · exact absurd ⟨c', hadded⟩ hrefused
    · cases hadded with
      | cmd opts hp _ => exact absurd hp hpath
      | root opts _ hex _ _ _ =>
          rw [hexists] at hex
          cases hex
      | pending _ _ =>
          rw [hsame]
          exact h
    · exact pairs_added h hfresh hadded

/-- **One configuration for each path and cmd** in a run from a `Monitor::new` whose input pairs
are distinct once the paths are resolved, if every call of `add_path` is fresh. -/
theorem one_config_run {os : Os} {cfg : MonitorConfig} {m : Monitor} (h : new os cfg = .ok m)
    (hdistinct : ((cfg_entries os cfg).map active_pair).Nodup) (steps : List Step)
    (hcalls : Run.Guarded step (Calls Fresh) m steps) : OneConfig (Run.exec step m steps).core := by
  have hstart : m.core.pairs.Nodup := by
    obtain ⟨_, _, hentries, _⟩ := new_ok h
    have hpending : m.inotify_state.pending_paths = [] := new_pending h
    have hpairs : m.core.pairs = (cfg_entries os cfg).map active_pair := by
      show m.monitored_entries.map active_pair ++ m.inotify_state.pending_paths.map pending_pair = _
      rw [hentries, hpending]
      exact List.append_nil _
    rw [hpairs]
    exact hdistinct
  exact .of_pairs (stable_pairs.run steps m ⟨new_rooted h, hstart⟩ hcalls).2

end

/-- `/a` for all cmds, and added for `sh`. -/
theorem one_config_second_cmd : ∃ m, new (.calm nestedTree) (oneEntry ⟨none, none, false, none, none⟩) = .ok m ∧
    OneConfig (@Run.exec _ _ (@step noSizes) m (startSteps ++ [addA false (some "sh")])).core := by
  refine ⟨_, rfl, @one_config_run noSizes (.calm nestedTree) (oneEntry ⟨none, none, false, none, none⟩) _
    rfl (by decide) (startSteps ++ [addA false (some "sh")]) ⟨trivial, trivial, trivial, fun _ => ?_, trivial⟩⟩
  exact .inr (.inr (by decide +kernel))

/-- A start with `/a`, which does not exist. -/
def startBare : List Step := [.factory, .init (.calm Os.bareTree), .tasks (.calm Os.bareTree)]

/-- `/a` is pending from the start; it comes to be, and is added again before it has been retried. -/
theorem one_config_pending : ∃ m, new (.calm Os.bareTree) (oneEntry ⟨none, none, false, none, none⟩) = .ok m ∧
    ((cfg_entries (.calm Os.bareTree) (oneEntry ⟨none, none, false, none, none⟩)).map active_pair).Nodup ∧
    ¬ OneConfig (@Run.exec _ _ (@step noSizes) m (startBare ++ [addA false none])).core :=
  ⟨_, rfl, by decide, fun h => h.apart ([[0x61]], ⟨none, none, false, none, none⟩) (by decide +kernel)
    ([[0x61]], ⟨none, [[0x61]], some false, none, none, none⟩) (by decide +kernel) rfl⟩

end Fsmon.Monitor
