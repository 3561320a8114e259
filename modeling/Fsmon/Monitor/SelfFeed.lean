/-
# `Fsmon.Monitor.SelfFeed` — entries that would make the daemon watch itself

An entry feeds on the daemon when its path is the log directory, when it is
recursive and the log directory is below it, or when its cmd is `fsmon`.
`Monitor::new` and `add_path` refuse such entries, but `add_path` looks only at
paths that are not monitored yet.  Another cmd, or another recursive flag, for a
path that is monitored is taken as it comes.

    `no_self_feed_run`     along runs in which no such call is made, no entry feeds
    `self_feed_by_readd`   `/a`, then `/a` recursive, with the logs in `/a/b`
-/
import Fsmon.Monitor.Stable
import Fsmon.Monitor.StartHandles

namespace Fsmon.Monitor

/-- With the logs in `log_dir`, the entry makes the daemon report its own work. -/
def Feeds (log_dir : Option PathBuf) (e : PathBuf × PathOptions) : Prop :=
  (∃ l, log_dir = some l ∧ (e.1 = l ∨ e.2.recursive = true ∧ l.startsWith e.1 = true)) ∨
    e.2.cmd = some "fsmon"

def NoSelfFeed (log_dir : Option PathBuf) (c : Core) : Prop :=
  ∀ e ∈ c.monitored_entries, ¬ Feeds log_dir e

/-- `Monitor::new` refuses every entry that feeds. -/
theorem new_entries_checked {os : Os} {log_dir : Option PathBuf} :
    ∀ {es : List (PathBuf × PathOptions)} {acc r : List PathBuf × List (PathBuf × PathOptions)},
      new_entries os log_dir es acc = .ok r →
        ∀ e ∈ es, ¬ Feeds log_dir (os.canonical e.1, e.2)
  | [], _, _, _ => nofun
  | e :: es, acc, r, h => by
      unfold new_entries at h
      simp only at h
      split at h
      · cases h
      · next hoverlap =>
          split at h
          · cases h
          · next hcmd =>
              intro d hd
              rcases List.mem_cons.1 hd with rfl | hd
              · rintro (⟨l, rfl, hl⟩ | hfsmon)
                · simp only at hoverlap
                  split at hoverlap
                  · cases hoverlap
                  · next hno =>
                      refine hno ?_
                      rcases hl with hl | ⟨hr, hl⟩
                      · exact .inl hl.symm
                      · exact .inr (by rw [hr, hl]; rfl)
                · exact hcmd hfsmon
              · exact new_entries_checked h d hd

theorem mem_foldl_insert_new {p : PathBuf} : ∀ {ps acc : List PathBuf}, p ∈ acc ∨ p ∈ ps →
    p ∈ ps.foldl insert_new acc
  | [], _, h => h.resolve_right List.not_mem_nil
  | q :: ps, acc, h => by
      show p ∈ ps.foldl insert_new (insert_new acc q)
      refine mem_foldl_insert_new ?_
      rcases h with h | h
      · refine .inl ?_
        rw [insert_new]
        split
        · exact h
        · exact List.mem_append_left _ h
      · rcases List.mem_cons.1 h with rfl | h
        · refine .inl ?_
          rw [insert_new]
          split
          · assumption
          · exact List.mem_append_right _ (List.mem_singleton_self _)
        · exact .inr h

/-- Every entry `Monitor::new` keeps has its root. -/
theorem new_rooted {os : Os} {cfg : MonitorConfig} {m : Monitor} (h : new os cfg = .ok m) :
    m.core.Rooted := by
  obtain ⟨hpaths, _, hentries, _⟩ := new_ok h
  intro e he
  show e.1 ∈ m.paths
  rw [hpaths]
  exact mem_foldl_insert_new (.inr (List.mem_map.2 ⟨e, hentries ▸ he, rfl⟩))

theorem new_no_self_feed {os : Os} {cfg : MonitorConfig} {m : Monitor} (h : new os cfg = .ok m) :
    m.log_dir = cfg.log_dir ∧ NoSelfFeed (cfg.log_dir.map os.canonical) m.core := by
  obtain ⟨_, _, hentries, _⟩ := new_ok h
  rw [new] at h
  split at h
  · cases h
  · split at h
    · cases h
    · split at h
      · cases h
      · next paths entries hnew =>
          have hchecked := new_entries_checked hnew
          cases h
          refine ⟨rfl, fun e he => ?_⟩
          have he' : e ∈ cfg_entries os cfg := hentries ▸ he
          obtain ⟨d, hd, rfl⟩ := List.mem_map.1 he'
          exact hchecked d hd

section
variable [Sizefilter]

/-- A call of `add_path` that meets its checks: the log directory is where it was at the start,
and if the path is monitored already, the entry does not feed. -/
def Checked (log_dir : Option PathBuf) (os : Os) (c : Core) (entry : PathEntry) : Prop :=
  c.log_dir.map os.canonical = log_dir ∧
    (os.canonical entry.path ∈ c.paths → ∀ opts, PathOptions.try_from entry = .ok opts →
      ¬ Feeds log_dir (os.canonical entry.path, opts))

/-- The entries do not feed, along changes whose calls meet the checks. -/
theorem stable_no_self_feed (log_dir : Option PathBuf) :
    Stable (Checked log_dir) (NoSelfFeed log_dir) where
  fewer h hentries _ _ e he := h e (hentries.subset he)
  park path h e he := h e (List.mem_of_mem_filter he)
  added {os c c' entry} _ h hfits hadded := by
    obtain ⟨hlog, hcmd⟩ := hfits
    cases hadded with
    | cmd opts hpath hopts =>
        intro e he
        rcases List.mem_append.1 he with he | he
        · exact h e he
        · rw [List.mem_singleton.1 he]
          exact hcmd hpath opts hopts
    | pending hpath hexists => exact h
    | root opts hpath hexists hopts hapart hfsmon =>
        intro e he
        rcases List.mem_append.1 he with he | he
        · exact h e he
        · rw [List.mem_singleton.1 he]
          rintro (⟨l, hl, hfeeds⟩ | hc)
          · -- the check that `add_path` makes
            rw [hl, Option.map_eq_some_iff] at hlog
            obtain ⟨d, hd, rfl⟩ := hlog
            obtain ⟨hne, hbelow⟩ := hapart d hd
            rcases hfeeds with hfeeds | ⟨hr, hfeeds⟩
            · exact hne hfeeds.symm
            · rw [hbelow hr] at hfeeds
              cases hfeeds
          · exact hfsmon hc

/-- **No self-feeding entry** in a run from `Monitor::new` whose calls of `add_path` meet the checks
for paths that are monitored already. -/
theorem no_self_feed_run {os : Os} {cfg : MonitorConfig} {m : Monitor} (h : new os cfg = .ok m)
    (steps : List Step)
    (hcalls : Run.Guarded step (Calls (Checked (cfg.log_dir.map os.canonical))) m steps) :
    NoSelfFeed (cfg.log_dir.map os.canonical) (Run.exec step m steps).core :=
  ((stable_no_self_feed _).run steps m ⟨new_rooted h, (new_no_self_feed h).2⟩ hcalls).2

end

/-! ## Adding to a path that is monitored -/

/-- A start with `/a`, not recursive, and the logs in `/a/b`. -/
def besideLogs : MonitorConfig :=
  { oneEntry ⟨none, none, false, none, none⟩ with log_dir := some [[0x61], [0x62]] }

/-- `fsmon add <cmd> --path /a`. -/
def addA (recursive : Bool) (cmd : Option String) : Step :=
  .socket (.calm nestedTree) (.add [[0x61]] (some recursive) none none cmd none)

def startSteps : List Step := [.factory, .init (.calm nestedTree), .tasks (.calm nestedTree)]

/-- A second cmd for `/a`, still not recursive. -/
theorem no_self_feed_second_cmd : ∃ m, new (.calm nestedTree) besideLogs = .ok m ∧
    NoSelfFeed (some [[0x61], [0x62]])
      (@Run.exec _ _ (@step noSizes) m (startSteps ++ [addA false (some "sh")])).core := by
  refine ⟨_, rfl, @no_self_feed_run noSizes (.calm nestedTree) besideLogs _ rfl
    (startSteps ++ [addA false (some "sh")]) ⟨trivial, trivial, trivial, fun _ => ⟨rfl, ?_⟩, trivial⟩⟩
  rintro _ opts hopts (⟨l, hl, hfeeds⟩ | hcmd)
  · cases hopts
    cases hl
    rcases hfeeds with hfeeds | ⟨hr, _⟩
    · exact absurd hfeeds (by decide)
    · cases hr
  · cases hopts
    exact absurd hcmd (by decide)

/-- `/a` is added again, recursive: nothing asks where the logs are. -/
theorem self_feed_by_readd : ∃ m, new (.calm nestedTree) besideLogs = .ok m ∧
    ¬ NoSelfFeed (some [[0x61], [0x62]])
      (@Run.exec _ _ (@step noSizes) m (startSteps ++ [addA true none])).core :=
  ⟨_, rfl, fun h => h ([[0x61]], ⟨none, none, true, none, none⟩) (by decide +kernel)
    (.inl ⟨_, rfl, .inr ⟨rfl, rfl⟩⟩)⟩

end Fsmon.Monitor
