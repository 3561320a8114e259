/-
# `Fsmon.Monitor.Readers` — one reader for each group

A reader task owns a duplicate of its group's descriptor, and runs until a read or
a send fails.  Nothing tells it to stop: when the last reference to a group is given
back, the group leaves the map, and lives on with its reader.

    OneReader      the readers are those of the groups in the map, one for each
    Served         what holds in any case: each group in the map has its reader

A ledger that is `Served` stays so.  Of its entries only the last reference of a
group, given back, breaks `OneReader` (`Served.release`), and it is broken for good.
-/
import Fsmon.Monitor.Sound

namespace Fsmon.Monitor

namespace Ledger

variable {l l' : Ledger}

/-! ## Readers and groups -/

/-- The group is in the map. -/
def InMap (l : Ledger) (key : Nat) : Prop := (l.groups.get key).isSome = true

theorem inMap_of_get {key : Nat} {group : FsGroup} (h : l.groups.get key = some group) : l.InMap key := by
  rw [InMap, h]
  rfl

/-- Each reader's group is in the map, and each group in the map has one reader. -/
structure OneReader (l : Ledger) : Prop where
  nodup : l.readers.Nodup
  reads : ∀ key, key ∈ l.readers ↔ l.InMap key

/-- Readers can be spawned, and no group in the map is without one. -/
structure Served (l : Ledger) : Prop where
  spawns : l.spawns = true
  nodup : l.readers.Nodup
  below : ∀ key ∈ l.readers, key < l.groups.next
  served : ∀ key, l.InMap key → key ∈ l.readers

theorem Served.all_in_map_iff (h : l.Served) : l.OneReader ↔ ∀ key ∈ l.readers, l.InMap key := by
  constructor
  · exact fun hone key => (hone.reads key).1
  · exact fun hall => ⟨h.nodup, fun key => ⟨hall key, h.served key⟩⟩

theorem inMap_refer {key : Nat} {f : Nat → Nat} (q : Nat) :
    InMap { l with groups := l.groups.modify key fun g => { g with ref_count := f g.ref_count } } q ↔
      l.InMap q := by
  rw [InMap, InMap, SlotMap.get_modify]
  split
  · next hq => rw [Option.isSome_map, hq]
  · exact .rfl

theorem inMap_create {dup_ok : Bool} {group : FsGroup} (q : Nat) :
    (l.create dup_ok group).InMap q ↔ q = l.groups.next ∨ l.InMap q := by
  rw [InMap, InMap, create, SlotMap.get_insert]
  split
  · next hq => exact ⟨fun _ => .inl hq, fun _ => rfl⟩
  · next hq => exact ⟨.inr, fun h => h.resolve_left hq⟩

theorem inMap_release {key : Nat} {group : FsGroup} (hgroup : l.groups.get key = some group) (q : Nat) :
    (l.release key group).InMap q ↔ l.InMap q ∧ (q = key → 2 ≤ group.ref_count) := by
  rw [InMap, InMap, release, get_released hgroup]
  by_cases hq : q = key
  · subst hq
    rw [if_pos rfl, hgroup]
    split
    · next hlast => simp; omega
    · next hmore => simp; omega
  · simp [hq]

/-- A new group gets its reader, and nothing else changes for the groups. -/
theorem Served.gain (h : l.Served) (hgain : Gain true l l') :
    l'.Served ∧ (l'.OneReader ↔ l.OneReader) := by
  cases hgain with
  | same => exact ⟨h, .rfl⟩
  | refer key group hgroup =>
      have hin := fun q => @inMap_refer l key (fun n => n + 1) q
      refine ⟨⟨h.spawns, h.nodup, fun q hq => ?_, fun q hq => h.served q ((hin q).1 hq)⟩, ?_⟩
      · rw [SlotMap.next_modify]
        exact h.below q hq
      · exact ⟨fun hone => ⟨hone.nodup, fun q => (hone.reads q).trans (hin q)⟩,
          fun hone => ⟨hone.nodup, fun q => (hone.reads q).trans (hin q).symm⟩⟩
  | create dev_id fan_fd =>
      have hreaders : (l.create true ⟨dev_id, fan_fd, 1⟩).readers = l.readers ++ [l.groups.next] := by
        rw [create, h.spawns]
        rfl
      have hmem : ∀ q, q ∈ (l.create true ⟨dev_id, fan_fd, 1⟩).readers ↔ q = l.groups.next ∨ q ∈ l.readers := by
        intro q
        rw [hreaders, List.mem_append, List.mem_singleton, or_comm]
      have hnew : l.groups.next ∉ l.readers := fun hin => Nat.lt_irrefl _ (h.below _ hin)
      have hserved : (l.create true ⟨dev_id, fan_fd, 1⟩).Served := by
        refine ⟨h.spawns, ?_, fun q hq => ?_, fun q hq => ?_⟩
        · rw [hreaders]
          exact List.concat_eq_append ▸ h.nodup.concat hnew
        · show q < (l.groups.insert _).next
          rw [SlotMap.next_insert]
          rcases (hmem q).1 hq with rfl | hq
          · exact Nat.lt_succ_self _
          · exact Nat.lt_succ_of_lt (h.below q hq)
        · exact (hmem q).2 (((inMap_create q).1 hq).imp_right (h.served q))
      refine ⟨hserved, ?_⟩
      rw [hserved.all_in_map_iff, h.all_in_map_iff]
      constructor
      · intro hall q hq
        rcases (inMap_create q).1 (hall q ((hmem q).2 (.inr hq))) with rfl | hin
        · exact absurd hq hnew
        · exact hin
      · exact fun hall q hq => (inMap_create q).2 (((hmem q).1 hq).imp_right (hall q))

/-- **The last reference of a group**, given back, leaves a reader without a group in the map. -/
theorem Served.release (h : l.Served) {key : Nat} {group : FsGroup}
    (hgroup : l.groups.get key = some group) :
    (l.release key group).Served ∧
      ((l.release key group).OneReader ↔ l.OneReader ∧ 2 ≤ group.ref_count) := by
  have hin := inMap_release hgroup
  have hserved : (l.release key group).Served := by
    refine ⟨h.spawns, h.nodup, fun q hq => ?_, fun q hq => h.served q ((hin q).1 hq).1⟩
    exact Nat.lt_of_lt_of_le (h.below q hq) (aged_released l.groups key group).next_le
  refine ⟨hserved, ?_⟩
  rw [hserved.all_in_map_iff, h.all_in_map_iff]
  constructor
  · intro hall
    refine ⟨fun q hq => ((hin q).1 (hall q hq)).1, ?_⟩
    exact ((hin key).1 (hall key (h.served key (inMap_of_get hgroup)))).2 rfl
  · rintro ⟨hall, hmore⟩ q hq
    exact (hin q).2 ⟨hall q hq, fun _ => hmore⟩

end Ledger

/-! ## Runs -/

section
variable [Sizefilter]

/-- Descriptors can be duplicated. -/
def Dups (os : Os) : Prop := os.dup_ok = true

omit [Sizefilter] in
/-- The act gives back no last reference. -/
def KeepsGroups (m : Monitor) (a : Act) : Prop :=
  ∀ key group, m.gives_back a = some key → m.fanotify.groups.get key = some group → 2 ≤ group.ref_count

omit [Sizefilter] in
theorem dup_ok_of_apart {m : Monitor} {a : Act} (h : Apart Dups m a) : a.dup_ok = true := by
  cases a with
  | add | temp => exact h
  | remove | retain | untemp | subdir | other => rfl

theorem one_reader_perform {m : Monitor} {a : Act} (hsound : m.view.Sound) (hserved : m.ledger.Served)
    (hapart : Apart Dups m a) :
    (m.perform a).ledger.Served ∧
      ((m.perform a).ledger.OneReader ↔ m.ledger.OneReader ∧ KeepsGroups m a) := by
  cases hback : m.gives_back a with
  | none =>
      have hgain := ledger_gains hapart hback
      rw [dup_ok_of_apart hapart] at hgain
      obtain ⟨hserved', hiff⟩ := hserved.gain hgain
      refine ⟨hserved', hiff.trans (and_iff_left ?_).symm⟩
      intro key group hkey
      rw [hback] at hkey
      cases hkey
  | some key =>
      obtain ⟨group, hgroup, hledger⟩ := ledger_returns hsound hback
      obtain ⟨hserved', hiff⟩ := hserved.release hgroup
      rw [hledger]
      refine ⟨hserved', hiff.trans (and_congr_right fun _ => ?_)⟩
      constructor
      · intro hmore key' group' hkey' hgroup'
        rw [hback] at hkey'
        cases hkey'
        rw [hgroup] at hgroup'
        cases hgroup'
        exact hmore
      · exact fun hkeeps => hkeeps key group hback hgroup

/-! ### The start -/

omit [Sizefilter] in
theorem ledger_spawn_tasks {os : Os} (hdup : os.dup_ok = true) (m : Monitor) :
    (m.spawn_tasks os).ledger = ⟨m.fanotify.groups, m.readers ++ m.fanotify.groups.keys, true⟩ := by
  have hspawn : ∀ (keys : List Nat) (m : Monitor), m.ledger.spawns = true →
      (keys.foldl (spawn_fd_reader os) m).ledger = ⟨m.fanotify.groups, m.readers ++ keys, true⟩ := by
    intro keys
    induction keys with
    | nil =>
        intro m hm
        rw [List.append_nil, List.foldl_nil, ledger, show (m.event_tx && _) = true from hm]
    | cons key keys ih =>
        intro m hm
        have hone := ledger_spawn_fd_reader os m key
        rw [hm, hdup] at hone
        have hspawns : (m.spawn_fd_reader os key).ledger.spawns = true := by
          rw [hone]
          exact hm
        rw [List.foldl_cons, ih _ hspawns]
        rw [show (m.spawn_fd_reader os key).fanotify.groups = m.fanotify.groups from
          congrArg Ledger.groups hone, show (m.spawn_fd_reader os key).readers = m.readers ++ [key] from
          congrArg Ledger.readers hone, List.append_assoc]
        rfl
  rw [spawn_tasks]
  exact hspawn _ _ rfl

/-- Before the tasks are spawned there is no reader. -/
theorem readers_init {os : Os} {cfg : MonitorConfig} {m m' : Monitor} (hnew : new os cfg = .ok m)
    (hinit : m.spawn_factory.init_fanotify os = .ok m') : m'.readers = [] := by
  have hnone : m.spawn_factory.readers = [] := by
    simp only [new] at hnew
    split at hnew
    · cases hnew
    · split at hnew
      · cases hnew
      · split at hnew
        · cases hnew
        · cases hnew
          rfl
  have hpath : ∀ (m : Monitor) (p : PathBuf), (init_path os m p).readers = m.readers := by
    intro m p
    rw [init_path]
    split <;> rfl
  have hwalk : ∀ (m : Monitor) (fan_fd : Nat) (mask : Mask) (p c : PathBuf),
      (m.init_walk os fan_fd mask p c).readers = m.readers := by
    intro m fan_fd mask p c
    rw [init_walk]
    split <;> rfl
  have hroot : ∀ (mask : Mask) (st : Monitor × HashMap Nat Nat) (r : PathBuf × PathBuf),
      (init_root os mask st r).1.readers = st.1.readers := by
    intro mask st r
    simp only [init_root]
    split
    · rfl
    · split
      · split
        · rfl
        · simp only
          split
          · rfl
          · exact hwalk ..
      · split
        · rfl
        · exact hwalk ..
  have hroots := fun mask =>
    Run.frame_exec (f := fun st : Monitor × HashMap Nat Nat => st.1.readers) (hroot mask)
  have hcache : ∀ (m : Monitor) (r : PathBuf × PathBuf), (init_cache os m r).readers = m.readers := by
    intro m r
    rw [init_cache]
    split <;> rfl
  have hpaths : (m.spawn_factory.init_paths os).readers = [] := by
    rw [init_paths]
    simp only
    rw [show ∀ m₁ : Monitor, (m₁.setup_inotify_watches os).readers = m₁.readers from
      fun m₁ => congrArg Ledger.readers (ledger_setup_inotify_watches os m₁)]
    exact (Run.frame_exec (f := readers) hpath _ _).trans hnone
  rw [init_fanotify] at hinit
  split at hinit
  · cases hinit
  · simp only at hinit
    split at hinit
    · cases hinit
    · cases hinit
      split
      · exact ((Run.frame_exec (f := readers) hcache _ _).trans (hroots _ _ _)).trans hpaths
      · exact (hroots _ _ _).trans hpaths

theorem one_reader_start {os : Os} {cfg : MonitorConfig} {m : Monitor} (h : start os cfg = .ok m)
    (hdup : os.dup_ok = true) : m.ledger.Served ∧ m.ledger.OneReader := by
  obtain ⟨m₀, m₁, hnew, hinit, rfl⟩ := start_cases h
  have hreads : ∀ key, key ∈ m₁.fanotify.groups.keys ↔
      Ledger.InMap ⟨m₁.fanotify.groups, m₁.fanotify.groups.keys, true⟩ key := fun _ => SlotMap.mem_keys
  rw [ledger_spawn_tasks hdup, readers_init hnew hinit, List.nil_append]
  refine ⟨⟨rfl, SlotMap.nodup_keys _, fun key hkey => ?_, fun key => (hreads key).2⟩, SlotMap.nodup_keys _,
    hreads⟩
  obtain ⟨group, hgroup⟩ := Option.isSome_iff_exists.1 ((hreads key).1 hkey)
  exact SlotMap.lt_next hgroup

/-- The steps of a run, as acts. -/
def Plays (m : Monitor) (steps : List Step) (acts : List Act) : Prop :=
  Run.exec perform m acts = Run.exec step m steps ∧ Run.Guarded perform (Apart Dups) m acts

/-- **One reader for each group**, in every run of a daemon whose descriptors can be duplicated: the
run is a run of acts, and each group in the map has its reader, and no other reader runs, exactly if
none of the acts gives back the last reference of a group. -/
theorem one_reader_iff {os : Os} {cfg : MonitorConfig} {m : Monitor} (h : start os cfg = .ok m)
    (hdup : Dups os) {steps : List Step} (hrun : ∀ s ∈ steps, Running s) (hdups : ∀ s ∈ steps, s.On Dups) :
    (∃ acts, Plays m steps acts) ∧ ∀ acts, Plays m steps acts →
      ((Run.exec step m steps).ledger.OneReader ↔ Run.Guarded perform KeepsGroups m acts) := by
  obtain ⟨hserved, hone⟩ := one_reader_start h hdup
  refine ⟨Through.run steps m hrun hdups, fun acts ⟨hacts, hapart⟩ => ?_⟩
  rw [← hacts]
  have hinv : ∀ (m : Monitor) (a : Act), m.view.Sound ∧ m.ledger.Served → Apart Dups m a →
      (m.perform a).view.Sound ∧ (m.perform a).ledger.Served := fun m a hm ha =>
    ⟨sound_perform m a hm.1 ha, (one_reader_perform hm.1 hm.2 ha).1⟩
  have hstep : ∀ (m : Monitor) (a : Act), m.view.Sound ∧ m.ledger.Served → Apart Dups m a →
      ((m.perform a).ledger.OneReader ↔ m.ledger.OneReader ∧ KeepsGroups m a) := fun m a hm ha =>
    (one_reader_perform hm.1 hm.2 ha).2
  exact (Run.exec_iff (P := fun m => m.ledger.OneReader) hinv hstep acts m ⟨sound_start h, hserved⟩
    hapart).trans (and_iff_right hone)

end

/-- `/a/b` is not to be monitored any more, `/a` still is. -/
def removeInner : List Step := [.socket (.calm nestedTree) (.remove [[0x61], [0x62]] none)]

/-- Two roots of one group, of which one is removed. -/
theorem one_reader_two_roots : ∃ m,
    @start noSizes (.calm nestedTree) (plainRoots [[[0x61]], [[0x61], [0x62]]]) = .ok m ∧
      (Run.exec (@step noSizes) m removeInner).ledger.OneReader := by
  refine ⟨_, rfl, ((@one_reader_iff noSizes (.calm nestedTree) (plainRoots [[[0x61]], [[0x61], [0x62]]]) _
    rfl rfl removeInner ?_ ?_).2 [.remove (.calm nestedTree) [[0x61], [0x62]] none]
    ⟨rfl, rfl, trivial⟩).2 ⟨?_, trivial⟩⟩
  · exact fun s hs => List.mem_singleton.1 hs ▸ trivial
  · exact fun s hs => List.mem_singleton.1 hs ▸ rfl
  · intro key group hkey hgroup
    cases hkey
    cases hgroup
    decide

/-- `/a` is removed and added again. -/
def readdRoot : List Step :=
  [.socket (.calm nestedTree) (.remove [[0x61]] none),
    .socket (.calm nestedTree) (.add [[0x61]] none none none none none)]

/-- The group that is gone from the map still has its reader, beside the one that replaces it. -/
theorem two_readers : ∃ m,
    @start noSizes (.calm nestedTree) (oneEntry ⟨none, none, false, none, none⟩) = .ok m ∧
      Dups (.calm nestedTree) ∧ (∀ s ∈ readdRoot, Running s) ∧ (∀ s ∈ readdRoot, s.On Dups) ∧
      (Run.exec (@step noSizes) m readdRoot).readers = [0, 1] ∧
      ¬ (Run.exec (@step noSizes) m readdRoot).ledger.OneReader := by
  refine ⟨_, rfl, rfl, ?_, ?_, rfl, fun h => ?_⟩
  · intro s hs
    rcases List.mem_pair.1 hs with rfl | rfl <;> trivial
  · intro s hs
    rcases List.mem_pair.1 hs with rfl | rfl <;> rfl
  · have hin := (h.reads 0).1 List.mem_cons_self
    cases hin

end Fsmon.Monitor
