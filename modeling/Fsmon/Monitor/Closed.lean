/-
# `Fsmon.Monitor.Closed` — relations that every handler keeps

Handlers (sockets, reloads, retries, inotify, event batches) are made of calls.  A
relation between states that is closed under the calls, `Closed`, holds between the
state before a handler and the state after it.  The calls are

    add      add_path, when it succeeds
    remove   remove_path, when it succeeds
    retain   the pair an `Add` is about is dropped
    temp     add_temp_parent_mark, if it `Fits`
    untemp   remove_temp_parent_mark
    subdir   on_new_subdirectory
    other    anything that leaves roots, entries, groups, readers, marks and handles alone (`Quiet`)

`Fits` is a guard on the temporary marks a handler asks for; `Temps` says of a step
that all of its calls meet it.
-/
import Fsmon.Monitor.Ledger
import Fsmon.Monitor.Stable

namespace Fsmon.Monitor

/-- What the daemon does once it is started. -/
def Running : Step → Prop
  | .factory | .init _ | .tasks _ => False
  | _ => True

/-- A step on such systems. -/
def Step.On (Ok : Os → Prop) : Step → Prop
  | .factory => True
  | .init os | .tasks os | .socket os _ | .reload os _ | .retry os | .inotify os _ => Ok os
  | .batch os _ => ∀ i, Ok (os i)

/-- Any system. -/
def AnyOs (_ : Os) : Prop := True

theorem Step.on_any (s : Step) : s.On AnyOs := by
  cases s with
  | batch os events => exact fun _ => trivial
  | _ => trivial

/-- Roots, entries, groups, readers, marks and cached handles are as before. -/
structure Quiet (m m' : Monitor) : Prop where
  view : m'.view = m.view
  ledger : m'.ledger = m.ledger
  panicked : m'.panicked = m.panicked
  dir_cache : m'.fanotify.dir_cache = m.fanotify.dir_cache

theorem Quiet.trans {m m' m'' : Monitor} (h : Quiet m m') (h' : Quiet m' m'') : Quiet m m'' :=
  ⟨h'.view.trans h.view, h'.ledger.trans h.ledger, h'.panicked.trans h.panicked,
    h'.dir_cache.trans h.dir_cache⟩

section
variable [Sizefilter]

/-! ## The temporary marks a step asks for -/

section Temps

variable (Fits : Os → Monitor → PathBuf → Prop)

/-- The call of `handle_canonical_root_deleted`: the root is removed, its entries are pending. -/
def RootTemps (os : Os) (m : Monitor) (root : PathBuf) : Prop :=
  let m₁ := m.try_remove os root
  let m₂ := m₁.with_pending (m₁.inotify_state.pending_paths ++ pending_of root (m.opts_for_path root))
  Fits os (m₂.setup_inotify_watches os) root

/-- The call for a directory that inotify says is gone. -/
def DeletedTemps (os : Os) (m : Monitor) (path : PathBuf) : Prop :=
  Fits os ((m.opts_for_path path).foldl (push_pending path) (m.try_remove os path)) path

def InotifyTemps (os : Os) (m : Monitor) : Option (List InotifyEvent) → Prop
  | none => True
  | some events =>
      m.inotify_state.inotify = true →
        Run.Guarded (inotify_deleted os) (DeletedTemps Fits os) m (events.filterMap m.deleted_path)

def EventTemps (os : Os) (m : Monitor) (raw : DecodedEvent) : Prop :=
  raw.mask &&& FAN_Q_OVERFLOW = 0 → m.is_skipped raw = false →
    ∀ root, m.gone_root (mask_to_event_types raw.mask) raw.path = some root →
      RootTemps Fits os ((m.counted raw).recorded os raw) root

def BatchTemps : (Nat → Os) → Monitor → List DecodedEvent → Prop
  | _, _, [] => True
  | os, m, raw :: rest =>
      EventTemps Fits (os 0) m raw ∧
        BatchTemps (fun i => os (i + 1)) (process_event (os 0) m raw).1 rest

/-- The calls of a step; only deletions make any. -/
def Temps (m : Monitor) : Step → Prop
  | .inotify os events => InotifyTemps Fits os m events
  | .batch os events =>
      BatchTemps Fits os
        { m with metrics := m.metrics.inc_events_unresolved_rename (expand_renames events).2 }
        (expand_renames events).1
  | _ => True

end Temps

/-! ## The rule -/

structure Closed (Ok : Os → Prop) (Fits : Os → Monitor → PathBuf → Prop) (R : Monitor → Monitor → Prop) :
    Prop where
  trans : ∀ {m m' m'' : Monitor}, R m m' → R m' m'' → R m m''
  add : ∀ {os : Os} {m m' : Monitor} {entry : PathEntry}, Ok os → m.add_path os entry = .ok m' → R m m'
  remove : ∀ {os : Os} {m m' : Monitor} {path : PathBuf} {cmd : Option String}, Ok os →
    m.remove_path os path cmd = .ok m' → R m m'
  retain : ∀ (m : Monitor) (path : PathBuf) (cmd : Option String), R m (m.retain_others path cmd)
  temp : ∀ {os : Os} {m : Monitor} {target : PathBuf}, Ok os → Fits os m target →
    R m (m.add_temp_parent_mark os target)
  untemp : ∀ {os : Os} (m : Monitor) (target : PathBuf), Ok os → R m (m.remove_temp_parent_mark os target)
  subdir : ∀ {os : Os} (m : Monitor) (path : PathBuf), Ok os → R m (m.on_new_subdirectory os path).1
  other : ∀ {m m' : Monitor}, Quiet m m' → R m m'

namespace Closed

variable {Ok : Os → Prop} {Fits : Os → Monitor → PathBuf → Prop} {R : Monitor → Monitor → Prop} {os : Os}

theorem refl (h : Closed Ok Fits R) (m : Monitor) : R m m := h.other ⟨rfl, rfl, rfl, rfl⟩

theorem foldl (h : Closed Ok Fits R) {α : Type} {f : Monitor → α → Monitor} (hf : ∀ m a, R m (f m a))
    (as : List α) : ∀ m, R m (as.foldl f m) := Run.rel_foldl h.refl h.trans hf as

/-- As `foldl`, when every turn meets a guard. -/
theorem guarded (h : Closed Ok Fits R) {α : Type} {f : Monitor → α → Monitor} {ok : Monitor → α → Prop}
    (hf : ∀ m a, ok m a → R m (f m a)) (as : List α) :
    ∀ m, Run.Guarded f ok m as → R m (as.foldl f m) := Run.rel_exec h.refl h.trans hf as

/-! ### Parts of handlers -/

omit [Sizefilter] in
theorem quiet_setup_inotify_watches (os : Os) (m : Monitor) : Quiet m (m.setup_inotify_watches os) := by
  refine ⟨view_setup_inotify_watches os m, ledger_setup_inotify_watches os m, ?_, ?_⟩
  · rw [setup_inotify_watches]
    split <;> rfl
  · rw [setup_inotify_watches]
    split <;> rfl

theorem setup (h : Closed Ok Fits R) (os : Os) (m : Monitor) : R m (m.setup_inotify_watches os) :=
  h.other (quiet_setup_inotify_watches os m)

theorem pending (h : Closed Ok Fits R) (m : Monitor) (ps : List (PathBuf × PathEntry)) :
    R m (m.with_pending ps) := h.other ⟨rfl, rfl, rfl, rfl⟩

theorem try_remove (h : Closed Ok Fits R) (hok : Ok os) (m : Monitor) (path : PathBuf) :
    R m (m.try_remove os path) := by
  rw [Monitor.try_remove]
  cases hr : m.remove_path os path none with
  | ok m' => exact h.remove hok hr
  | error e => exact h.refl m

theorem push (h : Closed Ok Fits R) (path : PathBuf) (m : Monitor) (opts : PathOptions) :
    R m (push_pending path m opts) := by
  rw [push_pending]
  split
  · exact h.refl m
  · exact h.pending m _

/-! ### Handlers -/

theorem retry (h : Closed Ok Fits R) (hok : Ok os) (es : List (PathBuf × PathEntry)) : ∀ (m : Monitor)
    (still : List (PathBuf × PathEntry)), R m (retry_pending os es m still).1 := by
  induction es with
  | nil => exact fun m _ => h.refl m
  | cons e es ih =>
      intro m still
      rw [retry_pending]
      split
      · exact ih m _
      · cases hadd : m.add_path os e.2 with
        | ok m' => exact h.trans (h.add hok hadd) (ih m' still)
        | error msg => exact ih m _

theorem check_pending (h : Closed Ok Fits R) (hok : Ok os) (m : Monitor) : R m (m.check_pending os) := by
  have hcleanup : ∀ m : Monitor, R m (m.cleanup_temp_parent_marks os) := fun m =>
    h.foldl (fun m t => h.untemp m t hok) _ m
  rw [Monitor.check_pending]
  split
  · exact h.refl m
  · have hretried :=
      h.trans (h.pending m []) (h.retry hok m.inotify_state.pending_paths (m.with_pending []) [])
    simp only
    generalize retry_pending os m.inotify_state.pending_paths (m.with_pending []) [] = r at hretried ⊢
    have hwatched : R m
        (((r.1.with_pending r.2).cleanup_temp_parent_marks os).setup_inotify_watches os) :=
      h.trans (h.trans (h.trans hretried (h.pending r.1 r.2)) (hcleanup _)) (h.setup os _)
    exact h.trans hwatched (h.other ⟨rfl, rfl, rfl, rfl⟩)

theorem socket (h : Closed Ok Fits R) (hok : Ok os) (m : Monitor) (cmd : SocketCmd) :
    R m (m.handle_socket_cmd os cmd).2 := by
  cases cmd with
  | add path recursive types size track_cmd max_depth =>
      have hprep : R m (m.prepare_add os path (cmd_filter track_cmd)) := by
        rw [prepare_add]
        split
        · exact h.retain m path _
        · exact h.trans (h.retain m path _) (h.try_remove hok _ path)
      rw [handle_socket_cmd]
      cases check_path_allowed path with
      | some msg => exact h.refl m
      | none =>
          simp only
          cases hadd : (m.prepare_add os path (cmd_filter track_cmd)).add_path os
              (add_request path recursive types size track_cmd max_depth) with
          | ok m' => exact h.trans hprep (h.add hok hadd)
          | error msg => exact hprep
  | remove path track_cmd =>
      rw [handle_socket_cmd]
      cases hr : m.remove_path os path track_cmd with
      | ok m' => exact h.remove hok hr
      | error msg => exact h.refl m

theorem reload (h : Closed Ok Fits R) (hok : Ok os) (m : Monitor) (store : Except Str Monitored) :
    R m (m.reload_config os store).2 := by
  have hadd : ∀ (m : Monitor) (e : PathEntry), R m (m.reload_add os e) := by
    intro m e
    rw [reload_add]
    split
    · exact h.refl m
    · cases ha : m.add_path os e with
      | ok m' => exact h.add hok ha
      | error msg => exact h.refl m
  have hremove : ∀ (flat : List PathEntry) (m : Monitor) (p : PathBuf), R m (m.reload_remove os flat p) := by
    intro flat m p
    rw [reload_remove]
    split
    · exact h.refl m
    · exact h.try_remove hok m p
  cases store with
  | error e => exact h.refl m
  | ok s => exact h.trans (h.foldl hadd _ m) (h.foldl (hremove _) _ _)

theorem deleted (h : Closed Ok Fits R) (hok : Ok os) (m : Monitor) (path : PathBuf)
    (hfit : DeletedTemps Fits os m path) : R m (m.inotify_deleted os path) :=
  h.trans (h.trans (h.try_remove hok m path) (h.foldl (h.push path) _ _)) (h.temp hok hfit)

theorem inotify (h : Closed Ok Fits R) (hok : Ok os) (m : Monitor) (events : Option (List InotifyEvent))
    (hfit : InotifyTemps Fits os m events) : R m (m.handle_inotify_events os events) := by
  have hcreated : ∀ (m : Monitor) (ev : InotifyEvent), R m (m.inotify_created os ev) := by
    intro m ev
    rw [inotify_created]
    cases m.new_dir_of ev with
    | none => exact h.refl m
    | some dir => exact h.subdir m dir hok
  cases events with
  | none =>
      rw [handle_inotify_events]
      split
      · exact h.refl m
      · exact h.check_pending hok m
  | some evs =>
      rw [handle_inotify_events_eq]
      split
      · exact h.refl m
      · next hon =>
          have hgone : R m ((evs.filterMap m.deleted_path).foldl (inotify_deleted os) m) :=
            h.guarded (h.deleted hok) _ m (hfit (by simpa using hon))
          refine h.trans ?_ (h.trans (h.foldl hcreated evs _) (h.check_pending hok _))
          rw [after_deleted]
          split
          · exact hgone
          · exact h.trans (h.trans hgone (h.setup os _)) (h.check_pending hok _)

omit [Sizefilter] in
theorem quiet_foldl {α : Type} {f : Monitor × List PendingEvent → α → Monitor × List PendingEvent}
    (hf : ∀ r a, Quiet r.1 (f r a).1) (as : List α) :
    ∀ r, Quiet r.1 (as.foldl f r).1 :=
  Run.rel_foldl (R := fun r r' : Monitor × List PendingEvent => Quiet r.1 r'.1)
    (fun _ => ⟨rfl, rfl, rfl, rfl⟩) Quiet.trans hf as

omit [Sizefilter] in
/-- Recording an event touches the size cache only. -/
theorem record_entry_still (os : Os) (raw : DecodedEvent) (r : Monitor × List PendingEvent)
    (e : PathBuf × PathOptions) : Quiet r.1 (record_entry os raw r e).1 := by
  rw [record_entry]
  split
  · refine quiet_foldl (fun r t => ?_) _ r
    rw [record_type]
    simp only
    split <;> exact ⟨rfl, rfl, rfl, rfl⟩
  · exact ⟨rfl, rfl, rfl, rfl⟩

omit [Sizefilter] in
theorem records_still (os : Os) (raw : DecodedEvent) (es : List (PathBuf × PathOptions)) :
    ∀ r : Monitor × List PendingEvent, Quiet r.1 (es.foldl (record_entry os raw) r).1 :=
  quiet_foldl (record_entry_still os raw) es

theorem recorded (h : Closed Ok Fits R) (hok : Ok os) (m : Monitor) (raw : DecodedEvent) :
    R m (m.recorded os raw) := by
  rw [Monitor.recorded]
  refine h.trans ?_ (h.other (records_still os raw (m.matching_opts_for_event raw.path)
    (if m.is_new_subdirectory os raw then (m.on_new_subdirectory os raw.path).1 else m, [])))
  split
  · exact h.subdir m raw.path hok
  · exact h.refl m

theorem root_gone (h : Closed Ok Fits R) (hok : Ok os) (m : Monitor) (root : PathBuf)
    (hfit : RootTemps Fits os m root) : R m (m.root_gone os root) :=
  h.trans (h.trans (h.trans (h.try_remove hok m root) (h.pending _ _)) (h.setup os _)) (h.temp hok hfit)

theorem root_deleted (h : Closed Ok Fits R) (hok : Ok os) (m : Monitor) (root : PathBuf)
    (hfit : RootTemps Fits os m root) : R m (m.handle_canonical_root_deleted os root) :=
  h.trans (h.root_gone hok m root hfit) (h.check_pending hok _)

theorem event (h : Closed Ok Fits R) (hok : Ok os) (m : Monitor) (raw : DecodedEvent)
    (hfit : EventTemps Fits os m raw) : R m (process_event os m raw).1 := by
  have hcounted : R m (m.counted raw) := by
    rw [counted]
    split <;> exact h.other ⟨rfl, rfl, rfl, rfl⟩
  have hgone : (m.counted raw).gone_root (mask_to_event_types raw.mask) raw.path =
      m.gone_root (mask_to_event_types raw.mask) raw.path := by
    rw [counted]
    split <;> rfl
  have hskipped : (m.counted raw).is_skipped raw = m.is_skipped raw := by
    rw [counted]
    split <;> rfl
  rw [process_event]
  split
  · exact h.other ⟨rfl, rfl, rfl, rfl⟩
  · next hmask =>
      refine h.trans hcounted ?_
      show R (m.counted raw) (handle_event os (m.counted raw) raw).1
      rw [Stable.handle_event_eq, hskipped, hgone]
      split
      · exact h.refl _
      · next hseen =>
          cases hroot : m.gone_root (mask_to_event_types raw.mask) raw.path with
          | none => exact h.recorded hok _ raw
          | some root =>
              exact h.trans (h.recorded hok _ raw)
                (h.root_deleted hok _ root (hfit (by simpa using hmask) (by simpa using hseen) root hroot))

theorem batch (h : Closed Ok Fits R) (raws : List DecodedEvent) : ∀ {os : Nat → Os}, (∀ i, Ok (os i)) →
    ∀ m : Monitor, BatchTemps Fits os m raws → R m (process_events os m raws).1 := by
  induction raws with
  | nil => exact fun _ m _ => h.refl m
  | cons raw raws ih =>
      exact fun hok m hfit =>
        h.trans (h.event (hok 0) m raw hfit.1) (ih (fun i => hok (i + 1)) _ hfit.2)

/-- **A step of a daemon that is running**, if its temporary marks fit. -/
theorem step (h : Closed Ok Fits R) (m : Monitor) {s : Step} (hs : Running s) (hok : s.On Ok)
    (hfit : Temps Fits m s) : R m (m.step s) := by
  cases s with
  | factory | init | tasks => exact hs.elim
  | socket os cmd => exact h.socket hok m cmd
  | reload os store => exact h.reload hok m store
  | retry os => exact h.check_pending hok m
  | inotify os events => exact h.inotify hok m events hfit
  | batch os events =>
      have hcount : R m
          { m with metrics := m.metrics.inc_events_unresolved_rename (expand_renames events).2 } :=
        h.other ⟨rfl, rfl, rfl, rfl⟩
      exact h.trans hcount (h.batch (expand_renames events).1 hok _ hfit)

/-- **A run of such steps.** -/
theorem run (h : Closed Ok Fits R) : ∀ (steps : List Step) (m : Monitor), (∀ s ∈ steps, Running s) →
    (∀ s ∈ steps, s.On Ok) → Run.Guarded Monitor.step (Temps Fits) m steps →
      R m (Run.exec Monitor.step m steps) := by
  intro steps
  induction steps with
  | nil => exact fun m _ _ _ => h.refl m
  | cons s steps ih =>
      intro m hs hok hfit
      exact h.trans (h.step m (hs s List.mem_cons_self) (hok s List.mem_cons_self) hfit.1)
        (ih _ (fun t ht => hs t (List.mem_cons_of_mem _ ht))
          (fun t ht => hok t (List.mem_cons_of_mem _ ht)) hfit.2)

end Closed

/-! ### Without a guard -/

/-- Any temporary mark. -/
def AnyTemp (_ : Os) (_ : Monitor) (_ : PathBuf) : Prop := True

theorem batch_any_temp : ∀ (raws : List DecodedEvent) (os : Nat → Os) (m : Monitor),
    BatchTemps AnyTemp os m raws := by
  intro raws
  induction raws with
  | nil => exact fun _ _ => trivial
  | cons raw raws ih => exact fun os m => ⟨fun _ _ _ _ => trivial, ih _ _⟩

theorem any_temps (m : Monitor) (s : Step) : Temps AnyTemp m s := by
  cases s with
  | inotify os events =>
      cases events with
      | none => exact trivial
      | some evs => exact fun _ => Run.Guarded.of_forall (fun _ _ => trivial) _ _
  | batch os events => exact batch_any_temp _ _ _
  | _ => exact trivial

end

end Fsmon.Monitor
