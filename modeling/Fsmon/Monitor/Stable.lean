/-
# `Fsmon.Monitor.Stable` — properties of the entries along the daemon's runs

A property of the core that survives dropped entries, parked entries and calls
of `add_path` survives every step and so every run (`Stable.run`).  A call may
have to fit for that: `Calls` says of a step that each of its calls fits, in the
state and with the pending entries there are when it is made.  It is the guard of
the run.
-/
import Fsmon.Monitor.Daemon
import Fsmon.Lib.Run

namespace Fsmon.Monitor

section
variable [Sizefilter]

/-! ## Calls of add_path

Each of these says of every call of `add_path` an operation makes that it fits, in the state and
with the pending entries there are when it is made. -/

section Calls

variable (Fits : Os → Core → PathEntry → Prop)

/-- The calls of the loop in `check_pending`; what has not been tried yet is still pending. -/
def RetryCalls (os : Os) : List (PathBuf × PathEntry) → Monitor → List (PathBuf × PathEntry) → Prop
  | [], _, _ => True
  | e :: rest, m, still =>
      if os.exists e.1 = false then RetryCalls os rest m (still ++ [e])
      else
        Fits os (m.core.with_pending (still ++ rest)) e.2 ∧
          match m.add_path os e.2 with
          | .ok m' => RetryCalls os rest m' still
          | .error _ => RetryCalls os rest m (still ++ [e])

def CheckCalls (os : Os) (m : Monitor) : Prop :=
  RetryCalls Fits os m.inotify_state.pending_paths (m.with_pending []) []

/-- The call of an `Add`. -/
def SocketCalls (os : Os) (m : Monitor) : SocketCmd → Prop
  | .add path recursive types size track_cmd max_depth =>
      check_path_allowed path = none →
        Fits os (m.prepare_add os path (cmd_filter track_cmd)).core
          (add_request path recursive types size track_cmd max_depth)
  | .remove _ _ => True

/-- The calls of the first loop of a reload. -/
def ReloadCalls (os : Os) : List PathEntry → Monitor → Prop
  | [], _ => True
  | e :: rest, m => (e.path ∉ m.paths → Fits os m.core e) ∧ ReloadCalls os rest (m.reload_add os e)

/-- `handle_canonical_root_deleted`, up to its retry. -/
def root_gone (os : Os) (m : Monitor) (path : PathBuf) : Monitor :=
  let m₁ := m.try_remove os path
  let m₂ := m₁.with_pending (m₁.inotify_state.pending_paths ++ pending_of path (m.opts_for_path path))
  (m₂.setup_inotify_watches os).add_temp_parent_mark os path

theorem handle_canonical_root_deleted_eq (os : Os) (m : Monitor) (path : PathBuf) :
    m.handle_canonical_root_deleted os path = (m.root_gone os path).check_pending os := rfl

/-- `handle_event`, up to the root it says is gone. -/
def recorded (os : Os) (m : Monitor) (raw : DecodedEvent) : Monitor :=
  ((m.matching_opts_for_event raw.path).foldl (record_entry os raw)
    (if m.is_new_subdirectory os raw then (m.on_new_subdirectory os raw.path).1 else m, [])).1

/-- The unread records of an event have been counted. -/
def counted (m : Monitor) (raw : DecodedEvent) : Monitor :=
  if 0 < raw.unparsed then { m with metrics := m.metrics.inc_unparsed_info_records raw.unparsed }
  else m

def EventCalls (os : Os) (m : Monitor) (raw : DecodedEvent) : Prop :=
  raw.mask &&& FAN_Q_OVERFLOW = 0 → m.is_skipped raw = false →
    ∀ root, m.gone_root (mask_to_event_types raw.mask) raw.path = some root →
      CheckCalls Fits os (((m.counted raw).recorded os raw).root_gone os root)

def BatchCalls : (Nat → Os) → Monitor → List DecodedEvent → Prop
  | _, _, [] => True
  | os, m, raw :: rest =>
      EventCalls Fits (os 0) m raw ∧
        BatchCalls (fun i => os (i + 1)) (process_event (os 0) m raw).1 rest

def InotifyCalls (os : Os) (m : Monitor) : Option (List InotifyEvent) → Prop
  | none => CheckCalls Fits os m
  | some events =>
      (events.filterMap m.deleted_path ≠ [] →
          CheckCalls Fits os
            (((events.filterMap m.deleted_path).foldl (inotify_deleted os) m).setup_inotify_watches os)) ∧
        CheckCalls Fits os (events.foldl (inotify_created os) (m.after_deleted os events))

/-- The calls of a step. -/
def Calls (m : Monitor) : Step → Prop
  | .factory => True
  | .init _ => True
  | .tasks _ => True
  | .socket os cmd => SocketCalls Fits os m cmd
  | .reload os store => ∀ s, store = .ok s → ReloadCalls Fits os s.flatten m
  | .retry os => CheckCalls Fits os m
  | .inotify os events => m.inotify_state.inotify = true → InotifyCalls Fits os m events
  | .batch os events =>
      BatchCalls Fits os
        { m with metrics := m.metrics.inc_events_unresolved_rename (expand_renames events).2 }
        (expand_renames events).1

end Calls

/-! ## The run rule -/

/-- A property of the core that survives what steps do to it, if the calls of `add_path` fit. -/
structure Stable (Fits : Os → Core → PathEntry → Prop) (Inv : Core → Prop) : Prop where
  fewer : ∀ {c c' : Core}, Inv c → c'.monitored_entries.Sublist c.monitored_entries →
    c'.pending_paths.Sublist c.pending_paths → c'.log_dir = c.log_dir → Inv c'
  park : ∀ {c : Core} (path : PathBuf), Inv c → Inv (c.park path)
  added : ∀ {os : Os} {c c' : Core} {entry : PathEntry}, c.Rooted → Inv c → Fits os c entry →
    Core.Added os c entry c' → Inv c'

namespace Stable

variable {Fits : Os → Core → PathEntry → Prop} {Inv : Core → Prop}

/-- The core is rooted and has the property. -/
def Holds (Inv : Core → Prop) (c : Core) : Prop := c.Rooted ∧ Inv c

theorem of_fewer (h : Stable Fits Inv) {c c' : Core} (hc : Holds Inv c) (hf : Core.Fewer c c') :
    Holds Inv c' := ⟨hf.rooted hc.1, h.fewer hc.2 hf.entries hf.pending hf.log_dir⟩

omit [Sizefilter] in
theorem of_plan {m m' : Monitor} (hp : m'.plan = m.plan) (hm : Holds Inv m.core) :
    Holds Inv m'.core := by
  rw [core_of_plan hp]
  exact hm

theorem retry (h : Stable Fits Inv) (os : Os) : ∀ (es : List (PathBuf × PathEntry)) (m : Monitor)
    (still : List (PathBuf × PathEntry)), Holds Inv (m.core.with_pending (still ++ es)) →
    RetryCalls Fits os es m still →
    Holds Inv ((retry_pending os es m still).1.core.with_pending (retry_pending os es m still).2)
  | [], m, still, hc, _ => by
      rw [List.append_nil] at hc
      exact hc
  | e :: es, m, still, hc, hcalls => by
      have hskip : Holds Inv (m.core.with_pending ((still ++ [e]) ++ es)) := by
        rwa [List.append_assoc]
      rw [RetryCalls] at hcalls
      rw [retry_pending]
      split at hcalls
      · next hexists =>
          rw [if_pos hexists]
          exact h.retry os es m _ hskip hcalls
      · next hexists =>
          rw [if_neg hexists]
          obtain ⟨hfits, hrest⟩ := hcalls
          cases hadd : m.add_path os e.2 with
          | error msg =>
              simp only [hadd] at hrest ⊢
              exact h.retry os es m _ hskip hrest
          | ok m' =>
              simp only [hadd] at hrest ⊢
              refine h.retry os es m' still ?_ hrest
              -- the entry that is tried is no longer pending
              have htried : Holds Inv (m.core.with_pending (still ++ es)) := by
                refine ⟨hc.1, h.fewer hc.2 (.refl _) ?_ rfl⟩
                exact List.Sublist.append (.refl still) (List.sublist_cons_self e es)
              rcases (add_path_core hadd).with_pending (still ++ es) with hadded | heq
              · exact ⟨hadded.rooted htried.1, h.added htried.1 htried.2 hfits hadded⟩
              · rw [heq]
                exact htried

theorem check_pending (h : Stable Fits Inv) {os : Os} {m : Monitor} (hm : Holds Inv m.core)
    (hcalls : CheckCalls Fits os m) : Holds Inv (m.check_pending os).core := by
  rw [core, plan_check_pending]
  exact h.retry os _ _ [] hm hcalls

theorem add_path (h : Stable Fits Inv) {os : Os} {m m' : Monitor} {entry : PathEntry}
    (hm : Holds Inv m.core) (hfits : Fits os m.core entry) (hadd : m.add_path os entry = .ok m') :
    Holds Inv m'.core :=
  ⟨(add_path_core hadd).rooted hm.1, h.added hm.1 hm.2 hfits (add_path_core hadd)⟩

theorem socket (h : Stable Fits Inv) {os : Os} {m : Monitor} {cmd : SocketCmd}
    (hm : Holds Inv m.core) (hcalls : SocketCalls Fits os m cmd) :
    Holds Inv (m.handle_socket_cmd os cmd).2.core := by
  cases cmd with
  | add path recursive types size track_cmd max_depth =>
      rw [handle_socket_cmd]
      cases hallowed : check_path_allowed path with
      | some msg => exact hm
      | none =>
          have hprep := h.of_fewer hm (fewer_prepare_add os m path (cmd_filter track_cmd))
          simp only
          cases hadd : (m.prepare_add os path (cmd_filter track_cmd)).add_path os
              (add_request path recursive types size track_cmd max_depth) with
          | ok m' => exact h.add_path hprep (hcalls hallowed) hadd
          | error msg => exact hprep
  | remove path track_cmd =>
      rw [handle_socket_cmd]
      cases hr : m.remove_path os path track_cmd with
      | ok m' => exact h.of_fewer hm (fewer_remove_path hr)
      | error msg => exact hm

theorem reload (h : Stable Fits Inv) {os : Os} {m : Monitor} {store : Except Str Monitored}
    (hm : Holds Inv m.core) (hcalls : ∀ s, store = .ok s → ReloadCalls Fits os s.flatten m) :
    Holds Inv (m.reload_config os store).2.core := by
  have hadd : ∀ (es : List PathEntry) (m : Monitor), Holds Inv m.core → ReloadCalls Fits os es m →
      Holds Inv (es.foldl (reload_add os) m).core := by
    intro es
    induction es with
    | nil => exact fun m hm _ => hm
    | cons e es ih =>
        intro m hm hcalls
        refine ih _ ?_ hcalls.2
        rw [reload_add]
        split
        · exact hm
        · next hpath =>
            cases hadd : m.add_path os e with
            | ok m' => exact h.add_path hm (hcalls.1 hpath) hadd
            | error msg => exact hm
  have hremove : ∀ (flat : List PathEntry) (ps : List PathBuf) (m : Monitor), Holds Inv m.core →
      Holds Inv (ps.foldl (reload_remove os flat) m).core := by
    intro flat ps m hm
    refine List.foldlRecOn (motive := fun m : Monitor => Holds Inv m.core) ps _ hm ?_
    intro m hm p _
    rw [reload_remove]
    split
    · exact hm
    · exact h.of_fewer hm (fewer_try_remove os m p)
  cases store with
  | error e => exact hm
  | ok s => exact hremove _ _ _ (hadd _ _ hm (hcalls s rfl))

/-! ### The start -/

/-- The loop of `init_fanotify` over the roots: those that are left are still roots. -/
theorem init_paths (h : Stable Fits Inv) (os : Os) : ∀ (ps : List PathBuf) (m : Monitor),
    (∀ e ∈ m.monitored_entries, e.1 ∈ m.paths ∨ e.1 ∈ ps) → Inv m.core →
    Holds Inv (ps.foldl (init_path os) m).core := by
  intro ps
  induction ps with
  | nil =>
      intro m hr hm
      exact ⟨fun e he => (hr e he).resolve_right List.not_mem_nil, hm⟩
  | cons p ps ih =>
      intro m hr hm
      rw [List.foldl_cons, init_path]
      split
      · refine ih _ (fun e he => ?_) (h.fewer hm (.refl _) (.refl _) rfl)
        rcases hr e he with he | he
        · exact .inl (List.mem_append_left _ he)
        · rcases List.mem_cons.1 he with rfl | he
          · exact .inl (List.mem_append_right _ (List.mem_singleton_self _))
          · exact .inr he
      · refine ih _ (fun e he => ?_) (h.park p hm)
        obtain ⟨he, hne⟩ := List.mem_filter.1 he
        rcases hr e he with he | he
        · exact .inl he
        · rcases List.mem_cons.1 he with rfl | he
          · simp at hne
          · exact .inr he

theorem init_fanotify (h : Stable Fits Inv) {os : Os} {m m' : Monitor} (hm : Holds Inv m.core)
    (hinit : m.init_fanotify os = .ok m') : Holds Inv m'.core := by
  rw [init_fanotify_core hinit]
  exact h.init_paths os m.paths _ (fun e he => .inr (hm.1 e he))
    (h.fewer hm.2 (.refl _) (.refl _) rfl)

/-! ### Roots that are gone -/

/-- A root that has been removed and some of its entries, as pending ones. -/
theorem parked (h : Stable Fits Inv) (os : Os) {m m' : Monitor} (path : PathBuf)
    (hm : Holds Inv m.core) (hpaths : m'.core.paths = (m.try_remove os path).core.paths)
    (hentries : m'.core.monitored_entries = (m.try_remove os path).core.monitored_entries)
    (hpending : m'.core.pending_paths.Sublist (m.core.park path).pending_paths)
    (hlog : m'.core.log_dir = (m.try_remove os path).core.log_dir) : Holds Inv m'.core := by
  have hfewer := fewer_try_remove os m path
  refine ⟨fun e he => ?_, h.fewer (h.park path hm.2) ?_ hpending (hlog.trans hfewer.log_dir)⟩
  · rw [hpaths]
    exact hfewer.rooted hm.1 e (hentries ▸ he)
  · rw [hentries, (try_remove_core os m path).1]
    exact .refl _

theorem root_gone (h : Stable Fits Inv) (os : Os) {m : Monitor} (path : PathBuf)
    (hm : Holds Inv m.core) : Holds Inv (m.root_gone os path).core := by
  have hcore : (m.root_gone os path).core = ((m.try_remove os path).core.with_pending
      ((m.try_remove os path).core.pending_paths ++ pending_of path (m.opts_for_path path))) :=
    core_of_plan ((plan_add_temp_parent_mark ..).trans (plan_setup_inotify_watches ..))
  refine h.parked os path hm ?_ ?_ ?_ ?_
  · rw [hcore]
    rfl
  · rw [hcore]
    rfl
  · rw [hcore, (try_remove_core os m path).2]
    exact .refl _
  · rw [hcore]
    rfl

theorem paths_pushed (path : PathBuf) : ∀ (opts : List PathOptions) (m : Monitor),
    ∃ ps, (opts.foldl (push_pending path) m).core = m.core.with_pending ps ∧
      ps.Sublist (m.core.pending_paths ++ pending_of path opts) := by
  intro opts
  induction opts with
  | nil =>
      intro m
      exact ⟨m.core.pending_paths, rfl, by simp [pending_of]⟩
  | cons o opts ih =>
      intro m
      obtain ⟨ps, hcore, hsub⟩ := ih (push_pending path m o)
      rw [List.foldl_cons]
      have hcons : pending_of path (o :: opts) = (path, o.to_entry path) :: pending_of path opts := rfl
      rw [push_pending] at hcore hsub
      split at hcore
      · next hany =>
          rw [if_pos hany] at hsub
          refine ⟨ps, by rw [push_pending, if_pos hany, hcore], hsub.trans ?_⟩
          rw [hcons]
          exact List.Sublist.append (.refl _) (List.sublist_cons_self _ _)
      · next hany =>
          rw [if_neg hany] at hsub
          refine ⟨ps, by rw [push_pending, if_neg hany, hcore]; rfl, ?_⟩
          rw [hcons, List.append_cons]
          exact hsub

theorem inotify_deleted (h : Stable Fits Inv) (os : Os) {m : Monitor} (path : PathBuf)
    (hm : Holds Inv m.core) : Holds Inv (m.inotify_deleted os path).core := by
  obtain ⟨ps, hcore, hsub⟩ := paths_pushed path (m.opts_for_path path) (m.try_remove os path)
  have hdel : (m.inotify_deleted os path).core = (m.try_remove os path).core.with_pending ps := by
    rw [← hcore]
    exact core_of_plan (plan_add_temp_parent_mark ..)
  refine h.parked os path hm ?_ ?_ ?_ ?_
  · rw [hdel]
    rfl
  · rw [hdel]
    rfl
  · rw [hdel]
    rw [(try_remove_core os m path).2] at hsub
    exact hsub
  · rw [hdel]
    rfl

theorem inotify (h : Stable Fits Inv) {os : Os} {m : Monitor} {events : Option (List InotifyEvent)}
    (hm : Holds Inv m.core) (hcalls : m.inotify_state.inotify = true → InotifyCalls Fits os m events) :
    Holds Inv (m.handle_inotify_events os events).core := by
  have hdeleted : ∀ (ps : List PathBuf) (m : Monitor), Holds Inv m.core →
      Holds Inv (ps.foldl (Monitor.inotify_deleted os) m).core := by
    intro ps m hm
    refine List.foldlRecOn (motive := fun m : Monitor => Holds Inv m.core) ps _ hm ?_
    intro m hm p _
    exact h.inotify_deleted os p hm
  have hcreated : ∀ (evs : List InotifyEvent) (m : Monitor), Holds Inv m.core →
      Holds Inv (evs.foldl (inotify_created os) m).core := by
    intro evs m hm
    refine List.foldlRecOn (motive := fun m : Monitor => Holds Inv m.core) evs _ hm ?_
    intro m hm ev _
    rw [inotify_created]
    split
    · exact hm
    · rw [core_on_new_subdirectory]
      exact hm
  cases events with
  | none =>
      rw [handle_inotify_events]
      split
      · exact hm
      · next hinotify => exact h.check_pending hm (hcalls (by simpa using hinotify))
  | some evs =>
      rw [handle_inotify_events_eq]
      split
      · exact hm
      · next hinotify =>
          obtain ⟨hfirst, hlast⟩ := hcalls (by simpa using hinotify)
          refine h.check_pending (hcreated evs _ ?_) hlast
          rw [after_deleted]
          split
          · exact hdeleted _ m hm
          · next hne =>
              refine h.check_pending ?_ (hfirst hne)
              exact of_plan (plan_setup_inotify_watches ..) (hdeleted _ m hm)

/-! ### Batches -/

theorem recorded_core (os : Os) (m : Monitor) (raw : DecodedEvent) :
    (m.recorded os raw).core = m.core := by
  rw [recorded, core_of_plan (plan_foldl (plan_record_entry os raw) _ _)]
  split
  · exact core_on_new_subdirectory os m raw.path
  · rfl

omit [Sizefilter] in
theorem counted_core (m : Monitor) (raw : DecodedEvent) : (m.counted raw).core = m.core := by
  rw [counted]
  split <;> rfl

/-- What follows the counters, in one line. -/
theorem handle_event_eq (os : Os) (m : Monitor) (raw : DecodedEvent) :
    (handle_event os m raw).1 =
      if m.is_skipped raw then m
      else
        match m.gone_root (mask_to_event_types raw.mask) raw.path with
        | none => m.recorded os raw
        | some root => (m.recorded os raw).handle_canonical_root_deleted os root := by
  rw [handle_event]
  split
  · rfl
  · cases m.gone_root (mask_to_event_types raw.mask) raw.path with
    | none => rfl
    | some root => rfl

theorem event (h : Stable Fits Inv) {os : Os} {m : Monitor} {raw : DecodedEvent}
    (hm : Holds Inv m.core) (hcalls : EventCalls Fits os m raw) :
    Holds Inv (process_event os m raw).1.core := by
  rw [process_event]
  split
  · exact hm
  · next hmask =>
      have hskipped : (m.counted raw).is_skipped raw = m.is_skipped raw := by
        rw [counted]
        split <;> rfl
      have hgone : (m.counted raw).gone_root (mask_to_event_types raw.mask) raw.path
          = m.gone_root (mask_to_event_types raw.mask) raw.path := by
        rw [counted]
        split <;> rfl
      have hrec : Holds Inv ((m.counted raw).recorded os raw).core := by
        rw [recorded_core, counted_core]
        exact hm
      show Holds Inv (handle_event os (m.counted raw) raw).1.core
      rw [handle_event_eq, hskipped, hgone]
      split
      · rw [counted_core]
        exact hm
      · next hskip =>
          cases hroot : m.gone_root (mask_to_event_types raw.mask) raw.path with
          | none => exact hrec
          | some root =>
              simp only
              rw [handle_canonical_root_deleted_eq]
              exact h.check_pending (h.root_gone os root hrec)
                (hcalls (by simpa using hmask) (by simpa using hskip) root hroot)

theorem batch (h : Stable Fits Inv) : ∀ (raws : List DecodedEvent) (os : Nat → Os) (m : Monitor),
    Holds Inv m.core → BatchCalls Fits os m raws → Holds Inv (process_events os m raws).1.core
  | [], _, _, hm, _ => hm
  | _ :: raws, os, _, hm, hcalls =>
      h.batch raws (fun i => os (i + 1)) _ (h.event hm hcalls.1) hcalls.2

/-- **One step.** -/
theorem step (h : Stable Fits Inv) (m : Monitor) (s : Step) (hm : Holds Inv m.core)
    (hcalls : Calls Fits m s) : Holds Inv (m.step s).core := by
  cases s with
  | factory => exact hm
  | init os =>
      rw [Monitor.step]
      cases hi : m.init_fanotify os with
      | ok m' => exact h.init_fanotify hm hi
      | error e => exact hm
  | tasks os =>
      rw [Monitor.step, core_spawn_tasks]
      exact hm
  | socket os cmd => exact h.socket hm hcalls
  | reload os store => exact h.reload hm hcalls
  | retry os => exact h.check_pending hm hcalls
  | inotify os events => exact h.inotify hm hcalls
  | batch os events => exact h.batch _ os _ hm hcalls

/-- **A run** whose calls all fit keeps the property. -/
theorem run (h : Stable Fits Inv) (steps : List Step) (m : Monitor) (hm : Holds Inv m.core)
    (hcalls : Run.Guarded Monitor.step (Calls Fits) m steps) :
    Holds Inv (Run.exec Monitor.step m steps).core :=
  Run.inv_exec (fun m s hm hc => h.step m s hm hc) steps m hm hcalls

/-! ### Every run -/

/-- Any call. -/
def Any (_ : Os) (_ : Core) (_ : PathEntry) : Prop := True

theorem retry_any (os : Os) : ∀ (es : List (PathBuf × PathEntry)) (m : Monitor)
    (still : List (PathBuf × PathEntry)), RetryCalls Any os es m still := by
  intro es
  induction es with
  | nil =>
      intro _ _
      exact trivial
  | cons e es ih =>
      intro m still
      rw [RetryCalls]
      split
      · exact ih m _
      · refine ⟨trivial, ?_⟩
        split
        · exact ih _ still
        · exact ih m _

theorem reload_any (os : Os) : ∀ (es : List PathEntry) (m : Monitor), ReloadCalls Any os es m := by
  intro es
  induction es with
  | nil =>
      intro _
      exact trivial
  | cons _ es ih =>
      intro _
      exact ⟨fun _ => trivial, ih _⟩

theorem batch_any : ∀ (raws : List DecodedEvent) (os : Nat → Os) (m : Monitor), BatchCalls Any os m raws := by
  intro raws
  induction raws with
  | nil =>
      intro _ _
      exact trivial
  | cons _ raws ih =>
      intro _ _
      exact ⟨fun _ _ _ _ => retry_any _ _ _ _, ih _ _⟩

theorem calls_any (m : Monitor) (s : Step) : Calls Any m s := by
  cases s with
  | factory => trivial
  | init os => trivial
  | tasks os => trivial
  | socket os cmd =>
      cases cmd with
      | add path recursive types size track_cmd max_depth => exact fun _ => trivial
      | remove path track_cmd => trivial
  | reload os store => exact fun s _ => reload_any os s.flatten m
  | retry os => exact retry_any os _ _ _
  | inotify os events =>
      cases events with
      | none => exact fun _ => retry_any os _ _ _
      | some evs => exact fun _ => ⟨fun _ => retry_any os _ _ _, retry_any os _ _ _⟩
  | batch os events => exact batch_any _ os _

/-- **Any run** keeps a property that no call can break. -/
theorem run_any (h : Stable Any Inv) (steps : List Step) (m : Monitor) (hm : Holds Inv m.core) :
    Holds Inv (Run.exec Monitor.step m steps).core :=
  h.run steps m hm (.of_forall calls_any steps m)

end Stable

end

end Fsmon.Monitor
