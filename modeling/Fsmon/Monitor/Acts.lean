/-
# `Fsmon.Monitor.Acts` — the daemon's steps as runs of acts on marks

An `Act` is one call that can change roots, entries, groups or marks, or anything else
that leaves them alone.  Every step the daemon takes after its start is a run of acts
(`run_acts`).  `act` keeps, beside the state, the demands: what each entry asked for
when it was added, a history variable.

An act that fits keeps the demands covered (`covered_act`), and so does a run of them.
-/
import Fsmon.Monitor.Closed

namespace Fsmon.Monitor

inductive Act where
  | add (os : Os) (entry : PathEntry)
  | remove (os : Os) (path : PathBuf) (cmd : Option String)
  /-- `Add` drops the pair it is about first. -/
  | retain (path : PathBuf) (cmd : Option String)
  | temp (os : Os) (target : PathBuf)
  | untemp (os : Os) (target : PathBuf)
  | subdir (os : Os) (path : PathBuf)
  /-- Anything else: the state after it. -/
  | other (m : Monitor)

section
variable [Sizefilter]

/-- One act; a call that fails leaves the state as it is. -/
def perform (m : Monitor) : Act → Monitor
  | .add os entry =>
      match m.add_path os entry with
      | .ok m' => m'
      | .error _ => m
  | .remove os path cmd => m.removed os path cmd
  | .retain path cmd => m.retain_others path cmd
  | .temp os target => m.add_temp_parent_mark os target
  | .untemp os target => m.remove_temp_parent_mark os target
  | .subdir os path => (m.on_new_subdirectory os path).1
  | .other m' => m'

/-- An act on such a system; anything else leaves roots, entries, groups, readers and marks alone. -/
def Apart (Ok : Os → Prop) (m : Monitor) : Act → Prop
  | .add os _ | .remove os _ _ | .temp os _ | .untemp os _ | .subdir os _ => Ok os
  | .retain _ _ => True
  | .other m' => m'.view = m.view ∧ m'.ledger = m.ledger

/-! ## Steps are runs of acts -/

/-- A run of acts on such systems leads from one state to the other. -/
def Through (Ok : Os → Prop) (m m' : Monitor) : Prop :=
  ∃ acts, Run.exec perform m acts = m' ∧ Run.Guarded perform (Apart Ok) m acts

namespace Through

variable {Ok : Os → Prop} {m m' m'' : Monitor}

theorem refl (m : Monitor) : Through Ok m m := ⟨[], rfl, trivial⟩

theorem trans (h : Through Ok m m') (h' : Through Ok m' m'') : Through Ok m m'' := by
  obtain ⟨acts, rfl, hapart⟩ := h
  obtain ⟨acts', rfl, hapart'⟩ := h'
  exact ⟨acts ++ acts', Run.exec_append .., (Run.guarded_append ..).2 ⟨hapart, hapart'⟩⟩

theorem other (h : m'.view = m.view) (h' : m'.ledger = m.ledger) : Through Ok m m' :=
  ⟨[.other m'], rfl, ⟨h, h'⟩, trivial⟩

/-- Every call is an act. -/
theorem closed : Closed Ok AnyTemp (Through Ok) where
  trans := trans
  add {os m m' entry} hok h := by
    refine ⟨[.add os entry], ?_, hok, trivial⟩
    rw [Run.exec_cons, Run.exec_nil, perform, h]
  remove {os m m' path cmd} hok h := by
    refine ⟨[.remove os path cmd], ?_, hok, trivial⟩
    rw [Run.exec_cons, Run.exec_nil, perform, removed, h]
  retain m path cmd := ⟨[.retain path cmd], rfl, trivial, trivial⟩
  temp {os m target} hok _ := ⟨[.temp os target], rfl, hok, trivial⟩
  untemp {os} m target hok := ⟨[.untemp os target], rfl, hok, trivial⟩
  subdir {os} m path hok := ⟨[.subdir os path], rfl, hok, trivial⟩
  other h := other h.view h.ledger

theorem event {os : Os} (hok : Ok os) (m : Monitor) (raw : DecodedEvent) :
    Through Ok m (process_event os m raw).1 := closed.event hok m raw fun _ _ _ _ => trivial

/-- **Each run of a daemon that is running is a run of acts.** -/
theorem run (steps : List Step) (m : Monitor) (h : ∀ s ∈ steps, Running s) (hok : ∀ s ∈ steps, s.On Ok) :
    Through Ok m (Run.exec step m steps) :=
  closed.run steps m h hok (Run.Guarded.of_forall any_temps steps m)

end Through

/-! ## Demands -/

/-- The demands after an act: an entry that is added asks for what is there. -/
def track (m : Monitor) (ds : List Demand) : Act → List Demand
  | .add os entry =>
      ds ++ ((m.perform (.add os entry)).monitored_entries.drop m.monitored_entries.length).map
        (Demand.of os)
  | .remove _ path cmd => ds.filter fun d => keeps path cmd d.entry
  | .retain path cmd => ds.filter fun d => !(d.path = path && d.opts.cmd = cmd)
  | _ => ds

/-- One act, with the demands. -/
def act (s : Monitor × List Demand) (a : Act) : Monitor × List Demand :=
  (s.1.perform a, s.1.track s.2 a)

theorem exec_act_fst (acts : List Act) (s : Monitor × List Demand) :
    (Run.exec act s acts).1 = Run.exec perform s.1 acts :=
  Run.sim_exec (R := fun (s : Monitor × List Demand) m => s.1 = m) (fun _ _ a h => congrArg (perform · a) h) acts rfl

/-- **A run of the daemon, once it is started, is a run of acts.** -/
theorem run_acts (steps : List Step) (s : Monitor × List Demand) (h : ∀ t ∈ steps, Running t) :
    ∃ acts, (Run.exec act s acts).1 = Run.exec step s.1 steps ∧
      Run.Guarded perform (Apart AnyOs) s.1 acts := by
  obtain ⟨acts, hacts, hapart⟩ := Through.run steps s.1 h fun t _ => t.on_any
  exact ⟨acts, (exec_act_fst acts s).trans hacts, hapart⟩

end

end Fsmon.Monitor
