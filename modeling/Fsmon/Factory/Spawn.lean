/-
# `Fsmon.Factory.Spawn` — the birth of the privileged child

`FanotifyFactory::spawn` forks; the child sheds the daemon's descriptors, ties its
life to the daemon's, and installs its filter before it says that it is ready.  The
daemon may die at any moment of this, and the daemon may give up waiting.

    own_descriptors    what the child keeps of the daemon's table
    Birth.step         the child, the daemon, and the daemon's death, in any order
    Birth.Sound        what each place of the child says of it
    own_descriptors_get, spawned_sealed, no_orphan
-/
import Fsmon.Lib.FdTable
import Fsmon.Lib.Run

namespace Fsmon.Factory

open FdTable

def FACTORY_SOCK_FD : Nat := 3
def FALLBACK_FD_LIMIT : Nat := 4096

section
variable {φ : Type}

/-- `close_fds_above`: one call, or a loop on kernels without it. -/
def close_fds_above (has_close_range : Bool) (keep : Nat) (t : FdTable φ) : FdTable φ :=
  if has_close_range then t.close_range (keep + 1)
  else t.close_all (List.range' (keep + 1) (FALLBACK_FD_LIMIT - (keep + 1)))

/-- What the child does to the table it inherits; `fds` are the ends of the socket pair. -/
def own_descriptors (has_close_range : Bool) (fds : Nat × Nat) (t : FdTable φ) : Option (FdTable φ) :=
  let t := t.close fds.1
  if fds.2 ≠ FACTORY_SOCK_FD then
    (t.dup2 fds.2 FACTORY_SOCK_FD).map fun t =>
      close_fds_above has_close_range FACTORY_SOCK_FD (t.close fds.2)
  else some (close_fds_above has_close_range FACTORY_SOCK_FD t)

/-- A descriptor beyond the reach of `close_fds_above`. -/
abbrev OutOfReach (has_close_range : Bool) (fd : Nat) : Prop := has_close_range = false ∧ FALLBACK_FD_LIMIT ≤ fd

theorem close_fds_above_get (has_close_range : Bool) (keep : Nat) (t : FdTable φ) (q : Nat) :
    (close_fds_above has_close_range keep t).get q =
      if keep < q ∧ ¬ OutOfReach has_close_range q then none else t.get q := by
  cases has_close_range with
  | true =>
      rw [close_fds_above, if_pos rfl, get_close_range]
      refine if_congr ⟨fun h => ⟨h, fun hout => ?_⟩, fun h => h.1⟩ rfl rfl
      cases hout.1
  | false =>
      rw [close_fds_above, if_neg Bool.false_ne_true, get_close_all]
      refine if_congr ?_ rfl rfl
      rw [List.mem_range'_1]
      constructor
      · intro h
        refine ⟨h.1, fun hout => ?_⟩
        have hlimit := hout.2
        omega
      · rintro ⟨hq, hreach⟩
        have hlimit : ¬ FALLBACK_FD_LIMIT ≤ q := fun hlimit => hreach ⟨rfl, hlimit⟩
        omega

/-- The child has its end of the socket pair on `FACTORY_SOCK_FD`, what the daemon had of the standard streams,
and nothing else; on a kernel without `close_range`, also what is out of reach. -/
theorem own_descriptors_get {has_close_range : Bool} {fds : Nat × Nat} {t : FdTable φ} {sock : φ}
    (hne : fds.1 ≠ fds.2) (hsock : t.get fds.2 = some sock) :
    ∃ t', own_descriptors has_close_range fds t = some t' ∧ ∀ q, t'.get q =
      if q = FACTORY_SOCK_FD then some sock
      else if q < FACTORY_SOCK_FD ∨ OutOfReach has_close_range q then
        if q = fds.1 ∨ q = fds.2 then none else t.get q
      else none := by
  have hopen : (t.close fds.1).get fds.2 = some sock := by
    rw [get_close, if_neg hne.symm]
    exact hsock
  rw [own_descriptors]
  by_cases hplace : fds.2 = FACTORY_SOCK_FD
  · rw [if_neg (not_not.2 hplace)]
    refine ⟨_, rfl, fun q => ?_⟩
    rw [close_fds_above_get]
    by_cases hq : q = FACTORY_SOCK_FD
    · rw [if_pos hq, if_neg (by omega), hq, ← hplace]
      exact hopen
    · rw [if_neg hq, get_close]
      by_cases hkept : q < FACTORY_SOCK_FD ∨ OutOfReach has_close_range q
      · rw [if_pos hkept, if_neg fun h => hkept.elim (fun hlt => by omega) h.2]
        refine if_congr ⟨.inl, fun h => h.resolve_right fun h => hq (h.trans hplace)⟩ rfl rfl
      · obtain ⟨hge, hreach⟩ := not_or.1 hkept
        rw [if_neg hkept, if_pos ⟨by omega, hreach⟩]
  · rw [if_pos hplace, FdTable.dup2, hopen]
    refine ⟨_, rfl, fun q => ?_⟩
    rw [close_fds_above_get]
    by_cases hq : q = FACTORY_SOCK_FD
    · rw [if_pos hq, if_neg (by omega), hq, get_close, if_neg (Ne.symm hplace), get_add, if_pos rfl]
    · rw [if_neg hq, get_close, get_add, if_neg hq, get_close]
      by_cases hkept : q < FACTORY_SOCK_FD ∨ OutOfReach has_close_range q
      · rw [if_pos hkept, if_neg fun h => hkept.elim (fun hlt => by omega) h.2]
        by_cases hsecond : q = fds.2
        · rw [if_pos hsecond, if_pos (.inr hsecond)]
        · rw [if_neg hsecond]
          exact if_congr ⟨.inl, fun h => h.resolve_right hsecond⟩ rfl rfl
      · obtain ⟨hge, hreach⟩ := not_or.1 hkept
        rw [if_neg hkept, if_pos ⟨by omega, hreach⟩]

/-- A daemon with a log on 3, the socket pair on 7 and 8, and a descriptor beyond the loop's reach. -/
def daemon_table : FdTable Nat := (((FdTable.mk ∅ 0).add 3 30).add 8 80).add 5000 50

theorem own_descriptors_get_daemon : ∃ t', own_descriptors false (7, 8) daemon_table = some t' ∧
    t'.get 3 = some 80 ∧ t'.get 8 = none ∧ t'.get 5000 = some 50 := by
  obtain ⟨t', hown, hget⟩ := @own_descriptors_get Nat false (7, 8) daemon_table 80 (by decide) (by decide)
  exact ⟨t', hown, hget 3, hget 8, hget 5000⟩

/-! ## The two processes -/

/-- Where the child is. -/
inductive ChildAt where
  /-- Just forked. -/
  | forked
  /-- Without the daemon's descriptors. -/
  | apart
  /-- `PR_SET_PDEATHSIG` is set. -/
  | bound
  /-- The parent was there. -/
  | checked
  /-- The filter is installed. -/
  | filtered
  /-- In the loop of `factory_child_main`. -/
  | serving
  /-- With a status, or killed. -/
  | exited (status : Option Nat)
  deriving DecidableEq

/-- Where the daemon is. -/
inductive ParentAt where
  | waiting
  /-- `spawn` has returned the handle. -/
  | spawned
  /-- `spawn` has killed the child and returned an error. -/
  | failed
  | dead
  deriving DecidableEq

structure Birth (φ : Type) where
  parent : ParentAt
  child : ChildAt
  /-- The child's descriptors. -/
  fds : FdTable φ
  pdeathsig : Bool
  filter : Bool
  /-- `READY_BYTE` is in the socket. -/
  ready : Bool

/-- What the calls of one step of the child return. -/
structure ChildCalls where
  dup2 : Bool
  no_new_privs : Bool
  seccomp : Bool
  sendmsg : Bool
  /-- The next request is not the end of the stream, nor an error. -/
  request : Bool

/-- The calls of a child that nothing hinders. -/
def ChildCalls.well : ChildCalls := ⟨true, true, true, true, true⟩

inductive BirthStep where
  | child (calls : ChildCalls)
  /-- The daemon looks for the byte, or gives up: a timeout, or a call that fails. -/
  | parent (gives_up : Bool)
  | parent_dies

/-- A step of the child. -/
def BirthStep.of_child : BirthStep → Bool
  | .child _ => true
  | _ => false

namespace Birth

variable (has_close_range : Bool) (fds : Nat × Nat)

def start (t : FdTable φ) : Birth φ := ⟨.waiting, .forked, t, false, false, false⟩

def child_step (b : Birth φ) (calls : ChildCalls) : Birth φ :=
  match b.child with
  | .forked =>
      if fds.2 ≠ FACTORY_SOCK_FD ∧ calls.dup2 = false then { b with child := .exited (some 102) }
      else
        match own_descriptors has_close_range fds b.fds with
        | none => { b with child := .exited (some 102) }
        -- `close_fds_above` does not fail, so there is no exit with status 103
        | some t => { b with child := .apart, fds := t }
  | .apart => { b with child := .bound, pdeathsig := true }
  | .bound =>
      -- `getppid() != parent_pid`
      if b.parent = .dead then { b with child := .exited (some 0) } else { b with child := .checked }
  | .checked =>
      if calls.no_new_privs && calls.seccomp then { b with child := .filtered, filter := true }
      else { b with child := .exited (some 101) }
  | .filtered => { b with child := .serving, ready := calls.sendmsg }
  | .serving => if calls.request then b else { b with child := .exited (some 0) }
  | .exited _ => b

/-- `SIGKILL`. -/
def kill (b : Birth φ) : Birth φ :=
  match b.child with
  | .exited _ => b
  | _ => { b with child := .exited none }

def parent_step (b : Birth φ) (gives_up : Bool) : Birth φ :=
  match b.parent with
  | .waiting =>
      if gives_up then { b.kill with parent := .failed }
      else if b.ready then { b with parent := .spawned, ready := false }
      else
        match b.child with
        -- the end of the stream instead of the byte
        | .exited _ => { b with parent := .failed }
        | _ => b
  | _ => b

def step (b : Birth φ) : BirthStep → Birth φ
  | .child calls => b.child_step has_close_range fds calls
  | .parent gives_up => b.parent_step gives_up
  | .parent_dies => if b.pdeathsig then { b.kill with parent := .dead } else { b with parent := .dead }

/-- What the child's place says. -/
def Placed (t : FdTable φ) (b : Birth φ) : Prop :=
  match b.child with
  | .forked => (b.parent = .waiting ∨ b.parent = .dead) ∧ b.filter = false ∧ b.ready = false ∧ b.fds = t
  | .apart =>
      (b.parent = .waiting ∨ b.parent = .dead) ∧ b.filter = false ∧ b.ready = false ∧
        own_descriptors has_close_range fds t = some b.fds
  | .bound =>
      (b.parent = .waiting ∨ b.parent = .dead) ∧ b.filter = false ∧ b.ready = false ∧ b.pdeathsig = true ∧
        own_descriptors has_close_range fds t = some b.fds
  | .checked =>
      b.parent = .waiting ∧ b.filter = false ∧ b.ready = false ∧ b.pdeathsig = true ∧
        own_descriptors has_close_range fds t = some b.fds
  | .filtered => b.parent = .waiting ∧ b.filter = true ∧ b.ready = false ∧ b.pdeathsig = true
  | .serving => (b.parent = .waiting ∨ b.parent = .spawned) ∧ b.filter = true ∧ b.pdeathsig = true
  | .exited _ => True

structure Sound (t : FdTable φ) (b : Birth φ) : Prop where
  placed : b.Placed has_close_range fds t
  ready : b.ready = true → b.filter = true
  spawned : b.parent = .spawned → b.filter = true
  descriptors : b.filter = true → own_descriptors has_close_range fds t = some b.fds
  failed : b.parent = .failed → ∃ status, b.child = .exited status

variable {has_close_range fds} {t : FdTable φ} {b : Birth φ}

/-- A child that is gone leaves nothing to say but of the filter. -/
theorem Sound.exit (h : b.Sound has_close_range fds t) (status : Option Nat) :
    Sound has_close_range fds t { b with child := .exited status } where
  placed := trivial
  ready := h.ready
  spawned := h.spawned
  descriptors := h.descriptors
  failed _ := ⟨status, rfl⟩

theorem Sound.child_step (h : b.Sound has_close_range fds t) (calls : ChildCalls) :
    (b.child_step has_close_range fds calls).Sound has_close_range fds t := by
  obtain ⟨parent, child, table, pdeathsig, filter, ready⟩ := b
  have hplaced := h.placed
  cases child with
  | forked =>
      obtain ⟨hparent, hfilter, hready, hfds⟩ := hplaced
      cases hfds
      rw [Birth.child_step]
      dsimp only
      split
      · exact h.exit (some 102)
      · split
        · exact h.exit (some 102)
        · rename_i hown
          refine ⟨⟨hparent, hfilter, hready, hown⟩, h.ready, h.spawned, fun hf => ?_, fun hp => ?_⟩
          · rw [show filter = false from hfilter] at hf
            cases hf
          · obtain ⟨status, hexit⟩ := h.failed hp
            cases hexit
  | apart =>
      obtain ⟨hparent, hfilter, hready, hown⟩ := hplaced
      refine ⟨⟨hparent, hfilter, hready, rfl, hown⟩, h.ready, h.spawned, h.descriptors, fun hp => ?_⟩
      obtain ⟨status, hexit⟩ := h.failed hp
      cases hexit
  | bound =>
      obtain ⟨hparent, hfilter, hready, hsig, hown⟩ := hplaced
      rw [Birth.child_step]
      dsimp only
      split
      · exact h.exit (some 0)
      · rename_i halive
        have hwaiting := hparent.resolve_right halive
        refine ⟨⟨hwaiting, hfilter, hready, hsig, hown⟩, h.ready, h.spawned, h.descriptors, fun hp => ?_⟩
        obtain ⟨status, hexit⟩ := h.failed hp
        cases hexit
  | checked =>
      obtain ⟨hparent, hfilter, hready, hsig, hown⟩ := hplaced
      rw [Birth.child_step]
      dsimp only
      split
      · refine ⟨⟨hparent, rfl, hready, hsig⟩, fun _ => rfl, fun _ => rfl, fun _ => hown, fun hp => ?_⟩
        obtain ⟨status, hexit⟩ := h.failed hp
        cases hexit
      · exact h.exit (some 101)
  | filtered =>
      obtain ⟨hparent, hfilter, hready, hsig⟩ := hplaced
      refine ⟨⟨.inl hparent, hfilter, hsig⟩, fun _ => hfilter, h.spawned, h.descriptors, fun hp => ?_⟩
      obtain ⟨status, hexit⟩ := h.failed hp
      cases hexit
  | serving =>
      rw [Birth.child_step]
      dsimp only
      split
      · exact h
      · exact h.exit (some 0)
  | exited status => exact h

theorem kill_exited (b : Birth φ) : ∃ status, b.kill.child = .exited status := by
  obtain ⟨parent, child, table, pdeathsig, filter, ready⟩ := b
  cases child with
  | exited status => exact ⟨status, rfl⟩
  | _ => exact ⟨none, rfl⟩

theorem Sound.kill (h : b.Sound has_close_range fds t) : b.kill.Sound has_close_range fds t := by
  obtain ⟨parent, child, table, pdeathsig, filter, ready⟩ := b
  cases child with
  | exited status => exact h
  | _ => exact h.exit none

/-- With the child gone, the daemon may be anywhere but in possession of it. -/
theorem Sound.leave (h : b.Sound has_close_range fds t) (hgone : ∃ status, b.child = .exited status)
    {parent : ParentAt} (hparent : parent ≠ .spawned) :
    Sound has_close_range fds t { b with parent } where
  placed := by
    obtain ⟨status, hexit⟩ := hgone
    rw [Placed]
    dsimp only
    rw [hexit]
    exact trivial
  ready := h.ready
  spawned hspawned := absurd hspawned hparent
  descriptors := h.descriptors
  failed _ := hgone

theorem Sound.parent_step (h : b.Sound has_close_range fds t) (gives_up : Bool) :
    (b.parent_step gives_up).Sound has_close_range fds t := by
  obtain ⟨parent, child, table, pdeathsig, filter, ready⟩ := b
  cases parent with
  | waiting =>
      rw [Birth.parent_step]
      dsimp only
      split
      · exact h.kill.leave (kill_exited _) (by decide)
      · split
        · rename_i hready
          cases hready
          have hfilter : filter = true := h.ready rfl
          refine ⟨?_, fun hr => (by cases hr), fun _ => hfilter, h.descriptors, fun hp => (by cases hp)⟩
          -- the byte is there: the child has sent it
          have hplaced := h.placed
          cases child with
          | forked => cases hplaced.2.2.1
          | apart => cases hplaced.2.2.1
          | bound => cases hplaced.2.2.1
          | checked => cases hplaced.2.2.1
          | filtered => cases hplaced.2.2.1
          | serving => exact ⟨.inr rfl, hplaced.2⟩
          | exited status => exact trivial
        · cases child with
          | exited status => exact h.leave ⟨status, rfl⟩ (by decide)
          | _ => exact h
  | spawned => exact h
  | failed => exact h
  | dead => exact h

theorem Sound.parent_dies (h : b.Sound has_close_range fds t) :
    (b.step has_close_range fds .parent_dies).Sound has_close_range fds t := by
  rw [Birth.step]
  split
  · exact h.kill.leave (kill_exited _) (by decide)
  · rename_i hsig
    obtain ⟨parent, child, table, pdeathsig, filter, ready⟩ := b
    have hplaced := h.placed
    refine ⟨?_, h.ready, fun hp => (by cases hp), h.descriptors, fun hp => (by cases hp)⟩
    cases child with
    | forked => exact ⟨.inr rfl, hplaced.2⟩
    | apart => exact ⟨.inr rfl, hplaced.2⟩
    | bound => exact absurd hplaced.2.2.2.1 hsig
    | checked => exact absurd hplaced.2.2.2.1 hsig
    | filtered => exact absurd hplaced.2.2.2 hsig
    | serving => exact absurd hplaced.2.2 hsig
    | exited status => exact trivial

variable (has_close_range fds)

theorem run_sound (t : FdTable φ) (run : List BirthStep) :
    (Run.exec (step has_close_range fds) (start t) run).Sound has_close_range fds t := by
  refine @Run.inv_exec _ _ (step has_close_range fds) (fun _ _ => True) (Sound has_close_range fds t)
    (fun b a h _ => ?_) run (start t) ?_ (Run.Guarded.of_forall (fun _ _ => trivial) run _)
  · cases a with
    | child calls => exact h.child_step calls
    | parent gives_up => exact h.parent_step gives_up
    | parent_dies => exact h.parent_dies
  · exact ⟨⟨.inl rfl, rfl, rfl, rfl⟩, fun hr => (by cases hr), fun hp => (by cases hp), fun hf => (by cases hf),
      fun hp => (by cases hp)⟩

/-- In every run: `spawn` returns a handle only to a child that has installed its filter and owns what
`own_descriptors` leaves it, and that is in its loop or gone; and an error only when the child is gone. -/
theorem spawned_sealed (t : FdTable φ) (run : List BirthStep) :
    let b := Run.exec (step has_close_range fds) (start t) run
    (b.parent = .spawned → b.filter = true ∧ own_descriptors has_close_range fds t = some b.fds ∧
      (b.child = .serving ∨ ∃ status, b.child = .exited status)) ∧
      (b.parent = .failed → ∃ status, b.child = .exited status) := by
  intro b
  have h : b.Sound has_close_range fds t := run_sound has_close_range fds t run
  refine ⟨fun hspawned => ⟨h.spawned hspawned, h.descriptors (h.spawned hspawned), ?_⟩, h.failed⟩
  have hplaced := h.placed
  have hfilter := h.spawned hspawned
  rw [Placed] at hplaced
  cases hchild : b.child with
  | serving => exact .inl rfl
  | exited status => exact .inr ⟨status, rfl⟩
  | forked =>
      rw [hchild, hfilter] at hplaced
      cases hplaced.2.1
  | apart =>
      rw [hchild, hfilter] at hplaced
      cases hplaced.2.1
  | bound =>
      rw [hchild, hfilter] at hplaced
      cases hplaced.2.1
  | checked =>
      rw [hchild, hspawned] at hplaced
      cases hplaced.1
  | filtered =>
      rw [hchild, hspawned] at hplaced
      cases hplaced.1

theorem spawned_sealed_ready :
    (Run.exec (step true (7, 8)) (start daemon_table)
      (List.replicate 5 (.child .well) ++ [.parent false])).filter = true :=
  ((spawned_sealed true (7, 8) daemon_table _).1 (by decide)).1

/-- How many steps of its own a child without a parent has left. -/
def steps_left : ChildAt → Nat
  | .forked => 3
  | .apart => 2
  | .bound => 1
  | _ => 0

/-- A child without a parent, before it looks for it. -/
structure Orphan (n : Nat) (b : Birth φ) : Prop where
  dead : b.parent = .dead
  early : (∃ status, b.child = .exited status) ∨
    ((b.child = .forked ∨ b.child = .apart ∨ b.child = .bound) ∧ steps_left b.child ≤ n)

theorem Orphan.step {n : Nat} (h : Orphan (n + 1) b) (calls : ChildCalls) :
    Orphan n (b.child_step has_close_range fds calls) := by
  obtain ⟨parent, child, table, pdeathsig, filter, ready⟩ := b
  obtain ⟨hdead, hearly⟩ := h
  cases hdead
  rcases hearly with ⟨status, hexit⟩ | ⟨hchild | hchild | hchild, hleft⟩
  · cases hexit
    exact ⟨rfl, .inl ⟨status, rfl⟩⟩
  · cases hchild
    rw [Birth.child_step]
    dsimp only
    split
    · exact ⟨rfl, .inl ⟨_, rfl⟩⟩
    · split
      · exact ⟨rfl, .inl ⟨_, rfl⟩⟩
      · exact ⟨rfl, .inr ⟨.inr (.inl rfl), Nat.le_of_succ_le_succ hleft⟩⟩
  · cases hchild
    exact ⟨rfl, .inr ⟨.inr (.inr rfl), Nat.le_of_succ_le_succ hleft⟩⟩
  · cases hchild
    exact ⟨rfl, .inl ⟨some 0, rfl⟩⟩

theorem Orphan.run {later : List BirthStep} : ∀ {b : Birth φ}, Orphan (later.countP BirthStep.of_child) b →
    ∃ status, (Run.exec (Birth.step has_close_range fds) b later).child = .exited status := by
  induction later with
  | nil =>
      intro b h
      rcases h.early with hexit | ⟨hchild | hchild | hchild, hleft⟩
      · exact hexit
      · rw [hchild] at hleft
        cases hleft
      · rw [hchild] at hleft
        cases hleft
      · rw [hchild] at hleft
        cases hleft
  | cons a later ih =>
      intro b h
      rw [Run.exec_cons]
      cases a with
      | child calls =>
          rw [List.countP_cons_of_pos rfl] at h
          exact ih (h.step has_close_range fds calls)
      | parent gives_up =>
          rw [List.countP_cons_of_neg Bool.false_ne_true] at h
          refine ih ?_
          have hsame : b.parent_step gives_up = b := by
            rw [Birth.parent_step, h.dead]
          rw [Birth.step, hsame]
          exact h
      | parent_dies =>
          rw [List.countP_cons_of_neg Bool.false_ne_true] at h
          refine ih ?_
          rw [Birth.step]
          split
          · exact ⟨rfl, .inl (kill_exited b)⟩
          · exact ⟨rfl, h.early⟩

/-- In every run: when the daemon is dead, the child is gone or has yet to look for its parent; it has no filter,
serves nothing, and is gone after at most three steps of its own. -/
theorem no_orphan (t : FdTable φ) (run later : List BirthStep)
    (hdead : (Run.exec (step has_close_range fds) (start t) run).parent = .dead) :
    ((∃ status, (Run.exec (step has_close_range fds) (start t) run).child = .exited status) ∨
      (Run.exec (step has_close_range fds) (start t) run).filter = false) ∧
      (3 ≤ later.countP BirthStep.of_child →
        ∃ status, (Run.exec (step has_close_range fds) (start t) (run ++ later)).child = .exited status) := by
  have h : (Run.exec (step has_close_range fds) (start t) run).Sound has_close_range fds t :=
    run_sound has_close_range fds t run
  rw [Run.exec_append]
  generalize Run.exec (step has_close_range fds) (start t) run = b at h hdead
  have hplaced := h.placed
  rw [Placed] at hplaced
  have horphan : (∃ status, b.child = .exited status) ∨
      ((b.child = .forked ∨ b.child = .apart ∨ b.child = .bound) ∧ b.filter = false) := by
    cases hchild : b.child with
    | exited status => exact .inl ⟨status, rfl⟩
    | forked =>
        rw [hchild] at hplaced
        exact .inr ⟨.inl rfl, hplaced.2.1⟩
    | apart =>
        rw [hchild] at hplaced
        exact .inr ⟨.inr (.inl rfl), hplaced.2.1⟩
    | bound =>
        rw [hchild] at hplaced
        exact .inr ⟨.inr (.inr rfl), hplaced.2.1⟩
    | checked =>
        rw [hchild, hdead] at hplaced
        cases hplaced.1
    | filtered =>
        rw [hchild, hdead] at hplaced
        cases hplaced.1
    | serving =>
        rw [hchild, hdead] at hplaced
        rcases hplaced.1 with hp | hp
        · cases hp
        · cases hp
  refine ⟨horphan.imp_right And.right, fun hlater => Orphan.run has_close_range fds ⟨hdead, ?_⟩⟩
  refine horphan.imp_right fun hearly => ⟨hearly.1, Nat.le_trans ?_ hlater⟩
  rcases hearly.1 with hchild | hchild | hchild
  · rw [hchild]
    decide
  · rw [hchild]
    decide
  · rw [hchild]
    decide

theorem no_orphan_forked : ∃ status,
    (Run.exec (step true (7, 8)) (start daemon_table)
      ([.child .well, .parent_dies] ++ List.replicate 3 (.child .well))).child = .exited status :=
  (no_orphan true (7, 8) daemon_table [.child .well, .parent_dies] _ (by decide)).2 (by decide)

end Birth

end

end Fsmon.Factory
