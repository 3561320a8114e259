/-
# `Fsmon.Lib.Run` — runs of a step function, and the guarded invariant rule

A system is a step function `step : σ → α → σ`; a run is a list of labels, and
`exec` replays it.  Nondeterminism (a failing call, a scheduler's choice, an
outcome of the environment) is carried by the labels, so every statement about
"every run" is a statement about every list.

`Guarded step ok s as` says that every step of the run meets `ok` in the state
it starts from.  The rules are

    inv_exec       a step lemma under the guard  ⟹  the invariant along the run
    rel_exec       a preorder that every guarded step goes up, a run goes up
    sim_exec       what a step of two systems keeps related, a run of both does
    frame_exec     what no step changes, no run changes
    guarded_congr  guards that agree under the invariant  ⟹  the same guarded runs
    exec_iff       a step keeps a property exactly under the guard  ⟹  a run does
    always_iff     the same for a property of every state of the run
    mem_exec_iff   what the steps append to a list, a run has appended at some step

Nothing here mentions a particular system.
-/
import Mathlib.Logic.Basic

namespace Fsmon.Run

variable {σ α : Type*}

/-- Replay a run. -/
def exec (step : σ → α → σ) (s : σ) (as : List α) : σ := as.foldl step s

/-- Every step of the run meets `ok` in the state it starts from. -/
def Guarded (step : σ → α → σ) (ok : σ → α → Prop) : σ → List α → Prop
  | _, [] => True
  | s, a :: as => ok s a ∧ Guarded step ok (step s a) as

section
variable {step : σ → α → σ} {ok : σ → α → Prop}

/-- A concrete run can be checked against its guard. -/
instance decidableGuarded [∀ s a, Decidable (ok s a)] :
    ∀ (s : σ) (as : List α), Decidable (Guarded step ok s as)
  | _, [] => isTrue trivial
  | s, a :: as => @instDecidableAnd _ _ _ (decidableGuarded (step s a) as)

@[simp] theorem exec_nil (s : σ) : exec step s [] = s := rfl

@[simp] theorem exec_cons (s : σ) (a : α) (as : List α) :
    exec step s (a :: as) = exec step (step s a) as := rfl

theorem exec_append (s : σ) (as bs : List α) :
    exec step s (as ++ bs) = exec step (exec step s as) bs := List.foldl_append ..

theorem guarded_append : ∀ (as bs : List α) (s : σ),
    Guarded step ok s (as ++ bs) ↔ Guarded step ok s as ∧ Guarded step ok (exec step s as) bs := by
  intro as
  induction as with
  | nil =>
      intro bs s
      simp [Guarded]
  | cons a as ih =>
      intro bs s
      simp only [List.cons_append, Guarded, exec_cons, ih bs, and_assoc]

/-- A guard that always holds guards every run. -/
theorem Guarded.of_forall (h : ∀ s a, ok s a) : ∀ (as : List α) (s : σ), Guarded step ok s as := by
  intro as
  induction as with
  | nil =>
      intro _
      exact trivial
  | cons a as ih =>
      intro s
      exact ⟨h s a, ih (step s a)⟩

/-- A guard on the labels alone. -/
theorem Guarded.of_mem {good : α → Prop} :
    ∀ {as : List α}, (∀ a ∈ as, good a) → ∀ s : σ, Guarded step (fun _ a => good a) s as := by
  intro as
  induction as with
  | nil =>
      intro _ _
      exact trivial
  | cons a as ih =>
      intro h s
      exact ⟨h a List.mem_cons_self, ih (fun b hb => h b (List.mem_cons_of_mem _ hb)) (step s a)⟩

/-- A prefix of a guarded run is guarded. -/
theorem Guarded.take {s : σ} {as : List α} (h : Guarded step ok s as) (n : Nat) :
    Guarded step ok s (as.take n) := by
  rw [← List.take_append_drop n as, guarded_append] at h
  exact h.1

/-- **The invariant rule.**  What one guarded step preserves, a guarded run preserves. -/
theorem inv_exec {Inv : σ → Prop} (hstep : ∀ s a, Inv s → ok s a → Inv (step s a)) :
    ∀ (as : List α) (s : σ), Inv s → Guarded step ok s as → Inv (exec step s as) := by
  intro as
  induction as with
  | nil =>
      intro _ hs _
      exact hs
  | cons a as ih =>
      intro s hs hg
      exact ih (step s a) (hstep s a hs hg.1) hg.2

/-- **The preorder rule.**  Where each guarded step goes up, a guarded run does. -/
theorem rel_exec {R : σ → σ → Prop} (hrefl : ∀ s, R s s) (htrans : ∀ {s t u}, R s t → R t u → R s u)
    (hstep : ∀ s a, ok s a → R s (step s a)) (as : List α) (s : σ) (hg : Guarded step ok s as) :
    R s (exec step s as) :=
  @inv_exec _ _ step ok (R s) (fun t a h hok => htrans h (hstep t a hok)) as s (hrefl s) hg

/-- As `rel_exec`, without a guard. -/
theorem rel_foldl {R : σ → σ → Prop} (hrefl : ∀ s, R s s) (htrans : ∀ {s t u}, R s t → R t u → R s u)
    (hstep : ∀ s a, R s (step s a)) (as : List α) (s : σ) : R s (as.foldl step s) :=
  @rel_exec _ _ step (fun _ _ => True) R hrefl htrans (fun t a _ => hstep t a) as s
    (Guarded.of_forall (fun _ _ => trivial) as s)

/-- Two guards that agree wherever the invariant holds guard the same runs. -/
theorem guarded_congr {ok' : σ → α → Prop} (Inv : σ → Prop) (hstep : ∀ s a, Inv s → Inv (step s a)) :
    ∀ (as : List α) (s : σ), Inv s → (∀ s, Inv s → ∀ a ∈ as, (ok s a ↔ ok' s a)) →
      (Guarded step ok s as ↔ Guarded step ok' s as) := by
  intro as
  induction as with
  | nil =>
      intro _ _ _
      exact Iff.rfl
  | cons a as ih =>
      intro s hs hok
      exact and_congr (hok s hs a List.mem_cons_self)
        (ih (step s a) (hstep s a hs) fun s hs b hb =>
          hok s hs b (List.mem_cons_of_mem _ hb))

/-- **The simulation rule.**  What one step of two systems keeps related, a run of both keeps related. -/
theorem sim_exec {τ : Type*} {step' : τ → α → τ} {R : σ → τ → Prop}
    (hstep : ∀ s t a, R s t → R (step s a) (step' t a)) :
    ∀ (as : List α) {s : σ} {t : τ}, R s t → R (exec step s as) (exec step' t as) := by
  intro as
  induction as with
  | nil =>
      intro _ _ h
      exact h
  | cons a as ih =>
      intro s t h
      exact ih (hstep s t a h)

/-- What no step changes, no run changes. -/
theorem frame_exec {β : Type*} {f : σ → β} (hstep : ∀ s a, f (step s a) = f s) :
    ∀ (as : List α) (s : σ), f (exec step s as) = f s := by
  intro as
  induction as with
  | nil =>
      intro _
      exact rfl
  | cons a as ih =>
      intro s
      exact (ih (step s a)).trans (hstep s a)

/-- What each step appends to a list, the run has appended at one of its steps. -/
theorem mem_exec_iff {β : Type*} {log : σ → List β} {adds : σ → α → List β}
    (hstep : ∀ s a, log (step s a) = log s ++ adds s a) : ∀ (as : List α) (s : σ) (b : β),
      b ∈ log (exec step s as) ↔
        b ∈ log s ∨ ∃ pre a post, as = pre ++ a :: post ∧ b ∈ adds (exec step s pre) a := by
  intro as
  induction as with
  | nil =>
      intro s b
      refine (or_iff_left ?_).symm
      rintro ⟨pre, a, post, h, _⟩
      cases pre <;> cases h
  | cons a as ih =>
      intro s b
      rw [exec_cons, ih, hstep, List.mem_append, or_assoc]
      refine or_congr_right ?_
      constructor
      · rintro (hfirst | ⟨pre, a', post, rfl, hlater⟩)
        · exact ⟨[], a, as, rfl, hfirst⟩
        · exact ⟨a :: pre, a', post, rfl, hlater⟩
      · rintro ⟨pre, a', post, h, hmem⟩
        cases pre with
        | nil =>
            obtain ⟨rfl, rfl⟩ := List.cons.inj h
            exact Or.inl hmem
        | cons a₀ pre =>
            obtain ⟨rfl, rfl⟩ := List.cons.inj h
            exact Or.inr ⟨pre, a', post, rfl, hmem⟩

/-- A property that a step establishes exactly if it was there and the guard is met: a broken guard
is never made up for. -/
theorem exec_iff {P Inv : σ → Prop} {given : σ → α → Prop}
    (hinv : ∀ s a, Inv s → given s a → Inv (step s a))
    (hstep : ∀ s a, Inv s → given s a → (P (step s a) ↔ P s ∧ ok s a)) :
    ∀ (as : List α) (s : σ), Inv s → Guarded step given s as →
      (P (exec step s as) ↔ P s ∧ Guarded step ok s as) := by
  intro as
  induction as with
  | nil =>
      intro s _ _
      exact (and_iff_left trivial).symm
  | cons a as ih =>
      intro s hs hg
      rw [exec_cons, ih (step s a) (hinv s a hs hg.1) hg.2, hstep s a hs hg.1, and_assoc, Guarded]

/-- A property that a step keeps exactly under the guard, where it holds before: it holds all along a run
exactly when the run is guarded. -/
theorem always_iff {P : σ → Prop} (hstep : ∀ s a, P s → (P (step s a) ↔ ok s a)) :
    ∀ (as : List α) (s : σ), P s → ((∀ n, P (exec step s (as.take n))) ↔ Guarded step ok s as) := by
  intro as
  induction as with
  | nil =>
      intro s hs
      exact iff_of_true (fun n => by rw [List.take_nil]; exact hs) trivial
  | cons a as ih =>
      intro s hs
      constructor
      · intro hall
        have hone : P (step s a) := hall 1
        exact ⟨(hstep s a hs).1 hone, (ih (step s a) hone).1 fun n => hall (n + 1)⟩
      · rintro ⟨hok, hrest⟩ n
        have hone := (hstep s a hs).2 hok
        cases n with
        | zero => exact hs
        | succ n => exact (ih (step s a) hone).2 hrest n

end

end Fsmon.Run
