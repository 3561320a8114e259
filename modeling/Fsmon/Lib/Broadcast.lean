/-
# `Fsmon.Lib.Broadcast` — a ring of the last values, and cursors that may lag

One sender and any number of receivers.  The ring has a cell for each position
modulo its size, and a value overwrites the one that was sent a round before.  A
receiver is a position: it takes the value there, waits if nothing has been sent
there, and if the value has been overwritten it is told how many it has missed and
goes on at the oldest one the ring still has.

    RingBuffer.recv      one look at the ring, by the position that stands in the cell
    recv_log       the same by the list of all that was ever sent
    Holds          the ring has the last values of that list
    recv_eq        under `Holds` the two agree
    Accounts       what a receiver has been told covers what was sent, in order
-/
import Mathlib.Data.List.Basic
import Mathlib.Data.Int.ModEq
import Mathlib.Algebra.BigOperators.Group.List.Basic

namespace Fsmon.Broadcast

variable {α : Type*}

/-- The cells, each with the position of its value, and the next position. -/
structure RingBuffer (α : Type*) where
  cells : List (Option (Nat × α))
  pos : Nat

/-- What a receiver gets. -/
inductive Got (α : Type*) where
  | value (a : α)
  /-- So many values have been overwritten. -/
  | lagged (n : Nat)
  /-- Nothing has been sent yet. -/
  | empty

namespace RingBuffer

def new (size : Nat) : RingBuffer α := ⟨List.replicate size none, 0⟩

def size (r : RingBuffer α) : Nat := r.cells.length

def send (r : RingBuffer α) (a : α) : RingBuffer α :=
  ⟨r.cells.set (r.pos % r.size) (some (r.pos, a)), r.pos + 1⟩

/-- Look at the cell of a position; and the position to look at next. -/
def recv (r : RingBuffer α) (next : Nat) : Got α × Nat :=
  match r.cells[next % r.size]?.join with
  | none => (.empty, next)
  | some (p, a) =>
      if p = next then (.value a, next + 1)
      else if p + r.size = next then (.empty, next)
      else (.lagged (r.pos - r.size - next), r.pos - r.size)

end RingBuffer

/-- What a receiver gets of all that was sent, when the last `size` values are kept. -/
def recv_log (size : Nat) (sent : List α) (next : Nat) : Got α × Nat :=
  match sent[next]? with
  | none => (.empty, next)
  | some a =>
      if sent.length ≤ next + size then (.value a, next + 1)
      else (.lagged (sent.length - size - next), sent.length - size)

/-! ## The ring has the last values -/

structure Holds (r : RingBuffer α) (sent : List α) : Prop where
  pos : r.pos = sent.length
  /-- A value that is not a round old is in its cell. -/
  kept : ∀ p a, sent[p]? = some a → sent.length ≤ p + r.size → r.cells[p % r.size]? = some (some (p, a))
  /-- What is in a cell is such a value. -/
  last : ∀ k p a, r.cells[k]? = some (some (p, a)) → p < sent.length ∧ sent.length ≤ p + r.size ∧ p % r.size = k

theorem holds_new (size : Nat) : Holds (.new size) ([] : List α) where
  pos := rfl
  kept p a h := by simp at h
  last k p a h := by simp [RingBuffer.new, List.getElem?_replicate] at h

/-- Two positions of one cell are a round apart. -/
theorem round_le {p q size : Nat} (h : p % size = q % size) (hlt : p < q) : p + size ≤ q := by
  have hdvd : size ∣ q - p := (Nat.modEq_iff_dvd' hlt.le).1 h
  have hle := Nat.le_of_dvd (by omega) hdvd
  omega

theorem Holds.send {r : RingBuffer α} {sent : List α} (h : Holds r sent) (hsize : 0 < r.size) (a : α) :
    Holds (r.send a) (sent ++ [a]) where
  pos := by simp [RingBuffer.send, h.pos]
  kept := by
    intro p b hp hlen
    have hsame : (r.send a).size = r.size := List.length_set
    rw [List.length_append, List.length_singleton, hsame] at hlen
    rw [hsame]
    have hcell : r.pos % r.size < r.cells.length := Nat.mod_lt _ hsize
    rcases Nat.lt_trichotomy p sent.length with hlt | rfl | hgt
    · have hne : r.pos % r.size ≠ p % r.size := by
        intro heq
        have hround := round_le (heq.symm.trans (congrArg (· % r.size) h.pos)) hlt
        omega
      rw [List.getElem?_append_left hlt] at hp
      rw [RingBuffer.send, List.getElem?_set_ne hne]
      exact h.kept p b hp (by omega)
    · rw [List.getElem?_concat_length, Option.some.injEq] at hp
      rw [← h.pos, RingBuffer.send, List.getElem?_set_self hcell, hp]
    · rw [List.getElem?_eq_none (by simp; omega)] at hp
      cases hp
  last := by
    intro k p b hk
    have hsame : (r.send a).size = r.size := List.length_set
    rw [hsame, List.length_append, List.length_singleton]
    rw [RingBuffer.send, List.getElem?_set] at hk
    split at hk
    · rename_i hpos
      split at hk
      · simp only [Option.some.injEq, Prod.mk.injEq] at hk
        obtain ⟨rfl, -⟩ := hk
        have := h.pos
        exact ⟨by omega, by omega, hpos⟩
      · cases hk
    · rename_i hne
      obtain ⟨hlt, hlen, hmod⟩ := h.last k p b hk
      refine ⟨by omega, ?_, hmod⟩
      by_contra hover
      have heq : p + r.size = r.pos := by
        have := h.pos
        omega
      rw [← heq, Nat.add_mod_right] at hne
      exact hne hmod

@[simp] theorem size_send (r : RingBuffer α) (a : α) : (r.send a).size = r.size := List.length_set

/-- **A look at the ring is a look at all that was sent.** -/
theorem recv_eq {r : RingBuffer α} {sent : List α} (h : Holds r sent) (hsize : 0 < r.size) {next : Nat}
    (hnext : next ≤ sent.length) : r.recv next = recv_log r.size sent next := by
  have hpos := h.pos
  have hcell : next % r.size < r.cells.length := Nat.mod_lt _ hsize
  rw [recv_log, RingBuffer.recv]
  rcases hnext.lt_or_eq with hlt | heq
  · have hget := List.getElem?_eq_getElem hlt
    rw [hget]
    dsimp only
    by_cases hkept : sent.length ≤ next + r.size
    · rw [h.kept next _ hget hkept, if_pos hkept]
      simp
    · rw [if_neg hkept]
      -- the cell has the value of a later round
      obtain ⟨q, hq, hmod⟩ : ∃ q, (q < sent.length ∧ sent.length ≤ q + r.size) ∧ q % r.size = next % r.size := by
        refine ⟨next + r.size * ((sent.length - 1 - next) / r.size), ⟨?_, ?_⟩, Nat.add_mul_mod_self_left ..⟩
        · have := Nat.mul_div_le (sent.length - 1 - next) r.size
          omega
        · have := Nat.lt_mul_div_succ (sent.length - 1 - next) hsize
          rw [Nat.mul_add, Nat.mul_one] at this
          omega
      have hcellq := h.kept q _ (List.getElem?_eq_getElem hq.1) hq.2
      rw [hmod] at hcellq
      rw [hcellq]
      have hne : q ≠ next := by omega
      have hne' : q + r.size ≠ next := by omega
      simp [hne, hne', hpos]
  · rw [List.getElem?_eq_none heq.ge]
    cases hc : r.cells[next % r.size]?.join with
    | none => rfl
    | some c =>
        obtain ⟨p, a⟩ := c
        have hsome : r.cells[next % r.size]? = some (some (p, a)) := Option.join_eq_some_iff.1 hc
        obtain ⟨hp, hlen, hmod⟩ := h.last _ p a hsome
        have hround := round_le hmod (heq ▸ hp)
        have hne : p ≠ next := by omega
        have heq' : p + r.size = next := by omega
        simp [hne, heq']

/-! ## Accounts -/

/-- What a receiver has been told, one thing after the other, covers the values: each is there, or among
so many that were missed. -/
inductive Accounts : List α → List (Got α) → Prop
  | nil : Accounts [] []
  | value {as : List α} {gs : List (Got α)} (a : α) (h : Accounts as gs) : Accounts (a :: as) (.value a :: gs)
  | lagged {as : List α} {gs : List (Got α)} (missed : List α) (hne : missed ≠ []) (h : Accounts as gs) :
      Accounts (missed ++ as) (.lagged missed.length :: gs)

def Got.value? : Got α → Option α
  | .value a => some a
  | _ => none

def Got.missed : Got α → Nat
  | .lagged n => n
  | _ => 0

namespace Accounts

theorem append {as bs : List α} {gs hs : List (Got α)} (hg : Accounts as gs) (hh : Accounts bs hs) :
    Accounts (as ++ bs) (gs ++ hs) := by
  induction hg with
  | nil => exact hh
  | value a _ ih => exact .value a ih
  | lagged missed hne _ ih =>
      rw [List.append_assoc]
      exact .lagged missed hne ih

/-- The values it has been given are some of these, in this order. -/
theorem sublist {as : List α} {gs : List (Got α)} (h : Accounts as gs) : (gs.filterMap Got.value?).Sublist as := by
  induction h with
  | nil => exact .slnil
  | value a _ ih => exact ih.cons_cons a
  | lagged missed _ _ ih => exact ih.trans (List.sublist_append_right ..)

/-- No value is unaccounted for. -/
theorem length {as : List α} {gs : List (Got α)} (h : Accounts as gs) :
    (gs.filterMap Got.value?).length + (gs.map Got.missed).sum = as.length := by
  induction h with
  | nil => rfl
  | value a _ ih =>
      simp only [List.filterMap_cons, Got.value?, List.length_cons, List.map_cons, List.sum_cons, Got.missed]
      omega
  | lagged missed _ _ ih =>
      simp only [List.filterMap_cons, Got.value?, List.map_cons, List.sum_cons, Got.missed,
        List.length_append]
      omega

end Accounts

/-- What a look accounts for: the values from the one position to the next. -/
theorem accounts_recv_log (size : Nat) {sent : List α} {next : Nat}
    (hnext : next ≤ sent.length) :
    next ≤ (recv_log size sent next).2 ∧ (recv_log size sent next).2 ≤ sent.length ∧
      (((recv_log size sent next).1 = .empty ∧ next = sent.length ∧ (recv_log size sent next).2 = next) ∨
        (next < (recv_log size sent next).2 ∧
        Accounts ((sent.take (recv_log size sent next).2).drop next) [(recv_log size sent next).1])) := by
  rw [recv_log]
  cases hget : sent[next]? with
  | none =>
      have hlen := List.getElem?_eq_none_iff.1 hget
      exact ⟨le_rfl, hnext, Or.inl ⟨rfl, by omega, rfl⟩⟩
  | some a =>
      obtain ⟨hlt, ha⟩ := List.getElem?_eq_some_iff.1 hget
      dsimp only
      split
      · refine ⟨Nat.le_succ _, hlt, Or.inr ⟨Nat.lt_succ_self _, ?_⟩⟩
        have hone : (sent.take (next + 1)).drop next = [a] := by
          rw [List.take_add_one, List.drop_append_of_le_length (by simp; omega), hget]
          simp
        rw [hone]
        exact .value a .nil
      · rename_i hold
        refine ⟨by omega, Nat.sub_le .., Or.inr ⟨by omega, ?_⟩⟩
        have hlength : ((sent.take (sent.length - size)).drop next).length = sent.length - size - next := by
          simp
        have hne : (sent.take (sent.length - size)).drop next ≠ [] := by
          intro hnil
          rw [hnil, List.length_nil] at hlength
          omega
        have haccount := Accounts.lagged _ hne Accounts.nil
        rw [List.append_nil, hlength] at haccount
        exact haccount

end Fsmon.Broadcast
