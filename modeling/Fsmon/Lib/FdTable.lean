/-
# `Fsmon.Lib.FdTable` — a process's descriptors

What is open, and what each descriptor refers to.  A new descriptor gets a number
that is free; which one is left open (`Numbering`).  A close of a number that is not
open is counted.

    install     descriptors for some files, in order
    close_all   closes, in order
    close_all_install   closing what has just been installed leaves the table as it was:
                nothing stays open, nothing else is closed, nothing is closed twice

Nothing here mentions a particular program.
-/
import Fsmon.Lib.HashMap

namespace Fsmon

/-- The open descriptors of a process. -/
structure FdTable (φ : Type) where
  opened : HashMap Nat φ
  /-- How many closes there were of numbers that were not open. -/
  ebadf : Nat
  deriving DecidableEq

/-- The number of the next descriptor: one that is free. -/
structure Numbering (φ : Type) where
  unused : HashMap Nat φ → Nat
  free : ∀ t : HashMap Nat φ, t.lookup (unused t) = none

namespace FdTable

variable {φ : Type}

def get (t : FdTable φ) (fd : Nat) : Option φ := t.opened.lookup fd

def add (t : FdTable φ) (fd : Nat) (file : φ) : FdTable φ := { t with opened := t.opened.insert fd file }

/-- `close(2)`. -/
def close (t : FdTable φ) (fd : Nat) : FdTable φ :=
  match t.opened.lookup fd with
  | some _ => { t with opened := t.opened.erase fd }
  | none => { t with ebadf := t.ebadf + 1 }

def close_all (t : FdTable φ) (fds : List Nat) : FdTable φ := fds.foldl close t

/-- New descriptors for some files, and their numbers. -/
def install (k : Numbering φ) : FdTable φ → List φ → List Nat × FdTable φ
  | t, [] => ([], t)
  | t, file :: files =>
      let fd := k.unused t.opened
      let (fds, t') := install k (t.add fd file) files
      (fd :: fds, t')

theorem get_add (t : FdTable φ) (fd : Nat) (file : φ) (q : Nat) :
    (t.add fd file).get q = if q = fd then some file else t.get q := HashMap.lookup_insert' ..

theorem get_unused (k : Numbering φ) (t : FdTable φ) : t.get (k.unused t.opened) = none := k.free t.opened

/-! ## Closing -/

/-- A new descriptor is closed. -/
theorem close_add {t : FdTable φ} {fd : Nat} (h : t.get fd = none) (file : φ) :
    (t.add fd file).close fd = t := by
  have hkey : fd ∉ t.opened.entries.keys := AList.lookup_eq_none.1 h
  have herase : (t.opened.insert fd file).erase fd = t.opened := by
    refine AList.ext ?_
    show (t.opened.insert fd file).entries.kerase fd = _
    rw [AList.entries_insert, List.kerase_of_notMem_keys hkey]
    exact List.kerase_cons_eq rfl
  rw [close, add, AList.lookup_insert]
  show FdTable.mk ((t.opened.insert fd file).erase fd) t.ebadf = t
  rw [herase]

/-- The order of two closes does not matter. -/
theorem close_comm (t : FdTable φ) (a b : Nat) : (t.close a).close b = (t.close b).close a := by
  by_cases hab : a = b
  · rw [hab]
  have hother : ∀ {p q : Nat}, p ≠ q → (t.opened.erase p).lookup q = t.opened.lookup q := by
    intro p q hpq
    exact AList.lookup_erase_ne (Ne.symm hpq)
  cases ha : t.opened.lookup a with
  | none =>
      cases hb : t.opened.lookup b with
      | none => simp only [close, ha, hb]
      | some v => simp only [close, ha, hb, hother (Ne.symm hab)]
  | some u =>
      cases hb : t.opened.lookup b with
      | none => simp only [close, ha, hb, hother hab]
      | some v => simp only [close, ha, hb, hother hab, hother (Ne.symm hab), AList.erase_erase]

theorem close_all_close : ∀ (fds : List Nat) (t : FdTable φ) (a : Nat),
    (t.close a).close_all fds = (t.close_all fds).close a := by
  intro fds
  induction fds with
  | nil =>
      intro t a
      rfl
  | cons fd fds ih =>
      intro t a
      show ((t.close a).close fd).close_all fds = ((t.close fd).close_all fds).close a
      rw [close_comm, ih]

/-- **What is installed and closed again** leaves no trace. -/
theorem close_all_install (k : Numbering φ) : ∀ (files : List φ) (t : FdTable φ),
    (t.install k files).2.close_all (t.install k files).1 = t := by
  intro files
  induction files with
  | nil =>
      intro t
      rfl
  | cons file files ih =>
      intro t
      have hrest := ih (t.add (k.unused t.opened) file)
      show ((install k _ files).2.close _).close_all (install k _ files).1 = t
      rw [close_all_close, hrest]
      exact close_add (get_unused k t) file

theorem get_close (t : FdTable φ) (fd q : Nat) : (t.close fd).get q = if q = fd then none else t.get q := by
  cases hfd : t.opened.lookup fd with
  | none =>
      simp only [close, hfd]
      split
      · rename_i hq
        rw [hq]
        exact hfd
      · rfl
  | some file =>
      simp only [close, hfd]
      exact HashMap.lookup_erase' ..

theorem get_close_all : ∀ (fds : List Nat) (t : FdTable φ) (q : Nat),
    (t.close_all fds).get q = if q ∈ fds then none else t.get q := by
  intro fds
  induction fds with
  | nil =>
      intro t q
      rfl
  | cons fd fds ih =>
      intro t q
      show ((t.close fd).close_all fds).get q = _
      rw [ih, get_close]
      by_cases hq : q = fd
      · rw [if_pos hq, ite_self, if_pos (List.mem_cons.2 (.inl hq))]
      · rw [if_neg hq]
        by_cases hmem : q ∈ fds
        · rw [if_pos hmem, if_pos (List.mem_cons_of_mem _ hmem)]
        · rw [if_neg hmem, if_neg fun h => hmem ((List.mem_cons.1 h).resolve_left hq)]

/-- `dup2(2)`; `none` if there is nothing to duplicate. -/
def dup2 (t : FdTable φ) (fd copy : Nat) : Option (FdTable φ) := (t.get fd).map fun file => t.add copy file

/-- `close_range(2)` to the end of the table. -/
def close_range (t : FdTable φ) (first : Nat) : FdTable φ := t.close_all (t.opened.keys.filter (first ≤ ·))

theorem get_close_range (t : FdTable φ) (first q : Nat) :
    (t.close_range first).get q = if first ≤ q then none else t.get q := by
  rw [close_range, get_close_all]
  by_cases hq : first ≤ q
  · rw [if_pos hq]
    split
    · rfl
    · rename_i hmem
      refine AList.lookup_eq_none.2 fun hkey => hmem (List.mem_filter.2 ⟨?_, decide_eq_true hq⟩)
      exact AList.mem_keys.2 hkey
  · rw [if_neg hq, if_neg]
    intro hmem
    exact hq (of_decide_eq_true (List.mem_filter.1 hmem).2)

/-! ## What is installed -/

/-- What is open stays open. -/
theorem get_install (k : Numbering φ) : ∀ (files : List φ) (t : FdTable φ) {q : Nat} {file : φ},
    t.get q = some file → (t.install k files).2.get q = some file := by
  intro files
  induction files with
  | nil =>
      intro t q file h
      exact h
  | cons new files ih =>
      intro t q file h
      refine ih _ ?_
      rw [get_add]
      split
      · next hq =>
        rw [hq, get_unused] at h
        cases h
      · exact h

/-- The new descriptors refer to the files, in their order. -/
theorem map_get_install (k : Numbering φ) : ∀ (files : List φ) (t : FdTable φ),
    (t.install k files).1.map (t.install k files).2.get = files.map some := by
  intro files
  induction files with
  | nil =>
      intro t
      rfl
  | cons file files ih =>
      intro t
      refine List.cons_eq_cons.2 ⟨?_, ih _⟩
      refine get_install k files _ ?_
      rw [get_add, if_pos rfl]

/-- The new descriptors were free, and no two are the same. -/
theorem nodup_install (k : Numbering φ) : ∀ (files : List φ) (t : FdTable φ),
    (t.install k files).1.Nodup ∧ ∀ fd ∈ (t.install k files).1, t.get fd = none := by
  intro files
  induction files with
  | nil =>
      intro t
      exact ⟨List.nodup_nil, fun fd h => absurd h List.not_mem_nil⟩
  | cons file files ih =>
      intro t
      obtain ⟨hnodup, hfree⟩ := ih (t.add (k.unused t.opened) file)
      constructor
      · refine List.nodup_cons.2 ⟨?_, hnodup⟩
        intro hmem
        have hget := hfree _ hmem
        rw [get_add, if_pos rfl] at hget
        cases hget
      · intro fd hfd
        rcases List.mem_cons.1 hfd with rfl | hmem
        · exact get_unused k t
        · have hget := hfree fd hmem
          rw [get_add] at hget
          split at hget
          · cases hget
          · exact hget

end FdTable

/-- The lowest number that is free. -/
def lowest (φ : Type) : Numbering φ where
  unused t := ((List.range (t.keys.length + 1)).find? (· ∉ t.keys)).getD 0
  free t := by
    cases hfind : (List.range (t.keys.length + 1)).find? (· ∉ t.keys) with
    | some n =>
        have hnot : n ∉ t.keys := by simpa using List.find?_some hfind
        exact AList.lookup_eq_none.2 hnot
    | none =>
        -- there are more numbers than keys
        have hall : List.range (t.keys.length + 1) ⊆ t.keys := by
          intro n hn
          have hnot := List.find?_eq_none.1 hfind n hn
          rwa [decide_eq_true_eq, not_not] at hnot
        have hle := (List.subperm_of_subset List.nodup_range hall).length_le
        rw [List.length_range] at hle
        omega

end Fsmon
