/-
# `Fsmon.Lib.HashMap` — hash maps as association lists without duplicate keys

`std::collections::HashMap` with its iteration order left open: the entries of
an `AList` have an order, and code whose outcome depends on it takes the order
as an argument.  The lookup equations are Mathlib's, gathered in one form for
rewriting: the value at `q` after an operation at `p`, split on `q = p`.
-/
import Mathlib.Data.List.AList

namespace Fsmon

/-- `HashMap<κ, υ>`. -/
abbrev HashMap (κ υ : Type) := AList fun _ : κ => υ

namespace HashMap

variable {κ υ : Type} [DecidableEq κ]

/-- Equality of maps by their entries, in a form that evaluates. -/
instance [DecidableEq υ] : DecidableEq (HashMap κ υ) := fun m n =>
  decidable_of_iff ((m.entries.map fun e => (e.1, e.2)) = n.entries.map fun e => (e.1, e.2)) (by
    have hinj : Function.Injective fun e : Sigma fun _ : κ => υ => (e.1, e.2) := by
      rintro ⟨k, v⟩ ⟨k', v'⟩ h
      cases h
      rfl
    rw [List.map_inj_right fun _ _ h => hinj h, AList.ext_iff])

/-- `HashMap::len`. -/
def len (m : HashMap κ υ) : Nat := m.entries.length

/-- `HashMap::contains_key`. -/
def contains_key (m : HashMap κ υ) (k : κ) : Bool := (m.lookup k).isSome

theorem lookup_insert' (m : HashMap κ υ) (p q : κ) (v : υ) :
    (m.insert p v).lookup q = if q = p then some v else m.lookup q := by
  by_cases h : q = p
  · subst h
    simp
  · rw [if_neg h]
    exact AList.lookup_insert_ne h

theorem lookup_erase' (m : HashMap κ υ) (p q : κ) :
    (m.erase p).lookup q = if q = p then none else m.lookup q := by
  by_cases h : q = p
  · subst h
    simp
  · rw [if_neg h]
    exact AList.lookup_erase_ne h

/-- `HashMap::retain`, by the values. -/
def retain (m : HashMap κ υ) (f : υ → Bool) : HashMap κ υ :=
  ⟨m.entries.filter fun e => f e.2, m.nodupKeys.sublist List.filter_sublist⟩

omit [DecidableEq κ] in
theorem mem_entries_retain {m : HashMap κ υ} {f : υ → Bool} {e : Sigma fun _ : κ => υ} :
    e ∈ (m.retain f).entries ↔ e ∈ m.entries ∧ f e.2 = true := List.mem_filter

theorem lookup_retain (m : HashMap κ υ) (f : υ → Bool) (q : κ) :
    (m.retain f).lookup q = (m.lookup q).filter f := by
  ext v
  rw [← Option.mem_def, AList.mem_lookup_iff, mem_entries_retain, ← AList.mem_lookup_iff, Option.mem_def,
    Option.filter_eq_some_iff]

/-! ## Counting values -/

/-- How many keys have a value that meets `f`. -/
def count (m : HashMap κ υ) (f : υ → Bool) : Nat := m.entries.countP fun e => f e.2

theorem count_kerase_le (l : List (Sigma fun _ : κ => υ)) (p : κ) (f : υ → Bool) :
    (l.kerase p).countP (fun e => f e.2) ≤ l.countP fun e => f e.2 :=
  (List.kerase_sublist p l).countP_le

theorem count_insert_le (m : HashMap κ υ) (p : κ) (v : υ) (f : υ → Bool) :
    count (m.insert p v) f ≤ count m f + if f v then 1 else 0 := by
  have hle := count_kerase_le m.entries p f
  rw [count, count, AList.entries_insert, List.countP_cons]
  exact Nat.add_le_add_right hle _

theorem count_erase_le (m : HashMap κ υ) (p : κ) (f : υ → Bool) :
    count (m.erase p) f ≤ count m f :=
  count_kerase_le m.entries p f

theorem mem_entries_of_lookup {m : HashMap κ υ} {p : κ} {v : υ} (h : m.lookup p = some v) :
    (⟨p, v⟩ : Sigma fun _ : κ => υ) ∈ m.entries := AList.mem_lookup_iff.1 h

theorem count_pos {m : HashMap κ υ} {p : κ} {v : υ} {f : υ → Bool} (h : m.lookup p = some v)
    (hf : f v = true) : 0 < count m f :=
  List.countP_pos_iff.2 ⟨_, mem_entries_of_lookup h, hf⟩

/-- A key that is erased takes its value along. -/
theorem count_erase_add {m : HashMap κ υ} {p : κ} {v : υ} (h : m.lookup p = some v) (f : υ → Bool) :
    (count (m.erase p) f + if f v then 1 else 0) = count m f := by
  have hkey : p ∈ m.entries.keys := List.mem_keys_of_mem (mem_entries_of_lookup h)
  obtain ⟨w, l₁, l₂, hno, hsplit, herase⟩ := List.exists_of_kerase hkey
  have hw : w = v := by
    have hmem : (⟨p, w⟩ : Sigma fun _ : κ => υ) ∈ m.entries := by
      rw [hsplit]
      exact List.mem_append_right _ List.mem_cons_self
    have hlook := AList.mem_lookup_iff.2 hmem
    rw [h] at hlook
    exact (Option.some.inj hlook).symm
  rw [count, count, show (m.erase p).entries = m.entries.kerase p from rfl, herase, hsplit,
    List.countP_append, List.countP_append, List.countP_cons, hw, Nat.add_assoc]

/-- Erasing a key whose value meets `f` leaves one less. -/
theorem count_erase {m : HashMap κ υ} {p : κ} {v : υ} {f : υ → Bool} (h : m.lookup p = some v)
    (hf : f v = true) : count (m.erase p) f + 1 = count m f := by
  rw [← count_erase_add h f, if_pos hf]

theorem count_erase_absent {m : HashMap κ υ} {p : κ} (h : m.lookup p = none) (f : υ → Bool) :
    count (m.erase p) f = count m f := by
  have hkey : p ∉ m.entries.keys := AList.lookup_eq_none.1 h
  rw [count, count, show (m.erase p).entries = m.entries.kerase p from rfl,
    List.kerase_of_notMem_keys hkey]

/-- A value that is inserted takes the place of the one that was there. -/
theorem count_insert (m : HashMap κ υ) (p : κ) (v : υ) (f : υ → Bool) :
    count (m.insert p v) f = count (m.erase p) f + if f v then 1 else 0 := by
  rw [count, count, AList.entries_insert, List.countP_cons]
  rfl

/-! ## The number of entries -/

omit [DecidableEq κ] in
theorem len_eq_count (m : HashMap κ υ) : len m = count m fun _ => true := by
  rw [len, count, List.countP_true]

theorem len_insert_le (m : HashMap κ υ) (p : κ) (v : υ) : len (m.insert p v) ≤ len m + 1 := by
  rw [len_eq_count, len_eq_count]
  exact count_insert_le m p v fun _ => true

/-- A key that is there already takes no more room. -/
theorem len_insert_present {m : HashMap κ υ} {p : κ} {v : υ} (h : m.lookup p = some v) (u : υ) :
    len (m.insert p u) = len m := by
  rw [len_eq_count, len_eq_count, count_insert]
  exact count_erase_add h fun _ => true

theorem len_erase_le (m : HashMap κ υ) (p : κ) : len (m.erase p) ≤ len m := by
  rw [len_eq_count, len_eq_count]
  exact count_erase_le m p fun _ => true

theorem len_erase_present {m : HashMap κ υ} {p : κ} {v : υ} (h : m.lookup p = some v) :
    len (m.erase p) + 1 = len m := by
  rw [len_eq_count, len_eq_count]
  exact count_erase h rfl

end HashMap

end Fsmon
