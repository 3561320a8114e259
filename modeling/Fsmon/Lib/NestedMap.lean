/-
# `Fsmon.Lib.NestedMap` — maps of maps, read and written by pairs of keys

A map whose values are maps, as code keeps it that looks an entry up in two
stages.  Seen through `get` it is one map over pairs:

    get      through both levels
    put      the inner map is made if it is not there
    drop     the inner map stays, also when nothing is left in it
    retain   by the values; inner maps that become empty go
    count    how many values meet a predicate, over all inner maps
    len      how many there are
    flat     all entries in one map

`get_put`, `get_drop` and `get_retain` are the equations of a map over pairs;
`count_put`, `count_drop` and `count_retain` say what the operations do to the
counts.
Nothing here mentions a particular map.
-/
import Fsmon.Lib.HashMap
import Mathlib.Algebra.BigOperators.Group.List.Basic
import Mathlib.Algebra.Ring.Nat

namespace Fsmon

namespace HashMap

variable {κ υ ω : Type} [DecidableEq κ]

/-! ## Sums over the values -/

/-- The sum of a weight over the values. -/
def total (m : HashMap κ υ) (g : υ → Nat) : Nat := (m.entries.map fun e => g e.2).sum

theorem total_erase_add {m : HashMap κ υ} {p : κ} {v : υ} (h : m.lookup p = some v) (g : υ → Nat) :
    total (m.erase p) g + g v = total m g := by
  have hkey : p ∈ m.entries.keys := List.mem_keys_of_mem (mem_entries_of_lookup h)
  obtain ⟨w, l₁, l₂, _, hsplit, herase⟩ := List.exists_of_kerase hkey
  have hmem : (⟨p, w⟩ : Sigma fun _ : κ => υ) ∈ m.entries := by
    rw [hsplit]
    exact List.mem_append_right _ List.mem_cons_self
  have hw : w = v := by
    have hlook := AList.mem_lookup_iff.2 hmem
    rw [h] at hlook
    exact (Option.some.inj hlook).symm
  rw [total, total, show (m.erase p).entries = m.entries.kerase p from rfl, herase, hsplit, hw]
  simp only [List.map_append, List.map_cons, List.sum_append, List.sum_cons]
  omega

theorem total_erase_absent {m : HashMap κ υ} {p : κ} (h : m.lookup p = none) (g : υ → Nat) :
    total (m.erase p) g = total m g := by
  rw [total, total, show (m.erase p).entries = m.entries.kerase p from rfl,
    List.kerase_of_notMem_keys (AList.lookup_eq_none.1 h)]

theorem total_insert (m : HashMap κ υ) (p : κ) (v : υ) (g : υ → Nat) :
    total (m.insert p v) g = total (m.erase p) g + g v := by
  rw [total, total, AList.entries_insert, List.map_cons, List.sum_cons, Nat.add_comm]
  rfl

/-- A value that is replaced takes its weight along. -/
theorem total_update {m : HashMap κ υ} {p : κ} {v : υ} (h : m.lookup p = some v) (w : υ) (g : υ → Nat) :
    total (m.insert p w) g + g v = total m g + g w := by
  rw [total_insert, ← total_erase_add h g]
  omega

/-! ## Values mapped, or dropped -/

/-- An entry with its value replaced, if it is not dropped. -/
def map_entry (f : υ → Option ω) (e : Sigma fun _ : κ => υ) : Option (Sigma fun _ : κ => ω) :=
  (f e.2).map fun w => ⟨e.1, w⟩

omit [DecidableEq κ] in
theorem keys_filterMap_sublist (f : υ → Option ω) (l : List (Sigma fun _ : κ => υ)) :
    (l.filterMap (map_entry f)).keys.Sublist l.keys := by
  induction l with
  | nil => exact List.Sublist.refl _
  | cons e l ih =>
      rw [List.filterMap_cons, map_entry]
      cases f e.2 with
      | none => exact ih.cons _
      | some w => exact ih.cons_cons _

/-- The map with each value replaced, or dropped. -/
def filter_map (m : HashMap κ υ) (f : υ → Option ω) : HashMap κ ω where
  entries := m.entries.filterMap (map_entry f)
  nodupKeys := (keys_filterMap_sublist f m.entries).nodup m.nodupKeys

theorem lookup_filter_map (m : HashMap κ υ) (f : υ → Option ω) (q : κ) :
    (m.filter_map f).lookup q = (m.lookup q).bind f := by
  ext w
  rw [← Option.mem_def, AList.mem_lookup_iff, filter_map, List.mem_filterMap, Option.bind_eq_some_iff]
  constructor
  · rintro ⟨⟨p, v⟩, hmem, hw⟩
    obtain ⟨w', hf, heq⟩ := Option.map_eq_some_iff.1 hw
    cases heq
    exact ⟨v, AList.mem_lookup_iff.2 hmem, hf⟩
  · rintro ⟨v, hlook, hf⟩
    exact ⟨⟨q, v⟩, mem_entries_of_lookup hlook, by rw [map_entry, hf]; rfl⟩

omit [DecidableEq κ] in
/-- A weight that what is dropped does not have. -/
theorem total_filter_map (m : HashMap κ υ) (f : υ → Option ω) (g : ω → Nat) :
    total (m.filter_map f) g = total m fun v => ((f v).map g).getD 0 := by
  rw [total, total, show (m.filter_map f).entries = m.entries.filterMap (map_entry f) from rfl]
  induction m.entries with
  | nil => rfl
  | cons e l ih =>
      rw [List.filterMap_cons, map_entry, List.map_cons, List.sum_cons, ← ih]
      cases f e.2 with
      | none => exact (Nat.zero_add _).symm
      | some w => rfl

end HashMap

/-- `HashMap<κ, HashMap<ι, υ>>`. -/
abbrev NestedMap (κ ι υ : Type) := HashMap κ (HashMap ι υ)

namespace NestedMap

variable {κ ι υ : Type} [DecidableEq κ] [DecidableEq ι]

def get (m : NestedMap κ ι υ) (k : κ × ι) : Option υ := (m.lookup k.1).bind fun t => t.lookup k.2

def put (m : NestedMap κ ι υ) (k : κ × ι) (v : υ) : NestedMap κ ι υ :=
  m.insert k.1 (((m.lookup k.1).getD ∅).insert k.2 v)

def drop (m : NestedMap κ ι υ) (k : κ × ι) : NestedMap κ ι υ :=
  match m.lookup k.1 with
  | none => m
  | some t => m.insert k.1 (t.erase k.2)

/-- An inner map, if it is not empty. -/
def inhabited (t : HashMap ι υ) : Option (HashMap ι υ) := if t.len = 0 then none else some t

def retain (m : NestedMap κ ι υ) (f : υ → Bool) : NestedMap κ ι υ :=
  m.filter_map fun t => inhabited (t.retain f)

def count (m : NestedMap κ ι υ) (f : υ → Bool) : Nat := m.total fun t => t.count f

def len (m : NestedMap κ ι υ) : Nat := m.total HashMap.len

/-! ## One map over pairs -/

theorem get_put (m : NestedMap κ ι υ) (k q : κ × ι) (v : υ) :
    get (put m k v) q = if q = k then some v else get m q := by
  obtain ⟨k₁, k₂⟩ := k
  obtain ⟨q₁, q₂⟩ := q
  rw [get, put, HashMap.lookup_insert', get]
  by_cases h₁ : q₁ = k₁
  · subst h₁
    rw [if_pos rfl, Option.bind_some, HashMap.lookup_insert']
    by_cases h₂ : q₂ = k₂
    · rw [if_pos h₂, if_pos (by rw [h₂])]
    · rw [if_neg h₂, if_neg fun h => h₂ (Prod.ext_iff.1 h).2]
      cases m.lookup q₁ with
      | none => exact AList.lookup_empty q₂
      | some t => rfl
  · rw [if_neg h₁, if_neg fun h => h₁ (Prod.ext_iff.1 h).1]

theorem get_drop (m : NestedMap κ ι υ) (k q : κ × ι) :
    get (drop m k) q = if q = k then none else get m q := by
  obtain ⟨k₁, k₂⟩ := k
  obtain ⟨q₁, q₂⟩ := q
  rw [drop]
  cases ht : m.lookup k₁ with
  | none =>
      simp only
      split
      · next h =>
        cases h
        rw [get, ht]
        rfl
      · rfl
  | some t =>
      simp only [get, HashMap.lookup_insert']
      by_cases h₁ : q₁ = k₁
      · subst h₁
        rw [if_pos rfl, Option.bind_some, HashMap.lookup_erase', ht, Option.bind_some]
        by_cases h₂ : q₂ = k₂
        · rw [if_pos h₂, if_pos (by rw [h₂])]
        · rw [if_neg h₂, if_neg fun h => h₂ (Prod.ext_iff.1 h).2]
      · rw [if_neg h₁, if_neg fun h => h₁ (Prod.ext_iff.1 h).1]

omit [DecidableEq κ] [DecidableEq ι] in
theorem entries_nil_of_len {t : HashMap ι υ} (h : t.len = 0) : t.entries = [] := List.length_eq_zero_iff.1 h

theorem get_retain (m : NestedMap κ ι υ) (f : υ → Bool) (q : κ × ι) :
    get (retain m f) q = (get m q).filter f := by
  rw [get, retain, HashMap.lookup_filter_map, get]
  cases m.lookup q.1 with
  | none => rfl
  | some t =>
      rw [Option.bind_some, Option.bind_some, ← HashMap.lookup_retain, inhabited]
      split
      · next h =>
        rw [Option.bind_none]
        exact (AList.lookup_eq_none.2 fun hmem => by
          rw [AList.mem_keys, AList.keys, entries_nil_of_len h] at hmem
          cases hmem).symm
      · rfl

/-! ## Counts -/

omit [DecidableEq κ] [DecidableEq ι] in
theorem len_eq_count (m : NestedMap κ ι υ) : len m = count m fun _ => true := by
  rw [len, count]
  congr 1
  funext t
  rw [HashMap.count, List.countP_true, HashMap.len]

theorem count_drop {m : NestedMap κ ι υ} {k : κ × ι} {v : υ} (h : get m k = some v) (f : υ → Bool) :
    (count (drop m k) f + if f v then 1 else 0) = count m f := by
  obtain ⟨t, ht, hv⟩ := Option.bind_eq_some_iff.1 h
  have hinner := HashMap.count_erase_add hv f
  have houter := HashMap.total_update ht (t.erase k.2) fun t => t.count f
  rw [drop, ht, count, count]
  simp only at houter ⊢
  omega

theorem count_drop_absent {m : NestedMap κ ι υ} {k : κ × ι} (h : get m k = none) (f : υ → Bool) :
    count (drop m k) f = count m f := by
  rw [drop]
  cases ht : m.lookup k.1 with
  | none => rfl
  | some t =>
      have hnone : t.lookup k.2 = none := by rwa [get, ht, Option.bind_some] at h
      have hinner := HashMap.count_erase_absent hnone f
      have houter := HashMap.total_update ht (t.erase k.2) fun t => t.count f
      rw [count, count]
      simp only at houter ⊢
      omega

/-- A value takes the place of the one that was there. -/
theorem count_put (m : NestedMap κ ι υ) (k : κ × ι) (v : υ) (f : υ → Bool) :
    count (put m k v) f = count (drop m k) f + if f v then 1 else 0 := by
  rw [put, drop]
  cases ht : m.lookup k.1 with
  | none =>
      rw [count, HashMap.total_insert, HashMap.total_erase_absent ht, Option.getD_none,
        HashMap.count_insert, HashMap.count_erase_absent (AList.lookup_empty k.2)]
      exact congrArg _ (Nat.zero_add _)
  | some t =>
      simp only [Option.getD_some]
      have hput := HashMap.total_update ht (t.insert k.2 v) fun t => t.count f
      have hdrop := HashMap.total_update ht (t.erase k.2) fun t => t.count f
      have hinner := HashMap.count_insert t k.2 v f
      rw [count, count]
      omega

omit [DecidableEq κ] [DecidableEq ι] in
theorem count_retain (m : NestedMap κ ι υ) (f g : υ → Bool) :
    count (retain m f) g = count m fun v => f v && g v := by
  rw [count, retain, HashMap.total_filter_map, count]
  congr 1
  funext t
  have hinner : (t.retain f).count g = t.count fun v => f v && g v := by
    rw [HashMap.count, HashMap.count, HashMap.retain, List.countP_filter]
    simp only [Bool.and_comm]
  rw [← hinner, inhabited]
  split
  · next h =>
    rw [HashMap.count, entries_nil_of_len h]
    rfl
  · rfl

/-- What is left of a count without one key. -/
theorem count_drop_retain (m : NestedMap κ ι υ) (k : κ × ι) (f g : υ → Bool) :
    count (drop (retain m f) k) g = count (drop m k) fun v => f v && g v := by
  have hretain := count_retain m f g
  cases hv : get m k with
  | none =>
      have hnone : get (retain m f) k = none := by rw [get_retain, hv]; rfl
      rw [count_drop_absent hnone, count_drop_absent hv, hretain]
  | some v =>
      have hdrop := count_drop hv fun v => f v && g v
      cases hf : f v with
      | true =>
          have hsome : get (retain m f) k = some v := by rw [get_retain, hv]; exact Option.filter_some_pos hf
          have hkept := count_drop hsome g
          simp only [hf, Bool.true_and] at hdrop
          omega
      | false =>
          have hnone : get (retain m f) k = none := by
            rw [get_retain, hv]
            exact Option.filter_some_neg (by simp [hf])
          rw [count_drop_absent hnone, hretain]
          simp only [hf, Bool.false_and, Bool.false_eq_true, if_false] at hdrop
          omega

omit [DecidableEq κ] [DecidableEq ι] in
/-- The values that meet a predicate, and the others. -/
theorem count_add_count_not (m : NestedMap κ ι υ) (f : υ → Bool) :
    count m f + count m (fun v => !f v) = len m := by
  rw [count, count, len, HashMap.total, HashMap.total, HashMap.total, ← List.sum_map_add]
  congr 2
  funext e
  rw [HashMap.count, HashMap.count, HashMap.len, List.length_eq_countP_add_countP fun e => f e.2]
  congr 2
  funext e
  simp

/-! ## A first entry -/

/-- A key of the first inner map that has any. -/
def first (m : NestedMap κ ι υ) : Option (κ × ι) :=
  (m.entries.find? fun e => e.2.len ≠ 0).bind fun e => e.2.keys.head?.map fun i => (e.1, i)

theorem first_spec {m : NestedMap κ ι υ} (h : len m ≠ 0) :
    ∃ k, first m = some k ∧ (get m k).isSome = true := by
  have hsome : (m.entries.find? fun e => e.2.len ≠ 0).isSome = true := by
    refine List.find?_isSome.2 (Classical.byContradiction fun hno => h ?_)
    refine List.sum_eq_zero fun n hn => ?_
    obtain ⟨e, he, rfl⟩ := List.mem_map.1 hn
    exact Classical.byContradiction fun hne => hno ⟨e, he, by simpa using hne⟩
  obtain ⟨⟨p, t⟩, ht⟩ := Option.isSome_iff_exists.1 hsome
  have hlen : t.len ≠ 0 := by simpa using List.find?_some ht
  have hlook : m.lookup p = some t := AList.mem_lookup_iff.2 (List.mem_of_find?_eq_some ht)
  cases hkeys : t.keys with
  | nil => exact absurd (by rw [HashMap.len, ← List.length_map, ← List.keys, ← AList.keys, hkeys]; rfl) hlen
  | cons i is =>
      refine ⟨(p, i), by rw [first, ht, Option.bind_some, hkeys]; rfl, ?_⟩
      rw [get, hlook, Option.bind_some, AList.lookup_isSome, AList.mem_keys, hkeys]
      exact List.mem_cons_self

/-! ## The flat map -/

/-- The entries of one inner map, with both keys. -/
def rows (e : Sigma fun _ : κ => HashMap ι υ) : List (Sigma fun _ : κ × ι => υ) :=
  e.2.entries.map fun r => ⟨(e.1, r.1), r.2⟩

omit [DecidableEq κ] [DecidableEq ι] in
theorem keys_rows (e : Sigma fun _ : κ => HashMap ι υ) :
    (rows e).keys = e.2.entries.keys.map fun i => (e.1, i) := by
  rw [rows, List.keys, List.keys, List.map_map, List.map_map]
  rfl

omit [DecidableEq κ] [DecidableEq ι] in
theorem nodupKeys_flatMap_rows (m : NestedMap κ ι υ) : (m.entries.flatMap rows).NodupKeys := by
  rw [List.flatMap, List.nodupKeys_flatten]
  constructor
  · intro l hl
    obtain ⟨e, _, rfl⟩ := List.mem_map.1 hl
    rw [List.NodupKeys, keys_rows]
    exact e.2.nodupKeys.map fun i j h => (Prod.ext_iff.1 h).2
  · rw [List.map_map, List.pairwise_map]
    refine m.nodupKeys.pairwise_ne.imp fun {d e} hne => ?_
    rw [Function.comp_apply, Function.comp_apply, keys_rows, keys_rows]
    intro k hd he
    obtain ⟨i, _, rfl⟩ := List.mem_map.1 hd
    obtain ⟨j, _, hj⟩ := List.mem_map.1 he
    exact hne (Prod.ext_iff.1 hj).1.symm

/-- All entries in one map. -/
def flat (m : NestedMap κ ι υ) : HashMap (κ × ι) υ := ⟨m.entries.flatMap rows, nodupKeys_flatMap_rows m⟩

theorem lookup_flat (m : NestedMap κ ι υ) (k : κ × ι) : (flat m).lookup k = get m k := by
  ext v
  rw [← Option.mem_def, AList.mem_lookup_iff, flat, List.mem_flatMap, get, Option.bind_eq_some_iff]
  constructor
  · rintro ⟨⟨p, t⟩, hmem, hrow⟩
    obtain ⟨⟨i, w⟩, hentry, heq⟩ := List.mem_map.1 hrow
    cases heq
    exact ⟨t, AList.mem_lookup_iff.2 hmem, AList.mem_lookup_iff.2 hentry⟩
  · rintro ⟨t, ht, hv⟩
    exact ⟨⟨k.1, t⟩, HashMap.mem_entries_of_lookup ht,
      List.mem_map.2 ⟨⟨k.2, v⟩, HashMap.mem_entries_of_lookup hv, rfl⟩⟩

omit [DecidableEq κ] [DecidableEq ι] in
theorem len_flat (m : NestedMap κ ι υ) : (flat m).len = len m := by
  rw [HashMap.len, flat, List.length_flatMap, len, HashMap.total]
  congr 2
  funext e
  rw [rows, List.length_map, HashMap.len]

/-- A map over pairs that answers the same has as many entries. -/
theorem len_eq_of_get_eq {m : NestedMap κ ι υ} {t : HashMap (κ × ι) υ} (h : ∀ k, get m k = t.lookup k) :
    len m = t.len := by
  rw [← len_flat]
  refine (List.lookup_ext (flat m).nodupKeys t.nodupKeys fun k v => ?_).length_eq
  rw [show (flat m).entries.dlookup k = t.entries.dlookup k from (lookup_flat m k).trans (h k)]

end NestedMap

end Fsmon
