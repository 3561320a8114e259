/-
# `Fsmon.Monitor.Books` — roots and groups, and what refers to them

Five containers hang together: the roots with their canonical paths, the groups, and the
two maps into the groups, by root and by target of a temporary mark.  The operations
change them by `Change`s, small steps of the books:

    still    entries and marks only
    list     a root, with its canonical path
    map      a listed root refers to a group; the group of its file system, or a new one
    unmap    a root gives its reference back; the last one takes the group along
    unlist   a root that refers to nothing
    lend     a target refers to the group an ancestor is marked in
    untemp   a target gives its reference back

`Intact` is what all of them keep.  The slack of a group, its references without a
user, is what each of them leaves as it is (`Change.slack`); only marking an ancestor
for a target that has one already, `Remark`, raises it.
-/
import Fsmon.Monitor.Closed
import Fsmon.Monitor.CoverStart
import Mathlib.Logic.Relation

namespace Fsmon.Monitor

/-! ## References -/

/-- No two groups are on one file system. -/
def OnePerDev (groups : SlotMap FsGroup) : Prop :=
  ∀ key key' dev_id, dev_of groups key = some dev_id → dev_of groups key' = some dev_id → key = key'

/-- One more reference: to a group that is there, or to a new one on a file system that has none. -/
inductive Entered (groups : SlotMap FsGroup) : SlotMap FsGroup → Nat → Prop
  | refer {key : Nat} {group : FsGroup} (hgroup : groups.get key = some group) :
      Entered groups (groups.modify key fun g => { g with ref_count := g.ref_count + 1 }) key
  | create {dev_id : Nat} (fan_fd : Nat) (hfree : home groups dev_id = none) :
      Entered groups (groups.insert ⟨dev_id, fan_fd, 1⟩) groups.next

theorem Entered.referred {groups groups' : SlotMap FsGroup} {key : Nat} (h : Entered groups groups' key) :
    ∃ fan_fd, Referred groups groups' key fan_fd := by
  cases h with
  | refer hgroup => exact ⟨_, referred_modify hgroup⟩
  | create fan_fd hfree => exact ⟨_, referred_insert ..⟩

theorem Entered.refs {groups groups' : SlotMap FsGroup} {key : Nat} (h : Entered groups groups' key)
    (q : Nat) : refs groups' q = refs groups q + if key = q then 1 else 0 := by
  obtain ⟨_, hrefs⟩ := h.referred
  split
  · next hq => exact hq ▸ hrefs.here
  · next hq => exact hrefs.other q (Ne.symm hq)

theorem dev_of_modify (groups : SlotMap FsGroup) (key : Nat) (f : Nat → Nat) (q : Nat) :
    dev_of (groups.modify key fun g => { g with ref_count := f g.ref_count }) q = dev_of groups q := by
  rw [dev_of, dev_of, SlotMap.get_modify]
  split
  · cases groups.get q <;> rfl
  · rfl

theorem Entered.onePerDev {groups groups' : SlotMap FsGroup} {key : Nat} (h : Entered groups groups' key)
    (hone : OnePerDev groups) : OnePerDev groups' := by
  cases h with
  | refer hgroup =>
      intro k k' dev_id hk hk'
      rw [dev_of_modify groups key fun n => n + 1] at hk hk'
      exact hone k k' dev_id hk hk'
  | @create dev_id fan_fd hfree =>
      have hnew : ∀ k dev_id', dev_of (groups.insert ⟨dev_id, fan_fd, 1⟩) k = some dev_id' →
          (k = groups.next ∧ dev_id' = dev_id) ∨ dev_of groups k = some dev_id' := by
        intro k dev_id' hk
        rw [dev_of, SlotMap.get_insert] at hk
        split at hk
        · next hnext =>
            cases hk
            exact .inl ⟨hnext, rfl⟩
        · exact .inr hk
      intro k k' dev_id' hk hk'
      rcases hnew k dev_id' hk with ⟨rfl, rfl⟩ | hold
      · rcases hnew k' _ hk' with ⟨rfl, _⟩ | hold'
        · rfl
        · exact absurd hold' (dev_of_ne_of_home_none hfree k')
      · rcases hnew k' dev_id' hk' with ⟨rfl, rfl⟩ | hold'
        · exact absurd hold (dev_of_ne_of_home_none hfree k)
        · exact hone k k' dev_id' hold hold'

/-- Every group has a reference. -/
def Alive (groups : SlotMap FsGroup) : Prop := ∀ key, (groups.get key).isSome = true → 0 < refs groups key

theorem refs_of_gone {groups : SlotMap FsGroup} {key : Nat} (h : (groups.get key).isSome = false) :
    refs groups key = 0 := by
  rw [refs]
  cases hgroup : groups.get key with
  | none => rfl
  | some group =>
      rw [hgroup] at h
      cases h

theorem Entered.alive {groups groups' : SlotMap FsGroup} {key : Nat} (h : Entered groups groups' key)
    (halive : Alive groups) : Alive groups' := by
  intro q hq
  rw [h.refs q]
  by_cases hkey : key = q
  · rw [if_pos hkey]
    exact Nat.succ_pos _
  · rw [if_neg hkey]
    refine halive q ?_
    cases h with
    | refer hgroup =>
        rw [SlotMap.get_modify, if_neg (Ne.symm hkey)] at hq
        exact hq
    | create fan_fd hfree =>
        rw [SlotMap.get_insert, if_neg (Ne.symm hkey)] at hq
        exact hq

theorem alive_released {groups : SlotMap FsGroup} {key : Nat} {group : FsGroup}
    (hgroup : groups.get key = some group) (halive : Alive groups) : Alive (released groups key group) := by
  intro q hq
  rw [get_released hgroup] at hq
  rw [refs, get_released hgroup]
  split at hq
  · next hkey =>
      rw [if_pos hkey]
      split at hq
      · cases hq
      · next hmore =>
          rw [if_neg hmore]
          exact Nat.pos_of_ne_zero hmore
  · next hkey =>
      rw [if_neg hkey]
      exact halive q hq

theorem refs_released {groups : SlotMap FsGroup} {key : Nat} {group : FsGroup}
    (hgroup : groups.get key = some group) (hpos : 0 < refs groups key) (q : Nat) :
    (refs (released groups key group) q + if key = q then 1 else 0) = refs groups q := by
  have hcount : refs groups key = group.ref_count := by
    rw [refs, hgroup]
    rfl
  rw [hcount] at hpos
  rw [refs, get_released hgroup]
  split
  · next hq =>
      subst hq
      rw [if_pos rfl, hcount]
      split
      · show 0 + 1 = group.ref_count
        omega
      · show group.ref_count - 1 + 1 = group.ref_count
        omega
  · next hq =>
      rw [if_neg (Ne.symm hq)]
      rfl

theorem onePerDev_released {groups : SlotMap FsGroup} {key : Nat} {group : FsGroup}
    (hgroup : groups.get key = some group) (hone : OnePerDev groups) :
    OnePerDev (released groups key group) := by
  have hold : ∀ k dev_id, dev_of (released groups key group) k = some dev_id →
      dev_of groups k = some dev_id := by
    intro k dev_id hk
    rw [dev_of, get_released hgroup] at hk
    split at hk
    · next hkey =>
        subst hkey
        split at hk
        · cases hk
        · rw [dev_of, hgroup]
          exact hk
    · exact hk
  exact fun k k' dev_id hk hk' => hone k k' dev_id (hold k dev_id hk) (hold k' dev_id hk')

/-! ## The books -/

namespace View

structure Intact (v : View) : Prop where
  nodup : v.paths.Nodup
  paired : v.canonical_paths.length = v.paths.length
  listed : ∀ path key, v.path_to_group.lookup path = some key → path ∈ v.paths
  counted : v.Counted
  onePerDev : OnePerDev v.groups
  alive : Alive v.groups

/-- Every reference of a group has its user. -/
def Exact (v : View) : Prop := ∀ key group, v.groups.get key = some group → group.ref_count = v.users key

theorem exact_iff {v : View} (h : v.Counted) : v.Exact ↔ ∀ key, refs v.groups key = v.users key := by
  constructor
  · intro hexact key
    cases hgroup : v.groups.get key with
    | some group =>
        rw [refs, hgroup]
        exact hexact key group hgroup
    | none =>
        have hle := h key
        have hgone : refs v.groups key = 0 := by
          rw [refs, hgroup]
          rfl
        omega
  · intro hall key group hgroup
    rw [← hall key, refs, hgroup]
    rfl

/-- A small step of the books. -/
inductive Change (v : View) : View → Prop
  | still (entries : List (PathBuf × PathOptions)) (k : Kernel) :
      Change v { v with monitored_entries := entries, kernel := k }
  | list (path canonical : PathBuf) (hnew : path ∉ v.paths) :
      Change v { v with paths := v.paths ++ [path], canonical_paths := v.canonical_paths ++ [canonical] }
  | map (path : PathBuf) (groups : SlotMap FsGroup) (key : Nat) (hlisted : path ∈ v.paths)
      (hfree : v.path_to_group.lookup path = none) (hentered : Entered v.groups groups key) :
      Change v { v with groups := groups, path_to_group := v.path_to_group.insert path key }
  | unmap (path : PathBuf) (key : Nat) (group : FsGroup) (hkey : v.path_to_group.lookup path = some key)
      (hgroup : v.groups.get key = some group) :
      Change v
        { v with groups := released v.groups key group, path_to_group := v.path_to_group.erase path }
  | unlist (path : PathBuf) (hlisted : path ∈ v.paths) (hfree : v.path_to_group.lookup path = none) :
      Change v
        { v with
          paths := v.paths.eraseIdx (v.paths.idxOf path)
          canonical_paths := v.canonical_paths.eraseIdx (v.paths.idxOf path) }
  | lend (target parent : PathBuf) (groups : SlotMap FsGroup) (key : Nat)
      (hfree : v.temp_parent_marks.lookup target = none) (hentered : Entered v.groups groups key) :
      Change v
        { v with
          groups := groups
          temp_parent_marks := v.temp_parent_marks.insert target (parent, key) }
  | untemp (target parent : PathBuf) (key : Nat) (group : FsGroup)
      (hmark : v.temp_parent_marks.lookup target = some (parent, key))
      (hgroup : v.groups.get key = some group) :
      Change v
        { v with
          groups := released v.groups key group
          temp_parent_marks := v.temp_parent_marks.erase target }

/-- A target that has a temporary mark gets another one. -/
inductive Remark (v : View) : View → Prop
  | remark (target parent : PathBuf) (groups : SlotMap FsGroup) (key : Nat) (old : PathBuf × Nat)
      (hold : v.temp_parent_marks.lookup target = some old) (hentered : Entered v.groups groups key) :
      Remark v
        { v with
          groups := groups
          temp_parent_marks := v.temp_parent_marks.insert target (parent, key) }

/-- Whoever refers to a group is counted there. -/
theorem Counted.refs_pos {v : View} (h : v.Counted) {key : Nat} (hused : 0 < v.users key) :
    0 < refs v.groups key := Nat.lt_of_lt_of_le hused (h key)

/-- In exact books a group is there as long as it has a user. -/
theorem Exact.released_iff {v : View} (h : v.Exact) (hv : v.Intact) (key : Nat) :
    (v.groups.get key).isSome = true ↔ 0 < v.users key := by
  rw [← (exact_iff hv.counted).1 h key]
  refine ⟨hv.alive key, fun hpos => ?_⟩
  by_contra hgone
  rw [refs_of_gone (Bool.not_eq_true _ ▸ hgone)] at hpos
  cases hpos

/-- A change leaves the slack of every group as it is. -/
theorem Change.slack {v v' : View} (h : Change v v') (hcounted : v.Counted) (key : Nat) :
    refs v'.groups key + v.users key = refs v.groups key + v'.users key := by
  cases h with
  | still entries k => rfl
  | list path canonical hnew => rfl
  | map path groups new hlisted hfree hentered =>
      have hone := HashMap.count_insert v.path_to_group path new fun k => decide (k = key)
      rw [HashMap.count_erase_absent hfree] at hone
      simp only [users, hentered.refs, hone, decide_eq_true_eq]
      omega
  | unmap path old group hkey hgroup =>
      have hone := HashMap.count_erase_add hkey fun k => decide (k = key)
      have hrefs := refs_released hgroup (hcounted.refs_pos (users_pos hkey)) key
      simp only [users, ← hrefs, ← hone, decide_eq_true_eq]
      omega
  | unlist path hlisted hfree => rfl
  | lend target parent groups new hfree hentered =>
      have hone := HashMap.count_insert v.temp_parent_marks target (parent, new) fun t => decide (t.2 = key)
      rw [HashMap.count_erase_absent hfree] at hone
      simp only [users, hentered.refs, hone, decide_eq_true_eq]
      omega
  | untemp target parent old group hmark hgroup =>
      have hone := HashMap.count_erase_add hmark fun t => decide (t.2 = key)
      have hrefs := refs_released hgroup (hcounted.refs_pos (users_pos_temp hmark)) key
      simp only [users, ← hrefs, ← hone, decide_eq_true_eq]
      omega

/-- A second mark raises the slack of the group that the first one is in. -/
theorem Remark.slack {v v' : View} (h : Remark v v') : ∃ old, ∀ key,
    refs v'.groups key + v.users key = refs v.groups key + v'.users key + if old = key then 1 else 0 := by
  cases h with
  | remark target parent groups new old hold hentered =>
      refine ⟨old.2, fun key => ?_⟩
      have hone := HashMap.count_insert v.temp_parent_marks target (parent, new) fun t => decide (t.2 = key)
      have hgone := HashMap.count_erase_add hold fun t => decide (t.2 = key)
      simp only [users, hentered.refs, hone, ← hgone, decide_eq_true_eq]
      omega

theorem Change.intact {v v' : View} (h : Change v v') (hv : v.Intact) : v'.Intact := by
  have hcounted : v'.Counted := by
    intro key
    have hslack := h.slack hv.counted key
    have hle := hv.counted key
    omega
  cases h with
  | still entries k => exact ⟨hv.nodup, hv.paired, hv.listed, hcounted, hv.onePerDev, hv.alive⟩
  | list path canonical hnew =>
      refine ⟨List.concat_eq_append ▸ hv.nodup.concat hnew, ?_, ?_, hcounted, hv.onePerDev, hv.alive⟩
      · rw [List.length_append, List.length_append, hv.paired]
        rfl
      · exact fun p key hp => List.mem_append_left _ (hv.listed p key hp)
  | map path groups new hlisted hfree hentered =>
      refine ⟨hv.nodup, hv.paired, fun p key hp => ?_, hcounted, hentered.onePerDev hv.onePerDev,
        hentered.alive hv.alive⟩
      rw [HashMap.lookup_insert'] at hp
      split at hp
      · next hpath => exact hpath ▸ hlisted
      · exact hv.listed p key hp
  | unmap path old group hkey hgroup =>
      refine ⟨hv.nodup, hv.paired, fun p key hp => ?_, hcounted, onePerDev_released hgroup hv.onePerDev,
        alive_released hgroup hv.alive⟩
      rw [HashMap.lookup_erase'] at hp
      split at hp
      · cases hp
      · exact hv.listed p key hp
  | unlist path hlisted hfree =>
      refine ⟨hv.nodup.sublist (List.eraseIdx_sublist ..), ?_, fun p key hp => ?_, hcounted, hv.onePerDev, hv.alive⟩
      · have hplace := List.idxOf_lt_length_of_mem hlisted
        rw [List.length_eraseIdx, List.length_eraseIdx, hv.paired]
      · refine mem_eraseIdx_idxOf (hv.listed p key hp) ?_
        rintro rfl
        rw [hfree] at hp
        cases hp
  | lend target parent groups new hfree hentered =>
      exact ⟨hv.nodup, hv.paired, hv.listed, hcounted, hentered.onePerDev hv.onePerDev,
        hentered.alive hv.alive⟩
  | untemp target parent old group hmark hgroup =>
      exact ⟨hv.nodup, hv.paired, hv.listed, hcounted, onePerDev_released hgroup hv.onePerDev,
        alive_released hgroup hv.alive⟩

theorem Remark.intact {v v' : View} (h : Remark v v') (hv : v.Intact) : v'.Intact := by
  have hcounted : v'.Counted := by
    intro key
    obtain ⟨old, hslack⟩ := h.slack
    have hle := hv.counted key
    have hkey := hslack key
    omega
  cases h with
  | remark target parent groups new old hold hentered =>
      exact ⟨hv.nodup, hv.paired, hv.listed, hcounted, hentered.onePerDev hv.onePerDev,
        hentered.alive hv.alive⟩

/-- **A change keeps the books exact**, and makes no others exact. -/
theorem Change.exact_iff {v v' : View} (h : Change v v') (hv : v.Intact) : v'.Exact ↔ v.Exact := by
  rw [View.exact_iff (h.intact hv).counted, View.exact_iff hv.counted]
  refine forall_congr' fun key => ?_
  have hslack := h.slack hv.counted key
  omega

/-- **A second mark never leaves them exact.** -/
theorem Remark.not_exact {v v' : View} (h : Remark v v') (hv : v.Intact) : ¬ v'.Exact := by
  rw [View.exact_iff (h.intact hv).counted]
  intro hall
  obtain ⟨old, hslack⟩ := h.slack
  have hkey := hslack old
  have hle := hv.counted old
  rw [if_pos rfl, hall old] at hkey
  omega

/-- Some changes, one after the other. -/
abbrev Changes : View → View → Prop := Relation.ReflTransGen Change

theorem Changes.of_eq {v v' : View} (h : v' = v) : Changes v v' := h ▸ .refl

theorem Changes.intact {v v' : View} (h : Changes v v') (hv : v.Intact) : v'.Intact := by
  induction h with
  | refl => exact hv
  | tail _ hchange ih => exact hchange.intact ih

theorem Changes.exact_iff {v v' : View} (h : Changes v v') (hv : v.Intact) : v'.Exact ↔ v.Exact := by
  induction h with
  | refl => exact Iff.rfl
  | tail h hchange ih => exact (hchange.exact_iff (Changes.intact h hv)).trans ih

end View

end Fsmon.Monitor
