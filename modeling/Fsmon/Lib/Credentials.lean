/-
# `Fsmon.Lib.Credentials` — what a thread may do, and what it may come to

The credentials of a Linux thread with the default securebits: user and group ids,
the capability sets, and `no_new_privs`.  Every thread has its own; the C library
changes the ids of all threads together, the raw system calls change the caller's.

    Creds            the sets, with the kernel's own invariants as fields
    setuid_fixup     what giving up or taking user 0 does to the sets
    execve           the new sets, from the old ones and from the file
    step             one system call; a refused one changes nothing
    Within           under `no_new_privs`, and within bounds for the sets and the user ids
    run_within       no run of calls gets out of them
-/
import Fsmon.Lib.Run
import Mathlib.Data.Finset.Basic

namespace Fsmon.Credentials

def CAP_SETGID : Nat := 6
def CAP_SETUID : Nat := 7
def CAP_SETPCAP : Nat := 8

structure Creds where
  ruid : Nat
  euid : Nat
  suid : Nat
  rgid : Nat
  egid : Nat
  sgid : Nat
  groups : List Nat
  effective : Finset Nat
  permitted : Finset Nat
  inheritable : Finset Nat
  bounding : Finset Nat
  ambient : Finset Nat
  no_new_privs : Bool
  effective_le : effective ⊆ permitted
  ambient_le : ambient ⊆ permitted ∩ inheritable

namespace Creds

/-- The user ids of a thread. -/
def ids (c : Creds) : List Nat := [c.ruid, c.euid, c.suid]

/-- `cap_emulate_setxuid`: the ids change, and the sets with them. -/
def setuid_fixup (c : Creds) (ruid euid suid : Nat) : Creds :=
  -- user 0 is given up for good
  if 0 ∈ c.ids ∧ ruid ≠ 0 ∧ euid ≠ 0 ∧ suid ≠ 0 then
    { c with
      ruid, euid, suid
      effective := ∅, permitted := ∅, ambient := ∅
      effective_le := Finset.empty_subset _, ambient_le := Finset.empty_subset _ }
  else if c.euid = 0 ∧ euid ≠ 0 then
    { c with ruid, euid, suid, effective := ∅, effective_le := Finset.empty_subset _ }
  else if c.euid ≠ 0 ∧ euid = 0 then
    { c with ruid, euid, suid, effective := c.permitted, effective_le := Finset.Subset.refl _ }
  else { c with ruid, euid, suid }

/-- `setuid(2)` of one thread; `none` is `EPERM`. -/
def setuid (c : Creds) (uid : Nat) : Option Creds :=
  if CAP_SETUID ∈ c.effective then some (c.setuid_fixup uid uid uid)
  else if uid = c.ruid ∨ uid = c.suid then some (c.setuid_fixup c.ruid uid c.suid)
  else none

/-- `setresuid(2)` of one thread. -/
def setresuid (c : Creds) (ruid euid suid : Nat) : Option Creds :=
  if CAP_SETUID ∈ c.effective ∨ (ruid ∈ c.ids ∧ euid ∈ c.ids ∧ suid ∈ c.ids) then
    some (c.setuid_fixup ruid euid suid)
  else none

def setgid (c : Creds) (gid : Nat) : Option Creds :=
  if CAP_SETGID ∈ c.effective then some { c with rgid := gid, egid := gid, sgid := gid }
  else if gid = c.rgid ∨ gid = c.sgid then some { c with egid := gid }
  else none

def setgroups (c : Creds) (groups : List Nat) : Option Creds :=
  if CAP_SETGID ∈ c.effective then some { c with groups } else none

/-- `capset(2)`: the permitted set shrinks, and what is new in the inheritable set is permitted or, with
`CAP_SETPCAP`, in the bounding set. -/
def capset (c : Creds) (effective permitted inheritable : Finset Nat) : Option Creds :=
  if h : effective ⊆ permitted ∧ permitted ⊆ c.permitted ∧ inheritable ⊆ c.inheritable ∪ c.bounding ∧
      (CAP_SETPCAP ∈ c.effective ∨ inheritable ⊆ c.inheritable ∪ c.permitted) then
    some { c with
      effective, permitted, inheritable
      ambient := c.ambient ∩ (permitted ∩ inheritable)
      effective_le := h.1
      ambient_le := Finset.inter_subset_right }
  else none

/-- `prctl(PR_CAPBSET_DROP)`. -/
def capbset_drop (c : Creds) (cap : Nat) : Option Creds :=
  if CAP_SETPCAP ∈ c.effective then some { c with bounding := c.bounding.erase cap } else none

/-- `prctl(PR_CAP_AMBIENT)`: the set becomes any part of what is permitted and inheritable. -/
def set_ambient (c : Creds) (ambient : Finset Nat) : Option Creds :=
  if h : ambient ⊆ c.permitted ∩ c.inheritable then some { c with ambient, ambient_le := h } else none

/-- `prctl(PR_SET_NO_NEW_PRIVS)`. -/
def set_no_new_privs (c : Creds) : Creds := { c with no_new_privs := true }

end Creds

/-- What `execve` looks at in a file. -/
structure Executable where
  /-- Its owner, if the set-user-id bit is set. -/
  setuid : Option Nat
  /-- Its capabilities: permitted, inheritable, and whether they become effective. -/
  caps : Option (Finset Nat × Finset Nat × Bool)

namespace Creds

/-- `bprm_fill_uid`: with `no_new_privs`, the bit is not looked at. -/
def bprm_euid (c : Creds) (file : Executable) : Nat :=
  if c.no_new_privs then c.euid else file.setuid.getD c.euid

/-- `root_privileged`: user 0 may do all, but for a set-user-id file with capabilities of its own. -/
def exec_as_root (c : Creds) (file : Executable) : Bool :=
  (c.ruid = 0 || c.bprm_euid file = 0) && !(file.caps.isSome && c.ruid ≠ 0 && c.bprm_euid file = 0)

/-- What the file permits, or user 0. -/
def exec_gain (c : Creds) (file : Executable) : Finset Nat :=
  if c.exec_as_root file then c.bounding ∪ c.inheritable
  else file.caps.elim ∅ fun caps => (c.bounding ∩ caps.1) ∪ (c.inheritable ∩ caps.2.1)

/-- The same; with `no_new_privs`, no more than before. -/
def exec_permitted (c : Creds) (file : Executable) : Finset Nat :=
  if c.no_new_privs then c.exec_gain file ∩ c.permitted else c.exec_gain file

/-- With `no_new_privs`, another effective id than the real one is given up. -/
def exec_euid (c : Creds) (file : Executable) : Nat := if c.no_new_privs then c.ruid else c.bprm_euid file

/-- The ambient set is lost to a file with capabilities, and with another effective id. -/
def exec_ambient (c : Creds) (file : Executable) : Finset Nat :=
  if file.caps.isSome ∨ c.bprm_euid file ≠ c.ruid then ∅ else c.ambient

def exec_effective (c : Creds) (file : Executable) : Bool :=
  (c.exec_as_root file && c.bprm_euid file = 0) || file.caps.elim false fun caps => caps.2.2

theorem exec_ambient_le (c : Creds) (file : Executable) : c.exec_ambient file ⊆ c.permitted ∩ c.inheritable := by
  rw [exec_ambient]
  split
  · exact Finset.empty_subset _
  · exact c.ambient_le

/-- `execve(2)`. -/
def execve (c : Creds) (file : Executable) : Creds where
  ruid := c.ruid
  euid := c.exec_euid file
  suid := c.exec_euid file
  rgid := c.rgid
  egid := c.egid
  sgid := c.egid
  groups := c.groups
  effective :=
    if c.exec_effective file then c.exec_permitted file ∪ c.exec_ambient file else c.exec_ambient file
  permitted := c.exec_permitted file ∪ c.exec_ambient file
  inheritable := c.inheritable
  bounding := c.bounding
  ambient := c.exec_ambient file
  no_new_privs := c.no_new_privs
  effective_le := by
    split
    · exact Finset.Subset.refl _
    · exact Finset.subset_union_right
  ambient_le :=
    Finset.subset_inter Finset.subset_union_right
      ((c.exec_ambient_le file).trans Finset.inter_subset_right)

end Creds

/-- A system call of a thread, of those that change credentials. -/
inductive Call where
  | setuid (uid : Nat)
  | setresuid (ruid euid suid : Nat)
  | setgid (gid : Nat)
  | setgroups (groups : List Nat)
  | capset (effective permitted inheritable : Finset Nat)
  | capbset_drop (cap : Nat)
  | set_ambient (ambient : Finset Nat)
  | set_no_new_privs
  | execve (file : Executable)

/-- One system call; a refused one changes nothing. -/
def step (c : Creds) : Call → Creds
  | .setuid uid => (c.setuid uid).getD c
  | .setresuid ruid euid suid => (c.setresuid ruid euid suid).getD c
  | .setgid gid => (c.setgid gid).getD c
  | .setgroups groups => (c.setgroups groups).getD c
  | .capset effective permitted inheritable => (c.capset effective permitted inheritable).getD c
  | .capbset_drop cap => (c.capbset_drop cap).getD c
  | .set_ambient ambient => (c.set_ambient ambient).getD c
  | .set_no_new_privs => c.set_no_new_privs
  | .execve file => c.execve file

/-! ## The user ids and the sets -/

variable {c c' : Creds}

/-- What `setuid_fixup` leaves: the ids it is given, no more capabilities, and the rest. -/
theorem setuid_fixup_spec (c : Creds) (ruid euid suid : Nat) :
    (c.setuid_fixup ruid euid suid).ids = [ruid, euid, suid] ∧
      (c.setuid_fixup ruid euid suid).permitted ⊆ c.permitted ∧
      (c.setuid_fixup ruid euid suid).inheritable = c.inheritable ∧
      (c.setuid_fixup ruid euid suid).bounding = c.bounding ∧
      (c.setuid_fixup ruid euid suid).no_new_privs = c.no_new_privs := by
  rw [Creds.setuid_fixup]
  split
  · exact ⟨rfl, Finset.empty_subset _, rfl, rfl, rfl⟩
  · split
    · exact ⟨rfl, Finset.Subset.refl _, rfl, rfl, rfl⟩
    · split
      · exact ⟨rfl, Finset.Subset.refl _, rfl, rfl, rfl⟩
      · exact ⟨rfl, Finset.Subset.refl _, rfl, rfl, rfl⟩

/-- When the capabilities of one who had been user 0 are gone: if there were none, or no id is 0 any more. -/
theorem setuid_fixup_permitted_iff (hroot : 0 ∈ c.ids) (ruid euid suid : Nat) :
    (c.setuid_fixup ruid euid suid).permitted = ∅ ↔
      c.permitted = ∅ ∨ (ruid ≠ 0 ∧ euid ≠ 0 ∧ suid ≠ 0) := by
  rw [Creds.setuid_fixup]
  split
  · rename_i hgone
    exact iff_of_true rfl (.inr hgone.2)
  · rename_i hkept
    have hsame : c.permitted = ∅ ↔ c.permitted = ∅ ∨ (ruid ≠ 0 ∧ euid ≠ 0 ∧ suid ≠ 0) :=
      (or_iff_left fun hids => hkept ⟨hroot, hids⟩).symm
    split
    · exact hsame
    · split
      · exact hsame
      · exact hsame

/-! ## What no call gives -/

/-- Credentials under `no_new_privs` and within these bounds. -/
structure Within (P I B : Finset Nat) (U : List Nat) (c : Creds) : Prop where
  no_new_privs : c.no_new_privs = true
  permitted : c.permitted ⊆ P
  inheritable : c.inheritable ⊆ I
  bounding : c.bounding ⊆ B
  ids : ∀ id ∈ c.ids, id ∈ U

section
variable {P I B : Finset Nat} {U : List Nat}

/-- The capabilities of one who is within the bounds. -/
theorem Within.effective (h : Within P I B U c) : c.effective ⊆ P := c.effective_le.trans h.permitted

theorem Within.fixup (h : Within P I B U c) {ruid euid suid : Nat} (hids : ∀ id ∈ [ruid, euid, suid], id ∈ U) :
    Within P I B U (c.setuid_fixup ruid euid suid) := by
  obtain ⟨hi, hp, hinh, hbound, hnnp⟩ := setuid_fixup_spec c ruid euid suid
  refine ⟨hnnp.trans h.no_new_privs, hp.trans h.permitted, hinh ▸ h.inheritable, hbound ▸ h.bounding,
    fun id hid => ?_⟩
  rw [hi] at hid
  exact hids id hid

theorem Within.setuid (h : Within P I B U c) (hP : CAP_SETUID ∉ P) {uid : Nat} (hc' : c.setuid uid = some c') :
    Within P I B U c' := by
  rw [Creds.setuid, if_neg fun hcap => hP (h.effective hcap)] at hc'
  split at hc'
  · rename_i huid
    cases hc'
    refine h.fixup fun id hid => h.ids id ?_
    have hold : id = c.ruid ∨ id = c.suid := by
      simp only [List.mem_cons, List.not_mem_nil, or_false] at hid
      rcases hid with hid | hid | hid
      · exact .inl hid
      · rwa [hid]
      · exact .inr hid
    rcases hold with rfl | rfl
    · exact List.mem_cons_self
    · exact List.mem_cons_of_mem _ (List.mem_cons_of_mem _ List.mem_cons_self)
  · cases hc'

theorem Within.setresuid (h : Within P I B U c) (hP : CAP_SETUID ∉ P) {ruid euid suid : Nat}
    (hc' : c.setresuid ruid euid suid = some c') : Within P I B U c' := by
  rw [Creds.setresuid] at hc'
  split at hc'
  · rename_i hids
    obtain ⟨hr, he, hs⟩ := hids.resolve_left fun hcap => hP (h.effective hcap)
    cases hc'
    refine h.fixup fun id hid => h.ids id ?_
    simp only [List.mem_cons, List.not_mem_nil, or_false] at hid
    rcases hid with rfl | rfl | rfl
    · exact hr
    · exact he
    · exact hs
  · cases hc'

theorem Within.capset (h : Within P I B U c) (hPI : P ⊆ I) (hP : CAP_SETPCAP ∉ P)
    {effective permitted inheritable : Finset Nat} (hc' : c.capset effective permitted inheritable = some c') :
    Within P I B U c' := by
  rw [Creds.capset] at hc'
  split at hc'
  · rename_i hallowed
    cases hc'
    have hinh := hallowed.2.2.2.resolve_left fun hcap => hP (h.effective hcap)
    exact ⟨h.no_new_privs, hallowed.2.1.trans h.permitted,
      hinh.trans (Finset.union_subset h.inheritable (h.permitted.trans hPI)), h.bounding, h.ids⟩
  · cases hc'

/-- With `no_new_privs`, no file gives anything. -/
theorem Within.execve (h : Within P I B U c) (file : Executable) : Within P I B U (c.execve file) := by
  refine ⟨h.no_new_privs, ?_, h.inheritable, h.bounding, fun id hid => h.ids id ?_⟩
  · refine Finset.union_subset ?_ (((c.exec_ambient_le file).trans Finset.inter_subset_left).trans h.permitted)
    rw [Creds.exec_permitted, if_pos h.no_new_privs]
    exact Finset.inter_subset_right.trans h.permitted
  · have heuid : c.exec_euid file = c.ruid := if_pos h.no_new_privs
    simp only [Creds.ids, Creds.execve, heuid, List.mem_cons, List.not_mem_nil, or_false, or_self] at hid
    rw [hid]
    exact List.mem_cons_self

/-- A call without a change of ids or sets that count. -/
theorem step_within (hPI : P ⊆ I) (hsetuid : CAP_SETUID ∉ P) (hsetpcap : CAP_SETPCAP ∉ P)
    (h : Within P I B U c) (a : Call) : Within P I B U (step c a) := by
  have hgetD : ∀ {result : Option Creds}, (∀ c', result = some c' → Within P I B U c') →
      Within P I B U (result.getD c) := by
    intro result hresult
    cases result with
    | none => exact h
    | some c' => exact hresult c' rfl
  cases a with
  | setuid uid => exact hgetD fun c' hc' => h.setuid hsetuid hc'
  | setresuid ruid euid suid => exact hgetD fun c' hc' => h.setresuid hsetuid hc'
  | capset effective permitted inheritable => exact hgetD fun c' hc' => h.capset hPI hsetpcap hc'
  | execve file => exact h.execve file
  | set_no_new_privs => exact ⟨rfl, h.permitted, h.inheritable, h.bounding, h.ids⟩
  | setgid gid =>
      refine hgetD fun c' hc' => ?_
      rw [Creds.setgid] at hc'
      split at hc'
      · cases hc'
        exact ⟨h.no_new_privs, h.permitted, h.inheritable, h.bounding, h.ids⟩
      · split at hc'
        · cases hc'
          exact ⟨h.no_new_privs, h.permitted, h.inheritable, h.bounding, h.ids⟩
        · cases hc'
  | setgroups groups =>
      refine hgetD fun c' hc' => ?_
      rw [Creds.setgroups] at hc'
      split at hc'
      · cases hc'
        exact ⟨h.no_new_privs, h.permitted, h.inheritable, h.bounding, h.ids⟩
      · cases hc'
  | capbset_drop cap =>
      refine hgetD fun c' hc' => ?_
      rw [Creds.capbset_drop] at hc'
      split at hc'
      · cases hc'
        exact ⟨h.no_new_privs, h.permitted, h.inheritable, (Finset.erase_subset ..).trans h.bounding, h.ids⟩
      · cases hc'
  | set_ambient ambient =>
      refine hgetD fun c' hc' => ?_
      rw [Creds.set_ambient] at hc'
      split at hc'
      · cases hc'
        exact ⟨h.no_new_privs, h.permitted, h.inheritable, h.bounding, h.ids⟩
      · cases hc'

/-- **No run of calls gets out of the bounds.** -/
theorem run_within (hPI : P ⊆ I) (hsetuid : CAP_SETUID ∉ P) (hsetpcap : CAP_SETPCAP ∉ P)
    (h : Within P I B U c) (calls : List Call) : Within P I B U (Run.exec step c calls) :=
  @Run.inv_exec _ _ step (fun _ _ => True) (Within P I B U)
    (fun _ a hc _ => step_within hPI hsetuid hsetpcap hc a) calls c h
    (Run.Guarded.of_forall (fun _ _ => trivial) calls c)

end

end Fsmon.Credentials
