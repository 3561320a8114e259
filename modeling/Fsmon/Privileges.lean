/-
# `Fsmon.Privileges` — `drop_privileges`, thread by thread

The daemon sheds its capabilities when the groups exist.  By then the runtime has
its threads: the C library's `setgroups`, `setgid` and `setuid` change all of them,
the raw `capset` and `prctl` the calling one.

    drop_privileges          the drops, in the order of the source, with any failures
    drop_privileges_ok       what it leaves the calling thread with
    drop_privileges_locks    no run of calls gets anything of it back
    drop_privileges_threads  what it leaves the other threads with
-/
import Fsmon.Lib.Credentials
import Mathlib.Data.Finset.Filter

namespace Fsmon.Privileges

open Credentials

/-- The threads of the daemon. -/
structure Process where
  /-- The one that runs `drop_privileges`. -/
  caller : Creds
  others : List Creds

inductive DropError where
  /-- "setgid(gid) while dropping privileges" -/
  | setgid (gid : Nat)
  /-- "setuid(uid) while dropping privileges" -/
  | setuid (uid : Nat)
  /-- "clearing capability sets after fanotify setup" -/
  | capset
  /-- "PR_SET_NO_NEW_PRIVS failed" -/
  | no_new_privs
  /-- The C library ends a process whose threads do not agree. -/
  | aborted

/-- Failures beyond what the credentials forbid. -/
structure Faults where
  capbset_drop : Nat → Bool
  setgroups : Bool
  setgid : Bool
  setuid : Bool
  capset : Bool
  no_new_privs : Bool

/-- Nothing fails. -/
def Faults.none : Faults := ⟨fun _ => false, false, false, false, false, false⟩

def CAP_LAST_CAP : Nat := 40

namespace Process

/-- A call that the C library makes in every thread; it is refused in all of them (`none`) or in none. -/
def setxid (fault : Bool) (call : Creds → Option Creds) (p : Process) : Except DropError (Option Process) :=
  if fault then .ok .none
  else
    match call p.caller with
    | .none => if p.others.all fun t => (call t).isNone then .ok .none else .error .aborted
    | some caller =>
        if p.others.all fun t => (call t).isSome then
          .ok (some ⟨caller, p.others.map fun t => (call t).getD t⟩)
        else .error .aborted

/-- The capabilities in the order in which `drop_bounding_set` drops them. -/
def drop_order : List Nat := (List.range (CAP_LAST_CAP + 1)).filter (· ≠ CAP_SETPCAP) ++ [CAP_SETPCAP]

/-- `drop_bounding_set`: best effort, in the calling thread. -/
def drop_bounding_set (faults : Faults) (p : Process) : Process :=
  { p with
    caller := drop_order.foldl
      (fun c cap => if faults.capbset_drop cap then c else (c.capbset_drop cap).getD c) p.caller }

/-- `clear_all_capabilities`, in the calling thread. -/
def clear_all_capabilities (faults : Faults) (p : Process) : Option Process :=
  if faults.capset then .none else (p.caller.capset ∅ ∅ ∅).map fun caller => { p with caller }

/-- `prctl(PR_SET_NO_NEW_PRIVS)`, in the calling thread. -/
def set_no_new_privs (faults : Faults) (p : Process) : Option Process :=
  if faults.no_new_privs then .none else some { p with caller := p.caller.set_no_new_privs }

end Process

open Process

/-- The way from root to the service user. -/
def become (uid gid : Nat) (faults : Faults) (p : Process) : Except DropError Process := do
  -- a refused `setgroups` is a warning
  let p ← (p.setxid faults.setgroups fun c => c.setgroups []).map fun r => r.getD p
  let p ← (← p.setxid faults.setgid fun c => c.setgid gid).elim (.error (.setgid gid)) .ok
  (← p.setxid faults.setuid fun c => c.setuid uid).elim (.error (.setuid uid)) .ok

/-- `drop_privileges`, where `resolve_uid_gid` gives these ids. -/
def drop_privileges (uid gid : Nat) (faults : Faults) (p : Process) : Except DropError Process := do
  let p' ←
    (if p.caller.euid = 0 ∧ uid ≠ 0 then become uid gid faults (p.drop_bounding_set faults)
    else .ok (p.drop_bounding_set faults))
  let p' ← (p'.clear_all_capabilities faults).elim (.error .capset) .ok
  (p'.set_no_new_privs faults).elim (.error .no_new_privs) .ok

/-! ## The calling thread's bounding set -/

/-- What dropping a list of capabilities leaves, in whatever order they come. -/
theorem foldl_capbset_drop (fault : Nat → Bool) : ∀ (caps : List Nat) (c : Creds),
    caps.foldl (fun c cap => if fault cap then c else (c.capbset_drop cap).getD c) c =
      { c with
        bounding :=
          if CAP_SETPCAP ∈ c.effective then c.bounding.filter fun b => b ∈ caps → fault b = true
          else c.bounding } := by
  intro caps
  induction caps with
  | nil =>
      intro c
      simp
  | cons cap caps ih =>
      intro c
      rw [List.foldl_cons, ih]
      by_cases hcap : CAP_SETPCAP ∈ c.effective
      · by_cases hfault : fault cap = true
        · simp only [if_pos hfault, if_pos hcap]
          congr 1
          refine Finset.filter_congr fun b _ => ?_
          simp only [List.mem_cons]
          refine ⟨fun h hb => ?_, fun h hb => h (.inr hb)⟩
          rcases hb with rfl | hb
          · exact hfault
          · exact h hb
        · simp only [if_neg hfault, Creds.capbset_drop, if_pos hcap, Option.getD_some]
          congr 1
          ext b
          simp only [Finset.mem_filter, Finset.mem_erase, List.mem_cons]
          constructor
          · rintro ⟨⟨hne, hb⟩, h⟩
            exact ⟨hb, fun hor => h (hor.resolve_left hne)⟩
          · rintro ⟨hb, h⟩
            refine ⟨⟨?_, hb⟩, fun hmem => h (.inr hmem)⟩
            rintro rfl
            exact hfault (h (.inl rfl))
      · by_cases hfault : fault cap = true
        · simp only [if_pos hfault, if_neg hcap]
        · simp only [if_neg hfault, Creds.capbset_drop, if_neg hcap, Option.getD_none]

theorem mem_drop_order {cap : Nat} : cap ∈ drop_order ↔ cap ≤ CAP_LAST_CAP := by
  have hset : CAP_SETPCAP < CAP_LAST_CAP + 1 := by decide
  rw [drop_order, List.mem_append, List.mem_filter, List.mem_range, List.mem_singleton, ← Nat.lt_succ_iff]
  constructor
  · rintro (⟨h, -⟩ | rfl)
    · exact h
    · exact hset
  · intro h
    by_cases hcap : cap = CAP_SETPCAP
    · exact .inr hcap
    · exact .inl ⟨h, decide_eq_true hcap⟩

/-- The bounding set that `drop_bounding_set` leaves. -/
def bounding_left (faults : Faults) (c : Creds) : Finset Nat :=
  if CAP_SETPCAP ∈ c.effective then
    c.bounding.filter fun b => b ≤ CAP_LAST_CAP → faults.capbset_drop b = true
  else c.bounding

theorem drop_bounding_set_eq (faults : Faults) (p : Process) :
    p.drop_bounding_set faults = { p with caller := { p.caller with bounding := bounding_left faults p.caller } } := by
  rw [Process.drop_bounding_set, foldl_capbset_drop]
  simp only [mem_drop_order, bounding_left]

/-! ## The ids of all threads -/

/-- What a thread is made into on the way to the service user. -/
def Became (uid : Nat) (t t' : Creds) : Prop :=
  ∃ rgid egid sgid groups, { t with rgid, egid, sgid, groups }.setuid uid = some t'

theorem setgroups_some {c c' : Creds} {groups : List Nat} (h : c.setgroups groups = some c') :
    c' = { c with groups } := by
  rw [Creds.setgroups] at h
  split at h
  · cases h
    rfl
  · cases h

theorem setgid_some {c c' : Creds} {gid : Nat} (h : c.setgid gid = some c') :
    ∃ rgid egid sgid, c' = { c with rgid, egid, sgid } := by
  rw [Creds.setgid] at h
  split at h
  · cases h
    exact ⟨gid, gid, gid, rfl⟩
  · split at h
    · cases h
      exact ⟨c.rgid, gid, c.sgid, rfl⟩
    · cases h

/-- What a relation says of a process: every thread comes from one that it relates it to. -/
structure EachThread (R : Creds → Creds → Prop) (p p' : Process) : Prop where
  caller : R p.caller p'.caller
  others : ∀ t' ∈ p'.others, ∃ t ∈ p.others, R t t'
  length : p'.others.length = p.others.length

theorem EachThread.comp {R S T : Creds → Creds → Prop} {p p₁ p' : Process} (h : EachThread R p p₁)
    (h' : EachThread S p₁ p') (hcomp : ∀ t t₁ t', R t t₁ → S t₁ t' → T t t') : EachThread T p p' where
  caller := hcomp _ _ _ h.caller h'.caller
  others t' ht' := by
    obtain ⟨t₁, ht₁, hs⟩ := h'.others t' ht'
    obtain ⟨t, ht, hr⟩ := h.others t₁ ht₁
    exact ⟨t, ht, hcomp _ _ _ hr hs⟩
  length := h'.length.trans h.length

/-- A call that is made is made in every thread. -/
theorem setxid_some {fault : Bool} {call : Creds → Option Creds} {p p' : Process}
    (h : p.setxid fault call = .ok (some p')) : EachThread (fun t t' => call t = some t') p p' := by
  rw [Process.setxid] at h
  split at h
  · cases h
  · cases hcall : call p.caller with
    | none =>
        rw [hcall] at h
        dsimp only at h
        split at h <;> cases h
    | some caller =>
        rw [hcall] at h
        dsimp only at h
        split at h
        · rename_i hall
          cases h
          refine ⟨hcall, fun t' ht' => ?_, List.length_map _⟩
          obtain ⟨t, ht, rfl⟩ := List.mem_map.1 ht'
          have hsome := List.all_eq_true.1 hall t ht
          refine ⟨t, ht, ?_⟩
          cases hct : call t with
          | none =>
              rw [hct] at hsome
              cases hsome
          | some t' => rfl
        · cases h

/-- From a computation that succeeds, its first part and the rest. -/
theorem bind_ok {α β : Type} {x : Except DropError α} {f : α → Except DropError β} {b : β}
    (h : x.bind f = .ok b) : ∃ a, x = .ok a ∧ f a = .ok b := by
  cases x with
  | error e => cases h
  | ok a => exact ⟨a, rfl, h⟩

theorem elim_ok {α : Type} {x : Option α} {e : DropError} {a : α} (h : x.elim (.error e) .ok = Except.ok a) :
    x = some a := by
  cases x with
  | none => cases h
  | some a' =>
      cases h
      rfl

/-- `setgroups`, with a warning or without. -/
theorem setgroups_ok {fault : Bool} {p p' : Process}
    (h : (p.setxid fault fun c => c.setgroups []).map (fun r => r.getD p) = .ok p') :
    EachThread (fun t t' => ∃ groups, t' = { t with groups }) p p' := by
  cases hset : p.setxid fault fun c => c.setgroups [] with
  | error e =>
      rw [hset] at h
      cases h
  | ok r =>
      rw [hset] at h
      cases r with
      | none =>
          cases h
          exact ⟨⟨_, rfl⟩, fun t ht => ⟨t, ht, _, rfl⟩, rfl⟩
      | some p₁ =>
          cases h
          obtain ⟨hcaller, hothers, hlength⟩ := setxid_some hset
          refine ⟨⟨_, setgroups_some hcaller⟩, fun t' ht' => ?_, hlength⟩
          obtain ⟨t, ht, hcall⟩ := hothers t' ht'
          exact ⟨t, ht, _, setgroups_some hcall⟩

theorem become_ok {uid gid : Nat} {faults : Faults} {p p' : Process} (h : become uid gid faults p = .ok p') :
    EachThread (Became uid) p p' := by
  obtain ⟨p₁, hgroups, h₁⟩ := bind_ok h
  obtain ⟨r₂, hgid, h₂⟩ := bind_ok h₁
  obtain ⟨p₂, hr₂, h₃⟩ := bind_ok h₂
  obtain ⟨r₃, huid, hr₃⟩ := bind_ok h₃
  rw [elim_ok hr₂] at hgid
  rw [elim_ok hr₃] at huid
  have hids : EachThread (fun t t₂ => ∃ rgid egid sgid groups, t₂ = { t with rgid, egid, sgid, groups }) p p₂ := by
    refine (setgroups_ok hgroups).comp (setxid_some hgid) fun t t₁ t₂ ht₁ ht₂ => ?_
    obtain ⟨groups, rfl⟩ := ht₁
    obtain ⟨rgid, egid, sgid, rfl⟩ := setgid_some ht₂
    exact ⟨rgid, egid, sgid, groups, rfl⟩
  refine hids.comp (setxid_some huid) fun t t₂ t₃ ht₂ ht₃ => ?_
  obtain ⟨rgid, egid, sgid, groups, rfl⟩ := ht₂
  exact ⟨rgid, egid, sgid, groups, ht₃⟩

/-- What a thread keeps of its sets on the way to the service user. -/
theorem Became.keeps {uid : Nat} {t t' : Creds} (h : Became uid t t') :
    t'.bounding = t.bounding ∧ t'.inheritable = t.inheritable ∧ t'.no_new_privs = t.no_new_privs := by
  obtain ⟨rgid, egid, sgid, groups, h⟩ := h
  rw [Creds.setuid] at h
  split at h
  · cases h
    obtain ⟨-, -, hinh, hbound, hnnp⟩ := setuid_fixup_spec { t with rgid, egid, sgid, groups } uid uid uid
    exact ⟨hbound, hinh, hnnp⟩
  · split at h
    · cases h
      obtain ⟨-, -, hinh, hbound, hnnp⟩ := setuid_fixup_spec { t with rgid, egid, sgid, groups } t.ruid uid t.suid
      exact ⟨hbound, hinh, hnnp⟩
    · cases h

/-- With `CAP_SETUID`, no other user id is left. -/
theorem Became.ids {uid : Nat} {t t' : Creds} (h : Became uid t t') (hcap : CAP_SETUID ∈ t.effective) :
    t'.ids = [uid, uid, uid] := by
  obtain ⟨rgid, egid, sgid, groups, h⟩ := h
  rw [Creds.setuid, if_pos hcap] at h
  cases h
  exact (setuid_fixup_spec ..).1

/-- When a thread that was user 0 has lost its capabilities by becoming another user. -/
theorem Became.permitted_iff {uid : Nat} {t t' : Creds} (h : Became uid t t') (hroot : t.euid = 0)
    (huid : uid ≠ 0) :
    t'.permitted = ∅ ↔ t.permitted = ∅ ∨ CAP_SETUID ∈ t.effective ∨ (t.ruid ≠ 0 ∧ t.suid ≠ 0) := by
  obtain ⟨rgid, egid, sgid, groups, h⟩ := h
  have hzero : 0 ∈ t.ids := by simp [Creds.ids, hroot]
  rw [Creds.setuid] at h
  split at h
  · rename_i hcap
    cases h
    refine (setuid_fixup_permitted_iff (c := { t with rgid, egid, sgid, groups }) hzero uid uid uid).trans ?_
    exact or_congr_right (iff_of_true ⟨huid, huid, huid⟩ (.inl hcap))
  · rename_i hcap
    split at h
    · cases h
      refine (setuid_fixup_permitted_iff (c := { t with rgid, egid, sgid, groups }) hzero t.ruid uid t.suid).trans ?_
      refine or_congr_right ⟨fun hids => .inr ⟨hids.1, hids.2.2⟩, fun hids => ?_⟩
      have hkept := hids.resolve_left hcap
      exact ⟨hkept.1, huid, hkept.2⟩
    · cases h

/-! ## What is left -/

/-- After the ids: the calling thread is emptied and sealed, and the others are as they were. -/
theorem drop_privileges_ok {uid gid : Nat} {faults : Faults} {p p' : Process}
    (h : drop_privileges uid gid faults p = .ok p') :
    ∃ p₁, (p.caller.euid = 0 ∧ uid ≠ 0 → EachThread (Became uid) (p.drop_bounding_set faults) p₁) ∧
      (¬ (p.caller.euid = 0 ∧ uid ≠ 0) → p₁ = p.drop_bounding_set faults) ∧ p'.others = p₁.others ∧
      Within ∅ ∅ p₁.caller.bounding p₁.caller.ids p'.caller := by
  obtain ⟨p₁, hids, h₁⟩ := bind_ok h
  obtain ⟨p₂, hclear, h₂⟩ := bind_ok h₁
  refine ⟨p₁, fun hroot => ?_, fun hroot => ?_, ?_⟩
  · rw [if_pos hroot] at hids
    exact become_ok hids
  · rw [if_neg hroot] at hids
    cases hids
    rfl
  · have hclear := elim_ok hclear
    have hseal := elim_ok h₂
    rw [Process.clear_all_capabilities] at hclear
    split at hclear
    · cases hclear
    · obtain ⟨caller, hcapset, rfl⟩ := Option.map_eq_some_iff.1 hclear
      rw [Process.set_no_new_privs] at hseal
      split at hseal
      · cases hseal
      · cases hseal
        rw [Creds.capset] at hcapset
        split at hcapset
        · cases hcapset
          exact ⟨rfl, rfl, Finset.Subset.refl _, Finset.Subset.refl _, Finset.Subset.refl _, fun id hid => hid⟩
        · cases hcapset

/-- Giving up one's own capabilities is never refused. -/
theorem drop_privileges_other_user {uid gid : Nat} {p : Process} (h : p.caller.euid ≠ 0) :
    ∃ p', drop_privileges uid gid .none p = .ok p' := by
  have hallowed : ∀ c : Creds, (∅ : Finset Nat) ⊆ ∅ ∧ ∅ ⊆ c.permitted ∧ ∅ ⊆ c.inheritable ∪ c.bounding ∧
      (CAP_SETPCAP ∈ c.effective ∨ ∅ ⊆ c.inheritable ∪ c.permitted) := fun c =>
    ⟨Finset.empty_subset _, Finset.empty_subset _, Finset.empty_subset _, .inr (Finset.empty_subset _)⟩
  rw [drop_privileges, if_neg fun hroot => h hroot.1]
  generalize p.drop_bounding_set .none = p₁
  have hclear : ∃ p₂, p₁.clear_all_capabilities .none = some p₂ := by
    rw [Process.clear_all_capabilities, if_neg (by decide), Creds.capset, dif_pos (hallowed _)]
    exact ⟨_, rfl⟩
  obtain ⟨p₂, hp₂⟩ := hclear
  refine ⟨{ p₂ with caller := p₂.caller.set_no_new_privs }, ?_⟩
  simp only [Bind.bind, Except.bind, hp₂, Option.elim]
  rfl

/-- After `drop_privileges`, whatever failed on the way, the calling thread has no capability, and no run of
system calls gets it one or extends its bounding set; and where it has become the service user, no user id of
another user. -/
theorem drop_privileges_locks {uid gid : Nat} {faults : Faults} {p p' : Process}
    (h : drop_privileges uid gid faults p = .ok p') (calls : List Call) :
    let c := Run.exec step p'.caller calls
    c.effective = ∅ ∧ c.permitted = ∅ ∧ c.inheritable = ∅ ∧ c.ambient = ∅ ∧
      c.bounding ⊆ bounding_left faults p.caller ∧
      (p.caller.euid = 0 → uid ≠ 0 → CAP_SETUID ∈ p.caller.effective → ∀ id ∈ c.ids, id = uid) := by
  intro c
  obtain ⟨p₁, hroot, hother, -, hwithin⟩ := drop_privileges_ok h
  have hc : Within ∅ ∅ p₁.caller.bounding p₁.caller.ids c :=
    run_within (Finset.Subset.refl _) (Finset.notMem_empty _) (Finset.notMem_empty _) hwithin calls
  have hbounding : p₁.caller.bounding = bounding_left faults p.caller := by
    by_cases hpath : p.caller.euid = 0 ∧ uid ≠ 0
    · rw [(hroot hpath).caller.keeps.1, drop_bounding_set_eq]
    · rw [hother hpath, drop_bounding_set_eq]
  refine ⟨Finset.subset_empty.1 hc.effective, Finset.subset_empty.1 hc.permitted,
    Finset.subset_empty.1 hc.inheritable, ?_,
    hbounding ▸ hc.bounding, fun heuid huid hcap id hid => ?_⟩
  · exact Finset.subset_empty.1 ((c.ambient_le.trans Finset.inter_subset_left).trans hc.permitted)
  · have hids : p₁.caller.ids = [uid, uid, uid] := by
      refine (hroot ⟨heuid, huid⟩).caller.ids ?_
      rw [drop_bounding_set_eq]
      exact hcap
    have hmem := hc.ids id hid
    rw [hids] at hmem
    simpa using hmem

/-- As under the systemd unit: the service user, with `CAP_SYS_ADMIN`. -/
def service : Creds where
  ruid := 998
  euid := 998
  suid := 998
  rgid := 998
  egid := 998
  sgid := 998
  groups := []
  effective := {21}
  permitted := {21}
  inheritable := {21}
  bounding := {21}
  ambient := {21}
  no_new_privs := false
  effective_le := Finset.Subset.refl _
  ambient_le := by decide

theorem drop_privileges_locks_service : ∃ p', drop_privileges 998 998 .none ⟨service, [service]⟩ = .ok p' ∧
    (Run.exec step p'.caller [.capset {21} {21} ∅, .execve ⟨some 0, none⟩, .setuid 0]).permitted = ∅ := by
  obtain ⟨p', h⟩ := @drop_privileges_other_user 998 998 ⟨service, [service]⟩ (by decide)
  exact ⟨p', h, (drop_privileges_locks h _).2.1⟩

/-- The daemon's threads: the others are clones of the one that runs `drop_privileges`. -/
def Process.clones (c : Creds) (n : Nat) : Process := ⟨c, List.replicate n c⟩

/-- What `drop_privileges` does for the other threads: they are without capabilities exactly if there were none,
or the process was root and has left user 0 for good; and their bounding sets, their inheritable sets and
`no_new_privs` are as before. -/
theorem drop_privileges_threads {uid gid n : Nat} {faults : Faults} {c : Creds} {p' : Process}
    (h : drop_privileges uid gid faults (.clones c n) = .ok p') :
    p'.others.length = n ∧
      (∀ t ∈ p'.others, t.bounding = c.bounding ∧ t.inheritable = c.inheritable ∧
        t.no_new_privs = c.no_new_privs) ∧
      ((∀ t ∈ p'.others, t.permitted = ∅) ↔ n = 0 ∨ c.permitted = ∅ ∨
        (c.euid = 0 ∧ uid ≠ 0 ∧ (CAP_SETUID ∈ c.effective ∨ (c.ruid ≠ 0 ∧ c.suid ≠ 0)))) := by
  obtain ⟨p₁, hroot, hother, hothers, -⟩ := drop_privileges_ok h
  have hthread : p₁.others.length = n ∧ ∀ t ∈ p₁.others, t.bounding = c.bounding ∧
      t.inheritable = c.inheritable ∧ t.no_new_privs = c.no_new_privs ∧
      (t.permitted = ∅ ↔ c.permitted = ∅ ∨
        (c.euid = 0 ∧ uid ≠ 0 ∧ (CAP_SETUID ∈ c.effective ∨ (c.ruid ≠ 0 ∧ c.suid ≠ 0)))) := by
    by_cases hpath : c.euid = 0 ∧ uid ≠ 0
    · have heach := hroot hpath
      rw [drop_bounding_set_eq] at heach
      refine ⟨heach.length.trans (List.length_replicate ..), fun t' ht' => ?_⟩
      obtain ⟨t, ht, hbecame⟩ := heach.others t' ht'
      rw [List.eq_of_mem_replicate ht] at hbecame
      obtain ⟨hbound, hinh, hnnp⟩ := hbecame.keeps
      refine ⟨hbound, hinh, hnnp, (hbecame.permitted_iff hpath.1 hpath.2).trans (or_congr_right ?_)⟩
      exact ⟨fun hx => ⟨hpath.1, hpath.2, hx⟩, fun hx => hx.2.2⟩
    · rw [hother hpath, drop_bounding_set_eq]
      refine ⟨List.length_replicate .., fun t ht => ?_⟩
      rw [List.eq_of_mem_replicate ht]
      exact ⟨rfl, rfl, rfl, (or_iff_left fun hx => hpath ⟨hx.1, hx.2.1⟩).symm⟩
  obtain ⟨hlength, hall⟩ := hthread
  rw [hothers]
  refine ⟨hlength, fun t ht => ⟨(hall t ht).1, (hall t ht).2.1, (hall t ht).2.2.1⟩, fun hempty => ?_, ?_⟩
  · cases hcases : p₁.others with
    | nil =>
        rw [hcases] at hlength
        exact .inl hlength.symm
    | cons t rest =>
        have ht : t ∈ p₁.others := by
          rw [hcases]
          exact List.mem_cons_self
        exact .inr ((hall t ht).2.2.2.1 (hempty t ht))
  · rintro (rfl | hx) t ht
    · rw [List.length_eq_zero_iff.1 hlength] at ht
      cases ht
    · exact (hall t ht).2.2.2.2 hx

/-- Under the systemd unit, another thread of the runtime keeps `CAP_SYS_ADMIN`. -/
theorem drop_privileges_threads_service :
    ∃ p', drop_privileges 998 998 .none (.clones service 1) = .ok p' ∧ ¬ ∀ t ∈ p'.others, t.permitted = ∅ := by
  obtain ⟨p', h⟩ := @drop_privileges_other_user 998 998 (.clones service 1) (by decide)
  refine ⟨p', h, fun hempty => ?_⟩
  have hiff := (drop_privileges_threads h).2.2
  exact absurd (hiff.1 hempty) (by decide)

end Fsmon.Privileges
