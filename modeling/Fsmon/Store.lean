/-
# `Fsmon.Store` — the monitored store

`Monitored` of `common/monitored.rs`: the entries that `fsmon add` and `fsmon
remove` keep in a file, one group for each cmd, one parameter set for each path
of a group.  A command loads the file, changes the value and saves it; here a
store is the value, and loading it is `validate`, which drops groups without
paths.

`held` is what a store says, as a set of (path, cmd, options): the cmd with
`_global` read as none, the options as the daemon would read them, errors
included.  `held_add_entry` and `held_remove_entry` say what the operations do
to it.
-/
import Fsmon.Options
import Fsmon.Lib.HashMap
import Mathlib.Data.Set.Insert

namespace Fsmon

/-- Per-path filtering parameters. -/
structure PathParams where
  recursive : Option Bool
  types : Option (List String)
  size : Option String
  max_depth : Option Nat
  deriving DecidableEq, Repr

/-- `From<&PathEntry> for PathParams`. -/
def PathParams.from (e : PathEntry) : PathParams := ⟨e.recursive, e.types, e.size, e.max_depth⟩

/-- Per-process-name group of monitored paths. -/
structure CmdGroup where
  cmd : String
  paths : HashMap PathBuf PathParams
  deriving DecidableEq

/-- The monitored paths database. -/
structure Monitored where
  groups : List CmdGroup
  deriving DecidableEq

/-- One entry as both sides see it: the path, the cmd group, the options. -/
abbrev Held := PathBuf × Option String × Except Str PathOptions

namespace CmdGroup

/-- The entry of one path of the group, in its flat form. -/
def entry (g : CmdGroup) (path : PathBuf) (params : PathParams) : PathEntry where
  cmd := some g.cmd
  path := path
  recursive := params.recursive
  types := params.types
  size := params.size
  max_depth := params.max_depth

end CmdGroup

namespace Monitored

/-- Remove empty groups. -/
def validate (s : Monitored) : Monitored := ⟨s.groups.filter fun g => g.paths.entries ≠ []⟩

/-- Flatten all groups into entries. -/
def flatten (s : Monitored) : List PathEntry :=
  s.groups.flatMap fun g => g.paths.entries.map fun e => g.entry e.1 e.2

/-- Insert into the first group of a cmd, or into a new one. -/
def insert_in (cmd : String) (path : PathBuf) (params : PathParams) : List CmdGroup → List CmdGroup
  | [] => [⟨cmd, AList.insert path params ∅⟩]
  | g :: gs =>
      if g.cmd = cmd then { g with paths := g.paths.insert path params } :: gs
      else g :: insert_in cmd path params gs

/-- Add an entry.  Without a cmd it goes to the global group. -/
def add_entry (s : Monitored) (entry : PathEntry) : Monitored :=
  ⟨insert_in (entry.cmd.getD CMD_GLOBAL) entry.path (.from entry) s.groups⟩

/-- Remove the entries of a path in a cmd group; and whether there was one. -/
def remove_entry (s : Monitored) (path : PathBuf) (cmd : Option String) : Monitored × Bool :=
  let target := cmd.getD CMD_GLOBAL
  (⟨(s.groups.map fun g => if g.cmd = target then { g with paths := g.paths.erase path } else g).filter
      fun g => g.paths.entries ≠ []⟩,
    s.groups.any fun g => g.cmd = target && g.paths.contains_key path)

/-- Remove an entire cmd group; and whether there was one. -/
def remove_cmd_group (s : Monitored) (cmd : Option String) : Monitored × Bool :=
  (⟨s.groups.filter fun g => g.cmd ≠ cmd.getD CMD_GLOBAL⟩,
    s.groups.any fun g => g.cmd = cmd.getD CMD_GLOBAL)

/-- Check if a specific (path, cmd) entry exists. -/
def has_entry (s : Monitored) (path : PathBuf) (cmd : Option String) : Bool :=
  s.groups.any fun g => g.cmd = cmd.getD CMD_GLOBAL && g.paths.contains_key path

section
variable [Sizefilter]

/-- What an entry says. -/
def held_of (e : PathEntry) : Held := (e.path, cmd_filter e.cmd, PathOptions.try_from e)

/-- What the store says. -/
def held (s : Monitored) : Set Held := fun h => ∃ e ∈ s.flatten, held_of e = h

/-- What one group says. -/
def tells (g : CmdGroup) : Set Held :=
  fun h => ∃ path params, g.paths.lookup path = some params ∧ held_of (g.entry path params) = h

theorem mem_held {s : Monitored} {h : Held} : h ∈ s.held ↔ ∃ g ∈ s.groups, h ∈ tells g := by
  constructor
  · rintro ⟨e, he, rfl⟩
    obtain ⟨g, hg, he⟩ := List.mem_flatMap.1 he
    obtain ⟨⟨path, params⟩, hmem, rfl⟩ := List.mem_map.1 he
    exact ⟨g, hg, path, params, AList.mem_lookup_iff.2 hmem, rfl⟩
  · rintro ⟨g, hg, path, params, hlook, rfl⟩
    exact ⟨g.entry path params, List.mem_flatMap.2 ⟨g, hg, List.mem_map.2
      ⟨⟨path, params⟩, AList.mem_lookup_iff.1 hlook, rfl⟩⟩, rfl⟩

omit [Sizefilter] in
/-- Different cmd names stand for different groups. -/
theorem cmd_filter_some {c d : String} : cmd_filter (some c) = cmd_filter (some d) ↔ c = d := by
  constructor
  · intro h
    simp only [cmd_filter, Option.bind_some] at h
    split at h <;> split at h <;> simp_all
  · rintro rfl
    rfl

/-- The path and the cmd of what a group says. -/
theorem tells_eq {g : CmdGroup} {h : Held} (hg : h ∈ tells g) :
    (g.paths.lookup h.1).isSome = true ∧ h.2.1 = cmd_filter (some g.cmd) := by
  obtain ⟨path, params, hlook, rfl⟩ := hg
  exact ⟨by rw [show (held_of (g.entry path params)).1 = path from rfl, hlook]; rfl, rfl⟩

theorem tells_insert (g : CmdGroup) (path : PathBuf) (params : PathParams) (h : Held) :
    h ∈ tells { g with paths := g.paths.insert path params } ↔
      h = held_of (g.entry path params) ∨ h ∈ tells g ∧ h.1 ≠ path := by
  constructor
  · rintro ⟨q, params', hlook, rfl⟩
    rw [HashMap.lookup_insert'] at hlook
    split at hlook
    · rename_i hq
      cases hlook
      subst hq
      exact Or.inl rfl
    · rename_i hq
      exact Or.inr ⟨⟨q, params', hlook, rfl⟩, hq⟩
  · rintro (rfl | ⟨⟨q, params', hlook, rfl⟩, hq⟩)
    · exact ⟨path, params, by rw [HashMap.lookup_insert', if_pos rfl], rfl⟩
    · have hne : q ≠ path := hq
      exact ⟨q, params', by rw [HashMap.lookup_insert', if_neg hne]; exact hlook, rfl⟩

theorem tells_erase (g : CmdGroup) (path : PathBuf) (h : Held) :
    h ∈ tells { g with paths := g.paths.erase path } ↔ h ∈ tells g ∧ h.1 ≠ path := by
  constructor
  · rintro ⟨q, params, hlook, rfl⟩
    rw [HashMap.lookup_erase'] at hlook
    split at hlook
    · cases hlook
    · rename_i hq
      exact ⟨⟨q, params, hlook, rfl⟩, hq⟩
  · rintro ⟨⟨q, params, hlook, rfl⟩, hq⟩
    have hne : q ≠ path := hq
    exact ⟨q, params, by rw [HashMap.lookup_erase', if_neg hne]; exact hlook, rfl⟩

/-- A group without paths says nothing. -/
theorem tells_empty {g : CmdGroup} {h : Held} (hg : h ∈ tells g) : g.paths.entries ≠ [] := by
  obtain ⟨path, params, hlook, _⟩ := hg
  intro hnil
  have := AList.mem_lookup_iff.1 hlook
  rw [hnil] at this
  cases this

@[simp] theorem held_validate (s : Monitored) : s.validate.held = s.held := by
  ext h
  simp only [mem_held, validate, List.mem_filter, decide_eq_true_eq]
  constructor
  · rintro ⟨g, ⟨hg, _⟩, hh⟩
    exact ⟨g, hg, hh⟩
  · rintro ⟨g, hg, hh⟩
    exact ⟨g, ⟨hg, tells_empty hh⟩, hh⟩

/-- No second group of the cmd has the path, so that an insertion replaces it. -/
def Single (s : Monitored) (cmd : String) (path : PathBuf) : Prop :=
  ∀ g ∈ (s.groups.filter fun g => g.cmd = cmd).tail, g.paths.lookup path = none

theorem tells_insert_in (cmd : String) (path : PathBuf) (params : PathParams) (h : Held) :
    ∀ gs : List CmdGroup,
      (∀ g ∈ (gs.filter fun g => g.cmd = cmd).tail, g.paths.lookup path = none) →
        ((∃ g ∈ insert_in cmd path params gs, h ∈ tells g) ↔
          h = held_of (CmdGroup.entry ⟨cmd, ∅⟩ path params) ∨
            (∃ g ∈ gs, h ∈ tells g) ∧ ¬ (h.1 = path ∧ h.2.1 = cmd_filter (some cmd))) := by
  intro gs
  induction gs with
  | nil =>
      intro _
      simp only [insert_in, List.mem_singleton, exists_eq_left, List.not_mem_nil, false_and,
        exists_false, or_false]
      rw [show (⟨cmd, AList.insert path params ∅⟩ : CmdGroup) =
        { (⟨cmd, ∅⟩ : CmdGroup) with paths := AList.insert path params ∅ } from rfl, tells_insert]
      refine or_iff_left ?_
      rintro ⟨⟨q, params', hlook, _⟩, _⟩
      simp at hlook
  | cons g gs ih =>
      intro hsingle
      rw [insert_in]
      split
      · rename_i hcmd
        simp only [List.mem_cons, exists_eq_or_imp, tells_insert]
        have hrest : (∃ g' ∈ gs, h ∈ tells g') → ¬ (h.1 = path ∧ h.2.1 = cmd_filter (some cmd)) := by
          rintro ⟨g', hg', htold⟩ ⟨hpath, hfilter⟩
          obtain ⟨hsome, hcmd'⟩ := tells_eq htold
          have hmem : g' ∈ ((g :: gs).filter fun g => g.cmd = cmd).tail := by
            rw [List.filter_cons_of_pos (by simpa using hcmd), List.tail_cons, List.mem_filter]
            exact ⟨hg', by simpa using cmd_filter_some.1 (hcmd'.symm.trans hfilter)⟩
          rw [hpath, hsingle g' hmem] at hsome
          cases hsome
        have hhead : held_of (g.entry path params) = held_of (CmdGroup.entry ⟨cmd, ∅⟩ path params) := by
          rw [← hcmd]
          rfl
        rw [hhead]
        constructor
        · rintro ((rfl | ⟨htold, hpath⟩) | hgs)
          · exact Or.inl rfl
          · exact Or.inr ⟨Or.inl htold, fun hb => hpath hb.1⟩
          · exact Or.inr ⟨Or.inr hgs, hrest hgs⟩
        · rintro (rfl | ⟨htold | hgs, hb⟩)
          · exact Or.inl (Or.inl rfl)
          · refine Or.inl (Or.inr ⟨htold, fun hpath => hb ⟨hpath, ?_⟩⟩)
            rw [(tells_eq htold).2, hcmd]
          · exact Or.inr hgs
      · rename_i hcmd
        rw [List.filter_cons_of_neg (by simpa using hcmd)] at hsingle
        simp only [List.mem_cons, exists_eq_or_imp, ih hsingle]
        have hhead : h ∈ tells g → ¬ (h.1 = path ∧ h.2.1 = cmd_filter (some cmd)) := by
          rintro htold ⟨_, hfilter⟩
          exact hcmd (cmd_filter_some.1 ((tells_eq htold).2.symm.trans hfilter))
        constructor
        · rintro (htold | rfl | ⟨hgs, hb⟩)
          · exact Or.inr ⟨Or.inl htold, hhead htold⟩
          · exact Or.inl rfl
          · exact Or.inr ⟨Or.inr hgs, hb⟩
        · rintro (rfl | ⟨htold | hgs, hb⟩)
          · exact Or.inr (Or.inl rfl)
          · exact Or.inl htold
          · exact Or.inr (Or.inr ⟨hgs, hb⟩)

/-- Adding an entry replaces what was held for its path and cmd. -/
theorem held_add_entry {s : Monitored} {e : PathEntry} {c : String} (hcmd : e.cmd = some c)
    (hsingle : s.Single c e.path) (h : Held) :
    h ∈ (s.add_entry e).held ↔
      h = held_of e ∨ h ∈ s.held ∧ ¬ (h.1 = e.path ∧ h.2.1 = cmd_filter (some c)) := by
  have hentry : held_of (CmdGroup.entry ⟨c, ∅⟩ e.path (.from e)) = held_of e := by
    unfold CmdGroup.entry PathParams.from
    rw [← hcmd]
  rw [mem_held, mem_held, ← hentry]
  simp only [add_entry, hcmd, Option.getD_some]
  exact tells_insert_in c e.path (.from e) h s.groups hsingle

/-- Removing an entry removes what was held for its path and cmd, and nothing else. -/
theorem held_remove_entry (s : Monitored) (path : PathBuf) (c : String) (h : Held) :
    h ∈ (s.remove_entry path (some c)).1.held ↔
      h ∈ s.held ∧ ¬ (h.1 = path ∧ h.2.1 = cmd_filter (some c)) := by
  simp only [mem_held, remove_entry, Option.getD_some, List.mem_filter, List.mem_map,
    decide_eq_true_eq]
  constructor
  · rintro ⟨_, ⟨⟨g, hg, rfl⟩, _⟩, htold⟩
    split at htold
    · obtain ⟨htold, hpath⟩ := (tells_erase g path h).1 htold
      exact ⟨⟨g, hg, htold⟩, fun hb => hpath hb.1⟩
    · rename_i hcmd
      refine ⟨⟨g, hg, htold⟩, fun hb => hcmd ?_⟩
      exact cmd_filter_some.1 ((tells_eq htold).2.symm.trans hb.2)
  · rintro ⟨⟨g, hg, htold⟩, hb⟩
    by_cases hcmd : g.cmd = c
    · have herase : h ∈ tells { g with paths := g.paths.erase path } :=
        (tells_erase g path h).2 ⟨htold, fun hpath => hb ⟨hpath, by rw [(tells_eq htold).2, hcmd]⟩⟩
      exact ⟨_, ⟨⟨g, hg, if_pos hcmd⟩, tells_empty herase⟩, herase⟩
    · exact ⟨_, ⟨⟨g, hg, if_neg hcmd⟩, tells_empty htold⟩, htold⟩

theorem has_entry_held {s : Monitored} {path : PathBuf} {c : String}
    (h : s.has_entry path (some c) = true) :
    ∃ opts, ((path, cmd_filter (some c), opts) : Held) ∈ s.held := by
  simp only [has_entry, Option.getD_some, List.any_eq_true, Bool.and_eq_true, decide_eq_true_eq,
    HashMap.contains_key] at h
  obtain ⟨g, hg, rfl, hsome⟩ := h
  obtain ⟨params, hlook⟩ := Option.isSome_iff_exists.1 hsome
  exact ⟨_, mem_held.2 ⟨g, hg, path, params, hlook, rfl⟩⟩

end

end Monitored

end Fsmon
