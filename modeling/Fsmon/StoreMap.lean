/-
# `Fsmon.StoreMap` — the store is a finite map

A `Monitored` is a list of groups with a map of paths in each; what it says is one
flat map from (path, cmd) to parameters, and each operation is one update of it.

    EntryMap     the flat map, with its updates
    to_map       the map of a store
    Grouped      no two groups of one cmd, and none that is empty
    Agrees       the readers say what the map says
    StoreRun     the operations in any order, with saves that fail at any step

Lookups agree in any store; the readers that go through all groups need `Grouped`.
-/
import Fsmon.StoreFile
import Mathlib.Algebra.Ring.Nat
import Mathlib.Data.Finmap

namespace Fsmon

/-- The flat map from paths and cmds to parameters. -/
abbrev EntryMap := Finmap fun _ : PathBuf × String => PathParams

namespace EntryMap

/-- A path and a cmd; none is the global one. -/
def key (path : PathBuf) (cmd : Option String) : PathBuf × String := (path, cmd.getD CMD_GLOBAL)

def put (m : EntryMap) (e : PathEntry) : EntryMap := m.insert (key e.path e.cmd) (.from e)

def drop (m : EntryMap) (path : PathBuf) (cmd : Option String) : EntryMap := m.erase (key path cmd)

theorem nodupKeys_filter {s : Multiset (Sigma fun _ : PathBuf × String => PathParams)} (h : s.NodupKeys)
    (p : (Sigma fun _ : PathBuf × String => PathParams) → Prop) [DecidablePred p] :
    (s.filter p).NodupKeys := by
  rw [← Multiset.nodup_keys] at h ⊢
  exact Multiset.nodup_of_le (Multiset.map_le_map (Multiset.filter_le p s)) h

/-- Without the entries of a cmd. -/
def drop_cmd (m : EntryMap) (cmd : Option String) : EntryMap where
  entries := m.entries.filter fun e => e.1.2 ≠ cmd.getD CMD_GLOBAL
  nodupKeys := nodupKeys_filter m.nodupKeys _

/-- An entry in its flat form. -/
def entry (path : PathBuf) (cmd : String) (params : PathParams) : PathEntry :=
  CmdGroup.entry ⟨cmd, ∅⟩ path params

theorem lookup_put (m : EntryMap) (e : PathEntry) (q : PathBuf × String) :
    (m.put e).lookup q = if q = key e.path e.cmd then some (.from e) else m.lookup q := by
  by_cases h : q = key e.path e.cmd
  · rw [if_pos h, h]
    exact Finmap.lookup_insert m
  · rw [if_neg h]
    exact Finmap.lookup_insert_of_ne m h

theorem lookup_drop (m : EntryMap) (path : PathBuf) (cmd : Option String) (q : PathBuf × String) :
    (m.drop path cmd).lookup q = if q = key path cmd then none else m.lookup q := by
  by_cases h : q = key path cmd
  · rw [if_pos h, h]
    exact Finmap.lookup_erase _ m
  · rw [if_neg h]
    exact Finmap.lookup_erase_ne h

theorem lookup_drop_cmd (m : EntryMap) (cmd : Option String) (q : PathBuf × String) :
    (m.drop_cmd cmd).lookup q = if q.2 = cmd.getD CMD_GLOBAL then none else m.lookup q := by
  ext params
  rw [← Option.mem_def, Finmap.mem_lookup_iff, drop_cmd, Multiset.mem_filter, ← Finmap.mem_lookup_iff]
  by_cases h : q.2 = cmd.getD CMD_GLOBAL
  · simp [h]
  · simp [h]

end EntryMap

namespace Monitored

/-! ## The readers -/

/-- The first group of the cmd that has the path. -/
def get_in (path : PathBuf) (target : String) : List CmdGroup → Option PathEntry
  | [] => none
  | g :: gs =>
      if g.cmd ≠ target then get_in path target gs
      else
        match g.paths.lookup path with
        | some params => some (g.entry path params)
        | none => get_in path target gs

/-- Get an entry by (path, cmd) pair. -/
def get (s : Monitored) (path : PathBuf) (cmd : Option String) : Option PathEntry :=
  get_in path (cmd.getD CMD_GLOBAL) s.groups

/-- Check whether there are no entries. -/
def is_empty (s : Monitored) : Bool := s.groups.isEmpty || s.groups.all fun g => g.paths.entries.isEmpty

/-- Total number of path entries across all groups. -/
def entry_count (s : Monitored) : Nat := (s.groups.map fun g => g.paths.len).sum

/-! ## The map of a store -/

/-- The entries of the groups, in their order. -/
def pairs (gs : List CmdGroup) : List (Sigma fun _ : PathBuf × String => PathParams) :=
  gs.flatMap fun g => g.paths.entries.map fun e => ⟨(e.1, g.cmd), e.2⟩

/-- What a store says; of two groups of one cmd the first counts. -/
def to_map (s : Monitored) : EntryMap := (pairs s.groups).toFinmap

/-- One group for each cmd, and no group without paths. -/
structure Grouped (s : Monitored) : Prop where
  unique : (s.groups.map CmdGroup.cmd).Nodup
  full : ∀ g ∈ s.groups, g.paths.entries ≠ []

/-- The readers say what the map says. -/
structure Agrees (s : Monitored) (m : EntryMap) : Prop where
  get : ∀ path cmd, s.get path cmd =
    (m.lookup (EntryMap.key path cmd)).map (EntryMap.entry path (cmd.getD CMD_GLOBAL))
  has_entry : ∀ path cmd, s.has_entry path cmd = true ↔ EntryMap.key path cmd ∈ m
  entry_count : s.entry_count = m.entries.card
  is_empty : s.is_empty = true ↔ m = ∅
  flatten : (s.flatten : Multiset PathEntry) = m.entries.map fun e => EntryMap.entry e.1.1 e.1.2 e.2

/-! ## Lookups -/

variable {s : Monitored} {gs : List CmdGroup}

/-- What a group says of a key. -/
def told (q : PathBuf × String) (g : CmdGroup) : Option PathParams :=
  if g.cmd = q.2 then g.paths.lookup q.1 else none

theorem dlookup_group (g : CmdGroup) (q : PathBuf × String) :
    (g.paths.entries.map fun e =>
      (⟨(e.1, g.cmd), e.2⟩ : Sigma fun _ : PathBuf × String => PathParams)).dlookup q = told q g := by
  rw [told, AList.lookup]
  generalize g.paths.entries = es
  induction es with
  | nil =>
      split
      · rfl
      · rfl
  | cons e es ih =>
      rw [List.map_cons]
      by_cases hcmd : g.cmd = q.2
      · rw [if_pos hcmd] at ih ⊢
        by_cases hpath : q.1 = e.1
        · obtain ⟨path, params⟩ := e
          obtain ⟨q₁, q₂⟩ := q
          cases hpath
          cases hcmd
          rw [List.dlookup_cons_eq, List.dlookup_cons_eq]
        · rw [List.dlookup_cons_ne _ _ hpath, ← ih]
          exact List.dlookup_cons_ne _ _ fun hq => hpath (congrArg Prod.fst hq)
      · rw [if_neg hcmd] at ih ⊢
        rw [← ih]
        exact List.dlookup_cons_ne _ _ fun hq => hcmd (congrArg Prod.snd hq).symm

/-- The map of some groups at a key. -/
def look (q : PathBuf × String) : List CmdGroup → Option PathParams
  | [] => none
  | g :: gs => (told q g).or (look q gs)

theorem lookup_to_map (s : Monitored) (q : PathBuf × String) : s.to_map.lookup q = look q s.groups := by
  rw [to_map, Finmap.dlookup_list_toFinmap]
  generalize s.groups = gs
  induction gs with
  | nil => rfl
  | cons g gs ih =>
      rw [pairs, List.flatMap_cons, List.dlookup_append, dlookup_group, look, ← ih]
      rfl

theorem get_in_eq (path : PathBuf) (target : String) : ∀ gs : List CmdGroup,
    get_in path target gs = (look (path, target) gs).map (EntryMap.entry path target) := by
  intro gs
  induction gs with
  | nil => rfl
  | cons g gs ih =>
      rw [get_in, look, told, ih]
      by_cases hcmd : g.cmd = target
      · rw [if_neg (not_not.2 hcmd), if_pos hcmd]
        cases g.paths.lookup path with
        | none => rfl
        | some params =>
            rw [← hcmd]
            rfl
      · rw [if_pos hcmd, if_neg hcmd]
        rfl

theorem any_eq_isSome (q : PathBuf × String) : ∀ gs : List CmdGroup,
    (gs.any fun g => g.cmd = q.2 && g.paths.contains_key q.1) = (look q gs).isSome := by
  intro gs
  induction gs with
  | nil => rfl
  | cons g gs ih =>
      rw [List.any_cons, look, told, Option.isSome_or, ih, HashMap.contains_key]
      by_cases hcmd : g.cmd = q.2
      · simp [hcmd]
      · simp [hcmd]

/-! ## Each operation is one update -/

theorem told_insert (g : CmdGroup) (path : PathBuf) (params : PathParams) (q : PathBuf × String) :
    told q { g with paths := g.paths.insert path params } =
      if q = (path, g.cmd) then some params else told q g := by
  rw [told, HashMap.lookup_insert', told]
  simp only [Prod.ext_iff]
  by_cases hcmd : g.cmd = q.2
  · by_cases hpath : q.1 = path
    · simp [hcmd, hpath]
    · simp [hcmd, hpath]
  · simp [hcmd, Ne.symm hcmd]

theorem told_erase (g : CmdGroup) (path : PathBuf) (q : PathBuf × String) :
    told q { g with paths := g.paths.erase path } = if q = (path, g.cmd) then none else told q g := by
  rw [told, HashMap.lookup_erase', told]
  simp only [Prod.ext_iff]
  by_cases hcmd : g.cmd = q.2
  · by_cases hpath : q.1 = path
    · simp [hcmd, hpath]
    · simp [hcmd, hpath]
  · simp [hcmd, Ne.symm hcmd]

theorem told_empty {g : CmdGroup} (h : g.paths.entries = []) (q : PathBuf × String) : told q g = none := by
  rw [told, AList.lookup, h]
  split
  · rfl
  · rfl

theorem look_insert_in (cmd : String) (path : PathBuf) (params : PathParams) (q : PathBuf × String) :
    ∀ gs : List CmdGroup,
      look q (insert_in cmd path params gs) = if q = (path, cmd) then some params else look q gs := by
  intro gs
  induction gs with
  | nil =>
      have hnew := told_insert ⟨cmd, ∅⟩ path params q
      have hnone : told q ⟨cmd, ∅⟩ = none := told_empty rfl q
      rw [hnone] at hnew
      rw [insert_in, look, look, look, Option.or_none]
      exact hnew
  | cons g gs ih =>
      rw [insert_in]
      split
      · next hcmd =>
        subst hcmd
        rw [look, look, told_insert]
        split
        · rfl
        · rfl
      · next hcmd =>
        rw [look, look, ih]
        split
        · next hq =>
          rw [hq, told, if_neg hcmd]
          rfl
        · rfl

/-- Groups without paths do not matter. -/
theorem look_filter (q : PathBuf × String) : ∀ gs : List CmdGroup,
    look q (gs.filter fun g => g.paths.entries ≠ []) = look q gs := by
  intro gs
  induction gs with
  | nil => rfl
  | cons g gs ih =>
      by_cases hempty : g.paths.entries = []
      · rw [List.filter_cons_of_neg (by simpa using hempty), look, told_empty hempty, ih]
        rfl
      · rw [List.filter_cons_of_pos (by simpa using hempty), look, look, ih]

theorem look_erase (cmd : String) (path : PathBuf) (q : PathBuf × String) : ∀ gs : List CmdGroup,
    look q (gs.map fun g => if g.cmd = cmd then { g with paths := g.paths.erase path } else g) =
      if q = (path, cmd) then none else look q gs := by
  intro gs
  induction gs with
  | nil =>
      split
      · rfl
      · rfl
  | cons g gs ih =>
      rw [List.map_cons, look, look, ih]
      by_cases hcmd : g.cmd = cmd
      · subst hcmd
        rw [if_pos rfl, told_erase]
        split
        · rfl
        · rfl
      · rw [if_neg hcmd]
        split
        · next hq =>
          rw [hq, told, if_neg hcmd]
          rfl
        · rfl

theorem look_drop_cmd (cmd : String) (q : PathBuf × String) : ∀ gs : List CmdGroup,
    look q (gs.filter fun g => g.cmd ≠ cmd) = if q.2 = cmd then none else look q gs := by
  intro gs
  induction gs with
  | nil =>
      split
      · rfl
      · rfl
  | cons g gs ih =>
      by_cases hcmd : g.cmd = cmd
      · rw [List.filter_cons_of_neg (by simpa using hcmd), ih, look, told]
        by_cases hq : q.2 = cmd
        · rw [if_pos hq, if_pos hq]
        · rw [if_neg hq, if_neg hq, if_neg fun h => hq (h.symm.trans hcmd)]
          rfl
      · rw [List.filter_cons_of_pos (by simpa using hcmd), look, look, ih, told]
        by_cases hq : q.2 = cmd
        · rw [if_pos hq, if_pos hq, if_neg fun h => hcmd (h.trans hq)]
          rfl
        · rw [if_neg hq, if_neg hq]

theorem to_map_add_entry (s : Monitored) (e : PathEntry) : (s.add_entry e).to_map = s.to_map.put e := by
  refine Finmap.ext_lookup fun q => ?_
  rw [EntryMap.lookup_put, lookup_to_map, lookup_to_map]
  exact look_insert_in _ e.path (.from e) q s.groups

theorem to_map_remove_entry (s : Monitored) (path : PathBuf) (cmd : Option String) :
    (s.remove_entry path cmd).1.to_map = s.to_map.drop path cmd := by
  refine Finmap.ext_lookup fun q => ?_
  rw [EntryMap.lookup_drop, lookup_to_map, lookup_to_map, remove_entry, look_filter]
  exact look_erase _ path q s.groups

theorem to_map_remove_cmd_group (s : Monitored) (cmd : Option String) :
    (s.remove_cmd_group cmd).1.to_map = s.to_map.drop_cmd cmd := by
  refine Finmap.ext_lookup fun q => ?_
  rw [EntryMap.lookup_drop_cmd, lookup_to_map, lookup_to_map]
  exact look_drop_cmd _ q s.groups

theorem to_map_validate (s : Monitored) : s.validate.to_map = s.to_map := by
  refine Finmap.ext_lookup fun q => ?_
  rw [lookup_to_map, lookup_to_map]
  exact look_filter q s.groups

/-! ## The groups -/

/-- A cmd that has no group yet gets one, at the end. -/
theorem map_cmd_insert_in (cmd : String) (path : PathBuf) (params : PathParams) : ∀ gs : List CmdGroup,
    (insert_in cmd path params gs).map CmdGroup.cmd =
      if cmd ∈ gs.map CmdGroup.cmd then gs.map CmdGroup.cmd else gs.map CmdGroup.cmd ++ [cmd] := by
  intro gs
  induction gs with
  | nil => rfl
  | cons g gs ih =>
      rw [insert_in]
      by_cases hcmd : g.cmd = cmd
      · simp [hcmd]
      · rw [if_neg hcmd, List.map_cons, ih, List.map_cons]
        by_cases hmem : cmd ∈ gs.map CmdGroup.cmd
        · rw [if_pos hmem, if_pos (List.mem_cons_of_mem _ hmem)]
        · rw [if_neg hmem, if_neg (List.not_mem_cons_of_ne_of_not_mem (Ne.symm hcmd) hmem), List.cons_append]

theorem full_insert_in (cmd : String) (path : PathBuf) (params : PathParams) : ∀ {gs : List CmdGroup},
    (∀ g ∈ gs, g.paths.entries ≠ []) → ∀ g ∈ insert_in cmd path params gs, g.paths.entries ≠ [] := by
  intro gs
  induction gs with
  | nil =>
      intro _ g hg
      rw [List.mem_singleton.1 hg]
      exact List.cons_ne_nil _ _
  | cons g gs ih =>
      intro hfull g' hg'
      rw [insert_in] at hg'
      split at hg'
      · rcases List.mem_cons.1 hg' with rfl | hmem
        · exact List.cons_ne_nil _ _
        · exact hfull g' (List.mem_cons_of_mem _ hmem)
      · rcases List.mem_cons.1 hg' with rfl | hmem
        · exact hfull g' List.mem_cons_self
        · exact ih (fun h hh => hfull h (List.mem_cons_of_mem _ hh)) g' hmem

theorem Grouped.add_entry (h : s.Grouped) (e : PathEntry) : (s.add_entry e).Grouped where
  unique := by
    rw [Monitored.add_entry, map_cmd_insert_in]
    split
    · exact h.unique
    · next hnew => exact List.concat_eq_append ▸ h.unique.concat hnew
  full := full_insert_in _ _ _ h.full

theorem Grouped.remove_entry (h : s.Grouped) (path : PathBuf) (cmd : Option String) :
    (s.remove_entry path cmd).1.Grouped where
  unique := by
    have hcmds : (s.groups.map fun g => if g.cmd = cmd.getD CMD_GLOBAL then
        { g with paths := g.paths.erase path } else g).map CmdGroup.cmd = s.groups.map CmdGroup.cmd := by
      rw [List.map_map]
      refine List.map_congr_left fun g _ => ?_
      show (if g.cmd = cmd.getD CMD_GLOBAL then _ else g : CmdGroup).cmd = g.cmd
      split
      · rfl
      · rfl
    have hunique := h.unique
    rw [← hcmds] at hunique
    exact hunique.sublist (List.filter_sublist.map CmdGroup.cmd)
  full g hg := of_decide_eq_true (List.mem_filter.1 hg).2

/-- Fewer groups. -/
theorem Grouped.sublist (h : s.Grouped) (hsub : gs.Sublist s.groups) : (⟨gs⟩ : Monitored).Grouped where
  unique := h.unique.sublist (hsub.map CmdGroup.cmd)
  full g hg := h.full g (hsub.subset hg)

theorem Grouped.validate_eq (h : s.Grouped) : s.validate = s := by
  obtain ⟨gs⟩ := s
  rw [validate, List.filter_eq_self.2]
  intro g hg
  exact decide_eq_true (h.full g hg)

theorem grouped_nil : (⟨[]⟩ : Monitored).Grouped := ⟨List.nodup_nil, fun _ hg => absurd hg List.not_mem_nil⟩

/-! ## The readers agree -/

theorem mem_keys_pairs {q : PathBuf × String} (h : q ∈ (pairs gs).keys) : q.2 ∈ gs.map CmdGroup.cmd := by
  obtain ⟨e, he, rfl⟩ := List.mem_map.1 h
  obtain ⟨g, hg, he⟩ := List.mem_flatMap.1 he
  obtain ⟨e', _, rfl⟩ := List.mem_map.1 he
  exact List.mem_map.2 ⟨g, hg, rfl⟩

/-- No key comes twice. -/
theorem nodupKeys_pairs : ∀ {gs : List CmdGroup}, (gs.map CmdGroup.cmd).Nodup → (pairs gs).NodupKeys := by
  intro gs
  induction gs with
  | nil =>
      intro _
      exact List.nodupKeys_nil
  | cons g gs ih =>
      intro hunique
      obtain ⟨hnew, hrest⟩ := List.nodup_cons.1 hunique
      have hown : (g.paths.entries.map fun e =>
          (⟨(e.1, g.cmd), e.2⟩ : Sigma fun _ : PathBuf × String => PathParams)).keys =
            g.paths.keys.map fun path => (path, g.cmd) := by
        rw [List.keys, AList.keys, List.keys, List.map_map, List.map_map]
        rfl
      rw [List.NodupKeys, pairs, List.flatMap_cons, List.keys_append, List.nodup_append', hown]
      refine ⟨g.paths.keys_nodup.map fun p q h => congrArg Prod.fst h, ih hrest, ?_⟩
      intro q hq hq'
      obtain ⟨path, _, rfl⟩ := List.mem_map.1 hq
      exact hnew (mem_keys_pairs hq')

theorem Grouped.entries_to_map (h : s.Grouped) : s.to_map.entries = pairs s.groups := by
  have hkeys := nodupKeys_pairs h.unique
  refine (Multiset.Nodup.ext s.to_map.nodup_entries (Multiset.coe_nodup.2 hkeys.nodup)).2 fun e => ?_
  rw [Multiset.mem_coe, ← List.mem_dlookup_iff hkeys, ← Finmap.dlookup_list_toFinmap]
  exact Finmap.mem_lookup_iff.symm

theorem pairs_eq_nil_iff : ∀ {gs : List CmdGroup}, pairs gs = [] ↔ ∀ g ∈ gs, g.paths.entries = [] := by
  intro gs
  rw [pairs, List.flatMap_eq_nil_iff]
  refine forall₂_congr fun g _ => ?_
  exact List.map_eq_nil_iff

theorem flatten_eq (s : Monitored) :
    s.flatten = (pairs s.groups).map fun e => EntryMap.entry e.1.1 e.1.2 e.2 := by
  rw [flatten, pairs, List.map_flatMap]
  refine List.flatMap_congr fun g _ => ?_
  rw [List.map_map]
  rfl

theorem entry_count_eq (s : Monitored) : s.entry_count = (pairs s.groups).length := by
  rw [entry_count, pairs, List.length_flatMap]
  congr 1
  refine List.map_congr_left fun g _ => ?_
  rw [List.length_map]
  rfl

theorem is_empty_iff (s : Monitored) : s.is_empty = true ↔ pairs s.groups = [] := by
  rw [pairs_eq_nil_iff, is_empty, Bool.or_eq_true, List.isEmpty_iff, List.all_eq_true]
  simp only [List.isEmpty_iff]
  constructor
  · rintro (hnil | hall)
    · rw [hnil]
      exact fun g hg => absurd hg List.not_mem_nil
    · exact hall
  · exact Or.inr

/-- **The readers of a grouped store** say what its map says. -/
theorem Grouped.agrees (h : s.Grouped) : s.Agrees s.to_map where
  get path cmd := by
    rw [Monitored.get, get_in_eq, lookup_to_map]
    rfl
  has_entry path cmd := by
    rw [← Finmap.lookup_isSome, lookup_to_map, ← any_eq_isSome]
    rfl
  entry_count := by
    rw [entry_count_eq, h.entries_to_map]
    rfl
  is_empty := by
    rw [is_empty_iff, ← Finmap.ext_iff', h.entries_to_map]
    exact (Multiset.coe_eq_zero _).symm
  flatten := by
    rw [h.entries_to_map, flatten_eq]
    rfl

end Monitored

/-! ## Saving -/

/-- Where a save fails. -/
inductive SaveFault where
  /-- The parent directory. -/
  | parent
  | create
  /-- In the line of a group, after so many bytes. -/
  | write (group bytes : Nat)
  | sync
  | rename
  deriving DecidableEq, Repr

/-- How many bytes of this group's line are written, if that write fails. -/
def SaveFault.at_group : SaveFault → Nat → Option Nat
  | .write group bytes, i => if i = group then some bytes else none
  | .parent, _ | .create, _ | .sync, _ | .rename, _ => none

namespace Monitored

section
variable [GroupCodec]

/-- The loop of `save` over the groups, the `i`-th of them at an offset of the file. -/
def save_groups (fault : Option SaveFault) (fd : Nat) :
    Nat → Nat → List CmdGroup → StoreFiles → Bool × StoreFiles
  | _, _, [], f => (true, f)
  | i, offset, group :: rest, f =>
      match GroupCodec.to_string group with
      | none => (false, f)
      | some line =>
          match fault.bind (·.at_group i) with
          | some bytes => (false, f.write fd offset ((line ++ [Text.newline]).take bytes))
          | none =>
              save_groups fault fd (i + 1) (offset + line.length + 1) rest
                (f.write fd offset (line ++ [Text.newline]))

/-- Save the store, by a temporary file and a rename; and whether that succeeds. -/
def save (fault : Option SaveFault) (s : Monitored) (f : StoreFiles) : Bool × StoreFiles :=
  if fault = some .parent || fault = some .create then (false, f)
  else
    let (fd, f) := f.create_tmp
    let (written, f) := save_groups fault fd 0 0 s.groups f
    if !written || fault = some .sync || fault = some .rename then (false, f)
    else
      match f.rename with
      | none => (false, f)
      | some f => (true, f)

/-- The temporary file gets the lines, the store stays as it is. -/
theorem save_groups_spec (fault : Option SaveFault) (fd : Nat) : ∀ (gs : List CmdGroup) (i offset : Nat)
    (f : StoreFiles), f.tmp = some fd → offset = (f.content fd).length →
      (save_groups fault fd i offset gs f).2.tmp = some fd ∧
        (save_groups fault fd i offset gs f).2.file = f.file ∧
        ((save_groups fault fd i offset gs f).1 = true → ∃ lines, save_lines gs = some lines ∧
          (save_groups fault fd i offset gs f).2.content fd = f.content fd ++ lines.flatten) := by
  intro gs
  induction gs with
  | nil =>
      intro i offset f htmp _
      exact ⟨htmp, rfl, fun _ => ⟨[], rfl, (List.append_nil _).symm⟩⟩
  | cons group rest ih =>
      intro i offset f htmp hoffset
      rw [save_groups]
      cases hline : GroupCodec.to_string group with
      | none => exact ⟨htmp, rfl, fun h => by cases h⟩
      | some line =>
          simp only
          cases fault.bind (·.at_group i) with
          | some bytes => exact ⟨htmp, StoreFiles.file_write htmp .., fun h => by cases h⟩
          | none =>
              have hcontent : (f.write fd offset (line ++ [Text.newline])).content fd =
                  f.content fd ++ (line ++ [Text.newline]) := by
                rw [hoffset]
                exact (Function.update_self ..).trans (overwrite_end ..)
              obtain ⟨htmp', hfile, hlines⟩ := ih (i + 1) (offset + line.length + 1)
                (f.write fd offset (line ++ [Text.newline])) htmp
                (by rw [hcontent, hoffset]; simp [Nat.add_assoc])
              refine ⟨htmp', hfile.trans (StoreFiles.file_write htmp ..), ?_⟩
              intro hdone
              obtain ⟨lines, hsaved, hend⟩ := hlines hdone
              refine ⟨(line ++ [Text.newline]) :: lines, ?_, ?_⟩
              · rw [save_lines, hline, hsaved]
              · rw [hend, hcontent, List.flatten_cons, List.append_assoc]

/-- **A save that fails** leaves the store's file as it was; one that does not leaves the lines. -/
theorem save_spec (fault : Option SaveFault) (s : Monitored) (f : StoreFiles) :
    ((s.save fault f).1 = false → (s.save fault f).2.file = f.file) ∧
      ((s.save fault f).1 = true → ∃ lines, save_lines s.groups = some lines ∧
        (s.save fault f).2.file = some lines.flatten) := by
  obtain ⟨htmp, hempty, hfile⟩ := f.create_tmp_spec
  obtain ⟨htmp', hfile', hlines⟩ := save_groups_spec fault f.create_tmp.1 s.groups 0 0 f.create_tmp.2 htmp
    (by rw [hempty]; rfl)
  rw [save]
  split
  · exact ⟨fun _ => rfl, fun h => by cases h⟩
  · simp only
    split
    · exact ⟨fun _ => hfile'.trans hfile, fun h => by cases h⟩
    · next hgone =>
      obtain ⟨files, hrename, hstore⟩ := StoreFiles.rename_spec htmp'
      rw [hrename]
      refine ⟨fun h => (by cases h), fun _ => ?_⟩
      have hwritten : (save_groups fault f.create_tmp.1 0 0 s.groups f.create_tmp.2).1 = true := by
        simp only [Bool.or_eq_true, not_or, Bool.not_eq_true', Bool.not_eq_false] at hgone
        exact hgone.1.1
      obtain ⟨lines, hsaved, hcontent⟩ := hlines hwritten
      refine ⟨lines, hsaved, ?_⟩
      rw [hstore, hcontent, hempty]
      rfl

end

end Monitored

/-! ## Runs -/

/-- One operation; a save comes with its fault, and is followed by a load if it succeeds. -/
inductive StoreStep where
  | add_entry (entry : PathEntry)
  | remove_entry (path : PathBuf) (cmd : Option String)
  | remove_cmd_group (cmd : Option String)
  | validate
  | save_load (fault : Option SaveFault)

/-- What the operation is on the flat map. -/
def EntryMap.update (m : EntryMap) : StoreStep → EntryMap
  | .add_entry entry => m.put entry
  | .remove_entry path cmd => m.drop path cmd
  | .remove_cmd_group cmd => m.drop_cmd cmd
  | .validate | .save_load _ => m

/-- A store in memory, and its files. -/
structure StoreRun where
  store : Monitored
  files : StoreFiles

namespace StoreRun

section
variable [GroupCodec]

/-- Save; and load what is saved. -/
def save_load (r : StoreRun) (fault : Option SaveFault) : StoreRun :=
  let (saved, files) := r.store.save fault r.files
  if saved then ⟨(Monitored.load files.file).getD r.store, files⟩ else { r with files }

def step (r : StoreRun) : StoreStep → StoreRun
  | .add_entry entry => { r with store := r.store.add_entry entry }
  | .remove_entry path cmd => { r with store := (r.store.remove_entry path cmd).1 }
  | .remove_cmd_group cmd => { r with store := (r.store.remove_cmd_group cmd).1 }
  | .validate => { r with store := r.store.validate }
  | .save_load fault => r.save_load fault

/-- The empty store, whatever the files hold. -/
def init (files : StoreFiles) : StoreRun := ⟨⟨[]⟩, files⟩

/-- A successful save can be loaded, and gives an equal store; one that fails leaves the old content. -/
def SavesWell (r : StoreRun) : StoreStep → Prop
  | .save_load fault =>
      ((r.store.save fault r.files).1 = true →
          Monitored.load (r.store.save fault r.files).2.file = some r.store) ∧
        ((r.store.save fault r.files).1 = false → (r.store.save fault r.files).2.file = r.files.file)
  | .add_entry _ | .remove_entry .. | .remove_cmd_group _ | .validate => True

theorem saves_well {r : StoreRun} (h : r.store.Grouped) (a : StoreStep) : r.SavesWell a := by
  cases a with
  | save_load fault =>
      obtain ⟨hfails, hsaves⟩ := r.store.save_spec fault r.files
      refine ⟨fun hdone => ?_, hfails⟩
      obtain ⟨lines, hlines, hfile⟩ := hsaves hdone
      have hload := Monitored.load_save hlines
      rw [hfile, hload]
      exact congrArg some h.validate_eq
  | add_entry => trivial
  | remove_entry => trivial
  | remove_cmd_group => trivial
  | validate => trivial

/-- The store after a save and a load is the same. -/
theorem store_save_load {r : StoreRun} (h : r.store.Grouped) (fault : Option SaveFault) :
    (r.save_load fault).store = r.store := by
  obtain ⟨hloads, _⟩ := saves_well h (.save_load fault)
  rw [save_load]
  cases hsaved : (r.store.save fault r.files).1 with
  | false =>
      simp only [hsaved]
      rfl
  | true =>
      simp only [hsaved, hloads hsaved, if_true, Option.getD_some]

/-- One operation is one update. -/
theorem step_update {r : StoreRun} (h : r.store.Grouped) (a : StoreStep) :
    (r.step a).store.Grouped ∧ (r.step a).store.to_map = r.store.to_map.update a := by
  cases a with
  | add_entry entry => exact ⟨h.add_entry entry, Monitored.to_map_add_entry r.store entry⟩
  | remove_entry path cmd => exact ⟨h.remove_entry path cmd, Monitored.to_map_remove_entry r.store path cmd⟩
  | remove_cmd_group cmd =>
      exact ⟨h.sublist List.filter_sublist, Monitored.to_map_remove_cmd_group r.store cmd⟩
  | validate => exact ⟨h.sublist List.filter_sublist, Monitored.to_map_validate r.store⟩
  | save_load fault =>
      show (r.save_load fault).store.Grouped ∧ (r.save_load fault).store.to_map = _
      rw [store_save_load h fault]
      exact ⟨h, rfl⟩

theorem exec_update (steps : List StoreStep) {r : StoreRun} (h : r.store.Grouped) :
    (Run.exec step r steps).store.Grouped ∧
      (Run.exec step r steps).store.to_map = Run.exec EntryMap.update r.store.to_map steps := by
  refine Run.sim_exec (R := fun (r : StoreRun) m => r.store.Grouped ∧ r.store.to_map = m) ?_ steps ⟨h, rfl⟩
  rintro r m a ⟨h, rfl⟩
  exact step_update h a

end

end StoreRun

end Fsmon
