/-
# `Fsmon.Cli.Written` — what `fsmon add` leaves in the store

`cmd_add` writes the store before it asks the daemon, takes the entry out again
when the answer is permanent, and leaves it there on any other answer, and when
no daemon is there to ask.

    AddArgs.entry        the checks, and the entry they let through
    cmd_monitored        one of the three readers of the store; the others are the
                         start (`parse_path_entries`) and the reload (`try_from`)
    Monitored.content    the (path, cmd) pairs with their parameters

`rejected_add_keeps_iff` is about the undo, `add_accepted_iff` about the checks.
-/
import Fsmon.Cli
import Fsmon.Monitor.Refused

namespace Fsmon

/-! ## The entry of a command -/

/-- `cmd_add` up to the store: the checks of the arguments, and the entry. -/
def AddArgs.entry (os : Os) (log_path : Option PathBuf) (args : AddArgs) : Except Str PathEntry :=
  match args.cmd with
  | none => .error "CMD is required. Use '_global' for global monitoring.".toList
  | some process_name =>
      match args.path with
      | none => .error "At least one of --path or a process name is required".toList
      | some raw_path =>
          if process_name = "fsmon" then
            .error
              ("Cannot monitor 'fsmon' process: fsmon daemon's own events are excluded " ++
                "from monitoring.\nTip: use a different process name, or omit the process name " ++
                "to capture all events.").toList
          else
            match add_target os log_path args.recursive raw_path with
            | .error msg => .error msg
            | .ok path =>
                match add_types args.types with
                | .error e => .error e
                | .ok types =>
                    .ok ⟨some process_name, path, some args.recursive, types, args.size, args.max_depth⟩

/-- The request that is sent for an entry. -/
def PathEntry.request (e : PathEntry) : SocketCmd :=
  .add e.path e.recursive e.types e.size e.cmd e.max_depth

/-- `SocketError::Permanent`. -/
def IsPermanent (answer : Except SocketError Unit) : Prop := ∃ msg, answer = .error (.permanent msg)

section
variable [Sizefilter]

/-- The store after the answer: without the entry if it is permanent. -/
theorem cmd_add_entry {os : Os} {log_path : Option PathBuf} {args : AddArgs} (site : Site)
    {entry : PathEntry} (h : args.entry os log_path = .ok entry) :
    ∃ site', cmd_add os log_path args site = .ok site' ∧
      (IsPermanent (site.monitor.handle_socket_cmd os entry.request).1 →
        site'.store = ((site.store.validate.add_entry entry).validate.remove_entry entry.path entry.cmd).1) ∧
      (¬ IsPermanent (site.monitor.handle_socket_cmd os entry.request).1 →
        site'.store = site.store.validate.add_entry entry) := by
  rw [AddArgs.entry] at h
  split at h
  · cases h
  · rename_i process_name hcmd
    split at h
    · cases h
    · rename_i raw_path hpath
      split at h
      · cases h
      · rename_i hfsmon
        split at h
        · cases h
        · rename_i path htarget
          split at h
          · cases h
          · rename_i types htypes
            cases h
            rw [cmd_add]
            simp only [hcmd, hpath, if_neg hfsmon, htarget, htypes, PathEntry.request]
            generalize site.monitor.handle_socket_cmd os _ = result
            split
            · rename_i msg hmsg
              exact ⟨_, rfl, fun _ => rfl, fun hno => absurd ⟨msg, hmsg⟩ hno⟩
            · rename_i hno
              refine ⟨_, rfl, ?_, fun _ => rfl⟩
              rintro ⟨msg, hmsg⟩
              exact absurd hmsg (hno msg)

/-- A command that fails its checks stops there. -/
theorem cmd_add_error {os : Os} {log_path : Option PathBuf} {args : AddArgs} {site : Site} {msg : Str}
    (h : args.entry os log_path = .error msg) : cmd_add os log_path args site = .error msg := by
  rw [AddArgs.entry] at h
  split at h
  · next hcmd =>
      cases h
      rw [cmd_add, hcmd]
  · next process_name hcmd =>
      split at h
      · next hpath =>
          cases h
          rw [cmd_add, hcmd, hpath]
      · next raw_path hpath =>
          split at h
          · next hfsmon =>
              rw [cmd_add, hcmd, hpath]
              exact (if_pos hfsmon).trans (congrArg Except.error (Except.error.inj h))
          · next hfsmon =>
              split at h
              · next htarget =>
                  cases h
                  rw [cmd_add, hcmd, hpath]
                  exact (if_neg hfsmon).trans (by rw [htarget])
              · next path htarget =>
                  split at h
                  · next htypes =>
                      cases h
                      rw [cmd_add, hcmd, hpath]
                      exact (if_neg hfsmon).trans (by rw [htarget, htypes])
                  · cases h

end

/-- `cmd_add` while no daemon is running: the request cannot be sent, which is transient. -/
def cmd_add_offline (os : Os) (log_path : Option PathBuf) (args : AddArgs) (store : Monitored) :
    Except Str Monitored :=
  match args.entry os log_path with
  | .error e => .error e
  | .ok entry => .ok (store.validate.add_entry entry)

/-! ## Content -/

/-- The group has these parameters for the (path, cmd) pair. -/
def CmdGroup.Has (g : CmdGroup) (x : PathBuf × String × PathParams) : Prop :=
  g.cmd = x.2.1 ∧ g.paths.lookup x.1 = some x.2.2

theorem CmdGroup.has_insert {g : CmdGroup} {path : PathBuf} {params : PathParams}
    {x : PathBuf × String × PathParams} :
    CmdGroup.Has { g with paths := g.paths.insert path params } x ↔
      x = (path, g.cmd, params) ∨ x.1 ≠ path ∧ g.Has x := by
  unfold CmdGroup.Has
  simp only [HashMap.lookup_insert']
  constructor
  · rintro ⟨hcmd, hlook⟩
    split at hlook
    · rename_i hpath
      left
      rw [Option.some.injEq] at hlook
      exact Prod.ext hpath (Prod.ext hcmd.symm hlook.symm)
    · rename_i hpath
      exact .inr ⟨hpath, hcmd, hlook⟩
  · rintro (rfl | ⟨hpath, hcmd, hlook⟩)
    · exact ⟨rfl, if_pos rfl⟩
    · exact ⟨hcmd, by rw [if_neg hpath, hlook]⟩

theorem CmdGroup.has_erase {g : CmdGroup} {path : PathBuf} {x : PathBuf × String × PathParams} :
    CmdGroup.Has { g with paths := g.paths.erase path } x ↔ x.1 ≠ path ∧ g.Has x := by
  unfold CmdGroup.Has
  simp only [HashMap.lookup_erase']
  split
  · rename_i hpath
    exact iff_of_false nofun fun h => h.1 hpath
  · rename_i hpath
    exact (and_iff_right hpath).symm

theorem CmdGroup.Has.nonempty {g : CmdGroup} {x : PathBuf × String × PathParams} (h : g.Has x) :
    g.paths.entries ≠ [] :=
  List.ne_nil_of_mem (AList.mem_lookup_iff.1 h.2)

namespace Monitored

/-- The (path, cmd) pairs of a store with their parameters. -/
def content (s : Monitored) : Set (PathBuf × String × PathParams) := fun x => ∃ g ∈ s.groups, g.Has x

theorem mem_content {s : Monitored} {x : PathBuf × String × PathParams} :
    x ∈ s.content ↔ ∃ g ∈ s.groups, g.Has x := Iff.rfl

@[simp] theorem content_validate (s : Monitored) : s.validate.content = s.content := by
  ext x
  simp only [mem_content, validate, List.mem_filter, decide_eq_true_eq]
  constructor
  · rintro ⟨g, ⟨hg, _⟩, hx⟩
    exact ⟨g, hg, hx⟩
  · rintro ⟨g, hg, hx⟩
    exact ⟨g, ⟨hg, hx.nonempty⟩, hx⟩

/-- Inserting into the first group of a cmd: one pair is there, and the others are as they were. -/
theorem has_insert_in (cmd : String) (path : PathBuf) (params : PathParams)
    (x : PathBuf × String × PathParams) : ∀ gs : List CmdGroup,
    ((∃ g ∈ insert_in cmd path params gs, g.Has x) → x = (path, cmd, params) ∨ ∃ g ∈ gs, g.Has x) ∧
      ((∃ g ∈ gs, g.Has x) → ¬ (x.1 = path ∧ x.2.1 = cmd) →
        ∃ g ∈ insert_in cmd path params gs, g.Has x) ∧
      ∃ g ∈ insert_in cmd path params gs, g.Has (path, cmd, params) := by
  intro gs
  induction gs with
  | nil =>
      have hnew : ∀ y, CmdGroup.Has ⟨cmd, AList.insert path params ∅⟩ y ↔ y = (path, cmd, params) := by
        intro y
        rw [show (⟨cmd, AList.insert path params ∅⟩ : CmdGroup) =
          { (⟨cmd, ∅⟩ : CmdGroup) with paths := AList.insert path params ∅ } from rfl,
          CmdGroup.has_insert]
        refine or_iff_left ?_
        rintro ⟨_, h⟩
        exact h.nonempty rfl
      rw [insert_in]
      refine ⟨?_, ?_, ⟨_, List.mem_singleton_self _, (hnew _).2 rfl⟩⟩
      · rintro ⟨g, hg, hx⟩
        rw [List.mem_singleton.1 hg] at hx
        exact .inl ((hnew x).1 hx)
      · rintro ⟨g, hg, _⟩
        cases hg
  | cons g gs ih =>
      rw [insert_in]
      split
      · rename_i hcmd
        simp only [List.mem_cons, exists_eq_or_imp, CmdGroup.has_insert]
        rw [hcmd]
        refine ⟨?_, ?_, .inl (.inl rfl)⟩
        · rintro ((hx | ⟨_, hx⟩) | hx)
          · exact .inl hx
          · exact .inr (.inl hx)
          · exact .inr (.inr hx)
        · rintro (hx | hx) hother
          · refine .inl (.inr ⟨fun hpath => hother ⟨hpath, ?_⟩, hx⟩)
            rw [← hx.1, hcmd]
          · exact .inr hx
      · obtain ⟨hsub, hkeep, hnew⟩ := ih
        simp only [List.mem_cons, exists_eq_or_imp]
        refine ⟨?_, ?_, .inr hnew⟩
        · rintro (hx | hx)
          · exact .inr (.inl hx)
          · exact (hsub hx).imp_right .inr
        · rintro (hx | hx) hother
          · exact .inl hx
          · exact .inr (hkeep hx hother)

/-- What is in a store with one more entry was there before, or is the entry. -/
theorem content_add_entry_subset {s : Monitored} {e : PathEntry} {c : String} (hcmd : e.cmd = some c)
    {x : PathBuf × String × PathParams} (hx : x ∈ (s.add_entry e).content) :
    x = (e.path, c, .from e) ∨ x ∈ s.content := by
  rw [mem_content, add_entry, hcmd] at hx
  exact (has_insert_in c e.path (.from e) x s.groups).1 hx

theorem mem_content_add_entry {s : Monitored} {e : PathEntry} {c : String} (hcmd : e.cmd = some c) :
    (e.path, c, .from e) ∈ (s.add_entry e).content := by
  rw [mem_content, add_entry, hcmd]
  exact (has_insert_in c e.path (.from e) (e.path, c, .from e) s.groups).2.2

theorem content_add_entry_of_other {s : Monitored} {e : PathEntry} {c : String} (hcmd : e.cmd = some c)
    {x : PathBuf × String × PathParams} (hx : x ∈ s.content)
    (hother : ¬ (x.1 = e.path ∧ x.2.1 = c)) : x ∈ (s.add_entry e).content := by
  rw [mem_content, add_entry, hcmd]
  exact (has_insert_in c e.path (.from e) x s.groups).2.1 hx hother

/-- Removing an entry takes what was there for its (path, cmd) pair, in every group of the cmd. -/
theorem content_remove_entry {s : Monitored} {path : PathBuf} {c : String}
    {x : PathBuf × String × PathParams} :
    x ∈ (s.remove_entry path (some c)).1.content ↔ x ∈ s.content ∧ ¬ (x.1 = path ∧ x.2.1 = c) := by
  simp only [mem_content, remove_entry, Option.getD_some, List.mem_filter, List.mem_map,
    decide_eq_true_eq]
  constructor
  · rintro ⟨_, ⟨⟨g, hg, rfl⟩, _⟩, hx⟩
    split at hx
    · obtain ⟨hpath, hx⟩ := CmdGroup.has_erase.1 hx
      exact ⟨⟨g, hg, hx⟩, fun hpair => hpath hpair.1⟩
    · rename_i hcmd
      exact ⟨⟨g, hg, hx⟩, fun hpair => hcmd (hx.1.trans hpair.2)⟩
  · rintro ⟨⟨g, hg, hx⟩, hother⟩
    by_cases hcmd : g.cmd = c
    · have herase : CmdGroup.Has { g with paths := g.paths.erase path } x :=
        CmdGroup.has_erase.2 ⟨fun hpath => hother ⟨hpath, by rw [← hx.1, hcmd]⟩, hx⟩
      exact ⟨_, ⟨⟨g, hg, if_pos hcmd⟩, herase.nonempty⟩, herase⟩
    · exact ⟨_, ⟨⟨g, hg, if_neg hcmd⟩, hx.nonempty⟩, hx⟩

/-- A store has an entry for a (path, cmd) pair when its content does. -/
theorem has_entry_iff {s : Monitored} {path : PathBuf} {c : String} :
    s.has_entry path (some c) = true ↔ ∃ params, (path, c, params) ∈ s.content := by
  simp only [has_entry, Option.getD_some, List.any_eq_true, Bool.and_eq_true, decide_eq_true_eq,
    HashMap.contains_key, Option.isSome_iff_exists]
  constructor
  · rintro ⟨g, hg, hcmd, params, hlook⟩
    exact ⟨params, g, hg, hcmd, hlook⟩
  · rintro ⟨params, g, hg, hcmd, hlook⟩
    exact ⟨g, hg, hcmd, params, hlook⟩

end Monitored

/-! ## The undo -/

section
variable [Sizefilter]

omit [Sizefilter] in
/-- The entry of a command has a cmd. -/
theorem AddArgs.entry_cmd {os : Os} {log_path : Option PathBuf} {args : AddArgs} {entry : PathEntry}
    (h : args.entry os log_path = .ok entry) : ∃ c, entry.cmd = some c := by
  rw [AddArgs.entry] at h
  repeat' split at h
  all_goals cases h
  exact ⟨_, rfl⟩

/-- **A rejected `fsmon add` leaves the store unchanged** exactly when the store had no entry for the
(path, cmd) pair. -/
theorem rejected_add_keeps_iff {os : Os} {log_path : Option PathBuf} {args : AddArgs}
    {site site' : Site} {entry : PathEntry} (hentry : args.entry os log_path = .ok entry)
    (hrun : cmd_add os log_path args site = .ok site')
    (hanswer : IsPermanent (site.monitor.handle_socket_cmd os entry.request).1) :
    site'.store.content = site.store.content ↔ site.store.has_entry entry.path entry.cmd = false := by
  obtain ⟨c, hcmd⟩ := AddArgs.entry_cmd hentry
  obtain ⟨s, hs, hpermanent, _⟩ := cmd_add_entry site hentry
  rw [hs] at hrun
  rw [← Except.ok.inj hrun, hpermanent hanswer, hcmd]
  have hafter : ∀ x, x ∈ (((site.store.validate.add_entry entry).validate.remove_entry entry.path
      (some c)).1).content ↔ x ∈ site.store.content ∧ ¬ (x.1 = entry.path ∧ x.2.1 = c) := by
    intro x
    rw [Monitored.content_remove_entry, Monitored.content_validate]
    refine and_congr_left fun hother => ⟨fun hx => ?_, fun hx => ?_⟩
    · rcases Monitored.content_add_entry_subset hcmd hx with rfl | hx
      · exact absurd ⟨rfl, rfl⟩ hother
      · rwa [Monitored.content_validate] at hx
    · rw [← Monitored.content_validate] at hx
      exact Monitored.content_add_entry_of_other hcmd hx hother
  constructor
  · intro hsame
    by_contra hhas
    rw [Bool.not_eq_false] at hhas
    obtain ⟨params, hx⟩ := Monitored.has_entry_iff.1 hhas
    rw [← hsame] at hx
    exact ((hafter _).1 hx).2 ⟨rfl, rfl⟩
  · intro hnone
    ext x
    rw [hafter]
    refine and_iff_left_of_imp fun hx hpair => ?_
    obtain ⟨path, cmd, params⟩ := x
    obtain ⟨rfl, rfl⟩ := hpair
    rw [Monitored.has_entry_iff.2 ⟨params, hx⟩] at hnone
    cases hnone

end

/-! ## The readers -/

/-- `v.join(", ")`. -/
def join_commas (v : List String) : String := String.intercalate ", " v

/-- `types[..5]`; it panics on fewer. -/
def first_five (types : List String) : Option (List String) :=
  if 5 ≤ types.length then some (types.take 5) else none

/-- What `cmd_monitored` says of the types of an entry. -/
def types_text (types : List String) : Option String :=
  if types = [] then some "no types"
  else if types.length ≤ 3 then some ("types: " ++ join_commas types)
  else
    (first_five types).map fun five =>
      "types: " ++ join_commas five ++ "... (" ++ toString types.length ++ " total)"

/-- The details of one entry; `none` is a panic. -/
def details (params : PathParams) : Option (List String) :=
  let recursive := params.recursive.toList.map fun r => if r then "recursive" else "non-recursive"
  let size := params.size.toList.map fun s => "size: " ++ s
  match params.types with
  | none => some (recursive ++ size)
  | some types => (types_text types).map fun text => recursive ++ [text] ++ size

/-- The line of one entry. -/
def entry_line (path : PathBuf) (params : PathParams) : Option Str :=
  (details params).map fun details =>
    "  ".toList ++ path.display ++
      if details = [] then [] else (" (" ++ join_commas details ++ ")").toList

/-- The lines of one group. -/
def group_lines (group : CmdGroup) : Option (List Str) :=
  let cmd_display := if group.cmd = CMD_GLOBAL then "_global (all processes)" else group.cmd
  (group.paths.entries.mapM fun e => entry_line e.1 e.2).map fun lines =>
    [("Process: " ++ cmd_display).toList] ++ lines ++ [[]]

/-- List all monitored paths: the lines that are printed, paths in the order of the map. -/
def cmd_monitored (paths_only : Bool) (store : Monitored) : Option (List Str) :=
  let store := store.validate
  if paths_only then some (store.flatten.map fun entry => entry.path.display)
  else if store.groups = [] then some ["No monitored paths.".toList]
  else
    (store.groups.mapM group_lines).map fun lines =>
      ["=== Monitored Paths ===".toList, []] ++ lines.flatten

section
variable [Sizefilter]

/-- All readers take the store: the daemon starts with it, a reload reads each of its entries, and it
can be printed. -/
structure Accepted (store : Monitored) : Prop where
  start : ∃ pairs, PathOptions.parse_path_entries store.validate.flatten = .ok pairs
  reload : ∀ e ∈ store.validate.flatten, ∃ opts, PathOptions.try_from e = .ok opts
  printed : ∀ paths_only, cmd_monitored paths_only store ≠ none

/-- The parameters read as options, and can be printed. -/
def Fine (x : PathBuf × String × PathParams) : Prop :=
  (∃ opts, PathOptions.try_from (CmdGroup.entry ⟨x.2.1, ∅⟩ x.1 x.2.2) = .ok opts) ∧
    details x.2.2 ≠ none

omit [Sizefilter] in
theorem not_ok {ε α : Type} {e : ε} : ¬ ∃ a : α, Except.error e = .ok a := by
  rintro ⟨_, h⟩
  cases h

theorem parse_path_entries_ok_iff {es : List PathEntry} :
    (∃ pairs, PathOptions.parse_path_entries es = .ok pairs) ↔
      ∀ e ∈ es, ∃ opts, PathOptions.try_from e = .ok opts := by
  induction es with
  | nil => exact iff_of_true ⟨[], rfl⟩ (fun _ he => absurd he List.not_mem_nil)
  | cons e es ih =>
      rw [List.forall_mem_cons, ← ih, PathOptions.parse_path_entries]
      cases PathOptions.try_from e with
      | error msg => exact iff_of_false not_ok fun h => not_ok h.1
      | ok opts =>
          cases PathOptions.parse_path_entries es with
          | error msg => exact iff_of_false not_ok fun h => not_ok h.2
          | ok pairs => exact iff_of_true ⟨_, rfl⟩ ⟨⟨_, rfl⟩, ⟨_, rfl⟩⟩

omit [Sizefilter] in
theorem mem_flatten_iff {s : Monitored} {e : PathEntry} :
    e ∈ s.flatten ↔ ∃ x ∈ s.content, e = CmdGroup.entry ⟨x.2.1, ∅⟩ x.1 x.2.2 := by
  rw [Monitored.flatten, List.mem_flatMap]
  constructor
  · rintro ⟨g, hg, he⟩
    obtain ⟨⟨path, params⟩, hmem, rfl⟩ := List.mem_map.1 he
    exact ⟨(path, g.cmd, params), ⟨g, hg, rfl, AList.mem_lookup_iff.2 hmem⟩, rfl⟩
  · rintro ⟨⟨path, cmd, params⟩, ⟨g, hg, hcmd, hlook⟩, rfl⟩
    refine ⟨g, hg, List.mem_map.2 ⟨⟨path, params⟩, AList.mem_lookup_iff.1 hlook, ?_⟩⟩
    rw [CmdGroup.entry, hcmd]
    rfl

omit [Sizefilter] in
theorem mapM_ne_none_iff {α β : Type} {f : α → Option β} {as : List α} :
    as.mapM f ≠ none ↔ ∀ a ∈ as, f a ≠ none := by
  induction as with
  | nil => simp
  | cons a as ih =>
      rw [List.mapM_cons, List.forall_mem_cons, ← ih]
      cases f a with
      | none => simp
      | some b =>
          cases as.mapM f with
          | none => simp
          | some bs => simp

omit [Sizefilter] in
/-- Printing panics when an entry's details do. -/
theorem cmd_monitored_iff {s : Monitored} :
    (∀ paths_only, cmd_monitored paths_only s ≠ none) ↔ ∀ x ∈ s.content, details x.2.2 ≠ none := by
  have hgroup : ∀ g : CmdGroup, group_lines g ≠ none ↔ ∀ x, g.Has x → details x.2.2 ≠ none := by
    intro g
    rw [group_lines]
    simp only [ne_eq, Option.map_eq_none_iff]
    rw [← ne_eq, mapM_ne_none_iff]
    simp only [entry_line, ne_eq, Option.map_eq_none_iff]
    constructor
    · rintro h ⟨path, cmd, params⟩ ⟨_, hlook⟩
      exact h ⟨path, params⟩ (AList.mem_lookup_iff.1 hlook)
    · rintro h ⟨path, params⟩ hmem
      exact h (path, g.cmd, params) ⟨rfl, AList.mem_lookup_iff.2 hmem⟩
  have hall : (∀ g ∈ s.validate.groups, group_lines g ≠ none) ↔
      ∀ x ∈ s.validate.content, details x.2.2 ≠ none := by
    simp only [hgroup]
    constructor
    · rintro h x ⟨g, hg, hx⟩
      exact h g hg x hx
    · rintro h g hg x hx
      exact h x ⟨g, hg, hx⟩
  rw [← Monitored.content_validate, ← hall]
  constructor
  · intro h
    have hfull := h false
    rw [cmd_monitored] at hfull
    simp only [Bool.false_eq_true, if_false] at hfull
    split at hfull
    · rename_i hnil
      rw [hnil]
      exact fun _ hg => absurd hg List.not_mem_nil
    · rw [ne_eq, Option.map_eq_none_iff, ← ne_eq, mapM_ne_none_iff] at hfull
      exact hfull
  · intro h paths_only
    rw [cmd_monitored]
    split
    · exact nofun
    · split
      · exact nofun
      · rw [ne_eq, Option.map_eq_none_iff, ← ne_eq, mapM_ne_none_iff]
        exact h

/-- A store is accepted when all that is in it is fine. -/
theorem accepted_iff {s : Monitored} : Accepted s ↔ ∀ x ∈ s.content, Fine x := by
  have hreload : (∀ e ∈ s.validate.flatten, ∃ opts, PathOptions.try_from e = .ok opts) ↔
      ∀ x ∈ s.content, ∃ opts, PathOptions.try_from (CmdGroup.entry ⟨x.2.1, ∅⟩ x.1 x.2.2) = .ok opts := by
    simp only [mem_flatten_iff, Monitored.content_validate]
    constructor
    · intro h x hx
      exact h _ ⟨x, hx, rfl⟩
    · rintro h e ⟨x, hx, rfl⟩
      exact h x hx
  constructor
  · rintro ⟨_, hread, hprinted⟩ x hx
    exact ⟨hreload.1 hread x hx, cmd_monitored_iff.1 hprinted x hx⟩
  · intro h
    have hread := hreload.2 fun x hx => (h x hx).1
    exact ⟨parse_path_entries_ok_iff.2 hread, hread, cmd_monitored_iff.2 fun x hx => (h x hx).2⟩

/-! ## The checks -/

omit [Sizefilter] in
theorem types_text_iff (types : List String) : types_text types ≠ none ↔ types.length ≠ 4 := by
  rw [types_text, first_five]
  split
  · rename_i hnil
    rw [hnil]
    exact iff_of_true nofun (by decide)
  · split
    · exact iff_of_true nofun (by omega)
    · split
      · exact iff_of_true nofun (by omega)
      · exact iff_of_false (fun h => h rfl) (by omega)

omit [Sizefilter] in
theorem details_iff (params : PathParams) :
    details params ≠ none ↔ ∀ types, params.types = some types → types.length ≠ 4 := by
  rw [details]
  cases params.types with
  | none => exact iff_of_true nofun nofun
  | some types =>
      simp only [ne_eq, Option.map_eq_none_iff]
      rw [← ne_eq, types_text_iff]
      exact ⟨fun h ts hts => Option.some.inj hts ▸ h, fun h => h types rfl⟩

omit [Sizefilter] in
/-- The types of an entry parse; and there are four of them when the command has four, without
`all`. -/
theorem add_types_ok {types : List String} {r : Option (List String)} (h : add_types types = .ok r) :
    (∃ v, PathOptions.transpose PathOptions.parse_types r = .ok v) ∧
      ((∀ ts, r = some ts → ts.length ≠ 4) ↔ (types.length = 4 → types.any is_all = true)) := by
  rw [add_types] at h
  split at h
  · rename_i hnil
    cases h
    rw [hnil]
    exact ⟨⟨none, rfl⟩, iff_of_true nofun nofun⟩
  · split at h
    · rename_i hall
      cases h
      refine ⟨⟨some EventType.ALL, ?_⟩, iff_of_true ?_ fun _ => hall⟩
      · rw [PathOptions.transpose, PathOptions.parse_types_toString]
        rfl
      · intro ts hts
        rw [← Option.some.inj hts]
        decide
    · rename_i hall
      split at h
      · cases h
      · rename_i v hv
        cases h
        refine ⟨⟨some v, by rw [PathOptions.transpose, hv]; rfl⟩, ?_⟩
        constructor
        · exact fun hne hfour => absurd hfour (hne types rfl)
        · intro himp ts hts hfour
          rw [← Option.some.inj hts] at hfour
          exact hall (himp hfour)

omit [Sizefilter] in
theorem transpose_ok_iff {α β ε : Type} {f : α → Except ε β} {o : Option α} :
    (∃ v, PathOptions.transpose f o = .ok v) ↔ ∀ a, o = some a → ∃ b, f a = .ok b := by
  cases o with
  | none => exact iff_of_true ⟨none, rfl⟩ fun a h => by cases h
  | some a =>
      simp only [PathOptions.transpose, Option.some.injEq, forall_eq']
      cases f a with
      | error e => exact iff_of_false not_ok not_ok
      | ok b => exact iff_of_true ⟨some b, rfl⟩ ⟨b, rfl⟩

theorem try_from_ok_iff {entry : PathEntry} :
    (∃ opts, PathOptions.try_from entry = .ok opts) ↔
      (∃ v, PathOptions.transpose PathOptions.parse_size entry.size = .ok v) ∧
        ∃ v, PathOptions.transpose PathOptions.parse_types entry.types = .ok v := by
  rw [PathOptions.try_from]
  cases PathOptions.transpose PathOptions.parse_size entry.size with
  | error e => exact iff_of_false not_ok fun h => not_ok h.1
  | ok size =>
      cases PathOptions.transpose PathOptions.parse_types entry.types with
      | error e => exact iff_of_false not_ok fun h => not_ok h.2
      | ok types => exact iff_of_true ⟨_, rfl⟩ ⟨⟨_, rfl⟩, ⟨_, rfl⟩⟩

omit [Sizefilter] in
/-- What the entry of a command is made of. -/
theorem AddArgs.entry_ok {os : Os} {log_path : Option PathBuf} {args : AddArgs} {entry : PathEntry}
    (h : args.entry os log_path = .ok entry) :
    entry.size = args.size ∧ add_types args.types = .ok entry.types := by
  rw [AddArgs.entry] at h
  split at h
  · cases h
  · split at h
    · cases h
    · split at h
      · cases h
      · split at h
        · cases h
        · split at h
          · cases h
          · rename_i types htypes
            cases h
            exact ⟨rfl, htypes⟩

/-- The entry of a command is fine when its size parses and its types are not four. -/
theorem fine_entry_iff {os : Os} {log_path : Option PathBuf} {args : AddArgs} {entry : PathEntry}
    (h : args.entry os log_path = .ok entry) (c : String) :
    Fine (entry.path, c, .from entry) ↔
      (∀ s, args.size = some s → ∃ f, PathOptions.parse_size s = .ok f) ∧
        (args.types.length = 4 → args.types.any is_all = true) := by
  obtain ⟨hsize, htypes⟩ := AddArgs.entry_ok h
  obtain ⟨hparse, hfour⟩ := add_types_ok htypes
  rw [Fine, try_from_ok_iff, details_iff, ← hfour, ← hsize, ← transpose_ok_iff]
  exact and_congr_left' (and_iff_left hparse)

/-- **`fsmon add` leaves a store that all readers accept** exactly when the size, if there is one,
parses, and there are not four types. -/
theorem add_accepted_iff {os : Os} {log_path : Option PathBuf} {args : AddArgs}
    {store store' : Monitored} (hstore : Accepted store)
    (hrun : cmd_add_offline os log_path args store = .ok store') :
    Accepted store' ↔ (∀ s, args.size = some s → ∃ f, PathOptions.parse_size s = .ok f) ∧
      (args.types.length = 4 → args.types.any is_all = true) := by
  rw [cmd_add_offline] at hrun
  split at hrun
  · cases hrun
  · rename_i entry hentry
    obtain ⟨c, hcmd⟩ := AddArgs.entry_cmd hentry
    rw [← Except.ok.inj hrun, accepted_iff, ← fine_entry_iff hentry c]
    constructor
    · exact fun h => h _ (Monitored.mem_content_add_entry hcmd)
    · intro hfine x hx
      rcases Monitored.content_add_entry_subset hcmd hx with rfl | hx
      · exact hfine
      · rw [Monitored.content_validate] at hx
        exact accepted_iff.1 hstore x hx

end

/-- `fsmon add sh --path / --types <types>`. -/
def addTyped (types : List String) : AddArgs := ⟨some "sh", some [], false, types, none, none⟩

theorem accepted_empty : @Accepted noSizes ⟨[]⟩ := by
  refine (@accepted_iff noSizes ⟨[]⟩).2 ?_
  rintro x ⟨g, hg, _⟩
  cases hg

/-- A store with that entry. -/
def typedStore (types : List String) : Monitored :=
  (⟨[]⟩ : Monitored).add_entry ⟨some "sh", [], some false, some types, none, none⟩

theorem cmd_add_offline_typed {types : List String} (h : add_types types = .ok (some types)) :
    cmd_add_offline (.calm Os.bareTree) none (addTyped types) ⟨[]⟩ = .ok (typedStore types) := by
  have htarget : add_target (.calm Os.bareTree) none false [] = .ok [] := rfl
  simp only [cmd_add_offline, AddArgs.entry, addTyped, htarget, h]
  rw [if_neg (by decide)]
  rfl

/-- Types that parse, with no `all` among them. -/
theorem add_types_of {types : List String} {v : List EventType} (hne : types ≠ [])
    (hall : ∀ t ∈ types, is_all t = false) (hparse : PathOptions.parse_types types = .ok v) :
    add_types types = .ok (some types) := by
  have hany : ¬ types.any is_all = true := by
    rw [List.any_eq_true]
    rintro ⟨t, ht, htrue⟩
    rw [hall t ht] at htrue
    cases htrue
  rw [add_types, if_neg hne, if_neg hany, hparse]

/-- Two types can be read and printed. -/
theorem add_accepted_two_types :
    cmd_add_offline (.calm Os.bareTree) none (addTyped ["CREATE", "DELETE"]) ⟨[]⟩ =
        .ok (typedStore ["CREATE", "DELETE"]) ∧ @Accepted noSizes (typedStore ["CREATE", "DELETE"]) := by
  have htypes : add_types ["CREATE", "DELETE"] = .ok (some ["CREATE", "DELETE"]) :=
    add_types_of nofun (by decide +kernel) rfl
  have hrun := cmd_add_offline_typed htypes
  exact ⟨hrun, (@add_accepted_iff noSizes _ _ _ _ _ accepted_empty hrun).2 ⟨nofun, nofun⟩⟩

/-- Four types cannot be printed: the text asks for the first five. -/
theorem add_four_types :
    cmd_add_offline (.calm Os.bareTree) none (addTyped ["CREATE", "DELETE", "MODIFY", "ATTRIB"]) ⟨[]⟩ =
        .ok (typedStore ["CREATE", "DELETE", "MODIFY", "ATTRIB"]) ∧
      ¬ @Accepted noSizes (typedStore ["CREATE", "DELETE", "MODIFY", "ATTRIB"]) := by
  refine ⟨cmd_add_offline_typed (add_types_of nofun (by decide +kernel) rfl), fun h => ?_⟩
  exact @Accepted.printed noSizes _ h false rfl

/-! ## A daemon that has its logs in `/a` -/

/-- `fsmon add sh --path / -r`. -/
def addRecursive : AddArgs := ⟨some "sh", some [], true, [], none, none⟩

/-- Its entry. -/
def recursiveRoot : PathEntry := ⟨some "sh", [], some true, none, none, none⟩

/-- The daemon refuses it for good. -/
theorem recursiveRoot_permanent (store : Monitored) : IsPermanent
    (@Monitor.handle_socket_cmd noSizes (.calm Os.bareTree) (Site.mk store Monitor.logsInA).monitor
      recursiveRoot.request).1 := by
  have hanswer : (@Monitor.handle_socket_cmd noSizes (.calm Os.bareTree) Monitor.logsInA
      recursiveRoot.request).1 =
        .error (.classify (Monitor.overlap_message [] [[0x61]] false)) := rfl
  obtain ⟨msg, hmsg⟩ := (Monitor.classify_permanent_iff _).2
    (Monitor.overlap_message_permanent [] [[0x61]] false)
  exact ⟨msg, hanswer.trans (congrArg Except.error hmsg)⟩

/-- With nothing in the store before, nothing is in it after. -/
theorem rejected_add_keeps_empty : ∃ site',
    @cmd_add noSizes (.calm Os.bareTree) none addRecursive ⟨⟨[]⟩, Monitor.logsInA⟩ = .ok site' ∧
      site'.store.content = (⟨[]⟩ : Monitored).content := by
  obtain ⟨site', hrun, _⟩ := @cmd_add_entry noSizes (.calm Os.bareTree) none addRecursive
    ⟨⟨[]⟩, Monitor.logsInA⟩ recursiveRoot rfl
  exact ⟨site', hrun, (@rejected_add_keeps_iff noSizes (.calm Os.bareTree) none addRecursive
    ⟨⟨[]⟩, Monitor.logsInA⟩ site' recursiveRoot rfl hrun (recursiveRoot_permanent ⟨[]⟩)).2 rfl⟩

/-- A store with `/` for `sh`, not recursive. -/
def rootStore : Monitored := (⟨[]⟩ : Monitored).add_entry ⟨some "sh", [], some false, none, none, none⟩

/-- The entry is replaced, the new one refused, and the undo takes it out: nothing is left. -/
theorem rejected_add_erases : ∃ site',
    @cmd_add noSizes (.calm Os.bareTree) none addRecursive ⟨rootStore, Monitor.logsInA⟩ = .ok site' ∧
      IsPermanent (@Monitor.handle_socket_cmd noSizes (.calm Os.bareTree) Monitor.logsInA
        recursiveRoot.request).1 ∧
      site'.store.content ≠ rootStore.content := by
  obtain ⟨site', hrun, hundo, _⟩ := @cmd_add_entry noSizes (.calm Os.bareTree) none addRecursive
    ⟨rootStore, Monitor.logsInA⟩ recursiveRoot rfl
  have hanswer := recursiveRoot_permanent rootStore
  refine ⟨site', hrun, hanswer, fun hsame => ?_⟩
  have hold : ([], "sh", ⟨some false, none, none, none⟩) ∈ rootStore.content :=
    Monitored.mem_content_add_entry rfl
  rw [← hsame, hundo hanswer] at hold
  exact (Monitored.content_remove_entry.1 hold).2 ⟨rfl, rfl⟩

end Fsmon
