/-
# `Fsmon.Monitor.Refused` — an `Add` that the daemon refuses

`handle_socket_cmd` takes the old entry for the (path, cmd) pair out before
`add_path` looks at the new one, and nothing puts it back.  Taking it out is all
that happens (`prepare_add_eq`): by then no entry is left for `remove_path` to
find, so the root, its mark and its group stay.

    refused_keeps_iff    when a refused `Add` leaves the daemon as it was
    class_fits_iff       when the class of the answer is what a fresh start says

The class is read off the text of the error, which has paths in it and the
texts of the parsers.
-/
import Fsmon.Monitor.Frames
import Fsmon.Monitor.Init
import Fsmon.Monitor.Socket
import Fsmon.Store

namespace Fsmon.Monitor

section
variable [Sizefilter]

/-! ## What is left behind -/

omit [Sizefilter] in
/-- Without an entry for the path there is nothing to remove. -/
theorem try_remove_absent {os : Os} {m : Monitor} {path : PathBuf}
    (h : (m.monitored_entries.any fun e => e.1 = path) = false) : m.try_remove os path = m := by
  have hfilter : m.monitored_entries.filter (keeps path none) = m.monitored_entries := by
    refine List.filter_eq_self.2 fun e he => ?_
    have hne : e.1 ≠ path := by simpa using List.any_eq_false.1 h e he
    rw [keeps, if_pos hne]
  rw [try_remove, remove_path]
  simp only [hfilter, Nat.sub_self, if_true]

omit [Sizefilter] in
/-- An `Add` starts by dropping the entry of its path and cmd; the teardown finds nothing. -/
theorem prepare_add_eq (os : Os) (m : Monitor) (path : PathBuf) (cmd : Option String) :
    m.prepare_add os path cmd = m.retain_others path cmd := by
  rw [prepare_add]
  split
  · rfl
  · rename_i h
    exact try_remove_absent (Bool.eq_false_iff.2 h)

/-- The same entries, pending paths, roots and groups. -/
structure SameDaemon (m m' : Monitor) : Prop where
  entries : ∀ e, e ∈ m'.monitored_entries ↔ e ∈ m.monitored_entries
  pending : m'.inotify_state.pending_paths = m.inotify_state.pending_paths
  paths : m'.paths = m.paths
  canonical_paths : m'.canonical_paths = m.canonical_paths
  path_to_group : m'.fanotify.path_to_group = m.fanotify.path_to_group
  ref_counts : ∀ key, (m'.fanotify.groups.get key).map (·.ref_count) =
    (m.fanotify.groups.get key).map (·.ref_count)

/-- The state after an `Add` that is refused: the old one, or the one without the old entry. -/
theorem refused_state {os : Os} {m m' : Monitor} {path : PathBuf} {recursive : Option Bool}
    {types : Option (List String)} {size track_cmd : Option String} {max_depth : Option Nat}
    {e : SocketError}
    (h : m.handle_socket_cmd os (.add path recursive types size track_cmd max_depth) = (.error e, m')) :
    m' = if (check_path_allowed path).isSome then m else m.retain_others path (cmd_filter track_cmd) := by
  rw [handle_socket_cmd] at h
  cases hallowed : check_path_allowed path with
  | some msg =>
      rw [hallowed] at h
      exact (Prod.mk.inj h).2.symm
  | none =>
      rw [hallowed] at h
      simp only at h
      rw [prepare_add_eq] at h
      split at h
      · cases h
      · exact (Prod.mk.inj h).2.symm

/-- The daemon has an entry for the (path, cmd) pair. -/
def HasPair (m : Monitor) (path : PathBuf) (cmd : Option String) : Prop :=
  ∃ opts, (path, opts) ∈ m.monitored_entries ∧ opts.cmd = cmd

omit [Sizefilter] in
theorem same_retain_others_iff (m : Monitor) (path : PathBuf) (cmd : Option String) :
    SameDaemon m (m.retain_others path cmd) ↔ ¬ m.HasPair path cmd := by
  constructor
  · rintro hsame ⟨opts, hmem, hcmd⟩
    have hkept := (hsame.entries (path, opts)).2 hmem
    rw [retain_others, List.mem_filter] at hkept
    simp [hcmd] at hkept
  · intro hnone
    refine ⟨fun e => ?_, rfl, rfl, rfl, rfl, fun _ => rfl⟩
    rw [retain_others, List.mem_filter]
    refine and_iff_left_of_imp fun he => ?_
    rw [Bool.not_eq_true', Bool.and_eq_false_iff, decide_eq_false_iff_not, decide_eq_false_iff_not]
    by_contra hboth
    rw [not_or, not_not, not_not] at hboth
    obtain ⟨rfl, hcmd⟩ := hboth
    exact hnone ⟨e.2, he, hcmd⟩

/-- **A refused `Add` leaves the daemon as it was** exactly when the path is blacklisted or the daemon
had no entry for the (path, cmd) pair. -/
theorem refused_keeps_iff {os : Os} {m m' : Monitor} {path : PathBuf} {recursive : Option Bool}
    {types : Option (List String)} {size track_cmd : Option String} {max_depth : Option Nat}
    {e : SocketError}
    (h : m.handle_socket_cmd os (.add path recursive types size track_cmd max_depth) = (.error e, m')) :
    SameDaemon m m' ↔ check_path_allowed path ≠ none ∨ ¬ m.HasPair path (cmd_filter track_cmd) := by
  rw [refused_state h]
  cases check_path_allowed path with
  | some msg => exact iff_of_true ⟨fun _ => Iff.rfl, rfl, rfl, rfl, rfl, fun _ => rfl⟩ (.inl nofun)
  | none => simp [same_retain_others_iff]

/-! ## Phrases

The two phrases have no `/` and no parenthesis in them, so that around a path nothing but the path
itself can hold one. -/

omit [Sizefilter] in
/-- A word without the character is on one side of it. -/
theorem infix_append_cons {α : Type} {w a b : List α} {c : α} (hc : c ∉ w) :
    w <:+: a ++ c :: b ↔ w <:+: a ∨ w <:+: b := by
  have hnil : ∀ {l : List α}, l <+: c :: b → c ∉ l → l = [] := by
    intro l hl hcl
    cases l with
    | nil => rfl
    | cons d l =>
        rw [List.cons_prefix_cons] at hl
        exact absurd (hl.1 ▸ List.mem_cons_self) hcl
  rw [List.infix_append_iff_ne_nil, List.infix_cons_iff]
  constructor
  · rintro (ha | (hstart | hb) | ⟨l₁, l₂, _, hne, rfl, _, hstart⟩)
    · exact .inl ha
    · exact .inr (hnil hstart hc ▸ List.nil_infix)
    · exact .inr hb
    · exact absurd (hnil hstart fun hmem => hc (List.mem_append_right _ hmem)) hne
  · rintro (ha | hb)
    · exact .inl ha
    · exact .inr (.inl (.inr hb))

omit [Sizefilter] in
theorem is_permanent_append_cons {a b : Str} {c : Char} (hc : c = '/' ∨ c = '(') :
    is_permanent (a ++ c :: b) ↔ is_permanent a ∨ is_permanent b := by
  have hwords : c ∉ "infinite recursion".toList ∧ c ∉ "log directory".toList := by
    simp only [String.reduceToList]
    rcases hc with rfl | rfl <;> decide
  unfold is_permanent Str.contains
  rw [infix_append_cons hwords.1, infix_append_cons hwords.2]
  exact or_or_or_comm

omit [Sizefilter] in
theorem is_permanent_concat_space {a : Str} : is_permanent (a ++ [' ']) ↔ is_permanent a := by
  have hlast : ∀ {w : Str}, w.getLast? ≠ some ' ' → w ≠ [] → ¬ w <:+ a ++ [' '] := by
    intro w hw hne hsuffix
    rcases List.suffix_concat_iff.1 hsuffix with hnil | ⟨t, rfl, _⟩
    · exact hne hnil
    · exact hw List.getLast?_concat
  unfold is_permanent Str.contains
  simp only [String.reduceToList]
  rw [List.infix_concat_iff, List.infix_concat_iff, or_iff_right (hlast (by decide) (by decide)),
    or_iff_right (hlast (by decide) (by decide))]

omit [Sizefilter] in
/-- A path is shown with a slash in front. -/
theorem display_cons (p : PathBuf) : ∃ rest, p.display = '/' :: rest := by
  have hslash : ∀ bs : Bytes, Text.fromUtf8Lossy (0x2F :: bs) = '/' :: Text.fromUtf8Lossy bs := by
    intro bs
    rfl
  cases p with
  | nil => exact ⟨[], rfl⟩
  | cons c cs => exact ⟨_, hslash _⟩

/-! ## The class of the answer -/

/-- The store of a daemon that was asked to add the entry, as it is read at the next start. -/
def stored (path : PathBuf) (recursive : Option Bool) (types : Option (List String))
    (size track_cmd : Option String) (max_depth : Option Nat) : List PathEntry :=
  ((⟨[]⟩ : Monitored).add_entry ⟨track_cmd, path, recursive, types, size, max_depth⟩).flatten

/-- A daemon that is started with these entries in its store refuses them. -/
def RejectedAtStart (os : Os) (cfg : MonitorConfig) (entries : List PathEntry) : Prop :=
  match PathOptions.parse_path_entries entries with
  | .error _ => True
  | .ok paths_and_options => ∃ msg, new os { cfg with paths_and_options } = .error msg

/-- The entry does not parse, overlaps with the log directory, or is for `fsmon`. -/
def Unfit (os : Os) (m : Monitor) (entry : PathEntry) : Prop :=
  (∃ msg, PathOptions.try_from entry = .error msg) ∨
    m.log_dir_overlap os (os.canonical entry.path) (entry.recursive.getD false) ≠ none ∨
    entry.cmd = some "fsmon"

omit [Sizefilter] in
theorem cmd_filter_getD (cmd : Option String) :
    cmd_filter (some (cmd.getD CMD_GLOBAL)) = cmd_filter cmd := by
  cases cmd with
  | none => simp [cmd_filter]
  | some c => rfl

/-- The stored entry and the request have the same options. -/
theorem try_from_stored (path : PathBuf) (recursive : Option Bool) (types : Option (List String))
    (size track_cmd : Option String) (max_depth : Option Nat) :
    PathOptions.try_from ⟨some (track_cmd.getD CMD_GLOBAL), path, recursive, types, size, max_depth⟩ =
      PathOptions.try_from (add_request path recursive types size track_cmd max_depth) := by
  unfold PathOptions.try_from add_request
  simp only [cmd_filter_getD, cmd_filter_idem]

omit [Sizefilter] in
/-- One entry at the start. -/
theorem new_one_error_iff {os : Os} {cfg : MonitorConfig} {m : Monitor} {path : PathBuf}
    {opts : PathOptions} (hlog : cfg.log_dir = m.log_dir)
    (hfit : ∃ m₀, new os { cfg with paths_and_options := [] } = .ok m₀) :
    (∃ msg, new os { cfg with paths_and_options := [(path, opts)] } = .error msg) ↔
      m.log_dir_overlap os (os.canonical path) opts.recursive ≠ none ∨ opts.cmd = some "fsmon" := by
  have hentries : (∃ msg, new_entries os (cfg.log_dir.map os.canonical) [(path, opts)] ([], []) =
      .error msg) ↔
        m.log_dir_overlap os (os.canonical path) opts.recursive ≠ none ∨ opts.cmd = some "fsmon" := by
    rw [hlog, log_dir_overlap]
    cases m.log_dir with
    | none =>
        simp only [Option.map_none, new_entries]
        split
        · rename_i hcmd
          exact iff_of_true ⟨_, rfl⟩ (.inr hcmd)
        · rename_i hcmd
          exact iff_of_false nofun fun h => h.elim (fun hne => hne rfl) hcmd
    | some log_dir =>
        simp only [Option.map_some, new_entries]
        split
        · rename_i hover
          split at hover
          · rename_i hif
            rw [if_pos hif]
            exact iff_of_true ⟨_, rfl⟩ (.inl nofun)
          · cases hover
        · rename_i hover
          split at hover
          · cases hover
          · rename_i hif
            rw [if_neg hif]
            split
            · rename_i hcmd
              exact iff_of_true ⟨_, rfl⟩ (.inr hcmd)
            · rename_i hcmd
              exact iff_of_false nofun fun h => h.elim (fun hne => hne rfl) hcmd
  rw [← hentries]
  obtain ⟨m₀, hm₀⟩ := hfit
  rw [new] at hm₀
  simp only at hm₀
  split at hm₀
  · cases hm₀
  · rename_i hlow
    split at hm₀
    · cases hm₀
    · rename_i hhigh
      rw [new]
      simp only [if_neg hlow, if_neg hhigh]
      cases new_entries os (cfg.log_dir.map os.canonical) [(path, opts)] ([], []) with
      | error msg => exact iff_of_true ⟨msg, rfl⟩ ⟨msg, rfl⟩
      | ok r => exact iff_of_false nofun nofun

/-- What a fresh start refuses. -/
theorem rejected_at_start_iff {os : Os} {cfg : MonitorConfig} {m : Monitor} {path : PathBuf}
    {recursive : Option Bool} {types : Option (List String)} {size track_cmd : Option String}
    {max_depth : Option Nat} (hlog : cfg.log_dir = m.log_dir)
    (hfit : ∃ m₀, new os { cfg with paths_and_options := [] } = .ok m₀) :
    RejectedAtStart os cfg (stored path recursive types size track_cmd max_depth) ↔
      m.Unfit os (add_request path recursive types size track_cmd max_depth) := by
  have hstored : stored path recursive types size track_cmd max_depth =
      [⟨some (track_cmd.getD CMD_GLOBAL), path, recursive, types, size, max_depth⟩] := rfl
  rw [RejectedAtStart, hstored, Unfit]
  simp only [PathOptions.parse_path_entries, try_from_stored]
  cases hopts : PathOptions.try_from (add_request path recursive types size track_cmd max_depth) with
  | error msg => exact iff_of_true trivial (.inl ⟨msg, rfl⟩)
  | ok opts =>
      obtain ⟨hcmd, hrec, _⟩ := PathOptions.try_from_ok hopts
      rw [add_request, cmd_filter_idem] at hcmd
      simp only
      rw [new_one_error_iff hlog hfit, hcmd, hrec]
      refine (or_iff_right ?_).symm
      rintro ⟨_, h⟩
      cases h

/-- Why `add_path` refuses an entry, and the text of the error. -/
inductive Refusal (os : Os) (m : Monitor) (entry : PathEntry) : Str → Prop
  | parse (msg : Str) (hopts : PathOptions.try_from entry = .error msg)
      (hlog : os.canonical entry.path ∈ m.paths ∨
        m.log_dir_overlap os (os.canonical entry.path) (entry.recursive.getD false) = none) :
      Refusal os m entry msg
  | overlap (msg : Str) (hpath : os.canonical entry.path ∉ m.paths)
      (hlog : m.log_dir_overlap os (os.canonical entry.path) (entry.recursive.getD false) = some msg) :
      Refusal os m entry msg
  | fsmon (opts : PathOptions) (hopts : PathOptions.try_from entry = .ok opts)
      (hlog : m.log_dir_overlap os (os.canonical entry.path) (entry.recursive.getD false) = none)
      (hcmd : opts.cmd = some "fsmon") : Refusal os m entry CMD_FSMON
  | factory (opts : PathOptions) (hopts : PathOptions.try_from entry = .ok opts)
      (hlog : m.log_dir_overlap os (os.canonical entry.path) (entry.recursive.getD false) = none)
      (hcmd : opts.cmd ≠ some "fsmon") (hfactory : m.fanotify.factory = false) :
      Refusal os m entry "fanotify factory has not been started".toList
  | open_dir (opts : PathOptions) (hopts : PathOptions.try_from entry = .ok opts)
      (hlog : m.log_dir_overlap os (os.canonical entry.path) (entry.recursive.getD false) = none)
      (hcmd : opts.cmd ≠ some "fsmon") (hfactory : m.fanotify.factory = true) :
      Refusal os m entry ("open_dir_safe failed: ".toList ++ (os.canonical entry.path).display)
  | group (opts : PathOptions) (hopts : PathOptions.try_from entry = .ok opts)
      (hlog : m.log_dir_overlap os (os.canonical entry.path) (entry.recursive.getD false) = none)
      (hcmd : opts.cmd ≠ some "fsmon") (hfactory : m.fanotify.factory = true) :
      Refusal os m entry
        ("fanotify group creation failed for ".toList ++ (os.canonical entry.path).display ++
          " (requires Linux 5.9+ kernel)".toList)

theorem add_path_refusal {os : Os} {m : Monitor} {entry : PathEntry} {msg : Str}
    (h : m.add_path os entry = .error msg) : Refusal os m entry msg := by
  rw [add_path] at h
  split at h
  · rename_i hpath
    split at h
    · rename_i hopts
      cases h
      exact .parse msg hopts (.inl hpath)
    · cases h
  · rename_i hpath
    split at h
    · rename_i hlog
      cases h
      exact .overlap msg hpath hlog
    · rename_i hlog
      split at h
      · cases h
      · split at h
        · rename_i hopts
          cases h
          exact .parse msg hopts (.inr hlog)
        · rename_i opts hopts
          split at h
          · rename_i hcmd
            cases h
            exact .fsmon opts hopts hlog hcmd
          · rename_i hcmd
            split at h
            · rename_i hfactory
              cases h
              exact .factory opts hopts hlog hcmd hfactory
            · rename_i hfactory
              have hfactory : m.fanotify.factory = true := by simpa using hfactory
              rw [add_root] at h
              simp only [os.canonical_idem] at h
              split at h
              · cases h
              · split at h
                · cases h
                  exact .open_dir opts hopts hlog hcmd hfactory
                · split at h
                  · cases h
                    exact .group opts hopts hlog hcmd hfactory
                  · cases h

omit [Sizefilter] in
/-- The text of a log directory conflict makes it permanent. -/
theorem overlap_message_permanent (path log_dir : PathBuf) (is_exact : Bool) :
    is_permanent (overlap_message path log_dir is_exact) := by
  refine Or.inr ?_
  have htip : " — Tip: use a path outside the log directory, or use a different logging.path".toList =
      " — Tip: use a path outside the ".toList ++
        ("log directory".toList ++ ", or use a different logging.path".toList) := by
    simp
  have hinfix : "log directory".toList <:+:
      " — Tip: use a path outside the log directory, or use a different logging.path".toList := by
    rw [htip, ← List.append_assoc]
    exact List.infix_append ..
  exact hinfix.trans (List.suffix_append ..).isInfix

omit [Sizefilter] in
theorem overlap_is_permanent {os : Os} {m : Monitor} {path : PathBuf} {recursive : Bool} {msg : Str}
    (h : m.log_dir_overlap os path recursive = some msg) : is_permanent msg := by
  rw [log_dir_overlap] at h
  split at h
  · cases h
  · simp only at h
    split at h
    · rw [← Option.some.inj h]
      exact overlap_message_permanent ..
    · cases h

omit [Sizefilter] in
/-- The fixed parts of the other texts hold neither phrase. -/
theorem transient_texts :
    (¬ is_permanent []) ∧ (¬ is_permanent "open_dir_safe failed: ".toList) ∧
      (¬ is_permanent "fanotify group creation failed for ".toList) ∧
      (¬ is_permanent "requires Linux 5.9+ kernel)".toList) ∧
      (¬ is_permanent "fanotify factory has not been started".toList) ∧ ¬ is_permanent CMD_FSMON := by
  unfold is_permanent Str.contains CMD_FSMON
  simp only [String.toList_append, String.reduceToList]
  refine ⟨?_, ?_, ?_, ?_, ?_, ?_⟩ <;> decide +kernel

omit [Sizefilter] in
theorem display_is_permanent_iff {a : Str} (ha : ¬ is_permanent a) (p : PathBuf) :
    is_permanent (a ++ p.display) ↔ is_permanent p.display := by
  obtain ⟨rest, hrest⟩ := display_cons p
  rw [hrest, is_permanent_append_cons (.inl rfl), or_iff_right ha]
  have hslash : is_permanent ([] ++ '/' :: rest) ↔ _ := is_permanent_append_cons (.inl rfl)
  exact (hslash.trans (or_iff_right transient_texts.1)).symm

omit [Sizefilter] in
/-- An error that names a directory has a phrase in it if the directory's name does. -/
theorem open_dir_is_permanent_iff (p : PathBuf) :
    is_permanent ("open_dir_safe failed: ".toList ++ p.display) ↔ is_permanent p.display :=
  display_is_permanent_iff transient_texts.2.1 p

omit [Sizefilter] in
theorem group_is_permanent_iff (p : PathBuf) :
    is_permanent ("fanotify group creation failed for ".toList ++ p.display ++
      " (requires Linux 5.9+ kernel)".toList) ↔ is_permanent p.display := by
  have hsplit : " (requires Linux 5.9+ kernel)".toList =
      [' '] ++ '(' :: "requires Linux 5.9+ kernel)".toList := by
    simp only [String.reduceToList]
    rfl
  rw [hsplit, ← List.append_assoc, is_permanent_append_cons (.inr rfl), is_permanent_concat_space,
    or_iff_left transient_texts.2.2.2.1]
  exact display_is_permanent_iff transient_texts.2.2.1 p

omit [Sizefilter] in
theorem classify_permanent_iff (msg : Str) :
    (∃ msg', SocketError.classify msg = .permanent msg') ↔ is_permanent msg := by
  rw [SocketError.classify]
  split
  · rename_i h
    exact iff_of_true ⟨msg, rfl⟩ h
  · rename_i h
    exact iff_of_false nofun h

/-- The path is no root yet, and overlaps with the log directory. -/
def Overlaps (os : Os) (m : Monitor) (entry : PathEntry) : Prop :=
  os.canonical entry.path ∉ m.paths ∧
    m.log_dir_overlap os (os.canonical entry.path) (entry.recursive.getD false) ≠ none

/-- An overlap; or an entry that does not parse, with a phrase in the parser's text; or an entry that
is fit, with none in its path if the error can name the path. -/
def ClassFits (os : Os) (m : Monitor) (entry : PathEntry) : Prop :=
  if check_path_allowed entry.path = none then
    m.Overlaps os entry ∨ ¬ m.Overlaps os entry ∧
      match PathOptions.try_from entry with
      | .error msg => is_permanent msg
      | .ok opts =>
          opts.cmd ≠ some "fsmon" ∧
            (m.fanotify.factory = true → ¬ is_permanent (os.canonical entry.path).display)
  else m.Unfit os entry

theorem unfit_of_ok_iff {os : Os} {m : Monitor} {entry : PathEntry} {opts : PathOptions}
    (hopts : PathOptions.try_from entry = .ok opts)
    (hlog : m.log_dir_overlap os (os.canonical entry.path) (entry.recursive.getD false) = none) :
    m.Unfit os entry ↔ opts.cmd = some "fsmon" := by
  have hcmd : opts.cmd = some "fsmon" ↔ entry.cmd = some "fsmon" := by
    rw [(PathOptions.try_from_ok hopts).1]
    cases entry.cmd with
    | none => exact Iff.rfl
    | some c =>
        by_cases hc : c = CMD_GLOBAL
        · rw [hc]
          decide
        · simp [cmd_filter, hc]
  rw [hcmd, Unfit, hopts, hlog]
  constructor
  · rintro (⟨_, hbad⟩ | hbad | h)
    · cases hbad
    · exact absurd rfl hbad
    · exact h
  · exact fun h => .inr (.inr h)

/-- The class of a refusal. -/
theorem class_of_refusal_iff {os : Os} {m : Monitor} {entry : PathEntry} {msg : Str}
    (hallowed : check_path_allowed entry.path = none) (h : Refusal os m entry msg) :
    (is_permanent msg ↔ m.Unfit os entry) ↔ m.ClassFits os entry := by
  rw [ClassFits, if_pos hallowed]
  have hapart : m.log_dir_overlap os (os.canonical entry.path) (entry.recursive.getD false) = none →
      ¬ m.Overlaps os entry := fun hlog hover => hover.2 hlog
  -- a refusal for another reason than the entry
  have hnamed : ∀ {opts : PathOptions} {P : Prop}, PathOptions.try_from entry = .ok opts →
      m.log_dir_overlap os (os.canonical entry.path) (entry.recursive.getD false) = none →
        opts.cmd ≠ some "fsmon" → (¬ is_permanent msg ↔ P) →
          ((is_permanent msg ↔ m.Unfit os entry) ↔
            (m.Overlaps os entry ∨ ¬ m.Overlaps os entry ∧ opts.cmd ≠ some "fsmon" ∧ P)) := by
    intro opts P hopts hlog hcmd hP
    rw [unfit_of_ok_iff hopts hlog, ← hP]
    simp [hcmd, hapart hlog]
  cases h with
  | parse msg hopts hlog =>
      have hover : ¬ m.Overlaps os entry := by
        rintro ⟨hpath, hne⟩
        exact hlog.elim hpath hne
      have hunfit : m.Unfit os entry := .inl ⟨msg, hopts⟩
      rw [hopts]
      simp [hover, hunfit]
  | overlap msg hpath hlog =>
      have hover : m.Overlaps os entry := ⟨hpath, by rw [hlog]; exact nofun⟩
      have hunfit : m.Unfit os entry := .inr (.inl hover.2)
      simp [hover, hunfit, overlap_is_permanent hlog]
  | fsmon opts hopts hlog hcmd =>
      rw [unfit_of_ok_iff hopts hlog, hopts]
      simp [hapart hlog, hcmd, transient_texts.2.2.2.2.2]
  | factory opts hopts hlog hcmd hfactory =>
      rw [hopts]
      refine hnamed hopts hlog hcmd (iff_of_true transient_texts.2.2.2.2.1 ?_)
      rw [hfactory]
      exact nofun
  | open_dir opts hopts hlog hcmd hfactory =>
      rw [hopts]
      refine hnamed hopts hlog hcmd ?_
      rw [open_dir_is_permanent_iff, hfactory]
      exact (imp_iff_right rfl).symm
  | group opts hopts hlog hcmd hfactory =>
      rw [hopts]
      refine hnamed hopts hlog hcmd ?_
      rw [group_is_permanent_iff, hfactory]
      exact (imp_iff_right rfl).symm

/-- **An answer is permanent when a fresh start would refuse the entry, and transient when it would
not**, exactly when the class fits. -/
theorem class_fits_iff {os : Os} {m m' : Monitor} {cfg : MonitorConfig} {path : PathBuf}
    {recursive : Option Bool} {types : Option (List String)} {size track_cmd : Option String}
    {max_depth : Option Nat} {e : SocketError}
    (h : m.handle_socket_cmd os (.add path recursive types size track_cmd max_depth) = (.error e, m'))
    (hlog : cfg.log_dir = m.log_dir)
    (hfit : ∃ m₀, new os { cfg with paths_and_options := [] } = .ok m₀) :
    ((∃ msg, e = .permanent msg) ↔
        RejectedAtStart os cfg (stored path recursive types size track_cmd max_depth)) ↔
      m.ClassFits os (add_request path recursive types size track_cmd max_depth) := by
  rw [rejected_at_start_iff hlog hfit]
  rw [handle_socket_cmd] at h
  cases hallowed : check_path_allowed path with
  | some msg =>
      rw [hallowed] at h
      have he : e = .permanent msg := (Except.error.inj (Prod.mk.inj h).1).symm
      have hblocked : ¬ check_path_allowed
          (add_request path recursive types size track_cmd max_depth).path = none := by
        rw [show (add_request path recursive types size track_cmd max_depth).path = path from rfl,
          hallowed]
        exact nofun
      rw [ClassFits, if_neg hblocked]
      have hpermanent : ∃ msg', e = .permanent msg' := ⟨msg, he⟩
      exact ⟨fun hclass => hclass.1 hpermanent, fun hunfit => iff_of_true hpermanent hunfit⟩
  | none =>
      rw [hallowed] at h
      simp only [prepare_add_eq] at h
      split at h
      · cases h
      · rename_i msg hadd
        have he : e = .classify msg := (Except.error.inj (Prod.mk.inj h).1).symm
        rw [he, classify_permanent_iff]
        exact class_of_refusal_iff (m := m.retain_others path (cmd_filter track_cmd)) hallowed
          (add_path_refusal hadd)

end

/-! ## A size that does not parse -/

/-- `fsmon add <cmd> --path / --size <size>`. -/
def addRoot (cmd : String) (size : Option String) : SocketCmd := .add [] none none size (some cmd) none

/-- Nothing is configured. -/
def bareConfig : MonitorConfig := ⟨[], none, none, 4096, 1, none, 1⟩

/-- `/` for `sh`, then for `vim` with a size that does not parse: the daemon is as it was. -/
theorem refused_keeps_other_cmd : ∃ m e m',
    @handle_socket_cmd noSizes (.calm Os.bareTree) .idle (addRoot "sh" none) = (.ok (), m) ∧
      @handle_socket_cmd noSizes (.calm Os.bareTree) m (addRoot "vim" (some "x")) = (.error e, m') ∧
      SameDaemon m m' := by
  refine ⟨_, _, _, rfl, rfl, (@refused_keeps_iff noSizes (.calm Os.bareTree) _ _ [] none none
    (some "x") (some "vim") none _ rfl).2 (.inr ?_)⟩
  rintro ⟨opts, hmem, hcmd⟩
  have hopts : opts = ⟨none, none, false, some "sh", none⟩ :=
    congrArg Prod.snd (List.mem_singleton.1 hmem)
  rw [hopts] at hcmd
  exact absurd hcmd (by decide)

/-- For `sh` again: the old entry is gone. -/
theorem refused_drops_entry : ∃ m e m',
    @handle_socket_cmd noSizes (.calm Os.bareTree) .idle (addRoot "sh" none) = (.ok (), m) ∧
      @handle_socket_cmd noSizes (.calm Os.bareTree) m (addRoot "sh" (some "x")) = (.error e, m') ∧
      ¬ SameDaemon m m' := by
  refine ⟨_, _, _, rfl, rfl, fun h => ?_⟩
  have hmem := (h.entries ([], ⟨none, none, false, some "sh", none⟩)).2 (by decide)
  exact absurd hmem (by decide)

/-- The logs are in `/a`. -/
def logsInA : Monitor := { Monitor.idle with log_dir := some [[0x61]] }

/-- A recursive `/` with the logs below it: refused for good, as by a fresh start. -/
theorem class_fits_overlap : ∃ e m',
    @handle_socket_cmd noSizes (.calm Os.bareTree) logsInA
        (.add [] (some true) none none none none) = (.error e, m') ∧
      ((∃ msg, e = .permanent msg) ↔ @RejectedAtStart noSizes (.calm Os.bareTree)
        { bareConfig with log_dir := some [[0x61]] } (stored [] (some true) none none none none)) := by
  refine ⟨_, _, rfl, (@class_fits_iff noSizes (.calm Os.bareTree) logsInA _
    { bareConfig with log_dir := some [[0x61]] } [] (some true) none none none none _ rfl rfl
    ⟨_, rfl⟩).2 ?_⟩
  have hallowed : check_path_allowed (add_request [] (some true) none none none none).path = none := rfl
  unfold ClassFits
  rw [if_pos hallowed]
  exact .inl ⟨List.not_mem_nil, nofun⟩

/-- The size that does not parse is reported as transient, and the daemon cannot start with it. -/
theorem class_misfits_size : ∃ e m',
    @handle_socket_cmd noSizes (.calm Os.bareTree) .idle (addRoot "sh" (some "x")) = (.error e, m') ∧
      ¬ ((∃ msg, e = .permanent msg) ↔ @RejectedAtStart noSizes (.calm Os.bareTree) bareConfig
        (stored [] none none (some "x") (some "sh") none)) := by
  refine ⟨_, _, rfl, fun h => ?_⟩
  have htext := (classify_permanent_iff _).1 (h.2 trivial)
  have htrim : Text.trim "x".toList = ['x'] := by
    simp only [String.reduceToList]
    decide
  rw [htrim, String.toList_ofList] at htext
  unfold is_permanent Str.contains at htext
  simp only [String.reduceToList] at htext
  exact absurd htext (by decide)

end Fsmon.Monitor
