/-
# `Fsmon.Monitor.Retry` — what a retry of the pending entries does to one root

`check_pending` calls `add_path` once for each entry that exists.  Of one root:

    claimed          what the queue says of it
    retry_listed     a root that is listed gains that, and keeps its group
    retry_unlisted   a root that becomes listed exists, and is in its file system's group
    retry_removed    a root that is not listed is made of it from the first entry on
                     that `add_path` admits
-/
import Fsmon.Monitor.Ledger
import Fsmon.Monitor.Refused
import Fsmon.Monitor.Sound

namespace Fsmon.Monitor

section
variable [Sizefilter]

/-! ## What the retry reads -/

/-- The entries that exist and resolve to the root. -/
def claims (os : Os) (root : PathBuf) (es : List (PathBuf × PathEntry)) : List PathEntry :=
  (es.filter fun e => os.exists e.1 && os.canonical e.2.path = root).map (·.2)

/-- The options of those that can be read. -/
def readable (es : List PathEntry) : List PathOptions :=
  es.filterMap fun e => (PathOptions.try_from e).toOption

def claimed (os : Os) (root : PathBuf) (es : List (PathBuf × PathEntry)) : List PathOptions :=
  readable (claims os root es)

/-- `add_path` takes the entry for a root that is not listed, if there is a group. -/
def admits (os : Os) (m : Monitor) (root : PathBuf) (entry : PathEntry) : Bool :=
  (m.log_dir_overlap os root (entry.recursive.getD false)).isNone && m.fanotify.factory &&
    match PathOptions.try_from entry with
    | .ok opts => opts.cmd ≠ some "fsmon"
    | .error _ => false

omit [Sizefilter] in
theorem claims_cons (os : Os) (root : PathBuf) (e : PathBuf × PathEntry)
    (es : List (PathBuf × PathEntry)) :
    claims os root (e :: es) =
      if os.exists e.1 = true ∧ os.canonical e.2.path = root then e.2 :: claims os root es
      else claims os root es := by
  rw [claims, List.filter_cons]
  simp only [Bool.and_eq_true, decide_eq_true_eq]
  split <;> rfl

theorem readable_cons (e : PathEntry) (es : List PathEntry) :
    readable (e :: es) = readable [e] ++ readable es := by
  rw [readable, readable, readable, ← List.filterMap_append]
  rfl

theorem readable_ok {e : PathEntry} {opts : PathOptions} (h : PathOptions.try_from e = .ok opts) :
    readable [e] = [opts] := by
  rw [readable, List.filterMap_cons, h]
  rfl

theorem readable_error {e : PathEntry} {msg : Str} (h : PathOptions.try_from e = .error msg) :
    readable [e] = [] := by
  rw [readable, List.filterMap_cons, h]
  rfl

/-! ## One call -/

omit [Sizefilter] in
theorem Core.opts_append (c : Core) (root path : PathBuf) (opts : PathOptions) :
    Core.opts_for_path { c with monitored_entries := c.monitored_entries ++ [(path, opts)] } root =
      c.opts_for_path root ++ if path = root then [opts] else [] := by
  simp only [Core.opts_for_path, List.filter_append, List.map_append]
  split
  · next h => simp [h]
  · next h => simp [h]

/-- A listed root gains what the entry says of it. -/
theorem add_path_listed {os : Os} {m m' : Monitor} {entry : PathEntry} {root : PathBuf}
    (h : m.add_path os entry = .ok m') (hroot : root ∈ m.paths) :
    m'.opts_for_path root =
      m.opts_for_path root ++ if os.canonical entry.path = root then readable [entry] else [] := by
  have hadded := add_path_core h
  show m'.core.opts_for_path root = m.core.opts_for_path root ++ _
  generalize m'.core = c at hadded
  cases hadded with
  | cmd opts hpath hopts =>
      rw [Core.opts_append, readable_ok hopts]
  | pending hpath hexists =>
      have hne : os.canonical entry.path ≠ root := fun heq => hpath (heq ▸ hroot)
      rw [if_neg hne, List.append_nil]
      rfl
  | root opts hpath hexists hopts hlog hcmd =>
      have hne : os.canonical entry.path ≠ root := fun heq => hpath (heq ▸ hroot)
      rw [if_neg hne, List.append_nil]
      exact (Core.opts_append m.core root _ opts).trans (by rw [if_neg hne, List.append_nil])

/-- An entry for a listed root fails only if it cannot be read. -/
theorem add_path_unread {os : Os} {m : Monitor} {entry : PathEntry} {msg : Str}
    (h : m.add_path os entry = .error msg) (hroot : os.canonical entry.path ∈ m.paths) :
    readable [entry] = [] := by
  simp only [add_path, if_pos hroot] at h
  split at h
  · next e hopts => exact readable_error hopts
  · cases h

/-- A root that is not listed stays unlisted, unless the entry is about it. -/
theorem add_path_unlisted {os : Os} {m m' : Monitor} {entry : PathEntry} {root : PathBuf}
    (h : m.add_path os entry = .ok m') (hroot : root ∉ m.paths)
    (hother : os.canonical entry.path ≠ root ∨ os.exists root = false) : root ∉ m'.paths := by
  have hadded := add_path_core h
  show root ∉ m'.core.paths
  generalize m'.core = c at hadded
  cases hadded with
  | cmd opts hpath hopts => exact hroot
  | pending hpath hexists => exact hroot
  | root opts hpath hexists hopts hlog hcmd =>
      intro hmem
      rcases List.mem_append.1 hmem with hmem | hmem
      · exact hroot hmem
      · have heq := List.mem_singleton.1 hmem
        rcases hother with hne | hgone
        · exact hne heq.symm
        · rw [heq, hexists] at hgone
          cases hgone

theorem homes_add_path {os : Os} {m m' : Monitor} {entry : PathEntry} (h : m.add_path os entry = .ok m') :
    Homes m.fanotify.groups m'.fanotify.groups := by
  rcases ledger_add_path h with hsame | ⟨dev_id, key, hjoined⟩
  · rw [show m'.fanotify.groups = m.fanotify.groups from congrArg Ledger.groups hsame]
    exact .refl _
  · exact hjoined.homes

/-- A call leaves what `admits` looks at. -/
theorem admits_add_path {os : Os} {m m' : Monitor} {entry : PathEntry} (h : m.add_path os entry = .ok m')
    (root : PathBuf) : m'.admits os root = m.admits os root := by
  funext e
  have hstill := still_add_path h
  have hlog : m'.log_dir = m.log_dir := congrArg Plan.log_dir hstill
  have hfactory : m'.fanotify.factory = m.fanotify.factory := congrArg Plan.factory hstill
  simp only [admits, log_dir_overlap, hlog, hfactory]

/-- What a call does about a path that exists and is not listed. -/
theorem add_path_exists {os : Os} {m : Monitor} {entry : PathEntry}
    (hpath : os.canonical entry.path ∉ m.paths) (hexists : os.exists (os.canonical entry.path) = true) :
    (m.admits os (os.canonical entry.path) entry = false ∧ ∃ msg, m.add_path os entry = .error msg) ∨
      m.admits os (os.canonical entry.path) entry = true ∧
        ∃ opts, PathOptions.try_from entry = .ok opts ∧
          m.add_path os entry = m.add_root os (os.canonical entry.path) opts := by
  have hsome : ¬ os.exists (os.canonical entry.path) = false := by rw [hexists]; nofun
  simp only [add_path, admits, if_neg hpath, if_neg hsome]
  cases m.log_dir_overlap os (os.canonical entry.path) (entry.recursive.getD false) with
  | some msg => exact .inl ⟨rfl, msg, rfl⟩
  | none =>
      cases PathOptions.try_from entry with
      | error msg => exact .inl ⟨Bool.and_false _, msg, rfl⟩
      | ok opts =>
          by_cases hcmd : opts.cmd = some "fsmon"
          · exact .inl ⟨by simp [hcmd], CMD_FSMON, by simp [hcmd]⟩
          · by_cases hfactory : m.fanotify.factory = false
            · refine .inl ⟨by simp [hfactory], "fanotify factory has not been started".toList, ?_⟩
              simp [hcmd, hfactory]
            · rw [Bool.not_eq_false] at hfactory
              exact .inr ⟨by simp [hcmd, hfactory], opts, rfl, by simp [hcmd, hfactory]⟩

/-- A root that becomes listed is in the group of its file system. -/
theorem add_path_home {os : Os} {m m' : Monitor} {entry : PathEntry} {root : PathBuf}
    (h : m.add_path os entry = .ok m') (hroot : root ∉ m.paths) (hlisted : root ∈ m'.paths) :
    ∃ key, m'.fanotify.path_to_group.lookup root = some key ∧
      home m'.fanotify.groups (os.dev_id root) = some key := by
  have heq : os.canonical entry.path = root := by
    by_contra hne
    exact add_path_unlisted h hroot (.inl hne) hlisted
  have hexists : os.exists root = true := by
    by_contra hgone
    exact add_path_unlisted h hroot (.inr (by simpa using hgone)) hlisted
  subst heq
  rcases add_path_exists hroot hexists with ⟨_, msg, hfail⟩ | ⟨_, opts, _, hadd⟩
  · rw [h] at hfail
    cases hfail
  · rw [h] at hadd
    obtain ⟨key, hkey, hjoined⟩ := joined_add_root hadd.symm
    rw [os.canonical_idem] at hjoined
    exact ⟨key, hkey, hjoined.home⟩

/-! ## The retry -/

theorem homes_retry (os : Os) : ∀ (es : List (PathBuf × PathEntry)) (m : Monitor)
    (still : List (PathBuf × PathEntry)),
      Homes m.fanotify.groups (retry_pending os es m still).1.fanotify.groups := by
  intro es
  induction es with
  | nil => exact fun m _ => .refl _
  | cons e es ih =>
      intro m still
      rw [retry_pending]
      split
      · exact ih m _
      · cases hadd : m.add_path os e.2 with
        | ok m' => exact (homes_add_path hadd).trans (ih m' still)
        | error msg => exact ih m _

/-- What does not exist stays pending. -/
theorem pending_retry (os : Os) {d : PathBuf × PathEntry} (hd : os.exists d.1 = false) :
    ∀ (es : List (PathBuf × PathEntry)) (m : Monitor) (still : List (PathBuf × PathEntry)),
      d ∈ still ++ es → d ∈ (retry_pending os es m still).2 := by
  intro es
  induction es with
  | nil =>
      intro m still h
      rwa [List.append_nil] at h
  | cons e es ih =>
      intro m still h
      rw [retry_pending]
      split
      · exact ih m _ (by rwa [List.append_assoc])
      · next hexists =>
          cases m.add_path os e.2 with
          | error msg => exact ih m _ (by rwa [List.append_assoc])
          | ok m' =>
              refine ih m' still ?_
              rcases List.mem_append.1 h with h | h
              · exact List.mem_append_left _ h
              · rcases List.mem_cons.1 h with rfl | h
                · exact absurd hd hexists
                · exact List.mem_append_right _ h

/-- **A listed root** gains what is claimed for it, and keeps its group. -/
theorem retry_listed (os : Os) {root : PathBuf} : ∀ (es : List (PathBuf × PathEntry)) (m : Monitor)
    (still : List (PathBuf × PathEntry)), root ∈ m.paths →
      root ∈ (retry_pending os es m still).1.paths ∧
      (retry_pending os es m still).1.opts_for_path root = m.opts_for_path root ++ claimed os root es ∧
      (retry_pending os es m still).1.fanotify.path_to_group.lookup root =
        m.fanotify.path_to_group.lookup root := by
  intro es
  induction es with
  | nil =>
      intro m still hroot
      exact ⟨hroot, (List.append_nil _).symm, rfl⟩
  | cons e es ih =>
      intro m still hroot
      rw [retry_pending, claimed, claims_cons]
      split
      · next hgone =>
          rw [if_neg (by simp [hgone])]
          exact ih m _ hroot
      · next hexists =>
          rw [Bool.not_eq_false] at hexists
          cases hadd : m.add_path os e.2 with
          | ok m' =>
              have hgrow := grow_add_path hadd
              obtain ⟨hmem, hopts, hlook⟩ := ih m' still (hgrow.paths root hroot)
              refine ⟨hmem, ?_, hlook.trans (hgrow.roots root hroot)⟩
              rw [hopts, add_path_listed hadd hroot, List.append_assoc, claimed]
              by_cases heq : os.canonical e.2.path = root
              · rw [if_pos heq, if_pos ⟨hexists, heq⟩, readable_cons e.2 (claims os root es)]
              · rw [if_neg heq, if_neg (fun h => heq h.2), List.nil_append]
          | error msg =>
              obtain ⟨hmem, hopts, hlook⟩ := ih m (still ++ [e]) hroot
              refine ⟨hmem, hopts.trans ?_, hlook⟩
              rw [claimed]
              by_cases heq : os.canonical e.2.path = root
              · rw [if_pos ⟨hexists, heq⟩, readable_cons e.2 (claims os root es), add_path_unread hadd (heq ▸ hroot),
                  List.nil_append]
              · rw [if_neg (fun h => heq h.2)]

/-- A root that becomes listed exists, and is in the group of its file system. -/
theorem retry_unlisted (os : Os) {root : PathBuf} : ∀ (es : List (PathBuf × PathEntry)) (m : Monitor)
    (still : List (PathBuf × PathEntry)), root ∉ m.paths →
      root ∈ (retry_pending os es m still).1.paths →
      os.exists root = true ∧
        ∃ key, (retry_pending os es m still).1.fanotify.path_to_group.lookup root = some key ∧
          home (retry_pending os es m still).1.fanotify.groups (os.dev_id root) = some key := by
  intro es
  induction es with
  | nil =>
      intro m still hroot hlisted
      exact absurd hlisted hroot
  | cons e es ih =>
      intro m still hroot hlisted
      rw [retry_pending] at hlisted ⊢
      split at hlisted
      · next hgone =>
          rw [if_pos hgone]
          exact ih m _ hroot hlisted
      · next hexists =>
          rw [if_neg hexists]
          cases hadd : m.add_path os e.2 with
          | error msg =>
              rw [hadd] at hlisted
              exact ih m _ hroot hlisted
          | ok m' =>
              rw [hadd] at hlisted
              simp only at hlisted ⊢
              by_cases hm' : root ∈ m'.paths
              · obtain ⟨key, hlook, hhome⟩ := add_path_home hadd hroot hm'
                refine ⟨?_, key, (retry_listed os es m' still hm').2.2.trans hlook,
                  (homes_retry os es m' still).kept _ _ hhome⟩
                by_contra hgone
                exact add_path_unlisted hadd hroot (.inr (by simpa using hgone)) hm'
              · exact ih m' still hm' hlisted

omit [Sizefilter] in
/-- A path without entries. -/
theorem opts_of_unlisted {m : Monitor} (h : m.core.Rooted) {root : PathBuf} (hroot : root ∉ m.paths) :
    m.opts_for_path root = [] := by
  rw [opts_for_path, List.map_eq_nil_iff, List.filter_eq_nil_iff]
  intro e he heq
  exact hroot (of_decide_eq_true heq ▸ h e he)

omit [Sizefilter] in
/-- Where there is a group, a root is added. -/
theorem add_root_home {os : Os} {m : Monitor} (path : PathBuf) (opts : PathOptions) {key : Nat}
    (h : home m.fanotify.groups (os.dev_id (os.canonical path)) = some key) :
    ∃ m', m.add_root os path opts = .ok m' := by
  obtain ⟨⟨_, group⟩, hgroup, rfl⟩ := Option.map_eq_some_iff.1 h
  have hon : m.group_on (os.dev_id (os.canonical path)) = some (_, group) := hgroup
  simp only [add_root, hon]
  exact ⟨_, rfl⟩

/-- **A root that was removed**, and whose file system has a group, is made anew of what is claimed
for it from the first entry on that `add_path` admits. -/
theorem retry_removed (os : Os) {root : PathBuf} {key : Nat} :
    ∀ (es : List (PathBuf × PathEntry)) (m : Monitor) (still : List (PathBuf × PathEntry)),
      (∀ e ∈ es, e.2.path = e.1) → m.core.Rooted → root ∉ m.paths →
      home m.fanotify.groups (os.dev_id root) = some key →
      (retry_pending os es m still).1.opts_for_path root =
        readable ((claims os root es).dropWhile fun e => !m.admits os root e) := by
  intro es
  induction es with
  | nil =>
      intro m still _ hrooted hroot _
      exact opts_of_unlisted hrooted hroot
  | cons e es ih =>
      intro m still hnamed hrooted hroot hhome
      have hnamed' : ∀ d ∈ es, d.2.path = d.1 := fun d hd => hnamed d (List.mem_cons_of_mem _ hd)
      rw [retry_pending, claims_cons]
      split
      · next hgone =>
          rw [if_neg (by simp [hgone])]
          exact ih m _ hnamed' hrooted hroot hhome
      · next hexists =>
          rw [Bool.not_eq_false] at hexists
          by_cases heq : os.canonical e.2.path = root
          · rw [if_pos ⟨hexists, heq⟩]
            have hthere : os.exists (os.canonical e.2.path) = true := by
              rw [os.exists_canonical, hnamed e List.mem_cons_self]
              exact hexists
            rcases add_path_exists (heq ▸ hroot) hthere with ⟨hadmits, msg, hfail⟩ |
              ⟨hadmits, opts, hopts, hadd⟩
            · rw [heq] at hadmits
              rw [hfail, List.dropWhile_cons_of_pos (by rw [hadmits]; rfl)]
              exact ih m _ hnamed' hrooted hroot hhome
            · rw [heq] at hadmits hadd
              have hself : os.canonical root = root := by rw [← heq, os.canonical_idem]
              obtain ⟨m', hm'⟩ := add_root_home root opts (hself.symm ▸ hhome)
              have hplan := plan_add_root hm'
              have hlisted : root ∈ m'.paths := by
                rw [show m'.paths = m.paths ++ [root] from congrArg Plan.paths hplan]
                exact List.mem_append_right _ (List.mem_singleton_self _)
              have hfirst : m'.opts_for_path root = [opts] := by
                have hcore : m'.core.opts_for_path root = m.core.opts_for_path root ++ [opts] := by
                  have h := Core.opts_append m.core root root opts
                  rw [if_pos rfl] at h
                  rw [← h]
                  exact congrArg (fun p : Plan => p.core.opts_for_path root) hplan
                have hnone : m.core.opts_for_path root = [] := opts_of_unlisted hrooted hroot
                rw [hnone] at hcore
                exact hcore
              rw [hadd, hm', List.dropWhile_cons_of_neg (by simp [hadmits])]
              simp only
              rw [(retry_listed os es m' still hlisted).2.1, hfirst, readable_cons, readable_ok hopts]
              rfl
          · rw [if_neg fun h => heq h.2]
            cases hadd : m.add_path os e.2 with
            | error msg => exact ih m _ hnamed' hrooted hroot hhome
            | ok m' =>
                rw [← admits_add_path hadd]
                exact ih m' still hnamed' ((add_path_core hadd).rooted hrooted)
                  (add_path_unlisted hadd hroot (.inl heq)) ((homes_add_path hadd).kept _ _ hhome)

end

end Fsmon.Monitor
