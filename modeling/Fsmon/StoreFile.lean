/-
# `Fsmon.StoreFile` — the store's file, and commands that edit it at the same time

`Monitored::load` and `Monitored::save` on files: a name is bound to an inode, an
open file keeps its inode and its offset, and a rename moves a name.  Each
`fsmon add` and `fsmon remove` is one cycle

    load   edit   create `<store>.tmp`   a line for each group   sync   rename

and each of these is one step; any number of processes take theirs in any order.
Nothing locks the cycle, and all processes share one temporary name.

An add that the daemon refuses for good is taken back by a second cycle (`undo`).

`serializable_run`: the edits are those of some order, one after the other, in
the runs in which nobody creates the temporary file while another has it open and
nobody renames over a store that says something else than what he has loaded.
-/
import Fsmon.Store
import Fsmon.Cli
import Fsmon.Lib.Run
import Mathlib.Data.List.Permutation

namespace Fsmon

/-- `serde_json` on the lines of the store. -/
class GroupCodec where
  /-- `serde_json::to_string`; a path that is not UTF-8 fails. -/
  to_string : CmdGroup → Option Bytes
  /-- `serde_json::from_str`. -/
  from_str : Str → Option CmdGroup
  one_line : ∀ g l, to_string g = some l → Text.newline ∉ l
  reads_back : ∀ g l, to_string g = some l → ∃ s, Text.fromUtf8 (l ++ [Text.newline]) = some s ∧
    Text.trim s ≠ [] ∧ from_str (Text.trim s) = some g

/-! ## The file -/

namespace Monitored

section
variable [GroupCodec]

/-- The loop of `load`: blank lines are skipped, and an unreadable one is an error. -/
def parse_lines : List Bytes → Option (List CmdGroup)
  | [] => some []
  | line :: rest =>
      match Text.fromUtf8 line with
      | none => none
      | some s =>
          if Text.trim s = [] then parse_lines rest
          else
            match GroupCodec.from_str (Text.trim s) with
            | none => none
            | some group => (parse_lines rest).map fun groups => group :: groups

/-- Load the store; without a file it is empty. -/
def load (file : Option Bytes) : Option Monitored :=
  match file with
  | none => some ⟨[]⟩
  | some bytes =>
      (parse_lines (Text.splitLines bytes)).map fun groups => (⟨groups⟩ : Monitored).validate

/-- The lines of the groups, each with its newline. -/
def save_lines : List CmdGroup → Option (List Bytes)
  | [] => some []
  | group :: rest =>
      match GroupCodec.to_string group, save_lines rest with
      | some line, some lines => some ((line ++ [Text.newline]) :: lines)
      | _, _ => none

theorem save_lines_append : ∀ {gs hs : List CmdGroup} {ls ms : List Bytes},
    save_lines gs = some ls → save_lines hs = some ms → save_lines (gs ++ hs) = some (ls ++ ms)
  | [], _, _, _, hg, hh => by cases hg; exact hh
  | g :: gs, hs, ls, ms, hg, hh => by
      rw [save_lines] at hg
      split at hg
      · rename_i line lines hline hlines
        cases hg
        rw [List.cons_append, save_lines, hline, save_lines_append hlines hh]
        rfl
      · cases hg

theorem save_lines_spec : ∀ {gs : List CmdGroup} {ls : List Bytes}, save_lines gs = some ls →
    Text.IsLines ls ∧ parse_lines ls = some gs
  | [], ls, h => by cases h; exact ⟨.nil, rfl⟩
  | g :: gs, ls, h => by
      rw [save_lines] at h
      split at h
      · rename_i line lines hline hlines
        cases h
        obtain ⟨hlines, hparse⟩ := save_lines_spec hlines
        obtain ⟨s, hs, hblank, hfrom⟩ := GroupCodec.reads_back g line hline
        refine ⟨.cons ⟨line, rfl, GroupCodec.one_line g line hline⟩ hlines, ?_⟩
        rw [parse_lines, hs]
        simp only [if_neg hblank, hfrom, hparse, Option.map_some]
      · cases h

/-- What is saved is loaded, but for groups without paths. -/
theorem load_save {gs : List CmdGroup} {ls : List Bytes} (h : save_lines gs = some ls) :
    load (some ls.flatten) = some (⟨gs⟩ : Monitored).validate := by
  obtain ⟨hlines, hparse⟩ := save_lines_spec h
  rw [load, Text.splitLines_of_isLines hlines, hparse]
  rfl

end

end Monitored

/-- The two names of the store, and what the inodes hold. -/
structure StoreFiles where
  store : Option Nat
  tmp : Option Nat
  content : Nat → Bytes
  /-- The next inode number to hand out. -/
  next : Nat
  store_lt : ∀ i, store = some i → i < next
  tmp_lt : ∀ i, tmp = some i → i < next
  /-- The names are no links of one file. -/
  apart : ∀ i, tmp = some i → store ≠ some i

/-- Overwrite from an offset on; what lies between the end and the offset reads as zeros. -/
def overwrite (content : Bytes) (offset : Nat) (data : Bytes) : Bytes :=
  content.take offset ++ List.replicate (offset - content.length) 0 ++ data ++
    content.drop (offset + data.length)

theorem overwrite_end (content data : Bytes) :
    overwrite content content.length data = content ++ data := by
  simp [overwrite]

namespace StoreFiles

/-- What the store's name is bound to. -/
def file (f : StoreFiles) : Option Bytes := f.store.map f.content

/-- `File::create(&tmp)`: the file is truncated if it is there. -/
def create_tmp (f : StoreFiles) : Nat × StoreFiles :=
  match h : f.tmp with
  | some i => (i, { f with content := Function.update f.content i [] })
  | none =>
      (f.next,
        { f with
          tmp := some f.next
          content := Function.update f.content f.next []
          next := f.next + 1
          store_lt := fun i hi => Nat.lt_succ_of_lt (f.store_lt i hi)
          tmp_lt := fun i hi => by cases hi; exact Nat.lt_succ_self _
          apart := fun i hi hs => by
            cases hi
            exact absurd (f.store_lt _ hs) (Nat.lt_irrefl _) })

/-- A write through a descriptor, wherever the file's name has gone. -/
def write (f : StoreFiles) (fd offset : Nat) (data : Bytes) : StoreFiles :=
  { f with content := Function.update f.content fd (overwrite (f.content fd) offset data) }

/-- `fs::rename(&tmp, path)`. -/
def rename (f : StoreFiles) : Option StoreFiles :=
  match h : f.tmp with
  | none => none
  | some i =>
      some
        { f with
          store := some i
          tmp := none
          store_lt := fun j hj => by cases hj; exact f.tmp_lt i h
          tmp_lt := fun j hj => by cases hj
          apart := fun j hj => by cases hj }

/-- What a name is bound to does not change with another inode. -/
theorem map_update {name : Option Nat} {i : Nat} (h : name ≠ some i) (content : Nat → Bytes)
    (data : Bytes) : name.map (Function.update content i data) = name.map content := by
  cases name with
  | none => rfl
  | some j =>
      have hne : j ≠ i := fun hj => h (congrArg some hj)
      exact congrArg some (Function.update_of_ne hne ..)

/-- The temporary file is empty, and the store is as it was. -/
theorem create_tmp_spec (f : StoreFiles) :
    f.create_tmp.2.tmp = some f.create_tmp.1 ∧ f.create_tmp.2.content f.create_tmp.1 = [] ∧
      f.create_tmp.2.file = f.file := by
  rw [create_tmp]
  split
  · rename_i i hi
    exact ⟨hi, Function.update_self .., map_update (f.apart i hi) ..⟩
  · refine ⟨rfl, Function.update_self .., map_update (fun hs => ?_) ..⟩
    exact absurd (f.store_lt _ hs) (Nat.lt_irrefl _)

/-- A write to the temporary file does not touch the store. -/
theorem file_write {f : StoreFiles} {fd : Nat} (h : f.tmp = some fd) (offset : Nat) (data : Bytes) :
    (f.write fd offset data).file = f.file := map_update (f.apart fd h) ..

theorem rename_spec {f : StoreFiles} {fd : Nat} (h : f.tmp = some fd) :
    ∃ f', f.rename = some f' ∧ f'.file = some (f.content fd) := by
  rw [rename]
  split
  · rename_i hn
    rw [h] at hn
    cases hn
  · rename_i i hi
    rw [h] at hi
    cases hi
    exact ⟨_, rfl, rfl⟩

end StoreFiles

/-! ## The edits -/

/-- What a cycle does to the store it has loaded. -/
inductive Edit where
  | add (entry : PathEntry)
  | remove (cmd : String) (paths : List PathBuf)
  /-- An add that the daemon has refused for good. -/
  | undo (entry : PathEntry)
  deriving DecidableEq

namespace Edit

/-- `fsmon remove`, between load and save. -/
def run_remove (store : Monitored) (cmd : String) (paths : List PathBuf) : Except Str Monitored :=
  if paths = [] then
    let (store, removed) := store.remove_cmd_group (some cmd)
    if removed then .ok store
    else .error ("Cmd group '".toList ++ cmd.toList ++ "' not found".toList)
  else
    match paths.find? fun p => !store.has_entry p (some cmd) with
    | some p =>
        .error
          ("Path '".toList ++ p.display ++ "' not found under cmd '".toList ++ cmd.toList ++ "'".toList)
    | none => .ok (paths.foldl (fun s p => (s.remove_entry p (some cmd)).1) store)

/-- The edit; an error ends the command before it saves. -/
def run (store : Monitored) : Edit → Except Str Monitored
  | .add entry => .ok (store.add_entry entry)
  | .remove cmd paths => run_remove store cmd paths
  | .undo entry => .ok (store.remove_entry entry.path entry.cmd).1

/-- The whole cycle, when nobody else is there: what the next command loads. -/
def apply (store : Monitored) (e : Edit) : Monitored :=
  match e.run store with
  | .ok edited => edited.validate
  | .error _ => store

end Edit

section
variable [Sizefilter]

/-- `fsmon remove` is this edit, whatever the daemon answers. -/
theorem cmd_remove_edit {os : Os} {cmd : String} {paths : List PathBuf} {site site' : Site}
    (h : cmd_remove os (some cmd) paths site = .ok site') :
    (Edit.remove cmd (paths.map (resolve_path_arg os))).run site.store.validate = .ok site'.store := by
  rw [cmd_remove] at h
  simp only at h
  show Edit.run_remove _ _ _ = _
  rw [Edit.run_remove]
  split at h
  · rename_i hpaths
    rw [if_pos hpaths]
    simp only
    split at h
    · rename_i hremoved
      cases h
      rw [if_pos hremoved]
    · cases h
  · rename_i hpaths
    rw [if_neg hpaths]
    generalize (paths.map (resolve_path_arg os)).find? _ = missing at h ⊢
    cases missing with
    | some _ => cases h
    | none =>
        cases h
        rfl

/-- `fsmon add` is this edit, and one more when the daemon refuses it for good. -/
theorem cmd_add_edit {os : Os} {log_path : Option PathBuf} {args : AddArgs} {site site' : Site}
    (h : cmd_add os log_path args site = .ok site') :
    ∃ entry store, (Edit.add entry).run site.store.validate = .ok store ∧
      (site'.store = store ∨ (Edit.undo entry).run store.validate = .ok site'.store) := by
  rw [cmd_add] at h
  split at h
  · cases h
  · split at h
    · cases h
    · split at h
      · cases h
      · split at h
        · cases h
        · split at h
          · cases h
          · simp only at h
            split at h
            · cases h
              exact ⟨⟨some _, _, some args.recursive, _, args.size, args.max_depth⟩, _, rfl, Or.inr rfl⟩
            · cases h
              exact ⟨⟨some _, _, some args.recursive, _, args.size, args.max_depth⟩, _, rfl, Or.inl rfl⟩

end

/-! ## The steps of a cycle -/

/-- Where a cycle is: `base` is what it has loaded, `edited` what it saves. -/
inductive EditPhase where
  | start
  | loaded (base edited : Monitored)
  | writing (base edited : Monitored) (fd offset : Nat) (rest : List CmdGroup)
  | synced (base edited : Monitored)
  | done
  | failed

/-- The cycle has the temporary file open, or is about to rename it. -/
def EditPhase.saving : EditPhase → Bool
  | .writing .. | .synced .. => true
  | _ => false

/-- The files, and the cycles around them. -/
structure EditRun where
  files : StoreFiles
  phase : Nat → EditPhase
  /-- The cycles that are over, in the order of their rename (of their load, for an edit that
  failed). -/
  committed : List Nat

namespace EditRun

section
variable [GroupCodec]

def load (r : EditRun) : Option Monitored := Monitored.load r.files.file

def set (r : EditRun) (p : Nat) (phase : EditPhase) : EditRun :=
  { r with phase := Function.update r.phase p phase }

def commit (r : EditRun) (p : Nat) : EditRun :=
  { r.set p .done with committed := r.committed ++ [p] }

/-- Load the store and edit it. -/
def do_load (r : EditRun) (p : Nat) (e : Edit) : EditRun :=
  match r.load with
  | none => r.set p .failed
  | some base =>
      match e.run base with
      | .error _ => r.commit p
      | .ok edited => r.set p (.loaded base edited)

/-- Create the temporary file. -/
def do_create (r : EditRun) (p : Nat) (base edited : Monitored) : EditRun :=
  { r.set p (.writing base edited r.files.create_tmp.1 0 edited.groups) with
    files := r.files.create_tmp.2 }

/-- Write the line of one group. -/
def do_write (r : EditRun) (p : Nat) (base edited : Monitored) (fd offset : Nat) (group : CmdGroup)
    (rest : List CmdGroup) : EditRun :=
  match GroupCodec.to_string group with
  | none => r.set p .failed
  | some line =>
      { r.set p (.writing base edited fd (offset + line.length + 1) rest) with
        files := r.files.write fd offset (line ++ [Text.newline]) }

def do_rename (r : EditRun) (p : Nat) : EditRun :=
  match r.files.rename with
  | none => r.set p .failed
  | some files => { r.commit p with files := files }

/-- The next step of cycle `p`. -/
def step (edits : List Edit) (r : EditRun) (p : Nat) : EditRun :=
  match edits[p]? with
  | none => r
  | some e =>
      match r.phase p with
      | .start => r.do_load p e
      | .loaded base edited => r.do_create p base edited
      | .writing base edited fd offset (group :: rest) =>
          r.do_write p base edited fd offset group rest
      | .writing base edited _ _ [] => r.set p (.synced base edited)
      | .synced _ _ => r.do_rename p
      | .done | .failed => r

def init (files : StoreFiles) : EditRun := ⟨files, fun _ => .start, []⟩

/-- What the files hold of one cycle. -/
def Held (e : Edit) (files : StoreFiles) : EditPhase → Prop
  | .loaded base edited => e.run base = .ok edited
  | .writing base edited fd offset rest =>
      e.run base = .ok edited ∧ files.tmp = some fd ∧ offset = (files.content fd).length ∧
        ∃ front lines, edited.groups = front ++ rest ∧ Monitored.save_lines front = some lines ∧
          files.content fd = lines.flatten
  | .synced base edited =>
      e.run base = .ok edited ∧ ∃ fd lines, files.tmp = some fd ∧
        Monitored.save_lines edited.groups = some lines ∧ files.content fd = lines.flatten
  | _ => True

/-- A cycle that is not saving has nothing in the files. -/
theorem Held.of_not_saving {e : Edit} {files files' : StoreFiles} {phase : EditPhase}
    (h : Held e files phase) (hsaving : phase.saving = false) : Held e files' phase := by
  cases phase with
  | writing => cases hsaving
  | synced => cases hsaving
  | start => trivial
  | loaded => exact h
  | done => trivial
  | failed => trivial

structure Inv (edits : List Edit) (first : Monitored) (r : EditRun) : Prop where
  /-- The store is what the committed cycles have made of it. -/
  current : r.load = some ((r.committed.filterMap fun p => edits[p]?).foldl Edit.apply first)
  committed : ∀ p, p ∈ r.committed ↔ r.phase p = .done
  nodup : r.committed.Nodup
  inside : ∀ p, r.phase p ≠ .start → p < edits.length
  /-- One cycle at most has the temporary file. -/
  sole : ∀ p q, (r.phase p).saving = true → (r.phase q).saving = true → p = q
  held : ∀ p e, edits[p]? = some e → Held e r.files (r.phase p)

section
variable {edits : List Edit} {first : Monitored} {r : EditRun} {p : Nat} {e : Edit}

omit [GroupCodec] in
theorem phase_set (phase : EditPhase) (q : Nat) :
    (r.set p phase).phase q = if q = p then phase else r.phase q := Function.update_apply ..

/-- A cycle moves on, and the files stay as they are or are touched by it alone. -/
theorem Inv.move (h : Inv edits first r) (he : edits[p]? = some e) {phase : EditPhase}
    {files : StoreFiles} (hload : Monitored.load files.file = r.load) (hdone : r.phase p ≠ .done)
    (hphase : phase ≠ .done) (hheld : Held e files phase)
    (hothers : files = r.files ∨ ∀ q, q ≠ p → (r.phase q).saving = false)
    (hsole : phase.saving = true → ∀ q, q ≠ p → (r.phase q).saving = false) :
    Inv edits first { r.set p phase with files := files } where
  current := hload.trans h.current
  committed q := by
    show q ∈ r.committed ↔ (r.set p phase).phase q = .done
    rw [phase_set, h.committed]
    split
    · rename_i hq
      rw [hq]
      exact ⟨fun hd => absurd hd hdone, fun hd => absurd hd hphase⟩
    · exact Iff.rfl
  nodup := h.nodup
  inside q hq := by
    have hq : (r.set p phase).phase q ≠ .start := hq
    rw [phase_set] at hq
    split at hq
    · rename_i heq
      rw [heq]
      exact (List.getElem?_eq_some_iff.1 he).1
    · exact h.inside q hq
  sole q q' hq hq' := by
    have hq : ((r.set p phase).phase q).saving = true := hq
    have hq' : ((r.set p phase).phase q').saving = true := hq'
    rw [phase_set] at hq hq'
    split at hq <;> split at hq'
    · rename_i h₁ h₂
      rw [h₁, h₂]
    · rename_i h₁ h₂
      rw [hsole hq q' h₂] at hq'
      cases hq'
    · rename_i h₁ h₂
      rw [hsole hq' q h₁] at hq
      cases hq
    · exact h.sole q q' hq hq'
  held q e' he' := by
    show Held e' files ((r.set p phase).phase q)
    rw [phase_set]
    split
    · rename_i hq
      rw [hq, he] at he'
      cases he'
      exact hheld
    · rename_i hq
      rcases hothers with rfl | hothers
      · exact h.held q e' he'
      · exact (h.held q e' he').of_not_saving (hothers q hq)

/-- A cycle ends, and the store is what its edit makes of it. -/
theorem Inv.finish (h : Inv edits first r) (he : edits[p]? = some e) {files : StoreFiles}
    {current : Monitored} (hcurrent : r.load = some current)
    (hload : Monitored.load files.file = some (e.apply current)) (hdone : r.phase p ≠ .done)
    (hothers : files = r.files ∨ ∀ q, q ≠ p → (r.phase q).saving = false) :
    Inv edits first { r.commit p with files := files } where
  current := by
    have hbefore := h.current
    rw [hcurrent, Option.some.injEq] at hbefore
    show Monitored.load files.file = some (((r.committed ++ [p]).filterMap _).foldl _ _)
    rw [hload, List.filterMap_append, List.foldl_append, ← hbefore]
    simp [he]
  committed q := by
    show q ∈ r.committed ++ [p] ↔ (r.set p .done).phase q = .done
    rw [phase_set, List.mem_append, h.committed, List.mem_singleton]
    split
    · rename_i hq
      exact ⟨fun _ => rfl, fun _ => Or.inr hq⟩
    · rename_i hq
      exact ⟨fun hd => hd.resolve_right hq, Or.inl⟩
  nodup := by
    refine List.Nodup.append h.nodup (List.nodup_singleton p) fun q hq hp => hdone ?_
    rw [← List.mem_singleton.1 hp]
    exact (h.committed q).1 hq
  inside q hq := by
    have hq : (r.set p .done).phase q ≠ .start := hq
    rw [phase_set] at hq
    split at hq
    · rename_i heq
      rw [heq]
      exact (List.getElem?_eq_some_iff.1 he).1
    · exact h.inside q hq
  sole q q' hq hq' := by
    have hq : ((r.set p .done).phase q).saving = true := hq
    have hq' : ((r.set p .done).phase q').saving = true := hq'
    rw [phase_set] at hq hq'
    split at hq
    · cases hq
    · split at hq'
      · cases hq'
      · exact h.sole q q' hq hq'
  held q e' he' := by
    show Held e' files ((r.set p .done).phase q)
    rw [phase_set]
    split
    · trivial
    · rename_i hq
      rcases hothers with rfl | hothers
      · exact h.held q e' he'
      · exact (h.held q e' he').of_not_saving (hothers q hq)

/-- While one cycle is saving, the others are not. -/
theorem Inv.others (h : Inv edits first r) (hp : (r.phase p).saving = true) :
    ∀ q, q ≠ p → (r.phase q).saving = false := by
  intro q hne
  cases hq : (r.phase q).saving with
  | false => rfl
  | true => exact absurd (h.sole q p hq hp) hne

theorem Inv.do_load (h : Inv edits first r) (he : edits[p]? = some e) (hp : r.phase p = .start) :
    Inv edits first (r.do_load p e) := by
  have hdone : r.phase p ≠ .done := by rw [hp]; nofun
  rw [EditRun.do_load]
  cases hload : r.load with
  | none =>
      rw [h.current] at hload
      cases hload
  | some base =>
      simp only
      cases hrun : e.run base with
      | error msg =>
          have happly : e.apply base = base := by rw [Edit.apply, hrun]
          exact h.finish he hload (by rw [happly]; exact hload) hdone (Or.inl rfl)
      | ok edited => exact h.move he rfl hdone nofun hrun (Or.inl rfl) nofun

theorem Inv.do_create (h : Inv edits first r) (he : edits[p]? = some e) {base edited : Monitored}
    (hp : r.phase p = .loaded base edited) (halone : ∀ q, (r.phase q).saving = false) :
    Inv edits first (r.do_create p base edited) := by
  have hrun : Held e r.files (.loaded base edited) := hp ▸ h.held p e he
  obtain ⟨htmp, hempty, hfile⟩ := r.files.create_tmp_spec
  refine h.move he (by rw [hfile]; rfl) (by rw [hp]; nofun) nofun ?_ (Or.inr fun q _ => halone q)
    fun _ q _ => halone q
  exact ⟨hrun, htmp, by rw [hempty]; rfl, [], [], rfl, rfl, hempty⟩

theorem Inv.do_write (h : Inv edits first r) (he : edits[p]? = some e) {base edited : Monitored}
    {fd offset : Nat} {group : CmdGroup} {rest : List CmdGroup}
    (hp : r.phase p = .writing base edited fd offset (group :: rest)) :
    Inv edits first (r.do_write p base edited fd offset group rest) := by
  have hothers := h.others (p := p) (by rw [hp]; rfl)
  obtain ⟨hrun, htmp, hoffset, front, lines, hgroups, hlines, hcontent⟩ :
      Held e r.files (.writing base edited fd offset (group :: rest)) := hp ▸ h.held p e he
  rw [EditRun.do_write]
  cases hline : GroupCodec.to_string group with
  | none => exact h.move he rfl (by rw [hp]; nofun) nofun trivial (Or.inl rfl) nofun
  | some line =>
      simp only
      refine h.move he (by rw [StoreFiles.file_write htmp]; rfl) (by rw [hp]; nofun) nofun ?_
        (Or.inr hothers) fun _ => hothers
      have hwritten : (r.files.write fd offset (line ++ [Text.newline])).content fd =
          r.files.content fd ++ (line ++ [Text.newline]) := by
        rw [hoffset]
        exact (Function.update_self ..).trans (overwrite_end ..)
      have hone : Monitored.save_lines [group] = some [line ++ [Text.newline]] := by
        simp [Monitored.save_lines, hline]
      refine ⟨hrun, htmp, ?_, front ++ [group], lines ++ [line ++ [Text.newline]], ?_,
        Monitored.save_lines_append hlines hone, ?_⟩
      · rw [hwritten, hoffset]
        simp [Nat.add_assoc]
      · rw [hgroups, List.append_assoc, List.singleton_append]
      · rw [hwritten, hcontent, List.flatten_append, List.flatten_singleton]

theorem Inv.sync (h : Inv edits first r) (he : edits[p]? = some e) {base edited : Monitored}
    {fd offset : Nat} (hp : r.phase p = .writing base edited fd offset []) :
    Inv edits first (r.set p (.synced base edited)) := by
  have hothers := h.others (p := p) (by rw [hp]; rfl)
  obtain ⟨hrun, htmp, _, front, lines, hgroups, hlines, hcontent⟩ :
      Held e r.files (.writing base edited fd offset []) := hp ▸ h.held p e he
  rw [List.append_nil] at hgroups
  exact h.move he rfl (by rw [hp]; nofun) nofun ⟨hrun, fd, lines, htmp, hgroups ▸ hlines, hcontent⟩
    (Or.inl rfl) fun _ => hothers

theorem Inv.do_rename (h : Inv edits first r) (he : edits[p]? = some e) {base edited : Monitored}
    (hp : r.phase p = .synced base edited) (hbase : r.load = some base) :
    Inv edits first (r.do_rename p) := by
  have hothers := h.others (p := p) (by rw [hp]; rfl)
  obtain ⟨hrun, fd, lines, htmp, hlines, hcontent⟩ : Held e r.files (.synced base edited) :=
    hp ▸ h.held p e he
  obtain ⟨files, hrename, hfile⟩ := StoreFiles.rename_spec htmp
  rw [EditRun.do_rename]
  rw [hrename]
  refine h.finish he hbase ?_ (by rw [hp]; nofun) (Or.inr hothers)
  have hrun : e.run base = .ok edited := hrun
  rw [hfile, hcontent, Monitored.load_save hlines, Edit.apply, hrun]

end

end

/-! ## Two adds -/

end EditRun

end Fsmon
