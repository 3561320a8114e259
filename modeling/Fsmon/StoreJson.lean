/-
# `Fsmon.StoreJson` — the lines of the store

What `serde_json` makes of a cmd group, both ways: an object with the cmd and one
member for each path, in the order of a `BTreeMap`.  A path is a key, so only a
path that is UTF-8 can be saved; a key that is read is inserted, and the last of
equal ones stays.

    read_paths_lookup    the members make up the map again, in whichever order they stand
    save_isSome          a store is saved exactly if all its paths are UTF-8
    load_saved           what is loaded says, as a map, what was saved
    json_store_is_map    in any run of edits, saves and loads the store is a finite map
-/
import Fsmon.StoreMap
import Fsmon.Wire
import Fsmon.Crash

namespace Fsmon.StoreJson

open JsonText (Value Fits print record present)
open Serde (required read_string read_vec read_option read_integer ReadsJson MAX_DEPTH)
open Wire (text texts bool nullable optional read_bool)
open Text (fromUtf8 encode trim splitLines)

/-! ## Writing -/

def depth (n : Nat) : Value := .number n

/-- `None` is left out, but for `recursive`. -/
def params_fields (p : PathParams) : List (String × Option Value) :=
  [("recursive", some (nullable bool p.recursive)), ("types", p.types.map texts), ("size", p.size.map text),
    ("max_depth", p.max_depth.map depth)]

/-- One entry of the map. -/
def member (e : Sigma fun _ : PathBuf => PathParams) : Option (Str × Value) :=
  (fromUtf8 e.1.toBytes).map fun path => (path, record (params_fields e.2))

/-- The entries in the order of their paths. -/
def sorted (g : CmdGroup) : List (Sigma fun _ : PathBuf => PathParams) :=
  g.paths.entries.mergeSort fun e f => e.1 ≤ f.1

def group_fields (g : CmdGroup) (members : List (Str × Value)) : List (String × Option Value) :=
  [("cmd", some (text g.cmd)), ("paths", some (.object members))]

/-- `Serialize for CmdGroup`. -/
def value (g : CmdGroup) : Option Value := ((sorted g).mapM member).map fun ms => record (group_fields g ms)

/-- `serde_json::to_string`. -/
def to_string (g : CmdGroup) : Option Str := (value g).map (print Json.escape)

/-- Save Monitored to file. -/
def save (s : Monitored) : Option Bytes := (s.groups.mapM to_string).map fileOf

/-! ## Reading -/

/-- `Deserialize for PathParams`. -/
def read_params : Value → Option PathParams
  | .object ms => do
      let recursive ← optional ms "recursive" read_bool
      let types ← optional ms "types" (read_vec read_string)
      let size ← optional ms "size" read_string
      let max_depth ← optional ms "max_depth" (read_integer 0 4294967295 Int.toNat)
      return { recursive, types, size, max_depth }
  | _ => none

/-- `Deserialize for BTreeMap`: the members are inserted one after the other. -/
def read_paths (paths : HashMap PathBuf PathParams) : List (Str × Value) → Option (HashMap PathBuf PathParams)
  | [] => some paths
  | (path, v) :: ms =>
      match read_params v with
      | none => none
      | some params => read_paths (paths.insert (Security.components (encode path)) params) ms

def read_map : Value → Option (HashMap PathBuf PathParams)
  | .object ms => read_paths ∅ ms
  | _ => none

/-- `Deserialize for CmdGroup`. -/
def from_value : Value → Option CmdGroup
  | .object ms => do
      let cmd ← required ms "cmd" read_string
      let paths ← required ms "paths" read_map
      return { cmd, paths }
  | _ => none

section
variable (json : Str → Option Value)

/-- `serde_json::from_str`. -/
def from_str (s : Str) : Option CmdGroup := (json s).bind from_value

/-- The loop of `load`. -/
def parse_lines : List Bytes → Option (List CmdGroup)
  | [] => some []
  | line :: rest =>
      match fromUtf8 line with
      | none => none
      | some s =>
          if trim s = [] then parse_lines rest
          else
            match from_str json (trim s) with
            | none => none
            | some group => (parse_lines rest).map fun groups => group :: groups

/-- Load Monitored from file. -/
def load (file : Option Bytes) : Option Monitored :=
  match file with
  | none => some ⟨[]⟩
  | some bytes => (parse_lines json (splitLines bytes)).map fun groups => (⟨groups⟩ : Monitored).validate

end

/-! ## A group is read as it was -/

/-- An entry as the source's types can hold it: a path of whole parts, and a depth of 32 bits. -/
structure Typed (path : PathBuf) (params : PathParams) : Prop where
  plain : Security.IsPlain path
  narrow : ∀ n, params.max_depth = some n → n ≤ 4294967295

def Storable (g : CmdGroup) : Prop := ∀ path params, g.paths.lookup path = some params → Typed path params

theorem Storable.entries {g : CmdGroup} (h : Storable g) : ∀ e ∈ g.paths.entries, Typed e.1 e.2 :=
  fun e he => h e.1 e.2 (AList.mem_lookup_iff.2 he)

theorem read_option_depth {n : Nat} (h : n ≤ 4294967295) :
    read_option (read_integer 0 4294967295 Int.toNat) (depth n) = some (some n) := by
  have hrange : (0 : Int) ≤ n ∧ (n : Int) ≤ 4294967295 := by omega
  show (read_integer 0 4294967295 Int.toNat (.number n)).map some = some (some n)
  rw [read_integer, if_pos hrange]
  rfl

theorem read_params_record {p : PathParams} (h : ∀ n, p.max_depth = some n → n ≤ 4294967295) :
    read_params (record (params_fields p)) = some p := by
  have hnames : ((params_fields p).map Prod.fst).Nodup := by
    show (["recursive", "types", "size", "max_depth"] : List String).Nodup
    decide
  have h₀ : optional (present (params_fields p)) "recursive" read_bool = some p.recursive :=
    Wire.nullable_record hnames (List.mem_of_getElem? (i := 0) rfl) Wire.read_option_bool
  have h₁ : optional (present (params_fields p)) "types" (read_vec read_string) = some p.types :=
    Wire.optional_record hnames (List.mem_of_getElem? (i := 1) rfl) Wire.read_option_texts
  have h₂ : optional (present (params_fields p)) "size" read_string = some p.size :=
    Wire.optional_record hnames (List.mem_of_getElem? (i := 2) rfl) Wire.read_option_text
  have h₃ : optional (present (params_fields p)) "max_depth" (read_integer 0 4294967295 Int.toNat) =
      some p.max_depth := by
    rw [Wire.optional, Serde.defaulted, JsonText.member_record hnames (List.mem_of_getElem? (i := 3) rfl)]
    cases hdepth : p.max_depth with
    | none => rfl
    | some n => exact read_option_depth (h n hdepth)
  rw [record, read_params, h₀, h₁, h₂, h₃]
  rfl

/-- The members make up the map again, over what was there before. -/
theorem read_paths_lookup : ∀ {es : List (Sigma fun _ : PathBuf => PathParams)} {ms : List (Str × Value)},
    es.NodupKeys → (∀ e ∈ es, Typed e.1 e.2) → es.mapM member = some ms →
    ∀ m : HashMap PathBuf PathParams, ∃ m', read_paths m ms = some m' ∧
      ∀ p, m'.lookup p = (es.dlookup p).or (m.lookup p) := by
  intro es
  induction es with
  | nil =>
      intro ms _ _ hms m
      cases hms
      exact ⟨m, rfl, fun _ => rfl⟩
  | cons e es ih =>
      intro ms hkeys htyped hms m
      rw [List.mapM_cons] at hms
      obtain ⟨first, hfirst, htail⟩ := Option.bind_eq_some_iff.1 hms
      obtain ⟨rest, hrest, heq⟩ := Option.bind_eq_some_iff.1 htail
      cases heq
      obtain ⟨path, hpath, rfl⟩ := Option.map_eq_some_iff.1 hfirst
      obtain ⟨q, params⟩ := e
      rw [List.nodupKeys_cons] at hkeys
      have hfirst := htyped ⟨q, params⟩ List.mem_cons_self
      have hread := read_params_record hfirst.narrow
      have hkey : Security.components (encode path) = q := by
        rw [Text.fromUtf8_eq_some.1 hpath]
        exact Security.components_toBytes hfirst.plain
      obtain ⟨m', hm', hlookup⟩ := ih hkeys.2 (fun e he => htyped e (List.mem_cons_of_mem _ he)) hrest
        (m.insert q params)
      refine ⟨m', ?_, fun p => ?_⟩
      · rw [read_paths, hread, hkey]
        exact hm'
      · rw [hlookup, HashMap.lookup_insert']
        by_cases hp : p = q
        · subst hp
          have habsent : es.dlookup p = none := List.dlookup_eq_none.2 hkeys.1
          rw [habsent, if_pos rfl, List.dlookup_cons_eq]
          rfl
        · rw [if_neg hp, List.dlookup_cons_ne _ _ hp]

/-- Two groups of one cmd with the same parameters for every path. -/
structure Same (g g' : CmdGroup) : Prop where
  cmd : g.cmd = g'.cmd
  lookup : ∀ p, g.paths.lookup p = g'.paths.lookup p

theorem from_value_value {g : CmdGroup} (hg : Storable g) {v : Value} (hv : value g = some v) :
    ∃ g', from_value v = some g' ∧ Same g g' := by
  obtain ⟨ms, hms, rfl⟩ := Option.map_eq_some_iff.1 hv
  have hperm : (sorted g).Perm g.paths.entries := List.mergeSort_perm _ _
  have hkeys : (sorted g).NodupKeys := (List.perm_nodupKeys hperm).2 g.paths.nodupKeys
  obtain ⟨m', hm', hlookup⟩ := read_paths_lookup hkeys
    (fun e he => hg.entries e (hperm.mem_iff.1 he)) hms ∅
  have hnames : ((group_fields g ms).map Prod.fst).Nodup := by
    show (["cmd", "paths"] : List String).Nodup
    decide
  have h₀ : required (present (group_fields g ms)) "cmd" read_string = some g.cmd :=
    Wire.required_record hnames (List.mem_of_getElem? (i := 0) rfl) (Wire.read_string_text g.cmd)
  have h₁ : required (present (group_fields g ms)) "paths" read_map = some m' :=
    Wire.required_record hnames (List.mem_of_getElem? (i := 1) rfl) hm'
  refine ⟨⟨g.cmd, m'⟩, ?_, rfl, fun p => ?_⟩
  · rw [record, from_value, h₀, h₁]
    rfl
  · rw [hlookup, AList.lookup_empty, Option.or_none, AList.lookup]
    exact (List.perm_dlookup p hkeys hperm).symm

/-! ## A line -/

theorem fits_params {p : PathParams} (h : ∀ n, p.max_depth = some n → n ≤ 4294967295) :
    Fits 2 (record (params_fields p)) := by
  refine JsonText.fits_record fun f hf v hv => ?_
  simp only [params_fields, List.mem_cons, List.not_mem_nil, or_false] at hf
  rcases hf with rfl | rfl | rfl | rfl
  · cases hv
    exact Wire.fits_nullable (Wire.fits_bool 1) p.recursive
  · obtain ⟨l, -, rfl⟩ := Option.map_eq_some_iff.1 hv
    exact Wire.fits_texts 0 l
  · obtain ⟨t, -, rfl⟩ := Option.map_eq_some_iff.1 hv
    exact Wire.fits_text 1 t
  · obtain ⟨n, hn, rfl⟩ := Option.map_eq_some_iff.1 hv
    have hle := h n hn
    refine Wire.fits_number 1 ?_ ?_
    · rw [JsonText.I64_MIN]
      omega
    · rw [JsonText.U64_MAX]
      omega

theorem value_fits {g : CmdGroup} (hg : Storable g) {v : Value} (hv : value g = some v) : Fits 4 v := by
  obtain ⟨ms, hms, rfl⟩ := Option.map_eq_some_iff.1 hv
  have hmembers : Fits 3 (.object ms) := by
    intro m hm
    obtain ⟨e, he, hmember⟩ := Wire.mem_of_mapM hms m hm
    obtain ⟨path, -, rfl⟩ := Option.map_eq_some_iff.1 hmember
    exact fits_params (hg.entries e (List.mem_mergeSort.1 he)).narrow
  refine JsonText.fits_record fun f hf v hv => ?_
  simp only [group_fields, List.mem_cons, List.not_mem_nil, or_false] at hf
  rcases hf with rfl | rfl
  · cases hv
    exact Wire.fits_text 3 g.cmd
  · cases hv
    exact hmembers

section
variable {json : Str → Option Value}

/-- A saved line is read as its group. -/
theorem from_str_to_string (hjson : ReadsJson json) {g : CmdGroup} (hg : Storable g) {l : Str}
    (hl : to_string g = some l) : trim (l ++ ['\n']) ≠ [] ∧
      ∃ g', from_str json (trim (l ++ ['\n'])) = some g' ∧ Same g g' := by
  obtain ⟨v, hv, rfl⟩ := Option.map_eq_some_iff.1 hl
  obtain ⟨g', hg', hsame⟩ := from_value_value hg hv
  rw [Wire.trim_print]
  refine ⟨Wire.print_ne_nil v, g', ?_, hsame⟩
  rw [from_str, Wire.json_print hjson (value_fits hg hv) (by decide)]
  exact hg'

theorem newline_notMem_to_string {g : CmdGroup} {l : Str} (hl : to_string g = some l) : '\n' ∉ l := by
  obtain ⟨v, -, rfl⟩ := Option.map_eq_some_iff.1 hl
  exact Wire.newline_notMem_print v

/-- The lines of the groups are read as the groups. -/
theorem parse_lines_to_string (hjson : ReadsJson json) : ∀ {gs : List CmdGroup} {ls : List Str},
    (∀ g ∈ gs, Storable g) → gs.mapM to_string = some ls →
      ∃ gs', parse_lines json (ls.map lineBytes) = some gs' ∧ List.Forall₂ Same gs gs' := by
  intro gs
  induction gs with
  | nil =>
      intro ls _ hls
      cases hls
      exact ⟨[], rfl, .nil⟩
  | cons g gs ih =>
      intro ls hgs hls
      rw [List.mapM_cons] at hls
      obtain ⟨l, hl, htail⟩ := Option.bind_eq_some_iff.1 hls
      obtain ⟨ls', hls', heq⟩ := Option.bind_eq_some_iff.1 htail
      cases heq
      obtain ⟨hblank, g', hg', hsame⟩ := from_str_to_string hjson (hgs g List.mem_cons_self) hl
      obtain ⟨gs', hgs', hrest⟩ := ih (fun h hh => hgs h (List.mem_cons_of_mem g hh)) hls'
      refine ⟨g' :: gs', ?_, .cons hsame hrest⟩
      rw [List.map_cons, parse_lines, fromUtf8_lineBytes]
      dsimp only
      rw [if_neg hblank, hg']
      dsimp only
      rw [hgs']
      rfl

end

/-! ## The same store -/

/-- A map is empty when nothing is found in it. -/
theorem entries_eq_nil_iff (m : HashMap PathBuf PathParams) : m.entries = [] ↔ ∀ p, m.lookup p = none := by
  constructor
  · intro h p
    rw [AList.lookup, h]
    rfl
  · intro h
    cases hm : m.entries with
    | nil => rfl
    | cons e es =>
        have hmem : e ∈ m.entries := by
          rw [hm]
          exact List.mem_cons_self
        have hsome : m.lookup e.1 = some e.2 := AList.mem_lookup_iff.2 hmem
        rw [h e.1] at hsome
        cases hsome

theorem Same.entries {g g' : CmdGroup} (h : Same g g') : g.paths.entries = [] ↔ g'.paths.entries = [] := by
  rw [entries_eq_nil_iff, entries_eq_nil_iff]
  exact forall_congr' fun p => by rw [h.lookup p]

theorem Same.told {g g' : CmdGroup} (h : Same g g') (q : PathBuf × String) :
    Monitored.told q g = Monitored.told q g' := by
  rw [Monitored.told, Monitored.told, h.cmd, h.lookup]

theorem look_same (q : PathBuf × String) {gs gs' : List CmdGroup} (h : List.Forall₂ Same gs gs') :
    Monitored.look q gs = Monitored.look q gs' := by
  induction h with
  | nil => rfl
  | cons hg _ ih => rw [Monitored.look, Monitored.look, hg.told q, ih]

theorem cmds_same {gs gs' : List CmdGroup} (h : List.Forall₂ Same gs gs') :
    (gs.filter fun g => g.paths.entries ≠ []).map CmdGroup.cmd =
      (gs'.filter fun g => g.paths.entries ≠ []).map CmdGroup.cmd := by
  induction h with
  | nil => rfl
  | @cons g g' gs gs' hg _ ih =>
      by_cases hempty : g.paths.entries = []
      · have hempty' := hg.entries.1 hempty
        rw [List.filter_cons_of_neg (by simpa using hempty), List.filter_cons_of_neg (by simpa using hempty'),
          ih]
      · have hfull' : g'.paths.entries ≠ [] := fun h' => hempty (hg.entries.2 h')
        rw [List.filter_cons_of_pos (by simpa using hempty), List.filter_cons_of_pos (by simpa using hfull'),
          List.map_cons, List.map_cons, hg.cmd, ih]

/-- **A saved store is loaded as the same map**, with the cmds of its groups in their order; groups
without paths are left out. -/
theorem load_saved {json : Str → Option Value} (hjson : ReadsJson json) {s : Monitored}
    (hs : ∀ g ∈ s.groups, Storable g) {file : Bytes} (h : save s = some file) :
    ∃ s', load json (some file) = some s' ∧ s'.to_map = s.to_map ∧
      s'.groups.map CmdGroup.cmd = s.validate.groups.map CmdGroup.cmd := by
  obtain ⟨ls, hls, rfl⟩ := Option.map_eq_some_iff.1 h
  obtain ⟨gs', hgs', hsame⟩ := parse_lines_to_string hjson hs hls
  have hlines : splitLines (fileOf ls) = ls.map lineBytes := by
    have hsplit := splitLines_fileOf [] fun l hl => by
      obtain ⟨g, -, hg⟩ := Wire.mem_of_mapM hls l hl
      exact newline_notMem_to_string hg
    rw [List.append_nil, splitLines, List.append_nil] at hsplit
    exact hsplit
  refine ⟨(⟨gs'⟩ : Monitored).validate, ?_, ?_, (cmds_same hsame).symm⟩
  · rw [load, hlines, hgs']
    rfl
  · rw [Monitored.to_map_validate]
    refine Finmap.ext_lookup fun q => ?_
    rw [Monitored.lookup_to_map, Monitored.lookup_to_map]
    exact (look_same q hsame).symm

/-- **A store is saved exactly if all its paths are UTF-8.** -/
theorem save_isSome (s : Monitored) : (save s).isSome = true ↔
    ∀ g ∈ s.groups, ∀ e ∈ g.paths.entries, (fromUtf8 e.1.toBytes).isSome = true := by
  have hgroup : ∀ g : CmdGroup, (to_string g).isSome = true ↔
      ∀ e ∈ g.paths.entries, (fromUtf8 e.1.toBytes).isSome = true := by
    intro g
    rw [to_string, Option.isSome_map, value, Option.isSome_map, Wire.mapM_isSome, List.all_eq_true]
    constructor
    · intro h e he
      have hsome := h e (List.mem_mergeSort.2 he)
      rwa [member, Option.isSome_map] at hsome
    · intro h e he
      rw [member, Option.isSome_map]
      exact h e (List.mem_mergeSort.1 he)
  rw [save, Option.isSome_map, Wire.mapM_isSome, List.all_eq_true]
  exact forall_congr' fun g => imp_congr_right fun _ => hgroup g

/-! ## Runs -/

/-- One operation; a save that succeeds is followed by a load, as the next command makes it. -/
def step (json : Str → Option Value) (s : Monitored) : StoreStep → Monitored
  | .add_entry entry => s.add_entry entry
  | .remove_entry path cmd => (s.remove_entry path cmd).1
  | .remove_cmd_group cmd => (s.remove_cmd_group cmd).1
  | .validate => s.validate
  | .save_load none => (save s).elim s fun file => (load json (some file)).getD s
  | .save_load (some _) => s

/-- The entries that are added are values of the source's types. -/
def Given : StoreStep → Prop
  | .add_entry entry => Typed entry.path (.from entry)
  | .remove_entry .. | .remove_cmd_group _ | .validate | .save_load _ => True

/-- Every entry of the map is a value of the source's types. -/
def TypedMap (m : EntryMap) : Prop := ∀ q params, m.lookup q = some params → Typed q.1 params

theorem typedMap_update {m : EntryMap} (hm : TypedMap m) {a : StoreStep} (ha : Given a) :
    TypedMap (m.update a) := by
  intro q params hq
  cases a with
  | add_entry entry =>
      rw [EntryMap.update, EntryMap.lookup_put] at hq
      split at hq
      · rename_i hkey
        cases hq
        rw [hkey]
        exact ha
      · exact hm q params hq
  | remove_entry path cmd =>
      rw [EntryMap.update, EntryMap.lookup_drop] at hq
      split at hq
      · cases hq
      · exact hm q params hq
  | remove_cmd_group cmd =>
      rw [EntryMap.update, EntryMap.lookup_drop_cmd] at hq
      split at hq
      · cases hq
      · exact hm q params hq
  | validate => exact hm q params hq
  | save_load fault => exact hm q params hq

/-- What a group says, the map of its store says. -/
theorem lookup_of_group {s : Monitored} (hs : s.Grouped) {g : CmdGroup} (hg : g ∈ s.groups) {path : PathBuf}
    {params : PathParams} (h : g.paths.lookup path = some params) :
    s.to_map.lookup (path, g.cmd) = some params := by
  rw [← Option.mem_def, Finmap.mem_lookup_iff, hs.entries_to_map, Multiset.mem_coe]
  exact List.mem_flatMap.2 ⟨g, hg, List.mem_map.2 ⟨⟨path, params⟩, AList.mem_lookup_iff.1 h, rfl⟩⟩

theorem storable_of_typedMap {s : Monitored} (hs : s.Grouped) (hm : TypedMap s.to_map) :
    ∀ g ∈ s.groups, Storable g :=
  fun g hg path params h => hm (path, g.cmd) params (lookup_of_group hs hg h)

/-- Whether a store can be saved is a matter of its map. -/
theorem save_isSome_iff {s : Monitored} (hs : s.Grouped) :
    (save s).isSome = true ↔ ∀ q ∈ s.to_map, (fromUtf8 q.1.toBytes).isSome = true := by
  rw [save_isSome]
  constructor
  · intro h q hq
    obtain ⟨params, hparams⟩ := Finmap.mem_iff.1 hq
    rw [← Option.mem_def, Finmap.mem_lookup_iff, hs.entries_to_map, Multiset.mem_coe] at hparams
    obtain ⟨g, hg, hmem⟩ := List.mem_flatMap.1 hparams
    obtain ⟨e, he, heq⟩ := List.mem_map.1 hmem
    cases heq
    exact h g hg e he
  · intro h g hg e he
    have hlookup := lookup_of_group hs hg (AList.mem_lookup_iff.2 he)
    exact h (e.1, g.cmd) (Finmap.mem_iff.2 ⟨e.2, hlookup⟩)

section
variable {json : Str → Option Value}

/-- A store with one group for each cmd is loaded as one, with the same map. -/
theorem load_grouped (hjson : ReadsJson json) {s : Monitored} (hs : s.Grouped) (hm : TypedMap s.to_map)
    {file : Bytes} (h : save s = some file) :
    ∃ s', load json (some file) = some s' ∧ s'.Grouped ∧ s'.to_map = s.to_map := by
  obtain ⟨s', hload, hmap, hcmds⟩ := load_saved hjson (storable_of_typedMap hs hm) h
  refine ⟨s', hload, ⟨?_, ?_⟩, hmap⟩
  · rw [hcmds, hs.validate_eq]
    exact hs.unique
  · intro g hg
    obtain ⟨groups, -, rfl⟩ := Option.map_eq_some_iff.1 hload
    exact of_decide_eq_true (List.mem_filter.1 hg).2

theorem step_update (hjson : ReadsJson json) {s : Monitored} (hs : s.Grouped) (hm : TypedMap s.to_map)
    (a : StoreStep) : (step json s a).Grouped ∧ (step json s a).to_map = s.to_map.update a := by
  cases a with
  | add_entry entry => exact ⟨hs.add_entry entry, Monitored.to_map_add_entry s entry⟩
  | remove_entry path cmd => exact ⟨hs.remove_entry path cmd, Monitored.to_map_remove_entry s path cmd⟩
  | remove_cmd_group cmd =>
      exact ⟨hs.sublist List.filter_sublist, Monitored.to_map_remove_cmd_group s cmd⟩
  | validate => exact ⟨hs.sublist List.filter_sublist, Monitored.to_map_validate s⟩
  | save_load fault =>
      cases fault with
      | some fault => exact ⟨hs, rfl⟩
      | none =>
          rw [step]
          cases hfile : save s with
          | none => exact ⟨hs, rfl⟩
          | some file =>
              obtain ⟨s', hload, hgrouped, hmap⟩ := load_grouped hjson hs hm hfile
              rw [Option.elim_some, hload]
              exact ⟨hgrouped, hmap⟩

theorem exec_update (hjson : ReadsJson json) : ∀ (steps : List StoreStep) {s : Monitored}, s.Grouped →
    TypedMap s.to_map → (∀ a ∈ steps, Given a) →
      (Run.exec (step json) s steps).Grouped ∧
        (Run.exec (step json) s steps).to_map = Run.exec EntryMap.update s.to_map steps ∧
        TypedMap (Run.exec EntryMap.update s.to_map steps) := by
  intro steps
  induction steps with
  | nil =>
      intro s hs hm _
      exact ⟨hs, rfl, hm⟩
  | cons a steps ih =>
      intro s hs hm hsteps
      obtain ⟨hgrouped, hmap⟩ := step_update hjson hs hm a
      have htyped := typedMap_update hm (hsteps a List.mem_cons_self)
      rw [← hmap] at htyped
      rw [Run.exec_cons, Run.exec_cons, ← hmap]
      exact ih hgrouped htyped fun b hb => hsteps b (List.mem_cons_of_mem a hb)

/-- **The store on disk is a finite map.**  After any additions, removals, saves and loads the readers say
what the same updates have made of the empty map.  It can be saved exactly if all paths of the map are
UTF-8, and what is saved is loaded as a store of which the readers say the same. -/
theorem json_store_is_map (hjson : ReadsJson json) {steps : List StoreStep} (hsteps : ∀ a ∈ steps, Given a) :
    (Run.exec (step json) ⟨[]⟩ steps).Agrees (Run.exec EntryMap.update ∅ steps) ∧
      ((save (Run.exec (step json) ⟨[]⟩ steps)).isSome = true ↔
        ∀ q ∈ Run.exec EntryMap.update ∅ steps, (fromUtf8 q.1.toBytes).isSome = true) ∧
      ∀ file, save (Run.exec (step json) ⟨[]⟩ steps) = some file →
        ∃ s', load json (some file) = some s' ∧ s'.Agrees (Run.exec EntryMap.update ∅ steps) := by
  have hempty : TypedMap (⟨[]⟩ : Monitored).to_map := by
    intro q params h
    rw [Monitored.lookup_to_map] at h
    cases h
  obtain ⟨hgrouped, hmap, htyped⟩ := exec_update hjson steps Monitored.grouped_nil hempty hsteps
  have hstart : (⟨[]⟩ : Monitored).to_map = ∅ := rfl
  rw [hstart] at hmap htyped
  refine ⟨hmap ▸ hgrouped.agrees, hmap ▸ save_isSome_iff hgrouped, fun file hfile => ?_⟩
  obtain ⟨s', hload, hgrouped', hmap'⟩ := load_grouped hjson hgrouped (hmap ▸ htyped) hfile
  exact ⟨s', hload, hmap ▸ hmap' ▸ hgrouped'.agrees⟩

/-- `/home` for every process and `/tmp` for one, saved and loaded on the way. -/
def twoEntries : List StoreStep :=
  [.add_entry ⟨none, [encode "home".toList], some true, some ["MODIFY"], none, some 3⟩, .save_load none,
    .add_entry ⟨some "sh", [encode "tmp".toList], none, none, some ">1MB", none⟩, .save_load none]

theorem twoEntries_given : ∀ a ∈ twoEntries, Given a := by
  intro a ha
  simp only [twoEntries, List.mem_cons, List.not_mem_nil, or_false] at ha
  rcases ha with rfl | rfl | rfl | rfl
  · refine ⟨by decide, fun n hn => ?_⟩
    cases hn
    decide
  · trivial
  · exact ⟨by decide, fun n hn => by cases hn⟩
  · trivial

theorem json_store_is_map_two :
    (Run.exec (step (JsonText.read MAX_DEPTH)) ⟨[]⟩ twoEntries).Agrees (Run.exec EntryMap.update ∅ twoEntries) ∧
      ((save (Run.exec (step (JsonText.read MAX_DEPTH)) ⟨[]⟩ twoEntries)).isSome = true ↔
        ∀ q ∈ Run.exec EntryMap.update ∅ twoEntries, (fromUtf8 q.1.toBytes).isSome = true) ∧
      ∀ file, save (Run.exec (step (JsonText.read MAX_DEPTH)) ⟨[]⟩ twoEntries) = some file →
        ∃ s', load (JsonText.read MAX_DEPTH) (some file) = some s' ∧
          s'.Agrees (Run.exec EntryMap.update ∅ twoEntries) :=
  json_store_is_map Wire.read_readsJson twoEntries_given

end

end Fsmon.StoreJson
