/-
# `Fsmon.Jsonl.Local` — local time in a record, and the record read back

`to_jsonl_string_local` searches the finished line for the time and puts local
time there.  Whatever the other fields hold, the first place found is the value
of the time, since that field is the first; and the line is read as the same
event, if `chrono` reads the time it has printed.

The readers of `serde_json` and of `chrono` are parameters.

    ReadsJson, ReadsBack             what is relied on of them
    to_jsonl_string_local_eq         the place that is found is the value of the time
    from_jsonl_str_line              a line is read as its event, if its time is
    to_jsonl_string_local_lossless   one line, only its time differs, and the event is read
-/
import Fsmon.Jsonl.Serde

namespace Fsmon.Serde

open JsonText (Value Denotes StringText)

/-! ## What the readers do -/

/-- The brackets that `serde_json` lets be open at a time. -/
def MAX_DEPTH : Nat := 127

/-- `serde_json` reads what the grammar allows. -/
def ReadsJson (json : Str → Option Value) : Prop := ∀ v text, Denotes MAX_DEPTH v text → json text = some v

/-- From the beginning of the year 0 to the end of the year 9999, in nanoseconds. -/
def InYears (t : Int) : Prop := -62167219200000000000 ≤ t ∧ t < 253402300800000000000

instance (t : Int) : Decidable (InYears t) := inferInstanceAs (Decidable (_ ∧ _))

/-- The characters of a time of RFC 3339. -/
def IsTimestamp (c : Char) : Prop := c.isDigit = true ∨ c ∈ ['-', '+', ':', '.', 'T', 'Z']

instance (c : Char) : Decidable (IsTimestamp c) := inferInstanceAs (Decidable (_ ∨ _))

theorem timestamp_of_all {s : Str} (h : (s.all fun c => decide (IsTimestamp c)) = true) :
    ∀ c ∈ s, IsTimestamp c := fun c hc => of_decide_eq_true (List.all_eq_true.1 h c hc)

/-- `chrono` prints times of RFC 3339, and reads a local one with an offset of whole minutes as the
instant it was printed for; `offset` is that of local time, in seconds. -/
structure ReadsBack [Chrono] (offset : Int → Int) (parse : Str → Option Int) : Prop where
  utc : ∀ t, InYears t → ∀ c ∈ Chrono.utc t, IsTimestamp c
  local_time : ∀ t, InYears t → ∀ c ∈ Chrono.local_rfc3339 t, IsTimestamp c
  reads : ∀ t, InYears t → 60 ∣ offset t → parse (Chrono.local_rfc3339 t) = some t

theorem IsTimestamp.plain {c : Char} (h : IsTimestamp c) :
    c ≠ Json.quotationMark ∧ Json.escape c = [c] := by
  have hrange : 0x2B ≤ c.toNat ∧ c.toNat ≠ 0x5C := by
    rcases h with h | h
    · rw [Char.isDigit, Bool.and_eq_true, decide_eq_true_eq, decide_eq_true_eq] at h
      have hlow : 48 ≤ c.toNat := h.1
      have hhigh : c.toNat ≤ 57 := h.2
      omega
    · simp only [List.mem_cons, List.not_mem_nil, or_false] at h
      rcases h with rfl | rfl | rfl | rfl | rfl | rfl <;> decide
  constructor
  · rintro rfl
    exact absurd hrange.1 (by decide)
  · have hcontrol : ¬ c.toNat < 0x20 := by omega
    rw [Json.escape]
    split
    · omega
    · omega
    · omega
    · omega
    · omega
    · omega
    · omega
    · rw [if_neg hcontrol]

/-- A time has nothing to escape. -/
theorem string_timestamp {s : Str} (h : ∀ c ∈ s, IsTimestamp c) :
    Json.string s = Json.quotationMark :: s ++ [Json.quotationMark] := by
  have hescape : s.flatMap Json.escape = s := by
    induction s with
    | nil => rfl
    | cons c s ih =>
        rw [List.flatMap_cons, (h c List.mem_cons_self).plain.2,
          ih fun d hd => h d (List.mem_cons_of_mem c hd)]
        rfl
  rw [Json.string, hescape]

namespace FileEvent

theorem further_values (e : FileEvent) (path : Str) : ∀ f ∈ e.further path, Json.Value f.2 := by
  let _ : Chrono := ⟨fun _ => [], fun _ => []⟩
  have hvalues := (e.coarse []).fields_values path
  rw [coarse_fields] at hvalues
  exact hvalues

/-- The line of an event, with a time in some spelling. -/
def line (e : FileEvent) (time path : Str) : Str :=
  Json.object (("time", Json.quotationMark :: time ++ [Json.quotationMark]) :: e.further path)

/-- What stands before the value of the time. -/
def OPENING : Str := "\x7b\"time\":\"".toList

/-- What stands behind the value of the time. -/
def behind (e : FileEvent) (path : Str) : Str :=
  Json.quotationMark :: (Json.further (e.further path) ++ [Json.closeBrace])

theorem line_eq (e : FileEvent) (time path : Str) :
    e.line time path = OPENING ++ time ++ e.behind path := by
  have hopening : OPENING = Json.openBrace :: (Json.string "time".toList ++ [':', Json.quotationMark]) := by
    decide
  rw [line, Json.object_cons, hopening, behind]
  simp only [List.cons_append, List.append_assoc, List.nil_append]

/-- On one line, when the time is. -/
theorem line_one_line {e : FileEvent} {time : Str} (h : ∀ c ∈ time, IsTimestamp c) (path : Str) :
    '\n' ∉ e.line time path := by
  refine (Json.object_value fun f hf => ?_).one_line
  rcases List.mem_cons.1 hf with rfl | hf
  · rw [← string_timestamp h]
    exact Json.string_value time
  · exact e.further_values path f hf

section
variable [Chrono]

theorem to_jsonl_string_eq {e : FileEvent} {path : Str} (hpath : Text.fromUtf8 e.path = some path)
    (hutc : ∀ c ∈ Chrono.utc e.time, IsTimestamp c) :
    e.to_jsonl_string = some (e.line (Chrono.utc e.time) path) := by
  rw [to_jsonl_string, to_string, hpath, line, ← string_timestamp hutc]
  rfl

/-- The first place that is found is the value of the time. -/
theorem to_jsonl_string_local_eq {e : FileEvent} {path : Str} (hpath : Text.fromUtf8 e.path = some path)
    (hutc : ∀ c ∈ Chrono.utc e.time, IsTimestamp c) :
    e.to_jsonl_string_local = some (e.line (Chrono.local_rfc3339 e.time) path) := by
  have hquote : Json.quotationMark ∉ Chrono.utc e.time := fun hmem => (hutc _ hmem).plain.1 rfl
  rw [to_jsonl_string_local, to_jsonl_string_eq hpath hutc, Option.map_some, line,
    Fsmon.FileEvent.patch_time_object hquote, line]

omit [Chrono] in
/-- Any line of an event is read as the event, if its time is. -/
theorem from_jsonl_str_line {json : Str → Option Value} {parse : Str → Option Int}
    (hjson : ReadsJson json) {e : FileEvent} {time path : Str} (hpath : Text.fromUtf8 e.path = some path)
    (hplain : ∀ c ∈ time, IsTimestamp c) (htime : parse time = some e.time) :
    from_jsonl_str json parse (e.line time path) = some e := by
  have htext : StringText time (Json.quotationMark :: time ++ [Json.quotationMark]) :=
    string_timestamp hplain ▸ string_text time
  have hread : json (e.line time path) = some (e.value time path) :=
    hjson _ _ (e.line_denotes 124 time path htext)
  rw [from_jsonl_str, hread, Option.bind_some]
  exact from_value_value htime (Text.fromUtf8_eq_some.1 hpath)

/-- **Local time in a record**: one line, in which only the value of the time is not that of
`to_jsonl_string`, and which is read as the event it was written for. -/
theorem to_jsonl_string_local_lossless {offset : Int → Int} {json : Str → Option Value}
    {parse : Str → Option Int} (hjson : ReadsJson json) (hchrono : ReadsBack offset parse)
    {e : FileEvent} {path : Str} (hpath : Text.fromUtf8 e.path = some path) (hyears : InYears e.time)
    (hoffset : 60 ∣ offset e.time) : ∃ behind line,
      e.to_jsonl_string = some (OPENING ++ Chrono.utc e.time ++ Json.quotationMark :: behind) ∧
      e.to_jsonl_string_local = some line ∧
      line = OPENING ++ Chrono.local_rfc3339 e.time ++ Json.quotationMark :: behind ∧
      Json.quotationMark ∉ Chrono.utc e.time ∧ Json.quotationMark ∉ Chrono.local_rfc3339 e.time ∧
      '\n' ∉ line ∧ from_jsonl_str json parse line = some e := by
  have hutc := hchrono.utc e.time hyears
  have hlocal := hchrono.local_time e.time hyears
  refine ⟨_, e.line (Chrono.local_rfc3339 e.time) path, ?_, to_jsonl_string_local_eq hpath hutc,
    e.line_eq _ path, fun h => (hutc _ h).plain.1 rfl, fun h => (hlocal _ h).plain.1 rfl,
    line_one_line hlocal path,
    from_jsonl_str_line hjson hpath hlocal (hchrono.reads e.time hyears hoffset)⟩
  rw [to_jsonl_string_eq hpath hutc, line_eq]
  rfl

end

/-- The epoch, as it is printed in UTC and at `+08:00`. -/
def EPOCH_UTC : Str := "1970-01-01T00:00:00Z".toList

def EPOCH_LOCAL : Str := "1970-01-01T08:00:00+08:00".toList

/-- Other instants are printed as numbers. -/
@[reducible] def epochChrono : Chrono where
  utc t := if t = 0 then EPOCH_UTC else JsonText.decimal t
  local_rfc3339 t := if t = 0 then EPOCH_LOCAL else JsonText.decimal t

def parseEpoch (s : Str) : Option Int :=
  if s = EPOCH_LOCAL then some 0 else (JsonText.readNumber s).map Prod.fst

theorem decimal_chars {n : Int} {c : Char} (h : c ∈ JsonText.decimal n) : c = '-' ∨ c.isDigit = true := by
  cases n with
  | ofNat n => exact .inr (Nat.isDigit_of_mem_toDigits (by decide) (by decide) h)
  | negSucc n =>
      rcases List.mem_cons.1 h with rfl | h
      · exact .inl rfl
      · exact .inr (Nat.isDigit_of_mem_toDigits (by decide) (by decide) h)

theorem epochChrono_readsBack : @ReadsBack epochChrono (fun _ => 28800) parseEpoch := by
  have hdecimal : ∀ t : Int, ∀ c ∈ JsonText.decimal t, IsTimestamp c := by
    intro t c hc
    rcases decimal_chars hc with rfl | hc
    · exact .inr (.head _)
    · exact .inl hc
  have hepoch : ∀ text : Str, (∀ c ∈ text, IsTimestamp c) → ∀ t : Int,
      ∀ c ∈ (if t = 0 then text else JsonText.decimal t), IsTimestamp c := by
    intro text htext t
    split
    · exact htext
    · exact hdecimal t
  refine @ReadsBack.mk epochChrono _ _ (fun t _ => hepoch EPOCH_UTC ?_ t)
    (fun t _ => hepoch EPOCH_LOCAL ?_ t) fun t _ _ => ?_
  · exact timestamp_of_all (by decide)
  · exact timestamp_of_all (by decide)
  · by_cases ht : t = 0
    · rw [ht]
      rfl
    · have hother : JsonText.decimal t ≠ EPOCH_LOCAL := by
        intro h
        have hletter : 'T' ∈ JsonText.decimal t := by
          rw [h]
          decide
        rcases decimal_chars hletter with hc | hc <;> cases hc
      have hread := @JsonText.readNumber_decimal t [] nofun
      rw [List.append_nil] at hread
      show parseEpoch (if t = 0 then EPOCH_LOCAL else JsonText.decimal t) = some t
      rw [if_neg ht, parseEpoch, if_neg hother, hread]
      rfl

/-- An event whose strings look like the time. -/
def quoted : FileEvent :=
  { time := 0, event_type := .create, path := Text.encode "/tmp/\"time\":\"".toList, pid := 1,
    comm := "\"time\":\"\n", cmd := "\\", user := "root", file_size := 0, ppid := 0, tgid := 1,
    chain := [⟨1, "\"", "\x7d,\"time\":\"", "root"⟩], fs_error := some (-5, 1) }

theorem to_jsonl_string_local_lossless_quoted : ∃ behind line,
    @FileEvent.to_jsonl_string epochChrono quoted =
      some (OPENING ++ EPOCH_UTC ++ Json.quotationMark :: behind) ∧
    @FileEvent.to_jsonl_string_local epochChrono quoted = some line ∧
    line = OPENING ++ EPOCH_LOCAL ++ Json.quotationMark :: behind ∧
    Json.quotationMark ∉ EPOCH_UTC ∧ Json.quotationMark ∉ EPOCH_LOCAL ∧
    '\n' ∉ line ∧ from_jsonl_str (JsonText.read MAX_DEPTH) parseEpoch line = some quoted :=
  @to_jsonl_string_local_lossless epochChrono _ _ _ (fun _ _ h => JsonText.read_of_denotes h)
    epochChrono_readsBack quoted _ (Text.fromUtf8_encode _) (by decide) (by decide)

end FileEvent

end Fsmon.Serde
