/-
# `Fsmon.Lib.JsonPrint` — a value, printed

The compact text of a value: no blanks, and strings by some way of escaping that
spells every character.  What is printed stands for the value, and a printed
value is one line, with no blank at either end.

    print               the text
    Fits                the depth, and the range of the numbers
    denotes_print       the text stands for the value
    printable_ends      a printed value begins and ends with a visible character
    record              an object of named fields, some of which may be absent
    member_record       the value under a name is the field's
-/
import Fsmon.Lib.JsonText
import Mathlib.Data.List.Nodup

namespace Fsmon.JsonText

section
variable (escape : Char → List Char)

mutual

def print : Value → List Char
  | .null => "null".toList
  | .bool b => (toString b).toList
  | .number n => decimal n
  | .string s => quote :: (s.flatMap escape ++ [quote])
  | .array vs => '[' :: (commas (printAll vs) ++ [']'])
  | .object ms => openBrace :: (commas (printMembers ms) ++ [closeBrace])

def printAll : List Value → List (List Char)
  | [] => []
  | v :: vs => print v :: printAll vs

def printMembers : List (List Char × Value) → List (List Char)
  | [] => []
  | (name, v) :: ms => (quote :: (name.flatMap escape ++ [quote]) ++ ':' :: print v) :: printMembers ms

end

end

/-- No deeper than so many brackets, and no number out of range. -/
def Fits : Nat → Value → Prop
  | _, .null => True
  | _, .bool _ => True
  | _, .number n => I64_MIN ≤ n ∧ n ≤ U64_MAX
  | _, .string _ => True
  | 0, .array _ => False
  | 0, .object _ => False
  | depth + 1, .array vs => ∀ v ∈ vs, Fits depth v
  | depth + 1, .object ms => ∀ m ∈ ms, Fits depth m.2

theorem Fits.succ : ∀ {depth : Nat} {v : Value}, Fits depth v → Fits (depth + 1) v := by
  intro depth
  induction depth with
  | zero =>
      intro v h
      cases v with
      | array vs => exact h.elim
      | object ms => exact h.elim
      | _ => exact h
  | succ depth ih =>
      intro v h
      cases v with
      | array vs => exact fun v hv => ih (h v hv)
      | object ms => exact fun m hm => ih (h m hm)
      | _ => exact h

theorem Fits.mono {depth depth' : Nat} {v : Value} (h : Fits depth v) (hle : depth ≤ depth') : Fits depth' v := by
  induction hle with
  | refl => exact h
  | step _ ih => exact ih.succ

section
variable {escape : Char → List Char}

/-! ## What is printed stands for the value -/

theorem string_text_of_spells (hescape : ∀ c, Spells c (escape c)) (s : List Char) :
    StringText s (quote :: (s.flatMap escape ++ [quote])) := by
  refine ⟨s.map escape, ?_, ?_⟩
  · rw [List.forall₂_map_right_iff, List.forall₂_same]
    exact fun c _ => hescape c
  · rw [List.flatMap_def]

theorem printAll_forall₂ {R : Value → List Char → Prop} : ∀ {vs : List Value},
    (∀ v ∈ vs, R v (print escape v)) → List.Forall₂ R vs (printAll escape vs) := by
  intro vs
  induction vs with
  | nil =>
      intro _
      exact .nil
  | cons v vs ih =>
      intro h
      exact .cons (h v List.mem_cons_self) (ih fun w hw => h w (List.mem_cons_of_mem _ hw))

theorem printMembers_forall₂ {R : Value → List Char → Prop} (hescape : ∀ c, Spells c (escape c)) :
    ∀ {ms : List (List Char × Value)}, (∀ m ∈ ms, R m.2 (print escape m.2)) →
      List.Forall₂ (MemberText R) ms (printMembers escape ms) := by
  intro ms
  induction ms with
  | nil =>
      intro _
      exact .nil
  | cons m ms ih =>
      intro h
      obtain ⟨name, v⟩ := m
      refine .cons ⟨_, _, string_text_of_spells hescape name, h _ List.mem_cons_self, ?_⟩
        (ih fun w hw => h w (List.mem_cons_of_mem _ hw))
      rfl

/-- **What is printed stands for the value.** -/
theorem denotes_print (hescape : ∀ c, Spells c (escape c)) :
    ∀ (depth : Nat) (v : Value), Fits depth v → Denotes depth v (print escape v) := by
  intro depth
  induction depth with
  | zero =>
      intro v h
      cases v with
      | null => rfl
      | bool b => rfl
      | number n => exact ⟨h.1, h.2, rfl⟩
      | string s => exact string_text_of_spells hescape s
      | array vs => exact h.elim
      | object ms => exact h.elim
  | succ depth ih =>
      intro v h
      cases v with
      | null => rfl
      | bool b => rfl
      | number n => exact ⟨h.1, h.2, rfl⟩
      | string s => exact string_text_of_spells hescape s
      | array vs => exact ⟨_, printAll_forall₂ fun v hv => ih v (h v hv), rfl⟩
      | object ms => exact ⟨_, printMembers_forall₂ hescape fun m hm => ih m.2 (h m hm), rfl⟩

/-! ## One line -/

theorem newline_notMem_decimal (n : Int) : '\n' ∉ decimal n := by
  have hdigits : ∀ m : Nat, '\n' ∉ Nat.toDigits 10 m := by
    intro m h
    have hdigit := @Nat.isDigit_of_mem_toDigits 10 m '\n' (by decide) (by decide) h
    cases hdigit
  cases n with
  | ofNat n => exact hdigits n
  | negSucc n =>
      intro h
      rcases List.mem_cons.1 h with h | h
      · exact absurd h (by decide)
      · exact hdigits _ h

theorem newline_notMem_commas : ∀ {ts : List (List Char)}, (∀ t ∈ ts, '\n' ∉ t) → '\n' ∉ commas ts := by
  intro ts
  induction ts with
  | nil =>
      intro _
      exact List.not_mem_nil
  | cons t ts ih =>
      intro h
      rw [commas_head]
      intro hmem
      rcases List.mem_append.1 hmem with hmem | hmem
      · exact h t List.mem_cons_self hmem
      · split at hmem
        · cases hmem
        · rcases List.mem_cons.1 hmem with hmem | hmem
          · exact absurd hmem (by decide)
          · exact ih (fun u hu => h u (List.mem_cons_of_mem _ hu)) hmem

theorem newline_notMem_quoted (hescape : ∀ c, '\n' ∉ escape c) (s : List Char) :
    '\n' ∉ quote :: (s.flatMap escape ++ [quote]) := by
  intro hmem
  rcases List.mem_cons.1 hmem with hmem | hmem
  · exact absurd hmem (by decide)
  · rcases List.mem_append.1 hmem with hmem | hmem
    · obtain ⟨c, _, hc⟩ := List.mem_flatMap.1 hmem
      exact hescape c hc
    · exact absurd (List.mem_singleton.1 hmem) (by decide)

mutual

theorem newline_notMem_print (hescape : ∀ c, '\n' ∉ escape c) (v : Value) : '\n' ∉ print escape v := by
  cases v with
  | null => rw [print]; decide
  | bool b => cases b <;> rw [print] <;> decide
  | number n => exact newline_notMem_decimal n
  | string s => exact newline_notMem_quoted hescape s
  | array vs =>
      rw [print]
      intro hmem
      rcases List.mem_cons.1 hmem with hmem | hmem
      · exact absurd hmem (by decide)
      · rcases List.mem_append.1 hmem with hmem | hmem
        · exact newline_notMem_commas (newline_notMem_printAll hescape vs) hmem
        · exact absurd (List.mem_singleton.1 hmem) (by decide)
  | object ms =>
      rw [print]
      intro hmem
      rcases List.mem_cons.1 hmem with hmem | hmem
      · exact absurd hmem (by decide)
      · rcases List.mem_append.1 hmem with hmem | hmem
        · exact newline_notMem_commas (newline_notMem_printMembers hescape ms) hmem
        · exact absurd (List.mem_singleton.1 hmem) (by decide)

theorem newline_notMem_printAll (hescape : ∀ c, '\n' ∉ escape c) (vs : List Value) :
    ∀ t ∈ printAll escape vs, '\n' ∉ t := by
  cases vs with
  | nil => exact fun t ht => absurd ht List.not_mem_nil
  | cons v vs =>
      intro t ht
      rcases List.mem_cons.1 ht with rfl | ht
      · exact newline_notMem_print hescape v
      · exact newline_notMem_printAll hescape vs t ht

theorem newline_notMem_printMembers (hescape : ∀ c, '\n' ∉ escape c) (ms : List (List Char × Value)) :
    ∀ t ∈ printMembers escape ms, '\n' ∉ t := by
  cases ms with
  | nil => exact fun t ht => absurd ht List.not_mem_nil
  | cons m ms =>
      obtain ⟨name, v⟩ := m
      intro t ht
      rcases List.mem_cons.1 ht with rfl | ht
      · intro hmem
        rcases List.mem_append.1 hmem with hmem | hmem
        · exact newline_notMem_quoted hescape name hmem
        · rcases List.mem_cons.1 hmem with hmem | hmem
          · exact absurd hmem (by decide)
          · exact newline_notMem_print hescape v hmem
      · exact newline_notMem_printMembers hescape ms t ht

end

/-! ## Its ends -/

/-- No blank, and no control character. -/
def Visible (c : Char) : Prop := 0x21 ≤ c.toNat ∧ c.toNat ≤ 0x7E

theorem visible_digit {c : Char} (h : c.isDigit = true) : Visible c := by
  obtain ⟨hlow, hhigh⟩ := Char.isDigit_iff_toNat.1 h
  exact ⟨Nat.le_trans (by decide) hlow, Nat.le_trans hhigh (by decide)⟩

theorem visible_decimal (n : Int) : ∀ c ∈ decimal n, Visible c := by
  have hdigits : ∀ (m : Nat), ∀ c ∈ Nat.toDigits 10 m, Visible c := fun m c hc =>
    visible_digit (@Nat.isDigit_of_mem_toDigits 10 m c (by decide) (by decide) hc)
  cases n with
  | ofNat n => exact hdigits n
  | negSucc n =>
      intro c hc
      rcases List.mem_cons.1 hc with rfl | hc
      · exact ⟨by decide, by decide⟩
      · exact hdigits _ c hc

theorem printable_ends (v : Value) :
    (∃ c r, print escape v = c :: r ∧ Visible c) ∧ ∃ c r, print escape v = r ++ [c] ∧ Visible c := by
  have hends : ∀ (o : Char) (body : List Char) (c : Char), Visible o → Visible c →
      (∃ c' r, o :: (body ++ [c]) = c' :: r ∧ Visible c') ∧ ∃ c' r, o :: (body ++ [c]) = r ++ [c'] ∧ Visible c' :=
    fun o body c ho hc => ⟨⟨o, _, rfl, ho⟩, c, o :: body, rfl, hc⟩
  have hword : ∀ {t : List Char}, (∀ c ∈ t, Visible c) → t ≠ [] →
      (∃ c r, t = c :: r ∧ Visible c) ∧ ∃ c r, t = r ++ [c] ∧ Visible c := by
    intro t hvisible hne
    refine ⟨?_, ?_⟩
    · obtain ⟨c, r, rfl⟩ := List.exists_cons_of_ne_nil hne
      exact ⟨c, r, rfl, hvisible c List.mem_cons_self⟩
    · refine ⟨t.getLast hne, t.dropLast, (List.dropLast_append_getLast hne).symm, hvisible _ ?_⟩
      exact List.getLast_mem hne
  cases v with
  | null => exact hends 'n' "ul".toList 'l' ⟨by decide, by decide⟩ ⟨by decide, by decide⟩
  | bool b =>
      cases b with
      | true => exact hends 't' "ru".toList 'e' ⟨by decide, by decide⟩ ⟨by decide, by decide⟩
      | false => exact hends 'f' "als".toList 'e' ⟨by decide, by decide⟩ ⟨by decide, by decide⟩
  | number n =>
      obtain ⟨c, r, heq, -⟩ := decimal_head n
      have hne : decimal n ≠ [] := by
        rw [heq]
        exact List.cons_ne_nil c r
      exact hword (visible_decimal n) hne
  | string s => exact hends quote _ quote ⟨by decide, by decide⟩ ⟨by decide, by decide⟩
  | array vs => exact hends '[' _ ']' ⟨by decide, by decide⟩ ⟨by decide, by decide⟩
  | object ms => exact hends openBrace _ closeBrace ⟨by decide, by decide⟩ ⟨by decide, by decide⟩

end

/-! ## Records -/

/-- The members that are there. -/
def present (fields : List (String × Option Value)) : List (List Char × Value) :=
  fields.filterMap fun f => f.2.map fun v => (f.1.toList, v)

def record (fields : List (String × Option Value)) : Value := .object (present fields)

theorem mem_present {fields : List (String × Option Value)} {name : List Char} {v : Value} :
    (name, v) ∈ present fields ↔ ∃ f ∈ fields, f.1.toList = name ∧ f.2 = some v := by
  rw [present, List.mem_filterMap]
  constructor
  · rintro ⟨f, hf, hsome⟩
    obtain ⟨w, hw, heq⟩ := Option.map_eq_some_iff.1 hsome
    cases heq
    exact ⟨f, hf, rfl, hw⟩
  · rintro ⟨f, hf, rfl, hv⟩
    exact ⟨f, hf, by rw [hv]; rfl⟩

theorem names_present_sublist (fields : List (String × Option Value)) :
    ((present fields).map Prod.fst).Sublist (fields.map fun f => f.1.toList) := by
  induction fields with
  | nil => exact .slnil
  | cons f fields ih =>
      obtain ⟨name, o⟩ := f
      cases o with
      | none => exact ih.cons _
      | some v => exact ih.cons_cons _

/-- **The value under a name is the field's**, if it is there. -/
theorem member_record {fields : List (String × Option Value)} (hnodup : (fields.map Prod.fst).Nodup)
    {name : String} {o : Option Value} (hmem : (name, o) ∈ fields) :
    member (present fields) name.toList = some o := by
  have hnames : ((present fields).map Prod.fst).Nodup := by
    refine (names_present_sublist fields).nodup ?_
    have hmap : (fields.map fun f => f.1.toList) = (fields.map Prod.fst).map String.toList := by
      rw [List.map_map]
      rfl
    rw [hmap]
    exact hnodup.map fun _ _ h => String.toList_injective h
  cases o with
  | some v => exact member_of_mem hnames (mem_present.2 ⟨_, hmem, rfl, rfl⟩)
  | none =>
      refine member_of_notMem fun h => ?_
      obtain ⟨⟨name', v⟩, hm, hname⟩ := List.mem_map.1 h
      obtain ⟨f, hf, hfname, hfv⟩ := mem_present.1 hm
      have hfg : f = (name, none) :=
        List.inj_on_of_nodup_map hnodup hf hmem (String.toList_injective (hfname.trans hname))
      rw [hfg] at hfv
      cases hfv

theorem fits_record {depth : Nat} {fields : List (String × Option Value)}
    (h : ∀ f ∈ fields, ∀ v, f.2 = some v → Fits depth v) : Fits (depth + 1) (record fields) := by
  intro m hm
  obtain ⟨name, v⟩ := m
  obtain ⟨f, hf, -, hv⟩ := mem_present.1 hm
  exact h f hf v hv

end Fsmon.JsonText
