/-
# `Fsmon.Text.Encode` — writing text as bytes

What `writeln!` puts into a file: the UTF-8 of the text.  The decoder of
`Fsmon.Text` reads it back (`fromUtf8_encode`), also when other bytes stand
before it, as long as it begins with an ASCII character (`decode_append_ascii`):
an unfinished sequence ends there.

A prefix of the bytes of a text is the bytes of a prefix of the text, or it ends
inside a character and is not UTF-8 at all (`encode_prefix_cases`).
-/
import Fsmon.Text
import Mathlib.Data.List.Infix

namespace Fsmon.Text

/-- The UTF-8 bytes of a text. -/
def encode (s : Str) : Bytes := s.flatMap String.utf8EncodeChar

@[simp] theorem encode_nil : encode [] = [] := rfl

@[simp] theorem encode_cons (c : Char) (s : Str) :
    encode (c :: s) = String.utf8EncodeChar c ++ encode s := List.flatMap_cons

@[simp] theorem encode_append (s t : Str) : encode (s ++ t) = encode s ++ encode t :=
  List.flatMap_append

/-! ## One character -/

section OneChar

theorem toNat_ofNat {n : Nat} (h : n < 256) : (UInt8.ofNat n).toNat = n := by
  simp [Nat.mod_eq_of_lt h]

theorem width_toNat (b : UInt8) : width b =
    if b.toNat < 0x80 then 1
    else if b.toNat < 0xC2 then 0
    else if b.toNat ≤ 0xDF then 2
    else if b.toNat ≤ 0xEF then 3
    else if b.toNat ≤ 0xF4 then 4
    else 0 := by
  simp only [width, UInt8.lt_iff_toNat_lt, UInt8.le_iff_toNat_le]
  rfl

theorem isCont_ofNat {n : Nat} (h : n < 64) : isCont (UInt8.ofNat (n + 128)) = true := by
  have hn : (UInt8.ofNat (n + 128)).toNat = n + 128 := toNat_ofNat (by omega)
  simp only [isCont, UInt8.le_iff_toNat_le, hn, Bool.and_eq_true, decide_eq_true_eq]
  exact ⟨Nat.le_add_left _ _, by show n + 128 ≤ 191; omega⟩

theorem secondOk_toNat (b₀ b₁ : UInt8) : secondOk b₀ b₁ =
    if b₀.toNat = 0xE0 then decide (0xA0 ≤ b₁.toNat ∧ b₁.toNat ≤ 0xBF)
    else if b₀.toNat = 0xED then decide (0x80 ≤ b₁.toNat ∧ b₁.toNat ≤ 0x9F)
    else if b₀.toNat = 0xF0 then decide (0x90 ≤ b₁.toNat ∧ b₁.toNat ≤ 0xBF)
    else if b₀.toNat = 0xF4 then decide (0x80 ≤ b₁.toNat ∧ b₁.toNat ≤ 0x8F)
    else decide (0x80 ≤ b₁.toNat ∧ b₁.toNat ≤ 0xBF) := by
  simp only [secondOk, isCont, ← UInt8.toNat_inj, UInt8.le_iff_toNat_le, Bool.decide_and]
  rfl

theorem ofNat_toNat_of_eq {c : Char} {n : Nat} (h : n = c.toNat) : Char.ofNat n = c := by
  rw [h, Char.ofNat_toNat]

theorem decode_one {b₀ : UInt8} (h : width b₀ = 1) (rest : Bytes) :
    decode (b₀ :: rest) = some (scalar [b₀]) :: decode rest := by
  simp [decode, decodeFrom, feed, lead, h]

theorem decode_two {b₀ b₁ : UInt8} (h : width b₀ = 2) (h₁ : secondOk b₀ b₁ = true) (rest : Bytes) :
    decode (b₀ :: b₁ :: rest) = some (scalar [b₀, b₁]) :: decode rest := by
  simp [decode, decodeFrom, feed, lead, continues, h, h₁]

theorem decode_three {b₀ b₁ b₂ : UInt8} (h : width b₀ = 3) (h₁ : secondOk b₀ b₁ = true)
    (h₂ : isCont b₂ = true) (rest : Bytes) :
    decode (b₀ :: b₁ :: b₂ :: rest) = some (scalar [b₀, b₁, b₂]) :: decode rest := by
  simp [decode, decodeFrom, feed, lead, continues, h, h₁, h₂]

theorem decode_four {b₀ b₁ b₂ b₃ : UInt8} (h : width b₀ = 4) (h₁ : secondOk b₀ b₁ = true)
    (h₂ : isCont b₂ = true) (h₃ : isCont b₃ = true) (rest : Bytes) :
    decode (b₀ :: b₁ :: b₂ :: b₃ :: rest) = some (scalar [b₀, b₁, b₂, b₃]) :: decode rest := by
  simp [decode, decodeFrom, feed, lead, continues, h, h₁, h₂, h₃]

/-- **One character.**  Its bytes decode to it, whatever follows. -/
theorem decode_utf8EncodeChar (c : Char) (rest : Bytes) :
    decode (String.utf8EncodeChar c ++ rest) = some c :: decode rest := by
  have hv : c.val.toNat < 0xD800 ∨ 0xDFFF < c.val.toNat ∧ c.val.toNat < 0x110000 := c.valid
  have hc : c.toNat = c.val.toNat := rfl
  generalize hn : c.val.toNat = v at hv hc
  simp only [String.utf8EncodeChar, hn]
  by_cases h₁ : v ≤ 0x7F
  · have e₀ : (UInt8.ofNat v).toNat = v := toNat_ofNat (by omega)
    rw [if_pos h₁, List.cons_append, List.nil_append,
      decode_one (by rw [width_toNat, e₀, if_pos (by omega)]), scalar, e₀, ofNat_toNat_of_eq hc.symm]
  · rw [if_neg h₁]
    by_cases h₂ : v ≤ 0x7FF
    · have e₀ : (UInt8.ofNat (v / 64 % 32 + 192)).toNat = v / 64 % 32 + 192 :=
        toNat_ofNat (by omega)
      have e₁ : (UInt8.ofNat (v % 64 + 128)).toNat = v % 64 + 128 := toNat_ofNat (by omega)
      have hw : width (UInt8.ofNat (v / 64 % 32 + 192)) = 2 := by
        rw [width_toNat, e₀, if_neg (by omega), if_neg (by omega), if_pos (by omega)]
      have hs : secondOk (UInt8.ofNat (v / 64 % 32 + 192)) (UInt8.ofNat (v % 64 + 128)) = true := by
        rw [secondOk_toNat, e₀, e₁, if_neg (by omega), if_neg (by omega), if_neg (by omega),
          if_neg (by omega), decide_eq_true_eq]
        omega
      rw [if_pos h₂, List.cons_append, List.cons_append, List.nil_append, decode_two hw hs, scalar,
        e₀, e₁, ofNat_toNat_of_eq (c := c) (by omega)]
    · rw [if_neg h₂]
      by_cases h₃ : v ≤ 0xFFFF
      · have e₀ : (UInt8.ofNat (v / 4096 % 16 + 224)).toNat = v / 4096 % 16 + 224 :=
          toNat_ofNat (by omega)
        have e₁ : (UInt8.ofNat (v / 64 % 64 + 128)).toNat = v / 64 % 64 + 128 :=
          toNat_ofNat (by omega)
        have e₂ : (UInt8.ofNat (v % 64 + 128)).toNat = v % 64 + 128 := toNat_ofNat (by omega)
        have hw : width (UInt8.ofNat (v / 4096 % 16 + 224)) = 3 := by
          rw [width_toNat, e₀, if_neg (by omega), if_neg (by omega), if_neg (by omega),
            if_pos (by omega)]
        -- overlong forms and surrogates are no characters
        have hs : secondOk (UInt8.ofNat (v / 4096 % 16 + 224)) (UInt8.ofNat (v / 64 % 64 + 128))
            = true := by
          rw [secondOk_toNat, e₀, e₁]
          repeat' split
          all_goals rw [decide_eq_true_eq]; omega
        rw [if_pos h₃, List.cons_append, List.cons_append, List.cons_append, List.nil_append,
          decode_three hw hs (isCont_ofNat (by omega)), scalar, e₀, e₁, e₂,
          ofNat_toNat_of_eq (c := c) (by omega)]
      · have e₀ : (UInt8.ofNat (v / 262144 % 8 + 240)).toNat = v / 262144 % 8 + 240 :=
          toNat_ofNat (by omega)
        have e₁ : (UInt8.ofNat (v / 4096 % 64 + 128)).toNat = v / 4096 % 64 + 128 :=
          toNat_ofNat (by omega)
        have e₂ : (UInt8.ofNat (v / 64 % 64 + 128)).toNat = v / 64 % 64 + 128 :=
          toNat_ofNat (by omega)
        have e₃ : (UInt8.ofNat (v % 64 + 128)).toNat = v % 64 + 128 := toNat_ofNat (by omega)
        have hw : width (UInt8.ofNat (v / 262144 % 8 + 240)) = 4 := by
          rw [width_toNat, e₀, if_neg (by omega), if_neg (by omega), if_neg (by omega),
            if_neg (by omega), if_pos (by omega)]
        have hs : secondOk (UInt8.ofNat (v / 262144 % 8 + 240)) (UInt8.ofNat (v / 4096 % 64 + 128))
            = true := by
          rw [secondOk_toNat, e₀, e₁]
          repeat' split
          all_goals rw [decide_eq_true_eq]; omega
        rw [if_neg h₃, List.cons_append, List.cons_append, List.cons_append, List.cons_append,
          List.nil_append, decode_four hw hs (isCont_ofNat (by omega)) (isCont_ofNat (by omega)),
          scalar, e₀, e₁, e₂, e₃, ofNat_toNat_of_eq (c := c) (by omega)]

end OneChar

/-! ## A text -/

theorem decode_encode_append : ∀ (s : Str) (rest : Bytes),
    decode (encode s ++ rest) = s.map some ++ decode rest := by
  intro s
  induction s with
  | nil =>
      intro _
      exact rfl
  | cons c s ih =>
      intro rest
      rw [encode_cons, List.append_assoc, decode_utf8EncodeChar, ih rest]
      rfl

theorem decode_encode (s : Str) : decode (encode s) = s.map some := by
  have h := decode_encode_append s []
  rwa [List.append_nil, show decode [] = [] from rfl, List.append_nil] at h

/-- What was written as text reads back. -/
theorem fromUtf8_encode (s : Str) : fromUtf8 (encode s) = some s := by
  rw [fromUtf8, decode_encode, if_pos (by simp)]
  simp

/-- An ASCII byte ends whatever sequence is pending. -/
theorem feed_ascii {b : UInt8} (hb : b < 0x80) (pending : Bytes) :
    feed pending b = ((if pending.isEmpty then [] else [none]) ++ [some (scalar [b])], []) := by
  cases pending with
  | nil => exact lead_ascii hb
  | cons b₀ rest =>
      have hcont : isCont b = false := by
        have h : ¬ 0x80 ≤ b := UInt8.not_le.2 hb
        simp [isCont, h]
      have hcontinues : continues (b₀ :: rest) b = false := by
        cases rest with
        | nil =>
            rw [continues, secondOk_toNat]
            have h : b.toNat < 128 := UInt8.lt_iff_toNat_lt.1 hb
            repeat' split
            all_goals rw [decide_eq_false_iff_not]; omega
        | cons _ _ => exact hcont
      simp [feed, hcontinues, lead_ascii hb]

/-- Decoding restarts at an ASCII byte. -/
theorem decodeFrom_append_ascii {b : UInt8} (hb : b < 0x80) (bs : Bytes) :
    ∀ pending l : Bytes, decodeFrom pending (l ++ b :: bs) = decodeFrom pending l ++ decode (b :: bs)
  | pending, [] => by
      simp only [decode, List.nil_append, decodeFrom, feed_ascii hb]
      simp [List.append_assoc]
  | pending, c :: l => by
      simp only [List.cons_append, decodeFrom]
      rw [decodeFrom_append_ascii hb bs _ l, List.append_assoc]

theorem decode_append_ascii {b : UInt8} (hb : b < 0x80) (l bs : Bytes) :
    decode (l ++ b :: bs) = decode l ++ decode (b :: bs) := decodeFrom_append_ascii hb bs [] l

/-! ## Bytes of ASCII, and cuts -/

/-- Every byte of a character of several bytes has its high bit set. -/
theorem ne_ofNat_of_ascii {b : UInt8} (hb : b < 0x80) {n : Nat} (h : 128 ≤ n) (hlt : n < 256) :
    b ≠ UInt8.ofNat n := by
  intro he
  have hn : b.toNat = n := by rw [he, toNat_ofNat hlt]
  have hsmall : b.toNat < 128 := UInt8.lt_iff_toNat_lt.1 hb
  omega

/-- A byte of ASCII is the whole of a character. -/
theorem ascii_mem_utf8EncodeChar {b : UInt8} (hb : b < 0x80) {c : Char}
    (h : b ∈ String.utf8EncodeChar c) : c = Char.ofNat b.toNat := by
  simp only [String.utf8EncodeChar] at h
  split at h
  · next hv =>
      have he : b = UInt8.ofNat c.val.toNat := List.mem_singleton.1 h
      have hc : c.toNat = b.toNat := by
        rw [he, toNat_ofNat (by omega)]
        rfl
      rw [← hc, Char.ofNat_toNat]
  · exfalso
    split at h
    · simp only [List.mem_cons, List.not_mem_nil, or_false] at h
      rcases h with h | h
      · exact ne_ofNat_of_ascii hb (by omega) (by omega) h
      · exact ne_ofNat_of_ascii hb (by omega) (by omega) h
    · split at h
      · simp only [List.mem_cons, List.not_mem_nil, or_false] at h
        rcases h with h | h | h
        · exact ne_ofNat_of_ascii hb (by omega) (by omega) h
        · exact ne_ofNat_of_ascii hb (by omega) (by omega) h
        · exact ne_ofNat_of_ascii hb (by omega) (by omega) h
      · simp only [List.mem_cons, List.not_mem_nil, or_false] at h
        rcases h with h | h | h | h
        · exact ne_ofNat_of_ascii hb (by omega) (by omega) h
        · exact ne_ofNat_of_ascii hb (by omega) (by omega) h
        · exact ne_ofNat_of_ascii hb (by omega) (by omega) h
        · exact ne_ofNat_of_ascii hb (by omega) (by omega) h

/-- A text without a character of ASCII does not have its byte. -/
theorem ascii_notMem_encode {b : UInt8} (hb : b < 0x80) {s : Str} (h : Char.ofNat b.toNat ∉ s) :
    b ∉ encode s := by
  intro hm
  obtain ⟨c, hc, hmem⟩ := List.mem_flatMap.1 hm
  exact h (ascii_mem_utf8EncodeChar hb hmem ▸ hc)

/-- A text without a newline has no newline byte. -/
theorem newline_notMem_encode {s : Str} (h : '\n' ∉ s) : newline ∉ encode s :=
  ascii_notMem_encode (by decide) h

/-- What can be pending: the first bytes of a sequence of several. -/
def Pending : Bytes → Prop
  | [] => True
  | [b₀] => 2 ≤ width b₀
  | b₀ :: b₁ :: _ => 2 ≤ width b₀ ∧ secondOk b₀ b₁ = true

/-- Only the null character stands for numbers that are no character. -/
theorem eq_of_ofNat_eq {n : Nat} {c : Char} (hc : c ≠ '\x00') (h : Char.ofNat n = c) : n = c.toNat := by
  by_cases hvalid : n.isValidChar
  · have hn : (Char.ofNat n).toNat = n := by
      rw [Char.ofNat, dif_pos hvalid]
      rfl
    rw [← h, hn]
  · rw [Char.ofNat, dif_neg hvalid] at h
    exact absurd h.symm hc

theorem pending_lead (b : UInt8) : Pending (lead b).2 := by
  rw [lead]
  split
  · trivial
  · trivial
  · rename_i h₀ h₁
    have hzero : width b ≠ 0 := h₀
    have hone : width b ≠ 1 := h₁
    show 2 ≤ width b
    omega

theorem pending_feed {pending : Bytes} (h : Pending pending) (b : UInt8) :
    Pending (feed pending b).2 := by
  cases pending with
  | nil => exact pending_lead b
  | cons b₀ rest =>
      rw [feed]
      split
      · rename_i hcont
        split
        · trivial
        · cases rest with
          | nil => exact ⟨h, hcont⟩
          | cons b₁ rest => exact h
      · exact pending_lead b

section
variable {c : Char} (hzero : c ≠ '\x00') (hc : c.toNat < 128)
include hzero hc

omit hc in
theorem ascii_of_lead {b : UInt8} (h : some c ∈ (lead b).1) : b.toNat = c.toNat := by
  rw [lead] at h
  split at h
  · rw [List.mem_singleton] at h
    cases h
  · rw [List.mem_singleton, Option.some.injEq] at h
    exact eq_of_ofNat_eq hzero h.symm
  · cases h

/-- A sequence of several bytes is not of ASCII: overlong forms are not decoded. -/
theorem scalar_ne_ascii {b₀ b : UInt8} {rest : Bytes} (h : Pending (b₀ :: rest))
    (hcont : continues (b₀ :: rest) b = true) (hwidth : width b₀ = rest.length + 2) :
    scalar (b₀ :: rest ++ [b]) ≠ c := by
  have hlead := width_toNat b₀
  rw [hwidth] at hlead
  intro heq
  match rest, h, hcont, hlead, heq with
  | [], _, _, hlead, heq =>
      have hvalue := eq_of_ofNat_eq hzero heq
      simp only [List.length_nil] at hlead
      repeat' split at hlead
      all_goals omega
  | [b₁], h, _, hlead, heq =>
      have hvalue := eq_of_ofNat_eq hzero heq
      have hsecond := h.2
      rw [secondOk_toNat] at hsecond
      simp only [List.length_singleton] at hlead
      repeat' split at hlead
      all_goals repeat' split at hsecond
      all_goals
        rw [decide_eq_true_eq] at hsecond
        omega
  | [b₁, b₂], h, _, hlead, heq =>
      have hvalue := eq_of_ofNat_eq hzero heq
      have hsecond := h.2
      rw [secondOk_toNat] at hsecond
      simp only [List.length_cons, List.length_nil] at hlead
      repeat' split at hlead
      all_goals repeat' split at hsecond
      all_goals
        rw [decide_eq_true_eq] at hsecond
        omega
  | _ :: _ :: _ :: _, _, _, hlead, _ =>
      simp only [List.length_cons] at hlead
      repeat' split at hlead
      all_goals omega

theorem ascii_of_feed {pending : Bytes} (h : Pending pending) {b : UInt8}
    (hmem : some c ∈ (feed pending b).1) : b.toNat = c.toNat := by
  cases pending with
  | nil => exact ascii_of_lead hzero hmem
  | cons b₀ rest =>
      rw [feed] at hmem
      split at hmem
      · rename_i hcont
        split at hmem
        · rename_i hwidth
          rw [List.mem_singleton, Option.some.injEq] at hmem
          exact absurd hmem.symm (scalar_ne_ascii hzero hc h hcont hwidth)
        · cases hmem
      · rcases List.mem_cons.1 hmem with hmem | hmem
        · cases hmem
        · exact ascii_of_lead hzero hmem

theorem ascii_of_decodeFrom (bs : Bytes) : ∀ {pending : Bytes}, Pending pending →
    some c ∈ decodeFrom pending bs → UInt8.ofNat c.toNat ∈ bs := by
  induction bs with
  | nil =>
      intro pending _ hmem
      rw [decodeFrom] at hmem
      split at hmem
      · cases hmem
      · rw [List.mem_singleton] at hmem
        cases hmem
  | cons b bs ih =>
      intro pending h hmem
      rw [decodeFrom] at hmem
      rcases List.mem_append.1 hmem with hmem | hmem
      · have hbyte : UInt8.ofNat c.toNat = b := by
          rw [← ascii_of_feed hzero hc h hmem, UInt8.ofNat_toNat]
        rw [hbyte]
        exact List.mem_cons_self
      · exact List.mem_cons_of_mem b (ih (pending_feed h b) hmem)

/-- A character of ASCII that is decoded stands in the bytes. -/
theorem ascii_mem_of_decode {bs : Bytes} (h : some c ∈ decode bs) : UInt8.ofNat c.toNat ∈ bs :=
  @ascii_of_decodeFrom c hzero hc bs [] trivial h

end

/-- A newline that is decoded stands in the bytes. -/
theorem newline_mem_of_fromUtf8 {bs : Bytes} {s : Str} (h : fromUtf8 bs = some s) (hs : '\n' ∈ s) :
    newline ∈ bs := by
  rw [fromUtf8, Option.ite_none_right_eq_some, Option.some.injEq] at h
  obtain ⟨c, hc, hid⟩ := List.mem_filterMap.1 (h.2 ▸ hs)
  refine @ascii_mem_of_decode '\n' (by decide) (by decide) bs ?_
  rw [← show c = some '\n' from hid]
  exact hc

/-- What a prefix emits, and what it leaves pending, do not depend on the rest. -/
theorem decodeFrom_append : ∀ pending l : Bytes, ∃ out pending',
    ∀ rest, decodeFrom pending (l ++ rest) = out ++ decodeFrom pending' rest
  | pending, [] => ⟨[], pending, fun _ => rfl⟩
  | pending, b :: l => by
      obtain ⟨out, pending', h⟩ := decodeFrom_append (feed pending b).2 l
      refine ⟨(feed pending b).1 ++ out, pending', fun rest => ?_⟩
      rw [List.cons_append, decodeFrom, h, List.append_assoc]

/-- A byte is emitted or pending. -/
theorem feed_ne_nil (pending : Bytes) (b : UInt8) :
    (feed pending b).1 ≠ [] ∨ (feed pending b).2 ≠ [] := by
  have hlead : (lead b).1 ≠ [] ∨ (lead b).2 ≠ [] := by
    rw [lead]
    split <;> simp
  cases pending with
  | nil => exact hlead
  | cons b₀ rest =>
      rw [feed]
      split
      · split <;> simp
      · exact .inl (List.cons_ne_nil _ _)

/-- Bytes, pending or to come, decode to something. -/
theorem decodeFrom_ne_nil : ∀ {pending l : Bytes}, pending ≠ [] ∨ l ≠ [] →
    decodeFrom pending l ≠ []
  | [], [], h => by simp at h
  | b₀ :: pending, [], _ => by simp [decodeFrom]
  | pending, b :: l, _ => by
      rw [decodeFrom]
      intro he
      obtain ⟨hout, hrest⟩ := List.append_eq_nil_iff.1 he
      rcases feed_ne_nil pending b with h | h
      · exact h hout
      · exact decodeFrom_ne_nil (.inl h) hrest

/-- Some first bytes of a character, but not all of them, are not UTF-8. -/
theorem fromUtf8_part {c : Char} {l rest : Bytes} (h : l ++ rest = String.utf8EncodeChar c)
    (hl : l ≠ []) (hrest : rest ≠ []) : fromUtf8 l = none := by
  obtain ⟨out, pending, hsplit⟩ := decodeFrom_append [] l
  have hwhole : out ++ decodeFrom pending rest = [some c] := by
    have hc := decode_utf8EncodeChar c []
    rw [List.append_nil, ← h, decode, hsplit] at hc
    exact hc
  -- the one character the bytes stand for is not emitted before the last of them
  have hout : out = [] := by
    cases out with
    | nil => rfl
    | cons o out =>
        rw [List.cons_append, List.cons.injEq] at hwhole
        exact absurd (List.append_eq_nil_iff.1 hwhole.2).2 (decodeFrom_ne_nil (.inr hrest))
  have hdec : decode l = decodeFrom pending [] := by
    have hl' := hsplit []
    rwa [List.append_nil, hout, List.nil_append] at hl'
  have hne : decodeFrom pending [] ≠ [] := hdec ▸ decodeFrom_ne_nil (.inr hl)
  cases pending with
  | nil => exact absurd rfl hne
  | cons b₀ pending =>
      rw [fromUtf8, hdec, decodeFrom]
      rfl

/-- A prefix of the bytes of a text: the bytes of a prefix, or cut inside a character. -/
theorem encode_prefix_cases : ∀ {s : Str} {l : Bytes}, l <+: encode s →
    (∃ t, t <+: s ∧ l = encode t) ∨ fromUtf8 l = none
  | [], l, h => .inl ⟨[], List.nil_prefix, List.prefix_nil.1 h⟩
  | c :: s, l, h => by
      rw [encode_cons] at h
      rcases List.prefix_or_prefix_of_prefix h (List.prefix_append _ _) with hpart | ⟨l', rfl⟩
      · obtain ⟨rest, hrest⟩ := hpart
        by_cases hl : l = []
        · exact .inl ⟨[], List.nil_prefix, hl⟩
        · by_cases hr : rest = []
          · rw [hr, List.append_nil] at hrest
            exact .inl ⟨[c], ⟨s, rfl⟩, by simp [hrest]⟩
          · exact .inr (fromUtf8_part hrest hl hr)
      · rcases encode_prefix_cases ((List.prefix_append_right_inj _).1 h) with ⟨t, ht, rfl⟩ | hbad
        · exact .inl ⟨c :: t, (List.prefix_cons_inj c).2 ht, (encode_cons c t).symm⟩
        · refine .inr ?_
          rw [fromUtf8, if_neg]
          intro hall
          rw [decode_utf8EncodeChar, List.all_cons, Bool.and_eq_true] at hall
          rw [fromUtf8, if_pos hall.2] at hbad
          cases hbad

end Fsmon.Text
