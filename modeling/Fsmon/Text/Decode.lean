/-
# `Fsmon.Text.Decode` — bytes that are text are the bytes of that text

The converse of `fromUtf8_encode`: a text that is read is written as the bytes
it was read from.  Overlong forms and surrogates are not decoded, so no other
bytes decode to the same characters.

The induction is on the bytes; `Unfinished` says what can be pending before each.
-/
import Fsmon.Text.Encode

namespace Fsmon.Text

/-- The first bytes of a sequence of several, each one checked. -/
def Unfinished : Bytes → Prop
  | [] => True
  | [b₀] => 2 ≤ width b₀
  | [b₀, b₁] => 3 ≤ width b₀ ∧ secondOk b₀ b₁ = true
  | [b₀, b₁, b₂] => 4 ≤ width b₀ ∧ secondOk b₀ b₁ = true ∧ isCont b₂ = true
  | _ => False

theorem width_le_four (b : UInt8) : width b ≤ 4 := by
  rw [width_toNat]
  repeat' split
  all_goals omega

theorem isCont_toNat {b : UInt8} (h : isCont b = true) : 128 ≤ b.toNat ∧ b.toNat ≤ 191 := by
  rw [isCont, Bool.and_eq_true, decide_eq_true_eq, decide_eq_true_eq, UInt8.le_iff_toNat_le,
    UInt8.le_iff_toNat_le] at h
  exact h

/-- The bytes of a character, by its number. -/
theorem utf8EncodeChar_ofNat {n : Nat} (h : n.isValidChar) : String.utf8EncodeChar (Char.ofNat n) =
    if n ≤ 0x7F then [UInt8.ofNat n]
    else if n ≤ 0x7FF then [UInt8.ofNat (n / 64 % 32 + 192), UInt8.ofNat (n % 64 + 128)]
    else if n ≤ 0xFFFF then
      [UInt8.ofNat (n / 4096 % 16 + 224), UInt8.ofNat (n / 64 % 64 + 128), UInt8.ofNat (n % 64 + 128)]
    else
      [UInt8.ofNat (n / 262144 % 8 + 240), UInt8.ofNat (n / 4096 % 64 + 128),
        UInt8.ofNat (n / 64 % 64 + 128), UInt8.ofNat (n % 64 + 128)] := by
  have hn : (Char.ofNat n).val.toNat = n := by
    rw [Char.ofNat, dif_pos h]
    rfl
  simp only [String.utf8EncodeChar, hn]

theorem ofNat_of_toNat_eq {n : Nat} {b : UInt8} (h : n = b.toNat) : UInt8.ofNat n = b := by
  rw [h, UInt8.ofNat_toNat]

/-! ## The four forms -/

theorem encode_scalar_one {b₀ : UInt8} (h : width b₀ = 1) :
    String.utf8EncodeChar (scalar [b₀]) = [b₀] := by
  have hlead := width_toNat b₀
  rw [h] at hlead
  have hrange : b₀.toNat < 0x80 := by
    repeat' split at hlead
    all_goals omega
  have hvalid : b₀.toNat.isValidChar := .inl (by omega)
  rw [scalar, utf8EncodeChar_ofNat hvalid, if_pos (by omega), UInt8.ofNat_toNat]

theorem encode_scalar_two {b₀ b₁ : UInt8} (h : width b₀ = 2) (h₁ : secondOk b₀ b₁ = true) :
    String.utf8EncodeChar (scalar [b₀, b₁]) = [b₀, b₁] := by
  have hlead := width_toNat b₀
  rw [h] at hlead
  rw [secondOk_toNat] at h₁
  have hrange : 0xC2 ≤ b₀.toNat ∧ b₀.toNat ≤ 0xDF := by
    repeat' split at hlead
    all_goals omega
  have hsecond : 0x80 ≤ b₁.toNat ∧ b₁.toNat ≤ 0xBF := by
    rw [if_neg (by omega), if_neg (by omega), if_neg (by omega), if_neg (by omega),
      decide_eq_true_eq] at h₁
    exact h₁
  have hvalid : (b₀.toNat % 32 * 64 + b₁.toNat % 64).isValidChar := .inl (by omega)
  rw [scalar, utf8EncodeChar_ofNat hvalid, if_neg (by omega), if_pos (by omega),
    ofNat_of_toNat_eq (b := b₀) (by omega), ofNat_of_toNat_eq (b := b₁) (by omega)]

theorem encode_scalar_three {b₀ b₁ b₂ : UInt8} (h : width b₀ = 3) (h₁ : secondOk b₀ b₁ = true)
    (h₂ : isCont b₂ = true) : String.utf8EncodeChar (scalar [b₀, b₁, b₂]) = [b₀, b₁, b₂] := by
  have hlead := width_toNat b₀
  rw [h] at hlead
  rw [secondOk_toNat] at h₁
  have hrange : 0xE0 ≤ b₀.toNat ∧ b₀.toNat ≤ 0xEF := by
    repeat' split at hlead
    all_goals omega
  have h₂ := isCont_toNat h₂
  -- what the second byte may be keeps overlong forms and surrogates out
  have hsecond : 0x80 ≤ b₁.toNat ∧ b₁.toNat ≤ 0xBF ∧ (b₀.toNat = 0xE0 → 0xA0 ≤ b₁.toNat) ∧
      (b₀.toNat = 0xED → b₁.toNat ≤ 0x9F) := by
    repeat' split at h₁
    all_goals
      rw [decide_eq_true_eq] at h₁
      omega
  have hvalid : ((b₀.toNat % 16 * 64 + b₁.toNat % 64) * 64 + b₂.toNat % 64).isValidChar := by
    by_cases hlow : b₀.toNat ≤ 0xED
    · exact .inl (by omega)
    · exact .inr (by omega)
  rw [scalar, utf8EncodeChar_ofNat hvalid, if_neg (by omega), if_neg (by omega), if_pos (by omega),
    ofNat_of_toNat_eq (b := b₀) (by omega), ofNat_of_toNat_eq (b := b₁) (by omega),
    ofNat_of_toNat_eq (b := b₂) (by omega)]

theorem encode_scalar_four {b₀ b₁ b₂ b₃ : UInt8} (h : width b₀ = 4) (h₁ : secondOk b₀ b₁ = true)
    (h₂ : isCont b₂ = true) (h₃ : isCont b₃ = true) :
    String.utf8EncodeChar (scalar [b₀, b₁, b₂, b₃]) = [b₀, b₁, b₂, b₃] := by
  have hlead := width_toNat b₀
  rw [h] at hlead
  rw [secondOk_toNat] at h₁
  have hrange : 0xF0 ≤ b₀.toNat ∧ b₀.toNat ≤ 0xF4 := by
    repeat' split at hlead
    all_goals omega
  have h₂ := isCont_toNat h₂
  have h₃ := isCont_toNat h₃
  have hsecond : 0x80 ≤ b₁.toNat ∧ b₁.toNat ≤ 0xBF ∧ (b₀.toNat = 0xF0 → 0x90 ≤ b₁.toNat) ∧
      (b₀.toNat = 0xF4 → b₁.toNat ≤ 0x8F) := by
    repeat' split at h₁
    all_goals
      rw [decide_eq_true_eq] at h₁
      omega
  have hvalid : (((b₀.toNat % 8 * 64 + b₁.toNat % 64) * 64 + b₂.toNat % 64) * 64 +
      b₃.toNat % 64).isValidChar := .inr (by omega)
  rw [scalar, utf8EncodeChar_ofNat hvalid, if_neg (by omega), if_neg (by omega), if_neg (by omega),
    ofNat_of_toNat_eq (b := b₀) (by omega), ofNat_of_toNat_eq (b := b₁) (by omega),
    ofNat_of_toNat_eq (b := b₂) (by omega), ofNat_of_toNat_eq (b := b₃) (by omega)]

/-- A sequence that is complete is the bytes of its character. -/
theorem encode_scalar {b₀ b : UInt8} {rest : Bytes} (h : Unfinished (b₀ :: rest))
    (hcont : continues (b₀ :: rest) b = true) (hwidth : width b₀ = rest.length + 2) :
    String.utf8EncodeChar (scalar (b₀ :: rest ++ [b])) = b₀ :: rest ++ [b] := by
  match rest, h, hcont, hwidth with
  | [], _, hcont, hwidth => exact encode_scalar_two hwidth hcont
  | [b₁], h, hcont, hwidth => exact encode_scalar_three hwidth h.2 hcont
  | [b₁, b₂], h, hcont, hwidth => exact encode_scalar_four hwidth h.2.1 h.2.2 hcont

/-- A sequence that goes on. -/
theorem unfinished_more {b₀ b : UInt8} {rest : Bytes} (h : Unfinished (b₀ :: rest))
    (hcont : continues (b₀ :: rest) b = true) (hwidth : width b₀ ≠ rest.length + 2) :
    Unfinished (b₀ :: rest ++ [b]) := by
  have hfour := width_le_four b₀
  cases rest with
  | nil =>
      have htwo : 2 ≤ width b₀ := h
      rw [List.length_nil] at hwidth
      exact ⟨by omega, hcont⟩
  | cons b₁ rest =>
      cases rest with
      | nil =>
          have hthree := h.1
          rw [List.length_singleton] at hwidth
          exact ⟨by omega, h.2, hcont⟩
      | cons b₂ rest =>
          cases rest with
          | nil =>
              have hall := h.1
              rw [List.length_cons, List.length_singleton] at hwidth
              omega
          | cons _ _ => cases h

/-! ## A text -/

/-- One byte: no text can go on, or a character is complete, or the sequence is longer. -/
theorem feed_cases {pending : Bytes} (h : Unfinished pending) (b : UInt8) :
    none ∈ (feed pending b).1 ∨
      (∃ c, feed pending b = ([some c], []) ∧ String.utf8EncodeChar c = pending ++ [b]) ∨
      (feed pending b = ([], pending ++ [b]) ∧ Unfinished (pending ++ [b])) := by
  cases pending with
  | nil =>
      have hlead : feed [] b = lead b := rfl
      rw [hlead, lead]
      split
      · exact .inl List.mem_cons_self
      · rename_i hwidth
        exact .inr (.inl ⟨_, rfl, encode_scalar_one hwidth⟩)
      · rename_i h₀ h₁
        have hzero : width b ≠ 0 := h₀
        have hone : width b ≠ 1 := h₁
        exact .inr (.inr ⟨rfl, show 2 ≤ width b by omega⟩)
  | cons b₀ rest =>
      rw [feed]
      split
      · rename_i hcont
        split
        · rename_i hwidth
          exact .inr (.inl ⟨_, rfl, encode_scalar h hcont hwidth⟩)
        · rename_i hwidth
          exact .inr (.inr ⟨rfl, unfinished_more h hcont hwidth⟩)
      · exact .inl List.mem_cons_self

theorem encode_of_decodeFrom (bs : Bytes) : ∀ {pending : Bytes} {s : Str}, Unfinished pending →
    decodeFrom pending bs = s.map some → encode s = pending ++ bs := by
  induction bs with
  | nil =>
      intro pending s _ hs
      cases pending with
      | nil =>
          obtain rfl := List.map_eq_nil_iff.1 hs.symm
          rfl
      | cons b₀ rest =>
          have hnone : none ∈ s.map some := hs ▸ List.mem_singleton.2 rfl
          obtain ⟨c, _, hc⟩ := List.mem_map.1 hnone
          cases hc
  | cons b bs ih =>
      intro pending s h hs
      rw [decodeFrom] at hs
      rcases feed_cases h b with hnone | ⟨c, hfeed, hc⟩ | ⟨hfeed, hmore⟩
      · have hmem : none ∈ s.map some := hs ▸ List.mem_append_left _ hnone
        obtain ⟨c, _, hc⟩ := List.mem_map.1 hmem
        cases hc
      · rw [hfeed, List.singleton_append] at hs
        cases s with
        | nil => cases hs
        | cons d s =>
            rw [List.map_cons, List.cons.injEq, Option.some.injEq] at hs
            rw [encode_cons, ← hs.1, hc, @ih [] s trivial hs.2, List.nil_append, List.append_assoc,
              List.singleton_append]
      · rw [hfeed, List.nil_append] at hs
        rw [ih hmore hs, List.append_assoc, List.singleton_append]

theorem map_some_characters {out : List (Option Char)} (h : out.all Option.isSome = true) :
    (out.filterMap id).map some = out := by
  induction out with
  | nil => rfl
  | cons o out ih =>
      rw [List.all_cons, Bool.and_eq_true] at h
      obtain ⟨c, rfl⟩ := Option.isSome_iff_exists.1 h.1
      exact congrArg (some c :: ·) (ih h.2)

/-- **Bytes that are text are the bytes of that text.** -/
theorem fromUtf8_eq_some {bs : Bytes} {s : Str} : fromUtf8 bs = some s ↔ encode s = bs := by
  constructor
  · intro h
    rw [fromUtf8, Option.ite_none_right_eq_some, Option.some.injEq] at h
    refine @encode_of_decodeFrom bs [] s trivial ?_
    rw [← h.2]
    exact (map_some_characters h.1).symm
  · rintro rfl
    exact fromUtf8_encode s

end Fsmon.Text
