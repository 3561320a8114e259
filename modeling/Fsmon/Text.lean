/-
# `Fsmon.Text` — bytes, UTF-8, lines and blanks, as the standard library reads them

The logs are byte files; the code reads them through three functions of the
Rust standard library, which are modelled here on lists of bytes.

| Rust | here |
| :-- | :-- |
| `str::from_utf8` (inside `BufRead::read_line`) | `fromUtf8` |
| `String::from_utf8_lossy` | `fromUtf8Lossy` |
| `BufRead::read_line` | `readLine`, and `splitLines` for the whole file |
| `str::trim` | `trim` |

The decoder is a byte automaton: `feed` consumes one byte against at most three
pending bytes and emits characters, with `none` for one maximal invalid
subpart, the unit `from_utf8_lossy` replaces by U+FFFD.  A newline is never a
continuation byte, so decoding splits at newlines (`decodeFrom_newline`) and a
file is valid UTF-8 iff each of its lines is (`fromUtf8_splitLines`).
-/
import Mathlib.Data.List.Basic
import Mathlib.Data.Nat.Notation

namespace Fsmon

abbrev Bytes := List UInt8

/-- A Rust `&str`, as its characters. -/
abbrev Str := List Char

namespace Text

def newline : UInt8 := 0x0A

/-- The bytes of a string. -/
def bytesOf (s : String) : Bytes := s.toUTF8.data.toList

/-! ## The decoder -/

def isCont (b : UInt8) : Bool := 0x80 ≤ b && b ≤ 0xBF

/-- Length of the sequence a lead byte announces; 0 for a byte that is not a lead byte. -/
def width (b : UInt8) : Nat :=
  if b < 0x80 then 1
  else if b < 0xC2 then 0
  else if b ≤ 0xDF then 2
  else if b ≤ 0xEF then 3
  else if b ≤ 0xF4 then 4
  else 0

/-- The second byte: overlong forms, surrogates and values past U+10FFFF end here. -/
def secondOk (b₀ b₁ : UInt8) : Bool :=
  if b₀ = 0xE0 then 0xA0 ≤ b₁ && b₁ ≤ 0xBF
  else if b₀ = 0xED then 0x80 ≤ b₁ && b₁ ≤ 0x9F
  else if b₀ = 0xF0 then 0x90 ≤ b₁ && b₁ ≤ 0xBF
  else if b₀ = 0xF4 then 0x80 ≤ b₁ && b₁ ≤ 0x8F
  else isCont b₁

/-- The scalar value of a complete sequence. -/
def scalar : Bytes → Char
  | [b₀] => Char.ofNat b₀.toNat
  | [b₀, b₁] => Char.ofNat (b₀.toNat % 32 * 64 + b₁.toNat % 64)
  | [b₀, b₁, b₂] => Char.ofNat ((b₀.toNat % 16 * 64 + b₁.toNat % 64) * 64 + b₂.toNat % 64)
  | [b₀, b₁, b₂, b₃] =>
      Char.ofNat (((b₀.toNat % 8 * 64 + b₁.toNat % 64) * 64 + b₂.toNat % 64) * 64 + b₃.toNat % 64)
  | _ => Char.ofNat 0xFFFD

/-- A byte with nothing pending: what it emits, and what is pending after it. -/
def lead (b : UInt8) : List (Option Char) × Bytes :=
  match width b with
  | 0 => ([none], [])
  | 1 => ([some (scalar [b])], [])
  | _ => ([], [b])

/-- May `b` continue the pending bytes? -/
def continues (pending : Bytes) (b : UInt8) : Bool :=
  match pending with
  | [b₀] => secondOk b₀ b
  | _ => isCont b

/-- One byte against the pending bytes (`none` for an invalid subpart). -/
def feed (pending : Bytes) (b : UInt8) : List (Option Char) × Bytes :=
  match pending with
  | [] => lead b
  | b₀ :: rest =>
      if continues (b₀ :: rest) b then
        if width b₀ = rest.length + 2 then ([some (scalar (b₀ :: rest ++ [b]))], [])
        else ([], b₀ :: rest ++ [b])
      else (none :: (lead b).1, (lead b).2)

def decodeFrom : Bytes → Bytes → List (Option Char)
  | pending, [] => if pending.isEmpty then [] else [none]
  | pending, b :: bs => (feed pending b).1 ++ decodeFrom (feed pending b).2 bs

def decode (bs : Bytes) : List (Option Char) := decodeFrom [] bs

/-- `str::from_utf8`. -/
def fromUtf8 (bs : Bytes) : Option Str :=
  if (decode bs).all Option.isSome then some ((decode bs).filterMap id) else none

/-- `String::from_utf8_lossy`. -/
def fromUtf8Lossy (bs : Bytes) : Str := (decode bs).map (·.getD '\uFFFD')

/-- Decoding restarts after a newline: it continues nothing. -/
theorem feed_newline (pending : Bytes) : (feed pending newline).2 = [] := by
  cases pending with
  | nil => decide
  | cons b₀ rest =>
      have hcont : continues (b₀ :: rest) newline = false := by
        cases rest with
        | nil =>
            simp only [continues, secondOk]
            repeat' split
            all_goals decide
        | cons _ _ => rfl
      simp only [feed, hcont, Bool.false_eq_true, if_false]
      decide

theorem decodeFrom_newline : ∀ (pending l rest : Bytes),
    decodeFrom pending (l ++ newline :: rest) = decodeFrom pending (l ++ [newline]) ++ decode rest
  | pending, [], rest => by
      simp [decodeFrom, feed_newline, decode]
  | pending, b :: l, rest => by
      simp [decodeFrom, decodeFrom_newline _ l rest]

theorem fromUtf8_isSome {bs : Bytes} :
    (fromUtf8 bs).isSome ↔ (decode bs).all Option.isSome = true := by
  unfold fromUtf8
  split <;> simp_all

/-! ## ASCII: one byte, one character -/

def isAscii (bs : Bytes) : Prop := ∀ b ∈ bs, b < 0x80

theorem lead_ascii {b : UInt8} (h : b < 0x80) : lead b = ([some (scalar [b])], []) := by
  simp [lead, width, h]

theorem decode_ascii : ∀ {bs : Bytes}, isAscii bs → decode bs = bs.map fun b => some (scalar [b])
  | [], _ => rfl
  | b :: bs, h => by
      have hb := lead_ascii (h b List.mem_cons_self)
      have htail : isAscii bs := fun c hc => h c (List.mem_cons_of_mem _ hc)
      have ih := decode_ascii htail
      simp only [decode, decodeFrom, feed, hb] at ih ⊢
      simp [ih]

theorem isAscii_append {bs cs : Bytes} : isAscii (bs ++ cs) ↔ isAscii bs ∧ isAscii cs :=
  List.forall_mem_append

theorem fromUtf8Lossy_ascii {bs : Bytes} (h : isAscii bs) :
    fromUtf8Lossy bs = bs.map fun b => scalar [b] := by
  simp [fromUtf8Lossy, decode_ascii h]

theorem fromUtf8_ascii {bs : Bytes} (h : isAscii bs) : (fromUtf8 bs).isSome := by
  rw [fromUtf8_isSome, decode_ascii h]
  simp

theorem scalar_ascii_size {b : UInt8} (h : b < 0x80) : (scalar [b]).utf8Size = 1 := by
  have hall : ∀ n < 128, (Char.ofNat n).utf8Size = 1 := by decide
  exact hall _ (UInt8.lt_iff_toNat_lt.1 h)

theorem scalar_ascii_newline {b : UInt8} (h : b < 0x80) : scalar [b] = '\n' ↔ b = newline := by
  have hall : ∀ n < 128, Char.ofNat n = '\n' ↔ n = 10 := by decide
  rw [← UInt8.toNat_inj]
  exact hall _ (UInt8.lt_iff_toNat_lt.1 h)

/-! ## Lines -/

/-- `BufRead::read_line`: the bytes up to and with the next newline, and what is left. -/
def readLine : Bytes → Bytes × Bytes
  | [] => ([], [])
  | b :: bs => if b = newline then ([b], bs) else (b :: (readLine bs).1, (readLine bs).2)

/-- All the lines `read_line` returns, each with its newline. -/
def splitLines : Bytes → List Bytes
  | [] => []
  | b :: bs =>
      if b = newline then [b] :: splitLines bs
      else match splitLines bs with
        | [] => [[b]]
        | l :: ls => (b :: l) :: ls

theorem splitLines_flatten : ∀ bs : Bytes, (splitLines bs).flatten = bs := by
  intro bs
  induction bs with
  | nil =>
      exact rfl
  | cons b bs ih =>
      have ih := ih
      by_cases hb : b = newline
      · simp [splitLines, hb, ih]
      · cases hs : splitLines bs with
        | nil => simp_all [splitLines]
        | cons l ls => simp_all [splitLines]

/-- Reading line by line is splitting. -/
theorem readLine_splitLines : ∀ {bs : Bytes}, bs ≠ [] →
    splitLines bs = (readLine bs).1 :: splitLines (readLine bs).2
  | [], h => absurd rfl h
  | b :: bs, _ => by
      by_cases hb : b = newline
      · simp [splitLines, readLine, hb]
      · cases bs with
        | nil => simp [splitLines, readLine, hb]
        | cons c cs =>
            have ih := readLine_splitLines (List.cons_ne_nil c cs)
            have hread : readLine (b :: c :: cs) = (b :: (readLine (c :: cs)).1, (readLine (c :: cs)).2) :=
              if_neg hb
            rw [hread, splitLines, if_neg hb, ih]

/-- A complete line: a newline at its end and nowhere else. -/
def Complete (l : Bytes) : Prop := ∃ body, l = body ++ [newline] ∧ newline ∉ body

/-- Lines as `splitLines` makes them: every line but the last is complete, and the last is
either complete or a nonempty line that was cut off. -/
inductive IsLines : List Bytes → Prop
  | nil : IsLines []
  | cut {l : Bytes} : l ≠ [] → newline ∉ l → IsLines [l]
  | cons {l : Bytes} {ls : List Bytes} : Complete l → IsLines ls → IsLines (l :: ls)

theorem splitLines_isLines : ∀ bs : Bytes, IsLines (splitLines bs) := by
  intro bs
  induction bs with
  | nil =>
      exact .nil
  | cons b bs ih =>
      have ih := ih
      by_cases hb : b = newline
      · rw [splitLines, if_pos hb, hb]
        exact .cons ⟨[], rfl, List.not_mem_nil⟩ ih
      · rw [splitLines, if_neg hb]
        cases hs : splitLines bs with
        | nil => exact .cut (List.cons_ne_nil _ _) (by simpa using Ne.symm hb)
        | cons l ls =>
            rw [hs] at ih
            cases ih with
            | cut _ hl => exact .cut (List.cons_ne_nil _ _) (by simpa [Ne.symm hb] using hl)
            | cons hl hls =>
                obtain ⟨body, rfl, hbody⟩ := hl
                exact .cons ⟨b :: body, rfl, by simpa [Ne.symm hb] using hbody⟩ hls

theorem IsLines.nil_notMem {ls : List Bytes} (h : IsLines ls) : [] ∉ ls := by
  induction h with
  | nil => simp
  | cut hl _ => simpa using hl.symm
  | cons hl _ ih =>
      obtain ⟨body, rfl, _⟩ := hl
      simpa using ih

theorem readLine_complete : ∀ {body : Bytes} (rest : Bytes), newline ∉ body →
    readLine (body ++ newline :: rest) = (body ++ [newline], rest)
  | [], rest, _ => by simp [readLine]
  | b :: body, rest, h => by
      have hb : b ≠ newline := fun he => h (he ▸ List.mem_cons_self)
      simp [readLine, hb, readLine_complete rest fun hm => h (List.mem_cons_of_mem _ hm)]

theorem readLine_cut : ∀ {l : Bytes}, newline ∉ l → readLine l = (l, [])
  | [], _ => rfl
  | b :: l, h => by
      have hb : b ≠ newline := fun he => h (he ▸ List.mem_cons_self)
      simp [readLine, hb, readLine_cut fun hm => h (List.mem_cons_of_mem _ hm)]

/-- From the start of a line, `read_line` reads that line. -/
theorem readLine_flatten {l : Bytes} {ls : List Bytes} (h : IsLines (l :: ls)) :
    readLine (l :: ls).flatten = (l, ls.flatten) := by
  cases h with
  | cut _ hl => simpa using readLine_cut hl
  | cons hl _ =>
      obtain ⟨body, rfl, hbody⟩ := hl
      simpa using readLine_complete ls.flatten hbody

theorem IsLines.tail {l : Bytes} {ls : List Bytes} (h : IsLines (l :: ls)) : IsLines ls := by
  cases h with
  | cut _ _ => exact .nil
  | cons _ hls => exact hls

/-- The lines of a concatenation of lines are those lines. -/
theorem splitLines_of_isLines : ∀ {ls : List Bytes}, IsLines ls → splitLines ls.flatten = ls
  | [], _ => rfl
  | l :: ls, h => by
      have hne : (l :: ls).flatten ≠ [] := by
        intro he
        have hl : l = [] := by simpa using (List.append_eq_nil_iff.1 he).1
        exact h.nil_notMem (by simp [hl])
      rw [readLine_splitLines hne, readLine_flatten h, splitLines_of_isLines h.tail]

/-- Every line before the last is complete. -/
theorem IsLines.complete : ∀ {pre : List Bytes} {l : Bytes} {post : List Bytes},
    IsLines (pre ++ l :: post) → ∀ k ∈ pre, Complete k
  | [], _, _, _, k, hk => absurd hk List.not_mem_nil
  | p :: pre, l, post, h, k, hk => by
      have hp : Complete p := by
        cases pre <;> cases h <;> assumption
      rcases List.mem_cons.1 hk with rfl | hk
      · exact hp
      · exact IsLines.complete (IsLines.tail h) k hk

/-- What precedes a line that is not the first ends in a newline. -/
theorem IsLines.before {pre : List Bytes} {l : Bytes} {post : List Bytes}
    (h : IsLines (pre ++ l :: post)) : pre = [] ∨ ∃ body, pre.flatten = body ++ [newline] := by
  rcases List.eq_nil_or_concat pre with rfl | ⟨init, k, rfl⟩
  · exact Or.inl rfl
  · obtain ⟨body, rfl, _⟩ := h.complete k (by simp)
    exact Or.inr ⟨init.flatten ++ body, by simp⟩

/-- A line has no newline before its last byte. -/
theorem IsLines.notMem_take {l : Bytes} {ls : List Bytes} (h : IsLines (l :: ls)) {k : Nat}
    (hk : k < l.length) : newline ∉ l.take k := by
  cases h with
  | cut _ hl => exact fun hm => hl (List.mem_of_mem_take hm)
  | cons hl _ =>
      obtain ⟨body, rfl, hbody⟩ := hl
      have hle : k ≤ body.length := by simp at hk; omega
      rw [List.take_append_of_le_length hle]
      exact fun hm => hbody (List.mem_of_mem_take hm)

theorem IsLines.drop : ∀ {pre post : List Bytes}, IsLines (pre ++ post) → IsLines post
  | [], _, h => h
  | _ :: _, _, h => IsLines.drop (IsLines.tail h)

/-- A file is valid UTF-8 iff each of its lines is. -/
theorem fromUtf8_lines : ∀ {ls : List Bytes}, IsLines ls →
    ((fromUtf8 ls.flatten).isSome ↔ ∀ l ∈ ls, (fromUtf8 l).isSome)
  | [], _ => by simp [fromUtf8, decode, decodeFrom]
  | [l], _ => by simp
  | l :: m :: ls, h => by
      have ih := fromUtf8_lines h.tail
      cases h with
      | cons hl hls =>
          obtain ⟨body, rfl, _⟩ := hl
          have hdec : decode ((body ++ [newline]) :: m :: ls).flatten
              = decode (body ++ [newline]) ++ decode (m :: ls).flatten := by
            simpa [decode] using decodeFrom_newline [] body (m :: ls).flatten
          simp only [fromUtf8_isSome] at ih ⊢
          rw [hdec, List.all_append, Bool.and_eq_true, ih]
          simp

theorem fromUtf8_splitLines {bs : Bytes} (h : (fromUtf8 bs).isSome) :
    ∀ l ∈ splitLines bs, (fromUtf8 l).isSome :=
  (fromUtf8_lines (splitLines_isLines bs)).1 (by rwa [splitLines_flatten])

/-- The line a byte offset falls into. -/
theorem exists_line_at : ∀ {ls : List Bytes} {m : Nat}, m < ls.flatten.length →
    ∃ pre l post, ls = pre ++ l :: post ∧ pre.flatten.length ≤ m ∧
      m < pre.flatten.length + l.length
  | [], m, h => by simp at h
  | l :: ls, m, h => by
      by_cases hm : m < l.length
      · exact ⟨[], l, ls, rfl, by simp, by simpa using hm⟩
      · have hlen : m - l.length < ls.flatten.length := by simp at h hm ⊢; omega
        obtain ⟨pre, l', post, rfl, h₁, h₂⟩ := exists_line_at hlen
        exact ⟨l :: pre, l', post, rfl, by simp at h₁ ⊢; omega, by simp at h₂ ⊢; omega⟩

/-! ## Blanks -/

/-- `char::is_whitespace`: the Unicode property `White_Space`. -/
def isWhitespace (c : Char) : Bool :=
  let n := c.toNat
  (9 ≤ n && n ≤ 13) || n == 32 || n == 0x85 || n == 0xA0 || n == 0x1680 ||
    (0x2000 ≤ n && n ≤ 0x200A) || n == 0x2028 || n == 0x2029 || n == 0x202F ||
    n == 0x205F || n == 0x3000

/-- `str::trim`. -/
def trim (s : Str) : Str :=
  ((s.dropWhile isWhitespace).reverse.dropWhile isWhitespace).reverse

/-- `str::rfind('\n')`: the byte offset of the last newline. -/
def rfindNewline : Str → Option Nat
  | [] => none
  | c :: cs =>
      match rfindNewline cs with
      | some p => some (p + c.utf8Size)
      | none => if c = '\n' then some 0 else none

theorem rfindNewline_append_newline : ∀ {s t : Str}, '\n' ∉ t → (∀ c ∈ s, c.utf8Size = 1) →
    rfindNewline (s ++ '\n' :: t) = some s.length
  | [], t, ht, _ => by
      have hnone : rfindNewline t = none := by
        induction t with
        | nil => rfl
        | cons c cs ih =>
            simp only [List.mem_cons, not_or] at ht
            simp [rfindNewline, ih ht.2, Ne.symm ht.1]
      simp [rfindNewline, hnone]
  | c :: s, t, ht, hs => by
      have ih := rfindNewline_append_newline ht fun d hd => hs d (List.mem_cons_of_mem _ hd)
      simp [rfindNewline, ih, hs c List.mem_cons_self]

/-- The last newline of an ASCII text, by the byte. -/
theorem rfindNewline_ascii {bs cs : Bytes} (h : isAscii (bs ++ newline :: cs))
    (hcs : newline ∉ cs) :
    rfindNewline (fromUtf8Lossy (bs ++ newline :: cs)) = some bs.length := by
  obtain ⟨hbs, htail⟩ := isAscii_append.1 h
  have hnl : scalar [newline] = '\n' := by decide
  rw [fromUtf8Lossy_ascii h, List.map_append, List.map_cons, hnl, rfindNewline_append_newline]
  · simp
  · intro hmem
    obtain ⟨b, hb, hbn⟩ := List.mem_map.1 hmem
    have hb' := (scalar_ascii_newline (htail b (List.mem_cons_of_mem _ hb))).1 hbn
    exact hcs (hb' ▸ hb)
  · intro c hc
    obtain ⟨b, hb, rfl⟩ := List.mem_map.1 hc
    exact scalar_ascii_size (hbs b hb)

theorem rfindNewline_none : ∀ {s : Str}, '\n' ∉ s → rfindNewline s = none
  | [], _ => rfl
  | c :: s, h => by
      simp only [List.mem_cons, not_or] at h
      simp [rfindNewline, rfindNewline_none h.2, Ne.symm h.1]

theorem rfindNewline_ascii_none {bs : Bytes} (h : isAscii bs) (hbs : newline ∉ bs) :
    rfindNewline (fromUtf8Lossy bs) = none := by
  rw [fromUtf8Lossy_ascii h]
  apply rfindNewline_none
  intro hmem
  obtain ⟨b, hb, hbn⟩ := List.mem_map.1 hmem
  exact hbs ((scalar_ascii_newline (h b hb)).1 hbn ▸ hb)

end Text

end Fsmon
