/-
# `Fsmon.Security` — the path blacklist, as text and as paths

`check_path_allowed` compares the beginning of a text; a blocked path is meant
with all that is below it, by components.  The two differ where the text ends
inside a component, and where the path is spelled in another way.

    components     the parts between the slashes, without the empty ones and `.`
    CutAt          the text of the blocked path, up to the end of a part
    Respelt        an initial part of the path is the blocked one in another spelling
    within_iff     a path is in a blocked subtree in one of these two ways
    check_path_allowed_exact_iff   when the check is right
-/
import Fsmon.Monitor.Socket
import Fsmon.Text.Encode

namespace Fsmon.Security

open Text

def slash : UInt8 := 0x2F
def dot : UInt8 := 0x2E

/-! ## Paths -/

/-- The parts of `Path::components` behind the root: empty ones and `.` are dropped, `..` is not. -/
def components (p : Bytes) : List Bytes :=
  (p.splitOn slash).filter fun c => decide (c ≠ [] ∧ c ≠ [dot])

/-- An absolute path, in any spelling. -/
structure AbsolutePath where
  bytes : Bytes
  absolute : bytes.head? = some slash

/-- An entry of the user's list. -/
structure BlockedPath where
  text : Str
  absolute : text = [] ∨ text.head? = some '/'

/-! ## The check -/

/-- Check if a path is allowed for monitoring: the message when it is not. -/
def check_path_allowed (path : Bytes) (user_blocked : List Str) : Option Str :=
  let path_str := fromUtf8Lossy path
  match DEFAULT_BLOCKED.find? fun b => b.1.toList.isPrefixOf path_str with
  | some b => some ("Path '".toList ++ path_str ++ "' is blocked: ".toList ++ b.2.toList)
  | none =>
      if user_blocked.any fun blocked => !blocked.isEmpty && blocked.isPrefixOf path_str then
        some ("Path '".toList ++ path_str ++ "' is blocked by user configuration".toList)
      else none

/-- The daemon checks resolved paths, and with no list of the user's. -/
theorem check_path_allowed_eq (p : PathBuf) :
    Fsmon.check_path_allowed p = check_path_allowed p.toBytes [] := by
  unfold Fsmon.check_path_allowed check_path_allowed PathBuf.display
  dsimp only
  cases DEFAULT_BLOCKED.find? fun b => b.1.toList.isPrefixOf (fromUtf8Lossy p.toBytes) with
  | none => rfl
  | some b => rfl

/-- Everything that is blocked. -/
def blacklist (user_blocked : List Str) : List Str :=
  DEFAULT_BLOCKED.map (fun b => b.1.toList) ++ user_blocked.filter fun b => !b.isEmpty

/-- The text of the path begins with the blocked one. -/
def Leads (b : Str) (p : Bytes) : Prop := b <+: fromUtf8Lossy p

instance (b : Str) (p : Bytes) : Decidable (Leads b p) := inferInstanceAs (Decidable (_ <+: _))

theorem check_path_allowed_isSome (p : Bytes) (user_blocked : List Str) :
    (check_path_allowed p user_blocked).isSome ↔ ∃ b ∈ blacklist user_blocked, Leads b p := by
  have hdefault : (∃ b ∈ DEFAULT_BLOCKED.map (fun b => b.1.toList), Leads b p) ↔
      (DEFAULT_BLOCKED.find? fun b => b.1.toList.isPrefixOf (fromUtf8Lossy p)).isSome := by
    simp only [List.find?_isSome, List.mem_map, exists_exists_and_eq_and, Leads,
      List.isPrefixOf_iff_prefix]
  have huser : (∃ b ∈ user_blocked.filter (fun b => !b.isEmpty), Leads b p) ↔
      (user_blocked.any fun b => !b.isEmpty && b.isPrefixOf (fromUtf8Lossy p)) = true := by
    simp only [Leads, List.any_eq_true, List.mem_filter, Bool.and_eq_true, List.isPrefixOf_iff_prefix,
      and_assoc]
  simp only [blacklist, List.mem_append, or_and_right, exists_or]
  rw [hdefault, huser, check_path_allowed]
  cases DEFAULT_BLOCKED.find? fun b => b.1.toList.isPrefixOf (fromUtf8Lossy p) with
  | some b => simp
  | none =>
      simp only [Option.isSome_none, Bool.false_eq_true, false_or]
      split
      · rename_i h
        exact iff_of_true rfl h
      · rename_i h
        exact iff_of_false (by simp) h

/-- The path is the blocked one, or below it. -/
def Within (b : Str) (p : Bytes) : Prop := components (encode b) <+: components p

instance (b : Str) (p : Bytes) : Decidable (Within b p) := inferInstanceAs (Decidable (_ <+: _))

/-! ## Parts -/

@[simp] theorem components_append_slash (x y : Bytes) :
    components (x ++ slash :: y) = components x ++ components y := by
  rw [components, List.splitOn_append_cons_self, List.filter_append]
  rfl

theorem components_part {s : Bytes} (h : slash ∉ s) :
    components s = if s = [] ∨ s = [dot] then [] else [s] := by
  rw [components, List.splitOn_eq_singleton h]
  by_cases hs : s = [] ∨ s = [dot]
  · rw [if_pos hs]
    rcases hs with rfl | rfl <;> rfl
  · rw [if_neg hs]
    rw [not_or] at hs
    simp [hs]

theorem encode_append_slash (s b : Str) : encode (s ++ '/' :: b) = encode s ++ slash :: encode b := by
  rw [encode, List.flatMap_append]
  rfl

/-- The parts of a path as the library keeps it: not empty, not `.`, and without a slash. -/
def IsPlain (p : PathBuf) : Prop := ∀ c ∈ p, slash ∉ c ∧ c ≠ [] ∧ c ≠ [dot]

instance (p : PathBuf) : Decidable (IsPlain p) := inferInstanceAs (Decidable (∀ c ∈ p, _))

/-- Such a path has the parts it is written with. -/
theorem components_toBytes {p : PathBuf} (h : IsPlain p) : components p.toBytes = p := by
  have hparts : ∀ q : PathBuf, IsPlain q → components (q.flatMap fun c => slash :: c) = q := by
    intro q
    induction q with
    | nil =>
        intro _
        rfl
    | cons c q ih =>
        intro hq
        obtain ⟨hslash, hempty, hdot⟩ := hq c List.mem_cons_self
        have hrest := ih fun d hd => hq d (List.mem_cons_of_mem c hd)
        have hc : components c = [c] := by
          rw [components_part hslash, if_neg (not_or.2 ⟨hempty, hdot⟩)]
        cases q with
        | nil =>
            rw [List.flatMap_cons, List.flatMap_nil, List.append_nil]
            exact (components_append_slash [] c).trans hc
        | cons d q =>
            have hsplit : (c :: d :: q).flatMap (fun e => slash :: e) =
                [] ++ slash :: (c ++ slash :: (d ++ q.flatMap fun e => slash :: e)) := by
              simp
            have hstart : components ((d :: q).flatMap fun e => slash :: e) =
                components (d ++ q.flatMap fun e => slash :: e) := components_append_slash [] _
            rw [hsplit, components_append_slash, components_append_slash, hc, ← hstart, hrest]
            rfl
  cases p with
  | nil => rfl
  | cons c p => exact hparts (c :: p) h

theorem lossy_append_slash (x y : Bytes) :
    fromUtf8Lossy (x ++ slash :: y) = fromUtf8Lossy x ++ '/' :: fromUtf8Lossy y := by
  have hslash : decode (slash :: y) = some '/' :: decode y := rfl
  rw [fromUtf8Lossy, decode_append_ascii (by decide), hslash, List.map_append]
  rfl

/-- A character of ASCII in the text stands in the bytes. -/
theorem mem_of_mem_lossy {c : Char} (hzero : c ≠ '\x00') (hc : c.toNat < 128) {q : Bytes}
    (h : c ∈ fromUtf8Lossy q) : UInt8.ofNat c.toNat ∈ q := by
  obtain ⟨o, ho, hget⟩ := List.mem_map.1 h
  cases o with
  | none =>
      rw [Option.getD_none] at hget
      rw [← hget] at hc
      exact absurd hc (by decide)
  | some d =>
      rw [Option.getD_some] at hget
      exact ascii_mem_of_decode hzero hc (hget ▸ ho)

theorem slash_notMem_lossy {q : Bytes} (h : slash ∉ q) : '/' ∉ fromUtf8Lossy q :=
  fun hmem => h (mem_of_mem_lossy (by decide) (by decide) hmem)

theorem lossy_eq_nil {q : Bytes} (h : fromUtf8Lossy q = []) : q = [] := by
  by_contra hne
  exact @decodeFrom_ne_nil [] q (.inr hne) (List.map_eq_nil_iff.1 h)

/-- A text that begins with a dot begins with the dot's byte. -/
theorem dot_of_lossy {q : Bytes} {t : Str} (h : fromUtf8Lossy q = '.' :: t) : ∃ q', q = dot :: q' := by
  have hmem : dot ∈ q := mem_of_mem_lossy (c := '.') (by decide) (by decide) (h ▸ List.mem_cons_self)
  obtain ⟨l, r, rfl, hl⟩ := List.eq_append_cons_of_mem hmem
  cases l with
  | nil => exact ⟨r, rfl⟩
  | cons b l =>
      -- the first dot is not emitted before what stands in front of it
      exfalso
      rw [fromUtf8Lossy, decode_append_ascii (by decide), List.map_append] at h
      cases hfront : (decode (b :: l)).map (·.getD '\uFFFD') with
      | nil => exact absurd (lossy_eq_nil hfront) (List.cons_ne_nil _ _)
      | cons c cs =>
          rw [hfront, List.cons_append, List.cons.injEq] at h
          refine hl (mem_of_mem_lossy (c := '.') (by decide) (by decide) ?_)
          rw [fromUtf8Lossy, hfront, h.1]
          exact List.mem_cons_self

theorem lossy_eq_dot {q : Bytes} (h : fromUtf8Lossy q = ['.']) : q = [dot] := by
  obtain ⟨q', rfl⟩ := dot_of_lossy h
  have hrest : fromUtf8Lossy (dot :: q') = '.' :: fromUtf8Lossy q' := rfl
  rw [hrest, List.cons.injEq] at h
  rw [lossy_eq_nil h.2]

/-- The parts before the first slash are the same, and what is behind it. -/
theorem first_part_eq {s t x y : Str} (hs : '/' ∉ s) (ht : '/' ∉ t) (h : s ++ '/' :: x = t ++ '/' :: y) :
    s = t ∧ x = y := by
  have hsplit := congrArg (List.splitOn '/') h
  rw [List.splitOn_append_cons_self_of_not_mem hs, List.splitOn_append_cons_self_of_not_mem ht] at hsplit
  obtain rfl := (List.cons.inj hsplit).1
  exact ⟨rfl, (List.cons.inj (List.append_cancel_left h)).2⟩

/-- A part that is dropped, as text and as bytes. -/
theorem encode_lossy_dropped {q : Bytes} (h : q = [] ∨ q = [dot]) : encode (fromUtf8Lossy q) = q := by
  rcases h with rfl | rfl <;> rfl

theorem encode_injective {s t : Str} (h : encode s = encode t) : s = t := by
  have hread := congrArg fromUtf8 h
  rw [fromUtf8_encode, fromUtf8_encode] at hread
  exact Option.some.inj hread

theorem encode_dropped_iff {s : Str} : encode s = [] ∨ encode s = [dot] ↔ s = [] ∨ s = ['.'] := by
  constructor
  · rintro (h | h)
    · exact .inl (encode_injective (show encode s = encode [] from h))
    · exact .inr (encode_injective (show encode s = encode ['.'] from h))
  · rintro (rfl | rfl)
    · exact .inl rfl
    · exact .inr rfl

theorem lossy_dropped {q : Bytes} (h : fromUtf8Lossy q = [] ∨ fromUtf8Lossy q = ['.']) :
    q = [] ∨ q = [dot] := h.imp lossy_eq_nil lossy_eq_dot

/-- Where the components of two paths with the same first text agree, the first bytes do. -/
theorem first_component {s : Str} {q : Bytes} (hsq : s = fromUtf8Lossy q) (hq : slash ∉ q)
    {x y : List Bytes} (h : components (encode s) ++ x <+: components q ++ y) :
    encode s = q ∧ x <+: y := by
  have hs : slash ∉ encode s := ascii_notMem_encode (by decide) (hsq ▸ slash_notMem_lossy hq)
  rw [components_part hs, components_part hq] at h
  by_cases hdropped : q = [] ∨ q = [dot]
  · have heq : encode s = q := hsq ▸ encode_lossy_dropped hdropped
    rw [heq, if_pos hdropped] at h
    exact ⟨heq, h⟩
  · rw [if_neg hdropped, if_neg fun hd => hdropped (lossy_dropped (hsq ▸ encode_dropped_iff.1 hd))] at h
    exact List.cons_prefix_cons.1 h

/-- The part before the first slash. -/
theorem first_part (p : Bytes) : ∃ q rest, p = q ++ rest ∧ slash ∉ q ∧
    (rest = [] ∨ rest.head? = some slash) := by
  by_cases h : slash ∈ p
  · obtain ⟨q, p', rfl, hq⟩ := List.eq_append_cons_of_mem h
    exact ⟨q, slash :: p', rfl, hq, .inr rfl⟩
  · exact ⟨p, [], (List.append_nil p).symm, h, .inl rfl⟩

theorem lossy_append {q rest : Bytes} (h : rest = [] ∨ rest.head? = some slash) :
    fromUtf8Lossy (q ++ rest) = fromUtf8Lossy q ++ fromUtf8Lossy rest := by
  rcases h with rfl | h
  · rw [List.append_nil]
    exact (List.append_nil _).symm
  · obtain ⟨r, rfl⟩ := List.head?_eq_some_iff.1 h
    rw [lossy_append_slash]
    rfl

theorem components_append {q rest : Bytes} (h : rest = [] ∨ rest.head? = some slash) :
    components (q ++ rest) = components q ++ components rest := by
  rcases h with rfl | h
  · rw [List.append_nil]
    exact (List.append_nil _).symm
  · obtain ⟨r, rfl⟩ := List.head?_eq_some_iff.1 h
    rw [components_append_slash]
    rfl

/-! ## Where the two readings agree -/

/-- The last part of a text, maybe empty. -/
def last_part (b : Str) : Option Str := (b.splitOn '/').getLast?

theorem last_part_append_slash (s b : Str) : last_part (s ++ '/' :: b) = last_part b := by
  rw [last_part, List.splitOn_append_cons_self, List.getLast?_append, last_part]
  cases h : (b.splitOn '/').getLast? with
  | some t => rfl
  | none => exact absurd (List.getLast?_eq_none_iff.1 h) (List.splitOn_ne_nil _ _)

theorem last_part_of_notMem {b : Str} (h : '/' ∉ b) : last_part b = some b := by
  rw [last_part, List.splitOn_eq_singleton h]
  rfl

/-- The blocked text ends with a part, and the path with it or at a slash; or its last part is one
that is dropped. -/
def Boundary (b : Str) (rest : Bytes) : Prop :=
  rest = [] ∨ rest.head? = some slash ∨ last_part b = some [] ∨ last_part b = some ['.']

/-- The path goes on behind the blocked one at a boundary. -/
def CutAt (b : Str) (p : Bytes) : Prop := ∃ rest, p = encode b ++ rest ∧ Boundary b rest

theorem CutAt.append_slash {s b : Str} {p : Bytes} (h : CutAt b p) :
    CutAt (s ++ '/' :: b) (encode s ++ slash :: p) := by
  obtain ⟨rest, rfl, hb⟩ := h
  refine ⟨rest, ?_, ?_⟩
  · rw [encode_append_slash, List.append_assoc, List.cons_append]
  · rwa [Boundary, last_part_append_slash]

/-- As `cut_of_leads`, for a single part. -/
theorem cut_of_last {b : Str} {p : Bytes} (hslash : '/' ∉ b) (hlead : Leads b p) (hwithin : Within b p) :
    CutAt b p := by
  obtain ⟨q, rest, rfl, hq, hrest⟩ := first_part p
  have hfirst : b <+: fromUtf8Lossy q := by
    rw [Leads, lossy_append hrest] at hlead
    rcases List.prefix_or_prefix_of_prefix hlead (List.prefix_append _ _) with h | ⟨u, rfl⟩
    · exact h
    · have hu := (List.prefix_append_right_inj _).1 hlead
      cases u with
      | nil => rw [List.append_nil]
      | cons c u =>
          -- what is behind the part begins with a slash
          exfalso
          rcases hrest with rfl | hhead
          · cases List.prefix_nil.1 hu
          · obtain ⟨r, rfl⟩ := List.head?_eq_some_iff.1 hhead
            have hc : c = '/' := (List.cons_prefix_cons.1 hu).1
            exact hslash (hc ▸ List.mem_append_right _ List.mem_cons_self)
  by_cases hdropped : b = [] ∨ b = ['.']
  · rcases hdropped with rfl | rfl
    · exact ⟨_, rfl, .inr (.inr (.inl rfl))⟩
    · obtain ⟨t, ht⟩ := hfirst
      obtain ⟨q', rfl⟩ := dot_of_lossy ht.symm
      exact ⟨q' ++ rest, rfl, .inr (.inr (.inr rfl))⟩
  · have hkept : ¬ (q = [] ∨ q = [dot]) := by
      rintro (rfl | rfl)
      · exact hdropped (.inl (List.prefix_nil.1 hfirst))
      · rcases List.prefix_cons_iff.1 (show b <+: ['.'] from hfirst) with h | ⟨t, rfl, ht⟩
        · exact hdropped (.inl h)
        · exact hdropped (.inr (by rw [List.prefix_nil.1 ht]))
    rw [Within, components_append hrest, components_part hq, if_neg hkept,
      components_part (ascii_notMem_encode (by decide) hslash), if_neg (mt encode_dropped_iff.1 hdropped)]
      at hwithin
    obtain ⟨rfl, _⟩ := List.cons_prefix_cons.1 hwithin
    exact ⟨rest, rfl, hrest.imp_right .inl⟩

/-- The text leads and the components do: the path is cut at the end of the text. -/
theorem cut_of_leads : ∀ (n : Nat) (b : Str) (p : Bytes), b.length ≤ n → Leads b p → Within b p →
    CutAt b p := by
  intro n
  induction n with
  | zero =>
      intro b p hn _ _
      obtain rfl := List.length_eq_zero_iff.1 (Nat.le_zero.1 hn)
      exact ⟨p, rfl, .inr (.inr (.inl rfl))⟩
  | succ n ih =>
      intro b p hn hlead hwithin
      obtain ⟨t, ht⟩ := hlead
      by_cases hslash : '/' ∈ b
      · -- the first part of both, and what is behind the slash
        obtain ⟨s, b', rfl, hs⟩ := List.eq_append_cons_of_mem hslash
        have hp : slash ∈ p := mem_of_mem_lossy (c := '/') (by decide) (by decide) (ht ▸ by simp)
        obtain ⟨q, p', rfl, hq⟩ := List.eq_append_cons_of_mem hp
        rw [lossy_append_slash, List.append_assoc, List.cons_append] at ht
        obtain ⟨hsq, hrest⟩ := first_part_eq hs (slash_notMem_lossy hq) ht
        rw [Within, encode_append_slash, components_append_slash, components_append_slash] at hwithin
        obtain ⟨rfl, hwithin'⟩ := first_component hsq hq hwithin
        rw [List.length_append, List.length_cons] at hn
        exact (ih b' p' (by omega) ⟨t, hrest⟩ hwithin').append_slash
      · exact cut_of_last hslash ⟨t, ht⟩ hwithin

/-- A cut path leads as text and by components. -/
theorem CutAt.leads {b : Str} {p : Bytes} (h : CutAt b p) : Leads b p := by
  obtain ⟨rest, rfl, _⟩ := h
  refine ⟨fromUtf8Lossy rest, ?_⟩
  rw [fromUtf8Lossy, fromUtf8Lossy, decode_encode_append, List.map_append, List.map_map]
  exact congrArg (· ++ _) (List.map_id b).symm

theorem within_of_cut : ∀ (n : Nat) (b : Str) (rest : Bytes), b.length ≤ n → Boundary b rest →
    Within b (encode b ++ rest) := by
  intro n
  induction n with
  | zero =>
      intro b rest hn _
      obtain rfl := List.length_eq_zero_iff.1 (Nat.le_zero.1 hn)
      exact List.nil_prefix
  | succ n ih =>
      intro b rest hn hb
      by_cases hslash : '/' ∈ b
      · obtain ⟨s, b', rfl, hs⟩ := List.eq_append_cons_of_mem hslash
        rw [Boundary, last_part_append_slash] at hb
        rw [List.length_append, List.length_cons] at hn
        have hrest := ih b' rest (by omega) hb
        rw [Within, encode_append_slash, components_append_slash, List.append_assoc, List.cons_append,
          components_append_slash]
        exact (List.prefix_append_right_inj _).2 hrest
      · rw [Boundary, last_part_of_notMem hslash, Option.some.injEq, Option.some.injEq] at hb
        rw [Within]
        rcases hb with rfl | hb | rfl | rfl
        · rw [List.append_nil]
        · obtain ⟨rest', rfl⟩ := List.head?_eq_some_iff.1 hb
          rw [components_append_slash]
          exact List.prefix_append _ _
        · exact List.nil_prefix
        · exact List.nil_prefix

theorem CutAt.within {b : Str} {p : Bytes} (h : CutAt b p) : Within b p := by
  obtain ⟨rest, rfl, hb⟩ := h
  exact within_of_cut b.length b rest (Nat.le_refl _) hb

/-- Below a blocked path, with its text in front: exactly where the text ends at a boundary. -/
theorem cutAt_iff {b : Str} {p : Bytes} : CutAt b p ↔ Leads b p ∧ Within b p := by
  constructor
  · intro h
    exact ⟨h.leads, h.within⟩
  · rintro ⟨hlead, hwithin⟩
    exact cut_of_leads b.length b p (Nat.le_refl _) hlead hwithin

/-! ## Other spellings -/

/-- An initial part of the path, up to a slash or the end, is the blocked one in a spelling that the
text does not begin with. -/
def Respelt (b : Str) (p : Bytes) : Prop :=
  ¬ Leads b p ∧ ∃ q rest, p = q ++ rest ∧ (rest = [] ∨ rest.head? = some slash) ∧
    components q = components (encode b)

/-- Components that lead are those of an initial part of the path. -/
theorem initial_part : ∀ (n : Nat) (p : Bytes) (cs : List Bytes), p.length ≤ n →
    (p = [] ∨ p.head? = some slash) → cs <+: components p →
      ∃ q rest, p = q ++ rest ∧ (rest = [] ∨ rest.head? = some slash) ∧ components q = cs := by
  intro n
  induction n with
  | zero =>
      intro p cs hn _ hcs
      obtain rfl := List.length_eq_zero_iff.1 (Nat.le_zero.1 hn)
      exact ⟨[], [], rfl, .inl rfl, (List.prefix_nil.1 hcs).symm⟩
  | succ n ih =>
      intro p cs hn hp hcs
      cases cs with
      | nil => exact ⟨[], p, rfl, hp, rfl⟩
      | cons c cs =>
          rcases hp with rfl | hhead
          · cases List.prefix_nil.1 hcs
          obtain ⟨p, rfl⟩ := List.head?_eq_some_iff.1 hhead
          obtain ⟨s, tail, rfl, hs, htail⟩ := first_part p
          rw [List.length_cons, List.length_append] at hn
          have hwhole : components (slash :: (s ++ tail)) = components s ++ components tail :=
            (components_append_slash [] (s ++ tail)).trans (components_append htail)
          -- the part behind the slash, and what is left for the tail
          obtain ⟨ds, hds, htl⟩ : ∃ ds, components s ++ ds = c :: cs ∧ ds <+: components tail := by
            rw [hwhole] at hcs
            rw [components_part hs] at hcs ⊢
            split at hcs
            · rename_i hdropped
              exact ⟨c :: cs, by rw [if_pos hdropped]; rfl, hcs⟩
            · rename_i hkept
              obtain ⟨rfl, hrest⟩ := List.cons_prefix_cons.1 hcs
              exact ⟨cs, by rw [if_neg hkept]; rfl, hrest⟩
          obtain ⟨q, rest, rfl, hrest, hq⟩ := ih tail ds (by omega) htail htl
          have hqhead : q = [] ∨ q.head? = some slash := by
            cases q with
            | nil => exact .inl rfl
            | cons b q => exact .inr (htail.resolve_left (List.cons_ne_nil _ _))
          refine ⟨slash :: (s ++ q), rest, by simp, hrest, ?_⟩
          rw [← hds, ← hq]
          exact (components_append_slash [] (s ++ q)).trans (components_append hqhead)

/-- A path is in a blocked subtree by its text, or in another spelling. -/
theorem within_iff (b : Str) (p : AbsolutePath) : Within b p.bytes ↔ CutAt b p.bytes ∨ Respelt b p.bytes := by
  rw [cutAt_iff]
  constructor
  · intro hwithin
    by_cases hlead : Leads b p.bytes
    · exact .inl ⟨hlead, hwithin⟩
    · exact .inr ⟨hlead, initial_part _ _ _ (Nat.le_refl _) (.inr p.absolute) hwithin⟩
  · rintro (h | ⟨_, q, rest, heq, hrest, hq⟩)
    · exact h.2
    · rw [heq, Within, components_append hrest, hq]
      exact List.prefix_append _ _

/-! ## When the check is right -/

/-- The path is in the subtree of `/proc/self` or of a path of the user's list. -/
def InBlockedSubtree (p : AbsolutePath) (user_blocked : List BlockedPath) : Prop :=
  ∃ b ∈ blacklist (user_blocked.map BlockedPath.text), Within b p.bytes

/-- The check answers as the subtrees do. -/
def BlocksSubtrees (p : AbsolutePath) (user_blocked : List BlockedPath) : Prop :=
  (check_path_allowed p.bytes (user_blocked.map BlockedPath.text)).isSome ↔ InBlockedSubtree p user_blocked

/-- Two answers agree where one part of the second is in the first. -/
theorem agree_iff {lead cut respelt : Prop} (hlead : cut → lead) :
    (lead ↔ cut ∨ respelt) ↔ cut ∨ (¬ lead ∧ ¬ respelt) ∨ (lead ∧ respelt) := by
  constructor
  · intro h
    by_cases hl : lead
    · rcases h.1 hl with hc | hr
      · exact .inl hc
      · exact .inr (.inr ⟨hl, hr⟩)
    · exact .inr (.inl ⟨hl, fun hr => hl (h.2 (.inr hr))⟩)
  · rintro (hc | ⟨hl, hr⟩ | ⟨hl, hr⟩)
    · exact iff_of_true (hlead hc) (.inl hc)
    · exact iff_of_false hl fun h => h.elim (fun hc => hl (hlead hc)) hr
    · exact iff_of_true hl (.inr hr)

/-- **When the check is right**: a blocked text leads and ends at a boundary of the path; or none
leads, and the path is no other spelling; or a text that leads wrongly makes up for a spelling that
is missed. -/
theorem check_path_allowed_exact_iff (p : AbsolutePath) (user_blocked : List BlockedPath) :
    BlocksSubtrees p user_blocked ↔
      (∃ b ∈ blacklist (user_blocked.map BlockedPath.text), CutAt b p.bytes) ∨
      ((¬ ∃ b ∈ blacklist (user_blocked.map BlockedPath.text), Leads b p.bytes) ∧
        ¬ ∃ b ∈ blacklist (user_blocked.map BlockedPath.text), Respelt b p.bytes) ∨
      ((∃ b ∈ blacklist (user_blocked.map BlockedPath.text), Leads b p.bytes) ∧
        ∃ b ∈ blacklist (user_blocked.map BlockedPath.text), Respelt b p.bytes) := by
  have hsubtree : InBlockedSubtree p user_blocked ↔
      (∃ b ∈ blacklist (user_blocked.map BlockedPath.text), CutAt b p.bytes) ∨
        ∃ b ∈ blacklist (user_blocked.map BlockedPath.text), Respelt b p.bytes := by
    simp only [InBlockedSubtree, within_iff, and_or_left, exists_or]
  have hlead : (∃ b ∈ blacklist (user_blocked.map BlockedPath.text), CutAt b p.bytes) →
      ∃ b ∈ blacklist (user_blocked.map BlockedPath.text), Leads b p.bytes := by
    rintro ⟨b, hb, hcut⟩
    exact ⟨b, hb, hcut.leads⟩
  rw [BlocksSubtrees, hsubtree, check_path_allowed_isSome]
  exact agree_iff hlead

/-- `/etc/secret`, blocked by the user. -/
def etcSecret : BlockedPath := ⟨"/etc/secret".toList, .inr rfl⟩

/-- `/etc/secretary`. -/
def etcSecretary : AbsolutePath := ⟨encode "/etc/secretary".toList, rfl⟩

/-- `//proc/self`. -/
def procSelf : AbsolutePath := ⟨encode "//proc/self".toList, rfl⟩

/-- A sibling is blocked, and another spelling of `/proc/self` is not. -/
theorem check_path_allowed_misses :
    ¬ BlocksSubtrees etcSecretary [etcSecret] ∧ ¬ BlocksSubtrees procSelf [] := by
  constructor
  · intro h
    obtain ⟨b, hb, hwithin⟩ := h.1 (by decide)
    revert b
    decide
  · intro h
    have hwithin : Within "/proc/self".toList procSelf.bytes := by decide
    exact absurd (h.2 ⟨_, by decide, hwithin⟩) (by decide)

end Fsmon.Security
