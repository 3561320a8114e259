/-
# `Fsmon.Monitor.Losses` — what a batch delivers, and what it says it lost

A batch goes through `decode_events`, `expand_renames` and the loop over the
expanded events.  Each stage is the same function of every event, so a batch is
the concatenation of what its events deliver (`expand_decode`), and the counters
grow by sums over the batch (`reported_process_events`).

Proved here:
- `renames_conserved_iff`: every rename of a batch is split into its halves or
  counted as unresolved exactly when every rename has a source that resolves;
- `losses_observed_iff`: the overflow warning and the count of unread info
  records are right exactly when the batch has no overflow event and no resolved
  rename with an unread record.
-/
import Fsmon.Monitor.Frames
import Mathlib.Algebra.Order.BigOperators.Group.List
import Mathlib.Algebra.Order.Ring.Nat

namespace Fsmon

namespace FidEvent

def is_rename (ev : FidEvent) : Bool := ev.mask &&& FAN_RENAME ≠ 0

def is_overflow (ev : FidEvent) : Bool := ev.mask &&& FAN_Q_OVERFLOW ≠ 0

/-- One move of a rename: the pid and the other mask bits, and the bit of the half. -/
def move (ev : FidEvent) (bit : Mask) (path : PathBuf) : DecodedEvent :=
  ⟨(ev.mask &&& ~~~FAN_RENAME) ||| bit, ev.pid, path, none, none, 0⟩

/-- The moves a rename stands for: one for each half that resolves. -/
def moves (ev : FidEvent) : List DecodedEvent :=
  (ev.path.map (ev.move FAN_MOVED_FROM)).toList ++ (ev.target.map (ev.move FAN_MOVED_TO)).toList

/-- An event that is no rename, as it is. -/
def passed (ev : FidEvent) : List DecodedEvent :=
  (ev.path.map fun path =>
    ⟨ev.mask, ev.pid, path, none, ev.fs_error, ev.unknown_info_records⟩).toList

/-- What an event should deliver. -/
def expected (ev : FidEvent) : List DecodedEvent := if ev.is_rename then ev.moves else ev.passed

/-- Neither half of the rename resolves. -/
def is_unplaced (ev : FidEvent) : Bool := ev.is_rename && ev.path.isNone && ev.target.isNone

/-- What an event does deliver. -/
def delivered (ev : FidEvent) : List DecodedEvent := if ev.path.isSome then ev.expected else []

theorem delivered_sublist (ev : FidEvent) : ev.delivered.Sublist ev.expected := by
  rw [delivered]
  split
  · exact List.Sublist.refl _
  · exact List.nil_sublist _

/-- An event with a path, and a rename without one, deliver nothing different. -/
theorem delivered_eq {ev : FidEvent} (h : ev.is_rename = true → ev.path.isSome = true) :
    ev.delivered = ev.expected := by
  rw [delivered]
  split
  · rfl
  · rename_i hpath
    have hrename : ev.is_rename = false := by
      cases hr : ev.is_rename with
      | false => rfl
      | true => exact absurd (h hr) hpath
    have hnone : ev.path = none := by simpa using hpath
    simp [expected, passed, hrename, hnone]

/-- A half does not carry the rename bit. -/
theorem move_spent (ev : FidEvent) {bit : Mask} (hbit : bit &&& FAN_RENAME = 0) (path : PathBuf) :
    (ev.move bit path).mask &&& FAN_RENAME = 0 := by
  have hclear : (ev.mask &&& ~~~FAN_RENAME) &&& FAN_RENAME = 0 := by
    rw [BitVec.and_assoc, BitVec.and_comm (~~~FAN_RENAME), BitVec.and_not_self]
    exact BitVec.and_zero
  show ((ev.mask &&& ~~~FAN_RENAME) ||| bit) &&& FAN_RENAME = 0
  rw [BitVec.and_comm, BitVec.and_or_distrib_left, BitVec.and_comm _ bit, hbit, BitVec.and_comm,
    hclear]
  rfl

theorem expected_spent {ev : FidEvent} {d : DecodedEvent} (h : d ∈ ev.expected) :
    d.mask &&& FAN_RENAME = 0 := by
  rw [expected] at h
  split at h
  · rcases List.mem_append.1 h with h | h
    · obtain ⟨p, _, rfl⟩ := Option.map_eq_some_iff.1 (Option.mem_toList.1 h)
      exact ev.move_spent (by decide) p
    · obtain ⟨p, _, rfl⟩ := Option.map_eq_some_iff.1 (Option.mem_toList.1 h)
      exact ev.move_spent (by decide) p
  · rename_i hrename
    obtain ⟨p, _, rfl⟩ := Option.map_eq_some_iff.1 (Option.mem_toList.1 h)
    simpa [is_rename] using hrename

/-- The records an event delivers as unread. -/
def counted_records (ev : FidEvent) : Nat :=
  if ev.path.isSome && !ev.is_rename then ev.unknown_info_records else 0

/-- The records an event with a path carries. -/
def owed_records (ev : FidEvent) : Nat := if ev.path.isSome then ev.unknown_info_records else 0

theorem delivered_unparsed (ev : FidEvent) :
    (ev.delivered.map DecodedEvent.unparsed).sum = ev.counted_records := by
  unfold delivered counted_records expected
  cases hpath : ev.path with
  | none => rfl
  | some path =>
      cases hrename : ev.is_rename with
      | false => simp [passed, hpath]
      | true =>
          -- a half starts over at zero
          have hhalf : ∀ (bit : Mask) (o : Option PathBuf),
              ((o.map (ev.move bit)).toList.map DecodedEvent.unparsed).sum = 0 := by
            rintro bit (_ | p) <;> rfl
          simp only [Option.isSome_some, if_true, moves, List.map_append, List.sum_append, hhalf]
          rfl

/-- Only an overflow with a path delivers an overflow. -/
theorem delivered_overflow {ev : FidEvent} (hover : ev.is_overflow = true → ev.path = none)
    {d : DecodedEvent} (hd : d ∈ ev.delivered) : d.mask &&& FAN_Q_OVERFLOW = 0 := by
  rw [delivered] at hd
  split at hd
  · rename_i hpath
    have hmask : ev.mask &&& FAN_Q_OVERFLOW = 0 := by
      by_contra hne
      rw [hover (by simpa [is_overflow] using hne)] at hpath
      cases hpath
    have hmove : ∀ bit : Mask, bit &&& FAN_Q_OVERFLOW = 0 → ∀ p,
        (ev.move bit p).mask &&& FAN_Q_OVERFLOW = 0 := by
      intro bit hbit p
      show ((ev.mask &&& ~~~FAN_RENAME) ||| bit) &&& FAN_Q_OVERFLOW = 0
      rw [BitVec.and_comm, BitVec.and_or_distrib_left, BitVec.and_comm _ bit, hbit,
        BitVec.and_comm ev.mask, BitVec.and_comm, BitVec.and_assoc, hmask]
      simp
    rw [expected] at hd
    split at hd
    · rcases List.mem_append.1 hd with hd | hd
      · obtain ⟨p, _, rfl⟩ := Option.map_eq_some_iff.1 (Option.mem_toList.1 hd)
        exact hmove _ (by decide) p
      · obtain ⟨p, _, rfl⟩ := Option.map_eq_some_iff.1 (Option.mem_toList.1 hd)
        exact hmove _ (by decide) p
    · obtain ⟨p, _, rfl⟩ := Option.map_eq_some_iff.1 (Option.mem_toList.1 hd)
      exact hmask
  · cases hd

end FidEvent

/-! ## The two stages together -/

theorem decode_events_cons (ev : FidEvent) (events : List FidEvent) :
    decode_events (ev :: events) = (decode_event ev).toList ++ decode_events events := by
  rw [decode_events]
  cases h : decode_event ev with
  | none => rw [List.filterMap_cons_none h]; rfl
  | some d => rw [List.filterMap_cons_some h]; rfl

/-- One event through both stages; its source half is there, so a rename is not counted. -/
theorem expand_decode_event (ev : FidEvent) (rest : List DecodedEvent) :
    expand_renames ((decode_event ev).toList ++ rest) =
      (ev.delivered ++ (expand_renames rest).1, (expand_renames rest).2) := by
  unfold decode_event FidEvent.delivered
  cases hpath : ev.path with
  | none => rfl
  | some path =>
      simp only [Option.toList_some, List.singleton_append, expand_renames, Option.isSome_some,
        if_true]
      cases hrename : ev.is_rename with
      | true =>
          have hbit : ev.mask &&& FAN_RENAME ≠ 0 := by simpa [FidEvent.is_rename] using hrename
          simp only [FidEvent.expected, hrename, if_true, if_pos hbit, rename_halves, FidEvent.moves,
            hpath, Option.map_some, Option.toList_some]
          rfl
      | false =>
          have hbit : ¬ ev.mask &&& FAN_RENAME ≠ 0 := by simpa [FidEvent.is_rename] using hrename
          rw [if_neg hbit]
          simp [FidEvent.expected, hrename, FidEvent.passed, hpath]

/-- A batch delivers what its events deliver, in order; and no rename is counted. -/
theorem expand_decode : ∀ events : List FidEvent,
    expand_renames (decode_events events) = (events.flatMap FidEvent.delivered, 0) := by
  intro events
  induction events with
  | nil =>
      exact rfl
  | cons ev events ih =>
      rw [decode_events_cons, expand_decode_event, ih, List.flatMap_cons]

/-! ## What is reported -/

namespace Monitor

/-- The two loss counters and the overflow warnings. -/
def reported (m : Monitor) : (Nat × Nat) × Nat := (m.metrics.losses, m.overflow_warnings)

theorem reported_of_still {m m' : Monitor} (h : m'.still = m.still) : m'.reported = m.reported :=
  congrArg (fun p : Plan => (p.losses, p.overflow_warnings)) h

theorem reported_on_new_subdirectory (os : Os) (m : Monitor) (path : PathBuf) :
    (m.on_new_subdirectory os path).1.reported = m.reported := by
  obtain ⟨_, h⟩ := plan_on_new_subdirectory os m path
  exact congrArg (fun p : Plan => (p.losses, p.overflow_warnings)) h

section
variable [Sizefilter]

/-- Past the counters, an event reports nothing. -/
theorem reported_handle_event (os : Os) (m : Monitor) (raw : DecodedEvent) :
    (handle_event os m raw).1.reported = m.reported := by
  have h := still_handle_event os m raw
  split at h
  · exact (reported_of_still h).trans (reported_on_new_subdirectory os m raw.path)
  · exact reported_of_still h

/-- What one event adds: a warning for an overflow, its unread records otherwise. -/
theorem reported_process_event (os : Os) (m : Monitor) (raw : DecodedEvent) :
    (process_event os m raw).1.reported =
      if raw.mask &&& FAN_Q_OVERFLOW ≠ 0 then (m.metrics.losses, m.overflow_warnings + 1)
      else ((m.metrics.events_unresolved_rename, m.metrics.unparsed_info_records + raw.unparsed),
        m.overflow_warnings) := by
  rw [process_event]
  split
  · rfl
  · rw [reported_handle_event]
    split
    · rfl
    · rename_i hzero
      rw [show raw.unparsed = 0 by omega]
      rfl

/-- What a batch of expanded events adds. -/
theorem reported_process_events : ∀ (os : Nat → Os) (m : Monitor) (ds : List DecodedEvent),
    (∀ d ∈ ds, d.mask &&& FAN_Q_OVERFLOW = 0) →
    (process_events os m ds).1.reported =
      ((m.metrics.events_unresolved_rename,
        m.metrics.unparsed_info_records + (ds.map DecodedEvent.unparsed).sum), m.overflow_warnings)
  | _, _, [], _ => rfl
  | os, m, d :: ds, hover => by
      have hd : ¬ d.mask &&& FAN_Q_OVERFLOW ≠ 0 := by simpa using hover d List.mem_cons_self
      have hstep := reported_process_event (os 0) m d
      rw [if_neg hd] at hstep
      simp only [process_events, List.map_cons, List.sum_cons]
      rw [reported_process_events _ _ ds fun d' hd' => hover d' (List.mem_cons_of_mem _ hd')]
      simp only [reported, MetricsRegistry.losses, Prod.mk.injEq] at hstep ⊢
      obtain ⟨⟨hrenames, hrecords⟩, hwarnings⟩ := hstep
      exact ⟨⟨hrenames, by rw [hrecords, Nat.add_assoc]⟩, hwarnings⟩

end

end Monitor

/-! ## Renames -/

open Monitor

section
variable [Sizefilter]

/-- What a batch of parsed events should come to: each rename its moves, or one more on the
counter; every other event as it is. -/
structure RenamesConserved (os : Nat → Os) (m : Monitor) (events : List FidEvent) : Prop where
  stream : (expand_renames (decode_events events)).1 = events.flatMap FidEvent.expected
  spent : ∀ d ∈ (expand_renames (decode_events events)).1, d.mask &&& FAN_RENAME = 0
  counted : (process_event_batch os m (decode_events events)).1.metrics.events_unresolved_rename =
    m.metrics.events_unresolved_rename + events.countP FidEvent.is_unplaced

omit [Sizefilter] in
theorem expanded_spent (events : List FidEvent) :
    ∀ d ∈ (expand_renames (decode_events events)).1, d.mask &&& FAN_RENAME = 0 := by
  intro d hd
  rw [expand_decode] at hd
  obtain ⟨ev, _, hev⟩ := List.mem_flatMap.1 hd
  exact FidEvent.expected_spent (ev.delivered_sublist.subset hev)

/-- The loop over the expanded events leaves the counter of unresolved renames. -/
theorem renames_process_event : ∀ (os : Nat → Os) (m : Monitor) (ds : List DecodedEvent),
    (process_events os m ds).1.metrics.events_unresolved_rename = m.metrics.events_unresolved_rename
  | _, _, [] => rfl
  | os, m, d :: ds => by
      simp only [process_events]
      rw [renames_process_event]
      have hstep := reported_process_event (os 0) m d
      split at hstep
      all_goals
        simp only [reported, MetricsRegistry.losses, Prod.mk.injEq] at hstep
        exact hstep.1.1

/-- No rename of a decoded batch is ever counted: one without a path was dropped before. -/
theorem renames_process_event_batch (os : Nat → Os) (m : Monitor) (events : List FidEvent) :
    (process_event_batch os m (decode_events events)).1.metrics.events_unresolved_rename =
      m.metrics.events_unresolved_rename := by
  rw [process_event_batch]
  rw [expand_decode]
  exact renames_process_event ..

omit [Sizefilter] in
/-- Two batches of sublists that agree as a whole agree event by event. -/
theorem flatMap_eq_of_sublist {α β : Type} {f g : α → List β} (hfg : ∀ a, (f a).Sublist (g a)) :
    ∀ {as : List α}, as.flatMap f = as.flatMap g → ∀ a ∈ as, f a = g a
  | b :: as, h, a, ha => by
      rw [List.flatMap_cons, List.flatMap_cons] at h
      have hle : (as.flatMap f).length ≤ (as.flatMap g).length := by
        clear h ha
        induction as with
        | nil => exact Nat.le_refl _
        | cons c as ih =>
            rw [List.flatMap_cons, List.flatMap_cons, List.length_append, List.length_append]
            exact Nat.add_le_add (hfg c).length_le ih
      have hlen := congrArg List.length h
      rw [List.length_append, List.length_append] at hlen
      have hb : f b = g b := (hfg b).eq_of_length_le (by omega)
      rcases List.mem_cons.1 ha with rfl | ha
      · exact hb
      · rw [hb, List.append_cancel_left_eq] at h
        exact flatMap_eq_of_sublist hfg h a ha

/-- Renames are conserved exactly when the source of each resolves: a rename whose source is
unknown is dropped by the decoder, with its target half if that one is known, and uncounted. -/
theorem renames_conserved_iff (os : Nat → Os) (m : Monitor) (events : List FidEvent) :
    RenamesConserved os m events ↔
      ∀ ev ∈ events, ev.is_rename = true → ev.path.isSome = true := by
  constructor
  · rintro ⟨hstream, _, hcounted⟩ ev hev hrename
    by_contra hpath
    have hnone : ev.path = none := by simpa using hpath
    cases htarget : ev.target with
    | none =>
        -- nothing to place, and not counted
        have hpos : 0 < events.countP FidEvent.is_unplaced :=
          List.countP_pos_iff.2 ⟨ev, hev, by simp [FidEvent.is_unplaced, hrename, hnone, htarget]⟩
        rw [renames_process_event_batch] at hcounted
        omega
    | some target =>
        -- the target half is missing from the stream
        rw [expand_decode] at hstream
        have hlost := flatMap_eq_of_sublist FidEvent.delivered_sublist hstream ev hev
        simp [FidEvent.delivered, FidEvent.expected, FidEvent.moves, hrename, hnone, htarget] at hlost
  · intro h
    refine ⟨?_, expanded_spent events, ?_⟩
    · rw [expand_decode]
      exact List.flatMap_congr fun ev hev => FidEvent.delivered_eq (h ev hev)
    · have hzero : events.countP FidEvent.is_unplaced = 0 := by
        rw [List.countP_eq_zero]
        intro ev hev hun
        simp only [FidEvent.is_unplaced, Bool.and_eq_true, Option.isNone_iff_eq_none] at hun
        have := h ev hev hun.1.1
        rw [hun.1.2] at this
        cases this
      rw [renames_process_event_batch, hzero, Nat.add_zero]

end

/-- A rename into a watched directory: the old parent is not in the cache, the new one is. -/
def movedIn : FidEvent := ⟨FAN_RENAME, 7, none, some [[0x61], [0x62]], none, 0⟩

/-- Its MOVED_TO half is lost, and nothing says so. -/
theorem moved_in_lost :
    ¬ @RenamesConserved noSizes (fun _ => .calm Os.bareTree) .idle [movedIn] := by
  rintro ⟨hstream, _, _⟩
  exact absurd hstream (by decide)

/-! ## Overflows and unread records -/

section
variable [Sizefilter]

/-- What a batch should leave on standard error and on the counter. -/
structure LossesObserved (os : Nat → Os) (m : Monitor) (events : List FidEvent) : Prop where
  warned : (process_event_batch os m (decode_events events)).1.overflow_warnings =
    m.overflow_warnings + events.countP FidEvent.is_overflow
  counted : (process_event_batch os m (decode_events events)).1.metrics.unparsed_info_records =
    m.metrics.unparsed_info_records + (events.map FidEvent.owed_records).sum

omit [Sizefilter] in
theorem sum_delivered (events : List FidEvent) :
    ((events.flatMap FidEvent.delivered).map DecodedEvent.unparsed).sum =
      (events.map FidEvent.counted_records).sum := by
  induction events with
  | nil => rfl
  | cons ev events ih =>
      rw [List.flatMap_cons, List.map_append, List.sum_append, ih, ev.delivered_unparsed]
      rfl

omit [Sizefilter] in
/-- Two sums with one below the other term by term agree when their terms do. -/
theorem sum_eq_iff {α : Type} {f g : α → Nat} (hfg : ∀ a, f a ≤ g a) : ∀ as : List α,
    (as.map f).sum = (as.map g).sum ↔ ∀ a ∈ as, f a = g a := by
  intro as
  induction as with
  | nil =>
      simp
  | cons a as ih =>
      have hle : (as.map f).sum ≤ (as.map g).sum := List.sum_le_sum fun b _ => hfg b
      have ha := hfg a
      simp only [List.map_cons, List.sum_cons, List.forall_mem_cons, ← ih]
      omega

/-- A batch without overflow paths: no warning, and the records of what is no rename. -/
theorem reported_process_event_batch (os : Nat → Os) (m : Monitor) {events : List FidEvent}
    (hover : ∀ ev ∈ events, ev.is_overflow = true → ev.path = none) :
    (process_event_batch os m (decode_events events)).1.reported =
      ((m.metrics.events_unresolved_rename,
        m.metrics.unparsed_info_records + (events.map FidEvent.counted_records).sum),
        m.overflow_warnings) := by
  rw [process_event_batch]
  rw [expand_decode]
  refine (reported_process_events os _ _ ?_).trans ?_
  · intro d hd
    obtain ⟨ev, hev, hd⟩ := List.mem_flatMap.1 hd
    exact FidEvent.delivered_overflow (hover ev hev) hd
  · rw [sum_delivered]
    rfl

/-- Losses are observed exactly when there is nothing to observe: an overflow has no path, so the
decoder drops it before the warning, and a rename's halves forget its unread records. -/
theorem losses_observed_iff (os : Nat → Os) (m : Monitor) (events : List FidEvent)
    (hover : ∀ ev ∈ events, ev.is_overflow = true → ev.path = none) :
    LossesObserved os m events ↔
      (∀ ev ∈ events, ev.is_overflow = false) ∧
        ∀ ev ∈ events, ev.is_rename = true → ev.path.isSome = true → ev.unknown_info_records = 0 := by
  have hbatch := reported_process_event_batch os m hover
  simp only [reported, MetricsRegistry.losses, Prod.mk.injEq] at hbatch
  obtain ⟨⟨_, hrecords⟩, hwarnings⟩ := hbatch
  have hwarned : m.overflow_warnings = m.overflow_warnings + events.countP FidEvent.is_overflow ↔
      ∀ ev ∈ events, ev.is_overflow = false := by
    have hzero : events.countP FidEvent.is_overflow = 0 ↔ ∀ ev ∈ events, ev.is_overflow = false :=
      List.countP_eq_zero.trans (forall₂_congr fun _ _ => by rw [Bool.not_eq_true])
    rw [← hzero]
    omega
  have hterms : ∀ ev : FidEvent, ev.counted_records = ev.owed_records ↔
      (ev.is_rename = true → ev.path.isSome = true → ev.unknown_info_records = 0) := by
    intro ev
    unfold FidEvent.counted_records FidEvent.owed_records
    cases ev.is_rename <;> cases ev.path.isSome <;> simp [eq_comm]
  have hle : ∀ ev : FidEvent, ev.counted_records ≤ ev.owed_records := by
    intro ev
    unfold FidEvent.counted_records FidEvent.owed_records
    cases ev.is_rename <;> cases ev.path.isSome <;> simp
  have hcounted : m.metrics.unparsed_info_records + (events.map FidEvent.counted_records).sum =
      m.metrics.unparsed_info_records + (events.map FidEvent.owed_records).sum ↔
      ∀ ev ∈ events, ev.is_rename = true → ev.path.isSome = true → ev.unknown_info_records = 0 := by
    rw [Nat.add_left_cancel_iff, sum_eq_iff hle]
    exact forall₂_congr fun ev _ => hterms ev
  constructor
  · rintro ⟨hw, hc⟩
    rw [hwarnings] at hw
    rw [hrecords] at hc
    exact ⟨hwarned.1 hw, hcounted.1 hc⟩
  · rintro ⟨hw, hc⟩
    exact ⟨hwarnings.trans (hwarned.2 hw), hrecords.trans (hcounted.2 hc)⟩

end

/-- The kernel's overflow event: no handle, hence no path. -/
def queueOverflow : FidEvent := ⟨FAN_Q_OVERFLOW, 0, none, none, none, 0⟩

/-- The hypothesis of `losses_observed_iff` holds of a batch with an overflow and a plain event. -/
theorem losses_observed_iff_overflow :
    @LossesObserved noSizes (fun _ => .calm Os.bareTree) .idle
        [queueOverflow, ⟨FAN_CREATE, 7, some [[0x61]], none, none, 1⟩] ↔
      (∀ ev ∈ [queueOverflow, ⟨FAN_CREATE, 7, some [[0x61]], none, none, 1⟩],
          ev.is_overflow = false) ∧
        ∀ ev ∈ [queueOverflow, ⟨FAN_CREATE, 7, some [[0x61]], none, none, 1⟩],
          ev.is_rename = true → ev.path.isSome = true → ev.unknown_info_records = 0 :=
  @losses_observed_iff noSizes _ _ _ (by decide)

/-- A lone overflow is never warned about. -/
theorem overflow_unobserved :
    ¬ @LossesObserved noSizes (fun _ => .calm Os.bareTree) .idle [queueOverflow] := by
  rintro ⟨hwarned, _⟩
  exact absurd hwarned (by decide)


end Fsmon
