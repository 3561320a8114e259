/-
# `Fsmon.ProcCache.Health` — which losses are reported

The kernel numbers the events of a CPU one after the other, whatever their kind.
So the numbers that were delivered tell which were lost on the way:

    lost           the numbers between an event and the one before it on its CPU
    raised         the signal a message raises in the parse loop
    HealthExact    no gap is reported where nothing was lost, and every loss and
                   every overrun is reported in its datagram
    HealthHeard    what the stream and its cut must be for that

The mapper sees forks, execs, exits and names only, so an event of another kind
looks lost to it (`sound`), and hides what was lost around it (`gaps`); of the
signals of one datagram the first is reported (`gaps`, `overruns`).
-/
import Fsmon.ProcCache.Gaps

namespace Fsmon.ProcCache

/-! ## Losses -/

/-- The number of an event, if it is of one of these kinds. -/
def number_of (kinds : PcEvent → Bool) : PcItem → Option (Cpu × SeqNo)
  | .event ev => if kinds ev then some (ev.cpu, ev.seq) else none
  | .nothing | .overrun | .truncated | .error => none

/-- The numbers of the events of some kinds, in the order of the stream. -/
def pairs (kinds : PcEvent → Bool) (items : List PcItem) : List (Cpu × SeqNo) :=
  items.filterMap (number_of kinds)

/-- The number delivered last on a CPU. -/
def last_delivered (cpu : Cpu) (items : List PcItem) : Option SeqNo :=
  (numbers cpu (pairs (fun _ => true) items)).getLast?

/-- The number the mapper has seen last on a CPU. -/
def last_seen (cpu : Cpu) (items : List PcItem) : Option SeqNo :=
  (numbers cpu (pairs PcEvent.tracked items)).getLast?

/-- The first and the last number that are missing between a message and what came before it. -/
def lost (before : List PcItem) : PcItem → Option (SeqNo × SeqNo)
  | .event ev =>
      (last_delivered ev.cpu before).bind fun last =>
        if ev.seq = last + 1 then none else some (last + 1, ev.seq - 1)
  | .nothing | .overrun | .truncated | .error => none

/-- Nothing is missing in the stream, and there was no overrun. -/
def Lossless (stream : List PcItem) : Prop :=
  ∀ before item after, stream = before ++ item :: after → item ≠ .overrun ∧ lost before item = none

section
variable [ProcTracker] (src : Nat) (tree : ProcTracker.Tree)

/-- What is reported while a datagram is handled, after those before it. -/
def report_of (before : List (List PcItem)) (d : List PcItem) : Option Signal :=
  ((ProcState.run src tree (before ++ [d])).reports.drop (ProcState.run src tree before).reports.length).head?

/-- Health is reported exactly, for a stream in its datagrams. -/
structure HealthExact (ds : List (List PcItem)) : Prop where
  sound : Lossless ds.flatten → ∀ sig ∈ (ProcState.run src tree ds).reports, ∀ m n, sig.health ≠ .gapped m n
  gaps : ∀ before d after, ds = before ++ d :: after → ∀ pre item post, d = pre ++ item :: post →
    ∀ r, lost (before.flatten ++ pre) item = some r →
      report_of src tree before d = some ⟨.gapped r.1.toNat r.2.toNat, pre.length⟩
  overruns : ∀ before d after, ds = before ++ d :: after → .overrun ∈ d →
    ∃ place, report_of src tree before d = some ⟨.overrun 0, place⟩

end

/-! ## What raises a signal -/

/-- The signal a message raises. -/
def raised (before : List PcItem) : PcItem → Option SourceHealth
  | .event ev => if ev.tracked then (feed (pairs PcEvent.tracked before)).jump ev.cpu ev.seq else none
  | .overrun => some (.overrun 0)
  | .nothing | .truncated | .error => none

/-- Messages that raise no signal. -/
def Silent (before items : List PcItem) : Prop :=
  ∀ pre item post, items = pre ++ item :: post → raised (before ++ pre) item = none

/-- The first signal of a datagram. -/
def first_raised : List PcItem → Nat → List PcItem → Option Signal
  | _, _, [] => none
  | before, place, item :: items =>
      ((raised before item).map (⟨·, place⟩)).or (first_raised (before ++ [item]) (place + 1) items)

/-- The streams, in their datagrams, whose losses are heard of. -/
structure HealthHeard (ds : List (List PcItem)) : Prop where
  /-- If nothing was lost, no event of a kind that is not tracked lies between two tracked ones of a CPU. -/
  sound : Lossless ds.flatten → ∀ before ev after, ds.flatten = before ++ .event ev :: after →
    ev.tracked = true → ∀ last, last_seen ev.cpu before = some last → ¬ last + 1 < ev.seq
  /-- A gap lies between two tracked events, not across the largest number, and it is the first signal of its
  datagram. -/
  gaps : ∀ before d after, ds = before ++ d :: after → ∀ pre ev post, d = pre ++ .event ev :: post →
    ∀ last, last_delivered ev.cpu (before.flatten ++ pre) = some last → ev.seq ≠ last + 1 →
      ev.tracked = true ∧ last_seen ev.cpu (before.flatten ++ pre) = some last ∧ last < ev.seq ∧
        Silent before.flatten pre
  /-- In a datagram with an overrun, an overrun is the first signal. -/
  overruns : ∀ before d after, ds = before ++ d :: after → .overrun ∈ d →
    ∃ pre post, d = pre ++ .overrun :: post ∧ Silent before.flatten pre

/-! ## The parse loop -/

variable {before items pre post : List PcItem} {item : PcItem} {place : Nat} {sig : Signal}

theorem pairs_append (kinds : PcEvent → Bool) (xs ys : List PcItem) :
    pairs kinds (xs ++ ys) = pairs kinds xs ++ pairs kinds ys := List.filterMap_append

theorem pairs_event (kinds : PcEvent → Bool) (ev : PcEvent) :
    pairs kinds [.event ev] = if kinds ev then [(ev.cpu, ev.seq)] else [] := by
  rw [pairs, List.filterMap_cons, number_of]
  cases kinds ev with
  | true => rfl
  | false => rfl

theorem feed_append (xs : List (Cpu × SeqNo)) (p : Cpu × SeqNo) :
    feed (xs ++ [p]) = ((feed xs).cursor p.1 p.2).2.2 := by
  rw [feed, List.foldl_append]
  rfl

/-- One message: the mapper knows its number if it is tracked, and the first signal stays. -/
theorem parse_item_spec (src place : Nat) (item : PcItem) {p : Parsed}
    (h : p.mapper = feed (pairs PcEvent.tracked before)) :
    (parse_item src place p item).mapper = feed (pairs PcEvent.tracked (before ++ [item])) ∧
      (parse_item src place p item).health = p.health.or ((raised before item).map (⟨·, place⟩)) := by
  have hkeep : ∀ {i : PcItem}, pairs PcEvent.tracked [i] = [] →
      feed (pairs PcEvent.tracked (before ++ [i])) = p.mapper := by
    intro i hi
    rw [pairs_append, hi, List.append_nil, h]
  cases item with
  | nothing => exact ⟨(hkeep rfl).symm, (Option.or_none ..).symm⟩
  | truncated => exact ⟨(hkeep rfl).symm, (Option.or_none ..).symm⟩
  | error => exact ⟨(hkeep rfl).symm, (Option.or_none ..).symm⟩
  | overrun => exact ⟨(hkeep rfl).symm, rfl⟩
  | event ev =>
      obtain ⟨cpu, seq, body⟩ := ev
      have htracked : ∀ {b : PcBody}, (⟨cpu, seq, b⟩ : PcEvent).tracked = true →
          (p.mapper.cursor cpu seq).2.2 = feed (pairs PcEvent.tracked (before ++ [.event ⟨cpu, seq, b⟩])) := by
        intro b hb
        rw [pairs_append, pairs_event, if_pos hb, feed_append, h]
      have hraised : ∀ {b : PcBody}, (⟨cpu, seq, b⟩ : PcEvent).tracked = true →
          raised before (.event ⟨cpu, seq, b⟩) = p.mapper.jump cpu seq := by
        intro b hb
        rw [raised, if_pos hb, h]
      have hother : ∀ {b : PcBody}, (⟨cpu, seq, b⟩ : PcEvent).tracked = false →
          p.mapper = feed (pairs PcEvent.tracked (before ++ [.event ⟨cpu, seq, b⟩])) ∧
            p.health = p.health.or ((raised before (.event ⟨cpu, seq, b⟩)).map (⟨·, place⟩)) := by
        intro b hb
        have hpair : pairs PcEvent.tracked [.event ⟨cpu, seq, b⟩] = [] := by
          rw [pairs_event, if_neg (by simp [hb])]
        rw [raised, if_neg (by simp [hb])]
        exact ⟨(hkeep hpair).symm, (Option.or_none ..).symm⟩
      cases body with
      | fork a b c d e => exact ⟨htracked rfl, by rw [hraised rfl]; rfl⟩
      | exec a b c => exact ⟨htracked rfl, by rw [hraised rfl]; rfl⟩
      | exit a b => exact ⟨htracked rfl, by rw [hraised rfl]; rfl⟩
      | comm a b c => exact ⟨htracked rfl, by rw [hraised rfl]; rfl⟩
      | uid => exact hother rfl
      | gid => exact hother rfl
      | sid => exact hother rfl
      | ptrace => exact hother rfl
      | coredump => exact hother rfl
      | unknown => exact hother rfl

/-- All messages of a datagram. -/
theorem parse_items_spec (src : Nat) : ∀ (items : List PcItem) {before : List PcItem} {place : Nat}
    {p : Parsed},
    p.mapper = feed (pairs PcEvent.tracked before) →
      (parse_items src place items p).mapper = feed (pairs PcEvent.tracked (before ++ items)) ∧
        (parse_items src place items p).health = p.health.or (first_raised before place items) := by
  intro items
  induction items with
  | nil =>
      intro before place p h
      exact ⟨by rw [List.append_nil]; exact h, (Option.or_none ..).symm⟩
  | cons item items ih =>
      intro before place p h
      obtain ⟨hmapper, hhealth⟩ := parse_item_spec src place item h
      obtain ⟨hmapper', hhealth'⟩ := @ih (before ++ [item]) (place + 1) _ hmapper
      refine ⟨by rw [parse_items, hmapper', List.append_assoc]; rfl, ?_⟩
      rw [parse_items, hhealth', hhealth, first_raised, Option.or_assoc]

/-! ## The first signal -/

theorem silent_nil (before : List PcItem) : Silent before [] := by
  intro pre item post h
  cases pre <;> cases h

theorem silent_cons : Silent before (item :: items) ↔
    raised before item = none ∧ Silent (before ++ [item]) items := by
  constructor
  · intro h
    refine ⟨by simpa using h [] item items rfl, fun pre i post hi => ?_⟩
    have := h (item :: pre) i post (by rw [hi]; rfl)
    rwa [List.append_assoc]
  · rintro ⟨hitem, hrest⟩ pre i post hi
    cases pre with
    | nil =>
        obtain ⟨rfl, rfl⟩ := List.cons.inj hi
        rw [List.append_nil]
        exact hitem
    | cons i' pre =>
        obtain ⟨rfl, rfl⟩ := List.cons.inj hi
        have := hrest pre i post rfl
        rwa [List.append_assoc] at this

theorem first_raised_eq_none : ∀ (items : List PcItem) {before : List PcItem} {place : Nat},
    first_raised before place items = none ↔ Silent before items := by
  intro items
  induction items with
  | nil =>
      intro before place
      exact iff_of_true rfl (silent_nil before)
  | cons item items ih =>
      intro before place
      rw [first_raised, Option.or_eq_none_iff, Option.map_eq_none_iff, @ih (before ++ [item]), silent_cons]

/-- The first signal is raised by a message with silence before it. -/
theorem first_raised_eq_some : ∀ (items : List PcItem) {before : List PcItem} {place : Nat},
    first_raised before place items = some sig ↔
      ∃ pre item post, items = pre ++ item :: post ∧ raised (before ++ pre) item = some sig.health ∧
        sig.place = place + pre.length ∧ Silent before pre := by
  intro items
  induction items with
  | nil =>
      intro before place
      refine iff_of_false (fun h => by cases h) ?_
      rintro ⟨pre, item, post, h, _⟩
      cases pre <;> cases h
  | cons item items ih =>
      intro before place
      rw [first_raised]
      cases hraised : raised before item with
      | some health =>
          rw [Option.map_some, Option.some_or, Option.some.injEq]
          constructor
          · rintro rfl
            exact ⟨[], item, items, rfl, by rw [List.append_nil]; exact hraised, rfl, silent_nil before⟩
          · rintro ⟨pre, i, post, hi, hh, hplace, hsilent⟩
            cases pre with
            | nil =>
                obtain ⟨rfl, rfl⟩ := List.cons.inj hi
                rw [List.append_nil, hraised] at hh
                obtain ⟨health', place'⟩ := sig
                cases hh
                cases hplace
                rfl
            | cons i' pre =>
                obtain ⟨rfl, rfl⟩ := List.cons.inj hi
                rw [(silent_cons.1 hsilent).1] at hraised
                cases hraised
      | none =>
          rw [Option.map_none, Option.none_or, @ih (before ++ [item]) (place + 1)]
          constructor
          · rintro ⟨pre, i, post, rfl, hh, hplace, hsilent⟩
            refine ⟨item :: pre, i, post, rfl, ?_, ?_, silent_cons.2 ⟨hraised, hsilent⟩⟩
            · rwa [List.append_assoc] at hh
            · rw [hplace, List.length_cons]
              omega
          · rintro ⟨pre, i, post, hi, hh, hplace, hsilent⟩
            cases pre with
            | nil =>
                obtain ⟨rfl, rfl⟩ := List.cons.inj hi
                rw [List.append_nil, hraised] at hh
                cases hh
            | cons i' pre =>
                obtain ⟨rfl, rfl⟩ := List.cons.inj hi
                refine ⟨pre, i, post, rfl, ?_, ?_, (silent_cons.1 hsilent).2⟩
                · rwa [List.append_assoc]
                · rw [hplace, List.length_cons]
                  omega

/-- A message is the first that raises a signal exactly if it raises one, after silence. -/
theorem first_raised_at {health : SourceHealth} :
    first_raised before 0 (pre ++ item :: post) = some ⟨health, pre.length⟩ ↔
      raised (before ++ pre) item = some health ∧ Silent before pre := by
  rw [first_raised_eq_some]
  constructor
  · rintro ⟨pre', item', post', heq, hraised, hplace, hsilent⟩
    rw [Nat.zero_add] at hplace
    obtain ⟨rfl, hrest⟩ := List.append_inj heq hplace
    obtain ⟨rfl, rfl⟩ := List.cons.inj hrest
    exact ⟨hraised, hsilent⟩
  · rintro ⟨hraised, hsilent⟩
    exact ⟨pre, item, post, rfl, hraised, (Nat.zero_add _).symm, hsilent⟩

/-! ## What the daemon reports -/

section
variable [ProcTracker] {src : Nat} {tree : ProcTracker.Tree} {ds ahead : List (List PcItem)} {d : List PcItem}

theorem run_concat (src : Nat) (tree : ProcTracker.Tree) (ahead : List (List PcItem)) (d : List PcItem) :
    ProcState.run src tree (ahead ++ [d]) = (ProcState.run src tree ahead).handle_proc_events src d :=
  Run.exec_append ..

theorem mapper_run (src : Nat) (tree : ProcTracker.Tree) (ds : List (List PcItem)) :
    (ProcState.run src tree ds).mapper = feed (pairs PcEvent.tracked ds.flatten) := by
  induction ds using List.reverseRecOn with
  | nil => rfl
  | append_singleton ds d ih =>
      rw [run_concat, ProcState.handle_proc_events, List.flatten_append, List.flatten_singleton]
      exact (parse_items_spec src d ih).1

/-- A datagram adds its first signal to the reports. -/
theorem reports_concat (src : Nat) (tree : ProcTracker.Tree) (ahead : List (List PcItem)) (d : List PcItem) :
    (ProcState.run src tree (ahead ++ [d])).reports =
      (ProcState.run src tree ahead).reports ++ (first_raised ahead.flatten 0 d).toList := by
  rw [run_concat, ProcState.handle_proc_events]
  have hhealth := (@parse_items_spec src d _ 0 ⟨_, [], none, []⟩ (mapper_run src tree ahead)).2
  rw [Option.none_or] at hhealth
  rw [← hhealth]

theorem report_of_eq : report_of src tree ahead d = first_raised ahead.flatten 0 d := by
  rw [report_of, reports_concat, List.drop_left]
  cases first_raised ahead.flatten 0 d with
  | none => rfl
  | some sig => rfl

/-- What is reported is the first signal of some datagram. -/
theorem mem_reports : sig ∈ (ProcState.run src tree ds).reports ↔
    ∃ before d after, ds = before ++ d :: after ∧ first_raised before.flatten 0 d = some sig := by
  induction ds using List.reverseRecOn with
  | nil =>
      refine iff_of_false List.not_mem_nil ?_
      rintro ⟨before, d, after, h, _⟩
      cases before <;> cases h
  | append_singleton ds d ih =>
      rw [reports_concat, List.mem_append, ih, Option.mem_toList]
      constructor
      · rintro (⟨before, d', after, rfl, hd⟩ | hd)
        · exact ⟨before, d', after ++ [d], by rw [List.append_assoc]; rfl, hd⟩
        · exact ⟨ds, d, [], rfl, hd⟩
      · rintro ⟨before, d', after, heq, hd⟩
        rcases List.eq_nil_or_concat after with rfl | ⟨after', e, rfl⟩
        · obtain ⟨rfl, rfl⟩ := List.append_inj' heq rfl |>.imp id List.singleton_inj.1
          exact .inr hd
        · rw [List.concat_eq_append, ← List.cons_append, ← List.append_assoc] at heq
          obtain ⟨rfl, _⟩ := List.append_inj' heq rfl
          exact .inl ⟨before, d', after', rfl, hd⟩

end

/-! ## Jumps and gaps -/

/-- An event raises a signal exactly if it is tracked and its number jumps. -/
theorem raised_event {ev : PcEvent} {health : SourceHealth} :
    raised before (.event ev) = some health ↔
      ev.tracked = true ∧ ∃ last, last_seen ev.cpu before = some last ∧ last + 1 < ev.seq ∧
        health = .gapped (last.toNat + 1) (ev.seq.toNat - 1) := by
  rw [raised]
  cases htracked : ev.tracked with
  | false => simp
  | true =>
      rw [if_pos rfl, EventMapper.jump, lookup_feed, last_seen]
      cases (numbers ev.cpu (pairs PcEvent.tracked before)).getLast? with
      | none => simp
      | some last =>
          simp only [true_and, Option.some.injEq, exists_eq_left']
          split
          · next hjump =>
            rw [Option.some.injEq, eq_comm]
            exact ⟨fun h => ⟨hjump, h⟩, fun h => h.2⟩
          · next hno => exact iff_of_false (fun h => by cases h) fun h => hno h.1

/-- The signal is about the numbers that are missing exactly if the mapper has seen the number before them. -/
theorem raised_lost {ev : PcEvent} {last : SeqNo} (hgap : ev.seq ≠ last + 1) :
    raised before (.event ev) = some (.gapped (last + 1).toNat (ev.seq - 1).toNat) ↔
      ev.tracked = true ∧ last_seen ev.cpu before = some last ∧ last < ev.seq := by
  rw [raised_event]
  refine and_congr_right fun _ => ?_
  constructor
  · rintro ⟨p, hseen, hjump, hhealth⟩
    have hfirst : (last + 1).toNat = p.toNat + 1 := (SourceHealth.gapped.inj hhealth).1
    have hp : p = last := by bv_omega
    subst hp
    exact ⟨hseen, by bv_omega⟩
  · rintro ⟨hseen, hlt⟩
    refine ⟨last, hseen, by bv_omega, ?_⟩
    have hfirst : (last + 1).toNat = last.toNat + 1 := by bv_omega
    have hlast : (ev.seq - 1).toNat = ev.seq.toNat - 1 := by bv_omega
    rw [hfirst, hlast]

theorem raised_overrun (item : PcItem) {n : Nat} :
    raised before item = some (.overrun n) ↔ item = .overrun ∧ n = 0 := by
  cases item with
  | event ev =>
      rw [raised_event]
      refine iff_of_false ?_ fun h => by cases h.1
      rintro ⟨_, _, _, _, h⟩
      cases h
  | overrun => simp [raised, eq_comm]
  | nothing => simp [raised]
  | truncated => simp [raised]
  | error => simp [raised]

theorem lost_event {ev : PcEvent} {r : SeqNo × SeqNo} :
    lost before (.event ev) = some r ↔
      ∃ last, last_delivered ev.cpu before = some last ∧ ev.seq ≠ last + 1 ∧ r = (last + 1, ev.seq - 1) := by
  rw [lost, Option.bind_eq_some_iff]
  refine exists_congr fun last => and_congr_right fun _ => ?_
  split
  · next heq => exact iff_of_false (fun h => by cases h) fun h => h.1 heq
  · next hne => exact ⟨fun h => ⟨hne, (Option.some.inj h).symm⟩, fun h => by rw [h.2]⟩

/-- A message of a stream is a message of one of its datagrams. -/
theorem exists_datagram : ∀ {ds : List (List PcItem)} {before after : List PcItem} {item : PcItem},
    ds.flatten = before ++ item :: after → ∃ ahead d behind pre post, ds = ahead ++ d :: behind ∧
      d = pre ++ item :: post ∧ before = ahead.flatten ++ pre := by
  intro ds
  induction ds with
  | nil =>
      intro before after item h
      cases before <;> cases h
  | cons d ds ih =>
      intro before after item h
      rw [List.flatten_cons, List.append_eq_append_iff] at h
      rcases h with ⟨rest, hbefore, hrest⟩ | ⟨rest, hd, hrest⟩
      · obtain ⟨ahead, e, behind, pre, post, rfl, he, rfl⟩ := ih hrest
        exact ⟨d :: ahead, e, behind, pre, post, rfl, he, by
          rw [hbefore, List.flatten_cons, List.append_assoc]⟩
      · cases rest with
        | nil =>
            rw [List.append_nil] at hd
            obtain ⟨ahead, e, behind, pre, post, rfl, he, hpre⟩ := @ih [] after item hrest.symm
            refine ⟨d :: ahead, e, behind, pre, post, rfl, he, ?_⟩
            rw [List.flatten_cons, List.append_assoc, ← hpre, List.append_nil, hd]
        | cons i rest =>
            obtain ⟨rfl, _⟩ := List.cons.inj hrest
            exact ⟨[], d, ds, before, rest, rfl, hd, rfl⟩

theorem flatten_at {ahead behind : List (List PcItem)} :
    (ahead ++ (pre ++ item :: post) :: behind).flatten =
      (ahead.flatten ++ pre) ++ item :: (post ++ behind.flatten) := by
  simp only [List.flatten_append, List.flatten_cons, List.append_assoc, List.cons_append]

/-! ## Exactly when health is reported exactly -/

section
variable [ProcTracker] {src : Nat} {tree : ProcTracker.Tree} {ds : List (List PcItem)}

/-- Nothing lost, nothing reported: the mapper must see no jump. -/
theorem sound_iff (hlossless : Lossless ds.flatten) :
    (∀ sig ∈ (ProcState.run src tree ds).reports, ∀ m n, sig.health ≠ .gapped m n) ↔
      ∀ before ev after, ds.flatten = before ++ .event ev :: after → ev.tracked = true →
        ∀ last, last_seen ev.cpu before = some last → ¬ last + 1 < ev.seq := by
  constructor
  · intro h before ev after heq htracked last hseen hjump
    obtain ⟨ahead, d, behind, pre, post, rfl, rfl, rfl⟩ := exists_datagram heq
    have hraised := raised_event.2 ⟨htracked, last, hseen, hjump, rfl⟩
    -- so the datagram has a first signal, and it is no overrun
    have hnot : first_raised ahead.flatten 0 (pre ++ .event ev :: post) ≠ none := by
      intro hnone
      rw [(first_raised_eq_none _).1 hnone pre (.event ev) post rfl] at hraised
      cases hraised
    obtain ⟨sig, hsig⟩ := Option.ne_none_iff_exists'.1 hnot
    obtain ⟨pre', item, post', hd, hhealth, _, _⟩ := (first_raised_eq_some _).1 hsig
    have hmem : sig ∈ (ProcState.run src tree (ahead ++ _ :: behind)).reports :=
      mem_reports.2 ⟨ahead, _, behind, rfl, hsig⟩
    cases hkind : sig.health with
    | gapped m n => exact h sig hmem m n hkind
    | overrun n =>
        rw [hkind, raised_overrun] at hhealth
        exact (hlossless _ item _ (by rw [hd]; exact flatten_at)).1 hhealth.1
  · intro h sig hsig m n hgapped
    obtain ⟨ahead, d, behind, rfl, hfirst⟩ := mem_reports.1 hsig
    obtain ⟨pre, item, post, rfl, hhealth, _, _⟩ := (first_raised_eq_some _).1 hfirst
    rw [hgapped] at hhealth
    cases item with
    | event ev =>
        obtain ⟨htracked, last, hseen, hjump, _⟩ := raised_event.1 hhealth
        exact h _ ev _ flatten_at htracked last hseen hjump
    | overrun => cases hhealth
    | nothing => cases hhealth
    | truncated => cases hhealth
    | error => cases hhealth

/-- **Health is reported exactly** for the streams and cuts whose losses are heard of. -/
theorem health_exact_iff (src : Nat) (tree : ProcTracker.Tree) (ds : List (List PcItem)) :
    HealthExact src tree ds ↔ HealthHeard ds := by
  constructor
  · intro h
    refine ⟨fun hlossless => (sound_iff hlossless).1 (h.sound hlossless), ?_, ?_⟩
    · intro before d after hds pre ev post hd last hlast hgap
      have hreport := h.gaps before d after hds pre _ post hd _ (lost_event.2 ⟨last, hlast, hgap, rfl⟩)
      rw [report_of_eq, hd, first_raised_at, raised_lost hgap] at hreport
      exact ⟨hreport.1.1, hreport.1.2.1, hreport.1.2.2, hreport.2⟩
    · intro before d after hds hover
      obtain ⟨place, hreport⟩ := h.overruns before d after hds hover
      rw [report_of_eq, first_raised_eq_some] at hreport
      obtain ⟨pre, item, post, hd, hraised, _, hsilent⟩ := hreport
      obtain ⟨rfl, _⟩ := (raised_overrun item).1 hraised
      exact ⟨pre, post, hd, hsilent⟩
  · intro h
    refine ⟨fun hlossless => (sound_iff hlossless).2 (h.sound hlossless), ?_, ?_⟩
    · intro before d after hds pre item post hd r hlost
      cases item with
      | event ev =>
          obtain ⟨last, hlast, hgap, rfl⟩ := lost_event.1 hlost
          obtain ⟨htracked, hseen, hlt, hsilent⟩ := h.gaps before d after hds pre ev post hd last hlast hgap
          rw [report_of_eq, hd, first_raised_at, raised_lost hgap]
          exact ⟨⟨htracked, hseen, hlt⟩, hsilent⟩
      | overrun => cases hlost
      | nothing => cases hlost
      | truncated => cases hlost
      | error => cases hlost
    · intro before d after hds hover
      obtain ⟨pre, post, hd, hsilent⟩ := h.overruns before d after hds hover
      refine ⟨pre.length, ?_⟩
      rw [report_of_eq, hd, first_raised_at]
      exact ⟨rfl, hsilent⟩

end

/-- Two forks, and a change of a uid between them. -/
def uidBetween : List PcItem :=
  [.event ⟨0, 1, .fork 1 1 100 100 10⟩, .event ⟨0, 2, .uid⟩, .event ⟨0, 3, .fork 1 1 101 101 11⟩]

/-- Two forks have been missed in one datagram, one on each CPU. -/
def twoGaps : List PcItem :=
  [.event ⟨0, 1, .fork 1 1 100 100 10⟩, .event ⟨1, 1, .fork 1 1 101 101 10⟩,
    .event ⟨0, 3, .fork 1 1 102 102 11⟩, .event ⟨1, 4, .fork 1 1 103 103 11⟩]

theorem lossless_of_take {stream : List PcItem}
    (h : ∀ i < stream.length, ∀ item, stream[i]? = some item →
      item ≠ .overrun ∧ lost (stream.take i) item = none) : Lossless stream := by
  rintro before item after rfl
  have hat := h before.length (by simp) item (by simp)
  rwa [List.take_left] at hat

/-- Nothing was lost, and a gap is reported; two gaps, and one is reported. -/
theorem health_not_exact :
    ¬ @HealthExact generations 0 .initial [uidBetween] ∧ ¬ @HealthExact generations 0 .initial [twoGaps] := by
  constructor
  · intro h
    have hlossless : Lossless [uidBetween].flatten := by
      refine lossless_of_take ?_
      decide
    exact @HealthExact.sound generations _ _ _ h hlossless ⟨.gapped 2 2, 2⟩ (by decide) 2 2 rfl
  · intro h
    have hgap := @HealthExact.gaps generations _ _ _ h [] twoGaps [] rfl (twoGaps.take 3)
      (.event ⟨1, 4, .fork 1 1 103 103 11⟩) [] rfl (2, 3) (by decide)
    revert hgap
    decide

end Fsmon.ProcCache
