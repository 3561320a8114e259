/-
# `Fsmon.ProcCache` — proc connector events, datagram by datagram

`common/proc_cache.rs`: the events of a datagram are numbered per CPU, mapped to
the tracker's input and applied in one batch; names are attached after the batch,
and one health signal is reported at the end.

    EventMapper.cursor   the last number of each CPU, and whether it jumped
    parse_item           one message of a datagram
    handle_proc_events   a datagram: parse, apply, enrich, report

The messages come parsed (`NetlinkMessageIter` is `proc_connector`'s), and the
tracker is `proc_tree`'s: `ProcTracker` is what is relied on.  Numbers are 32 bits
wide and wrap around, as in a build without overflow checks;
`EventMapper.overflows` says where the code adds one to the largest.
-/
import Fsmon.Text
import Fsmon.Lib.HashMap
import Fsmon.Lib.Run
import Mathlib.Data.List.Induction

namespace Fsmon.ProcCache

/-! ## Sequence numbers -/

/-- A CPU, and the kernel's number of an event on its CPU. -/
abbrev Cpu := BitVec 32
abbrev SeqNo := BitVec 32

/-- `proc_tree::SourceHealth`. -/
inductive SourceHealth where
  /-- `from` and `to`, both of them given. -/
  | gapped (first last : Nat)
  | overrun (count : Nat)
  deriving DecidableEq, Repr

/-- The last number of each CPU. -/
structure EventMapper where
  per_cpu_last : HashMap Cpu SeqNo

namespace EventMapper

def new : EventMapper := ⟨∅⟩

/-- `last + 1` does not fit into 32 bits. -/
def overflows (m : EventMapper) (cpu : Cpu) : Bool := m.per_cpu_last.lookup cpu = some (BitVec.allOnes 32)

/-- The number jumped. -/
def jump (m : EventMapper) (cpu : Cpu) (seq : SeqNo) : Option SourceHealth :=
  match m.per_cpu_last.lookup cpu with
  -- the sum is 32 bits wide, and the bounds of the gap are 64
  | some last => if last + 1 < seq then some (.gapped (last.toNat + 1) (seq.toNat - 1)) else none
  | none => none

/-- Advance the sequence of a CPU: the cursor, the health if the number jumped, the new state. -/
def cursor (m : EventMapper) (cpu : Cpu) (seq : SeqNo) : BitVec 64 × Option SourceHealth × EventMapper :=
  (cpu.setWidth 64 <<< 32 ||| seq.setWidth 64, m.jump cpu seq, ⟨m.per_cpu_last.insert cpu seq⟩)

end EventMapper

/-- What has been fed to a mapper, in order. -/
def feed (pairs : List (Cpu × SeqNo)) : EventMapper := pairs.foldl (fun m p => (m.cursor p.1 p.2).2.2) .new

/-- The numbers of one CPU. -/
def numbers (cpu : Cpu) (pairs : List (Cpu × SeqNo)) : List SeqNo :=
  pairs.filterMap fun p => if p.1 = cpu then some p.2 else none

theorem numbers_singleton (cpu : Cpu) (p : Cpu × SeqNo) :
    numbers cpu [p] = if cpu = p.1 then [p.2] else [] := by
  rw [numbers, List.filterMap_cons, List.filterMap_nil]
  by_cases h : cpu = p.1
  · rw [if_pos h, if_pos h.symm]
  · rw [if_neg h, if_neg (Ne.symm h)]

theorem numbers_append (cpu : Cpu) (xs ys : List (Cpu × SeqNo)) :
    numbers cpu (xs ++ ys) = numbers cpu xs ++ numbers cpu ys := List.filterMap_append

/-- The mapper knows the last number of each CPU. -/
theorem lookup_feed (cpu : Cpu) (pairs : List (Cpu × SeqNo)) :
    (feed pairs).per_cpu_last.lookup cpu = (numbers cpu pairs).getLast? := by
  induction pairs using List.reverseRecOn with
  | nil => rfl
  | append_singleton pairs p ih =>
      rw [feed, List.foldl_append, numbers_append, List.getLast?_append, numbers_singleton]
      show ((feed pairs).per_cpu_last.insert p.1 p.2).lookup cpu = _
      rw [HashMap.lookup_insert', ih]
      split
      · rfl
      · rfl

/-! ## Events -/

/-- What differs between the kinds of `proc_connector::ProcEvent`, as far as it is read. -/
inductive PcBody where
  | fork (parent_pid parent_tgid child_pid child_tgid timestamp_ns : Nat)
  | exec (pid tgid timestamp_ns : Nat)
  | exit (pid tgid : Nat)
  | comm (pid tgid : Nat) (comm : Bytes)
  | uid
  | gid
  | sid
  | ptrace
  | coredump
  | unknown
  deriving DecidableEq, Repr

structure PcEvent where
  cpu : Cpu
  seq : SeqNo
  body : PcBody
  deriving DecidableEq, Repr

/-- What `NetlinkMessageIter` yields. -/
inductive PcItem where
  | event (ev : PcEvent)
  /-- `Ok(None)`. -/
  | nothing
  | overrun
  | truncated
  /-- Any other error. -/
  | error
  deriving DecidableEq, Repr

/-- `EventMeta`; the epoch is 0 and the clock is always the same. -/
structure EventMeta where
  src : Nat
  timestamp : Option Nat
  cursor : BitVec 64
  deriving DecidableEq, Repr

/-- `proc_tree::LifecycleEvent`; the evidence is weak, the scope of an exit is the task. -/
inductive LifecycleEvent where
  | spawn (info : EventMeta) (child_tid child_tgid parent_tid parent_tgid : Nat)
  | exec (info : EventMeta) (tid tgid : Nat)
  | exit (info : EventMeta) (tid tgid : Nat)
  deriving DecidableEq, Repr

/-- Map one event into the tracker's input; only forks, execs and exits are. -/
def map_proc_event (ev : PcEvent) (src : Nat) (cursor : BitVec 64) : Option LifecycleEvent :=
  match ev.body with
  | .fork parent_pid parent_tgid child_pid child_tgid timestamp_ns =>
      some (.spawn ⟨src, some timestamp_ns, cursor⟩ child_pid child_tgid parent_pid parent_tgid)
  | .exec pid tgid timestamp_ns => some (.exec ⟨src, some timestamp_ns, cursor⟩ pid tgid)
  | .exit pid tgid => some (.exit ⟨src, none, cursor⟩ pid tgid)
  | .comm .. | .uid | .gid | .sid | .ptrace | .coredump | .unknown => none

/-- The kinds whose numbers the mapper sees. -/
def PcEvent.tracked (ev : PcEvent) : Bool :=
  match ev.body with
  | .fork .. | .exec .. | .exit .. | .comm .. => true
  | .uid | .gid | .sid | .ptrace | .coredump | .unknown => false

/-- `trim_matches('\0')`. -/
def trim_nul (s : Str) : Str :=
  ((s.dropWhile (· = '\x00')).reverse.dropWhile (· = '\x00')).reverse

/-- The name of a `Comm` event. -/
def comm_name (comm : Bytes) : Str := trim_nul (Text.fromUtf8Lossy comm)

/-! ## The tracker -/

/-- What `proc_tree` is relied on for: events are applied one by one, `current` is the live
generation of a process, and a generation lives once, under one tgid. -/
class ProcTracker where
  Tree : Type
  /-- A generation. -/
  Key : Type
  key_eq : DecidableEq Key
  apply : Tree → LifecycleEvent → Tree
  current : Tree → Nat → Option Key
  /-- The generation has begun. -/
  known : Tree → Key → Prop
  known_current : ∀ {t tgid k}, current t tgid = some k → known t k
  known_apply : ∀ {t k} e, known t k → known (apply t e) k
  begins_once : ∀ {t k e tgid}, known t k → current (apply t e) tgid = some k → current t tgid = some k
  one_tgid : ∀ {t tgid tgid' k}, current t tgid = some k → current t tgid' = some k → tgid = tgid'

attribute [reducible, instance] ProcTracker.key_eq

/-- The live generation of each tgid, the generations numbered as they begin. -/
structure Generations where
  live : HashMap Nat Nat
  next : Nat
  below : ∀ {tgid k}, live.lookup tgid = some k → k < next
  apart : ∀ {tgid tgid' k}, live.lookup tgid = some k → live.lookup tgid' = some k → tgid = tgid'

namespace Generations

def initial : Generations := ⟨∅, 0, (by intro _ _ h; cases h), (by intro _ _ _ h; cases h)⟩

/-- A generation begins; one that is live under the tgid is over. -/
def spawn (g : Generations) (tgid : Nat) : Generations where
  live := g.live.insert tgid g.next
  next := g.next + 1
  below := by
    intro q k h
    rw [HashMap.lookup_insert'] at h
    split at h
    · cases h
      exact Nat.lt_succ_self _
    · exact Nat.lt_succ_of_lt (g.below h)
  apart := by
    intro q q' k h h'
    rw [HashMap.lookup_insert'] at h h'
    split at h
    · next hq =>
      split at h'
      · next hq' => rw [hq, hq']
      · cases h
        exact absurd (g.below h') (Nat.lt_irrefl _)
    · split at h'
      · cases h'
        exact absurd (g.below h) (Nat.lt_irrefl _)
      · exact g.apart h h'

theorem lookup_erase_some {m : HashMap Nat Nat} {p q k : Nat} (h : (m.erase p).lookup q = some k) :
    m.lookup q = some k := by
  rw [HashMap.lookup_erase'] at h
  split at h
  · cases h
  · exact h

def exit (g : Generations) (tgid : Nat) : Generations where
  live := g.live.erase tgid
  next := g.next
  below h := g.below (lookup_erase_some h)
  apart h h' := g.apart (lookup_erase_some h) (lookup_erase_some h')

/-- Processes come and go with their first thread. -/
def apply (g : Generations) : LifecycleEvent → Generations
  | .spawn _ child_tid child_tgid _ _ => if child_tid = child_tgid then g.spawn child_tgid else g
  | .exec .. => g
  | .exit _ tid tgid => if tid = tgid then g.exit tgid else g

end Generations

/-- A tracker that keeps nothing but the live generations. -/
@[reducible] def generations : ProcTracker where
  Tree := Generations
  Key := Nat
  key_eq := inferInstance
  apply := Generations.apply
  current g tgid := g.live.lookup tgid
  known g k := k < g.next
  known_current := Generations.below _
  known_apply := by
    intro g k e h
    cases e with
    | spawn info child_tid child_tgid parent_tid parent_tgid =>
        rw [Generations.apply]
        split
        · exact Nat.lt_succ_of_lt h
        · exact h
    | exec info tid tgid => exact h
    | exit info tid tgid =>
        rw [Generations.apply]
        split
        · exact h
        · exact h
  begins_once := by
    intro g k e q hk h
    cases e with
    | spawn info child_tid child_tgid parent_tid parent_tgid =>
        rw [Generations.apply] at h
        split at h
        · rw [Generations.spawn, HashMap.lookup_insert'] at h
          split at h
          · cases h
            exact absurd hk (Nat.lt_irrefl _)
          · exact h
        · exact h
    | exec info tid tgid => exact h
    | exit info tid tgid =>
        rw [Generations.apply] at h
        split at h
        · exact Generations.lookup_erase_some h
        · exact h
  one_tgid := Generations.apart _

/-! ## One datagram -/

/-- A health signal. -/
structure Signal where
  health : SourceHealth
  /-- The place of the message it was raised at, within its datagram (a history variable). -/
  place : Nat
  deriving DecidableEq, Repr

/-- The variables of the parse loop. -/
structure Parsed where
  mapper : EventMapper
  events : List LifecycleEvent
  health : Option Signal
  comm_updates : List (Nat × Str)

def parse_item (src place : Nat) (p : Parsed) : PcItem → Parsed
  | .event ev =>
      let r := p.mapper.cursor ev.cpu ev.seq
      let health := p.health.or (r.2.1.map (⟨·, place⟩))
      match ev.body with
      | .fork .. | .exec .. | .exit .. =>
          { p with mapper := r.2.2, health, events := p.events ++ (map_proc_event ev src r.1).toList }
      | .comm _ tgid comm =>
          { p with
            mapper := r.2.2
            health
            comm_updates :=
              if comm_name comm = [] then p.comm_updates else p.comm_updates ++ [(tgid, comm_name comm)] }
      | .uid | .gid | .sid | .ptrace | .coredump | .unknown => p
  | .overrun => { p with health := p.health.or (some ⟨.overrun 0, place⟩) }
  | .nothing | .truncated | .error => p

/-- The messages of a datagram, from the given place on. -/
def parse_items (src : Nat) : Nat → List PcItem → Parsed → Parsed
  | _, [], p => p
  | place, item :: items, p => parse_items src (place + 1) items (parse_item src place p item)

section
variable [ProcTracker]

open ProcTracker

/-- The tracker with what was told to it, and the mapper. -/
structure ProcState where
  tree : Tree
  /-- The calls of `enrich`, oldest first. -/
  enriched : List (Key × Str)
  /-- The calls of `report_health`, oldest first. -/
  reports : List Signal
  mapper : EventMapper

namespace ProcState

/-- The daemon's start: a tree, and no message yet. -/
def start (tree : Tree) : ProcState := ⟨tree, [], [], .new⟩

/-- Lifecycle events are applied in one batch, names are attached to what is current after it, and the
first signal is reported. -/
def handle_proc_events (src : Nat) (s : ProcState) (items : List PcItem) : ProcState :=
  let p := parse_items src 0 items ⟨s.mapper, [], none, []⟩
  let tree := p.events.foldl apply s.tree
  { tree
    enriched := s.enriched ++ p.comm_updates.filterMap fun u => (current tree u.1).map fun key => (key, u.2)
    reports := s.reports ++ p.health.toList
    mapper := p.mapper }

/-- A stream, cut into datagrams. -/
def run (src : Nat) (tree : Tree) (datagrams : List (List PcItem)) : ProcState :=
  Run.exec (handle_proc_events src) (start tree) datagrams

end ProcState

end

end Fsmon.ProcCache
