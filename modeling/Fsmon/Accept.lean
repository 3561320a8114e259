/-
# `Fsmon.Accept` — one connection at a time, inside `select!`

`accept_socket_connection` and `handle_socket_accept`.  Accepting a connection and
reading its command is one future in the main loop's `select!`: it waits at the
`accept`, then at each `read_line`, and when another branch fires first it is
dropped, and the connection with it.  What follows the last line (parsing,
processing, the reply) is the branch's body, which nothing interrupts.

    read_line      the next line, or what is left when the client has closed its side
    message_line   what the loop does with it: stop, or wait for another
    command        the command a client delivers: its first lines that make a JSON value
    step           arrivals, accepts, reads, and other branches, in any order

A connection is answered once, and its command processed once, if no other branch
fires while it is read, no blank line comes before the end of the command, the
last line is ended, and a `List` finds only paths that are UTF-8 (`answered_once`).

`serde_json` is two parameters: which texts are JSON, and which are a command.
The branches the other modules do not model (a tick, a heartbeat, a proc event,
the death of a reader) fire as `none`.
-/
import Fsmon.Monitor.Daemon
import Fsmon.Delivery

namespace Fsmon

open Text (trim)

/-! ## The protocol -/

/-- A command, parsed. -/
inductive Request where
  /-- `Add` or `Remove`. -/
  | change (cmd : SocketCmd)
  | list
  | health
  | subscribe (types : Option (List String)) (track_cmd : Option String) (local_time : Option Bool)
  deriving DecidableEq, Repr

/-- What is written to a connection; the first line, for a subscriber. -/
inductive Reply where
  | invalid_command
  | ok
  | error (e : SocketError)
  | paths (entries : List PathEntry)
  | health (monitored_paths reader_groups : Nat)
  deriving DecidableEq, Repr

/-- `serde_json` prints a path only if it is UTF-8; what cannot be printed is not sent. -/
def Reply.prints : Reply → Bool
  | .paths entries => entries.all fun e => (Text.fromUtf8 e.path.toBytes).isSome
  | _ => true

namespace Accept

/-- `read_line`: the next line with its newline; at the end of the stream what is left, and nothing after
that.  `none` while there is neither. -/
def read_line : Str → Bool → Option (Str × Str)
  | [], eof => if eof then some ([], []) else none
  | c :: s, eof => if c = '\n' then some ([c], s) else (read_line s eof).map fun r => (c :: r.1, r.2)

/-- The lines of a text, each with its newline. -/
def lines : Str → List Str
  | [] => []
  | c :: s =>
      if c = '\n' then [c] :: lines s
      else
        match lines s with
        | [] => [[c]]
        | l :: ls => (c :: l) :: ls

theorem read_line_nil : ∀ {s : Str} {eof : Bool} {rest : Str}, read_line s eof = some ([], rest) →
    s = [] ∧ eof = true ∧ rest = [] := by
  intro s eof rest h
  cases s with
  | nil =>
      rw [read_line] at h
      split at h
      · next he =>
        cases h
        exact ⟨rfl, he, rfl⟩
      · cases h
  | cons c s =>
      rw [read_line] at h
      split at h
      · cases h
      · obtain ⟨r, _, hr⟩ := Option.map_eq_some_iff.1 h
        cases hr

/-- A line that is read is the next line of the text. -/
theorem lines_read {eof : Bool} {future : Str} (heof : eof = true → future = []) :
    ∀ {inbox line rest : Str}, read_line inbox eof = some (line, rest) → line ≠ [] →
      lines (inbox ++ future) = line :: lines (rest ++ future) := by
  intro inbox
  induction inbox with
  | nil =>
      intro line rest h hline
      rw [read_line] at h
      split at h
      · cases h
        exact absurd rfl hline
      · cases h
  | cons c s ih =>
      intro line rest h _
      rw [read_line] at h
      rw [List.cons_append, lines]
      split at h
      · next hc =>
        cases h
        rw [if_pos hc]
      · next hc =>
        rw [if_neg hc]
        obtain ⟨⟨l, r⟩, hr, heq⟩ := Option.map_eq_some_iff.1 h
        cases heq
        cases l with
        | nil =>
            obtain ⟨rfl, he, rfl⟩ := read_line_nil hr
            rw [heof he]
            rfl
        | cons d l => rw [ih hr (List.cons_ne_nil d l)]

theorem read_line_none : ∀ {s : Str} {eof : Bool}, read_line s eof = none → eof = false ∧ '\n' ∉ s := by
  intro s eof
  induction s with
  | nil =>
      intro h
      rw [read_line] at h
      split at h
      · cases h
      · next he => exact ⟨by simpa using he, List.not_mem_nil⟩
  | cons c s ih =>
      intro h
      rw [read_line] at h
      split at h
      · cases h
      · next hc =>
        obtain ⟨he, hs⟩ := ih (Option.map_eq_none_iff.1 h)
        refine ⟨he, fun hmem => ?_⟩
        rcases List.mem_cons.1 hmem with rfl | hmem
        · exact hc rfl
        · exact hs hmem

theorem lines_single : ∀ {s : Str}, '\n' ∉ s → s ≠ [] → lines s = [s] := by
  intro s
  induction s with
  | nil => exact fun _ h => absurd rfl h
  | cons c s ih =>
      intro h _
      have hc : c ≠ '\n' := fun hc => h (hc ▸ List.mem_cons_self)
      rw [lines, if_neg hc]
      cases s with
      | nil => rfl
      | cons d s => rw [ih (fun hs => h (List.mem_cons_of_mem _ hs)) (List.cons_ne_nil d s)]

/-- What the loop knows after a line: the message is read, or it goes on. -/
inductive Heard where
  | done (message : Str)
  | more (message : Str)
  deriving DecidableEq, Repr

section
variable (is_json : Str → Bool)

/-- The body of the reading loop. -/
def message_line (message line : Str) : Heard :=
  if line = [] then .done message
  else if trim line = [] ∧ message ≠ [] then .done message
  else if is_json (trim (message ++ line)) then .done (message ++ line)
  else .more (message ++ line)

/-- The command a client delivers: its first lines that make a JSON value. -/
def command (message : Str) : List Str → Option Str
  | [] => none
  | line :: rest =>
      if is_json (trim (message ++ line)) then some (trim (message ++ line))
      else command (message ++ line) rest

/-- Up to the end of the command, every line is ended (by its newline, or by the client closing its side),
and none but the first is blank. -/
def plain (closes : Bool) (message : Str) : List Str → Bool
  | [] => false
  | line :: rest =>
      (decide (line.getLast? = some '\n') || closes) && (decide (trim line ≠ []) || decide (message = [])) &&
        (is_json (trim (message ++ line)) || plain closes (message ++ line) rest)

end

/-- A connection, seen from the daemon. -/
structure Conn where
  /-- What has arrived and is not read. -/
  inbox : Str
  /-- What the client has yet to send. -/
  future : Str
  /-- The client has closed its side. -/
  eof : Bool

/-- What has not been read. -/
def Conn.unread (c : Conn) : Str := c.inbox ++ c.future

/-- The main loop and its clients. -/
structure Server where
  monitor : Monitor
  conns : Nat → Conn
  /-- Connections nobody has accepted. -/
  backlog : List Nat
  /-- The connection that is being read, with the lines so far. -/
  current : Option (Nat × Str)
  /-- The connections accepted so far (a history variable). -/
  accepted : List Nat
  /-- The commands processed so far. -/
  processed : List (Nat × Request)
  /-- The replies written so far. -/
  replies : List (Nat × Reply)

/-- What happens next. -/
inductive Happening where
  | connect (id : Nat)
  /-- The next `n` characters of a client arrive. -/
  | arrive (id n : Nat)
  /-- A client that has sent everything closes its side. -/
  | close (id : Nat)
  /-- `accept` returns. -/
  | accept
  /-- `read_line` returns, if there is a line. -/
  | read (os : Os)
  /-- Another branch of `select!` fires. -/
  | fire (b : Option Monitor.Step)

namespace Server

/-- A line is taken out of a connection. -/
def took (s : Server) (id : Nat) (rest : Str) : Server :=
  { s with conns := Function.update s.conns id { s.conns id with inbox := rest } }

section
variable [Sizefilter] (is_json : Str → Bool) (parse : Str → Option Request)

/-- `handle_subscribe` and `handle_socket_cmd`. -/
def answer (os : Os) (m : Monitor) : Request → Reply × Monitor
  | .change cmd =>
      match m.handle_socket_cmd os cmd with
      | (.ok (), m') => (.ok, m')
      | (.error e, m') => (.error e, m')
  | .list => (.paths (m.monitored_entries.map fun e => list_entry e.1 e.2), m)
  | .health => (.health m.monitored_entries.length m.fanotify.groups.len, m)
  | .subscribe _ _ _ => (.ok, m)

/-- `handle_socket_accept`. -/
def handle_socket_accept (os : Os) (s : Server) (id : Nat) (cmd_str : Str) : Server :=
  match parse cmd_str with
  | none => { s with current := none, replies := s.replies ++ [(id, .invalid_command)] }
  | some cmd =>
      let (reply, monitor) := answer os s.monitor cmd
      { s with
        monitor
        current := none
        processed := s.processed ++ [(id, cmd)]
        replies := if reply.prints then s.replies ++ [(id, reply)] else s.replies }

/-- One `read_line` of the loop, and what it leads to. -/
def read (os : Os) (s : Server) (id : Nat) (message : Str) : Server :=
  match read_line (s.conns id).inbox (s.conns id).eof with
  | none => s
  | some (line, rest) =>
      match message_line is_json message line with
      | .done message => handle_socket_accept parse os (s.took id rest) id (trim message)
      | .more message => { s.took id rest with current := some (id, message) }

variable (closes : Nat → Bool)

def step (s : Server) : Happening → Server
  | .connect id => if id ∈ s.backlog ∨ id ∈ s.accepted then s else { s with backlog := s.backlog ++ [id] }
  | .arrive id n =>
      let c := s.conns id
      { s with
        conns :=
          Function.update s.conns id { c with inbox := c.inbox ++ c.future.take n, future := c.future.drop n } }
  | .close id =>
      if closes id = true ∧ (s.conns id).future = [] then
        { s with conns := Function.update s.conns id { s.conns id with eof := true } }
      else s
  | .accept =>
      match s.current, s.backlog with
      | none, id :: rest =>
          { s with backlog := rest, current := some (id, []), accepted := s.accepted ++ [id] }
      | _, _ => s
  | .read os =>
      match s.current with
      | none => s
      | some (id, message) => read is_json parse os s id message
  -- the future is dropped, with the connection it was reading
  | .fire b => { s with monitor := b.elim s.monitor s.monitor.step, current := none }

variable (text : Nat → Str)

omit [Sizefilter] in
/-- The clients have not connected, and nothing they will send has arrived. -/
def start (m : Monitor) : Server := ⟨m, fun id => ⟨[], text id, false⟩, [], none, [], [], []⟩

/-! ## Exactly once -/

omit [Sizefilter] in
/-- The command a connection delivers. -/
def delivers (id : Nat) : Option Str := command is_json [] (lines (text id))

omit [Sizefilter] in
/-- The command of a connection has been processed once, if it delivers one, and there is one reply. -/
def Answered (s : Server) (id : Nat) : Prop :=
  (s.processed.filter fun p => p.1 = id) =
      ((delivers is_json text id).bind parse).toList.map (fun cmd => (id, cmd)) ∧
    (s.replies.filter fun r => r.1 = id).length = 1

omit [Sizefilter] in
/-- If the connection asks for the list, the list can be printed. -/
def Printable (s : Server) (id : Nat) : Prop :=
  (delivers is_json text id).bind parse = some .list →
    ∀ e ∈ s.monitor.monitored_entries, (Text.fromUtf8 e.1.toBytes).isSome = true

/-- The connection is being read; once a command has arrived whole, reading on answers it. -/
def Reading (s : Server) (id : Nat) : Prop :=
  (∃ message, s.current = some (id, message)) ∧
    (s.processed.filter fun p => p.1 = id) = [] ∧ (s.replies.filter fun r => r.1 = id) = [] ∧
    ((delivers is_json text id).isSome = true → (s.conns id).future = [] →
      (closes id = true → (s.conns id).eof = true) → s.Printable is_json parse text id → ∀ os, ∃ n,
        Answered is_json parse text (Run.exec (step is_json parse closes) s (List.replicate n (.read os))) id)

/-- Every connection that was accepted has been answered once, or is the one that is being read. -/
def Served (s : Server) : Prop :=
  ∀ id ∈ s.accepted, Answered is_json parse text s id ∨ Reading is_json parse closes text s id

omit [Sizefilter] in
/-- No other branch fires while a connection is read, commands are sent in plain lines, and what is
listed can be printed. -/
def Undisturbed (s : Server) : Happening → Prop
  | .fire _ => s.current = none
  | .accept => ∀ id, s.backlog.head? = some id → (delivers is_json text id).isSome = true →
      plain is_json (closes id) [] (lines (text id)) = true
  | .read _ => ∀ id message, s.current = some (id, message) → s.Printable is_json parse text id
  | _ => True

end

/-! ### What holds at every point of an undisturbed run -/

section
variable (is_json : Str → Bool) (parse : Str → Option Request) (closes : Nat → Bool) (text : Nat → Str)

/-- The connection that is read: nothing is done for it, and its command is still ahead. -/
structure Ahead (s : Server) (id : Nat) (message : Str) : Prop where
  accepted : id ∈ s.accepted
  unprocessed : (s.processed.filter fun p => p.1 = id) = []
  unreplied : (s.replies.filter fun r => r.1 = id) = []
  command : command is_json message (lines (s.conns id).unread) = delivers is_json text id
  plain : (delivers is_json text id).isSome = true →
    Accept.plain is_json (closes id) message (lines (s.conns id).unread) = true
  unfinished : message = [] ∨ is_json (trim message) = false

/-- A connection nobody has accepted: all of its text is ahead. -/
structure Untouched (s : Server) (id : Nat) : Prop where
  unread : (s.conns id).unread = text id
  unprocessed : (s.processed.filter fun p => p.1 = id) = []
  unreplied : (s.replies.filter fun r => r.1 = id) = []

structure Orderly (s : Server) : Prop where
  nodup : s.backlog.Nodup
  waiting : ∀ id ∈ s.backlog, id ∉ s.accepted
  fresh : ∀ id, id ∉ s.accepted → s.Untouched text id
  sent : ∀ id, (s.conns id).eof = true → (s.conns id).future = []
  ahead : ∀ id message, s.current = some (id, message) → Ahead is_json closes text s id message
  others : ∀ id ∈ s.accepted, (∀ message, s.current ≠ some (id, message)) →
    Answered is_json parse text s id

end

section
variable {is_json : Str → Bool} {parse : Str → Option Request} {closes : Nat → Bool} {text : Nat → Str}
  {s : Server} {id : Nat} {message rest : Str}

@[simp] theorem took_future (id' : Nat) : ((s.took id rest).conns id').future = (s.conns id').future := by
  by_cases h : id' = id
  · rw [h]
    simp [took]
  · simp [took, h]

@[simp] theorem took_eof (id' : Nat) : ((s.took id rest).conns id').eof = (s.conns id').eof := by
  by_cases h : id' = id
  · rw [h]
    simp [took]
  · simp [took, h]

theorem took_conns {id' : Nat} (h : id' ≠ id) : (s.took id rest).conns id' = s.conns id' :=
  Function.update_of_ne h ..

theorem took_unread : ((s.took id rest).conns id).unread = rest ++ (s.conns id).future := by
  simp [took, Conn.unread]

theorem start_orderly (m : Monitor) : Orderly is_json parse closes text (start text m) where
  nodup := List.nodup_nil
  waiting _ h := absurd h List.not_mem_nil
  fresh _ _ := ⟨rfl, rfl, rfl⟩
  sent _ h := by cases h
  ahead _ _ h := by cases h
  others _ h := absurd h List.not_mem_nil

/-- Only what arrives changes. -/
theorem Orderly.arrives (h : Orderly is_json parse closes text s) {conns : Nat → Conn}
    (hunread : ∀ id, (conns id).unread = (s.conns id).unread)
    (hsent : ∀ id, (conns id).eof = true → (conns id).future = []) :
    Orderly is_json parse closes text { s with conns } where
  nodup := h.nodup
  waiting := h.waiting
  fresh id hid := { h.fresh id hid with unread := (hunread id).trans (h.fresh id hid).unread }
  sent := hsent
  ahead id message hcur := by
    obtain ⟨hacc, hproc, hrep, hcmd, hplain, hun⟩ := h.ahead id message hcur
    exact ⟨hacc, hproc, hrep, (hunread id).symm ▸ hcmd, (hunread id).symm ▸ hplain, hun⟩
  others := h.others

/-- The next connection is accepted. -/
theorem Orderly.accepts (h : Orderly is_json parse closes text s) {backlog : List Nat}
    (hcur : s.current = none) (hbacklog : s.backlog = id :: backlog)
    (hplain : (delivers is_json text id).isSome = true →
      plain is_json (closes id) [] (lines (text id)) = true) :
    Orderly is_json parse closes text
      { s with backlog, current := some (id, []), accepted := s.accepted ++ [id] } := by
  have hnodup := h.nodup
  rw [hbacklog, List.nodup_cons] at hnodup
  have hfresh := h.fresh id (h.waiting id (hbacklog ▸ List.mem_cons_self))
  refine ⟨hnodup.2, fun id' hid' hacc => ?_, fun id' hid' => ?_, h.sent, fun id' message' hc => ?_,
    fun id' hid' hne => ?_⟩
  · rcases List.mem_append.1 hacc with hacc | hacc
    · exact h.waiting id' (hbacklog ▸ List.mem_cons_of_mem _ hid') hacc
    · exact hnodup.1 (List.mem_singleton.1 hacc ▸ hid')
  · exact { h.fresh id' fun hacc => hid' (List.mem_append_left _ hacc) with }
  · cases hc
    exact ⟨List.mem_append_right _ List.mem_cons_self, hfresh.unprocessed, hfresh.unreplied,
      by rw [delivers]; exact congrArg (fun t => command is_json [] (lines t)) hfresh.unread,
      fun hsome => by rw [← hplain hsome]; exact congrArg (fun t => plain is_json _ [] (lines t)) hfresh.unread,
      Or.inl rfl⟩
  · rcases List.mem_append.1 hid' with hacc | hacc
    · exact h.others id' hacc fun message' hc => (by rw [hcur] at hc; cases hc)
    · cases List.mem_singleton.1 hacc
      exact absurd rfl (hne [])

/-! ### Reading -/

/-- A text that is not JSON is no command. -/
theorem parse_unfinished (hparse : ∀ cmd_str r, parse cmd_str = some r → is_json cmd_str = true)
    (hempty : is_json [] = false) (h : message = [] ∨ is_json (trim message) = false) :
    parse (trim message) = none := by
  have hfalse : is_json (trim message) = false := by
    rcases h with rfl | h
    · exact hempty
    · exact h
  cases hp : parse (trim message) with
  | none => rfl
  | some r =>
      have htrue := hparse _ r hp
      rw [hfalse] at htrue
      cases htrue

/-- A whole command that does not come to its end has no line to read. -/
theorem Ahead.read_line_ne_none (h : Ahead is_json closes text s id message)
    (hsome : (delivers is_json text id).isSome = true) (hfuture : (s.conns id).future = [])
    (heof : closes id = true → (s.conns id).eof = true) :
    read_line (s.conns id).inbox (s.conns id).eof ≠ none := by
  intro hnone
  obtain ⟨hopen, hmem⟩ := read_line_none hnone
  have hplain := h.plain hsome
  rw [Conn.unread, hfuture, List.append_nil] at hplain
  by_cases hnil : (s.conns id).inbox = []
  · rw [hnil] at hplain
    cases hplain
  · rw [lines_single hmem hnil, Accept.plain] at hplain
    simp only [Bool.and_eq_true, Bool.or_eq_true, decide_eq_true_eq] at hplain
    rcases hplain.1.1 with hlast | hcloses
    · exact hmem (List.mem_of_getLast? hlast)
    · rw [heof hcloses] at hopen
      cases hopen

/-- A blank line inside a message comes only if there is no command. -/
theorem Ahead.blank (h : Ahead is_json closes text s id message) {line : Str} {ls : List Str}
    (hlines : lines (s.conns id).unread = line :: ls) (hblank : trim line = []) (hmessage : message ≠ []) :
    delivers is_json text id = none := by
  cases hd : delivers is_json text id with
  | none => rfl
  | some cmd =>
      have hplain := h.plain (hd ▸ rfl)
      rw [hlines, Accept.plain] at hplain
      simp [hblank, hmessage] at hplain

section
variable [Sizefilter]

/-- Every answer can be printed, if the list can. -/
theorem prints_answer (os : Os) {m : Monitor} {cmd : Request}
    (h : cmd = .list → ∀ e ∈ m.monitored_entries, (Text.fromUtf8 e.1.toBytes).isSome = true) :
    (answer os m cmd).1.prints = true := by
  cases cmd with
  | change cmd =>
      rw [answer]
      rcases m.handle_socket_cmd os cmd with ⟨_ | _, m'⟩ <;> rfl
  | list =>
      refine List.all_eq_true.2 fun e he => ?_
      obtain ⟨e', he', rfl⟩ := List.mem_map.1 he
      exact h rfl e' he'
  | health | subscribe _ _ _ => rfl

/-- What the handler adds. -/
theorem handle_spec (os : Os) (s : Server) (id : Nat) {cmd_str : Str}
    (h : parse cmd_str = some .list →
      ∀ e ∈ s.monitor.monitored_entries, (Text.fromUtf8 e.1.toBytes).isSome = true) :
    ∃ m r, handle_socket_accept parse os s id cmd_str =
      { s with
        monitor := m
        current := none
        processed := s.processed ++ (parse cmd_str).toList.map (fun cmd => (id, cmd))
        replies := s.replies ++ [(id, r)] } := by
  rw [handle_socket_accept]
  cases hp : parse cmd_str with
  | none => exact ⟨s.monitor, .invalid_command, by simp⟩
  | some cmd =>
      have hprints : (answer os s.monitor cmd).1.prints = true :=
        prints_answer os fun hlist => h (hlist ▸ hp)
      refine ⟨(answer os s.monitor cmd).2, (answer os s.monitor cmd).1, ?_⟩
      simp only [hprints, if_true]
      rfl

/-- The handler answers the connection that was read. -/
theorem Orderly.handled (h : Orderly is_json parse closes text s) (hcur : s.current = some (id, message))
    (os : Os) (rest : Str) {cmd_str : Str} (hprint : s.Printable is_json parse text id)
    (hcmd : parse cmd_str = (delivers is_json text id).bind parse) :
    Orderly is_json parse closes text (handle_socket_accept parse os (s.took id rest) id cmd_str) ∧
      Answered is_json parse text (handle_socket_accept parse os (s.took id rest) id cmd_str) id := by
  obtain ⟨m, r, heq⟩ := handle_spec os (s.took id rest) id fun hlist => hprint (hcmd ▸ hlist)
  have hahead := h.ahead id message hcur
  have hself : Answered is_json parse text
      (handle_socket_accept parse os (s.took id rest) id cmd_str) id := by
    rw [heq, hcmd]
    constructor
    · show ((s.processed ++ _).filter _) = _
      rw [List.filter_append, hahead.unprocessed, List.nil_append]
      refine List.filter_eq_self.2 fun p hp => ?_
      obtain ⟨cmd, _, rfl⟩ := List.mem_map.1 hp
      exact decide_eq_true rfl
    · show ((s.replies ++ _).filter _).length = 1
      rw [List.filter_append, hahead.unreplied]
      simp
  refine ⟨?_, hself⟩
  have hproc : ∀ id', id' ≠ id →
      ((s.processed ++ (parse cmd_str).toList.map fun cmd => (id, cmd)).filter fun p => p.1 = id') =
        s.processed.filter fun p => p.1 = id' := by
    intro id' hne
    rw [List.filter_append]
    refine (congrArg _ (List.filter_eq_nil_iff.2 fun p hp => ?_)).trans (List.append_nil _)
    obtain ⟨cmd, _, rfl⟩ := List.mem_map.1 hp
    simpa using Ne.symm hne
  have hrep : ∀ id', id' ≠ id →
      ((s.replies ++ [(id, r)]).filter fun r => r.1 = id') = s.replies.filter fun r => r.1 = id' := by
    intro id' hne
    simp [List.filter_append, Ne.symm hne]
  have hother : ∀ id' ∈ s.accepted, id' ≠ id →
      Answered is_json parse text (handle_socket_accept parse os (s.took id rest) id cmd_str) id' := by
    intro id' hid' hne
    have hans := h.others id' hid' fun message' hc => by
      rw [hcur] at hc
      cases hc
      exact hne rfl
    rw [heq]
    exact ⟨(hproc id' hne).trans hans.1, (congrArg List.length (hrep id' hne)).trans hans.2⟩
  rw [heq] at hself hother ⊢
  refine ⟨h.nodup, h.waiting, fun id' hid' => ?_, fun id' he => ?_,
    fun _ _ hc => (by cases hc), fun id' hid' _ => ?_⟩
  · have hne : id' ≠ id := fun heq => hid' (heq ▸ hahead.accepted)
    have hfresh := h.fresh id' hid'
    refine ⟨?_, (hproc id' hne).trans hfresh.unprocessed, (hrep id' hne).trans hfresh.unreplied⟩
    show ((s.took id rest).conns id').unread = text id'
    rw [took_conns hne]
    exact hfresh.unread
  · exact (took_future id').trans (h.sent id' ((took_eof id').symm.trans he))
  · by_cases hne : id' = id
    · rw [hne]
      exact hself
    · exact hother id' hid' hne

omit [Sizefilter] in
/-- A line that does not end the message is kept, and the command is still ahead. -/
theorem Orderly.more (h : Orderly is_json parse closes text s) (hcur : s.current = some (id, message))
    {line : Str} (hlines : lines (s.conns id).unread = line :: lines (rest ++ (s.conns id).future))
    (hjson : is_json (trim (message ++ line)) = false) :
    Orderly is_json parse closes text { s.took id rest with current := some (id, message ++ line) } := by
  have hahead := h.ahead id message hcur
  refine ⟨h.nodup, h.waiting, fun id' hid' => ?_, fun id' he => ?_, fun id' message' hc => ?_,
    fun id' hid' hne => ?_⟩
  · have hne : id' ≠ id := fun heq => hid' (heq ▸ hahead.accepted)
    have hfresh := h.fresh id' hid'
    refine ⟨?_, hfresh.unprocessed, hfresh.unreplied⟩
    show ((s.took id rest).conns id').unread = text id'
    rw [took_conns hne]
    exact hfresh.unread
  · exact (took_future id').trans (h.sent id' ((took_eof id').symm.trans he))
  · cases hc
    refine ⟨hahead.accepted, hahead.unprocessed, hahead.unreplied, ?_, fun hsome => ?_, Or.inr hjson⟩
    · have hcmd := hahead.command
      rw [hlines, command, if_neg (by simp [hjson])] at hcmd
      show command is_json (message ++ line) (lines ((s.took id rest).conns id).unread) = _
      rw [took_unread]
      exact hcmd
    · have hplain := hahead.plain hsome
      rw [hlines, plain, hjson, Bool.false_or, Bool.and_eq_true] at hplain
      show plain is_json (closes id) (message ++ line) (lines ((s.took id rest).conns id).unread) = true
      rw [took_unread]
      exact hplain.2
  · refine h.others id' hid' fun message' hc => ?_
    rw [hcur] at hc
    cases hc
    exact hne _ rfl

/-- What a `read_line` leads to. -/
inductive Read (is_json : Str → Bool) (parse : Str → Option Request) (text : Nat → Str) (id : Nat)
    (s s' : Server) : Prop where
  | stuck (h : read_line (s.conns id).inbox (s.conns id).eof = none) (same : s' = s)
  | answered (h : Answered is_json parse text s' id)
  | more (message : Str) (current : s'.current = some (id, message)) (monitor : s'.monitor = s.monitor)
      (future : (s'.conns id).future = (s.conns id).future) (eof : (s'.conns id).eof = (s.conns id).eof)
      (shorter : (lines (s'.conns id).unread).length < (lines (s.conns id).unread).length)

/-- A `read_line` keeps the order. -/
theorem Orderly.reads (hparse : ∀ cmd_str r, parse cmd_str = some r → is_json cmd_str = true)
    (hempty : is_json [] = false) (h : Orderly is_json parse closes text s)
    (hcur : s.current = some (id, message)) (hprint : s.Printable is_json parse text id) (os : Os) :
    Orderly is_json parse closes text (s.read is_json parse os id message) ∧
      Read is_json parse text id s (s.read is_json parse os id message) := by
  have hahead := h.ahead id message hcur
  have hnone := parse_unfinished hparse hempty hahead.unfinished
  rw [read]
  cases hline : read_line (s.conns id).inbox (s.conns id).eof with
  | none => exact ⟨h, .stuck hline rfl⟩
  | some next =>
      obtain ⟨line, rest⟩ := next
      dsimp only
      rw [message_line]
      by_cases hnil : line = []
      · -- the client has closed its side
        rw [hnil] at hline
        obtain ⟨hinbox, heof, -⟩ := read_line_nil hline
        have hcmd := hahead.command
        rw [Conn.unread, hinbox, h.sent id heof] at hcmd
        rw [if_pos hnil]
        obtain ⟨h', hans⟩ := h.handled hcur os rest hprint
          (show parse (trim message) = _ by rw [hnone, ← hcmd]; rfl)
        exact ⟨h', .answered hans⟩
      · have hlines := lines_read (h.sent id) hline hnil
        rw [if_neg hnil]
        by_cases hblank : trim line = [] ∧ message ≠ []
        · rw [if_pos hblank]
          obtain ⟨h', hans⟩ := h.handled hcur os rest hprint
            (show parse (trim message) = _ by rw [hnone, hahead.blank hlines hblank.1 hblank.2]; rfl)
          exact ⟨h', .answered hans⟩
        · rw [if_neg hblank]
          cases hjson : is_json (trim (message ++ line)) with
          | true =>
              have hcmd := hahead.command
              rw [Conn.unread, hlines, command, if_pos hjson] at hcmd
              obtain ⟨h', hans⟩ := h.handled hcur os rest hprint
                (show parse (trim (message ++ line)) = _ by rw [← hcmd]; rfl)
              exact ⟨h', .answered hans⟩
          | false =>
              refine ⟨h.more hcur hlines hjson, .more (message ++ line) rfl rfl (took_future id)
                (took_eof id) ?_⟩
              show (lines ((s.took id rest).conns id).unread).length < _
              rw [took_unread, Conn.unread, hlines]
              exact Nat.lt_succ_self _

/-- Reading on answers a command that has arrived whole. -/
theorem Orderly.answers (hparse : ∀ cmd_str r, parse cmd_str = some r → is_json cmd_str = true)
    (hempty : is_json [] = false) (os : Os) (hsome : (delivers is_json text id).isSome = true) :
    ∀ (n : Nat) {s : Server} {message : Str}, (lines (s.conns id).unread).length ≤ n →
      Orderly is_json parse closes text s → s.current = some (id, message) →
      (s.conns id).future = [] → (closes id = true → (s.conns id).eof = true) →
      s.Printable is_json parse text id → ∃ n,
        Answered is_json parse text
          (Run.exec (step is_json parse closes) s (List.replicate n (.read os))) id := by
  intro n
  induction n with
  | zero =>
      intro s message hlen h hcur _ _ _
      have hplain := (h.ahead id message hcur).plain hsome
      rw [List.eq_nil_of_length_eq_zero (Nat.le_zero.1 hlen)] at hplain
      cases hplain
  | succ n ih =>
      intro s message hlen h hcur hfuture heof hprint
      have hstep : step is_json parse closes s (.read os) = s.read is_json parse os id message := by
        rw [step, hcur]
      obtain ⟨h', hread⟩ := h.reads hparse hempty hcur hprint os
      cases hread with
      | stuck hnone _ =>
          exact absurd hnone ((h.ahead id message hcur).read_line_ne_none hsome hfuture heof)
      | answered hans =>
          refine ⟨1, ?_⟩
          show Answered is_json parse text (step is_json parse closes s (.read os)) id
          rw [hstep]
          exact hans
      | more message' hcur' hm hf he hshort =>
          obtain ⟨k, hk⟩ := ih (Nat.le_of_lt_succ (hshort.trans_le hlen)) h' hcur' (hf.trans hfuture)
            (fun hc => he.trans (heof hc)) (fun hlist => hm ▸ hprint hlist)
          refine ⟨k + 1, ?_⟩
          rw [List.replicate_succ, Run.exec_cons, hstep]
          exact hk

/-! ### Runs -/

theorem step_orderly (hparse : ∀ cmd_str r, parse cmd_str = some r → is_json cmd_str = true)
    (hempty : is_json [] = false) (a : Happening) (h : Orderly is_json parse closes text s)
    (hok : Undisturbed is_json parse closes text s a) :
    Orderly is_json parse closes text (step is_json parse closes s a) := by
  cases a with
  | connect id =>
      rw [step]
      split
      · exact h
      · next hnew =>
        have hnot := not_or.1 hnew
        refine ⟨?_, fun id' hid' => ?_, fun id' hid' => { h.fresh id' hid' with }, h.sent,
          fun id' message hc => { h.ahead id' message hc with }, h.others⟩
        · exact h.nodup.append (List.nodup_singleton id) (by simpa using hnot.1)
        · rcases List.mem_append.1 hid' with hid' | hid'
          · exact h.waiting id' hid'
          · exact List.mem_singleton.1 hid' ▸ hnot.2
  | arrive id n =>
      refine h.arrives (fun id' => ?_) fun id' he => ?_
      · by_cases heq : id' = id
        · rw [heq, Function.update_self]
          simp [Conn.unread]
        · rw [Function.update_of_ne heq]
      · by_cases heq : id' = id
        · rw [heq, Function.update_self] at he ⊢
          rw [h.sent id he]
          exact List.drop_nil
        · rw [Function.update_of_ne heq] at he ⊢
          exact h.sent id' he
  | close id =>
      rw [step]
      split
      · next hclose =>
        refine h.arrives (fun id' => ?_) fun id' he => ?_
        · by_cases heq : id' = id
          · rw [heq, Function.update_self]
            rfl
          · rw [Function.update_of_ne heq]
        · by_cases heq : id' = id
          · rw [heq, Function.update_self]
            exact hclose.2
          · rw [Function.update_of_ne heq] at he ⊢
            exact h.sent id' he
      · exact h
  | accept =>
      cases hcur : s.current with
      | some c =>
          simp only [step, hcur]
          exact h
      | none =>
          cases hbacklog : s.backlog with
          | nil =>
              simp only [step, hcur, hbacklog]
              exact h
          | cons id backlog =>
              simp only [step, hcur, hbacklog]
              exact h.accepts hcur hbacklog (hok id (by rw [hbacklog]; rfl))
  | read os =>
      cases hcur : s.current with
      | none =>
          simp only [step, hcur]
          exact h
      | some c =>
          simp only [step, hcur]
          exact (h.reads hparse hempty hcur (hok c.1 c.2 hcur) os).1
  | fire b =>
      have hcur : s.current = none := hok
      refine ⟨h.nodup, h.waiting, fun id hid => { h.fresh id hid with }, h.sent, fun _ _ hc => (by cases hc),
        fun id hid _ => h.others id hid fun message hc => ?_⟩
      rw [hcur] at hc
      cases hc

theorem Orderly.served (hparse : ∀ cmd_str r, parse cmd_str = some r → is_json cmd_str = true)
    (hempty : is_json [] = false) (h : Orderly is_json parse closes text s) :
    s.Served is_json parse closes text := by
  intro id hid
  by_cases hcur : ∃ message, s.current = some (id, message)
  · obtain ⟨message, hcur⟩ := hcur
    have hahead := h.ahead id message hcur
    refine Or.inr ⟨⟨message, hcur⟩, hahead.unprocessed, hahead.unreplied, ?_⟩
    intro hsome hfuture heof hprint os
    exact Orderly.answers hparse hempty os hsome _ le_rfl h hcur hfuture heof hprint
  · exact Or.inl (h.others id hid fun message hc => hcur ⟨message, hc⟩)

/-- In every run in which no other branch fires while a connection is read, every connection that was
accepted has been answered once, or is the one that is being read. -/
theorem answered_once (hparse : ∀ cmd_str r, parse cmd_str = some r → is_json cmd_str = true)
    (hempty : is_json [] = false) (m : Monitor) (run : List Happening)
    (hrun : Run.Guarded (step is_json parse closes) (Undisturbed is_json parse closes text) (start text m) run) :
    (Run.exec (step is_json parse closes) (start text m) run).Served is_json parse closes text :=
  (Run.inv_exec (fun _ a h hok => step_orderly hparse hempty a h hok) run _ (start_orderly m) hrun).served
    hparse hempty

end

/-! ### One client asks for the list -/

/-- The command, as `serde_json` prints it. -/
def listCommand : Str := [Json.quotationMark, 'L', 'i', 's', 't', Json.quotationMark]

/-- A client that sends the command and a newline. -/
def listClient (_ : Nat) : Str := listCommand ++ ['\n']

def isListCommand (cmd_str : Str) : Bool := cmd_str = listCommand

def parseListCommand (cmd_str : Str) : Option Request := if cmd_str = listCommand then some .list else none

theorem isListCommand_of_parse (cmd_str : Str) (r : Request) (h : parseListCommand cmd_str = some r) :
    isListCommand cmd_str = true := by
  rw [parseListCommand] at h
  split at h
  · next heq => exact decide_eq_true heq
  · cases h

/-- The command arrives, and the connection is accepted. -/
def asked : List Happening := [.connect 0, .arrive 0 7, .accept]

theorem answered_once_list : @Served noSizes isListCommand parseListCommand (fun _ => false) listClient
    (Run.exec (@step noSizes isListCommand parseListCommand fun _ => false) (start listClient .idle)
      (asked ++ [.read (.calm Os.bareTree)])) := by
  refine @answered_once isListCommand parseListCommand _ listClient noSizes isListCommand_of_parse rfl .idle _
    ⟨trivial, trivial, fun id hid _ => ?_, fun id message hcur _ e he => ?_, trivial⟩
  · cases hid
    rfl
  · cases he

/-- A tick drops the connection before its command is read. -/
theorem tick_drops_connection : ¬ @Served noSizes isListCommand parseListCommand (fun _ => false) listClient
    (Run.exec (@step noSizes isListCommand parseListCommand fun _ => false) (start listClient .idle)
      (asked ++ [.fire none])) := by
  intro h
  rcases h 0 List.mem_cons_self with hans | hread
  · cases hans.2
  · obtain ⟨message, hcur⟩ := hread.1
    cases hcur

end

end Server

end Accept

end Fsmon
