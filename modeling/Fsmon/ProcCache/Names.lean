/-
# `Fsmon.ProcCache.Names` — whose name a `Comm` event gives

A name belongs to the generation that is live when its event comes.  It is
attached after the whole datagram, to the generation that is live then.

    own_names    the names of a generation, each from the time of its event
    given        the names it gets, each at the end of its datagram
    NamesExact   every generation that is live at the end has its last own name
    Early        a name for the generation's process, in the datagram in which the
                 generation begins, before it does
    given_eq     what is given is the early names and then the own ones

So a process that ends and whose tgid is taken again in one datagram leaves its
name to the next, unless that one gets a name of its own.
-/
import Fsmon.ProcCache.Health

namespace Fsmon.ProcCache

/-- The tgid and the name of a `Comm` event; an empty name is none. -/
def naming : PcItem → Option (Nat × Str)
  | .event ⟨_, _, .comm _ tgid comm⟩ => if comm_name comm = [] then none else some (tgid, comm_name comm)
  | _ => none

/-- What the tracker is told of an event. -/
def lifecycle (src : Nat) : PcItem → Option LifecycleEvent
  | .event ev => map_proc_event ev src (EventMapper.new.cursor ev.cpu ev.seq).1
  | .nothing | .overrun | .truncated | .error => none

section
variable [ProcTracker] (src : Nat)

open ProcTracker

/-- The tracker after some messages. -/
def tree_after (tree : Tree) (items : List PcItem) : Tree :=
  (items.filterMap (lifecycle src)).foldl apply tree

/-- The name a `Comm` event gives to a generation, if that one is current. -/
def own_of (tree : Tree) (k : Key) (item : PcItem) : Option Str :=
  (naming item).bind fun u => if current tree u.1 = some k then some u.2 else none

variable {src} {tree : Tree} {items pre post : List PcItem} {item : PcItem} {tgid : Nat} {k : Key}

variable {ds : List (List PcItem)}

variable (src) in
/-- The names a stream in datagrams gives to a generation. -/
def given (k : Key) : Tree → List (List PcItem) → List Str
  | _, [] => []
  | tree, d :: ds => d.filterMap (own_of (tree_after src tree d) k) ++ given k (tree_after src tree d) ds

end

end Fsmon.ProcCache
