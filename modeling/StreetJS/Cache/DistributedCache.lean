/-
`DistributedCache` nodes over one transport: a local `LruCache` on each node, filled after an `await` and
cleared by invalidation messages. Every call is a state machine over its `await` points; the transport
takes up each request and delivers each message at a moment of its own.
-/
import StreetJS.Cache.Lru
import StreetJS.Lib.ListSet
import StreetJS.Lib.OrderedMap
import StreetJS.Lib.Runs

namespace StreetJS.Cache

open StreetJS.Lib

/-- A cached value, with the `set` call it comes from. -/
structure Copy where
  value : String
  origin : Nat
  deriving DecidableEq

inductive Op
  | get (key : String)
  | set (key value : String) (ttlMs : Option Nat)
  | invalidate (key : String)
  deriving DecidableEq

def Op.key : Op → String
  | .get key => key
  | .set key _ _ => key
  | .invalidate key => key

/-- Where a call waits: its request to the store is on the way, or is answered; for an invalidation, its
message is on the way to the transport, or is sent out. -/
inductive Phase
  | requested
  | answered (found : Option Copy)
  | publishing
  | published
  | done
  deriving DecidableEq

/-- A call, with the moment the store took up its request (a count of the writes taken up before), and for a
`set` with `ttlMs` when the value stored then runs out. -/
structure Call where
  node : Nat
  op : Op
  phase : Phase
  stamp : Option Nat
  deadline : Option Nat
  deriving DecidableEq

structure StoreEntry where
  copy : Copy
  deadline : Option Nat
  deriving DecidableEq

/-- An invalidation message on its way to a node. -/
structure Message where
  node : Nat
  key : String
  origin : Nat
  deriving DecidableEq

structure Cluster where
  now : Nat
  nodes : List (LruCache String Copy)
  store : OrderedMap String StoreEntry
  stamps : Nat
  calls : List Call
  messages : List Message

namespace Cluster

variable (s : Cluster)

/-- The transport's `get`: a value whose time to live has passed is not there. -/
def stored (key : String) : Option Copy :=
  match s.store.get key with
  | none => none
  | some e => if e.deadline.any fun deadline => s.now > deadline then none else some e.copy

/-- What a node's `get` finds locally. -/
def local? (node : Nat) (key : String) : Option Copy :=
  (s.nodes[node]?).bind fun c => c.read s.now key

/-! ## Calls up to their first `await` -/

def get (node : Nat) (key : String) : Cluster :=
  match s.nodes[node]? with
  | none => s
  | some lru =>
    match lru.get s.now key with
    | (some _, lru') => { s with nodes := s.nodes.set node lru' }
    | (none, lru') =>
      { s with nodes := s.nodes.set node lru', calls := s.calls ++ [⟨node, .get key, .requested, none, none⟩] }

def set (node : Nat) (key value : String) (ttlMs : Option Nat) : Cluster :=
  match s.nodes[node]? with
  | none => s
  | some lru =>
    { s with nodes := s.nodes.set node (lru.set s.now key ⟨value, s.calls.length⟩),
             calls := s.calls ++ [⟨node, .set key value ttlMs, .requested, none, none⟩] }

def invalidate (node : Nat) (key : String) : Cluster :=
  match s.nodes[node]? with
  | none => s
  | some lru =>
    { s with nodes := s.nodes.set node (lru.delete key),
             calls := s.calls ++ [⟨node, .invalidate key, .requested, none, none⟩] }

/-! ## The transport -/

/-- The transport takes up the request a call is waiting for: it reads or writes the store, or sends a message
to every node. -/
def serve (i : Nat) : Cluster :=
  match s.calls[i]? with
  | none => s
  | some c =>
    match c.phase, c.op with
    | .requested, .get key => { s with calls := s.calls.set i { c with phase := .answered (s.stored key) } }
    | .requested, .set key value ttlMs =>
      let deadline := ttlMs.map fun ttl => s.now + ttl
      { s with store := s.store.set key ⟨⟨value, i⟩, deadline⟩, stamps := s.stamps + 1,
               calls := s.calls.set i { c with phase := .answered none, stamp := some s.stamps, deadline := deadline } }
    | .requested, .invalidate key =>
      { s with store := s.store.delete key, stamps := s.stamps + 1,
               calls := s.calls.set i { c with phase := .answered none, stamp := some s.stamps } }
    | .publishing, .invalidate key =>
      { s with messages := s.messages ++ (List.range s.nodes.length).map fun node => ⟨node, key, i⟩,
               calls := s.calls.set i { c with phase := .published } }
    | _, _ => s

/-- A node handles the `j`-th message under way. -/
def deliver (j : Nat) : Cluster :=
  match s.messages[j]? with
  | none => s
  | some m =>
    let s' : Cluster := { s with messages := s.messages.eraseIdx j }
    match s.nodes[m.node]? with
    | none => s'
    | some lru => { s' with nodes := s.nodes.set m.node (lru.delete m.key) }

/-! ## Calls after an `await` -/

def resume (i : Nat) : Cluster :=
  match s.calls[i]? with
  | none => s
  | some c =>
    match c.phase, c.op with
    | .answered found, .get key =>
      let s' : Cluster := { s with calls := s.calls.set i { c with phase := .done } }
      match found, s.nodes[c.node]? with
      | some copy, some lru => { s' with nodes := s.nodes.set c.node (lru.set s.now key copy) }
      | _, _ => s'
    | .answered _, .set _ _ _ => { s with calls := s.calls.set i { c with phase := .done } }
    | .answered _, .invalidate _ => { s with calls := s.calls.set i { c with phase := .publishing } }
    | .published, .invalidate _ => { s with calls := s.calls.set i { c with phase := .done } }
    | _, _ => s

/-- A node's sweep timer. -/
def sweep (node : Nat) : Cluster :=
  match s.nodes[node]? with
  | none => s
  | some lru => { s with nodes := s.nodes.set node (lru.sweep s.now) }

end Cluster

/-! ## Runs -/

inductive Event
  | get (node : Nat) (key : String)
  | set (node : Nat) (key value : String) (ttlMs : Option Nat)
  | invalidate (node : Nat) (key : String)
  | serve (i : Nat)
  | resume (i : Nat)
  | deliver (j : Nat)
  | sweep (node : Nat)
  | pass (ms : Nat)

def step (s : Cluster) : Event → Cluster
  | .get node key => s.get node key
  | .set node key value ttlMs => s.set node key value ttlMs
  | .invalidate node key => s.invalidate node key
  | .serve i => s.serve i
  | .resume i => s.resume i
  | .deliver j => s.deliver j
  | .sweep node => s.sweep node
  | .pass ms => { s with now := s.now + ms }

/-- A cluster of empty nodes. -/
def start (nodes : List (LruCache String Copy)) : Cluster :=
  ⟨0, nodes.map fun c => c.keep fun _ => false, [], 0, [], []⟩

end StreetJS.Cache
