/-
The cluster client (`core/src/transports/cluster-client.ts`, `RedisClusterClient`): callers that share one connection to
each node, and follow redirects.
-/
import StreetJS.Lib.OrderedMap
import StreetJS.Redis.Resp

namespace StreetJS.Redis

open StreetJS.Lib

/-! ## Hash slots -/

def crc16 (bytes : List UInt8) : UInt16 :=
  bytes.foldl (fun (crc : UInt16) (byte : UInt8) =>
    (List.range 8).foldl (fun (crc : UInt16) _ => if crc &&& 0x8000 ≠ 0 then (crc <<< 1) ^^^ 0x1021 else crc <<< 1)
      (crc ^^^ (byte.toUInt16 <<< 8))) 0

/-- What is between the first `{` and the next `}`, if that is not empty. -/
def hashTag (key : Text) : Text :=
  let behind := (key.dropWhile (· ≠ '\x7b')).drop 1
  let tag := behind.takeWhile (· ≠ '\x7d')
  if tag ≠ [] ∧ behind.contains '\x7d' then tag else key

def hashSlot (key : Text) : Int := ((crc16 ((hashTag key).flatMap String.utf8EncodeChar)).toNat % 16384 : Nat)

/-! ## Replies of a node -/

/-- The reply to a keyed command; other errors do not have the code of a redirect. -/
inductive Reply where
  | simple (s : Text)
  | moved (slot : Nat) (host : Text) (port : Nat)
  | ask (slot : Nat) (host : Text) (port : Nat)
  | error (message : Text)
  | integer (n : Int)
  | bulk (s : Text)
  | null

namespace Reply

def target (slot : Nat) (host : Text) (port : Nat) : Text :=
  ' ' :: (Nat.toDigits 10 slot ++ ' ' :: (host ++ ':' :: Nat.toDigits 10 port))

/-- The text of an error. -/
def message : Reply → Option Text
  | .moved slot host port => some ('M' :: 'O' :: 'V' :: 'E' :: 'D' :: target slot host port)
  | .ask slot host port => some ('A' :: 'S' :: 'K' :: target slot host port)
  | .error message => some message
  | _ => none

/-- What `RespParser` makes of the reply. -/
def value (r : Reply) : RespValue :=
  match r with
  | .simple s => .text s
  | .integer n => .number n
  | .bulk s => .text s
  | .null => .null
  | .moved _ _ _ | .ask _ _ _ | .error _ => .text ('E' :: 'R' :: 'R' :: ':' :: r.message.getD [])

/-- The redirect that a node asks for. -/
def redirect : Reply → Option Redirect
  | .moved slot host port => some { kind := .moved, slot, node := { host, port } }
  | .ask slot host port => some { kind := .ask, slot, node := { host, port } }
  | _ => none

end Reply

/-! ## The client -/

inductive KeyedOp where
  | get
  | set (value : Text) (ttlMs : Option Nat)
  | del

/-- What a call of `route` waits for. -/
inductive RoutePhase where
  | connecting
  | asking
  | sent
  | returned (value : RespValue)
  /-- It throws: too many redirects, or no connection. -/
  | exceeded
  | refused

structure Caller where
  key : Text
  op : KeyedOp
  target : ClusterNode
  asking : Bool := false
  attempt : Nat := 0
  phase : RoutePhase := .connecting
  /-- The replies to its command. -/
  answers : List Reply := []

/-- A command on the connection of a node: `ASKING` or the command of a caller, or one that no caller of `route` waits for,
`CLUSTER SLOTS` or `PUBLISH`. -/
structure Write where
  node : ClusterNode
  caller : Option Nat
  asking : Bool := false
  /-- The last reply to the caller is an ASK. -/
  afterAsk : Bool := false
deriving DecidableEq

structure ClusterWorld where
  seed : ClusterNode
  maxRedirects : Nat := 5
  slotMap : OrderedMap Int ClusterNode := []
  callers : List Caller := []
  /-- What is written to the connections, in order. -/
  writes : List Write := []

inductive ClusterEvent where
  | call (key : Text) (op : KeyedOp)
  /-- The slots of the cluster are asked for on the connection of a node, or a message is published there. -/
  | other (node : ClusterNode)
  /-- The slots of the cluster are known again. -/
  | refresh (slotMap : OrderedMap Int ClusterNode)
  /-- The connection to the target is there, or not to be had. -/
  | connected (i : Nat)
  | refused (i : Nat)
  /-- The reply to `ASKING`. -/
  | asked (i : Nat)
  | reply (i : Nat) (r : Reply)

def Caller.afterAsk (c : Caller) : Bool :=
  match c.answers.getLast? with
  | some (.ask _ _ _) => true
  | _ => false

/-- What `get` returns. -/
def getResult : RespValue → Option Text
  | .text s => if isErr s then none else some s
  | _ => none

namespace ClusterWorld

variable (w : ClusterWorld)

def setCaller (i : Nat) (c : Caller) : ClusterWorld := { w with callers := w.callers.set i c }

/-- The command of a caller is written. -/
def send (i : Nat) (c : Caller) : ClusterWorld :=
  { w.setCaller i { c with phase := .sent } with
    writes := w.writes ++ [{ node := c.target, caller := some i, afterAsk := c.afterAsk }] }

/-- The reply to a command: a redirect is followed, unless it is one too many. -/
def receive (i : Nat) (c : Caller) (r : Reply) : ClusterWorld :=
  match redirectOf r.value with
  | none => w.setCaller i { c with phase := .returned r.value, answers := c.answers ++ [r] }
  | some redirect =>
    let c' := { c with
      target := redirect.node, asking := redirect.kind = .ask, attempt := c.attempt + 1, answers := c.answers ++ [r]
      phase := if c.attempt + 1 ≤ w.maxRedirects then .connecting else .exceeded }
    let slotMap := if redirect.kind = .moved then w.slotMap.set redirect.slot redirect.node else w.slotMap
    { w.setCaller i c' with slotMap }

def stepCaller (i : Nat) (c : Caller) : ClusterEvent → ClusterWorld
  | .connected _ =>
    match c.phase with
    | .connecting =>
      if c.asking then
        { w.setCaller i { c with phase := .asking } with
          writes := w.writes ++ [{ node := c.target, caller := some i, asking := true }] }
      else w.send i c
    | _ => w
  | .refused _ =>
    match c.phase with
    | .connecting => w.setCaller i { c with phase := .refused }
    | _ => w
  | .asked _ =>
    match c.phase with
    | .asking => w.send i c
    | _ => w
  | .reply _ r =>
    match c.phase with
    | .sent => w.receive i c r
    | _ => w
  | _ => w

def step (w : ClusterWorld) : ClusterEvent → ClusterWorld
  | .call key op =>
    { w with callers := w.callers ++ [{ key, op, target := (w.slotMap.get (hashSlot key)).getD w.seed }] }
  | .other node => { w with writes := w.writes ++ [{ node, caller := none }] }
  | .refresh slotMap => { w with slotMap }
  | .connected i => (w.callers[i]?.map fun c => w.stepCaller i c (.connected i)).getD w
  | .refused i => (w.callers[i]?.map fun c => w.stepCaller i c (.refused i)).getD w
  | .asked i => (w.callers[i]?.map fun c => w.stepCaller i c (.asked i)).getD w
  | .reply i r => (w.callers[i]?.map fun c => w.stepCaller i c (.reply i r)).getD w

end ClusterWorld

end StreetJS.Redis
