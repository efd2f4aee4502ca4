import FourCE.Python.Json
import FourCE.Python.Text
import Mathlib.Algebra.Order.Ring.Rat
import Mathlib.Data.Finset.Basic

/-!
# The egress watch

The watch keeps a window: the flows it has seen, counted by where they go, and the flows it
remembers, so that none is counted twice while it lasts.  A sample looks at the socket table first
and counts afterwards, under the lock; a reset, a refresh of the scope or a canary may come between
the two.  A run takes a mark at its start and asks what was observed since.
-/

namespace FourCE.Egress

open FourCE.Python

/-! ## Addresses -/

/-- What `ipaddress` says of an address. -/
structure Address where
  isLoopback : Bool
  isUnspecified : Bool
  isPrivate : Bool
  isLinkLocal : Bool
  isMulticast : Bool
  deriving DecidableEq, Repr

/-- `ipaddress.ip_address`: the address of a text, and the IPv4 address it maps, if it maps one. -/
class IpAddress where
  parse : PyStr → Option (Address × Option Address)

/-- Where an address lies; `here` is `'local'`. -/
inductive Reach
  | here
  | lan
  | external
  deriving DecidableEq, Repr

/-- `classify`. -/
def classify [IpAddress] (ip : PyStr) : Reach :=
  match IpAddress.parse (((partition (py "%") ip).map Prod.fst).getD ip) with
  | none => .external
  | some (address, mapped) =>
    let address := mapped.getD address
    if address.isLoopback || address.isUnspecified then .here
    else if address.isPrivate || address.isLinkLocal || address.isMulticast then .lan
    else .external

structure Endpoint where
  ip : PyStr
  port : ℕ
  deriving DecidableEq, Repr

/-- `_endpoint`. -/
def endpoint : Option Endpoint → PyStr
  | none => []
  | some address =>
    (if contains (py ":") address.ip then py "[" ++ address.ip ++ py "]" else address.ip) ++
      py ":" ++ natText address.port

/-! ## The socket table and the scope -/

structure Conn where
  laddr : Option Endpoint
  raddr : Option Endpoint
  status : PyStr
  deriving DecidableEq, Repr

inductive Role
  | backend
  | modelServer
  | frontend
  deriving DecidableEq, Repr

structure Member where
  name : PyStr
  exe : PyStr
  role : Role
  listening : List ℕ
  deriving DecidableEq, Repr

/-- The kinds of flow: the keys of `self.flows`. -/
inductive Kind
  | here
  | lanIn
  | lanExpected
  | lanOut
  | external
  | canary
  deriving DecidableEq, Repr

/-- A connection of the scope, as a sample sorts it. -/
structure Observed where
  pid : ℕ
  member : Member
  conn : Conn
  remote : Endpoint
  kind : Kind
  inbound : Bool
  deriving DecidableEq, Repr

/-- `key = (pid, _endpoint(conn.laddr), _endpoint(conn.raddr))`. -/
def Observed.key (o : Observed) : ℕ × PyStr × PyStr :=
  (o.pid, endpoint o.conn.laddr, endpoint (some o.remote))

/-- An entry of the lists of external and of unexpected LAN connections. -/
structure Event where
  first : ℚ
  last : ℚ
  process : PyStr
  pid : ℕ
  role : Role
  remote : PyStr
  inbound : Bool
  state : PyStr
  flows : ℕ
  deriving DecidableEq, Repr

/-- An entry of the list of connections alive at the last sample. -/
structure Live where
  process : PyStr
  pid : ℕ
  role : Role
  local_ : PyStr
  remote : PyStr
  state : PyStr
  kind : Kind
  inbound : Bool
  deriving DecidableEq, Repr

/-- The window for the canary's own attempt: target and end. -/
structure Canary where
  target : Endpoint
  until_ : ℚ
  deriving DecidableEq, Repr

/-! ## The watch -/

section Dict

variable {κ υ : Type*} [DecidableEq κ]

/-- `d[k] = v`. -/
def assign (d : List (κ × υ)) (k : κ) (v : υ) : List (κ × υ) :=
  if (d.lookup k).isSome then d.map fun entry ↦ if entry.1 = k then (k, v) else entry
  else d ++ [(k, v)]

end Dict

abbrev EventKey := ℕ × PyStr × ℕ

structure EgressWatch where
  alive : Bool
  stop : Bool
  modelPorts : Finset ℕ
  expected : List Endpoint
  scope : List (ℕ × Member)
  excluded : List (ℕ × PyStr × Role)
  scopeAt : ℚ
  generation : ℕ
  since : ℚ
  samples : ℕ
  lastSample : ℚ
  error : PyStr
  flows : Kind → ℕ
  seen : List ((ℕ × PyStr × PyStr) × ℚ)
  external : List (EventKey × Event)
  lanOut : List (EventKey × Event)
  live : List Live
  canary : Option Canary
  /-- What the sampling thread has looked at and not counted yet, and when it began. -/
  pending : Option (ℚ × List Observed)

/-- `FLOW_MEMORY_SECONDS`. -/
def flowMemorySeconds : ℚ := 600

/-- `EVENT_LIMIT`. -/
def eventLimit : ℕ := 200

/-- `LIVE_LIMIT`. -/
def liveLimit : ℕ := 60

/-- `_clear`. -/
def EgressWatch.clear (w : EgressWatch) (now : ℚ) : EgressWatch :=
  { w with
    since := now
    samples := 0
    lastSample := 0
    error := []
    flows := fun _ ↦ 0
    seen := []
    external := []
    lanOut := []
    live := []
    canary := none }

/-- `EgressWatch()`. -/
def EgressWatch.init (now : ℚ) : EgressWatch where
  alive := false
  stop := false
  modelPorts := ∅
  expected := []
  scope := []
  excluded := []
  scopeAt := 0
  generation := 0
  since := now
  samples := 0
  lastSample := 0
  error := []
  flows := fun _ ↦ 0
  seen := []
  external := []
  lanOut := []
  live := []
  canary := none
  pending := none

/-- `reset`. -/
def EgressWatch.reset (w : EgressWatch) (now : ℚ) : EgressWatch :=
  { w with generation := w.generation + 1 }.clear now

/-- The end of `set_endpoints`, once the addresses have been read. -/
def EgressWatch.setEndpoints (w : EgressWatch) (ports : Finset ℕ) (expected : List Endpoint) :
    EgressWatch :=
  { w with
    modelPorts := ports
    expected := expected
    scopeAt := if ports = w.modelPorts then w.scopeAt else 0 }

/-! ## Sampling -/

/-- How a sample sorts a connection of the process `pid`: nothing outside of the scope, nor where
there is no far end. -/
def EgressWatch.sort [IpAddress] (w : EgressWatch) (now : ℚ) (pid : ℕ) (conn : Conn) :
    Option Observed := do
  let member ← w.scope.lookup pid
  let remote ← conn.raddr
  let inbound := conn.laddr.any fun address ↦ member.listening.contains address.port
  let kind : Kind :=
    match classify remote.ip with
    | .here => .here
    | .lan =>
      if inbound then .lanIn else if w.expected.contains remote then .lanExpected else .lanOut
    | .external =>
      if member.role = .backend ∧ w.canary.any fun c ↦ remote = c.target ∧ now ≤ c.until_ then
        .canary
      else .external
  return { pid, member, conn, remote, kind, inbound }

/-- `_sample` up to the count: the socket table, sorted. -/
def EgressWatch.observe [IpAddress] (w : EgressWatch) (now : ℚ) (connections : List (ℕ × Conn)) :
    EgressWatch :=
  { w with pending := some (now, connections.filterMap fun c ↦ w.sort now c.1 c.2) }

/-- `_note`, on the events of one kind. -/
def note (events : List (EventKey × Event)) (o : Observed) (now : ℚ) (fresh : Bool) :
    List (EventKey × Event) :=
  let key : EventKey := (o.pid, o.remote.ip, o.remote.port)
  let seen (event : Event) : Event :=
    { event with
      last := now
      state := o.conn.status
      flows := if fresh then event.flows + 1 else event.flows }
  match events.lookup key with
  | some event => assign events key (seen event)
  | none =>
    if eventLimit ≤ events.length then events
    else
      assign events key (seen {
        first := now
        last := now
        process := o.member.name
        pid := o.pid
        role := o.member.role
        remote := endpoint (some o.remote)
        inbound := o.inbound
        state := o.conn.status
        flows := 0 })

/-- One turn of the loop that counts what a sample has looked at. -/
def EgressWatch.count (now : ℚ) (w : EgressWatch) (o : Observed) : EgressWatch :=
  let fresh := (w.seen.lookup o.key).isNone
  { w with
    seen := assign w.seen o.key now
    flows := if fresh then Function.update w.flows o.kind (w.flows o.kind + 1) else w.flows
    external := if o.kind = .external then note w.external o now fresh else w.external
    lanOut := if o.kind = .lanOut then note w.lanOut o now fresh else w.lanOut }

def Observed.alive (o : Observed) : Live where
  process := o.member.name
  pid := o.pid
  role := o.member.role
  local_ := endpoint o.conn.laddr
  remote := endpoint (some o.remote)
  state := o.conn.status
  kind := o.kind
  inbound := o.inbound

/-- Flows not seen for long are forgotten. -/
def EgressWatch.forget (w : EgressWatch) (now : ℚ) : EgressWatch :=
  if 5000 < w.seen.length ∨ w.samples % 240 = 0 then
    { w with seen := w.seen.filter fun entry ↦ now - flowMemorySeconds ≤ entry.2 }
  else w

/-- The rest of `_sample`: the count. -/
def EgressWatch.commit (w : EgressWatch) : EgressWatch :=
  match w.pending with
  | none => w
  | some (now, observed) =>
    let counted := observed.foldl (EgressWatch.count now)
      { w with samples := w.samples + 1, lastSample := now, pending := none }
    let shown := { counted with live := (observed.take liveLimit).map Observed.alive }
    { shown.forget now with error := [] }

/-! ## Runs -/

/-- What may happen to a watch.  The sampling thread does `observe` and `commit`, with a `refresh`
of the scope ahead when it is old, or fails; everything else may come at any point. -/
inductive Op
  | start
  | stop
  | exit
  | setEndpoints (ports : Finset ℕ) (expected : List Endpoint)
  | refresh (scope : List (ℕ × Member)) (excluded : List (ℕ × PyStr × Role)) (now : ℚ)
  | observe (now : ℚ) (connections : List (ℕ × Conn))
  | commit
  | fail (message : PyStr)
  | openCanary (canary : Canary)
  | reset (now : ℚ)

variable [IpAddress]

def EgressWatch.step (w : EgressWatch) : Op → EgressWatch
  | .start => if w.alive then w else { w with stop := false, alive := true }
  | .stop => { w with stop := true }
  | .exit => if w.stop then { w with alive := false, pending := none } else w
  | .setEndpoints ports expected => w.setEndpoints ports expected
  | .refresh scope excluded now => { w with scope, excluded, scopeAt := now }
  | .observe now connections => w.observe now connections
  | .commit => w.commit
  | .fail message => { w with error := message, pending := none }
  | .openCanary canary => { w with canary := some canary }
  | .reset now => w.reset now

def EgressWatch.run (w : EgressWatch) (ops : List Op) : EgressWatch := ops.foldl step w

/-! ## Marks -/

/-- `mark()`. -/
structure Mark where
  generation : ℕ
  samples : ℕ
  external : ℕ
  lanOut : ℕ
  deriving DecidableEq, Repr

def EgressWatch.mark (w : EgressWatch) : Mark where
  generation := w.generation
  samples := w.samples
  external := w.flows .external
  lanOut := w.flows .lanOut

structure Evidence where
  external : ℤ
  lanOut : ℤ
  samples : ℤ
  processes : ℕ
  deriving DecidableEq, Repr

/-- The answer of `since_mark`, with the reason where nothing was observed. -/
inductive Answer
  | unobserved (reason : PyStr)
  | observed (evidence : Evidence)
  deriving DecidableEq, Repr

/-- `since_mark`. -/
def EgressWatch.sinceMark (w : EgressWatch) (mark : Option Mark) : Answer :=
  match mark with
  | none => .unobserved (py "the egress watch is not running")
  | some mark =>
    if !w.alive then .unobserved (py "the egress watch is not running")
    else
      let base : Mark :=
        if w.generation = mark.generation then mark else ⟨mark.generation, 0, 0, 0⟩
      let samples : ℤ := w.samples - base.samples
      if samples ≤ 0 then .unobserved (py "no samples were taken during the run")
      else
        .observed {
          external := w.flows .external - base.external
          lanOut := w.flows .lanOut - base.lanOut
          samples
          processes := w.scope.length }

end FourCE.Egress
