import VizorWallet.Library.Threads
import VizorWallet.Machine

/-!
# The network route

The process-wide route policy, of `network_privacy.rs`: switching Tor on and off, bootstrapping a
client, putting it to sleep, the leases of direct connections, and the route of a request. Any
number of threads run these functions; each step is one access to what they share.

The state also has the history that no code reads: whether the direct route is blocked, how often it
was opened, and which threads are between two accesses.

## Main definitions

* `Policy` — what the threads share.
* `Phase` — where a thread stands in one of the functions.
* `routeDecision` — the route of a request.
* `step` — the next access of a thread.
-/

namespace VizorWallet.NetworkPrivacy

inductive NetworkPrivacyStatus
  | direct
  | bootstrapping
  | ready
  | failed
  deriving DecidableEq

inductive DormantMode
  | normal
  | soft
  deriving DecidableEq

/-- A client, with the mode that it was last put into. -/
structure TorClient where
  mode : DormantMode
  deriving DecidableEq

/-- A lease, with the number of switches to Tor before it was made. -/
structure DirectRouteLease where
  id : ℕ
  epoch : ℕ
  born : ℕ
  deriving DecidableEq

inductive RouteDecision
  | direct
  | torShared
  | torIsolated
  deriving DecidableEq

inductive RouteBlocked
  | bootstrapping
  | failed
  | unavailable
  deriving DecidableEq

/-- `pending_dormant_mode` -/
def pendingDormantMode (dormant : Bool) : DormantMode := if dormant then .soft else .normal

def routeDecision (torDesired : Bool) (torStatus : NetworkPrivacyStatus)
    (hasClient isolated : Bool) : Except RouteBlocked RouteDecision :=
  if ¬ torDesired then .ok .direct
  else if torStatus ≠ .ready ∨ ¬ hasClient then
    match torStatus with
    | .bootstrapping => .error .bootstrapping
    | .failed => .error .failed
    | _ => .error .unavailable
  else .ok (if isolated then .torIsolated else .torShared)

/-- What `try_tor_client_for_route` answers for a decision: whether there is a client in it. -/
def RouteDecision.answer (decision : RouteDecision) (hasClient : Bool) : Bool :=
  match decision with
  | .direct => false
  | .torShared => hasClient
  | .torIsolated => hasClient

/-- The locks of the process: `DIRECT_IO_WAKERS`, `TOR_CLIENT`, `TOR_INIT_LOCK`, and
`DORMANT_APPLY_LOCK`. -/
inductive Lock
  | wakers
  | client
  | init
  | dormant
  deriving DecidableEq

/-- The policy and the slot of the client. -/
structure Tor where
  torDesired : Bool
  torDormant : Bool
  torStatus : NetworkPrivacyStatus
  torClient : Option TorClient
  /-- `begin_tor_enable` has stored, and `disable_tor` has not since. -/
  blocked : Bool
  /-- How often `disable_tor` has stored. -/
  openings : ℕ
  /-- The thread that has opened the route and not emptied the slot yet. -/
  disabler : Option ℕ
  /-- The thread that has stored an intent and not applied it yet. -/
  setter : Option ℕ

/-- The direct connections. -/
structure DirectIo where
  nextDirectIoId : ℕ
  activeDirectIo : ℕ
  wakers : List ℕ
  /-- How often `begin_tor_enable` has moved the epoch. -/
  switches : ℕ
  /-- The threads with a live lease, and the thread of each lease. -/
  live : List ℕ
  ioThread : ℕ → ℕ
  /-- The wakers that a thread has drained and not woken yet, and the wakers that were woken. -/
  drained : List (ℕ × ℕ)
  woken : List ℕ

/-- What the threads share. -/
structure Policy where
  tor : Tor
  directIo : DirectIo
  owner : Lock → Option ℕ

/-- Where a thread stands. The phases of `set_tor_failed` say whether a bootstrap has failed; a
route has the number of openings when it began, if Tor was desired then. -/
inductive Phase
  | idle
  | beginLock
  | beginDesired
  | beginStatus
  | beginEpoch
  | beginUnlock (wakers : List ℕ)
  | beginWake (wakers : List ℕ)
  | beginClient
  | enableLock
  | enableDesired
  | enableStatus
  | enableClient
  | enableStart
  | bootstrapping
  | enableUnlock
  | installLock
  | installDesired
  | installPending
  | installClient (mode : DormantMode)
  | installStatus
  | installUnlock
  | failLock (bootstrap : Bool)
  | failClient (bootstrap : Bool)
  | failDesired (bootstrap : Bool)
  | failStatus (bootstrap : Bool)
  | failUnlock (bootstrap : Bool)
  | disableLock
  | disableDesired
  | disableStatus
  | disableClient
  | disableUnlock
  | dormantLock (dormant : Bool)
  | dormantStore (dormant : Bool)
  | dormantPending
  | dormantApply (mode : DormantMode)
  | dormantUnlock
  | leaseId
  | leaseEpoch (id : ℕ)
  | held (lease : DirectRouteLease) (waits : Bool)
  | pollLock (lease : DirectRouteLease)
  | pollDesired (lease : DirectRouteLease)
  | pollEpoch (lease : DirectRouteLease)
  | pollInsert (lease : DirectRouteLease)
  | pollInner (lease : DirectRouteLease)
  | pollUnlock (lease : DirectRouteLease) (waits : Bool)
  | dropRemove (lease : DirectRouteLease)
  | dropCount
  | routeClient (isolated : Bool) (since : Option ℕ)
  | routeDesired (isolated : Bool) (since : Option ℕ) (hasClient : Bool)
  | routeStatus (isolated : Bool) (since : Option ℕ) (hasClient torDesired : Bool)
  | routed (since : Option ℕ) (client : Bool)
  | draining
  deriving DecidableEq

/-- What a thread does next. -/
inductive Event
  | beginTorEnable
  | enableTor
  | failTorEnable
  | disableTor
  | setTorDormant (dormant : Bool)
  | connect
  | poll
  | drop
  | route (isolated : Bool)
  | waitForDirectConnections
  | giveUp
  | bootstrapFails
  | inner (pending : Bool)
  | next
  deriving DecidableEq

/-- `DIRECT_ROUTE_EPOCH` -/
def DirectIo.directRouteEpoch (io : DirectIo) : ℕ := io.switches % u64Size

namespace Policy

variable (s : Policy)

def setTor (tor : Tor) : Policy := { s with tor := tor }

def setIo (io : DirectIo) : Policy := { s with directIo := io }

def release (lock : Lock) : Policy := { s with owner := Function.update s.owner lock none }

/-- A free lock is taken. -/
def acquire (i : ℕ) (lock : Lock) : Option Policy :=
  if s.owner lock = none then some { s with owner := Function.update s.owner lock (some i) }
  else none

/-- An access to what a lock protects, when the lock is given back at once. -/
def locked (lock : Lock) (s' : Policy) (phase : Phase) : Option (Policy × Phase) :=
  if s.owner lock = none then some (s', phase) else none

end Policy

/-- The next access of a thread that stands in a function. -/
def next (i : ℕ) (s : Policy) : Phase → Option (Policy × Phase)
  -- begin_tor_enable
  | .beginLock => (s.acquire i .wakers).map (·, .beginDesired)
  | .beginDesired =>
    some (s.setTor { s.tor with torDesired := true, blocked := true }, .beginStatus)
  | .beginStatus => some (s.setTor { s.tor with torStatus := .bootstrapping }, .beginEpoch)
  -- the lock is held, and a new lease only reads the epoch
  | .beginEpoch => some (s.setIo { s.directIo with
      switches := s.directIo.switches + 1
      wakers := []
      drained := s.directIo.drained ++ s.directIo.wakers.map (Prod.mk i) },
    .beginUnlock s.directIo.wakers)
  | .beginUnlock wakers => some (s.release .wakers, .beginWake wakers)
  | .beginWake [] => some (s, .beginClient)
  | .beginWake (id :: wakers) => some (s.setIo { s.directIo with
      drained := s.directIo.drained.filter (· ≠ (i, id))
      woken := id :: s.directIo.woken }, .beginWake (wakers.filter (· ≠ id)))
  | .beginClient => s.locked .client (s.setTor { s.tor with torClient := none }) .idle
  -- bootstrap_tor
  | .enableLock => (s.acquire i .init).map (·, .enableDesired)
  | .enableDesired => some (s, if s.tor.torDesired then .enableStatus else .enableUnlock)
  | .enableStatus => some (s, if s.tor.torStatus = .ready then .enableClient else .enableStart)
  | .enableClient =>
    s.locked .client s (if s.tor.torClient.isSome then .enableUnlock else .enableStart)
  | .enableStart => some (s.setTor { s.tor with torStatus := .bootstrapping }, .bootstrapping)
  | .bootstrapping => some (s, .installLock)
  | .enableUnlock => some (s.release .init, .idle)
  -- install_bootstrapped_client
  | .installLock => (s.acquire i .client).map (·, .installDesired)
  | .installDesired => some (s, if s.tor.torDesired then .installPending else .installUnlock)
  | .installPending => some (s, .installClient (pendingDormantMode s.tor.torDormant))
  | .installClient mode => some (s.setTor { s.tor with torClient := some ⟨mode⟩ }, .installStatus)
  | .installStatus => some (s.setTor { s.tor with torStatus := .ready }, .installUnlock)
  | .installUnlock => some (s.release .client, .enableUnlock)
  -- set_tor_failed
  | .failLock bootstrap => (s.acquire i .client).map (·, .failClient bootstrap)
  | .failClient bootstrap =>
    some (s.setTor { s.tor with torClient := none }, .failDesired bootstrap)
  | .failDesired bootstrap =>
    some (s, if s.tor.torDesired then .failStatus bootstrap else .failUnlock bootstrap)
  | .failStatus bootstrap =>
    some (s.setTor { s.tor with torStatus := .failed }, .failUnlock bootstrap)
  | .failUnlock bootstrap => some (s.release .client, if bootstrap then .enableUnlock else .idle)
  -- disable_tor
  | .disableLock => (s.acquire i .client).map (·, .disableDesired)
  | .disableDesired => some (s.setTor { s.tor with
      torDesired := false
      blocked := false
      openings := s.tor.openings + 1
      disabler := some i }, .disableStatus)
  | .disableStatus => some (s.setTor { s.tor with torStatus := .direct }, .disableClient)
  | .disableClient =>
    some (s.setTor { s.tor with torClient := none, disabler := none }, .disableUnlock)
  | .disableUnlock => some (s.release .client, .idle)
  -- set_tor_dormant
  | .dormantLock dormant => (s.acquire i .dormant).map (·, .dormantStore dormant)
  | .dormantStore dormant =>
    some (s.setTor { s.tor with torDormant := dormant, setter := some i }, .dormantPending)
  | .dormantPending => some (s, .dormantApply (pendingDormantMode s.tor.torDormant))
  | .dormantApply mode =>
    s.locked .client (s.setTor { s.tor with
      torClient := s.tor.torClient.map ({ · with mode := mode })
      setter := none }) .dormantUnlock
  | .dormantUnlock => some (s.release .dormant, .idle)
  -- DirectRouteLease
  | .leaseId => some (s.setIo { s.directIo with
      nextDirectIoId := s.directIo.nextDirectIoId + 1
      ioThread := Function.update s.directIo.ioThread (s.directIo.nextDirectIoId % u64Size) i },
    .leaseEpoch (s.directIo.nextDirectIoId % u64Size))
  | .leaseEpoch id =>
    some (s, .held ⟨id, s.directIo.directRouteEpoch, s.directIo.switches⟩ false)
  | .pollLock lease => (s.acquire i .wakers).map (·, .pollDesired lease)
  | .pollDesired lease =>
    some (s, if s.tor.torDesired then .pollUnlock lease false else .pollEpoch lease)
  | .pollEpoch lease =>
    some (s, if lease.epoch ≠ s.directIo.directRouteEpoch then .pollUnlock lease false
      else .pollInsert lease)
  | .pollInsert lease => some (s.setIo { s.directIo with
      wakers := lease.id :: s.directIo.wakers.filter (· ≠ lease.id) }, .pollInner lease)
  | .pollUnlock lease waits => some (s.release .wakers, .held lease waits)
  | .dropRemove lease =>
    s.locked .wakers (s.setIo { s.directIo with
      wakers := s.directIo.wakers.filter (· ≠ lease.id) }) .dropCount
  | .dropCount => some (s.setIo { s.directIo with
      activeDirectIo := s.directIo.activeDirectIo - 1
      live := s.directIo.live.filter (· ≠ i) }, .idle)
  -- try_tor_client_for_route
  | .routeClient isolated since =>
    s.locked .client s (.routeDesired isolated since s.tor.torClient.isSome)
  | .routeDesired isolated since hasClient =>
    some (s, .routeStatus isolated since hasClient s.tor.torDesired)
  | .routeStatus isolated since hasClient torDesired =>
    match routeDecision torDesired s.tor.torStatus hasClient isolated with
    | .ok decision => some (s, .routed since (decision.answer hasClient))
    -- only a bootstrap is waited for
    | .error .bootstrapping => some (s, .routeClient isolated since)
    | .error _ => some (s, .idle)
  | .routed _ _ => some (s, .idle)
  -- wait_for_direct_connections_to_close
  | .draining => if s.directIo.activeDirectIo = 0 then some (s, .idle) else none
  | .idle | .held _ _ | .pollInner _ => none

/-- A step of a thread. Waits for a lock of a bootstrap, for a bootstrap and for connections can end
at any time. -/
def step (i : ℕ) (event : Event) (s : Policy) (phase : Phase) : Option (Policy × Phase) :=
  match event, phase with
  | .beginTorEnable, .idle => some (s, .beginLock)
  | .enableTor, .idle => some (s.setTor { s.tor with torDesired := true }, .enableLock)
  | .failTorEnable, .idle => some (s, .failLock false)
  | .disableTor, .idle => some (s, .disableLock)
  | .setTorDormant dormant, .idle => some (s, .dormantLock dormant)
  | .connect, .idle => some (s.setIo { s.directIo with
      activeDirectIo := s.directIo.activeDirectIo + 1
      live := i :: s.directIo.live }, .leaseId)
  | .poll, .held lease _ => some (s, .pollLock lease)
  | .drop, .held lease _ => some (s, .dropRemove lease)
  | .route isolated, .idle =>
    some (s, .routeClient isolated (if s.tor.torDesired then some s.tor.openings else none))
  | .waitForDirectConnections, .idle => some (s, .draining)
  | .giveUp, .enableLock => some (s, .idle)
  | .giveUp, .routeClient _ _ => some (s, .idle)
  | .giveUp, .draining => some (s, .idle)
  | .bootstrapFails, .bootstrapping => some (s, .failLock true)
  | .inner pending, .pollInner lease => some (s, .pollUnlock lease pending)
  | .next, phase => next i s phase
  | _, _ => none

def initial : Policy where
  tor :=
    { torDesired := false
      torDormant := false
      torStatus := .direct
      torClient := none
      blocked := false
      openings := 0
      disabler := none
      setter := none }
  directIo :=
    { nextDirectIoId := 1
      activeDirectIo := 0
      wakers := []
      switches := 0
      live := []
      ioThread := fun _ => 0
      drained := []
      woken := [] }
  owner _ := none

/-- The threads of a process. -/
def system : Transition (Threads Policy Phase) (ℕ × Event) := Threads.system initial .idle step

end VizorWallet.NetworkPrivacy
