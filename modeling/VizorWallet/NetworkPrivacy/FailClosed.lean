import VizorWallet.NetworkPrivacy.Route

/-!
# The network route fails closed

Whatever the order in which threads switch the route, bootstrap, sleep, connect and send requests:
nothing is sent directly after a switch to Tor unless the direct route was opened again.

## Main definitions

* `Invariant` — what holds of the policy.
* `Known` — what a thread knows where it stands.

## Main results

* `direct_io_allowed` — direct connections are only polled while the direct route is not blocked,
  and by leases that no switch has cancelled.
* `direct_routes_opened` — a request that began when Tor was desired goes directly only if the
  direct route was opened since.
* `direct_not_ready` — a direct route has no client behind it, and no status that promises one.
* `sleep_kept` — a client has the mode that was last asked for.
* `waiting_woken` — connections that wait when the route is switched are woken.
* `drained_closed` — no connection is left when the count of connections is zero.
-/

namespace VizorWallet.NetworkPrivacy

variable {s s' : Policy} {tor tor' : Tor} {io io' : DirectIo} {i j : ℕ} {phase phase' : Phase}

/-! ## Where threads stand -/

namespace Phase

/-- The locks that a thread holds, the last one taken first. -/
@[grind =] def holds : Phase → List Lock
  | beginDesired | beginStatus | beginEpoch | beginUnlock _ => [.wakers]
  | enableDesired | enableStatus | enableClient | enableStart | bootstrapping | enableUnlock
  | installLock => [.init]
  | installDesired | installPending | installClient _ | installStatus | installUnlock =>
    [.client, .init]
  | failLock bootstrap => if bootstrap then [.init] else []
  | failClient bootstrap | failDesired bootstrap | failStatus bootstrap | failUnlock bootstrap =>
    .client :: if bootstrap then [.init] else []
  | disableDesired | disableStatus | disableClient | disableUnlock => [.client]
  | dormantStore _ | dormantPending | dormantApply _ | dormantUnlock => [.dormant]
  | pollDesired _ | pollEpoch _ | pollInsert _ | pollInner _ | pollUnlock _ _ => [.wakers]
  | _ => []

/-- The wakers that a thread has drained. -/
def waking : Phase → List ℕ
  | beginUnlock wakers | beginWake wakers => wakers
  | _ => []

def lease : Phase → Option DirectRouteLease
  | held lease _ | pollLock lease | pollDesired lease | pollEpoch lease | pollInsert lease
  | pollInner lease | pollUnlock lease _ | dropRemove lease => some lease
  | _ => none

/-- The number of a connection. -/
def ioId : Phase → Option ℕ
  | leaseEpoch id => some id
  | phase => phase.lease.map DirectRouteLease.id

/-- The thread has a live lease. -/
def connected : Phase → Bool
  | leaseId | dropCount => true
  | phase => phase.ioId.isSome

/-- The openings before a request that began when Tor was desired. -/
def since : Phase → Option ℕ
  | routeClient _ since | routeDesired _ since _ | routeStatus _ since _ _ | routed since _ => since
  | _ => none

/-- The direct route is open, and the slot is not empty yet. -/
def disables : Phase → Bool
  | disableStatus | disableClient => true
  | _ => false

/-- An intent is stored, and not applied yet. -/
def applies : Phase → Bool
  | dormantPending | dormantApply _ => true
  | _ => false

end Phase

/-- A thread goes on in the same function. -/
structure Follows (phase phase' : Phase) : Prop where
  connected : phase'.connected = phase.connected
  waking : phase'.waking = phase.waking
  disables : phase.disables → phase'.disables
  applies : phase.applies → phase'.applies
  ioId : ∀ id ∈ phase'.ioId, id ∈ phase.ioId
  lease : ∀ lease ∈ phase'.lease, lease ∈ phase.lease
  since : ∀ count ∈ phase'.since, count ∈ phase.since

/-- What a phase says of its thread, the locks apart. -/
structure Place where
  connected : Bool
  waking : List ℕ
  disables : Bool
  applies : Bool
  ioId : Option ℕ
  lease : Option DirectRouteLease
  since : Option ℕ

def Phase.place (phase : Phase) : Place :=
  ⟨phase.connected, phase.waking, phase.disables, phase.applies, phase.ioId, phase.lease,
    phase.since⟩

theorem Follows.of_place (h : phase'.place = phase.place) : Follows phase phase' := by
  obtain ⟨hconnected, hwaking, hdisables, happlies, hioId, hlease, hsince⟩ := Place.mk.inj h
  exact ⟨hconnected, hwaking, fun h' => hdisables ▸ h', fun h' => happlies ▸ h',
    fun _ h' => hioId ▸ h', fun _ h' => hlease ▸ h', fun _ h' => hsince ▸ h'⟩

/-! ## The invariant -/

structure Tor.Sound (tor : Tor) : Prop where
  blocked : tor.blocked → tor.torDesired
  direct : tor.disabler = none → tor.torDesired = false →
    tor.torStatus ≠ .ready ∧ tor.torClient = none
  mode : tor.setter = none → ∀ client ∈ tor.torClient,
    client.mode = pendingDormantMode tor.torDormant

structure DirectIo.Sound (io : DirectIo) : Prop where
  count : io.activeDirectIo = io.live.length
  nodup : io.live.Nodup

structure Invariant (s : Policy) : Prop where
  tor : s.tor.Sound
  io : s.directIo.Sound

/-! ## What threads know -/

/-- The waker of a lease is there for the next switch, or was taken by one. -/
def DirectIo.Registered (io : DirectIo) (lease : DirectRouteLease) : Prop :=
  (lease.id ∈ io.wakers ∧ lease.epoch = io.directRouteEpoch) ∨ lease.id ∈ io.woken ∨
    ∃ k, (k, lease.id) ∈ io.drained

/-- What a thread has read. -/
def Read (tor : Tor) (io : DirectIo) : Phase → Prop
  | .installPending | .installStatus => tor.torDesired
  | .installClient mode =>
    tor.torDesired ∧ (tor.setter = none → mode = pendingDormantMode tor.torDormant)
  | .disableClient => tor.torStatus ≠ .ready
  | .dormantApply mode => mode = pendingDormantMode tor.torDormant
  | .pollEpoch _ => ¬ tor.blocked
  | .pollInsert lease => ¬ tor.blocked ∧ lease.epoch = io.directRouteEpoch
  | .pollInner lease => ¬ tor.blocked ∧ lease.epoch = io.directRouteEpoch ∧ lease.id ∈ io.wakers
  | .pollUnlock lease waits | .held lease waits =>
    waits → io.nextDirectIoId ≤ u64Size → io.Registered lease
  | .routeStatus _ since _ torDesired => torDesired = false → ∀ count ∈ since, count < tor.openings
  | .routed since client => client = false → ∀ count ∈ since, count < tor.openings
  | _ => True

structure Known (i : ℕ) (s : Policy) (phase : Phase) : Prop where
  locks : ∀ lock, s.owner lock = some i ↔ lock ∈ phase.holds
  live : i ∈ s.directIo.live ↔ phase.connected
  waking : ∀ id, (i, id) ∈ s.directIo.drained ↔ id ∈ phase.waking
  disabler : s.tor.disabler = some i → phase.disables
  setter : s.tor.setter = some i → phase.applies
  ioId : s.directIo.nextDirectIoId ≤ u64Size → ∀ id ∈ phase.ioId,
    id < s.directIo.nextDirectIoId ∧ s.directIo.ioThread id = i
  lease : ∀ lease ∈ phase.lease,
    lease.epoch = lease.born % u64Size ∧ lease.born ≤ s.directIo.switches
  since : ∀ count ∈ phase.since,
    count ≤ s.tor.openings ∧ (count = s.tor.openings → s.tor.torDesired)
  read : Read s.tor s.directIo phase

/-- What a thread relies on of the policy, with the locks that it holds. -/
structure RelyTor (j : ℕ) (owner : Lock → Option ℕ) (tor tor' : Tor) : Prop where
  openings : tor.openings ≤ tor'.openings
  reopened : tor'.openings = tor.openings → tor.torDesired → tor'.torDesired
  desired : owner .client = some j → tor.torDesired → tor'.torDesired
  status : owner .client = some j → tor.torStatus ≠ .ready → tor'.torStatus ≠ .ready
  intent : owner .client = some j → tor'.setter = none →
    tor.setter = none ∧ tor'.torDormant = tor.torDormant
  dormant : owner .dormant = some j → tor'.torDormant = tor.torDormant
  blocked : owner .wakers = some j → tor'.blocked → tor.blocked
  disabler : tor'.disabler = some j → tor.disabler = some j
  setter : tor'.setter = some j → tor.setter = some j

/-- What a thread relies on of the direct connections. -/
structure RelyIo (j : ℕ) (owner : Lock → Option ℕ) (io io' : DirectIo) : Prop where
  ids : io.nextDirectIoId ≤ io'.nextDirectIoId
  switches : io.switches ≤ io'.switches
  live : j ∈ io'.live ↔ j ∈ io.live
  drained : ∀ id, (j, id) ∈ io'.drained ↔ (j, id) ∈ io.drained
  wakers : owner .wakers = some j → io'.wakers = io.wakers ∧ io'.switches = io.switches
  ioThread : io'.nextDirectIoId ≤ u64Size → ∀ id < io.nextDirectIoId,
    io'.ioThread id = io.ioThread id
  registered : io'.nextDirectIoId ≤ u64Size → ∀ lease : DirectRouteLease,
    lease.id < io.nextDirectIoId → io.ioThread lease.id = j → io.Registered lease →
    io'.Registered lease

structure Rely (j : ℕ) (s s' : Policy) : Prop where
  owner : ∀ lock, s'.owner lock = some j ↔ s.owner lock = some j
  tor : RelyTor j s.owner s.tor s'.tor
  io : RelyIo j s.owner s.directIo s'.directIo

variable {owner : Lock → Option ℕ}

theorem RelyTor.refl : RelyTor j owner tor tor where
  openings := Nat.le_refl _
  reopened _ h := h
  desired _ h := h
  status _ h := h
  intent _ h := ⟨h, rfl⟩
  dormant _ := rfl
  blocked _ h := h
  disabler h := h
  setter h := h

theorem RelyIo.refl : RelyIo j owner io io where
  ids := Nat.le_refl _
  switches := Nat.le_refl _
  live := Iff.rfl
  drained _ := Iff.rfl
  wakers _ := ⟨rfl, rfl⟩
  ioThread _ _ _ := rfl
  registered _ _ _ _ h := h

theorem RelyIo.epoch (h : RelyIo j owner io io') (howner : owner .wakers = some j) :
    io'.directRouteEpoch = io.directRouteEpoch := by
  rw [DirectIo.directRouteEpoch, (h.wakers howner).2, DirectIo.directRouteEpoch]

theorem Phase.ioId_of_lease {lease : DirectRouteLease} (h : phase.lease = some lease) :
    phase.ioId = some lease.id := by
  cases phase <;> cases h <;> rfl

/-- What a thread has read stays true while others take steps. -/
theorem Known.read_rely (h : Known j s phase) (hrely : Rely j s s') :
    Read s'.tor s'.directIo phase := by
  have hread := h.read
  have hlock (lock : Lock) (hmem : lock ∈ phase.holds) : s.owner lock = some j :=
    (h.locks lock).2 hmem
  have hregistered (lease : DirectRouteLease) (hlease : phase.lease = some lease)
      (hids : s'.directIo.nextDirectIoId ≤ u64Size)
      (hold : s.directIo.nextDirectIoId ≤ u64Size → s.directIo.Registered lease) :
      s'.directIo.Registered lease := by
    have hids' := Nat.le_trans hrely.io.ids hids
    obtain ⟨hlt, hthread⟩ := h.ioId hids' lease.id (Phase.ioId_of_lease hlease)
    exact hrely.io.registered hids lease hlt hthread (hold hids')
  cases phase with
  | installPending => exact hrely.tor.desired (hlock _ (by grind)) hread
  | installStatus => exact hrely.tor.desired (hlock _ (by grind)) hread
  | installClient mode =>
    have hclient := hlock .client (by grind)
    refine ⟨hrely.tor.desired hclient hread.1, fun hnone => ?_⟩
    obtain ⟨hsetter, hdormant⟩ := hrely.tor.intent hclient hnone
    rw [hdormant]
    exact hread.2 hsetter
  | disableClient => exact hrely.tor.status (hlock _ (by grind)) hread
  | dormantApply mode =>
    have hdormant := hrely.tor.dormant (hlock _ (by grind))
    rw [Read, hdormant]
    exact hread
  | pollEpoch lease =>
    exact mt (hrely.tor.blocked (hlock _ (by grind))) hread
  | pollInsert lease =>
    have hwakers := hlock .wakers (by grind)
    refine ⟨mt (hrely.tor.blocked hwakers) hread.1, ?_⟩
    rw [hrely.io.epoch hwakers]
    exact hread.2
  | pollInner lease =>
    have hwakers := hlock .wakers (by grind)
    refine ⟨mt (hrely.tor.blocked hwakers) hread.1, ?_⟩
    rw [hrely.io.epoch hwakers, (hrely.io.wakers hwakers).1]
    exact hread.2
  | pollUnlock lease waits => exact fun hwaits hids => hregistered lease rfl hids (hread hwaits)
  | held lease waits => exact fun hwaits hids => hregistered lease rfl hids (hread hwaits)
  | routeStatus isolated since hasClient torDesired =>
    exact fun hdirect count hcount => (hread hdirect count hcount).trans_le hrely.tor.openings
  | routed since client =>
    exact fun hdirect count hcount => (hread hdirect count hcount).trans_le hrely.tor.openings
  | _ => trivial

/-- What a thread knows stays true while others take steps. -/
theorem Known.rely (h : Known j s phase) (hrely : Rely j s s') : Known j s' phase where
  locks lock := (hrely.owner lock).trans (h.locks lock)
  live := hrely.io.live.trans h.live
  waking id := (hrely.io.drained id).trans (h.waking id)
  disabler hdisabler := h.disabler (hrely.tor.disabler hdisabler)
  setter hsetter := h.setter (hrely.tor.setter hsetter)
  ioId hids id hid := by
    obtain ⟨hlt, hthread⟩ := h.ioId (Nat.le_trans hrely.io.ids hids) id hid
    exact ⟨hlt.trans_le hrely.io.ids, (hrely.io.ioThread hids id hlt).trans hthread⟩
  lease lease hlease :=
    ⟨(h.lease lease hlease).1, Nat.le_trans (h.lease lease hlease).2 hrely.io.switches⟩
  since count hcount := by
    obtain ⟨hle, hdesired⟩ := h.since count hcount
    refine ⟨Nat.le_trans hle hrely.tor.openings, fun heq => ?_⟩
    have hsame : s'.tor.openings = s.tor.openings :=
      Nat.le_antisymm (heq ▸ hle) hrely.tor.openings
    exact hrely.tor.reopened hsame (hdesired (heq.trans hsame))
  read := h.read_rely hrely

/-! ## Accesses -/

/-- What holds of the policy, and what each thread knows. -/
def outline : Outline Policy Phase := ⟨Invariant, Known⟩

/-- A thread goes on, and at most the owner of a lock changes. -/
theorem Known.go (h : Known i s phase) (hfollows : Follows phase phase')
    (hlocks : ∀ lock, owner lock = some i ↔ lock ∈ phase'.holds)
    (hread : Read s.tor s.directIo phase') : Known i { s with owner := owner } phase' where
  locks := hlocks
  live := hfollows.connected ▸ h.live
  waking id := hfollows.waking ▸ h.waking id
  disabler hdisabler := hfollows.disables (h.disabler hdisabler)
  setter hsetter := hfollows.applies (h.setter hsetter)
  ioId hids id hid := h.ioId hids id (hfollows.ioId id hid)
  lease lease hlease := h.lease lease (hfollows.lease lease hlease)
  since count hcount := h.since count (hfollows.since count hcount)
  read := hread

/-- A thread goes on without a change of what is shared. -/
theorem kept_go (hinv : Invariant s) (h : Known i s phase) (hfollows : Follows phase phase')
    (hholds : phase'.holds = phase.holds) (hread : Read s.tor s.directIo phase') :
    outline.Kept i s s phase' :=
  ⟨hinv, h.go hfollows (hholds ▸ h.locks) hread, fun _ _ _ h' => h'⟩

theorem kept_owner {lock : Lock} {o : Option ℕ} (hinv : Invariant s) (h : Known i s phase)
    (hfollows : Follows phase phase') (hothers : ∀ j, j ≠ i → (o = some j ↔ s.owner lock = some j))
    (hown : o = some i ↔ lock ∈ phase'.holds)
    (hholds : ∀ l, l ≠ lock → (l ∈ phase'.holds ↔ l ∈ phase.holds))
    (hread : Read s.tor s.directIo phase') :
    outline.Kept i s { s with owner := Function.update s.owner lock o } phase' := by
  refine ⟨⟨hinv.tor, hinv.io⟩, h.go hfollows (fun l => ?_) hread,
    fun j u hj hother => hother.rely ⟨fun l => ?_, .refl, .refl⟩⟩
  · by_cases hl : l = lock
    · subst hl
      rwa [Function.update_self]
    · rw [Function.update_of_ne hl, hholds l hl]
      exact h.locks l
  · by_cases hl : l = lock
    · subst hl
      simp only [Function.update_self]
      exact hothers j hj
    · simp only [Function.update_of_ne hl]

/-- A thread takes a free lock. -/
theorem kept_acquire {lock : Lock} {p : Phase} (hinv : Invariant s) (h : Known i s phase)
    (hnext : (s.acquire i lock).map (·, p) = some (s', phase')) (hfollows : Follows phase p)
    (hholds : p.holds = lock :: phase.holds) (hread : Read s.tor s.directIo p) :
    outline.Kept i s s' phase' := by
  obtain ⟨_, hacquire, hpair⟩ := Option.map_eq_some_iff.1 hnext
  obtain ⟨rfl, rfl⟩ := Prod.mk.inj hpair
  rw [Policy.acquire] at hacquire
  split_ifs at hacquire with hfree
  obtain rfl := Option.some.inj hacquire
  refine kept_owner hinv h hfollows (fun j hj => ?_) (by simp [hholds]) (fun l hl => ?_) hread
  · rw [hfree]
    exact iff_of_false (fun heq => hj (Option.some.inj heq).symm) (Option.some_ne_none j).symm
  · simp [hholds, hl]

/-- A thread gives a lock back. -/
theorem kept_release {lock : Lock} (hinv : Invariant s) (h : Known i s phase)
    (hfollows : Follows phase phase') (hholds : phase.holds = lock :: phase'.holds)
    (hnodup : lock ∉ phase'.holds) (hread : Read s.tor s.directIo phase') :
    outline.Kept i s (s.release lock) phase' := by
  have howner : s.owner lock = some i := (h.locks lock).2 (by simp [hholds])
  refine kept_owner hinv h hfollows (fun j hj => ?_) ?_ (fun l hl => ?_) hread
  · rw [howner]
    exact iff_of_false (Option.some_ne_none j).symm fun heq => hj (Option.some.inj heq).symm
  · exact iff_of_false (Option.some_ne_none i).symm hnodup
  · simp [hholds, hl]

/-- A thread stores into the policy. -/
theorem kept_setTor (hinv : Invariant s) (h : Known i s phase) (hsound : tor.Sound)
    (hrely : ∀ j, j ≠ i → RelyTor j s.owner s.tor tor)
    (hholds : phase'.holds = phase.holds) (hconnected : phase'.connected = phase.connected)
    (hwaking : phase'.waking = phase.waking) (hlease : phase'.ioId = none)
    (hsince : phase'.since = none) (hdisabler : tor.disabler = some i → phase'.disables)
    (hsetter : tor.setter = some i → phase'.applies) (hread : Read tor s.directIo phase') :
    outline.Kept i s (s.setTor tor) phase' := by
  refine ⟨⟨hsound, hinv.io⟩, ⟨hholds ▸ h.locks, hconnected ▸ h.live,
    fun id => hwaking ▸ h.waking id, hdisabler, hsetter, fun _ id hid => ?_, fun lease hmem => ?_,
    fun count hcount => ?_, hread⟩,
    fun j u hj hother => hother.rely ⟨fun _ => Iff.rfl, hrely j hj, .refl⟩⟩
  · rw [hlease] at hid
    cases hid
  · rw [Phase.ioId_of_lease hmem] at hlease
    cases hlease
  · rw [hsince] at hcount
    cases hcount

/-- A thread changes the direct connections. -/
theorem kept_setIo (hinv : Invariant s) (h : Known i s phase) (hsound : io.Sound)
    (hrely : ∀ j, j ≠ i → RelyIo j s.owner s.directIo io)
    (hholds : phase'.holds = phase.holds) (hlive : i ∈ io.live ↔ phase'.connected)
    (hwaking : ∀ id, (i, id) ∈ io.drained ↔ id ∈ phase'.waking)
    (hdisables : phase.disables → phase'.disables) (happlies : phase.applies → phase'.applies)
    (hioId : io.nextDirectIoId ≤ u64Size → ∀ id ∈ phase'.ioId,
      id < io.nextDirectIoId ∧ io.ioThread id = i)
    (hlease : ∀ lease ∈ phase'.lease, lease.epoch = lease.born % u64Size ∧ lease.born ≤ io.switches)
    (hsince : phase'.since = none) (hread : Read s.tor io phase') :
    outline.Kept i s (s.setIo io) phase' := by
  refine ⟨⟨hinv.tor, hsound⟩, ⟨hholds ▸ h.locks, hlive, hwaking,
    fun h' => hdisables (h.disabler h'), fun h' => happlies (h.setter h'), hioId, hlease,
    fun count hcount => ?_, hread⟩,
    fun j u hj hother => hother.rely ⟨fun _ => Iff.rfl, .refl, hrely j hj⟩⟩
  rw [hsince] at hcount
  cases hcount

theorem locked_spec {lock : Lock} {p : Phase} {q : Policy}
    (hnext : s.locked lock q p = some (s', phase')) :
    s.owner lock = none ∧ s' = q ∧ phase' = p := by
  rw [Policy.locked] at hnext
  split_ifs at hnext with hfree
  obtain ⟨rfl, rfl⟩ := Prod.mk.inj (Option.some.inj hnext)
  exact ⟨hfree, rfl, rfl⟩

/-! ## Steps -/

/-- A lock that a thread holds is not another's. -/
theorem Known.not_owner {lock : Lock} (h : Known i s phase) (hmem : lock ∈ phase.holds)
    (hj : j ≠ i) : s.owner lock ≠ some j := by
  rw [(h.locks lock).2 hmem]
  exact fun heq => hj (Option.some.inj heq).symm

/-- Tor is desired; the direct route is blocked only with the lock of the wakers. -/
theorem kept_desire {blocked : Bool} (hinv : Invariant s) (h : Known i s phase)
    (hblocked : blocked = s.tor.blocked ∨ .wakers ∈ phase.holds)
    (hfollows : Follows phase phase') (hholds : phase'.holds = phase.holds)
    (hlease : phase'.ioId = none) (hsince : phase'.since = none)
    (hread : Read { s.tor with torDesired := true, blocked := blocked } s.directIo phase') :
    outline.Kept i s (s.setTor { s.tor with torDesired := true, blocked := blocked }) phase' := by
  refine kept_setTor hinv h ⟨fun _ => rfl, fun _ hdirect => (by cases hdirect), hinv.tor.mode⟩
    (fun j hj => { (RelyTor.refl : RelyTor j s.owner s.tor s.tor) with
      reopened := fun _ _ => rfl
      desired := fun _ _ => rfl
      blocked := fun hwakers h' => ?_ })
    hholds hfollows.connected hfollows.waking hlease hsince
    (fun h' => hfollows.disables (h.disabler h')) (fun h' => hfollows.applies (h.setter h')) hread
  obtain hsame | hmem := hblocked
  · exact hsame ▸ h'
  · exact absurd hwakers (h.not_owner hmem hj)

/-- A status is stored that is not `ready`. -/
theorem kept_status {status : NetworkPrivacyStatus} (hinv : Invariant s) (h : Known i s phase)
    (hstatus : status ≠ .ready) (hfollows : Follows phase phase')
    (hholds : phase'.holds = phase.holds) (hlease : phase'.ioId = none)
    (hsince : phase'.since = none)
    (hread : Read { s.tor with torStatus := status } s.directIo phase') :
    outline.Kept i s (s.setTor { s.tor with torStatus := status }) phase' :=
  kept_setTor hinv h
    ⟨hinv.tor.blocked, fun hnone hdirect => ⟨hstatus, (hinv.tor.direct hnone hdirect).2⟩,
      hinv.tor.mode⟩
    (fun j _ => { (RelyTor.refl : RelyTor j s.owner s.tor s.tor) with
      status := fun _ _ => hstatus })
    hholds hfollows.connected hfollows.waking hlease hsince
    (fun h' => hfollows.disables (h.disabler h')) (fun h' => hfollows.applies (h.setter h')) hread

/-- The slot is emptied. -/
theorem kept_empty (hinv : Invariant s) (h : Known i s phase) (hfollows : Follows phase phase')
    (hholds : phase'.holds = phase.holds) (hlease : phase'.ioId = none)
    (hsince : phase'.since = none)
    (hread : Read { s.tor with torClient := none } s.directIo phase') :
    outline.Kept i s (s.setTor { s.tor with torClient := none }) phase' :=
  kept_setTor hinv h
    ⟨hinv.tor.blocked, fun hnone hdirect => ⟨(hinv.tor.direct hnone hdirect).1, rfl⟩,
      fun _ _ hclient => by cases hclient⟩
    (fun j _ => { (RelyTor.refl : RelyTor j s.owner s.tor s.tor) with })
    hholds hfollows.connected hfollows.waking hlease hsince
    (fun h' => hfollows.disables (h.disabler h')) (fun h' => hfollows.applies (h.setter h')) hread

/-- `begin_tor_enable` keeps the outline. -/
theorem kept_beginEpoch (hinv : Invariant s) (h : Known i s .beginEpoch) :
    outline.Kept i s (s.setIo { s.directIo with
      switches := s.directIo.switches + 1
      wakers := []
      drained := s.directIo.drained ++ s.directIo.wakers.map (Prod.mk i) })
      (.beginUnlock s.directIo.wakers) := by
  have hdrained (j id : ℕ) : (j, id) ∈ s.directIo.drained ++ s.directIo.wakers.map (Prod.mk i) ↔
      (j, id) ∈ s.directIo.drained ∨ j = i ∧ id ∈ s.directIo.wakers := by
    simp only [List.mem_append, List.mem_map, Prod.mk.injEq]
    refine or_congr_right ⟨?_, fun h' => ⟨id, h'.2, h'.1.symm, rfl⟩⟩
    rintro ⟨_, hid, rfl, rfl⟩
    exact ⟨rfl, hid⟩
  refine kept_setIo hinv h ⟨hinv.io.count, hinv.io.nodup⟩ (fun j hj => ?_) rfl h.live (fun id => ?_)
    (fun h' => h') (fun h' => h') (fun _ _ hid => by cases hid) (fun _ hlease => by cases hlease)
    rfl trivial
  · refine { (RelyIo.refl : RelyIo j s.owner s.directIo s.directIo) with
      switches := Nat.le_succ _
      drained := fun id => ?_
      wakers := fun hwakers => absurd hwakers (h.not_owner (by grind) hj)
      registered := fun _ lease _ _ hregistered => ?_ }
    · rw [hdrained]
      exact or_iff_left fun h' => hj h'.1
    · -- the wakers of this switch are drained
      obtain ⟨hwaker, -⟩ | hwoken | ⟨k, hk⟩ := hregistered
      · exact .inr (.inr ⟨i, (hdrained i _).2 (.inr ⟨rfl, hwaker⟩)⟩)
      · exact .inr (.inl hwoken)
      · exact .inr (.inr ⟨k, (hdrained k _).2 (.inl hk)⟩)
  · rw [hdrained, h.waking]
    exact ⟨fun h' => h'.elim (fun hmem => by cases hmem) And.right, fun hid => .inr ⟨rfl, hid⟩⟩

theorem kept_beginWake {id : ℕ} {wakers : List ℕ} (hinv : Invariant s)
    (h : Known i s (.beginWake (id :: wakers))) :
    outline.Kept i s (s.setIo { s.directIo with
      drained := s.directIo.drained.filter (· ≠ (i, id))
      woken := id :: s.directIo.woken }) (.beginWake (wakers.filter (· ≠ id))) := by
  have hdrained (j id' : ℕ) : (j, id') ∈ s.directIo.drained.filter (· ≠ (i, id)) ↔
      (j, id') ∈ s.directIo.drained ∧ ¬ (j = i ∧ id' = id) := by
    simp only [List.mem_filter, decide_eq_true_eq, ne_eq, Prod.mk.injEq]
  refine kept_setIo hinv h ⟨hinv.io.count, hinv.io.nodup⟩ (fun j hj => ?_) rfl h.live
    (fun id' => ?_) (fun h' => h') (fun h' => h') (fun _ _ hid => by cases hid)
    (fun _ hlease => by cases hlease) rfl trivial
  · refine { (RelyIo.refl : RelyIo j s.owner s.directIo s.directIo) with
      drained := fun id' => ?_
      registered := fun _ lease _ _ hregistered => ?_ }
    · rw [hdrained]
      exact and_iff_left fun h' => hj h'.1
    · obtain hwaker | hwoken | ⟨k, hk⟩ := hregistered
      · exact .inl hwaker
      · exact .inr (.inl (List.mem_cons_of_mem _ hwoken))
      · by_cases hsame : k = i ∧ lease.id = id
        · exact .inr (.inl (hsame.2 ▸ List.mem_cons_self))
        · exact .inr (.inr ⟨k, (hdrained k _).2 ⟨hk, hsame⟩⟩)
  · rw [hdrained, h.waking]
    simp only [Phase.waking, List.mem_cons, List.mem_filter, decide_eq_true_eq, true_and, ne_eq]
    exact ⟨fun h' => ⟨h'.1.resolve_left h'.2, h'.2⟩, fun h' => ⟨.inr h'.1, h'.2⟩⟩

/-! ### Bootstraps -/

theorem kept_installClient {mode : DormantMode} (hinv : Invariant s)
    (h : Known i s (.installClient mode)) :
    outline.Kept i s (s.setTor { s.tor with torClient := some ⟨mode⟩ }) .installStatus := by
  obtain ⟨hdesired, hmode⟩ := h.read
  refine kept_setTor hinv h
    ⟨hinv.tor.blocked, fun _ hdirect => ?_, fun hnone client hclient => ?_⟩
    (fun j _ => { (RelyTor.refl : RelyTor j s.owner s.tor s.tor) with })
    rfl rfl rfl rfl rfl h.disabler h.setter hdesired
  · exact absurd (hdirect.symm.trans hdesired) Bool.false_ne_true
  · obtain rfl := Option.some.inj hclient
    exact hmode hnone

theorem kept_installStatus (hinv : Invariant s) (h : Known i s .installStatus) :
    outline.Kept i s (s.setTor { s.tor with torStatus := .ready }) .installUnlock := by
  have hdesired : s.tor.torDesired := h.read
  refine kept_setTor hinv h ⟨hinv.tor.blocked, fun _ hdirect => ?_, hinv.tor.mode⟩
    (fun j hj => { (RelyTor.refl : RelyTor j s.owner s.tor s.tor) with
      status := fun hclient => absurd hclient (h.not_owner (by grind) hj) })
    rfl rfl rfl rfl rfl h.disabler h.setter trivial
  exact absurd (hdirect.symm.trans hdesired) Bool.false_ne_true

theorem kept_disableDesired (hinv : Invariant s) (h : Known i s .disableDesired) :
    outline.Kept i s (s.setTor { s.tor with
      torDesired := false
      blocked := false
      openings := s.tor.openings + 1
      disabler := some i }) .disableStatus := by
  refine kept_setTor hinv h
    ⟨fun hblocked => (by cases hblocked), fun hnone => (by cases hnone), hinv.tor.mode⟩
    (fun j hj => { (RelyTor.refl : RelyTor j s.owner s.tor s.tor) with
      openings := Nat.le_succ _
      reopened := fun heq => absurd heq (Nat.succ_ne_self _)
      desired := fun hclient => absurd hclient (h.not_owner (by grind) hj)
      blocked := fun _ hblocked => by cases hblocked
      disabler := fun heq => absurd (Option.some.inj heq).symm hj })
    rfl rfl rfl rfl rfl (fun _ => rfl) h.setter trivial

theorem kept_disableClient (hinv : Invariant s) (h : Known i s .disableClient) :
    outline.Kept i s (s.setTor { s.tor with torClient := none, disabler := none })
      .disableUnlock := by
  have hstatus : s.tor.torStatus ≠ .ready := h.read
  refine kept_setTor hinv h
    ⟨hinv.tor.blocked, fun _ _ => ⟨hstatus, rfl⟩, fun _ _ hclient => (by cases hclient)⟩
    (fun j _ => { (RelyTor.refl : RelyTor j s.owner s.tor s.tor) with
      disabler := fun heq => by cases heq })
    rfl rfl rfl rfl rfl (fun heq => by cases heq) h.setter trivial

theorem kept_dormantStore {dormant : Bool} (hinv : Invariant s)
    (h : Known i s (.dormantStore dormant)) :
    outline.Kept i s (s.setTor { s.tor with torDormant := dormant, setter := some i })
      .dormantPending := by
  refine kept_setTor hinv h ⟨hinv.tor.blocked, hinv.tor.direct, fun hnone => (by cases hnone)⟩
    (fun j hj => { (RelyTor.refl : RelyTor j s.owner s.tor s.tor) with
      intent := fun _ hnone => by cases hnone
      dormant := fun hdormant => absurd hdormant (h.not_owner (by grind) hj)
      setter := fun heq => absurd (Option.some.inj heq).symm hj })
    rfl rfl rfl rfl rfl h.disabler (fun _ => rfl) trivial

/-- The mode is applied while no bootstrap publishes its client. -/
theorem kept_dormantApply {mode : DormantMode} (hinv : Invariant s)
    (h : Known i s (.dormantApply mode)) (hfree : s.owner .client = none) :
    outline.Kept i s (s.setTor { s.tor with
      torClient := s.tor.torClient.map ({ · with mode := mode })
      setter := none }) .dormantUnlock := by
  have hmode : mode = pendingDormantMode s.tor.torDormant := h.read
  refine kept_setTor hinv h
    ⟨hinv.tor.blocked, fun hnone hdirect => ?_, fun _ client hclient => ?_⟩
    (fun j _ => { (RelyTor.refl : RelyTor j s.owner s.tor s.tor) with
      intent := fun hclient => absurd (hfree.symm.trans hclient) (Option.some_ne_none j).symm
      setter := fun heq => by cases heq })
    rfl rfl rfl rfl rfl h.disabler (fun heq => by cases heq) trivial
  · obtain ⟨hstatus, hclient⟩ := hinv.tor.direct hnone hdirect
    refine ⟨hstatus, ?_⟩
    change s.tor.torClient.map _ = none
    rw [hclient, Option.map_none]
  · obtain ⟨_, -, rfl⟩ := Option.map_eq_some_iff.1 hclient
    exact hmode

/-! ### Direct connections -/

theorem kept_connect (hinv : Invariant s) (h : Known i s .idle) :
    outline.Kept i s (s.setIo { s.directIo with
      activeDirectIo := s.directIo.activeDirectIo + 1
      live := i :: s.directIo.live }) .leaseId := by
  have hnew : i ∉ s.directIo.live := fun hmem => by cases h.live.1 hmem
  refine kept_setIo hinv h ⟨?_, List.nodup_cons.2 ⟨hnew, hinv.io.nodup⟩⟩
    (fun j hj => { (RelyIo.refl : RelyIo j s.owner s.directIo s.directIo) with
      live := ?_ })
    rfl (iff_of_true List.mem_cons_self rfl) h.waking (fun h' => h') (fun h' => h')
    (fun _ _ hid => by cases hid) (fun _ hlease => by cases hlease) rfl trivial
  · change s.directIo.activeDirectIo + 1 = (i :: s.directIo.live).length
    rw [hinv.io.count, List.length_cons]
  · exact List.mem_cons.trans (or_iff_right hj)

theorem kept_leaseId (hinv : Invariant s) (h : Known i s .leaseId) :
    outline.Kept i s (s.setIo { s.directIo with
      nextDirectIoId := s.directIo.nextDirectIoId + 1
      ioThread := Function.update s.directIo.ioThread (s.directIo.nextDirectIoId % u64Size) i })
      (.leaseEpoch (s.directIo.nextDirectIoId % u64Size)) := by
  -- the number is new while the counter has not wrapped
  have hid (hids : s.directIo.nextDirectIoId + 1 ≤ u64Size) :
      s.directIo.nextDirectIoId % u64Size = s.directIo.nextDirectIoId :=
    Nat.mod_eq_of_lt hids
  have hothers (hids : s.directIo.nextDirectIoId + 1 ≤ u64Size) {id : ℕ}
      (hlt : id < s.directIo.nextDirectIoId) :
      Function.update s.directIo.ioThread (s.directIo.nextDirectIoId % u64Size) i id =
        s.directIo.ioThread id := by
    rw [hid hids, Function.update_of_ne (Nat.ne_of_lt hlt)]
  refine kept_setIo hinv h ⟨hinv.io.count, hinv.io.nodup⟩
    (fun j _ => { (RelyIo.refl : RelyIo j s.owner s.directIo s.directIo) with
      ids := Nat.le_succ _
      ioThread := fun hids id hlt => hothers hids hlt
      registered := fun _ _ _ _ hregistered => hregistered })
    rfl h.live h.waking (fun h' => h') (fun h' => h') (fun hids id hid' => ?_)
    (fun _ hlease => by cases hlease) rfl trivial
  obtain rfl := Option.some.inj hid'
  refine ⟨?_, Function.update_self _ _ _⟩
  rw [hid hids]
  exact Nat.lt_succ_self _

theorem kept_pollInsert {lease : DirectRouteLease} (hinv : Invariant s)
    (h : Known i s (.pollInsert lease)) :
    outline.Kept i s (s.setIo { s.directIo with
      wakers := lease.id :: s.directIo.wakers.filter (· ≠ lease.id) }) (.pollInner lease) := by
  have hold {id : ℕ} (hid : id ∈ s.directIo.wakers) :
      id ∈ lease.id :: s.directIo.wakers.filter (· ≠ lease.id) := by
    by_cases hsame : id = lease.id
    · exact hsame ▸ List.mem_cons_self
    · exact List.mem_cons_of_mem _ (List.mem_filter.2 ⟨hid, decide_eq_true hsame⟩)
  refine kept_setIo hinv h ⟨hinv.io.count, hinv.io.nodup⟩
    (fun j hj => { (RelyIo.refl : RelyIo j s.owner s.directIo s.directIo) with
      wakers := fun hwakers => absurd hwakers (h.not_owner (by grind) hj)
      registered := fun _ lease _ _ hregistered =>
        hregistered.imp_left fun hwaker => ⟨hold hwaker.1, hwaker.2⟩ })
    rfl h.live h.waking (fun h' => h') (fun h' => h') h.ioId h.lease rfl
    ⟨h.read.1, h.read.2, List.mem_cons_self⟩

/-- A lease removes no waker but its own. -/
theorem kept_dropRemove {lease : DirectRouteLease} (hinv : Invariant s)
    (h : Known i s (.dropRemove lease)) (hfree : s.owner .wakers = none) :
    outline.Kept i s (s.setIo { s.directIo with
      wakers := s.directIo.wakers.filter (· ≠ lease.id) }) .dropCount := by
  refine kept_setIo hinv h ⟨hinv.io.count, hinv.io.nodup⟩
    (fun j hj => { (RelyIo.refl : RelyIo j s.owner s.directIo s.directIo) with
      wakers := fun hwakers => absurd (hfree.symm.trans hwakers) (Option.some_ne_none j).symm
      registered := fun hids other _ hthread hregistered =>
        hregistered.imp_left fun hwaker => ⟨List.mem_filter.2 ⟨hwaker.1, ?_⟩, hwaker.2⟩ })
    rfl h.live h.waking (fun h' => h') (fun h' => h') (fun _ _ hid => by cases hid)
    (fun _ hlease => by cases hlease) rfl trivial
  refine decide_eq_true fun heq => hj ?_
  rw [← hthread, heq]
  exact (h.ioId hids lease.id rfl).2

theorem kept_dropCount (hinv : Invariant s) (h : Known i s .dropCount) :
    outline.Kept i s (s.setIo { s.directIo with
      activeDirectIo := s.directIo.activeDirectIo - 1
      live := s.directIo.live.filter (· ≠ i) }) .idle := by
  have hmem : i ∈ s.directIo.live := h.live.2 rfl
  have herase : s.directIo.live.filter (· ≠ i) = s.directIo.live.erase i := by
    rw [hinv.io.nodup.erase_eq_filter]
    simp only [decide_not, bne, ne_eq, beq_eq_decide]
  refine kept_setIo hinv h ⟨?_, hinv.io.nodup.filter _⟩
    (fun j hj => { (RelyIo.refl : RelyIo j s.owner s.directIo s.directIo) with
      live := ?_ })
    rfl ?_ h.waking (fun h' => h') (fun h' => h') (fun _ _ hid => by cases hid)
    (fun _ hlease => by cases hlease) rfl trivial
  · change s.directIo.activeDirectIo - 1 = (s.directIo.live.filter (· ≠ i)).length
    rw [herase, List.length_erase_of_mem hmem, hinv.io.count]
  · exact List.mem_filter.trans (and_iff_left (decide_eq_true hj))
  · exact iff_of_false (fun h' => absurd rfl (of_decide_eq_true (List.mem_filter.1 h').2))
      Bool.false_ne_true

/-! ### Routes -/

/-- Only a direct route is answered without a client. -/
theorem torDesired_of_answer {torDesired hasClient isolated : Bool} {status : NetworkPrivacyStatus}
    {decision : RouteDecision}
    (h : routeDecision torDesired status hasClient isolated = .ok decision)
    (hanswer : decision.answer hasClient = false) : torDesired = false := by
  cases torDesired with
  | false => rfl
  | true =>
    replace h : (if status ≠ .ready ∨ ¬ hasClient then _ else _) = Except.ok decision := h
    by_cases hready : status ≠ .ready ∨ ¬ hasClient
    · rw [if_pos hready] at h
      cases status <;> cases h
    · rw [if_neg hready] at h
      rw [not_or, not_not, not_not] at hready
      cases isolated <;> cases h
      · exact absurd (hready.2.symm.trans hanswer) Bool.false_ne_true.symm
      · exact absurd (hready.2.symm.trans hanswer) Bool.false_ne_true.symm

/-! ### The steps of each function -/

/-- The functions that threads stand in. -/
inductive Routine
  | beginTorEnable
  | bootstrapTor
  | installBootstrappedClient
  | setTorFailed
  | disableTor
  | setTorDormant
  | directRouteLease
  | tryTorClientForRoute
  | waitForDirectConnectionsToClose

/-- The function of a phase. -/
def Phase.routine : Phase → Option Routine
  | .idle => none
  | .beginLock | .beginDesired | .beginStatus | .beginEpoch | .beginUnlock _ | .beginWake _
  | .beginClient => some .beginTorEnable
  | .enableLock | .enableDesired | .enableStatus | .enableClient | .enableStart
  | .bootstrapping | .enableUnlock => some .bootstrapTor
  | .installLock | .installDesired | .installPending | .installClient _ | .installStatus
  | .installUnlock => some .installBootstrappedClient
  | .failLock _ | .failClient _ | .failDesired _ | .failStatus _ | .failUnlock _ =>
    some .setTorFailed
  | .disableLock | .disableDesired | .disableStatus | .disableClient | .disableUnlock =>
    some .disableTor
  | .dormantLock _ | .dormantStore _ | .dormantPending | .dormantApply _ | .dormantUnlock =>
    some .setTorDormant
  | .held _ _ | .pollInner _ | .leaseId | .leaseEpoch _ | .pollLock _ | .pollDesired _
  | .pollEpoch _ | .pollInsert _ | .pollUnlock _ _ | .dropRemove _ | .dropCount =>
    some .directRouteLease
  | .routeClient _ _ | .routeDesired _ _ _ | .routeStatus _ _ _ _ | .routed _ _ =>
    some .tryTorClientForRoute
  | .draining => some .waitForDirectConnectionsToClose

theorem beginTorEnable_kept (hroutine : phase.routine = some .beginTorEnable) (hinv : Invariant s)
    (h : Known i s phase) (hnext : next i s phase = some (s', phase')) :
    outline.Kept i s s' phase' := by
  cases phase with
  | beginLock => exact kept_acquire hinv h hnext (.of_place rfl) rfl trivial
  | beginDesired =>
    cases hnext
    exact kept_desire hinv h (.inr (by grind)) (.of_place rfl) rfl rfl rfl trivial
  | beginStatus =>
    cases hnext
    exact kept_status hinv h (by decide) (.of_place rfl) rfl rfl rfl trivial
  | beginEpoch =>
    cases hnext
    exact kept_beginEpoch hinv h
  | beginUnlock wakers =>
    cases hnext
    exact kept_release hinv h (.of_place rfl) rfl (by grind) trivial
  | beginWake wakers =>
    cases wakers with
    | nil =>
      cases hnext
      exact kept_go hinv h (.of_place rfl) rfl trivial
    | cons id wakers =>
      cases hnext
      exact kept_beginWake hinv h
  | beginClient =>
    obtain ⟨-, rfl, rfl⟩ := locked_spec hnext
    exact kept_empty hinv h (.of_place rfl) rfl rfl rfl trivial
  | _ => cases hroutine

theorem bootstrapTor_kept (hroutine : phase.routine = some .bootstrapTor) (hinv : Invariant s)
    (h : Known i s phase) (hnext : next i s phase = some (s', phase')) :
    outline.Kept i s s' phase' := by
  cases phase with
  | enableLock => exact kept_acquire hinv h hnext (.of_place rfl) rfl trivial
  | enableDesired =>
    cases hnext
    split_ifs
    · exact kept_go hinv h (.of_place rfl) rfl trivial
    · exact kept_go hinv h (.of_place rfl) rfl trivial
  | enableStatus =>
    cases hnext
    split_ifs
    · exact kept_go hinv h (.of_place rfl) rfl trivial
    · exact kept_go hinv h (.of_place rfl) rfl trivial
  | enableClient =>
    obtain ⟨-, rfl, rfl⟩ := locked_spec hnext
    split_ifs
    · exact kept_go hinv h (.of_place rfl) rfl trivial
    · exact kept_go hinv h (.of_place rfl) rfl trivial
  | enableStart =>
    cases hnext
    exact kept_status hinv h (by decide) (.of_place rfl) rfl rfl rfl trivial
  | bootstrapping =>
    cases hnext
    exact kept_go hinv h (.of_place rfl) rfl trivial
  | enableUnlock =>
    cases hnext
    exact kept_release hinv h (.of_place rfl) rfl (by grind) trivial
  | _ => cases hroutine

theorem installBootstrappedClient_kept (hroutine : phase.routine = some .installBootstrappedClient)
    (hinv : Invariant s) (h : Known i s phase) (hnext : next i s phase = some (s', phase')) :
    outline.Kept i s s' phase' := by
  cases phase with
  | installLock => exact kept_acquire hinv h hnext (.of_place rfl) rfl trivial
  | installDesired =>
    cases hnext
    split_ifs with hdesired
    · exact kept_go hinv h (.of_place rfl) rfl hdesired
    · exact kept_go hinv h (.of_place rfl) rfl trivial
  | installPending =>
    cases hnext
    exact kept_go hinv h (.of_place rfl) rfl ⟨h.read, fun _ => rfl⟩
  | installClient mode =>
    cases hnext
    exact kept_installClient hinv h
  | installStatus =>
    cases hnext
    exact kept_installStatus hinv h
  | installUnlock =>
    cases hnext
    exact kept_release hinv h (.of_place rfl) rfl (by grind) trivial
  | _ => cases hroutine

theorem setTorFailed_kept (hroutine : phase.routine = some .setTorFailed) (hinv : Invariant s)
    (h : Known i s phase) (hnext : next i s phase = some (s', phase')) :
    outline.Kept i s s' phase' := by
  cases phase with
  | failLock bootstrap => exact kept_acquire hinv h hnext (.of_place rfl) rfl trivial
  | failClient bootstrap =>
    cases hnext
    exact kept_empty hinv h (.of_place rfl) rfl rfl rfl trivial
  | failDesired bootstrap =>
    cases hnext
    split_ifs
    · exact kept_go hinv h (.of_place rfl) rfl trivial
    · exact kept_go hinv h (.of_place rfl) rfl trivial
  | failStatus bootstrap =>
    cases hnext
    exact kept_status hinv h (by decide) (.of_place rfl) rfl rfl rfl trivial
  | failUnlock bootstrap =>
    cases hnext
    cases bootstrap
    · exact kept_release hinv h (.of_place rfl) rfl (by grind) trivial
    · exact kept_release hinv h (.of_place rfl) rfl (by grind) trivial
  | _ => cases hroutine

theorem disableTor_kept (hroutine : phase.routine = some .disableTor) (hinv : Invariant s)
    (h : Known i s phase) (hnext : next i s phase = some (s', phase')) :
    outline.Kept i s s' phase' := by
  cases phase with
  | disableLock => exact kept_acquire hinv h hnext (.of_place rfl) rfl trivial
  | disableDesired =>
    cases hnext
    exact kept_disableDesired hinv h
  | disableStatus =>
    cases hnext
    exact kept_status hinv h (by decide) (.of_place rfl) rfl rfl rfl fun heq => by cases heq
  | disableClient =>
    cases hnext
    exact kept_disableClient hinv h
  | disableUnlock =>
    cases hnext
    exact kept_release hinv h (.of_place rfl) rfl (by grind) trivial
  | _ => cases hroutine

theorem setTorDormant_kept (hroutine : phase.routine = some .setTorDormant) (hinv : Invariant s)
    (h : Known i s phase) (hnext : next i s phase = some (s', phase')) :
    outline.Kept i s s' phase' := by
  cases phase with
  | dormantLock dormant => exact kept_acquire hinv h hnext (.of_place rfl) rfl trivial
  | dormantStore dormant =>
    cases hnext
    exact kept_dormantStore hinv h
  | dormantPending =>
    cases hnext
    exact kept_go hinv h (.of_place rfl) rfl rfl
  | dormantApply mode =>
    obtain ⟨hfree, rfl, rfl⟩ := locked_spec hnext
    exact kept_dormantApply hinv h hfree
  | dormantUnlock =>
    cases hnext
    exact kept_release hinv h (.of_place rfl) rfl (by grind) trivial
  | _ => cases hroutine

theorem directRouteLease_kept (hroutine : phase.routine = some .directRouteLease)
    (hinv : Invariant s) (h : Known i s phase) (hnext : next i s phase = some (s', phase')) :
    outline.Kept i s s' phase' := by
  cases phase with
  | held => cases hnext
  | pollInner => cases hnext
  | leaseId =>
    cases hnext
    exact kept_leaseId hinv h
  | leaseEpoch id =>
    cases hnext
    refine ⟨hinv, { h with
      ioId := h.ioId
      lease := fun lease hlease => ?_
      read := fun hwaits => by cases hwaits }, fun _ _ _ h' => h'⟩
    obtain rfl := Option.some.inj hlease
    exact ⟨rfl, Nat.le_refl _⟩
  | pollLock lease => exact kept_acquire hinv h hnext (.of_place rfl) rfl trivial
  | pollDesired lease =>
    cases hnext
    split_ifs with hdesired
    · exact kept_go hinv h (.of_place rfl) rfl fun hwaits => by cases hwaits
    · exact kept_go hinv h (.of_place rfl) rfl (mt hinv.tor.blocked hdesired)
  | pollEpoch lease =>
    cases hnext
    split_ifs with hepoch
    · exact kept_go hinv h (.of_place rfl) rfl fun hwaits => by cases hwaits
    · exact kept_go hinv h (.of_place rfl) rfl ⟨h.read, not_not.1 hepoch⟩
  | pollInsert lease =>
    cases hnext
    exact kept_pollInsert hinv h
  | pollUnlock lease waits =>
    cases hnext
    exact kept_release hinv h (.of_place rfl) rfl (by grind) h.read
  | dropRemove lease =>
    obtain ⟨hfree, rfl, rfl⟩ := locked_spec hnext
    exact kept_dropRemove hinv h hfree
  | dropCount =>
    cases hnext
    exact kept_dropCount hinv h
  | _ => cases hroutine

theorem tryTorClientForRoute_kept (hroutine : phase.routine = some .tryTorClientForRoute)
    (hinv : Invariant s) (h : Known i s phase) (hnext : next i s phase = some (s', phase')) :
    outline.Kept i s s' phase' := by
  cases phase with
  | routeClient isolated since =>
    obtain ⟨-, rfl, rfl⟩ := locked_spec hnext
    exact kept_go hinv h (.of_place rfl) rfl trivial
  | routeDesired isolated since hasClient =>
    cases hnext
    refine kept_go hinv h (.of_place rfl) rfl fun hdirect count hcount => ?_
    obtain ⟨hle, hdesired⟩ := h.since count hcount
    refine Nat.lt_of_le_of_ne hle fun heq => ?_
    exact absurd (hdirect.symm.trans (hdesired heq)) Bool.false_ne_true
  | routeStatus isolated since hasClient torDesired =>
    simp only [next] at hnext
    split at hnext
    · rename_i decision hdecision
      cases hnext
      exact kept_go hinv h (.of_place rfl) rfl fun hanswer =>
        h.read (torDesired_of_answer hdecision hanswer)
    · cases hnext
      exact kept_go hinv h (.of_place rfl) rfl trivial
    · cases hnext
      exact kept_go hinv h ⟨rfl, rfl, id, id, fun _ h' => h', fun _ h' => h',
        fun _ h' => by cases h'⟩ rfl trivial
  | routed since client =>
    cases hnext
    exact kept_go hinv h ⟨rfl, rfl, id, id, fun _ h' => h', fun _ h' => h',
      fun _ h' => by cases h'⟩ rfl trivial
  | _ => cases hroutine

/-- The next access of a thread keeps the outline. -/
theorem next_kept (hinv : Invariant s) (h : Known i s phase)
    (hnext : next i s phase = some (s', phase')) : outline.Kept i s s' phase' := by
  cases hroutine : phase.routine with
  | none =>
    cases phase with
    | idle => cases hnext
    | _ => cases hroutine
  | some routine =>
    cases routine with
    | beginTorEnable => exact beginTorEnable_kept hroutine hinv h hnext
    | bootstrapTor => exact bootstrapTor_kept hroutine hinv h hnext
    | installBootstrappedClient => exact installBootstrappedClient_kept hroutine hinv h hnext
    | setTorFailed => exact setTorFailed_kept hroutine hinv h hnext
    | disableTor => exact disableTor_kept hroutine hinv h hnext
    | setTorDormant => exact setTorDormant_kept hroutine hinv h hnext
    | directRouteLease => exact directRouteLease_kept hroutine hinv h hnext
    | tryTorClientForRoute => exact tryTorClientForRoute_kept hroutine hinv h hnext
    | waitForDirectConnectionsToClose =>
      cases phase with
      | draining =>
        simp only [next] at hnext
        split_ifs at hnext
        cases hnext
        exact kept_go hinv h (.of_place rfl) rfl trivial
      | _ => cases hroutine

/-- A step of a thread keeps the outline. -/
theorem step_kept {event : Event} (hinv : Invariant s) (h : Known i s phase)
    (hstep : step i event s phase = some (s', phase')) : outline.Kept i s s' phase' := by
  simp only [step] at hstep
  split at hstep
  · cases hstep
    exact kept_go hinv h (.of_place rfl) rfl trivial
  · cases hstep
    exact kept_desire hinv h (.inl rfl) (.of_place rfl) rfl rfl rfl trivial
  · cases hstep
    exact kept_go hinv h (.of_place rfl) rfl trivial
  · cases hstep
    exact kept_go hinv h (.of_place rfl) rfl trivial
  · cases hstep
    exact kept_go hinv h (.of_place rfl) rfl trivial
  · cases hstep
    exact kept_connect hinv h
  · cases hstep
    exact kept_go hinv h (.of_place rfl) rfl trivial
  · cases hstep
    exact kept_go hinv h (.of_place rfl) rfl trivial
  · cases hstep
    refine ⟨hinv, { h with since := fun count hcount => ?_, read := trivial }, fun _ _ _ h' => h'⟩
    replace hcount : (if s.tor.torDesired then some s.tor.openings else none) = some count := hcount
    split_ifs at hcount with hdesired
    obtain rfl := Option.some.inj hcount
    exact ⟨Nat.le_refl _, fun _ => hdesired⟩
  · cases hstep
    exact kept_go hinv h (.of_place rfl) rfl trivial
  · cases hstep
    exact kept_go hinv h (.of_place rfl) rfl trivial
  · cases hstep
    exact kept_go hinv h ⟨rfl, rfl, id, id, fun _ h' => h', fun _ h' => h',
      fun _ h' => by cases h'⟩ rfl trivial
  · cases hstep
    exact kept_go hinv h (.of_place rfl) rfl trivial
  · cases hstep
    exact kept_go hinv h (.of_place rfl) rfl trivial
  · cases hstep
    exact kept_go hinv h (.of_place rfl) rfl fun _ _ => .inl ⟨h.read.2.2, h.read.2.1⟩
  · exact next_kept hinv h hstep
  · cases hstep

/-! ## Runs -/

variable {ok : Threads Policy Phase → ℕ × Event → Prop} {world : Threads Policy Phase}

/-- The outline holds in every reached state. -/
theorem holds_of_reaches (h : system.Reaches ok world) : outline.Holds world := by
  refine Outline.holds_of_reaches ⟨⟨fun hblocked => (by cases hblocked), fun _ _ => ⟨?_, rfl⟩,
    fun _ _ hclient => (by cases hclient)⟩, rfl, List.nodup_nil⟩ (fun i => ?_)
    (fun w event s' phase' hw _ hstep => step_kept hw.invariant (hw.known event.1) hstep) h
  · exact fun heq => by cases heq
  · exact
      { locks := fun _ => iff_of_false (Option.some_ne_none i).symm List.not_mem_nil
        live := iff_of_false List.not_mem_nil Bool.false_ne_true
        waking := fun _ => iff_of_false List.not_mem_nil List.not_mem_nil
        disabler := fun heq => by cases heq
        setter := fun heq => by cases heq
        ioId := fun _ _ hid => by cases hid
        lease := fun _ hlease => by cases hlease
        since := fun _ hcount => by cases hcount
        read := trivial }

/-! ### A sample -/

section Sample

def calls (i : ℕ) (event : Event) (accesses : ℕ) : List (ℕ × Event) :=
  (i, event) :: List.replicate accesses (i, .next)

/-- Tor is switched on and a client bootstrapped. -/
def sampleEnable (i : ℕ) : List (ℕ × Event) := calls i .beginTorEnable 7 ++ calls i .enableTor 12

def sampleDisable (i : ℕ) : List (ℕ × Event) := calls i .disableTor 5

/-- A connection is made and polled. -/
def samplePoll (i : ℕ) : List (ℕ × Event) := calls i .connect 2 ++ calls i .poll 4

/-- A run of one thread leaves the others idle. -/
theorem exists_alone (events : List Event) (p : Threads Policy Phase → Bool)
    (h : (system.run system.init (events.map (Prod.mk 0))).any p) :
    ∃ world, system.Reachable world ∧ p world ∧ ∀ i, i ≠ 0 → world.thread i = .idle := by
  obtain ⟨world, hrun, hp⟩ := (Option.any_eq_true _ _).1 h
  refine ⟨world, Transition.Reachable.run .init hrun, hp, fun i hi => ?_⟩
  refine Threads.thread_of_run (fun event hevent => ?_) hrun
  obtain ⟨_, -, rfl⟩ := List.mem_map.1 hevent
  exact hi

end Sample

/-! ### Results -/

/-- A direct connection is polled only while the direct route is not blocked, and only by a lease
that was made after the last switch to Tor. -/
theorem direct_io_allowed {lease : DirectRouteLease} (h : system.Reaches ok world)
    (hpoll : world.thread i = .pollInner lease) :
    ¬ world.shared.tor.blocked ∧
      (world.shared.directIo.switches < u64Size → lease.born = world.shared.directIo.switches) := by
  have hknown := (holds_of_reaches h).known i
  rw [hpoll] at hknown
  obtain ⟨hblocked, hepoch, -⟩ := hknown.read
  refine ⟨hblocked, fun hlt => ?_⟩
  obtain ⟨hborn, hle⟩ := hknown.lease lease rfl
  rw [DirectIo.directRouteEpoch, Nat.mod_eq_of_lt hlt, hborn,
    Nat.mod_eq_of_lt (Nat.lt_of_le_of_lt hle hlt)] at hepoch
  exact hepoch

theorem direct_io_allowed_sample : ∃ world, system.Reachable world ∧
    world.thread 0 = .pollInner ⟨1, 1, 1⟩ ∧ ¬ world.shared.tor.blocked ∧
      world.shared.directIo.switches = 1 := by
  obtain ⟨world, hreachable, hp⟩ := system.exists_reachable
    (sampleEnable 1 ++ sampleDisable 1 ++ samplePoll 0)
    (fun world => world.thread 0 = .pollInner ⟨1, 1, 1⟩ ∧
      world.shared.directIo.switches < u64Size) (by decide)
  obtain ⟨hpoll, hswitches⟩ := of_decide_eq_true hp
  obtain ⟨hblocked, hborn⟩ := direct_io_allowed hreachable hpoll
  exact ⟨world, hreachable, hpoll, hblocked, (hborn hswitches).symm⟩

/-- A request that began when Tor was desired gets a direct route only if the direct route was
opened since. -/
theorem direct_routes_opened {count : ℕ} (h : system.Reaches ok world)
    (hroute : world.thread i = .routed (some count) false) : count < world.shared.tor.openings := by
  have hknown := (holds_of_reaches h).known i
  rw [hroute] at hknown
  exact hknown.read rfl count rfl

theorem direct_routes_opened_sample : ∃ world, system.Reachable world ∧
    world.thread 0 = .routed (some 0) false ∧ 0 < world.shared.tor.openings := by
  obtain ⟨world, hreachable, hp⟩ := system.exists_reachable
    (sampleEnable 1 ++ (0, .route true) :: sampleDisable 1 ++ List.replicate 3 (0, .next))
    (fun world => world.thread 0 = .routed (some 0) false) (by decide)
  have hroute := of_decide_eq_true hp
  exact ⟨world, hreachable, hroute, direct_routes_opened hreachable hroute⟩

/-- When Tor is not desired, and no thread is opening the direct route, there is no client, and no
status that promises one. -/
theorem direct_not_ready (h : system.Reaches ok world)
    (hdirect : world.shared.tor.torDesired = false)
    (hopen : ∀ i, (world.thread i).disables = false) :
    world.shared.tor.torStatus ≠ .ready ∧ world.shared.tor.torClient = none := by
  have hholds := holds_of_reaches h
  refine hholds.invariant.tor.direct ?_ hdirect
  cases hdisabler : world.shared.tor.disabler with
  | none => rfl
  | some i => exact absurd ((hholds.known i).disabler hdisabler) (by simp [hopen i])

theorem direct_not_ready_sample : ∃ world, system.Reachable world ∧
    world.shared.tor.openings = 1 ∧ world.shared.tor.torStatus ≠ .ready ∧
      world.shared.tor.torClient = none := by
  obtain ⟨world, hreachable, hp, hothers⟩ := exists_alone
    ((sampleEnable 0 ++ sampleDisable 0).map Prod.snd)
    (fun world => world.shared.tor.openings = 1 ∧ world.shared.tor.torDesired = false ∧
      (world.thread 0).disables = false) (by decide)
  obtain ⟨hopenings, hdirect, hfirst⟩ := of_decide_eq_true hp
  refine ⟨world, hreachable, hopenings, direct_not_ready hreachable hdirect fun i => ?_⟩
  by_cases hi : i = 0
  · exact hi ▸ hfirst
  · rw [hothers i hi]
    rfl

/-- When no thread has stored an intent that it has not applied, the client has the mode that was
last asked for. -/
theorem sleep_kept {client : TorClient} (h : system.Reaches ok world)
    (happlied : ∀ i, (world.thread i).applies = false)
    (hclient : world.shared.tor.torClient = some client) :
    client.mode = pendingDormantMode world.shared.tor.torDormant := by
  have hholds := holds_of_reaches h
  refine hholds.invariant.tor.mode ?_ client hclient
  cases hsetter : world.shared.tor.setter with
  | none => rfl
  | some i => exact absurd ((hholds.known i).setter hsetter) (by simp [happlied i])

theorem sleep_kept_sample : ∃ world, system.Reachable world ∧
    world.shared.tor.torClient = some ⟨.soft⟩ ∧
      DormantMode.soft = pendingDormantMode world.shared.tor.torDormant := by
  obtain ⟨world, hreachable, hp, hothers⟩ := exists_alone
    ((calls 0 (.setTorDormant true) 5 ++ sampleEnable 0).map Prod.snd)
    (fun world => world.shared.tor.torClient = some ⟨.soft⟩ ∧
      (world.thread 0).applies = false) (by decide)
  obtain ⟨hclient, hfirst⟩ := of_decide_eq_true hp
  refine ⟨world, hreachable, hclient, sleep_kept hreachable (fun i => ?_) hclient⟩
  by_cases hi : i = 0
  · exact hi ▸ hfirst
  · rw [hothers i hi]
    rfl

/-- A connection that waits when the route is switched to Tor was woken, or a thread that has given
the lock of the wakers back, or is about to, is going to wake it. -/
theorem waiting_woken {lease : DirectRouteLease} (h : system.Reaches ok world)
    (hwaits : world.thread i = .held lease true)
    (hswitch : lease.born < world.shared.directIo.switches)
    (hswitches : world.shared.directIo.switches < u64Size)
    (hids : world.shared.directIo.nextDirectIoId ≤ u64Size) :
    lease.id ∈ world.shared.directIo.woken ∨
      ∃ k wakers, lease.id ∈ wakers ∧
        (world.thread k = .beginUnlock wakers ∨ world.thread k = .beginWake wakers) := by
  have hholds := holds_of_reaches h
  have hknown := hholds.known i
  rw [hwaits] at hknown
  obtain ⟨hborn, hle⟩ := hknown.lease lease rfl
  obtain ⟨-, hepoch⟩ | hwoken | ⟨k, hk⟩ := hknown.read rfl hids
  · rw [hborn, DirectIo.directRouteEpoch, Nat.mod_eq_of_lt hswitches,
      Nat.mod_eq_of_lt (Nat.lt_trans hswitch hswitches)] at hepoch
    omega
  · exact .inl hwoken
  · have hmem := ((hholds.known k).waking lease.id).1 hk
    refine .inr ⟨k, (world.thread k).waking, hmem, ?_⟩
    cases hphase : world.thread k <;> rw [hphase] at hmem <;>
      first | exact .inl rfl | exact .inr rfl | cases hmem

theorem waiting_woken_sample : ∃ world, system.Reachable world ∧
    world.thread 0 = .held ⟨1, 0, 0⟩ true ∧ (1 ∈ world.shared.directIo.woken ∨
      ∃ k wakers, 1 ∈ wakers ∧
        (world.thread k = .beginUnlock wakers ∨ world.thread k = .beginWake wakers)) := by
  obtain ⟨world, hreachable, hp⟩ := system.exists_reachable
    (samplePoll 0 ++ [(0, .inner true), (0, .next)] ++ calls 1 .beginTorEnable 5)
    (fun world => world.thread 0 = .held ⟨1, 0, 0⟩ true ∧ 0 < world.shared.directIo.switches ∧
      world.shared.directIo.switches < u64Size ∧
      world.shared.directIo.nextDirectIoId ≤ u64Size) (by decide)
  obtain ⟨hwaits, hswitch, hswitches, hids⟩ := of_decide_eq_true hp
  exact ⟨world, hreachable, hwaits, waiting_woken hreachable hwaits hswitch hswitches hids⟩

/-- No connection is left when the count of connections is zero. -/
theorem drained_closed (h : system.Reaches ok world)
    (hdrained : world.shared.directIo.activeDirectIo = 0) : (world.thread i).connected = false := by
  have hholds := holds_of_reaches h
  have hnil : world.shared.directIo.live = [] :=
    List.length_eq_zero_iff.1 (hholds.invariant.io.count.symm.trans hdrained)
  have hknown := (hholds.known i).live
  rw [hnil] at hknown
  exact Bool.not_eq_true _ ▸ mt hknown.2 List.not_mem_nil

theorem drained_closed_sample : ∃ world, system.Reachable world ∧
    world.shared.directIo.nextDirectIoId = 2 ∧ (world.thread 0).connected = false := by
  obtain ⟨world, hreachable, hp⟩ := system.exists_reachable
    (samplePoll 0 ++ [(0, .inner false), (0, .next)] ++ calls 0 .drop 2)
    (fun world => world.shared.directIo.nextDirectIoId = 2 ∧
      world.shared.directIo.activeDirectIo = 0) (by decide)
  obtain ⟨hids, hdrained⟩ := of_decide_eq_true hp
  exact ⟨world, hreachable, hids, drained_closed hreachable hdrained⟩

end VizorWallet.NetworkPrivacy
