import VizorWallet.Migration.Store.Database
import VizorWallet.Migration.Store.Generations
import VizorWallet.Migration.Store.Rebase
import VizorWallet.Migration.Store.Schedule

/-!
# Promotion of the signed children

When a signed child becomes a pending transaction it keeps its height and its part, except when its
height is mistaken for the marker of rows that had none.

## Main definitions

* `RebaseDue`, `RebaseOverflows` — what the rebase of a promotion does.
* `Retained` — what the signed children of a run have been checked for.
* `partsSystem` — the signed children of a run from its creation.
* `KeptAt` — a height agrees with the schedule, and the compatibility rewrite leaves it alone.
* `KeepsSchedule` — a promotion goes through at the height of its child.

## Main results

* `rebase_outcome` — the exits of a rebase, in terms of the run before it.
* `promotion_keeps_schedule_iff` — when a promotion keeps the schedule of its child.
* `absolute_schedule_refused` — a replacement that cannot be promoted again.
-/

namespace VizorWallet.Migration.Store

variable {run run' : Run} {origin currentScannedHeight : ℕ} {child : SignedChild}

/-! ## The rebase before a promotion -/

/-- The offset of a child in the approved schedule. -/
def SignedChild.offsetIn (run : Run) (child : SignedChild) : Option ℕ :=
  scheduleBlockOffsetForPart run.schedule run.targetValues child.childIndex child.value

/-- The child can move to a height without leaving its expiry bucket. -/
def CanMove (run : Run) (origin height : ℕ) (child : SignedChild) : Prop :=
  ∃ blockOffset, child.offsetIn run = some blockOffset ∧
    child.scheduledHeight = some (origin + blockOffset) ∧
    Canonical (height + blockOffset) child.expiryHeight

/-- The child would move to a height whose expiry is not a `u32`. -/
def RunsOut (run : Run) (origin height : ℕ) (child : SignedChild) : Prop :=
  ∃ blockOffset, child.offsetIn run = some blockOffset ∧
    child.scheduledHeight = some (origin + blockOffset) ∧ height + blockOffset < 2 ^ 32 ∧
    ∀ expiryHeight, ¬ Canonical (height + blockOffset) expiryHeight

/-- Some child runs out of heights, and the children before it can move. -/
def OverflowsFrom (run : Run) (origin height : ℕ) : List SignedChild → Prop
  | [] => False
  | child :: rest => RunsOut run origin height child ∨
      CanMove run origin height child ∧ OverflowsFrom run origin height rest

/-- The rebase has not been decided, and everything but the heights of the children allows it. -/
structure RebaseOpen (currentScannedHeight : ℕ) (run : Run) (origin : ℕ) : Prop where
  unmarked : run.initialScheduleRebasedOriginHeight = none
  signedOrigin : run.signedScheduleOriginHeight = some origin
  ready : ∃ proofRetryHeight ≤ currentScannedHeight, run.proofRetryHeight = some proofRetryHeight
  unpromoted : run.pending = []
  scheduled : run.schedule ≠ []
  signed : run.signedChildren ≠ []
  covers : (run.signedChildren.map SignedChild.childIndex).toFinset =
    Finset.range (plannedPartCount run)
  later : origin < currentScannedHeight

def RebaseDue (currentScannedHeight : ℕ) (run : Run) : Prop :=
  ∃ origin, RebaseOpen currentScannedHeight run origin ∧
    ∀ child ∈ run.signedChildren, CanMove run origin currentScannedHeight child

def RebaseOverflows (currentScannedHeight : ℕ) (run : Run) : Prop :=
  ∃ origin, RebaseOpen currentScannedHeight run origin ∧
    OverflowsFrom run origin currentScannedHeight (orderedSignedChildren run)

theorem CanMove.not_runsOut {height : ℕ} (h : CanMove run origin height child) :
    ¬ RunsOut run origin height child := by
  rintro ⟨blockOffset, hoffset, -, -, hnone⟩
  obtain ⟨blockOffset', hoffset', -, hcanonical⟩ := h
  obtain rfl := Option.some.inj (hoffset.symm.trans hoffset')
  exact hnone _ hcanonical

theorem not_overflowsFrom {height : ℕ} {children : List SignedChild}
    (h : ∀ child ∈ children, CanMove run origin height child) :
    ¬ OverflowsFrom run origin height children := by
  induction children with
  | nil => exact id
  | cons child rest ih =>
    obtain ⟨hchild, hrest⟩ := List.forall_mem_cons.1 h
    rintro (hout | ⟨-, hlater⟩)
    · exact hchild.not_runsOut hout
    · exact ih hrest hlater

/-- What a result of the loop says about the children. -/
def Explains (run : Run) (origin height : ℕ) (children : List SignedChild) :
    Except String Rebase → Prop
  | .ok (.shift _) => ∀ child ∈ children, CanMove run origin height child
  | .ok .freeze | .ok .skip => ¬ (∀ child ∈ children, CanMove run origin height child) ∧
      ¬ OverflowsFrom run origin height children
  | .error _ => OverflowsFrom run origin height children

theorem explains_of_stuck {height : ℕ} {rest : List SignedChild} {rebase : Rebase}
    (hstuck : rebase = .freeze ∨ rebase = .skip) (hmove : ¬ CanMove run origin height child)
    (hout : ¬ RunsOut run origin height child) :
    Explains run origin height (child :: rest) (.ok rebase) := by
  have hboth : ¬ (∀ other ∈ child :: rest, CanMove run origin height other) ∧
      ¬ OverflowsFrom run origin height (child :: rest) := by
    refine ⟨fun hall => hmove (hall child List.mem_cons_self), ?_⟩
    rintro (hruns | ⟨hmoves, -⟩)
    · exact hout hruns
    · exact hmove hmoves
  obtain rfl | rfl := hstuck
  · exact hboth
  · exact hboth

/-- Behind a child that can move, the children are stuck as the rest are. -/
theorem stuck_cons {height : ℕ} {rest : List SignedChild} (hmove : CanMove run origin height child)
    (h : ¬ (∀ other ∈ rest, CanMove run origin height other) ∧
      ¬ OverflowsFrom run origin height rest) :
    ¬ (∀ other ∈ child :: rest, CanMove run origin height other) ∧
      ¬ OverflowsFrom run origin height (child :: rest) := by
  refine ⟨fun hall => h.1 (List.forall_mem_cons.1 hall).2, ?_⟩
  rintro (hruns | ⟨-, hlater⟩)
  · exact hmove.not_runsOut hruns
  · exact h.2 hlater

theorem canonical_lt {scheduledHeight expiryHeight : ℕ}
    (h : Canonical scheduledHeight expiryHeight) : scheduledHeight < 2 ^ 32 := by
  have hlt := h.lt
  have hbound := (canonical_iff.1 h).2
  omega

theorem canMove_iff {height scheduledHeight blockOffset : ℕ}
    (hoffset : child.offsetIn run = some blockOffset)
    (hheight : child.scheduledHeight = some scheduledHeight) :
    CanMove run origin height child ↔ scheduledHeight = origin + blockOffset ∧
      Canonical (height + blockOffset) child.expiryHeight := by
  rw [CanMove, hoffset, hheight]
  simp only [Option.some.injEq, exists_eq_left']

theorem runsOut_iff {height scheduledHeight blockOffset : ℕ}
    (hoffset : child.offsetIn run = some blockOffset)
    (hheight : child.scheduledHeight = some scheduledHeight) :
    RunsOut run origin height child ↔ scheduledHeight = origin + blockOffset ∧
      height + blockOffset < 2 ^ 32 ∧
        ∀ expiryHeight, ¬ Canonical (height + blockOffset) expiryHeight := by
  rw [RunsOut, hoffset, hheight]
  simp only [Option.some.injEq, exists_eq_left']

theorem rebaseUpdates_explains {height : ℕ} {entries : List (SignedChild × ℕ)}
    (hread : ∀ entry ∈ entries, entry.1.scheduledHeight = some entry.2) :
    Explains run origin height (entries.map Prod.fst)
      (rebaseUpdates run origin height entries) := by
  induction entries with
  | nil => exact nofun
  | cons entry rest ih =>
    obtain ⟨child, scheduledHeight⟩ := entry
    obtain ⟨hheight, hrest⟩ := List.forall_mem_cons.1 hread
    dsimp only at hheight
    have hih := ih hrest
    rw [List.map_cons]
    unfold rebaseUpdates
    cases hoffset : scheduleBlockOffsetForPart run.schedule run.targetValues child.childIndex
      child.value with
    | none =>
      have hnone : child.offsetIn run = none := hoffset
      refine explains_of_stuck (.inl rfl) ?_ ?_ <;> rintro ⟨blockOffset, hsome, -⟩ <;>
        rw [hnone] at hsome <;> cases hsome
    | some blockOffset =>
      -- Both ways in which a child may go on are about this offset.
      have hmove : CanMove run origin height child ↔ _ := canMove_iff hoffset hheight
      have hout : RunsOut run origin height child ↔ _ := runsOut_iff hoffset hheight
      dsimp only
      split_ifs with horigin hoverflow
      · refine explains_of_stuck (.inl rfl) ?_ ?_
        · rw [hmove]
          omega
        · rw [hout]
          omega
      · refine explains_of_stuck (.inl rfl) ?_ ?_
        · rw [hmove]
          rintro ⟨-, hcanonical⟩
          have hlt := canonical_lt hcanonical
          omega
        · rw [hout]
          omega
      · have hsame : scheduledHeight = origin + blockOffset := by omega
        cases hexpiry : zip318CanonicalMigrationExpiryHeight (height + blockOffset) with
        | error error =>
          refine .inl (hout.2 ⟨hsame, by omega, fun expiryHeight hcanonical => ?_⟩)
          rw [Canonical, hexpiry] at hcanonical
          cases hcanonical
        | ok newExpiry =>
          rw [ok_bind]
          split_ifs with hbucket
          · refine explains_of_stuck (.inr rfl) ?_ ?_
            · rw [hmove]
              rintro ⟨-, hcanonical⟩
              exact hbucket (Except.ok.inj (hexpiry.symm.trans hcanonical))
            · rw [hout]
              rintro ⟨-, -, hnone⟩
              exact hnone newExpiry hexpiry
          · have hchild : CanMove run origin height child :=
              hmove.2 ⟨hsame, hexpiry.trans (congrArg _ (not_not.1 hbucket))⟩
            revert hih
            cases rebaseUpdates run origin height rest with
            | error error => exact fun hrestOut => .inr ⟨hchild, hrestOut⟩
            | ok rebase =>
              cases rebase with
              | shift updates =>
                exact fun hall => List.forall_mem_cons.2 ⟨hchild, hall⟩
              | freeze => exact stuck_cons hchild
              | skip => exact stuck_cons hchild

theorem mem_orderedSignedChildren :
    child ∈ orderedSignedChildren run ↔ child ∈ run.signedChildren :=
  (orderedSignedChildren_perm run).mem_iff

theorem orderedSignedChildren_eq_nil :
    orderedSignedChildren run = [] ↔ run.signedChildren = [] := by
  rw [← List.length_eq_zero_iff, ← List.length_eq_zero_iff,
    (orderedSignedChildren_perm run).length_eq]

/-- The children that a rebase reads are those of the run, when each has a height. -/
theorem read_orderedSignedChildren {children : List (SignedChild × ℕ)}
    (h : ((orderedSignedChildren run).mapM fun child => do
      return (child, ← orError child.scheduledHeight "Read signed child for initial rebase")) =
        .ok children) :
    children.map Prod.fst = orderedSignedChildren run ∧
      ∀ entry ∈ children, entry.1.scheduledHeight = some entry.2 := by
  have hread : List.Forall₂ (fun child entry => entry.1 = child ∧
      entry.1.scheduledHeight = some entry.2) (orderedSignedChildren run) children := by
    refine (mapM_eq_ok.1 h).imp ?_
    intro child entry hentry
    obtain ⟨height, hheight, hpair⟩ := bind_eq_ok.1 hentry
    obtain rfl := pure_eq_ok.1 hpair
    exact ⟨rfl, orError_eq_ok.1 hheight⟩
  constructor
  · exact (map_eq_of_forall₂ hread fun _ _ hentry => hentry.1).trans (List.map_id _)
  · intro entry hentry
    obtain ⟨child, -, -, hheight⟩ := exists_mem_left hread hentry
    exact hheight

/-- What the result of a rebase says about the run before it. -/
def Decides (currentScannedHeight : ℕ) (run : Run) : Except String (Run × Bool) → Prop
  | .ok (_, true) => RebaseDue currentScannedHeight run ∧ ¬ RebaseOverflows currentScannedHeight run
  | .ok (_, false) =>
    ¬ RebaseDue currentScannedHeight run ∧ ¬ RebaseOverflows currentScannedHeight run
  | .error _ => RebaseOverflows currentScannedHeight run

/-- Unless the rebase is open, it is neither due nor can it overflow. -/
theorem not_due_of_closed (h : ∀ origin, ¬ RebaseOpen currentScannedHeight run origin) :
    ¬ RebaseDue currentScannedHeight run ∧ ¬ RebaseOverflows currentScannedHeight run := by
  constructor
  · rintro ⟨origin, hopen, -⟩
    exact h origin hopen
  · rintro ⟨origin, hopen, -⟩
    exact h origin hopen

theorem RebaseOpen.unique {origin' : ℕ} (h : RebaseOpen currentScannedHeight run origin)
    (h' : RebaseOpen currentScannedHeight run origin') : origin' = origin :=
  Option.some.inj (h'.signedOrigin.symm.trans h.signedOrigin)

/-- An open rebase is due exactly when every child can move. -/
theorem RebaseOpen.due_iff (h : RebaseOpen currentScannedHeight run origin) :
    RebaseDue currentScannedHeight run ↔ ∀ child ∈ orderedSignedChildren run,
      CanMove run origin currentScannedHeight child := by
  constructor
  · rintro ⟨origin', h', hall⟩ child hchild
    obtain rfl := h.unique h'
    exact hall child (mem_orderedSignedChildren.1 hchild)
  · intro hall
    exact ⟨origin, h, fun child hchild => hall child (mem_orderedSignedChildren.2 hchild)⟩

/-- An open rebase overflows exactly when its children do in their order. -/
theorem RebaseOpen.overflows_iff (h : RebaseOpen currentScannedHeight run origin) :
    RebaseOverflows currentScannedHeight run ↔
      OverflowsFrom run origin currentScannedHeight (orderedSignedChildren run) := by
  constructor
  · rintro ⟨origin', h', hfrom⟩
    obtain rfl := h.unique h'
    exact hfrom
  · exact fun hfrom => ⟨origin, h, hfrom⟩

/-- An open rebase ends as its updates do: it moves the children, or leaves them. -/
theorem RebaseOpen.decides {result : Except String Rebase}
    {next : Rebase → Except String (Run × Bool)}
    (h : RebaseOpen currentScannedHeight run origin)
    (hexplains : Explains run origin currentScannedHeight (orderedSignedChildren run) result)
    (hfreeze : ∃ run', next .freeze = .ok (run', false))
    (hskip : ∃ run', next .skip = .ok (run', false))
    (hshift : ∀ updates, ∃ run', next (.shift updates) = .ok (run', true)) :
    Decides currentScannedHeight run (result >>= next) := by
  cases result with
  | error error => exact h.overflows_iff.2 hexplains
  | ok rebase =>
    rw [ok_bind]
    cases rebase with
    | shift updates =>
      obtain ⟨run', hrun'⟩ := hshift updates
      rw [hrun']
      exact ⟨h.due_iff.2 hexplains, fun hover =>
        not_overflowsFrom hexplains (h.overflows_iff.1 hover)⟩
    | freeze =>
      obtain ⟨run', hrun'⟩ := hfreeze
      rw [hrun']
      exact ⟨fun hdue => hexplains.1 (h.due_iff.1 hdue), fun hover =>
        hexplains.2 (h.overflows_iff.1 hover)⟩
    | skip =>
      obtain ⟨run', hrun'⟩ := hskip
      rw [hrun']
      exact ⟨fun hdue => hexplains.1 (h.due_iff.1 hdue), fun hover =>
        hexplains.2 (h.overflows_iff.1 hover)⟩

/-- The exits of a rebase, in terms of the run before it. -/
theorem rebase_outcome (hheights : ∀ child ∈ run.signedChildren, child.scheduledHeight.isSome) :
    Decides currentScannedHeight run (rebaseInitialSignedSchedule currentScannedHeight run) := by
  unfold rebaseInitialSignedSchedule
  split
  case h_2 hnever =>
    refine not_due_of_closed ?_
    rintro origin ⟨hunmarked, horigin, ⟨proofRetryHeight, -, hready⟩, -⟩
    exact hnever proofRetryHeight origin hunmarked hready horigin
  case h_1 proofRetryHeight origin hunmarked hready horigin =>
    split_ifs with hwaits
    · refine not_due_of_closed ?_
      intro origin' h
      obtain ⟨proofRetryHeight', hle, hready'⟩ := h.ready
      obtain rfl := Option.some.inj (hready.symm.trans hready')
      rcases hwaits with hearly | hpromoted | hempty
      · omega
      · rw [countForRun, h.unpromoted] at hpromoted
        cases hpromoted
      · exact h.scheduled (List.isEmpty_iff.1 hempty)
    · push Not at hwaits
      obtain ⟨hreached, hnone, hscheduled⟩ := hwaits
      have hpending : run.pending = [] := by
        rw [countForRun] at hnone
        exact List.length_eq_zero_iff.1 (by omega)
      generalize hread : ((orderedSignedChildren run).mapM fun child => do
        return (child, ← orError child.scheduledHeight "Read signed child for initial rebase") :
        Except String (List (SignedChild × ℕ))) = read
      cases read with
      | error error =>
        exfalso
        obtain ⟨child, hchild, herror⟩ := exists_of_mapM_eq_error hread
        obtain ⟨height, hheight⟩ :=
          Option.isSome_iff_exists.1 (hheights child (mem_orderedSignedChildren.1 hchild))
        simp [hheight, pure, Except.pure] at herror
      | ok children =>
        obtain ⟨hchildren, hentries⟩ := read_orderedSignedChildren hread
        rw [ok_bind]
        split_ifs with hpartial
        · refine not_due_of_closed ?_
          intro origin' h
          rcases hpartial with hempty | hcovers
          · rw [List.isEmpty_iff.1 hempty] at hchildren
            exact h.signed (orderedSignedChildren_eq_nil.1 hchildren.symm)
          · exact hcovers h.covers
        · push Not at hpartial
          dsimp only
          split_ifs with hsame
          · refine not_due_of_closed ?_
            intro origin' h
            obtain rfl := Option.some.inj (h.signedOrigin.symm.trans horigin)
            have hlater := h.later
            omega
          · have hmax : max origin currentScannedHeight = currentScannedHeight := by omega
            have hopen : RebaseOpen currentScannedHeight run origin := by
              refine ⟨hunmarked, horigin, ⟨_, hreached, hready⟩, hpending, ?_, ?_, hpartial.2, ?_⟩
              · simpa using hscheduled
              · intro hnil
                rw [orderedSignedChildren_eq_nil.2 hnil, List.map_eq_nil_iff] at hchildren
                simp [hchildren] at hpartial
              · omega
            have hexplains := @rebaseUpdates_explains run origin currentScannedHeight children
              hentries
            rw [hchildren] at hexplains
            rw [hmax]
            exact hopen.decides hexplains ⟨_, rfl⟩ ⟨_, rfl⟩ fun _ => ⟨_, rfl⟩

/-! ## The signed children of a run -/

/-- The message id that a signing request gives to a part. -/
def migrationMessageId (partIndex : ℕ) : String := s!"migration-{partIndex + 1}"

/-- What a signed child has been checked for. -/
structure RetainedChild (run : Run) (child : SignedChild) : Prop where
  messageId : child.messageId = migrationMessageId child.childIndex
  height : ∃ height, child.scheduledHeight = some height ∧ Canonical height child.expiryHeight
  part : run.targetValues[child.childIndex]? = some child.value
  entry : run.schedule ≠ [] → (scheduleEntryForPart run.schedule run.targetValues child.childIndex
    child.value).isSome

structure Retained (run : Run) : Prop where
  keyed : run.MessageKeyed
  children : ∀ child ∈ run.signedChildren, RetainedChild run child
  schedule : run.schedule = [] ∨ validateScheduleWithPolicy run.schedule run.targetValues
    run.network run.timingPolicy = .ok ()

/-- The approved plan of a run stays as it is. -/
structure SamePlan (run run' : Run) : Prop where
  targetValues : run'.targetValues = run.targetValues
  schedule : run'.schedule = run.schedule
  network : run'.network = run.network
  timingPolicy : run'.timingPolicy = run.timingPolicy

theorem RetainedChild.of_plan (h : RetainedChild run child) (hplan : SamePlan run run') :
    RetainedChild run' child := by
  obtain ⟨hid, hheight, hpart, hentry⟩ := h
  refine ⟨hid, hheight, ?_, ?_⟩
  · rw [hplan.targetValues]
    exact hpart
  · rw [hplan.schedule, hplan.targetValues]
    exact hentry

/-- Children that are dropped, under the same plan. -/
theorem Retained.of_sublist (h : Retained run) (hplan : SamePlan run run')
    (hchildren : run'.signedChildren.Sublist run.signedChildren) : Retained run' := by
  refine ⟨h.keyed.sublist (hchildren.map _), ?_, ?_⟩
  · intro child hchild
    exact (h.children child (hchildren.subset hchild)).of_plan hplan
  · rw [hplan.schedule, hplan.targetValues, hplan.network, hplan.timingPolicy]
    exact h.schedule

/-- A part has one child. -/
theorem Retained.eq_of_childIndex (h : Retained run) {other : SignedChild}
    (hchild : child ∈ run.signedChildren) (hother : other ∈ run.signedChildren)
    (hindex : other.childIndex = child.childIndex) : other = child := by
  apply List.inj_on_of_nodup_map h.keyed hother hchild
  rw [(h.children other hother).messageId, (h.children child hchild).messageId, hindex]

theorem Retained.find?_childIndex (h : Retained run) (hchild : child ∈ run.signedChildren) :
    run.signedChildren.find? (·.childIndex = child.childIndex) = some child := by
  cases hfind : run.signedChildren.find? (·.childIndex = child.childIndex) with
  | none => exact absurd (List.find?_eq_none.1 hfind child hchild) (by simp)
  | some other =>
    have hindex : other.childIndex = child.childIndex := by simpa using List.find?_some hfind
    exact congrArg some (h.eq_of_childIndex hchild (List.mem_of_find?_eq_some hfind) hindex)

/-- The drawn schedule is planned for the values of the run. -/
def Drawn (run : Run) (drawn : List MigrationScheduleEntry) : Prop :=
  ∃ shuffle sampler, drawn = plannedTransferScheduleForPartsWithPolicy (partsOf run.targetValues)
    run.network run.timingPolicy shuffle sampler

theorem Drawn.describes {drawn : List MigrationScheduleEntry} (h : Drawn run drawn) :
    Describes drawn run.targetValues ∧
      validateScheduleWithPolicy drawn run.targetValues run.network run.timingPolicy = .ok () := by
  obtain ⟨shuffle, sampler, rfl⟩ := h
  obtain ⟨hparts, hgaps⟩ := @map_plannedTransferSchedule (partsOf run.targetValues) run.network
    run.timingPolicy shuffle sampler
  have hdescribes := describes_of_perm (shuffle.perm (partsOf run.targetValues)) hparts
  exact ⟨hdescribes, validateScheduleWithPolicy_of hdescribes hgaps⟩

/-- A schedule that describes the values has an entry for each of their parts. -/
theorem Describes.entry_isSome {schedule : List MigrationScheduleEntry} {values : List ℕ}
    (h : Describes schedule values) {partIndex value : ℕ}
    (hpart : values[partIndex]? = some value) :
    (scheduleEntryForPart schedule values partIndex value).isSome := by
  obtain ⟨entry, hentry, hindex⟩ := h.exists_entry (List.getElem?_eq_some_iff.1 hpart).1
  obtain ⟨other, hother, hvalue⟩ := h.part entry hentry
  obtain rfl := Option.some.inj (hindex.symm.trans hother)
  have hsame : entry.value = value := Option.some.inj (hvalue.symm.trans hpart)
  rw [scheduleEntryForPart, if_pos h.all_isSome, List.find?_isSome]
  exact ⟨entry, hentry, decide_eq_true ⟨hindex, hsame⟩⟩

/-! ## What keeps the children -/

/-- What a signing request promises about its children. -/
def Requested (run : Run) (signedChildren : List SignedMigrationPcztInsert) : Prop :=
  ∀ child ∈ signedChildren, child.messageId = migrationMessageId child.childIndex ∧
    run.targetValues[child.childIndex]? = some child.value

theorem sharedOrigin_entry {mode : SignedChildInsertMode} {origin origin' : Option ℕ}
    {child : SignedMigrationPcztInsert} (h : sharedOrigin run mode origin child = .ok origin')
    (hschedule : run.schedule ≠ []) : (scheduleEntryForPart run.schedule run.targetValues
      child.childIndex child.value).isSome := by
  unfold sharedOrigin at h
  rw [if_neg (by simpa using hschedule)] at h
  obtain ⟨blockOffset, hoffset, -⟩ := bind_eq_ok.1 h
  have hsome := orError_eq_ok.1 hoffset
  rw [scheduleBlockOffsetForPart, Option.map_eq_some_iff] at hsome
  obtain ⟨entry, hentry, -⟩ := hsome
  exact Option.isSome_iff_exists.2 ⟨entry, hentry⟩

theorem insertSignedChildPczts_retained {mode : SignedChildInsertMode}
    {signedChildren : List SignedMigrationPcztInsert} (hretained : Retained run)
    (hrequested : Requested run signedChildren)
    (h : insertSignedChildPczts mode signedChildren run = .ok run') : Retained run' := by
  have hkeyed := (insertSignedChildPczts_messageKeyed hretained.keyed h).1
  simp only [insertSignedChildPczts, bind_eq_ok, pure_eq_ok] at h
  obtain ⟨⟨children, origin⟩, hchildren, rfl⟩ := h
  have hall : ∀ child ∈ (children, origin).1, RetainedChild run child := by
    refine foldlM_invariant (I := fun state : List SignedChild × Option ℕ =>
      ∀ child ∈ state.1, RetainedChild run child) ?_ hretained.children hchildren
    intro state child state' hchild hstate hround
    simp only [insertSignedChild, bind_eq_ok, ensure_eq_ok, exists_const, pure_eq_ok] at hround
    obtain ⟨canonicalExpiry, hcanonical, hexpiry, origin', horigin, -, -, rfl⟩ := hround
    intro other hother
    rcases List.mem_append.1 hother with hkept | hnew
    · exact hstate other (List.mem_of_mem_filter hkept)
    · obtain rfl := List.mem_singleton.1 hnew
      obtain ⟨hid, hpart⟩ := hrequested child hchild
      refine ⟨hid, ⟨child.scheduledHeight, rfl, ?_⟩, hpart, sharedOrigin_entry horigin⟩
      exact hcanonical.trans (congrArg _ hexpiry.symm)
  refine ⟨hkeyed, ?_, hretained.schedule⟩
  intro child hchild
  exact (hall child hchild).of_plan ⟨rfl, rfl, rfl, rfl⟩

theorem rebase_retained {applied : Bool} (hretained : Retained run)
    (h : rebaseInitialSignedSchedule currentScannedHeight run = .ok (run', applied)) :
    Retained run' := by
  have hkeyed := rebase_messageKeyed hretained.keyed h
  rcases rebase_cases hretained.keyed h with ⟨-, origin, hshift⟩ | ⟨-, rfl | ⟨-, rfl⟩⟩
  · have hframe := hshift.frame
    refine ⟨hkeyed, ?_, ?_⟩
    · intro child' hchild'
      obtain ⟨child, hchild, blockOffset, -, -, hcanonical, rfl⟩ :=
        exists_mem_left hshift.children hchild'
      obtain ⟨hid, -, hpart, hentry⟩ := hretained.children child hchild
      rw [hframe]
      exact ⟨hid, ⟨_, rfl, hcanonical⟩, hpart, hentry⟩
    · rw [hframe]
      exact hretained.schedule
  · exact hretained
  · exact hretained.of_sublist ⟨rfl, rfl, rfl, rfl⟩ (.refl _)

theorem insertPendingTxsWithTx_retained {key : PayloadKey} {drawn : List MigrationScheduleEntry}
    {pendingTxs : List PendingMigrationTxInsert} (hretained : Retained run)
    (hdrawn : run.schedule = [] → Drawn run drawn)
    (h : insertPendingTxsWithTx key drawn pendingTxs run = .ok run') : Retained run' := by
  simp only [insertPendingTxsWithTx, bind_eq_ok, pure_eq_ok] at h
  obtain ⟨_, hvalid, -, -, pending, -, rfl⟩ := h
  refine ⟨hretained.keyed, ?_, .inr hvalid⟩
  intro child hchild
  obtain ⟨hid, hheight, hpart, hentry⟩ := hretained.children child hchild
  refine ⟨hid, hheight, hpart, ?_⟩
  intro hnonempty
  dsimp only at hnonempty ⊢
  split_ifs at hnonempty ⊢ with hempty
  · exact (hdrawn (List.isEmpty_iff.1 hempty)).describes.1.entry_isSome hpart
  · exact hentry hnonempty

theorem promote_retained {key : PayloadKey} {drawn : List MigrationScheduleEntry}
    {remainingChildRetryHeight : ℕ} {pendingTxs : List PendingMigrationTxInsert}
    (hretained : Retained run) (hdrawn : run.schedule = [] → Drawn run drawn)
    (h : promoteSignedChildPcztsToPendingTxs key drawn currentScannedHeight
      remainingChildRetryHeight pendingTxs run = .ok run') : Retained run' := by
  unfold promoteSignedChildPcztsToPendingTxs at h
  split_ifs at h
  · obtain rfl := Except.ok.inj h
    exact hretained
  · simp only [bind_eq_ok, pure_eq_ok] at h
    obtain ⟨-, -, ⟨rebased, applied⟩, hrebased, refreshed, -, inserted, hinserted, rfl⟩ := h
    have hframe := rebaseInitialSignedSchedule_frame hrebased
    have hdrawn' : rebased.schedule = [] → Drawn rebased drawn := by
      rw [hframe]
      exact hdrawn
    have hresult := insertPendingTxsWithTx_retained (rebase_retained hretained hrebased) hdrawn'
      hinserted
    exact hresult.of_sublist ⟨rfl, rfl, rfl, rfl⟩ (.refl _)

theorem replace_retained {key : PayloadKey} {replacements : List PendingMigrationTxReplacement}
    {signedChildren : List SignedMigrationPcztInsert} (hretained : Retained run)
    (hrequested : Requested run signedChildren)
    (h : replaceResignedPendingParts key replacements signedChildren run = .ok run') :
    Retained run' := by
  unfold replaceResignedPendingParts at h
  split_ifs at h
  · obtain rfl := Except.ok.inj h
    exact hretained
  · simp only [bind_eq_ok, pure_eq_ok] at h
    obtain ⟨-, -, pending, -, inserted, hinserted, rfl⟩ := h
    have hkept : Retained { run with pending := pending } :=
      hretained.of_sublist ⟨rfl, rfl, rfl, rfl⟩ (.refl _)
    have hresult := insertSignedChildPczts_retained hkept hrequested hinserted
    exact hresult.of_sublist ⟨rfl, rfl, rfl, rfl⟩ (.refl _)

/-! ## Legacy children -/

/-- The children of a run while some of them are given other heights. -/
structure Backfilled (run : Run) (children : List SignedChild) : Prop where
  messageIds : children.map SignedChild.messageId = run.signedChildren.map SignedChild.messageId
  retained : ∀ child ∈ children, RetainedChild run child
  expiry : ∀ child ∈ children, ∃ original ∈ run.signedChildren,
    child.messageId = original.messageId ∧ child.expiryHeight = original.expiryHeight

/-- A child gets a height that belongs to its expiry. -/
theorem recoverChild_backfilled {state : SignedBackfill} (hkeyed : run.MessageKeyed)
    (hchild : child ∈ run.signedChildren) (h : Backfilled run state.children) :
    Backfilled run (recoverChild run state child).1.children := by
  unfold recoverChild
  dsimp only
  split
  · exact h
  case h_2 scheduledHeight hrecovered =>
    split_ifs with horigin
    · exact h
    · split
      · exact h
      case h_2 canonicalExpiry hcanonical =>
        split_ifs with hexpiry
        · exact h
        · rw [not_not] at hexpiry
          refine ⟨?_, ?_, ?_⟩
          · rw [← h.messageIds, List.map_map]
            refine List.map_congr_left fun other _ => ?_
            rw [Function.comp_apply]
            split_ifs <;> rfl
          · intro other' hother'
            obtain ⟨other, hother, rfl⟩ := List.mem_map.1 hother'
            obtain ⟨hid, hheight, hpart, hentry⟩ := h.retained other hother
            split_ifs with hsame
            · refine ⟨hid, ⟨scheduledHeight, rfl, ?_⟩, hpart, hentry⟩
              obtain ⟨original, horiginal, hoid, hoexpiry⟩ := h.expiry other hother
              obtain rfl : original = child :=
                List.inj_on_of_nodup_map hkeyed horiginal hchild (hoid.symm.trans hsame)
              exact hcanonical.trans (congrArg _ (hexpiry.trans hoexpiry.symm))
            · exact ⟨hid, hheight, hpart, hentry⟩
          · intro other' hother'
            obtain ⟨other, hother, rfl⟩ := List.mem_map.1 hother'
            split_ifs
            · exact h.expiry other hother
            · exact h.expiry other hother

theorem recoverChildren_backfilled {state : SignedBackfill} {children : List SignedChild}
    (hkeyed : run.MessageKeyed) (hchildren : children ⊆ run.signedChildren)
    (h : Backfilled run state.children) :
    Backfilled run (recoverChildren run state children).1.children := by
  induction children generalizing state with
  | nil => exact h
  | cons child rest ih =>
    have hround := recoverChild_backfilled hkeyed (hchildren List.mem_cons_self) h
    have hrest := List.subset_of_cons_subset hchildren
    unfold recoverChildren
    generalize recoverChild run state child = round at hround
    obtain ⟨state', result⟩ := round
    cases result with
    | error error => exact hround
    | ok => exact ih hrest hround

theorem Backfilled.retained_of {children : List SignedChild} (h : Backfilled run children)
    (hretained : Retained run) (hplan : SamePlan run run')
    (hsublist : run'.signedChildren.Sublist children) : Retained run' := by
  have hkept : Retained { run with signedChildren := children } := by
    refine ⟨?_, ?_, hretained.schedule⟩
    · rw [Run.MessageKeyed, h.messageIds]
      exact hretained.keyed
    · intro child hchild
      exact (h.retained child hchild).of_plan ⟨rfl, rfl, rfl, rfl⟩
  exact hkept.of_sublist ⟨hplan.targetValues, hplan.schedule, hplan.network, hplan.timingPolicy⟩
    hsublist

theorem backfillLegacySignedScheduleMetadata_retained (hretained : Retained run) :
    Retained (backfillLegacySignedScheduleMetadata run).1 := by
  unfold backfillLegacySignedScheduleMetadata
  split_ifs with hempty
  · exact hretained
  · dsimp only
    have hstart : Backfilled run run.signedChildren :=
      ⟨rfl, hretained.children, fun child hchild => ⟨child, hchild, rfl, rfl⟩⟩
    generalize hlegacy : List.mergeSort (run.signedChildren.filter (SignedChild.isLegacy run)) _ =
      children
    have hsubset : children ⊆ run.signedChildren := by
      intro child hchild
      rw [← hlegacy] at hchild
      exact List.mem_of_mem_filter (List.mem_mergeSort.1 hchild)
    have hrecovered := @recoverChildren_backfilled run
      ⟨run.signedChildren, run.signedScheduleOriginHeight, []⟩ children hretained.keyed hsubset
      hstart
    generalize recoverChildren run
      ⟨run.signedChildren, run.signedScheduleOriginHeight, []⟩ children = result at hrecovered
    obtain ⟨state, outcome⟩ := result
    cases outcome with
    | error error => exact hrecovered.retained_of hretained ⟨rfl, rfl, rfl, rfl⟩ (.refl _)
    | ok =>
      dsimp only
      split_ifs
      · exact hrecovered.retained_of hretained ⟨rfl, rfl, rfl, rfl⟩ (.refl _)
      · exact hrecovered.retained_of hretained ⟨rfl, rfl, rfl, rfl⟩ List.filter_sublist

/-! ## Runs -/

/-- The operations on the signed children; the others change a run in any way that keeps its plan
and adds no children. -/
inductive PartsEvent where
  | sign (mode : SignedChildInsertMode) (signedChildren : List SignedMigrationPcztInsert)
  | insert (key : PayloadKey) (drawn : List MigrationScheduleEntry)
    (pendingTxs : List PendingMigrationTxInsert)
  | promote (key : PayloadKey) (drawn : List MigrationScheduleEntry)
    (currentScannedHeight remainingChildRetryHeight : ℕ)
    (pendingTxs : List PendingMigrationTxInsert)
  | replace (key : PayloadKey) (replacements : List PendingMigrationTxReplacement)
    (signedChildren : List SignedMigrationPcztInsert)
  | rebase (currentScannedHeight : ℕ)
  | backfill
  | amend (run : Run)

def partsStep (run : Run) : PartsEvent → Option Run
  | .sign mode signedChildren => (insertSignedChildPczts mode signedChildren run).toOption
  | .insert key drawn pendingTxs => (insertPendingTxs key drawn pendingTxs run).toOption
  | .promote key drawn currentScannedHeight remainingChildRetryHeight pendingTxs =>
    (promoteSignedChildPcztsToPendingTxs key drawn currentScannedHeight remainingChildRetryHeight
      pendingTxs run).toOption
  | .replace key replacements signedChildren =>
    (replaceResignedPendingParts key replacements signedChildren run).toOption
  | .rebase currentScannedHeight =>
    (rebaseInitialSignedSchedule currentScannedHeight run).toOption.map Prod.fst
  | .backfill => some (backfillLegacySignedScheduleMetadata run).1
  | .amend amended =>
    if amended.signedChildren.Sublist run.signedChildren ∧
        amended.targetValues = run.targetValues ∧ amended.schedule = run.schedule ∧
        amended.network = run.network ∧ amended.timingPolicy = run.timingPolicy then
      some amended
    else none

/-- The signed children of a run from its creation. -/
def partsSystem (initial : Run) : Transition Run PartsEvent := ⟨initial, partsStep⟩

/-- Children are signed on request, and schedules are drawn by the planner. -/
def PartsAdmissible (run : Run) : PartsEvent → Prop
  | .sign _ signedChildren | .replace _ _ signedChildren => Requested run signedChildren
  | .insert _ drawn _ | .promote _ drawn _ _ _ => run.schedule = [] → Drawn run drawn
  | .rebase _ | .backfill | .amend _ => True

/-- A run is created without children, and its schedule has been approved, or is not drawn yet. -/
structure Created (run : Run) : Prop where
  children : run.signedChildren = []
  schedule : run.schedule = [] ∨ validateScheduleWithPolicy run.schedule run.targetValues
    run.network run.timingPolicy = .ok ()

theorem Created.retained (h : Created run) : Retained run := by
  refine ⟨?_, ?_, h.schedule⟩
  · rw [Run.MessageKeyed, h.children]
    exact List.nodup_nil
  · rw [h.children]
    exact fun _ hchild => absurd hchild List.not_mem_nil

theorem partsStep_retained {event : PartsEvent} (hretained : Retained run)
    (hok : PartsAdmissible run event) (h : partsStep run event = some run') : Retained run' := by
  cases event with
  | sign mode signedChildren =>
    exact insertSignedChildPczts_retained hretained hok (toOption_eq_some.1 h)
  | insert key drawn pendingTxs =>
    have hinsert := toOption_eq_some.1 h
    unfold insertPendingTxs at hinsert
    split_ifs at hinsert
    · obtain rfl := Except.ok.inj hinsert
      exact hretained
    · exact insertPendingTxsWithTx_retained hretained hok hinsert
  | promote key drawn currentScannedHeight remainingChildRetryHeight pendingTxs =>
    exact promote_retained hretained hok (toOption_eq_some.1 h)
  | replace key replacements signedChildren =>
    exact replace_retained hretained hok (toOption_eq_some.1 h)
  | rebase currentScannedHeight =>
    rw [partsStep, Option.map_eq_some_iff] at h
    obtain ⟨⟨rebased, applied⟩, hrebased, rfl⟩ := h
    exact rebase_retained hretained (toOption_eq_some.1 hrebased)
  | backfill =>
    obtain rfl := Option.some.inj h
    exact backfillLegacySignedScheduleMetadata_retained hretained
  | amend amended =>
    unfold partsStep at h
    dsimp only at h
    split_ifs at h with hamends
    obtain rfl := Option.some.inj h
    obtain ⟨hchildren, hvalues, hschedule, hnetwork, hpolicy⟩ := hamends
    exact hretained.of_sublist ⟨hvalues, hschedule, hnetwork, hpolicy⟩ hchildren

theorem reaches_retained {initial : Run} (hcreated : Created initial)
    (h : (partsSystem initial).Reaches PartsAdmissible run) : Retained run :=
  h.invariant hcreated.retained fun _ _ _ hretained hok hstep =>
    partsStep_retained hretained hok hstep

/-! ## The compatibility rewrite -/

/-- A part that has the marker keeps its height: the height that the marker would stand for is the
same, or it belongs to another expiry. -/
def Unrewritten (blockOffset targetHeight expiryHeight height : ℕ) : Prop :=
  height = targetHeight → targetHeight - 1 + blockOffset = targetHeight ∨
    ∃ legacyExpiry, Canonical (targetHeight - 1 + blockOffset) legacyExpiry ∧
      legacyExpiry ≠ expiryHeight

variable {pending : PendingMigrationTxInsert} {entry : MigrationScheduleEntry}

/-- The rewrite as a condition on the part. -/
theorem recoverLegacyHeight_eq_ok {recovered : PendingMigrationTxInsert}
    (hcanonical : Canonical pending.scheduledHeight pending.expiryHeight)
    (hheight : recovered.scheduledHeight = pending.scheduledHeight) :
    recoverLegacyHeight entry pending = .ok recovered ↔ recovered = pending ∧
      Unrewritten entry.blockOffset pending.targetHeight pending.expiryHeight
        pending.scheduledHeight := by
  unfold recoverLegacyHeight
  split_ifs with hmarker
  · constructor
    · intro h
      exact ⟨(Except.ok.inj h).symm, fun hsame => absurd hsame hmarker⟩
    · rintro ⟨rfl, -⟩
      rfl
  · rw [not_not] at hmarker
    have htarget : zip318CanonicalMigrationExpiryHeight pending.targetHeight =
        .ok pending.expiryHeight := hmarker ▸ hcanonical
    rw [htarget, ok_bind, if_neg (by simp)]
    constructor
    · intro h
      obtain ⟨legacyHeight, hlegacy, hrest⟩ := bind_eq_ok.1 h
      obtain ⟨legacyExpiry, hexpiry, hresult⟩ := bind_eq_ok.1 hrest
      simp only [checkedAdd, bind_eq_ok, ensure_eq_ok, exists_const, pure_eq_ok] at hlegacy
      obtain ⟨-, rfl⟩ := hlegacy
      split_ifs at hresult with hbucket
      · obtain rfl := pure_eq_ok.1 hresult
        dsimp only at hheight
        refine ⟨?_, fun _ => .inl (hheight.trans hmarker)⟩
        rw [hheight]
      · obtain rfl := pure_eq_ok.1 hresult
        exact ⟨rfl, fun _ => .inr ⟨legacyExpiry, hexpiry, fun hsame => hbucket hsame.symm⟩⟩
    · rintro ⟨rfl, hkept⟩
      rcases hkept hmarker with hsame | ⟨legacyExpiry, hexpiry, hbucket⟩
      · have hlt := canonical_lt hcanonical
        have hrecovered : { recovered with scheduledHeight := recovered.targetHeight } =
            recovered := by
          cases recovered
          cases hmarker
          rfl
        rw [checkedAdd, ensure_of _ (by omega), ok_bind, pure_bind, hsame, htarget, ok_bind,
          if_pos rfl, hrecovered]
        rfl
      · have hlt := canonical_lt hexpiry
        rw [checkedAdd, ensure_of _ hlt, ok_bind, pure_bind, hexpiry, ok_bind,
          if_neg (Ne.symm hbucket)]
        rfl

/-! ## One part -/

/-- The checks of a batch of one part. -/
theorem validateParts_singleton {schedule : List MigrationScheduleEntry}
    {result : List (PendingMigrationTxInsert × ℕ) × Option ℕ} :
    validateParts run schedule [] none [pending] = .ok result ↔
      ∃ entry, scheduleEntryForPending schedule run.targetValues pending = some entry ∧
      ∃ recovered, recoverLegacyHeight entry pending = .ok recovered ∧
      entry.blockOffset ≤ recovered.scheduledHeight ∧
      checkOrigin run none recovered (recovered.scheduledHeight - entry.blockOffset) =
        .ok result.2 ∧
      Canonical recovered.scheduledHeight recovered.expiryHeight ∧
      result.1 = [(recovered, recovered.scheduledHeight - entry.blockOffset)] := by
  obtain ⟨parts, incoming⟩ := result
  simp only [validateParts, checkedSub, bind_eq_ok, ensure_eq_ok, exists_const, orError_eq_ok,
    List.not_mem_nil, not_false_eq_true, true_and, ok_bind, pure_eq_ok, Prod.mk.injEq]
  constructor
  · rintro ⟨entry, hentry, recovered, hrecovered, origin, ⟨hle, rfl⟩, next, hnext, expiryHeight,
      hcanonical, rfl, rfl, rfl⟩
    exact ⟨entry, hentry, recovered, hrecovered, hle, hnext, hcanonical, rfl⟩
  · rintro ⟨entry, hentry, recovered, hrecovered, hle, hnext, hcanonical, rfl⟩
    exact ⟨entry, hentry, recovered, hrecovered, _, ⟨hle, rfl⟩, _, hnext, _, hcanonical, rfl, rfl,
      rfl⟩

/-- The row of the part is added at the height of the part. -/
def Inserted (run run' : Run) (pending : PendingMigrationTxInsert) : Prop :=
  ∃ row, run'.pending = run.pending ++ [row] ∧ row.txid = pending.txid ∧
    row.partIndex = some pending.partIndex ∧ row.scheduledHeight = some pending.scheduledHeight

theorem insertRow_of {error : String} {rows : List PendingTx} {row : PendingTx}
    (htxid : row.txid ∉ rows.map PendingTx.txid)
    (hpart : row.partIndex ∉ rows.map PendingTx.partIndex) :
    insertRow error rows row = .ok (rows ++ [row]) := by
  rw [insertRow, ensure_of _ htxid, ok_bind, ensure_of _ (.inr hpart), ok_bind]
  rfl

/-- The origin of a part is not looked at when its child is retained. -/
theorem checkOrigin_retained {origin : ℕ} (h : matchesRetainedReplacement run pending) :
    ∃ incoming, checkOrigin run none pending origin = .ok incoming := by
  unfold checkOrigin
  cases run.signedScheduleOriginHeight with
  | none => exact ⟨some origin, rfl⟩
  | some persisted =>
    refine ⟨none, ?_⟩
    dsimp only
    rw [ensure_of _ (.inr h), ok_bind]
    rfl

theorem insertPendingTxsWithTx_singleton {key : PayloadKey} {drawn : List MigrationScheduleEntry}
    {encryptedRawTx : String}
    (hvalid : validateScheduleWithPolicy (if run.schedule.isEmpty then drawn else run.schedule)
      run.targetValues run.network run.timingPolicy = .ok ())
    (hentry : scheduleEntryForPending (if run.schedule.isEmpty then drawn else run.schedule)
      run.targetValues pending = some entry)
    (hcanonical : Canonical pending.scheduledHeight pending.expiryHeight)
    (hretained : matchesRetainedReplacement run pending)
    (htxid : pending.txid ∉ run.pending.map PendingTx.txid)
    (hpart : some pending.partIndex ∉ run.pending.map PendingTx.partIndex)
    (hencrypt : key.encrypt pending.rawTx = .ok encryptedRawTx) :
    (∃ run', insertPendingTxsWithTx key drawn [pending] run = .ok run' ∧
        Inserted run run' pending) ↔
      entry.blockOffset ≤ pending.scheduledHeight ∧ Unrewritten entry.blockOffset
        pending.targetHeight pending.expiryHeight pending.scheduledHeight := by
  constructor
  · rintro ⟨run', hinsert, row, hrow, -, -, hheight⟩
    simp only [insertPendingTxsWithTx, bind_eq_ok, pure_eq_ok] at hinsert
    obtain ⟨-, -, ⟨parts, incoming⟩, hparts, rows, hrows, rfl⟩ := hinsert
    obtain ⟨found, hfound, recovered, hrecovered, hle, -, -, hresult⟩ :=
      validateParts_singleton.1 hparts
    obtain rfl := Option.some.inj (hentry.symm.trans hfound)
    dsimp only at hresult hrow
    rw [hresult, List.foldlM_cons] at hrows
    obtain ⟨inserted, hinserted, hnil⟩ := bind_eq_ok.1 hrows
    obtain rfl := pure_eq_ok.1 hnil
    obtain ⟨_, -, hinsertRow⟩ := bind_eq_ok.1 hinserted
    simp only [insertRow, bind_eq_ok, pure_eq_ok] at hinsertRow
    obtain ⟨-, -, -, -, rfl⟩ := hinsertRow
    obtain rfl := List.singleton_inj.1 (List.append_cancel_left hrow)
    have hsame : recovered.scheduledHeight = pending.scheduledHeight := Option.some.inj hheight
    obtain ⟨rfl, hkept⟩ := (recoverLegacyHeight_eq_ok hcanonical hsame).1 hrecovered
    exact ⟨hle, hkept⟩
  · rintro ⟨hle, hkept⟩
    obtain ⟨incoming, horigin⟩ := @checkOrigin_retained run pending
      (pending.scheduledHeight - entry.blockOffset) hretained
    have hparts : validateParts run (if run.schedule.isEmpty then drawn else run.schedule) [] none
        [pending] = .ok ([(pending, pending.scheduledHeight - entry.blockOffset)], incoming) := by
      refine validateParts_singleton.2 ⟨entry, hentry, pending, ?_, hle, horigin, hcanonical, rfl⟩
      exact (recoverLegacyHeight_eq_ok hcanonical rfl).2 ⟨rfl, hkept⟩
    have hrow : insertRow "Insert pending migration tx" run.pending
        (pending.row encryptedRawTx (pending.scheduledHeight - entry.blockOffset)) =
        .ok (run.pending ++
          [pending.row encryptedRawTx (pending.scheduledHeight - entry.blockOffset)]) :=
      insertRow_of htxid hpart
    have hinsert : insertPendingTxsWithTx key drawn [pending] run = .ok { run with
        schedule := if run.schedule.isEmpty then drawn else run.schedule
        signedScheduleOriginHeight := run.signedScheduleOriginHeight <|> incoming
        pending := run.pending ++
          [pending.row encryptedRawTx (pending.scheduledHeight - entry.blockOffset)]
        phase := .broadcastScheduled } := by
      unfold insertPendingTxsWithTx
      dsimp only
      rw [hvalid, ok_bind, hparts, ok_bind]
      dsimp only
      rw [List.foldlM_cons, hencrypt, ok_bind]
      dsimp only
      rw [hrow]
      rfl
    exact ⟨_, hinsert, _, rfl, rfl, rfl, rfl⟩

/-! ## The promotion -/

/-- The child of a part after a rebase. -/
theorem rebase_child {rebased : Run} {applied : Bool} (hretained : Retained run)
    (hchild : child ∈ run.signedChildren)
    (h : rebaseInitialSignedSchedule currentScannedHeight run = .ok (rebased, applied)) :
    ∃ height, { child with scheduledHeight := some height } ∈ rebased.signedChildren ∧
      Canonical height child.expiryHeight ∧
      (applied = true ∧ (∃ blockOffset, child.offsetIn run = some blockOffset ∧
          height = currentScannedHeight + blockOffset) ∨
        applied = false ∧ child.scheduledHeight = some height) := by
  obtain ⟨height, hheight, hcanonical⟩ := (hretained.children child hchild).height
  have hsame : { child with scheduledHeight := some height } = child := by
    rw [← hheight]
  rcases rebase_cases hretained.keyed h with ⟨rfl, origin, hshift⟩ | ⟨rfl, rfl | ⟨-, rfl⟩⟩
  · obtain ⟨child', hchild', blockOffset, hoffset, -, hmoved, rfl⟩ :=
      exists_mem_right hshift.children hchild
    exact ⟨_, hchild', hmoved, .inl ⟨rfl, blockOffset, hoffset, rfl⟩⟩
  · refine ⟨height, ?_, hcanonical, .inr ⟨rfl, hheight⟩⟩
    rw [hsame]
    exact hchild
  · refine ⟨height, ?_, hcanonical, .inr ⟨rfl, hheight⟩⟩
    rw [hsame]
    exact hchild

/-- The part is read again from its child. -/
theorem refresh_eq_ok {height : ℕ} (hretained : Retained run)
    (hchild : { child with scheduledHeight := some height } ∈ run.signedChildren)
    (hpart : pending.partIndex = child.childIndex) :
    pending.refresh run = .ok { pending with scheduledHeight := height } := by
  have hfind := hretained.find?_childIndex hchild
  dsimp only at hfind
  rw [PendingMigrationTxInsert.refresh, hpart, hfind]
  rfl

/-- The promotion of one part goes through, and its row has the height of its child. -/
def KeepsSchedule (key : PayloadKey) (drawn : List MigrationScheduleEntry)
    (currentScannedHeight remainingChildRetryHeight : ℕ) (pending : PendingMigrationTxInsert)
    (child : SignedChild) (run : Run) : Prop :=
  ∃ run', promoteSignedChildPcztsToPendingTxs key drawn currentScannedHeight
      remainingChildRetryHeight [pending] run = .ok run' ∧
    ∃ child' ∈ run'.signedChildren, child'.childIndex = child.childIndex ∧
    ∃ row, run'.pending = run.pending ++ [row] ∧ row.txid = pending.txid ∧
      row.partIndex = some child.childIndex ∧ row.scheduledHeight = child'.scheduledHeight

/-- Once the rebase is done, the promotion is an insertion. -/
theorem keepsSchedule_iff_inserted {key : PayloadKey} {drawn : List MigrationScheduleEntry}
    {remainingChildRetryHeight height : ℕ} {rebased : Run} {applied : Bool}
    (hretained : Retained run) (hcomplete : migrationPartAssignmentComplete run)
    (hrebased : rebaseInitialSignedSchedule currentScannedHeight run = .ok (rebased, applied))
    (hchild : { child with scheduledHeight := some height } ∈ rebased.signedChildren)
    (hpart : pending.partIndex = child.childIndex) :
    KeepsSchedule key drawn currentScannedHeight remainingChildRetryHeight pending child run ↔
      ∃ run',
        insertPendingTxsWithTx key drawn [{ pending with scheduledHeight := height }] rebased =
          .ok run' ∧ Inserted rebased run' { pending with scheduledHeight := height } := by
  have hkept := rebase_retained hretained hrebased
  have hrefresh := refresh_eq_ok hkept hchild hpart
  have hpending := rebaseInitialSignedSchedule_pending hrebased
  unfold KeepsSchedule promoteSignedChildPcztsToPendingTxs
  rw [if_neg (by simp), ensure_of _ hcomplete, ok_bind, hrebased, ok_bind]
  dsimp only
  rw [List.mapM_cons, hrefresh, ok_bind, List.mapM_nil, pure_bind, pure_bind]
  constructor
  · rintro ⟨run', h, child', hchild', hindex, row, hrow, htxid, hpartIndex, hheight⟩
    obtain ⟨inserted, hinserted, hresult⟩ := bind_eq_ok.1 h
    obtain rfl := pure_eq_ok.1 hresult
    dsimp only at hchild' hrow
    rw [(insertPendingTxs_children hinserted).1] at hchild'
    obtain rfl := hkept.eq_of_childIndex hchild hchild' hindex
    refine ⟨inserted, hinserted, row, ?_, htxid, ?_, hheight⟩
    · rw [hpending]
      exact hrow
    · rw [hpartIndex, hpart]
  · rintro ⟨inserted, hinserted, row, hrow, htxid, hpartIndex, hheight⟩
    rw [hinserted, ok_bind]
    refine ⟨_, rfl, { child with scheduledHeight := some height }, ?_, rfl, row, ?_, htxid, ?_,
      hheight⟩
    · dsimp only
      rw [(insertPendingTxs_children hinserted).1]
      exact hchild
    · rw [← hpending]
      exact hrow
    · rw [hpartIndex, hpart]

/-- The height of a child agrees with an offset of the schedule, and is no marker. -/
def KeptAt (blockOffset : ℕ) (child : SignedChild) (height : ℕ) : Prop :=
  blockOffset ≤ height ∧ Unrewritten blockOffset child.targetHeight child.expiryHeight height

/-- The schedule that a promotion reads. -/
def promotedSchedule (drawn : List MigrationScheduleEntry) (run : Run) :
    List MigrationScheduleEntry :=
  if run.schedule.isEmpty then drawn else run.schedule

/-- The schedule describes the part of a child. -/
theorem promotedSchedule_entry {drawn : List MigrationScheduleEntry} (hretained : Retained run)
    (hchild : child ∈ run.signedChildren) (hdrawn : run.schedule = [] → Drawn run drawn) :
    validateScheduleWithPolicy (promotedSchedule drawn run) run.targetValues run.network
        run.timingPolicy = .ok () ∧
      ∃ entry, scheduleEntryForPart (promotedSchedule drawn run) run.targetValues child.childIndex
        child.value = some entry := by
  have hpart := (hretained.children child hchild).part
  unfold promotedSchedule
  split_ifs with hempty
  · obtain ⟨hdescribes, hvalid⟩ := (hdrawn (List.isEmpty_iff.1 hempty)).describes
    exact ⟨hvalid, Option.isSome_iff_exists.1 (hdescribes.entry_isSome hpart)⟩
  · have hscheduled : run.schedule ≠ [] := fun hnil => hempty (List.isEmpty_iff.2 hnil)
    refine ⟨hretained.schedule.resolve_left hscheduled, ?_⟩
    exact Option.isSome_iff_exists.1 ((hretained.children child hchild).entry hscheduled)

/-- A promotion fails with its rebase. -/
theorem not_keepsSchedule_of_error {key : PayloadKey} {drawn : List MigrationScheduleEntry}
    {remainingChildRetryHeight : ℕ} {error : String}
    (hcomplete : migrationPartAssignmentComplete run)
    (hrebased : rebaseInitialSignedSchedule currentScannedHeight run = .error error) :
    ¬ KeepsSchedule key drawn currentScannedHeight remainingChildRetryHeight pending child run := by
  rintro ⟨run', hrun', -⟩
  rw [promoteSignedChildPcztsToPendingTxs, if_neg (by simp), ensure_of _ hcomplete, ok_bind,
    hrebased] at hrun'
  cases hrun'

/-- A child is promoted at its height after the rebase, whether or not it has been moved there. -/
theorem keepsSchedule_iff_keptAt {key : PayloadKey} {drawn : List MigrationScheduleEntry}
    {remainingChildRetryHeight height : ℕ} {encryptedRawTx : String} {rebased : Run}
    {applied : Bool} (hretained : Retained run) (hcomplete : migrationPartAssignmentComplete run)
    (hrebased : rebaseInitialSignedSchedule currentScannedHeight run = .ok (rebased, applied))
    (hmem : { child with scheduledHeight := some height } ∈ rebased.signedChildren)
    (hcanonical : Canonical height child.expiryHeight)
    (hvalid : validateScheduleWithPolicy (promotedSchedule drawn run) run.targetValues run.network
      run.timingPolicy = .ok ())
    (hentry : scheduleEntryForPart (promotedSchedule drawn run) run.targetValues child.childIndex
      child.value = some entry)
    (hunpromoted : some child.childIndex ∉ run.pending.map PendingTx.partIndex)
    (hpart : pending.partIndex = child.childIndex) (hvalue : pending.value = child.value)
    (htarget : pending.targetHeight = child.targetHeight)
    (hexpiry : pending.expiryHeight = child.expiryHeight)
    (htxid : pending.txid ∉ run.pending.map PendingTx.txid)
    (hencrypt : key.encrypt pending.rawTx = .ok encryptedRawTx) :
    KeepsSchedule key drawn currentScannedHeight remainingChildRetryHeight pending child run ↔
      KeptAt entry.blockOffset child height := by
  have hframe := rebaseInitialSignedSchedule_frame hrebased
  have hpending := rebaseInitialSignedSchedule_pending hrebased
  have hschedule : promotedSchedule drawn rebased = promotedSchedule drawn run := by
    rw [hframe]
    rfl
  have hvalid' : validateScheduleWithPolicy (promotedSchedule drawn rebased) rebased.targetValues
      rebased.network rebased.timingPolicy = .ok () := by
    rw [hschedule, hframe]
    exact hvalid
  have hentry' : scheduleEntryForPending (promotedSchedule drawn rebased) rebased.targetValues
      { pending with scheduledHeight := height } = some entry := by
    rw [scheduleEntryForPending, hschedule, hframe]
    dsimp only
    rw [hpart, hvalue]
    exact hentry
  have hmatches :
      matchesRetainedReplacement rebased { pending with scheduledHeight := height } := by
    refine List.any_eq_true.2 ⟨_, hmem, decide_eq_true ?_⟩
    exact ⟨hpart.symm, rfl, hexpiry.symm, hvalue.symm⟩
  have hinserted := @insertPendingTxsWithTx_singleton rebased
    { pending with scheduledHeight := height } entry key drawn encryptedRawTx hvalid' hentry'
    (hexpiry ▸ hcanonical) hmatches (hpending ▸ htxid) (by rw [hpending, hpart]; exact hunpromoted)
    hencrypt
  rw [KeptAt, ← htarget, ← hexpiry]
  exact (keepsSchedule_iff_inserted hretained hcomplete hrebased hmem hpart).trans hinserted

/-- The offset of a child in a run that is due for a rebase. -/
theorem RebaseDue.offset_eq {drawn : List MigrationScheduleEntry} {blockOffset : ℕ}
    (hdue : RebaseDue currentScannedHeight run)
    (hentry : scheduleEntryForPart (promotedSchedule drawn run) run.targetValues child.childIndex
      child.value = some entry)
    (hoffset : child.offsetIn run = some blockOffset) : entry.blockOffset = blockOffset := by
  obtain ⟨origin, hopen, -⟩ := hdue
  have hscheduled := hopen.scheduled
  rw [SignedChild.offsetIn, scheduleBlockOffsetForPart] at hoffset
  rw [promotedSchedule, if_neg (by simpa using hscheduled)] at hentry
  rw [hentry] at hoffset
  exact Option.some.inj hoffset

/-- The height of a child after a rebase, in terms of the run before it. -/
theorem keptAt_iff {drawn : List MigrationScheduleEntry} {height : ℕ} {rebased : Run}
    {applied : Bool}
    (hentry : scheduleEntryForPart (promotedSchedule drawn run) run.targetValues child.childIndex
      child.value = some entry)
    (hdecides : Decides currentScannedHeight run (.ok (rebased, applied)))
    (hheight : applied = true ∧ (∃ blockOffset, child.offsetIn run = some blockOffset ∧
        height = currentScannedHeight + blockOffset) ∨
      applied = false ∧ child.scheduledHeight = some height) :
    KeptAt entry.blockOffset child height ↔
      ¬ RebaseOverflows currentScannedHeight run ∧
      ∀ entry, scheduleEntryForPart (promotedSchedule drawn run) run.targetValues child.childIndex
          child.value = some entry →
        (RebaseDue currentScannedHeight run →
          KeptAt entry.blockOffset child (currentScannedHeight + entry.blockOffset)) ∧
        (¬ RebaseDue currentScannedHeight run → ∀ height, child.scheduledHeight = some height →
          KeptAt entry.blockOffset child height) := by
  rcases hheight with ⟨rfl, blockOffset, hoffset, rfl⟩ | ⟨rfl, hheight⟩
  · obtain ⟨hdue, hover⟩ := hdecides
    rw [← hdue.offset_eq hentry hoffset]
    constructor
    · intro h
      refine ⟨hover, fun other hother => ?_⟩
      obtain rfl := Option.some.inj (hentry.symm.trans hother)
      exact ⟨fun _ => h, fun hnot => absurd hdue hnot⟩
    · rintro ⟨-, hall⟩
      exact (hall entry hentry).1 hdue
  · obtain ⟨hdue, hover⟩ := hdecides
    constructor
    · intro h
      refine ⟨hover, fun other hother => ?_⟩
      obtain rfl := Option.some.inj (hentry.symm.trans hother)
      refine ⟨fun hyes => absurd hyes hdue, ?_⟩
      rintro _ other' hheight'
      obtain rfl := Option.some.inj (hheight.symm.trans hheight')
      exact h
    · rintro ⟨-, hall⟩
      exact (hall entry hentry).2 hdue height hheight

/-- When a promotion keeps the schedule of its child. -/
theorem promotion_keeps_schedule_iff {initial : Run} {key : PayloadKey}
    {drawn : List MigrationScheduleEntry} {remainingChildRetryHeight : ℕ} {encryptedRawTx : String}
    (hcreated : Created initial) (hreaches : (partsSystem initial).Reaches PartsAdmissible run)
    (hcomplete : migrationPartAssignmentComplete run) (hchild : child ∈ run.signedChildren)
    (hunpromoted : some child.childIndex ∉ run.pending.map PendingTx.partIndex)
    (hpart : pending.partIndex = child.childIndex) (hvalue : pending.value = child.value)
    (htarget : pending.targetHeight = child.targetHeight)
    (hexpiry : pending.expiryHeight = child.expiryHeight)
    (htxid : pending.txid ∉ run.pending.map PendingTx.txid)
    (hencrypt : key.encrypt pending.rawTx = .ok encryptedRawTx)
    (hdrawn : run.schedule = [] → Drawn run drawn) :
    KeepsSchedule key drawn currentScannedHeight remainingChildRetryHeight pending child run ↔
      ¬ RebaseOverflows currentScannedHeight run ∧
      ∀ entry, scheduleEntryForPart (promotedSchedule drawn run) run.targetValues child.childIndex
          child.value = some entry →
        (RebaseDue currentScannedHeight run →
          KeptAt entry.blockOffset child (currentScannedHeight + entry.blockOffset)) ∧
        (¬ RebaseDue currentScannedHeight run → ∀ height, child.scheduledHeight = some height →
          KeptAt entry.blockOffset child height) := by
  have hretained := reaches_retained hcreated hreaches
  obtain ⟨hvalid, entry, hentry⟩ := promotedSchedule_entry hretained hchild hdrawn
  have hdecides := @rebase_outcome run currentScannedHeight fun other hother => by
    obtain ⟨height, hheight, -⟩ := (hretained.children other hother).height
    rw [hheight]
    rfl
  cases hrebased : rebaseInitialSignedSchedule currentScannedHeight run with
  | error error =>
    rw [hrebased] at hdecides
    exact iff_of_false (not_keepsSchedule_of_error hcomplete hrebased) fun h => h.1 hdecides
  | ok result =>
    obtain ⟨rebased, applied⟩ := result
    rw [hrebased] at hdecides
    obtain ⟨height, hmem, hcanonical, hheight⟩ := rebase_child hretained hchild hrebased
    rw [keepsSchedule_iff_keptAt hretained hcomplete hrebased hmem hcanonical hvalid hentry
      hunpromoted hpart hvalue htarget hexpiry htxid hencrypt]
    exact keptAt_iff hentry hdecides hheight

/-! ## A replacement that is its own marker -/

/-- The part of a child, as a promotion hands it in. -/
def SignedChild.part (child : SignedChild) (txid : Reorg.Txid) : PendingMigrationTxInsert where
  partIndex := child.childIndex
  txid := txid
  rawTx := []
  targetHeight := child.targetHeight
  anchorBoundaryHeight := none
  expiryHeight := child.expiryHeight
  scheduledHeight := child.scheduledHeight.getD 0
  value := child.value
  fee := 10
  selectedNote := child.selectedNote

/-- A plan of one part, four blocks after its origin. -/
def onePartRun : Run :=
  { sampleRun .scheduled with
    phase := .readyToMigrate
    targetValues := [100]
    schedule := [⟨some 0, 100, 4⟩]
    signedScheduleOriginHeight := none
    stages := [⟨0, "base", "sigs", "aa", [], 80, some 80, 34560, .attempted,
      .confirmed none ⟨90, Fixed.replicate 32 0⟩⟩]
    pending := []
    preparedNotes := [⟨"aa", 0, some "f0", .locked⟩] }

def initialChild : SignedMigrationPcztInsert :=
  ⟨"migration-1", 0, 35001, 103680, 35004, 100, ("aa", 0)⟩

def signedRun : Run :=
  { onePartRun with
    signedScheduleOriginHeight := some 35000
    signedChildren := [initialChild.row] }

def promotedRun : Run :=
  { signedRun with
    phase := .broadcastScheduled
    pending := [(initialChild.row.part "c0").row "raw" 35000] }

/-- The part has expired, and the next block is the first one of its recovery. -/
def recoveredRun : Run :=
  ((ensureRebuildScheduleGeneration sampleDraws 103700
    (markExpiredPendingPartsForResign emptyChain 103700 promotedRun).1).toOption.map Prod.fst).getD
      promotedRun

/-- The replacement is scheduled at its construction target. -/
def replacementChild : SignedMigrationPcztInsert :=
  ⟨"migration-1", 0, 103701, 172800, 103701, 100, ("aa", 0)⟩

def replacedRun : Run :=
  { recoveredRun with
    phase := .broadcastScheduled
    pending := [(replacementChild.row.part "c1").row "raw" 103700]
    signedChildren := [replacementChild.row] }

/-- The denomination has left the chain, and its row is deleted. -/
def reorgedRun : Run :=
  (reconcileDenominationStageChainState (fun _ => none) 103710 (fun _ => 1) replacedRun).1

theorem reaches_signedRun : (partsSystem onePartRun).Reaches PartsAdmissible signedRun := by
  refine .step (e := .sign .initial [initialChild]) .init ?_ (by decide +kernel)
  intro child hchild
  obtain rfl := List.mem_singleton.1 hchild
  exact ⟨rfl, rfl⟩

theorem reaches_reorgedRun : (partsSystem onePartRun).Reaches PartsAdmissible reorgedRun := by
  have hpromoted : (partsSystem onePartRun).Reaches PartsAdmissible promotedRun := by
    refine .step (e := .promote sampleKey [] 35000 35010 [initialChild.row.part "c0"])
      reaches_signedRun nofun (by decide +kernel)
  have hrecovered : (partsSystem onePartRun).Reaches PartsAdmissible recoveredRun :=
    .step (e := .amend recoveredRun) hpromoted trivial (by decide +kernel)
  have hreplaced : (partsSystem onePartRun).Reaches PartsAdmissible replacedRun := by
    refine .step (e := .replace sampleKey [⟨"c0", replacementChild.row.part "c1"⟩]
      [replacementChild]) hrecovered ?_ (by decide +kernel)
    intro child hchild
    obtain rfl := List.mem_singleton.1 hchild
    exact ⟨rfl, by decide +kernel⟩
  exact .step (e := .amend reorgedRun) hreplaced trivial (by decide +kernel)

theorem promotion_keeps_schedule_sample :
    KeepsSchedule sampleKey [] 35000 35010 (initialChild.row.part "c0") initialChild.row
      signedRun := by
  -- Without a retry height the rebase stays closed.
  have hclosed (origin : ℕ) : ¬ RebaseOpen 35000 signedRun origin := by
    rintro ⟨-, -, ⟨proofRetryHeight, -, hready⟩, -⟩
    cases hready
  refine (@promotion_keeps_schedule_iff signedRun 35000 initialChild.row
    (initialChild.row.part "c0") onePartRun sampleKey [] 35010 "raw" ?_ reaches_signedRun
    (by decide +kernel) List.mem_cons_self (by decide) rfl rfl rfl rfl (by decide) rfl nofun).2
    ⟨?_, ?_⟩
  · exact ⟨rfl, .inr (by decide +kernel)⟩
  · rintro ⟨origin, hopen, -⟩
    exact hclosed origin hopen
  · intro entry hentry
    have hentry' : entry = ⟨some 0, 100, 4⟩ := (Option.some.inj hentry).symm
    rw [hentry']
    refine ⟨?_, ?_⟩
    · rintro ⟨origin, hopen, -⟩
      exact absurd hopen (hclosed origin)
    · rintro _ height hheight
      obtain rfl := Option.some.inj hheight
      exact ⟨by decide, fun hmarker => absurd hmarker (by decide)⟩

/-- A child that was written with an absolute schedule is refused, for good. -/
theorem absolute_schedule_refused : ¬ ∀ run child,
    (partsSystem onePartRun).Reaches PartsAdmissible run → migrationPartAssignmentComplete run →
    child ∈ run.signedChildren → some child.childIndex ∉ run.pending.map PendingTx.partIndex →
    KeepsSchedule sampleKey [] 103720 103730 (child.part "c2") child run := by
  intro h
  obtain ⟨run', hpromoted, -⟩ := h reorgedRun replacementChild.row reaches_reorgedRun
    (by decide +kernel) (by decide +kernel) (by decide +kernel)
  have hrefused : (promoteSignedChildPcztsToPendingTxs sampleKey [] 103720 103730
      [replacementChild.row.part "c2"] reorgedRun).toOption = none := by decide +kernel
  rw [hpromoted] at hrefused
  cases hrefused

end VizorWallet.Migration.Store
