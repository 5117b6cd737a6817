import VizorWallet.Outbox.Moves

/-!
# New heights for overdue items

When an item is accepted, the overdue items of its batch get new heights, each below its expiry.
Before the submission the outbox checks that such heights exist, one block apart.

## Main definitions

* `overdue` — the items that get new heights.
* `HasRoom`, `LeavesRoom` — what the check asks of their expiry heights, and what the choice of
  heights needs.
* `Reschedules` — what an acceptance does to the items and says in its receipt.

## Main results

* `rescheduling_agrees_iff` — the check and the choice agree unless the check finds room and the
  first item to expire leaves none for the others.
-/

namespace VizorWallet.Outbox

/-- An item that gets a new height when another is accepted. -/
def isOverdue (itemId : String) (remoteHeight : ℕ) (item : Item) : Bool :=
  item.itemId ≠ itemId ∧ item.status = .armed ∧ item.scheduledHeight ≤ remoteHeight

def overdue (batch : Batch) (itemId : String) (remoteHeight : ℕ) : List Item :=
  batch.items.filter (isOverdue itemId remoteHeight)

/-- Each expiry height is after as many heights as items expire at it or before. -/
def HasRoom (start : ℕ) (expiryHeights : List ℕ) : Prop :=
  ∀ expiry ∈ expiryHeights, start + expiryHeights.countP (· ≤ expiry) < expiry

/-- Each expiry height is after as many heights as there are items. -/
def LeavesRoom (start : ℕ) (expiryHeights : List ℕ) : Prop :=
  ∀ expiry ∈ expiryHeights, start + expiryHeights.length < expiry

theorem LeavesRoom.hasRoom {start : ℕ} {expiryHeights : List ℕ}
    (h : LeavesRoom start expiryHeights) : HasRoom start expiryHeights := by
  intro expiry hmem
  have := h expiry hmem
  have := expiryHeights.countP_le_length (p := (· ≤ expiry))
  omega

/-! ## The check -/

/-- In order of expiry, one block for each item is enough exactly when there is room. -/
theorem hasRoom_cons {start expiry : ℕ} {rest : List ℕ}
    (hsorted : (expiry :: rest).Pairwise (· ≤ ·)) :
    HasRoom start (expiry :: rest) ↔ start + 1 < expiry ∧ HasRoom (start + 1) rest := by
  obtain ⟨hfirst, -⟩ := List.pairwise_cons.1 hsorted
  have hcount (later : ℕ) (hlater : later ∈ rest) :
      (expiry :: rest).countP (· ≤ later) = rest.countP (· ≤ later) + 1 :=
    List.countP_cons_of_pos (decide_eq_true (hfirst later hlater))
  have hself : (expiry :: rest).countP (· ≤ expiry) = rest.countP (· ≤ expiry) + 1 :=
    List.countP_cons_of_pos (decide_eq_true le_rfl)
  unfold HasRoom
  rw [List.forall_mem_cons, hself]
  constructor
  · rintro ⟨hhead, htail⟩
    refine ⟨by omega, fun later hlater => ?_⟩
    have := htail later hlater
    rw [hcount later hlater] at this
    omega
  · rintro ⟨hhead, htail⟩
    refine ⟨?_, fun later hlater => ?_⟩
    · rcases Nat.eq_zero_or_pos (rest.countP (· ≤ expiry)) with hnone | hsome
      · omega
      -- an item that expires with the first has room for both
      · obtain ⟨later, hlater, hle⟩ := List.countP_pos_iff.1 hsome
        obtain rfl := le_antisymm (of_decide_eq_true hle) (hfirst later hlater)
        have := htail later hlater
        omega
    · have := htail later hlater
      rw [hcount later hlater]
      omega

/-- One step of the check. -/
def nextHeight (height expiryHeight : ℕ) : Except OutboxError ℕ := do
  let candidate ← orError (checkedAdd height 1) OutboxError.invalidSchedule
  ensure (candidate < expiryHeight) OutboxError.invalidSchedule
  return candidate

theorem foldlM_nextHeight_isOk {start : ℕ} {expiryHeights : List ℕ}
    (hsorted : expiryHeights.Pairwise (· ≤ ·))
    (hsize : ∀ expiry ∈ expiryHeights, expiry < u64Size) :
    (∃ last, expiryHeights.foldlM nextHeight start = .ok last) ↔ HasRoom start expiryHeights := by
  induction expiryHeights generalizing start with
  | nil => exact iff_of_true ⟨start, rfl⟩ fun _ hmem => absurd hmem List.not_mem_nil
  | cons expiry rest ih =>
    obtain ⟨hexpiry, hrest⟩ := List.forall_mem_cons.1 hsize
    have hstep (height : ℕ) : nextHeight start expiry = .ok height ↔
        start + 1 < expiry ∧ start + 1 = height := by
      simp only [nextHeight, bind_eq_ok, orError_eq_ok, checkedAdd_eq_some, ensure_eq_ok,
        pure_eq_ok]
      constructor
      · rintro ⟨_, ⟨-, rfl⟩, _, hlt, rfl⟩
        exact ⟨hlt, rfl⟩
      · rintro ⟨hlt, rfl⟩
        exact ⟨_, ⟨by omega, rfl⟩, (), hlt, rfl⟩
    rw [hasRoom_cons hsorted, ← ih (List.pairwise_cons.1 hsorted).2 hrest]
    simp only [List.foldlM_cons, bind_eq_ok, hstep]
    constructor
    · rintro ⟨last, _, ⟨hlt, rfl⟩, hlast⟩
      exact ⟨hlt, last, hlast⟩
    · rintro ⟨hlt, last, hlast⟩
      exact ⟨last, _, ⟨hlt, rfl⟩, hlast⟩

theorem hasRoom_perm {start : ℕ} {l l' : List ℕ} (h : l.Perm l') :
    HasRoom start l ↔ HasRoom start l' := by
  unfold HasRoom
  simp only [h.mem_iff, h.countP_eq]

/-- The check passes exactly when there is room for the overdue items of the batch. -/
theorem validateRescheduling_iff {s : Snapshot} {itemId : String} {remoteHeight : ℕ} {batch : Batch}
    {item : Item} (hlocation : s.itemLocation itemId = .ok (batch, item))
    (hsize : ∀ other ∈ batch.items, other.expiryHeight < u64Size) :
    s.validateReschedulingAfterAcceptance itemId remoteHeight = .ok () ↔
      HasRoom remoteHeight ((overdue batch itemId remoteHeight).map Item.expiryHeight) := by
  have hperm := List.mergeSort_perm ((overdue batch itemId remoteHeight).map Item.expiryHeight)
    (· ≤ ·)
  rw [← hasRoom_perm hperm, ← foldlM_nextHeight_isOk (List.pairwise_mergeSort' (· ≤ ·) _)]
  · unfold Snapshot.validateReschedulingAfterAcceptance
    rw [hlocation]
    simp only [ok_bind, bind_eq_ok, pure_eq_ok]
    exact exists_congr fun _ => iff_of_eq (and_true _)
  · intro expiry hmem
    obtain ⟨other, hother, rfl⟩ := List.mem_map.1 (hperm.mem_iff.1 hmem)
    exact hsize other (List.mem_of_mem_filter hother)

/-! ## The choice of heights -/

/-- An item gets a new height. -/
def Item.moveTo (item : Item) (scheduledHeight scheduleStartHeight : ℕ) : Item :=
  { item with scheduledHeight, scheduleStartHeight, attemptId := none, attemptStartedAt := none }

/-- An update gives the item at an index a height below its expiry. -/
def Updates (batch final : Batch) (remoteHeight index : ℕ) (update : ScheduleUpdate) : Prop :=
  ∃ item, batch.items[index]? = some item ∧ update.itemId = item.itemId ∧
    update.scheduleStartHeight = remoteHeight ∧ update.scheduledHeight < item.expiryHeight ∧
    final.items[index]? = some (item.moveTo update.scheduledHeight remoteHeight)

/-- Items that expire in an order. -/
def ExpireInOrder (batch : Batch) (order : List ℕ) : Prop :=
  order.Pairwise fun i j => ∀ first ∈ batch.items[i]?, ∀ second ∈ batch.items[j]?,
    first.expiryHeight ≤ second.expiryHeight

/-- Heights that grow by at least one and at most a number of blocks. -/
def Spaced (maxBlocks : ℕ) (heights : List ℕ) : Prop :=
  heights.IsChain fun a b => a < b ∧ b ≤ a + maxBlocks

theorem sampleDelay_bounds {random : Random} {draw mean bound : ℕ} (hbound : 0 < bound) :
    0 < random.sampleDelay draw mean bound ∧ random.sampleDelay draw mean bound ≤ bound := by
  unfold Random.sampleDelay
  omega

theorem saturatingAdd_of_lt {a b : ℕ} (h : a + b < u64Size) : saturatingAdd a b = a + b := by
  unfold saturatingAdd
  omega

variable {batch final : Batch} {random : Random} {remoteHeight draw elapsed index : ℕ}
  {order : List ℕ} {updates : List ScheduleUpdate}

/-- The batch after the item at an index got its height. -/
def Batch.moveItem (batch : Batch) (index scheduledHeight remoteHeight : ℕ) : Batch :=
  { batch with items := batch.items.modify index (·.moveTo scheduledHeight remoteHeight) }

theorem getElem?_moveItem_self {item : Item} {scheduledHeight : ℕ}
    (h : batch.items[index]? = some item) :
    (batch.moveItem index scheduledHeight remoteHeight).items[index]? =
      some (item.moveTo scheduledHeight remoteHeight) := by
  simp [Batch.moveItem, h]

theorem getElem?_moveItem_of_ne {other scheduledHeight : ℕ} (h : index ≠ other) :
    (batch.moveItem index scheduledHeight remoteHeight).items[other]? = batch.items[other]? := by
  simp [Batch.moveItem, h]

/-- The delay of one step, when the first item to expire leaves room for the others. -/
theorem sampleDelay_room {mean maxBlocks expiryHeight left : ℕ} (hmax : 0 < maxBlocks)
    (hroom : remoteHeight + elapsed + (left + 1) < expiryHeight) :
    let delay := random.sampleDelay draw mean
      (min maxBlocks (expiryHeight - left - 1 - (remoteHeight + elapsed)))
    0 < delay ∧ delay ≤ maxBlocks ∧ remoteHeight + (elapsed + delay) + left < expiryHeight := by
  intro delay
  have hbounds : 0 < delay ∧
      delay ≤ min maxBlocks (expiryHeight - left - 1 - (remoteHeight + elapsed)) :=
    sampleDelay_bounds (by omega)
  omega

/-- One step of the choice: it succeeds when the first item to expire leaves room for the others,
and then the next height is close and leaves room. -/
theorem rescheduleFrom_cons {item : Item} (hitem : batch.items[index]? = some item)
    (hsize : item.expiryHeight < u64Size) (hnow : remoteHeight + elapsed < u64Size)
    (hmax : 0 < batch.timingMaxBlocks) {result : Batch × List ScheduleUpdate}
    (h : batch.rescheduleFrom random remoteHeight draw elapsed (index :: order) = .ok result) :
    remoteHeight + elapsed + (order.length + 1) < item.expiryHeight ∧
      ∃ delay final updates, 0 < delay ∧ delay ≤ batch.timingMaxBlocks ∧
        remoteHeight + (elapsed + delay) + order.length < item.expiryHeight ∧
        (batch.moveItem index (remoteHeight + (elapsed + delay)) remoteHeight).rescheduleFrom random
          remoteHeight (draw + 1) (elapsed + delay) order = .ok (final, updates) ∧
        result = (final,
          ⟨item.itemId, remoteHeight + (elapsed + delay), remoteHeight⟩ :: updates) := by
  simp only [Batch.rescheduleFrom, hitem, orError_some, ok_bind, bind_eq_ok, ensure_eq_ok,
    pure_eq_ok, saturatingAdd_of_lt hnow] at h
  obtain ⟨_, hleft, _, hlatest, ⟨final, updates⟩, hrest, rfl⟩ := h
  have hroom : remoteHeight + elapsed + (order.length + 1) < item.expiryHeight := by omega
  obtain ⟨hpos, hle, hlater⟩ := @sampleDelay_room random remoteHeight draw elapsed
    batch.timingMeanBlocks _ _ _ hmax hroom
  rw [saturatingAdd_of_lt (a := elapsed) (by omega), saturatingAdd_of_lt (by omega)] at hrest
  refine ⟨hroom, _, final, updates, hpos, hle, hlater, hrest, ?_⟩
  rw [saturatingAdd_of_lt (a := elapsed) (by omega), saturatingAdd_of_lt (by omega)]

theorem rescheduleFrom_cons_of_room {item : Item} (hitem : batch.items[index]? = some item)
    (hsize : item.expiryHeight < u64Size) (hmax : 0 < batch.timingMaxBlocks)
    (hroom : remoteHeight + elapsed + (order.length + 1) < item.expiryHeight)
    (hrest : ∀ delay, remoteHeight + (elapsed + delay) + order.length < item.expiryHeight →
      ∃ rest, (batch.moveItem index (remoteHeight + (elapsed + delay)) remoteHeight).rescheduleFrom
        random remoteHeight (draw + 1) (elapsed + delay) order = .ok rest) :
    ∃ result,
      batch.rescheduleFrom random remoteHeight draw elapsed (index :: order) = .ok result := by
  obtain ⟨-, -, hlater⟩ := @sampleDelay_room random remoteHeight draw elapsed
    batch.timingMeanBlocks _ _ _ hmax hroom
  obtain ⟨⟨final, updates⟩, hrest⟩ := hrest _ hlater
  simp only [Batch.rescheduleFrom, hitem, orError_some, ok_bind, bind_eq_ok, ensure_eq_ok,
    pure_eq_ok]
  rw [@saturatingAdd_of_lt remoteHeight elapsed (by omega)]
  rw [@saturatingAdd_of_lt elapsed _ (by omega), @saturatingAdd_of_lt remoteHeight _ (by omega)]
  exact ⟨_, (), by omega, (), by omega, (final, updates), hrest, rfl⟩

/-- The indices of an order point at items, each once. -/
structure Points (batch : Batch) (order : List ℕ) : Prop where
  item : ∀ index ∈ order, ∃ item, batch.items[index]? = some item ∧ item.expiryHeight < u64Size
  nodup : order.Nodup

/-- The other indices do not see the move. -/
theorem Points.moveItem (h : Points batch (index :: order)) (scheduledHeight : ℕ) :
    Points (batch.moveItem index scheduledHeight remoteHeight) order ∧
      ∀ other ∈ order, (batch.moveItem index scheduledHeight remoteHeight).items[other]? =
        batch.items[other]? := by
  obtain ⟨hfresh, hnodup⟩ := List.nodup_cons.1 h.nodup
  have hsame : ∀ other ∈ order, (batch.moveItem index scheduledHeight remoteHeight).items[other]? =
      batch.items[other]? :=
    fun other hother => getElem?_moveItem_of_ne fun heq => hfresh (heq ▸ hother)
  exact ⟨⟨fun other hother => by
    rw [hsame other hother]; exact h.item other (List.mem_cons_of_mem _ hother), hnodup⟩, hsame⟩

theorem ExpireInOrder.moveItem (hpoints : Points batch (index :: order))
    (h : ExpireInOrder batch (index :: order)) (scheduledHeight : ℕ) :
    ExpireInOrder (batch.moveItem index scheduledHeight remoteHeight) order := by
  have hsame := (@Points.moveItem _ remoteHeight _ _ hpoints scheduledHeight).2
  refine (List.pairwise_cons.1 h).2.imp_of_mem fun hi hj hle => ?_
  rwa [hsame _ hi, hsame _ hj]

/-- The choice succeeds exactly when the items leave room, whatever is drawn. -/
theorem rescheduleFrom_isOk (hpoints : Points batch order) (hsorted : ExpireInOrder batch order)
    (hnow : remoteHeight + elapsed < u64Size) (hmax : 0 < batch.timingMaxBlocks) :
    (∃ result, batch.rescheduleFrom random remoteHeight draw elapsed order = .ok result) ↔
      ∀ index ∈ order, ∀ item ∈ batch.items[index]?,
        remoteHeight + elapsed + order.length < item.expiryHeight := by
  induction order generalizing batch draw elapsed with
  | nil => exact iff_of_true ⟨_, rfl⟩ fun _ hmem => absurd hmem List.not_mem_nil
  | cons index order ih =>
    obtain ⟨item, hitem, hsize⟩ := hpoints.item index List.mem_cons_self
    have hlater : ∀ other ∈ order, ∀ second ∈ batch.items[other]?,
        item.expiryHeight ≤ second.expiryHeight :=
      fun other hother => (List.pairwise_cons.1 hsorted).1 other hother item hitem
    constructor
    · rintro ⟨result, h⟩
      have hroom := (rescheduleFrom_cons hitem hsize hnow hmax h).1
      refine List.forall_mem_cons.2 ⟨fun first hfirst => ?_, fun other hother second hsecond => ?_⟩
      · obtain rfl := Option.some.inj (hitem.symm.trans hfirst)
        exact hroom
      · exact hroom.trans_le (hlater other hother second hsecond)
    · intro h
      refine rescheduleFrom_cons_of_room hitem hsize hmax
        (h index List.mem_cons_self item hitem) fun delay hdelay => ?_
      obtain ⟨hpoints', hsame⟩ := @Points.moveItem _ remoteHeight _ _ hpoints
        (remoteHeight + (elapsed + delay))
      refine (ih hpoints' (hsorted.moveItem hpoints _) (by omega) hmax).2 fun other hother => ?_
      intro second hsecond
      rw [hsame other hother] at hsecond
      have := hlater other hother second hsecond
      omega

/-- What the choice does: the items of the order get heights that grow, and the updates say so. -/
theorem rescheduleFrom_spec (hpoints : Points batch order)
    (hnow : remoteHeight + elapsed < u64Size) (hmax : 0 < batch.timingMaxBlocks)
    (h : batch.rescheduleFrom random remoteHeight draw elapsed order = .ok (final, updates)) :
    List.Forall₂ (Updates batch final remoteHeight) order updates ∧
      Spaced batch.timingMaxBlocks
        ((remoteHeight + elapsed) :: updates.map ScheduleUpdate.scheduledHeight) ∧
      ∀ index ∉ order, final.items[index]? = batch.items[index]? := by
  induction order generalizing batch draw elapsed updates with
  | nil =>
    obtain ⟨rfl, rfl⟩ := Prod.mk.inj (Except.ok.inj h)
    exact ⟨.nil, List.isChain_singleton _, fun _ _ => rfl⟩
  | cons index order ih =>
    obtain ⟨item, hitem, hsize⟩ := hpoints.item index List.mem_cons_self
    obtain ⟨-, delay, final', updates', hpos, hle, hlater, hrest, heq⟩ :=
      rescheduleFrom_cons hitem hsize hnow hmax h
    obtain ⟨rfl, rfl⟩ := Prod.mk.inj heq
    obtain ⟨hpoints', hsame⟩ := @Points.moveItem _ remoteHeight _ _ hpoints
      (remoteHeight + (elapsed + delay))
    obtain ⟨hupdates, hspaced, hothers⟩ := ih hpoints' (by omega) hmax hrest
    have hfresh := (List.nodup_cons.1 hpoints.nodup).1
    have hbelow := (Nat.le_add_right ..).trans_lt hlater
    refine ⟨.cons ⟨item, hitem, rfl, rfl, hbelow, ?_⟩ ?_, ?_, fun other hother => ?_⟩
    · rw [hothers index hfresh, getElem?_moveItem_self hitem]
    · refine (List.forall₂_and_left _ _).2 ⟨fun other hother => hother, hupdates⟩ |>.imp ?_
      rintro other update ⟨hother, second, hsecond, hrest⟩
      exact ⟨second, by rwa [← hsame other hother], hrest⟩
    · exact List.isChain_cons_cons.2 ⟨by dsimp only; omega, hspaced⟩
    · rw [List.mem_cons, not_or] at hother
      rw [hothers other hother.2, getElem?_moveItem_of_ne (Ne.symm hother.1)]

/-! ## The overdue items -/

/-- The indices of the items that satisfy a test point at them. -/
theorem map_getElem?_indices {α : Type*} (l : List α) (q : α → Bool) :
    (((List.range l.length).filter fun index => l[index]?.any q).map fun index => l[index]?) =
      (l.filter q).map some := by
  have hmap : ((List.range l.length).map fun index => l[index]?) = l.map some := by
    refine List.ext_getElem (by simp) fun index h _ => ?_
    rw [List.length_map, List.length_range] at h
    simp [h]
  have hfilter := List.filter_map (f := fun index : ℕ => l[index]?) (p := Option.any q)
    (l := List.range l.length)
  rw [hmap, List.filter_map] at hfilter
  exact hfilter.symm

/-- The indices in which the overdue items are rescheduled. -/
def overdueOrder (batch : Batch) (itemId : String) (remoteHeight : ℕ) (random : Random) :
    List ℕ :=
  (random.shuffle ((List.range batch.items.length).filter fun index =>
    batch.items[index]?.any (isOverdue itemId remoteHeight))).mergeSort fun i j =>
      (batch.items[i]?.map Item.expiryHeight).getD 0 ≤
        (batch.items[j]?.map Item.expiryHeight).getD 0

variable {itemId : String}

theorem overdueOrder_perm : (overdueOrder batch itemId remoteHeight random).Perm
    ((List.range batch.items.length).filter fun index =>
      batch.items[index]?.any (isOverdue itemId remoteHeight)) :=
  (List.mergeSort_perm ..).trans (random.shuffle_perm _)

theorem mem_overdueOrder : index ∈ overdueOrder batch itemId remoteHeight random ↔
    ∃ item, batch.items[index]? = some item ∧ isOverdue itemId remoteHeight item := by
  rw [overdueOrder_perm.mem_iff, List.mem_filter, List.mem_range, Option.any_eq_true]
  refine and_iff_right_of_imp ?_
  rintro ⟨item, hitem, -⟩
  exact (List.getElem?_eq_some_iff.1 hitem).1

theorem length_overdueOrder : (overdueOrder batch itemId remoteHeight random).length =
    (overdue batch itemId remoteHeight).length := by
  have h := congrArg List.length
    (map_getElem?_indices batch.items (isOverdue itemId remoteHeight))
  rw [List.length_map, List.length_map] at h
  rw [overdueOrder_perm.length_eq, h]
  rfl

theorem overdueOrder_points (hsize : ∀ item ∈ batch.items, item.expiryHeight < u64Size) :
    Points batch (overdueOrder batch itemId remoteHeight random) := by
  refine ⟨fun index hmem => ?_, overdueOrder_perm.nodup_iff.2 (List.nodup_range.filter _)⟩
  obtain ⟨item, hitem, -⟩ := mem_overdueOrder.1 hmem
  exact ⟨item, hitem, hsize item (List.mem_of_getElem? hitem)⟩

theorem overdueOrder_sorted :
    ExpireInOrder batch (overdueOrder batch itemId remoteHeight random) := by
  refine (List.pairwise_mergeSort (fun a b c hab hbc => ?_) (fun a b => ?_) _).imp ?_
  · exact decide_eq_true ((of_decide_eq_true hab).trans (of_decide_eq_true hbc))
  · simpa using le_total _ _
  · intro i j hle first hfirst second hsecond
    have := of_decide_eq_true hle
    rwa [Option.mem_def.1 hfirst, Option.mem_def.1 hsecond] at this

theorem rescheduleOverdueItems_eq (htiming : 0 < batch.timingMeanBlocks ∧
    0 < batch.timingMaxBlocks ∧ batch.timingMeanBlocks ≤ batch.timingMaxBlocks) :
    batch.rescheduleOverdueItems itemId remoteHeight random = batch.rescheduleFrom random
      remoteHeight 0 0 (overdueOrder batch itemId remoteHeight random) := by
  unfold Batch.rescheduleOverdueItems
  rw [ensure_of _ htiming]
  rfl

/-- New heights are found exactly when every overdue item leaves room for all of them. -/
theorem rescheduleOverdueItems_isOk (hsize : ∀ item ∈ batch.items, item.expiryHeight < u64Size)
    (hnow : remoteHeight < u64Size) (htiming : 0 < batch.timingMeanBlocks ∧
      0 < batch.timingMaxBlocks ∧ batch.timingMeanBlocks ≤ batch.timingMaxBlocks) :
    (∃ result, batch.rescheduleOverdueItems itemId remoteHeight random = .ok result) ↔
      LeavesRoom remoteHeight ((overdue batch itemId remoteHeight).map Item.expiryHeight) := by
  rw [rescheduleOverdueItems_eq htiming,
    rescheduleFrom_isOk (overdueOrder_points hsize) overdueOrder_sorted hnow htiming.2.1,
    length_overdueOrder]
  unfold LeavesRoom
  rw [List.length_map, List.forall_mem_map]
  constructor
  · intro h item hmem
    obtain ⟨hitem, hoverdue⟩ := List.mem_filter.1 hmem
    obtain ⟨index, hindex⟩ := List.mem_iff_getElem?.1 hitem
    exact h index (mem_overdueOrder.2 ⟨item, hindex, hoverdue⟩) item hindex
  · intro h index hmem item hitem
    obtain ⟨_, hitem', hoverdue⟩ := mem_overdueOrder.1 hmem
    obtain rfl := Option.some.inj (hitem'.symm.trans hitem)
    exact h _ (List.mem_filter.2 ⟨List.mem_of_getElem? hitem, hoverdue⟩)

theorem rescheduleFrom_error {e : OutboxError} (hpoints : Points batch order)
    (h : batch.rescheduleFrom random remoteHeight draw elapsed order = .error e) :
    e = .invalidSchedule := by
  induction order generalizing batch draw elapsed with
  | nil => cases h
  | cons index order ih =>
    obtain ⟨item, hitem, -⟩ := hpoints.item index List.mem_cons_self
    simp only [Batch.rescheduleFrom, hitem, orError_some, ok_bind, bind_eq_error,
      ensure_eq_error] at h
    rcases h with ⟨-, rfl⟩ | ⟨_, -, ⟨-, rfl⟩ | ⟨_, -, hrest | ⟨_, -, hend⟩⟩⟩
    · rfl
    · rfl
    · exact ih (hpoints.moveItem _).1 hrest
    · cases hend

/-! ## Acceptance -/

/-- The item under submission. -/
def Item.submit (item : Item) (attemptId : String) (date : Date) : Item :=
  { item with status := .submitting, attemptId := some attemptId, attemptStartedAt := some date }

/-- The accepted item. -/
def Item.accept (item : Item) : Item :=
  { item with
    status := .acceptedAwaitingReconciliation, attemptId := none, attemptStartedAt := none
    nextAttemptAt := none }

/-- The overdue items stay when the item is replaced. -/
theorem overdue_replaceItem {item : Item} (hid : item.itemId = itemId) :
    overdue (batch.replaceItem itemId item) itemId remoteHeight =
      overdue batch itemId remoteHeight :=
  filter_modifyFirst fun other hother => by
    have hother := of_decide_eq_true hother
    simp [isOverdue, hid, hother]

theorem replaceItem_expiry {item : Item}
    (hsize : ∀ other ∈ batch.items, other.expiryHeight < u64Size)
    (hitem : item.expiryHeight < u64Size) :
    ∀ other ∈ (batch.replaceItem itemId item).items, other.expiryHeight < u64Size := by
  intro other hother
  rcases mem_of_mem_modifyFirst hother with hmem | ⟨_, -, rfl⟩
  · exact hsize other hmem
  · exact hitem

namespace Snapshot

variable {s begun s' : Snapshot} {attemptId : String} {date : Date} {item : Item}

/-- What an acceptance does: the overdue items of the batch, the first to expire first, get heights
after the remote height and below their expiry, a bounded number of blocks apart; nothing else
changes, and the receipt lists the new heights. -/
def Reschedules (s s' : Snapshot) (itemId : String) (remoteHeight : ℕ) : Prop :=
  ∃ batch item final receipt, ∃ order : List ℕ,
    s.itemLocation itemId = .ok (batch, item) ∧
    let accepted := batch.replaceItem itemId item.accept
    (∀ index, index ∈ order ↔ ∃ other, accepted.items[index]? = some other ∧
      isOverdue itemId remoteHeight other) ∧
    order.Nodup ∧ ExpireInOrder accepted order ∧
    List.Forall₂ (Updates accepted final remoteHeight) order receipt.scheduleUpdates ∧
    Spaced batch.timingMaxBlocks
      (remoteHeight :: receipt.scheduleUpdates.map ScheduleUpdate.scheduledHeight) ∧
    (∀ index ∉ order, final.items[index]? = accepted.items[index]?) ∧
    s'.batches = modifyFirst (hasItem itemId) (fun _ => final) s.batches ∧
    s'.receipts = s.receipts ++ [receipt] ∧ receipt.itemId = itemId

theorem beginSubmission_location (hlocation : s.itemLocation itemId = .ok (batch, item))
    (h : s.beginSubmission itemId attemptId date = .ok begun) :
    begun.itemLocation itemId =
      .ok (batch.replaceItem itemId (item.submit attemptId date), item.submit attemptId date) := by
  obtain ⟨hbatch, hitem⟩ := itemLocation_eq_ok hlocation
  obtain ⟨-, -, hid⟩ := itemLocation_itemId hlocation
  simp only [beginSubmission, hlocation, ok_bind, bind_eq_ok, ensure_eq_ok, pure_eq_ok] at h
  obtain ⟨_, -, rfl⟩ := h
  have hitem' : (batch.replaceItem itemId (item.submit attemptId date)).items.find?
      (·.itemId = itemId) = some (item.submit attemptId date) :=
    find?_modifyFirst hitem (decide_eq_true hid)
  have hbatch' : (s.replaceBatch itemId
      (batch.replaceItem itemId (item.submit attemptId date))).batches.find? (hasItem itemId) =
        some (batch.replaceItem itemId (item.submit attemptId date)) :=
    find?_modifyFirst hbatch (hasItem_iff.2 ⟨_, List.mem_of_find?_eq_some hitem', hid⟩)
  change itemLocation (s.replaceBatch itemId
    (batch.replaceItem itemId (item.submit attemptId date))) itemId = _
  rw [itemLocation, hbatch', orError_some, ok_bind, hitem']
  rfl

/-- An acceptance is decided by the rescheduling. -/
theorem recordAccepted_eq {equivalent : Bool} {code : ℤ} {message : String}
    (hlocation : s.itemLocation itemId = .ok (batch, item)) (hstatus : item.status = .submitting) :
    s.recordAccepted itemId equivalent remoteHeight code message date random =
      ((batch.replaceItem itemId item.accept).rescheduleOverdueItems itemId remoteHeight random >>=
        fun (final, updates) => .ok { s.replaceBatch itemId final with
          receipts := s.receipts ++ [makeReceipt final item
            (if equivalent then ReceiptOutcome.acceptedEquivalent else .accepted) remoteHeight
            (some code) (some message) updates date] }) := by
  simp only [recordAccepted, hlocation, ok_bind]
  rw [ensure_of _ hstatus]
  rfl

/-- An acceptance depends on the room that the overdue items leave, not on what is drawn. -/
theorem recordAccepted_outcome (hlocation : s.itemLocation itemId = .ok (batch, item))
    (hstatus : item.status = .submitting)
    (hsize : ∀ other ∈ batch.items, other.expiryHeight < u64Size) (hnow : remoteHeight < u64Size)
    (htiming : 0 < batch.timingMeanBlocks ∧ 0 < batch.timingMaxBlocks ∧
      batch.timingMeanBlocks ≤ batch.timingMaxBlocks)
    (equivalent : Bool) (code : ℤ) (message : String) (date : Date) (random : Random) :
    (LeavesRoom remoteHeight ((overdue batch itemId remoteHeight).map Item.expiryHeight) ∧
      ∃ s', s.recordAccepted itemId equivalent remoteHeight code message date random = .ok s') ∨
    (¬ LeavesRoom remoteHeight ((overdue batch itemId remoteHeight).map Item.expiryHeight) ∧
      s.recordAccepted itemId equivalent remoteHeight code message date random =
        .error .invalidSchedule) := by
  obtain ⟨-, hmem, hid⟩ := itemLocation_itemId hlocation
  have hsize' := @replaceItem_expiry batch itemId item.accept hsize (hsize item hmem)
  have hoverdue : overdue (batch.replaceItem itemId item.accept) itemId remoteHeight =
      overdue batch itemId remoteHeight := overdue_replaceItem hid
  have hok := @rescheduleOverdueItems_isOk
    (batch.replaceItem itemId item.accept) random remoteHeight itemId hsize' hnow htiming
  rw [hoverdue] at hok
  rw [recordAccepted_eq hlocation hstatus, ← hok]
  cases hresult : (batch.replaceItem itemId item.accept).rescheduleOverdueItems itemId
    remoteHeight random with
  | ok result => exact .inl ⟨⟨result, rfl⟩, _, rfl⟩
  | error e =>
    rw [@rescheduleOverdueItems_eq (batch.replaceItem itemId item.accept) _ _ _ htiming] at hresult
    obtain rfl := rescheduleFrom_error (overdueOrder_points hsize') hresult
    refine .inr ⟨?_, rfl⟩
    rintro ⟨result, hok⟩
    cases hok

theorem recordAccepted_throws_iff (hlocation : s.itemLocation itemId = .ok (batch, item))
    (hstatus : item.status = .submitting)
    (hsize : ∀ other ∈ batch.items, other.expiryHeight < u64Size) (hnow : remoteHeight < u64Size)
    (htiming : 0 < batch.timingMeanBlocks ∧ 0 < batch.timingMaxBlocks ∧
      batch.timingMeanBlocks ≤ batch.timingMaxBlocks) :
    (∀ equivalent code message date random,
      s.recordAccepted itemId equivalent remoteHeight code message date random ≠
        .error .invalidSchedule) ↔
      LeavesRoom remoteHeight ((overdue batch itemId remoteHeight).map Item.expiryHeight) := by
  have houtcome := recordAccepted_outcome hlocation hstatus hsize hnow htiming
  constructor
  · intro h
    -- any stream shows whether there is room
    rcases houtcome true 0 "" 0 ⟨id, List.Perm.refl, fun _ _ _ => 1⟩ with ⟨hroom, -⟩ | ⟨-, herror⟩
    · exact hroom
    · exact absurd herror (h true 0 "" 0 _)
  · intro hroom equivalent code message date random herror
    rcases houtcome equivalent code message date random with ⟨-, s', hok⟩ | ⟨hnone, -⟩
    · exact nomatch hok.symm.trans herror
    · exact hnone hroom

theorem recordAccepted_reschedules (hlocation : s.itemLocation itemId = .ok (batch, item))
    (hstatus : item.status = .submitting)
    (hsize : ∀ other ∈ batch.items, other.expiryHeight < u64Size) (hnow : remoteHeight < u64Size)
    (htiming : 0 < batch.timingMeanBlocks ∧ 0 < batch.timingMaxBlocks ∧
      batch.timingMeanBlocks ≤ batch.timingMaxBlocks)
    {equivalent : Bool} {code : ℤ} {message : String}
    (h : s.recordAccepted itemId equivalent remoteHeight code message date random = .ok s') :
    s.Reschedules s' itemId remoteHeight := by
  obtain ⟨-, hmem, hid⟩ := itemLocation_itemId hlocation
  have hsize' := @replaceItem_expiry batch itemId item.accept hsize (hsize item hmem)
  have hpoints := @overdueOrder_points (batch.replaceItem itemId item.accept) random remoteHeight
    itemId hsize'
  rw [recordAccepted_eq hlocation hstatus,
    @rescheduleOverdueItems_eq (batch.replaceItem itemId item.accept) _ _ _ htiming] at h
  obtain ⟨⟨final, updates⟩, hfinal, heq⟩ := bind_eq_ok.1 h
  obtain rfl := Except.ok.inj heq
  obtain ⟨hupdates, hspaced, hothers⟩ := rescheduleFrom_spec hpoints hnow htiming.2.1 hfinal
  rw [Nat.add_zero] at hspaced
  exact ⟨batch, item, final, makeReceipt final item _ remoteHeight _ _ updates date, _, hlocation,
    fun _ => mem_overdueOrder, hpoints.nodup, overdueOrder_sorted, hupdates, hspaced, hothers, rfl,
    rfl, hid⟩

/-- After a submission has begun, the check passed exactly when no acceptance throws for want of
heights, unless the check finds room for the overdue items that the first of them to expire does not
leave to the others; and every acceptance spreads the overdue items below their expiry. -/
theorem rescheduling_agrees_iff (hlocation : s.itemLocation itemId = .ok (batch, item))
    (hbegun : s.beginSubmission itemId attemptId date = .ok begun)
    (hsize : ∀ other ∈ batch.items, other.expiryHeight < u64Size) (hnow : remoteHeight < u64Size)
    (htiming : 0 < batch.timingMeanBlocks ∧ 0 < batch.timingMaxBlocks ∧
      batch.timingMeanBlocks ≤ batch.timingMaxBlocks) :
    ((s.validateReschedulingAfterAcceptance itemId remoteHeight = .ok () ↔
        ∀ equivalent code message date random,
          begun.recordAccepted itemId equivalent remoteHeight code message date random ≠
            .error .invalidSchedule) ∧
      ∀ equivalent code message date random s',
        begun.recordAccepted itemId equivalent remoteHeight code message date random = .ok s' →
          begun.Reschedules s' itemId remoteHeight) ↔
    (∀ other ∈ overdue batch itemId remoteHeight,
      remoteHeight + (overdue batch itemId remoteHeight).length < other.expiryHeight) ∨
    ∃ other ∈ overdue batch itemId remoteHeight, other.expiryHeight ≤ remoteHeight +
      (overdue batch itemId remoteHeight).countP (·.expiryHeight ≤ other.expiryHeight) := by
  obtain ⟨-, hmem, hid⟩ := itemLocation_itemId hlocation
  have hlocation' := beginSubmission_location hlocation hbegun
  have hsize' := @replaceItem_expiry batch itemId (item.submit attemptId date) hsize
    (hsize item hmem)
  have hoverdue : overdue (batch.replaceItem itemId (item.submit attemptId date)) itemId
      remoteHeight = overdue batch itemId remoteHeight := overdue_replaceItem hid
  have hthrows := recordAccepted_throws_iff hlocation' rfl hsize' hnow htiming
  rw [hoverdue] at hthrows
  rw [and_iff_left fun _ _ _ _ _ _ h =>
      recordAccepted_reschedules hlocation' rfl hsize' hnow htiming h,
    validateRescheduling_iff hlocation hsize, hthrows]
  have hleaves : LeavesRoom remoteHeight ((overdue batch itemId remoteHeight).map
      Item.expiryHeight) ↔ ∀ other ∈ overdue batch itemId remoteHeight,
        remoteHeight + (overdue batch itemId remoteHeight).length < other.expiryHeight := by
    rw [LeavesRoom, List.forall_mem_map, List.length_map]
  have hroom : HasRoom remoteHeight ((overdue batch itemId remoteHeight).map Item.expiryHeight) ↔
      ∀ other ∈ overdue batch itemId remoteHeight, remoteHeight + (overdue batch itemId
        remoteHeight).countP (·.expiryHeight ≤ other.expiryHeight) < other.expiryHeight := by
    rw [HasRoom, List.forall_mem_map]
    simp only [List.countP_map]
    rfl
  rw [← hleaves]
  constructor
  · intro hagree
    by_cases hleft : LeavesRoom remoteHeight
      ((overdue batch itemId remoteHeight).map Item.expiryHeight)
    · exact .inl hleft
    · have hnone := mt hagree.1 hleft
      rw [hroom] at hnone
      push Not at hnone
      exact .inr hnone
  · rintro (hleft | ⟨other, hother, hle⟩)
    · exact iff_of_true hleft.hasRoom hleft
    · have hnone : ¬ HasRoom remoteHeight
          ((overdue batch itemId remoteHeight).map Item.expiryHeight) := fun h => by
        have := hroom.1 h other hother
        omega
      exact iff_of_false hnone fun hleft => hnone hleft.hasRoom

/-- An item of a batch that is due, with an expiry height. -/
def sampleItem (itemId : String) (expiryHeight : ℕ) : Item where
  itemId
  partIndex := 0
  txidHex := itemId
  rawTransaction := [1]
  payloadDigestHex := ""
  anchorBoundaryHeight := 0
  scheduledHeight := 50
  scheduleStartHeight := 0
  expiryHeight
  status := .armed

/-- A batch with three items that are due. -/
def sampleBatch (first second : ℕ) : Batch where
  batchId := "batch"
  network := "main"
  accountUuid := "account"
  runId := "run"
  lightwalletdUrl := "url"
  timingMeanBlocks := 10
  timingMaxBlocks := 20
  items := [sampleItem "a" 1000, sampleItem "b" first, sampleItem "c" second]

def sampleSnapshot (first second : ℕ) : Snapshot := { batches := [sampleBatch first second] }

/-- At height 100, items that expire at 102 and 1100 pass the check before the submission, and the
acceptance throws whatever is drawn. -/
theorem rescheduling_disagrees :
    ∃ begun, (sampleSnapshot 102 1100).beginSubmission "a" "attempt" 0 = .ok begun ∧
      (sampleSnapshot 102 1100).validateReschedulingAfterAcceptance "a" 100 = .ok () ∧
      ∀ equivalent code message date random,
        begun.recordAccepted "a" equivalent 100 code message date random =
          .error .invalidSchedule := by
  have hlocation : (sampleSnapshot 102 1100).itemLocation "a" =
      .ok (sampleBatch 102 1100, sampleItem "a" 1000) := rfl
  have hsize : ∀ other ∈ (sampleBatch 102 1100).items, other.expiryHeight < u64Size := by decide
  refine ⟨_, rfl, (validateRescheduling_iff hlocation hsize).2 (by unfold HasRoom; decide), ?_⟩
  intro equivalent code message date random
  have hlocation' := beginSubmission_location hlocation
    (rfl : (sampleSnapshot 102 1100).beginSubmission "a" "attempt" 0 = _)
  have hnow : 100 < u64Size := by decide
  rcases recordAccepted_outcome hlocation' rfl (by decide) hnow (by decide) equivalent code message
    date random with ⟨hroom, -⟩ | ⟨-, herror⟩
  · exact absurd hroom (by unfold LeavesRoom; decide)
  · exact herror

/-- Items that expire together leave room when there is room. -/
theorem rescheduling_agrees_sample :
    ∃ begun, (sampleSnapshot 1000 1000).beginSubmission "a" "attempt" 0 = .ok begun ∧
      ((sampleSnapshot 1000 1000).validateReschedulingAfterAcceptance "a" 100 = .ok () ↔
        ∀ equivalent code message date random,
          begun.recordAccepted "a" equivalent 100 code message date random ≠
            .error .invalidSchedule) := by
  have hlocation : (sampleSnapshot 1000 1000).itemLocation "a" =
      .ok (sampleBatch 1000 1000, sampleItem "a" 1000) := rfl
  obtain ⟨begun, hbegun⟩ :
      ∃ begun, (sampleSnapshot 1000 1000).beginSubmission "a" "attempt" 0 = .ok begun := ⟨_, rfl⟩
  exact ⟨begun, hbegun, ((rescheduling_agrees_iff hlocation hbegun (by decide) (by decide)
    (by decide)).2 (.inl (by decide))).1⟩

end Snapshot

end VizorWallet.Outbox
