import Mathlib.Data.List.Sort
import Mathlib.Data.Prod.Lex
import VizorWallet.Library.Bytes
import VizorWallet.Library.Topological

/-!
# Resubmission

Pending transactions are sent again in one pass, a parent before its children. Those on a cycle of
spends or behind one come last and wait.

## Main definitions

* `orderResubmittableTransactions` — the order of a pass.
* `resubmitPendingTransactions` — the pass.

## Main results

* `orderResubmittable_listing` — the order is a least-first listing and the rest by txid.
* `resubmission_respects_dependencies` — what a pass sends, and when.
-/

namespace VizorWallet.Send

variable {Txid : Type} [LinearOrder Txid]

structure ResubmittableTx (Txid : Type) where
  txidBytes : Txid
  rawTx : Bytes
  expiryHeight : ℕ
  deriving DecidableEq

/-- What is used of a parsed transaction: its txid and the txids of the outputs it spends. -/
structure Transaction (Txid : Type) where
  txid : Txid
  prevoutHashes : List Txid

structure OrderedResubmittableTx (Txid : Type) where
  tx : ResubmittableTx Txid
  parentTxids : List Txid
  deriving DecidableEq

def resubmitDependenciesSucceeded (candidate : OrderedResubmittableTx Txid)
    (succeededTxids : List Txid) : Bool :=
  candidate.parentTxids.all fun txid => succeededTxids.contains txid

/-! ## The order -/

section Order

variable (read : Bytes → Option (Transaction Txid)) (candidates : List (ResubmittableTx Txid))

def txidAt (index : Fin candidates.length) : Txid := (candidates.get index).txidBytes

/-- The first candidate with a txid. -/
def byTxid (txid : Txid) : Option (Fin candidates.length) :=
  candidates.findFinIdx? (·.txidBytes = txid)

/-- The transaction of a candidate; bytes that cannot be read or have another txid give none. -/
def parsed (index : Fin candidates.length) : Option (Transaction Txid) :=
  (read (candidates.get index).rawTx).filter (·.txid = txidAt candidates index)

/-- The candidates that a candidate spends from, each once. -/
def parents (child : Fin candidates.length) : List (Fin candidates.length) :=
  match parsed read candidates child with
  | none => []
  | some transaction => (transaction.prevoutHashes.filterMap (byTxid candidates)).dedup

def parentTxids (child : Fin candidates.length) : List Txid :=
  ((parents read candidates child).map (txidAt candidates)).mergeSort

def children (parent : Fin candidates.length) : List (Fin candidates.length) :=
  (List.finRange candidates.length).filter (parent ∈ parents read candidates ·)

/-- An entry of the ordered set of ready candidates. -/
abbrev Entry := Txid ×ₗ Fin candidates.length

def entry (index : Fin candidates.length) : Entry candidates :=
  toLex (txidAt candidates index, index)

def insertReady (ready : List (Entry candidates)) (entry : Entry candidates) :
    List (Entry candidates) :=
  if entry ∈ ready then ready else ready.orderedInsert (· ≤ ·) entry

/-- One parent less is missing for each of some children. -/
def visitChildren : List (Fin candidates.length) → (Fin candidates.length → ℕ) →
    List (Entry candidates) → (Fin candidates.length → ℕ) × List (Entry candidates)
  | [], indegree, ready => (indegree, ready)
  | child :: rest, indegree, ready =>
    let indegree := Function.update indegree child (indegree child - 1)
    visitChildren rest indegree
      (if indegree child = 0 then insertReady candidates ready (entry candidates child) else ready)

/-- The loop over the ready candidates; `fuel` bounds how many are taken. -/
def drainReady : ℕ → (Fin candidates.length → ℕ) → List (Entry candidates) →
    List (Fin candidates.length)
  | 0, _, _ => []
  | _ + 1, _, [] => []
  | fuel + 1, indegree, first :: ready =>
    let index := (ofLex first).2
    let visited := visitChildren candidates (children read candidates index) indegree ready
    index :: drainReady fuel visited.1 visited.2

def initialReady : List (Entry candidates) :=
  let independent := (List.finRange candidates.length).filter fun index =>
    (parents read candidates index).length = 0
  independent.foldl (fun ready index => insertReady candidates ready (entry candidates index)) []

/-- The candidates that the loop leaves out, by txid. -/
def unresolved (emitted : List (Fin candidates.length)) : List (Fin candidates.length) :=
  ((List.finRange candidates.length).filter (· ∉ emitted)).mergeSort fun left right =>
    txidAt candidates left ≤ txidAt candidates right

/-- What the loop emits; it takes each candidate at most once. -/
def emittedOrder : List (Fin candidates.length) :=
  drainReady read candidates candidates.length
    (fun index => (parents read candidates index).length) (initialReady read candidates)

def resubmissionOrder : List (Fin candidates.length) :=
  let order := emittedOrder read candidates
  if order.length ≠ candidates.length then order ++ unresolved candidates order else order

def orderResubmittableTransactions : List (OrderedResubmittableTx Txid) :=
  (resubmissionOrder read candidates).map fun index =>
    ⟨candidates.get index, parentTxids read candidates index⟩

end Order

/-! ## The pass -/

structure ResubmitStats where
  attempted : ℕ := 0
  succeeded : ℕ := 0
  failed : ℕ := 0

/-- What the environment says around one candidate: whether the pass is cancelled before it, the
answer to its broadcast, whether the pass is cancelled before the retry, and the answer to that. -/
structure Answers where
  exits : Bool
  first : Bool
  exitsBeforeRetry : Bool
  retry : Bool

/-- A pass: its statistics, the txids that were accepted, every broadcast with its answer, and
whether it was cancelled. -/
structure Pass (Txid : Type) where
  stats : ResubmitStats := {}
  succeededTxids : List Txid := []
  submissions : List (Txid × Bool) := []
  cancelled : Bool := false

def Pass.fail (pass : Pass Txid) : Pass Txid :=
  { pass with stats := { pass.stats with failed := pass.stats.failed + 1 } }

/-- A broadcast and its answer. -/
def Pass.broadcast (pass : Pass Txid) (txid : Txid) (accepted : Bool) : Pass Txid :=
  let pass := { pass with submissions := pass.submissions ++ [(txid, accepted)] }
  if accepted then
    { pass with
      stats := { pass.stats with succeeded := pass.stats.succeeded + 1 }
      succeededTxids := txid :: pass.succeededTxids }
  else pass

/-- The loop over the candidates; `answers` numbers what the environment says. -/
def resubmitLoop (answers : ℕ → Answers) :
    ℕ → List (OrderedResubmittableTx Txid) → Pass Txid → Pass Txid
  | _, [], pass => pass
  | position, candidate :: rest, pass =>
    let answer := answers position
    if answer.exits then { pass with cancelled := true }
    else if ¬ resubmitDependenciesSucceeded candidate pass.succeededTxids then
      resubmitLoop answers (position + 1) rest pass.fail
    else
      let pass := pass.broadcast candidate.tx.txidBytes answer.first
      if answer.first then resubmitLoop answers (position + 1) rest pass
      else if answer.exitsBeforeRetry then { pass.fail with cancelled := true }
      else
        let pass := pass.broadcast candidate.tx.txidBytes answer.retry
        resubmitLoop answers (position + 1) rest (if answer.retry then pass else pass.fail)

/-- `exits` says whether the pass is cancelled before the candidates are queried. -/
def resubmitPendingTransactions (read : Bytes → Option (Transaction Txid)) (exits : Bool)
    (query : Except String (List (ResubmittableTx Txid))) (answers : ℕ → Answers) : Pass Txid :=
  if exits then { cancelled := true }
  else
    match query with
    | .error _ => {}
    | .ok candidates =>
      let candidates := orderResubmittableTransactions read candidates
      if candidates = [] then {}
      else resubmitLoop answers 0 candidates { stats := { attempted := candidates.length } }

variable {read : Bytes → Option (Transaction Txid)} {candidates : List (ResubmittableTx Txid)}

/-! ## The ready candidates -/

/-- A list that an ordered set is kept in. -/
structure OrderedSet (ready : List (Entry candidates)) : Prop where
  sorted : ready.Pairwise (· ≤ ·)
  nodup : ready.Nodup

theorem mem_insertReady {ready : List (Entry candidates)} {first second : Entry candidates} :
    first ∈ insertReady candidates ready second ↔ first = second ∨ first ∈ ready := by
  unfold insertReady
  split
  · rename_i hmem
    exact ⟨.inr, fun h => h.elim (· ▸ hmem) id⟩
  · exact List.mem_orderedInsert _

theorem OrderedSet.insertReady {ready : List (Entry candidates)} (h : OrderedSet ready)
    (entry : Entry candidates) : OrderedSet (insertReady candidates ready entry) := by
  unfold Send.insertReady
  split
  · exact h
  · rename_i hfresh
    exact ⟨h.sorted.orderedInsert entry ready,
      ((List.perm_orderedInsert _ entry ready).nodup_iff).2 (List.nodup_cons.2 ⟨hfresh, h.nodup⟩)⟩

/-- The first entry is the least, and the others stay. -/
theorem OrderedSet.cons {ready : List (Entry candidates)} {first : Entry candidates}
    (h : OrderedSet (first :: ready)) :
    (∀ second ∈ ready, first ≤ second) ∧ first ∉ ready ∧ OrderedSet ready := by
  obtain ⟨hleast, hsorted⟩ := List.pairwise_cons.1 h.sorted
  obtain ⟨hfresh, hnodup⟩ := List.nodup_cons.1 h.nodup
  exact ⟨hleast, hfresh, hsorted, hnodup⟩

theorem visitChildren_spec {indegree : Fin candidates.length → ℕ}
    {ready : List (Entry candidates)} {visited : List (Fin candidates.length)}
    (hnodup : visited.Nodup) (hready : OrderedSet ready) :
    (∀ child, (visitChildren candidates visited indegree ready).1 child =
      if child ∈ visited then indegree child - 1 else indegree child) ∧
    (∀ found, found ∈ (visitChildren candidates visited indegree ready).2 ↔
      found ∈ ready ∨ ∃ child ∈ visited, found = entry candidates child ∧ indegree child - 1 = 0) ∧
    OrderedSet (visitChildren candidates visited indegree ready).2 := by
  induction visited generalizing indegree ready with
  | nil => exact ⟨fun _ => rfl, fun _ => by simp [visitChildren], hready⟩
  | cons child rest ih =>
    obtain ⟨hfresh, hrest⟩ := List.nodup_cons.1 hnodup
    have hset : OrderedSet (if Function.update indegree child (indegree child - 1) child = 0 then
        Send.insertReady candidates ready (entry candidates child) else ready) := by
      split
      · exact hready.insertReady _
      · exact hready
    obtain ⟨hindegree, hmem, hset⟩ := @ih (Function.update indegree child (indegree child - 1)) _
      hrest hset
    simp only [visitChildren]
    refine ⟨fun child' => ?_, fun found => ?_, hset⟩
    · rw [hindegree]
      by_cases heq : child' = child
      · subst heq
        simp [hfresh]
      · simp [heq]
    · rw [hmem]
      have hothers : (∃ child' ∈ rest, found = entry candidates child' ∧
          Function.update indegree child (indegree child - 1) child' - 1 = 0) ↔
          ∃ child' ∈ rest, found = entry candidates child' ∧ indegree child' - 1 = 0 := by
        refine exists_congr fun child' => and_congr_right fun hmem' => ?_
        rw [Function.update_of_ne (by rintro rfl; exact hfresh hmem')]
      rw [hothers, Function.update_self, List.exists_mem_cons_iff]
      split_ifs with hzero
      · rw [mem_insertReady]
        grind
      · grind

/-! ## What the loop keeps -/

/-- The state of the loop: the numbers of parents that are missing, and the candidates with none. -/
structure Waiting (read : Bytes → Option (Transaction Txid))
    (candidates : List (ResubmittableTx Txid)) (done : List (Fin candidates.length))
    (indegree : Fin candidates.length → ℕ) (ready : List (Entry candidates)) : Prop where
  indegree : ∀ child,
    indegree child = ((parents read candidates child).filter (· ∉ done)).length
  set : OrderedSet ready
  mem : ∀ found, found ∈ ready ↔ ∃ child, found = entry candidates child ∧ child ∉ done ∧
    ∀ parent ∈ parents read candidates child, parent ∈ done
  closed : ∀ child ∈ done, ∀ parent ∈ parents read candidates child, parent ∈ done

theorem parents_nodup (child : Fin candidates.length) :
    (parents read candidates child).Nodup := by
  unfold parents
  split
  · exact .nil
  · exact List.nodup_dedup _

omit [LinearOrder Txid] in
theorem entry_injective : Function.Injective (entry candidates) := fun _ _ h =>
  (Prod.mk.inj (toLex.injective h)).2

theorem length_missing_eq_zero {done : List (Fin candidates.length)}
    {child : Fin candidates.length} :
    ((parents read candidates child).filter (· ∉ done)).length = 0 ↔
      ∀ parent ∈ parents read candidates child, parent ∈ done := by
  simp [List.filter_eq_nil_iff]

theorem waiting_initial : Waiting read candidates []
    (fun index => (parents read candidates index).length) (initialReady read candidates) := by
  have hfold (indices : List (Fin candidates.length)) (ready : List (Entry candidates))
      (hready : OrderedSet ready) :
      OrderedSet (indices.foldl (fun ready index =>
        insertReady candidates ready (entry candidates index)) ready) ∧
      ∀ found, found ∈ indices.foldl (fun ready index =>
        insertReady candidates ready (entry candidates index)) ready ↔
          found ∈ ready ∨ ∃ index ∈ indices, found = entry candidates index := by
    induction indices generalizing ready with
    | nil => exact ⟨hready, fun _ => by simp⟩
    | cons index rest ih =>
      obtain ⟨hset, hmem⟩ := ih _ (hready.insertReady (entry candidates index))
      refine ⟨hset, fun found => ?_⟩
      rw [List.foldl_cons, hmem, mem_insertReady, List.exists_mem_cons_iff]
      grind
  obtain ⟨hset, hmem⟩ := hfold ((List.finRange candidates.length).filter fun index =>
    (parents read candidates index).length = 0) [] ⟨.nil, .nil⟩
  refine ⟨fun child => by simp, hset, fun found => ?_, fun _ hmem => absurd hmem List.not_mem_nil⟩
  rw [initialReady, hmem]
  simp only [List.not_mem_nil, false_or, List.mem_filter, List.mem_finRange, true_and,
    decide_eq_true_eq, List.length_eq_zero_iff, List.eq_nil_iff_forall_not_mem,
    not_false_eq_true]
  exact exists_congr fun _ => and_comm

theorem mem_children {parent child : Fin candidates.length} :
    child ∈ children read candidates parent ↔ parent ∈ parents read candidates child := by
  simp [children]

/-- One parent less is missing once a candidate that was missing is done. -/
theorem length_missing_append {done : List (Fin candidates.length)}
    {index : Fin candidates.length} (hfresh : index ∉ done) (child : Fin candidates.length) :
    ((parents read candidates child).filter (· ∉ done ++ [index])).length =
      if index ∈ parents read candidates child then
        ((parents read candidates child).filter (· ∉ done)).length - 1
      else ((parents read candidates child).filter (· ∉ done)).length := by
  have hfilter : (parents read candidates child).filter (· ∉ done ++ [index]) =
      ((parents read candidates child).filter (· ∉ done)).erase index := by
    rw [((parents_nodup child).filter _).erase_eq_filter, List.filter_filter]
    refine List.filter_congr fun parent _ => ?_
    simp only [List.mem_append, List.mem_singleton, not_or]
    grind
  rw [hfilter, List.length_erase]
  simp [hfresh]

theorem children_nodup (parent : Fin candidates.length) :
    (children read candidates parent).Nodup :=
  (List.nodup_finRange _).filter _

/-- One candidate is taken, and its children wait for one parent less. -/
theorem Waiting.step {done : List (Fin candidates.length)} {index : Fin candidates.length}
    {indegree : Fin candidates.length → ℕ} {ready : List (Entry candidates)}
    (h : Waiting read candidates done indegree (entry candidates index :: ready)) :
    Waiting read candidates (done ++ [index])
      (visitChildren candidates (children read candidates index) indegree ready).1
      (visitChildren candidates (children read candidates index) indegree ready).2 := by
  obtain ⟨-, hnew, hready⟩ := h.set.cons
  obtain ⟨_, hindex, hfresh, hparents⟩ := (h.mem _).1 List.mem_cons_self
  obtain rfl := entry_injective hindex
  obtain ⟨hindegree, hmem, hset⟩ :=
    @visitChildren_spec _ _ _ indegree ready _ (children_nodup index) hready
  have hmissing (child : Fin candidates.length) :
      (visitChildren candidates (children read candidates index) indegree ready).1 child =
        ((parents read candidates child).filter (· ∉ done ++ [index])).length := by
    rw [hindegree, length_missing_append hfresh]
    simp only [mem_children, h.indegree]
  -- a child of the taken candidate is complete when its last missing parent was that one
  have hcomplete (child : Fin candidates.length) (hchild : index ∈ parents read candidates child) :
      indegree child - 1 = 0 ↔
        ∀ parent ∈ parents read candidates child, parent ∈ done ++ [index] := by
    rw [← length_missing_eq_zero, ← hmissing, hindegree, if_pos (mem_children.2 hchild)]
  refine ⟨hmissing, hset, fun found => ?_, ?_⟩
  · rw [hmem]
    constructor
    · rintro (hold | ⟨child, hchild, rfl, hzero⟩)
      · obtain ⟨child, rfl, hchild, hdone⟩ := (h.mem _).1 (List.mem_cons_of_mem _ hold)
        refine ⟨child, rfl, ?_, fun parent hparent => List.mem_append_left _ (hdone parent hparent)⟩
        rw [List.mem_append, List.mem_singleton, not_or]
        exact ⟨hchild, by rintro rfl; exact hnew hold⟩
      · rw [mem_children] at hchild
        refine ⟨child, rfl, ?_, (hcomplete child hchild).1 hzero⟩
        rw [List.mem_append, List.mem_singleton, not_or]
        exact ⟨fun hdone => hfresh (h.closed child hdone index hchild),
          by rintro rfl; exact hfresh (hparents _ hchild)⟩
    · rintro ⟨child, rfl, hchild, hdone⟩
      rw [List.mem_append, List.mem_singleton, not_or] at hchild
      by_cases hparent : index ∈ parents read candidates child
      · exact .inr ⟨child, mem_children.2 hparent, rfl, (hcomplete child hparent).2 hdone⟩
      · have hready' : entry candidates child ∈ entry candidates index :: ready := by
          refine (h.mem _).2 ⟨child, rfl, hchild.1, fun parent hmem => ?_⟩
          rcases List.mem_append.1 (hdone parent hmem) with hdone | hindex
          · exact hdone
          · exact absurd (List.mem_singleton.1 hindex ▸ hmem) hparent
        exact .inl ((List.mem_cons.1 hready').resolve_left fun heq =>
          hchild.2 (entry_injective heq))
  · intro child hchild parent hparent
    rcases List.mem_append.1 hchild with hchild | hchild
    · exact List.mem_append_left _ (h.closed child hchild parent hparent)
    · obtain rfl := List.mem_singleton.1 hchild
      exact List.mem_append_left _ (hparents parent hparent)

/-! ## The listing of txids -/

/-- A transaction of the list spends an output of another. -/
def Spends (read : Bytes → Option (Transaction Txid)) (candidates : List (ResubmittableTx Txid))
    (parent child : Txid) : Prop :=
  (∃ tx ∈ candidates, tx.txidBytes = parent) ∧ ∃ tx ∈ candidates, tx.txidBytes = child ∧
    ∃ transaction, read tx.rawTx = some transaction ∧ transaction.txid = child ∧
      parent ∈ transaction.prevoutHashes

def txids (candidates : List (ResubmittableTx Txid)) : Set Txid :=
  {txid | ∃ tx ∈ candidates, tx.txidBytes = txid}

/-- No two transactions of the list have the same txid. -/
def Distinct (candidates : List (ResubmittableTx Txid)) : Prop :=
  (candidates.map (·.txidBytes)).Nodup

omit [LinearOrder Txid] in
theorem Distinct.txidAt_injective (h : Distinct candidates) :
    Function.Injective (txidAt candidates) := by
  intro i j heq
  have hget : candidates.get i = candidates.get j :=
    List.inj_on_of_nodup_map h (List.get_mem ..) (List.get_mem ..) heq
  exact (List.nodup_iff_injective_get.1 h.of_map) hget

omit [LinearOrder Txid] in
theorem mem_txids_iff {txid : Txid} :
    txid ∈ txids candidates ↔ ∃ index, txidAt candidates index = txid := by
  constructor
  · rintro ⟨tx, hmem, rfl⟩
    obtain ⟨index, rfl⟩ := List.get_of_mem hmem
    exact ⟨index, rfl⟩
  · rintro ⟨index, rfl⟩
    exact ⟨_, List.get_mem .., rfl⟩

theorem byTxid_eq_some (h : Distinct candidates) {txid : Txid} {index : Fin candidates.length} :
    byTxid candidates txid = some index ↔ txidAt candidates index = txid := by
  unfold byTxid
  rw [List.findFinIdx?_eq_some_iff]
  simp only [decide_eq_true_eq]
  constructor
  · exact fun hfirst => hfirst.1
  · intro heq
    refine ⟨heq, fun earlier hearlier hsame => ?_⟩
    have : earlier = index := h.txidAt_injective (hsame.trans heq.symm)
    omega

/-- The parents that are recorded are the transactions spent from. -/
theorem mem_parents (h : Distinct candidates) {parent child : Fin candidates.length} :
    parent ∈ parents read candidates child ↔
      Spends read candidates (txidAt candidates parent) (txidAt candidates child) := by
  have hchild (tx : ResubmittableTx Txid) (hmem : tx ∈ candidates)
      (htxid : tx.txidBytes = txidAt candidates child) : tx = candidates.get child :=
    List.inj_on_of_nodup_map h hmem (List.get_mem ..) htxid
  have hparsed (transaction : Transaction Txid) :
      parsed read candidates child = some transaction ↔
        read (candidates.get child).rawTx = some transaction ∧
          transaction.txid = txidAt candidates child := by
    rw [parsed, Option.filter_eq_some_iff, decide_eq_true_eq]
  have hmem : parent ∈ parents read candidates child ↔
      ∃ transaction, parsed read candidates child = some transaction ∧
        txidAt candidates parent ∈ transaction.prevoutHashes := by
    unfold parents
    split
    · rename_i hnone
      simp [hnone]
    · rename_i transaction hsome
      simp [hsome, byTxid_eq_some h]
  rw [hmem]
  constructor
  · rintro ⟨transaction, hsome, hspent⟩
    obtain ⟨hread, htxid⟩ := (hparsed transaction).1 hsome
    exact ⟨⟨_, List.get_mem .., rfl⟩, _, List.get_mem .., rfl, transaction, hread, htxid, hspent⟩
  · rintro ⟨-, tx, htx, hsame, transaction, hread, htxid, hspent⟩
    rw [hchild tx htx hsame] at hread
    exact ⟨transaction, (hparsed transaction).2 ⟨hread, htxid⟩, hspent⟩

/-- The entries of the ordered set are the txids that can be listed next. -/
theorem Waiting.ready_iff (h : Distinct candidates) {done : List (Fin candidates.length)}
    {indegree : Fin candidates.length → ℕ} {ready : List (Entry candidates)}
    (hwaiting : Waiting read candidates done indegree ready) {txid : Txid} :
    Ready (txids candidates) (Spends read candidates) (done.map (txidAt candidates)) txid ↔
      ∃ index, txidAt candidates index = txid ∧ entry candidates index ∈ ready := by
  constructor
  · rintro ⟨hmem, hfresh, hparents⟩
    obtain ⟨index, rfl⟩ := mem_txids_iff.1 hmem
    rw [List.mem_map_of_injective h.txidAt_injective] at hfresh
    refine ⟨index, rfl, (hwaiting.mem _).2 ⟨index, rfl, hfresh, fun parent hparent => ?_⟩⟩
    exact (List.mem_map_of_injective h.txidAt_injective).1 (hparents _ ((mem_parents h).1 hparent))
  · rintro ⟨index, rfl, hready⟩
    obtain ⟨_, hindex, hfresh, hparents⟩ := (hwaiting.mem _).1 hready
    obtain rfl := entry_injective hindex
    refine ⟨mem_txids_iff.2 ⟨index, rfl⟩,
      fun hmem => hfresh ((List.mem_map_of_injective h.txidAt_injective).1 hmem), ?_⟩
    intro parent hspends
    obtain ⟨parent, rfl⟩ := mem_txids_iff.1 hspends.1
    exact List.mem_map_of_mem (hparents parent ((mem_parents h).2 hspends))

/-- The loop lists the txids least first; as many rounds as there are candidates are enough. -/
theorem Waiting.leastFirst (h : Distinct candidates) {done : List (Fin candidates.length)}
    {indegree : Fin candidates.length → ℕ} {ready : List (Entry candidates)}
    (hwaiting : Waiting read candidates done indegree ready) (hdone : done.Nodup) {fuel : ℕ}
    (hfuel : candidates.length ≤ fuel + done.length) :
    LeastFirst (txids candidates) (Spends read candidates) (done.map (txidAt candidates))
      ((drainReady read candidates fuel indegree ready).map (txidAt candidates)) := by
  induction fuel generalizing done indegree ready with
  | zero =>
    refine .stop fun txid hready => ?_
    obtain ⟨index, -, hmem⟩ := (hwaiting.ready_iff h).1 hready
    obtain ⟨_, hindex, hfresh, -⟩ := (hwaiting.mem _).1 hmem
    -- every candidate is done
    have hlength := (List.nodup_cons.2 ⟨hfresh, hdone⟩).length_le_card
    rw [List.length_cons, Fintype.card_fin] at hlength
    omega
  | succ fuel ih =>
    cases ready with
    | nil =>
      refine .stop fun txid hready => ?_
      obtain ⟨index, -, hmem⟩ := (hwaiting.ready_iff h).1 hready
      exact absurd hmem List.not_mem_nil
    | cons first ready =>
      obtain ⟨index, rfl, hfresh, -⟩ := (hwaiting.mem _).1 List.mem_cons_self
      have hrest := ih hwaiting.step (List.nodup_append.2 ⟨hdone, List.nodup_singleton _, ?_⟩) ?_
      · rw [List.map_append] at hrest
        refine .step ((hwaiting.ready_iff h).2 ⟨index, rfl, List.mem_cons_self⟩) ?_ hrest
        intro other hother
        obtain ⟨other, rfl, hmem⟩ := (hwaiting.ready_iff h).1 hother
        have hle : entry candidates index ≤ entry candidates other := by
          rcases List.mem_cons.1 hmem with heq | hmem
          · rw [heq]
          · exact hwaiting.set.cons.1 _ hmem
        rcases Prod.Lex.toLex_le_toLex.1 hle with hlt | ⟨heq, -⟩
        · exact hlt.le
        · exact heq.le
      · rintro a ha b hb rfl
        exact hfresh (List.mem_singleton.1 hb ▸ ha)
      · rw [List.length_append, List.length_singleton]
        omega

/-! ## The order of a pass -/

omit [LinearOrder Txid] in
theorem finite_txids (candidates : List (ResubmittableTx Txid)) : (txids candidates).Finite :=
  (candidates.map (·.txidBytes)).finite_toSet.subset fun _ ⟨tx, hmem, heq⟩ =>
    List.mem_map.2 ⟨tx, hmem, heq⟩

theorem emittedOrder_leastFirst (h : Distinct candidates) :
    LeastFirst (txids candidates) (Spends read candidates) []
      ((emittedOrder read candidates).map (txidAt candidates)) :=
  waiting_initial.leastFirst h .nil (Nat.le_add_right ..)

theorem mem_emittedOrder (h : Distinct candidates) {index : Fin candidates.length} :
    index ∈ emittedOrder read candidates ↔
      ¬ BehindCycle (Spends read candidates) (txidAt candidates index) := by
  rw [← List.mem_map_of_injective h.txidAt_injective]
  exact (emittedOrder_leastFirst h).mem_iff (finite_txids candidates) (fun _ _ hedge => hedge.1)
    (mem_txids_iff.2 ⟨index, rfl⟩)

/-- The order is what the loop emits, and the rest by txid. -/
theorem resubmissionOrder_eq (h : Distinct candidates) : resubmissionOrder read candidates =
    emittedOrder read candidates ++ unresolved candidates (emittedOrder read candidates) := by
  simp only [resubmissionOrder]
  split
  · rfl
  · rename_i hall
    have hnodup : (emittedOrder read candidates).Nodup :=
      (emittedOrder_leastFirst h).nodup.of_map
    have hmem (index : Fin candidates.length) : index ∈ emittedOrder read candidates := by
      by_contra hfresh
      have hlength := (List.nodup_cons.2 ⟨hfresh, hnodup⟩).length_le_card
      rw [List.length_cons, Fintype.card_fin] at hlength
      omega
    have hnone : unresolved candidates (emittedOrder read candidates) = [] := by
      simp [unresolved, hmem]
    rw [hnone, List.append_nil]

theorem mem_unresolved {emitted : List (Fin candidates.length)} {index : Fin candidates.length} :
    index ∈ unresolved candidates emitted ↔ index ∉ emitted := by
  simp [unresolved]

theorem resubmissionOrder_nodup (h : Distinct candidates) :
    (resubmissionOrder read candidates).Nodup := by
  rw [resubmissionOrder_eq h]
  refine List.nodup_append.2 ⟨(emittedOrder_leastFirst h).nodup.of_map, ?_, ?_⟩
  · exact (List.mergeSort_perm ..).nodup_iff.2 ((List.nodup_finRange _).filter _)
  · rintro a ha b hb rfl
    exact mem_unresolved.1 hb ha

theorem mem_resubmissionOrder (h : Distinct candidates) (index : Fin candidates.length) :
    index ∈ resubmissionOrder read candidates := by
  rw [resubmissionOrder_eq h, List.mem_append, mem_unresolved]
  exact em _

/-- Every candidate is sent once. -/
theorem orderResubmittable_perm (h : Distinct candidates) :
    ((orderResubmittableTransactions read candidates).map (·.tx)).Perm candidates := by
  have hperm : (resubmissionOrder read candidates).Perm (List.finRange candidates.length) :=
    (List.perm_ext_iff_of_nodup (resubmissionOrder_nodup h) (List.nodup_finRange _)).2 fun index =>
      iff_of_true (mem_resubmissionOrder h index) (List.mem_finRange index)
  have hget : (List.finRange candidates.length).map candidates.get = candidates :=
    List.map_get_finRange candidates
  rw [orderResubmittableTransactions, List.map_map]
  exact (hperm.map _).trans (.of_eq hget)

/-- A parent that is not behind a cycle is sent before its child. -/
theorem sublist_of_spends (h : Distinct candidates) {parent child : Txid}
    (hspends : Spends read candidates parent child)
    (hfree : ¬ BehindCycle (Spends read candidates) parent) :
    [parent, child].Sublist
      ((orderResubmittableTransactions read candidates).map (·.tx.txidBytes)) := by
  have hmap : (orderResubmittableTransactions read candidates).map (·.tx.txidBytes) =
      (resubmissionOrder read candidates).map (txidAt candidates) := by
    rw [orderResubmittableTransactions, List.map_map]
    rfl
  have hlisting := @emittedOrder_leastFirst _ _ read _ h
  obtain ⟨parentIndex, rfl⟩ := mem_txids_iff.1 hspends.1
  obtain ⟨childIndex, rfl⟩ := mem_txids_iff.1
    (show child ∈ txids candidates from hspends.2.imp fun _ hmem => ⟨hmem.1, hmem.2.1⟩)
  have hparent := (mem_emittedOrder h).2 hfree
  rw [hmap, resubmissionOrder_eq h, List.map_append]
  by_cases hchild : childIndex ∈ emittedOrder read candidates
  · refine .trans ?_ (List.sublist_append_left ..)
    exact (hlisting.sublist_of_edge hspends (List.mem_map_of_mem hchild)).resolve_left
      List.not_mem_nil
  · exact (List.singleton_sublist.2 (List.mem_map_of_mem hparent)).append
      (List.singleton_sublist.2 (List.mem_map_of_mem (mem_unresolved.2 hchild)))

/-! ## The order of the input -/

/-- The recorded parents are the transactions spent from, by txid. -/
theorem parentTxids_spec (h : Distinct candidates) (index : Fin candidates.length) :
    (parentTxids read candidates index).Pairwise (· ≤ ·) ∧
      (parentTxids read candidates index).Nodup ∧
      ∀ parent, parent ∈ parentTxids read candidates index ↔
        Spends read candidates parent (txidAt candidates index) := by
  refine ⟨List.pairwise_mergeSort' _ _, ?_, fun parent => ?_⟩
  · exact (List.mergeSort_perm ..).nodup_iff.2 ((parents_nodup index).map h.txidAt_injective)
  · rw [parentTxids, List.mem_mergeSort, List.mem_map]
    constructor
    · rintro ⟨index', hmem, rfl⟩
      exact (mem_parents h).1 hmem
    · intro hspends
      obtain ⟨index', rfl⟩ := mem_txids_iff.1 hspends.1
      exact ⟨index', (mem_parents h).2 hspends, rfl⟩

theorem unresolved_spec (h : Distinct candidates) (emitted : List (Fin candidates.length)) :
    ((unresolved candidates emitted).map (txidAt candidates)).Pairwise (· ≤ ·) ∧
      ((unresolved candidates emitted).map (txidAt candidates)).Nodup ∧
      ∀ txid, txid ∈ (unresolved candidates emitted).map (txidAt candidates) ↔
        txid ∈ txids candidates ∧ txid ∉ emitted.map (txidAt candidates) := by
  refine ⟨?_, ?_, fun txid => ?_⟩
  · rw [List.pairwise_map]
    refine (List.pairwise_mergeSort (fun a b c hab hbc => ?_) (fun a b => ?_) _).imp
      of_decide_eq_true
    · exact decide_eq_true ((of_decide_eq_true hab).trans (of_decide_eq_true hbc))
    · simpa using le_total (txidAt candidates a) (txidAt candidates b)
  · exact ((List.mergeSort_perm ..).nodup_iff.2
      ((List.nodup_finRange _).filter _)).map h.txidAt_injective
  · rw [mem_txids_iff]
    constructor
    · intro hmem
      obtain ⟨index, hindex, rfl⟩ := List.mem_map.1 hmem
      exact ⟨⟨index, rfl⟩, by
        rw [List.mem_map_of_injective h.txidAt_injective]; exact mem_unresolved.1 hindex⟩
    · rintro ⟨⟨index, rfl⟩, hfresh⟩
      rw [List.mem_map_of_injective h.txidAt_injective] at hfresh ⊢
      exact mem_unresolved.2 hfresh

section Permutation

variable {candidates' : List (ResubmittableTx Txid)} (hperm : candidates.Perm candidates')

include hperm

omit [LinearOrder Txid] in
theorem txids_perm : txids candidates = txids candidates' := by
  unfold txids
  simp only [hperm.mem_iff]

omit [LinearOrder Txid] in
theorem spends_perm : Spends read candidates = Spends read candidates' := by
  unfold Spends
  simp only [hperm.mem_iff]

omit [LinearOrder Txid] in
theorem Distinct.perm (h : Distinct candidates) : Distinct candidates' :=
  (hperm.map _).nodup_iff.1 h

/-- The txids are sent in the same order. -/
theorem resubmissionOrder_txids_perm (h : Distinct candidates) :
    (resubmissionOrder read candidates).map (txidAt candidates) =
      (resubmissionOrder read candidates').map (txidAt candidates') := by
  have h' := h.perm hperm
  have hemitted : (emittedOrder read candidates).map (txidAt candidates) =
      (emittedOrder read candidates').map (txidAt candidates') := by
    have hlisting := @emittedOrder_leastFirst _ _ read _ h'
    rw [← txids_perm hperm, ← spends_perm hperm] at hlisting
    exact (emittedOrder_leastFirst h).unique hlisting
  obtain ⟨hsorted, hnodup, hmem⟩ := unresolved_spec h (emittedOrder read candidates)
  obtain ⟨hsorted', hnodup', hmem'⟩ := unresolved_spec h' (emittedOrder read candidates')
  have hunresolved := ((List.perm_ext_iff_of_nodup hnodup hnodup').2 fun txid => by
    rw [hmem, hmem', txids_perm hperm, hemitted]).eq_of_pairwise' hsorted hsorted'
  rw [resubmissionOrder_eq h, resubmissionOrder_eq h', List.map_append, List.map_append, hemitted,
    hunresolved]

/-- A pass does not depend on the order in which the candidates are found. -/
theorem orderResubmittable_congr (h : Distinct candidates) :
    orderResubmittableTransactions read candidates =
      orderResubmittableTransactions read candidates' := by
  have h' := h.perm hperm
  have htxids := @resubmissionOrder_txids_perm _ _ read _ _ hperm h
  unfold orderResubmittableTransactions
  rw [← List.forall₂_eq_eq_eq, List.forall₂_map_left_iff, List.forall₂_map_right_iff]
  rw [← List.forall₂_eq_eq_eq, List.forall₂_map_left_iff, List.forall₂_map_right_iff] at htxids
  refine htxids.imp fun index index' heq => ?_
  have htx : candidates.get index = candidates'.get index' :=
    List.inj_on_of_nodup_map h (List.get_mem ..) (hperm.mem_iff.2 (List.get_mem ..)) heq
  obtain ⟨hsorted, hnodup, hmem⟩ := @parentTxids_spec _ _ read _ h index
  obtain ⟨hsorted', hnodup', hmem'⟩ := @parentTxids_spec _ _ read _ h' index'
  have hparents := ((List.perm_ext_iff_of_nodup hnodup hnodup').2 fun txid => by
    rw [hmem, hmem', spends_perm hperm, heq]).eq_of_pairwise' hsorted hsorted'
  rw [htx, hparents]

end Permutation

/-! ## What a pass sends -/

/-- What the loop keeps: the accepted txids are those of the log, whose entries come after their
parents, and every candidate that was taken has succeeded or failed. -/
structure Pass.Sound (edge : Txid → Txid → Prop) (pass : Pass Txid) (total left : ℕ) : Prop where
  accepted : ∀ txid, txid ∈ pass.succeededTxids ↔ (txid, true) ∈ pass.submissions
  log : ParentsFirst edge pass.submissions
  attempted : pass.stats.attempted = total
  succeeded : pass.stats.succeeded = pass.submissions.countP Prod.snd
  counted : pass.stats.succeeded + pass.stats.failed + left = total

/-- A candidate was taken: it was broadcast, or a parent of it was not accepted. -/
structure Pass.Takes (pass pass' : Pass Txid) (candidate : OrderedResubmittableTx Txid) :
    Prop where
  grows : ∃ added, pass'.submissions = pass.submissions ++ added ∧
    ∀ submission ∈ added, submission.1 = candidate.tx.txidBytes
  sent : (∃ accepted, (candidate.tx.txidBytes, accepted) ∈ pass'.submissions) ∨
    ∃ parent ∈ candidate.parentTxids, (parent, true) ∉ pass'.submissions

section Steps

omit [LinearOrder Txid]

variable {edge : Txid → Txid → Prop} {pass pass' : Pass Txid} {total left : ℕ} {txid : Txid}
  {candidate : OrderedResubmittableTx Txid}

@[simp] theorem Pass.broadcast_submissions (pass : Pass Txid) (txid : Txid) (accepted : Bool) :
    (pass.broadcast txid accepted).submissions = pass.submissions ++ [(txid, accepted)] := by
  unfold Pass.broadcast
  dsimp only
  split <;> rfl

@[simp] theorem Pass.fail_submissions (pass : Pass Txid) :
    pass.fail.submissions = pass.submissions := rfl

theorem Pass.Sound.fail (h : pass.Sound edge total (left + 1)) : pass.fail.Sound edge total left :=
  ⟨h.accepted, h.log, h.attempted, h.succeeded, by
    have := h.counted
    simp only [Pass.fail]
    omega⟩

theorem Pass.Sound.broadcast_accepted (h : pass.Sound edge total (left + 1))
    (hparents : ∀ parent, edge parent txid → (parent, true) ∈ pass.submissions) :
    (pass.broadcast txid true).Sound edge total left := by
  refine ⟨fun other => ?_, h.log.append hparents, h.attempted, ?_, ?_⟩
  · simp [Pass.broadcast, h.accepted other, or_comm]
  · simp [Pass.broadcast, h.succeeded]
  · have := h.counted
    simp only [Pass.broadcast, if_true]
    omega

theorem Pass.Sound.broadcast_rejected (h : pass.Sound edge total left)
    (hparents : ∀ parent, edge parent txid → (parent, true) ∈ pass.submissions) :
    (pass.broadcast txid false).Sound edge total left where
  accepted other := by simp [Pass.broadcast, h.accepted other]
  log := h.log.append hparents
  attempted := h.attempted
  succeeded := by simp [Pass.broadcast, h.succeeded]
  counted := h.counted

theorem Pass.Sound.cancel (h : pass.Sound edge total left) :
    ({ pass with cancelled := true } : Pass Txid).Sound edge total left :=
  ⟨h.accepted, h.log, h.attempted, h.succeeded, h.counted⟩

theorem Pass.Takes.broadcast (pass : Pass Txid) (candidate : OrderedResubmittableTx Txid)
    (accepted : Bool) : pass.Takes (pass.broadcast candidate.tx.txidBytes accepted) candidate where
  grows := ⟨_, pass.broadcast_submissions _ _, by simp⟩
  sent := .inl ⟨accepted, by simp⟩

/-- A candidate is broadcast once more. -/
theorem Pass.Takes.retry (h : pass.Takes pass' candidate) (accepted : Bool) :
    pass.Takes (pass'.broadcast candidate.tx.txidBytes accepted) candidate where
  grows := by
    obtain ⟨added, hadded, hsame⟩ := h.grows
    refine ⟨added ++ [(candidate.tx.txidBytes, accepted)], by simp [hadded], ?_⟩
    simpa [or_imp, forall_and] using hsame
  sent := .inl ⟨accepted, by simp⟩

theorem Pass.Takes.fail (h : pass.Takes pass' candidate) : pass.Takes pass'.fail candidate :=
  ⟨h.grows, h.sent⟩

end Steps

section Loop

variable {edge : Txid → Txid → Prop} {answers : ℕ → Answers} {pass : Pass Txid} {total : ℕ}
  {ordered rest : List (OrderedResubmittableTx Txid)} {candidate : OrderedResubmittableTx Txid}

/-- The loop takes its first candidate, or is cancelled. -/
theorem resubmitLoop_cons (position : ℕ)
    (hcandidate : ∀ parent, parent ∈ candidate.parentTxids ↔ edge parent candidate.tx.txidBytes)
    (h : pass.Sound edge total (rest.length + 1)) :
    (∃ left, (resubmitLoop answers position (candidate :: rest) pass).Sound edge total left ∧
      (resubmitLoop answers position (candidate :: rest) pass).cancelled = true) ∨
    ∃ pass', resubmitLoop answers position (candidate :: rest) pass =
        resubmitLoop answers (position + 1) rest pass' ∧ pass'.cancelled = pass.cancelled ∧
      pass'.Sound edge total rest.length ∧ pass.Takes pass' candidate := by
  simp only [resubmitLoop]
  split
  · exact .inl ⟨_, h.cancel, rfl⟩
  split
  · rename_i hdependencies
    rw [resubmitDependenciesSucceeded, List.all_eq_true] at hdependencies
    push Not at hdependencies
    obtain ⟨parent, hparent, hmissing⟩ := hdependencies
    rw [ne_eq, List.contains_iff_mem, h.accepted] at hmissing
    exact .inr ⟨pass.fail, rfl, rfl, h.fail, ⟨[], by simp, by simp⟩,
      .inr ⟨parent, hparent, hmissing⟩⟩
  rename_i hdependencies
  have hparents (parent : Txid) (hedge : edge parent candidate.tx.txidBytes) :
      (parent, true) ∈ pass.submissions := by
    rw [not_not, resubmitDependenciesSucceeded, List.all_eq_true] at hdependencies
    rw [← h.accepted]
    exact List.contains_iff_mem.1 (hdependencies parent ((hcandidate parent).2 hedge))
  cases (answers position).first with
  | true => exact .inr ⟨_, rfl, rfl, h.broadcast_accepted hparents, .broadcast pass candidate true⟩
  | false =>
    have hrejected := h.broadcast_rejected hparents
    rw [if_neg Bool.false_ne_true]
    split
    · exact .inl ⟨_, hrejected.fail.cancel, rfl⟩
    have hparents' (parent : Txid) (hedge : edge parent candidate.tx.txidBytes) :
        (parent, true) ∈ (pass.broadcast candidate.tx.txidBytes false).submissions :=
      List.mem_append_left _ (hparents parent hedge)
    have htakes := Pass.Takes.broadcast pass candidate false
    cases (answers position).retry with
    | true =>
      exact .inr ⟨_, rfl, rfl, hrejected.broadcast_accepted hparents', htakes.retry true⟩
    | false =>
      exact .inr ⟨_, rfl, rfl, (hrejected.broadcast_rejected hparents').fail,
        (htakes.retry false).fail⟩

/-- The loop keeps what a pass keeps, and takes every candidate unless it is cancelled. -/
theorem resubmitLoop_sound (position : ℕ) (hordered : ∀ candidate ∈ ordered, ∀ parent,
      parent ∈ candidate.parentTxids ↔ edge parent candidate.tx.txidBytes)
    (h : pass.Sound edge total ordered.length) :
    ∃ left, (resubmitLoop answers position ordered pass).Sound edge total left ∧
      ((resubmitLoop answers position ordered pass).cancelled = false → left = 0) := by
  induction ordered generalizing position pass with
  | nil => exact ⟨0, h, fun _ => rfl⟩
  | cons candidate rest ih =>
    obtain ⟨hcandidate, hrest⟩ := List.forall_mem_cons.1 hordered
    rcases resubmitLoop_cons position hcandidate h with
      ⟨left, hsound, hcancelled⟩ | ⟨pass', hloop, -, hsound, -⟩
    · refine ⟨left, hsound, fun hrunning => ?_⟩
      rw [hcancelled] at hrunning
      cases hrunning
    · rw [hloop]
      exact ih (position + 1) hrest hsound

/-- A loop that is not cancelled adds broadcasts of its candidates only, and sends each of them
unless a parent was not accepted before it. -/
theorem resubmitLoop_sends (position : ℕ) (hordered : ∀ candidate ∈ ordered, ∀ parent,
      parent ∈ candidate.parentTxids ↔ edge parent candidate.tx.txidBytes)
    (h : pass.Sound edge total ordered.length)
    (hfinished : (resubmitLoop answers position ordered pass).cancelled = false) :
    (∃ added, (resubmitLoop answers position ordered pass).submissions =
        pass.submissions ++ added ∧
      ∀ submission ∈ added, submission.1 ∈ ordered.map (·.tx.txidBytes)) ∧
    ∀ before candidate after, ordered = before ++ candidate :: after →
      (∃ accepted, (candidate.tx.txidBytes, accepted) ∈
        (resubmitLoop answers position ordered pass).submissions) ∨
      ∃ parent ∈ candidate.parentTxids,
        (parent, true) ∈ (resubmitLoop answers position ordered pass).submissions →
          parent ∈ after.map (·.tx.txidBytes) := by
  induction ordered generalizing position pass with
  | nil => exact ⟨⟨[], by simp [resubmitLoop], by simp⟩, by simp⟩
  | cons first rest ih =>
    obtain ⟨hfirst, hrest⟩ := List.forall_mem_cons.1 hordered
    rcases resubmitLoop_cons position hfirst h with
      ⟨-, -, hcancelled⟩ | ⟨pass', hloop, -, hsound, htakes⟩
    · rw [hcancelled] at hfinished
      cases hfinished
    · rw [hloop] at hfinished ⊢
      obtain ⟨⟨added, hadded, hmem⟩, hsends⟩ := ih (position + 1) hrest hsound hfinished
      obtain ⟨taken, htaken, hsame⟩ := htakes.grows
      refine ⟨⟨taken ++ added, by rw [hadded, htaken, List.append_assoc], ?_⟩, ?_⟩
      · intro submission hsubmission
        rw [List.map_cons, List.mem_cons]
        exact (List.mem_append.1 hsubmission).imp (hsame submission) (hmem submission)
      · intro before candidate after heq
        cases before with
        | nil =>
          obtain ⟨rfl, rfl⟩ := List.cons.inj heq
          refine htakes.sent.imp (fun ⟨accepted, hsent⟩ => ⟨accepted, ?_⟩)
            fun ⟨parent, hparent, hmissing⟩ => ⟨parent, hparent, fun haccepted => ?_⟩
          · rw [hadded]
            exact List.mem_append_left _ hsent
          · rw [hadded] at haccepted
            exact hmem _ ((List.mem_append.1 haccepted).resolve_left hmissing)
        | cons _ before => exact hsends before candidate after (List.cons.inj heq).2

end Loop

theorem mem_orderResubmittable (h : Distinct candidates) :
    ∀ candidate ∈ orderResubmittableTransactions read candidates, ∀ parent,
      parent ∈ candidate.parentTxids ↔ Spends read candidates parent candidate.tx.txidBytes := by
  intro candidate hmem
  obtain ⟨index, -, rfl⟩ := List.mem_map.1 hmem
  exact (parentTxids_spec h index).2.2

theorem orderResubmittable_length (h : Distinct candidates) :
    (orderResubmittableTransactions read candidates).length = candidates.length := by
  rw [← (@orderResubmittable_perm _ _ read _ h).length_eq, List.length_map]

theorem orderResubmittable_nodup (h : Distinct candidates) :
    ((orderResubmittableTransactions read candidates).map (·.tx.txidBytes)).Nodup := by
  have hperm := (@orderResubmittable_perm _ _ read _ h).map ResubmittableTx.txidBytes
  rw [List.map_map] at hperm
  exact hperm.nodup_iff.2 h

/-- The start of the loop of a pass. -/
theorem sound_start (h : Distinct candidates) :
    ({ stats := { attempted := (orderResubmittableTransactions read candidates).length } } :
      Pass Txid).Sound (Spends read candidates) candidates.length
        (orderResubmittableTransactions read candidates).length :=
  ⟨fun _ => by simp, .nil, orderResubmittable_length h, rfl, by
    rw [orderResubmittable_length h]
    exact Nat.zero_add _⟩

theorem resubmitPending_sound (h : Distinct candidates) (exits : Bool) (answers : ℕ → Answers) :
    ∃ left, (resubmitPendingTransactions read exits (.ok candidates) answers).Sound
        (Spends read candidates) (if exits then 0 else candidates.length) left ∧
      ((resubmitPendingTransactions read exits (.ok candidates) answers).cancelled = false →
        left = 0) := by
  unfold resubmitPendingTransactions
  cases exits with
  | true => exact ⟨0, ⟨fun _ => by simp, .nil, rfl, rfl, rfl⟩, fun _ => rfl⟩
  | false =>
    rw [if_neg Bool.false_ne_true, if_neg Bool.false_ne_true]
    dsimp only
    have hstart := @sound_start _ _ read _ h
    split
    · rename_i hempty
      rw [hempty] at hstart
      exact ⟨0, hstart, fun _ => rfl⟩
    · exact resubmitLoop_sound 0 (mem_orderResubmittable h) hstart

/-- Of two entries, only one comes first. -/
theorem not_sublist_of_mem {α : Type} {before after : List α} {a b : α}
    (hnodup : (before ++ b :: after).Nodup) (ha : a ∈ after) :
    ¬ [a, b].Sublist (before ++ b :: after) := by
  intro hsublist
  obtain ⟨-, hrest, hdisjoint⟩ := List.nodup_append.1 hnodup
  have hb : b ∉ after := (List.nodup_cons.1 hrest).1
  obtain ⟨front, back, heq, hfront, hback⟩ := List.sublist_append_iff.1 hsublist
  cases front with
  | nil =>
    obtain rfl : [a, b] = back := heq
    cases hback with
    | cons _ h => exact hb (h.subset (by simp))
    | cons_cons _ h => exact hb ha
  | cons x front =>
    obtain ⟨rfl, -⟩ := List.cons.inj heq
    exact hdisjoint a (hfront.subset List.mem_cons_self) a (List.mem_cons_of_mem _ ha) rfl

/-- A pass that is not cancelled sends every candidate whose parents were accepted. -/
theorem resubmitPending_sends (h : Distinct candidates) {exits : Bool} {answers : ℕ → Answers}
    (hfinished :
      (resubmitPendingTransactions read exits (.ok candidates) answers).cancelled = false)
    {tx : ResubmittableTx Txid} (htx : tx ∈ candidates)
    (hparents : ∀ parent, Spends read candidates parent tx.txidBytes → (parent, true) ∈
      (resubmitPendingTransactions read exits (.ok candidates) answers).submissions) :
    ∃ accepted, (tx.txidBytes, accepted) ∈
      (resubmitPendingTransactions read exits (.ok candidates) answers).submissions := by
  obtain ⟨_, hsound, -⟩ := @resubmitPending_sound _ _ read _ h exits answers
  have hlog := hsound.log
  obtain ⟨candidate, hcandidate, rfl⟩ :=
    List.mem_map.1 ((@orderResubmittable_perm _ _ read _ h).mem_iff.2 htx)
  unfold resubmitPendingTransactions at hfinished hparents hlog ⊢
  cases exits with
  | true => cases hfinished
  | false =>
    rw [if_neg Bool.false_ne_true] at hfinished hparents hlog ⊢
    dsimp only at hfinished hparents hlog ⊢
    rw [if_neg (List.ne_nil_of_mem hcandidate)] at hfinished hparents hlog ⊢
    have hordered := @mem_orderResubmittable _ _ read _ h
    obtain ⟨before, after, hsplit⟩ := List.append_of_mem hcandidate
    refine ((resubmitLoop_sends 0 hordered (sound_start h) hfinished).2 before candidate after
      hsplit).resolve_right fun ⟨parent, hparent, hlater⟩ => ?_
    -- A parent that was accepted comes before its child, so it does not come after it.
    have hspends := (hordered candidate hcandidate parent).1 hparent
    have haccepted := hparents parent hspends
    have hnodup := @orderResubmittable_nodup _ _ read _ h
    have hsublist := sublist_of_spends h hspends (hlog.not_behindCycle haccepted)
    rw [hsplit, List.map_append, List.map_cons] at hnodup hsublist
    exact not_sublist_of_mem hnodup (hlater haccepted) hsublist

/-- The order of a pass holds every candidate once, parents that are not behind a cycle before their
children, whatever the order of the input; and a pass sends a transaction only after each of its
parents was accepted, never one on a cycle or behind one. It counts what was accepted, and unless it
is cancelled it counts every other candidate as failed and has sent each whose parents were
accepted. -/
theorem resubmission_respects_dependencies (read : Bytes → Option (Transaction Txid))
    (candidates : List (ResubmittableTx Txid)) (h : Distinct candidates) :
    ((orderResubmittableTransactions read candidates).map (·.tx)).Perm candidates ∧
    (∀ parent child, Spends read candidates parent child →
      ¬ BehindCycle (Spends read candidates) parent → [parent, child].Sublist
        ((orderResubmittableTransactions read candidates).map (·.tx.txidBytes))) ∧
    (∀ candidates', candidates.Perm candidates' →
      orderResubmittableTransactions read candidates' =
        orderResubmittableTransactions read candidates) ∧
    ∀ exits answers,
      let pass := resubmitPendingTransactions read exits (.ok candidates) answers
      ParentsFirst (Spends read candidates) pass.submissions ∧
      (∀ txid accepted, (txid, accepted) ∈ pass.submissions →
        ¬ BehindCycle (Spends read candidates) txid) ∧
      pass.stats.attempted = (if exits then 0 else candidates.length) ∧
      pass.stats.succeeded = pass.submissions.countP Prod.snd ∧
      pass.stats.succeeded + pass.stats.failed ≤ pass.stats.attempted ∧
      (pass.cancelled = false →
        pass.stats.succeeded + pass.stats.failed = pass.stats.attempted ∧
        ∀ tx ∈ candidates, (∀ parent, Spends read candidates parent tx.txidBytes →
            (parent, true) ∈ pass.submissions) →
          ∃ accepted, (tx.txidBytes, accepted) ∈ pass.submissions) := by
  refine ⟨orderResubmittable_perm h, fun _ _ => sublist_of_spends h,
    fun candidates' hperm => (orderResubmittable_congr hperm h).symm, fun exits answers => ?_⟩
  obtain ⟨left, hsound, hcomplete⟩ := @resubmitPending_sound _ _ read _ h exits answers
  have hcounted := hsound.counted
  have hattempted := hsound.attempted
  refine ⟨hsound.log, fun txid accepted hmem => hsound.log.not_behindCycle hmem, hattempted,
    hsound.succeeded, by omega, fun hrun => ⟨?_, fun tx htx => resubmitPending_sends h hrun htx⟩⟩
  rw [hcomplete hrun] at hcounted
  omega

/-- A reader of bytes that list a txid and what it spends. -/
def sampleRead : Bytes → Option (Transaction ℕ)
  | [] => none
  | txid :: prevouts => some ⟨txid.toNat, prevouts.map UInt8.toNat⟩

/-- Txid 3 spends 5, which spends nothing in the list. -/
def sampleCandidates : List (ResubmittableTx ℕ) := [⟨3, [3, 5], 0⟩, ⟨5, [5, 9], 0⟩]

theorem resubmission_respects_dependencies_sample :
    (orderResubmittableTransactions sampleRead sampleCandidates).map (·.tx.txidBytes) = [5, 3] ∧
      ((orderResubmittableTransactions sampleRead sampleCandidates).map (·.tx)).Perm
        sampleCandidates := by
  have hdistinct : Distinct sampleCandidates := by
    unfold Distinct
    decide
  exact ⟨by decide, (resubmission_respects_dependencies sampleRead sampleCandidates hdistinct).1⟩

end VizorWallet.Send
