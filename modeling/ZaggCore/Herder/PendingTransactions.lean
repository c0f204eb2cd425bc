import Mathlib
import ZaggCore.Herder.ApplyOrder

/-! # Pending transactions

`mPendingTransactions` of `herder/HerderImpl.cpp`: four generations of transactions, each by account. The
fees of an account are summed without a bound; as they are `uint32`, the `int64_t` of the source is large
enough for `2 ^ 31` transactions of one account. -/

namespace ZaggCore.Herder
set_option autoImplicit false
set_option maxHeartbeats 250000

open Foundations Transactions

variable {X Q : Type}

/-! ## The source -/

structure TxMap where
  mMaxSeq : ℤ
  mTotalFees : ℤ
  mTransactions : AList fun _ : Hash => TransactionEnvelope

abbrev AccountTxMap := AList fun _ : AccountID => TxMap

namespace TxMap

def new : TxMap where
  mMaxSeq := 0
  mTotalFees := 0
  mTransactions := ∅

def addTx (fullHash : TransactionEnvelope → Hash) (tx : TransactionEnvelope) (m : TxMap) : TxMap :=
  if fullHash tx ∈ m.mTransactions then m
  else
    { mMaxSeq := max tx.tx.seqNum m.mMaxSeq
      mTotalFees := m.mTotalFees + tx.tx.fee
      mTransactions := m.mTransactions.insert (fullHash tx) tx }

/-- The body of the loop of `recalculate`. -/
def count (m : TxMap) (pair : Sigma fun _ : Hash => TransactionEnvelope) : TxMap :=
  { m with mMaxSeq := max pair.2.tx.seqNum m.mMaxSeq, mTotalFees := m.mTotalFees + pair.2.tx.fee }

def recalculate (m : TxMap) : TxMap :=
  m.mTransactions.entries.foldl count { m with mMaxSeq := 0, mTotalFees := 0 }

end TxMap

inductive TransactionSubmitStatus where
  | TX_STATUS_PENDING
  | TX_STATUS_DUPLICATE
  | TX_STATUS_ERROR
  deriving DecidableEq, Repr

section

variable (fullHash : TransactionEnvelope → Hash)

/-- `findOrAdd` and `addTx` on what it found. -/
def addPending (tx : TransactionEnvelope) (m : AccountTxMap) : AccountTxMap :=
  m.insert tx.tx.sourceAccount (((m.lookup tx.tx.sourceAccount).getD .new).addTx fullHash tx)

/-- The loop of `recvTransaction` over the generations: `totFee` and `highSeq`. No value stands for a
duplicate. -/
def lookAround (tx : TransactionEnvelope) : List AccountTxMap → ℤ → ℤ → Option (ℤ × ℤ)
  | [], totFee, highSeq => some (totFee, highSeq)
  | map :: mPendingTransactions, totFee, highSeq =>
    match map.lookup tx.tx.sourceAccount with
    | none => lookAround tx mPendingTransactions totFee highSeq
    | some txmap =>
      if fullHash tx ∈ txmap.mTransactions then none
      else lookAround tx mPendingTransactions (totFee + txmap.mTotalFees) (max highSeq txmap.mMaxSeq)

/-- The body of the loop of `removeReceivedTxs` over the transactions. `toRecalculate` has the accounts of
the maps: one that is erased is not added again before the maps are recalculated. -/
def dropTx (s : AccountTxMap × List AccountID) (tx : TransactionEnvelope) : AccountTxMap × List AccountID :=
  match s.1.lookup tx.tx.sourceAccount with
  | none => s
  | some txs =>
    if fullHash tx ∈ txs.mTransactions then
      let rest := txs.mTransactions.erase (fullHash tx)
      if rest.entries.isEmpty then (s.1.erase tx.tx.sourceAccount, s.2)
      else (s.1.insert tx.tx.sourceAccount { txs with mTransactions := rest },
        tx.tx.sourceAccount :: s.2)
    else s

/-- The body of the loop over `toRecalculate`. -/
def recalculateAt (m : AccountTxMap) (acc : AccountID) : AccountTxMap :=
  match m.lookup acc with
  | none => m
  | some txm => m.insert acc txm.recalculate

/-- `removeReceivedTxs` in one generation. -/
def dropTxs (dropTxs : List TransactionEnvelope) (m : AccountTxMap) : AccountTxMap :=
  let (m, toRecalculate) := dropTxs.foldl (dropTx fullHash) (m, [])
  toRecalculate.foldl recalculateAt m

def removeReceivedTxs (txs : List TransactionEnvelope) (mPendingTransactions : List AccountTxMap) :
    List AccountTxMap :=
  mPendingTransactions.map (dropTxs fullHash txs)

/-- The transactions of all generations, which are rebroadcast. -/
def toBroadcast (mPendingTransactions : List AccountTxMap) : TxSetFrame where
  mPreviousLedgerHash := 0
  mTransactions := mPendingTransactions.flatMap fun l =>
    l.entries.flatMap fun pair => pair.2.mTransactions.entries.map Sigma.snd

/-- The part of `updatePendingTransactions` before the broadcast. -/
def shiftPending (applied : List TransactionEnvelope) (mPendingTransactions : List AccountTxMap) :
    List AccountTxMap :=
  ∅ :: (removeReceivedTxs fullHash applied mPendingTransactions).dropLast

end

section

variable [LinearOrder Q] (app : Application X Q)

/-- The part of `recvTransaction` on a `LedgerTxn` that is rolled back: whether the transaction is valid and
its account can pay for all. -/
def canPay (tx : TransactionEnvelope) (totFee highSeq : ℤ) : AppM X Bool :=
  rolledBack World.restore do
    if (← checkValid app tx highSeq) ≠ .txSUCCESS then
      return false
    let sourceAccount ← current (← loadAccount tx.tx.sourceAccount)
    let header ← loadHeader
    return !(AccountEntry.getAvailableBalance header sourceAccount < totFee)

def recvTransaction (tx : TransactionEnvelope) (mPendingTransactions : List AccountTxMap) :
    AppM X (TransactionSubmitStatus × List AccountTxMap) := do
  match lookAround app.fullHash tx mPendingTransactions tx.tx.fee 0 with
  | none => return (.TX_STATUS_DUPLICATE, mPendingTransactions)
  | some (totFee, highSeq) =>
    if ← canPay app tx totFee highSeq then
      return (.TX_STATUS_PENDING, mPendingTransactions.modifyHead (addPending app.fullHash tx))
    else return (.TX_STATUS_ERROR, mPendingTransactions)

/-- The generations, and the transactions that are broadcast in their order. -/
def updatePendingTransactions (sort : StdSort) (sha256 : Hash → List TransactionEnvelope → Hash)
    (applied : List TransactionEnvelope) (mPendingTransactions : List AccountTxMap) :
    List AccountTxMap × List TransactionEnvelope :=
  let shifted := shiftPending app.fullHash applied mPendingTransactions
  (shifted, (toBroadcast shifted).sortForApply app sort sha256)

/-! ## Runs -/

/-- What happens to the pending transactions: a transaction is received in some state of the ledger,
transactions are trimmed, or a ledger is closed with those that it applied. -/
inductive PendingEvent (X : Type) where
  | recvTransaction (tx : TransactionEnvelope) (w : World X)
  | removeReceivedTxs (txs : List TransactionEnvelope)
  | updatePendingTransactions (applied : List TransactionEnvelope)

/-- The four generations of a new herder. -/
def newPending : List AccountTxMap := List.replicate 4 ∅

/-- The generations after an event. A `recvTransaction` that throws leaves them. -/
def pendingStep (mPendingTransactions : List AccountTxMap) : PendingEvent X → List AccountTxMap
  | .recvTransaction tx w => ((result? (recvTransaction app tx mPendingTransactions w)).map Prod.snd).getD
      mPendingTransactions
  | .removeReceivedTxs txs => removeReceivedTxs app.fullHash txs mPendingTransactions
  | .updatePendingTransactions applied => shiftPending app.fullHash applied mPendingTransactions

/-- The event accepts the transaction. -/
def Accepts (mPendingTransactions : List AccountTxMap) (tx : TransactionEnvelope) (w : World X) : Prop :=
  (result? (recvTransaction app tx mPendingTransactions w)).map Prod.fst = some .TX_STATUS_PENDING

end

/-! ## The maps of the accounts -/

section Maps

variable {fullHash : TransactionEnvelope → Hash} {acc : AccountID} {m : AccountTxMap} {t : TxMap}
  {tx : TransactionEnvelope}

namespace TxMap

/-- The transactions that the map holds. -/
def transactions (t : TxMap) : List TransactionEnvelope := t.mTransactions.entries.map Sigma.snd

/-- The map of an account: it holds transactions of the account under their hashes, `mMaxSeq` is the
greatest of their sequence numbers, all positive, and `mTotalFees` the sum of their fees. -/
structure Sound (fullHash : TransactionEnvelope → Hash) (acc : AccountID) (t : TxMap) : Prop where
  nonempty : t.transactions ≠ []
  own : ∀ e ∈ t.mTransactions.entries, e.1 = fullHash e.2 ∧ e.2.tx.sourceAccount = acc
  positive : ∀ tx ∈ t.transactions, 0 < tx.tx.seqNum
  maxSeq : IsGreatest {n | ∃ tx ∈ t.transactions, tx.tx.seqNum = n} t.mMaxSeq
  totalFees : t.mTotalFees = (t.transactions.map fun tx => (tx.tx.fee : ℤ)).sum

theorem mTransactions_foldl_count (l : List (Sigma fun _ : Hash => TransactionEnvelope)) (t : TxMap) :
    (l.foldl count t).mTransactions = t.mTransactions := by
  induction l generalizing t with
  | nil => rfl
  | cons e l ih => exact ih (t.count e)

theorem mTotalFees_foldl_count (l : List (Sigma fun _ : Hash => TransactionEnvelope)) (t : TxMap) :
    (l.foldl count t).mTotalFees = t.mTotalFees + (l.map fun e => (e.2.tx.fee : ℤ)).sum := by
  induction l generalizing t with
  | nil => simp
  | cons e l ih =>
    rw [List.foldl_cons, ih, List.map_cons, List.sum_cons, ← add_assoc]
    rfl

/-- The loop finds the greatest of the numbers and of what it starts with. -/
theorem isGreatest_foldl_count (l : List (Sigma fun _ : Hash => TransactionEnvelope)) (t : TxMap) :
    IsGreatest {n | n = t.mMaxSeq ∨ ∃ e ∈ l, e.2.tx.seqNum = n} (l.foldl count t).mMaxSeq := by
  induction l generalizing t with
  | nil => exact ⟨.inl rfl, fun n hn => (show n = t.mMaxSeq by simpa using hn).le⟩
  | cons e l ih =>
    obtain ⟨hmem, hmax⟩ := ih (t.count e)
    have hcount : (t.count e).mMaxSeq = max e.2.tx.seqNum t.mMaxSeq := rfl
    have hstart : max e.2.tx.seqNum t.mMaxSeq ≤ (l.foldl count (t.count e)).mMaxSeq := hmax (.inl hcount.symm)
    refine ⟨?_, fun n hn => ?_⟩
    · obtain heq | ⟨e', he', heq⟩ := hmem
      · obtain hle | hle := le_total e.2.tx.seqNum t.mMaxSeq
        · exact .inl (heq.trans (hcount.trans (max_eq_right hle)))
        · exact .inr ⟨e, List.mem_cons_self, (heq.trans (hcount.trans (max_eq_left hle))).symm⟩
      · exact .inr ⟨e', List.mem_cons_of_mem _ he', heq⟩
    · obtain rfl | ⟨e', he', rfl⟩ := hn
      · exact (le_max_right _ _).trans hstart
      · obtain rfl | he' := List.mem_cons.mp he'
        · exact (le_max_left _ _).trans hstart
        · exact hmax (.inr ⟨e', he', rfl⟩)

theorem mTransactions_recalculate (t : TxMap) : t.recalculate.mTransactions = t.mTransactions :=
  mTransactions_foldl_count _ _

theorem transactions_recalculate (t : TxMap) : t.recalculate.transactions = t.transactions := by
  unfold transactions
  rw [mTransactions_recalculate]

/-- What holds transactions of the account is sound once it is recalculated. -/
theorem sound_recalculate (hnonempty : t.transactions ≠ [])
    (hown : ∀ e ∈ t.mTransactions.entries, e.1 = fullHash e.2 ∧ e.2.tx.sourceAccount = acc)
    (hpositive : ∀ tx ∈ t.transactions, 0 < tx.tx.seqNum) : t.recalculate.Sound fullHash acc := by
  obtain ⟨hmem, hmax⟩ := isGreatest_foldl_count t.mTransactions.entries { t with mMaxSeq := 0, mTotalFees := 0 }
  have htransactions := transactions_recalculate t
  constructor
  · rwa [htransactions]
  · rw [mTransactions_recalculate]
    exact hown
  · rwa [htransactions]
  · rw [htransactions]
    refine ⟨?_, fun n hn => ?_⟩
    · obtain hzero | ⟨e, he, heq⟩ := hmem
      · -- a positive number is greater than what the loop starts with
        obtain ⟨tx, htx⟩ := List.exists_mem_of_ne_nil _ hnonempty
        obtain ⟨e, he, rfl⟩ := List.mem_map.mp htx
        have hle := hmax (.inr ⟨e, he, rfl⟩)
        rw [hzero] at hle
        exact absurd (hpositive e.2 htx) (not_lt.mpr hle)
      · exact ⟨e.2, List.mem_map_of_mem he, heq⟩
    · obtain ⟨tx, htx, rfl⟩ := hn
      obtain ⟨e, he, rfl⟩ := List.mem_map.mp htx
      exact hmax (.inr ⟨e, he, rfl⟩)
  · rw [htransactions]
    refine (mTotalFees_foldl_count _ _).trans ?_
    rw [zero_add, transactions, List.map_map]
    rfl

theorem transactions_addTx (hnew : fullHash tx ∉ t.mTransactions) :
    (t.addTx fullHash tx).transactions = tx :: t.transactions := by
  unfold addTx transactions
  rw [if_neg hnew]
  dsimp only
  rw [AList.entries_insert_of_notMem hnew]
  rfl

/-- A new transaction with a higher sequence number. -/
theorem sound_addTx (hnew : fullHash tx ∉ t.mTransactions) (hsource : tx.tx.sourceAccount = acc)
    (hpositive : 0 < tx.tx.seqNum)
    (ht : t.Sound fullHash acc ∨ t = .new) : (t.addTx fullHash tx).Sound fullHash acc := by
  have htransactions := transactions_addTx hnew
  have hadd : t.addTx fullHash tx =
      ⟨max tx.tx.seqNum t.mMaxSeq, t.mTotalFees + tx.tx.fee, t.mTransactions.insert (fullHash tx) tx⟩ :=
    if_neg hnew
  have hown : ∀ e ∈ t.mTransactions.entries, e.1 = fullHash e.2 ∧ e.2.tx.sourceAccount = acc := by
    obtain ht | rfl := ht
    · exact ht.own
    · exact fun e he => absurd he List.not_mem_nil
  have hpos : ∀ tx ∈ t.transactions, 0 < tx.tx.seqNum := by
    obtain ht | rfl := ht
    · exact ht.positive
    · exact fun e he => absurd he List.not_mem_nil
  constructor
  · rw [htransactions]
    exact List.cons_ne_nil _ _
  · rw [hadd]
    dsimp only
    rw [AList.entries_insert_of_notMem hnew]
    intro e he
    obtain rfl | he := List.mem_cons.mp he
    · exact ⟨rfl, hsource⟩
    · exact hown e he
  · rw [htransactions]
    exact List.forall_mem_cons.mpr ⟨hpositive, hpos⟩
  · rw [htransactions, hadd]
    dsimp only
    obtain ht | rfl := ht
    · obtain ⟨⟨tx', htx', heq⟩, hmax⟩ := ht.maxSeq
      refine ⟨?_, fun n hn => ?_⟩
      · obtain hle | hle := le_total tx.tx.seqNum t.mMaxSeq
        · exact ⟨tx', List.mem_cons_of_mem _ htx', heq.trans (max_eq_right hle).symm⟩
        · exact ⟨tx, List.mem_cons_self, (max_eq_left hle).symm⟩
      · obtain ⟨tx'', htx'', rfl⟩ := hn
        obtain rfl | htx'' := List.mem_cons.mp htx''
        · exact le_max_left _ _
        · exact (hmax ⟨tx'', htx'', rfl⟩).trans (le_max_right _ _)
    · have hmax : max tx.tx.seqNum (new.mMaxSeq) = tx.tx.seqNum := max_eq_left hpositive.le
      rw [hmax]
      refine ⟨⟨tx, List.mem_cons_self, rfl⟩, fun n hn => ?_⟩
      obtain ⟨tx', htx', rfl⟩ := hn
      obtain rfl := List.mem_singleton.mp htx'
      exact le_rfl
  · rw [htransactions, hadd, List.map_cons, List.sum_cons]
    dsimp only
    obtain ht | rfl := ht
    · rw [ht.totalFees, add_comm]
    · exact add_comm _ _

end TxMap

end Maps

end ZaggCore.Herder
