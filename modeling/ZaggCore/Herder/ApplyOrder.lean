import Mathlib
import ZaggCore.Foundations.Rounds
import ZaggCore.Herder.HerderSCPDriver
import ZaggCore.Ledger.LedgerManagerImpl

/-! # The order of application

`TxSetFrame::sortForApply`. `std::sort` is not stable, so that the order is one only if the batches and the
full hashes leave it nothing to choose. -/

namespace ZaggCore.Herder
set_option autoImplicit false
set_option maxHeartbeats 250000

open Foundations Transactions

variable {X Q : Type}

/-! ## The source -/

def SeqSorter (tx1 tx2 : TransactionEnvelope) : Bool := tx1.tx.seqNum < tx2.tx.seqNum

/-- `ApplyTxSorter` with its set hash. -/
def ApplyTxSorter (fullHash : TransactionEnvelope → Hash) (mSetHash : Hash)
    (tx1 tx2 : TransactionEnvelope) : Bool :=
  HerderSCPDriver.lessThanXored (fullHash tx1) (fullHash tx2) mSetHash

/-- The variables of the loop that builds the batches. -/
structure TxBatches where
  txBatches : List (List TransactionEnvelope)
  accountTxCountMap : AccountID → ℕ

namespace TxBatches

def empty : TxBatches where
  txBatches := List.replicate 4 []
  accountTxCountMap := fun _ => 0

/-- "`batch[i]` contains the i-th transaction for any account with a transaction in the transaction set". -/
def push (b : TxBatches) (tx : TransactionEnvelope) : TxBatches :=
  let v := b.accountTxCountMap tx.tx.sourceAccount
  let txBatches :=
    if v ≥ b.txBatches.length then b.txBatches ++ List.replicate (v + 4 - b.txBatches.length) []
    else b.txBatches
  { txBatches := txBatches.modify v (· ++ [tx])
    accountTxCountMap := Function.update b.accountTxCountMap tx.tx.sourceAccount (v + 1) }

end TxBatches

namespace TxSetFrame

variable (app : Application X Q)

/-- The batches are sorted by the hash of the whole set, which `getContentsHash` finds from a copy. -/
def sortForApply (sort : StdSort) (sha256 : Hash → List TransactionEnvelope → Hash) (frame : TxSetFrame) :
    List TransactionEnvelope :=
  let retList := sort.sort SeqSorter frame.mTransactions
  let batches := retList.foldl TxBatches.push .empty
  batches.txBatches.flatMap fun batch =>
    sort.sort (ApplyTxSorter app.fullHash (frame.getContentsHash app sha256)) batch

end TxSetFrame

/-! ## The batches -/

namespace TxBatches

theorem getD_resized (L : List (List TransactionEnvelope)) (n k : ℕ) :
    (L ++ List.replicate n []).getD k [] = L.getD k [] := by
  rw [List.getD_eq_getElem?_getD, List.getD_eq_getElem?_getD, List.getElem?_append]
  split_ifs with h
  · rfl
  · rw [List.getElem?_eq_none (not_lt.mp h), List.getElem?_replicate]
    split_ifs <;> rfl

theorem getD_modify {L : List (List TransactionEnvelope)} {v : ℕ} (hv : v < L.length)
    (tx : TransactionEnvelope) (k : ℕ) :
    (L.modify v (· ++ [tx])).getD k [] = L.getD k [] ++ if v = k then [tx] else [] := by
  rw [List.getD_eq_getElem?_getD, List.getD_eq_getElem?_getD, List.getElem?_modify]
  by_cases hk : v = k
  · subst hk
    simp [List.getElem?_eq_getElem hv]
  · simp [hk]

theorem getD_push (b : TxBatches) (tx : TransactionEnvelope) (k : ℕ) :
    (b.push tx).txBatches.getD k [] = b.txBatches.getD k [] ++
      if b.accountTxCountMap tx.tx.sourceAccount = k then [tx] else [] := by
  unfold push
  dsimp only
  by_cases hsize : b.txBatches.length ≤ b.accountTxCountMap tx.tx.sourceAccount
  · have hfits : b.accountTxCountMap tx.tx.sourceAccount < (b.txBatches ++ List.replicate
        (b.accountTxCountMap tx.tx.sourceAccount + 4 - b.txBatches.length) []).length := by
      rw [List.length_append, List.length_replicate]
      omega
    rw [if_pos hsize, getD_modify hfits, getD_resized]
  · rw [if_neg hsize]
    exact getD_modify (not_le.mp hsize) tx k

/-- Every batch has the transactions with its number. -/
theorem getD_foldl_push (l : List TransactionEnvelope) (b : TxBatches) (k : ℕ) :
    (l.foldl push b).txBatches.getD k [] = b.txBatches.getD k [] ++
      ((numbered (·.tx.sourceAccount) b.accountTxCountMap l).filter fun p => decide (p.1 = k)).map Prod.snd := by
  induction l generalizing b with
  | nil => simp [numbered]
  | cons tx l ih =>
    have hmap : (b.push tx).accountTxCountMap = Function.update b.accountTxCountMap tx.tx.sourceAccount
        (b.accountTxCountMap tx.tx.sourceAccount + 1) := rfl
    rw [List.foldl_cons, ih, getD_push, hmap, List.append_assoc]
    conv_rhs => unfold numbered
    rw [List.filter_cons]
    by_cases hk : b.accountTxCountMap tx.tx.sourceAccount = k
    · simp [hk]
    · simp [hk]

end TxBatches

/-! ## The order -/

section Order

variable {app : Application X Q} {sort sort' : StdSort} {sha256 : Hash → List TransactionEnvelope → Hash}
  {frame frame' : TxSetFrame}

/-- The number of its account's transactions in the set that come before it. -/
def txRank (txs : List TransactionEnvelope) (tx : TransactionEnvelope) : ℕ :=
  rank (·.tx.sourceAccount) (·.tx.seqNum) txs tx

/-- No two transactions have a source account and a sequence number in common. -/
def DistinctSeqNums (txs : List TransactionEnvelope) : Prop :=
  DistinctIn (·.tx.sourceAccount) (·.tx.seqNum) txs

theorem batches_eq {txs : List TransactionEnvelope} (hdistinct : DistinctSeqNums txs) (k : ℕ) :
    ((sort.sort SeqSorter txs).foldl TxBatches.push .empty).txBatches.getD k [] =
      (sort.sort SeqSorter txs).filter fun tx => decide (txRank txs tx = k) := by
  have hperm := sort.perm SeqSorter txs
  have hweak : StrictWeak SeqSorter := strictWeak_of_key fun tx : TransactionEnvelope => tx.tx.seqNum
  have hsorted : (sort.sort SeqSorter txs).Pairwise fun tx1 tx2 => tx1.tx.seqNum ≤ tx2.tx.seqNum :=
    (sort.sorted SeqSorter txs hweak).imp fun h => by simpa [SeqSorter] using h
  have hempty : TxBatches.empty.txBatches.getD k [] = [] := TxBatches.getD_resized [] 4 k
  rw [TxBatches.getD_foldl_push, hempty, List.nil_append,
    numbered_eq _ hsorted (hdistinct.perm hperm.symm), List.filter_map, List.map_map]
  have hid : (Prod.snd ∘ fun tx : TransactionEnvelope => (TxBatches.empty.accountTxCountMap tx.tx.sourceAccount +
      rank (·.tx.sourceAccount) (·.tx.seqNum) (sort.sort SeqSorter txs) tx, tx)) = id := rfl
  rw [hid, List.map_id]
  apply List.filter_congr
  intro tx _
  show decide (0 + rank _ _ _ tx = k) = _
  rw [Nat.zero_add, rank_perm hperm]
  rfl

/-- Every transaction is in a batch. -/
theorem txRank_lt {txs : List TransactionEnvelope} (hdistinct : DistinctSeqNums txs)
    {tx : TransactionEnvelope} (htx : tx ∈ sort.sort SeqSorter txs) :
    txRank txs tx < ((sort.sort SeqSorter txs).foldl TxBatches.push .empty).txBatches.length := by
  by_contra hge
  have hbatch : ((sort.sort SeqSorter txs).foldl TxBatches.push .empty).txBatches.getD (txRank txs tx) [] =
      _ := batches_eq hdistinct (txRank txs tx)
  rw [List.getD_eq_getElem?_getD, List.getElem?_eq_none (not_lt.mp hge)] at hbatch
  have hmem : tx ∈ (sort.sort SeqSorter txs).filter fun tx' => decide (txRank txs tx' = txRank txs tx) :=
    List.mem_filter.mpr ⟨htx, decide_eq_true rfl⟩
  rw [← hbatch] at hmem
  exact List.not_mem_nil hmem

/-- A batch in the order it is applied in. -/
def sortBatch (app : Application X Q) (sort : StdSort) (sha256 : Hash → List TransactionEnvelope → Hash)
    (frame : TxSetFrame) (batch : List TransactionEnvelope) : List TransactionEnvelope :=
  sort.sort (ApplyTxSorter app.fullHash (frame.getContentsHash app sha256)) batch

/-- The order is that of the ranks, for as many batches as there are or more. -/
theorem sortForApply_eq (hdistinct : DistinctSeqNums frame.mTransactions) : ∃ K,
    (∀ tx ∈ sort.sort SeqSorter frame.mTransactions, txRank frame.mTransactions tx < K) ∧
    ∀ N, K ≤ N → frame.sortForApply app sort sha256 = (List.range N).flatMap fun k =>
      sortBatch app sort sha256 frame ((sort.sort SeqSorter frame.mTransactions).filter fun tx =>
        decide (txRank frame.mTransactions tx = k)) := by
  refine ⟨_, fun tx htx => txRank_lt hdistinct htx, fun N hN => ?_⟩
  have hnil : ∀ k, ((sort.sort SeqSorter frame.mTransactions).foldl TxBatches.push .empty).txBatches.length ≤ k →
      sortBatch app sort sha256 frame ((sort.sort SeqSorter frame.mTransactions).filter fun tx =>
        decide (txRank frame.mTransactions tx = k)) = [] := by
    intro k hk
    rw [← batches_eq hdistinct, List.getD_eq_getElem?_getD, List.getElem?_eq_none hk]
    exact List.perm_nil.mp (sort.perm _ [])
  rw [flatMap_range_eq hN hnil]
  unfold TxSetFrame.sortForApply
  dsimp only
  rw [flatMap_getD]
  apply List.flatMap_congr
  intro k _
  rw [batches_eq hdistinct]
  rfl

/-- No two transactions of the list have one hash. -/
def DistinctHashes (app : Application X Q) (txs : List TransactionEnvelope) : Prop :=
  ∀ tx ∈ txs, ∀ tx' ∈ txs, app.fullHash tx = app.fullHash tx' → tx = tx'

theorem xor_right_injective (x : Hash) : Function.Injective fun l : Hash => x ^^^ l := by
  intro l r h
  have hlt : ∀ y : Hash, x.val ^^^ y.val < 2 ^ 256 := fun y => Nat.xor_lt_two_pow x.isLt y.isLt
  have hval : (x.val ^^^ l.val) % 2 ^ 256 = (x.val ^^^ r.val) % 2 ^ 256 := congrArg Fin.val h
  rw [Nat.mod_eq_of_lt (hlt l), Nat.mod_eq_of_lt (hlt r)] at hval
  exact Fin.ext (Nat.xor_right_injective hval)

/-- The contents hash does not depend on the order of the transactions. -/
theorem getContentsHash_perm (hhash : DistinctHashes app frame.mTransactions)
    (hprevious : frame'.mPreviousLedgerHash = frame.mPreviousLedgerHash)
    (hperm : frame'.mTransactions.Perm frame.mTransactions) :
    frame'.getContentsHash app sha256 = frame.getContentsHash app sha256 := by
  have hsorted : ∀ txs : List TransactionEnvelope,
      (txs.mergeSort fun tx1 tx2 => app.fullHash tx1 ≤ app.fullHash tx2).Pairwise fun tx1 tx2 =>
        app.fullHash tx1 ≤ app.fullHash tx2 := by
    intro txs
    refine (List.pairwise_mergeSort (fun a b c hab hbc => ?_) (fun a b => ?_) txs).imp of_decide_eq_true
    · exact decide_eq_true ((of_decide_eq_true hab).trans (of_decide_eq_true hbc))
    · simpa using le_total (app.fullHash a) (app.fullHash b)
  have hmem : ∀ tx, tx ∈ (frame.sortForHash app).mTransactions → tx ∈ frame.mTransactions :=
    fun tx => (List.mergeSort_perm _ _).mem_iff.mp
  have hmem' : ∀ tx, tx ∈ (frame'.sortForHash app).mTransactions → tx ∈ frame.mTransactions :=
    fun tx htx => hperm.mem_iff.mp ((List.mergeSort_perm _ _).mem_iff.mp htx)
  have heq : (frame'.sortForHash app).mTransactions = (frame.sortForHash app).mTransactions := by
    refine List.Perm.eq_of_pairwise (fun a b ha hb hab hba => ?_) (hsorted _) (hsorted _)
      ((List.mergeSort_perm _ _).trans (hperm.trans (List.mergeSort_perm _ _).symm))
    exact hhash a (hmem' a ha) b (hmem b hb) (le_antisymm hab hba)
  unfold TxSetFrame.getContentsHash
  rw [hprevious, heq]

theorem sortBatch_perm (batch : List TransactionEnvelope) :
    (sortBatch app sort sha256 frame batch).Perm batch := sort.perm _ batch

/-- One batch in two orders comes out the same. -/
theorem sortBatch_eq (hcontents : frame'.getContentsHash app sha256 = frame.getContentsHash app sha256)
    {batch batch' : List TransactionEnvelope} (hperm : batch'.Perm batch)
    (hhash : DistinctHashes app batch') :
    sortBatch app sort' sha256 frame' batch' = sortBatch app sort sha256 frame batch := by
  unfold sortBatch
  rw [hcontents]
  exact StdSort.sort_eq hperm fun a ha b hb hab => hhash a ha b hb (xor_right_injective _ hab)

/-- **The order of application.** It is a permutation of the set with the transactions of each account in the
order of their sequence numbers, and neither the order that the set is in nor what `std::sort` does with
elements that compare equal makes a difference. -/
theorem sortForApply_order (app : Application X Q) (sha256 : Hash → List TransactionEnvelope → Hash)
    (sort : StdSort) (frame : TxSetFrame) (hdistinct : DistinctSeqNums frame.mTransactions)
    (hhash : DistinctHashes app frame.mTransactions) :
    (frame.sortForApply app sort sha256).Perm frame.mTransactions ∧
      (∀ account, ((frame.sortForApply app sort sha256).filter fun tx =>
        decide (tx.tx.sourceAccount = account)).Pairwise fun tx1 tx2 => tx1.tx.seqNum < tx2.tx.seqNum) ∧
      ∀ (sort' : StdSort) (frame' : TxSetFrame), frame'.mPreviousLedgerHash = frame.mPreviousLedgerHash →
        frame'.mTransactions.Perm frame.mTransactions →
        frame'.sortForApply app sort' sha256 = frame.sortForApply app sort sha256 := by
  obtain ⟨K, hK, horder⟩ : ∃ K, _ ∧ ∀ N, K ≤ N → frame.sortForApply app sort sha256 = _ :=
    sortForApply_eq hdistinct
  have hperm := sort.perm SeqSorter frame.mTransactions
  refine ⟨?_, fun account => ?_, fun sort' frame' hprevious hperm' => ?_⟩
  · rw [horder K le_rfl]
    exact (rounds_perm (fun _ => sortBatch_perm _) hK).trans hperm
  · rw [List.pairwise_filter, horder K le_rfl]
    refine rounds_pairwise (fun _ => sortBatch_perm _) (hperm.nodup_iff.mpr hdistinct.nodup)
      (fun a ha b hb hne hrank hsource hsource' => ?_) (fun a ha b hb hrank hsource hsource' => ?_) K
    · have hkey := (of_decide_eq_true hsource).trans (of_decide_eq_true hsource').symm
      obtain hlt | heq | hgt := hdistinct.compare_rank (hperm.mem_iff.mp ha) (hperm.mem_iff.mp hb) hkey
      · exact hlt.1
      · exact absurd heq hne
      · exact absurd hrank hgt.2.ne'
    · have hkey := (of_decide_eq_true hsource).trans (of_decide_eq_true hsource').symm
      obtain hlt | heq | hgt := hdistinct.compare_rank (hperm.mem_iff.mp ha) (hperm.mem_iff.mp hb) hkey
      · exact hlt.1
      · rw [heq] at hrank
        exact absurd hrank (lt_irrefl _)
      · exact absurd hrank hgt.2.not_gt
  · have hdistinct' : DistinctSeqNums frame'.mTransactions := hdistinct.perm hperm'.symm
    obtain ⟨K', -, horder'⟩ : ∃ K, _ ∧ ∀ N, K ≤ N → frame'.sortForApply app sort' sha256 = _ :=
      sortForApply_eq hdistinct'
    have hrank : txRank frame'.mTransactions = txRank frame.mTransactions := by
      funext tx
      exact rank_perm hperm' tx
    have hsort := (sort'.perm SeqSorter frame'.mTransactions).trans (hperm'.trans hperm.symm)
    rw [horder' (max K K') (le_max_right _ _), horder (max K K') (le_max_left _ _), hrank]
    apply List.flatMap_congr
    intro k _
    refine sortBatch_eq (getContentsHash_perm hhash hprevious hperm') (hsort.filter _) ?_
    intro a ha b hb
    have hmem : ∀ tx, tx ∈ sort'.sort SeqSorter frame'.mTransactions → tx ∈ frame.mTransactions :=
      fun tx htx => hperm.mem_iff.mp (hsort.mem_iff.mp htx)
    exact hhash a (hmem a (List.mem_of_mem_filter ha)) b (hmem b (List.mem_of_mem_filter hb))

end Order

/-- An envelope without operations. -/
def bareEnvelope (sourceAccount : AccountID) (seqNum : ℤ) : TransactionEnvelope where
  tx := { sourceAccount := sourceAccount, fee := 100, seqNum := seqNum, timeBounds := none, operations := [] }
  signatures := []

/-- An application that hashes such envelopes to different hashes. -/
def numbering : Application Unit ℕ :=
  { standalone with
    fullHash := fun env => Fin.ofNat (2 ^ 256) (env.tx.sourceAccount.val * 100 + env.tx.seqNum.toNat) }

theorem sortForApply_order_three :
    ((⟨0, [bareEnvelope 2 5, bareEnvelope 1 4, bareEnvelope 1 3]⟩ : TxSetFrame).sortForApply numbering .merge
        fun _ _ => 6).Perm [bareEnvelope 2 5, bareEnvelope 1 4, bareEnvelope 1 3] ∧
      (⟨0, [bareEnvelope 1 3, bareEnvelope 2 5, bareEnvelope 1 4]⟩ : TxSetFrame).sortForApply numbering .merge
          (fun _ _ => 6) =
        (⟨0, [bareEnvelope 2 5, bareEnvelope 1 4, bareEnvelope 1 3]⟩ : TxSetFrame).sortForApply numbering
          .merge fun _ _ => 6 := by
  have hdistinct : DistinctSeqNums [bareEnvelope 2 5, bareEnvelope 1 4, bareEnvelope 1 3] := by
    unfold DistinctSeqNums DistinctIn
    decide +kernel
  have hhash : DistinctHashes numbering [bareEnvelope 2 5, bareEnvelope 1 4, bareEnvelope 1 3] := by
    unfold DistinctHashes
    decide +kernel
  obtain ⟨hperm, -, hsame⟩ := sortForApply_order numbering (fun _ _ => 6) .merge
    ⟨0, [bareEnvelope 2 5, bareEnvelope 1 4, bareEnvelope 1 3]⟩ hdistinct hhash
  exact ⟨hperm, hsame .merge ⟨0, [bareEnvelope 1 3, bareEnvelope 2 5, bareEnvelope 1 4]⟩ rfl (by decide +kernel)⟩

end ZaggCore.Herder
