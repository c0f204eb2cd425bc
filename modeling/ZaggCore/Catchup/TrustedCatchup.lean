import ZaggCore.Catchup.VerifiedChain
import ZaggCore.Catchup.ApplyLedgerChain
import ZaggCore.Catchup.CatchupRange

/-! # Verified, then applied

The two works over the same files. What `ApplyLedgerChainWork` closes it closes from verified headers, each
an ancestor of the trusted one; the one way to end elsewhere than on the trusted ledger is to close the
last ledger with another hash and to be tried again. -/

namespace ZaggCore.Catchup
open Foundations Foundations.Checked History Ledger
set_option autoImplicit false
set_option maxHeartbeats 250000

/-! ## One round -/

namespace ApplyLedgerChainWork

variable {freq : ℕ} {Db Tx : Type} {w : ApplyLedgerChainWork freq Db Tx} {s s' : ApplyState Db Tx}
  {r : Except String Bool}

/-- A header that needs no closing. -/
def Behind (e : LedgerHeaderHistoryEntry) (lcl : LedgerHeaderHistoryEntry) : Prop :=
  nextSeq e.header.ledgerSeq < lcl.header.ledgerSeq ∨
    nextSeq e.header.ledgerSeq = lcl.header.ledgerSeq ∧ e.hash = lcl.header.previousLedgerHash ∨
    e.header.ledgerSeq = lcl.header.ledgerSeq ∧ e.hash = lcl.hash

/-- A header that a ledger is closed from, with the transaction set `txset`. -/
structure Closes (w : ApplyLedgerChainWork freq Db Tx) (s : ApplyState Db Tx) (e : LedgerHeaderHistoryEntry)
    (txset : TransactionSet Tx) (lcl : LastClosed Db) : Prop where
  next : e.header.ledgerSeq = nextSeq s.lcl.entry.header.ledgerSeq
  notBehind : s.lcl.entry.header.ledgerSeq < nextSeq e.header.ledgerSeq
  linked : e.header.previousLedgerHash = s.lcl.entry.hash
  txSet : ∃ s', getCurrentTxSet s = .ok (txset, s')
  txSetHash : e.header.scpValue.txSetHash = w.chain.contentsHash txset
  close : closeLedger w.chain s.lcl ⟨e.header.ledgerSeq, txset, e.header.scpValue⟩ = .ok lcl

/-- Everything `applyHistoryOfSingleLedger` can do. -/
inductive Round (w : ApplyLedgerChainWork freq Db Tx) (s : ApplyState Db Tx) :
    ApplyState Db Tx → Except String Bool → Prop where
  | finished : s.mHdrIn.rest = [] → Round w s s (.ok false)
  | failed {s' : ApplyState Db Tx} (what : String) : s'.lcl = s.lcl → s'.closed = s.closed → Round w s s' (.error what)
  | passed {e : LedgerHeaderHistoryEntry} {rest : List LedgerHeaderHistoryEntry} :
      s.mHdrIn.rest = e :: rest → Behind e s.lcl.entry →
      Round w s { s with mHdrIn := ⟨rest, s.mHdrIn.malformed⟩ } (.ok true)
  | closed {e : LedgerHeaderHistoryEntry} {rest : List LedgerHeaderHistoryEntry} {txset : TransactionSet Tx}
      {lcl : LastClosed Db} {s' : ApplyState Db Tx} : s.mHdrIn.rest = e :: rest → w.Closes s e txset lcl →
      s'.mCurrSeq = s.mCurrSeq → s'.mHdrIn = ⟨rest, s.mHdrIn.malformed⟩ → s'.lcl = lcl →
      s'.closed = s.closed ++ [⟨e.header.ledgerSeq, txset, e.header.scpValue⟩] →
      lcl.entry.hash = e.hash → Round w s s' (.ok true)
  | astray {e : LedgerHeaderHistoryEntry} {rest : List LedgerHeaderHistoryEntry} {txset : TransactionSet Tx}
      {lcl : LastClosed Db} {s' : ApplyState Db Tx} : s.mHdrIn.rest = e :: rest → w.Closes s e txset lcl →
      s'.lcl = lcl → s'.closed = s.closed ++ [⟨e.header.ledgerSeq, txset, e.header.scpValue⟩] →
      lcl.entry.hash ≠ e.hash → Round w s s' (.error "replay produced mismatched ledger hash")

theorem getCurrentTxSet_frame {txset : TransactionSet Tx} (h : getCurrentTxSet s = .ok (txset, s')) :
    s'.lcl = s.lcl ∧ s'.closed = s.closed ∧ s'.mCurrSeq = s.mCurrSeq ∧ s'.mHdrIn = s.mHdrIn := by
  unfold getCurrentTxSet at h
  simp only [bind, Except.bind, pure, Except.pure] at h
  split at h
  · cases h
  · split at h
    · cases h
      exact ⟨rfl, rfl, rfl, rfl⟩
    · cases h
      exact ⟨rfl, rfl, rfl, rfl⟩

/-- The transaction set does not depend on what is left of the headers. -/
theorem getCurrentTxSet_headers {txset : TransactionSet Tx} (hdrIn : Stream LedgerHeaderHistoryEntry) :
    (∃ s', getCurrentTxSet { s with mHdrIn := hdrIn } = .ok (txset, s')) ↔
      ∃ s', getCurrentTxSet s = .ok (txset, s') := by
  unfold getCurrentTxSet
  simp only [bind, Except.bind, pure, Except.pure]
  constructor
  · intro h
    obtain ⟨s', h⟩ := h
    split at h
    · cases h
    · split at h
      · cases h
        exact ⟨_, rfl⟩
      · cases h
        exact ⟨_, rfl⟩
  · intro h
    obtain ⟨s', h⟩ := h
    split at h
    · cases h
    · split at h
      · cases h
        exact ⟨_, rfl⟩
      · cases h
        exact ⟨_, rfl⟩

theorem applyNextLedger_round {e : LedgerHeaderHistoryEntry} {rest : List LedgerHeaderHistoryEntry}
    (hrest : s.mHdrIn.rest = e :: rest) (hle : s.lcl.entry.header.ledgerSeq < nextSeq e.header.ledgerSeq)
    (h : w.applyNextLedger { s with mHdrIn := ⟨rest, s.mHdrIn.malformed⟩ } e = (s', r)) : Round w s s' r := by
  unfold applyNextLedger at h
  split at h
  · cases h
    exact .failed _ rfl rfl
  · next hnext =>
    split at h
    · cases h
      exact .failed _ rfl rfl
    · next hlinked =>
      split at h
      · cases h
        exact .failed _ rfl rfl
      · next txset s₁ htxset =>
        obtain ⟨hlcl, hclosed, hcurr, hhdr⟩ := getCurrentTxSet_frame htxset
        split at h
        · cases h
          exact .failed _ hlcl hclosed
        · next hhash =>
          simp only at h
          split at h
          · cases h
            exact .failed _ hlcl hclosed
          · next lcl hclose =>
            rw [hlcl] at hclose
            have hcloses : w.Closes s e txset lcl :=
              ⟨not_not.mp hnext, hle, not_not.mp hlinked,
                (getCurrentTxSet_headers ⟨rest, s.mHdrIn.malformed⟩).mp ⟨s₁, htxset⟩, not_not.mp hhash, hclose⟩
            split at h
            · next hastray =>
              cases h
              exact .astray hrest hcloses rfl (by rw [hclosed]) hastray
            · next hequal =>
              cases h
              exact .closed hrest hcloses hcurr hhdr rfl (by rw [hclosed]) (not_not.mp hequal)

theorem apply_round (h : w.applyHistoryOfSingleLedger s = (s', r)) : Round w s s' r := by
  unfold applyHistoryOfSingleLedger at h
  split at h
  · next hrest =>
    cases h
    split
    · exact .failed _ rfl rfl
    · exact .finished hrest
  · next e rest hrest =>
    simp only at h
    split at h
    · next hlt =>
      cases h
      exact .passed hrest (.inl hlt)
    · next hnlt =>
      split at h
      · next hprev =>
        split at h
        · cases h
          exact .failed _ rfl rfl
        · next hhash =>
          cases h
          exact .passed hrest (.inr (.inl ⟨hprev, not_not.mp hhash⟩))
      · next hnprev =>
        split at h
        · next heq =>
          split at h
          · cases h
            exact .failed _ rfl rfl
          · next hhash =>
            cases h
            exact .passed hrest (.inr (.inr ⟨heq, not_not.mp hhash⟩))
        · exact applyNextLedger_round hrest (by omega) h

/-- A header behind the last closed ledger is passed. -/
theorem apply_passed {e : LedgerHeaderHistoryEntry} {rest : List LedgerHeaderHistoryEntry}
    (hrest : s.mHdrIn.rest = e :: rest)
    (h : nextSeq e.header.ledgerSeq < s.lcl.entry.header.ledgerSeq ∨
      nextSeq e.header.ledgerSeq = s.lcl.entry.header.ledgerSeq ∧
        e.hash = s.lcl.entry.header.previousLedgerHash) :
    w.applyHistoryOfSingleLedger s = ({ s with mHdrIn := ⟨rest, s.mHdrIn.malformed⟩ }, .ok true) := by
  unfold applyHistoryOfSingleLedger
  rw [hrest]
  simp only
  rcases h with h | ⟨h, hhash⟩
  · rw [if_pos h]
  · rw [if_neg (by omega), if_pos h, if_neg (not_not.mpr hhash)]

/-- A ledger that is closed with another hash than its header's. -/
theorem apply_astray {e : LedgerHeaderHistoryEntry} {rest : List LedgerHeaderHistoryEntry}
    {txset : TransactionSet Tx} {lcl : LastClosed Db} (hrest : s.mHdrIn.rest = e :: rest)
    (h : w.Closes s e txset lcl) (hhash : lcl.entry.hash ≠ e.hash) :
    ∃ s', w.applyHistoryOfSingleLedger s = (s', .error "replay produced mismatched ledger hash") ∧
      s'.lcl = lcl := by
  have hlt := h.notBehind
  have hne : e.header.ledgerSeq ≠ s.lcl.entry.header.ledgerSeq := by
    rw [h.next]
    unfold nextSeq
    omega
  obtain ⟨s₁, htxset⟩ := (getCurrentTxSet_headers ⟨rest, s.mHdrIn.malformed⟩).mpr h.txSet
  obtain ⟨hlcl, -, -, -⟩ := getCurrentTxSet_frame htxset
  have hclose := h.close
  simp only at hlcl
  rw [← hlcl] at hclose
  unfold applyHistoryOfSingleLedger
  rw [hrest]
  simp only
  rw [if_neg (by omega), if_neg (by omega), if_neg hne]
  unfold applyNextLedger
  simp only
  rw [if_neg (not_not.mpr h.next), if_neg (not_not.mpr h.linked), htxset]
  simp only
  rw [if_neg (not_not.mpr h.txSetHash), hclose]
  simp only
  rw [if_pos hhash]
  exact ⟨_, rfl, rfl⟩

/-! ## One step -/

def afterSuccess (w : ApplyLedgerChainWork freq Db Tx) (item : Work.Item (ApplyState Db Tx))
    (s : ApplyState Db Tx) : Work.Item (ApplyState Db Tx) :=
  ⟨if s.lcl.entry.header.ledgerSeq = w.mRange.last then .WORK_SUCCESS else .WORK_RUNNING, item.mRetries, s⟩

def afterFailure (w : ApplyLedgerChainWork freq Db Tx) (item : Work.Item (ApplyState Db Tx))
    (s : ApplyState Db Tx) : Work.Item (ApplyState Db Tx) :=
  if item.mRetries ≥ Work.RETRY_A_FEW then ⟨.WORK_FAILURE_RAISE, item.mRetries, s⟩
  else ⟨.WORK_PENDING, item.mRetries + 1, w.onReset s⟩

/-- What `onRun` finds: an item that starts has opened its first files. -/
def Opens (w : ApplyLedgerChainWork freq Db Tx) (item : Work.Item (ApplyState Db Tx)) (s : ApplyState Db Tx) :
    Prop :=
  item.mState = .WORK_PENDING ∧ w.openCurrentInputFiles item.data = .ok s ∨
    item.mState ≠ .WORK_PENDING ∧ item.data = s

/-- Everything a step can do. -/
inductive Steps (w : ApplyLedgerChainWork freq Db Tx) (item : Work.Item (ApplyState Db Tx)) :
    Work.Item (ApplyState Db Tx) → Prop where
  | applied {s s' : ApplyState Db Tx} : w.Opens item s → w.applyHistoryOfSingleLedger s = (s', .ok true) →
      Steps w item (w.afterSuccess item s')
  | opened {s s' s'' : ApplyState Db Tx} : w.Opens item s →
      w.applyHistoryOfSingleLedger s = (s', .ok false) →
      w.openCurrentInputFiles { s' with mCurrSeq := nextCheckpoint freq s'.mCurrSeq } = .ok s'' →
      Steps w item (w.afterSuccess item s'')
  | unopened {s s' : ApplyState Db Tx} {what : String} : w.Opens item s →
      w.applyHistoryOfSingleLedger s = (s', .ok false) →
      w.openCurrentInputFiles { s' with mCurrSeq := nextCheckpoint freq s'.mCurrSeq } = .error what →
      Steps w item (w.afterFailure item { s' with mCurrSeq := nextCheckpoint freq s'.mCurrSeq })
  | failed {s s' : ApplyState Db Tx} {what : String} : w.Opens item s →
      w.applyHistoryOfSingleLedger s = (s', .error what) → Steps w item (w.afterFailure item s')

variable {item item' : Work.Item (ApplyState Db Tx)} {result : Work.CompleteResult}

theorem work_run (hopens : w.Opens item s) (hrun : w.onRun s = .ok (result, s')) :
    Work.run w.work item = .ok (result, ⟨.WORK_RUNNING, item.mRetries, s'⟩) := by
  refine Work.run_ok ?_ ?_ hrun
  · intro hpending
    rcases hopens with ⟨-, hopen⟩ | ⟨hne, -⟩
    · change w.onStart item.data = .ok s
      unfold onStart
      rw [hopen]
    · exact absurd hpending hne
  · intro hne
    rcases hopens with ⟨hpending, -⟩ | ⟨-, heq⟩
    · exact absurd hpending hne
    · exact heq

theorem step_ok (hopens : w.Opens item s) (hrun : w.onRun s = .ok (.WORK_COMPLETE_OK, s')) :
    Work.step w.work item = .ok (w.afterSuccess item s') := by
  have hwork := work_run hopens hrun
  unfold afterSuccess
  by_cases hlast : s'.lcl.entry.header.ledgerSeq = w.mRange.last
  · have hsuccess : w.work.onSuccess s' = .ok (.WORK_SUCCESS, s') := if_pos hlast
    rw [Work.step_success hwork hsuccess nofun, if_pos hlast]
  · have hsuccess : w.work.onSuccess s' = .ok (.WORK_RUNNING, s') := if_neg hlast
    rw [Work.step_success hwork hsuccess nofun, if_neg hlast]

theorem step_failure (hopens : w.Opens item s) (hrun : w.onRun s = .ok (.WORK_COMPLETE_FAILURE, s')) :
    Work.step w.work item = .ok (w.afterFailure item s') := by
  rw [Work.step_failure (work_run hopens hrun)]
  rfl

theorem steps_step (h : Steps w item item') : Work.step w.work item = .ok item' := by
  cases h with
  | applied hopens happly =>
    refine step_ok hopens ?_
    unfold onRun
    rw [happly]
  | opened hopens happly hopen =>
    refine step_ok hopens ?_
    unfold onRun
    rw [happly]
    simp only
    rw [hopen]
  | unopened hopens happly hopen =>
    refine step_failure hopens ?_
    unfold onRun
    rw [happly]
    simp only
    rw [hopen]
  | failed hopens happly =>
    refine step_failure hopens ?_
    unfold onRun
    rw [happly]

theorem step_steps (h : Work.step w.work item = .ok item') : Steps w item item' := by
  have hopens : ∃ s, w.Opens item s := by
    by_cases hpending : item.mState = .WORK_PENDING
    · cases hopen : w.openCurrentInputFiles item.data with
      | ok s => exact ⟨s, .inl ⟨hpending, hopen⟩⟩
      | error what =>
        have hstart : w.work.onStart item.data = raise what := by
          change w.onStart item.data = _
          unfold onStart
          rw [hopen]
        rw [Work.run_start_error hpending hstart] at h
        cases h
    · exact ⟨item.data, .inr ⟨hpending, rfl⟩⟩
  obtain ⟨s, hopens⟩ := hopens
  have hsteps : ∃ item'', Steps w item item'' := by
    cases happly : w.applyHistoryOfSingleLedger s with
    | mk s' r =>
      cases r with
      | error what => exact ⟨_, .failed hopens happly⟩
      | ok applied =>
        cases applied with
        | true => exact ⟨_, .applied hopens happly⟩
        | false =>
          cases hopen : w.openCurrentInputFiles { s' with mCurrSeq := nextCheckpoint freq s'.mCurrSeq } with
          | ok s'' => exact ⟨_, .opened hopens happly hopen⟩
          | error what => exact ⟨_, .unopened hopens happly hopen⟩
  obtain ⟨item'', hsteps⟩ := hsteps
  have heq : item'' = item' := Except.ok.inj ((steps_step hsteps).symm.trans h)
  rw [← heq]
  exact hsteps

theorem opens_kept (h : w.Opens item s) : s.lcl = item.data.lcl ∧ s.closed = item.data.closed := by
  rcases h with ⟨-, h⟩ | ⟨-, rfl⟩
  · unfold openCurrentInputFiles at h
    split at h
    · cases h
      exact ⟨rfl, rfl⟩
    · cases h
  · exact ⟨rfl, rfl⟩

theorem onReset_kept : (w.onReset s).lcl = s.lcl ∧ (w.onReset s).closed = s.closed := by
  unfold onReset
  dsimp only
  constructor
  · with_reducible rfl
  · with_reducible rfl

theorem afterFailure_kept :
    (w.afterFailure item s).data.lcl = s.lcl ∧ (w.afterFailure item s).data.closed = s.closed := by
  unfold afterFailure
  by_cases hretries : item.mRetries ≥ Work.RETRY_A_FEW
  · rw [if_pos hretries]
    exact ⟨rfl, rfl⟩
  · rw [if_neg hretries]
    exact onReset_kept

theorem afterFailure_retry (h : ¬Work.isDone (w.afterFailure item s).mState) :
    item.mRetries < Work.RETRY_A_FEW ∧
      w.afterFailure item s = ⟨.WORK_PENDING, item.mRetries + 1, w.onReset s⟩ := by
  unfold afterFailure at h ⊢
  by_cases hretries : item.mRetries ≥ Work.RETRY_A_FEW
  · rw [if_pos hretries] at h
    exact absurd rfl h
  · rw [if_neg hretries]
    exact ⟨not_le.mp hretries, rfl⟩

theorem afterFailure_ne_success : (w.afterFailure item s).mState ≠ .WORK_SUCCESS := by
  unfold afterFailure
  by_cases hretries : item.mRetries ≥ Work.RETRY_A_FEW
  · rw [if_pos hretries]
    nofun
  · rw [if_neg hretries]
    nofun

theorem afterSuccess_running (h : ¬Work.isDone (w.afterSuccess item s).mState) :
    (w.afterSuccess item s).mState = .WORK_RUNNING ∧ s.lcl.entry.header.ledgerSeq ≠ w.mRange.last := by
  unfold afterSuccess at h ⊢
  by_cases hlast : s.lcl.entry.header.ledgerSeq = w.mRange.last
  · rw [if_pos hlast] at h
    exact absurd rfl h
  · rw [if_neg hlast]
    exact ⟨rfl, hlast⟩

theorem afterSuccess_last (h : (w.afterSuccess item s).mState = .WORK_SUCCESS) :
    s.lcl.entry.header.ledgerSeq = w.mRange.last := by
  unfold afterSuccess at h
  by_contra hne
  rw [if_neg hne] at h
  cases h

theorem afterSuccess_state : (w.afterSuccess item s).mState ≠ .WORK_PENDING := by
  unfold afterSuccess
  by_cases hlast : s.lcl.entry.header.ledgerSeq = w.mRange.last
  · rw [if_pos hlast]
    nofun
  · rw [if_neg hlast]
    nofun

/-- A round leaves the last closed ledger, or closes one. -/
theorem round_closed (h : Round w s s' r) : s'.lcl = s.lcl ∧ s'.closed = s.closed ∨
    ∃ e rest txset, s.mHdrIn.rest = e :: rest ∧ w.Closes s e txset s'.lcl ∧
      s'.closed = s.closed ++ [⟨e.header.ledgerSeq, txset, e.header.scpValue⟩] := by
  cases h with
  | finished => exact .inl ⟨rfl, rfl⟩
  | failed _ hlcl hclosed => exact .inl ⟨hlcl, hclosed⟩
  | passed => exact .inl ⟨rfl, rfl⟩
  | closed hrest hcloses _ _ hlcl hclosed _ =>
    subst hlcl
    exact .inr ⟨_, _, _, hrest, hcloses, hclosed⟩
  | astray hrest hcloses hlcl hclosed _ =>
    subst hlcl
    exact .inr ⟨_, _, _, hrest, hcloses, hclosed⟩

theorem openCurrentInputFiles_ok (h : w.openCurrentInputFiles s = .ok s') :
    ∃ headers txs, w.headerFiles s.mCurrSeq = some headers ∧ w.txFiles s.mCurrSeq = some txs ∧
      s'.mCurrSeq = s.mCurrSeq ∧ s'.mHdrIn = ⟨headers.entries, headers.malformed⟩ ∧ s'.lcl = s.lcl ∧
      s'.closed = s.closed := by
  unfold openCurrentInputFiles at h
  split at h
  · next headers txs hheaders htxs =>
    cases h
    exact ⟨headers, txs, hheaders, htxs, rfl, rfl, rfl, rfl⟩
  · cases h

/-- A step is a round, as far as the ledgers go. -/
theorem steps_round (h : Steps w item item') : ∃ s s' r, w.Opens item s ∧ Round w s s' r ∧
    item'.data.lcl = s'.lcl ∧ item'.data.closed = s'.closed := by
  cases h with
  | applied hopens happly => exact ⟨_, _, _, hopens, apply_round happly, rfl, rfl⟩
  | opened hopens happly hopen =>
    obtain ⟨-, -, -, -, -, -, hlcl, hclosed⟩ := openCurrentInputFiles_ok hopen
    simp only at hlcl hclosed
    exact ⟨_, _, _, hopens, apply_round happly, hlcl, hclosed⟩
  | unopened hopens happly _ =>
    refine ⟨_, _, _, hopens, apply_round happly, ?_, ?_⟩
    · rw [afterFailure_kept.1]
    · rw [afterFailure_kept.2]
  | failed hopens happly =>
    exact ⟨_, _, _, hopens, apply_round happly, afterFailure_kept.1, afterFailure_kept.2⟩

end ApplyLedgerChainWork

/-! ## Ancestors -/

/-- The headers the trusted hash stands for, by `previousLedgerHash`. -/
inductive Ancestor (headerHash : ChainHeader → Hash) (trusted : Hash) : ChainHeader → Prop where
  | itself {header : ChainHeader} : headerHash header = trusted → Ancestor headerHash trusted header
  | before {header next : ChainHeader} : next.previousLedgerHash = headerHash header →
      Ancestor headerHash trusted next → Ancestor headerHash trusted header

theorem ancestor_of_chain {headerHash : ChainHeader → Hash} {trusted : Hash}
    {l : List LedgerHeaderHistoryEntry} (hchain : l.IsChain Linked)
    (hhash : ∀ e ∈ l, headerHash e.header = e.hash)
    (hlast : Ancestor headerHash trusted (l.getLastD emptyEntry).header) :
    ∀ e ∈ l, Ancestor headerHash trusted e.header := by
  induction l with
  | nil =>
    intro e he
    cases he
  | cons a rest ih =>
    cases rest with
    | nil =>
      intro e he
      rw [List.mem_singleton.mp he]
      exact hlast
    | cons b tail =>
      obtain ⟨hlinked, hrest⟩ := List.isChain_cons_cons.mp hchain
      rw [List.getLastD_cons, List.getLastD_cons] at hlast
      have htail := ih hrest (fun e he => hhash e (List.mem_cons_of_mem _ he)) (by
        rw [List.getLastD_cons]
        exact hlast)
      intro e he
      rcases List.mem_cons.mp he with rfl | he
      · refine .before ?_ (htail b List.mem_cons_self)
        rw [hlinked.2, hhash e List.mem_cons_self]
      · exact htail e he

namespace VerifyLedgerChainWork

variable {freq : ℕ} {w : VerifyLedgerChainWork freq} {trusted : Hash}

/-- Every header of a verified file is an ancestor of the trusted one. -/
theorem ancestor_of_verified (hf : Frequency freq) (hv : ∀ c, w.InRange c → w.Verified c)
    (htrusted : w.mTrustedHash = some trusted) {c : ℕ} (hc : w.InRange c) :
    ∀ e ∈ w.headers c, Ancestor w.headerHash trusted e.header := by
  induction hd : w.lastCheckpoint - c using Nat.strong_induction_on generalizing c with
  | _ d ih =>
    have hnil := headers_ne_nil (inRange_pos hf hc) (hv c hc).ends
    have hlast := (hv c hc).passes.1 _ (lastHeader_mem hnil)
    refine ancestor_of_chain (hv c hc).passes.2 (fun e he => ((hv c hc).passes.1 e he).hash) ?_
    change Ancestor w.headerHash trusted (w.lastHeader c).header
    by_cases hend : (w.lastHeader c).header.ledgerSeq = w.mRange.last
    · refine .itself ?_
      rw [hlast.hash]
      exact (hv c hc).trusted hend trusted htrusted
    · have hfull := (hv c hc).ends.resolve_left hend
      have hne : c ≠ w.mRange.last := fun heq => hend (hfull.trans heq)
      obtain ⟨htop, -⟩ := ((hv c hc).fits (hv c hc).passes).2 hfull hne
      have hc' := inRange_above hf hc htop
      have hle := hc'.2.2
      have hpos : 0 < freq := by
        rcases hf with rfl | rfl
        · omega
        · omega
      have hnil' := headers_ne_nil (inRange_pos hf hc') (hv _ hc').ends
      refine .before ?_ (ih (w.lastCheckpoint - (c + freq)) (by omega) hc' rfl _ (firstHeader_mem hnil'))
      rw [hlast.hash]
      exact ((hv c hc).above hend).symm

end VerifyLedgerChainWork

/-! ## A catchup -/

/-- A catchup without buckets to a trusted ledger, from a last closed ledger. -/
structure TrustedCatchup (freq : ℕ) (Db Tx : Type) where
  apply : ApplyLedgerChainWork freq Db Tx
  start : LastClosed Db
  trusted : Hash
  start_lt : start.entry.header.ledgerSeq < 2 ^ 32

namespace TrustedCatchup

open ApplyLedgerChainWork

variable {freq : ℕ} {Db Tx : Type} (c : TrustedCatchup freq Db Tx)

def verify : VerifyLedgerChainWork freq where
  headerHash := c.apply.chain.headerHash
  mRange := c.apply.mRange
  mLastClosed := (c.start.entry.header.ledgerSeq, c.start.entry.hash)
  mTrustedHash := some c.trusted
  files := c.apply.headerFiles

/-- The apply work as it is added. -/
def added : Work.Item (ApplyState Db Tx) :=
  Work.added c.apply.work ⟨0, ⟨[], false⟩, ⟨[], false⟩, emptyHistoryEntry Tx, c.start.entry, c.start, []⟩

def lastLedger : ℕ := c.apply.mRange.last

/-- The first header that the works read of all. -/
def firstHeader : LedgerHeaderHistoryEntry := c.verify.firstHeader c.verify.firstCheckpoint

/-- A transaction set that an ancestor of the trusted ledger names. -/
def FromAncestor (d : LedgerCloseData Tx) : Prop :=
  ∃ header, Ancestor c.apply.chain.headerHash c.trusted header ∧ header.ledgerSeq = d.ledgerSeq ∧
    c.apply.chain.contentsHash d.txSet = header.scpValue.txSetHash

/-- The last closed ledger is the trusted one, and every ledger on the way was closed with the set an
ancestor of it names. -/
structure EndsTrusted (s : ApplyState Db Tx) : Prop where
  last : s.lcl.entry.header.ledgerSeq = c.lastLedger
  trusted : c.start.entry.header.ledgerSeq < c.lastLedger → s.lcl.entry.hash = c.trusted
  sets : ∀ d ∈ s.closed, c.FromAncestor d

/-- The verification succeeds. -/
def Verifies : Prop :=
  ∃ n s, Work.runs c.verify.work n (Work.added c.verify.work c.verify.onReset) = some (.ok (.WORK_SUCCESS, s))

/-- Where the verification succeeds, the application succeeds on the trusted ledger alone. -/
def ReachesTrusted : Prop :=
  c.Verifies → ∀ n s, Work.runs c.apply.work n c.added = some (.ok (.WORK_SUCCESS, s)) → c.EndsTrusted s

/-- The last ledger is about to be closed with another hash than its header's, while retries are left, and
the files begin below it. -/
def LastAstray (item : Work.Item (ApplyState Db Tx)) : Prop :=
  item.mState = .WORK_RUNNING ∧ item.mRetries < Work.RETRY_A_FEW ∧
    nextSeq c.firstHeader.header.ledgerSeq ≤ c.lastLedger ∧
    ∃ e rest txset lcl, item.data.mHdrIn.rest = e :: rest ∧ e.header.ledgerSeq = c.lastLedger ∧
      c.apply.Closes item.data e txset lcl ∧ lcl.entry.hash ≠ e.hash

/-- No item of the run is such. -/
def NeverAstray : Prop := ∀ item, Work.Reached c.apply.work c.added item → ¬c.LastAstray item

/-- The next header is one that has been verified. -/
structure Reading (s : ApplyState Db Tx) : Prop where
  inRange : c.verify.InRange s.mCurrSeq
  file : ∃ file read, c.apply.headerFiles s.mCurrSeq = some file ∧ file.entries = read ++ s.mHdrIn.rest ∧
    ∀ e ∈ read, e.header.ledgerSeq ≠ c.lastLedger

/-- Before the last ledger, in an attempt that has begun. -/
structure Begun (s : ApplyState Db Tx) : Prop extends Reading c s where
  opened : ∃ headers txs, c.apply.headerFiles c.verify.firstCheckpoint = some headers ∧
    c.apply.txFiles c.verify.firstCheckpoint = some txs
  -- a file that begins right before the last ledger leaves its hash to compare with
  first : c.firstHeader.header.ledgerSeq + 1 = c.lastLedger →
    s.lcl.entry.header.ledgerSeq = c.firstHeader.header.ledgerSeq ∧ s.lcl.entry.hash = c.firstHeader.hash

/-- The first files have just been opened. -/
structure Fresh (s : ApplyState Db Tx) : Prop where
  curr : s.mCurrSeq = c.verify.firstCheckpoint
  opened : ∃ headers txs, c.apply.headerFiles c.verify.firstCheckpoint = some headers ∧
    c.apply.txFiles c.verify.firstCheckpoint = some txs ∧ s.mHdrIn.rest = headers.entries

structure Inv (item : Work.Item (ApplyState Db Tx)) : Prop where
  state : item.mState = .WORK_PENDING ∨ item.mState = .WORK_RUNNING
  sets : ∀ d ∈ item.data.closed, c.FromAncestor d
  pending : item.mState = .WORK_PENDING → item.data.mCurrSeq = c.verify.firstCheckpoint
  begun : item.mState ≠ .WORK_PENDING → c.Begun item.data

section Rounds

variable {c} {s s' : ApplyState Db Tx} {r : Except String Bool} {e : LedgerHeaderHistoryEntry}
  {rest : List LedgerHeaderHistoryEntry} {txset : TransactionSet Tx} {lcl : LastClosed Db}

theorem mem_upTo_of_read {last : ℕ} {read : List LedgerHeaderHistoryEntry}
    (h : ∀ x ∈ read, x.header.ledgerSeq ≠ last) : e ∈ upTo last (read ++ e :: rest) := by
  induction read with
  | nil =>
    rw [List.nil_append, upTo]
    split <;> exact List.mem_cons_self
  | cons a read ih =>
    rw [List.cons_append, upTo, if_neg (h a List.mem_cons_self)]
    exact List.mem_cons_of_mem _ (ih fun x hx => h x (List.mem_cons_of_mem _ hx))

theorem Reading.mem_headers (h : c.Reading s) (hrest : s.mHdrIn.rest = e :: rest) :
    e ∈ c.verify.headers s.mCurrSeq := by
  obtain ⟨file, read, hfile, hentries, hread⟩ := h.file
  rw [VerifyLedgerChainWork.headers_of (w := c.verify) hfile, hentries, hrest]
  exact mem_upTo_of_read hread

/-- The stream moves on past a header that is not the last one. -/
theorem Reading.next (h : c.Reading s) (hrest : s.mHdrIn.rest = e :: rest)
    (hne : e.header.ledgerSeq ≠ c.lastLedger) (hcurr : s'.mCurrSeq = s.mCurrSeq)
    (hhdr : s'.mHdrIn.rest = rest) : c.Reading s' := by
  obtain ⟨file, read, hfile, hentries, hread⟩ := h.file
  refine ⟨by rw [hcurr]; exact h.inRange, file, read ++ [e], by rw [hcurr]; exact hfile, ?_, ?_⟩
  · rw [hentries, hrest, hhdr, List.append_assoc]
    rfl
  · intro x hx
    rcases List.mem_append.mp hx with hx | hx
    · exact hread x hx
    · rw [List.mem_singleton.mp hx]
      exact hne

/-- The ledger that a header closes is the one after the last. -/
theorem closes_seq (h : c.apply.Closes s e txset lcl) (hlt : s.lcl.entry.header.ledgerSeq < 2 ^ 32) :
    e.header.ledgerSeq = s.lcl.entry.header.ledgerSeq + 1 ∧
      lcl.entry.header.ledgerSeq = s.lcl.entry.header.ledgerSeq + 1 ∧
      lcl.entry.header.ledgerSeq + 1 < 2 ^ 32 := by
  have hclose := (closeLedger_spec h.close).1
  have hnext := h.next
  have hnot := h.notBehind
  unfold nextSeq at hclose hnext hnot
  omega

variable (hf : Frequency freq) (hv : ∀ k, c.verify.InRange k → c.verify.Verified k)

include hf hv

theorem fromAncestor_of_closes (h : c.Reading s) (hrest : s.mHdrIn.rest = e :: rest)
    (hcloses : c.apply.Closes s e txset lcl) :
    c.FromAncestor ⟨e.header.ledgerSeq, txset, e.header.scpValue⟩ := by
  refine ⟨e.header, ?_, rfl, hcloses.txSetHash.symm⟩
  exact VerifyLedgerChainWork.ancestor_of_verified hf hv rfl h.inRange e (h.mem_headers hrest)

omit hf in
/-- The header of the last ledger has the trusted hash. -/
theorem hash_of_last (h : c.Reading s) (hrest : s.mHdrIn.rest = e :: rest)
    (hseq : e.header.ledgerSeq = c.lastLedger) : e.hash = c.trusted := by
  have hlast := VerifyLedgerChainWork.eq_lastHeader (h.mem_headers hrest) hseq
  rw [hlast]
  refine (hv _ h.inRange).trusted ?_ c.trusted rfl
  rw [← hlast]
  exact hseq

/-- A file that ends before the last ledger has another one above it. -/
theorem inRange_next (h : c.Reading s) (hrest : s.mHdrIn.rest = []) :
    c.verify.InRange (nextCheckpoint freq s.mCurrSeq) := by
  obtain ⟨file, read, hfile, hentries, hread⟩ := h.file
  rw [hrest, List.append_nil] at hentries
  have hne : (c.verify.lastHeader s.mCurrSeq).header.ledgerSeq ≠ c.verify.mRange.last := by
    intro heq
    obtain ⟨x, hx, hseq⟩ := (VerifyLedgerChainWork.lastHeader_eq_last (w := c.verify) hfile).mp heq
    rw [hentries] at hx
    exact hread x hx hseq
  have hver := hv _ h.inRange
  have hfull := hver.ends.resolve_left hne
  have htop := ((hver.fits hver.passes).2 hfull fun heq => hne (hfull.trans heq)).1
  have hnext := VerifyLedgerChainWork.inRange_above hf h.inRange htop
  have hle := hnext.2.2
  have hlt := VerifyLedgerChainWork.lastCheckpoint_lt (w := c.verify) hf
  rw [nextCheckpoint, Nat.mod_eq_of_lt (by omega)]
  exact hnext

omit hf hv in
theorem firstCheckpoint_inRange (hf : Frequency freq) : c.verify.InRange c.verify.firstCheckpoint :=
  ⟨(checkpoint_mod hf _).1, le_rfl, c.verify.mRange.checkpoints_le⟩

omit hv in
theorem Fresh.reading (h : c.Fresh s) : c.Reading s := by
  obtain ⟨headers, txs, hheaders, -, hrest⟩ := h.opened
  refine ⟨by rw [h.curr]; exact firstCheckpoint_inRange hf, headers, [], by rw [h.curr]; exact hheaders, ?_, ?_⟩
  · rw [List.nil_append, hrest]
  · intro x hx
    cases hx

omit hf hv in
theorem Fresh.firstHeader (h : c.Fresh s) (hrest : s.mHdrIn.rest = e :: rest) : c.firstHeader = e := by
  obtain ⟨headers, txs, hheaders, -, hentries⟩ := h.opened
  unfold TrustedCatchup.firstHeader VerifyLedgerChainWork.firstHeader
  rw [VerifyLedgerChainWork.headers_of (w := c.verify) hheaders, ← hentries, hrest, upTo]
  split <;> rfl

theorem Fresh.rest_ne_nil (h : c.Fresh s) : s.mHdrIn.rest ≠ [] := by
  intro hnil
  obtain ⟨headers, txs, hheaders, -, hentries⟩ := h.opened
  have hin := @firstCheckpoint_inRange _ _ _ c hf
  have hne := VerifyLedgerChainWork.headers_ne_nil (VerifyLedgerChainWork.inRange_pos hf hin) (hv _ hin).ends
  rw [VerifyLedgerChainWork.headers_of (w := c.verify) hheaders, ← hentries, hnil] at hne
  exact hne rfl

omit hf hv in
/-- A header that needs no closing is not the last one. -/
theorem ne_last_of_behind (hlast : c.lastLedger + 1 < 2 ^ 32)
    (hlt : s.lcl.entry.header.ledgerSeq < c.lastLedger) (hb : Behind e s.lcl.entry) :
    e.header.ledgerSeq ≠ c.lastLedger := by
  intro heq
  unfold Behind nextSeq at hb
  rw [heq, Nat.mod_eq_of_lt hlast] at hb
  rcases hb with hb | ⟨hb, -⟩ | ⟨hb, -⟩
  · omega
  · omega
  · omega

omit hv in
theorem begun_of_passed (hlast : c.lastLedger + 1 < 2 ^ 32)
    (hlt : s.lcl.entry.header.ledgerSeq < c.lastLedger) (h : c.Fresh s ∨ c.Begun s)
    (hrest : s.mHdrIn.rest = e :: rest) (hb : Behind e s.lcl.entry) :
    c.Begun { s with mHdrIn := ⟨rest, s.mHdrIn.malformed⟩ } := by
  have hne := ne_last_of_behind hlast hlt hb
  rcases h with h | h
  · obtain ⟨headers, txs, hheaders, htxs, -⟩ := h.opened
    refine ⟨(h.reading hf).next hrest hne rfl rfl, ⟨headers, txs, hheaders, htxs⟩, ?_⟩
    rw [h.firstHeader hrest]
    intro hprev
    have hnext : nextSeq e.header.ledgerSeq = c.lastLedger := by
      unfold nextSeq
      omega
    unfold Behind at hb
    rw [hnext] at hb
    rcases hb with hb | ⟨hb, -⟩ | ⟨hseq, hhash⟩
    · omega
    · omega
    · exact ⟨hseq.symm, hhash.symm⟩
  · exact ⟨h.toReading.next hrest hne rfl rfl, h.opened, h.first⟩

omit hv in
theorem begun_of_closed (hs : s.lcl.entry.header.ledgerSeq < 2 ^ 32) (h : c.Fresh s ∨ c.Begun s)
    (hrest : s.mHdrIn.rest = e :: rest) (hcloses : c.apply.Closes s e txset lcl)
    (hlt : lcl.entry.header.ledgerSeq < c.lastLedger) (hcurr : s'.mCurrSeq = s.mCurrSeq)
    (hhdr : s'.mHdrIn = ⟨rest, s.mHdrIn.malformed⟩) (hlcl : s'.lcl = lcl) (hhash : lcl.entry.hash = e.hash) :
    c.Begun s' := by
  obtain ⟨hseq, hseq', -⟩ := closes_seq hcloses hs
  have hne : e.header.ledgerSeq ≠ c.lastLedger := by omega
  have hrest' : s'.mHdrIn.rest = rest := by rw [hhdr]
  rcases h with h | h
  · obtain ⟨headers, txs, hheaders, htxs, -⟩ := h.opened
    refine ⟨(h.reading hf).next hrest hne hcurr hrest', ⟨headers, txs, hheaders, htxs⟩, ?_⟩
    rw [h.firstHeader hrest, hlcl]
    intro _
    exact ⟨hseq'.trans hseq.symm, hhash⟩
  · refine ⟨h.toReading.next hrest hne hcurr hrest', h.opened, ?_⟩
    intro hprev
    have := (h.first hprev).1
    omega

theorem begun_of_opened (h : c.Fresh s ∨ c.Begun s) (hrest : s.mHdrIn.rest = [])
    (hopen : c.apply.openCurrentInputFiles { s with mCurrSeq := nextCheckpoint freq s.mCurrSeq } = .ok s') :
    c.Begun s' := by
  obtain ⟨headers, txs, hheaders, -, hcurr, hhdr, hlcl, -⟩ := openCurrentInputFiles_ok hopen
  rcases h with h | h
  · exact absurd hrest (h.rest_ne_nil hf hv)
  · refine ⟨⟨?_, headers, [], ?_, ?_, ?_⟩, h.opened, ?_⟩
    · rw [hcurr]
      exact inRange_next hf hv h.toReading hrest
    · rw [hcurr]
      exact hheaders
    · rw [hhdr]
      rfl
    · intro x hx
      cases hx
    · rw [hlcl]
      exact h.first

end Rounds

section Runs

variable {c} {item item' : Work.Item (ApplyState Db Tx)}

/-- The ledgers are closed one after the other, and their numbers do not wrap. -/
structure Counted (s : ApplyState Db Tx) : Prop where
  seq : s.lcl.entry.header.ledgerSeq = c.start.entry.header.ledgerSeq + s.closed.length
  lt : s.lcl.entry.header.ledgerSeq < 2 ^ 32
  closed : s.closed ≠ [] → s.lcl.entry.header.ledgerSeq + 1 < 2 ^ 32

theorem counted_step (h : c.Counted item.data) (hstep : Steps c.apply item item') :
    c.Counted item'.data ∧ item.data.lcl.entry.header.ledgerSeq ≤ item'.data.lcl.entry.header.ledgerSeq := by
  obtain ⟨s, s', r, hopens, hround, hlcl', hclosed'⟩ := steps_round hstep
  obtain ⟨hlcl, hclosed⟩ := opens_kept hopens
  rcases round_closed hround with ⟨hkept, hsame⟩ | ⟨e, rest, txset, -, hcloses, happend⟩
  · rw [hlcl] at hkept
    rw [hclosed] at hsame
    rw [hlcl', hkept]
    refine ⟨⟨?_, ?_, ?_⟩, le_rfl⟩
    · rw [hlcl', hkept, hclosed', hsame]
      exact h.seq
    · rw [hlcl', hkept]
      exact h.lt
    · rw [hlcl', hkept, hclosed', hsame]
      exact h.closed
  · have hlt : s.lcl.entry.header.ledgerSeq < 2 ^ 32 := by
      rw [hlcl]
      exact h.lt
    obtain ⟨-, hseq, hnext⟩ := closes_seq (c := c) hcloses hlt
    rw [hlcl] at hseq
    rw [hlcl', hseq]
    refine ⟨⟨?_, ?_, ?_⟩, by omega⟩
    · rw [hlcl', hseq, hclosed', happend, hclosed, List.length_append, h.seq]
      rfl
    · rw [hlcl']
      omega
    · intro _
      rw [hlcl']
      exact hnext

theorem added_start : c.added.mState = .WORK_PENDING ∧ c.added.data.lcl = c.start ∧ c.added.data.closed = [] ∧
    c.added.data.mCurrSeq = c.verify.firstCheckpoint := by
  unfold added Work.added Work.reset work onReset verify VerifyLedgerChainWork.firstCheckpoint
  simp only [and_self]

theorem counted_reached (h : Work.Reached c.apply.work c.added item) : c.Counted item.data := by
  induction h with
  | start =>
    obtain ⟨-, hlcl, hclosed, -⟩ := @added_start _ _ _ c
    refine ⟨?_, ?_, fun hnil => absurd hclosed hnil⟩
    · rw [hlcl, hclosed]
      exact (Nat.add_zero _).symm
    · rw [hlcl]
      exact c.start_lt
  | step _ _ hstep ih => exact (counted_step ih (step_steps hstep)).1

variable {s s' : ApplyState Db Tx} (hf : Frequency freq)
  (hv : ∀ k, c.verify.InRange k → c.verify.Verified k) (hlast : c.lastLedger + 1 < 2 ^ 32)

theorem fresh_or_begun (h : c.Inv item) (hopens : c.apply.Opens item s) : c.Fresh s ∨ c.Begun s := by
  rcases hopens with ⟨hpending, hopen⟩ | ⟨hne, rfl⟩
  · left
    obtain ⟨headers, txs, hheaders, htxs, hcurr, hhdr, -, -⟩ := openCurrentInputFiles_ok hopen
    have hfirst := h.pending hpending
    rw [hfirst] at hheaders htxs hcurr
    refine ⟨hcurr, headers, txs, hheaders, htxs, ?_⟩
    rw [hhdr]
  · right
    exact h.begun hne

theorem reading_of (hf : Frequency freq) (h : c.Fresh s ∨ c.Begun s) : c.Reading s := by
  rcases h with h | h
  · exact h.reading hf
  · exact h.toReading

include hf hv

theorem sets_of_round {r : Except String Bool} (h : c.Inv item) (hopens : c.apply.Opens item s)
    (hround : Round c.apply s s' r) : ∀ d ∈ s'.closed, c.FromAncestor d := by
  have hreading := reading_of hf (fresh_or_begun h hopens)
  rcases round_closed hround with ⟨-, hsame⟩ | ⟨e, rest, txset, hrest, hcloses, happend⟩
  · rw [hsame, (opens_kept hopens).2]
    exact h.sets
  · intro d hd
    rw [happend, (opens_kept hopens).2] at hd
    rcases List.mem_append.mp hd with hd | hd
    · exact h.sets d hd
    · rw [List.mem_singleton.mp hd]
      exact fromAncestor_of_closes hf hv hreading hrest hcloses

omit hf hv in
theorem inv_of_failure {item₀ : Work.Item (ApplyState Db Tx)} (hsets : ∀ d ∈ s.closed, c.FromAncestor d)
    (hdone : ¬Work.isDone (c.apply.afterFailure item₀ s).mState) : c.Inv (c.apply.afterFailure item₀ s) := by
  rw [(afterFailure_retry hdone).2]
  refine ⟨.inl rfl, ?_, fun _ => ?_, fun h => absurd rfl h⟩
  · simp only
    rw [onReset_kept.2]
    exact hsets
  · unfold onReset VerifyLedgerChainWork.firstCheckpoint verify
    with_reducible rfl

include hlast

theorem inv_step (h : c.Inv item) (hcount : c.Counted item.data) (hstep : Steps c.apply item item')
    (hdone : ¬Work.isDone item'.mState) (hlt : item'.data.lcl.entry.header.ledgerSeq < c.lastLedger) :
    c.Inv item' := by
  have hle := (counted_step hcount hstep).2
  cases hstep with
  | applied hopens happly =>
    have hround := apply_round happly
    have hbefore := fresh_or_begun h hopens
    obtain ⟨hlcl, hclosed⟩ := opens_kept hopens
    refine ⟨.inr (afterSuccess_running hdone).1, sets_of_round hf hv h hopens hround,
      fun hp => absurd hp afterSuccess_state, fun _ => ?_⟩
    cases hround with
    | passed hrest hb =>
      refine begun_of_passed hf hlast ?_ hbefore hrest hb
      rw [hlcl]
      omega
    | closed hrest hcloses hcurr hhdr hlcl' hclosed' hhash =>
      refine begun_of_closed hf ?_ hbefore hrest hcloses ?_ hcurr hhdr hlcl' hhash
      · rw [hlcl]
        exact hcount.lt
      · rw [← hlcl']
        exact hlt
  | opened hopens happly hopen =>
    have hround := apply_round happly
    have hsets := sets_of_round hf hv h hopens hround
    cases hround with
    | finished hrest =>
      refine ⟨.inr (afterSuccess_running hdone).1, ?_, fun hp => absurd hp afterSuccess_state, fun _ => ?_⟩
      · obtain ⟨-, -, -, -, -, -, -, hclosed⟩ := openCurrentInputFiles_ok hopen
        unfold afterSuccess
        simp only
        rw [hclosed]
        exact hsets
      · exact begun_of_opened hf hv (fresh_or_begun h hopens) hrest hopen
  | unopened hopens happly _ =>
    have hsets := sets_of_round hf hv h hopens (apply_round happly)
    exact inv_of_failure hsets hdone
  | failed hopens happly =>
    have hsets := sets_of_round hf hv h hopens (apply_round happly)
    exact inv_of_failure hsets hdone

/-- Before the last ledger, every item of a run is as the invariant says. -/
theorem inv_reached (h : Work.Reached c.apply.work c.added item) (hdone : ¬Work.isDone item.mState)
    (hlt : item.data.lcl.entry.header.ledgerSeq < c.lastLedger) : c.Inv item := by
  induction h with
  | start =>
    obtain ⟨hstate, -, hclosed, hcurr⟩ := @added_start _ _ _ c
    refine ⟨.inl hstate, ?_, fun _ => hcurr, fun hne => absurd hstate hne⟩
    rw [hclosed]
    intro d hd
    cases hd
  | step hreached hnot hstep ih =>
    have hcount := counted_reached hreached
    have hsteps := step_steps hstep
    have hle := (counted_step hcount hsteps).2
    exact inv_step hf hv hlast (ih hnot (by omega)) hcount hsteps hdone hlt

/-- The last ledger has been closed with another hash, and the files begin above it. -/
structure Stuck (c : TrustedCatchup freq Db Tx) (item : Work.Item (ApplyState Db Tx)) : Prop where
  pending : item.mState = .WORK_PENDING
  curr : item.data.mCurrSeq = c.verify.firstCheckpoint
  last : item.data.lcl.entry.header.ledgerSeq = c.lastLedger
  hash : item.data.lcl.entry.hash ≠ c.trusted
  above : c.lastLedger < nextSeq c.firstHeader.header.ledgerSeq

omit hf hv hlast in
theorem fresh_of_pending (hpending : item.mState = .WORK_PENDING)
    (hcurr : item.data.mCurrSeq = c.verify.firstCheckpoint) (hopens : c.apply.Opens item s) : c.Fresh s := by
  rcases hopens with ⟨-, hopen⟩ | ⟨hne, -⟩
  · obtain ⟨headers, txs, hheaders, htxs, hcurr', hhdr, -, -⟩ := openCurrentInputFiles_ok hopen
    rw [hcurr] at hheaders htxs hcurr'
    refine ⟨hcurr', headers, txs, hheaders, htxs, ?_⟩
    rw [hhdr]
  · exact absurd hpending hne

omit hf hv hlast in
theorem stuck_of_failure {item₀ : Work.Item (ApplyState Db Tx)}
    (hseq : s.lcl.entry.header.ledgerSeq = c.lastLedger) (hhash : s.lcl.entry.hash ≠ c.trusted)
    (habove : c.lastLedger < nextSeq c.firstHeader.header.ledgerSeq)
    (hdone : ¬Work.isDone (c.apply.afterFailure item₀ s).mState) : c.Stuck (c.apply.afterFailure item₀ s) := by
  have hlcl : (c.apply.afterFailure item₀ s).data.lcl = s.lcl := afterFailure_kept.1
  have hretry := (afterFailure_retry hdone).2
  refine ⟨?_, ?_, ?_, ?_, habove⟩
  · rw [hretry]
  · rw [hretry]
    unfold onReset VerifyLedgerChainWork.firstCheckpoint verify
    with_reducible rfl
  · rw [hlcl]
    exact hseq
  · rw [hlcl]
    exact hhash

omit hlast in
/-- A stuck item stays stuck, fails, or goes past the last ledger. -/
theorem stuck_step (h : c.Stuck item) (hcount : c.Counted item.data) (hstep : Steps c.apply item item') :
    item'.mState ≠ .WORK_SUCCESS ∧ (¬Work.isDone item'.mState →
      item'.data.lcl.entry.header.ledgerSeq ≤ c.lastLedger → c.Stuck item') := by
  have hpast : ∀ {s s' : ApplyState Db Tx} {e : LedgerHeaderHistoryEntry} {txset : TransactionSet Tx}
      {lcl : LastClosed Db}, c.apply.Opens item s → c.apply.Closes s e txset lcl → s'.lcl = lcl →
      c.lastLedger < s'.lcl.entry.header.ledgerSeq := by
    intro s s' e txset lcl hopens hcloses hlcl
    have hs := (opens_kept hopens).1
    have hseq := (closes_seq (c := c) hcloses (by rw [hs]; exact hcount.lt)).2.1
    rw [hlcl, hseq, hs, h.last]
    exact Nat.lt_succ_self _
  have hnever : ∀ {s s' : ApplyState Db Tx}, c.apply.Opens item s →
      c.apply.applyHistoryOfSingleLedger s ≠ (s', .ok false) := by
    intro s s' hopens happly
    have hround := apply_round happly
    cases hround with
    | finished hrest => exact (fresh_of_pending h.pending h.curr hopens).rest_ne_nil hf hv hrest
  cases hstep with
  | applied hopens happly =>
    have hfresh := fresh_of_pending h.pending h.curr hopens
    obtain ⟨hlcl, -⟩ := opens_kept hopens
    have hround := apply_round happly
    cases hround with
    | passed hrest hb =>
      have hfirst := hfresh.firstHeader hrest
      have habove := h.above
      rw [hfirst] at habove
      unfold Behind at hb
      rw [hlcl, h.last] at hb
      rcases hb with hb | ⟨hb, -⟩ | ⟨hseq, hhash⟩
      · omega
      · omega
      · refine absurd ?_ h.hash
        rw [← hhash]
        exact hash_of_last hv (hfresh.reading hf) hrest hseq
    | closed hrest hcloses _ _ hlcl' _ _ =>
      have hgt := hpast hopens hcloses hlcl'
      refine ⟨fun hsuccess => ?_, fun _ hle => ?_⟩
      · have hseq := afterSuccess_last hsuccess
        unfold lastLedger at hgt
        omega
      · unfold afterSuccess at hle
        simp only at hle
        omega
  | opened hopens happly _ => exact absurd happly (hnever hopens)
  | unopened hopens happly _ => exact absurd happly (hnever hopens)
  | failed hopens happly =>
    refine ⟨afterFailure_ne_success, fun hdone hle => ?_⟩
    rw [afterFailure_kept.1] at hle
    obtain ⟨hlcl, -⟩ := opens_kept hopens
    have hround := apply_round happly
    cases hround with
    | failed _ hlcl' _ =>
      refine stuck_of_failure ?_ ?_ h.above hdone
      · rw [hlcl', hlcl]
        exact h.last
      · rw [hlcl', hlcl]
        exact h.hash
    | astray hrest hcloses hlcl' _ _ =>
      have hgt := hpast hopens hcloses hlcl'
      omega

/-- The step that closes the last ledger without ending the work. -/
theorem stuck_of_last (h : c.Inv item) (hcount : c.Counted item.data) (hnot : ¬c.LastAstray item)
    (hlt : item.data.lcl.entry.header.ledgerSeq < c.lastLedger) (hstep : Steps c.apply item item')
    (hdone : ¬Work.isDone item'.mState) (hseq : item'.data.lcl.entry.header.ledgerSeq = c.lastLedger) :
    c.Stuck item' := by
  cases hstep with
  | applied hopens happly => exact absurd hseq (afterSuccess_running hdone).2
  | opened hopens happly hopen =>
    have hne := (afterSuccess_running hdone).2
    exact absurd hseq hne
  | unopened hopens happly _ =>
    rw [afterFailure_kept.1] at hseq
    have hround := apply_round happly
    cases hround with
    | finished hrest =>
      have hs : ¬item.data.lcl.entry.header.ledgerSeq < c.lastLedger := by
        rw [← (opens_kept hopens).1]
        exact not_lt.mpr (le_of_eq hseq.symm)
      exact absurd hlt hs
  | failed hopens happly =>
    rw [afterFailure_kept.1] at hseq
    obtain ⟨hlcl, -⟩ := opens_kept hopens
    have hbefore := fresh_or_begun h hopens
    have hreading := reading_of hf hbefore
    have hround := apply_round happly
    cases hround with
    | failed _ hlcl' _ =>
      rw [hlcl', hlcl] at hseq
      omega
    | astray hrest hcloses hlcl' _ hhash =>
      have hs := hcount.lt
      rw [← hlcl] at hs
      obtain ⟨he, hl, -⟩ := closes_seq (c := c) hcloses hs
      rw [hlcl'] at hseq
      have helast := he.trans (hl.symm.trans hseq)
      have htrusted := hash_of_last hv hreading hrest helast
      refine stuck_of_failure (by rw [hlcl']; exact hseq) (by rw [hlcl', ← htrusted]; exact hhash) ?_ hdone
      rcases hopens with ⟨hpending, hopen⟩ | ⟨hne, rfl⟩
      · have hfresh := fresh_of_pending hpending (h.pending hpending) (.inl ⟨hpending, hopen⟩)
        rw [hfresh.firstHeader hrest, helast]
        unfold nextSeq
        omega
      · have hrunning := h.state.resolve_left hne
        by_contra habove
        exact hnot ⟨hrunning, (afterFailure_retry hdone).1, not_lt.mp habove, _, _, _, _, hrest, helast, hcloses,
          hhash⟩

theorem stuck_reached (hnever : c.NeverAstray) (hstart : c.start.entry.header.ledgerSeq < c.lastLedger)
    (h : Work.Reached c.apply.work c.added item) (hdone : ¬Work.isDone item.mState)
    (hseq : item.data.lcl.entry.header.ledgerSeq = c.lastLedger) : c.Stuck item := by
  induction h with
  | start =>
    obtain ⟨-, hlcl, -, -⟩ := @added_start _ _ _ c
    rw [hlcl] at hseq
    omega
  | step hreached hnot hstep ih =>
    have hcount := counted_reached hreached
    have hsteps := step_steps hstep
    have hle := (counted_step hcount hsteps).2
    rcases Nat.lt_or_eq_of_le (hle.trans (le_of_eq hseq)) with hlt | heq
    · exact stuck_of_last hf hv hlast (inv_reached hf hv hlast hreached hnot hlt) hcount (hnever _ hreached)
        hlt hsteps hdone hseq
    · exact (stuck_step hf hv (ih hnot heq) hcount hsteps).2 hdone (le_of_eq hseq)

end Runs

section Main

variable {c} {item : Work.Item (ApplyState Db Tx)} (hf : Frequency freq)
  (hv : ∀ k, c.verify.InRange k → c.verify.Verified k)

include hf hv

/-- A run that never goes astray ends, if it succeeds, on the trusted ledger. -/
theorem endsTrusted_of_neverAstray (hnever : c.NeverAstray) {n : ℕ} {s : ApplyState Db Tx}
    (h : Work.runs c.apply.work n c.added = some (.ok (.WORK_SUCCESS, s))) : c.EndsTrusted s := by
  have hadded : ¬Work.isDone c.added.mState := by
    rw [added_start.1]
    decide
  obtain ⟨item, item', hreached, hnot, hstep, hdone, hstate, rfl⟩ := Work.last_step hadded h
  have hsteps := step_steps hstep
  have hcount := counted_reached hreached
  obtain ⟨hcount', hle⟩ := counted_step hcount hsteps
  have hseq : item'.data.lcl.entry.header.ledgerSeq = c.lastLedger := by
    cases hsteps with
    | applied => exact afterSuccess_last hstate
    | opened => exact afterSuccess_last hstate
    | unopened => exact absurd hstate afterFailure_ne_success
    | failed => exact absurd hstate afterFailure_ne_success
  by_cases hstart : c.start.entry.header.ledgerSeq < c.lastLedger
  · have hclosed : item'.data.closed ≠ [] := by
      intro hnil
      have hcounted := hcount'.seq
      rw [hnil, List.length_nil] at hcounted
      omega
    have hlast : c.lastLedger + 1 < 2 ^ 32 := by
      have := hcount'.closed hclosed
      omega
    rcases Nat.lt_or_eq_of_le (hle.trans (le_of_eq hseq)) with hlt | heq
    · have hinv := inv_reached hf hv hlast hreached hnot hlt
      refine ⟨hseq, fun _ => ?_, ?_⟩
      · cases hsteps with
        | applied hopens happly =>
          obtain ⟨hlcl, -⟩ := opens_kept hopens
          have hreading := reading_of hf (fresh_or_begun hinv hopens)
          have hround := apply_round happly
          cases hround with
          | passed hrest hb =>
            have hsame : item.data.lcl.entry.header.ledgerSeq = c.lastLedger := by
              rw [← hlcl]
              exact hseq
            omega
          | closed hrest hcloses _ _ hlcl' _ hhash =>
            have hs := hcount.lt
            rw [← hlcl] at hs
            obtain ⟨he, hl, -⟩ := closes_seq (c := c) hcloses hs
            rw [← hlcl'] at hl
            have hend := he.trans (hl.symm.trans hseq)
            have htrusted := hash_of_last hv hreading hrest hend
            unfold afterSuccess
            simp only
            rw [hlcl', hhash, htrusted]
        | opened hopens happly hopen =>
          have hround := apply_round happly
          obtain ⟨-, -, -, -, -, -, hlcl', -⟩ := openCurrentInputFiles_ok hopen
          cases hround with
          | finished hrest =>
            have hsame : item.data.lcl.entry.header.ledgerSeq = c.lastLedger := by
              rw [← (opens_kept hopens).1]
              unfold afterSuccess at hseq
              simp only at hseq hlcl'
              rw [hlcl'] at hseq
              exact hseq
            omega
        | unopened => exact absurd hstate afterFailure_ne_success
        | failed => exact absurd hstate afterFailure_ne_success
      · obtain ⟨s, s', r, hopens, hround, -, hkept⟩ := steps_round hsteps
        rw [hkept]
        exact sets_of_round hf hv hinv hopens hround
    · have hstuck := stuck_reached hf hv hlast hnever hstart hreached hnot heq
      exact absurd hstate (stuck_step hf hv hstuck hcount hsteps).1
  · have hnil : item'.data.closed = [] := by
      have hcounted := hcount'.seq
      exact List.length_eq_zero_iff.mp (by omega)
    refine ⟨hseq, fun hlt => absurd hlt hstart, ?_⟩
    rw [hnil]
    intro d hd
    cases hd

/-- A run that goes astray is tried again and succeeds at once. -/
theorem neverAstray_of_endsTrusted
    (h : ∀ n s, Work.runs c.apply.work n c.added = some (.ok (.WORK_SUCCESS, s)) → c.EndsTrusted s) :
    c.NeverAstray := by
  intro item hreached hastray
  obtain ⟨hrunning, hretries, hfirst, e, rest, txset, lcl, hrest, hseq, hcloses, hhash⟩ := hastray
  have hnot : ¬Work.isDone item.mState := by
    rw [hrunning]
    decide
  have hcount := counted_reached hreached
  obtain ⟨he, hl, hnext⟩ := closes_seq (c := c) hcloses hcount.lt
  have hlast : c.lastLedger + 1 < 2 ^ 32 := by omega
  have hinv := inv_reached hf hv hlast hreached hnot (by omega)
  have hbegun := hinv.begun (by rw [hrunning]; nofun)
  -- the failed attempt
  obtain ⟨s', happly, hlcl'⟩ := apply_astray hrest hcloses hhash
  have hfailed : Steps c.apply item (c.apply.afterFailure item s') :=
    .failed (.inr ⟨by rw [hrunning]; nofun, rfl⟩) happly
  obtain ⟨retried, hretried⟩ : ∃ retried, c.apply.afterFailure item s' = retried := ⟨_, rfl⟩
  have hretry : retried = ⟨.WORK_PENDING, item.mRetries + 1, c.apply.onReset s'⟩ := by
    rw [← hretried]
    unfold afterFailure
    rw [if_neg (not_le.mpr hretries)]
  have hpending : retried.mState = .WORK_PENDING := by rw [hretry]
  have hdata : retried.data = c.apply.onReset s' := by rw [hretry]
  rw [hretried] at hfailed
  -- the next one reads the first header
  obtain ⟨headers, txs, hheaders, htxs⟩ := hbegun.opened
  have hcurr : retried.data.mCurrSeq = c.verify.firstCheckpoint := by
    rw [hdata]
    unfold onReset VerifyLedgerChainWork.firstCheckpoint verify
    with_reducible rfl
  obtain ⟨s₁, hopen⟩ : ∃ s₁, c.apply.openCurrentInputFiles retried.data = .ok s₁ := by
    unfold openCurrentInputFiles
    rw [hcurr, hheaders, htxs]
    exact ⟨_, rfl⟩
  have hopens : c.apply.Opens retried s₁ := .inl ⟨hpending, hopen⟩
  have hfresh := fresh_of_pending hpending hcurr hopens
  have hlcl₁ : s₁.lcl = lcl := by
    rw [(opens_kept hopens).1, hdata, onReset_kept.1, hlcl']
  obtain ⟨e₀, rest₀, hrest₀⟩ := List.exists_cons_of_ne_nil (hfresh.rest_ne_nil hf hv)
  have hfirst₀ := hfresh.firstHeader hrest₀
  have hclosed := closeLedger_spec hcloses.close
  have hpass : c.apply.applyHistoryOfSingleLedger s₁ =
      ({ s₁ with mHdrIn := ⟨rest₀, s₁.mHdrIn.malformed⟩ }, .ok true) := by
    refine apply_passed hrest₀ ?_
    rw [hlcl₁, hl, ← he, hseq, ← hfirst₀]
    rcases Nat.lt_or_eq_of_le hfirst with hlt | heq
    · left
      exact hlt
    · right
      refine ⟨heq, ?_⟩
      have hlt₀ := VerifyLedgerChainWork.firstHeader_seq_lt (w := c.verify) c.verify.firstCheckpoint
      change c.firstHeader.header.ledgerSeq < 2 ^ 32 at hlt₀
      have hprev : c.firstHeader.header.ledgerSeq + 1 = c.lastLedger := by
        unfold nextSeq at heq
        omega
      rw [hclosed.2.1]
      exact (hbegun.first hprev).2.symm
  have hsuccess : Steps c.apply retried
      (c.apply.afterSuccess retried { s₁ with mHdrIn := ⟨rest₀, s₁.mHdrIn.malformed⟩ }) := .applied hopens hpass
  have hend : s₁.lcl.entry.header.ledgerSeq = c.apply.mRange.last := by
    rw [hlcl₁, hl, ← he, hseq]
    rfl
  have hstate : (c.apply.afterSuccess retried
      { s₁ with mHdrIn := ⟨rest₀, s₁.mHdrIn.malformed⟩ }).mState = .WORK_SUCCESS := by
    unfold afterSuccess
    simp only
    rw [if_pos hend]
  obtain ⟨k, hk⟩ := Work.runs_of_reached hreached hnot
  have hrun := Work.runs_done 0 (steps_step hsuccess) (by rw [hstate]; rfl)
  have hrun' := Work.runs_next 1 (steps_step hfailed) (by rw [hpending]; decide)
  have hall := (hk 2).trans (hrun'.trans hrun)
  rw [hstate] at hall
  have hends := (h _ _ hall).trusted (by
    have := hcount.seq
    omega)
  refine hhash ?_
  rw [hash_of_last hv hbegun.toReading hrest hseq]
  unfold afterSuccess at hends
  simp only at hends
  rw [hlcl₁] at hends
  exact hends

end Main

/-- **A verified catchup that succeeds is on the trusted ledger, exactly where the last ledger never comes
out with another hash while it can be tried again.** -/
theorem reachesTrusted_iff (accelerated : Bool) (c : TrustedCatchup (getCheckpointFrequency accelerated) Db Tx) :
    c.ReachesTrusted ↔ (c.Verifies → c.NeverAstray) := by
  have hf := frequency_of_config accelerated
  constructor
  · intro h hverifies
    obtain ⟨n, s, hrun⟩ := hverifies
    have hv := VerifyLedgerChainWork.verified_of_success hf hrun
    exact neverAstray_of_endsTrusted hf hv (h ⟨n, s, hrun⟩)
  · intro h hverifies n s hrun
    have hnever := h hverifies
    obtain ⟨m, s', hrun'⟩ := hverifies
    have hv := VerifyLedgerChainWork.verified_of_success hf hrun'
    exact endsTrusted_of_neverAstray hf hv hnever hrun

section Astray

/-- Headers hashed to their number and bucket list. -/
def bucketHash (header : ChainHeader) : Hash := Fin.ofNat _ (header.ledgerSeq + 100 * header.bucketListHash)

def headerWith (ledgerSeq : ℕ) (bucketListHash : Hash) : LedgerHeaderHistoryEntry :=
  let header := ⟨CURRENT_LEDGER_PROTOCOL_VERSION, Fin.ofNat _ (ledgerSeq - 1), ⟨0, 0⟩, 0, bucketListHash, ledgerSeq⟩
  ⟨bucketHash header, header⟩

/-- A node at ledger 1 that catches up to 3, whose header names another bucket list than the one the node
comes to. -/
def otherBuckets : TrustedCatchup 8 Unit Unit where
  apply :=
    { chain := ⟨bucketHash, fun _ => 0, fun _ header _ => .ok ((), ⟨header.ledgerVersion, 0, 0⟩)⟩
      mRange := ⟨⟨1, 3, by decide, by decide, by decide⟩, by decide⟩
      headerFiles
        | 7 => some ⟨[headerWith 1 0, headerWith 2 0, headerWith 3 1], false, by decide⟩
        | _ => none
      txFiles
        | 7 => some ⟨[], false⟩
        | _ => none }
  start := ⟨(), headerWith 1 0⟩
  trusted := 103
  start_lt := by decide

/-- Whether a run has succeeded, on a state that passes a test. -/
def succeeds {σ : Type} (test : σ → Bool) : Option (Checked (Work.State × σ)) → Bool
  | some (.ok (.WORK_SUCCESS, s)) => test s
  | _ => false

theorem exists_of_succeeds {σ : Type} {test : σ → Bool} {run : Option (Checked (Work.State × σ))}
    (h : succeeds test run) : ∃ s, run = some (.ok (.WORK_SUCCESS, s)) ∧ test s := by
  unfold succeeds at h
  split at h
  · exact ⟨_, rfl, h⟩
  · cases h

theorem otherBuckets_verifies : otherBuckets.Verifies := by
  have h : succeeds (fun _ => true) (Work.runs otherBuckets.verify.work 1
      (Work.added otherBuckets.verify.work otherBuckets.verify.onReset)) := by decide +kernel
  obtain ⟨s, hrun, -⟩ := exists_of_succeeds h
  exact ⟨1, s, hrun⟩

theorem otherBuckets_succeeds : ∃ s, Work.runs otherBuckets.apply.work 4 otherBuckets.added =
    some (.ok (.WORK_SUCCESS, s)) ∧ s.lcl.entry = headerWith 3 0 := by
  have h : succeeds (fun s => s.lcl.entry = headerWith 3 0)
      (Work.runs otherBuckets.apply.work 4 otherBuckets.added) := by decide +kernel
  obtain ⟨s, hrun, htest⟩ := exists_of_succeeds h
  exact ⟨s, hrun, of_decide_eq_true htest⟩

/-- It ends at 3 with another hash than the trusted one. -/
theorem not_reachesTrusted :
    makeCatchupRange 8 1 ⟨2 ^ 32 - 1, 3, some 103, by decide⟩ =
        .ok (otherBuckets.apply.mRange.toLedgerRange, false) ∧
      ¬otherBuckets.ReachesTrusted := by
  constructor
  · decide +kernel
  · intro h
    obtain ⟨s, hrun, hlcl⟩ := otherBuckets_succeeds
    have htrusted := (h otherBuckets_verifies 4 s hrun).trusted (by decide)
    rw [hlcl] at htrusted
    revert htrusted
    decide

end Astray

end TrustedCatchup

end ZaggCore.Catchup
