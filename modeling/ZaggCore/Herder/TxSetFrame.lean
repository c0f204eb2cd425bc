import Mathlib
import ZaggCore.Transactions.CheckAgain

/-! # `TxSetFrame`

The model of `herder/TxSetFrame.cpp`: the hash of a transaction set, its check and the removal of what
is not valid in it, which are one loop with two pairs of handlers. The hash is computed where it is
asked for; the frame of the source keeps it. -/

namespace ZaggCore.Herder
set_option autoImplicit false
set_option maxHeartbeats 250000

open Foundations Transactions Signatures

structure TxSetFrame where
  mPreviousLedgerHash : Hash
  mTransactions : List TransactionEnvelope
  deriving DecidableEq, Repr

namespace TxSetFrame

variable {X Q σ : Type} [LinearOrder Q] (app : Application X Q)

/-- Transactions that compare equal are equal, so it does not show that `std::sort` is not stable. -/
def sortForHash (frame : TxSetFrame) : TxSetFrame :=
  { frame with
    mTransactions := frame.mTransactions.mergeSort fun tx1 tx2 => app.fullHash tx1 ≤ app.fullHash tx2 }

/-- `getContentsHash`, with the hash of the previous hash and the envelopes. -/
def getContentsHash (sha256 : Hash → List TransactionEnvelope → Hash) (frame : TxSetFrame) : Hash :=
  sha256 frame.mPreviousLedgerHash (frame.sortForHash app).mTransactions

def removeTx (frame : TxSetFrame) (tx : TransactionEnvelope) : TxSetFrame :=
  { frame with mTransactions := frame.mTransactions.erase tx }

/-! ## `checkOrTrim` -/

section CheckOrTrim

/-- The first loop, which leaves `lastHash` behind. -/
def sortedCorrectly (fullHash : TransactionEnvelope → Hash) : Hash → List TransactionEnvelope → Bool
  | _, [] => true
  | lastHash, tx :: txs =>
    if fullHash tx < lastHash then false else sortedCorrectly fullHash (fullHash tx) txs

/-- The lists of `accountTxMap`, each in the order of the sequence numbers. -/
def accountTxMap (txs : List TransactionEnvelope) : List (List TransactionEnvelope) :=
  ((txs.map (·.tx.sourceAccount)).toFinset.sort (· ≤ ·)).map fun sourceID =>
    (txs.filter (·.tx.sourceAccount = sourceID)).mergeSort fun tx1 tx2 => tx1.tx.seqNum ≤ tx2.tx.seqNum

/-- The variables of the loop over the transactions of an account, and what the handlers capture. -/
structure AccountLoop (σ : Type) where
  lastTx : Option TransactionEnvelope
  lastSeq : ℤ
  totFee : ℤ
  captured : σ

/-- The loop after a valid transaction. -/
def AccountLoop.next (loop : AccountLoop σ) (tx : TransactionEnvelope) : AccountLoop σ where
  lastTx := some tx
  lastSeq := tx.tx.seqNum
  totFee := loop.totFee + tx.tx.fee
  captured := loop.captured

/-- The two handlers. No result stands for `false`, which makes `checkOrTrim` return `false`. -/
structure Handlers (σ : Type) where
  processInvalidTx : σ → TransactionEnvelope → Option σ
  processInsufficientBalance : σ → List TransactionEnvelope → Option σ

variable (handlers : Handlers σ)

def checkAccountTxs : List TransactionEnvelope → AccountLoop σ → AppM X (Bool × AccountLoop σ)
  | [], loop => return (true, loop)
  | tx :: txs, loop => do
    if (← Transactions.checkValid app tx loop.lastSeq) = .txSUCCESS then
      checkAccountTxs txs (loop.next tx)
    else
      match handlers.processInvalidTx loop.captured tx with
      | some captured => checkAccountTxs txs { loop with captured := captured }
      | none => return (false, loop)

/-- "Make sure account can pay the fee for all these tx". -/
def checkFees (item : List TransactionEnvelope) (loop : AccountLoop σ) : AppM X (Bool × σ) := do
  match loop.lastTx with
  | none => return (true, loop.captured)
  | some lastTx =>
    let source ← current (← loadAccount lastTx.tx.sourceAccount)
    let header ← loadHeader
    if AccountEntry.getAvailableBalance header source < loop.totFee then
      match handlers.processInsufficientBalance loop.captured item with
      | some captured => return (true, captured)
      | none => return (false, loop.captured)
    else return (true, loop.captured)

/-- The body of the loop over `accountTxMap`. -/
def checkAccount (item : List TransactionEnvelope) (captured : σ) : AppM X (Bool × σ) := do
  let (ok, loop) ← checkAccountTxs app handlers item ⟨none, 0, 0, captured⟩
  if ok then checkFees handlers item loop else return (false, loop.captured)

def checkAccounts : List (List TransactionEnvelope) → σ → AppM X (Bool × σ)
  | [], captured => return (true, captured)
  | item :: items, captured => do
    let (ok, captured) ← checkAccount app handlers item captured
    if ok then checkAccounts items captured else return (false, captured)

def checkOrTrim (txs : List TransactionEnvelope) (captured : σ) : AppM X (Bool × σ) :=
  rolledBack World.restore
    (if sortedCorrectly app.fullHash 0 txs then
      checkAccounts app handlers (accountTxMap txs) captured
    else return (false, captured))

end CheckOrTrim

/-- The handlers of `trimInvalid`: the frame and what was trimmed of it. -/
def trimming : Handlers (TxSetFrame × List TransactionEnvelope) where
  processInvalidTx := fun (frame, trimmed) tx => some (frame.removeTx tx, trimmed ++ [tx])
  processInsufficientBalance := fun (frame, trimmed) item =>
    some (item.foldl removeTx frame, trimmed ++ item)

def trimInvalid (frame : TxSetFrame) : AppM X (TxSetFrame × List TransactionEnvelope) := do
  let frame := frame.sortForHash app
  let (_, trimmed) ← checkOrTrim app trimming frame.mTransactions (frame, [])
  return trimmed

/-- The handlers of `checkValid`, which only report what is bad. -/
def rejecting : Handlers Unit where
  processInvalidTx _ _ := none
  processInsufficientBalance _ _ := none

/-- `checkValid`, with the hash and the header of the last closed ledger. -/
def checkValid (lclHash : Hash) (lcl : LedgerHeader) (frame : TxSetFrame) : AppM X Bool := do
  if lclHash ≠ frame.mPreviousLedgerHash then
    return false
  if lcl.maxTxSetSize < frame.mTransactions.length then
    return false
  let (ok, _) ← checkOrTrim app rejecting frame.mTransactions ()
  return ok

/-! ## A set that is sorted -/

variable {app}

theorem pairwise_of_sortedCorrectly {fullHash : TransactionEnvelope → Hash} {lastHash : Hash}
    {txs : List TransactionEnvelope} (h : sortedCorrectly fullHash lastHash txs = true) :
    (∀ tx ∈ txs, lastHash ≤ fullHash tx) ∧
      txs.Pairwise fun tx1 tx2 => fullHash tx1 ≤ fullHash tx2 := by
  induction txs generalizing lastHash with
  | nil => simp
  | cons tx txs ih =>
    rw [sortedCorrectly] at h
    split_ifs at h with hlt
    obtain ⟨hle, hsorted⟩ := ih h
    have hlast : lastHash ≤ fullHash tx := not_lt.mp hlt
    refine ⟨fun tx' htx' => ?_, List.pairwise_cons.mpr ⟨hle, hsorted⟩⟩
    rcases List.mem_cons.mp htx' with rfl | htx'
    · exact hlast
    · exact hlast.trans (hle tx' htx')

omit [LinearOrder Q] in
/-- Sorting does nothing to a set that is sorted correctly. -/
theorem sortForHash_of_sorted {frame : TxSetFrame}
    (h : sortedCorrectly app.fullHash 0 frame.mTransactions = true) :
    frame.sortForHash app = frame := by
  unfold sortForHash
  have hsorted := (pairwise_of_sortedCorrectly h).2
  rw [List.mergeSort_of_pairwise (hsorted.imp fun h => by simpa using h)]

/-! ## A loop that calls no handler -/

section Clean

/-- The loop with something else captured. -/
def AccountLoop.capturing {τ : Type} (loop : AccountLoop σ) (captured : τ) : AccountLoop τ where
  lastTx := loop.lastTx
  lastSeq := loop.lastSeq
  totFee := loop.totFee
  captured := captured

variable (handlers : Handlers σ) (captured : σ)

theorem checkAccountTxs_clean {txs : List TransactionEnvelope} {loop loop' : AccountLoop Unit}
    {w w' : World X} (h : checkAccountTxs app rejecting txs loop w = .ok (true, loop') w') :
    checkAccountTxs app handlers txs (loop.capturing captured) w =
      .ok (true, loop'.capturing captured) w' := by
  induction txs generalizing loop w with
  | nil =>
    obtain ⟨heq, rfl⟩ := pure_ok.mp h
    cases heq
    rfl
  | cons tx txs ih =>
    obtain ⟨code, w₁, hcheck, hrest⟩ := bind_ok.mp h
    refine bind_ok.mpr ⟨code, w₁, hcheck, ?_⟩
    by_cases hcode : code = .txSUCCESS
    · rw [if_pos hcode] at hrest ⊢
      exact ih hrest
    · rw [if_neg hcode] at hrest
      obtain ⟨heq, -⟩ := pure_ok.mp hrest
      cases heq

theorem checkFees_clean {item : List TransactionEnvelope} {loop : AccountLoop Unit} {w w' : World X}
    (h : checkFees rejecting item loop w = .ok (true, ()) w') :
    checkFees handlers item (loop.capturing captured) w = .ok (true, captured) w' := by
  unfold checkFees at h ⊢
  change (match loop.lastTx with | none => _ | some _ => _ : AppM X (Bool × σ)) w = _
  cases hlast : loop.lastTx with
  | none =>
    rw [hlast] at h
    obtain ⟨-, rfl⟩ := pure_ok.mp h
    rfl
  | some lastTx =>
    rw [hlast] at h
    obtain ⟨entry, w₁, hload, h⟩ := bind_ok.mp h
    obtain ⟨source, w₂, hcurrent, h⟩ := bind_ok.mp h
    obtain ⟨header, w₃, hheader, h⟩ := bind_ok.mp h
    refine bind_ok.mpr ⟨entry, w₁, hload, bind_ok.mpr ⟨source, w₂, hcurrent,
      bind_ok.mpr ⟨header, w₃, hheader, ?_⟩⟩⟩
    by_cases hfee : AccountEntry.getAvailableBalance header source < loop.totFee
    · rw [if_pos hfee] at h
      obtain ⟨heq, -⟩ := pure_ok.mp h
      cases heq
    · rw [if_neg hfee] at h
      obtain ⟨-, rfl⟩ := pure_ok.mp h
      exact congrFun (if_neg hfee) w₃

theorem checkAccount_clean {item : List TransactionEnvelope} {w w' : World X}
    (h : checkAccount app rejecting item () w = .ok (true, ()) w') :
    checkAccount app handlers item captured w = .ok (true, captured) w' := by
  obtain ⟨⟨ok, loop⟩, w₁, hloop, hrest⟩ := bind_ok.mp h
  cases ok with
  | false =>
    obtain ⟨heq, -⟩ := pure_ok.mp hrest
    cases heq
  | true =>
    exact bind_ok.mpr ⟨(true, loop.capturing captured), w₁,
      checkAccountTxs_clean handlers captured hloop, checkFees_clean handlers captured hrest⟩

theorem checkAccounts_clean {items : List (List TransactionEnvelope)} {w w' : World X}
    (h : checkAccounts app rejecting items () w = .ok (true, ()) w') :
    checkAccounts app handlers items captured w = .ok (true, captured) w' := by
  induction items generalizing w with
  | nil =>
    obtain ⟨-, rfl⟩ := pure_ok.mp h
    rfl
  | cons item items ih =>
    obtain ⟨⟨ok, u⟩, w₁, hitem, hrest⟩ := bind_ok.mp h
    cases ok with
    | false =>
      obtain ⟨heq, -⟩ := pure_ok.mp hrest
      cases heq
    | true => exact bind_ok.mpr ⟨_, w₁, checkAccount_clean handlers captured hitem, ih hrest⟩

/-- Where nothing is rejected the handlers make no difference. -/
theorem checkOrTrim_clean {txs : List TransactionEnvelope} {w w' : World X}
    (h : checkOrTrim app rejecting txs () w = .ok (true, ()) w') :
    sortedCorrectly app.fullHash 0 txs = true ∧
      checkOrTrim app handlers txs captured w = .ok (true, captured) w' := by
  obtain ⟨w₁, hrun, rfl⟩ := rolledBack_ok.mp h
  by_cases hsorted : sortedCorrectly app.fullHash 0 txs = true
  · rw [if_pos hsorted] at hrun
    refine ⟨hsorted, rolledBack_ok.mpr ⟨w₁, ?_, rfl⟩⟩
    rw [if_pos hsorted]
    exact checkAccounts_clean handlers captured hrun
  · rw [if_neg hsorted] at hrun
    obtain ⟨heq, -⟩ := pure_ok.mp hrun
    cases heq

end Clean

/-! ## A valid set is valid again -/

section Again

variable (app) in
/-- The node of the second state is that of the first after raw transactions were sent to it. The rest of the part is what
every check starts anew. -/
def KnowsMore (e e' : X × Option AccountEntry × SignatureChecker) : Prop := Sent app e.1 e'.1

instance : Std.Refl (KnowsMore app) := ⟨fun e => refl_of (Sent app) e.1⟩

instance : IsTrans (X × Option AccountEntry × SignatureChecker) (KnowsMore app) :=
  ⟨fun _ _ _ h h' => trans_of (Sent app) h h'⟩

/-- What is left in a `World` beside the ledger. -/
def besideLedger : Part (World X) (X × Option AccountEntry × SignatureChecker) where
  get w := (w.ext, w.mCachedAccount, w.signatureChecker)
  set w e := { w with ext := e.1, mCachedAccount := e.2.1, signatureChecker := e.2.2 }
  get_set _ _ := rfl
  set_get _ := rfl
  set_set _ _ _ := rfl

theorem replays_checkTx (node : Remembers app) (tx : TransactionEnvelope) (lastSeq : ℤ) :
    Replays besideLedger (KnowsMore app) (· = .txSUCCESS)
      (Transactions.checkValid app tx lastSeq) := by
  intro w code w' h hcode
  obtain ⟨hle, again⟩ := replays_checkValid (marks_of_remembers node) tx lastSeq w code w' h hcode
  refine ⟨hle, fun e he => ?_⟩
  obtain ⟨x, hx, hrun⟩ := again e.1 he
  refine ⟨(x, w'.mCachedAccount, w'.signatureChecker), hx, ?_⟩
  rw [← checkValid_fresh tx lastSeq _ e.2.1 e.2.2] at hrun
  exact hrun

theorem replays_checkAccountTxs (node : Remembers app) (txs : List TransactionEnvelope)
    (loop : AccountLoop Unit) :
    Replays besideLedger (KnowsMore app) (·.1 = true) (checkAccountTxs app rejecting txs loop) := by
  induction txs generalizing loop with
  | nil => exact Replays.pure _
  | cons tx txs ih =>
    refine (replays_checkTx node tx loop.lastSeq).bind (fun code => ?_) ?_
    · by_cases hcode : code = .txSUCCESS
      · rw [if_pos hcode]
        exact ih _
      · rw [if_neg hcode]
        exact Replays.pure _
    · intro code w res w' h hres
      by_contra hcode
      rw [if_neg hcode] at h
      obtain ⟨rfl, -⟩ := pure_ok.mp h
      cases hres

theorem inert_loadAccount' (accountID : AccountID) :
    Inert besideLedger (loadAccount accountID : AppM X (Option AccountEntry)) := by
  intro w e
  refine congrArg (EStateM.Result.ok _) ?_
  unfold World.load
  split_ifs <;> first | rfl | contradiction

theorem inert_checkFees (handlers : Handlers σ) (item : List TransactionEnvelope)
    (loop : AccountLoop σ) :
    Inert besideLedger (checkFees handlers item loop : AppM X (Bool × σ)) := by
  unfold checkFees
  cases loop.lastTx with
  | none => exact Inert.pure _
  | some lastTx =>
    refine (inert_loadAccount' _).bind fun entry => ?_
    refine Inert.bind ?_ fun source => ?_
    · cases entry <;> exact fun _ _ => rfl
    refine Inert.bind (fun _ _ => rfl) fun header => Inert.ite ?_ (Inert.pure _)
    cases handlers.processInsufficientBalance loop.captured item <;> exact Inert.pure _

theorem replays_checkAccount (node : Remembers app) (item : List TransactionEnvelope) :
    Replays besideLedger (KnowsMore app) (·.1 = true) (checkAccount app rejecting item ()) := by
  refine (replays_checkAccountTxs node item _).bind (fun res => ?_) ?_
  · obtain ⟨ok, loop⟩ := res
    cases ok with
    | false => exact Replays.pure _
    | true => exact (inert_checkFees rejecting item loop).replays
  · rintro ⟨ok, loop⟩ w res w' h hres
    cases ok with
    | false =>
      obtain ⟨rfl, -⟩ := pure_ok.mp h
      cases hres
    | true => rfl

theorem replays_checkAccounts (node : Remembers app) (items : List (List TransactionEnvelope)) :
    Replays besideLedger (KnowsMore app) (·.1 = true) (checkAccounts app rejecting items ()) := by
  induction items with
  | nil => exact Replays.pure _
  | cons item items ih =>
    refine (replays_checkAccount node item).bind (fun res => ?_) ?_
    · obtain ⟨ok, u⟩ := res
      cases ok with
      | false => exact Replays.pure _
      | true => exact ih
    · rintro ⟨ok, u⟩ w res w' h hres
      cases ok with
      | false =>
        obtain ⟨rfl, -⟩ := pure_ok.mp h
        cases hres
      | true => rfl

theorem replays_checkOrTrim (node : Remembers app) (txs : List TransactionEnvelope) :
    Replays besideLedger (KnowsMore app) (·.1 = true) (checkOrTrim app rejecting txs ()) := by
  refine Replays.rolledBack (fun _ _ _ _ => rfl) (fun _ _ => rfl) ?_
  by_cases hsorted : sortedCorrectly app.fullHash 0 txs = true
  · rw [if_pos hsorted]
    exact replays_checkAccounts node _
  · rw [if_neg hsorted]
    exact Replays.pure _

/-- Two states on the same ledger. -/
def SameLedger (w w' : World X) : Prop :=
  w.ltx = w'.ltx ∧ w.lastModifiedLedgerSeq = w'.lastModifiedLedgerSeq

theorem SameLedger.trans {w w' w'' : World X} (h : SameLedger w w') (h' : SameLedger w' w'') :
    SameLedger w w'' :=
  ⟨h.1.trans h'.1, h.2.trans h'.2⟩

theorem SameLedger.eq_set {w w' : World X} (h : SameLedger w w') :
    w' = besideLedger.set w (besideLedger.get w') := by
  obtain ⟨ltx, seq, acc, checker, ext⟩ := w
  obtain ⟨ltx', seq', acc', checker', ext'⟩ := w'
  obtain ⟨rfl, rfl⟩ : ltx = ltx' ∧ seq = seq' := h
  rfl

theorem checkValid_true {lclHash : Hash} {lcl : LedgerHeader} {frame : TxSetFrame} {w w' : World X} :
    checkValid app lclHash lcl frame w = .ok true w' ↔
      lclHash = frame.mPreviousLedgerHash ∧ frame.mTransactions.length ≤ lcl.maxTxSetSize ∧
        checkOrTrim app rejecting frame.mTransactions () w = .ok (true, ()) w' := by
  unfold checkValid
  by_cases hhash : lclHash ≠ frame.mPreviousLedgerHash
  · rw [if_pos hhash]
    simp [pure_ok, hhash]
  by_cases hsize : lcl.maxTxSetSize < frame.mTransactions.length
  · rw [if_neg hhash, if_pos hsize]
    simp [pure_ok, hsize]
  · rw [if_neg hhash, if_neg hsize, bind_ok]
    constructor
    · rintro ⟨⟨ok, u⟩, w₁, hrun, hok⟩
      obtain ⟨rfl, rfl⟩ := pure_ok.mp hok
      exact ⟨not_not.mp hhash, not_lt.mp hsize, hrun⟩
    · rintro ⟨-, -, hrun⟩
      exact ⟨(true, ()), w', hrun, rfl⟩

/-- A set that was valid is valid later on the same ledger, and there is nothing to trim in it. -/
theorem checkValid_again (node : Remembers app) {lclHash : Hash} {lcl : LedgerHeader}
    {frame : TxSetFrame} {w w' w₁ : World X} (h : checkValid app lclHash lcl frame w = .ok true w')
    (hledger : SameLedger w w₁) (hnode : Sent app w'.ext w₁.ext) :
    ∃ w₂, SameLedger w₁ w₂ ∧ Sent app w₁.ext w₂.ext ∧
      checkValid app lclHash lcl frame w₁ = .ok true w₂ ∧
      trimInvalid app frame w₁ = .ok (frame, []) w₂ := by
  obtain ⟨hhash, hsize, hrun⟩ := checkValid_true.mp h
  obtain ⟨-, again⟩ := replays_checkOrTrim node frame.mTransactions w _ w' hrun rfl
  obtain ⟨e, he, hagain⟩ := again (besideLedger.get w₁) hnode
  rw [← hledger.eq_set] at hagain
  refine ⟨besideLedger.set w' e, ?_, he, checkValid_true.mpr ⟨hhash, hsize, hagain⟩, ?_⟩
  · obtain ⟨w₃, -, heq⟩ := rolledBack_ok.mp hagain
    rw [← heq]
    exact ⟨rfl, rfl⟩
  · obtain ⟨hsorted, hclean⟩ := checkOrTrim_clean trimming (frame, []) hagain
    unfold trimInvalid
    rw [sortForHash_of_sorted hsorted]
    exact bind_ok.mpr ⟨(true, frame, []), _, hclean, rfl⟩

end Again

end TxSetFrame

end ZaggCore.Herder
