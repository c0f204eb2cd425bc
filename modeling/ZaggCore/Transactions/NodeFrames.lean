import Mathlib
import ZaggCore.Transactions.TransactionFrame

/-! # What leaves the bitcoin node aside

Of all the operations only a mark calls the node. Every other part of a transaction keeps the node's
state, however it ends. -/

namespace ZaggCore.Transactions
set_option autoImplicit false
set_option maxHeartbeats 250000

open Foundations Numeric Signatures

variable {X Q : Type}

/-- The node is in the same state. -/
def SameNode (w w' : World X) : Prop := w'.ext = w.ext

instance : Std.Refl (SameNode (X := X)) := ⟨fun _ => rfl⟩

instance : IsTrans (World X) SameNode := ⟨fun _ _ _ h h' => h'.trans h⟩

/-- However the program ends, the node is in the same state. -/
abbrev Aside {α : Type} (x : AppM X α) : Prop := Keeps SameNode x

/-! ## Ledger access -/

theorem ext_load (w : World X) (key : LedgerKey) : (w.load key).ext = w.ext := by
  unfold World.load
  split <;> rfl

theorem aside_getLedger : Aside (getLedger : AppM X AbstractLedgerTxn) := fun _ => rfl

theorem aside_loadHeader : Aside (loadHeader : AppM X LedgerHeader) := fun _ => rfl

theorem aside_storeHeader (header : LedgerHeader) : Aside (storeHeader header : AppM X Unit) :=
  fun _ => rfl

theorem aside_store (e : LedgerEntryData) : Aside (store e : AppM X Unit) := fun _ => rfl

theorem aside_storeAccount (acc : AccountEntry) : Aside (storeAccount acc : AppM X Unit) := fun _ => rfl

theorem aside_create (e : LedgerEntryData) : Aside (create e : AppM X Unit) := by
  intro w
  unfold create
  cases w.ltx.getNewestVersion e.key <;> rfl

theorem aside_erase (key : LedgerKey) : Aside (erase key : AppM X Unit) := by
  intro w
  unfold erase
  cases w.ltx.getNewestVersion key <;> rfl

theorem aside_loadAccount (a : AccountID) : Aside (loadAccount a : AppM X (Option AccountEntry)) :=
  fun w => ext_load w _

theorem aside_loadAccountWithoutRecord (a : AccountID) :
    Aside (loadAccountWithoutRecord a : AppM X (Option AccountEntry)) := fun _ => rfl

theorem aside_loadData (a : AccountID) (n : String64) :
    Aside (loadData a n : AppM X (Option DataEntry)) := fun w => ext_load w _

theorem aside_loadOffer (a : AccountID) (i : ℕ) : Aside (loadOffer a i : AppM X (Option OfferEntry)) :=
  fun w => ext_load w _

theorem aside_loadTrustLineEntry (a : AccountID) (asset : Asset) :
    Aside (loadTrustLineEntry a asset : AppM X (Option TrustLineEntry)) := fun w => ext_load w _

theorem aside_current {α : Type} (entry : Option α) : Aside (current entry : AppM X α) := by
  cases entry <;> exact fun _ => rfl

theorem aside_getImpl (line : Option TrustLineWrapper) :
    Aside (getImpl line : AppM X TrustLineWrapper) := by
  cases line <;> exact fun _ => rfl

theorem aside_rolledBack {α : Type} {x : AppM X α} (hx : Aside x) :
    Aside (rolledBack World.restore x) :=
  .rolledBack hx

theorem aside_committed {α : Type} {x : AppM X α} (hx : Aside x) : Aside (committed World.restore x) :=
  .committed hx hx

theorem aside_committedIf {α : Type} {x : AppM X (α × Bool)} (hx : Aside x) :
    Aside (committedIf World.restore x) :=
  .committedIf hx hx

theorem aside_loadAccountCached (a : AccountID) :
    Aside (loadAccountCached a : AppM X (Option AccountEntry)) := by
  refine aside_loadHeader.bind fun header => Keeps.get.bind fun w => ?_
  cases w.mCachedAccount with
  | none => exact aside_loadAccount a
  | some cached =>
    refine .ite (fun _ => (aside_loadAccount a).bind fun acc => ?_) fun _ => aside_loadAccount a
    cases acc with
    | none => exact (aside_create _).bind fun _ => .pure _
    | some acc => exact (aside_storeAccount cached).bind fun _ => .pure _

theorem aside_storeCached (acc : AccountEntry) : Aside (storeCached acc : AppM X Unit) := by
  refine (aside_storeAccount acc).bind fun _ => .modify fun w => ?_
  split <;> rfl

theorem aside_loadSourceAccount (a : AccountID) :
    Aside (loadSourceAccount a : AppM X (Option AccountEntry)) := by
  refine (aside_loadAccountCached a).bind fun res => aside_loadHeader.bind fun header => ?_
  refine .ite (fun _ => .bind (.modify fun w => ?_) fun _ => .pure _) fun _ => .pure _
  exact refl_of SameNode w

theorem aside_updateAccount {assign : AccountEntry → AppM X Unit} (hassign : ∀ acc, Aside (assign acc))
    (change : AccountEntry → Except Exception (Option AccountEntry)) (acc : AccountEntry) :
    Aside (updateAccount assign change acc) := by
  refine (Keeps.lift _).bind fun res => ?_
  cases res with
  | none => exact .pure _
  | some acc => exact (hassign acc).bind fun _ => .pure _

theorem aside_update (change : TrustLineEntry → Except Exception (Option TrustLineEntry))
    (line : TrustLineWrapper) : Aside (line.update change : AppM X _) := by
  cases line with
  | IssuerImpl a s => exact .pure _
  | NonIssuerImpl tl =>
    refine (Keeps.lift _).bind fun res => ?_
    cases res with
    | none => exact .pure _
    | some tl => exact (aside_store _).bind fun _ => .pure _

theorem aside_wrapTrustLine {load : AccountID → Asset → AppM X (Option TrustLineEntry)}
    (hload : ∀ a s, Aside (load a s)) (a : AccountID) (asset : Asset) :
    Aside (wrapTrustLine load a asset) := by
  refine (Keeps.lift _).bind fun _ => (Keeps.lift _).bind fun issuer => ?_
  exact .ite (fun _ => .pure _) fun _ => (hload a asset).bind fun _ => .pure _

theorem aside_loadTrustLine (a : AccountID) (asset : Asset) :
    Aside (loadTrustLine a asset : AppM X (Option TrustLineWrapper)) :=
  aside_wrapTrustLine aside_loadTrustLineEntry a asset

theorem aside_loadTrustLineIfNotNative (a : AccountID) (asset : Asset) :
    Aside (loadTrustLineIfNotNative a asset : AppM X (Option TrustLineWrapper)) :=
  .ite (fun _ => .pure _) fun _ => aside_loadTrustLine a asset

theorem aside_loadTrustLineWithoutRecordIfNotNative (a : AccountID) (asset : Asset) :
    Aside (loadTrustLineWithoutRecordIfNotNative a asset : AppM X (Option TrustLineWrapper)) := by
  refine .ite (fun _ => .pure _) fun _ => ?_
  have hload : ∀ a s, Aside (fun w => .ok (w.ltx.trustLine a s) w : AppM X (Option TrustLineEntry)) :=
    fun _ _ w => refl_of SameNode w
  exact aside_wrapTrustLine hload a asset

/-! ## The operations on accounts, trust lines and data -/

section AccountOperations

theorem aside_createAccount (sourceID destination : AccountID) (startingBalance : ℤ) :
    Aside (CreateAccountOpFrame.doApply sourceID destination startingBalance : AppM X _) := by
  refine (aside_loadAccount _).bind fun found => .ite (fun _ => .pure _) fun _ => ?_
  refine aside_loadHeader.bind fun header => .ite (fun _ => .pure _) fun _ => ?_
  refine (aside_loadAccountWithoutRecord _).bind fun source => ?_
  refine (aside_loadAccountCached _).bind fun acc => (aside_current acc).bind fun acc => ?_
  refine .ite (fun _ => .pure _) fun _ => (Keeps.lift _).bind fun _ => ?_
  refine (aside_updateAccount aside_storeCached _ _).bind fun ok => (Keeps.lift _).bind fun _ => ?_
  exact (aside_create _).bind fun _ => .pure _

theorem aside_staleBalance (header : LedgerHeader) (sourceID : AccountID) :
    Aside (MergeOpFrame.staleBalance header sourceID : AppM X _) :=
  .ite (fun _ => (aside_loadAccountWithoutRecord _).bind fun _ => .pure _) fun _ => .pure _

theorem aside_merge (sourceID destination : AccountID) :
    Aside (MergeOpFrame.doApply sourceID destination : AppM X _) := by
  refine aside_loadHeader.bind fun header => (aside_loadAccount _).bind fun other => ?_
  cases other with
  | none => exact .pure _
  | some other =>
    refine (aside_staleBalance header sourceID).bind fun stale => ?_
    cases stale with
    | none => exact .pure _
    | some stale =>
      refine (aside_loadAccountCached _).bind fun acc => (aside_current acc).bind fun acc => ?_
      refine .ite (fun _ => .pure _) fun _ => .ite (fun _ => .pure _) fun _ => ?_
      refine .ite (fun _ => .pure _) fun _ => ?_
      refine (aside_updateAccount aside_storeAccount _ _).bind fun ok => .ite (fun _ => .pure _) fun _ => ?_
      exact (aside_erase _).bind fun _ => .pure _

theorem aside_bumpSequence (sourceID : AccountID) (bumpTo : ℤ) :
    Aside (BumpSequenceOpFrame.doApply sourceID bumpTo : AppM X _) := by
  refine aside_committedIf ?_
  refine (aside_loadAccountCached _).bind fun acc => (aside_current acc).bind fun acc => ?_
  exact .ite (fun _ => (aside_storeCached _).bind fun _ => .pure _) fun _ => .pure _

theorem aside_receivable (header : LedgerHeader) (a : AccountID) (amount : ℤ) :
    Aside (InflationOpFrame.receivable header a amount : AppM X _) := by
  refine .ite (fun _ => .pure _) fun _ => (aside_loadAccountWithoutRecord _).bind fun acc => ?_
  cases acc <;> exact .pure _

theorem aside_creditWinners (header : LedgerHeader) (amountToDole totalVotes : ℤ)
    (winners : List (AccountID × ℤ)) (leftAfterDole totalCoins : ℤ) :
    Aside (InflationOpFrame.creditWinners header amountToDole totalVotes winners leftAfterDole totalCoins :
      AppM X _) := by
  induction winners generalizing leftAfterDole totalCoins with
  | nil => exact .pure _
  | cons winner winners ih =>
    refine (Keeps.lift _).bind fun dole => .ite (fun _ => ih _ _) fun _ => ?_
    refine (aside_receivable _ _ _).bind fun dole => .ite (fun _ => ih _ _) fun _ => ?_
    refine (aside_loadAccount _).bind fun acc => ?_
    cases acc with
    | none => exact ih _ _
    | some acc =>
      refine (aside_updateAccount aside_storeAccount _ _).bind fun ok => (Keeps.lift _).bind fun _ => ?_
      exact ih _ _

theorem aside_inflation (app : Application X Q) : Aside (InflationOpFrame.doApply app) := by
  refine aside_getLedger.bind fun ltx => .ite (fun _ => .pure _) fun _ => ?_
  refine (Keeps.lift _).bind fun minBalance => (Keeps.lift _).bind fun inflationAmount => ?_
  refine (aside_creditWinners _ _ _ _ _ _).bind fun left => ?_
  exact (aside_storeHeader _).bind fun _ => .pure _

/-- An entry is counted in or out for the account that `loadSourceAccount` gives. -/
theorem aside_countEntry {α : Type} (header : LedgerHeader) (sourceID : AccountID) (count : ℤ)
    {f : Option AccountEntry → AppM X α} (hf : ∀ res, Aside (f res)) :
    Aside (do
      let sourceAccount ← current (← loadAccountCached sourceID)
      f (← updateAccount storeCached (addNumEntries header · count) sourceAccount)) := by
  refine (aside_loadAccountCached _).bind fun acc => (aside_current acc).bind fun acc => ?_
  exact (aside_updateAccount aside_storeCached _ _).bind hf

theorem aside_manageData (sourceID : AccountID) (dataName : String64)
    (dataValue : Option (List (Fin 256))) :
    Aside (ManageDataOpFrame.doApply sourceID dataName dataValue : AppM X _) := by
  refine aside_loadHeader.bind fun header => (Keeps.lift _).bind fun _ => ?_
  refine (aside_loadData _ _).bind fun data => ?_
  cases dataValue with
  | some value =>
    cases data with
    | none =>
      refine aside_countEntry header sourceID 1 fun res => .ite (fun _ => .pure _) fun _ => ?_
      exact (aside_create _).bind fun _ => .pure _
    | some data => exact (aside_store _).bind fun _ => .pure _
  | none =>
    cases data with
    | none => exact .pure _
    | some data =>
      exact (aside_erase _).bind fun _ => aside_countEntry header sourceID (-1) fun _ => .pure _

theorem aside_modifyLine (header : LedgerHeader) (sourceID issuerID : AccountID) (line : Asset)
    (limit : ℤ) (trustLine : TrustLineEntry) :
    Aside (ChangeTrustOpFrame.modifyLine header sourceID issuerID line limit trustLine : AppM X _) := by
  refine .ite (fun _ => .pure _) fun _ => .ite (fun _ => ?_) fun _ => ?_
  · exact (aside_erase _).bind fun _ => aside_countEntry header sourceID (-1) fun _ => .pure _
  · refine (aside_loadAccountWithoutRecord _).bind fun issuer => .ite (fun _ => .pure _) fun _ => ?_
    exact (aside_store _).bind fun _ => .pure _

theorem aside_createLine (header : LedgerHeader) (sourceID issuerID : AccountID) (line : Asset)
    (limit : ℤ) : Aside (ChangeTrustOpFrame.createLine header sourceID issuerID line limit : AppM X _) := by
  refine .ite (fun _ => .pure _) fun _ => (aside_loadAccountWithoutRecord _).bind fun issuer => ?_
  cases issuer with
  | none => exact .pure _
  | some issuer =>
    refine aside_countEntry header sourceID 1 fun res => .ite (fun _ => .pure _) fun _ => ?_
    exact (aside_create _).bind fun _ => .pure _

theorem aside_changeTrust (sourceID : AccountID) (line : Asset) (limit : ℤ) :
    Aside (ChangeTrustOpFrame.doApply sourceID line limit : AppM X _) := by
  refine aside_loadHeader.bind fun header => (Keeps.lift _).bind fun issuerID => .ite (fun _ => ?_) fun _ => ?_
  · refine .ite (fun _ => .pure _) fun _ => .ite (fun _ => .pure _) fun _ => ?_
    exact (aside_loadAccountWithoutRecord _).bind fun issuer => .ite (fun _ => .pure _) fun _ => .pure _
  · refine (aside_loadTrustLineEntry _ _).bind fun trustLine => ?_
    cases trustLine with
    | none => exact aside_createLine header sourceID issuerID line limit
    | some trustLine => exact aside_modifyLine header sourceID issuerID line limit trustLine

theorem aside_setOptions (sourceID : AccountID) (op : SetOptionsOp) :
    Aside (SetOptionsOpFrame.doApply sourceID op : AppM X _) := by
  refine aside_loadHeader.bind fun header => ?_
  refine (aside_loadAccountCached _).bind fun acc => (aside_current acc).bind fun acc => ?_
  refine aside_getLedger.bind fun ltx => (Keeps.lift _).bind fun res => ?_
  exact (aside_storeCached _).bind fun _ => .pure _

end AccountOperations

/-! ## Crossing offers -/

section Offers

theorem aside_canSellAtMost (header : LedgerHeader) (account : Option AccountEntry) (asset : Asset)
    (line : Option TrustLineWrapper) : Aside (canSellAtMost header account asset line : AppM X ℤ) := by
  refine .ite (fun _ => (aside_current account).bind fun _ => .pure _) fun _ => ?_
  cases line <;> exact .pure _

theorem aside_canBuyAtMost (header : LedgerHeader) (account : Option AccountEntry) (asset : Asset)
    (line : Option TrustLineWrapper) : Aside (canBuyAtMost header account asset line : AppM X ℤ) :=
  .ite (fun _ => (aside_current account).bind fun _ => .pure _) fun _ => .pure _

theorem aside_changeLiabilities (sellerID : AccountID) (asset : Asset) (what : String)
    (onAccount : AccountEntry → Except Exception (Option AccountEntry))
    {onLine : TrustLineWrapper → AppM X (Option TrustLineWrapper)} (hline : ∀ line, Aside (onLine line)) :
    Aside (changeLiabilities sellerID asset what onAccount onLine) := by
  refine .ite (fun _ => (aside_loadAccount _).bind fun acc => ?_)
    fun _ => (aside_loadTrustLine _ _).bind fun line => ?_
  · cases acc with
    | none => exact .throw _
    | some acc =>
      refine (aside_updateAccount aside_storeAccount _ _).bind fun res => ?_
      cases res with
      | none => exact .throw _
      | some res => exact .pure _
  · cases line with
    | none => exact .throw _
    | some line =>
      refine (hline line).bind fun res => ?_
      cases res with
      | none => exact .throw _
      | some res => exact .pure _

theorem aside_acquireOrReleaseLiabilities (header : LedgerHeader) (offer : OfferEntry)
    (isAcquire : Bool) : Aside (acquireOrReleaseLiabilities header offer isAcquire : AppM X Unit) := by
  refine (Keeps.lift _).bind fun _ => (Keeps.lift _).bind fun buying => ?_
  refine (aside_changeLiabilities _ _ _ _ fun line => aside_update _ line).bind fun _ => ?_
  refine (Keeps.lift _).bind fun selling => ?_
  exact aside_changeLiabilities _ _ _ _ fun line => aside_update _ line

theorem aside_removeNumEntry (header : LedgerHeader) (a : AccountID) :
    Aside (removeNumEntry header a : AppM X Unit) := by
  refine (aside_loadAccount a).bind fun acc => (aside_current acc).bind fun acc => ?_
  exact (aside_updateAccount aside_storeAccount _ _).bind fun _ => .pure _

theorem aside_addAssetBalance (header : LedgerHeader) (a : AccountID) (asset : Asset) (delta : ℤ) :
    Aside (addAssetBalance header a asset delta : AppM X Bool) := by
  refine .ite (fun _ => ?_) fun _ => ?_
  · refine (aside_loadAccount a).bind fun acc => (aside_current acc).bind fun acc => ?_
    exact (aside_updateAccount aside_storeAccount _ _).bind fun _ => .pure _
  · refine (aside_loadTrustLine a asset).bind fun line => (aside_getImpl line).bind fun line => ?_
    exact (aside_update _ line).bind fun _ => .pure _

theorem aside_crossBalance (header : LedgerHeader) (a : AccountID) (asset : Asset) (delta : ℤ) :
    Aside (crossBalance header a asset delta : AppM X Bool) := by
  refine .ite (fun _ => .pure _) fun _ => aside_committedIf ?_
  exact (aside_addAssetBalance header a asset delta).bind fun _ => .pure _

theorem aside_takeOffer (header : LedgerHeader) (offer : OfferEntry) (newAmount : ℤ) :
    Aside (takeOffer header offer newAmount : AppM X Unit) :=
  .ite (fun _ => (aside_erase _).bind fun _ => aside_removeNumEntry _ _) fun _ => aside_store _

theorem aside_performExchange (header : LedgerHeader) (offer : OfferEntry) (accountB : AccountEntry)
    (wheatLine sheepLine : Option TrustLineWrapper) (maxWheatReceived maxSheepSend : ℤ) :
    Aside (performExchange header offer accountB wheatLine sheepLine maxWheatReceived maxSheepSend :
      AppM X _) := by
  refine (Keeps.lift _).bind fun basedOnSheep => (aside_canSellAtMost _ _ _ _).bind fun atMost => ?_
  refine (Keeps.lift _).bind fun _ => (Keeps.lift _).bind fun res => ?_
  cases res.type <;> exact .pure _

theorem aside_crossOffer (offer : OfferEntry) (maxWheatReceived maxSheepSend : ℤ) :
    Aside (crossOffer offer maxWheatReceived maxSheepSend : AppM X Crossed) := by
  refine (Keeps.lift _).bind fun _ => (Keeps.lift _).bind fun _ => aside_loadHeader.bind fun header => ?_
  refine (aside_loadAccountWithoutRecord _).bind fun acc => ?_
  cases acc with
  | none => exact .throw _
  | some acc =>
    refine (aside_loadTrustLineWithoutRecordIfNotNative _ _).bind fun sheepLine => ?_
    refine (aside_loadTrustLineWithoutRecordIfNotNative _ _).bind fun wheatLine => ?_
    refine (aside_performExchange _ _ _ _ _ _ _).bind fun res => .ite (fun _ => .pure _) fun _ => ?_
    refine (aside_takeOffer _ _ _).bind fun _ => ?_
    refine (aside_crossBalance _ _ _ _).bind fun ok => .ite (fun _ => .pure _) fun _ => ?_
    exact (aside_crossBalance _ _ _ _).bind fun ok => .ite (fun _ => .pure _) fun _ => .pure _

theorem aside_adjustOfferEntry (header : LedgerHeader) (offer : OfferEntry)
    (account : Option AccountEntry) (wheatLine sheepLine : Option TrustLineWrapper) :
    Aside (adjustOfferEntry header offer account wheatLine sheepLine : AppM X ℤ) := by
  refine (aside_canSellAtMost _ _ _ _).bind fun send => (aside_canBuyAtMost _ _ _ _).bind fun receive => ?_
  exact .lift _

theorem aside_changeParty (header : LedgerHeader) (accountB : Option AccountEntry)
    (line : Option TrustLineWrapper) (asset : Asset) (delta : ℤ) (what : String) :
    Aside (changeParty header accountB line asset delta what : AppM X _) := by
  refine .ite (fun _ => .pure _) fun _ => .ite (fun _ => ?_) fun _ => ?_
  · refine (aside_current accountB).bind fun acc => ?_
    refine (aside_updateAccount aside_storeAccount _ _).bind fun res => ?_
    cases res with
    | none => exact .throw _
    | some res => exact .pure _
  · refine (aside_getImpl line).bind fun line => (aside_update _ line).bind fun res => ?_
    cases res with
    | none => exact .throw _
    | some res => exact .pure _

theorem aside_loadParties (accountBID : AccountID) (wheat sheep : Asset) :
    Aside (loadParties accountBID wheat sheep : AppM X Parties) := by
  refine .bind (.ite (fun _ => aside_loadAccount _) fun _ => .pure _) fun acc => ?_
  refine (aside_loadTrustLineIfNotNative _ _).bind fun sheepLine => ?_
  exact (aside_loadTrustLineIfNotNative _ _).bind fun wheatLine => .pure _

theorem aside_leaveOffer (header : LedgerHeader) (sellerID : AccountID) (offerID : ℕ) (taken : Bool) :
    Aside (leaveOffer header sellerID offerID taken : AppM X Unit) := by
  refine aside_committed ?_
  refine (aside_loadOffer _ _).bind fun offer => (aside_current offer).bind fun offer => ?_
  refine .ite (fun _ => ?_) fun _ => aside_acquireOrReleaseLiabilities _ _ _
  exact (aside_erase _).bind fun _ => aside_removeNumEntry _ _

theorem aside_crossOfferV10 (offer : OfferEntry) (maxWheatReceived maxSheepSend : ℤ)
    (isPathPayment : Bool) :
    Aside (crossOfferV10 offer maxWheatReceived maxSheepSend isPathPayment : AppM X Crossed) := by
  refine (Keeps.lift _).bind fun _ => (Keeps.lift _).bind fun _ => aside_loadHeader.bind fun header => ?_
  refine (aside_loadAccountWithoutRecord _).bind fun acc => (Keeps.lift _).bind fun _ => ?_
  refine (aside_acquireOrReleaseLiabilities _ _ _).bind fun _ => ?_
  refine (aside_loadParties _ _ _).bind fun parties => (aside_adjustOfferEntry _ _ _ _ _).bind fun amount => ?_
  refine (aside_canSellAtMost _ _ _ _).bind fun send => (aside_canBuyAtMost _ _ _ _).bind fun receive => ?_
  refine (Keeps.lift _).bind fun res => ?_
  refine (aside_changeParty _ _ _ _ _ _).bind fun sheepSide => ?_
  refine (aside_changeParty _ _ _ _ _ _).bind fun wheatSide => ?_
  refine .bind (.ite (fun _ => aside_adjustOfferEntry _ _ _ _ _) fun _ => .pure _) fun amount => ?_
  exact (aside_store _).bind fun _ => (aside_leaveOffer _ _ _ _).bind fun _ => .pure _

variable [LinearOrder Q] (app : Application X Q)

theorem aside_convertPass (sheep : Asset) (maxSheepSend : ℤ) (wheat : Asset) (maxWheatReceive : ℤ)
    (isPathPayment : Bool) (filter : OfferEntry → Except Exception OfferFilterResult) :
    Aside (convertPass app sheep maxSheepSend wheat maxWheatReceive isPathPayment filter) := by
  refine aside_committedIf (aside_getLedger.bind fun ltx => ?_)
  cases ltx.getBestOffer app.quotient sheep wheat with
  | none => exact .pure _
  | some offer =>
    refine (Keeps.lift _).bind fun keep => ?_
    cases keep with
    | eStop crossSelf => exact .pure _
    | eKeep =>
      refine aside_loadHeader.bind fun header => .bind (.ite (fun _ => aside_crossOfferV10 _ _ _ _)
        fun _ => aside_crossOffer _ _ _) fun c => ?_
      refine (Keeps.lift _).bind fun _ => (Keeps.lift _).bind fun _ => ?_
      exact (Keeps.lift _).bind fun _ => (Keeps.lift _).bind fun _ => .pure _

theorem aside_convertLoop (sheep wheat : Asset) (isPathPayment : Bool)
    (filter : OfferEntry → Except Exception OfferFilterResult) (fuel : ℕ)
    (maxSheepSend sheepSend maxWheatReceive wheatReceived : ℤ) :
    Aside (convertLoop app sheep wheat isPathPayment filter fuel maxSheepSend sheepSend maxWheatReceive
      wheatReceived) := by
  induction fuel generalizing maxSheepSend sheepSend maxWheatReceive wheatReceived with
  | zero => exact .throw _
  | succ fuel ih =>
    refine (aside_convertPass app _ _ _ _ _ _).bind fun pass => ?_
    cases pass with
    | noOffer => exact aside_loadHeader.bind fun _ => .pure _
    | filterStop crossSelf => exact .pure _
    | crossed c =>
      refine .ite (fun _ => .pure _) fun _ => .ite (fun _ => .pure _) fun _ => ?_
      exact .ite (fun _ => .pure _) fun _ => ih _ _ _ _

theorem aside_convertWithOffers (sheep : Asset) (maxSheepSend : ℤ) (wheat : Asset)
    (maxWheatReceive : ℤ) (isPathPayment : Bool)
    (filter : OfferEntry → Except Exception OfferFilterResult) :
    Aside (convertWithOffers app sheep maxSheepSend wheat maxWheatReceive isPathPayment filter) :=
  .ite (fun _ => aside_getLedger.bind fun _ => aside_convertLoop app _ _ _ _ _ _ _ _ _) fun _ => .pure _

end Offers

/-! ## The operations on the order book -/

section OfferOperations

theorem aside_checkSourceFlags (sourceID : AccountID) (authorize : Bool) :
    Aside (AllowTrustOpFrame.checkSourceFlags sourceID authorize : AppM X _) := by
  refine aside_rolledBack ?_
  refine (aside_loadAccountCached _).bind fun acc => (aside_current acc).bind fun acc => ?_
  exact .ite (fun _ => .pure _) fun _ => .ite (fun _ => .pure _) fun _ => .pure _

theorem aside_deleteOffers (header : LedgerHeader) (trustor : AccountID) (ci : Asset)
    (offers : List OfferEntry) :
    Aside (AllowTrustOpFrame.deleteOffers header trustor ci offers : AppM X Unit) := by
  induction offers with
  | nil => exact .pure _
  | cons offer offers ih =>
    refine (Keeps.lift _).bind fun _ => (Keeps.lift _).bind fun _ => ?_
    refine (aside_acquireOrReleaseLiabilities _ _ _).bind fun _ => (aside_removeNumEntry _ _).bind fun _ => ?_
    exact (aside_erase _).bind fun _ => ih

theorem aside_allowTrust (sourceID trustor : AccountID) (asset : AssetCode) (authorize : Bool) :
    Aside (AllowTrustOpFrame.doApply sourceID trustor asset authorize : AppM X _) := by
  refine aside_loadHeader.bind fun header => .ite (fun _ => .pure _) fun _ => ?_
  refine (aside_checkSourceFlags _ _).bind fun code => ?_
  cases code with
  | some code => exact .pure _
  | none =>
    refine .ite (fun _ => .pure _) fun _ => (aside_loadTrustLineEntry _ _).bind fun line => ?_
    cases line with
    | none => exact .pure _
    | some line =>
      refine aside_getLedger.bind fun ltx => (aside_deleteOffers _ _ _ _).bind fun _ => ?_
      refine (aside_loadTrustLineEntry _ _).bind fun line => (aside_current line).bind fun line => ?_
      exact (aside_store _).bind fun _ => .pure _

theorem aside_checkIssuer (bypass : Bool) (asset : Asset) :
    Aside (PathPaymentOpFrame.checkIssuer bypass asset : AppM X _) := by
  refine .ite (fun _ => .pure _) fun _ => (Keeps.lift _).bind fun issuer => ?_
  exact (aside_loadAccountWithoutRecord _).bind fun acc => .ite (fun _ => .pure _) fun _ => .pure _

theorem aside_creditDestination (op : PathPaymentOp) (bypass : Bool) :
    Aside (PathPaymentOpFrame.creditDestination op bypass : AppM X _) := by
  refine (aside_loadAccountWithoutRecord _).bind fun found => .ite (fun _ => .pure _) fun _ => ?_
  refine aside_loadHeader.bind fun header => .ite (fun _ => ?_) fun _ => ?_
  · refine (aside_loadAccount _).bind fun acc => (aside_current acc).bind fun acc => ?_
    refine (aside_updateAccount aside_storeAccount _ _).bind fun res => ?_
    exact .ite (fun _ => .pure _) fun _ => .pure _
  · refine (aside_checkIssuer _ _).bind fun code => ?_
    cases code with
    | some code => exact .pure _
    | none =>
      refine (aside_loadTrustLine _ _).bind fun line => ?_
      cases line with
      | none => exact .pure _
      | some line =>
        refine .ite (fun _ => .pure _) fun _ => (aside_update _ line).bind fun res => ?_
        exact .ite (fun _ => .pure _) fun _ => .pure _

theorem aside_loadPayer (header : LedgerHeader) (sourceID : AccountID) :
    Aside (PathPaymentOpFrame.loadPayer header sourceID : AppM X _) := by
  refine .ite (fun _ => aside_loadAccount _) fun _ => (aside_loadAccountCached _).bind fun acc => ?_
  exact (aside_current acc).bind fun _ => .pure _

theorem aside_debitSource (sourceID : AccountID) (bypass doesSourceAccountExist : Bool) (curB : Asset)
    (curBSent : ℤ) :
    Aside (PathPaymentOpFrame.debitSource sourceID bypass doesSourceAccountExist curB curBSent :
      AppM X _) := by
  refine aside_loadHeader.bind fun header => .ite (fun _ => ?_) fun _ => ?_
  · refine (aside_loadPayer _ _).bind fun acc => ?_
    cases acc with
    | none => exact .pure _
    | some acc =>
      refine .ite (fun _ => .pure _) fun _ => (Keeps.lift _).bind fun _ => ?_
      refine (aside_updateAccount (fun acc => ?_) _ _).bind fun ok => (Keeps.lift _).bind fun _ => .pure _
      split_ifs
      · exact aside_storeAccount acc
      · exact aside_storeCached acc
  · refine (aside_checkIssuer _ _).bind fun code => ?_
    cases code with
    | some code => exact .pure _
    | none =>
      refine (aside_loadTrustLine _ _).bind fun line => ?_
      cases line with
      | none => exact .pure _
      | some line =>
        refine .ite (fun _ => .pure _) fun _ => (aside_update _ line).bind fun res => ?_
        exact .ite (fun _ => .pure _) fun _ => .pure _

section

variable [LinearOrder Q] (app : Application X Q)

theorem aside_convert (sourceID : AccountID) (curA curB : Asset) (curBReceived : ℤ) :
    Aside (PathPaymentOpFrame.convert app sourceID curA curB curBReceived) := by
  refine (aside_checkIssuer _ _).bind fun code => ?_
  cases code with
  | some code => exact .pure _
  | none =>
    refine (aside_convertWithOffers app _ _ _ _ _ _).bind fun res => (Keeps.lift _).bind fun _ => ?_
    cases res.1 with
    | eFilterStop crossSelf => exact .pure _
    | ePartial => exact .pure _
    | eOK => exact .ite (fun _ => .pure _) fun _ => .pure _

theorem aside_walk (sourceID : AccountID) (path : List Asset) (curB : Asset) (curBReceived : ℤ) :
    Aside (PathPaymentOpFrame.walk app sourceID path curB curBReceived) := by
  induction path generalizing curB curBReceived with
  | nil => exact .pure _
  | cons curA path ih =>
    refine .ite (fun _ => ih _ _) fun _ => (aside_convert app _ _ _ _).bind fun step => ?_
    cases step with
    | inl code => exact .pure _
    | inr curASent => exact ih _ _

theorem aside_pathPayment (sourceID : AccountID) (op : PathPaymentOp) :
    Aside (PathPaymentOpFrame.doApply app sourceID op) := by
  refine aside_loadHeader.bind fun header => (aside_loadAccountWithoutRecord _).bind fun found => ?_
  refine (aside_creditDestination _ _).bind fun code => ?_
  cases code with
  | some code => exact .pure _
  | none =>
    refine (aside_walk app _ _ _ _).bind fun step => ?_
    cases step with
    | inl code => exact .pure _
    | inr cur => exact .ite (fun _ => .pure _) fun _ => aside_debitSource _ _ _ _ _

theorem aside_payment (sourceID destination : AccountID) (asset : Asset) (amount : ℤ) :
    Aside (PaymentOpFrame.doApply app sourceID destination asset amount) := by
  refine aside_loadHeader.bind fun header => .ite (fun _ => .pure _) fun _ => ?_
  dsimp only
  split
  · exact .lift _
  · exact (aside_pathPayment app _ _).bind fun code => .lift _

end

theorem aside_checkSheepLine (sourceID : AccountID) (sheep : Asset) :
    Aside (ManageOfferOpFrame.checkSheepLine sourceID sheep : AppM X _) := by
  refine .ite (fun _ => .pure _) fun _ => (aside_loadTrustLine _ _).bind fun line => ?_
  refine (Keeps.lift _).bind fun issuer => (aside_loadAccount _).bind fun acc => .ite (fun _ => .pure _) fun _ => ?_
  cases line with
  | none => exact .pure _
  | some line => exact .ite (fun _ => .pure _) fun _ => .ite (fun _ => .pure _) fun _ => .pure _

theorem aside_checkWheatLine (sourceID : AccountID) (wheat : Asset) :
    Aside (ManageOfferOpFrame.checkWheatLine sourceID wheat : AppM X _) := by
  refine .ite (fun _ => .pure _) fun _ => (aside_loadTrustLine _ _).bind fun line => ?_
  refine (Keeps.lift _).bind fun issuer => (aside_loadAccount _).bind fun acc => .ite (fun _ => .pure _) fun _ => ?_
  cases line with
  | none => exact .pure _
  | some line => exact .ite (fun _ => .pure _) fun _ => .pure _

theorem aside_checkOfferValid (sourceID : AccountID) (op : ManageOfferOp) :
    Aside (ManageOfferOpFrame.checkOfferValid sourceID op : AppM X _) := by
  refine aside_rolledBack (.ite (fun _ => .pure _) fun _ => (aside_checkSheepLine _ _).bind fun code => ?_)
  cases code with
  | some code => exact .pure _
  | none => exact aside_checkWheatLine _ _

theorem aside_reserveOffer (header : LedgerHeader) (sheep : Asset) (creatingNewOffer : Bool)
    (sourceAccount : AccountEntry) :
    Aside (ManageOfferOpFrame.reserveOffer header sheep creatingNewOffer sourceAccount : AppM X _) :=
  .ite (fun _ => aside_updateAccount aside_storeCached _ _) fun _ => .pure _

theorem aside_computeOfferExchangeParameters (sourceID : AccountID) (offer : OfferEntry)
    (creatingNewOffer : Bool) :
    Aside (ManageOfferOpFrame.computeOfferExchangeParameters sourceID offer creatingNewOffer :
      AppM X _) := by
  refine aside_rolledBack (aside_loadHeader.bind fun header => ?_)
  refine (aside_loadAccountCached _).bind fun acc => (aside_current acc).bind fun acc => ?_
  refine (aside_reserveOffer _ _ _ _).bind fun acc => ?_
  cases acc with
  | none => exact .pure _
  | some acc =>
    refine (aside_loadTrustLineIfNotNative _ _).bind fun sheepLine => ?_
    refine (aside_loadTrustLineIfNotNative _ _).bind fun wheatLine => ?_
    refine (aside_canBuyAtMost _ _ _ _).bind fun receive => .ite (fun _ => ?_) fun _ => ?_
    · refine .bind (.ite (fun _ => .pure _) fun _ => .map _ (aside_getImpl _)) fun limit => ?_
      refine (Keeps.lift _).bind fun buying => .ite (fun _ => .pure _) fun _ => ?_
      refine .bind (.ite (fun _ => .pure _) fun _ => .map _ (aside_getImpl _)) fun balance => ?_
      refine (Keeps.lift _).bind fun selling => .ite (fun _ => .pure _) fun _ => ?_
      exact (aside_canSellAtMost _ _ _ _).bind fun send => .pure _
    · refine (aside_canSellAtMost _ _ _ _).bind fun send => (Keeps.lift _).bind fun based => .pure _

theorem aside_takeOldOffer (sourceID : AccountID) (op : ManageOfferOp) (mPassive : Bool) :
    Aside (ManageOfferOpFrame.takeOldOffer sourceID op mPassive : AppM X _) := by
  refine .ite (fun _ => .pure _) fun _ => (aside_loadOffer _ _).bind fun offer => ?_
  cases offer with
  | none => exact .pure _
  | some offer =>
    refine aside_loadHeader.bind fun header => .bind (.ite
      (fun _ => aside_acquireOrReleaseLiabilities _ _ _) fun _ => .pure _) fun _ => ?_
    exact (aside_erase _).bind fun _ => .pure _

theorem aside_settle (header : LedgerHeader) (sourceID : AccountID) (asset : Asset) (delta : ℤ)
    (what : String) : Aside (ManageOfferOpFrame.settle header sourceID asset delta what : AppM X Unit) := by
  refine .ite (fun _ => ?_) fun _ => ?_
  · refine (aside_loadAccountCached _).bind fun acc => (aside_current acc).bind fun acc => ?_
    exact (aside_updateAccount aside_storeCached _ _).bind fun res => .lift _
  · refine (aside_loadTrustLine _ _).bind fun line => (aside_getImpl line).bind fun line => ?_
    exact (aside_update _ line).bind fun res => .lift _

theorem aside_remainingAmount (header : LedgerHeader) (sourceID : AccountID) (newOffer : OfferEntry)
    (sheepStays : Bool) :
    Aside (ManageOfferOpFrame.remainingAmount header sourceID newOffer sheepStays : AppM X ℤ) := by
  refine .ite (fun _ => .pure _) fun _ => .ite (fun _ => .pure _) fun _ => ?_
  refine (aside_loadAccountWithoutRecord _).bind fun acc => ?_
  refine (aside_loadTrustLineWithoutRecordIfNotNative _ _).bind fun sheepLine => ?_
  refine (aside_loadTrustLineWithoutRecordIfNotNative _ _).bind fun wheatLine => ?_
  refine (aside_canSellAtMost _ _ _ _).bind fun send => (aside_canBuyAtMost _ _ _ _).bind fun receive => ?_
  exact .lift _

section

variable [LinearOrder Q] (app : Application X Q)

theorem aside_crossBook (sourceID : AccountID) (newOffer : OfferEntry)
    (mPassive creatingNewOffer : Bool) :
    Aside (ManageOfferOpFrame.crossBook app sourceID newOffer mPassive creatingNewOffer) := by
  refine (aside_computeOfferExchangeParameters _ _ _).bind fun parameters => ?_
  cases parameters with
  | inl code => exact .pure _
  | inr limits =>
    refine .ite (fun _ => .pure _) fun _ => (aside_convertWithOffers app _ _ _ _ _ _).bind fun res => ?_
    refine (Keeps.lift _).bind fun _ => .ite (fun _ => .pure _) fun _ => aside_loadHeader.bind fun header => ?_
    refine .bind (.ite (fun _ => ?_) fun _ => .pure _) fun _ => ?_
    · exact (aside_settle _ _ _ _ _).bind fun _ => aside_settle _ _ _ _ _
    · exact (aside_remainingAmount _ _ _ _).bind fun _ => .pure _

end

theorem aside_putOffer (header : LedgerHeader) (offer : OfferEntry) :
    Aside (ManageOfferOpFrame.leaveOffer.putOffer header offer : AppM X Unit) :=
  (aside_create _).bind fun _ =>
    .ite (fun _ => aside_acquireOrReleaseLiabilities _ _ _) fun _ => .pure _

theorem aside_manageLeaveOffer (sourceID : AccountID) (newOffer : OfferEntry) (creatingNewOffer : Bool) :
    Aside (ManageOfferOpFrame.leaveOffer sourceID newOffer creatingNewOffer : AppM X _) := by
  refine aside_loadHeader.bind fun header => .ite (fun _ => .ite (fun _ => .pure _) fun _ => ?_)
    fun _ => .ite (fun _ => ?_) fun _ => (aside_putOffer _ _).bind fun _ => .pure _
  · exact aside_countEntry header sourceID (-1) fun _ => .pure _
  · refine aside_countEntry header sourceID 1 fun res => .ite (fun _ => .pure _) fun _ => ?_
    refine .bind (aside_loadHeader.bind fun header => (aside_storeHeader _).bind fun _ => .pure _) fun offerID => ?_
    exact (aside_putOffer _ _).bind fun _ => .pure _

variable [LinearOrder Q] (app : Application X Q)

theorem aside_manageOffer (sourceID : AccountID) (op : ManageOfferOp) (mPassive : Bool) :
    Aside (ManageOfferOpFrame.doApply app sourceID op mPassive) := by
  refine aside_committedIf ((aside_checkOfferValid _ _).bind fun code => ?_)
  cases code with
  | some code => exact .pure _
  | none =>
    refine (aside_takeOldOffer _ _ _).bind fun taken => ?_
    cases taken with
    | none => exact .pure _
    | some taken =>
      refine .bind (.ite (fun _ => aside_crossBook app _ _ _ _) fun _ => .pure _) fun crossed => ?_
      cases crossed with
      | inl code => exact .pure _
      | inr newOffer =>
        refine (aside_manageLeaveOffer _ _ _).bind fun code => ?_
        cases code <;> exact .pure _

/-- Of the operations that are applied only a mark calls the node. -/
theorem aside_doApply (sourceID : AccountID) {body : OperationBody}
    (h : ∀ marker, body ≠ .MARK_ACCOUNT marker) : Aside (doApply app sourceID body) := by
  cases body with
  | CREATE_ACCOUNT destination startingBalance => exact .map _ (aside_createAccount _ _ _)
  | PAYMENT destination asset amount => exact .map _ (aside_payment app _ _ _ _)
  | PATH_PAYMENT op => exact .map _ (aside_pathPayment app _ _)
  | MANAGE_OFFER op => exact .map _ (aside_manageOffer app _ _ _)
  | CREATE_PASSIVE_OFFER op => exact .map _ (aside_manageOffer app _ _ _)
  | SET_OPTIONS op => exact .map _ (aside_setOptions _ _)
  | CHANGE_TRUST line limit => exact .map _ (aside_changeTrust _ _ _)
  | ALLOW_TRUST trustor asset authorize => exact .map _ (aside_allowTrust _ _ _ _)
  | ACCOUNT_MERGE destination => exact .map _ (aside_merge _ _)
  | INFLATION => exact .map _ (aside_inflation app)
  | MANAGE_DATA dataName dataValue => exact .map _ (aside_manageData _ _ _)
  | BUMP_SEQUENCE bumpTo => exact .map _ (aside_bumpSequence _ _)
  | MARK_ACCOUNT marker => exact absurd rfl (h marker)

end OfferOperations

end ZaggCore.Transactions
