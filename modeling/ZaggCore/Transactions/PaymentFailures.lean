import Mathlib
import ZaggCore.Foundations.Triples
import ZaggCore.Ledger.LedgerManagerImpl
import ZaggCore.Transactions.EntryChanges

/-! # The failures of a payment

A payment is a path payment with no path, whose code it translates. The codes for which there is a
translation are all that a payment of credits can come to; a payment of lumens can come to
`PATH_PAYMENT_MALFORMED` as well, which the translation does not know. -/

namespace ZaggCore.Transactions
set_option autoImplicit false
set_option maxHeartbeats 250000

open Foundations Numeric

variable {X Q : Type}

/-! ## Ends of runs -/

/-- A failed assertion: the process ends and nothing is thrown. -/
def Aborts (e : Exception) : Prop := ∃ condition, e = .abort condition

/-- The conditions of `addBalance` are the only thing that can go wrong in it. -/
theorem addBalance_aborts {balance delta maxBalance : ℤ} {e : Exception}
    (h : Numeric.addBalance balance delta maxBalance = .error e) : Aborts e := by
  unfold Numeric.addBalance Numeric.assert at h
  split_ifs at h <;> simp_all [bind, Except.bind, pure, Except.pure, Aborts]
  all_goals exact ⟨_, h.symm⟩

theorem account_addBalance_aborts {header : LedgerHeader} {acc : AccountEntry} {delta : ℤ}
    {e : Exception} (h : AccountEntry.addBalance header acc delta = .error e) : Aborts e := by
  rw [AccountEntry.addBalance] at h
  split_ifs at h
  · cases h
  · cases hb : Numeric.addBalance acc.balance delta INT64_MAX with
    | error e' =>
      rw [hb] at h
      cases h
      exact addBalance_aborts hb
    | ok b =>
      rw [hb] at h
      cases b with
      | none => cases h
      | some b =>
        change (if _ then _ else _ : Except _ _) = _ at h
        split_ifs at h <;> cases h

theorem trustLine_addBalance_aborts {header : LedgerHeader} {tl : TrustLineEntry} {delta : ℤ}
    {e : Exception} (h : TrustLineEntry.addBalance header tl delta = .error e) : Aborts e := by
  rw [TrustLineEntry.addBalance] at h
  split_ifs at h
  · cases h
  · cases h
  · cases hb : Numeric.addBalance tl.balance delta tl.limit with
    | error e' =>
      rw [hb] at h
      cases h
      exact addBalance_aborts hb
    | ok b =>
      rw [hb] at h
      cases b with
      | none => cases h
      | some b =>
        change (if _ then _ else _ : Except _ _) = _ at h
        split_ifs at h <;> cases h

/-! ## The path payment of a payment -/

/-- The code has a translation. -/
def Translated (code : PathPaymentResultCode) : Prop :=
  ∃ res, PaymentOpFrame.fromPathPayment code = .ok res

theorem fromPathPayment_success {code : PathPaymentResultCode} {res : PaymentResultCode}
    (h : PaymentOpFrame.fromPathPayment code = .ok res) :
    res = .PAYMENT_SUCCESS ↔ code = .PATH_PAYMENT_SUCCESS := by
  cases code <;> cases h <;> simp

theorem not_translated_malformed : ¬ Translated .PATH_PAYMENT_MALFORMED := by
  rintro ⟨res, h⟩
  cases h

/-- A payment goes over no offers. -/
def directPayment (sourceID destination : AccountID) (asset : Asset) (amount : ℤ) :
    AppM X PathPaymentResultCode := do
  let header ← loadHeader
  let op := PaymentOpFrame.pathPaymentOp destination asset amount
  let bypass := PathPaymentOpFrame.bypassIssuerCheck op
  let doesSourceAccountExist :=
    8 ≤ header.ledgerVersion || (← loadAccountWithoutRecord sourceID).isSome
  match ← PathPaymentOpFrame.creditDestination op bypass with
  | some code => return code
  | none => PathPaymentOpFrame.debitSource sourceID bypass doesSourceAccountExist asset amount

theorem pathPayment_eq [LinearOrder Q] (app : Application X Q) (sourceID destination : AccountID)
    (asset : Asset) (amount : ℤ) :
    PathPaymentOpFrame.doApply app sourceID (PaymentOpFrame.pathPaymentOp destination asset amount) =
      directPayment sourceID destination asset amount := by
  have hwalk : PathPaymentOpFrame.walk app sourceID [asset].reverse asset amount
      = (pure (.inr (asset, amount)) : AppM X _) := by
    simp [PathPaymentOpFrame.walk]
  have hmax : ¬ amount < amount := lt_irrefl amount
  unfold PathPaymentOpFrame.doApply
  simp only [PaymentOpFrame.pathPaymentOp, hwalk, pure_bind, hmax, if_false]
  rfl

/-! ## Payments of credits -/

section Credits

variable {sourceID destination : AccountID} {asset : Asset} {amount : ℤ}

/-- A run that returns a code with a translation or aborts. -/
abbrev Settles (x : AppM X PathPaymentResultCode) : Prop :=
  Triple (fun _ => True) x (fun code _ => Translated code) (fun e _ => Aborts e)

/-- The same for the checks, where no code is a pass. -/
abbrev Checks (x : AppM X (Option PathPaymentResultCode)) : Prop :=
  Triple (fun _ => True) x (fun res _ => ∀ code, res = some code → Translated code)
    (fun e _ => Aborts e)

theorem returns_getIssuer (h : asset ≠ .native) :
    Triple (fun _ => True) (liftM (getIssuer asset) : AppM X AccountID) (fun _ _ => True)
      (fun e _ => Aborts e) := by
  obtain ⟨issuer, hissuer⟩ := getIssuer_of_ne_native h
  refine Triple.lift (fun _ _ _ _ => trivial) fun e w he _ => ?_
  rw [hissuer] at he
  cases he

theorem returns_loadTrustLine (h : asset ≠ .native) (a : AccountID) :
    Triple (fun _ => True) (loadTrustLine a asset : AppM X _) (fun _ _ => True) (fun e _ => Aborts e) := by
  refine Triple.bind (Q := fun _ _ => True) (Triple.lift (fun _ _ _ _ => trivial) ?_) fun _ => ?_
  · intro e w he _
    rw [throwIf, if_neg h] at he
    cases he
  · refine Triple.bind (returns_getIssuer h) fun issuer => ?_
    refine Triple.ite (fun _ => Triple.pure fun _ _ => trivial) fun _ => ?_
    intro w _
    trivial

theorem checks_checkIssuer (h : asset ≠ .native) (bypass : Bool) :
    Checks (PathPaymentOpFrame.checkIssuer bypass asset : AppM X _) := by
  refine Triple.ite (fun _ => Triple.pure fun _ _ => by simp) fun _ => ?_
  refine Triple.bind (returns_getIssuer h) fun issuer => ?_
  refine Triple.bind (Q := fun _ _ => True) (fun _ _ => trivial) fun acc => ?_
  refine Triple.ite (fun _ => Triple.pure fun _ _ code hcode => ?_) fun _ => Triple.pure fun _ _ => by simp
  cases hcode
  exact ⟨_, rfl⟩

theorem returns_addBalance (line : TrustLineWrapper) (header : LedgerHeader) (delta : ℤ) :
    Triple (fun _ => True) (line.addBalance header delta : AppM X _) (fun _ _ => True)
      (fun e _ => Aborts e) := by
  cases line with
  | IssuerImpl a s => exact Triple.pure fun _ _ => trivial
  | NonIssuerImpl tl =>
    refine Triple.bind (Q := fun _ _ => True) (Triple.lift (fun _ _ _ _ => trivial) ?_) fun res => ?_
    · exact fun e w he _ => trustLine_addBalance_aborts he
    · cases res with
      | none => exact Triple.pure fun _ _ => trivial
      | some tl => exact fun w _ => trivial

theorem checks_creditDestination (h : asset ≠ .native) (bypass : Bool) :
    Checks (PathPaymentOpFrame.creditDestination
      (PaymentOpFrame.pathPaymentOp destination asset amount) bypass : AppM X _) := by
  have hfail : ∀ code, Translated code → Checks (pure (some code) : AppM X _) := by
    intro code hcode
    refine Triple.pure fun _ _ code' h' => ?_
    cases h'
    exact hcode
  refine Triple.bind (Q := fun _ _ => True) (fun _ _ => trivial) fun found => ?_
  refine Triple.ite (fun _ => hfail _ ⟨_, rfl⟩) fun _ => ?_
  refine Triple.bind (Q := fun _ _ => True) (fun _ _ => trivial) fun header => ?_
  refine Triple.ite (fun hnative => absurd hnative h) fun _ => ?_
  refine Triple.bind (checks_checkIssuer h bypass) fun res => ?_
  cases res with
  | some code => exact Triple.pure fun _ hres => hres
  | none =>
    refine Triple.bind ((returns_loadTrustLine h _).pre fun _ _ => trivial) fun line => ?_
    cases line with
    | none => exact hfail _ ⟨_, rfl⟩
    | some line =>
      refine Triple.ite (fun _ => hfail _ ⟨_, rfl⟩) fun _ => ?_
      refine Triple.bind (returns_addBalance line _ _) fun res => ?_
      exact Triple.ite (fun _ => hfail _ ⟨_, rfl⟩) fun _ => Triple.pure fun _ _ => by simp

theorem settles_debitSource (h : asset ≠ .native) (bypass doesSourceAccountExist : Bool) :
    Settles (PathPaymentOpFrame.debitSource sourceID bypass doesSourceAccountExist asset amount :
      AppM X _) := by
  have hcode : ∀ code, Translated code → Settles (pure code : AppM X _) :=
    fun code hcode => Triple.pure fun _ _ => hcode
  refine Triple.bind (Q := fun _ _ => True) (fun _ _ => trivial) fun header => ?_
  rw [if_neg h]
  refine Triple.bind (checks_checkIssuer h bypass) fun res => ?_
  cases res with
  | some code => exact Triple.pure fun _ hres => hres code rfl
  | none =>
    refine Triple.bind ((returns_loadTrustLine h _).pre fun _ _ => trivial) fun line => ?_
    cases line with
    | none => exact hcode _ ⟨_, rfl⟩
    | some line =>
      refine Triple.ite (fun _ => hcode _ ⟨_, rfl⟩) fun _ => ?_
      refine Triple.bind (returns_addBalance line _ _) fun res => ?_
      exact Triple.ite (fun _ => hcode _ ⟨_, rfl⟩) fun _ => hcode _ ⟨_, rfl⟩

/-- A payment of credits comes to a code with a translation, however the ledger is. -/
theorem settles_directPayment (h : asset ≠ .native) :
    Settles (directPayment sourceID destination asset amount : AppM X _) := by
  refine Triple.bind (Q := fun _ _ => True) (fun _ _ => trivial) fun header => ?_
  refine Triple.bind (Q := fun _ _ => True) (fun _ _ => trivial) fun found => ?_
  refine Triple.bind (checks_creditDestination h _) fun res => ?_
  cases res with
  | some code => exact Triple.pure fun _ hres => hres code rfl
  | none => exact (settles_debitSource h _ _).pre fun _ _ => trivial

end Credits

/-! ## Payments of lumens -/

section Lumens

variable {sourceID destination : AccountID} {amount : ℤ}

/-- The account takes the amount. -/
def HasRoom (header : LedgerHeader) (acc : AccountEntry) (amount : ℤ) : Prop :=
  acc.balance + amount ≤ INT64_MAX ∧
    (10 ≤ header.ledgerVersion → acc.balance + amount ≤ INT64_MAX - (liabilitiesOf acc.ext).buying)

/-- The account that `loadSourceAccount` gives, the cached one up to version 7. -/
def payer (w : World X) (sourceID : AccountID) : Option AccountEntry :=
  match w.mCachedAccount with
  | some cached =>
    if w.ltx.header.ledgerVersion < 8 ∧ cached.accountID = sourceID then some cached
    else w.ltx.account sourceID
  | none => w.ltx.account sourceID

/-- There is an account to pay, and it is in the ledger unless it cannot pay. -/
def CanDebit (w : World X) (sourceID : AccountID) (amount : ℤ) : Prop :=
  ∃ acc, payer w sourceID = some acc ∧
    (AccountEntry.getAvailableBalance w.ltx.header acc < amount ∨ (w.ltx.account sourceID).isSome)

/-- The three ways in which an account is given a positive amount. -/
theorem account_addBalance_cases (header : LedgerHeader) (acc : AccountEntry) (h : 0 < amount) :
    (acc.balance < 0 ∧ ∃ e, AccountEntry.addBalance header acc amount = .error e) ∨
      (0 ≤ acc.balance ∧ ¬ HasRoom header acc amount ∧
        AccountEntry.addBalance header acc amount = .ok none) ∨
      (0 ≤ acc.balance ∧ HasRoom header acc amount ∧ AccountEntry.addBalance header acc amount =
        .ok (some { acc with balance := acc.balance + amount })) := by
  have hmax : (0 : ℤ) ≤ INT64_MAX := by decide
  have hne : amount ≠ 0 := h.ne'
  have hpos : ¬ amount < 0 := h.not_gt
  rw [AccountEntry.addBalance, if_neg hne]
  by_cases hbal : 0 ≤ acc.balance
  · refine .inr ?_
    have hlow : ¬ amount < -acc.balance := by omega
    have hsum : Numeric.addBalance acc.balance amount INT64_MAX
        = .ok (if INT64_MAX - acc.balance < amount then none else some (acc.balance + amount)) := by
      simp [Numeric.addBalance, Numeric.assert, hbal, hmax, hne, hlow, bind, Except.bind, pure, Except.pure]
    rw [hsum]
    by_cases hfits : INT64_MAX - acc.balance < amount
    · refine .inl ⟨hbal, fun hroom => ?_, by rw [if_pos hfits]; rfl⟩
      have := hroom.1
      omega
    · rw [if_neg hfits]
      by_cases hroom : 10 ≤ header.ledgerVersion ∧
          INT64_MAX - (liabilitiesOf acc.ext).buying < acc.balance + amount
      · refine .inl ⟨hbal, fun hr => ?_, ?_⟩
        · have := hr.2 hroom.1
          omega
        · simp [bind, Except.bind, hpos, hroom, pure, Except.pure]
      · refine .inr ⟨hbal, ⟨by omega, fun hv => ?_⟩, ?_⟩
        · by_contra hlt
          exact hroom ⟨hv, by omega⟩
        · simp only [bind, Except.bind, hpos, false_and, and_false, if_false, hroom]
          rfl
  · refine .inl ⟨by omega, .abort "balance >= 0", ?_⟩
    simp [Numeric.addBalance, Numeric.assert, hbal, bind, Except.bind]

theorem bypassIssuerCheck_native :
    PathPaymentOpFrame.bypassIssuerCheck (PaymentOpFrame.pathPaymentOp destination .native amount)
      = false := by
  simp [PathPaymentOpFrame.bypassIssuerCheck, PaymentOpFrame.pathPaymentOp, getIssuer]

/-- The ledger after an account was loaded and changed. -/
def World.reassign (w : World X) (a : AccountID) (acc : AccountEntry) : World X :=
  ((w.load (.account a)).setLtx (w.ltx.put (.account acc))).touch (.account acc.accountID)

/-- What crediting lumens comes to, for each of the three ways. -/
theorem creditDestination_native (destination : AccountID) (amount : ℤ) (w : World X) :
    PathPaymentOpFrame.creditDestination
        (PaymentOpFrame.pathPaymentOp destination .native amount) false w =
      match w.ltx.account destination with
      | none => .ok (some .PATH_PAYMENT_NO_DESTINATION) w
      | some dest =>
        match AccountEntry.addBalance w.ltx.header dest amount with
        | .error e => .error e (w.load (.account destination))
        | .ok none => .ok (some .PATH_PAYMENT_MALFORMED) (w.load (.account destination))
        | .ok (some dest') => .ok none (w.reassign destination dest') := by
  cases hdest : w.ltx.account destination with
  | none =>
    simp [PathPaymentOpFrame.creditDestination, PaymentOpFrame.pathPaymentOp, bind, EStateM.bind,
      loadAccountWithoutRecord, hdest, pure, EStateM.pure]
  | some dest =>
    simp only [PathPaymentOpFrame.creditDestination, PaymentOpFrame.pathPaymentOp, bind, EStateM.bind,
      loadAccountWithoutRecord, loadHeader, loadAccount, current, hdest, pure, EStateM.pure,
      Option.isNone_some, Bool.and_false, Bool.false_eq_true, if_false, if_true, updateAccount_eq]
    cases AccountEntry.addBalance w.ltx.header dest amount with
    | error e => rfl
    | ok res => cases res <;> simp [World.reassign, EStateM.pure]

theorem loadAccountCached_payer (w : World X) (a : AccountID) :
    ∃ w₁, loadAccountCached a w = .ok (payer w a) w₁ := by
  unfold loadAccountCached payer
  simp only [bind, EStateM.bind, loadHeader, get, getThe, MonadStateOf.get, EStateM.get]
  cases w.mCachedAccount with
  | none => exact ⟨_, rfl⟩
  | some cached =>
    by_cases hc : w.ltx.header.ledgerVersion < 8 ∧ cached.accountID = a
    · simp only [hc, and_self, if_true, EStateM.bind, loadAccount]
      cases hacc : w.ltx.account a with
      | some acc => exact ⟨_, rfl⟩
      | none =>
        have hnew : w.ltx.getNewestVersion (.account cached.accountID) = none := by
          rw [hc.2]
          exact AbstractLedgerTxn.account_eq_none.mp hacc
        simp [create, EStateM.bind, LedgerEntryData.key, hnew, pure, EStateM.pure]
    · simp only [hc, if_false]
      exact ⟨_, rfl⟩

/-- What follows once the payer is known: pay, or find that there is not enough. -/
theorem settles_pay (header : LedgerHeader) (acc : AccountEntry)
    (assign : AccountEntry → AppM X Unit)
    (hassign : ∀ acc, Triple (fun _ => True) (assign acc) (fun _ _ => True) (fun e _ => Aborts e)) :
    Settles (do
      let ok ← updateAccount assign (AccountEntry.addBalance header · (-amount)) acc
      assert (ok.isSome) "ok"
      return .PATH_PAYMENT_SUCCESS) := by
  refine Triple.bind (Q := fun _ _ => True) ?_ fun ok => ?_
  · refine Triple.bind (Q := fun _ _ => True) (Triple.lift (fun _ _ _ _ => trivial) ?_) fun res => ?_
    · exact fun e w he _ => account_addBalance_aborts he
    · cases res with
      | none => exact Triple.pure fun _ _ => trivial
      | some acc => exact Triple.bind (hassign acc) fun _ => Triple.pure fun _ _ => trivial
  · refine Triple.bind (Q := fun _ _ => True) (Triple.lift (fun _ _ _ _ => trivial) ?_) fun _ => ?_
    · intro e w he _
      rw [Numeric.assert] at he
      split_ifs at he
      cases he
      exact ⟨_, rfl⟩
    · exact Triple.pure fun _ _ => ⟨_, rfl⟩

theorem payer_of_le {w : World X} (hv : 8 ≤ w.ltx.header.ledgerVersion) :
    payer w sourceID = w.ltx.account sourceID := by
  have hlt : ¬ w.ltx.header.ledgerVersion < 8 := not_lt.mpr hv
  unfold payer
  cases w.mCachedAccount <;> simp [hlt]

theorem loadPayer_some {w : World X} {acc : AccountEntry} (h : payer w sourceID = some acc) :
    ∃ w₁, PathPaymentOpFrame.loadPayer w.ltx.header sourceID w = .ok (some acc) w₁ := by
  unfold PathPaymentOpFrame.loadPayer
  split_ifs with hv
  · rw [payer_of_le hv] at h
    exact ⟨_, loadAccount_ok.mpr ⟨h, rfl⟩⟩
  · obtain ⟨w₁, hload⟩ := loadAccountCached_payer w sourceID
    rw [h] at hload
    exact ⟨w₁, bind_ok.mpr ⟨some acc, w₁, hload, rfl⟩⟩

/-- Without a payer the handle is empty: it is tested from version 8 on and read before. -/
theorem loadPayer_none {w : World X} (h : payer w sourceID = none) :
    (∃ w₁, PathPaymentOpFrame.loadPayer w.ltx.header sourceID w = .ok none w₁) ∨
      ∃ e w₁, PathPaymentOpFrame.loadPayer w.ltx.header sourceID w = .error e w₁ ∧ ¬ Aborts e := by
  unfold PathPaymentOpFrame.loadPayer
  split_ifs with hv
  · rw [payer_of_le hv] at h
    exact .inl ⟨_, loadAccount_ok.mpr ⟨h, rfl⟩⟩
  · obtain ⟨w₁, hload⟩ := loadAccountCached_payer w sourceID
    rw [h] at hload
    refine .inr ⟨.runtime_error "LedgerTxnEntry not active", w₁, ?_, by simp [Aborts]⟩
    exact bind_error.mpr (.inr ⟨none, w₁, hload, bind_error.mpr (.inl rfl)⟩)

/-- The payment is settled if there is a payer, who does not pay without being in the ledger. -/
theorem debitSource_native (w : World X) (bypass doesSourceAccountExist : Bool) :
    Ends (fun code _ => Translated code) (fun e _ => Aborts e)
        (PathPaymentOpFrame.debitSource sourceID bypass doesSourceAccountExist .native amount w) ↔
      ∃ acc, payer w sourceID = some acc ∧
        (AccountEntry.getAvailableBalance w.ltx.header acc < amount ∨ doesSourceAccountExist = true) := by
  unfold PathPaymentOpFrame.debitSource
  rw [ends_bind_of_ok (loadHeader_ok.mpr ⟨rfl, rfl⟩), if_pos rfl]
  cases hpayer : payer w sourceID with
  | none =>
    simp only [reduceCtorEq, false_and, exists_false, iff_false]
    obtain ⟨w₁, hload⟩ | ⟨e, w₁, hload, he⟩ := loadPayer_none hpayer
    · rw [ends_bind_of_ok hload]
      exact not_translated_malformed
    · rw [ends_bind_of_error hload]
      exact he
  | some acc =>
    obtain ⟨w₁, hload⟩ := loadPayer_some hpayer
    rw [ends_bind_of_ok hload]
    simp only [Option.some.injEq, exists_eq_left']
    by_cases hfunds : AccountEntry.getAvailableBalance w.ltx.header acc < amount
    · simp only [hfunds, if_true, true_or, iff_true]
      exact ⟨_, rfl⟩
    · simp only [hfunds, if_false, false_or]
      cases doesSourceAccountExist with
      | false =>
        have hthrow : (liftM (throwIf ((!false) = true)
            (.runtime_error "modifying account that does not exist")) : AppM X Unit) w₁ =
              .error (.runtime_error "modifying account that does not exist") w₁ := rfl
        refine iff_of_false ?_ Bool.false_ne_true
        refine fun hends => ?_
        obtain ⟨condition, hcondition⟩ := (ends_bind_of_error hthrow).mp hends
        cases hcondition
      | true =>
        have hgo : (liftM (throwIf ((!true) = true)
            (.runtime_error "modifying account that does not exist")) : AppM X Unit) w₁ = .ok () w₁ := rfl
        refine iff_of_true ((ends_bind_of_ok hgo).mpr ?_) rfl
        refine settles_pay w.ltx.header acc _ (fun acc w₂ _ => ?_) w₁ trivial
        split_ifs <;> trivial

theorem account_reassign (w : World X) {a b : AccountID} {acc : AccountEntry} (hid : acc.accountID = a)
    (hne : b ≠ a) : (w.reassign a acc).ltx.account b = w.ltx.account b := by
  change (w.ltx.put (.account acc)).account b = _
  rw [AbstractLedgerTxn.account_put_account, hid, if_neg hne]

theorem payer_reassign (w : World X) {a b : AccountID} {acc : AccountEntry} (hid : acc.accountID = a)
    (hne : b ≠ a) : payer (w.reassign a acc) b = payer w b := by
  have hcached : (w.reassign a acc).mCachedAccount = w.mCachedAccount := by
    change (w.load (.account a)).mCachedAccount = _
    unfold World.load
    split_ifs <;> rfl
  unfold payer
  rw [hcached, account_reassign w hid hne]
  rfl

/-- A payment of lumens to another account is settled if that account is missing, or has room and the
payer can be debited. -/
theorem directPayment_native (w : World X) (hamount : 0 < amount) (hne : destination ≠ sourceID) :
    Ends (fun code _ => Translated code) (fun e _ => Aborts e)
        (directPayment sourceID destination .native amount w) ↔
      ∀ dest, w.ltx.account destination = some dest → 0 ≤ dest.balance →
        HasRoom w.ltx.header dest amount ∧ CanDebit w sourceID amount := by
  unfold directPayment
  rw [ends_bind_of_ok (loadHeader_ok.mpr ⟨rfl, rfl⟩),
    ends_bind_of_ok (loadAccountWithoutRecord_ok.mpr ⟨rfl, rfl⟩), bypassIssuerCheck_native]
  have hcredit := creditDestination_native destination amount w
  cases hdest : w.ltx.account destination with
  | none =>
    rw [hdest] at hcredit
    rw [ends_bind_of_ok hcredit]
    simp only [reduceCtorEq, false_implies, implies_true, iff_true]
    exact ⟨_, rfl⟩
  | some dest =>
    rw [hdest] at hcredit
    simp only [Option.some.injEq, forall_eq']
    obtain ⟨hneg, e, he⟩ | ⟨hbal, hroom, hfull⟩ | ⟨hbal, hroom, hadd⟩ :=
      account_addBalance_cases w.ltx.header dest hamount
    · simp only [he] at hcredit
      rw [ends_bind_of_error hcredit]
      exact iff_of_true (account_addBalance_aborts he) fun h => absurd h (not_le.mpr hneg)
    · simp only [hfull] at hcredit
      rw [ends_bind_of_ok hcredit]
      exact iff_of_false not_translated_malformed fun h => hroom (h hbal).1
    · simp only [hadd] at hcredit
      rw [ends_bind_of_ok hcredit]
      have hdestID := AbstractLedgerTxn.accountID_of_account hdest
      have hid : ({ dest with balance := dest.balance + amount } : AccountEntry).accountID
          = destination := hdestID
      refine (debitSource_native _ _ _).trans ?_
      rw [payer_reassign w hid hne.symm]
      simp only [hbal, hroom, true_and, forall_const, CanDebit]
      refine exists_congr fun acc => and_congr_right fun hpayer => or_congr Iff.rfl ?_
      rw [Bool.or_eq_true, decide_eq_true_eq]
      refine or_iff_right_of_imp fun hv => ?_
      rw [payer_of_le hv] at hpayer
      rw [hpayer]
      rfl

end Lumens

/-! ## Payments -/

section Payments

variable [LinearOrder Q] (app : Application X Q) {sourceID destination : AccountID} {asset : Asset}
  {amount : ℤ} {w : World X}

/-- The payments that are a success at once. -/
def InstantSuccess (w : World X) (sourceID destination : AccountID) (asset : Asset) : Prop :=
  destination = sourceID ∧ (w.ltx.header.ledgerVersion ≤ 2 ∨ asset = .native)

/-- Nothing is thrown, and what the path payment of the payment returns is translated, a success to a
success and a failure to a failure. -/
structure MapsFailures (sourceID destination : AccountID) (asset : Asset) (amount : ℤ)
    (w : World X) : Prop where
  never_throws : ∀ e w', PaymentOpFrame.doApply app sourceID destination asset amount w = .error e w' →
    Aborts e
  translates : ¬ InstantSuccess w sourceID destination asset → ∀ code w',
    PathPaymentOpFrame.doApply app sourceID (PaymentOpFrame.pathPaymentOp destination asset amount) w =
        .ok code w' →
      ∃ res, PaymentOpFrame.doApply app sourceID destination asset amount w = .ok res w' ∧
        (res = .PAYMENT_SUCCESS ↔ code = .PATH_PAYMENT_SUCCESS)

theorem payment_valid (destination : AccountID) (h : PaymentOpFrame.doCheckValid asset amount = none) :
    0 < amount ∧
      PathPaymentOpFrame.doCheckValid (PaymentOpFrame.pathPaymentOp destination asset amount) = none := by
  unfold PaymentOpFrame.doCheckValid at h
  split_ifs at h with hamount hasset
  have hpos : 0 < amount := not_le.mp hamount
  refine ⟨hpos, ?_⟩
  simp only [Bool.not_eq_true', Bool.not_eq_false] at hasset
  simp [PathPaymentOpFrame.doCheckValid, PaymentOpFrame.pathPaymentOp, hamount, hasset]

theorem doApply_instant (h : InstantSuccess w sourceID destination asset) :
    PaymentOpFrame.doApply app sourceID destination asset amount w = .ok .PAYMENT_SUCCESS w := by
  unfold InstantSuccess at h
  refine bind_ok.mpr ⟨w.ltx.header, w, loadHeader_ok.mpr ⟨rfl, rfl⟩, ?_⟩
  rw [if_pos h]
  rfl

/-- Any other payment is the path payment and the translation of its code. -/
theorem doApply_translate (hvalid : PaymentOpFrame.doCheckValid asset amount = none)
    (h : ¬ InstantSuccess w sourceID destination asset) :
    PaymentOpFrame.doApply app sourceID destination asset amount w =
      (directPayment sourceID destination asset amount >>= fun code =>
        (liftM (PaymentOpFrame.fromPathPayment code) : AppM X _)) w := by
  unfold InstantSuccess at h
  unfold PaymentOpFrame.doApply
  change (if _ then _ else _ : AppM X _) w = _
  rw [if_neg h]
  simp only [(payment_valid destination hvalid).2, pathPayment_eq]

theorem mapsFailures_iff_ends (hvalid : PaymentOpFrame.doCheckValid asset amount = none)
    (h : ¬ InstantSuccess w sourceID destination asset) :
    MapsFailures app sourceID destination asset amount w ↔
      Ends (fun code _ => Translated code) (fun e _ => Aborts e)
        (directPayment sourceID destination asset amount w) := by
  have hrun := doApply_translate app hvalid h
  cases hdirect : directPayment sourceID destination asset amount w with
  | ok code w₁ =>
    constructor
    · intro hmaps
      obtain ⟨res, hres, -⟩ := hmaps.translates h code w₁ ((pathPayment_eq app _ _ _ _) ▸ hdirect)
      rw [hrun] at hres
      obtain ⟨code', w₂, hcode, hlift⟩ := bind_ok.mp hres
      rw [hdirect] at hcode
      cases hcode
      exact ⟨res, (lift_ok.mp hlift).1⟩
    · rintro ⟨res, hres⟩
      have hok : PaymentOpFrame.doApply app sourceID destination asset amount w = .ok res w₁ := by
        rw [hrun]
        exact bind_ok.mpr ⟨code, w₁, hdirect, lift_ok.mpr ⟨hres, rfl⟩⟩
      refine ⟨fun e w' he => ?_, fun _ code' w' hcode => ?_⟩
      · rw [hok] at he
        cases he
      · rw [pathPayment_eq, hdirect] at hcode
        cases hcode
        exact ⟨res, hok, fromPathPayment_success hres⟩
  | error e w₁ =>
    have herror : PaymentOpFrame.doApply app sourceID destination asset amount w = .error e w₁ := by
      rw [hrun]
      exact bind_error.mpr (.inl hdirect)
    constructor
    · exact fun hmaps => hmaps.never_throws e w₁ herror
    · intro he
      refine ⟨fun e' w' he' => ?_, fun _ code' w' hcode => ?_⟩
      · rw [herror] at he'
        cases he'
        exact he
      · rw [pathPayment_eq, hdirect] at hcode
        cases hcode

/-- **The failures of a payment.** Every failure of a payment of credits is translated. A payment of
lumens to another account is translated if the destination is missing, or takes the amount and the source
account can be debited. -/
theorem payment_mapsFailures_iff (sourceID destination : AccountID) (asset : Asset) (amount : ℤ)
    (w : World X) (hvalid : PaymentOpFrame.doCheckValid asset amount = none) :
    MapsFailures app sourceID destination asset amount w ↔
      asset ≠ .native ∨ destination = sourceID ∨
        ∀ dest, w.ltx.account destination = some dest → 0 ≤ dest.balance →
          HasRoom w.ltx.header dest amount ∧ CanDebit w sourceID amount := by
  by_cases hinstant : InstantSuccess w sourceID destination asset
  · refine iff_of_true ⟨fun e w' he => ?_, fun hnot => absurd hinstant hnot⟩ (.inr (.inl hinstant.1))
    rw [doApply_instant app hinstant] at he
    cases he
  · rw [mapsFailures_iff_ends app hvalid hinstant]
    by_cases hnative : asset = .native
    · subst hnative
      have hne : destination ≠ sourceID := fun h => hinstant ⟨h, .inr rfl⟩
      simp only [ne_eq, not_true_eq_false, hne, false_or]
      exact directPayment_native w (payment_valid destination hvalid).1 hne
    · exact iff_of_true (settles_directPayment hnative w trivial) (.inl hnative)

end Payments

/-- A world with an account that offers to buy as many lumens as it can hold. -/
def buyerWorld : World Unit :=
  standaloneWorld.setLtx ((standaloneWorld.ltx.put (.account
    { rootAccount 8 { genesisLedger with totalCoins := 1000000000 } with
        numSubEntries := 1
        ext := some ⟨INT64_MAX - 1000000000, 0⟩ })).put (.offer
      { sellerID := 8, offerID := 1, selling := .alphaNum4 0x55534400 8, buying := .native,
        amount := INT64_MAX - 1000000000, price := ⟨1, 1⟩, flags := 0 }))

/-- A payment of lumens to an account that is not there, and its translated failure. -/
theorem payment_mapsFailures_iff_noDestination :
    MapsFailures standalone 7 9 .native 5 buyerWorld :=
  (payment_mapsFailures_iff standalone 7 9 .native 5 buyerWorld (by decide)).mpr
    (.inr (.inr fun dest hdest => by
      have hnone : buyerWorld.ltx.account 9 = none := by decide +kernel
      rw [hnone] at hdest
      cases hdest))

/-- The failure of a payment to an account without room is thrown. -/
theorem payment_lineFull_throws :
    PaymentOpFrame.doCheckValid .native 5 = none ∧
      (∃ w', PaymentOpFrame.doApply standalone 7 8 .native 5 buyerWorld =
        .error (.runtime_error "Unexpected error code from pathPayment") w') ∧
      ¬ MapsFailures standalone 7 8 .native 5 buyerWorld := by
  have hthrow := eq_error_of_thrown?
    (r := PaymentOpFrame.doApply standalone 7 8 .native 5 buyerWorld)
    (e := .runtime_error "Unexpected error code from pathPayment") (by decide +kernel)
  refine ⟨by decide, ⟨_, hthrow⟩, fun hmaps => ?_⟩
  obtain ⟨condition, hcondition⟩ := hmaps.never_throws _ _ hthrow
  cases hcondition

end ZaggCore.Transactions
