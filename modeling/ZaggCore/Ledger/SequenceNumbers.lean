import Mathlib
import ZaggCore.Foundations.Counters
import ZaggCore.Ledger.LedgerAccounting

/-! # Sequence numbers are used once

From version 10 on a transaction takes its sequence number when it is applied, and what it takes is the next
one of its account. In any run of ledgers the numbers taken from an account go up, whatever is merged and
made again on the way. -/

namespace ZaggCore.Transactions
set_option autoImplicit false
set_option maxHeartbeats 250000

open Foundations Numeric AbstractLedgerTxn

variable {X Q : Type} {w w' : World X}

theorem lt_of_followsSeqNum {tx : Transaction} {current : ℤ} {acc : AccountEntry}
    (hcurrent : current = 0 ∨ acc.seqNum ≤ current) (h : followsSeqNum tx current acc = true) :
    acc.seqNum < tx.seqNum := by
  simp only [followsSeqNum, Bool.not_eq_true', Bool.or_eq_false_iff, decide_eq_false_iff_not, not_not] at h
  obtain ⟨-, h⟩ := h
  split_ifs at h with h0
  · omega
  · obtain hzero | hle := hcurrent
    · exact absurd hzero h0
    · omega

/-- What is valid as far as its sequence number has the next one of its account, or of the transactions that
are to come before it. -/
theorem commonValid_follows {app : Application X Q} {tx : Transaction} {current : ℤ} {applying : Bool}
    {cv : ValidationType} {code : TransactionResultCode} (hv : 10 ≤ w.ltx.header.ledgerVersion)
    (h : commonValid app tx current applying w = .ok (cv, code) w') :
    cv = .kInvalid ∨
      ∃ acc, w.ltx.account tx.sourceAccount = some acc ∧ followsSeqNum tx current acc = true := by
  obtain ⟨w₁, h, -⟩ := rolledBack_ok.mp h
  obtain ⟨checked, w₂, h₂, h⟩ := bind_ok.mp h
  cases checked with
  | some code' => exact .inl (Prod.mk.inj (pure_ok.mp h).1).1.symm
  | none =>
    obtain ⟨hltx, -⟩ := (quiet_commonValidPreSeqNum 0 tx).ok h₂ (by omega)
    rw [← hltx] at hv ⊢
    obtain ⟨header, w₃, h₃, h⟩ := bind_ok.mp h
    obtain ⟨rfl, rfl⟩ := loadHeader_ok.mp h₃
    obtain ⟨res, w₃, h₃, h⟩ := bind_ok.mp h
    obtain ⟨hacc, rfl⟩ := (loadSourceAccount_ok (by omega)).mp h₃
    obtain ⟨acc, w₃, h₃, h⟩ := bind_ok.mp h
    obtain ⟨rfl, rfl⟩ := current_ok.mp h₃
    split at h
    case isTrue => exact .inl (Prod.mk.inj (pure_ok.mp h).1).1.symm
    case isFalse hfollows =>
      refine .inr ⟨acc, hacc, Bool.of_not_eq_false fun hnot => hfollows ?_⟩
      rw [decide_eq_true hv, hnot]
      rfl

section

variable [LinearOrder Q] (app : Application X Q)

/-- The number that `validate` lets through it also takes. -/
theorem validate_takes {tx : Transaction} {cv : ValidationType} {code : TransactionResultCode} {w₁ : World X}
    {res : TransactionResult × Bool} (hv : 10 ≤ w.ltx.header.ledgerVersion)
    (hs : w.ltx.header.ledgerSeq < 2 ^ 31) (hcv : commonValid app tx 0 true w = .ok (cv, code) w₁)
    (hupdates : cv.updatesSeqNum = true) (h : validate app tx w = .ok res w') :
    w.ltx.floor tx.sourceAccount < tx.seqNum ∧ tx.seqNum ≤ w'.ltx.floor tx.sourceAccount := by
  obtain ⟨⟨cv', code'⟩, w₁', h₁, h⟩ := bind_ok.mp (committed_ok.mp h)
  obtain ⟨hsame, rfl⟩ := EStateM.Result.ok.inj (hcv.symm.trans h₁)
  obtain ⟨rfl, rfl⟩ := Prod.mk.inj hsame
  have hltx := (reads_rolledBack _).ltx (by omega) h₁
  obtain ⟨_, w₂, h₂, h⟩ := bind_ok.mp h
  obtain rfl | ⟨acc, hacc, hfollows⟩ := commonValid_follows hv h₁
  · cases hupdates
  · have hlt := lt_of_followsSeqNum (.inl rfl) hfollows
    rw [← hltx] at hv hs hacc ⊢
    rw [if_pos hupdates] at h₂
    obtain ⟨acc', hacc', -, rfl⟩ := processSeqNum_ok hv h₂
    obtain rfl := Option.some.inj (hacc.symm.trans hacc')
    have hassigned : (w₁.assign { acc with seqNum := tx.seqNum }).ltx = w₁.ltx.put
        (.account { acc with seqNum := tx.seqNum }) := rfl
    have hfloor : (w₁.assign { acc with seqNum := tx.seqNum }).ltx.floor tx.sourceAccount = tx.seqNum := by
      rw [hassigned, AbstractLedgerTxn.floor, account_put_account, if_pos (accountID_of_account hacc).symm]
    constructor
    · rw [AbstractLedgerTxn.floor, hacc]
      exact hlt
    · dsimp only at h
      split at h
      · obtain ⟨⟨result, signaturesValid⟩, w₃, h₃, h⟩ := bind_ok.mp h
        obtain ⟨-, rfl⟩ := pure_ok.mp h
        have hv₂ : 8 ≤ (w₁.assign { acc with seqNum := tx.seqNum }).ltx.header.ledgerVersion := by
          rw [hassigned, header_put]
          omega
        rw [← hfloor]
        exact (processSignatures_moves app hv₂ h₃).floor hv hs _
      · obtain ⟨-, rfl⟩ := pure_ok.mp h
        exact hfloor.ge

/-! ## Transactions -/

/-- Whether the transaction takes its sequence number: `apply` commits what `processSeqNum` did before it comes
to the operations, and an exception in one of these does not give the number back. -/
def takesSeqNum (envelope : TransactionEnvelope) (w : World X) : Bool :=
  let started := after (startChecker app envelope w)
  match commonValid app envelope.tx 0 true started, validate app envelope.tx started with
  | .ok (cv, _) _, .ok _ _ => cv.updatesSeqNum
  | _, _ => false

theorem takesSeqNum_cases {envelope : TransactionEnvelope} (h : takesSeqNum app envelope w = true) :
    ∃ cv code w₁ res w₂,
      commonValid app envelope.tx 0 true (after (startChecker app envelope w)) = .ok (cv, code) w₁ ∧
      cv.updatesSeqNum = true ∧
      validate app envelope.tx (after (startChecker app envelope w)) = .ok res w₂ := by
  unfold takesSeqNum at h
  dsimp only at h
  cases hcv : commonValid app envelope.tx 0 true (after (startChecker app envelope w)) with
  | error e w₁ =>
    rw [hcv] at h
    cases h
  | ok res w₁ =>
    obtain ⟨cv, code⟩ := res
    cases hvalidated : validate app envelope.tx (after (startChecker app envelope w)) with
    | error e w₂ =>
      rw [hcv, hvalidated] at h
      cases h
    | ok res w₂ =>
      rw [hcv, hvalidated] at h
      exact ⟨cv, code, w₁, res, w₂, rfl, h, rfl⟩

/-- An exception is caught, and what was committed before it stays. -/
theorem after_applyTransaction (envelope : TransactionEnvelope) (w : World X) :
    after (applyTransaction app envelope w) = after (apply app envelope w) := by
  unfold applyTransaction
  cases apply app envelope w with
  | ok result w' => rfl
  | error e w' => cases e <;> rfl

theorem applyTransaction_takes {envelope : TransactionEnvelope} (hv : 10 ≤ w.ltx.header.ledgerVersion)
    (hs : w.ltx.header.ledgerSeq < 2 ^ 31) (h : takesSeqNum app envelope w = true) :
    w.ltx.floor envelope.tx.sourceAccount < envelope.tx.seqNum ∧
      envelope.tx.seqNum ≤ (after (applyTransaction app envelope w)).ltx.floor envelope.tx.sourceAccount := by
  obtain ⟨cv, code, w₁, ⟨result, valid⟩, w₂, hcv, hupdates, hvalidated⟩ := takesSeqNum_cases app h
  have hstarted : startChecker app envelope w = .ok () (after (startChecker app envelope w)) := rfl
  have hltx := (reads_startChecker app envelope).ltx (by omega) hstarted
  have hafter : after (applyTransaction app envelope w) =
      after ((if valid then applyOperations app envelope.tx else pure result : AppM X TransactionResult) w₂) := by
    rw [after_applyTransaction, apply, after_bind_of_ok hstarted, after_bind_of_ok hvalidated]
  rw [hafter]
  generalize after (startChecker app envelope w) = started at *
  rw [← hltx] at hv hs ⊢
  obtain ⟨habove, hbelow⟩ := validate_takes app hv hs hcv hupdates hvalidated
  refine ⟨habove, hbelow.trans ?_⟩
  have hm := (balances_validate app envelope.tx).ok hvalidated (by omega)
  -- the operations only raise the number, also where one of them throws
  have hrest : Balances (if valid then applyOperations app envelope.tx else pure result : AppM X TransactionResult) :=
    .ite (fun _ => balances_applyOperations app envelope.tx) fun _ => .pure _
  exact (hrest w₂ (by rw [hm.version]; omega)).floor (by rwa [hm.version]) (by rwa [hm.ledgerSeq]) _

/-- The numbers that are taken by the transactions, with the accounts they are taken from. -/
def takenFrom : List TransactionEnvelope → World X → List (AccountID × ℤ)
  | [], _ => []
  | envelope :: txs, w =>
    (if takesSeqNum app envelope w then [(envelope.tx.sourceAccount, envelope.tx.seqNum)] else []) ++
      takenFrom txs (after (applyTransaction app envelope w))

theorem applyTransaction_climbs (envelope : TransactionEnvelope) (hv : 10 ≤ w.ltx.header.ledgerVersion)
    (hs : w.ltx.header.ledgerSeq < 2 ^ 31) :
    Climbs w.ltx.floor (after (applyTransaction app envelope w)).ltx.floor
      (if takesSeqNum app envelope w then [(envelope.tx.sourceAccount, envelope.tx.seqNum)] else []) := by
  have hle := ((balances_applyTransaction app envelope) w (by omega)).floor hv hs
  split_ifs with htakes
  · obtain ⟨habove, hbelow⟩ := applyTransaction_takes app hv hs htakes
    exact .one hle habove hbelow
  · exact .nothing hle

theorem applyTransactions_climbs (txs : List TransactionEnvelope) {results : List TransactionResult}
    (hv : 10 ≤ w.ltx.header.ledgerVersion) (hs : w.ltx.header.ledgerSeq < 2 ^ 31)
    (h : applyTransactions app txs w = .ok results w') :
    Climbs w.ltx.floor w'.ltx.floor (takenFrom app txs w) := by
  induction txs generalizing results w with
  | nil =>
    obtain ⟨rfl, rfl⟩ := pure_ok.mp h
    exact .nothing fun _ => le_rfl
  | cons envelope txs ih =>
    obtain ⟨result, w₁, h₁, h⟩ := bind_ok.mp h
    obtain ⟨results', w₂, h₂, h⟩ := bind_ok.mp h
    obtain ⟨rfl, rfl⟩ := pure_ok.mp h
    have hm := (balances_applyTransaction app envelope).ok h₁ (by omega)
    have hfirst := applyTransaction_climbs app envelope hv hs
    have hafter : after (applyTransaction app envelope w) = w₁ := by rw [h₁]; rfl
    rw [takenFrom, hafter]
    rw [hafter] at hfirst
    exact hfirst.append (ih (by rwa [hm.version]) (by rwa [hm.ledgerSeq]) h₂)

/-! ## Ledgers -/

/-- The numbers taken by the transactions of a ledger. -/
def takenBy (w : World X) (c : Closing) : List (AccountID × ℤ) :=
  match closeLedger app c.closeTime c.txs c.upgrades w with
  | .ok _ _ => takenFrom app c.txs (after (processFeesSeqNums c.txs (w.setLtx (nextLedger c.closeTime w.ltx))))
  | .error _ _ => []

/-- The numbers taken in a run, in the order of the ledgers and of their transactions. -/
def takenIn : World X → List Closing → List (AccountID × ℤ)
  | _, [] => []
  | w, c :: closings => takenBy app w c ++ takenIn (w.close app c) closings

/-- A ledger has the number after the last one, or is the last one still. -/
structure Later (ltx ltx' : AbstractLedgerTxn) : Prop where
  version : ltx.header.ledgerVersion ≤ ltx'.header.ledgerVersion
  ledgerSeq : ltx'.header.ledgerSeq ≤ ltx.header.ledgerSeq + 1

theorem close_climbs {c : Closing} (hv : 10 ≤ w.ltx.header.ledgerVersion)
    (hs : w.ltx.header.ledgerSeq + 1 < 2 ^ 31) (hallowed : Allowed w.ltx.header c.upgrades) :
    Climbs w.ltx.floor (w.close app c).ltx.floor (takenBy app w c) ∧ Later w.ltx (w.close app c).ltx := by
  unfold takenBy World.close
  cases hclose : closeLedger app c.closeTime c.txs c.upgrades w with
  | error e w' => exact ⟨.nothing fun _ => le_rfl, le_rfl, Nat.le_succ _⟩
  | ok results w' =>
    dsimp only
    have hcarried := closeLedger_carried app (by omega) hallowed hclose
    obtain ⟨-, w₁, w₂, hcharged, happlied, hupgraded⟩ := closeLedger_ok app hclose
    rw [hcharged]
    have hnext : (nextLedger c.closeTime w.ltx).header.ledgerSeq = w.ltx.header.ledgerSeq + 1 :=
      Nat.mod_eq_of_lt (by omega)
    have hm₁ : Moves 0 (nextLedger c.closeTime w.ltx) w₁.ltx :=
      (balances_processFeesSeqNums c.txs).ok hcharged (le_trans (by omega) hv)
    have hv₁ : 10 ≤ w₁.ltx.header.ledgerVersion := by
      rw [hm₁.version]
      exact hv
    have hs₁ : w₁.ltx.header.ledgerSeq < 2 ^ 31 := by
      rw [hm₁.ledgerSeq, hnext]
      exact hs
    have hm₂ := (balances_applyTransactions app c.txs).ok happlied (by omega)
    obtain ⟨hsettled, -⟩ := applyUpgrades_settled c.upgrades hallowed
      (by rw [hm₂.version, hm₁.version]; exact le_rfl) hupgraded
    have hbefore : ∀ a, w.ltx.floor a ≤ w₁.ltx.floor a := fun a =>
      (floor_nextLedger c.closeTime hs a).trans (hm₁.floor hv (by rw [hnext]; exact hs) a)
    have hafter : ∀ a, w₂.ltx.floor a ≤ w'.ltx.floor a :=
      hsettled.floor (by rw [hm₂.ledgerSeq]; exact hs₁)
    have hclimbs := ((Climbs.nothing hbefore).append
      (applyTransactions_climbs app c.txs hv₁ hs₁ happlied)).append (.nothing hafter)
    rw [List.nil_append, List.append_nil] at hclimbs
    exact ⟨hclimbs, hcarried.version, hcarried.ledgerSeq ▸ Nat.mod_le _ _⟩

/-- In a run the counters climb by the numbers that are taken. -/
theorem climbs_run (closings : List Closing) (hv : 10 ≤ w.ltx.header.ledgerVersion)
    (hs : w.ltx.header.ledgerSeq + closings.length < 2 ^ 31) (hallowed : RunAllowed app w closings) :
    Climbs w.ltx.floor (closings.foldl (World.close app) w).ltx.floor (takenIn app w closings) ∧
      10 ≤ (closings.foldl (World.close app) w).ltx.header.ledgerVersion := by
  induction closings generalizing w with
  | nil => exact ⟨.nothing fun _ => le_rfl, hv⟩
  | cons c closings ih =>
    rw [List.length_cons] at hs
    obtain ⟨hclimbs, hlater⟩ := close_climbs app hv (by omega) hallowed.1
    have hs₁ := hlater.ledgerSeq
    obtain ⟨hrest, hv'⟩ := ih (hv.trans hlater.version) (by omega) hallowed.2
    exact ⟨hclimbs.append hrest, hv'⟩

/-- Over any run of ledgers from version 10 on, the sequence numbers taken from an account go up. -/
theorem takenIn_increasing (closings : List Closing) (hv : 10 ≤ w.ltx.header.ledgerVersion)
    (hs : w.ltx.header.ledgerSeq + closings.length < 2 ^ 31) (hallowed : RunAllowed app w closings) :
    (takenIn app w closings).Pairwise fun t t' => t.1 = t'.1 → t.2 < t'.2 :=
  (climbs_run app closings hv hs hallowed).1.increasing

/-- After the run no transaction with a number that was taken from its account, or a lower one, is valid, as it
would be applied; and it is not let in either behind transactions whose number `current` is not below that of
the account. -/
theorem taken_never_valid (closings : List Closing) (seqNum : ℤ) {tx : Transaction} {current : ℤ}
    {applying : Bool} {cv : ValidationType} {code : TransactionResultCode}
    (hv : 10 ≤ w.ltx.header.ledgerVersion) (hs : w.ltx.header.ledgerSeq + closings.length < 2 ^ 31)
    (hallowed : RunAllowed app w closings) (htaken : (tx.sourceAccount, seqNum) ∈ takenIn app w closings)
    (hle : tx.seqNum ≤ seqNum)
    (hcurrent : current = 0 ∨ ∀ acc,
      (closings.foldl (World.close app) w).ltx.account tx.sourceAccount = some acc → acc.seqNum ≤ current)
    (h : commonValid app tx current applying (closings.foldl (World.close app) w) = .ok (cv, code) w') :
    cv = .kInvalid := by
  obtain ⟨hclimbs, hv'⟩ := climbs_run app closings hv hs hallowed
  obtain hinvalid | ⟨acc, hacc, hfollows⟩ := commonValid_follows hv' h
  · exact hinvalid
  · have hlt := lt_of_followsSeqNum (hcurrent.imp_right fun hbefore => hbefore acc hacc) hfollows
    have hbelow := hclimbs.below _ htaken
    rw [AbstractLedgerTxn.floor, hacc] at hbelow
    dsimp only at hbelow
    omega

end

theorem takenIn_increasing_preauthorized :
    takenIn standalone preauthorizedWorld preauthorizedClosings = [(7, 1), (7, 2)] ∧
      (takenIn standalone preauthorizedWorld preauthorizedClosings).Pairwise
        fun t t' => t.1 = t'.1 → t.2 < t'.2 :=
  ⟨by decide +kernel, takenIn_increasing standalone preauthorizedClosings (by decide) (by decide)
    (by decide +kernel)⟩

/-- Number 1 is checked for application, and number 2 behind a transaction with the number 2. -/
theorem taken_never_valid_preauthorized :
    (∃ w' cv code, commonValid standalone (preauthorizedTx 1 (.PAYMENT 8 .native 5)).tx 0 true
        (preauthorizedClosings.foldl (World.close standalone) preauthorizedWorld)
        = .ok (cv, code) w' ∧ cv = .kInvalid) ∧
      ∃ w' cv code, commonValid standalone (preauthorizedTx 2 (.PAYMENT 8 .native 5)).tx 2 false
        (preauthorizedClosings.foldl (World.close standalone) preauthorizedWorld)
        = .ok (cv, code) w' ∧ cv = .kInvalid := by
  constructor
  · obtain ⟨w', h⟩ : ∃ w', commonValid standalone (preauthorizedTx 1 (.PAYMENT 8 .native 5)).tx 0 true
        (preauthorizedClosings.foldl (World.close standalone) preauthorizedWorld)
        = .ok (.kInvalid, .txBAD_SEQ) w' := ⟨_, eq_ok_of_result? (by decide +kernel)⟩
    exact ⟨w', _, _, h, taken_never_valid standalone preauthorizedClosings 1 (by decide) (by decide)
      (by decide +kernel) (by decide +kernel) (by decide) (.inl rfl) h⟩
  · obtain ⟨w', h⟩ : ∃ w', commonValid standalone (preauthorizedTx 2 (.PAYMENT 8 .native 5)).tx 2 false
        (preauthorizedClosings.foldl (World.close standalone) preauthorizedWorld)
        = .ok (.kInvalid, .txBAD_SEQ) w' := ⟨_, eq_ok_of_result? (by decide +kernel)⟩
    have hnumber : ∀ acc, (preauthorizedClosings.foldl (World.close standalone) preauthorizedWorld).ltx.account
        (preauthorizedTx 2 (.PAYMENT 8 .native 5)).tx.sourceAccount = some acc → acc.seqNum ≤ 2 := by
      intro acc hacc
      have hseq : ((preauthorizedClosings.foldl (World.close standalone) preauthorizedWorld).ltx.account
          (preauthorizedTx 2 (.PAYMENT 8 .native 5)).tx.sourceAccount).map AccountEntry.seqNum = some 2 := by
        decide +kernel
      rw [hacc] at hseq
      exact (Option.some.inj hseq).le
    exact ⟨w', _, _, h, taken_never_valid standalone preauthorizedClosings 2 (by decide) (by decide)
      (by decide +kernel) (by decide +kernel) (by decide) (.inr hnumber) h⟩

end ZaggCore.Transactions
