import Mathlib
import ZaggCore.Foundations.Runs
import ZaggCore.Herder.UpgradeEffects
import ZaggCore.Ledger.LedgerManagerImpl

/-! # The accounts of a chain of ledgers

Fees, transactions and upgrades leave the total of lumens and the counts of sub-entries as they are, and no
sequence number falls. What closes one ledger so does it for every ledger of a run. -/

namespace ZaggCore.Transactions
set_option autoImplicit false
set_option maxHeartbeats 250000

open Foundations Numeric AbstractLedgerTxn

variable {X Q : Type} {w w' : World X}

/-! ## Fees -/

theorem chargeEach_moves (txs : List TransactionEnvelope) (hv : 8 ≤ w.ltx.header.ledgerVersion)
    (h : chargeEach txs w = .ok () w') : Moves 0 w.ltx w'.ltx := by
  induction txs generalizing w with
  | nil =>
    obtain ⟨-, rfl⟩ := pure_ok.mp h
    exact .refl _
  | cons envelope txs ih =>
    obtain ⟨fee, w₁, h₁, h⟩ := bind_ok.mp h
    have hm := processFeeSeqNum_moves hv (committed_ok.mp h₁)
    exact (hm.trans (ih (by rwa [hm.version]) h)).cast (add_zero 0)

/-- All fees together, or none. -/
theorem balances_processFeesSeqNums (txs : List TransactionEnvelope) :
    Balances (processFeesSeqNums txs : AppM X Unit) :=
  balances_committed fun _ _ _ hv h => chargeEach_moves txs hv h

/-! ## Upgrades -/

/-- The upgrades of a value are right for the last ledger. -/
def Allowed (header : LedgerHeader) (upgrades : List LedgerUpgrade) : Prop :=
  ∀ upgrade ∈ upgrades, Upgrades.isValid CURRENT_LEDGER_PROTOCOL_VERSION header upgrade = true

instance (header : LedgerHeader) (upgrades : List LedgerUpgrade) : Decidable (Allowed header upgrades) := by
  unfold Allowed
  infer_instance

theorem applyUpgrade_settled {upgrade : LedgerUpgrade} (h : applyUpgrades.applyUpgrade upgrade w = .ok () w') :
    Settled w.ltx w'.ltx ∧ (w'.ltx.header.ledgerVersion = w.ltx.header.ledgerVersion ∨
      w'.ltx.header.ledgerVersion = upgrade.versionFrom w.ltx.header.ledgerVersion) := by
  unfold applyUpgrades.applyUpgrade at h
  split at h
  case h_1 hx =>
    obtain ⟨-, rfl⟩ := EStateM.Result.ok.inj h
    obtain ⟨hs, hversion⟩ := Upgrades.applyTo_settled (committed_ok.mp hx)
    exact ⟨hs, .inr hversion⟩
  case h_2 => cases h
  case h_3 hx =>
    obtain ⟨-, rfl⟩ := EStateM.Result.ok.inj h
    obtain ⟨w₁, -, rfl⟩ := committed_error.mp hx
    exact ⟨.refl _, .inl rfl⟩

/-- No upgrade that is right for the last ledger brings back an earlier version. -/
theorem le_versionFrom {header : LedgerHeader} {upgrade : LedgerUpgrade} {version : ℕ}
    (h : Upgrades.isValid CURRENT_LEDGER_PROTOCOL_VERSION header upgrade = true)
    (hle : header.ledgerVersion ≤ version) : header.ledgerVersion ≤ upgrade.versionFrom version := by
  cases upgrade with
  | LEDGER_UPGRADE_VERSION newVersion =>
    obtain ⟨-, hlt⟩ := (Bool.and_eq_true _ _).mp h
    exact (of_decide_eq_true hlt).le
  | _ => exact hle

theorem applyUpgrades_settled {header : LedgerHeader} (upgrades : List LedgerUpgrade)
    (hallowed : Allowed header upgrades) (hle : header.ledgerVersion ≤ w.ltx.header.ledgerVersion)
    (h : applyUpgrades upgrades w = .ok () w') :
    Settled w.ltx w'.ltx ∧ header.ledgerVersion ≤ w'.ltx.header.ledgerVersion := by
  induction upgrades generalizing w with
  | nil =>
    obtain ⟨-, rfl⟩ := pure_ok.mp h
    exact ⟨.refl _, hle⟩
  | cons upgrade upgrades ih =>
    obtain ⟨hvalid, hallowed⟩ := List.forall_mem_cons.mp hallowed
    obtain ⟨_, w₁, h₁, h⟩ := bind_ok.mp h
    obtain ⟨hs₁, hversion⟩ := applyUpgrade_settled h₁
    have hle₁ : header.ledgerVersion ≤ w₁.ltx.header.ledgerVersion := by
      obtain hversion | hversion := hversion
      · rwa [hversion]
      · rw [hversion]
        exact le_versionFrom hvalid hle
    obtain ⟨hs, hle'⟩ := ih hallowed hle₁ h
    exact ⟨hs₁.trans hs, hle'⟩

/-! ## Transactions -/

section

variable [LinearOrder Q] (app : Application X Q)

theorem balances_applyTransaction (envelope : TransactionEnvelope) : Balances (applyTransaction app envelope) := by
  intro w
  have h := balances_apply app envelope w
  unfold applyTransaction
  cases hx : apply app envelope w with
  | ok result w' =>
    rw [hx] at h
    exact h
  | error e w' =>
    rw [hx] at h
    cases e <;> exact h

theorem balances_applyTransactions (txs : List TransactionEnvelope) : Balances (applyTransactions app txs) := by
  induction txs with
  | nil => exact .pure _
  | cons envelope txs ih =>
    exact (balances_applyTransaction app envelope).bind fun result => ih.bind fun results => .pure _

/-! ## Closing a ledger -/

/-- The next ledger, before anything is charged or applied. -/
def nextLedger (closeTime : ℕ) (ltx : AbstractLedgerTxn) : AbstractLedgerTxn where
  header := { ltx.header with ledgerSeq := (ltx.header.ledgerSeq + 1) % 2 ^ 32 }
  closeTime := closeTime
  entries := ltx.entries
  keyed := ltx.keyed

/-- The stages of closing a ledger. -/
theorem closeLedger_ok {closeTime : ℕ} {txs : List TransactionEnvelope} {upgrades : List LedgerUpgrade}
    {results : List TransactionResult} (h : closeLedger app closeTime txs upgrades w = .ok results w') :
    w.ltx.header.ledgerVersion ≤ CURRENT_LEDGER_PROTOCOL_VERSION ∧
      ∃ w₁ w₂, processFeesSeqNums txs (w.setLtx (nextLedger closeTime w.ltx)) = .ok () w₁ ∧
        applyTransactions app txs w₁ = .ok results w₂ ∧ applyUpgrades upgrades w₂ = .ok () w' := by
  obtain ⟨ltx, w₁, h₁, h⟩ := bind_ok.mp h
  obtain ⟨rfl, rfl⟩ := getLedger_ok.mp h₁
  obtain ⟨_, w₁, h₁, h⟩ := bind_ok.mp h
  obtain ⟨hversion, rfl⟩ := lift_ok.mp h₁
  obtain ⟨_, w₁, h₁, h⟩ := bind_ok.mp h
  obtain rfl := modify_ok.mp h₁
  obtain ⟨_, w₁, hcharged, h⟩ := bind_ok.mp h
  obtain ⟨results', w₂, happlied, h⟩ := bind_ok.mp h
  obtain ⟨_, w₃, hupgraded, h⟩ := bind_ok.mp h
  obtain ⟨rfl, rfl⟩ := pure_ok.mp h
  exact ⟨not_lt.mp (throwIf_ok.mp hversion), w₁, w₂, hcharged, happlied, hupgraded⟩

theorem floor_nextLedger (closeTime : ℕ) {ltx : AbstractLedgerTxn} (hs : ltx.header.ledgerSeq + 1 < 2 ^ 31)
    (a : AccountID) : ltx.floor a ≤ (nextLedger closeTime ltx).floor a := by
  have haccount : (nextLedger closeTime ltx).account a = ltx.account a := rfl
  have hseq : (nextLedger closeTime ltx).header.ledgerSeq = ltx.header.ledgerSeq + 1 :=
    Nat.mod_eq_of_lt (by omega)
  unfold AbstractLedgerTxn.floor
  rw [haccount, hseq]
  cases ltx.account a with
  | some acc => exact le_rfl
  | none =>
    push_cast
    omega

/-- From one closed ledger to the next. -/
structure Carried (ltx ltx' : AbstractLedgerTxn) : Prop where
  version : ltx.header.ledgerVersion ≤ ltx'.header.ledgerVersion
  ledgerSeq : ltx'.header.ledgerSeq = (ltx.header.ledgerSeq + 1) % 2 ^ 32
  lumens : ltx.AmountsFit → ltx'.AmountsFit ∧ ltx'.lumens ≡ ltx.lumens [ZMOD 2 ^ 64]
  counts : ltx.CountsFit → ltx'.CountsFit ∧ ∀ a, ltx'.imbalance a = ltx.imbalance a

theorem closeLedger_carried {closeTime : ℕ} {txs : List TransactionEnvelope} {upgrades : List LedgerUpgrade}
    {results : List TransactionResult} (hv : 8 ≤ w.ltx.header.ledgerVersion)
    (hallowed : Allowed w.ltx.header upgrades)
    (h : closeLedger app closeTime txs upgrades w = .ok results w') : Carried w.ltx w'.ltx := by
  obtain ⟨-, w₁, w₂, hcharged, happlied, hupgraded⟩ := closeLedger_ok app h
  have hm₁ : Moves 0 (nextLedger closeTime w.ltx) w₁.ltx := (balances_processFeesSeqNums txs).ok hcharged hv
  have hm₂ : Moves 0 w₁.ltx w₂.ltx := (balances_applyTransactions app txs).ok happlied (by rw [hm₁.version]; exact hv)
  have hm := (hm₁.trans hm₂).cast (add_zero 0)
  have hle : w.ltx.header.ledgerVersion ≤ w₂.ltx.header.ledgerVersion := by
    rw [hm.version]
    exact le_rfl
  obtain ⟨hs, hle'⟩ := applyUpgrades_settled upgrades hallowed hle hupgraded
  refine ⟨hle', hs.ledgerSeq.trans hm.ledgerSeq, fun hfit => ?_, fun hfit => ?_⟩
  · obtain ⟨hfit₂, h₂⟩ := hm.lumens ⟨hfit.balances, hfit.feePool, hfit.totalCoins⟩
    obtain ⟨hfit', h'⟩ := hs.lumens hfit₂
    refine ⟨hfit', h'.trans (h₂.trans ?_)⟩
    rw [Prod.fst_zero, add_zero]
    rfl
  · obtain ⟨hfit₂, h₂⟩ := hm.counts hfit
    obtain ⟨hfit', h'⟩ := hs.counts hfit₂
    refine ⟨hfit', fun a => (h' a).trans ((h₂ a).trans ?_)⟩
    simp [AbstractLedgerTxn.imbalance, AbstractLedgerTxn.sum, nextLedger]

/-! ## Runs -/

/-- What a ledger is closed with. -/
structure Closing where
  closeTime : ℕ
  txs : List TransactionEnvelope
  upgrades : List LedgerUpgrade

/-- A ledger that can not be closed is not stored. -/
def World.close (w : World X) (c : Closing) : World X :=
  match closeLedger app c.closeTime c.txs c.upgrades w with
  | .ok _ w' => w'
  | .error _ _ => w

/-- The upgrades of every ledger of the run are right for the ledger before. -/
abbrev RunAllowed (w : World X) (closings : List Closing) : Prop :=
  EachStep (World.close app) (fun w c => Allowed w.ltx.header c.upgrades) w closings

theorem close_cases (w : World X) (c : Closing) (hv : 8 ≤ w.ltx.header.ledgerVersion)
    (hallowed : Allowed w.ltx.header c.upgrades) :
    w.close app c = w ∨ Carried w.ltx (w.close app c).ltx := by
  unfold World.close
  split
  case h_1 h => exact .inr (closeLedger_carried app hv hallowed h)
  case h_2 => exact .inl rfl

end

/-! ## A ledger of one account -/

section

variable {header : LedgerHeader} {acc : AccountEntry}

theorem account_emptyLedger_put (a : AccountID) :
    ((emptyLedger header).put (.account acc)).account a = if a = acc.accountID then some acc else none :=
  account_put_account acc a

theorem amountsFit_emptyLedger_put (h : IsAmount acc.balance) (hpool : FitsInt64 header.feePool)
    (htotal : FitsInt64 header.totalCoins) : ((emptyLedger header).put (.account acc)).AmountsFit := by
  refine ⟨fun a acc' hacc => ?_, hpool, htotal⟩
  rw [account_emptyLedger_put] at hacc
  split_ifs at hacc
  rwa [← Option.some.inj hacc]

theorem countsFit_emptyLedger_put (h : acc.numSubEntries < 2 ^ 31) :
    ((emptyLedger header).put (.account acc)).CountsFit := by
  intro a acc' hacc
  rw [account_emptyLedger_put] at hacc
  split_ifs at hacc
  rwa [← Option.some.inj hacc]

end

/-- A node of `standalone` whose root account has agreed to any transaction once. -/
def preauthorizedWorld : World Unit :=
  .start ((emptyLedger standaloneWorld.ltx.header).put (.account
    { rootAccount 7 standaloneWorld.ltx.header with numSubEntries := 1, signers := [⟨.preAuthTx 0, 1⟩] })) ()

/-- A transaction of the root account that agrees to one more transaction. -/
def preauthorizedTx (seqNum : ℤ) (body : OperationBody) : TransactionEnvelope where
  tx := { sourceAccount := 7, fee := 1000, seqNum := seqNum, timeBounds := none,
          operations := [⟨none, body⟩, ⟨none, .SET_OPTIONS {
            inflationDest := none, clearFlags := none, setFlags := none, masterWeight := none,
            lowThreshold := none, medThreshold := none, highThreshold := none, homeDomain := none,
            signer := some ⟨.preAuthTx 0, 1⟩ }⟩] }
  signatures := []

/-- An account is made and the payment to it comes with a used number; then the reserve is raised and the
payment comes with the next one. -/
def preauthorizedClosings : List Closing :=
  [⟨5, [preauthorizedTx 1 (.CREATE_ACCOUNT 8 5000000000), preauthorizedTx 1 (.PAYMENT 8 .native 5)],
    [.LEDGER_UPGRADE_BASE_RESERVE 200000000]⟩,
   ⟨10, [preauthorizedTx 2 (.PAYMENT 8 .native 5)], [.LEDGER_UPGRADE_BASE_FEE 200]⟩]

/-! ## Lumens -/

namespace AbstractLedgerTxn

variable (ltx : AbstractLedgerTxn)

def nativeBalances : ℤ :=
  (ltx.entries.entries.map fun p => match p.2 with
    | .account acc => acc.balance
    | _ => 0).sum

/-- Every coin of the total is on an account or in the fee pool, as 64 bits have the sum of these. -/
def Backed : Prop := toInt64 (ltx.nativeBalances + ltx.header.feePool) = ltx.header.totalCoins

instance : Decidable ltx.Backed := by
  unfold Backed
  infer_instance

variable {ltx}

theorem nativeBalances_nonneg (hfit : ltx.AmountsFit) : 0 ≤ ltx.nativeBalances := by
  refine List.sum_nonneg fun x hx => ?_
  obtain ⟨p, hp, rfl⟩ := List.mem_map.mp hx
  obtain ⟨key, e⟩ := p
  cases e with
  | account acc =>
    have hlook : ltx.getNewestVersion key = some (.account acc) := List.mem_dlookup ltx.entries.nodupKeys hp
    obtain rfl : key = .account acc.accountID := (ltx.keyed _ _ hlook).symm
    exact (hfit.balances _ _ (account_eq_some.mpr hlook)).1
  | _ => exact le_rfl

/-- The sum is exact as long as it is no more than 64 bits can say. -/
theorem Backed.eq (h : ltx.Backed) (hfit : ltx.AmountsFit)
    (hle : ltx.nativeBalances + ltx.header.feePool ≤ INT64_MAX) :
    ltx.nativeBalances + ltx.header.feePool = ltx.header.totalCoins := by
  have hnonneg := nativeBalances_nonneg hfit
  have hpool := hfit.feePool.1
  rw [← h, toInt64_eq ⟨by omega, hle⟩]

theorem backed_iff (hfit : ltx.AmountsFit) : ltx.Backed ↔ ltx.lumens ≡ 0 [ZMOD 2 ^ 64] := by
  have hfst : (ltx.sum worth).1 = ltx.nativeBalances := by
    unfold AbstractLedgerTxn.sum keyedSum nativeBalances
    rw [← AddMonoidHom.coe_fst, map_list_sum, List.map_map]
    congr 1
    refine List.map_congr_left fun p _ => ?_
    simp only [Function.comp, AddMonoidHom.coe_fst, worth]
    cases p.2 <;> rfl
  have hwraps := toInt64_modEq (ltx.nativeBalances + ltx.header.feePool)
  rw [Backed, AbstractLedgerTxn.lumens, hfst]
  constructor
  · intro h
    rw [h] at hwraps
    simpa using hwraps.symm.sub_right ltx.header.totalCoins
  · intro h
    have hsame : ltx.nativeBalances + ltx.header.feePool ≡ ltx.header.totalCoins [ZMOD 2 ^ 64] := by
      simpa using h.add_right ltx.header.totalCoins
    rw [toInt64_congr hsame, toInt64_eq hfit.totalCoins]

end AbstractLedgerTxn

section

variable [LinearOrder Q] (app : Application X Q)

end

/-- A line, an offer or data of the account. -/
def isSubEntryOf (a : AccountID) : LedgerEntryData → Bool
  | .account _ => false
  | .trustLine tl => tl.accountID = a
  | .offer o => o.sellerID = a
  | .data d => d.accountID = a

/-- What an account itself adds to the balance of its count. -/
def ownCount (a : AccountID) : LedgerEntryData → ℤ
  | .account acc => if acc.accountID = a then acc.signers.length - acc.numSubEntries else 0
  | _ => 0

theorem worth_eq (a : AccountID) (e : LedgerEntryData) :
    (worth e).2 a = (if isSubEntryOf a e then 1 else 0) + ownCount a e := by
  cases e <;> simp [worth, ownCount, isSubEntryOf, Pi.single_apply, eq_comm]

theorem ownCount_of_ne {a : AccountID} {e : LedgerEntryData} (h : e.key ≠ .account a) : ownCount a e = 0 := by
  cases e with
  | account acc => exact if_neg fun heq => h (by rw [← heq]; rfl)
  | _ => rfl

namespace AbstractLedgerTxn

variable (ltx : AbstractLedgerTxn)

def subEntries (a : AccountID) : ℕ := (ltx.entries.entries.filter (isSubEntryOf a ·.2)).length

/-- The count of every account is that of its signers, lines, offers and data; without an account there
are none. -/
def Counted : Prop :=
  ∀ a, match ltx.account a with
    | some acc => acc.numSubEntries = acc.signers.length + ltx.subEntries a
    | none => ltx.subEntries a = 0

theorem imbalance_eq (a : AccountID) :
    ltx.imbalance a = ltx.subEntries a + ltx.share (ownCount a) (.account a) := by
  rw [← sum_eq_share (f := ownCount a) fun e => ownCount_of_ne]
  unfold imbalance AbstractLedgerTxn.sum keyedSum subEntries
  induction ltx.entries.entries with
  | nil => rfl
  | cons p entries ih =>
    rw [List.map_cons, List.sum_cons, List.map_cons, List.sum_cons, Prod.snd_add, Pi.add_apply, ih, worth_eq,
      List.filter_cons]
    split_ifs
    · rw [List.length_cons]
      push_cast
      ring
    · ring

theorem counted_iff : ltx.Counted ↔ ∀ a, ltx.imbalance a = 0 := by
  refine forall_congr' fun a => ?_
  rw [imbalance_eq]
  cases hacc : ltx.account a with
  | none =>
    rw [share_of_none (account_eq_none.mp hacc), add_zero]
    exact Int.natCast_eq_zero.symm
  | some acc =>
    rw [share_of_some (account_eq_some.mp hacc), ownCount, if_pos (accountID_of_account hacc)]
    dsimp only
    omega

end AbstractLedgerTxn

section

variable [LinearOrder Q] (app : Application X Q)

/-- The counts of sub-entries are right after any run of ledgers from version 8 on. -/
theorem counted_throughout (closings : List Closing) (hv : 8 ≤ w.ltx.header.ledgerVersion)
    (hfit : w.ltx.CountsFit) (hcounted : w.ltx.Counted) (hallowed : RunAllowed app w closings) :
    Throughout (World.close app) (fun w => w.ltx.CountsFit ∧ w.ltx.Counted) w closings := by
  have hrun : Throughout (World.close app)
      (fun w => 8 ≤ w.ltx.header.ledgerVersion ∧ w.ltx.CountsFit ∧ w.ltx.Counted) w closings := by
    refine throughout_of_eachStep (fun w c hinv hallowed => ?_) ⟨hv, hfit, hcounted⟩ hallowed
    obtain ⟨hv, hfit, hcounted⟩ := hinv
    obtain heq | hcarried := close_cases app w c hv hallowed
    · rw [heq]
      exact ⟨hv, hfit, hcounted⟩
    · obtain ⟨hfit', heq⟩ := hcarried.counts hfit
      refine ⟨hv.trans hcarried.version, hfit', (counted_iff _).mpr fun a => ?_⟩
      rw [heq, (counted_iff _).mp hcounted]
  exact hrun.mono fun _ h => h.2

end

theorem counted_throughout_preauthorized :
    Throughout (World.close standalone) (fun w => w.ltx.CountsFit ∧ w.ltx.Counted) preauthorizedWorld
      preauthorizedClosings := by
  refine counted_throughout standalone preauthorizedClosings (by decide) (countsFit_emptyLedger_put (by decide))
    (fun a => ?_) (by decide +kernel)
  change match ((emptyLedger standaloneWorld.ltx.header).put _).account a with
    | some acc => _
    | none => _
  rw [account_emptyLedger_put]
  split_ifs <;> rfl

end ZaggCore.Transactions
