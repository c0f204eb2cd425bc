import Mathlib
import ZaggCore.Transactions.OperationFrame

/-! # What the changes of an entry change

For every function that changes an account or a trust line, what a call that ended well did to the entry.
From version 8 on the handles of cached accounts are handles like any other. -/

namespace ZaggCore.Transactions
set_option autoImplicit false
set_option maxHeartbeats 250000

open Foundations Numeric

variable {X : Type}

/-! ## Ledger access -/

theorem getLedger_ok {w w' : World X} {ltx : AbstractLedgerTxn} :
    getLedger w = .ok ltx w' ↔ w.ltx = ltx ∧ w = w' := by
  simp [getLedger]

theorem loadHeader_ok {w w' : World X} {header : LedgerHeader} :
    loadHeader w = .ok header w' ↔ w.ltx.header = header ∧ w = w' := by
  simp [loadHeader]

theorem storeHeader_ok {w w' : World X} {header : LedgerHeader} {u : Unit} :
    storeHeader header w = .ok u w' ↔ w.setLtx { w.ltx with header := header } = w' := by
  simp [storeHeader]

theorem store_ok {w w' : World X} {e : LedgerEntryData} {u : Unit} :
    store e w = .ok u w' ↔ (w.setLtx (w.ltx.put e)).touch e.key = w' := by
  simp [store]

theorem create_ok {w w' : World X} {e : LedgerEntryData} {u : Unit} :
    create e w = .ok u w' ↔
      w.ltx.getNewestVersion e.key = none ∧ (w.setLtx (w.ltx.put e)).touch e.key = w' := by
  unfold create
  cases w.ltx.getNewestVersion e.key <;> simp

theorem erase_ok {w w' : World X} {key : LedgerKey} {u : Unit} :
    erase key w = .ok u w' ↔
      (w.ltx.getNewestVersion key).isSome ∧ w.setLtx (w.ltx.erase key) = w' := by
  unfold erase
  cases w.ltx.getNewestVersion key <;> simp

theorem loadAccount_ok {w w' : World X} {a : AccountID} {acc : Option AccountEntry} :
    loadAccount a w = .ok acc w' ↔ w.ltx.account a = acc ∧ w.load (.account a) = w' := by
  simp [loadAccount]

theorem loadAccountWithoutRecord_ok {w w' : World X} {a : AccountID} {acc : Option AccountEntry} :
    loadAccountWithoutRecord a w = .ok acc w' ↔ w.ltx.account a = acc ∧ w = w' := by
  simp [loadAccountWithoutRecord]

theorem loadData_ok {w w' : World X} {a : AccountID} {n : String64} {d : Option DataEntry} :
    loadData a n w = .ok d w' ↔ w.ltx.data a n = d ∧ w.load (.data a n) = w' := by
  simp [loadData]

theorem loadOffer_ok {w w' : World X} {a : AccountID} {i : ℕ} {o : Option OfferEntry} :
    loadOffer a i w = .ok o w' ↔ w.ltx.offer a i = o ∧ w.load (.offer a i) = w' := by
  simp [loadOffer]

theorem loadTrustLineEntry_ok {w w' : World X} {a : AccountID} {asset : Asset}
    {tl : Option TrustLineEntry} :
    loadTrustLineEntry a asset w = .ok tl w' ↔
      w.ltx.trustLine a asset = tl ∧ w.load (.trustLine a asset) = w' := by
  simp [loadTrustLineEntry]

/-! ## Cached accounts -/

theorem loadAccountCached_eq {w : World X} (hv : 8 ≤ w.ltx.header.ledgerVersion) (a : AccountID) :
    loadAccountCached a w = .ok (w.ltx.account a) (w.load (.account a)) := by
  have hv' : ¬ w.ltx.header.ledgerVersion < 8 := by omega
  simp only [loadAccountCached, bind, EStateM.bind, loadHeader, get, getThe, MonadStateOf.get,
    EStateM.get, hv', false_and, if_false]
  cases w.mCachedAccount <;> rfl

theorem loadSourceAccount_eq {w : World X} (hv : 8 ≤ w.ltx.header.ledgerVersion) (a : AccountID) :
    loadSourceAccount a w = .ok (w.ltx.account a) (w.load (.account a)) := by
  have hv' : ¬ w.ltx.header.ledgerVersion < 8 := by omega
  simp [loadSourceAccount, bind, EStateM.bind, loadAccountCached_eq hv, loadHeader, hv', pure,
    EStateM.pure]

/-- From version 8 on an assignment through a cached handle is one through any handle. -/
theorem storeCached_eq {w : World X} (hv : 8 ≤ w.ltx.header.ledgerVersion) (acc : AccountEntry) :
    storeCached acc w = storeAccount acc w := by
  have hv' : ¬ w.ltx.header.ledgerVersion < 8 := by omega
  simp [storeCached, bind, EStateM.bind, storeAccount, store, modify, modifyGet, MonadStateOf.modifyGet,
    EStateM.modifyGet, hv']

theorem loadAccountCached_ok {w w' : World X} (hv : 8 ≤ w.ltx.header.ledgerVersion) {a : AccountID}
    {acc : Option AccountEntry} :
    loadAccountCached a w = .ok acc w' ↔ w.ltx.account a = acc ∧ w.load (.account a) = w' := by
  simp [loadAccountCached_eq hv]

theorem loadSourceAccount_ok {w w' : World X} (hv : 8 ≤ w.ltx.header.ledgerVersion) {a : AccountID}
    {acc : Option AccountEntry} :
    loadSourceAccount a w = .ok acc w' ↔ w.ltx.account a = acc ∧ w.load (.account a) = w' := by
  simp [loadSourceAccount_eq hv]

theorem current_ok {α : Type} {entry : Option α} {a : α} {w w' : World X} :
    current entry w = .ok a w' ↔ entry = some a ∧ w = w' := by
  cases entry with
  | none => simp [current, throw_ok]
  | some b => simp [current, pure_ok]

theorem getImpl_ok {line : Option TrustLineWrapper} {a : TrustLineWrapper} {w w' : World X} :
    getImpl line w = .ok a w' ↔ line = some a ∧ w = w' := by
  cases line with
  | none => simp [getImpl, throw_ok]
  | some b => simp [getImpl, pure_ok]

theorem getIssuer_of_ne_native {asset : Asset} (h : asset ≠ .native) :
    ∃ issuer, getIssuer asset = .ok issuer := by
  cases asset with
  | native => exact absurd rfl h
  | alphaNum4 _ issuer => exact ⟨issuer, rfl⟩
  | alphaNum12 _ issuer => exact ⟨issuer, rfl⟩

/-! ## Updates -/

theorem updateAccount_eq (w : World X) (change : AccountEntry → Except Exception (Option AccountEntry))
    (acc : AccountEntry) :
    updateAccount storeAccount change acc w =
      match change acc with
      | .error e => .error e w
      | .ok none => .ok none w
      | .ok (some acc') => .ok (some acc')
          ((w.setLtx (w.ltx.put (.account acc'))).touch (.account acc'.accountID)) := by
  change EStateM.bind (lift (change acc)) _ w = _
  unfold EStateM.bind lift
  cases change acc with
  | error e => rfl
  | ok res => cases res <;> rfl

/-! ## Balances -/

theorem addBalance_ok {balance delta maxBalance b : ℤ}
    (h : Numeric.addBalance balance delta maxBalance = .ok (some b)) :
    b = balance + delta ∧ 0 ≤ b ∧ (balance ≤ maxBalance → b ≤ maxBalance) := by
  obtain ⟨_, hbalance, h⟩ := except_bind_ok.mp h
  obtain ⟨_, -, h⟩ := except_bind_ok.mp h
  have hbalance := assert_ok.mp hbalance
  have h := except_pure_ok.mp h
  split_ifs at h with h1 h2 h3
  · obtain rfl := Option.some.inj h
    exact ⟨by rw [h1, add_zero], hbalance, id⟩
  · obtain rfl := Option.some.inj h
    exact ⟨rfl, by omega, fun _ => by omega⟩

/-- What a balance can be. -/
def IsAmount (balance : ℤ) : Prop := 0 ≤ balance ∧ balance ≤ INT64_MAX

theorem account_addBalance_ok {header : LedgerHeader} {acc acc' : AccountEntry} {delta : ℤ}
    (h : AccountEntry.addBalance header acc delta = .ok (some acc')) :
    acc' = { acc with balance := acc.balance + delta } ∧
      (IsAmount acc.balance → IsAmount (acc.balance + delta)) := by
  rw [AccountEntry.addBalance] at h
  split_ifs at h with h0
  · rw [← Option.some.inj (except_pure_ok.mp h), h0, add_zero]
    exact ⟨rfl, id⟩
  · obtain ⟨res, hres, h⟩ := except_bind_ok.mp h
    cases res with
    | none => exact absurd (except_pure_ok.mp h) (by simp)
    | some b =>
      obtain ⟨rfl, hnonneg, hfits⟩ := addBalance_ok hres
      refine ⟨?_, fun hamount => ⟨hnonneg, hfits hamount.2⟩⟩
      dsimp only at h
      split_ifs at h
      all_goals first
        | exact (Option.some.inj (except_pure_ok.mp h)).symm
        | exact absurd (except_pure_ok.mp h) (by simp)

theorem trustLine_addBalance_ok {header : LedgerHeader} {tl tl' : TrustLineEntry} {delta : ℤ}
    (h : TrustLineEntry.addBalance header tl delta = .ok (some tl')) :
    tl' = { tl with balance := tl.balance + delta } := by
  rw [TrustLineEntry.addBalance] at h
  split_ifs at h with h0 ha
  · rw [← Option.some.inj (except_pure_ok.mp h), h0, add_zero]
  · exact absurd (except_pure_ok.mp h) (by simp)
  · obtain ⟨res, hres, h⟩ := except_bind_ok.mp h
    cases res with
    | none => exact absurd (except_pure_ok.mp h) (by simp)
    | some b =>
      obtain ⟨rfl, -⟩ := addBalance_ok hres
      dsimp only at h
      split_ifs at h
      all_goals first
        | exact (Option.some.inj (except_pure_ok.mp h)).symm
        | exact absurd (except_pure_ok.mp h) (by simp)

/-! ## Liabilities -/

theorem account_addBuyingLiabilities_ok {header : LedgerHeader} {acc acc' : AccountEntry} {delta : ℤ}
    (h : AccountEntry.addBuyingLiabilities header acc delta = .ok (some acc')) :
    ∃ ext, acc' = { acc with ext := ext } := by
  obtain ⟨_, -, h⟩ := except_bind_ok.mp h
  split at h
  · exact ⟨acc.ext, (Option.some.inj (except_pure_ok.mp h)).symm⟩
  · obtain ⟨buyingLiab, -, h⟩ := except_bind_ok.mp h
    obtain ⟨b, -, rfl⟩ := Option.map_eq_some_iff.mp (except_pure_ok.mp h)
    exact ⟨_, rfl⟩

theorem account_addSellingLiabilities_ok {header : LedgerHeader} {acc acc' : AccountEntry} {delta : ℤ}
    (h : AccountEntry.addSellingLiabilities header acc delta = .ok (some acc')) :
    ∃ ext, acc' = { acc with ext := ext } := by
  obtain ⟨_, -, h⟩ := except_bind_ok.mp h
  split at h
  · exact ⟨acc.ext, (Option.some.inj (except_pure_ok.mp h)).symm⟩
  · dsimp only at h
    split at h
    · cases except_pure_ok.mp h
    · obtain ⟨sellingLiab, -, h⟩ := except_bind_ok.mp h
      obtain ⟨b, -, rfl⟩ := Option.map_eq_some_iff.mp (except_pure_ok.mp h)
      exact ⟨_, rfl⟩

theorem trustLine_addBuyingLiabilities_ok {header : LedgerHeader} {tl tl' : TrustLineEntry} {delta : ℤ}
    (h : TrustLineEntry.addBuyingLiabilities header tl delta = .ok (some tl')) :
    ∃ ext, tl' = { tl with ext := ext } := by
  obtain ⟨_, -, h⟩ := except_bind_ok.mp h
  split at h
  · exact ⟨tl.ext, (Option.some.inj (except_pure_ok.mp h)).symm⟩
  · split at h
    · cases except_pure_ok.mp h
    · obtain ⟨buyingLiab, -, h⟩ := except_bind_ok.mp h
      obtain ⟨b, -, rfl⟩ := Option.map_eq_some_iff.mp (except_pure_ok.mp h)
      exact ⟨_, rfl⟩

theorem trustLine_addSellingLiabilities_ok {header : LedgerHeader} {tl tl' : TrustLineEntry}
    {delta : ℤ} (h : TrustLineEntry.addSellingLiabilities header tl delta = .ok (some tl')) :
    ∃ ext, tl' = { tl with ext := ext } := by
  obtain ⟨_, -, h⟩ := except_bind_ok.mp h
  split at h
  · exact ⟨tl.ext, (Option.some.inj (except_pure_ok.mp h)).symm⟩
  · split at h
    · cases except_pure_ok.mp h
    · obtain ⟨sellingLiab, -, h⟩ := except_bind_ok.mp h
      obtain ⟨b, -, rfl⟩ := Option.map_eq_some_iff.mp (except_pure_ok.mp h)
      exact ⟨_, rfl⟩

/-! ## Sub-entry counts -/

/-- The count of sub-entries after a change, as the `int` it is computed with. -/
def changedCount (numSubEntries : ℕ) (count : ℤ) : ℕ := (toInt32 (numSubEntries + count)).toNat

/-- In its range the count changes by `count`. -/
theorem changedCount_eq {n : ℕ} {count : ℤ} (hlow : 0 ≤ n + count) (hhigh : n + count < 2 ^ 31) :
    (changedCount n count : ℤ) = n + count := by
  have h : toInt32 (n + count) = n + count := by
    rw [toInt32, Int.bmod_def]
    push_cast
    split_ifs <;> omega
  rw [changedCount, h]
  exact Int.toNat_of_nonneg hlow

theorem addNumEntries_ok {header : LedgerHeader} {acc : AccountEntry} {count : ℤ}
    {res : Option AccountEntry} (h : addNumEntries header acc count = .ok res) :
    0 ≤ toInt32 (acc.numSubEntries + count) ∧
      (res = none ∧ 0 < count ∨
        res = some { acc with numSubEntries := changedCount acc.numSubEntries count }) := by
  rw [addNumEntries] at h
  obtain ⟨_, hneg, h⟩ := except_bind_ok.mp h
  refine ⟨not_lt.mp (throwIf_ok.mp hneg), ?_⟩
  dsimp only at h
  split_ifs at h with hv hbal hbal
  · exact .inl ⟨(except_pure_ok.mp h).symm, hbal.1⟩
  · exact .inr (except_pure_ok.mp h).symm
  · exact .inl ⟨(except_pure_ok.mp h).symm, hbal.1⟩
  · exact .inr (except_pure_ok.mp h).symm

end ZaggCore.Transactions
