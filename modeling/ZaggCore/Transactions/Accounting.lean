import Mathlib
import ZaggCore.Transactions.EntryChanges

/-! # The accounts of a ledger

Two sums over the entries of a ledger and one number for every account, by which steps of the
transaction code are compared: the lumens that are nowhere to be found, by how much the count of
sub-entries of an account is off, and the sequence number below which an account can not fall. `Moves`
is what a step does to them; steps add up. -/

namespace ZaggCore.Transactions
set_option autoImplicit false
set_option maxHeartbeats 250000

open Foundations Numeric

/-! ## The quantities -/

/-- The lumens of an entry, and what it adds to the balance of the sub-entry counts: an entry is one for
its owner, and an account's count stands against it and the signers. -/
def worth : LedgerEntryData → ℤ × (AccountID → ℤ)
  | .account acc => (acc.balance, Pi.single acc.accountID (acc.signers.length - acc.numSubEntries))
  | .trustLine tl => (0, Pi.single tl.accountID 1)
  | .offer o => (0, Pi.single o.sellerID 1)
  | .data d => (0, Pi.single d.accountID 1)

namespace AbstractLedgerTxn

variable (ltx : AbstractLedgerTxn)

/-- All native balances and the fee pool, less the total of coins; what the ledger adds up it adds up in 64
bits. -/
def lumens : ℤ := (ltx.sum worth).1 + ltx.header.feePool - ltx.header.totalCoins

/-- The signers and the entries of an account, less its `numSubEntries`. -/
def imbalance (a : AccountID) : ℤ := (ltx.sum worth).2 a

/-- The sequence number of an account; one that is not there would start with the ledger's. -/
def floor (a : AccountID) : ℤ :=
  match ltx.account a with
  | some acc => acc.seqNum
  | none => ltx.header.ledgerSeq * 2 ^ 32

/-- Balances are amounts, and the fee pool and the total of coins have 64 bits. -/
structure AmountsFit : Prop where
  balances : ∀ a acc, ltx.account a = some acc → IsAmount acc.balance
  feePool : FitsInt64 ltx.header.feePool
  totalCoins : FitsInt64 ltx.header.totalCoins

/-- The counts of sub-entries are non-negative as an `int`. -/
def CountsFit : Prop := ∀ a acc, ltx.account a = some acc → acc.numSubEntries < 2 ^ 31

end AbstractLedgerTxn

open AbstractLedgerTxn

/-- A step that brings in `d.1` lumens and `d.2 a` entries of account `a` beyond the count. -/
structure Moves (d : ℤ × (AccountID → ℤ)) (ltx ltx' : AbstractLedgerTxn) : Prop where
  version : ltx'.header.ledgerVersion = ltx.header.ledgerVersion
  ledgerSeq : ltx'.header.ledgerSeq = ltx.header.ledgerSeq
  lumens : ltx.AmountsFit → ltx'.AmountsFit ∧ ltx'.lumens ≡ ltx.lumens + d.1 [ZMOD 2 ^ 64]
  counts : ltx.CountsFit → ltx'.CountsFit ∧ ∀ a, ltx'.imbalance a = ltx.imbalance a + d.2 a
  floor : 10 ≤ ltx.header.ledgerVersion → ltx.header.ledgerSeq < 2 ^ 31 →
    ∀ a, ltx.floor a ≤ ltx'.floor a

/-- From one version of an account to the next, with `d.1` lumens and `d.2` signers beyond the count. -/
structure AccountStep (d : ℤ × ℤ) (acc acc' : AccountEntry) : Prop where
  accountID : acc'.accountID = acc.accountID
  seqNum : acc.seqNum ≤ acc'.seqNum
  balance : acc'.balance = acc.balance + d.1
  fits : IsAmount acc.balance → IsAmount acc'.balance
  counts : acc.numSubEntries < 2 ^ 31 → acc'.numSubEntries < 2 ^ 31 ∧
    (acc'.signers.length - acc'.numSubEntries : ℤ) = acc.signers.length - acc.numSubEntries + d.2

namespace AccountStep

variable {d d₁ d₂ : ℤ × ℤ} {acc acc₁ acc₂ acc' : AccountEntry}

/-- A change of none of the fields that count. -/
theorem of_eq (hid : acc'.accountID = acc.accountID) (hseq : acc.seqNum ≤ acc'.seqNum)
    (hbal : acc'.balance = acc.balance) (hnum : acc'.numSubEntries = acc.numSubEntries)
    (hsigners : acc'.signers.length = acc.signers.length) : AccountStep 0 acc acc' where
  accountID := hid
  seqNum := hseq
  balance := by simp [hbal]
  fits h := by rwa [hbal]
  counts h := ⟨by rwa [hnum], by simp [hnum, hsigners]⟩

protected theorem refl (acc : AccountEntry) : AccountStep 0 acc acc := .of_eq rfl le_rfl rfl rfl rfl

protected theorem trans (h₁ : AccountStep d₁ acc acc₁) (h₂ : AccountStep d₂ acc₁ acc₂) :
    AccountStep (d₁ + d₂) acc acc₂ where
  accountID := h₂.accountID.trans h₁.accountID
  seqNum := h₁.seqNum.trans h₂.seqNum
  balance := by rw [h₂.balance, h₁.balance, Prod.fst_add, add_assoc]
  fits h := h₂.fits (h₁.fits h)
  counts h := by
    obtain ⟨hnum₁, h₁⟩ := h₁.counts h
    obtain ⟨hnum₂, h₂⟩ := h₂.counts hnum₁
    exact ⟨hnum₂, by rw [h₂, h₁, Prod.snd_add, add_assoc]⟩

theorem cast (h : AccountStep d₁ acc acc') (hd : d₁ = d₂) : AccountStep d₂ acc acc' := hd ▸ h

theorem addBalance {header : LedgerHeader} {delta : ℤ}
    (h : AccountEntry.addBalance header acc delta = .ok (some acc')) : AccountStep (delta, 0) acc acc' := by
  obtain ⟨rfl, hfits⟩ := account_addBalance_ok h
  exact ⟨rfl, le_rfl, rfl, hfits, fun h => ⟨h, by simp⟩⟩

theorem addNumEntries {header : LedgerHeader} {count : ℤ} (hcount : count = 1 ∨ count = -1)
    (h : addNumEntries header acc count = .ok (some acc')) : AccountStep (0, -count) acc acc' := by
  obtain ⟨hrange, ⟨hnone, -⟩ | hsome⟩ := addNumEntries_ok h
  · cases hnone
  obtain rfl := Option.some.inj hsome
  refine ⟨rfl, le_rfl, by simp, id, fun hnum => ?_⟩
  have hlow : 0 ≤ acc.numSubEntries + count ∧ acc.numSubEntries + count < 2 ^ 31 := by
    rw [toInt32, Int.bmod_def] at hrange
    push_cast at hrange
    split_ifs at hrange <;> omega
  have heq := changedCount_eq hlow.1 hlow.2
  refine ⟨by zify; omega, ?_⟩
  dsimp only
  rw [heq]
  ring

end AccountStep

namespace Moves

variable {d d₁ d₂ : ℤ × (AccountID → ℤ)} {ltx ltx₁ ltx₂ ltx' : AbstractLedgerTxn}

protected theorem refl (ltx : AbstractLedgerTxn) : Moves 0 ltx ltx where
  version := rfl
  ledgerSeq := rfl
  lumens h := ⟨h, by simp⟩
  counts h := ⟨h, by simp⟩
  floor _ _ _ := le_rfl

theorem of_eq (h : ltx' = ltx) : Moves 0 ltx ltx' := h ▸ .refl ltx

protected theorem trans (h₁ : Moves d₁ ltx ltx₁) (h₂ : Moves d₂ ltx₁ ltx₂) :
    Moves (d₁ + d₂) ltx ltx₂ where
  version := h₂.version.trans h₁.version
  ledgerSeq := h₂.ledgerSeq.trans h₁.ledgerSeq
  lumens h := by
    obtain ⟨hfit₁, h₁⟩ := h₁.lumens h
    obtain ⟨hfit₂, h₂⟩ := h₂.lumens hfit₁
    refine ⟨hfit₂, h₂.trans ((h₁.add_right _).trans ?_)⟩
    rw [Prod.fst_add, add_assoc]
  counts h := by
    obtain ⟨hfit₁, h₁⟩ := h₁.counts h
    obtain ⟨hfit₂, h₂⟩ := h₂.counts hfit₁
    exact ⟨hfit₂, fun a => by rw [h₂, h₁, Prod.snd_add, Pi.add_apply, add_assoc]⟩
  floor hv hs a := by
    have h := h₂.floor (by rw [h₁.version]; exact hv) (by rw [h₁.ledgerSeq]; exact hs) a
    exact (h₁.floor hv hs a).trans h

theorem cast (h : Moves d₁ ltx ltx') (hd : d₁ = d₂) : Moves d₂ ltx ltx' := hd ▸ h

/-- Another way to say how many lumens come in, in 64 bits, where the amounts fit. -/
theorem of_fits {d' : ℤ × (AccountID → ℤ)} (h : Moves d' ltx ltx') (hd : d'.2 = d.2)
    (hfits : ltx.AmountsFit → d'.1 ≡ d.1 [ZMOD 2 ^ 64]) : Moves d ltx ltx' where
  version := h.version
  ledgerSeq := h.ledgerSeq
  lumens hfit := by
    obtain ⟨hfit', hlumens⟩ := h.lumens hfit
    exact ⟨hfit', hlumens.trans ((hfits hfit).add_left _)⟩
  counts hfit := by
    rw [← hd]
    exact h.counts hfit
  floor := h.floor

/-- A change of the header that leaves the version and the sequence number. -/
theorem header {header : LedgerHeader} (hv : header.ledgerVersion = ltx.header.ledgerVersion)
    (hs : header.ledgerSeq = ltx.header.ledgerSeq)
    (hfits : ltx.AmountsFit → FitsInt64 header.feePool ∧ FitsInt64 header.totalCoins) :
    Moves (header.feePool - header.totalCoins - (ltx.header.feePool - ltx.header.totalCoins), 0) ltx
      { ltx with header := header } where
  version := hv
  ledgerSeq := hs
  lumens h := by
    refine ⟨⟨h.balances, (hfits h).1, (hfits h).2⟩, ?_⟩
    have heq : AbstractLedgerTxn.lumens { ltx with header := header } =
        ltx.lumens + (header.feePool - header.totalCoins - (ltx.header.feePool - ltx.header.totalCoins)) := by
      change (ltx.sum worth).1 + header.feePool - header.totalCoins = _
      rw [AbstractLedgerTxn.lumens]
      ring
    rw [heq]
  counts h := ⟨h, fun a => (add_zero _).symm⟩
  floor _ _ a := by
    change _ ≤ match ltx.account a with
      | some acc => acc.seqNum
      | none => (header.ledgerSeq : ℤ) * 2 ^ 32
    rw [hs]
    exact le_rfl

/-- Another version of an account. -/
theorem account {d : ℤ × ℤ} {acc acc' : AccountEntry} (hacc : ltx.account acc.accountID = some acc)
    (h : AccountStep d acc acc') :
    Moves (d.1, Pi.single acc.accountID d.2) ltx (ltx.put (.account acc')) := by
  have hshare : ltx.share worth (.account acc'.accountID) = worth (.account acc) := by
    rw [h.accountID]
    exact share_of_some (account_eq_some.mp hacc)
  have hsum : (ltx.put (.account acc')).sum worth
      = ltx.sum worth - worth (.account acc) + worth (.account acc') := by
    rw [sum_put, LedgerEntryData.key, hshare]
  constructor
  case version => rfl
  case ledgerSeq => rfl
  case lumens =>
    refine fun hfit => ⟨⟨fun a acc₁ h₁ => ?_, hfit.feePool, hfit.totalCoins⟩, ?_⟩
    · rw [account_put_account] at h₁
      split_ifs at h₁ with ha
      · obtain rfl := Option.some.inj h₁
        exact h.fits (hfit.balances _ _ hacc)
      · exact hfit.balances _ _ h₁
    · have heq : (ltx.put (.account acc')).lumens = ltx.lumens + d.1 := by
        simp only [AbstractLedgerTxn.lumens, hsum, Prod.fst_add, Prod.fst_sub, worth, header_put, h.balance]
        ring
      rw [heq]
  case counts =>
    intro hfit
    obtain ⟨hnum, heq⟩ := h.counts (hfit _ _ hacc)
    refine ⟨fun a acc₁ h₁ => ?_, fun a => ?_⟩
    · rw [account_put_account] at h₁
      split_ifs at h₁ with ha
      · obtain rfl := Option.some.inj h₁
        exact hnum
      · exact hfit _ _ h₁
    · simp only [imbalance, hsum, Prod.snd_add, Prod.snd_sub, worth, Pi.add_apply, Pi.sub_apply,
        h.accountID]
      by_cases ha : a = acc.accountID
      · subst ha
        simp only [Pi.single_eq_same, heq]
        ring
      · simp only [Pi.single_eq_of_ne ha]
        ring
  case floor =>
    intro _ _ a
    unfold AbstractLedgerTxn.floor
    rw [account_put_account]
    by_cases ha : a = acc'.accountID
    · rw [if_pos ha, ha, h.accountID, hacc]
      exact h.seqNum
    · rw [if_neg ha]
      exact le_rfl

/-- A change of the sum where the accounts stay as they are. -/
theorem of_accounts (hheader : ltx'.header = ltx.header) (hacc : ∀ a, ltx'.account a = ltx.account a)
    (hsum : ltx'.sum worth = ltx.sum worth + d) : Moves d ltx ltx' where
  version := by rw [hheader]
  ledgerSeq := by rw [hheader]
  lumens h := by
    refine ⟨⟨fun a acc ha => h.balances a acc (by rwa [← hacc]), by rw [hheader]; exact h.feePool,
      by rw [hheader]; exact h.totalCoins⟩, ?_⟩
    have heq : ltx'.lumens = ltx.lumens + d.1 := by
      rw [AbstractLedgerTxn.lumens, AbstractLedgerTxn.lumens, hsum, hheader, Prod.fst_add]
      ring
    rw [heq]
  counts h := by
    refine ⟨fun a acc ha => h a acc (by rwa [← hacc]), fun a => ?_⟩
    rw [imbalance, imbalance, hsum, Prod.snd_add, Pi.add_apply]
  floor _ _ a := by
    rw [AbstractLedgerTxn.floor, AbstractLedgerTxn.floor, hacc, hheader]

/-- Another version of an entry that is not an account. -/
theorem put_of_present {e : LedgerEntryData} (he : ∀ acc, e ≠ .account acc)
    (h : (ltx.getNewestVersion e.key).isSome) : Moves 0 ltx (ltx.put e) := by
  obtain ⟨e₀, h₀⟩ := Option.isSome_iff_exists.mp h
  have hkey : e₀.key = e.key := ltx.keyed _ _ h₀
  have hworth : worth e₀ = worth e := by
    cases e with
    | account acc => exact absurd rfl (he acc)
    | _ => cases e₀ <;> simp_all [LedgerEntryData.key, worth]
  refine .of_accounts rfl (account_put_of_ne he) ?_
  rw [sum_put, share_of_some h₀, hworth, sub_add_cancel, add_zero]

/-- A new entry that is not an account. -/
theorem put_of_absent {e : LedgerEntryData} (he : ∀ acc, e ≠ .account acc)
    (h : ltx.getNewestVersion e.key = none) : Moves (worth e) ltx (ltx.put e) := by
  refine .of_accounts rfl (account_put_of_ne he) ?_
  rw [sum_put, share_of_none h, sub_zero]

/-- An entry that is not an account goes. -/
theorem erase {e : LedgerEntryData} (he : ∀ acc, e ≠ .account acc)
    (h : ltx.getNewestVersion e.key = some e) : Moves (-worth e) ltx (ltx.erase e.key) := by
  refine .of_accounts rfl (account_erase_of_ne fun b hb => ?_) ?_
  · cases e with
    | account acc => exact he acc rfl
    | _ => cases hb
  · rw [sum_erase, share_of_some h, sub_eq_add_neg]

/-- A new account, after a step that it is paid by. -/
theorem createAccount {acc : AccountEntry} (hm : Moves d ltx ltx₁) (h : ltx₁.account acc.accountID = none)
    (hbal : ltx.AmountsFit → IsAmount acc.balance) (hnum : acc.numSubEntries < 2 ^ 31)
    (hseq : ltx.header.ledgerSeq < 2 ^ 31 → ltx.header.ledgerSeq * 2 ^ 32 ≤ acc.seqNum) :
    Moves (d + worth (.account acc)) ltx (ltx₁.put (.account acc)) := by
  have hsum : (ltx₁.put (.account acc)).sum worth = ltx₁.sum worth + worth (.account acc) := by
    rw [sum_put, LedgerEntryData.key, share_of_none (account_eq_none.mp h), sub_zero]
  constructor
  case version => exact hm.version
  case ledgerSeq => exact hm.ledgerSeq
  case lumens =>
    intro hfit
    obtain ⟨hfit₁, h₁⟩ := hm.lumens hfit
    refine ⟨⟨fun a acc₁ hacc => ?_, hfit₁.feePool, hfit₁.totalCoins⟩, ?_⟩
    · rw [account_put_account] at hacc
      split_ifs at hacc with ha
      · obtain rfl := Option.some.inj hacc
        exact hbal hfit
      · exact hfit₁.balances _ _ hacc
    · have heq : (ltx₁.put (.account acc)).lumens = ltx₁.lumens + (worth (.account acc)).1 := by
        rw [AbstractLedgerTxn.lumens, AbstractLedgerTxn.lumens, hsum, header_put, Prod.fst_add]
        ring
      rw [heq, Prod.fst_add, ← add_assoc]
      exact h₁.add_right _
  case counts =>
    intro hfit
    obtain ⟨hfit₁, h₁⟩ := hm.counts hfit
    refine ⟨fun a acc₁ hacc => ?_, fun a => ?_⟩
    · rw [account_put_account] at hacc
      split_ifs at hacc with ha
      · obtain rfl := Option.some.inj hacc
        exact hnum
      · exact hfit₁ _ _ hacc
    · have h₁ := h₁ a
      rw [imbalance] at h₁ ⊢
      rw [hsum, Prod.snd_add, Prod.snd_add, Pi.add_apply, Pi.add_apply]
      linarith
  case floor =>
    intro hv hs a
    have h₁ := hm.floor hv hs a
    unfold AbstractLedgerTxn.floor at h₁ ⊢
    rw [account_put_account, header_put]
    by_cases ha : a = acc.accountID
    · rw [if_pos ha]
      rw [ha, h, hm.ledgerSeq] at h₁
      rw [ha]
      exact h₁.trans (hseq hs)
    · rw [if_neg ha]
      exact h₁

/-- An account goes. -/
theorem eraseAccount {acc : AccountEntry} (h : ltx.account acc.accountID = some acc)
    (hseq : 10 ≤ ltx.header.ledgerVersion → ltx.header.ledgerSeq < 2 ^ 31 →
      acc.seqNum ≤ ltx.header.ledgerSeq * 2 ^ 32) :
    Moves (-worth (.account acc)) ltx (ltx.erase (.account acc.accountID)) := by
  have hsum : (ltx.erase (.account acc.accountID)).sum worth
      = ltx.sum worth + -worth (.account acc) := by
    rw [sum_erase, share_of_some (account_eq_some.mp h), sub_eq_add_neg]
  have hsub : ∀ a acc₁, (ltx.erase (.account acc.accountID)).account a = some acc₁ →
      ltx.account a = some acc₁ := by
    intro a acc₁ h₁
    rw [account_erase_account] at h₁
    split_ifs at h₁
    exact h₁
  constructor
  case version => rfl
  case ledgerSeq => rfl
  case lumens =>
    refine fun hfit =>
      ⟨⟨fun a acc₁ h₁ => hfit.balances _ _ (hsub a acc₁ h₁), hfit.feePool, hfit.totalCoins⟩, ?_⟩
    have heq : (ltx.erase (.account acc.accountID)).lumens = ltx.lumens + (-worth (.account acc)).1 := by
      rw [AbstractLedgerTxn.lumens, AbstractLedgerTxn.lumens, hsum, header_erase, Prod.fst_add]
      ring
    rw [heq]
  case counts =>
    refine fun hfit => ⟨fun a acc₁ h₁ => hfit _ _ (hsub a acc₁ h₁), fun a => ?_⟩
    rw [imbalance, imbalance, hsum, Prod.snd_add, Pi.add_apply]
  case floor =>
    intro hv hs a
    unfold AbstractLedgerTxn.floor
    rw [account_erase_account]
    by_cases ha : a = acc.accountID
    · rw [if_pos ha, ha, h]
      exact hseq hv hs
    · rw [if_neg ha]
      exact le_rfl

end Moves

end ZaggCore.Transactions
