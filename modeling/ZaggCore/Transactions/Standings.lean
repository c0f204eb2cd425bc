import Mathlib
import ZaggCore.Foundations.Triples
import ZaggCore.Transactions.ExchangeEffects

/-! # Where an account stands

The balance, the limit and the liabilities that an account or a trust line holds of an asset, as numbers
of one kind, and what every change of an entry does to them. -/

namespace ZaggCore.Transactions
set_option autoImplicit false
set_option maxHeartbeats 250000

open Foundations Numeric

variable {X : Type}

/-! ## Standings -/

/-- What an account says of its lumens, or a trust line of its asset. -/
structure Standing where
  authorized : Bool
  balance : ℤ
  limit : ℤ
  buying : ℤ
  selling : ℤ
  deriving DecidableEq, Repr

def AccountEntry.standing (acc : AccountEntry) : Standing :=
  ⟨true, acc.balance, INT64_MAX, (liabilitiesOf acc.ext).buying, (liabilitiesOf acc.ext).selling⟩

def TrustLineEntry.standing (tl : TrustLineEntry) : Standing :=
  ⟨isAuthorized tl, tl.balance, tl.limit, (liabilitiesOf tl.ext).buying, (liabilitiesOf tl.ext).selling⟩

namespace Standing

/-- The liabilities are covered: there is room for what is bought, and what is sold is there beside the
reserve. -/
structure Sound (reserve : ℤ) (s : Standing) : Prop where
  authorized : s.authorized = true
  reserve_nonneg : 0 ≤ reserve
  limit : s.limit ≤ INT64_MAX
  buying : 0 ≤ s.buying
  buying_le : s.buying ≤ s.limit - s.balance
  selling : 0 ≤ s.selling
  selling_le : s.selling ≤ s.balance - reserve

theorem Sound.mono {r r' : ℤ} {s : Standing} (h : s.Sound r) (h0 : 0 ≤ r') (hle : r' ≤ r) : s.Sound r' :=
  { h with
    reserve_nonneg := h0
    selling_le := by
      have := h.selling_le
      omega }

def addBuying (delta : ℤ) (s : Standing) : Standing := { s with buying := s.buying + delta }

def addSelling (delta : ℤ) (s : Standing) : Standing := { s with selling := s.selling + delta }

def addBalance (delta : ℤ) (s : Standing) : Standing := { s with balance := s.balance + delta }

@[simp] theorem addBuying_zero (s : Standing) : s.addBuying 0 = s := by simp [addBuying]

@[simp] theorem addSelling_zero (s : Standing) : s.addSelling 0 = s := by simp [addSelling]

@[simp] theorem addBalance_zero (s : Standing) : s.addBalance 0 = s := by simp [addBalance]

end Standing

/-! ## Changes of an entry -/

/-- What a change of an entry does to where it stands. It succeeds between standings that are sound, of an
account with its reserve if the change looks at that. -/
structure Steps (header : LedgerHeader) (reserved : Bool) (step : Standing → Standing)
    (onAccount : AccountEntry → Except Exception (Option AccountEntry))
    (onLine : TrustLineEntry → Except Exception (Option TrustLineEntry)) : Prop where
  account : ∀ acc r, r = (if reserved then getMinBalance header acc.numSubEntries else 0) →
    (AccountEntry.standing acc).Sound r → (step (AccountEntry.standing acc)).Sound r →
    ∃ acc', onAccount acc = .ok (some acc') ∧
      AccountEntry.standing acc' = step (AccountEntry.standing acc) ∧
      acc'.accountID = acc.accountID ∧ acc'.numSubEntries = acc.numSubEntries
  line : ∀ tl, (TrustLineEntry.standing tl).Sound 0 → (step (TrustLineEntry.standing tl)).Sound 0 →
    ∃ tl', onLine tl = .ok (some tl') ∧
      TrustLineEntry.standing tl' = step (TrustLineEntry.standing tl) ∧
      tl'.accountID = tl.accountID ∧ tl'.asset = tl.asset

theorem addBalance_eq {b delta maxBalance : ℤ} (hb : 0 ≤ b) (hlow : 0 ≤ b + delta)
    (hhigh : b + delta ≤ maxBalance) : Numeric.addBalance b delta maxBalance = .ok (some (b + delta)) := by
  have hmax : 0 ≤ maxBalance := by omega
  have h1 : ¬ delta < -b := by omega
  have h2 : ¬ maxBalance - b < delta := by omega
  unfold Numeric.addBalance
  rw [(assert_ok (u := ())).mpr hb, (assert_ok (u := ())).mpr hmax]
  simp only [bind, Except.bind, pure, Except.pure, h1, h2, if_false]
  by_cases h0 : delta = 0
  · simp [h0]
  · simp [h0]

theorem checkLiabilitiesVersion_eq {header : LedgerHeader} (hv : 10 ≤ header.ledgerVersion) :
    checkLiabilitiesVersion header = .ok () :=
  if_neg (not_lt.mpr hv)

section Steps

variable (header : LedgerHeader) (delta : ℤ)

theorem steps_addBuyingLiabilities (hv : 10 ≤ header.ledgerVersion) :
    Steps header false (Standing.addBuying delta) (AccountEntry.addBuyingLiabilities header · delta)
      (TrustLineEntry.addBuyingLiabilities header · delta) where
  account acc r _ hs hs' := by
    obtain ⟨-, -, -, hbuying, -, -, -⟩ := hs
    obtain ⟨-, -, -, hbuying', hbuying_le', -, -⟩ := hs'
    have hsum := addBalance_eq hbuying hbuying' hbuying_le'
    unfold AccountEntry.addBuyingLiabilities
    rw [checkLiabilitiesVersion_eq hv]
    simp only [bind, Except.bind, pure, Except.pure]
    split_ifs with h0
    · subst h0
      exact ⟨acc, rfl, by simp, rfl, rfl⟩
    · dsimp only [AccountEntry.standing, Standing.addBuying] at hsum
      rw [hsum]
      exact ⟨_, rfl, rfl, rfl, rfl⟩
  line tl hs hs' := by
    obtain ⟨hauth, -, -, hbuying, -, -, -⟩ := hs
    obtain ⟨-, -, -, hbuying', hbuying_le', -, -⟩ := hs'
    have hsum := addBalance_eq hbuying hbuying' hbuying_le'
    dsimp only [TrustLineEntry.standing] at hauth
    unfold TrustLineEntry.addBuyingLiabilities
    rw [checkLiabilitiesVersion_eq hv]
    simp only [bind, Except.bind, pure, Except.pure, hauth, Bool.not_true, Bool.false_eq_true, if_false]
    split_ifs with h0
    · subst h0
      exact ⟨tl, rfl, by simp, rfl, rfl⟩
    · dsimp only [TrustLineEntry.standing, Standing.addBuying] at hsum
      rw [hsum]
      exact ⟨_, rfl, rfl, rfl, rfl⟩

theorem steps_addSellingLiabilities (hv : 10 ≤ header.ledgerVersion) :
    Steps header true (Standing.addSelling delta) (AccountEntry.addSellingLiabilities header · delta)
      (TrustLineEntry.addSellingLiabilities header · delta) where
  account acc r hr hs hs' := by
    rw [if_pos rfl] at hr
    subst hr
    obtain ⟨-, -, -, -, -, hselling, hselling_le⟩ := hs
    obtain ⟨-, -, -, -, -, hselling', hselling_le'⟩ := hs'
    have hsum := addBalance_eq hselling hselling' hselling_le'
    dsimp only [AccountEntry.standing, Standing.addSelling] at hselling hselling_le hsum
    have hmax : ¬ acc.balance - getMinBalance header acc.numSubEntries < 0 := by omega
    unfold AccountEntry.addSellingLiabilities
    rw [checkLiabilitiesVersion_eq hv]
    simp only [bind, Except.bind, pure, Except.pure, hmax, if_false]
    split_ifs with h0
    · subst h0
      exact ⟨acc, rfl, by simp, rfl, rfl⟩
    · rw [hsum]
      exact ⟨_, rfl, rfl, rfl, rfl⟩
  line tl hs hs' := by
    obtain ⟨hauth, -, -, -, -, hselling, -⟩ := hs
    obtain ⟨-, -, -, -, -, hselling', hselling_le'⟩ := hs'
    rw [sub_zero] at hselling_le'
    have hsum := addBalance_eq hselling hselling' hselling_le'
    dsimp only [TrustLineEntry.standing] at hauth
    unfold TrustLineEntry.addSellingLiabilities
    rw [checkLiabilitiesVersion_eq hv]
    simp only [bind, Except.bind, pure, Except.pure, hauth, Bool.not_true, Bool.false_eq_true, if_false]
    split_ifs with h0
    · subst h0
      exact ⟨tl, rfl, by simp, rfl, rfl⟩
    · dsimp only [TrustLineEntry.standing, Standing.addSelling] at hsum
      rw [hsum]
      exact ⟨_, rfl, rfl, rfl, rfl⟩

/-- The reserve counts only where the balance falls. -/
theorem steps_addBalance (reserved : Bool) (hreserved : delta < 0 → reserved = true) :
    Steps header reserved (Standing.addBalance delta) (AccountEntry.addBalance header · delta)
      (TrustLineEntry.addBalance header · delta) where
  account acc r hr hs hs' := by
    obtain ⟨-, hr0, -, hbuying, hbuying_le, hselling, hselling_le⟩ := hs
    obtain ⟨-, -, -, -, hbuying_le', -, hselling_le'⟩ := hs'
    dsimp only [AccountEntry.standing, Standing.addBalance] at *
    have hsum : Numeric.addBalance acc.balance delta INT64_MAX = .ok (some (acc.balance + delta)) :=
      addBalance_eq (by omega) (by omega) (by omega)
    have h1 : ¬ (10 ≤ header.ledgerVersion ∧ delta < 0 ∧
        acc.balance + delta - getMinBalance header acc.numSubEntries < (liabilitiesOf acc.ext).selling) := by
      rintro ⟨-, hneg, hlt⟩
      rw [hreserved hneg, if_pos rfl] at hr
      omega
    have h2 : ¬ (10 ≤ header.ledgerVersion ∧
        INT64_MAX - (liabilitiesOf acc.ext).buying < acc.balance + delta) := by
      rintro ⟨-, hlt⟩
      omega
    unfold AccountEntry.addBalance
    split_ifs with h0
    · subst h0
      exact ⟨acc, rfl, by simp, rfl, rfl⟩
    · rw [hsum]
      simp only [bind, Except.bind, pure, Except.pure, h1, h2, if_false]
      exact ⟨_, rfl, rfl, rfl, rfl⟩
  line tl hs hs' := by
    obtain ⟨hauth, -, -, hbuying, -, hselling, hselling_le⟩ := hs
    obtain ⟨-, -, -, -, hbuying_le', -, hselling_le'⟩ := hs'
    dsimp only [TrustLineEntry.standing, Standing.addBalance] at *
    have hsum : Numeric.addBalance tl.balance delta tl.limit = .ok (some (tl.balance + delta)) :=
      addBalance_eq (by omega) (by omega) (by omega)
    have h1 : ¬ (10 ≤ header.ledgerVersion ∧ tl.balance + delta < (liabilitiesOf tl.ext).selling) := by
      rintro ⟨-, hlt⟩
      omega
    have h2 : ¬ (10 ≤ header.ledgerVersion ∧
        tl.limit - (liabilitiesOf tl.ext).buying < tl.balance + delta) := by
      rintro ⟨-, hlt⟩
      omega
    unfold TrustLineEntry.addBalance
    split_ifs with h0 h
    · subst h0
      exact ⟨tl, rfl, by simp, rfl, rfl⟩
    · rw [hauth] at h
      cases h
    · rw [hsum]
      simp only [bind, Except.bind, pure, Except.pure, h1, h2, if_false]
      exact ⟨_, rfl, rfl, rfl, rfl⟩

end Steps

/-! ## Parties -/

/-- Who deals in an asset: its issuer, who has any amount of it, or the holder of an account or a line. -/
inductive Party where
  | issuer
  | holder (s : Standing)
  deriving DecidableEq, Repr

namespace Party

def map (step : Standing → Standing) : Party → Party
  | .issuer => .issuer
  | .holder s => .holder (step s)

@[simp] theorem map_holder (step : Standing → Standing) (s : Standing) :
    (Party.holder s).map step = .holder (step s) := rfl

def Sound (reserve : ℤ) : Party → Prop
  | .issuer => True
  | .holder s => s.Sound reserve

def canSell (reserve : ℤ) : Party → ℤ
  | .issuer => INT64_MAX
  | .holder s => if s.authorized then max (s.balance - reserve - s.selling) 0 else 0

def canBuy : Party → ℤ
  | .issuer => INT64_MAX
  | .holder s => if s.authorized then max (s.limit - s.balance - s.buying) 0 else 0

/-- The selling liabilities come to so much at least. -/
def OwesSelling (amount : ℤ) : Party → Prop
  | .issuer => True
  | .holder s => amount ≤ s.selling

def OwesBuying (amount : ℤ) : Party → Prop
  | .issuer => True
  | .holder s => amount ≤ s.buying

/-- An issuer has no balance of its own asset. -/
def balance : Party → Option ℤ
  | .issuer => none
  | .holder s => some s.balance

@[simp] theorem balance_map_addBuying (delta : ℤ) (p : Party) :
    (p.map (Standing.addBuying delta)).balance = p.balance := by
  cases p <;> rfl

@[simp] theorem balance_map_addSelling (delta : ℤ) (p : Party) :
    (p.map (Standing.addSelling delta)).balance = p.balance := by
  cases p <;> rfl

@[simp] theorem balance_map_addBalance (delta : ℤ) (p : Party) :
    (p.map (Standing.addBalance delta)).balance = p.balance.map (· + delta) := by
  cases p <;> rfl

variable {p : Party} {r delta : ℤ}

theorem canBuy_of_sound {s : Standing} (h : s.Sound r) :
    (Party.holder s).canBuy = s.limit - s.balance - s.buying := by
  have := h.buying_le
  show (if s.authorized then max (s.limit - s.balance - s.buying) 0 else 0) = _
  rw [if_pos h.authorized]
  omega

theorem canSell_of_sound {s : Standing} (h : s.Sound r) :
    (Party.holder s).canSell r = s.balance - r - s.selling := by
  have := h.selling_le
  show (if s.authorized then max (s.balance - r - s.selling) 0 else 0) = _
  rw [if_pos h.authorized]
  omega

theorem canBuy_range (h : p.Sound r) : 0 ≤ p.canBuy ∧ p.canBuy ≤ INT64_MAX := by
  cases p with
  | issuer => exact ⟨by decide, le_rfl⟩
  | holder s =>
    obtain ⟨-, h0, hlimit, hbuying, hbuying_le, hselling, hselling_le⟩ := id h
    rw [canBuy_of_sound h]
    omega

theorem Sound.addBuying (h : p.Sound r) (h0 : 0 ≤ delta) (hle : delta ≤ p.canBuy) :
    (p.map (Standing.addBuying delta)).Sound r := by
  cases p with
  | issuer => trivial
  | holder s =>
    rw [canBuy_of_sound h] at hle
    obtain ⟨hauth, hr, hlimit, hbuying, hbuying_le, hselling, hselling_le⟩ := id h
    refine ⟨hauth, hr, hlimit, ?_, ?_, hselling, hselling_le⟩
    · show 0 ≤ s.buying + delta
      omega
    · show s.buying + delta ≤ s.limit - s.balance
      omega

theorem Sound.addSelling (h : p.Sound r) (h0 : 0 ≤ delta) (hle : delta ≤ p.canSell r) :
    (p.map (Standing.addSelling delta)).Sound r := by
  cases p with
  | issuer => trivial
  | holder s =>
    rw [canSell_of_sound h] at hle
    obtain ⟨hauth, hr, hlimit, hbuying, hbuying_le, hselling, hselling_le⟩ := id h
    refine ⟨hauth, hr, hlimit, hbuying, hbuying_le, ?_, ?_⟩
    · show 0 ≤ s.selling + delta
      omega
    · show s.selling + delta ≤ s.balance - r
      omega

theorem Sound.mono {r' : ℤ} (h : p.Sound r) (h0 : 0 ≤ r') (hle : r' ≤ r) : p.Sound r' := by
  cases p with
  | issuer => trivial
  | holder s => exact Standing.Sound.mono h h0 hle

/-- Liabilities that are there can be released. -/
theorem Sound.releaseBuying {rest : ℤ} (h : p.Sound r) (h0 : 0 ≤ delta) (hrest : 0 ≤ rest)
    (howes : p.OwesBuying (delta + rest)) : (p.map (Standing.addBuying (-delta))).Sound r := by
  cases p with
  | issuer => trivial
  | holder s =>
    have hle : delta + rest ≤ s.buying := howes
    obtain ⟨hauth, hr, hlimit, hbuying, hbuying_le, hselling, hselling_le⟩ := id h
    refine ⟨hauth, hr, hlimit, ?_, ?_, hselling, hselling_le⟩
    · show 0 ≤ s.buying + -delta
      omega
    · show s.buying + -delta ≤ s.limit - s.balance
      omega

theorem Sound.releaseSelling {rest : ℤ} (h : p.Sound r) (h0 : 0 ≤ delta) (hrest : 0 ≤ rest)
    (howes : p.OwesSelling (delta + rest)) : (p.map (Standing.addSelling (-delta))).Sound r := by
  cases p with
  | issuer => trivial
  | holder s =>
    have hle : delta + rest ≤ s.selling := howes
    obtain ⟨hauth, hr, hlimit, hbuying, hbuying_le, hselling, hselling_le⟩ := id h
    refine ⟨hauth, hr, hlimit, hbuying, hbuying_le, ?_, ?_⟩
    · show 0 ≤ s.selling + -delta
      omega
    · show s.selling + -delta ≤ s.balance - r
      omega

/-- Liabilities that are released can be sold. -/
theorem Sound.le_canSell (h : p.Sound r) (h' : (p.map (Standing.addSelling (-delta))).Sound r)
    (hmax : delta ≤ INT64_MAX) : delta ≤ (p.map (Standing.addSelling (-delta))).canSell r := by
  cases p with
  | issuer => exact hmax
  | holder s =>
    have hle := Standing.Sound.selling_le h
    rw [map_holder, canSell_of_sound h']
    show delta ≤ s.balance - r - (s.selling + -delta)
    omega

/-- What comes in fits what can be bought. -/
theorem Sound.receive (h : p.Sound r) (h0 : 0 ≤ delta) (hle : delta ≤ p.canBuy) :
    (p.map (Standing.addBalance delta)).Sound r := by
  cases p with
  | issuer => trivial
  | holder s =>
    rw [canBuy_of_sound h] at hle
    obtain ⟨hauth, hr, hlimit, hbuying, hbuying_le, hselling, hselling_le⟩ := id h
    refine ⟨hauth, hr, hlimit, hbuying, ?_, hselling, ?_⟩
    · show s.buying ≤ s.limit - (s.balance + delta)
      omega
    · show s.selling ≤ s.balance + delta - r
      omega

/-- What goes out is what can be sold. -/
theorem Sound.send (h : p.Sound r) (h0 : 0 ≤ delta) (hle : delta ≤ p.canSell r) :
    (p.map (Standing.addBalance (-delta))).Sound r ∧
      p.canSell r - delta ≤ (p.map (Standing.addBalance (-delta))).canSell r := by
  cases p with
  | issuer => exact ⟨trivial, by show INT64_MAX - delta ≤ INT64_MAX; omega⟩
  | holder s =>
    rw [canSell_of_sound h] at hle
    obtain ⟨hauth, hr, hlimit, hbuying, hbuying_le, hselling, hselling_le⟩ := id h
    have hs : (s.addBalance (-delta)).Sound r := by
      refine ⟨hauth, hr, hlimit, hbuying, ?_, hselling, ?_⟩
      · show s.buying ≤ s.limit - (s.balance + -delta)
        omega
      · show s.selling ≤ s.balance + -delta - r
        omega
    refine ⟨hs, ?_⟩
    show _ ≤ (Party.holder (s.addBalance (-delta))).canSell r
    rw [canSell_of_sound hs, canSell_of_sound h]
    show s.balance - r - s.selling - delta ≤ s.balance + -delta - r - s.selling
    omega

end Party

/-! ## The view of a ledger -/

/-- What crossing an offer looks at: the parties, the counts of sub-entries and the offers. -/
@[ext] structure View where
  party : AccountID → Asset → Option Party
  count : AccountID → Option ℕ
  offer : AccountID → ℕ → Option OfferEntry

namespace View

def balance (v : View) (a : AccountID) (asset : Asset) : Option ℤ := (v.party a asset).bind Party.balance

variable (v : View) (a : AccountID) (asset : Asset)

def setParty (p : Party) : View :=
  { v with party := fun b other => if b = a ∧ other = asset then some p else v.party b other }

def setCount (n : ℕ) : View :=
  { v with count := fun b => if b = a then some n else v.count b }

def setOffer (id : ℕ) (o : Option OfferEntry) : View :=
  { v with offer := fun b id' => if b = a ∧ id' = id then o else v.offer b id' }

@[simp] theorem party_setParty (p : Party) (b : AccountID) (other : Asset) :
    (v.setParty a asset p).party b other = if b = a ∧ other = asset then some p else v.party b other := rfl

@[simp] theorem count_setParty (p : Party) : (v.setParty a asset p).count = v.count := rfl

@[simp] theorem offer_setParty (p : Party) : (v.setParty a asset p).offer = v.offer := rfl

@[simp] theorem party_setCount (n : ℕ) : (v.setCount a n).party = v.party := rfl

@[simp] theorem count_setCount (n : ℕ) (b : AccountID) :
    (v.setCount a n).count b = if b = a then some n else v.count b := rfl

@[simp] theorem offer_setCount (n : ℕ) : (v.setCount a n).offer = v.offer := rfl

@[simp] theorem party_setOffer (id : ℕ) (o : Option OfferEntry) : (v.setOffer a id o).party = v.party := rfl

@[simp] theorem count_setOffer (id : ℕ) (o : Option OfferEntry) : (v.setOffer a id o).count = v.count := rfl

@[simp] theorem offer_setOffer (id : ℕ) (o : Option OfferEntry) (b : AccountID) (id' : ℕ) :
    (v.setOffer a id o).offer b id' = if b = a ∧ id' = id then o else v.offer b id' := rfl

variable {v a asset}

theorem setCount_self {n : ℕ} (h : v.count a = some n) : v.setCount a n = v := by
  ext1
  · rfl
  · funext b
    rw [count_setCount]
    split_ifs with hb
    · rw [hb, h]
    · rfl
  · rfl

theorem setParty_self {p : Party} (h : v.party a asset = some p) : v.setParty a asset p = v := by
  ext1
  · funext b other
    rw [party_setParty]
    split_ifs with hb
    · rw [hb.1, hb.2, h]
    · rfl
  · rfl
  · rfl

/-- Both sides of an offer. -/
def setParties (v : View) (a : AccountID) (sheep : Asset) (ps : Party) (wheat : Asset) (pw : Party) : View :=
  (v.setParty a sheep ps).setParty a wheat pw

theorem setParties_setParties {sheep wheat : Asset} (ps ps' pw pw' : Party) :
    (v.setParties a sheep ps wheat pw).setParties a sheep ps' wheat pw' =
      v.setParties a sheep ps' wheat pw' := by
  ext1
  · funext b other
    simp only [setParties, party_setParty]
    split_ifs <;> rfl
  · rfl
  · rfl

theorem balance_setParties {sheep wheat : Asset} {ps ps' pw pw' : Party} {dSheep dWheat : ℤ}
    (hne : sheep ≠ wheat) (hps : v.party a sheep = some ps) (hpw : v.party a wheat = some pw)
    (hs : ps'.balance = ps.balance.map (· + dSheep)) (hw : pw'.balance = pw.balance.map (· + dWheat))
    (b : AccountID) (other : Asset) :
    (v.setParties a sheep ps' wheat pw').balance b other = (v.balance b other).map (· +
      if b = a then (if other = sheep then dSheep else 0) + (if other = wheat then dWheat else 0) else 0) := by
  unfold balance setParties
  rw [party_setParty, party_setParty]
  by_cases hb : b = a
  · subst hb
    by_cases hwheat : other = wheat
    · subst hwheat
      simp [hpw, hw, hne.symm]
    · by_cases hsheep : other = sheep
      · subst hsheep
        simp [hps, hs, hwheat]
      · simp [hwheat, hsheep]
  · simp [hb]

/-- Liabilities do not count. -/
theorem balance_setParties_of_eq {sheep wheat : Asset} {ps ps' pw pw' : Party} (hne : sheep ≠ wheat)
    (hps : v.party a sheep = some ps) (hpw : v.party a wheat = some pw) (hs : ps'.balance = ps.balance)
    (hw : pw'.balance = pw.balance) : (v.setParties a sheep ps' wheat pw').balance = v.balance := by
  funext b other
  have hs0 : ps'.balance = ps.balance.map (· + 0) := by simp [hs]
  have hw0 : pw'.balance = pw.balance.map (· + 0) := by simp [hw]
  rw [balance_setParties hne hps hpw hs0 hw0]
  simp

theorem setOffer_setOffer (id : ℕ) (o o' : Option OfferEntry) :
    (v.setOffer a id o).setOffer a id o' = v.setOffer a id o' := by
  ext1
  · rfl
  · rfl
  · funext b id'
    simp only [offer_setOffer]
    split_ifs <;> rfl

end View

namespace AbstractLedgerTxn

variable (ltx : AbstractLedgerTxn)

def party (a : AccountID) (asset : Asset) : Option Party :=
  match getIssuer asset with
  | .error _ => (ltx.account a).map fun acc => .holder (AccountEntry.standing acc)
  | .ok issuer =>
    if issuer = a then some .issuer
    else (ltx.trustLine a asset).map fun tl => .holder (TrustLineEntry.standing tl)

def view : View where
  party := ltx.party
  count a := (ltx.account a).map (·.numSubEntries)
  offer := ltx.offer

variable {ltx} {a : AccountID} {asset : Asset}

theorem party_native : ltx.party a .native =
    (ltx.account a).map fun acc => .holder (AccountEntry.standing acc) := rfl

theorem party_issuer (h : getIssuer asset = .ok a) : ltx.party a asset = some .issuer := by
  unfold party
  rw [h]
  exact if_pos rfl

theorem party_line {issuer : AccountID} (h : getIssuer asset = .ok issuer) (hne : issuer ≠ a) :
    ltx.party a asset = (ltx.trustLine a asset).map fun tl => .holder (TrustLineEntry.standing tl) := by
  unfold party
  rw [h]
  exact if_neg hne

/-- The party for a credit depends on the line only. -/
theorem party_congr {ltx' : AbstractLedgerTxn} (h : asset ≠ .native)
    (hline : ltx'.trustLine a asset = ltx.trustLine a asset) : ltx'.party a asset = ltx.party a asset := by
  obtain ⟨issuer, hissuer⟩ := getIssuer_of_ne_native h
  unfold party
  rw [hissuer, hline]

theorem trustLine_put_trustLine (tl : TrustLineEntry) (b : AccountID) (other : Asset) :
    (ltx.put (.trustLine tl)).trustLine b other =
      if b = tl.accountID ∧ other = tl.asset then some tl else ltx.trustLine b other := by
  unfold trustLine
  rw [getNewestVersion_put]
  by_cases h : b = tl.accountID ∧ other = tl.asset
  · simp [h, LedgerEntryData.key]
  · rw [if_neg h, if_neg]
    simpa [LedgerEntryData.key] using h

theorem trustLine_put_of_ne {e : LedgerEntryData} (h : ∀ tl, e ≠ .trustLine tl) (b : AccountID)
    (other : Asset) : (ltx.put e).trustLine b other = ltx.trustLine b other := by
  unfold trustLine
  rw [getNewestVersion_put, if_neg]
  cases e with
  | trustLine tl => exact absurd rfl (h tl)
  | _ => simp [LedgerEntryData.key]

theorem trustLine_erase_of_ne {k : LedgerKey} (h : ∀ b other, k ≠ .trustLine b other) (b : AccountID)
    (other : Asset) : (ltx.erase k).trustLine b other = ltx.trustLine b other := by
  unfold trustLine
  rw [getNewestVersion_erase, if_neg]
  exact fun hk => h b other hk.symm

theorem offer_put_offer (o : OfferEntry) (b : AccountID) (id : ℕ) :
    (ltx.put (.offer o)).offer b id = if b = o.sellerID ∧ id = o.offerID then some o else ltx.offer b id := by
  unfold offer
  rw [getNewestVersion_put]
  by_cases h : b = o.sellerID ∧ id = o.offerID
  · simp [h, LedgerEntryData.key]
  · rw [if_neg h, if_neg]
    simpa [LedgerEntryData.key] using h

theorem offer_put_of_ne {e : LedgerEntryData} (h : ∀ o, e ≠ .offer o) (b : AccountID) (id : ℕ) :
    (ltx.put e).offer b id = ltx.offer b id := by
  unfold offer
  rw [getNewestVersion_put, if_neg]
  cases e with
  | offer o => exact absurd rfl (h o)
  | _ => simp [LedgerEntryData.key]

theorem offer_erase_offer (c : AccountID) (i : ℕ) (b : AccountID) (id : ℕ) :
    (ltx.erase (.offer c i)).offer b id = if b = c ∧ id = i then none else ltx.offer b id := by
  unfold offer
  rw [getNewestVersion_erase]
  by_cases h : b = c ∧ id = i
  · simp [h]
  · rw [if_neg h, if_neg]
    simpa using h

/-! ### What a write does to the view -/

theorem view_put_account (acc : AccountEntry) : (ltx.put (.account acc)).view =
    (ltx.view.setParty acc.accountID .native (.holder (AccountEntry.standing acc))).setCount acc.accountID
      acc.numSubEntries := by
  ext1
  · funext b other
    rw [View.party_setCount, View.party_setParty]
    by_cases hnative : other = .native
    · subst hnative
      show ((ltx.put (.account acc)).account b).map _ = _
      rw [account_put_account]
      by_cases hb : b = acc.accountID
      · rw [if_pos hb, if_pos ⟨hb, rfl⟩]
        rfl
      · rw [if_neg hb, if_neg fun h => hb h.1]
        rfl
    · rw [if_neg fun h => hnative h.2]
      exact party_congr hnative (trustLine_put_of_ne (by simp) b other)
  · funext b
    show ((ltx.put (.account acc)).account b).map _ = _
    rw [account_put_account, View.count_setCount]
    split_ifs <;> rfl
  · funext b id
    exact offer_put_of_ne (by simp) b id

theorem view_put_trustLine {issuer : AccountID} (tl : TrustLineEntry) (h : getIssuer tl.asset = .ok issuer)
    (hne : issuer ≠ tl.accountID) : (ltx.put (.trustLine tl)).view =
    ltx.view.setParty tl.accountID tl.asset (.holder (TrustLineEntry.standing tl)) := by
  ext1
  · funext b other
    rw [View.party_setParty]
    by_cases hkey : b = tl.accountID ∧ other = tl.asset
    · obtain ⟨rfl, rfl⟩ := hkey
      rw [if_pos ⟨rfl, rfl⟩]
      show (ltx.put (.trustLine tl)).party _ _ = _
      rw [party_line h hne, trustLine_put_trustLine, if_pos ⟨rfl, rfl⟩]
      rfl
    · rw [if_neg hkey]
      show (ltx.put (.trustLine tl)).party b other = ltx.party b other
      by_cases hnative : other = .native
      · subst hnative
        rw [party_native, account_put_of_ne (by simp), party_native]
      · refine party_congr hnative ?_
        rw [trustLine_put_trustLine, if_neg hkey]
  · funext b
    exact congrArg (Option.map _) (account_put_of_ne (by simp) b)
  · funext b id
    exact offer_put_of_ne (by simp) b id

/-- A change among the offers only. -/
theorem view_of_offers {ltx' : AbstractLedgerTxn} (hacc : ∀ b, ltx'.account b = ltx.account b)
    (hline : ∀ b other, ltx'.trustLine b other = ltx.trustLine b other) :
    ltx'.view = { ltx.view with offer := ltx'.offer } := by
  ext1
  · funext b other
    show ltx'.party b other = ltx.party b other
    unfold party
    rw [hacc, hline]
  · funext b
    exact congrArg (Option.map _) (hacc b)
  · rfl

theorem view_put_offer (o : OfferEntry) :
    (ltx.put (.offer o)).view = ltx.view.setOffer o.sellerID o.offerID (some o) := by
  rw [view_of_offers (account_put_of_ne (by simp)) (trustLine_put_of_ne (by simp))]
  ext1
  · rfl
  · rfl
  · funext b id
    exact offer_put_offer o b id

theorem view_erase_offer (c : AccountID) (i : ℕ) :
    (ltx.erase (.offer c i)).view = ltx.view.setOffer c i none := by
  rw [view_of_offers (account_erase_of_ne (by simp)) (trustLine_erase_of_ne (by simp))]
  ext1
  · rfl
  · rfl
  · funext b id
    exact offer_erase_offer c i b id

end AbstractLedgerTxn

end ZaggCore.Transactions
