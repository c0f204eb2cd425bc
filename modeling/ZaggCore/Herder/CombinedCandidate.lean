import Mathlib
import ZaggCore.Herder.HerderSCPDriver
import ZaggCore.Ledger.LedgerManagerImpl

/-! # The combined candidate

SCP nominates the value that `combineCandidates` makes of the candidates, each of which the node has
validated. The parts of the composite come from different candidates: its close time is the latest one,
its upgrades are the largest ones, its transaction set is a largest one. The composite is valid again. -/

namespace ZaggCore.Herder.HerderSCPDriver
set_option autoImplicit false
set_option maxHeartbeats 250000

open Foundations Numeric Transactions LedgerUpgrade

variable {X Q : Type} {app : Application X Q} {xdr : Xdr} {driver : HerderSCPDriver app xdr}

/-! ## Merging upgrades -/

/-- The map has the largest number seen of each type. -/
structure IsMerged (seen : Set LedgerUpgrade) (upgrades : UpgradeMap) : Prop where
  absent : ∀ t, upgrades t = none → ∀ n, ofType t n ∉ seen
  greatest : ∀ t lupgrade, upgrades t = some lupgrade →
    lupgrade.type = t ∧ IsGreatest {n | ofType t n ∈ seen} lupgrade.value

theorem ofType_eq {t : LedgerUpgradeType} {n : ℕ} {lupgrade : LedgerUpgrade} :
    ofType t n = lupgrade ↔ t = lupgrade.type ∧ n = lupgrade.value := by
  constructor
  · rintro rfl
    simp
  · rintro ⟨rfl, rfl⟩
    simp

/-- The numbers of a type are the same without an upgrade of another type. -/
theorem values_insert_of_ne {seen : Set LedgerUpgrade} {lupgrade : LedgerUpgrade}
    {t : LedgerUpgradeType} (h : t ≠ lupgrade.type) :
    {n | ofType t n ∈ insert lupgrade seen} = {n | ofType t n ∈ seen} := by
  ext n
  simp [Set.mem_insert_iff, ofType_eq, h]

theorem values_insert (seen : Set LedgerUpgrade) (lupgrade : LedgerUpgrade) :
    {n | ofType lupgrade.type n ∈ insert lupgrade seen} =
      insert lupgrade.value {n | ofType lupgrade.type n ∈ seen} := by
  ext n
  simp [Set.mem_insert_iff, ofType_eq]

theorem IsMerged.merge {seen : Set LedgerUpgrade} {upgrades : UpgradeMap}
    (h : IsMerged seen upgrades) (lupgrade : LedgerUpgrade) :
    IsMerged (insert lupgrade seen) (mergeUpgrade upgrades lupgrade) := by
  have hother : ∀ t, t ≠ lupgrade.type → mergeUpgrade upgrades lupgrade t = upgrades t := by
    intro t ht
    unfold mergeUpgrade
    cases upgrades lupgrade.type <;> exact Function.update_of_ne ht _ _
  have hsame : ∃ merged, mergeUpgrade upgrades lupgrade lupgrade.type = some merged ∧
      merged.type = lupgrade.type ∧
      IsGreatest (insert lupgrade.value {n | ofType lupgrade.type n ∈ seen}) merged.value := by
    unfold mergeUpgrade
    cases hold : upgrades lupgrade.type with
    | none =>
      refine ⟨lupgrade, Function.update_self _ _ _, rfl, Set.mem_insert _ _, ?_⟩
      rintro n (rfl | hn)
      · exact le_rfl
      · exact absurd hn (h.absent _ hold n)
    | some clUpgrade =>
      refine ⟨_, Function.update_self _ _ _, type_ofType _ _, ?_⟩
      rw [value_ofType, max_comm]
      exact (h.greatest _ _ hold).2.insert lupgrade.value
  constructor
  · intro t ht n
    by_cases htype : t = lupgrade.type
    · subst htype
      obtain ⟨merged, hmerged, -⟩ := hsame
      rw [ht] at hmerged
      cases hmerged
    · rw [hother t htype] at ht
      intro hn
      rcases hn with hn | hn
      · exact htype (ofType_eq.mp hn).1
      · exact h.absent t ht n hn
  · intro t merged ht
    by_cases htype : t = lupgrade.type
    · subst htype
      obtain ⟨merged', hmerged, htype', hgreatest⟩ := hsame
      rw [ht] at hmerged
      cases hmerged
      rw [values_insert]
      exact ⟨htype', hgreatest⟩
    · rw [hother t htype] at ht
      rw [values_insert_of_ne htype]
      exact h.greatest t merged ht

/-- The loop over the upgrades of a candidate that can all be read. -/
theorem IsMerged.mergeAll {upgrades : UpgradeMap} {encoded : List UpgradeType} {seen : Set LedgerUpgrade}
    (h : IsMerged seen upgrades)
    (hread : ∀ upgrade ∈ encoded, ∃ lupgrade, xdr.upgrade.xdr_from_opaque upgrade = some lupgrade) :
    ∃ merged, mergeUpgrades xdr encoded upgrades = .ok merged ∧
      IsMerged (seen ∪ {lupgrade | ∃ upgrade ∈ encoded,
        xdr.upgrade.xdr_from_opaque upgrade = some lupgrade}) merged := by
  induction encoded generalizing upgrades seen with
  | nil => exact ⟨upgrades, rfl, by simpa using h⟩
  | cons upgrade rest ih =>
    obtain ⟨lupgrade, hlupgrade⟩ := hread upgrade List.mem_cons_self
    obtain ⟨merged, hmerged, hseen⟩ := ih (h.merge lupgrade)
      fun upgrade' h' => hread upgrade' (List.mem_cons_of_mem _ h')
    refine ⟨merged, ?_, ?_⟩
    · rw [mergeUpgrades, hlupgrade]
      exact hmerged
    · convert hseen using 1
      ext lu
      simp only [Set.mem_union, Set.mem_ofPred_eq, List.mem_cons, exists_eq_or_imp, hlupgrade,
        Option.some.injEq, Set.mem_insert_iff]
      grind

/-! ## Combining values -/

/-- All that can be read in the upgrades of some values. -/
def upgradesOf (xdr : Xdr) (values : List StellarValue) : Set LedgerUpgrade :=
  {lupgrade | ∃ sv ∈ values, ∃ upgrade ∈ sv.upgrades,
    xdr.upgrade.xdr_from_opaque upgrade = some lupgrade}

/-- The variables of the loop after the values. -/
structure IsCombined (xdr : Xdr) (values : List StellarValue) (combined : Combined) : Prop where
  candidateValues : combined.candidateValues = values
  upgrades : IsMerged (upgradesOf xdr values) combined.upgrades
  le_closeTime : ∀ sv ∈ values, sv.closeTime ≤ combined.closeTime
  closeTime : combined.closeTime = 0 ∨ ∃ sv ∈ values, sv.closeTime = combined.closeTime

theorem isCombined_nil : IsCombined xdr [] ⟨0, fun _ => none, 0, []⟩ where
  candidateValues := rfl
  upgrades := ⟨fun t _ n h => by simp [upgradesOf] at h, fun t lupgrade h => by cases h⟩
  le_closeTime := by simp
  closeTime := .inl rfl

theorem upgradesOf_append (values : List StellarValue) (sv : StellarValue) :
    upgradesOf xdr (values ++ [sv]) = upgradesOf xdr values ∪
      {lupgrade | ∃ upgrade ∈ sv.upgrades, xdr.upgrade.xdr_from_opaque upgrade = some lupgrade} := by
  ext lupgrade
  simp [upgradesOf, or_and_right, exists_or]

theorem IsCombined.add {values : List StellarValue} {combined : Combined}
    (h : IsCombined xdr values combined) (c : Value) (sv : StellarValue) {upgrades : UpgradeMap}
    (hupgrades : IsMerged (upgradesOf xdr (values ++ [sv])) upgrades) :
    IsCombined xdr (values ++ [sv]) (Combined.add xdr combined c sv upgrades) where
  candidateValues := by
    unfold Combined.add
    rw [h.candidateValues]
  upgrades := hupgrades
  le_closeTime sv' hsv' := by
    unfold Combined.add
    rcases List.mem_append.mp hsv' with hsv' | hsv'
    · have := h.le_closeTime sv' hsv'
      dsimp only
      split_ifs <;> omega
    · rw [List.mem_singleton.mp hsv']
      dsimp only
      split_ifs <;> omega
  closeTime := by
    unfold Combined.add
    dsimp only
    split_ifs with hlt
    · exact .inr ⟨sv, by simp, rfl⟩
    · rcases h.closeTime with h0 | ⟨sv', hsv', heq⟩
      · exact .inl h0
      · exact .inr ⟨sv', List.mem_append_left _ hsv', heq⟩

/-- A candidate that can be read, its upgrades with it. -/
def Reads (xdr : Xdr) (c : Value) (sv : StellarValue) : Prop :=
  xdr.value.xdr_from_opaque c = some sv ∧
    ∀ upgrade ∈ sv.upgrades, ∃ lupgrade, xdr.upgrade.xdr_from_opaque upgrade = some lupgrade

/-- The loop over candidates that can be read. -/
theorem IsCombined.addAll {candidates : List Value} {values : List StellarValue}
    {combined : Combined} (h : IsCombined xdr values combined)
    (hread : ∀ c ∈ candidates, ∃ sv, Reads xdr c sv) :
    ∃ values' combined', combineValues xdr candidates combined = .ok combined' ∧
      IsCombined xdr (values ++ values') combined' ∧
      ∀ sv, sv ∈ values' ↔ ∃ c ∈ candidates, xdr.value.xdr_from_opaque c = some sv := by
  induction candidates generalizing values combined with
  | nil => exact ⟨[], combined, rfl, by simpa using h, by simp⟩
  | cons c candidates ih =>
    obtain ⟨sv, hsv⟩ := hread c List.mem_cons_self
    obtain ⟨upgrades, hmerge, hmerged⟩ := h.upgrades.mergeAll hsv.2
    rw [← upgradesOf_append] at hmerged
    obtain ⟨values', combined', hrun, hcombined, hreads⟩ := ih (h.add c sv hmerged)
      fun c' h' => hread c' (List.mem_cons_of_mem _ h')
    refine ⟨sv :: values', combined', ?_, by simpa using hcombined, fun sv' => ?_⟩
    · rw [combineValues, hsv.1]
      dsimp only
      rw [hmerge]
      exact hrun
    · rw [List.mem_cons, hreads, List.exists_mem_cons_iff, hsv.1, Option.some.injEq, eq_comm]

/-! ## The highest transaction set -/

/-- The set taken so far is that of one of the values, and none of them has a larger one. -/
def IsHighest (driver : HerderSCPDriver app xdr) (values : List StellarValue) :
    Option (TxSetFrame × Hash) → Prop
  | none => values = []
  | some (txSet, hash) =>
    driver.mPendingEnvelopes.getTxSet hash = some txSet ∧ (∃ sv ∈ values, sv.txSetHash = hash) ∧
      ∀ sv ∈ values, ∀ txSet', driver.mPendingEnvelopes.getTxSet sv.txSetHash = some txSet' →
        txSet'.mTransactions.length ≤ txSet.mTransactions.length

theorem isHighest_nil : IsHighest driver [] none := rfl

theorem IsHighest.take {values : List StellarValue} {highest : Option (TxSetFrame × Hash)}
    (h : IsHighest driver values highest) {candidatesHash : Hash} {sv : StellarValue}
    {cTxSet : TxSetFrame} (hget : driver.mPendingEnvelopes.getTxSet sv.txSetHash = some cTxSet)
    (hhigher : isHigher candidatesHash highest cTxSet sv.txSetHash = true) :
    IsHighest driver (values ++ [sv]) (some (cTxSet, sv.txSetHash)) := by
  refine ⟨hget, ⟨sv, by simp, rfl⟩, fun sv' hsv' txSet' hget' => ?_⟩
  rcases List.mem_append.mp hsv' with hsv' | hsv'
  · cases highest with
    | none =>
      obtain rfl : values = [] := h
      cases hsv'
    | some best =>
      obtain ⟨-, -, hle⟩ := h
      have hold := hle sv' hsv' txSet' hget'
      simp only [isHigher, Bool.or_eq_true, decide_eq_true_eq, Bool.and_eq_true] at hhigher
      omega
  · rw [List.mem_singleton.mp hsv', hget] at hget'
    cases hget'
    exact le_rfl

theorem IsHighest.keep {values : List StellarValue} {highest : Option (TxSetFrame × Hash)}
    (h : IsHighest driver values highest) {candidatesHash : Hash} {sv : StellarValue}
    {cTxSet : TxSetFrame} (hget : driver.mPendingEnvelopes.getTxSet sv.txSetHash = some cTxSet)
    (hhigher : ¬ isHigher candidatesHash highest cTxSet sv.txSetHash = true) :
    IsHighest driver (values ++ [sv]) highest := by
  cases highest with
  | none => exact absurd rfl hhigher
  | some best =>
    obtain ⟨hbest, ⟨sv₀, hsv₀, hhash⟩, hle⟩ := h
    refine ⟨hbest, ⟨sv₀, List.mem_append_left _ hsv₀, hhash⟩, fun sv' hsv' txSet' hget' => ?_⟩
    rcases List.mem_append.mp hsv' with hsv' | hsv'
    · exact hle sv' hsv' txSet' hget'
    · rw [List.mem_singleton.mp hsv', hget] at hget'
      cases hget'
      simp only [isHigher, Bool.or_eq_true, decide_eq_true_eq, Bool.and_eq_true] at hhigher
      omega

/-- The loop over values whose sets are there and follow the last closed ledger. -/
theorem IsHighest.highestTxSet {values rest : List StellarValue}
    {highest : Option (TxSetFrame × Hash)} (h : IsHighest driver values highest)
    (candidatesHash : Hash)
    (hsets : ∀ sv ∈ rest, ∃ txSet, driver.mPendingEnvelopes.getTxSet sv.txSetHash = some txSet ∧
      txSet.mPreviousLedgerHash = driver.lclHash) :
    IsHighest driver (values ++ rest) (driver.highestTxSet candidatesHash rest highest) := by
  induction rest generalizing values highest with
  | nil => simpa [HerderSCPDriver.highestTxSet] using h
  | cons sv rest ih =>
    obtain ⟨cTxSet, hget, hprev⟩ := hsets sv List.mem_cons_self
    have hrest := fun sv' h' => hsets sv' (List.mem_cons_of_mem sv h')
    rw [HerderSCPDriver.highestTxSet, hget, List.append_cons]
    dsimp only
    by_cases hhigher : isHigher candidatesHash highest cTxSet sv.txSetHash = true
    · rw [if_pos (by simp [hprev, hhigher])]
      exact ih (h.take hget hhigher) hrest
    · rw [if_neg (by simp [hhigher])]
      exact ih (h.keep hget hhigher) hrest

/-! ## The checks of a value -/

/-- Upgrades that pass can be read and are valid outside of nomination. -/
theorem of_checkUpgrades {nomination : Bool} {last : Option LedgerUpgradeType}
    {upgrades : List UpgradeType} (h : driver.checkUpgrades nomination last upgrades = true) :
    ∀ upgrade ∈ upgrades, ∃ lupgrade, xdr.upgrade.xdr_from_opaque upgrade = some lupgrade ∧
      Upgrades.isValid driver.LEDGER_PROTOCOL_VERSION driver.lcl lupgrade = true := by
  induction upgrades generalizing last with
  | nil => simp
  | cons upgrade rest ih =>
    rw [checkUpgrades] at h
    cases hvalid : driver.isValid upgrade nomination with
    | none => rw [hvalid] at h; cases h
    | some thisUpgradeType =>
      rw [hvalid] at h
      dsimp only at h
      split_ifs at h
      refine List.forall_mem_cons.mpr ⟨?_, ih h⟩
      unfold isValid at hvalid
      split_ifs at hvalid
      cases hread : xdr.upgrade.xdr_from_opaque upgrade with
      | none => rw [hread] at hvalid; cases hvalid
      | some lupgrade =>
        rw [hread] at hvalid
        dsimp only at hvalid
        split_ifs at hvalid with hok
        exact ⟨lupgrade, rfl, (Bool.and_eq_true_iff.mp hok).2⟩

/-- Valid upgrades in the order of their types pass. -/
theorem checkUpgrades_of_valid {lupgrades : List LedgerUpgrade} {last : Option LedgerUpgradeType}
    (hfits : ∀ lupgrade ∈ lupgrades, lupgrade.Fits)
    (hvalid : ∀ lupgrade ∈ lupgrades,
      Upgrades.isValid driver.LEDGER_PROTOCOL_VERSION driver.lcl lupgrade = true)
    (hlast : ∀ t ∈ last, ∀ lupgrade ∈ lupgrades, t < lupgrade.type)
    (hsorted : lupgrades.Pairwise fun a b => a.type < b.type) :
    driver.checkUpgrades false last (lupgrades.map xdr.upgrade.xdr_to_opaque) = true := by
  induction lupgrades generalizing last with
  | nil => rfl
  | cons lupgrade rest ih =>
    obtain ⟨hfirst, hrest⟩ := List.forall_mem_cons.mp hfits
    obtain ⟨hvalid₁, hvalid₂⟩ := List.forall_mem_cons.mp hvalid
    obtain ⟨hsorted₁, hsorted₂⟩ := List.pairwise_cons.mp hsorted
    have hthis : driver.isValid ( xdr.upgrade.xdr_to_opaque lupgrade) false = some lupgrade.type := by
      simp [isValid, xdr.upgrade.from_to lupgrade hfirst, hvalid₁]
    rw [List.map_cons, checkUpgrades, hthis]
    dsimp only
    rw [if_neg]
    · refine ih hrest hvalid₂ (fun t ht lu hlu => ?_) hsorted₂
      cases ht
      exact hsorted₁ lu hlu
    · rw [Option.any_eq_true]
      rintro ⟨t, ht, hle⟩
      exact absurd (of_decide_eq_true hle) (not_le.mpr (hlast t ht lupgrade List.mem_cons_self))

variable [LinearOrder Q]

omit [LinearOrder Q] in
theorem not_fully_validateWithoutState (slotIndex : ℕ) (sv : StellarValue) :
    driver.validateWithoutState slotIndex sv ≠ .kFullyValidatedValue := by
  unfold validateWithoutState
  dsimp only
  split_ifs
  all_goals try exact ValidationLevel.noConfusion
  cases driver.mTrackingSCP with
  | none => exact ValidationLevel.noConfusion
  | some tracking =>
    dsimp only
    split_ifs <;> exact ValidationLevel.noConfusion

theorem validateValueHelper_fully {slotIndex : ℕ} {sv : StellarValue} {w w' : World X} :
    driver.validateValueHelper slotIndex sv w = .ok .kFullyValidatedValue w' ↔
      driver.isSlotCompatibleWithCurrentState slotIndex = true ∧
        driver.checkCloseTime driver.lclCloseTime sv = true ∧
        ∃ txSet, driver.mPendingEnvelopes.getTxSet sv.txSetHash = some txSet ∧
          txSet.checkValid app driver.lclHash driver.lcl w = .ok true w' := by
  unfold validateValueHelper
  by_cases hslot : driver.isSlotCompatibleWithCurrentState slotIndex = true
  · rw [if_pos hslot]
    by_cases hclose : driver.checkCloseTime driver.lclCloseTime sv = true
    · rw [if_pos hclose]
      cases hget : driver.mPendingEnvelopes.getTxSet sv.txSetHash with
      | none => simp [pure_ok]
      | some txSet =>
        simp only [hslot, hclose, Option.some.injEq, exists_eq_left', true_and]
        rw [bind_ok]
        constructor
        · rintro ⟨ok, w₁, hcheck, hok⟩
          obtain ⟨hif, rfl⟩ := pure_ok.mp hok
          cases ok with
          | false => cases hif
          | true => exact hcheck
        · intro hcheck
          exact ⟨true, w', hcheck, rfl⟩
    · rw [if_neg hclose]
      simp [pure_ok, hclose]
  · rw [if_neg hslot]
    simp [pure_ok, hslot, not_fully_validateWithoutState]

/-- A value is fully validated if all of it is known and passes. -/
theorem validateValue_fully {slotIndex : ℕ} {value : Value} {nomination : Bool} {w w' : World X} :
    driver.validateValue slotIndex value nomination w = .ok .kFullyValidatedValue w' ↔
      ∃ sv, xdr.value.xdr_from_opaque value = some sv ∧
        driver.validateValueHelper slotIndex sv w = .ok .kFullyValidatedValue w' ∧
        driver.checkUpgrades nomination none sv.upgrades = true := by
  unfold validateValue
  cases hread : xdr.value.xdr_from_opaque value with
  | none => simp [pure_ok]
  | some sv =>
    dsimp only
    rw [bind_ok]
    constructor
    · rintro ⟨res, w₁, hhelper, hres⟩
      obtain ⟨hif, rfl⟩ := pure_ok.mp hres
      by_cases hup : driver.checkUpgrades nomination none sv.upgrades = true
      · rw [if_pos hup] at hif
        subst hif
        exact ⟨sv, rfl, hhelper, hup⟩
      · rw [if_neg hup] at hif
        cases hif
    · rintro ⟨sv', heq, hhelper, hup⟩
      cases heq
      exact ⟨_, w', hhelper, by rw [if_pos hup]; rfl⟩

/-! ## The composite -/

/-- The node has fully validated the value on this ledger, and sent nothing but raw transactions to the
bitcoin node since. -/
def FullyValidated (driver : HerderSCPDriver app xdr) (slotIndex : ℕ) (w : World X) (c : Value) : Prop :=
  ∃ nomination w₀ w₁, driver.validateValue slotIndex c nomination w₀ = .ok .kFullyValidatedValue w₁ ∧
    TxSetFrame.SameLedger w₀ w ∧ Sent app w₁.ext w.ext

omit [LinearOrder Q] in
/-- The upgrades of the composite: in the order of the types, and of each type the largest number. -/
theorem IsMerged.filterMap {seen : Set LedgerUpgrade} {upgrades : UpgradeMap}
    (h : IsMerged seen upgrades) :
    (LedgerUpgradeType.all.filterMap upgrades).Pairwise (fun a b => a.type < b.type) ∧
      (∀ t n, ofType t n ∈ LedgerUpgradeType.all.filterMap upgrades ↔
        IsGreatest {n | ofType t n ∈ seen} n) ∧
      ∀ lupgrade ∈ LedgerUpgradeType.all.filterMap upgrades, lupgrade ∈ seen := by
  have hmem : ∀ lupgrade ∈ LedgerUpgradeType.all.filterMap upgrades,
      IsGreatest {n | ofType lupgrade.type n ∈ seen} lupgrade.value := by
    intro lupgrade hlu
    obtain ⟨t, -, ht⟩ := List.mem_filterMap.mp hlu
    obtain ⟨rfl, hgreatest⟩ := h.greatest t lupgrade ht
    exact hgreatest
  refine ⟨?_, fun t n => ⟨fun hlu => by simpa using hmem _ hlu, fun hgreatest => ?_⟩,
    fun lupgrade hlu => by simpa using (hmem lupgrade hlu).1⟩
  · refine List.pairwise_filterMap.mpr (LedgerUpgradeType.pairwise_all.imp ?_)
    intro t t' hlt a ha b hb
    rw [(h.greatest t a ha).1, (h.greatest t' b hb).1]
    exact hlt
  · refine List.mem_filterMap.mpr ⟨t, LedgerUpgradeType.mem_all t, ?_⟩
    cases ht : upgrades t with
    | none => exact absurd hgreatest.1 (h.absent t ht n)
    | some lupgrade =>
      obtain ⟨rfl, hgreatest'⟩ := h.greatest t lupgrade ht
      rw [hgreatest.unique hgreatest', ofType_type_value]

/-- What is known of the value of a candidate. -/
structure IsCandidate (driver : HerderSCPDriver app xdr) (slotIndex : ℕ) (w : World X)
    (sv : StellarValue) : Prop where
  slot : driver.isSlotCompatibleWithCurrentState slotIndex = true
  closeTime : driver.checkCloseTime driver.lclCloseTime sv = true
  upgrades : ∀ upgrade ∈ sv.upgrades, ∃ lupgrade, xdr.upgrade.xdr_from_opaque upgrade = some lupgrade ∧
    Upgrades.isValid driver.LEDGER_PROTOCOL_VERSION driver.lcl lupgrade = true
  txSet : ∃ txSet w₀ w₁, driver.mPendingEnvelopes.getTxSet sv.txSetHash = some txSet ∧
    txSet.checkValid app driver.lclHash driver.lcl w₀ = .ok true w₁ ∧
    TxSetFrame.SameLedger w₀ w ∧ Sent app w₁.ext w.ext

theorem FullyValidated.isCandidate {slotIndex : ℕ} {w : World X} {c : Value}
    (h : FullyValidated driver slotIndex w c) :
    ∃ sv, xdr.value.xdr_from_opaque c = some sv ∧ IsCandidate driver slotIndex w sv := by
  obtain ⟨nomination, w₀, w₁, hvalid, hledger, hsent⟩ := h
  obtain ⟨sv, hread, hhelper, hupgrades⟩ := validateValue_fully.mp hvalid
  obtain ⟨hslot, hclose, txSet, hget, hcheck⟩ := validateValueHelper_fully.mp hhelper
  exact ⟨sv, hread, hslot, hclose, of_checkUpgrades hupgrades,
    txSet, w₀, w₁, hget, hcheck, hledger, hsent⟩

/-- The values of the candidates. -/
def valuesOf (xdr : Xdr) (candidates : Finset Value) : Set StellarValue :=
  {sv | ∃ c ∈ candidates, xdr.value.xdr_from_opaque c = some sv}

/-- What the composite of the candidates is made of. -/
structure IsComposite (driver : HerderSCPDriver app xdr) (candidates : Finset Value)
    (comp : StellarValue) : Prop where
  closeTime : IsGreatest {t | ∃ sv ∈ valuesOf xdr candidates, sv.closeTime = t} comp.closeTime
  upgrades : ∃ lupgrades : List LedgerUpgrade,
    comp.upgrades = lupgrades.map xdr.upgrade.xdr_to_opaque ∧
    lupgrades.Pairwise (fun a b => a.type < b.type) ∧
    ∀ t n, ofType t n ∈ lupgrades ↔
      IsGreatest {m | ∃ sv ∈ valuesOf xdr candidates, ∃ upgrade ∈ sv.upgrades,
        xdr.upgrade.xdr_from_opaque upgrade = some (ofType t m)} n
  txSet : ∃ sv ∈ valuesOf xdr candidates, sv.txSetHash = comp.txSetHash ∧
    ∃ txSet, driver.mPendingEnvelopes.getTxSet comp.txSetHash = some txSet ∧
      ∀ sv' ∈ valuesOf xdr candidates, ∀ txSet',
        driver.mPendingEnvelopes.getTxSet sv'.txSetHash = some txSet' →
          txSet'.mTransactions.length ≤ txSet.mTransactions.length

/-- The composite of what the loops over the candidates found. -/
def compose (xdr : Xdr) (hash : Hash) (combined : Combined) : StellarValue where
  txSetHash := hash
  closeTime := combined.closeTime
  upgrades := (LedgerUpgradeType.all.filterMap combined.upgrades).map xdr.upgrade.xdr_to_opaque

omit [LinearOrder Q] in
theorem length_compose_upgrades (xdr : Xdr) (hash : Hash) (combined : Combined) :
    (compose xdr hash combined).upgrades.length ≤ 6 ∧
      ∀ upgrade ∈ (compose xdr hash combined).upgrades, upgrade.length ≤ 128 := by
  constructor
  · have hle := List.length_filterMap_le combined.upgrades LedgerUpgradeType.all
    rw [compose, List.length_map]
    exact hle.trans (by decide)
  · intro upgrade hupgrade
    obtain ⟨lupgrade, -, rfl⟩ := List.mem_map.mp hupgrade
    rw [xdr.length_upgrade]
    omega

omit [LinearOrder Q] in
theorem emplaceUpgrades_eq (xdr : Xdr) (hash : Hash) (combined : Combined) :
    emplaceUpgrades xdr combined.upgrades = .ok (compose xdr hash combined).upgrades := by
  obtain ⟨hlen, hall⟩ := length_compose_upgrades xdr hash combined
  unfold emplaceUpgrades
  dsimp only
  rw [if_neg]
  · rfl
  · rw [Bool.or_eq_true, List.any_eq_true, decide_eq_true_eq, not_or, not_exists]
    exact ⟨fun upgrade h => by simpa using (hall upgrade h.1).not_gt (of_decide_eq_true h.2),
      not_lt.mpr hlen⟩

section Composite

variable {slotIndex : ℕ} {w : World X} {values : List StellarValue} {combined : Combined}

/-- The latest close time is that of one of the candidates. -/
theorem IsCombined.exists_closeTime (h : IsCombined xdr values combined) (hne : values ≠ [])
    (hall : ∀ sv ∈ values, IsCandidate driver slotIndex w sv) :
    ∃ sv ∈ values, sv.closeTime = combined.closeTime := by
  refine h.closeTime.resolve_left fun h0 => ?_
  obtain ⟨sv, hsv⟩ := List.exists_mem_of_ne_nil values hne
  have hle := h.le_closeTime sv hsv
  have hclose := (hall sv hsv).closeTime
  unfold checkCloseTime at hclose
  split_ifs at hclose with hold
  omega

omit [LinearOrder Q] in
/-- An upgrade of the composite is one of a candidate's. -/
theorem IsCombined.upgrade_mem (h : IsCombined xdr values combined) {lupgrade : LedgerUpgrade}
    (hlu : lupgrade ∈ LedgerUpgradeType.all.filterMap combined.upgrades) :
    ∃ sv ∈ values, ∃ upgrade ∈ sv.upgrades, xdr.upgrade.xdr_from_opaque upgrade = some lupgrade :=
  h.upgrades.filterMap.2.2 lupgrade hlu

theorem IsCombined.checkUpgrades (h : IsCombined xdr values combined) (hash : Hash)
    (hall : ∀ sv ∈ values, IsCandidate driver slotIndex w sv) :
    driver.checkUpgrades false none (compose xdr hash combined).upgrades = true := by
  refine checkUpgrades_of_valid (fun lupgrade hlu => ?_) (fun lupgrade hlu => ?_)
    (fun _ ht => by cases ht) h.upgrades.filterMap.1
  · obtain ⟨sv, -, upgrade, -, hread⟩ := h.upgrade_mem hlu
    exact xdr.upgrade.fits upgrade lupgrade hread
  · obtain ⟨sv, hsv, upgrade, hupgrade, hread⟩ := h.upgrade_mem hlu
    obtain ⟨lupgrade', hread', hvalid⟩ := (hall sv hsv).upgrades upgrade hupgrade
    rw [hread] at hread'
    cases hread'
    exact hvalid

/-- The composite passes every check of a value that is known. -/
theorem IsCombined.validateValue (node : Remembers app) (h : IsCombined xdr values combined)
    (hne : values ≠ []) (hall : ∀ sv ∈ values, IsCandidate driver slotIndex w sv)
    {hash : Hash} (hfits : (compose xdr hash combined).Fits)
    (hhash : ∃ sv ∈ values, sv.txSetHash = hash) {w₁ : World X}
    (hledger : TxSetFrame.SameLedger w w₁) (hnode : Sent app w.ext w₁.ext) :
    ∃ w₂, driver.validateValue slotIndex ( xdr.value.xdr_to_opaque (compose xdr hash combined)) false w₁ =
      .ok .kFullyValidatedValue w₂ := by
  obtain ⟨sv, hsv, rfl⟩ := hhash
  obtain ⟨txSet, w₀, w₀', hget, hcheck, hsame, hsent⟩ := (hall sv hsv).txSet
  obtain ⟨w₂, -, -, hagain, -⟩ := TxSetFrame.checkValid_again node hcheck (hsame.trans hledger)
    (trans_of (Sent app) hsent hnode)
  obtain ⟨svTime, hsvTime, htime⟩ := h.exists_closeTime hne hall
  have hclose : driver.checkCloseTime driver.lclCloseTime (compose xdr sv.txSetHash combined) = true := by
    have := (hall svTime hsvTime).closeTime
    unfold checkCloseTime at this ⊢
    rwa [htime] at this
  refine ⟨w₂, validateValue_fully.mpr ⟨_, xdr.value.from_to _ hfits, ?_, h.checkUpgrades _ hall⟩⟩
  exact validateValueHelper_fully.mpr ⟨(hall sv hsv).slot, hclose, txSet, hget, hagain⟩

end Composite

/-- The composite of candidates that are fully validated is fully validated, then and later. -/
theorem combineCandidates_valid (node : Remembers app) {slotIndex : ℕ} {candidates : Finset Value}
    (hne : candidates.Nonempty) {w : World X}
    (hvalid : ∀ c ∈ candidates, FullyValidated driver slotIndex w c) :
    ∃ comp w₁, driver.combineCandidates candidates w = .ok ( xdr.value.xdr_to_opaque comp, none) w₁ ∧
      xdr.value.xdr_from_opaque ( xdr.value.xdr_to_opaque comp) = some comp ∧
      IsComposite driver candidates comp ∧
      ∀ w₂, TxSetFrame.SameLedger w₁ w₂ → Sent app w₁.ext w₂.ext →
        ∃ w₃, driver.validateValue slotIndex ( xdr.value.xdr_to_opaque comp) false w₂ =
          .ok .kFullyValidatedValue w₃ := by
  have hsort : ∀ c, c ∈ candidates.sort (· ≤ ·) ↔ c ∈ candidates := fun c => Finset.mem_sort _
  have hread : ∀ c ∈ candidates.sort (· ≤ ·), ∃ sv, Reads xdr c sv := by
    intro c hc
    obtain ⟨sv, hsv, hcand⟩ := (hvalid c ((hsort c).mp hc)).isCandidate
    refine ⟨sv, hsv, fun upgrade hupgrade => ?_⟩
    obtain ⟨lupgrade, hlu, -⟩ := hcand.upgrades upgrade hupgrade
    exact ⟨lupgrade, hlu⟩
  obtain ⟨values, combined, hcombine, hcombined, hreads⟩ := isCombined_nil.addAll hread
  rw [List.nil_append] at hcombined
  have hvalues : ∀ sv, sv ∈ values ↔ sv ∈ valuesOf xdr candidates := by
    intro sv
    rw [hreads sv]
    simp only [hsort]
    rfl
  have hall : ∀ sv ∈ values, IsCandidate driver slotIndex w sv := by
    intro sv hsv
    obtain ⟨c, hc, hsvc⟩ := (hvalues sv).mp hsv
    obtain ⟨sv', hsv', hcand⟩ := (hvalid c hc).isCandidate
    rw [hsvc] at hsv'
    cases hsv'
    exact hcand
  have hnonempty : values ≠ [] := by
    obtain ⟨c, hc⟩ := hne
    obtain ⟨sv, hsv, -⟩ := (hvalid c hc).isCandidate
    exact List.ne_nil_of_mem ((hvalues sv).mpr ⟨c, hc, hsv⟩)
  have hhighest : IsHighest driver values
      (driver.highestTxSet combined.candidatesHash combined.candidateValues none) := by
    rw [hcombined.candidateValues, ← List.nil_append values]
    refine isHighest_nil.highestTxSet _ fun sv hsv => ?_
    obtain ⟨txSet, w₀, w₀', hget, hcheck, -⟩ := (hall sv hsv).txSet
    exact ⟨txSet, hget, (TxSetFrame.checkValid_true.mp hcheck).1.symm⟩
  cases hbest : driver.highestTxSet combined.candidatesHash combined.candidateValues none with
  | none =>
    rw [hbest] at hhighest
    exact absurd hhighest hnonempty
  | some best =>
    obtain ⟨txSet, hash⟩ := best
    rw [hbest] at hhighest
    obtain ⟨hget, ⟨sv, hsv, hhash⟩, hlargest⟩ := hhighest
    obtain ⟨txSet', w₀, w₀', hget', hcheck, hsame, hsent⟩ := (hall sv hsv).txSet
    obtain rfl : txSet' = txSet := by
      rw [hhash, hget] at hget'
      exact (Option.some.inj hget').symm
    obtain ⟨w₁, hledger, hnode, -, htrim⟩ :=
      TxSetFrame.checkValid_again node hcheck hsame hsent
    obtain ⟨svTime, hsvTime, htime⟩ := hcombined.exists_closeTime hnonempty hall
    have hfits : (compose xdr hash combined).Fits := by
      obtain ⟨c, -, hc⟩ := (hvalues svTime).mp hsvTime
      have hbound := (xdr.value.fits c svTime hc).1
      rw [htime] at hbound
      exact ⟨hbound, length_compose_upgrades xdr hash combined⟩
    refine ⟨compose xdr hash combined, w₁, ?_, xdr.value.from_to _ hfits, ?_, ?_⟩
    · refine bind_ok.mpr ⟨combined, w, lift_ok.mpr ⟨hcombine, rfl⟩, ?_⟩
      rw [hbest]
      refine bind_ok.mpr ⟨_, w, lift_ok.mpr ⟨emplaceUpgrades_eq xdr hash combined, rfl⟩, ?_⟩
      refine bind_ok.mpr ⟨_, w₁, htrim, pure_ok.mpr ⟨?_, rfl⟩⟩
      have hcomp : ⟨txSet'.getContentsHash app xdr.sha256TxSet, combined.closeTime,
          (compose xdr hash combined).upgrades⟩ = compose xdr hash combined := by
        rw [driver.mPendingEnvelopes.contentsHash hget]
        rfl
      exact congrArg (fun comp => ( xdr.value.xdr_to_opaque comp, none)) hcomp
    · refine ⟨⟨⟨svTime, (hvalues svTime).mp hsvTime, htime⟩, ?_⟩, ?_, ?_⟩
      · rintro t ⟨sv', hsv', rfl⟩
        exact hcombined.le_closeTime sv' ((hvalues sv').mpr hsv')
      · refine ⟨_, rfl, hcombined.upgrades.filterMap.1, fun t n => ?_⟩
        rw [hcombined.upgrades.filterMap.2.1 t n]
        simp only [upgradesOf, Set.mem_ofPred_eq, hvalues]
      · exact ⟨sv, (hvalues sv).mp hsv, hhash, txSet', hget,
          fun sv' hsv' => hlargest sv' ((hvalues sv').mpr hsv')⟩
    · intro w₂ hledger₂ hsent₂
      exact hcombined.validateValue node hnonempty hall hfits ⟨sv, hsv, hhash⟩ (hledger.trans hledger₂)
        (trans_of (Sent app) hnode hsent₂)

/-! ## A mark among the candidates -/

/-- The mempool takes again what it has taken, since nothing that is sent to it takes anything out. -/
theorem remembers_withMempool : Remembers withMempool := by
  intro marker x x' x'' hsend hsent
  have hgrows : x'.1 ⊆ x''.1 ∧ x'.2 = x''.2 := by
    induction hsent with
    | refl => exact ⟨subset_rfl, rfl⟩
    | step _ hsend' ih =>
      refine ⟨ih.1.trans ?_, ih.2.trans ?_⟩ <;>
      · simp only [withMempool, Mempool.send] at hsend'
        split_ifs at hsend' <;> obtain ⟨-, rfl⟩ := EStateM.Result.ok.inj hsend' <;> simp
  have htaken : marker ∈ x'.1 ∧ marker ∉ x'.2 := by
    simp only [withMempool, Mempool.send] at hsend
    split_ifs at hsend with hmined hthere hspent <;> obtain ⟨htrue, rfl⟩ := EStateM.Result.ok.inj hsend
    · cases htrue
    · exact ⟨hthere, hmined⟩
    · cases htrue
    · exact ⟨Finset.mem_insert_self _ _, hmined⟩
  refine ⟨x'', ?_⟩
  simp only [withMempool, Mempool.send]
  rw [if_neg (hgrows.2 ▸ htaken.2), if_pos (hgrows.1 htaken.1)]

/-- A transaction of the root account that marks it. -/
def markAccount : TransactionEnvelope where
  tx := { sourceAccount := 7, fee := 100, seqNum := 1, timeBounds := none,
          operations := [⟨none, .MARK_ACCOUNT [1]⟩] }
  signatures := [⟨0, []⟩]

/-- The ledger right after genesis, with these raw transactions in the mempool. -/
def mempoolWorld (markers : Finset AccountMarker) : World Mempool :=
  .start standaloneWorld.ltx (markers, ∅)

/-- Sets hashed by their size. -/
def standaloneXdr : Xdr := xdrOf (fun _ => 0) fun _ txs => Fin.ofNat _ txs.length

/-- One minute after genesis, with an empty set and a set of one transaction. -/
def mempoolDriver : HerderSCPDriver withMempool standaloneXdr where
  isSynced := true
  lclHash := 0
  lcl := standaloneWorld.ltx.header
  lclCloseTime := standaloneWorld.ltx.closeTime
  timeNow := 60
  mTrackingSCP := none
  mPendingEnvelopes :=
    { getTxSet := fun hash =>
        if hash = 0 then some ⟨0, []⟩ else if hash = 1 then some ⟨0, [markAccount]⟩ else none
      contentsHash := by
        intro hash txSet h
        split_ifs at h with h0 h1
        · cases h
          simp only [TxSetFrame.getContentsHash, TxSetFrame.sortForHash, List.mergeSort_nil, h0]
          rfl
        · cases h
          simp only [TxSetFrame.getContentsHash, TxSetFrame.sortForHash, List.mergeSort_singleton, h1]
          rfl }
  mParams := ⟨0, none, none, none, none⟩
  LEDGER_PROTOCOL_VERSION := 10

/-- The value with the empty set and two upgrades, and the one with the transaction and one upgrade. -/
def emptyValue : StellarValue :=
  ⟨0, 70, [putLedgerUpgrade (.LEDGER_UPGRADE_BASE_FEE 200), putLedgerUpgrade (.LEDGER_UPGRADE_BASE_RESERVE 9)]⟩

def markValue : StellarValue := ⟨1, 65, [putLedgerUpgrade (.LEDGER_UPGRADE_BASE_FEE 300)]⟩

/-- The marker comes to the mempool when the value is validated; later another one does, and a third that
spends the coin of the first is refused. -/
theorem fullyValidated_markValue :
    FullyValidated mempoolDriver 2 (mempoolWorld {[2], [1]}) (putStellarValue markValue) := by
  have hcheck : TxSetFrame.checkValid withMempool mempoolDriver.lclHash mempoolDriver.lcl
      ⟨0, [markAccount]⟩ (mempoolWorld ∅) = .ok true _ := eq_ok_of_result? (by decide +kernel)
  have hmarked : (after (TxSetFrame.checkValid withMempool mempoolDriver.lclHash mempoolDriver.lcl
      ⟨0, [markAccount]⟩ (mempoolWorld ∅))).ext = ({[1]}, ∅) := by decide +kernel
  refine ⟨false, mempoolWorld ∅, _, validateValue_fully.mpr ⟨markValue, by decide +kernel,
    validateValueHelper_fully.mpr ⟨by decide +kernel, by decide +kernel, ⟨0, [markAccount]⟩, rfl, hcheck⟩,
    by decide +kernel⟩, ⟨rfl, rfl⟩, ?_⟩
  rw [hmarked]
  have hother : withMempool.SendRawTransactionZagg [2] ({[1]}, ∅) = .ok true ({[2], [1]}, ∅) := by
    simp [withMempool, Mempool.send]
  have hrefused : withMempool.SendRawTransactionZagg [1, 5] ({[2], [1]}, ∅) = .ok false ({[2], [1]}, ∅) := by
    simp [withMempool, Mempool.send]
  exact .step (.step (.refl _) hother) hrefused

theorem fullyValidated_emptyValue :
    FullyValidated mempoolDriver 2 (mempoolWorld {[2], [1]}) (putStellarValue emptyValue) := by
  have hcheck : TxSetFrame.checkValid withMempool mempoolDriver.lclHash mempoolDriver.lcl ⟨0, []⟩
      (mempoolWorld {[2], [1]}) = .ok true _ := eq_ok_of_result? (by decide +kernel)
  have hsame : (after (TxSetFrame.checkValid withMempool mempoolDriver.lclHash mempoolDriver.lcl ⟨0, []⟩
      (mempoolWorld {[2], [1]}))).ext = ({[2], [1]}, ∅) := by decide +kernel
  refine ⟨false, mempoolWorld {[2], [1]}, _, validateValue_fully.mpr ⟨emptyValue, by decide +kernel,
    validateValueHelper_fully.mpr ⟨by decide +kernel, by decide +kernel, ⟨0, []⟩, rfl, hcheck⟩,
    by decide +kernel⟩, ⟨rfl, rfl⟩, ?_⟩
  rw [hsame]
  exact .refl _

/-- The composite has the set with the mark. -/
theorem combineCandidates_valid_mempool :
    ∃ comp w₁, mempoolDriver.combineCandidates {putStellarValue emptyValue, putStellarValue markValue}
        (mempoolWorld {[2], [1]}) = .ok (putStellarValue comp, none) w₁ ∧
      standaloneXdr.value.xdr_from_opaque (putStellarValue comp) = some comp ∧
      IsComposite mempoolDriver {putStellarValue emptyValue, putStellarValue markValue} comp ∧
      ∀ w₂, TxSetFrame.SameLedger w₁ w₂ → Sent withMempool w₁.ext w₂.ext →
        ∃ w₃, mempoolDriver.validateValue 2 (putStellarValue comp) false w₂ =
          .ok .kFullyValidatedValue w₃ :=
  combineCandidates_valid remembers_withMempool (Finset.insert_nonempty _ _) (by
    intro c hc
    rcases Finset.mem_insert.mp hc with rfl | hc
    · exact fullyValidated_emptyValue
    · rw [Finset.mem_singleton.mp hc]
      exact fullyValidated_markValue)

end ZaggCore.Herder.HerderSCPDriver
