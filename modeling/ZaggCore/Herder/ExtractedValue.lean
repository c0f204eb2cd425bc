import ZaggCore.Herder.CombinedCandidate

/-! # Extracted values

`extractValidValue` keeps the upgrade steps that the node would nominate, in the order in which the value
has them. `validateValue` also asks for one step of each type, in the order of the types, so that it
rejects what is extracted from a list that is out of order. -/

namespace ZaggCore.Herder.HerderSCPDriver
set_option autoImplicit false
set_option maxHeartbeats 250000

open Foundations Numeric Transactions

variable {X Q : Type} {app : Application X Q} {xdr : Xdr} (driver : HerderSCPDriver app xdr)

/-! ## `extractValidValue` -/

/-- "remove the upgrade steps we don't like" -/
def removeUpgrades (upgrades : List UpgradeType) : List UpgradeType :=
  upgrades.filter fun upgrade => (driver.isValid upgrade true).isSome

/-- No value is the empty one. -/
def extractValidValue [LinearOrder Q] (slotIndex : ℕ) (value : Value) : AppM X Value := do
  match xdr.value.xdr_from_opaque value with
  | none => return []
  | some b =>
    let res ← driver.validateValueHelper slotIndex b
    return if res = .kFullyValidatedValue then
      xdr.value.xdr_to_opaque { b with upgrades := driver.removeUpgrades b.upgrades }
    else []

/-! ## The upgrade steps -/

/-- The types of the steps that are kept. -/
def keptTypes (upgrades : List UpgradeType) : List LedgerUpgradeType :=
  upgrades.filterMap fun upgrade => driver.isValid upgrade true

theorem removeUpgrades_idempotent (upgrades : List UpgradeType) :
    driver.removeUpgrades (driver.removeUpgrades upgrades) = driver.removeUpgrades upgrades := by
  unfold removeUpgrades
  rw [List.filter_filter]
  simp only [Bool.and_self]

theorem keptTypes_removeUpgrades (upgrades : List UpgradeType) :
    driver.keptTypes (driver.removeUpgrades upgrades) = driver.keptTypes upgrades := by
  unfold keptTypes removeUpgrades
  rw [List.filterMap_filter]
  congr 1
  funext upgrade
  cases driver.isValid upgrade true <;> rfl

/-- Steps that are each valid pass exactly if their types ascend. -/
theorem checkUpgrades_iff {upgrades : List UpgradeType} (last : Option LedgerUpgradeType)
    (hvalid : ∀ upgrade ∈ upgrades, (driver.isValid upgrade true).isSome) :
    driver.checkUpgrades true last upgrades = true ↔
      (last.toList ++ driver.keptTypes upgrades).Pairwise (· < ·) := by
  induction upgrades generalizing last with
  | nil => cases last <;> simp [checkUpgrades, keptTypes]
  | cons upgrade upgrades ih =>
    obtain ⟨hfirst, hrest⟩ := List.forall_mem_cons.mp hvalid
    obtain ⟨this, hthis⟩ := Option.isSome_iff_exists.mp hfirst
    have hkept : driver.keptTypes (upgrade :: upgrades) = this :: driver.keptTypes upgrades :=
      List.filterMap_cons_some hthis
    have ih := ih (some this) hrest
    rw [checkUpgrades, hthis, hkept]
    dsimp only
    cases last with
    | none =>
      rw [Option.any_none, if_neg Bool.false_ne_true]
      exact ih
    | some last =>
      rw [Option.any_some, Option.toList_some, List.singleton_append, ← List.isChain_iff_pairwise,
        List.isChain_cons_cons, List.isChain_iff_pairwise]
      by_cases hle : this ≤ last
      · simp [hle, not_lt.mpr hle]
      · rw [decide_eq_false hle, if_neg Bool.false_ne_true]
        exact ih.trans (iff_and_self.mpr fun _ => not_le.mp hle)

theorem fits_removeUpgrades {b : StellarValue} (h : b.Fits) :
    StellarValue.Fits { b with upgrades := driver.removeUpgrades b.upgrades } :=
  ⟨h.1, (List.length_filter_le ..).trans h.2.1, fun upgrade hupgrade =>
    h.2.2 upgrade (List.mem_filter.mp hupgrade).1⟩

/-! ## What is extracted -/

section Extract

variable [LinearOrder Q] {driver}

theorem extractValidValue_fully {slotIndex : ℕ} {value : Value} {b : StellarValue} {w w' : World X}
    (hread : xdr.value.xdr_from_opaque value = some b)
    (hhelper : driver.validateValueHelper slotIndex b w = .ok .kFullyValidatedValue w') :
    driver.extractValidValue slotIndex value w =
      .ok ( xdr.value.xdr_to_opaque { b with upgrades := driver.removeUpgrades b.upgrades }) w' := by
  unfold extractValidValue
  rw [hread]
  exact bind_ok.mpr ⟨_, w', hhelper, by rw [if_pos rfl]; rfl⟩

/-- What is not empty was extracted from a value that passes the checks shared with `validateValue`. -/
theorem extractValidValue_ok {slotIndex : ℕ} {value res : Value} {w w' : World X}
    (hrun : driver.extractValidValue slotIndex value w = .ok res w') :
    res = [] ∨ ∃ b, xdr.value.xdr_from_opaque value = some b ∧
      driver.validateValueHelper slotIndex b w = .ok .kFullyValidatedValue w' ∧
      res = xdr.value.xdr_to_opaque { b with upgrades := driver.removeUpgrades b.upgrades } := by
  unfold extractValidValue at hrun
  cases hread : xdr.value.xdr_from_opaque value with
  | none =>
    rw [hread] at hrun
    exact .inl (pure_ok.mp hrun).1.symm
  | some b =>
    rw [hread] at hrun
    obtain ⟨level, w₁, hhelper, hpure⟩ := bind_ok.mp hrun
    obtain ⟨hres, rfl⟩ := pure_ok.mp hpure
    by_cases hlevel : level = .kFullyValidatedValue
    · rw [if_pos hlevel] at hres
      exact .inr ⟨b, rfl, hlevel ▸ hhelper, hres.symm⟩
    · rw [if_neg hlevel] at hres
      exact .inl hres.symm

/-- The shared checks leave the ledger as it is. -/
theorem sameLedger_of_helper {slotIndex : ℕ} {b : StellarValue} {w w₁ : World X}
    (hhelper : driver.validateValueHelper slotIndex b w = .ok .kFullyValidatedValue w₁) :
    TxSetFrame.SameLedger w w₁ := by
  obtain ⟨-, -, txSet, -, hcheck⟩ := validateValueHelper_fully.mp hhelper
  obtain ⟨-, -, hrun⟩ := TxSetFrame.checkValid_true.mp hcheck
  obtain ⟨w₃, -, rfl⟩ := rolledBack_ok.mp hrun
  exact ⟨rfl, rfl⟩

/-- The shared checks pass again on the same ledger. -/
theorem validateValueHelper_again (node : Remembers app) {slotIndex : ℕ} {b : StellarValue}
    {w w₁ w₂ : World X}
    (hhelper : driver.validateValueHelper slotIndex b w = .ok .kFullyValidatedValue w₁)
    (hledger : TxSetFrame.SameLedger w w₂) (hsent : Sent app w₁.ext w₂.ext) :
    ∃ w₃, driver.validateValueHelper slotIndex b w₂ = .ok .kFullyValidatedValue w₃ := by
  obtain ⟨hslot, hclose, txSet, hget, hcheck⟩ := validateValueHelper_fully.mp hhelper
  obtain ⟨w₃, -, -, hagain, -⟩ := TxSetFrame.checkValid_again node hcheck hledger hsent
  exact ⟨w₃, validateValueHelper_fully.mpr ⟨hslot, hclose, txSet, hget, hagain⟩⟩

/-- The value is fully validated, and nothing is removed from it, whenever the node sees it again on
this ledger. -/
def Accepted (driver : HerderSCPDriver app xdr) (slotIndex : ℕ) (w : World X) (res : Value) : Prop :=
  ∀ w₁, TxSetFrame.SameLedger w w₁ → Sent app w.ext w₁.ext →
    (∃ w₂, driver.validateValue slotIndex res true w₁ = .ok .kFullyValidatedValue w₂) ∧
      ∃ w₂, driver.extractValidValue slotIndex res w₁ = .ok res w₂

/-- What is extracted is empty or accepted exactly if the types of the steps that are kept ascend. -/
theorem extractValidValue_iff (node : Remembers app) (hempty : xdr.value.xdr_from_opaque [] = none)
    {slotIndex : ℕ} {value res : Value} {w w₁ : World X}
    (hrun : driver.extractValidValue slotIndex value w = .ok res w₁) :
    (res = [] ∨ Accepted driver slotIndex w₁ res) ↔
      ∀ b w', xdr.value.xdr_from_opaque value = some b →
        driver.validateValueHelper slotIndex b w = .ok .kFullyValidatedValue w' →
        (driver.keptTypes b.upgrades).Pairwise (· < ·) := by
  obtain rfl | ⟨b, hread, hhelper, rfl⟩ := extractValidValue_ok hrun
  · refine iff_of_true (.inl rfl) fun b w' hread hhelper => ?_
    -- an extracted value has an encoding, so that it is not empty
    have hextract := extractValidValue_fully hread hhelper
    rw [hrun] at hextract
    have hnil := (EStateM.Result.ok.inj hextract).1
    have hread' := xdr.value.from_to _ (driver.fits_removeUpgrades (xdr.value.fits value b hread))
    rw [← hnil, hempty] at hread'
    exact nomatch hread'
  · have hfits := driver.fits_removeUpgrades (xdr.value.fits value b hread)
    have hread' := xdr.value.from_to _ hfits
    have hvalid : ∀ upgrade ∈ driver.removeUpgrades b.upgrades,
        (driver.isValid upgrade true).isSome := fun upgrade h => (List.mem_filter.mp h).2
    have hchecks := driver.checkUpgrades_iff none hvalid
    rw [Option.toList_none, List.nil_append, keptTypes_removeUpgrades] at hchecks
    constructor
    · rintro (hnil | haccepted) b' w' hread₂ -
      · rw [hnil, hempty] at hread'
        exact nomatch hread'
      · obtain rfl := Option.some.inj (hread.symm.trans hread₂)
        obtain ⟨⟨w₂, hvalidate⟩, -⟩ := haccepted w₁ ⟨rfl, rfl⟩ (.refl _)
        obtain ⟨sv, hsv, -, hupgrades⟩ := validateValue_fully.mp hvalidate
        obtain rfl := Option.some.inj (hread'.symm.trans hsv)
        exact hchecks.mp hupgrades
    · intro h
      refine .inr fun w₂ hledger hsent => ?_
      obtain ⟨w₃, hagain⟩ := validateValueHelper_again node hhelper
        ((sameLedger_of_helper hhelper).trans hledger) hsent
      refine ⟨⟨w₃, validateValue_fully.mpr ⟨_, hread', hagain, hchecks.mpr (h b w₁ hread hhelper)⟩⟩,
        w₃, ?_⟩
      have hextract := extractValidValue_fully hread' hagain
      rwa [removeUpgrades_idempotent] at hextract

end Extract

/-! ## A list out of order -/

/-- The node of `mempoolDriver`, which would also raise the base fee to 200 and the reserve to 9. -/
def upgradingDriver : HerderSCPDriver withMempool standaloneXdr :=
  { mempoolDriver with mParams := ⟨0, none, some 200, none, some 9⟩ }

/-- The empty set and two steps that the node would nominate, the higher type first. -/
def unorderedValue : StellarValue :=
  ⟨0, 70, [putLedgerUpgrade (.LEDGER_UPGRADE_BASE_RESERVE 9), putLedgerUpgrade (.LEDGER_UPGRADE_BASE_FEE 200)]⟩

/-- The set with a mark and the two steps in order, behind one that the node would not nominate. -/
def orderedValue : StellarValue :=
  ⟨1, 70, [putLedgerUpgrade (.LEDGER_UPGRADE_VERSION 9), putLedgerUpgrade (.LEDGER_UPGRADE_BASE_FEE 200),
    putLedgerUpgrade (.LEDGER_UPGRADE_BASE_RESERVE 9)]⟩

/-- What is extracted leaves its marker in the mempool, and is accepted with it there. -/
theorem extractValidValue_iff_orderedValue :
    ∃ res w₁, upgradingDriver.extractValidValue 2 (putStellarValue orderedValue) (mempoolWorld ∅) =
        .ok res w₁ ∧ res ≠ [] ∧ w₁.ext = ({[1]}, ∅) ∧
      ((res = [] ∨ Accepted upgradingDriver 2 w₁ res) ↔
        ∀ b w', standaloneXdr.value.xdr_from_opaque (putStellarValue orderedValue) = some b →
          upgradingDriver.validateValueHelper 2 b (mempoolWorld ∅) = .ok .kFullyValidatedValue w' →
          (upgradingDriver.keptTypes b.upgrades).Pairwise (· < ·)) := by
  have hread : standaloneXdr.value.xdr_from_opaque (putStellarValue orderedValue) = some orderedValue := by
    decide +kernel
  have hhelper := eq_ok_of_result? (a := .kFullyValidatedValue)
    (r := upgradingDriver.validateValueHelper 2 orderedValue (mempoolWorld ∅)) (by decide +kernel)
  have hrun := extractValidValue_fully hread hhelper
  exact ⟨_, _, hrun, by decide +kernel, by decide +kernel,
    extractValidValue_iff remembers_withMempool (by decide +kernel) hrun⟩

/-- The value is extracted as it is, and is not valid. -/
theorem extractValidValue_unordered :
    ∃ w₁, upgradingDriver.extractValidValue 2 (putStellarValue unorderedValue) (mempoolWorld ∅) =
        .ok (putStellarValue unorderedValue) w₁ ∧ putStellarValue unorderedValue ≠ [] ∧
      ¬ Accepted upgradingDriver 2 w₁ (putStellarValue unorderedValue) := by
  have hhelper := eq_ok_of_result? (a := .kFullyValidatedValue)
    (r := upgradingDriver.validateValueHelper 2 unorderedValue (mempoolWorld ∅)) (by decide +kernel)
  have hread : standaloneXdr.value.xdr_from_opaque (putStellarValue unorderedValue) =
      some unorderedValue := by decide +kernel
  have hkept : upgradingDriver.removeUpgrades unorderedValue.upgrades = unorderedValue.upgrades := by
    decide +kernel
  have hrun := extractValidValue_fully hread hhelper
  rw [hkept] at hrun
  refine ⟨_, hrun, by decide +kernel, fun haccepted => ?_⟩
  obtain ⟨⟨w₂, hvalidate⟩, -⟩ := haccepted _ ⟨rfl, rfl⟩ (.refl _)
  obtain ⟨sv, hsv, -, hupgrades⟩ := validateValue_fully.mp hvalidate
  obtain rfl := Option.some.inj (hread.symm.trans hsv)
  have hrejected : upgradingDriver.checkUpgrades true none unorderedValue.upgrades = false := by
    decide +kernel
  exact nomatch hrejected.symm.trans hupgrades

end ZaggCore.Herder.HerderSCPDriver
