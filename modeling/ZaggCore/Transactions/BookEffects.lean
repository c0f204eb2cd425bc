import Mathlib
import ZaggCore.Transactions.OfferOperations
import ZaggCore.Transactions.OperationEffects
import ZaggCore.Transactions.PaymentFailures

/-! # What operations on the order book move

Payments and offers: what crossing the book brings in and takes out is what the operation takes from its
source and gives to it or to the destination. From version 8 on. -/

namespace ZaggCore.Transactions
set_option autoImplicit false
set_option maxHeartbeats 250000

open Foundations Numeric AbstractLedgerTxn

variable {X Q : Type} {w w' : World X}

/-! ## Payments along a path -/

namespace PathPaymentOpFrame

theorem reads_checkIssuer (bypass : Bool) (asset : Asset) :
    Reads (checkIssuer bypass asset : AppM X (Option PathPaymentResultCode)) := by
  refine .ite (fun _ => .pure _) fun _ => (Keeps.lift _).bind fun issuer => ?_
  exact (reads_loadAccountWithoutRecord _).bind fun res => .ite (fun _ => .pure _) fun _ => .pure _

/-- A step that stops a payment does not stop it with success. -/
abbrev Stops {α : Type} (x : AppM X (Step α)) : Prop :=
  Partial (fun _ => True) x fun res _ => res ≠ .inl .PATH_PAYMENT_SUCCESS

abbrev StopsBefore (x : AppM X (Option PathPaymentResultCode)) : Prop :=
  Partial (fun _ => True) x fun res _ => res ≠ some .PATH_PAYMENT_SUCCESS

theorem stopsBefore_checkIssuer (bypass : Bool) (asset : Asset) :
    StopsBefore (checkIssuer bypass asset : AppM X (Option PathPaymentResultCode)) := by
  refine .ite (fun _ => .pure fun _ _ => by simp) fun _ => .bind .any fun issuer => ?_
  exact .bind .any fun res => .ite (fun _ => .pure fun _ _ => by simp) fun _ => .pure fun _ _ => by simp

theorem stopsBefore_creditDestination (op : PathPaymentOp) (bypass : Bool) :
    StopsBefore (creditDestination op bypass : AppM X (Option PathPaymentResultCode)) := by
  refine .bind .any fun found => .ite (fun _ => .pure fun _ _ => by simp) fun _ => ?_
  refine .bind .any fun header => .ite (fun _ => ?_) fun _ => ?_
  · refine .bind .any fun destination => .bind .any fun account => .bind .any fun res => ?_
    exact .ite (fun _ => .pure fun _ _ => by simp) fun _ => .pure fun _ _ => by simp
  · refine .bind (stopsBefore_checkIssuer _ _) fun res => ?_
    cases res with
    | some code => exact .pure fun _ h => h
    | none =>
      refine .bind .any fun line => ?_
      cases line with
      | none => exact .pure fun _ _ => by simp
      | some line =>
        refine .ite (fun _ => .pure fun _ _ => by simp) fun _ => .bind .any fun res => ?_
        exact .ite (fun _ => .pure fun _ _ => by simp) fun _ => .pure fun _ _ => by simp

theorem stops_convert [LinearOrder Q] (app : Application X Q) (sourceID : AccountID) (curA curB : Asset)
    (curBReceived : ℤ) : Stops (convert app sourceID curA curB curBReceived) := by
  refine .bind (stopsBefore_checkIssuer _ _) fun noIssuer => ?_
  cases noIssuer with
  | some code => exact .pure fun _ h heq => h (congrArg some (Sum.inl.inj heq))
  | none =>
    refine .bind .any fun converted => .bind .any fun _ => ?_
    cases converted.1 with
    | eFilterStop => exact .pure fun _ _ => by simp
    | ePartial => exact .pure fun _ _ => by simp
    | eOK => exact .ite (fun _ => .pure fun _ _ => by simp) fun _ => .pure fun _ _ => by simp

theorem stops_walk [LinearOrder Q] (app : Application X Q) (sourceID : AccountID) (path : List Asset)
    (curB : Asset) (curBReceived : ℤ) : Stops (walk app sourceID path curB curBReceived) := by
  induction path generalizing curB curBReceived with
  | nil => exact .pure fun _ _ => by simp
  | cons curA path ih =>
    refine .ite (fun _ => ih _ _) fun _ => .bind (stops_convert app _ _ _ _) fun res => ?_
    cases res with
    | inl code => exact .pure fun _ h heq => h (congrArg Sum.inl (Sum.inl.inj heq))
    | inr curASent => exact (ih _ _).pre fun _ _ => trivial

/-- The amount added to a line that is held. -/
theorem addToLine_moves {header : LedgerHeader} {delta : ℤ} {a : AccountID} {asset : Asset}
    (hasset : asset ≠ .native) {line : TrustLineWrapper} {w₁ w₂ : World X} {res : Option TrustLineWrapper}
    (hload : loadTrustLine a asset w = .ok (some line) w₁)
    (hadd : line.addBalance header delta w₁ = .ok res w₂) : Moves (native asset delta) w.ltx w₂.ltx := by
  obtain ⟨hltx, hheld⟩ := loadTrustLine_ok hload
  rw [← hltx] at hheld ⊢
  obtain ⟨hm, -⟩ := TrustLineWrapper.addBalance_moves (hheld line rfl) hadd
  exact hm.cast (native_of_ne hasset delta).symm

theorem creditDestination_moves {op : PathPaymentOp} {bypass : Bool} (hv : 8 ≤ w.ltx.header.ledgerVersion)
    (h : creditDestination op bypass w = .ok none w') :
    Moves (native op.destAsset op.destAmount) w.ltx w'.ltx := by
  obtain ⟨exists?, w₁, h₁, h⟩ := bind_ok.mp h
  obtain ⟨-, rfl⟩ := loadAccountWithoutRecord_ok.mp h₁
  split at h
  case isTrue => cases (pure_ok.mp h).1
  case isFalse =>
    obtain ⟨header, w₁, h₁, h⟩ := bind_ok.mp h
    obtain ⟨rfl, rfl⟩ := loadHeader_ok.mp h₁
    split at h
    case isTrue hasset =>
      obtain ⟨res, w₁, h₁, h⟩ := bind_ok.mp h
      obtain ⟨hacc, rfl⟩ := loadAccount_ok.mp h₁
      obtain ⟨acc, w₂, h₂, h⟩ := bind_ok.mp h
      obtain ⟨rfl, rfl⟩ := current_ok.mp h₂
      obtain ⟨res, w₃, h₃, h⟩ := bind_ok.mp h
      have hltx := w.ltx_load (.account op.destination)
      rw [← hltx] at hv hacc ⊢
      obtain ⟨rfl, -⟩ | ⟨acc', rfl, -, -, -, hm⟩ :=
        addBalance_moves assigns_storeAccount hv (held_of_account hacc) h₃
      · cases (pure_ok.mp h).1
      · obtain ⟨-, rfl⟩ := pure_ok.mp h
        exact hm.cast (by rw [hasset]; rfl)
    case isFalse hasset =>
      obtain ⟨code, w₁, h₁, h⟩ := bind_ok.mp h
      have hltx := (reads_checkIssuer _ _).ltx hv h₁
      cases code with
      | some code => cases (pure_ok.mp h).1
      | none =>
        obtain ⟨line, w₂, h₂, h⟩ := bind_ok.mp h
        cases line with
        | none => cases (pure_ok.mp h).1
        | some line =>
          dsimp only at h
          split at h
          case isTrue => cases (pure_ok.mp h).1
          case isFalse =>
            obtain ⟨res, w₃, h₃, h⟩ := bind_ok.mp h
            split at h
            case isTrue => cases (pure_ok.mp h).1
            case isFalse =>
              obtain ⟨-, rfl⟩ := pure_ok.mp h
              rw [← hltx]
              exact addToLine_moves hasset h₂ h₃

section

variable [LinearOrder Q] (app : Application X Q)

theorem convert_moves {sourceID : AccountID} {curA curB : Asset} {curBReceived curASent : ℤ}
    (hv : 8 ≤ w.ltx.header.ledgerVersion)
    (h : convert app sourceID curA curB curBReceived w = .ok (.inr curASent) w') :
    Moves (native curA curASent + (native curB (-curBReceived))) w.ltx w'.ltx := by
  obtain ⟨code, w₁, h₁, h⟩ := bind_ok.mp h
  have hltx := (reads_checkIssuer _ _).ltx hv h₁
  rw [← hltx] at hv ⊢
  cases code with
  | some code => cases (pure_ok.mp h).1
  | none =>
    obtain ⟨⟨r, sent, received⟩, w₂, h₂, h⟩ := bind_ok.mp h
    have hexchanged := convertWithOffers_exchanged app hv h₂
    obtain ⟨_, w₃, h₃, h⟩ := bind_ok.mp h
    obtain ⟨-, rfl⟩ := lift_ok.mp h₃
    cases r with
    | eFilterStop => cases (pure_ok.mp h).1
    | ePartial => cases (pure_ok.mp h).1
    | eOK =>
      dsimp only at h
      split at h
      case isTrue hall =>
        obtain ⟨heq, rfl⟩ := pure_ok.mp h
        obtain rfl := Sum.inr.inj heq
        rw [hall]
        exact hexchanged.moves
      case isFalse => cases (pure_ok.mp h).1

/-- Along the path what is bought with an asset is what is sold of it one step before. -/
theorem walk_moves {sourceID : AccountID} (path : List Asset) {curB curB' : Asset} {curBReceived sent : ℤ}
    (hv : 8 ≤ w.ltx.header.ledgerVersion)
    (h : walk app sourceID path curB curBReceived w = .ok (.inr (curB', sent)) w') :
    Moves (native curB' sent + (native curB (-curBReceived))) w.ltx w'.ltx := by
  induction path generalizing curB curBReceived w with
  | nil =>
    obtain ⟨heq, rfl⟩ := pure_ok.mp h
    cases heq
    refine (Moves.refl _).cast ?_
    rw [native_neg, add_neg_cancel]
  | cons curA path ih =>
    unfold walk at h
    split at h
    case isTrue => exact ih hv h
    case isFalse =>
      obtain ⟨res, w₁, h₁, h⟩ := bind_ok.mp h
      cases res with
      | inl code => cases (pure_ok.mp h).1
      | inr curASent =>
        have hm₁ := convert_moves app hv h₁
        have hm₂ := ih (by rwa [hm₁.version]) h
        refine (hm₁.trans hm₂).cast ?_
        rw [native_neg curA]
        abel

omit [LinearOrder Q] in
theorem debitSource_moves {sourceID : AccountID} {bypass doesSourceAccountExist : Bool} {curB : Asset}
    {curBSent : ℤ} (hv : 8 ≤ w.ltx.header.ledgerVersion)
    (h : debitSource sourceID bypass doesSourceAccountExist curB curBSent w = .ok .PATH_PAYMENT_SUCCESS w') :
    Moves (native curB (-curBSent)) w.ltx w'.ltx := by
  obtain ⟨header, w₁, h₁, h⟩ := bind_ok.mp h
  obtain ⟨rfl, rfl⟩ := loadHeader_ok.mp h₁
  split at h
  case isTrue hasset =>
    obtain ⟨res, w₁, h₁, h⟩ := bind_ok.mp h
    unfold loadPayer at h₁
    rw [if_pos (by omega)] at h₁
    obtain ⟨hacc, rfl⟩ := loadAccount_ok.mp h₁
    cases res with
    | none => cases (pure_ok.mp h).1
    | some acc =>
      dsimp only at h
      split at h
      case isTrue => cases (pure_ok.mp h).1
      case isFalse =>
        obtain ⟨_, w₂, h₂, h⟩ := bind_ok.mp h
        obtain ⟨-, rfl⟩ := lift_ok.mp h₂
        obtain ⟨ok, w₂, h₂, h⟩ := bind_ok.mp h
        rw [if_pos (by omega)] at h₂
        obtain ⟨_, w₃, h₃, h⟩ := bind_ok.mp h
        obtain ⟨hok, rfl⟩ := lift_ok.mp h₃
        obtain ⟨-, rfl⟩ := pure_ok.mp h
        have hltx := w.ltx_load (.account sourceID)
        rw [← hltx] at hv hacc ⊢
        obtain ⟨hnone, -⟩ | ⟨acc', -, -, -, -, hm⟩ :=
          addBalance_moves assigns_storeAccount hv (held_of_account hacc) h₂
        · rw [hnone] at hok
          cases assert_ok.mp hok
        · exact hm.cast (by rw [hasset]; rfl)
  case isFalse hasset =>
    obtain ⟨code, w₁, h₁, h⟩ := bind_ok.mp h
    have hltx := (reads_checkIssuer _ _).ltx hv h₁
    cases code with
    | some code =>
      rw [(pure_ok.mp h).1] at h₁
      exact absurd rfl ((stopsBefore_checkIssuer _ _).ok trivial h₁)
    | none =>
      obtain ⟨line, w₂, h₂, h⟩ := bind_ok.mp h
      cases line with
      | none => cases (pure_ok.mp h).1
      | some line =>
        dsimp only at h
        split at h
        case isTrue => cases (pure_ok.mp h).1
        case isFalse =>
          obtain ⟨res, w₃, h₃, h⟩ := bind_ok.mp h
          split at h
          case isTrue => cases (pure_ok.mp h).1
          case isFalse =>
            obtain ⟨-, rfl⟩ := pure_ok.mp h
            rw [← hltx]
            exact addToLine_moves hasset h₂ h₃

theorem doApply_moves {sourceID : AccountID} {op : PathPaymentOp} (hv : 8 ≤ w.ltx.header.ledgerVersion)
    (h : doApply app sourceID op w = .ok .PATH_PAYMENT_SUCCESS w') : Moves 0 w.ltx w'.ltx := by
  obtain ⟨header, w₁, h₁, h⟩ := bind_ok.mp h
  obtain ⟨rfl, rfl⟩ := loadHeader_ok.mp h₁
  obtain ⟨_, w₁, h₁, h⟩ := bind_ok.mp h
  obtain ⟨-, rfl⟩ := loadAccountWithoutRecord_ok.mp h₁
  obtain ⟨credited, w₁, h₁, h⟩ := bind_ok.mp h
  cases credited with
  | some code =>
    rw [(pure_ok.mp h).1] at h₁
    exact absurd rfl ((stopsBefore_creditDestination _ _).ok trivial h₁)
  | none =>
    have hm₁ := creditDestination_moves hv h₁
    rw [← hm₁.version] at hv
    obtain ⟨res, w₂, h₂, h⟩ := bind_ok.mp h
    cases res with
    | inl code =>
      rw [(pure_ok.mp h).1] at h₂
      exact absurd rfl ((stops_walk app _ _ _ _).ok trivial h₂)
    | inr last =>
      obtain ⟨curB, curBSent⟩ := last
      have hm₂ := walk_moves app _ hv h₂
      rw [← hm₂.version] at hv
      dsimp only at h
      split at h
      case isTrue => cases (pure_ok.mp h).1
      case isFalse =>
        have hm₃ := debitSource_moves hv h
        refine ((hm₁.trans hm₂).trans hm₃).cast ?_
        rw [native_neg, native_neg]
        abel

end

end PathPaymentOpFrame

theorem PaymentOpFrame.doApply_moves [LinearOrder Q] (app : Application X Q) {sourceID destination : AccountID}
    {asset : Asset} {amount : ℤ} (hv : 8 ≤ w.ltx.header.ledgerVersion)
    (h : doApply app sourceID destination asset amount w = .ok .PAYMENT_SUCCESS w') : Moves 0 w.ltx w'.ltx := by
  obtain ⟨header, w₁, h₁, h⟩ := bind_ok.mp h
  obtain ⟨rfl, rfl⟩ := loadHeader_ok.mp h₁
  split at h
  case isTrue =>
    obtain ⟨-, rfl⟩ := pure_ok.mp h
    exact .refl _
  case isFalse =>
    dsimp only at h
    cases hcode : PathPaymentOpFrame.doCheckValid (pathPaymentOp destination asset amount) with
    | some code =>
      rw [hcode] at h
      obtain ⟨-, rfl⟩ := lift_ok.mp h
      exact .refl _
    | none =>
      rw [hcode] at h
      obtain ⟨code, w₁, h₁, h⟩ := bind_ok.mp h
      obtain ⟨hres, rfl⟩ := lift_ok.mp h
      rw [(fromPathPayment_success hres).mp rfl] at h₁
      exact PathPaymentOpFrame.doApply_moves app hv h₁

/-! ## Offers -/

namespace ManageOfferOpFrame

theorem reads_loadTrustLineWithoutRecordIfNotNative (a : AccountID) (asset : Asset) :
    Reads (loadTrustLineWithoutRecordIfNotNative a asset : AppM X _) := by
  refine .ite (fun _ => .pure _) fun _ => ?_
  refine (Keeps.lift _).bind fun _ => (Keeps.lift _).bind fun issuer => ?_
  exact .ite (fun _ => .pure _) fun _ => .bind (fun _ _ => rfl) fun entry => .pure _

theorem reads_remainingAmount (header : LedgerHeader) (sourceID : AccountID) (newOffer : OfferEntry)
    (sheepStays : Bool) : Reads (remainingAmount header sourceID newOffer sheepStays : AppM X ℤ) := by
  refine .ite (fun _ => .pure _) fun _ => .ite (fun _ => .pure _) fun _ => ?_
  refine (reads_loadAccountWithoutRecord _).bind fun account => ?_
  refine (reads_loadTrustLineWithoutRecordIfNotNative _ _).bind fun sheepLine => ?_
  refine (reads_loadTrustLineWithoutRecordIfNotNative _ _).bind fun wheatLine => ?_
  exact (reads_canSellAtMost _ _ _ _).bind fun send => (reads_canBuyAtMost _ _ _ _).bind fun receive => .lift _

/-- An old offer leaves without being counted off. -/
theorem takeOldOffer_moves {sourceID : AccountID} {op : ManageOfferOp} {mPassive mPassive' : Bool}
    {newOffer : OfferEntry} (hv : 8 ≤ w.ltx.header.ledgerVersion)
    (h : takeOldOffer sourceID op mPassive w = .ok (some (newOffer, mPassive')) w') :
    Moves (0, if op.offerID = 0 then 0 else -Pi.single sourceID 1) w.ltx w'.ltx ∧
      newOffer.sellerID = sourceID := by
  unfold takeOldOffer at h
  split at h
  case isTrue hnew =>
    obtain ⟨heq, rfl⟩ := pure_ok.mp h
    cases heq
    rw [if_pos hnew]
    exact ⟨.refl _, rfl⟩
  case isFalse hold =>
    rw [if_neg hold]
    obtain ⟨res, w₁, h₁, h⟩ := bind_ok.mp h
    obtain ⟨-, rfl⟩ := loadOffer_ok.mp h₁
    have hltx := w.ltx_load (.offer sourceID op.offerID)
    rw [← hltx] at hv ⊢
    cases res with
    | none => cases (pure_ok.mp h).1
    | some old =>
      obtain ⟨header, w₂, h₂, h⟩ := bind_ok.mp h
      obtain ⟨rfl, rfl⟩ := loadHeader_ok.mp h₂
      obtain ⟨_, w₂, h₂, h⟩ := bind_ok.mp h
      have hm₂ : Moves 0 (w.load (.offer sourceID op.offerID)).ltx w₂.ltx := by
        split at h₂
        · exact (acquireOrReleaseLiabilities_moves hv h₂).1
        · exact .of_eq (by rw [(pure_ok.mp h₂).2])
      obtain ⟨_, w₃, h₃, h⟩ := bind_ok.mp h
      have hm₃ := erase_moves (by simp) h₃
      obtain ⟨heq, rfl⟩ := pure_ok.mp h
      cases heq
      exact ⟨(hm₂.trans hm₃).cast (zero_add _), rfl⟩

theorem settle_moves {header : LedgerHeader} {sourceID : AccountID} {asset : Asset} {delta : ℤ} {what : String}
    (hv : 8 ≤ w.ltx.header.ledgerVersion) (h : settle header sourceID asset delta what w = .ok () w') :
    Moves (native asset delta) w.ltx w'.ltx := by
  unfold settle at h
  split at h
  case isTrue hasset =>
    obtain ⟨res, w₁, h₁, h⟩ := bind_ok.mp h
    obtain ⟨acc, w₂, h₂, h⟩ := bind_ok.mp h
    obtain ⟨hltx, hheld, -⟩ := loadSource_ok hv (bind_ok.mpr ⟨res, w₁, h₁, h₂⟩)
    rw [← hltx] at hv hheld ⊢
    obtain ⟨added, w₃, h₃, h⟩ := bind_ok.mp h
    obtain ⟨hsome, rfl⟩ := lift_ok.mp h
    obtain ⟨hnone, -⟩ | ⟨acc', -, -, -, -, hm⟩ := addBalance_moves assigns_storeCached hv hheld h₃
    · rw [hnone] at hsome
      exact absurd rfl (throwIf_ok.mp hsome)
    · exact hm.cast (by rw [hasset]; rfl)
  case isFalse hasset =>
    obtain ⟨res, w₁, h₁, h⟩ := bind_ok.mp h
    obtain ⟨line, w₂, h₂, h⟩ := bind_ok.mp h
    obtain ⟨hres, rfl⟩ := getImpl_ok.mp h₂
    rw [hres] at h₁
    obtain ⟨added, w₃, h₃, h⟩ := bind_ok.mp h
    obtain ⟨-, rfl⟩ := lift_ok.mp h
    exact PathPaymentOpFrame.addToLine_moves hasset h₁ h₃

/-- What the book gave the taker takes, and pays for. -/
theorem settleCrossing_moves {header : LedgerHeader} {sourceID : AccountID} {newOffer : OfferEntry}
    {sheepSent wheatReceived : ℤ} {ltx : AbstractLedgerTxn} (hv : 8 ≤ w.ltx.header.ledgerVersion)
    (hexchanged : Exchanged newOffer.selling newOffer.buying sheepSent wheatReceived ltx w.ltx)
    (h : settleCrossing header sourceID newOffer sheepSent wheatReceived w = .ok () w') :
    Moves 0 ltx w'.ltx := by
  unfold settleCrossing at h
  split at h
  case isTrue =>
    obtain ⟨_, w₁, h₁, h⟩ := bind_ok.mp h
    have hm₁ := settle_moves hv h₁
    have hm₂ := settle_moves (by rwa [hm₁.version]) h
    refine ((hexchanged.moves.trans hm₁).trans hm₂).cast ?_
    rw [native_neg, native_neg]
    abel
  case isFalse hpos =>
    obtain ⟨-, rfl⟩ := pure_ok.mp h
    have hwheat : wheatReceived = 0 := le_antisymm (not_lt.mp hpos) hexchanged.wheat_nonneg
    refine hexchanged.moves.cast ?_
    rw [hexchanged.both hwheat, hwheat, neg_zero, native_zero, native_zero, add_zero]

section

variable [LinearOrder Q] (app : Application X Q)

theorem crossBook_moves {sourceID : AccountID} {newOffer newOffer' : OfferEntry} {mPassive creatingNewOffer : Bool}
    (hv : 8 ≤ w.ltx.header.ledgerVersion)
    (h : crossBook app sourceID newOffer mPassive creatingNewOffer w = .ok (.inr newOffer') w') :
    Moves 0 w.ltx w'.ltx ∧ newOffer'.sellerID = newOffer.sellerID := by
  obtain ⟨parameters, w₁, h₁, h⟩ := bind_ok.mp h
  have hltx := (reads_rolledBack _).ltx hv h₁
  rw [← hltx] at hv ⊢
  cases parameters with
  | inl code => cases (pure_ok.mp h).1
  | inr limits =>
    obtain ⟨maxSheepSend, maxWheatReceive⟩ := limits
    dsimp only at h
    split at h
    case isTrue => cases (pure_ok.mp h).1
    case isFalse =>
      obtain ⟨⟨r, sheepSent, wheatReceived⟩, w₂, h₂, h⟩ := bind_ok.mp h
      have hexchanged := convertWithOffers_exchanged app hv h₂
      rw [← hexchanged.moves.version] at hv
      obtain ⟨_, w₃, h₃, h⟩ := bind_ok.mp h
      obtain ⟨-, rfl⟩ := lift_ok.mp h₃
      dsimp only at h
      split at h
      case isTrue => cases (pure_ok.mp h).1
      case isFalse =>
        obtain ⟨header, w₃, h₃, h⟩ := bind_ok.mp h
        obtain ⟨rfl, rfl⟩ := loadHeader_ok.mp h₃
        obtain ⟨_, w₃, h₃, h⟩ := bind_ok.mp h
        have hm := settleCrossing_moves hv hexchanged h₃
        obtain ⟨amount, w₄, h₄, h⟩ := bind_ok.mp h
        have hltx₄ := (reads_remainingAmount _ _ _ _).ltx (by rwa [hm.version, ← hexchanged.moves.version]) h₄
        obtain ⟨heq, rfl⟩ := pure_ok.mp h
        cases heq
        rw [hltx₄]
        exact ⟨hm, rfl⟩

omit [LinearOrder Q] in
theorem putOffer_moves {header : LedgerHeader} {offer : OfferEntry} (hv : 8 ≤ w.ltx.header.ledgerVersion)
    (h : leaveOffer.putOffer header offer w = .ok () w') :
    Moves (0, Pi.single offer.sellerID 1) w.ltx w'.ltx := by
  obtain ⟨_, w₁, h₁, h⟩ := bind_ok.mp h
  obtain ⟨hm₁, -⟩ := create_moves (by simp [LedgerEntryData.key]) h₁
  split at h
  · have hm₂ := (acquireOrReleaseLiabilities_moves (by rwa [hm₁.version]) h).1
    exact (hm₁.trans hm₂).cast (add_zero _)
  · obtain ⟨-, rfl⟩ := pure_ok.mp h
    exact hm₁

omit [LinearOrder Q] in
theorem generateID_moves {id : ℕ} (h : generateID w = .ok id w') : Moves 0 w.ltx w'.ltx := by
  obtain ⟨header, w₁, h₁, h⟩ := bind_ok.mp h
  obtain ⟨rfl, rfl⟩ := loadHeader_ok.mp h₁
  obtain ⟨_, w₂, h₂, h⟩ := bind_ok.mp h
  obtain ⟨-, rfl⟩ := pure_ok.mp h
  rw [← storeHeader_ok.mp h₂, World.ltx_setLtx]
  have hm : Moves _ w.ltx { w.ltx with
      header := { w.ltx.header with idPool := (w.ltx.header.idPool + 1) % 2 ^ 64 } } :=
    .header rfl rfl fun hfit => ⟨hfit.feePool, hfit.totalCoins⟩
  exact hm.cast (by simp)

omit [LinearOrder Q] in
theorem leaveOffer_moves {sourceID : AccountID} {newOffer : OfferEntry} {creatingNewOffer : Bool}
    (hseller : newOffer.sellerID = sourceID) (hv : 8 ≤ w.ltx.header.ledgerVersion)
    (h : leaveOffer sourceID newOffer creatingNewOffer w = .ok none w') :
    Moves (0, if creatingNewOffer then 0 else Pi.single sourceID 1) w.ltx w'.ltx := by
  obtain ⟨header, w₁, h₁, h⟩ := bind_ok.mp h
  obtain ⟨rfl, rfl⟩ := loadHeader_ok.mp h₁
  split at h
  case isTrue =>
    split at h
    case isTrue hnew =>
      obtain ⟨-, rfl⟩ := pure_ok.mp h
      rw [if_pos hnew]
      exact .refl _
    case isFalse hold =>
      obtain ⟨loaded, w₃, h₃, h⟩ := bind_ok.mp h
      obtain ⟨acc, w₄, h₄, h⟩ := bind_ok.mp h
      obtain ⟨counted, w₅, h₅, h⟩ := bind_ok.mp h
      obtain ⟨-, rfl⟩ := pure_ok.mp h
      rw [if_neg hold]
      obtain ⟨-, hcount, -⟩ | ⟨-, hm, -⟩ :=
        countSource_ok hv (.inr rfl) (bind_ok.mpr ⟨loaded, w₃, h₃, bind_ok.mpr ⟨acc, w₄, h₄, h₅⟩⟩)
      · omega
      · exact hm.cast (by rw [neg_neg])
  case isFalse =>
    split at h
    case isTrue hnew =>
      obtain ⟨loaded, w₃, h₃, h⟩ := bind_ok.mp h
      obtain ⟨acc, w₄, h₄, h⟩ := bind_ok.mp h
      obtain ⟨counted, w₅, h₅, h⟩ := bind_ok.mp h
      split at h
      case isTrue => cases (pure_ok.mp h).1
      case isFalse hres =>
        obtain ⟨rfl, -⟩ | ⟨-, hm₁, -⟩ :=
          countSource_ok hv (.inl rfl) (bind_ok.mpr ⟨loaded, w₃, h₃, bind_ok.mpr ⟨acc, w₄, h₄, h₅⟩⟩)
        · exact absurd rfl hres
        · obtain ⟨id, w₆, h₆, h⟩ := bind_ok.mp h
          have hm₂ := generateID_moves h₆
          obtain ⟨_, w₇, h₇, h⟩ := bind_ok.mp h
          obtain ⟨-, rfl⟩ := pure_ok.mp h
          have hm₃ := putOffer_moves (by rwa [hm₂.version, hm₁.version]) h₇
          rw [if_pos hnew]
          refine ((hm₁.trans hm₂).trans hm₃).cast ?_
          rw [add_zero, Prod.mk_add_mk, hseller, ← Pi.single_add]
          simp
    case isFalse hold =>
      obtain ⟨_, w₃, h₃, h⟩ := bind_ok.mp h
      obtain ⟨-, rfl⟩ := pure_ok.mp h
      have hm := putOffer_moves hv h₃
      rw [if_neg hold, ← hseller]
      exact hm

theorem doApply_moves {sourceID : AccountID} {op : ManageOfferOp} {mPassive : Bool} {code : ManageOfferResultCode}
    (hv : 8 ≤ w.ltx.header.ledgerVersion) (h : doApply app sourceID op mPassive w = .ok code w') :
    Moves 0 w.ltx w'.ltx := by
  obtain h | ⟨w₁, -, rfl⟩ := committedIf_ok.mp h
  · obtain ⟨checked, w₁, h₁, h⟩ := bind_ok.mp h
    have hltx := (reads_rolledBack _).ltx hv h₁
    rw [← hltx] at hv ⊢
    cases checked with
    | some code => cases (pure_ok.mp h).1
    | none =>
      obtain ⟨taken, w₂, h₂, h⟩ := bind_ok.mp h
      cases taken with
      | none => cases (pure_ok.mp h).1
      | some taken =>
        obtain ⟨newOffer, mPassive'⟩ := taken
        obtain ⟨hm₂, hseller⟩ := takeOldOffer_moves hv h₂
        rw [← hm₂.version] at hv
        obtain ⟨crossed, w₃, h₃, h⟩ := bind_ok.mp h
        cases crossed with
        | inl code => cases (pure_ok.mp h).1
        | inr newOffer' =>
          have hcrossed : Moves 0 w₂.ltx w₃.ltx ∧ newOffer'.sellerID = newOffer.sellerID := by
            split at h₃
            · exact crossBook_moves app hv h₃
            · obtain ⟨heq, rfl⟩ := pure_ok.mp h₃
              cases heq
              exact ⟨.refl _, rfl⟩
          obtain ⟨hm₃, hseller'⟩ := hcrossed
          rw [← hm₃.version] at hv
          obtain ⟨left, w₄, h₄, h⟩ := bind_ok.mp h
          cases left with
          | some code => cases (pure_ok.mp h).1
          | none =>
            obtain ⟨-, rfl⟩ := pure_ok.mp h
            have hm₄ := leaveOffer_moves (hseller'.trans hseller) hv h₄
            refine ((hm₂.trans hm₃).trans hm₄).cast ?_
            by_cases hnew : op.offerID = 0 <;> simp [hnew]
  · exact .of_eq rfl

end

end ManageOfferOpFrame

end ZaggCore.Transactions
