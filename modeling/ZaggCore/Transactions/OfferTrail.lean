import Mathlib
import ZaggCore.Transactions.EntryChanges
import ZaggCore.Transactions.OfferExchange

/-! # The trail of claimed offers

`convertWithOffers` with its `offerTrail`. The trail is only written to: without it the results are those
of `convertWithOffers`. -/

namespace ZaggCore.Transactions
set_option autoImplicit false
set_option maxHeartbeats 250000

open Foundations Numeric

variable {X Q : Type}

structure ClaimOfferAtom where
  sellerID : AccountID
  offerID : ℕ
  assetSold : Asset
  amountSold : ℤ
  assetBought : Asset
  amountBought : ℤ
  deriving DecidableEq, Repr

/-- What `crossOffer` and `crossOfferV10` append for an offer they cross. -/
def claimOffer (sellingWheatOffer : OfferEntry) (c : Crossed) : ClaimOfferAtom :=
  ⟨sellingWheatOffer.sellerID, sellingWheatOffer.offerID, sellingWheatOffer.selling, c.numWheatReceived,
    sellingWheatOffer.buying, c.numSheepSend⟩

section

variable [LinearOrder Q] (app : Application X Q)

/-- `convertLoop`, with the trail so far. A pass crosses the best offer that is there when it begins. -/
def convertLoopTrail (sheep wheat : Asset) (isPathPayment : Bool)
    (filter : OfferEntry → Except Exception OfferFilterResult) :
    ℕ → ℤ → ℤ → ℤ → ℤ → List ClaimOfferAtom → AppM X ((ConvertResult × ℤ × ℤ) × List ClaimOfferAtom)
  | 0, _, _, _, _, _ => throw (.other "out of fuel")
  | fuel + 1, maxSheepSend, sheepSend, maxWheatReceive, wheatReceived, offerTrail => do
    let wheatOffer := (← getLedger).getBestOffer app.quotient sheep wheat
    match ← convertPass app sheep maxSheepSend wheat maxWheatReceive isPathPayment filter with
    | .noOffer =>
      let header ← loadHeader
      return ((if header.ledgerVersion < 10 then .eOK else .ePartial, sheepSend, wheatReceived), offerTrail)
    | .filterStop crossSelf => return ((.eFilterStop crossSelf, sheepSend, wheatReceived), offerTrail)
    | .crossed c =>
      if c.cor = .eOfferCantConvert then
        return ((.ePartial, sheepSend, wheatReceived), offerTrail)
      let offerTrail := offerTrail ++ wheatOffer.toList.map (claimOffer · c)
      let sheepSend := sheepSend + c.numSheepSend
      let maxSheepSend := maxSheepSend - c.numSheepSend
      let wheatReceived := wheatReceived + c.numWheatReceived
      let maxWheatReceive := maxWheatReceive - c.numWheatReceived
      let needMore := !c.wheatStays && (0 < maxWheatReceive && 0 < maxSheepSend)
      if !needMore then
        return ((.eOK, sheepSend, wheatReceived), offerTrail)
      if c.cor = .eOfferPartial then
        return ((.ePartial, sheepSend, wheatReceived), offerTrail)
      convertLoopTrail sheep wheat isPathPayment filter fuel maxSheepSend sheepSend maxWheatReceive
        wheatReceived offerTrail

/-- `convertWithOffers` from an empty trail. -/
def convertWithOffersTrail (sheep : Asset) (maxSheepSend : ℤ) (wheat : Asset) (maxWheatReceive : ℤ)
    (isPathPayment : Bool) (filter : OfferEntry → Except Exception OfferFilterResult) :
    AppM X ((ConvertResult × ℤ × ℤ) × List ClaimOfferAtom) := do
  let needMore := 0 < maxWheatReceive ∧ 0 < maxSheepSend
  if needMore then
    let ltx ← getLedger
    convertLoopTrail app sheep wheat isPathPayment filter (ltx.offers.length + 1) maxSheepSend 0
      maxWheatReceive 0 []
  else return ((.eOK, 0, 0), [])

theorem convertLoop_eq (sheep wheat : Asset) (isPathPayment : Bool)
    (filter : OfferEntry → Except Exception OfferFilterResult) (fuel : ℕ)
    (maxSheepSend sheepSend maxWheatReceive wheatReceived : ℤ) (offerTrail : List ClaimOfferAtom) :
    Prod.fst <$> convertLoopTrail app sheep wheat isPathPayment filter fuel maxSheepSend sheepSend
        maxWheatReceive wheatReceived offerTrail =
      convertLoop app sheep wheat isPathPayment filter fuel maxSheepSend sheepSend maxWheatReceive
        wheatReceived := by
  induction fuel generalizing maxSheepSend sheepSend maxWheatReceive wheatReceived offerTrail with
  | zero => rfl
  | succ fuel ih =>
    funext w
    unfold convertLoopTrail convertLoop
    simp only [Functor.map, EStateM.map, bind, EStateM.bind, getLedger]
    cases convertPass app sheep maxSheepSend wheat maxWheatReceive isPathPayment filter w with
    | error e w₁ => rfl
    | ok pass w₁ =>
      cases pass with
      | noOffer => rfl
      | filterStop crossSelf => rfl
      | crossed c =>
        dsimp only
        split_ifs
        · rfl
        · rfl
        · rfl
        · exact congrFun (ih _ _ _ _ _) w₁

/-- Without its trail this is `convertWithOffers`. -/
theorem convertWithOffers_eq (sheep : Asset) (maxSheepSend : ℤ) (wheat : Asset) (maxWheatReceive : ℤ)
    (isPathPayment : Bool) (filter : OfferEntry → Except Exception OfferFilterResult) :
    Prod.fst <$> convertWithOffersTrail app sheep maxSheepSend wheat maxWheatReceive isPathPayment filter =
      convertWithOffers app sheep maxSheepSend wheat maxWheatReceive isPathPayment filter := by
  funext w
  unfold convertWithOffersTrail convertWithOffers
  dsimp only
  split_ifs
  · exact congrFun (convertLoop_eq app sheep wheat isPathPayment filter _ _ _ _ _ _) w
  · rfl

end

end ZaggCore.Transactions
