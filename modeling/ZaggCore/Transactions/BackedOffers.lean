import Mathlib
import ZaggCore.Transactions.ExchangeBounds
import ZaggCore.Transactions.OfferTrail
import ZaggCore.Transactions.PartyUpdates

/-! # Crossing a backed offer

From version 10 on a path payment crosses an offer that is adjusted and backed by what its seller holds
without an error: the offer is taken as a whole, or it is the last one. -/

namespace ZaggCore.Transactions
set_option autoImplicit false
set_option maxHeartbeats 250000

open Foundations Numeric AbstractLedgerTxn

variable {X : Type}

/-! ## The amounts of an offer -/

/-- An adjusted offer sells what it says, and its buying liabilities are what it costs as a whole. -/
theorem Ratio.liabilities_of_adjusted (r : Ratio) {header : LedgerHeader} {o : OfferEntry} {a T : ℕ}
    (hv : 10 ≤ header.ledgerVersion) (hprice : o.price = r.price) (hamount : o.amount = a) (hpos : 0 < a)
    (ha : a ≤ 2 ^ 63 - 1) (hT : T ≤ 2 ^ 63 - 1) (hadjusted : r.adjusted a T = a) :
    getOfferSellingLiabilities header o = .ok a ∧
      getOfferBuyingLiabilities header o = .ok (r.whole a T).2 := by
  obtain ⟨hwhole, hwheat, -⟩ := r.whole_of_adjusted ha hT hpos hadjusted
  obtain ⟨stays, hliabilities⟩ := r.offerLiabilities_eq hv hprice hamount ha
  rw [← hwhole, hwheat] at hliabilities
  unfold getOfferSellingLiabilities getOfferBuyingLiabilities
  rw [hliabilities]
  exact ⟨rfl, rfl⟩

theorem adjustOfferEntry_eq {w : World X} {header : LedgerHeader} {o : OfferEntry} {amount : ℤ}
    {account : Option AccountEntry} {wheatLine sheepLine : Option TrustLineWrapper} {ps pw : Party}
    (hv : 10 ≤ header.ledgerVersion)
    (hsheep : Shows w.ltx o.sellerID o.buying account sheepLine ps)
    (hwheat : Shows w.ltx o.sellerID o.selling account wheatLine pw)
    (hadjust : adjustOffer o.price
      (min o.amount (pw.canSell (w.ltx.view.reserve header o.sellerID o.selling))) ps.canBuy = .ok amount) :
    adjustOfferEntry header o account wheatLine sheepLine w = .ok amount w :=
  bind_ok.mpr ⟨_, _, hwheat.canSellAtMost hv,
    bind_ok.mpr ⟨_, _, hsheep.canBuyAtMost hv, lift_ok.mpr ⟨hadjust, rfl⟩⟩⟩

/-! ## After the balances -/

/-- The end of `crossOfferV10`, from the handles that the balance changes leave. -/
def finishOffer (header : LedgerHeader) (o : OfferEntry) (account : Option AccountEntry)
    (wheatLine sheepLine : Option TrustLineWrapper) (amount : ℤ) (res : ExchangeResultV10) :
    AppM X Crossed := do
  let amount ← (if res.wheatStays then
      adjustOfferEntry header { o with amount := amount - res.numWheatReceived } account wheatLine sheepLine
    else return 0)
  store (.offer { o with amount := amount })
  leaveOffer header o.sellerID o.offerID (amount = 0)
  return ⟨if amount = 0 then .eOfferTaken else .eOfferPartial, res.numWheatReceived, res.numSheepSend,
    res.wheatStays⟩

/-- A ledger in which one offer was crossed and nothing else was changed but its parties. -/
structure OffersApart (o : OfferEntry) (v v' : View) : Prop where
  balance : ∀ a asset, v'.balance a asset = v.balance a asset
  offer : ∀ a id, ¬ (a = o.sellerID ∧ id = o.offerID) → v'.offer a id = v.offer a id

section Finish

variable {w : World X} {header : LedgerHeader} {o : OfferEntry} {n : ℕ}

/-- The offer that is stored is the one that is loaded after that. -/
theorem store_offer (amount : ℤ) : ∃ w₁ : World X, store (.offer { o with amount := amount }) w = .ok () w₁ ∧
    Leaves w (w.ltx.view.setOffer o.sellerID o.offerID (some { o with amount := amount })) w₁ ∧
    w₁.ltx = w.ltx.put (.offer { o with amount := amount }) ∧
    w₁.ltx.offer o.sellerID o.offerID = some { o with amount := amount } := by
  refine ⟨_, rfl, ⟨rfl, ?_⟩, rfl, ?_⟩
  · exact view_put_offer _
  · show (w.ltx.put (.offer { o with amount := amount })).offer _ _ = _
    rw [offer_put_offer, if_pos ⟨rfl, rfl⟩]

/-- What is taken as a whole goes. -/
theorem returns_taken {w₁ : World X}
    (hleaves : Leaves w (w.ltx.view.setOffer o.sellerID o.offerID (some { o with amount := 0 })) w₁)
    (ho : w₁.ltx.offer o.sellerID o.offerID = some { o with amount := 0 })
    (hcount : w.ltx.view.count o.sellerID = some n) (hn : 1 ≤ n ∧ n < 2 ^ 31) :
    Returns (fun _ w' => Leaves w
        ((w.ltx.view.setOffer o.sellerID o.offerID none).setCount o.sellerID (n - 1)) w')
      (leaveOffer header o.sellerID o.offerID true w₁) := by
  have hleave := returns_leaveOffer_taken header ho (by rw [hleaves.view]; exact hcount) hn
  rw [hleaves.view, View.setOffer_setOffer] at hleave
  exact hleave.imp (fun _ w' hleaves' => hleaves.trans hleaves') fun _ _ => id

/-- What stays is backed again. -/
theorem returns_kept {w₁ : World X} {ps pw : Party} {a r cost : ℤ}
    (hleaves : Leaves w (w.ltx.view.setOffer o.sellerID o.offerID (some { o with amount := a })) w₁)
    (ho : w₁.ltx.offer o.sellerID o.offerID = some { o with amount := a })
    (hheader : w.ltx.header = header) (hv : 10 ≤ header.ledgerVersion) (hassets : o.buying ≠ o.selling)
    (hps : w.ltx.party o.sellerID o.buying = some ps) (hpw : w.ltx.party o.sellerID o.selling = some pw)
    (hbuying : getOfferBuyingLiabilities header { o with amount := a } = .ok cost)
    (hselling : getOfferSellingLiabilities header { o with amount := a } = .ok a)
    (hr : r = w.ltx.view.reserve header o.sellerID o.selling) (hs : ps.Sound 0) (hw : pw.Sound r)
    (hcost : 0 ≤ cost ∧ cost ≤ ps.canBuy) (ha : 0 ≤ a ∧ a ≤ pw.canSell r) :
    Returns (fun _ w' => w'.ltx.header = w.ltx.header ∧ OffersApart o w.ltx.view w'.ltx.view)
      (leaveOffer header o.sellerID o.offerID false w₁) := by
  have hload := w₁.ltx_load (.offer o.sellerID o.offerID)
  have hview : (w₁.load (.offer o.sellerID o.offerID)).ltx.view =
      w.ltx.view.setOffer o.sellerID o.offerID (some { o with amount := a }) := by
    rw [hload, hleaves.view]
  have hacquire := returns_acquireLiabilities (w := w₁.load (.offer o.sellerID o.offerID))
    (o := { o with amount := a }) (by rw [hload, hleaves.header, hheader]) hv hassets
    (show (w₁.load _).ltx.view.party _ _ = some ps by rw [hview]; exact hps)
    (show (w₁.load _).ltx.view.party _ _ = some pw by rw [hview]; exact hpw)
    hbuying hselling (hr.trans (by rw [hview]; rfl)) hs hw (hs.addBuying hcost.1 hcost.2)
    (hw.addSelling ha.1 ha.2)
  refine leaveOffer_stays ho (hacquire.imp (fun _ w' hacquired => ⟨?_, ?_, ?_⟩) fun _ _ => id)
  · rw [hacquired.header, hload, hleaves.header]
  · intro b other
    rw [hacquired.view, hview, View.balance_setParties_of_eq hassets hps hpw (ps.balance_map_addBuying _)
      (pw.balance_map_addSelling _)]
    rfl
  · intro b id hne
    rw [hacquired.view, hview]
    show (if b = o.sellerID ∧ id = o.offerID then _ else _) = _
    rw [if_neg hne]

theorem finishOffer_whole (header : LedgerHeader) (account : Option AccountEntry)
    (wheatLine sheepLine : Option TrustLineWrapper) (amount : ℤ) (res : ExchangeResultV10) (hres : res.wheatStays = false)
    (hcount : w.ltx.view.count o.sellerID = some n) (hn : 1 ≤ n ∧ n < 2 ^ 31) :
    Returns (fun c w' => c = ⟨.eOfferTaken, res.numWheatReceived, res.numSheepSend, false⟩ ∧
        Leaves w ((w.ltx.view.setOffer o.sellerID o.offerID none).setCount o.sellerID (n - 1)) w')
      (finishOffer header o account wheatLine sheepLine amount res w) := by
  obtain ⟨w₁, hstore, hleaves, -, ho⟩ := store_offer (w := w) (o := o) 0
  unfold finishOffer
  rw [hres]
  refine (ends_bind_of_ok (pure_ok.mpr ⟨rfl, rfl⟩)).mpr ?_
  refine (ends_bind_of_ok hstore).mpr ?_
  exact (returns_taken hleaves ho hcount hn).bind fun _ w' hleaves' => ⟨rfl, hleaves'⟩

/-- What is left of an offer is adjusted to what its seller has left. -/
theorem finishOffer_part {account : Option AccountEntry} {wheatLine sheepLine : Option TrustLineWrapper}
    {ps pw : Party} {reserve : ℤ} {k : ℕ} (r : Ratio) (amount : ℤ) (res : ExchangeResultV10)
    (hres : res.wheatStays = true) (hcount : w.ltx.view.count o.sellerID = some n)
    (hn : 1 ≤ n ∧ n < 2 ^ 31) (hheader : w.ltx.header = header) (hv : 10 ≤ header.ledgerVersion)
    (hassets : o.buying ≠ o.selling) (hprice : o.price = r.price)
    (hsheep : Shows w.ltx o.sellerID o.buying account sheepLine ps)
    (hwheat : Shows w.ltx o.sellerID o.selling account wheatLine pw)
    (hr : reserve = w.ltx.view.reserve header o.sellerID o.selling) (hs : ps.Sound 0)
    (hw : pw.Sound reserve) (hk : amount - res.numWheatReceived = k) (hmax : k ≤ 2 ^ 63 - 1)
    (hsell : (k : ℤ) ≤ pw.canSell reserve) :
    Returns (fun c w' => (∃ cor, cor ≠ .eOfferCantConvert ∧
          c = ⟨cor, res.numWheatReceived, res.numSheepSend, true⟩) ∧
        w'.ltx.header = w.ltx.header ∧ OffersApart o w.ltx.view w'.ltx.view)
      (finishOffer header o account wheatLine sheepLine amount res w) := by
  obtain ⟨T, hT⟩ := Int.eq_ofNat_of_zero_le (Party.canBuy_range hs).1
  have hTmax : T ≤ 2 ^ 63 - 1 := by
    have hle := (Party.canBuy_range hs).2
    rw [hT, INT64_MAX_eq] at hle
    omega
  have hadjust : adjustOfferEntry header { o with amount := amount - res.numWheatReceived } account wheatLine
      sheepLine w = .ok (r.adjusted k T : ℤ) w := by
    refine adjustOfferEntry_eq hv hsheep hwheat ?_
    rw [hk, ← hr, min_eq_left hsell, hT, hprice]
    exact r.adjustOffer_eq hmax hTmax
  have hle := r.adjusted_le k T
  obtain ⟨w₁, hstore, hleaves, -, ho⟩ := store_offer (w := w) (o := o) (r.adjusted k T)
  unfold finishOffer
  rw [hres]
  refine (ends_bind_of_ok hadjust).mpr ((ends_bind_of_ok hstore).mpr ?_)
  by_cases hzero : r.adjusted k T = 0
  · rw [hzero] at hleaves ho ⊢
    refine (returns_taken hleaves ho hcount hn).bind fun _ w' hleaves' => ⟨⟨_, ?_, rfl⟩, hleaves'.header, ?_, ?_⟩
    · exact CrossOfferResult.noConfusion
    · intro b other
      rw [hleaves'.view]
      rfl
    · intro b id hne
      rw [hleaves'.view]
      exact if_neg hne
  · have hpos : 0 < r.adjusted k T := Nat.pos_of_ne_zero hzero
    have hagain := r.adjusted_again hmax le_rfl hTmax (T := T)
    obtain ⟨hselling, hbuying⟩ := r.liabilities_of_adjusted (o := { o with amount := (r.adjusted k T : ℤ) })
      hv hprice rfl hpos (hle.trans hmax) hTmax hagain
    have hcost := (r.whole_le (r.adjusted k T) T).2
    have hkeep := returns_kept hleaves ho hheader hv hassets hsheep.party hwheat.party hbuying
      hselling hr hs hw (by rw [hT]; omega) (by omega)
    have hne : ¬ ((r.adjusted k T : ℤ) = 0) := by omega
    rw [decide_eq_false hne]
    refine hkeep.bind fun _ w' hkept => ⟨⟨_, ?_, rfl⟩, hkept⟩
    rw [if_neg hne]
    exact CrossOfferResult.noConfusion

end Finish

/-! ## Trades -/

/-- What a claimed offer adds to what an account has of an asset. -/
def ClaimOfferAtom.change (c : ClaimOfferAtom) (a : AccountID) (asset : Asset) : ℤ :=
  if a = c.sellerID then
    (if asset = c.assetBought then c.amountBought else 0) + (if asset = c.assetSold then -c.amountSold else 0)
  else 0

/-- From one ledger to the next an offer was claimed: the balances change by what was exchanged, and the
other offers stay. -/
structure Claimed (c : ClaimOfferAtom) (v v' : View) : Prop where
  balance : ∀ a asset, v'.balance a asset = (v.balance a asset).map (· + c.change a asset)
  offer : ∀ a id, ¬ (a = c.sellerID ∧ id = c.offerID) → v'.offer a id = v.offer a id

/-! ## Crossing -/

/-- An adjusted offer, and the parties that back it. `T` is what the seller can buy beside the offer's own
liabilities. -/
structure BackedOffer (header : LedgerHeader) (v : View) (o : OfferEntry) (r : Ratio) (a T n : ℕ)
    (ps pw : Party) : Prop where
  assets : o.buying ≠ o.selling
  price : o.price = r.price
  amount : o.amount = a
  pos : 0 < a
  le : a ≤ 2 ^ 63 - 1
  adjusted : r.adjusted a T = a
  sheep : v.party o.sellerID o.buying = some ps
  wheat : v.party o.sellerID o.selling = some pw
  count : v.count o.sellerID = some n
  range : 1 ≤ n ∧ n < 2 ^ 31
  buys : ps.Sound 0
  buys_released : (ps.map (Standing.addBuying (-(r.whole a T).2))).Sound 0
  canBuy : (ps.map (Standing.addBuying (-(r.whole a T).2))).canBuy = T
  sells : pw.Sound (v.reserve header o.sellerID o.selling)
  sells_released : (pw.map (Standing.addSelling (-a))).Sound (v.reserve header o.sellerID o.selling)

namespace BackedOffer

variable {w : World X} {o : OfferEntry} {r : Ratio} {a T n : ℕ} {ps pw : Party}

/-- What is left of the parties after `wheat` and `sheep` were exchanged. -/
def bought (ps : Party) (cost sheep : ℤ) : Party :=
  (ps.map (Standing.addBuying (-cost))).map (Standing.addBalance sheep)

def sold (pw : Party) (amount wheat : ℤ) : Party :=
  (pw.map (Standing.addSelling (-amount))).map (Standing.addBalance (-wheat))

theorem owesBuying_bought {ps : Party} {cost rest : ℤ} (sheep : ℤ) (howes : ps.OwesBuying (cost + rest)) :
    (bought ps cost sheep).OwesBuying rest := by
  cases ps with
  | issuer => trivial
  | holder s =>
    have hle : cost + rest ≤ s.buying := howes
    show rest ≤ s.buying + -cost
    omega

theorem owesSelling_sold {pw : Party} {amount rest : ℤ} (wheat : ℤ) (howes : pw.OwesSelling (amount + rest)) :
    (sold pw amount wheat).OwesSelling rest := by
  cases pw with
  | issuer => trivial
  | holder s =>
    have hle : amount + rest ≤ s.selling := howes
    show rest ≤ s.selling + -amount
    omega

/-- Where an offer is taken for its liabilities, the others have the room they had. -/
theorem canBuy_bought (ps : Party) (cost delta : ℤ) :
    ((bought ps cost cost).map (Standing.addBuying delta)).canBuy =
      (ps.map (Standing.addBuying delta)).canBuy := by
  cases ps with
  | issuer => rfl
  | holder s =>
    have hroom : s.limit - (s.balance + cost) - (s.buying + -cost + delta) =
        s.limit - s.balance - (s.buying + delta) := by ring
    show (if s.authorized then max (s.limit - (s.balance + cost) - (s.buying + -cost + delta)) 0 else 0) =
      if s.authorized then max (s.limit - s.balance - (s.buying + delta)) 0 else 0
    rw [hroom]

/-- The view after an offer was taken as a whole. -/
def taken (v : View) (o : OfferEntry) (n : ℕ) (ps pw : Party) : View :=
  ((v.setParties o.sellerID o.buying ps o.selling pw).setOffer o.sellerID o.offerID none).setCount o.sellerID
    (n - 1)

theorem balance_bought (ps : Party) (cost sheep : ℤ) :
    (bought ps cost sheep).balance = ps.balance.map (· + sheep) := by
  simp [bought]

theorem balance_sold (pw : Party) (amount wheat : ℤ) :
    (sold pw amount wheat).balance = pw.balance.map (· + -wheat) := by
  simp [sold]

variable (h : BackedOffer w.ltx.header w.ltx.view o r a T n ps pw)

include h

theorem le_max : T ≤ 2 ^ 63 - 1 := by
  have hrange := Party.canBuy_range h.buys_released
  rw [h.canBuy, INT64_MAX_eq] at hrange
  omega

theorem le_canSell : (a : ℤ) ≤ (pw.map (Standing.addSelling (-a))).canSell
    (w.ltx.view.reserve w.ltx.header o.sellerID o.selling) := by
  refine h.sells.le_canSell h.sells_released ?_
  rw [INT64_MAX_eq]
  exact Int.ofNat_le.mpr h.le

theorem bought_sound {sheep : ℕ} (hle : sheep ≤ T) : (bought ps (r.whole a T).2 sheep).Sound 0 := by
  refine h.buys_released.receive (Int.natCast_nonneg sheep) ?_
  rw [h.canBuy]
  exact Int.ofNat_le.mpr hle

theorem sold_sound {wheat : ℕ} (hle : wheat ≤ a) :
    (sold pw a wheat).Sound (w.ltx.view.reserve w.ltx.header o.sellerID o.selling) ∧
      ((a - wheat : ℕ) : ℤ) ≤ (sold pw a wheat).canSell (w.ltx.view.reserve w.ltx.header o.sellerID o.selling) := by
  have hsell := h.le_canSell
  have hsend := h.sells_released.send (Int.natCast_nonneg wheat) (by omega)
  refine ⟨hsend.1, ?_⟩
  have hleft := hsend.2
  unfold sold
  omega

/-- Crossing it up to the exchange, whatever that comes to. -/
theorem returns_crossOfferV10 (hv : 10 ≤ w.ltx.header.ledgerVersion) {R S : ℕ} (hR : 0 < R) (hS : 0 < S)
    {wheat sheep : ℕ} {stays : Bool} {Q : Crossed → World X → Prop}
    (hrun : exchangeV10 r.price a R S T true = .ok ⟨wheat, sheep, stays⟩) (hwheat_le : wheat ≤ a)
    (hsheep_le : sheep ≤ T)
    (hfinish : ∀ w₁ account wheatLine sheepLine,
      Leaves w (w.ltx.view.setParties o.sellerID o.buying (bought ps (r.whole a T).2 sheep) o.selling
        (sold pw a wheat)) w₁ →
      Shows w₁.ltx o.sellerID o.buying account sheepLine (bought ps (r.whole a T).2 sheep) →
      Shows w₁.ltx o.sellerID o.selling account wheatLine (sold pw a wheat) →
      Returns Q (finishOffer w.ltx.header o account wheatLine sheepLine a ⟨wheat, sheep, stays⟩ w₁)) :
    Returns Q (crossOfferV10 o R S true w) := by
  obtain ⟨hselling, hbuying⟩ :=
    r.liabilities_of_adjusted hv h.price h.amount h.pos h.le h.le_max h.adjusted
  have hsell := h.le_canSell
  obtain ⟨acc, hacc, -⟩ := Option.map_eq_some_iff.mp h.count
  unfold crossOfferV10
  refine (ends_bind_of_ok (a := ()) (lift_ok.mpr ⟨assert_ok.mpr (Int.natCast_pos.mpr hR), rfl⟩)).mpr ?_
  refine (ends_bind_of_ok (a := ()) (lift_ok.mpr ⟨assert_ok.mpr (Int.natCast_pos.mpr hS), rfl⟩)).mpr ?_
  refine (ends_bind_of_ok (loadHeader_ok.mpr ⟨rfl, rfl⟩)).mpr ?_
  refine (ends_bind_of_ok (loadAccountWithoutRecord_ok.mpr ⟨hacc, rfl⟩)).mpr ?_
  refine (ends_bind_of_ok (a := ()) (lift_ok.mpr ⟨throwIf_ok.mpr (by simp), rfl⟩)).mpr ?_
  refine (returns_releaseLiabilities rfl hv h.assets h.sheep h.wheat hbuying hselling rfl h.buys h.sells
    h.buys_released h.sells_released).bind fun _ w₁ hw₁ => ?_
  have hps₁ : w₁.ltx.party o.sellerID o.buying = some (ps.map (Standing.addBuying (-(r.whole a T).2))) := by
    show w₁.ltx.view.party _ _ = _
    rw [hw₁.view]
    simp [View.setParties, h.assets]
  have hpw₁ : w₁.ltx.party o.sellerID o.selling = some (pw.map (Standing.addSelling (-a))) := by
    show w₁.ltx.view.party _ _ = _
    rw [hw₁.view]
    simp [View.setParties]
  refine (returns_loadParties hpw₁ hps₁).bind fun parties w₂ hw₂ => ?_
  obtain ⟨hltx, hshowsS, hshowsW⟩ := hw₂
  have hreserve : w₂.ltx.view.reserve w.ltx.header o.sellerID o.selling =
      w.ltx.view.reserve w.ltx.header o.sellerID o.selling := by
    rw [hltx, hw₁.view]
    rfl
  rw [← hltx] at hshowsS hshowsW
  have hadjust : adjustOffer o.price (min o.amount ((pw.map (Standing.addSelling (-a))).canSell
      (w₂.ltx.view.reserve w.ltx.header o.sellerID o.selling)))
      (ps.map (Standing.addBuying (-(r.whole a T).2))).canBuy = .ok (a : ℤ) := by
    rw [hreserve, h.amount, min_eq_left hsell, h.canBuy, h.price, r.adjustOffer_eq h.le h.le_max, h.adjusted]
  refine (ends_bind_of_ok (adjustOfferEntry_eq hv hshowsS hshowsW hadjust)).mpr ?_
  refine (ends_bind_of_ok (hshowsW.canSellAtMost hv)).mpr ?_
  refine (ends_bind_of_ok (hshowsS.canBuyAtMost hv)).mpr ?_
  rw [hreserve, min_eq_left hsell, h.canBuy]
  rw [← h.price] at hrun
  refine (ends_bind_of_ok (lift_ok.mpr ⟨hrun, rfl⟩)).mpr ?_
  have hheader₂ : w₂.ltx.header = w.ltx.header := by
    rw [hltx, hw₁.header]
  refine (returns_changeParty false "overflowed sheep balance" hheader₂ (by omega) hshowsS rfl h.buys_released
    (h.bought_sound hsheep_le)).bind fun handles w₃ hw₃ => ?_
  obtain ⟨account, sheepLine⟩ := handles
  obtain ⟨hleaves₃, hapart₃, haccount₃, hshowsS₃⟩ := hw₃
  have hshowsW₃ := hshowsW.apart h.assets.symm hapart₃ haccount₃
  have hreserve₃ : w.ltx.view.reserve w.ltx.header o.sellerID o.selling =
      w₃.ltx.view.reserve w.ltx.header o.sellerID o.selling := by
    rw [hleaves₃.view, View.reserve_setParty, hreserve]
  refine (returns_changeParty true "overflowed wheat balance" (hleaves₃.header.trans hheader₂) (fun _ => rfl)
    hshowsW₃ hreserve₃ h.sells_released (h.sold_sound hwheat_le).1).bind fun handles w₄ hw₄ => ?_
  obtain ⟨account₄, wheatLine⟩ := handles
  obtain ⟨hleaves₄, hapart₄, haccount₄, hshowsW₄⟩ := hw₄
  have hshowsS₄ := hshowsS₃.apart h.assets hapart₄ haccount₄
  refine hfinish w₄ account₄ wheatLine sheepLine ⟨?_, ?_⟩ hshowsS₄ hshowsW₄
  · rw [hleaves₄.header, hleaves₃.header, hheader₂]
  · rw [hleaves₄.view, hleaves₃.view, hltx, hw₁.view]
    exact View.setParties_setParties _ _ _ _

/-- The balances of both parties, from the view that the balance changes leave. -/
theorem settles_of_parties {c : Crossed} {v' : View} {wheat sheep : ℕ}
    (hwheat : c.numWheatReceived = wheat) (hsheep : c.numSheepSend = sheep)
    (hbalance : v'.balance = (w.ltx.view.setParties o.sellerID o.buying (bought ps (r.whole a T).2 sheep)
      o.selling (sold pw a wheat)).balance)
    (hoffer : ∀ b id, ¬ (b = o.sellerID ∧ id = o.offerID) → v'.offer b id = w.ltx.view.offer b id) :
    Claimed (claimOffer o c) w.ltx.view v' where
  balance b asset := by
    rw [hbalance, View.balance_setParties h.assets h.sheep h.wheat (balance_bought _ _ _) (balance_sold _ _ _),
      ← hwheat, ← hsheep]
    rfl
  offer := hoffer

/-- A path payment takes a backed offer as a whole, or it is the last one and stays. -/
theorem crossOfferV10_cases (hv : 10 ≤ w.ltx.header.ledgerVersion) {R S : ℕ} (hR : 0 < R) (hS : 0 < S) :
    (a ≤ R ∧ (r.whole a T).2 ≤ S ∧ Returns (fun c w' => c = ⟨.eOfferTaken, a, (r.whole a T).2, false⟩ ∧
        Claimed (claimOffer o c) w.ltx.view w'.ltx.view ∧
        Leaves w (taken w.ltx.view o n (bought ps (r.whole a T).2 (r.whole a T).2) (sold pw a a)) w')
      (crossOfferV10 o R S true w)) ∨
    ∃ wheat sheep : ℕ, wheat ≤ R ∧ wheat ≤ a ∧ sheep ≤ S ∧ (R * r.n ≤ S * r.d → wheat = R) ∧
      (a < R → S ≤ (r.whole a T).2) ∧
      Returns (fun c w' => (∃ cor, cor ≠ .eOfferCantConvert ∧ c = ⟨cor, wheat, sheep, true⟩) ∧
        Claimed (claimOffer o c) w.ltx.view w'.ltx.view ∧ w'.ltx.header = w.ltx.header)
      (crossOfferV10 o R S true w) := by
  obtain ⟨hrun, hall, hcost, hcost_le⟩ | ⟨wheat, sheep, hrun, hwant, htake, hpay, hreceive, hexact, hlast⟩ :=
    r.exchangeV10_path_cases h.le h.le_max h.pos h.adjusted (S := S) hR
  · refine .inl ⟨hall, hcost, ?_⟩
    refine h.returns_crossOfferV10 hv hR hS hrun le_rfl hcost_le fun w₁ account wheatLine sheepLine hw₁ _ _ => ?_
    have hfinish := finishOffer_whole w.ltx.header account wheatLine sheepLine a ⟨a, (r.whole a T).2, false⟩ rfl
      (show w₁.ltx.view.count o.sellerID = some n by rw [hw₁.view]; exact h.count) h.range
    refine hfinish.imp (fun c w' hc => ?_) fun _ _ => id
    obtain ⟨rfl, hleaves⟩ := hc
    rw [hw₁.view] at hleaves
    refine ⟨rfl, ?_, hw₁.trans hleaves⟩
    refine h.settles_of_parties rfl rfl (by rw [hleaves.view]; rfl) fun b id hne => ?_
    rw [hleaves.view]
    exact if_neg hne
  · refine .inr ⟨wheat, sheep, hwant, htake, hpay, hexact, hlast, ?_⟩
    refine h.returns_crossOfferV10 hv hR hS hrun htake hreceive fun w₁ account wheatLine sheepLine hw₁ hs hw => ?_
    have hfinish := finishOffer_part r a ⟨wheat, sheep, true⟩ rfl
      (show w₁.ltx.view.count o.sellerID = some n by rw [hw₁.view]; exact h.count) h.range hw₁.header hv
      h.assets h.price hs hw (show _ = w₁.ltx.view.reserve _ _ _ by rw [hw₁.view]; rfl)
      (h.bought_sound hreceive) (h.sold_sound htake).1 (Nat.cast_sub htake).symm ((Nat.sub_le a wheat).trans h.le)
      (h.sold_sound htake).2
    refine hfinish.imp (fun c w' hc => ?_) fun _ _ => id
    obtain ⟨⟨cor, hcor, rfl⟩, hheader, hbalance, hoffer⟩ := hc
    refine ⟨⟨cor, hcor, rfl⟩, ?_, hheader.trans hw₁.header⟩
    refine h.settles_of_parties rfl rfl ?_ fun b id hne => ?_
    · funext b asset
      rw [hbalance, hw₁.view]
    · rw [hoffer b id hne, hw₁.view]
      rfl

end BackedOffer

end ZaggCore.Transactions
