import Mathlib
import ZaggCore.Ledger.LedgerManagerImpl
import ZaggCore.Transactions.BackedOffers

/-! # Filling a path payment from the book

The loop of `convertWithOffers` over the offers of one pair, best one first, where every offer is adjusted
and backed. -/

namespace ZaggCore.Transactions
set_option autoImplicit false
set_option maxHeartbeats 250000

open Foundations Numeric AbstractLedgerTxn

variable {X Q : Type}

/-! ## The book -/

/-- The offers of a pair in the order they are crossed in: by price, and by offer ID at one price. -/
structure IsBook [LinearOrder Q] (quotient : Price → Q) (v : View) (sheep wheat : Asset)
    (book : List OfferEntry) : Prop where
  sorted : book.Pairwise fun o o' =>
    (toLex (quotient o.price, o.offerID) : Q ×ₗ ℕ) < toLex (quotient o'.price, o'.offerID)
  mem : ∀ o, o ∈ book ↔
    v.offer o.sellerID o.offerID = some o ∧ o.buying = sheep ∧ o.selling = wheat

theorem mem_offers_iff {ltx : AbstractLedgerTxn} {o : OfferEntry} :
    o ∈ ltx.offers ↔ ltx.offer o.sellerID o.offerID = some o := by
  refine ⟨mem_offers, fun h => ?_⟩
  have hmem := (List.mem_dlookup_iff ltx.entries.nodupKeys).mp (offer_eq_some.mp h)
  exact List.mem_filterMap.mpr ⟨⟨_, _⟩, hmem, rfl⟩

section Book

variable [LinearOrder Q] {quotient : Price → Q} {ltx : AbstractLedgerTxn} {v : View} {sheep wheat : Asset}
  {o : OfferEntry} {os : List OfferEntry}

theorem mem_pair_iff {book : List OfferEntry} (h : IsBook quotient ltx.view sheep wheat book)
    (o : OfferEntry) :
    o ∈ (ltx.offers.filter fun o => o.buying = sheep && o.selling = wheat) ↔ o ∈ book := by
  rw [List.mem_filter, mem_offers_iff, h.mem, Bool.and_eq_true, decide_eq_true_eq, decide_eq_true_eq]
  exact Iff.rfl

theorem isBook_of_offers {book : List OfferEntry} (hsorted : book.Pairwise fun o o' =>
      (toLex (quotient o.price, o.offerID) : Q ×ₗ ℕ) < toLex (quotient o'.price, o'.offerID))
    (h : (ltx.offers.filter fun o => o.buying = sheep && o.selling = wheat) = book) :
    IsBook quotient ltx.view sheep wheat book where
  sorted := hsorted
  mem o := by
    rw [← h, List.mem_filter, mem_offers_iff, Bool.and_eq_true, decide_eq_true_eq, decide_eq_true_eq]
    exact Iff.rfl

/-- The first offer of the book is the best one. -/
theorem IsBook.getBestOffer_cons (h : IsBook quotient ltx.view sheep wheat (o :: os)) :
    ltx.getBestOffer quotient sheep wheat = some o := by
  unfold getBestOffer
  rw [List.argmin_eq_some_iff]
  have hfirst : ∀ o' ∈ os, (toLex (quotient o.price, o.offerID) : Q ×ₗ ℕ) <
      toLex (quotient o'.price, o'.offerID) := (List.pairwise_cons.mp h.sorted).1
  refine ⟨(mem_pair_iff h o).mpr List.mem_cons_self, fun o' ho' => ?_, fun o' ho' hle => ?_⟩
  · obtain rfl | hmem := List.mem_cons.mp ((mem_pair_iff h o').mp ho')
    · exact le_rfl
    · exact (hfirst o' hmem).le
  · obtain rfl | hmem := List.mem_cons.mp ((mem_pair_iff h o').mp ho')
    · exact le_rfl
    · exact absurd hle (hfirst o' hmem).not_ge

theorem IsBook.getBestOffer_nil (h : IsBook quotient ltx.view sheep wheat []) :
    ltx.getBestOffer quotient sheep wheat = none := by
  have hnil : (ltx.offers.filter fun o => o.buying = sheep && o.selling = wheat) = [] := by
    refine List.eq_nil_iff_forall_not_mem.mpr fun o ho => ?_
    exact List.not_mem_nil ((mem_pair_iff h o).mp ho)
  unfold getBestOffer
  rw [hnil]
  rfl

theorem IsBook.nodup {book : List OfferEntry} (h : IsBook quotient v sheep wheat book) : book.Nodup :=
  h.sorted.imp fun hlt heq => by
    rw [heq] at hlt
    exact lt_irrefl _ hlt

/-- No longer than the list of all offers. -/
theorem IsBook.length_le {book : List OfferEntry} (h : IsBook quotient ltx.view sheep wheat book) :
    book.length ≤ ltx.offers.length := by
  refine (h.nodup.subperm fun o ho => ?_).length_le
  exact mem_offers_iff.mpr ((h.mem o).mp ho).1

/-- Without its first offer the book is the book of the rest. -/
theorem IsBook.tail (h : IsBook quotient v sheep wheat (o :: os)) {v' : View}
    (hoffer : ∀ a id, v'.offer a id = if a = o.sellerID ∧ id = o.offerID then none else v.offer a id) :
    IsBook quotient v' sheep wheat os where
  sorted := (List.pairwise_cons.mp h.sorted).2
  mem o' := by
    rw [hoffer]
    by_cases hkey : o'.sellerID = o.sellerID ∧ o'.offerID = o.offerID
    · rw [if_pos hkey]
      refine iff_of_false (fun hmem => ?_) fun hnone => by cases hnone.1
      have hin := ((h.mem o').mp (List.mem_cons_of_mem _ hmem)).1
      have hin' := ((h.mem o).mp List.mem_cons_self).1
      rw [hkey.1, hkey.2, hin'] at hin
      obtain rfl := Option.some.inj hin
      exact (List.nodup_cons.mp h.nodup).1 hmem
    · rw [if_neg hkey, ← h.mem o', List.mem_cons]
      refine ⟨.inr, fun hmem => hmem.resolve_left ?_⟩
      rintro rfl
      exact hkey ⟨rfl, rfl⟩

end Book

/-! ## What the sellers promise -/

/-- What an offer as a whole costs: its buying liabilities. -/
def offerCost (header : LedgerHeader) (o : OfferEntry) : ℤ :=
  match getOfferBuyingLiabilities header o with
  | .ok cost => cost
  | .error _ => 0

def totalAmount (os : List OfferEntry) : ℤ := (os.map (·.amount)).sum

def totalCost (header : LedgerHeader) (os : List OfferEntry) : ℤ := (os.map (offerCost header)).sum

/-- What the first `wheat` of a book cost: whole offers their cost, and what is left over at the price of
the next one, rounded up. -/
def costOf (header : LedgerHeader) : List OfferEntry → ℤ → ℤ
  | [], _ => 0
  | o :: os, wheat =>
    if wheat ≤ o.amount then (wheat * o.price.n + o.price.d - 1) / o.price.d
    else offerCost header o + costOf header os (wheat - o.amount)

/-- What an offer sells and costs, as far as the sums go. -/
structure Priced (header : LedgerHeader) (o : OfferEntry) : Prop where
  amount : 0 < o.amount
  cost : 0 < offerCost header o
  d : 0 < o.price.d
  n : 0 < o.price.n

/-- The offers of one seller. -/
def offersOf (os : List OfferEntry) (a : AccountID) : List OfferEntry := os.filter (·.sellerID = a)

/-- Every offer of the book is valid, counts among its seller's sub-entries, has its liabilities in what
the seller holds, and is adjusted: with its own liabilities released `adjustOffer` leaves it as it is. -/
structure Backed (header : LedgerHeader) (v : View) (book : List OfferEntry) : Prop where
  price : ∀ o ∈ book, (0 < o.price.n ∧ o.price.n < 2 ^ 31) ∧ 0 < o.price.d ∧ o.price.d < 2 ^ 31
  amount : ∀ o ∈ book, 0 < o.amount ∧ o.amount ≤ INT64_MAX
  assets : ∀ o ∈ book, o.buying ≠ o.selling
  count : ∀ o ∈ book, ∃ n, v.count o.sellerID = some n ∧ (offersOf book o.sellerID).length ≤ n ∧ n < 2 ^ 31
  selling : ∀ o ∈ book, ∃ p, v.party o.sellerID o.selling = some p ∧
    p.Sound (v.reserve header o.sellerID o.selling) ∧ p.OwesSelling (totalAmount (offersOf book o.sellerID))
  buying : ∀ o ∈ book, ∃ p, v.party o.sellerID o.buying = some p ∧ p.Sound 0 ∧
    p.OwesBuying (totalCost header (offersOf book o.sellerID)) ∧
    adjustOffer o.price o.amount (p.map (Standing.addBuying (-offerCost header o))).canBuy = .ok o.amount

section Backed

variable {header : LedgerHeader} {v : View} {o : OfferEntry} {os book : List OfferEntry}

theorem offersOf_cons (o : OfferEntry) (os : List OfferEntry) (a : AccountID) :
    offersOf (o :: os) a = if o.sellerID = a then o :: offersOf os a else offersOf os a := by
  unfold offersOf
  rw [List.filter_cons]
  simp only [decide_eq_true_eq]

theorem totalAmount_cons (o : OfferEntry) (os : List OfferEntry) :
    totalAmount (o :: os) = o.amount + totalAmount os := List.sum_cons

theorem totalCost_cons (header : LedgerHeader) (o : OfferEntry) (os : List OfferEntry) :
    totalCost header (o :: os) = offerCost header o + totalCost header os := List.sum_cons

theorem Ratio.offerCost_eq (r : Ratio) {a : ℕ} (hv : 10 ≤ header.ledgerVersion) (hprice : o.price = r.price)
    (hamount : o.amount = a) (ha : a ≤ 2 ^ 63 - 1) : offerCost header o = (r.whole a (2 ^ 63 - 1)).2 := by
  obtain ⟨stays, hliabilities⟩ := r.offerLiabilities_eq hv hprice hamount ha
  have hbuying : getOfferBuyingLiabilities header o = .ok ((r.whole a (2 ^ 63 - 1)).2 : ℤ) := by
    unfold getOfferBuyingLiabilities
    rw [hliabilities]
    rfl
  unfold offerCost
  rw [hbuying]

/-- The numbers of an offer of a backed book. -/
theorem Backed.amounts (h : Backed header v book) (ho : o ∈ book) :
    ∃ (r : Ratio) (a : ℕ), o.price = r.price ∧ o.amount = a ∧ 0 < a ∧ a ≤ 2 ^ 63 - 1 := by
  obtain ⟨r, hr⟩ := Ratio.exists_price (h.price o ho).1 (h.price o ho).2
  obtain ⟨hpos, hmax⟩ := h.amount o ho
  obtain ⟨a, ha⟩ := Int.eq_ofNat_of_zero_le hpos.le
  rw [ha, INT64_MAX_eq] at hmax
  exact ⟨r, a, hr.symm, ha, by omega, by omega⟩

theorem Backed.offerCost_nonneg (h : Backed header v book) (hv : 10 ≤ header.ledgerVersion) (ho : o ∈ book) :
    0 ≤ offerCost header o := by
  obtain ⟨r, a, hprice, hamount, -, hmax⟩ := h.amounts ho
  rw [r.offerCost_eq hv hprice hamount hmax]
  exact Int.natCast_nonneg _

/-- Sums over some of the offers are not negative. -/
theorem Backed.totalCost_nonneg (h : Backed header v book) (hv : 10 ≤ header.ledgerVersion)
    (hsub : ∀ o ∈ os, o ∈ book) : 0 ≤ totalCost header os :=
  List.sum_nonneg fun x hx => by
    obtain ⟨o, ho, rfl⟩ := List.mem_map.mp hx
    exact h.offerCost_nonneg hv (hsub o ho)

theorem Backed.totalAmount_nonneg (h : Backed header v book) (hsub : ∀ o ∈ os, o ∈ book) :
    0 ≤ totalAmount os :=
  List.sum_nonneg fun x hx => by
    obtain ⟨o, ho, rfl⟩ := List.mem_map.mp hx
    exact (h.amount o (hsub o ho)).1.le

theorem offersOf_subset {a : AccountID} (ho : o ∈ offersOf os a) : o ∈ os := List.mem_of_mem_filter ho

/-- The first offer is backed. -/
theorem Backed.head (h : Backed header v (o :: os)) (hv : 10 ≤ header.ledgerVersion) :
    ∃ (r : Ratio) (a T n : ℕ) (ps pw : Party), BackedOffer header v o r a T n ps pw ∧
      offerCost header o = (r.whole a T).2 := by
  have ho : o ∈ o :: os := List.mem_cons_self
  have hsub : ∀ o' ∈ offersOf os o.sellerID, o' ∈ o :: os :=
    fun o' ho' => List.mem_cons_of_mem _ (offersOf_subset ho')
  obtain ⟨r, a, hprice, hamount, hpos, hmax⟩ := h.amounts ho
  obtain ⟨n, hcount, hlength, hn⟩ := h.count o ho
  obtain ⟨pw, hpw, hsells, howes⟩ := h.selling o ho
  obtain ⟨ps, hps, hbuys, howes', hadjust⟩ := h.buying o ho
  rw [offersOf_cons, if_pos rfl] at hlength howes howes'
  rw [totalAmount_cons] at howes
  rw [totalCost_cons] at howes'
  have hcost := r.offerCost_eq hv hprice hamount hmax
  have hreleased := hbuys.releaseBuying (h.offerCost_nonneg hv ho) (h.totalCost_nonneg hv hsub) howes'
  have hreleased' := hsells.releaseSelling (h.amount o ho).1.le (h.totalAmount_nonneg hsub) howes
  obtain ⟨T, hT⟩ := Int.eq_ofNat_of_zero_le (Party.canBuy_range hreleased).1
  have hTmax : T ≤ 2 ^ 63 - 1 := by
    have hle := (Party.canBuy_range hreleased).2
    rw [hT, INT64_MAX_eq] at hle
    omega
  rw [hT, hprice, hamount, r.adjustOffer_eq hmax hTmax] at hadjust
  have hadjusted : r.adjusted a T = a := Int.ofNat_inj.mp (Except.ok.inj hadjust)
  obtain ⟨hwhole, -, -⟩ := r.whole_of_adjusted hmax hTmax hpos hadjusted
  rw [← hwhole] at hcost
  rw [hcost] at hreleased hT
  rw [hamount] at hreleased'
  rw [List.length_cons] at hlength
  exact ⟨r, a, T, n, ps, pw, ⟨h.assets o ho, hprice, hamount, hpos, hmax, hadjusted, hps, hpw, hcount,
    ⟨by omega, hn⟩, hbuys, hreleased, hT, hsells, hreleased'⟩, hcost⟩

/-- The order of the offers does not matter. -/
theorem Backed.perm {book' : List OfferEntry} (h : Backed header v book) (hperm : book.Perm book') :
    Backed header v book' := by
  have hoffers : ∀ a, (offersOf book a).Perm (offersOf book' a) := fun a => hperm.filter _
  have hamount : ∀ a, totalAmount (offersOf book' a) = totalAmount (offersOf book a) :=
    fun a => ((hoffers a).map _).sum_eq.symm
  have hcost : ∀ a, totalCost header (offersOf book' a) = totalCost header (offersOf book a) :=
    fun a => ((hoffers a).map _).sum_eq.symm
  refine ⟨fun o ho => h.price o (hperm.mem_iff.mpr ho), fun o ho => h.amount o (hperm.mem_iff.mpr ho),
    fun o ho => h.assets o (hperm.mem_iff.mpr ho), fun o ho => ?_, fun o ho => ?_, fun o ho => ?_⟩
  · rw [← (hoffers o.sellerID).length_eq]
    exact h.count o (hperm.mem_iff.mpr ho)
  · rw [hamount]
    exact h.selling o (hperm.mem_iff.mpr ho)
  · rw [hcost]
    exact h.buying o (hperm.mem_iff.mpr ho)

/-- Every offer sells something and costs something. -/
theorem Backed.priced (h : Backed header v book) (hv : 10 ≤ header.ledgerVersion) (ho : o ∈ book) :
    Priced header o := by
  obtain ⟨r, a, T, n, ps, pw, hb, hcost⟩ := (h.perm (List.perm_cons_erase ho)).head hv
  have hT : T ≤ 2 ^ 63 - 1 := by
    have hle := (Party.canBuy_range hb.buys_released).2
    rw [hb.canBuy, INT64_MAX_eq] at hle
    omega
  obtain ⟨-, -, hpos⟩ := r.whole_of_adjusted hb.le hT hb.pos hb.adjusted
  refine ⟨(h.amount o ho).1, ?_, (h.price o ho).2.1, (h.price o ho).1.1⟩
  rw [hcost]
  exact Int.ofNat_lt.mpr hpos

end Backed

/-! ### The rest of the book -/

/-- The reserve does not grow where a sub-entry goes. -/
theorem getMinBalance_pred_le {header : LedgerHeader} (hv : 10 ≤ header.ledgerVersion) {n : ℕ}
    (hn : n < 2 ^ 31) : getMinBalance header (n - 1) ≤ getMinBalance header n := by
  have hold : ¬ header.ledgerVersion ≤ 8 := by omega
  unfold getMinBalance
  dsimp only
  rw [if_neg hold, if_neg hold, Nat.mod_eq_of_lt (by omega), Nat.mod_eq_of_lt (by omega)]
  exact Int.ofNat_le.mpr (Nat.mul_le_mul_right _ (by omega))

section Tail

variable {w : World X} {o : OfferEntry} {os : List OfferEntry} {r : Ratio} {a T n : ℕ} {ps pw : Party}

theorem reserve_taken_le (hv : 10 ≤ w.ltx.header.ledgerVersion)
    (hcount : w.ltx.view.count o.sellerID = some n) (hn : n < 2 ^ 31) (p q : Party) (asset : Asset) :
    0 ≤ (BackedOffer.taken w.ltx.view o n p q).reserve w.ltx.header o.sellerID asset ∧
      (BackedOffer.taken w.ltx.view o n p q).reserve w.ltx.header o.sellerID asset ≤
        w.ltx.view.reserve w.ltx.header o.sellerID asset := by
  unfold View.reserve
  split_ifs
  · have hcount' : (BackedOffer.taken w.ltx.view o n p q).count o.sellerID = some (n - 1) := if_pos rfl
    rw [hcount', hcount]
    exact ⟨getMinBalance_nonneg _ _, getMinBalance_pred_le hv hn⟩
  · exact ⟨le_rfl, le_rfl⟩

theorem party_taken_of_ne {v : View} (p q : Party) {b : AccountID} (asset : Asset) (h : b ≠ o.sellerID) :
    (BackedOffer.taken v o n p q).party b asset = v.party b asset := by
  simp [BackedOffer.taken, View.setParties, h]

theorem reserve_taken_of_ne {v : View} {header : LedgerHeader} (p q : Party) {b : AccountID} (asset : Asset)
    (h : b ≠ o.sellerID) :
    (BackedOffer.taken v o n p q).reserve header b asset = v.reserve header b asset := by
  unfold View.reserve
  rw [show (BackedOffer.taken v o n p q).count b = v.count b from if_neg h]

/-- The sellers keep what they promise for the rest of the book. -/
theorem Backed.tail (h : Backed w.ltx.header w.ltx.view (o :: os))
    (hb : BackedOffer w.ltx.header w.ltx.view o r a T n ps pw)
    (hcost : offerCost w.ltx.header o = (r.whole a T).2) (hv : 10 ≤ w.ltx.header.ledgerVersion)
    (hpair : ∀ o' ∈ os, o'.buying = o.buying ∧ o'.selling = o.selling) :
    Backed w.ltx.header (BackedOffer.taken w.ltx.view o n
      (BackedOffer.bought ps (r.whole a T).2 (r.whole a T).2) (BackedOffer.sold pw a a)) os where
  price o' ho' := h.price o' (List.mem_cons_of_mem _ ho')
  amount o' ho' := h.amount o' (List.mem_cons_of_mem _ ho')
  assets o' ho' := h.assets o' (List.mem_cons_of_mem _ ho')
  count o' ho' := by
    obtain ⟨n', hcount, hlength, hn⟩ := h.count o' (List.mem_cons_of_mem _ ho')
    rw [offersOf_cons] at hlength
    by_cases hseller : o'.sellerID = o.sellerID
    · rw [hseller, hb.count] at hcount
      obtain rfl := Option.some.inj hcount
      rw [if_pos hseller.symm, List.length_cons] at hlength
      exact ⟨n - 1, if_pos hseller, by omega, by omega⟩
    · rw [if_neg (Ne.symm hseller)] at hlength
      exact ⟨n', (if_neg hseller).trans hcount, hlength, hn⟩
  selling o' ho' := by
    obtain ⟨p, hp, hsound, howes⟩ := h.selling o' (List.mem_cons_of_mem _ ho')
    rw [offersOf_cons] at howes
    by_cases hseller : o'.sellerID = o.sellerID
    · rw [if_pos hseller.symm, totalAmount_cons, hb.amount] at howes
      rw [hseller, (hpair o' ho').2] at hp ⊢
      rw [hseller] at howes
      rw [hb.wheat] at hp
      obtain rfl := Option.some.inj hp
      obtain ⟨hlow, hle⟩ := reserve_taken_le hv hb.count hb.range.2
        (BackedOffer.bought ps (r.whole a T).2 (r.whole a T).2) (BackedOffer.sold pw a a) o.selling
      refine ⟨_, ?_, (hb.sold_sound le_rfl).1.mono hlow hle, BackedOffer.owesSelling_sold a howes⟩
      simp [BackedOffer.taken, View.setParties]
    · rw [if_neg (Ne.symm hseller)] at howes
      exact ⟨p, (party_taken_of_ne _ _ _ hseller).trans hp, by rwa [reserve_taken_of_ne _ _ _ hseller], howes⟩
  buying o' ho' := by
    obtain ⟨p, hp, hsound, howes, hadjust⟩ := h.buying o' (List.mem_cons_of_mem _ ho')
    rw [offersOf_cons] at howes
    by_cases hseller : o'.sellerID = o.sellerID
    · rw [if_pos hseller.symm, totalCost_cons, hcost] at howes
      rw [hseller, (hpair o' ho').1] at hp ⊢
      rw [hseller] at howes
      rw [hb.sheep] at hp
      obtain rfl := Option.some.inj hp
      refine ⟨_, ?_, hb.bought_sound (r.whole_le a T).2, BackedOffer.owesBuying_bought _ howes, ?_⟩
      · simp [BackedOffer.taken, View.setParties, hb.assets]
      · rw [BackedOffer.canBuy_bought]
        exact hadjust
    · rw [if_neg (Ne.symm hseller)] at howes
      exact ⟨p, (party_taken_of_ne _ _ _ hseller).trans hp, hsound, howes, hadjust⟩

end Tail

/-! ## What is taken from a book -/

/-- The claim of an offer that is taken as a whole. -/
def claimWhole (header : LedgerHeader) (o : OfferEntry) : ClaimOfferAtom :=
  ⟨o.sellerID, o.offerID, o.selling, o.amount, o.buying, offerCost header o⟩

/-- How a book is taken from for `wheat` with `sheep` to send: the result, the offers that are taken as a
whole and the claims. -/
inductive Filled (header : LedgerHeader) :
    List OfferEntry → ℤ → ℤ → ConvertResult → List OfferEntry → List ClaimOfferAtom → Prop
  | empty (wheat sheep : ℤ) : Filled header [] wheat sheep .ePartial [] []
  | part (o : OfferEntry) (os : List OfferEntry) (wheat sheep : ℤ) (c : Crossed)
      (hwheat : 0 ≤ c.numWheatReceived ∧ c.numWheatReceived ≤ o.amount)
      (hexact : wheat * o.price.n ≤ sheep * o.price.d → c.numWheatReceived = wheat)
      (hlast : o.amount < wheat → sheep ≤ offerCost header o) :
      Filled header (o :: os) wheat sheep .eOK [] [claimOffer o c]
  | enough (o : OfferEntry) (os : List OfferEntry) (wheat sheep : ℤ) (hwheat : o.amount ≤ wheat)
      (hdone : wheat = o.amount ∨ sheep = offerCost header o) :
      Filled header (o :: os) wheat sheep .eOK [o] [claimWhole header o]
  | whole (o : OfferEntry) (os : List OfferEntry) (wheat sheep : ℤ) (result : ConvertResult)
      (entire : List OfferEntry) (claims : List ClaimOfferAtom) (hwheat : o.amount < wheat)
      (hsheep : offerCost header o < sheep)
      (hrest : Filled header os (wheat - o.amount) (sheep - offerCost header o) result entire claims) :
      Filled header (o :: os) wheat sheep result (o :: entire) (claimWhole header o :: claims)

def soldIn (claims : List ClaimOfferAtom) : ℤ := (claims.map (·.amountSold)).sum

def boughtIn (claims : List ClaimOfferAtom) : ℤ := (claims.map (·.amountBought)).sum

def changeIn (claims : List ClaimOfferAtom) (a : AccountID) (asset : Asset) : ℤ :=
  (claims.map (·.change a asset)).sum

section Filled

variable {header : LedgerHeader} {book entire : List OfferEntry} {wheat sheep : ℤ} {result : ConvertResult}
  {claims : List ClaimOfferAtom}

theorem roundUp_le_iff {x d y : ℤ} (hd : 0 < d) : (x + d - 1) / d ≤ y ↔ x ≤ y * d := by
  rw [Int.ediv_le_iff_le_mul hd]
  omega

theorem totals_nonneg (h : ∀ o ∈ book, Priced header o) :
    0 ≤ totalAmount book ∧ 0 ≤ totalCost header book := by
  refine ⟨List.sum_nonneg fun x hx => ?_, List.sum_nonneg fun x hx => ?_⟩
  · obtain ⟨o, ho, rfl⟩ := List.mem_map.mp hx
    exact (h o ho).amount.le
  · obtain ⟨o, ho, rfl⟩ := List.mem_map.mp hx
    exact (h o ho).cost.le

/-- Something of a book costs something. -/
theorem costOf_pos (h : ∀ o ∈ book, Priced header o) (hpos : 0 < wheat) (hle : wheat ≤ totalAmount book) :
    0 < costOf header book wheat := by
  induction book generalizing wheat with
  | nil =>
    have hzero : totalAmount [] = 0 := rfl
    omega
  | cons o os ih =>
    obtain ⟨hamount, hcost, hd, hn⟩ := h o List.mem_cons_self
    rw [totalAmount_cons] at hle
    unfold costOf
    split_ifs with hfits
    · refine not_le.mp fun hzero => ?_
      rw [roundUp_le_iff hd, zero_mul] at hzero
      have hvalue := mul_pos hpos hn
      omega
    · have hrest := ih (fun o' ho' => h o' (List.mem_cons_of_mem _ ho')) (show 0 < wheat - o.amount by omega)
        (by omega)
      omega

/-- Where the book has as much and the cost can be sent, exactly what is wanted is sold. -/
theorem Filled.exact (hf : Filled header book wheat sheep result entire claims)
    (h : ∀ o ∈ book, Priced header o) (hpos : 0 < wheat) (hle : wheat ≤ totalAmount book)
    (hcost : costOf header book wheat ≤ sheep) : result = .eOK ∧ soldIn claims = wheat := by
  induction hf with
  | empty wheat sheep =>
    have hzero : totalAmount [] = 0 := rfl
    omega
  | part o os wheat sheep c hwheat hexact hlast =>
    obtain ⟨hamount, hcost', hd, hn⟩ := h o List.mem_cons_self
    rw [totalAmount_cons] at hle
    unfold costOf at hcost
    split_ifs at hcost with hfits
    · rw [roundUp_le_iff hd] at hcost
      refine ⟨rfl, ?_⟩
      show c.numWheatReceived + 0 = wheat
      rw [add_zero, hexact hcost]
    · have hrest := costOf_pos (fun o' ho' => h o' (List.mem_cons_of_mem _ ho'))
        (show 0 < wheat - o.amount by omega) (by omega)
      have := hlast (by omega)
      omega
  | enough o os wheat sheep hwheat hdone =>
    rw [totalAmount_cons] at hle
    refine ⟨rfl, ?_⟩
    show o.amount + 0 = wheat
    unfold costOf at hcost
    split_ifs at hcost with hfits
    · omega
    · have hrest := costOf_pos (fun o' ho' => h o' (List.mem_cons_of_mem _ ho'))
        (show 0 < wheat - o.amount by omega) (by omega)
      omega
  | whole o os wheat sheep result entire claims hwheat hsheep hrest ih =>
    rw [totalAmount_cons] at hle
    unfold costOf at hcost
    rw [if_neg (by omega)] at hcost
    obtain ⟨hresult, hsold⟩ := ih (fun o' ho' => h o' (List.mem_cons_of_mem _ ho')) (by omega) (by omega)
      (by omega)
    refine ⟨hresult, ?_⟩
    show o.amount + soldIn claims = wheat
    omega

/-- Where the book has less, all of it is sold and more is wanted, unless nothing is left to send. -/
theorem Filled.short (hf : Filled header book wheat sheep result entire claims)
    (h : ∀ o ∈ book, Priced header o) (hsheep : 0 < sheep) (hlt : totalAmount book < wheat) :
    (result = .ePartial ↔ totalCost header book < sheep) ∧
      (result = .ePartial → soldIn claims = totalAmount book) := by
  induction hf with
  | empty wheat sheep => exact ⟨iff_of_true rfl hsheep, fun _ => rfl⟩
  | part o os wheat sheep c hwheat hexact hlast =>
    have hrest := totals_nonneg fun o' ho' => h o' (List.mem_cons_of_mem o ho')
    rw [totalAmount_cons] at hlt
    rw [totalCost_cons]
    have := hlast (by omega)
    exact ⟨iff_of_false ConvertResult.noConfusion (by omega), fun h => ConvertResult.noConfusion h⟩
  | enough o os wheat sheep hwheat hdone =>
    have hrest := totals_nonneg fun o' ho' => h o' (List.mem_cons_of_mem o ho')
    rw [totalAmount_cons] at hlt
    rw [totalCost_cons]
    exact ⟨iff_of_false ConvertResult.noConfusion (by omega), fun h => ConvertResult.noConfusion h⟩
  | whole o os wheat sheep result entire claims hwheat hcost hrest ih =>
    rw [totalAmount_cons] at hlt ⊢
    rw [totalCost_cons]
    obtain ⟨hresult, hsold⟩ := ih (fun o' ho' => h o' (List.mem_cons_of_mem _ ho')) (by omega) (by omega)
    refine ⟨hresult.trans (by omega), fun hall => ?_⟩
    show o.amount + soldIn claims = o.amount + totalAmount os
    rw [hsold hall]

theorem Filled.ends (hf : Filled header book wheat sheep result entire claims) :
    result = .eOK ∨ result = .ePartial := by
  induction hf with
  | empty => exact .inr rfl
  | part => exact .inl rfl
  | enough => exact .inl rfl
  | whole o os wheat sheep result entire claims hwheat hsheep hrest ih => exact ih

/-- Offers are claimed in the order of the book, each as a whole but for the last one. -/
theorem Filled.inOrder (hf : Filled header book wheat sheep result entire claims) :
    ∃ rest, book = entire ++ rest ∧
      (claims = entire.map (claimWhole header) ∨ ∃ o rest' c, rest = o :: rest' ∧
        0 ≤ c.numWheatReceived ∧ c.numWheatReceived ≤ o.amount ∧
        claims = entire.map (claimWhole header) ++ [claimOffer o c]) := by
  induction hf with
  | empty wheat sheep => exact ⟨[], rfl, .inl rfl⟩
  | part o os wheat sheep c hwheat hexact hlast =>
    exact ⟨o :: os, rfl, .inr ⟨o, os, c, rfl, hwheat.1, hwheat.2, rfl⟩⟩
  | enough o os wheat sheep hwheat hdone => exact ⟨os, rfl, .inl rfl⟩
  | whole o os wheat sheep result entire claims hwheat hcost hrest ih =>
    obtain ⟨rest, hbook, hclaims⟩ := ih
    refine ⟨rest, by rw [hbook, List.cons_append], ?_⟩
    obtain rfl | ⟨o', rest', c, hrest', h0, hle, rfl⟩ := hclaims
    · exact .inl rfl
    · exact .inr ⟨o', rest', c, hrest', h0, hle, rfl⟩

/-- Every claim is of an offer of the book. -/
theorem Filled.claims_mem (hf : Filled header book wheat sheep result entire claims) :
    ∀ c ∈ claims, ∃ o ∈ book, c.sellerID = o.sellerID ∧ c.offerID = o.offerID := by
  induction hf with
  | empty wheat sheep => exact fun c hc => absurd hc List.not_mem_nil
  | part o os wheat sheep c hwheat hexact hlast =>
    intro c' hc'
    obtain rfl := List.mem_singleton.mp hc'
    exact ⟨o, List.mem_cons_self, rfl, rfl⟩
  | enough o os wheat sheep hwheat hdone =>
    intro c' hc'
    obtain rfl := List.mem_singleton.mp hc'
    exact ⟨o, List.mem_cons_self, rfl, rfl⟩
  | whole o os wheat sheep result entire claims hwheat hcost hrest ih =>
    intro c' hc'
    obtain rfl | hmem := List.mem_cons.mp hc'
    · exact ⟨o, List.mem_cons_self, rfl, rfl⟩
    · obtain ⟨o', ho', hkey⟩ := ih c' hmem
      exact ⟨o', List.mem_cons_of_mem _ ho', hkey⟩

end Filled

/-! ## The effect on the ledger -/

/-- The balances change by the claims, the offers without a claim stay and those that are taken as a whole
are gone. -/
structure Traded (entire : List OfferEntry) (claims : List ClaimOfferAtom) (v v' : View) : Prop where
  balance : ∀ a asset, v'.balance a asset = (v.balance a asset).map (· + changeIn claims a asset)
  offer : ∀ a id, (∀ c ∈ claims, ¬ (a = c.sellerID ∧ id = c.offerID)) → v'.offer a id = v.offer a id
  gone : ∀ o ∈ entire, v'.offer o.sellerID o.offerID = none

theorem Traded.nothing (v : View) : Traded [] [] v v where
  balance a asset := by
    have hzero : changeIn [] a asset = 0 := rfl
    rw [hzero]
    simp
  offer _ _ _ := rfl
  gone o ho := absurd ho List.not_mem_nil

/-- One more offer before the others. -/
theorem Traded.cons {v v₁ v' : View} {c : ClaimOfferAtom} {entire : List OfferEntry}
    {claims : List ClaimOfferAtom} (hc : Claimed c v v₁) (h : Traded entire claims v₁ v') :
    Traded entire (c :: claims) v v' where
  balance a asset := by
    have hsum : changeIn (c :: claims) a asset = c.change a asset + changeIn claims a asset := List.sum_cons
    rw [h.balance, hc.balance, Option.map_map, hsum]
    congr 1
    funext x
    show x + c.change a asset + changeIn claims a asset = _
    ring
  offer a id hnone := by
    rw [h.offer a id fun c' hc' => hnone c' (List.mem_cons_of_mem _ hc')]
    exact hc.offer a id (hnone c List.mem_cons_self)
  gone := h.gone

/-- An offer that was gone before stays so. -/
theorem Traded.gone_cons {v v' : View} {o : OfferEntry} {entire : List OfferEntry}
    {claims : List ClaimOfferAtom} (h : Traded entire claims v v')
    (hgone : v.offer o.sellerID o.offerID = none)
    (hnone : ∀ c ∈ claims, ¬ (o.sellerID = c.sellerID ∧ o.offerID = c.offerID)) :
    ∀ o' ∈ o :: entire, v'.offer o'.sellerID o'.offerID = none := by
  intro o' ho'
  obtain rfl | hmem := List.mem_cons.mp ho'
  · exact (h.offer _ _ hnone).trans hgone
  · exact h.gone o' hmem

/-- What the loop comes to over a book, from what it has so far. -/
def Outcome (header : LedgerHeader) (book : List OfferEntry) (wheat sheep sheepSend wheatReceived : ℤ)
    (offerTrail : List ClaimOfferAtom) (v : View)
    (out : (ConvertResult × ℤ × ℤ) × List ClaimOfferAtom) (v' : View) : Prop :=
  ∃ result entire claims, Filled header book wheat sheep result entire claims ∧
    out = ((result, sheepSend + boughtIn claims, wheatReceived + soldIn claims), offerTrail ++ claims) ∧
    Traded entire claims v v'

namespace Outcome

variable {header : LedgerHeader} {o : OfferEntry} {os : List OfferEntry}
  {wheat sheep sheepSend wheatReceived : ℤ} {offerTrail : List ClaimOfferAtom} {v v₁ v' : View}
  {out : (ConvertResult × ℤ × ℤ) × List ClaimOfferAtom}

theorem empty : Outcome header [] wheat sheep sheepSend wheatReceived offerTrail v
    ((.ePartial, sheepSend, wheatReceived), offerTrail) v :=
  ⟨.ePartial, [], [], .empty _ _, by simp [boughtIn, soldIn], .nothing v⟩

theorem part {c : Crossed} (hclaimed : Claimed (claimOffer o c) v v')
    (hwheat : 0 ≤ c.numWheatReceived ∧ c.numWheatReceived ≤ o.amount)
    (hexact : wheat * o.price.n ≤ sheep * o.price.d → c.numWheatReceived = wheat)
    (hlast : o.amount < wheat → sheep ≤ offerCost header o) :
    Outcome header (o :: os) wheat sheep sheepSend wheatReceived offerTrail v
      ((.eOK, sheepSend + c.numSheepSend, wheatReceived + c.numWheatReceived),
        offerTrail ++ [claimOffer o c]) v' := by
  refine ⟨.eOK, [], [claimOffer o c], .part o os wheat sheep c hwheat hexact hlast, ?_,
    (Traded.nothing v').cons hclaimed⟩
  simp [boughtIn, soldIn, claimOffer]

theorem enough (hclaimed : Claimed (claimWhole header o) v v')
    (hgone : v'.offer o.sellerID o.offerID = none) (hwheat : o.amount ≤ wheat)
    (hdone : wheat = o.amount ∨ sheep = offerCost header o) :
    Outcome header (o :: os) wheat sheep sheepSend wheatReceived offerTrail v
      ((.eOK, sheepSend + offerCost header o, wheatReceived + o.amount),
        offerTrail ++ [claimWhole header o]) v' := by
  have htraded := (Traded.nothing v').cons hclaimed
  have hclaims : ∀ c ∈ ([] : List ClaimOfferAtom), ¬ (o.sellerID = c.sellerID ∧ o.offerID = c.offerID) :=
    fun c hc => absurd hc List.not_mem_nil
  refine ⟨.eOK, [o], [claimWhole header o], .enough o os wheat sheep hwheat hdone, ?_,
    { htraded with gone := (Traded.nothing v').gone_cons hgone hclaims }⟩
  simp [boughtIn, soldIn, claimWhole]

/-- An offer that was taken as a whole, before the rest of the book. -/
theorem whole [LinearOrder Q] {quotient : Price → Q} {sheepAsset wheatAsset : Asset}
    (hclaimed : Claimed (claimWhole header o) v v₁) (hbook : IsBook quotient v₁ sheepAsset wheatAsset os)
    (hgone : v₁.offer o.sellerID o.offerID = none) (hwheat : o.amount < wheat)
    (hsheep : offerCost header o < sheep)
    (hrest : Outcome header os (wheat - o.amount) (sheep - offerCost header o)
      (sheepSend + offerCost header o) (wheatReceived + o.amount) (offerTrail ++ [claimWhole header o]) v₁
      out v') :
    Outcome header (o :: os) wheat sheep sheepSend wheatReceived offerTrail v out v' := by
  obtain ⟨result, entire, claims, hfilled, rfl, htraded⟩ := hrest
  -- a claim of the rest is of an offer that is still there
  have hclaims : ∀ c ∈ claims, ¬ (o.sellerID = c.sellerID ∧ o.offerID = c.offerID) := by
    intro c hc hkey
    obtain ⟨o', ho', hseller, hid⟩ := hfilled.claims_mem c hc
    have hthere := ((hbook.mem o').mp ho').1
    rw [← hseller, ← hid, ← hkey.1, ← hkey.2, hgone] at hthere
    cases hthere
  refine ⟨result, o :: entire, claimWhole header o :: claims,
    .whole o os wheat sheep result entire claims hwheat hsheep hfilled, ?_,
    { htraded.cons hclaimed with gone := htraded.gone_cons hgone hclaims }⟩
  have hsold : soldIn (claimWhole header o :: claims) = o.amount + soldIn claims := List.sum_cons
  have hbought : boughtIn (claimWhole header o :: claims) = offerCost header o + boughtIn claims :=
    List.sum_cons
  rw [hsold, hbought, List.append_assoc, add_assoc, add_assoc]
  rfl

end Outcome

/-! ## The loop -/

section Loop

variable [LinearOrder Q] (app : Application X Q) {sheep wheat : Asset}
  (filter : OfferEntry → Except Exception OfferFilterResult) {w : World X}

theorem convertPass_none (maxSheepSend maxWheatReceive : ℤ) (isPathPayment : Bool)
    (hbest : w.ltx.getBestOffer app.quotient sheep wheat = none) :
    convertPass app sheep maxSheepSend wheat maxWheatReceive isPathPayment filter w = .ok .noOffer w := by
  refine committedIf_ok.mpr (.inr ⟨w, bind_ok.mpr ⟨_, _, getLedger_ok.mpr ⟨rfl, rfl⟩, ?_⟩, rfl⟩)
  rw [hbest]
  rfl

/-- A pass over an offer that is crossed within what is wanted. -/
theorem returns_convertPass {o : OfferEntry} {R S : ℤ} {P : Crossed → World X → Prop}
    (hbest : w.ltx.getBestOffer app.quotient sheep wheat = some o) (hv : 10 ≤ w.ltx.header.ledgerVersion)
    (hkeep : filter o = .ok .eKeep) (hcross : Returns P (crossOfferV10 o R S true w))
    (hbounds : ∀ c w', P c w' → (0 ≤ c.numSheepSend ∧ c.numSheepSend ≤ S) ∧
      (0 ≤ c.numWheatReceived ∧ c.numWheatReceived ≤ R) ∧ c.cor ≠ .eOfferCantConvert) :
    Returns (fun pass w' => ∃ c, pass = .crossed c ∧ P c w')
      (convertPass app sheep S wheat R true filter w) := by
  unfold convertPass
  refine Returns.committedIf ?_
  refine (ends_bind_of_ok (getLedger_ok.mpr ⟨rfl, rfl⟩)).mpr ?_
  rw [hbest]
  refine (ends_bind_of_ok (lift_ok.mpr ⟨hkeep, rfl⟩)).mpr ?_
  refine (ends_bind_of_ok (loadHeader_ok.mpr ⟨rfl, rfl⟩)).mpr ?_
  rw [if_pos hv]
  refine hcross.bind fun c w' hp => ?_
  obtain ⟨⟨hsheep0, hsheep⟩, ⟨hwheat0, hwheat⟩, hcor⟩ := hbounds c w' hp
  refine (ends_bind_of_ok (a := ()) (lift_ok.mpr ⟨assert_ok.mpr hsheep0, rfl⟩)).mpr ?_
  refine (ends_bind_of_ok (a := ()) (lift_ok.mpr ⟨assert_ok.mpr hsheep, rfl⟩)).mpr ?_
  refine (ends_bind_of_ok (a := ()) (lift_ok.mpr ⟨assert_ok.mpr hwheat0, rfl⟩)).mpr ?_
  refine (ends_bind_of_ok (a := ()) (lift_ok.mpr ⟨assert_ok.mpr hwheat, rfl⟩)).mpr ?_
  exact ⟨decide_eq_true hcor, c, rfl, hp⟩

variable {filter}

/-- Over a backed book the loop comes to an end for any fuel that is more than the book is long. -/
theorem returns_convertLoopTrail (hkeep : ∀ o, filter o = .ok .eKeep) (book : List OfferEntry) (fuel : ℕ)
    (R S : ℕ) (sheepSend wheatReceived : ℤ) (offerTrail : List ClaimOfferAtom)
    (hfuel : book.length < fuel) (hv : 10 ≤ w.ltx.header.ledgerVersion)
    (hbook : IsBook app.quotient w.ltx.view sheep wheat book)
    (hbacked : Backed w.ltx.header w.ltx.view book) (hR : 0 < R) (hS : 0 < S) :
    Returns (fun out w' => Outcome w.ltx.header book R S sheepSend wheatReceived offerTrail w.ltx.view out
        w'.ltx.view)
      (convertLoopTrail app sheep wheat true filter fuel S sheepSend R wheatReceived offerTrail w) := by
  induction book generalizing fuel w R S sheepSend wheatReceived offerTrail with
  | nil =>
    obtain ⟨fuel, rfl⟩ := Nat.exists_eq_succ_of_ne_zero hfuel.ne_bot
    unfold convertLoopTrail
    refine (ends_bind_of_ok (getLedger_ok.mpr ⟨rfl, rfl⟩)).mpr ?_
    refine (ends_bind_of_ok (convertPass_none app filter _ _ _ hbook.getBestOffer_nil)).mpr ?_
    refine (ends_bind_of_ok (loadHeader_ok.mpr ⟨rfl, rfl⟩)).mpr ?_
    rw [if_neg (not_lt.mpr hv)]
    exact Outcome.empty
  | cons o os ih =>
    obtain ⟨fuel, rfl⟩ := Nat.exists_eq_succ_of_ne_zero hfuel.ne_bot
    rw [List.length_cons, Nat.succ_lt_succ_iff] at hfuel
    have hbest := hbook.getBestOffer_cons
    have hpair : ∀ o' ∈ o :: os, o'.buying = sheep ∧ o'.selling = wheat :=
      fun o' ho' => ((hbook.mem o').mp ho').2
    obtain ⟨r, a, T, n, ps, pw, hb, hcost⟩ := hbacked.head hv
    have hn : o.price.n = r.n := by rw [hb.price]; rfl
    have hd : o.price.d = r.d := by rw [hb.price]; rfl
    unfold convertLoopTrail
    refine (ends_bind_of_ok (getLedger_ok.mpr ⟨rfl, rfl⟩)).mpr ?_
    rw [hbest]
    obtain ⟨haR, hcS, hcross⟩ | ⟨x, y, hxR, hxa, hyS, hexact, hlast, hcross⟩ :=
      hb.crossOfferV10_cases hv hR hS
    · -- the offer is taken as a whole
      refine (returns_convertPass app filter hbest hv (hkeep o) hcross ?_).bind fun pass w' hc => ?_
      · rintro c w' ⟨rfl, -⟩
        exact ⟨⟨Int.natCast_nonneg _, Int.ofNat_le.mpr hcS⟩, ⟨Int.natCast_nonneg _, Int.ofNat_le.mpr haR⟩,
          CrossOfferResult.noConfusion⟩
      obtain ⟨c, rfl, rfl, hclaimed, hleaves⟩ := hc
      have hclaim : claimOffer o ⟨.eOfferTaken, a, (r.whole a T).2, false⟩ = claimWhole w.ltx.header o := by
        unfold claimWhole
        rw [hcost, hb.amount]
        rfl
      have hgone : w'.ltx.view.offer o.sellerID o.offerID = none := by
        rw [hleaves.view]
        exact if_pos ⟨rfl, rfl⟩
      rw [hclaim] at hclaimed
      dsimp only
      rw [if_neg CrossOfferResult.noConfusion, Option.toList_some, List.map_cons, List.map_nil, hclaim]
      by_cases hmore : 0 < (R : ℤ) - a ∧ 0 < (S : ℤ) - (r.whole a T).2
      · have hbook' : IsBook app.quotient w'.ltx.view sheep wheat os := by
          refine hbook.tail fun b id => ?_
          rw [hleaves.view]
          rfl
        have hbacked' : Backed w'.ltx.header w'.ltx.view os := by
          rw [hleaves.header, hleaves.view]
          refine hbacked.tail hb hcost hv fun o' ho' => ?_
          obtain ⟨hbuying, hselling⟩ := hpair o List.mem_cons_self
          obtain ⟨hbuying', hselling'⟩ := hpair o' (List.mem_cons_of_mem _ ho')
          exact ⟨hbuying'.trans hbuying.symm, hselling'.trans hselling.symm⟩
        have hrest := ih fuel (R - a) (S - (r.whole a T).2) (sheepSend + (r.whole a T).2) (wheatReceived + a)
          (offerTrail ++ [claimWhole w.ltx.header o]) hfuel (by rw [hleaves.header]; exact hv)
          hbook' hbacked' (by omega) (by omega)
        have hneed : (decide (0 < (R : ℤ) - a) && decide (0 < (S : ℤ) - (r.whole a T).2)) = true := by
          rw [Bool.and_eq_true, decide_eq_true_eq, decide_eq_true_eq]
          exact hmore
        have hneed' : ¬ (!(!false && true)) = true := by decide
        rw [Nat.cast_sub haR, Nat.cast_sub hcS, hleaves.header] at hrest
        rw [hneed, if_neg hneed', if_neg CrossOfferResult.noConfusion]
        refine hrest.imp (fun out w'' hout => ?_) fun _ _ => id
        rw [← hb.amount, ← hcost] at hout
        refine hout.whole hclaimed hbook' hgone ?_ ?_
        · rw [hb.amount]
          omega
        · rw [hcost]
          omega
      · have hneed : (decide (0 < (R : ℤ) - a) && decide (0 < (S : ℤ) - (r.whole a T).2)) = false := by
          rw [← Bool.not_eq_true, Bool.and_eq_true, decide_eq_true_eq, decide_eq_true_eq]
          exact hmore
        rw [hneed, ← hb.amount, ← hcost]
        refine Outcome.enough hclaimed hgone ?_ ?_
        · rw [hb.amount]
          exact Int.ofNat_le.mpr haR
        · rw [hb.amount, hcost]
          omega
    · -- it is the last one
      refine (returns_convertPass app filter hbest hv (hkeep o) hcross ?_).bind fun pass w' hc => ?_
      · rintro c w' ⟨⟨cor, hcor, rfl⟩, -⟩
        exact ⟨⟨Int.natCast_nonneg _, Int.ofNat_le.mpr hyS⟩, ⟨Int.natCast_nonneg _, Int.ofNat_le.mpr hxR⟩, hcor⟩
      obtain ⟨c, rfl, ⟨cor, hcor, rfl⟩, hclaimed, -⟩ := hc
      dsimp only
      rw [if_neg hcor]
      refine Outcome.part hclaimed ⟨Int.natCast_nonneg x, ?_⟩ (fun h => ?_) fun h => ?_
      · rw [hb.amount]
        exact Int.ofNat_le.mpr hxa
      · rw [hn, hd] at h
        exact congrArg Nat.cast (hexact (by exact_mod_cast h))
      · rw [hb.amount] at h
        rw [hcost]
        exact Int.ofNat_le.mpr (hlast (Int.ofNat_lt.mp h))

end Loop

/-! ## A path payment -/

/-- What a path payment of `W` from a book comes to. -/
structure Fills (header : LedgerHeader) (book : List OfferEntry) (W : ℤ) (v v' : View)
    (result : ConvertResult) (sheepSend wheatReceived : ℤ) (offerTrail : List ClaimOfferAtom) : Prop where
  /-- Offers are crossed in the order of the book, each as a whole but for the last one. -/
  inOrder : ∃ entire rest, book = entire ++ rest ∧ (∀ o ∈ entire, v'.offer o.sellerID o.offerID = none) ∧
    (offerTrail = entire.map (claimWhole header) ∨ ∃ o rest' c, rest = o :: rest' ∧
      0 ≤ c.numWheatReceived ∧ c.numWheatReceived ≤ o.amount ∧
      offerTrail = entire.map (claimWhole header) ++ [claimOffer o c])
  others : ∀ a id, (∀ c ∈ offerTrail, ¬ (a = c.sellerID ∧ id = c.offerID)) → v'.offer a id = v.offer a id
  exact : W ≤ totalAmount book → costOf header book W ≤ INT64_MAX → result = .eOK ∧ wheatReceived = W
  short : totalAmount book < W →
    result = (if totalCost header book < INT64_MAX then .ePartial else .eOK) ∧
      (result = .ePartial → wheatReceived = totalAmount book)
  sent : sheepSend = boughtIn offerTrail
  received : wheatReceived = soldIn offerTrail
  balance : ∀ a asset, v'.balance a asset = (v.balance a asset).map (· + changeIn offerTrail a asset)

/-- The outcome of the loop from nothing is that of the payment. -/
theorem Outcome.fills {header : LedgerHeader} {book : List OfferEntry} {W : ℤ} {v v' : View}
    {out : (ConvertResult × ℤ × ℤ) × List ClaimOfferAtom} (hv : 10 ≤ header.ledgerVersion)
    (hbacked : Backed header v book) (hW : 0 < W) (h : Outcome header book W INT64_MAX 0 0 [] v out v') :
    Fills header book W v v' out.1.1 out.1.2.1 out.1.2.2 out.2 := by
  obtain ⟨result, entire, claims, hfilled, rfl, htraded⟩ := h
  have hpriced : ∀ o ∈ book, Priced header o := fun o ho => hbacked.priced hv ho
  dsimp only
  rw [zero_add, zero_add, List.nil_append]
  constructor
  · obtain ⟨rest, hbook, hclaims⟩ := hfilled.inOrder
    exact ⟨entire, rest, hbook, htraded.gone, hclaims⟩
  · exact htraded.offer
  · intro hle hcost
    exact hfilled.exact hpriced hW hle hcost
  · intro hlt
    obtain ⟨hall, hsold⟩ := hfilled.short hpriced (by decide) hlt
    refine ⟨?_, hsold⟩
    split_ifs with hcost
    · exact hall.mpr hcost
    · exact hfilled.ends.resolve_right fun h => hcost (hall.mp h)
  · rfl
  · rfl
  · exact htraded.balance

section PathPayment

variable [LinearOrder Q] (app : Application X Q) {sheep wheat : Asset}
  {filter : OfferEntry → Except Exception OfferFilterResult} {w : World X} {book : List OfferEntry} {W : ℤ}

theorem returns_convertWithOffersTrail (hkeep : ∀ o, filter o = .ok .eKeep)
    (hv : 10 ≤ w.ltx.header.ledgerVersion) (hbook : IsBook app.quotient w.ltx.view sheep wheat book)
    (hbacked : Backed w.ltx.header w.ltx.view book) (hW : 0 < W) :
    Returns (fun out w' => Fills w.ltx.header book W w.ltx.view w'.ltx.view out.1.1 out.1.2.1 out.1.2.2 out.2)
      (convertWithOffersTrail app sheep INT64_MAX wheat W true filter w) := by
  obtain ⟨R, rfl⟩ := Int.eq_ofNat_of_zero_le hW.le
  have hR : 0 < R := Int.natCast_pos.mp hW
  have hneed : 0 < (R : ℤ) ∧ 0 < INT64_MAX := ⟨hW, by decide⟩
  have hloop := returns_convertLoopTrail app hkeep book (w.ltx.offers.length + 1) R (2 ^ 63 - 1) 0 0 []
    (Nat.lt_succ_of_le hbook.length_le) hv hbook hbacked hR (by omega)
  have hruns : convertWithOffersTrail app sheep INT64_MAX wheat R true filter =
      (getLedger >>= fun ltx : AbstractLedgerTxn => convertLoopTrail app sheep wheat true filter
        (ltx.offers.length + 1) INT64_MAX 0 R 0 [] : AppM X _) := if_pos hneed
  rw [hruns]
  refine (ends_bind_of_ok (getLedger_ok.mpr ⟨rfl, rfl⟩)).mpr ?_
  exact hloop.imp (fun out w' hout => hout.fills hv hbacked hW) fun _ _ => id

/-- **A path payment fills exactly.** From a book of backed offers it gets what it asks for if the book has
as much and the cost can be sent. If the book has less, all of it is sold unless nothing is left to send. -/
theorem convertWithOffers_fills (hkeep : ∀ o, filter o = .ok .eKeep)
    (hv : 10 ≤ w.ltx.header.ledgerVersion) (hbook : IsBook app.quotient w.ltx.view sheep wheat book)
    (hbacked : Backed w.ltx.header w.ltx.view book) (hW : 0 < W) :
    ∃ result sheepSend wheatReceived offerTrail w',
      convertWithOffers app sheep INT64_MAX wheat W true filter w =
        .ok (result, sheepSend, wheatReceived) w' ∧
      convertWithOffersTrail app sheep INT64_MAX wheat W true filter w =
        .ok ((result, sheepSend, wheatReceived), offerTrail) w' ∧
      Fills w.ltx.header book W w.ltx.view w'.ltx.view result sheepSend wheatReceived offerTrail := by
  obtain ⟨⟨⟨result, sheepSend, wheatReceived⟩, offerTrail⟩, w', hrun, hfills⟩ :=
    (returns_convertWithOffersTrail app hkeep hv hbook hbacked hW).exists_ok
  refine ⟨result, sheepSend, wheatReceived, offerTrail, w', ?_, hrun, hfills⟩
  rw [← convertWithOffers_eq]
  change EStateM.map Prod.fst _ w = _
  unfold EStateM.map
  rw [hrun]

end PathPayment

def eur : Asset := .alphaNum4 0x45555200 9

def usd : Asset := .alphaNum4 0x55534400 9

/-- Offers of dollars by two sellers, the second and the third at one price. -/
def threeOffers : List OfferEntry :=
  [{ sellerID := 8, offerID := 1, selling := usd, buying := eur, amount := 100, price := ⟨7, 1⟩, flags := 0 },
   { sellerID := 6, offerID := 2, selling := usd, buying := eur, amount := 30, price := ⟨9, 1⟩, flags := 0 },
   { sellerID := 8, offerID := 3, selling := usd, buying := eur, amount := 50, price := ⟨9, 1⟩, flags := 0 }]

/-- A world whose only offers are these. -/
def sellersWorld : World Unit :=
  let header := { genesisLedger with totalCoins := 1000000000 }
  let entries : List LedgerEntryData :=
    [.account { rootAccount 8 header with numSubEntries := 4 },
     .trustLine ⟨8, eur, 0, INT64_MAX, 1, some ⟨1150, 0⟩⟩,
     .trustLine ⟨8, usd, 150, INT64_MAX, 1, some ⟨0, 150⟩⟩,
     .account { rootAccount 6 header with numSubEntries := 3 },
     .trustLine ⟨6, eur, 0, INT64_MAX, 1, some ⟨270, 0⟩⟩,
     .trustLine ⟨6, usd, 30, INT64_MAX, 1, some ⟨0, 30⟩⟩]
  standaloneWorld.setLtx ((entries ++ threeOffers.reverse.map LedgerEntryData.offer).foldl (·.put ·) standaloneWorld.ltx)

theorem sellersWorld_isBook : IsBook standalone.quotient sellersWorld.ltx.view eur usd threeOffers :=
  isBook_of_offers (by decide +kernel) (by decide +kernel)

theorem sellersWorld_backed : Backed sellersWorld.ltx.header sellersWorld.ltx.view threeOffers where
  price := by decide
  amount := by decide
  assets := by decide
  count := by
    simp only [threeOffers, List.forall_mem_cons, List.not_mem_nil, false_imp_iff, implies_true, and_true]
    exact ⟨⟨4, by decide +kernel, by decide⟩, ⟨3, by decide +kernel, by decide⟩, 4, by decide +kernel, by decide⟩
  selling := by
    have hfirst : ∃ p, sellersWorld.ltx.view.party 8 usd = some p ∧
        p.Sound (sellersWorld.ltx.view.reserve sellersWorld.ltx.header 8 usd) ∧ p.OwesSelling 150 := by
      refine ⟨.holder ⟨true, 150, INT64_MAX, 0, 150⟩, by decide +kernel, ?_, ?_⟩
      · constructor <;> decide +kernel
      · exact (by decide : (150 : ℤ) + 0 ≤ 150)
    have hsecond : ∃ p, sellersWorld.ltx.view.party 6 usd = some p ∧
        p.Sound (sellersWorld.ltx.view.reserve sellersWorld.ltx.header 6 usd) ∧ p.OwesSelling 30 := by
      refine ⟨.holder ⟨true, 30, INT64_MAX, 0, 30⟩, by decide +kernel, ?_, ?_⟩
      · constructor <;> decide +kernel
      · exact (by decide : (30 : ℤ) + 0 ≤ 30)
    simp only [threeOffers, List.forall_mem_cons, List.not_mem_nil, false_imp_iff, implies_true, and_true]
    exact ⟨hfirst, hsecond, hfirst⟩
  buying := by
    have hfirst : ∃ p, sellersWorld.ltx.view.party 8 eur = some p ∧ p.Sound 0 ∧
        p.OwesBuying (totalCost sellersWorld.ltx.header (offersOf threeOffers 8)) ∧
        ∀ o ∈ offersOf threeOffers 8, adjustOffer o.price o.amount
          (p.map (Standing.addBuying (-offerCost sellersWorld.ltx.header o))).canBuy = .ok o.amount := by
      refine ⟨.holder ⟨true, 0, INT64_MAX, 1150, 0⟩, by decide +kernel, ?_, ?_, by decide +kernel⟩
      · constructor <;> decide
      · exact (by decide +kernel : totalCost sellersWorld.ltx.header (offersOf threeOffers 8) ≤ 1150)
    have hsecond : ∃ p, sellersWorld.ltx.view.party 6 eur = some p ∧ p.Sound 0 ∧
        p.OwesBuying (totalCost sellersWorld.ltx.header (offersOf threeOffers 6)) ∧
        ∀ o ∈ offersOf threeOffers 6, adjustOffer o.price o.amount
          (p.map (Standing.addBuying (-offerCost sellersWorld.ltx.header o))).canBuy = .ok o.amount := by
      refine ⟨.holder ⟨true, 0, INT64_MAX, 270, 0⟩, by decide +kernel, ?_, ?_, by decide +kernel⟩
      · constructor <;> decide
      · exact (by decide +kernel : totalCost sellersWorld.ltx.header (offersOf threeOffers 6) ≤ 270)
    intro o ho
    have hseller : o.buying = eur ∧ (o.sellerID = 8 ∨ o.sellerID = 6) :=
      (by decide : ∀ o ∈ threeOffers, o.buying = eur ∧ (o.sellerID = 8 ∨ o.sellerID = 6)) o ho
    have hmem : o ∈ offersOf threeOffers o.sellerID := List.mem_filter.mpr ⟨ho, by simp⟩
    rw [hseller.1]
    rcases hseller.2 with h | h
    · rw [h] at hmem ⊢
      obtain ⟨p, hp, hsound, howes, hadjust⟩ := hfirst
      exact ⟨p, hp, hsound, howes, hadjust o hmem⟩
    · rw [h] at hmem ⊢
      obtain ⟨p, hp, hsound, howes, hadjust⟩ := hsecond
      exact ⟨p, hp, hsound, howes, hadjust o hmem⟩

/-- For 140 dollars the first two offers are taken whole, and ten dollars of the third. -/
theorem convertWithOffers_fills_threeOffers :
    ∃ offerTrail w',
      convertWithOffers standalone eur INT64_MAX usd 140 true (fun _ => .ok .eKeep) sellersWorld =
        .ok (.eOK, 1060, 140) w' ∧
      convertWithOffersTrail standalone eur INT64_MAX usd 140 true (fun _ => .ok .eKeep) sellersWorld =
        .ok ((.eOK, 1060, 140), offerTrail) w' ∧
      Fills sellersWorld.ltx.header threeOffers 140 sellersWorld.ltx.view w'.ltx.view .eOK 1060 140 offerTrail := by
  obtain ⟨result, sheepSend, wheatReceived, offerTrail, w', hrun, htrail, hfills⟩ :=
    convertWithOffers_fills standalone (fun _ => rfl) (by decide) sellersWorld_isBook sellersWorld_backed
      (by decide : (0 : ℤ) < 140)
  have hresult : result? (convertWithOffers standalone eur INT64_MAX usd 140 true (fun _ => .ok .eKeep)
      sellersWorld) = some (.eOK, 1060, 140) := by decide +kernel
  rw [hrun] at hresult
  obtain ⟨rfl, rfl, rfl⟩ : result = .eOK ∧ sheepSend = 1060 ∧ wheatReceived = 140 := by
    simpa [result?] using hresult
  exact ⟨offerTrail, w', hrun, htrail, hfills⟩

/-- An offer of dollars at seven euros each that costs as many euros as there can be. -/
def wholeOffer : OfferEntry :=
  { sellerID := 8, offerID := 1, selling := usd, buying := eur, amount := INT64_MAX / 7, price := ⟨7, 1⟩,
    flags := 0 }

/-- A world whose only offer is that one. -/
def sellerWorld : World Unit :=
  let seller : AccountEntry :=
    { rootAccount 8 { genesisLedger with totalCoins := 1000000000 } with numSubEntries := 3 }
  let euros : TrustLineEntry := ⟨8, eur, 0, INT64_MAX, 1, some ⟨INT64_MAX, 0⟩⟩
  let dollars : TrustLineEntry := ⟨8, usd, INT64_MAX / 7, INT64_MAX, 1, some ⟨0, INT64_MAX / 7⟩⟩
  standaloneWorld.setLtx ((((standaloneWorld.ltx.put (.account seller)).put (.trustLine euros)).put
    (.trustLine dollars)).put (.offer wholeOffer))

theorem sellerWorld_isBook : IsBook standalone.quotient sellerWorld.ltx.view eur usd [wholeOffer] :=
  isBook_of_offers (List.pairwise_singleton _ _) (by decide +kernel)

theorem sellerWorld_backed : Backed sellerWorld.ltx.header sellerWorld.ltx.view [wholeOffer] where
  price := by decide
  amount := by decide
  assets := by decide
  count := by
    rw [List.forall_mem_singleton]
    exact ⟨3, by decide +kernel, by decide⟩
  selling := by
    rw [List.forall_mem_singleton]
    refine ⟨.holder ⟨true, INT64_MAX / 7, INT64_MAX, 0, INT64_MAX / 7⟩, by decide +kernel, ?_, ?_⟩
    · constructor <;> decide +kernel
    · exact (by decide : INT64_MAX / 7 + 0 ≤ INT64_MAX / 7)
  buying := by
    rw [List.forall_mem_singleton]
    refine ⟨.holder ⟨true, 0, INT64_MAX, INT64_MAX, 0⟩, by decide +kernel, ?_, ?_, by decide +kernel⟩
    · constructor <;> decide
    · exact (by decide +kernel : totalCost sellerWorld.ltx.header [wholeOffer] ≤ INT64_MAX)

/-- An offer that takes all that can be sent ends a payment with success, for less than it asked for. -/
theorem convertWithOffers_exhausted :
    IsBook standalone.quotient sellerWorld.ltx.view eur usd [wholeOffer] ∧
      Backed sellerWorld.ltx.header sellerWorld.ltx.view [wholeOffer] ∧
      totalAmount [wholeOffer] < 2 ^ 62 ∧
      ∃ w', convertWithOffers standalone eur INT64_MAX usd (2 ^ 62) true (fun _ => .ok .eKeep) sellerWorld =
        .ok (.eOK, INT64_MAX, INT64_MAX / 7) w' :=
  ⟨sellerWorld_isBook, sellerWorld_backed, by decide, _, eq_ok_of_result? (by decide +kernel)⟩

end ZaggCore.Transactions
