import Mathlib
import ZaggCore.Ledger.LedgerTxn
import ZaggCore.Foundations.BestOf

/-! # The best offer of an asset pair

`getBestOffer` of `LedgerTxn` and `LedgerTxnRoot`. Every transaction scans its own offers, adds their
keys to the excluded ones and asks its parent; the root pages through the offers table five rows at a
time and keeps the prefix it has read in `mBestOffersCache`. The query sorts a pair's offers as
`isBetterOffer` does. -/

namespace ZaggCore.Ledger
set_option autoImplicit false
set_option maxHeartbeats 250000

open Util Foundations

variable {Q : Type} [LinearOrder Q] (quotient : Price → Q)

/-! ## The model -/

/-- Whether an entry is an offer of the pair. -/
def isOfferOf (buying selling : Asset) (e : LedgerEntry) : Bool :=
  match e.data with
  | .offer o => o.buying = buying && o.selling = selling
  | _ => false

/-- The price as a double, then the offer ID; entries that are no offers come last. -/
def rank (e : LedgerEntry) : WithTop (Q ×ₗ ℕ) :=
  match e.data with
  | .offer o => (toLex (quotient o.price, o.offerID) : Q ×ₗ ℕ)
  | _ => ⊤

def isBetterOffer (lhsEntry rhsEntry : LedgerEntry) : Bool :=
  match lhsEntry.data, rhsEntry.data with
  | .offer lhs, .offer rhs =>
    if quotient lhs.price < quotient rhs.price then true
    else if quotient lhs.price = quotient rhs.price then lhs.offerID < rhs.offerID
    else false
  | _, _ => false

/-- Whether a key is of type `OFFER`. -/
def isOfferKey : LedgerKey → Bool
  | .offer _ _ => true
  | _ => false

/-- Keep the better of the best offer so far and a candidate. -/
def takeOffer (best candidate : Option LedgerEntry) : Option LedgerEntry :=
  match candidate, best with
  | some e, some b => some (if isBetterOffer quotient e b then e else b)
  | some e, none => some e
  | none, b => b

/-- The loop of `LedgerTxn::Impl::getBestOffer` over `mEntry`. -/
def scanOffers (buying selling : Asset) : EntryIterator → Option LedgerEntry → Finset LedgerKey →
    Option LedgerEntry × Finset LedgerKey
  | [], best, exclude => (best, exclude)
  | ⟨key, entry⟩ :: iter, best, exclude =>
    if !isOfferKey key then scanOffers buying selling iter best exclude
    else if key ∈ exclude then scanOffers buying selling iter best exclude
    else
      let candidate := entry.filter (isOfferOf buying selling)
      scanOffers buying selling iter (takeOffer quotient best candidate) (insert key exclude)

/-- The pair's rows in the order of the query. -/
def Database.pairOffers (db : Database) (buying selling : Asset) : List LedgerEntry :=
  ((db.rows.entries.map Sigma.snd).filter (isOfferOf buying selling)).mergeSort
    fun a b => rank quotient a ≤ rank quotient b

/-- `loadBestOffers`: one page of the query. -/
def Database.loadBestOffers (db : Database) (buying selling : Asset) (numOffers offset : ℕ) :
    List LedgerEntry :=
  ((db.pairOffers quotient buying selling).drop offset).take numOffers

def findIncludedOffer (offers : List LedgerEntry) (exclude : Finset LedgerKey) : Option LedgerEntry :=
  offers.find? fun e => e.key ∉ exclude

def BATCH_SIZE : ℕ := 5

theorem loadBestOffers_length {db : Database} {buying selling : Asset} {offset : ℕ}
    (h : ¬ (db.loadBestOffers quotient buying selling BATCH_SIZE offset).length < BATCH_SIZE) :
    offset + BATCH_SIZE ≤ (db.pairOffers quotient buying selling).length := by
  simp only [Database.loadBestOffers, List.length_take, List.length_drop, BATCH_SIZE] at h ⊢
  omega

/-- The loop of `LedgerTxnRoot::Impl::getBestOffer`, entered without a result. -/
def pageOffers (db : Database) (buying selling : Asset) (exclude : Finset LedgerKey)
    (cached : BestOffersCacheEntry) : Option LedgerEntry × BestOffersCacheEntry :=
  if cached.allLoaded then (none, cached)
  else
    let page := db.loadBestOffers quotient buying selling BATCH_SIZE cached.bestOffers.length
    let offers := cached.bestOffers ++ page
    if page.length < BATCH_SIZE then (findIncludedOffer page exclude, ⟨offers, true⟩)
    else
      match findIncludedOffer page exclude with
      | some e => (some e, ⟨offers, false⟩)
      | none => pageOffers db buying selling exclude ⟨offers, false⟩
  termination_by (db.pairOffers quotient buying selling).length - cached.bestOffers.length
  decreasing_by
    have hpage : ¬ (db.loadBestOffers quotient buying selling BATCH_SIZE cached.bestOffers.length).length
      < BATCH_SIZE := ‹_›
    have htotal := loadBestOffers_length quotient hpage
    have hpos : 0 < BATCH_SIZE := by decide
    rw [List.length_append]
    omega

/-- `getFromBestOffersCache`: the cache entry of the pair, put there if it was not, and the cache. A
cache that keeps nothing leaves the caller with the default. -/
def LedgerTxnRoot.getFromBestOffersCache (root : LedgerTxnRoot) (buying selling : Asset) :
    BestOffersCacheEntry × LruCache (Asset × Asset) BestOffersCacheEntry :=
  let cache :=
    if root.mBestOffersCache.exists? (buying, selling) then root.mBestOffersCache
    else root.mBestOffersCache.put (buying, selling) ⟨[], false⟩
  ((cache.find? (buying, selling)).getD ⟨[], false⟩, cache.touch (buying, selling))

/-- The search of a cache entry: what it holds, then page by page. -/
def searchOffers (db : Database) (buying selling : Asset) (exclude : Finset LedgerKey)
    (cached : BestOffersCacheEntry) : Option LedgerEntry × BestOffersCacheEntry :=
  match findIncludedOffer cached.bestOffers exclude with
  | some e => (some e, cached)
  | none => pageOffers quotient db buying selling exclude cached

/-- `LedgerTxnRoot::Impl::getBestOffer`. The cache entry is updated in place. -/
def LedgerTxnRoot.getBestOffer (root : LedgerTxnRoot) (buying selling : Asset)
    (exclude : Finset LedgerKey) : Option LedgerEntry × LedgerTxnRoot :=
  let (cached, cache) := root.getFromBestOffersCache buying selling
  let (res, cached) := searchOffers quotient root.mDatabase buying selling exclude cached
  (res, { root with mBestOffersCache := cache.set (buying, selling) cached })

/-- `LedgerTxn::Impl::getBestOffer` of the first transaction, with its parents and the root. -/
def getBestOffer (buying selling : Asset) :
    List LedgerTxn → LedgerTxnRoot → Finset LedgerKey → Option LedgerEntry × LedgerTxnRoot
  | [], root, exclude => root.getBestOffer quotient buying selling exclude
  | t :: parents, root, exclude =>
    let (bestOffer, exclude) := scanOffers quotient buying selling t.mEntry.entries none exclude
    let (parentBestOffer, root) := getBestOffer buying selling parents root exclude
    (takeOffer quotient parentBestOffer bestOffer, root)

/-! ## The order of offers -/

theorem exists_offer {buying selling : Asset} {e : LedgerEntry}
    (h : isOfferOf buying selling e = true) :
    ∃ o, e.data = .offer o ∧ o.buying = buying ∧ o.selling = selling := by
  unfold isOfferOf at h
  split at h
  · next o ho => exact ⟨o, ho, by simpa using h⟩
  · cases h

theorem isOfferKey_key {buying selling : Asset} {e : LedgerEntry}
    (h : isOfferOf buying selling e = true) : isOfferKey e.key = true := by
  obtain ⟨o, ho, -⟩ := exists_offer h
  rw [LedgerEntry.key, ho]
  rfl

theorem isBetterOffer_iff {buying selling : Asset} {a b : LedgerEntry}
    (ha : isOfferOf buying selling a = true)
    (hb : isOfferOf buying selling b = true) :
    isBetterOffer quotient a b = true ↔ rank quotient a < rank quotient b := by
  obtain ⟨oa, hoa, -⟩ := exists_offer ha
  obtain ⟨ob, hob, -⟩ := exists_offer hb
  unfold isBetterOffer rank
  rw [hoa, hob]
  dsimp only
  rw [WithTop.coe_lt_coe, Prod.Lex.toLex_lt_toLex]
  split_ifs with hlt heq
  · simp [hlt]
  · simp [heq]
  · simp [hlt, heq]

/-- An optional entry is an offer of the pair if it is there. -/
def IsPairOffer (buying selling : Asset) (o : Option LedgerEntry) : Prop :=
  ∀ e, o = some e → isOfferOf buying selling e = true

theorem takeOffer_eq {buying selling : Asset} {best candidate : Option LedgerEntry}
    (hb : IsPairOffer buying selling best) (hc : IsPairOffer buying selling candidate) :
    takeOffer quotient best candidate = better (rank quotient) candidate best := by
  cases candidate with
  | none => rfl
  | some e =>
    cases best with
    | none => rfl
    | some b => simp only [takeOffer, better, isBetterOffer_iff quotient (hc e rfl) (hb b rfl)]

theorem isPairOffer_takeOffer {buying selling : Asset} {best candidate : Option LedgerEntry}
    (hb : IsPairOffer buying selling best) (hc : IsPairOffer buying selling candidate) :
    IsPairOffer buying selling (takeOffer quotient best candidate) := by
  intro e he
  unfold takeOffer at he
  split at he
  · next a b =>
    rw [← Option.some.inj he]
    split
    · exact hc a rfl
    · exact hb b rfl
  · exact hc e he
  · exact hb e he

/-! ## The scan of one transaction -/

/-- The offers of a pair that an entry map has under keys that are not excluded. -/
def ownOffers (buying selling : Asset) (iter : EntryIterator) (exclude : Finset LedgerKey) :
    Set LedgerEntry :=
  {e | ∃ k ∉ exclude, isOfferKey k ∧ ⟨k, some e⟩ ∈ iter ∧ isOfferOf buying selling e}

theorem ownOffers_cons_skip {buying selling : Asset} {kv : Sigma fun _ : LedgerKey => Option LedgerEntry}
    {iter : EntryIterator} {exclude : Finset LedgerKey}
    (h : ∀ e, kv.2 = some e → kv.1 ∉ exclude → isOfferKey kv.1 →
      ¬ isOfferOf buying selling e) :
    ownOffers buying selling (kv :: iter) exclude = ownOffers buying selling iter exclude := by
  ext e
  constructor
  · rintro ⟨k, hk, hoff, hmem, hof⟩
    rcases List.mem_cons.mp hmem with rfl | hmem
    · exact absurd hof (h e rfl hk hoff)
    · exact ⟨k, hk, hoff, hmem, hof⟩
  · rintro ⟨k, hk, hoff, hmem, hof⟩
    exact ⟨k, hk, hoff, List.mem_cons_of_mem _ hmem, hof⟩

theorem ownOffers_insert {buying selling : Asset} {key : LedgerKey} {iter : EntryIterator}
    {exclude : Finset LedgerKey} (h : key ∉ iter.keys) :
    ownOffers buying selling iter (insert key exclude) = ownOffers buying selling iter exclude := by
  ext e
  constructor
  · rintro ⟨k, hk, rest⟩
    exact ⟨k, fun hmem => hk (Finset.mem_insert_of_mem hmem), rest⟩
  · rintro ⟨k, hk, hoff, hmem, hof⟩
    refine ⟨k, fun hins => ?_, hoff, hmem, hof⟩
    rcases Finset.mem_insert.mp hins with rfl | hins
    · exact h (List.mem_keys_of_mem hmem)
    · exact hk hins

theorem ownOffers_cons_take {buying selling : Asset} {key : LedgerKey} {entry : Option LedgerEntry}
    {iter : EntryIterator} {exclude : Finset LedgerKey} (hk : key ∉ exclude)
    (hoff : isOfferKey key) :
    ownOffers buying selling (⟨key, entry⟩ :: iter) exclude
      = {e | entry.filter (isOfferOf buying selling) = some e}
        ∪ ownOffers buying selling iter exclude := by
  ext e'
  constructor
  · rintro ⟨k, hk', hoff', hmem, hof'⟩
    rcases List.mem_cons.mp hmem with heq | hmem
    · cases heq
      exact .inl (by simp [Option.filter_some, hof'])
    · exact .inr ⟨k, hk', hoff', hmem, hof'⟩
  · rintro (heq | ⟨k, hk', hoff', hmem, hof'⟩)
    · obtain ⟨rfl, hof⟩ := Option.filter_eq_some_iff.mp heq
      exact ⟨key, hk, hoff, List.mem_cons_self, hof⟩
    · exact ⟨k, hk', hoff', List.mem_cons_of_mem _ hmem, hof'⟩

/-- The scan finds a best offer among the one it starts with and those of its iterator, and excludes
every offer key it has seen. -/
theorem scanOffers_spec (buying selling : Asset) (iter : EntryIterator) (hnd : iter.NodupKeys)
    (best : Option LedgerEntry) (hbest : IsPairOffer buying selling best)
    (S : Set LedgerEntry) (hS : BestOf (rank quotient) S best) (exclude : Finset LedgerKey) :
    BestOf (rank quotient) (ownOffers buying selling iter exclude ∪ S)
        (scanOffers quotient buying selling iter best exclude).1 ∧
      IsPairOffer buying selling (scanOffers quotient buying selling iter best exclude).1 ∧
      ∀ k, k ∈ (scanOffers quotient buying selling iter best exclude).2 ↔
        k ∈ exclude ∨ isOfferKey k = true ∧ k ∈ iter.keys := by
  induction iter generalizing best S exclude with
  | nil => simpa [scanOffers, ownOffers] using ⟨hS, hbest⟩
  | cons kv iter ih =>
    obtain ⟨key, entry⟩ := kv
    obtain ⟨hkey, hnd'⟩ := List.nodupKeys_cons.mp hnd
    have hkeys : ∀ k, k ∈ List.keys (⟨key, entry⟩ :: iter : EntryIterator) ↔ k = key ∨ k ∈ iter.keys :=
      fun k => by rw [List.keys_cons, List.mem_cons]
    rw [scanOffers]
    by_cases hoff : isOfferKey key = true
    swap
    · obtain ⟨h1, h2, h3⟩ := ih hnd' best hbest S hS exclude
      rw [if_pos (by simpa using hoff), ownOffers_cons_skip fun _ _ _ h => absurd h hoff]
      refine ⟨h1, h2, fun k => (h3 k).trans (or_congr_right (and_congr_right fun hk => ?_))⟩
      rw [hkeys]
      exact ⟨.inr, fun h => h.resolve_left fun heq => hoff (heq ▸ hk)⟩
    rw [if_neg (by simpa using hoff)]
    by_cases hex : key ∈ exclude
    · obtain ⟨h1, h2, h3⟩ := ih hnd' best hbest S hS exclude
      rw [if_pos hex, ownOffers_cons_skip fun _ _ h => absurd hex h]
      refine ⟨h1, h2, fun k => (h3 k).trans ?_⟩
      rw [hkeys]
      grind
    rw [if_neg hex]
    have hcand : IsPairOffer buying selling (entry.filter (isOfferOf buying selling)) :=
      fun e he => (Option.filter_eq_some_iff.mp he).2
    have hbest' := (bestOf_option (rank quotient)
      (entry.filter (isOfferOf buying selling))).union _ hS
    rw [← takeOffer_eq quotient hbest hcand] at hbest'
    obtain ⟨h1, h2, h3⟩ := ih hnd' _ (isPairOffer_takeOffer quotient hbest hcand) _ hbest'
      (insert key exclude)
    rw [ownOffers_insert hkey, Set.union_left_comm, ← Set.union_assoc,
      ← ownOffers_cons_take hex hoff] at h1
    refine ⟨h1, h2, fun k => (h3 k).trans ?_⟩
    rw [hkeys, Finset.mem_insert]
    grind

/-! ## The root -/

/-- A cache entry holds a prefix of the query's result, all of it once everything is loaded. -/
def BestOffersCacheEntry.OK (db : Database) (pair : Asset × Asset) (cached : BestOffersCacheEntry) : Prop :=
  cached.bestOffers <+: db.pairOffers quotient pair.1 pair.2 ∧
    (cached.allLoaded = true → cached.bestOffers = db.pairOffers quotient pair.1 pair.2)

/-- The cached prefixes agree with the offers table. -/
def LedgerTxnRoot.BestOffersOK (root : LedgerTxnRoot) : Prop :=
  root.mBestOffersCache.All (BestOffersCacheEntry.OK quotient root.mDatabase)

theorem mem_pairOffers {db : Database} {buying selling : Asset} {e : LedgerEntry} :
    e ∈ db.pairOffers quotient buying selling ↔
      db.load e.key = some e ∧ isOfferOf buying selling e = true := by
  rw [Database.pairOffers, List.mem_mergeSort, List.mem_filter, List.mem_map]
  refine and_congr_left fun _ => ⟨?_, fun h => ?_⟩
  · rintro ⟨⟨k, e⟩, hmem, rfl⟩
    have hlook : db.load k = some e := List.mem_dlookup db.rows.nodupKeys hmem
    rwa [db.keyed k e hlook]
  · exact ⟨⟨e.key, e⟩, List.of_mem_dlookup h, rfl⟩

theorem pairOffers_sorted (db : Database) (buying selling : Asset) :
    (db.pairOffers quotient buying selling).Pairwise fun a b => rank quotient a ≤ rank quotient b := by
  have h : (db.pairOffers quotient buying selling).Pairwise
      fun a b => decide (rank quotient a ≤ rank quotient b) = true :=
    List.pairwise_mergeSort (fun a b c h₁ h₂ => by simp only [decide_eq_true_eq] at *; exact h₁.trans h₂)
      (fun a b => by simpa using le_total (rank quotient a) (rank quotient b)) _
  exact h.imp fun h => by simpa using h

/-- The page after a prefix of the query's result extends it to a longer prefix; a short page is the
last one. -/
theorem append_page {db : Database} {buying selling : Asset} {offers : List LedgerEntry}
    (h : offers <+: db.pairOffers quotient buying selling) :
    let page := db.loadBestOffers quotient buying selling BATCH_SIZE offers.length
    offers ++ page <+: db.pairOffers quotient buying selling ∧
      (page.length < BATCH_SIZE → offers ++ page = db.pairOffers quotient buying selling) := by
  obtain ⟨rest, hrest⟩ := h
  have hdrop : (db.pairOffers quotient buying selling).drop offers.length = rest := by
    rw [← hrest, List.drop_left]
  intro page
  have hpage : page = rest.take BATCH_SIZE := by rw [← hdrop]; rfl
  rw [hpage, ← hrest]
  refine ⟨List.prefix_append_right_inj offers |>.mpr (List.take_prefix _ _), fun hlt => ?_⟩
  rw [List.length_take] at hlt
  rw [List.take_of_length_le (by omega)]

/-- Paging on from a prefix without a hit finds what a search of the whole result finds. -/
theorem pageOffers_spec (db : Database) (buying selling : Asset) (exclude : Finset LedgerKey)
    (cached : BestOffersCacheEntry) (hok : cached.OK quotient db (buying, selling))
    (hnone : findIncludedOffer cached.bestOffers exclude = none) :
    (pageOffers quotient db buying selling exclude cached).1
        = findIncludedOffer (db.pairOffers quotient buying selling) exclude ∧
      (pageOffers quotient db buying selling exclude cached).2.OK quotient db (buying, selling) := by
  have happend : ∀ l, findIncludedOffer (cached.bestOffers ++ l) exclude = findIncludedOffer l exclude := by
    intro l
    rw [findIncludedOffer, List.find?_append]
    rw [findIncludedOffer] at hnone
    rw [hnone]
    rfl
  fun_induction pageOffers quotient db buying selling exclude cached with
  | case1 cached hall => exact ⟨by rw [← hok.2 hall, hnone], hok⟩
  | case2 cached hall page offers hlt =>
    obtain ⟨hpre, hlast⟩ := append_page quotient hok.1
    refine ⟨?_, hpre, fun _ => hlast hlt⟩
    rw [← hlast hlt, happend]
  | case3 cached hall page offers hlt e he =>
    obtain ⟨⟨rest, hrest⟩, -⟩ := append_page quotient hok.1
    refine ⟨?_, append_page quotient hok.1 |>.1, fun h => (nomatch h)⟩
    rw [← hrest, List.append_assoc, happend, findIncludedOffer, List.find?_append]
    rw [findIncludedOffer] at he
    rw [he]
    rfl
  | case4 cached hall page offers hlt he ih =>
    have hpre := (append_page quotient hok.1).1
    have hnone' : findIncludedOffer offers exclude = none := by rw [happend, he]
    refine ih ⟨hpre, fun h => (nomatch h)⟩ hnone' fun l => ?_
    rw [findIncludedOffer, List.find?_append]
    rw [findIncludedOffer] at hnone'
    rw [hnone']
    rfl

theorem searchOffers_spec (db : Database) (buying selling : Asset) (exclude : Finset LedgerKey)
    (cached : BestOffersCacheEntry) (hok : cached.OK quotient db (buying, selling)) :
    (searchOffers quotient db buying selling exclude cached).1
        = findIncludedOffer (db.pairOffers quotient buying selling) exclude ∧
      (searchOffers quotient db buying selling exclude cached).2.OK quotient db (buying, selling) := by
  unfold searchOffers
  cases hfind : findIncludedOffer cached.bestOffers exclude with
  | some e =>
    obtain ⟨rest, hrest⟩ := hok.1
    refine ⟨?_, hok⟩
    rw [← hrest, findIncludedOffer, List.find?_append]
    rw [findIncludedOffer] at hfind
    rw [hfind]
    rfl
  | none => exact pageOffers_spec quotient db buying selling exclude cached hok hfind

theorem getFromBestOffersCache_spec {root : LedgerTxnRoot} (h : root.BestOffersOK quotient)
    (buying selling : Asset) :
    (root.getFromBestOffersCache buying selling).1.OK quotient root.mDatabase (buying, selling) ∧
      (root.getFromBestOffersCache buying selling).2.All
        (BestOffersCacheEntry.OK quotient root.mDatabase) := by
  have hempty : (BestOffersCacheEntry.mk [] false).OK quotient root.mDatabase (buying, selling) :=
    ⟨List.nil_prefix, fun h => (nomatch h)⟩
  have hgo : ∀ cache : LruCache (Asset × Asset) BestOffersCacheEntry,
      cache.All (BestOffersCacheEntry.OK quotient root.mDatabase) →
      ((cache.find? (buying, selling)).getD ⟨[], false⟩).OK quotient root.mDatabase (buying, selling) ∧
      (cache.touch (buying, selling)).All (BestOffersCacheEntry.OK quotient root.mDatabase) := by
    intro cache hcache
    refine ⟨?_, hcache.touch _⟩
    cases hf : cache.find? (buying, selling) with
    | none => exact hempty
    | some c => exact hcache.find? hf
  unfold LedgerTxnRoot.getFromBestOffersCache
  split
  · exact hgo _ h
  · exact hgo _ (LruCache.All.put h hempty)

/-- The root finds the first offer of the query's result that is not excluded, whatever its cache
holds. -/
theorem LedgerTxnRoot.getBestOffer_spec {root : LedgerTxnRoot} (h : root.BestOffersOK quotient)
    (buying selling : Asset) (exclude : Finset LedgerKey) :
    (root.getBestOffer quotient buying selling exclude).1
        = findIncludedOffer (root.mDatabase.pairOffers quotient buying selling) exclude ∧
      (root.getBestOffer quotient buying selling exclude).2.BestOffersOK quotient ∧
      ∃ cache, (root.getBestOffer quotient buying selling exclude).2
        = { root with mBestOffersCache := cache } := by
  obtain ⟨hcached, hcache⟩ := getFromBestOffersCache_spec quotient h buying selling
  obtain ⟨hres, hcached'⟩ := searchOffers_spec quotient root.mDatabase buying selling exclude _ hcached
  exact ⟨hres, hcache.set hcached', _, rfl⟩

/-! ## The stack of transactions -/

/-- The offers of a pair in the ledger that a stack of transactions stands for. -/
def ledgerOffers (txns : List LedgerTxn) (db : Database) (buying selling : Asset)
    (exclude : Finset LedgerKey) : Set LedgerEntry :=
  {e | ∃ k ∉ exclude, view txns db k = some e ∧ isOfferOf buying selling e = true}

theorem ledgerOffers_nil (db : Database) (buying selling : Asset) (exclude : Finset LedgerKey) :
    ledgerOffers [] db buying selling exclude
      = {e | e ∈ db.pairOffers quotient buying selling ∧ (e.key ∉ exclude : Bool) = true} := by
  ext e
  simp only [ledgerOffers, view, Set.mem_ofPred_eq, mem_pairOffers, decide_eq_true_eq]
  constructor
  · rintro ⟨k, hk, hl, hof⟩
    obtain rfl := db.keyed k e hl
    exact ⟨⟨hl, hof⟩, hk⟩
  · rintro ⟨⟨hl, hof⟩, hk⟩
    exact ⟨e.key, hk, hl, hof⟩

/-- A transaction's own offers and those of its parents that it does not shadow. -/
theorem ledgerOffers_cons {t : LedgerTxn} {parents : List LedgerTxn}
    (hkeyed : ∀ t' ∈ t :: parents, t'.Keyed) (db : Database) (buying selling : Asset)
    {exclude exclude' : Finset LedgerKey} (hex : ∀ k, k ∈ exclude' ↔ k ∈ exclude ∨
      isOfferKey k = true ∧ k ∈ t.mEntry.entries.keys) :
    ledgerOffers (t :: parents) db buying selling exclude
      = ownOffers buying selling t.mEntry.entries exclude
        ∪ ledgerOffers parents db buying selling exclude' := by
  have hparents : ∀ t' ∈ parents, t'.Keyed := fun t' ht' => hkeyed t' (List.mem_cons_of_mem _ ht')
  ext e
  constructor
  · rintro ⟨k, hk, hview, hof⟩
    rw [view] at hview
    split at hview
    · next entry hl =>
      obtain rfl : entry = some e := hview
      have hkey : e.key = k := hkeyed t List.mem_cons_self k e hl
      exact .inl ⟨k, hk, hkey ▸ isOfferKey_key hof, List.of_mem_dlookup hl, hof⟩
    · next hl =>
      refine .inr ⟨k, fun hk' => ?_, hview, hof⟩
      rcases (hex k).mp hk' with h | ⟨_, h⟩
      · exact hk h
      · exact List.dlookup_eq_none.mp hl h
  · rintro (⟨k, hk, hoff, hmem, hof⟩ | ⟨k, hk, hview, hof⟩)
    · have hl : t.mEntry.lookup k = some (some e) := List.mem_dlookup t.mEntry.nodupKeys hmem
      exact ⟨k, hk, by rw [view, hl], hof⟩
    · have hkey : e.key = k := view_key hparents hview
      rw [hex, not_or] at hk
      have hl : t.mEntry.lookup k = none :=
        List.dlookup_eq_none.mpr fun h => hk.2 ⟨hkey ▸ isOfferKey_key hof, h⟩
      exact ⟨k, hk.1, by rw [view, hl]; exact hview, hof⟩

/-- What a call changes of the root: its cache of best offers. -/
theorem getBestOffer_root (buying selling : Asset) (txns : List LedgerTxn) {root : LedgerTxnRoot}
    (h : root.BestOffersOK quotient) (exclude : Finset LedgerKey) :
    (getBestOffer quotient buying selling txns root exclude).2.BestOffersOK quotient ∧
      ∃ cache, (getBestOffer quotient buying selling txns root exclude).2
        = { root with mBestOffersCache := cache } := by
  induction txns generalizing exclude with
  | nil => exact (root.getBestOffer_spec quotient h buying selling exclude).2
  | cons t parents ih => exact ih _

/-- Roots over the same tables give the same best offer, whatever their caches hold. -/
theorem getBestOffer_congr (buying selling : Asset) (txns : List LedgerTxn) {root root' : LedgerTxnRoot}
    (h : root.BestOffersOK quotient) (h' : root'.BestOffersOK quotient)
    (hdb : root'.mDatabase = root.mDatabase) (exclude : Finset LedgerKey) :
    (getBestOffer quotient buying selling txns root' exclude).1
      = (getBestOffer quotient buying selling txns root exclude).1 := by
  induction txns generalizing exclude with
  | nil =>
    rw [getBestOffer, getBestOffer, (root'.getBestOffer_spec quotient h' buying selling exclude).1,
      (root.getBestOffer_spec quotient h buying selling exclude).1, hdb]
  | cons t parents ih =>
    rw [getBestOffer, getBestOffer]
    dsimp only
    rw [ih]

/-- The best offer of a pair is found. -/
theorem getBestOffer_bestOf (buying selling : Asset) (txns : List LedgerTxn)
    (hkeyed : ∀ t ∈ txns, t.Keyed) {root : LedgerTxnRoot} (h : root.BestOffersOK quotient)
    (exclude : Finset LedgerKey) :
    BestOf (rank quotient) (ledgerOffers txns root.mDatabase buying selling exclude)
        (getBestOffer quotient buying selling txns root exclude).1 ∧
      IsPairOffer buying selling (getBestOffer quotient buying selling txns root exclude).1 := by
  induction txns generalizing exclude with
  | nil =>
    rw [getBestOffer, (root.getBestOffer_spec quotient h buying selling exclude).1,
      ledgerOffers_nil quotient]
    refine ⟨bestOf_find _ (pairOffers_sorted quotient _ _ _) _, fun e he => ?_⟩
    exact ((mem_pairOffers quotient).mp (List.mem_of_find?_eq_some he)).2
  | cons t parents ih =>
    obtain ⟨hown, hpair, hex⟩ := scanOffers_spec quotient buying selling t.mEntry.entries
      t.mEntry.nodupKeys none (fun _ h => (nomatch h)) ∅ rfl exclude
    rw [Set.union_empty] at hown
    obtain ⟨hparent, hpair'⟩ := ih (fun t' ht' => hkeyed t' (List.mem_cons_of_mem _ ht'))
      (scanOffers quotient buying selling t.mEntry.entries none exclude).2
    rw [getBestOffer, ledgerOffers_cons hkeyed _ _ _ hex]
    dsimp only
    refine ⟨?_, isPairOffer_takeOffer quotient hpair' hpair⟩
    rw [takeOffer_eq quotient hpair' hpair]
    exact hown.union _ hparent

end ZaggCore.Ledger
