import Mathlib
import ZaggCore.Ledger.LedgerState

/-! # What holds in every reached state

Runs of calls from a root with no transaction open and empty caches. Along every run the caches stay
right and the stack stands for some flat map, so the best offer is found however the cache was filled,
and the inflation winners are right exactly if every transaction on the way was padded enough. -/

namespace ZaggCore.Ledger
set_option autoImplicit false
set_option maxHeartbeats 250000

open Util Foundations

variable {Q : Type} [LinearOrder Q] (quotient : Price → Q)

/-! ## Runs -/

/-- A root over the tables, with empty caches of the given sizes. -/
def LedgerState.init (db : Database) (header : LedgerHeader) (entryCacheSize bestOfferCacheSize : ℕ) :
    LedgerState where
  root :=
    { mDatabase := db
      mHeader := header
      mEntryCache := .new entryCacheSize
      mBestOffersCache := .new bestOfferCacheSize }
  txns := []

/-- The flat map of the tables. -/
def Flat.init (db : Database) (header : LedgerHeader) : Flat where
  now k := value (db.load k)
  header := header
  saved := []

/-- The state and the flat map side by side: a call that is rejected leaves the map alone. -/
def stepBoth (sf : LedgerState × Flat) (depth : ℕ) (call : Call) : LedgerState × Flat :=
  let o := exec quotient sf.1 depth call
  (o.2, match o.1 with
    | .ok _ => sf.2.exec depth call
    | .error _ => sf.2)

/-- The state that a run of calls reaches. -/
def run : LedgerState → List (ℕ × Call) → LedgerState
  | s, [] => s
  | s, (depth, call) :: calls => run (exec quotient s depth call).2 calls

theorem exec_commit {s : LedgerState} {t : LedgerTxn} {parents : List LedgerTxn}
    (htxns : s.txns = t :: parents) : exec quotient s 0 .commit = commit t parents s.root := by
  simp [exec, execTxn, execInnermost, htxns]

/-! ## The invariant along runs -/

theorem wf_init (db : Database) (header : LedgerHeader) (entryCacheSize bestOfferCacheSize : ℕ) :
    (LedgerState.init db header entryCacheSize bestOfferCacheSize).Wf quotient :=
  ⟨⟨LruCache.all_clear (.new entryCacheSize) _, LruCache.all_clear (.new bestOfferCacheSize) _⟩,
    Flat.init db header, rfl, fun _ => rfl, rfl⟩

/-- A state with no transaction open stands for its tables. -/
theorem wf_of_closed {s : LedgerState} (hc : CachesOK quotient s.root) (htxns : s.txns = []) :
    s.Wf quotient := by
  refine ⟨hc, Flat.init s.root.mDatabase s.root.mHeader, ?_⟩
  rw [htxns]
  exact ⟨rfl, fun _ => rfl, rfl⟩

/-- One call keeps the invariant, whatever it commits. -/
theorem wf_exec {s : LedgerState} (h : s.Wf quotient) (depth : ℕ) (call : Call) :
    (exec quotient s depth call).2.Wf quotient := by
  obtain ⟨hc, f, hm⟩ := h
  obtain ⟨hc', hmatch⟩ := exec_matches quotient hc hm depth call
  by_cases hplain : PlainCommit s depth call
  · exact ⟨hc', _, hmatch hplain⟩
  · -- a commit into the root that is not plain still leaves no transaction open
    obtain ⟨t, htxns, rfl, rfl, -⟩ : ∃ t, s.txns = [t] ∧ depth = 0 ∧ call = .commit ∧ ¬ t.Unmarked := by
      simpa [PlainCommit] using hplain
    obtain ⟨-, -, -, hclosed⟩ := commit_matches quotient hc htxns hm
    refine wf_of_closed quotient hc' ?_
    rw [exec_commit quotient htxns]
    exact hclosed rfl

theorem wf_run (calls : List (ℕ × Call)) {s : LedgerState} (h : s.Wf quotient) :
    (run quotient s calls).Wf quotient := by
  induction calls generalizing s with
  | nil => exact h
  | cons c calls ih => exact ih (wf_exec quotient h c.1 c.2)

/-- What a call on the innermost transaction answers. -/
theorem exec_answer {s : LedgerState} {t : LedgerTxn} {parents : List LedgerTxn} (htxns : s.txns = t :: parents)
    {call : Call} (hinnermost : exec quotient s 0 call = execTxn s 0 call)
    (hcall : execInnermost t parents s call = ((callTxn t parents s.root call).1,
      ⟨(callTxn t parents s.root call).2.2, (callTxn t parents s.root call).2.1 :: parents⟩)) :
    (exec quotient s 0 call).1 = (callTxn t parents s.root call).1 := by
  have hexec : execTxn s 0 call = execInnermost t parents s call := by
    unfold execTxn
    rw [List.drop_zero, htxns]
    rfl
  rw [hinnermost, hexec, hcall]

/-! ## The best offer -/

/-- Calls of `getBestOffer` on transactions of any depth. -/
def offerQueries (queries : List (ℕ × Asset × Asset × Finset LedgerKey)) : List (ℕ × Call) :=
  queries.map fun q => (q.1, .getBestOffer q.2.1 q.2.2.1 q.2.2.2)

/-- Such calls fill the cache of best offers and change nothing else. -/
theorem run_offerQueries (queries : List (ℕ × Asset × Asset × Finset LedgerKey)) {s : LedgerState}
    (h : s.root.BestOffersOK quotient) :
    ∃ cache, run quotient s (offerQueries queries)
        = { s with root := { s.root with mBestOffersCache := cache } } ∧
      (run quotient s (offerQueries queries)).root.BestOffersOK quotient := by
  induction queries generalizing s with
  | nil => exact ⟨s.root.mBestOffersCache, rfl, h⟩
  | cons q queries ih =>
    obtain ⟨depth, buying, selling, exclude⟩ := q
    obtain ⟨hoffers, cache, hroot⟩ := getBestOffer_root quotient buying selling (s.txns.drop depth) h
      exclude
    have hstep : (exec quotient s depth (.getBestOffer buying selling exclude)).2
        = { s with root := { s.root with mBestOffersCache := cache } } := by
      simp only [exec, hroot]
    rw [hroot] at hoffers
    obtain ⟨cache', hrun, hoffers'⟩ := @ih { s with root := { s.root with mBestOffersCache := cache } }
      hoffers
    have hhead : run quotient s (offerQueries ((depth, buying, selling, exclude) :: queries))
        = run quotient { s with root := { s.root with mBestOffersCache := cache } }
          (offerQueries queries) := by
      rw [← hstep]
      rfl
    rw [hhead]
    exact ⟨cache', hrun, hoffers'⟩

/-- **The best offer across nesting and cache.** In every reached state and for the transaction at every
depth, `getBestOffer` returns a best offer of the flattened ledger that is not excluded, or nothing when
there is none. Queries made before, and the size and contents of the cache, make no difference. -/
theorem getBestOffer_run (db : Database) (header : LedgerHeader) (entryCacheSize bestOfferCacheSize : ℕ)
    (calls : List (ℕ × Call)) (depth : ℕ) (buying selling : Asset) (exclude : Finset LedgerKey) :
    let s := run quotient (.init db header entryCacheSize bestOfferCacheSize) calls
    let call := Call.getBestOffer buying selling exclude
    ∃ best, (exec quotient s depth call).1 = .ok (.entry best) ∧
      BestOf (rank quotient)
        (ledgerOffers (s.txns.drop depth) s.root.mDatabase buying selling exclude) best ∧
      (∀ queries, (exec quotient (run quotient s (offerQueries queries)) depth call).1
        = .ok (.entry best)) ∧
      ∀ size, (exec quotient { s with root := { s.root with mBestOffersCache := .new size } } depth
        call).1 = .ok (.entry best) := by
  intro s call
  obtain ⟨hc, f, hm⟩ := wf_run quotient calls (wf_init quotient db header entryCacheSize bestOfferCacheSize)
  have hkeyed : ∀ t ∈ s.txns.drop depth, t.Keyed := fun t ht => hm.keyed t (List.mem_of_mem_drop ht)
  obtain ⟨hbest, -⟩ := getBestOffer_bestOf quotient buying selling (s.txns.drop depth) hkeyed hc.offers
    exclude
  refine ⟨_, rfl, hbest, fun queries => ?_, fun size => ?_⟩
  · obtain ⟨cache, hrun, hoffers⟩ := run_offerQueries quotient queries hc.offers
    have hsame := getBestOffer_congr quotient buying selling (s.txns.drop depth) hc.offers hoffers
      (by rw [hrun]) exclude
    have htxns : (run quotient s (offerQueries queries)).txns = s.txns := by rw [hrun]
    simp only [exec, call, htxns]
    rw [hsame]
  · have hnew : LedgerTxnRoot.BestOffersOK quotient { s.root with mBestOffersCache := .new size } :=
      LruCache.all_clear (.new size) _
    have hsame := getBestOffer_congr quotient buying selling (s.txns.drop depth) hc.offers hnew rfl exclude
    simp only [exec, call]
    rw [hsame]

/-! ## The inflation winners -/

theorem exec_queryInflationWinners {s : LedgerState} {t : LedgerTxn} {parents : List LedgerTxn}
    (htxns : s.txns = t :: parents) (hsealed : t.mIsSealed = false) (maxWinners : ℕ) (minVotes : ℤ) :
    (exec quotient s 0 (.queryInflationWinners maxWinners minVotes)).1
      = (getInflationWinners (t :: parents) s.root maxWinners minVotes).1.map .winners := by
  rw [exec_answer quotient htxns rfl rfl]
  simp only [callTxn, queryInflationWinners, hsealed, Bool.false_eq_true, if_false]
  split
  · next heq => rw [heq]; rfl
  · next heq => rw [heq]; rfl

/-- **Inflation winners across nesting.** In every reached state where no account has more votes than 64 bits
can say, in the tables or after any of the transactions, the innermost transaction returns
exactly the winners of the flattened ledger, over parents that are right about theirs, if and only if at
every level the limit does not overflow and the winners that rose were within the padded prefix of the
parents, and no account without votes is listed. -/
theorem queryInflationWinners_run_iff (db : Database) (header : LedgerHeader)
    (entryCacheSize bestOfferCacheSize : ℕ) (calls : List (ℕ × Call)) {t : LedgerTxn}
    {parents : List LedgerTxn}
    (htxns : (run quotient (.init db header entryCacheSize bestOfferCacheSize) calls).txns = t :: parents)
    (hsealed : t.mIsSealed = false)
    (hfits : VotesFit (t :: parents)
      (run quotient (.init db header entryCacheSize bestOfferCacheSize) calls).root.mDatabase)
    (maxWinners : ℕ) (minVotes : ℤ) :
    let s := run quotient (.init db header entryCacheSize bestOfferCacheSize) calls
    let delta := deltaVotes t parents s.root.mDatabase
    (exec quotient s 0 (.queryInflationWinners maxWinners minVotes)).1
          = .ok (.winners (winners s.txns s.root.mDatabase maxWinners minVotes)) ∧
        AnswersRight parents s.root (maxWinners + numChanged delta) (newMinVotes delta minVotes) ↔
      Padded s.txns s.root.mDatabase maxWinners minVotes ∧
        NoIdleListed s.txns s.root.mDatabase maxWinners minVotes := by
  intro s delta
  obtain ⟨hc, f, hm⟩ := wf_run quotient calls (wf_init quotient db header entryCacheSize bestOfferCacheSize)
  have hkeyed : ∀ t' ∈ t :: parents, t'.Keyed := htxns ▸ hm.keyed
  have hstack : s.txns = t :: parents := htxns
  rw [hstack, ← winners_iff hkeyed hc.entries hfits maxWinners minVotes,
    exec_queryInflationWinners quotient hstack hsealed]
  refine and_congr_left fun _ => ?_
  cases (getInflationWinners (t :: parents) s.root maxWinners minVotes).1 with
  | error what => exact iff_of_false (fun h => nomatch h) (fun h => nomatch h)
  | ok ws =>
    exact ⟨fun h => congrArg Except.ok (Result.winners.inj (Except.ok.inj h)),
      fun h => congrArg (fun ws => Except.ok (Result.winners ws)) (Except.ok.inj h)⟩

/-- An account that votes for itself. -/
def selfVoter (accountID : AccountID) (balance : ℤ) : LedgerEntry :=
  ⟨0, .account
    { accountID := accountID
      balance := balance
      seqNum := 0
      accountMarker := []
      numSubEntries := 0
      inflationDest := some accountID
      flags := 0
      homeDomain := []
      thresholds := ⟨1, 0, 0, 0⟩
      signers := []
      ext := none }⟩

/-- Four accounts in the tables, and a transaction opened over them. -/
def voterCalls : List (ℕ × Call) :=
  [(0, .openChild true), (0, .create (selfVoter 1 100000000000)), (0, .create (selfVoter 2 90000000000)),
    (0, .create (selfVoter 3 80000000000)), (0, .create (selfVoter 4 70000000000)), (0, .commit),
    (0, .openChild true)]

/-- The fourth account rises to the first place. -/
def riserCalls : List (ℕ × Call) :=
  voterCalls ++ [(0, .load (.account 4)), (0, .modify (selfVoter 4 120000000000))]

def quotientRat (price : Price) : ℚ := price.n / price.d

/-- The state after some calls over empty tables. -/
def afterCalls (calls : List (ℕ × Call)) : LedgerState :=
  run quotientRat (.init ⟨∅, fun _ _ h => nomatch h⟩ ⟨10, 5, 0, 0, 0, 0, 100, 5000000, 100⟩ 4096 64) calls

theorem queryInflationWinners_voters :
    (exec quotientRat (afterCalls voterCalls) 0 (.queryInflationWinners 1 1)).1
      = .ok (.winners (winners (afterCalls voterCalls).txns (afterCalls voterCalls).root.mDatabase 1 1)) := by
  have htxns : (afterCalls voterCalls).txns
      = [LedgerTxn.new ⟨10, 5, 0, 0, 0, 0, 100, 5000000, 100⟩ true] := rfl
  have h := queryInflationWinners_run_iff quotientRat ⟨∅, fun _ _ h => nomatch h⟩
    ⟨10, 5, 0, 0, 0, 0, 100, 5000000, 100⟩ 4096 64 voterCalls htxns rfl (by decide) 1 1
  refine (h.mpr ⟨⟨by decide, ?_, trivial⟩, .inl (by decide)⟩).1
  unfold RisersListed
  decide

/-- With the riser, the prefix of two does not reach it, and its votes before the rise are not counted. -/
theorem queryInflationWinners_riser :
    (exec quotientRat (afterCalls riserCalls) 0 (.queryInflationWinners 1 1)).1
      ≠ .ok (.winners (winners (afterCalls riserCalls).txns (afterCalls riserCalls).root.mDatabase 1 1)) := by
  have hcode : (exec quotientRat (afterCalls riserCalls) 0 (.queryInflationWinners 1 1)).1
      = .ok (.winners [(1, 100000000000)]) := rfl
  have htruth : winners (afterCalls riserCalls).txns (afterCalls riserCalls).root.mDatabase 1 1
      = [(4, 120000000000)] := by decide
  rw [hcode, htruth]
  intro h
  have := Result.winners.inj (Except.ok.inj h)
  revert this
  decide

end ZaggCore.Ledger
