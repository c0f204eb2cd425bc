import Mathlib
import ZaggCore.Ledger.InflationWinners

/-! # When the inflation winners are right

A transaction ranks again a prefix of its parent's winners. What it finds is right exactly if every
winner that gained votes in the transaction, on top of some it had, was within the prefix; and accounts
without votes are listed when the bound admits them and there is room. -/

namespace ZaggCore.Ledger
set_option autoImplicit false
set_option maxHeartbeats 250000

open Util Foundations Crypto Finset

/-! ## The lists -/

/-- The totals as a list of winners. -/
def VoteMap.pairs (m : VoteMap) : List InflationWinner := m.entries.map fun total => (total.1, total.2)

theorem VoteMap.pairs_fst (m : VoteMap) : m.pairs.map Prod.fst = m.keys := by
  rw [VoteMap.pairs, List.map_map]
  rfl

theorem VoteMap.nodup_pairs (m : VoteMap) : (m.pairs.map Prod.fst).Nodup := by
  rw [m.pairs_fst]
  exact m.nodupKeys

theorem VoteMap.votes_pairs (m : VoteMap) : ∀ w ∈ m.pairs, m.votes w.1 = w.2 := by
  intro w hw
  obtain ⟨total, htotal, rfl⟩ := List.mem_map.mp hw
  exact congrArg (Option.getD · 0) (List.mem_dlookup m.nodupKeys htotal)

theorem winsBefore_iff (lhs rhs : InflationWinner) :
    winsBefore lhs rhs = true ↔ entryStanding toStrKey rhs < entryStanding toStrKey lhs := by
  unfold winsBefore entryStanding
  rw [Prod.Lex.toLex_lt_toLex]
  split_ifs with h
  · simp [h]
  · simp only [gt_iff_lt, decide_eq_true_eq, Ne.symm h, false_and, or_false]

theorem enumerateInflationWinners_eq (totalVotes : VoteMap) (maxWinners : ℕ) (minVotes : ℤ) :
    enumerateInflationWinners totalVotes maxWinners minVotes
      = ranking toStrKey totalVotes.pairs maxWinners minVotes := by
  have hle : (fun lhs rhs : InflationWinner => (!winsBefore rhs lhs) = true) = RanksBefore toStrKey := by
    funext lhs rhs
    rw [Bool.not_eq_true', Bool.eq_false_iff, Ne, winsBefore_iff, not_lt]
    rfl
  unfold enumerateInflationWinners ranking
  simp only [hle]
  rfl

/-- The votes of an account in the ledger that a stack of transactions stands for. -/
abbrev votesIn (txns : List LedgerTxn) (db : Database) (a : AccountID) : ℤ := votesOf (flattened txns db) a

theorem tally_fst (rows : AList fun _ : LedgerKey => LedgerEntry) :
    (tally rows).map Prod.fst = ((rows.entries.filterMap fun kv => vote kv.2).map Prod.fst).dedup := by
  rw [tally, List.map_map]
  exact List.map_id _

theorem nodup_tally (rows : AList fun _ : LedgerKey => LedgerEntry) : ((tally rows).map Prod.fst).Nodup := by
  rw [tally_fst]
  exact List.nodup_dedup _

theorem mem_tally_fst (rows : AList fun _ : LedgerKey => LedgerEntry) (a : AccountID) :
    a ∈ ((tally rows).map Prod.fst).toFinset ↔ 0 < votesOf rows a := by
  rw [List.mem_toFinset, tally_fst, List.mem_dedup, votesOf_pos]

theorem votes_tally (rows : AList fun _ : LedgerKey => LedgerEntry) :
    ∀ w ∈ tally rows, votesOf rows w.1 = w.2 := by
  intro w hw
  obtain ⟨a, -, rfl⟩ := List.mem_map.mp hw
  rfl

theorem mem_winners {txns : List LedgerTxn} {db : Database} {maxWinners : ℕ} {minVotes : ℤ}
    {w : InflationWinner} :
    w ∈ winners txns db maxWinners minVotes ↔ 0 < votesIn txns db w.1 ∧
      w.1 ∈ top toStrKey univ (votesIn txns db) maxWinners minVotes ∧ w.2 = votesIn txns db w.1 := by
  rw [winners, mem_ranking toStrKey_injective (nodup_tally _) (votes_tally _),
    mem_top_voted (mem_tally_fst _), and_assoc]

/-- The root query gives the winners of the tables. -/
theorem loadInflationWinners_eq (db : Database) (maxWinners : ℕ) (minBalance : ℤ) :
    db.loadInflationWinners maxWinners minBalance = winners [] db maxWinners minBalance := by
  have hnonneg : ∀ w ∈ tally db.rows, (0 : ℤ) ≤ w.2 := by
    intro w hw
    rw [← votes_tally db.rows w hw]
    exact votesOf_nonneg db.rows w.1
  have hall : (tally db.rows).filter (fun w => (0 : ℤ) ≤ w.2) = tally db.rows :=
    List.filter_eq_self.mpr fun w hw => decide_eq_true (hnonneg w hw)
  have hcut := @takeWhile_ranking _ _ toStrKey _ maxWinners minBalance (tally db.rows) _
    toStrKey_injective (nodup_tally _) 0 hnonneg
  have hstop : (fun w : InflationWinner => !decide (w.2 < minBalance)) = fun w => decide (minBalance ≤ w.2) := by
    funext w
    rw [← decide_not, decide_eq_decide, not_lt]
  rw [ranking, hall] at hcut
  rw [Database.loadInflationWinners, hstop]
  exact hcut

/-! ## The answer without the caches -/

/-- What `getInflationWinners` returns, over the tables alone. -/
def answer : List LedgerTxn → Database → ℕ → ℤ → Except String (List InflationWinner)
  | [], db, maxWinners, minVotes => .ok (db.loadInflationWinners maxWinners minVotes)
  | t :: parents, db, maxWinners, minVotes =>
    let delta := deltaVotes t parents db
    if SIZE_MAX - numChanged delta < maxWinners then .error "max winners overflowed"
    else
      match answer parents db (maxWinners + numChanged delta) (newMinVotes delta minVotes) with
      | .error what => .error what
      | .ok parentWinners =>
        .ok (enumerateInflationWinners (getTotalVotes parentWinners delta minVotes) maxWinners minVotes)

theorem getInflationWinners_eq (txns : List LedgerTxn) {root : LedgerTxnRoot} (hroot : root.CacheOK)
    (maxWinners : ℕ) (minVotes : ℤ) :
    (getInflationWinners txns root maxWinners minVotes).1 = answer txns root.mDatabase maxWinners minVotes ∧
      root.ReadTo (getInflationWinners txns root maxWinners minVotes).2 := by
  induction txns generalizing root maxWinners minVotes with
  | nil => exact ⟨rfl, hroot.readTo⟩
  | cons t parents ih =>
    obtain ⟨hdelta, hread⟩ := getDeltaVotes_spec parents t.mEntry.entries hroot ∅
    rw [getInflationWinners, answer]
    generalize getDeltaVotes parents t.mEntry.entries root ∅ = r at hdelta hread ⊢
    obtain ⟨delta, root'⟩ := r
    obtain rfl : delta = deltaVotes t parents root.mDatabase := hdelta
    dsimp only at hread ⊢
    split
    · exact ⟨rfl, hread⟩
    · obtain ⟨hanswer, hread'⟩ := ih hread.1
        (maxWinners + numChanged (deltaVotes t parents root.mDatabase))
        (newMinVotes (deltaVotes t parents root.mDatabase) minVotes)
      rw [hread.db] at hanswer
      rw [← hanswer]
      generalize getInflationWinners parents root'
        (maxWinners + numChanged (deltaVotes t parents root.mDatabase))
        (newMinVotes (deltaVotes t parents root.mDatabase) minVotes) = r at hread' ⊢
      obtain ⟨res, root''⟩ := r
      cases res with
      | error what => exact ⟨rfl, hread.trans hread'⟩
      | ok parentWinners => exact ⟨rfl, hread.trans hread'⟩

/-! ## One transaction -/

theorem le_foldr_max {l : List ℤ} {x : ℤ} (hx : x ∈ l) : x ≤ l.foldr max 0 := by
  induction l with
  | nil => cases hx
  | cons y l ih =>
    rcases List.mem_cons.mp hx with rfl | hx
    · exact le_max_left _ _
    · exact (ih hx).trans (le_max_right _ _)

theorem foldr_max_nonneg (l : List ℤ) : 0 ≤ l.foldr max 0 := by
  induction l with
  | nil => exact le_rfl
  | cons y l ih => exact ih.trans (le_max_right _ _)

theorem maxIncrease_nonneg (m : VoteMap) : 0 ≤ maxIncrease m := foldr_max_nonneg _

theorem newMinVotes_nonpos (m : VoteMap) {minVotes : ℤ} (h : minVotes ≤ 0) : newMinVotes m minVotes ≤ 0 := by
  rw [newMinVotes, if_neg (not_lt.mpr (h.trans (maxIncrease_nonneg m)))]

theorem votes_le_maxIncrease (m : VoteMap) (a : AccountID) : m.votes a ≤ maxIncrease m := by
  unfold VoteMap.votes
  cases hl : m.lookup a with
  | none => exact foldr_max_nonneg _
  | some v =>
    have hmem : (⟨a, v⟩ : Sigma fun _ : AccountID => ℤ) ∈ m.entries := List.of_mem_dlookup hl
    exact le_foldr_max (List.mem_map_of_mem hmem)

/-- The accounts of a map. -/
def VoteMap.accounts (m : VoteMap) : Finset AccountID := m.keys.toFinset

theorem VoteMap.mem_accounts (m : VoteMap) (a : AccountID) : a ∈ m.accounts ↔ a ∈ m := List.mem_toFinset

theorem VoteMap.votes_of_notMem (m : VoteMap) {a : AccountID} (h : a ∉ m.accounts) : m.votes a = 0 := by
  rw [VoteMap.mem_accounts] at h
  rw [VoteMap.votes, AList.lookup_eq_none.mpr h]
  rfl

theorem numChanged_eq (m : VoteMap) : numChanged m = #{a ∈ m.accounts | m.votes a ≠ 0} := by
  have hfilter : {a ∈ m.accounts | m.votes a ≠ 0}
      = ((m.pairs.filter fun w => w.2 ≠ 0).map Prod.fst).toFinset := by
    ext a
    simp only [mem_filter, VoteMap.accounts, ← m.pairs_fst, List.mem_toFinset, List.mem_map,
      List.mem_filter, decide_eq_true_eq]
    constructor
    · rintro ⟨⟨w, hw, rfl⟩, hne⟩
      exact ⟨w, ⟨hw, m.votes_pairs w hw ▸ hne⟩, rfl⟩
    · rintro ⟨w, ⟨hw, hne⟩, rfl⟩
      exact ⟨⟨w, hw, rfl⟩, (m.votes_pairs w hw).symm ▸ hne⟩
  have hnd := m.nodup_pairs.sublist ((@List.filter_sublist _ (fun w : InflationWinner => decide (w.2 ≠ 0)) m.pairs).map _)
  rw [hfilter, List.toFinset_card_of_nodup hnd, List.length_map, ← List.countP_eq_length_filter,
    VoteMap.pairs, List.countP_map, numChanged]
  rfl

/-- The accounts whose votes the entries of some open transaction touch. -/
def touchedAccounts : List LedgerTxn → Database → Finset AccountID
  | [], _ => ∅
  | t :: parents, db => touchedAccounts parents db ∪ (deltaVotes t parents db).accounts

/-- The accounts of a list of winners. -/
abbrev listed (ws : List InflationWinner) : Finset AccountID := (ws.map Prod.fst).toFinset

/-- A list gives the winners, and after them accounts without votes, if the bound admits these. -/
structure Listed (ws : List InflationWinner) (txns : List LedgerTxn) (db : Database) (maxWinners : ℕ)
    (minVotes : ℤ) : Prop where
  sorted : ws.Pairwise fun x y => entryStanding toStrKey y < entryStanding toStrKey x
  votes : ∀ w ∈ ws, w.2 = votesIn txns db w.1
  answers : Answers toStrKey (listed ws) (votesIn txns db) (votesIn txns db) maxWinners minVotes
  idle : ∀ a ∈ listed ws, votesIn txns db a = 0 → a ∈ touchedAccounts txns db
  room : minVotes ≤ 0 → ∀ a ∈ touchedAccounts txns db, votesIn txns db a = 0 →
    a ∈ listed ws ∨ maxWinners ≤ #(listed ws)

/-- The winners of a list are right: with votes, they are the ones there should be. -/
def Right (ws : List InflationWinner) (txns : List LedgerTxn) (db : Database) (maxWinners : ℕ)
    (minVotes : ℤ) : Prop :=
  (ws.filter fun w => 0 < w.2) = winners txns db maxWinners minVotes ∧ ∀ w ∈ ws, w.2 = votesIn txns db w.1

section Level

variable {t : LedgerTxn} {parents : List LedgerTxn} {db : Database} {maxWinners : ℕ} {minVotes : ℤ}
  {parentWinners : List InflationWinner}

theorem numChanged_eq_card (hdelta : ∀ a, (deltaVotes t parents db).votes a
      = votesIn (t :: parents) db a - votesIn parents db a) : numChanged (deltaVotes t parents db) = #{a ∈ (deltaVotes t parents db).accounts |
    votesIn (t :: parents) db a ≠ votesIn parents db a} := by
  rw [numChanged_eq]
  congr 1
  exact filter_congr fun a _ => by rw [hdelta, Ne, Ne, sub_eq_zero]

theorem reranking (hdelta : ∀ a, (deltaVotes t parents db).votes a
      = votesIn (t :: parents) db a - votesIn parents db a)
    (hparent : Listed parentWinners parents db (maxWinners + numChanged (deltaVotes t parents db))
      (newMinVotes (deltaVotes t parents db) minVotes)) :
    Reranking toStrKey (votesIn parents db) (votesIn (t :: parents) db) (listed parentWinners)
      (deltaVotes t parents db).accounts maxWinners minVotes (maxIncrease (deltaVotes t parents db)) where
  nonneg_before := votesOf_nonneg _
  nonneg_after := votesOf_nonneg _
  same a ha := by
    have hzero := (deltaVotes t parents db).votes_of_notMem ha
    rw [hdelta] at hzero
    omega
  nonneg_increase := maxIncrease_nonneg _
  increase a := by
    rw [← hdelta]
    exact votes_le_maxIncrease _ a
  answers := by
    rw [← numChanged_eq_card hdelta]
    exact hparent.answers

/-- The votes that are ranked again, once the parent has answered. -/
abbrev rankedVotes (t : LedgerTxn) (parents : List LedgerTxn) (db : Database)
    (parentWinners : List InflationWinner) : AccountID → ℤ :=
  rerankVotes (votesIn parents db) (votesIn (t :: parents) db) (listed parentWinners)

/-- The accounts that come out on top. -/
abbrev rankedTop (t : LedgerTxn) (parents : List LedgerTxn) (db : Database)
    (parentWinners : List InflationWinner) (maxWinners : ℕ) (minVotes : ℤ) : Finset AccountID :=
  top toStrKey (reranked (votesIn parents db) (votesIn (t :: parents) db) (listed parentWinners)
    (deltaVotes t parents db).accounts minVotes) (rankedVotes t parents db parentWinners) maxWinners minVotes

/-- The list is the top of what is ranked again. -/
theorem mem_enumerate (hfits : VotesFit (t :: parents) db) (hdelta : ∀ a, (deltaVotes t parents db).votes a
      = votesIn (t :: parents) db a - votesIn parents db a)
    (hvotes : ∀ w ∈ parentWinners, w.2 = votesIn parents db w.1) (w : InflationWinner) :
    w ∈ enumerateInflationWinners (getTotalVotes parentWinners (deltaVotes t parents db) minVotes)
        maxWinners minVotes ↔
      w.1 ∈ rankedTop t parents db parentWinners maxWinners minVotes ∧
      w.2 = rankedVotes t parents db parentWinners w.1 := by
  have hlook := lookup_getTotalVotes hvotes (fun a => hdelta a ▸ hfits.fits_sub a) (fun a => by
    rw [hdelta, add_sub_cancel]
    exact hfits.fits a) minVotes
  set totals := getTotalVotes parentWinners (deltaVotes t parents db) minVotes with htotals
  have hsum : ∀ a, votesIn parents db a + (deltaVotes t parents db).votes a = votesIn (t :: parents) db a := by
    intro a
    rw [hdelta]
    omega
  have hdomain : (totals.pairs.map Prod.fst).toFinset = reranked (votesIn parents db)
      (votesIn (t :: parents) db) (listed parentWinners) (deltaVotes t parents db).accounts minVotes := by
    ext a
    rw [List.mem_toFinset, VoteMap.pairs_fst, ← AList.mem_keys, ← AList.lookup_isSome, hlook, reranked,
      mem_union, mem_filter, List.mem_toFinset, VoteMap.mem_accounts, ← hdelta]
    split_ifs with h1 h2
    · simp [h1]
    · simp [h2]
    · simp [h1, h2]
  have hranked : ∀ w ∈ totals.pairs, rankedVotes t parents db parentWinners w.1 = w.2 := by
    intro w hw
    obtain ⟨total, htotal, rfl⟩ := List.mem_map.mp hw
    have hl : totals.lookup total.1 = some total.2 := List.mem_dlookup totals.nodupKeys htotal
    rw [hlook] at hl
    by_cases h : total.1 ∈ listed parentWinners
    · rw [if_pos (List.mem_toFinset.mp h), hsum] at hl
      exact (if_pos h).trans (Option.some.inj hl)
    · rw [if_neg (mt List.mem_toFinset.mpr h)] at hl
      split_ifs at hl
      refine (if_neg h).trans ?_
      rw [← hdelta]
      exact Option.some.inj hl
  rw [enumerateInflationWinners_eq, mem_ranking toStrKey_injective totals.nodup_pairs hranked, hdomain]

theorem sorted_enumerate (totalVotes : VoteMap) :
    (enumerateInflationWinners totalVotes maxWinners minVotes).Pairwise
      fun x y => entryStanding toStrKey y < entryStanding toStrKey x := by
  rw [enumerateInflationWinners_eq]
  exact pairwise_ranking toStrKey_injective totalVotes.nodup_pairs

/-- Every winner that gained votes in the transaction, on top of some it had, is among the first `N` of
the parents' ledger. -/
def RisersListed (t : LedgerTxn) (parents : List LedgerTxn) (db : Database) (N maxWinners : ℕ)
    (minVotes : ℤ) : Prop :=
  ∀ w ∈ winners (t :: parents) db maxWinners minVotes, 0 < votesIn parents db w.1 →
    votesIn parents db w.1 < w.2 → w.1 ∈ (winners parents db N 0).map Prod.fst

theorem risersListed_iff {N : ℕ} : RisersListed t parents db N maxWinners minVotes ↔
    ∀ a ∈ top toStrKey univ (votesIn (t :: parents) db) maxWinners minVotes, 0 < votesIn parents db a →
      votesIn parents db a < votesIn (t :: parents) db a →
      #(ahead toStrKey univ (votesIn parents db) a) < N := by
  have hmem : ∀ a, 0 < votesIn parents db a → (a ∈ (winners parents db N 0).map Prod.fst ↔
      #(ahead toStrKey univ (votesIn parents db) a) < N) := by
    intro a hpos
    rw [List.mem_map]
    constructor
    · rintro ⟨w, hw, rfl⟩
      exact (mem_top.mp (mem_winners.mp hw).2.1).2.2
    · intro hrank
      exact ⟨(a, votesIn parents db a), mem_winners.mpr ⟨hpos, mem_top.mpr ⟨mem_univ a, hpos.le, hrank⟩, rfl⟩,
        rfl⟩
  constructor
  · intro h a ha hpos hrise
    exact (hmem a hpos).mp (h (a, votesIn (t :: parents) db a)
      (mem_winners.mpr ⟨hpos.trans hrise, ha, rfl⟩) hpos hrise)
  · intro h w hw hpos hrise
    obtain ⟨-, ha, hvotes⟩ := mem_winners.mp hw
    exact (hmem w.1 hpos).mpr (h w.1 ha hpos (hvotes ▸ hrise))

section Ranked

variable (hfits : VotesFit (t :: parents) db) (hdelta : ∀ a, (deltaVotes t parents db).votes a
    = votesIn (t :: parents) db a - votesIn parents db a)
  (hparent : Listed parentWinners parents db (maxWinners + numChanged (deltaVotes t parents db))
    (newMinVotes (deltaVotes t parents db) minVotes))

include hfits hdelta hparent

theorem listed_enumerate : listed (enumerateInflationWinners
      (getTotalVotes parentWinners (deltaVotes t parents db) minVotes) maxWinners minVotes)
    = rankedTop t parents db parentWinners maxWinners minVotes := by
  ext a
  rw [List.mem_toFinset, List.mem_map]
  constructor
  · rintro ⟨w, hw, rfl⟩
    exact ((mem_enumerate hfits hdelta hparent.votes w).mp hw).1
  · intro ha
    exact ⟨(a, rankedVotes t parents db parentWinners a),
      (mem_enumerate hfits hdelta hparent.votes _).mpr ⟨ha, rfl⟩, rfl⟩

omit hfits in
/-- Ranking again answers for the new votes exactly if the risers were listed. -/
theorem answers_enumerate_iff : Answers toStrKey (rankedTop t parents db parentWinners maxWinners minVotes)
      (rankedVotes t parents db parentWinners) (votesIn (t :: parents) db) maxWinners minVotes ↔
    RisersListed t parents db (maxWinners + numChanged (deltaVotes t parents db)) maxWinners minVotes := by
  rw [(reranking hdelta hparent).answers_iff, risersListed_iff, numChanged_eq_card hdelta]

/-- The winners are right exactly if the risers were listed. -/
theorem right_enumerate_iff : Right (enumerateInflationWinners
      (getTotalVotes parentWinners (deltaVotes t parents db) minVotes) maxWinners minVotes)
      (t :: parents) db maxWinners minVotes ↔
    RisersListed t parents db (maxWinners + numChanged (deltaVotes t parents db)) maxWinners minVotes := by
  have hmem := @mem_enumerate t parents db maxWinners minVotes parentWinners hfits hdelta hparent.votes
  have hsorted := @sorted_enumerate maxWinners minVotes
    (getTotalVotes parentWinners (deltaVotes t parents db) minVotes)
  rw [← answers_enumerate_iff hdelta hparent]
  generalize enumerateInflationWinners (getTotalVotes parentWinners (deltaVotes t parents db) minVotes)
    maxWinners minVotes = ws at hmem hsorted ⊢
  constructor
  · rintro ⟨hfilter, hvotes⟩
    have hvotes' : ∀ a ∈ rankedTop t parents db parentWinners maxWinners minVotes,
        (a, votesIn (t :: parents) db a) ∈ ws ∧
          rankedVotes t parents db parentWinners a = votesIn (t :: parents) db a := by
      intro a ha
      have hw := (hmem (a, rankedVotes t parents db parentWinners a)).mpr ⟨ha, rfl⟩
      have heq : rankedVotes t parents db parentWinners a = votesIn (t :: parents) db a := hvotes _ hw
      exact ⟨heq ▸ hw, heq⟩
    refine ⟨fun a hpos => ⟨fun ha => ?_, fun ha => ?_⟩, fun a ha => (hvotes' a ha).2⟩
    · have hw : (a, votesIn (t :: parents) db a) ∈ ws.filter fun w => 0 < w.2 :=
        List.mem_filter.mpr ⟨(hvotes' a ha).1, decide_eq_true hpos⟩
      rw [hfilter] at hw
      exact (mem_winners.mp hw).2.1
    · have hw : (a, votesIn (t :: parents) db a) ∈ ws.filter fun w => 0 < w.2 := by
        rw [hfilter]
        exact mem_winners.mpr ⟨hpos, ha, rfl⟩
      exact ((hmem _).mp (List.mem_of_mem_filter hw)).1
  · intro hans
    have hvotes : ∀ w ∈ ws, w.2 = votesIn (t :: parents) db w.1 := by
      intro w hw
      obtain ⟨ha, hvotes⟩ := (hmem w).mp hw
      rw [hvotes, hans.votes _ ha]
    refine ⟨eq_of_sorted (hsorted.filter _) (pairwise_ranking toStrKey_injective (nodup_tally _))
      fun w => ?_, hvotes⟩
    rw [List.mem_filter, decide_eq_true_eq]
    refine Iff.trans ?_ mem_winners.symm
    constructor
    · rintro ⟨hw, hpos⟩
      have heq := hvotes w hw
      rw [heq] at hpos
      exact ⟨hpos, (hans.top w.1 hpos).mp ((hmem w).mp hw).1, heq⟩
    · rintro ⟨hpos, ha, heq⟩
      have hin := (hans.top w.1 hpos).mpr ha
      exact ⟨(hmem w).mpr ⟨hin, heq.trans (hans.votes _ hin).symm⟩, heq ▸ hpos⟩

/-- A level whose risers were listed in the parents' answer answers as its parents do. -/
theorem listed_of_risersListed
    (hrise : RisersListed t parents db (maxWinners + numChanged (deltaVotes t parents db)) maxWinners minVotes) :
    Listed (enumerateInflationWinners (getTotalVotes parentWinners (deltaVotes t parents db) minVotes)
      maxWinners minVotes) (t :: parents) db maxWinners minVotes := by
  have hrerank := reranking hdelta hparent
  have hans := (answers_enumerate_iff hdelta hparent).mpr hrise
  refine ⟨sorted_enumerate _, ((right_enumerate_iff hfits hdelta hparent).mpr hrise).2, ?_, ?_, ?_⟩
  · rw [listed_enumerate hfits hdelta hparent]
    exact ⟨hans.top, fun _ _ => rfl⟩
  · intro a ha hzero
    rw [listed_enumerate hfits hdelta hparent] at ha
    exact hrerank.idle_of_mem hparent.idle ha hzero
  · intro hm a ha hzero
    rw [listed_enumerate hfits hdelta hparent]
    refine hrerank.idle_mem hm (fun b hb hb0 => ?_) ha hzero
    rw [← numChanged_eq_card hdelta]
    exact hparent.room (newMinVotes_nonpos _ hm) b hb hb0

/-- When everyone on the list has votes. -/
theorem voted_enumerate_iff
    (hrise : RisersListed t parents db (maxWinners + numChanged (deltaVotes t parents db)) maxWinners minVotes) :
    (∀ a ∈ listed (enumerateInflationWinners (getTotalVotes parentWinners (deltaVotes t parents db) minVotes)
        maxWinners minVotes), 0 < votesIn (t :: parents) db a) ↔
      0 < minVotes ∨ maxWinners ≤ #{a | 0 < votesIn (t :: parents) db a} ∨
        ∀ a ∈ touchedAccounts (t :: parents) db, 0 < votesIn (t :: parents) db a := by
  have hans := (answers_enumerate_iff hdelta hparent).mpr hrise
  rw [listed_enumerate hfits hdelta hparent]
  refine (reranking hdelta hparent).all_voted_iff hans hparent.idle fun hm => ?_
  rw [← numChanged_eq_card hdelta]
  exact hparent.room (newMinVotes_nonpos _ hm)

end Ranked

end Level

/-! ## The whole stack -/

/-- At every level of a query, the padded limit fits and the winners that rose were within the padded
prefix of the parents' ledger. -/
def Padded : List LedgerTxn → Database → ℕ → ℤ → Prop
  | [], _, _, _ => True
  | t :: parents, db, maxWinners, minVotes =>
    let delta := deltaVotes t parents db
    maxWinners ≤ SIZE_MAX - numChanged delta ∧
      RisersListed t parents db (maxWinners + numChanged delta) maxWinners minVotes ∧
      Padded parents db (maxWinners + numChanged delta) (newMinVotes delta minVotes)

/-- At every level of a query the transaction gives the right winners to what it is asked. -/
def AnswersRight : List LedgerTxn → LedgerTxnRoot → ℕ → ℤ → Prop
  | [], _, _, _ => True
  | t :: parents, root, maxWinners, minVotes =>
    let delta := deltaVotes t parents root.mDatabase
    (∃ ws, (getInflationWinners (t :: parents) root maxWinners minVotes).1 = .ok ws ∧
      Right ws (t :: parents) root.mDatabase maxWinners minVotes) ∧
    AnswersRight parents root (maxWinners + numChanged delta) (newMinVotes delta minVotes)

theorem keyed_tail {t : LedgerTxn} {parents : List LedgerTxn} (h : ∀ t' ∈ t :: parents, t'.Keyed) :
    ∀ t' ∈ parents, t'.Keyed := fun t' ht' => h t' (List.mem_cons_of_mem _ ht')

theorem listed_root (db : Database) (maxWinners : ℕ) (minVotes : ℤ) :
    Listed (db.loadInflationWinners maxWinners minVotes) [] db maxWinners minVotes := by
  rw [loadInflationWinners_eq]
  have hvotes : ∀ w ∈ winners [] db maxWinners minVotes, 0 < w.2 ∧ w.2 = votesIn [] db w.1 := by
    intro w hw
    obtain ⟨hpos, -, heq⟩ := mem_winners.mp hw
    exact ⟨heq ▸ hpos, heq⟩
  refine ⟨pairwise_ranking toStrKey_injective (nodup_tally _), fun w hw => (hvotes w hw).2,
    ⟨fun a hpos => ?_, fun _ _ => rfl⟩, fun a ha hzero => ?_, fun _ a ha => absurd ha (notMem_empty a)⟩
  · rw [List.mem_toFinset, List.mem_map]
    constructor
    · rintro ⟨w, hw, rfl⟩
      exact (mem_winners.mp hw).2.1
    · intro ha
      exact ⟨(a, votesIn [] db a), mem_winners.mpr ⟨hpos, ha, rfl⟩, rfl⟩
  · obtain ⟨w, hw, rfl⟩ := List.mem_map.mp (List.mem_toFinset.mp ha)
    obtain ⟨hpos, heq⟩ := hvotes w hw
    omega

/-- Padded levels answer. -/
theorem listed_of_padded {txns : List LedgerTxn} (hkeyed : ∀ t ∈ txns, t.Keyed) {db : Database}
    (hfits : VotesFit txns db) (maxWinners : ℕ) (minVotes : ℤ) (h : Padded txns db maxWinners minVotes) :
    ∃ ws, answer txns db maxWinners minVotes = .ok ws ∧ Listed ws txns db maxWinners minVotes := by
  induction txns generalizing maxWinners minVotes with
  | nil => exact ⟨_, rfl, listed_root db maxWinners minVotes⟩
  | cons t parents ih =>
    obtain ⟨hlimit, hrise, hparents⟩ := h
    obtain ⟨parentWinners, hanswer, hparent⟩ := ih (keyed_tail hkeyed) hfits.parents _ _ hparents
    have hdelta := votes_deltaVotes hkeyed hfits
    refine ⟨_, ?_, listed_of_risersListed hfits hdelta hparent hrise⟩
    rw [answer, if_neg (not_lt.mpr hlimit), hanswer]

/-- **The levels of a query.** All of them are right exactly if all of them are padded enough. -/
theorem answersRight_iff {txns : List LedgerTxn} (hkeyed : ∀ t ∈ txns, t.Keyed) {root : LedgerTxnRoot}
    (hroot : root.CacheOK) (hfits : VotesFit txns root.mDatabase) (maxWinners : ℕ) (minVotes : ℤ) :
    AnswersRight txns root maxWinners minVotes ↔ Padded txns root.mDatabase maxWinners minVotes := by
  induction txns generalizing maxWinners minVotes with
  | nil => exact Iff.rfl
  | cons t parents ih =>
    have hdelta := votes_deltaVotes hkeyed hfits
    rw [AnswersRight, Padded, ih (keyed_tail hkeyed) hfits.parents,
      (getInflationWinners_eq (t :: parents) hroot maxWinners minVotes).1, answer,
      ← and_assoc]
    refine and_congr_left fun hparents => ?_
    obtain ⟨parentWinners, hanswer, hparent⟩ :=
      listed_of_padded (keyed_tail hkeyed) hfits.parents _ _ hparents
    rw [hanswer]
    split_ifs with hlimit
    · refine iff_of_false ?_ fun h => absurd h.1 (not_le.mpr hlimit)
      rintro ⟨ws, hws, -⟩
      cases hws
    · rw [and_iff_right (not_lt.mp hlimit), ← right_enumerate_iff hfits hdelta hparent]
      constructor
      · rintro ⟨ws, hws, hright⟩
        cases hws
        exact hright
      · exact fun hright => ⟨_, rfl, hright⟩

/-- The accounts with votes are those of the tally. -/
theorem card_voted (txns : List LedgerTxn) (db : Database) :
    #{a | 0 < votesIn txns db a} = (tally (flattened txns db)).length := by
  have hset : ({a | 0 < votesIn txns db a} : Finset AccountID)
      = ((tally (flattened txns db)).map Prod.fst).toFinset := by
    ext a
    rw [mem_tally_fst, mem_filter, and_iff_right (mem_univ a)]
  rw [hset, List.toFinset_card_of_nodup (nodup_tally _), List.length_map]

/-- The bound is positive, or accounts with votes fill the list, or all the accounts that the open
transactions touch have votes. -/
def NoIdleListed (txns : List LedgerTxn) (db : Database) (maxWinners : ℕ) (minVotes : ℤ) : Prop :=
  0 < minVotes ∨ maxWinners ≤ (tally (flattened txns db)).length ∨
    ∀ a ∈ touchedAccounts txns db, 0 < votesIn txns db a

/-- A transaction over right parents returns exactly the winners if and only if it is padded enough and
lists nobody without votes. -/
theorem winners_iff {t : LedgerTxn} {parents : List LedgerTxn} (hkeyed : ∀ t' ∈ t :: parents, t'.Keyed)
    {root : LedgerTxnRoot} (hroot : root.CacheOK) (hfits : VotesFit (t :: parents) root.mDatabase)
    (maxWinners : ℕ) (minVotes : ℤ) :
    (getInflationWinners (t :: parents) root maxWinners minVotes).1
          = .ok (winners (t :: parents) root.mDatabase maxWinners minVotes) ∧
        AnswersRight parents root (maxWinners + numChanged (deltaVotes t parents root.mDatabase))
          (newMinVotes (deltaVotes t parents root.mDatabase) minVotes) ↔
      Padded (t :: parents) root.mDatabase maxWinners minVotes ∧
        NoIdleListed (t :: parents) root.mDatabase maxWinners minVotes := by
  set db := root.mDatabase with hdb
  have hdelta := votes_deltaVotes hkeyed hfits
  have heq := (getInflationWinners_eq (t :: parents) hroot maxWinners minVotes).1
  have hvoted : ∀ w ∈ winners (t :: parents) db maxWinners minVotes, 0 < w.2 := by
    intro w hw
    obtain ⟨hpos, -, hvotes⟩ := mem_winners.mp hw
    exact hvotes ▸ hpos
  have hright : (getInflationWinners (t :: parents) root maxWinners minVotes).1
      = .ok (winners (t :: parents) db maxWinners minVotes) →
      AnswersRight parents root (maxWinners + numChanged (deltaVotes t parents db))
        (newMinVotes (deltaVotes t parents db) minVotes) → Padded (t :: parents) db maxWinners minVotes := by
    intro hok hparents
    refine (answersRight_iff hkeyed hroot hfits maxWinners minVotes).mp ⟨⟨_, hok, ?_, fun w hw => ?_⟩, hparents⟩
    · exact List.filter_eq_self.mpr fun w hw => decide_eq_true (hvoted w hw)
    · exact (mem_winners.mp hw).2.2
  have hidle : Padded (t :: parents) db maxWinners minVotes →
      (answer (t :: parents) db maxWinners minVotes = .ok (winners (t :: parents) db maxWinners minVotes) ↔
        NoIdleListed (t :: parents) db maxWinners minVotes) := by
    intro hpadded
    obtain ⟨hlimit, hrise, hparents⟩ := hpadded
    obtain ⟨parentWinners, hanswer, hparent⟩ := listed_of_padded (keyed_tail hkeyed) hfits.parents _ _ hparents
    have hall := voted_enumerate_iff hfits hdelta hparent hrise
    rw [card_voted] at hall
    obtain ⟨hfilter, hvotes⟩ := (right_enumerate_iff hfits hdelta hparent).mpr hrise
    rw [answer, if_neg (not_lt.mpr hlimit), hanswer, NoIdleListed, ← hall]
    dsimp only
    generalize enumerateInflationWinners (getTotalVotes parentWinners (deltaVotes t parents db) minVotes)
      maxWinners minVotes = ws at hfilter hvotes ⊢
    constructor
    · intro hok a ha
      obtain ⟨w, hw, rfl⟩ := List.mem_map.mp (List.mem_toFinset.mp ha)
      rw [← hvotes w hw]
      rw [Except.ok.inj hok] at hw
      exact hvoted w hw
    · intro hlisted
      rw [← hfilter]
      refine congrArg _ (List.filter_eq_self.mpr fun w hw => decide_eq_true ?_).symm
      rw [hvotes w hw]
      exact hlisted w.1 (List.mem_toFinset.mpr (List.mem_map_of_mem hw))
  constructor
  · rintro ⟨hok, hparents⟩
    have hpadded := hright hok hparents
    exact ⟨hpadded, (hidle hpadded).mp (heq ▸ hok)⟩
  · rintro ⟨hpadded, hnoidle⟩
    exact ⟨heq.trans ((hidle hpadded).mpr hnoidle),
      (answersRight_iff (keyed_tail hkeyed) hroot hfits.parents _ _).mpr hpadded.2.2⟩

end ZaggCore.Ledger
