import ZaggCore.Bucket.MergingList

/-! # The bucket list over a restart

`restart` writes the state of a list, with the merges resolved that the worker threads are done with,
reads it back and installs it in a fresh list. The list it gives amounts to what the old one amounted
to (`restart_shows`), and batches act on that alone. -/

namespace ZaggCore.Buckets.Merging
open Foundations Foundations.Checked
set_option autoImplicit false
set_option maxHeartbeats 250000

variable {β γ : Type} {ops : BucketOps β γ}

/-- The state that `storeCurrentLedger` writes. -/
def storedState (ops : BucketOps β γ) (ledger : ℕ) (bl : BucketList β) : Checked (HistoryArchiveState β) :=
  (HistoryArchiveState.new ops ledger bl).resolveAnyReadyFutures ops

def restart (ops : BucketOps β γ) (buckets : Hash → Option β) (ledger : ℕ) (bl : BucketList β) :
    Checked (BucketList β) := do
  let has ← storedState ops ledger bl
  let str ← has.toString ops
  let has ← HistoryArchiveState.fromString ops str
  assumeState ops (getBucketByHash ops buckets) has (BucketList.new ops)

/-- The buckets that a written state names are there. -/
def Present (ops : BucketOps β γ) (buckets : Hash → Option β) (bl : BucketList β)
    (has : HistoryArchiveState β) : Prop :=
  (∀ i < kNumLevels, ∀ b ∈ [(bl.mLevels i).mCurr, (bl.mLevels i).mSnap],
      getBucketByHash ops buckets (ops.getHash b) = some b) ∧
    ∀ level ∈ has.currentBuckets, ∀ b ∈ level.next.liveBuckets,
      getBucketByHash ops buckets (ops.getHash b) = some b

/-- The batches of the ledgers from `ledger` on; before each the worker threads get done with some
merges. -/
def addBatches (ops : BucketOps β γ) (bl : BucketList β) (ledger : ℕ) :
    List ((ℕ → Bool) × γ) → Checked (BucketList β)
  | [] => return bl
  | b :: bs => do
    let bl ← (bl.finish b.1).addBatch ops ledger b.2
    addBatches ops bl (ledger + 1) bs

/-- What a list amounts to after batches. -/
def batchesView (ops : BucketOps β γ) (v : ℕ → LevelView β) (ledger : ℕ) : List γ → ℕ → LevelView β
  | [] => v
  | b :: bs => batchesView ops (batchView ops ledger b v) (ledger + 1) bs

theorem addBatches_shows {bl : BucketList β} {v : ℕ → LevelView β} (h : Shows ops bl v) {ledger : ℕ}
    (hledger : 0 < ledger) (bs : List ((ℕ → Bool) × γ)) :
    ∃ bl', addBatches ops bl ledger bs = .ok bl' ∧
      Shows ops bl' (batchesView ops v ledger (bs.map Prod.snd)) := by
  induction bs generalizing bl v ledger with
  | nil => exact ⟨bl, rfl, h⟩
  | cons b bs ih =>
    obtain ⟨bl₁, hbatch, h₁⟩ := addBatch_shows (h.finish b.1) hledger b.2
    obtain ⟨bl', hrest, h'⟩ := ih h₁ (Nat.succ_pos ledger)
    refine ⟨bl', ?_, h'⟩
    rw [addBatches, hbatch]
    exact hrest

/-! ## The parts of a restart -/

section Restart

variable {bl : BucketList β} {v : ℕ → LevelView β}

theorem mapM_range_ok {α α' : Type} {f : α → Checked α'} {g : ℕ → α} {g' : ℕ → α'} {n : ℕ}
    (h : ∀ i < n, f (g i) = .ok (g' i)) :
    ((List.range n).map g).mapM f = .ok ((List.range n).map g') := by
  induction n with
  | zero => rfl
  | succ n ih =>
    rw [List.range_succ, List.map_append, List.map_append, List.mapM_append,
      ih fun i hi => h i (by omega)]
    simp only [bind, Except.bind, List.map_cons, List.map_nil, List.mapM_cons, List.mapM_nil]
    rw [h n n.lt_succ_self]
    rfl

theorem updateLevels_ok {f : BucketLevel β → ℕ → Checked (BucketLevel β)} {g : ℕ → BucketLevel β} (n : ℕ)
    (h : ∀ i < n, f (bl.mLevels i) i = .ok (g i)) :
    bl.updateLevels f n = .ok ⟨fun i => if i < n then g i else bl.mLevels i⟩ := by
  induction n with
  | zero => rfl
  | succ n ih =>
    rw [BucketList.updateLevels, ih fun i hi => h i (by omega)]
    simp only [bind, Except.bind, lt_irrefl, if_false]
    rw [h n n.lt_succ_self]
    simp only [pure, Except.pure, BucketList.set]
    congr 2
    funext i
    by_cases hi : i = n
    · subst hi
      simp
    · rw [Function.update_of_ne hi]
      have hlt : i < n ↔ i < n + 1 := by omega
      simp only [hlt]

open HistoryArchiveState

theorem resolveIfReady_holds {keepDeadEntries : Bool} {fb : FutureBucket β} {output : Option β}
    (h : FutureBucket.Holds ops keepDeadEntries fb output) :
    ∃ fb', resolveIfReady ops fb = .ok fb' ∧ FutureBucket.Holds ops keepDeadEntries fb' output := by
  have hresolve := fun b (hb : output = some b) => FutureBucket.resolve_eq (hb ▸ h)
  cases h with
  | clear => exact ⟨.clear, rfl, .clear⟩
  | merged output => exact ⟨.merged ops output, rfl, .merged output⟩
  | merging curr snap shadows ready =>
    cases ready with
    | false => exact ⟨.merging ops curr snap shadows keepDeadEntries false, rfl, .merging _ _ _ _⟩
    | true =>
      refine ⟨.merged ops (ops.merge curr snap shadows keepDeadEntries), ?_, .merged _⟩
      have hres := hresolve _ rfl
      simp only [resolveIfReady, FutureBucket.isMerging, FutureBucket.mergeComplete, FutureBucket.isLive,
        FutureBucket.merging, Checked.assert, bind, Except.bind] at hres ⊢
      simp [hres, pure, Except.pure]

/-- The state that is written, level by level. -/
def stateOf (ops : BucketOps β γ) (ledger : ℕ) (bl : BucketList β) (next : ℕ → FutureBucket β) :
    HistoryArchiveState β where
  currentLedger := ledger
  currentBuckets := (List.range kNumLevels).map fun i =>
    ⟨ops.getHash (bl.mLevels i).mCurr, next i, ops.getHash (bl.mLevels i).mSnap⟩

theorem storedState_eq (h : Shows ops bl v) (ledger : ℕ) :
    ∃ next, storedState ops ledger bl = .ok (stateOf ops ledger bl next) ∧
      ∀ i < kNumLevels, FutureBucket.Holds ops (keepDeadEntries i) (next i) (v i).next := by
  have hlevel : ∀ i, ∃ fb, i < kNumLevels → resolveIfReady ops (bl.mLevels i).mNextCurr = .ok fb ∧
      FutureBucket.Holds ops (keepDeadEntries i) fb (v i).next := by
    intro i
    by_cases hi : i < kNumLevels
    · obtain ⟨fb, hfb⟩ := resolveIfReady_holds (h.levels i hi).next
      exact ⟨fb, fun _ => hfb⟩
    · exact ⟨.clear, fun h' => absurd h' hi⟩
  choose next hnext using hlevel
  refine ⟨next, ?_, fun i hi => (hnext i hi).2⟩
  rw [storedState, HistoryArchiveState.new, resolveAnyReadyFutures, mapM_range_ok fun i hi => ?_]
  · rfl
  · simp only
    rw [(hnext i hi).1]
    rfl

/-- **A restart** gives a list that amounts to the same, if the buckets of the written state are
there. -/
theorem restart_shows (h : Shows ops bl v) (ledger : ℕ) {buckets : Hash → Option β}
    {has : HistoryArchiveState β} (hhas : storedState ops ledger bl = .ok has)
    (hpresent : Present ops buckets bl has) :
    ∃ bl', restart ops buckets ledger bl = .ok bl' ∧ Shows ops bl' v := by
  obtain ⟨next, hstored, hholds⟩ := storedState_eq h ledger
  obtain rfl : stateOf ops ledger bl next = has := Except.ok.inj (hstored.symm.trans hhas)
  have hlevel : ∀ i, ∃ saved loaded fb', i < kNumLevels →
      FutureBucket.save ops (next i) = .ok saved ∧ FutureBucket.load ops saved = .ok loaded ∧
        loaded.isMerging = false ∧
        (if loaded.hasHashes && !loaded.isLive then
          FutureBucket.makeLive ops (getBucketByHash ops buckets) loaded (keepDeadEntries i)
          else .ok loaded) = .ok fb' ∧
        FutureBucket.Holds ops (keepDeadEntries i) fb' (v i).next := by
    intro i
    by_cases hi : i < kNumLevels
    · have hfiles : ∀ b ∈ (next i).liveBuckets, getBucketByHash ops buckets (ops.getHash b) = some b :=
        fun b hb => hpresent.2 _ (List.mem_map.mpr ⟨i, List.mem_range.mpr hi, rfl⟩) b hb
      obtain ⟨saved, loaded, fb', hfb⟩ := FutureBucket.reload_holds (hholds i hi) hfiles
      exact ⟨saved, loaded, fb', fun _ => hfb⟩
    · exact ⟨.FB_CLEAR, .clear, .clear, fun h' => absurd h' hi⟩
  choose saved loaded fb' hfb using hlevel
  have hstr : (stateOf ops ledger bl next).toString ops = .ok ⟨ledger, (List.range kNumLevels).map fun i =>
      (ops.getHash (bl.mLevels i).mCurr, saved i, ops.getHash (bl.mLevels i).mSnap)⟩ := by
    rw [HistoryArchiveState.toString, stateOf, mapM_range_ok fun i hi => ?_]
    · rfl
    · simp only
      rw [(hfb i hi).1]
      rfl
  have hfrom : fromString ops ⟨ledger, (List.range kNumLevels).map fun i =>
      (ops.getHash (bl.mLevels i).mCurr, saved i, ops.getHash (bl.mLevels i).mSnap)⟩
        = .ok (stateOf ops ledger bl loaded) := by
    have hload : ∀ i < kNumLevels, (do
        return { curr := ops.getHash (bl.mLevels i).mCurr, next := ← FutureBucket.load ops (saved i),
                 snap := ops.getHash (bl.mLevels i).mSnap } : Checked (HistoryStateBucket β))
          = .ok ⟨ops.getHash (bl.mLevels i).mCurr, loaded i, ops.getHash (bl.mLevels i).mSnap⟩ := by
      intro i hi
      rw [(hfb i hi).2.1]
      rfl
    rw [fromString, mapM_range_ok hload]
    have hresolved : (stateOf ops ledger bl loaded).futuresAllResolved = true := by
      simp only [futuresAllResolved, stateOf, List.all_map, List.all_eq_true, List.mem_range]
      intro i hi
      simp [(hfb i hi).2.2.1]
    exact assert_bind hresolved _ _
  have hassume : assumeState ops (getBucketByHash ops buckets) (stateOf ops ledger bl loaded)
      (BucketList.new ops) = .ok ⟨fun i => if i < kNumLevels then
        ⟨i, fb' i, (bl.mLevels i).mCurr, (bl.mLevels i).mSnap⟩ else BucketLevel.new ops i⟩ := by
    have hinstall : ∀ i < kNumLevels, assumeLevel (getBucketByHash ops buckets)
        (stateOf ops ledger bl loaded) ((BucketList.new ops).mLevels i) i
          = .ok ⟨i, loaded i, (bl.mLevels i).mCurr, (bl.mLevels i).mSnap⟩ := by
      intro i hi
      have hcurr := hpresent.1 i hi (bl.mLevels i).mCurr (by simp)
      have hsnap := hpresent.1 i hi (bl.mLevels i).mSnap (by simp)
      simp only [assumeLevel, stateOf, List.getElem?_map, List.getElem?_range hi, Option.map_some]
      rw [hcurr, hsnap]
      rfl
    rw [assumeState, updateLevels_ok kNumLevels hinstall]
    have hrestarted : ∀ i < kNumLevels, BucketLevel.restartMerge ops (getBucketByHash ops buckets)
        (if i < kNumLevels then ⟨i, loaded i, (bl.mLevels i).mCurr, (bl.mLevels i).mSnap⟩
          else (BucketList.new ops).mLevels i) i
          = .ok ⟨i, fb' i, (bl.mLevels i).mCurr, (bl.mLevels i).mSnap⟩ := by
      intro i hi
      have hlive := (hfb i hi).2.2.2.1
      rw [if_pos hi, BucketLevel.restartMerge]
      simp only
      split_ifs at hlive ⊢ with hhashes
      · rw [hlive]
        rfl
      · rw [Except.ok.inj hlive]
        rfl
    refine (updateLevels_ok kNumLevels hrestarted).trans ?_
    congr 2
    funext i
    by_cases hi : i < kNumLevels
    · rw [if_pos hi, if_pos hi]
    · rw [if_neg hi, if_neg hi]
      exact if_neg hi
  have hrestart : restart ops buckets ledger bl = assumeState ops (getBucketByHash ops buckets)
      (stateOf ops ledger bl loaded) (BucketList.new ops) := by
    rw [restart, hhas]
    simp only [bind, Except.bind]
    rw [hstr]
    simp only
    rw [hfrom]
  refine ⟨_, hrestart.trans hassume, fun i hi => ?_, h.top⟩
  simp only [hi, if_true]
  exact ⟨rfl, (h.levels i hi).curr, (h.levels i hi).snap, (hfb i hi).2.2.2.2⟩

/-- Lists that amount to the same have the same hash at every level. -/
theorem Shows.getHash_eq {bl' : BucketList β} (h : Shows ops bl v) (h' : Shows ops bl' v)
    (sha256 : List Hash → Hash) {i : ℕ} (hi : i < kNumLevels) :
    (bl'.mLevels i).getHash ops sha256 = (bl.mLevels i).getHash ops sha256 := by
  rw [BucketLevel.getHash, BucketLevel.getHash, (h'.levels i hi).curr, (h'.levels i hi).snap,
    (h.levels i hi).curr, (h.levels i hi).snap]

end Restart

/-- **Restart.** After any batches, with any merges done, the written state is read back into a list
with the same hash; with the same batches to come, the old list and the new one have the same hashes
at every level, whichever merges get done when, and no call fails. -/
theorem restart_faithful (ops : BucketOps β γ) (sha256 : List Hash → Hash)
    (before : List ((ℕ → Bool) × γ)) (done : ℕ → Bool) (buckets : Hash → Option β) :
    ∃ bl has, addBatches ops (.new ops) 1 before = .ok bl ∧
      storedState ops before.length (bl.finish done) = .ok has ∧
      (Present ops buckets (bl.finish done) has →
        ∃ bl', restart ops buckets before.length (bl.finish done) = .ok bl' ∧
          bl'.getHash ops sha256 = bl.getHash ops sha256 ∧
          ∀ after after' : List ((ℕ → Bool) × γ), after'.map Prod.snd = after.map Prod.snd →
            ∃ c c', addBatches ops (bl.finish done) (before.length + 1) after = .ok c ∧
              addBatches ops bl' (before.length + 1) after' = .ok c' ∧
              ∀ i < kNumLevels, (c'.mLevels i).getHash ops sha256 = (c.mLevels i).getHash ops sha256) := by
  have hnew : Shows ops (.new ops) fun _ => .new ops := shows_new
  obtain ⟨bl, hrun, hshows⟩ := addBatches_shows hnew Nat.one_pos before
  obtain ⟨next, hstored, -⟩ := storedState_eq (hshows.finish done) before.length
  refine ⟨bl, _, hrun, hstored, fun hpresent => ?_⟩
  obtain ⟨bl', hrestart, hshows'⟩ := restart_shows (hshows.finish done) before.length hstored hpresent
  refine ⟨bl', hrestart, ?_, fun after after' hbatches => ?_⟩
  · rw [BucketList.getHash, BucketList.getHash]
    congr 1
    exact List.map_congr_left fun i hi => hshows.getHash_eq hshows' sha256 (List.mem_range.mp hi)
  · obtain ⟨c, hc, hshowsC⟩ := addBatches_shows (hshows.finish done) (Nat.succ_pos before.length) after
    obtain ⟨c', hc', hshowsC'⟩ := addBatches_shows hshows' (Nat.succ_pos before.length) after'
    rw [hbatches] at hshowsC'
    exact ⟨c, c', hc, hc', fun i hi => hshowsC.getHash_eq hshowsC' sha256 hi⟩

/-- Buckets that are their own hashes. -/
def hashOps : BucketOps Hash Hash where
  empty := 0
  fresh b := b
  merge oldBucket newBucket _ _ := oldBucket + newBucket
  getHash b := b

/-- Eight ledgers, with the merge into level 1 running when the state is written. -/
theorem restart_faithful_eight : ∃ bl bl',
    addBatches hashOps (.new hashOps) 1 (List.replicate 8 (fun _ => false, 1)) = .ok bl ∧
      restart hashOps some 8 (bl.finish fun _ => false) = .ok bl' ∧
      bl'.getHash hashOps List.sum = bl.getHash hashOps List.sum := by
  obtain ⟨bl, has, hrun, -, hrestart⟩ := restart_faithful hashOps List.sum
    (List.replicate 8 (fun _ => false, 1)) (fun _ => false) some
  have hthere : ∀ b : Hash, getBucketByHash hashOps some (hashOps.getHash b) = some b := by
    intro b
    simp only [getBucketByHash, hashOps]
    split_ifs with hb <;> simp [hb]
  obtain ⟨bl', hbl', hhash, -⟩ := hrestart ⟨fun _ _ b _ => hthere b, fun _ _ b _ => hthere b⟩
  exact ⟨bl, bl', hrun, hbl', hhash⟩

end ZaggCore.Buckets.Merging
