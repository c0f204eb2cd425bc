import Mathlib
import ZaggCore.Bucket.Bucket
import ZaggCore.Foundations.LayeredLog

/-! # The bucket list

The model of `bucket/BucketList.cpp`. A pending merge is the inputs it was started with: a merge is a
function of its inputs, so it makes no difference that the code runs it in the background and reads the
result at the commit. Ledger numbers are natural numbers, without the wrap of `uint32_t`: every level
size divides `2 ^ 32`, so a wrapped sum spills the same levels.

`Layered` is the invariant that ties every level to the ledgers it stands for, through the layers of
`LayeredLog`; `layered_addBatch` is its step. -/

namespace ZaggCore.Buckets
set_option autoImplicit false
set_option maxHeartbeats 250000

open SortedKeys LayeredLog

/-! ## Levels -/

def kNumLevels : ℕ := 11

def levelSize (level : ℕ) : ℕ := 1 <<< (2 * (level + 1))

def levelHalf (level : ℕ) : ℕ := levelSize level >>> 1

/-- `v & ~(m - 1)`, without the complement. -/
def mask (v m : ℕ) : ℕ := v - (v &&& (m - 1))

def levelShouldSpill (ledger level : ℕ) : Bool :=
  if level = kNumLevels - 1 then false
  else ledger = mask ledger (levelHalf level) || ledger = mask ledger (levelSize level)

def keepDeadEntries (level : ℕ) : Bool := level < kNumLevels - 1

/-- `FutureBucket`, in the states it has between two calls of `addBatch`. -/
inductive FutureBucket where
  | FB_CLEAR
  | FB_LIVE_INPUTS (curr snap : Bucket) (shadows : List Bucket) (keepDeadEntries : Bool)

structure BucketLevel where
  mLevel : ℕ
  mNextCurr : FutureBucket
  mCurr : Bucket
  mSnap : Bucket

def BucketLevel.new (i : ℕ) : BucketLevel := ⟨i, .FB_CLEAR, .empty, .empty⟩

/-- `setCurr` with the resolved merge, if there is one. -/
def BucketLevel.commit (level : BucketLevel) : BucketLevel :=
  match level.mNextCurr with
  | .FB_CLEAR => level
  | .FB_LIVE_INPUTS curr snap shadows keepDeadEntries =>
    { level with mNextCurr := .FB_CLEAR, mCurr := curr.merge snap shadows keepDeadEntries }

/-- The merge of `snap` into this level is prepared with an empty `mCurr` when the level is to be
snapshotted at the next spill into it. -/
def BucketLevel.prepare (level : BucketLevel) (currLedger : ℕ) (snap : Bucket)
    (shadows : List Bucket) : BucketLevel :=
  let curr :=
    if level.mLevel ≠ 0 ∧ levelShouldSpill (currLedger + levelHalf (level.mLevel - 1)) level.mLevel then
      .empty
    else level.mCurr
  { level with mNextCurr := .FB_LIVE_INPUTS curr snap shadows (keepDeadEntries level.mLevel) }

def BucketLevel.snap (level : BucketLevel) : BucketLevel :=
  { level with mSnap := level.mCurr, mCurr := .empty }

/-! ## The list -/

/-- The levels by number; those from `kNumLevels` on are never looked at. -/
structure BucketList where
  mLevels : ℕ → BucketLevel

def BucketList.new : BucketList := ⟨BucketLevel.new⟩

def BucketList.set (bl : BucketList) (i : ℕ) (level : BucketLevel) : BucketList :=
  ⟨Function.update bl.mLevels i level⟩

/-- The `mCurr` and `mSnap` buckets of the first `n` levels, newest first. -/
def BucketList.buckets (bl : BucketList) (n : ℕ) : List Bucket :=
  (List.range n).flatMap fun i => [(bl.mLevels i).mCurr, (bl.mLevels i).mSnap]

/-- The two `pop_back` calls. -/
def popLevel (shadows : List Bucket) : List Bucket := shadows.dropLast.dropLast

/-- The loop of `addBatch` from level `i` down to level 1. -/
def spillLoop (currLedger : ℕ) : ℕ → BucketList → List Bucket → BucketList × List Bucket
  | 0, bl, shadows => (bl, shadows)
  | i + 1, bl, shadows =>
    let shadows := popLevel shadows
    if levelShouldSpill currLedger i then
      let bl := bl.set i (bl.mLevels i).snap
      let snap := (bl.mLevels i).mSnap
      let level := ((bl.mLevels (i + 1)).commit).prepare currLedger snap shadows
      spillLoop currLedger i (bl.set (i + 1) level) shadows
    else spillLoop currLedger i bl shadows

def addBatch (bl : BucketList) (currLedger : ℕ) (liveEntries : List LedgerEntry)
    (deadEntries : List LedgerKey) : BucketList :=
  let shadows := popLevel (bl.buckets kNumLevels)
  let r := spillLoop currLedger (kNumLevels - 1) bl shadows
  let level := (r.1.mLevels 0).prepare currLedger (Bucket.fresh liveEntries deadEntries) r.2
  r.1.set 0 level.commit

/-- The list after the batches of ledgers `ledger`, `ledger + 1`, and so on. -/
def addBatches (bl : BucketList) (ledger : ℕ) : List Batch → BucketList
  | [] => bl
  | b :: bs => addBatches (addBatch bl ledger b.liveEntries b.deadEntries) (ledger + 1) bs

/-- The first entry found for a key from level 0's `mCurr` down. -/
def BucketList.search (bl : BucketList) (k : LedgerKey) : Option BucketEntry :=
  (bl.buckets kNumLevels).findSome? fun b => b.lookup k

/-! ## Which levels spill -/

theorem levelSize_eq (level : ℕ) : levelSize level = 2 ^ (2 * level + 2) := by
  rw [levelSize, Nat.one_shiftLeft]
  ring_nf

theorem levelHalf_eq (level : ℕ) : levelHalf level = 2 ^ (2 * level + 1) := by
  rw [levelHalf, levelSize_eq, Nat.shiftRight_eq_div_pow, pow_succ]
  simp

theorem levelHalf_pos (level : ℕ) : 0 < levelHalf level := by
  rw [levelHalf_eq]
  positivity

theorem eq_mask_iff (v n : ℕ) : v = mask v (2 ^ n) ↔ 2 ^ n ∣ v := by
  rw [mask, Nat.and_two_pow_sub_one_eq_mod, Nat.dvd_iff_mod_eq_zero]
  have hle := Nat.mod_le v (2 ^ n)
  omega

theorem levelShouldSpill_iff (ledger level : ℕ) :
    levelShouldSpill ledger level = true ↔ level ≠ kNumLevels - 1 ∧ levelHalf level ∣ ledger := by
  have hdvd : levelHalf level ∣ levelSize level := by
    rw [levelHalf_eq, levelSize_eq]
    exact pow_dvd_pow 2 (by omega)
  unfold levelShouldSpill
  split_ifs with h
  · simp [h]
  · rw [Bool.or_eq_true, decide_eq_true_iff, decide_eq_true_iff]
    rw [levelHalf_eq, levelSize_eq, eq_mask_iff, eq_mask_iff, ← levelHalf_eq, ← levelSize_eq]
    exact ⟨fun h' => ⟨h, h'.elim id hdvd.trans⟩, fun h' => .inl h'.2⟩

theorem levelHalf_dvd_succ (level : ℕ) : levelHalf level ∣ levelHalf (level + 1) := by
  rw [levelHalf_eq, levelHalf_eq]
  exact pow_dvd_pow 2 (by omega)

/-- A level spills only together with all the younger ones. -/
theorem levelShouldSpill_pred {ledger level : ℕ} (hlt : level + 1 < kNumLevels)
    (h : levelShouldSpill ledger (level + 1) = true) : levelShouldSpill ledger level = true := by
  rw [levelShouldSpill_iff] at h ⊢
  exact ⟨by omega, (levelHalf_dvd_succ level).trans h.2⟩

/-- The first ledger after `ledger` at which a level that is not the last spills. -/
def nextSpill (ledger level : ℕ) : ℕ := (ledger / levelHalf level + 1) * levelHalf level

theorem nextSpill_of_spill {ledger level : ℕ} (h : levelHalf level ∣ ledger + 1) :
    nextSpill ledger level = ledger + 1 := by
  rw [nextSpill, ← Nat.succ_div_of_dvd h, Nat.div_mul_cancel h]

theorem nextSpill_succ_of_spill {ledger level : ℕ} (h : levelHalf level ∣ ledger + 1) :
    nextSpill (ledger + 1) level = ledger + 1 + levelHalf level := by
  rw [nextSpill, Nat.succ_mul, Nat.div_mul_cancel h]

theorem nextSpill_succ_of_not {ledger level : ℕ} (h : ¬ levelHalf level ∣ ledger + 1) :
    nextSpill (ledger + 1) level = nextSpill ledger level := by
  rw [nextSpill, Nat.succ_div_of_not_dvd h, nextSpill]

/-! ## `addBatch`, level by level -/

/-- A level after the spill into the next one. -/
def spilled (currLedger : ℕ) (bl : BucketList) (i : ℕ) : BucketLevel :=
  if levelShouldSpill currLedger i then (bl.mLevels i).snap else bl.mLevels i

/-- A level after its own spill and the spill into it. -/
def stepped (currLedger : ℕ) (bl : BucketList) (i : ℕ) : BucketLevel :=
  if levelShouldSpill currLedger i then
    (spilled currLedger bl (i + 1)).commit.prepare currLedger (bl.mLevels i).mCurr (bl.buckets i)
  else spilled currLedger bl (i + 1)

@[simp] theorem popLevel_buckets (bl : BucketList) (n : ℕ) :
    popLevel (bl.buckets (n + 1)) = bl.buckets n := by
  simp [popLevel, BucketList.buckets, List.range_succ]

theorem spillLoop_spec (currLedger : ℕ) (bl₀ : BucketList) (n : ℕ) (bl : BucketList)
    (hlt : ∀ j < n, bl.mLevels j = bl₀.mLevels j) (hn : bl.mLevels n = spilled currLedger bl₀ n) :
    (spillLoop currLedger n bl (bl₀.buckets n)).2 = [] ∧
      (spillLoop currLedger n bl (bl₀.buckets n)).1.mLevels 0 = spilled currLedger bl₀ 0 ∧
      (∀ j < n, (spillLoop currLedger n bl (bl₀.buckets n)).1.mLevels (j + 1)
        = stepped currLedger bl₀ j) ∧
      ∀ j, n < j → (spillLoop currLedger n bl (bl₀.buckets n)).1.mLevels j = bl.mLevels j := by
  induction n generalizing bl with
  | zero => simpa [spillLoop, BucketList.buckets] using hn
  | succ n ih =>
    rw [spillLoop, popLevel_buckets]
    by_cases hsp : levelShouldSpill currLedger n = true
    · rw [if_pos hsp]
      have hsnap : spilled currLedger bl₀ n = (bl.mLevels n).snap := by
        rw [spilled, if_pos hsp, hlt n n.lt_succ_self]
      obtain ⟨h1, h2, h3, h4⟩ := ih
        ((bl.set n (bl.mLevels n).snap).set (n + 1)
          ((((bl.set n (bl.mLevels n).snap).mLevels (n + 1)).commit).prepare currLedger
            ((bl.set n (bl.mLevels n).snap).mLevels n).mSnap (bl₀.buckets n)))
        (fun j hj => by
          simp only [BucketList.set]
          rw [Function.update_of_ne (by omega), Function.update_of_ne (by omega), hlt j (by omega)])
        (by simp [BucketList.set, hsnap])
      refine ⟨h1, h2, fun j hj => ?_, fun j hj => ?_⟩
      · rcases Nat.lt_succ_iff_lt_or_eq.mp hj with hj | rfl
        · exact h3 j hj
        · rw [h4 _ (Nat.lt_succ_self _), stepped, if_pos hsp, ← hn]
          simp [BucketList.set, BucketLevel.snap, hlt]
      · rw [h4 j (by omega)]
        simp only [BucketList.set]
        rw [Function.update_of_ne (by omega), Function.update_of_ne (by omega)]
    · rw [if_neg hsp]
      obtain ⟨h1, h2, h3, h4⟩ := ih bl (fun j hj => hlt j (by omega))
        (by rw [spilled, if_neg hsp, hlt n n.lt_succ_self])
      refine ⟨h1, h2, fun j hj => ?_, fun j hj => h4 j (by omega)⟩
      rcases Nat.lt_succ_iff_lt_or_eq.mp hj with hj | rfl
      · exact h3 j hj
      · rw [h4 _ (Nat.lt_succ_self _), stepped, if_neg hsp, hn]

theorem addBatch_zero (bl : BucketList) (currLedger : ℕ) (live : List LedgerEntry)
    (dead : List LedgerKey) :
    (addBatch bl currLedger live dead).mLevels 0
      = ((spilled currLedger bl 0).prepare currLedger (Bucket.fresh live dead) []).commit := by
  have hspec := spillLoop_spec currLedger bl (kNumLevels - 1) bl (fun _ _ => rfl)
    (by simp [spilled, levelShouldSpill])
  have hpop : popLevel (bl.buckets kNumLevels) = bl.buckets (kNumLevels - 1) :=
    popLevel_buckets bl (kNumLevels - 1)
  simp [addBatch, BucketList.set, hpop, hspec.1, hspec.2.1]

theorem addBatch_succ (bl : BucketList) (currLedger : ℕ) (live : List LedgerEntry)
    (dead : List LedgerKey) (i : ℕ) (hi : i + 1 < kNumLevels) :
    (addBatch bl currLedger live dead).mLevels (i + 1) = stepped currLedger bl i := by
  have hspec := spillLoop_spec currLedger bl (kNumLevels - 1) bl (fun _ _ => rfl)
    (by simp [spilled, levelShouldSpill])
  have hpop : popLevel (bl.buckets kNumLevels) = bl.buckets (kNumLevels - 1) :=
    popLevel_buckets bl (kNumLevels - 1)
  simp [addBatch, BucketList.set, hpop, hspec.2.2.1 i (by omega)]

/-! ## The invariant -/

/-- What the batch of a ledger says about a key; ledgers count from 1. -/
def batchLog (batches : List Batch) : ℕ → LedgerKey → Option BucketEntry
  | 0, _ => none
  | ledger + 1, k => (batches[ledger]?).bind fun b => b.entry k

/-- The entries that the buckets of a level hold for good. -/
abbrev keepAt (level : ℕ) : BucketEntry → Bool := kept (keepDeadEntries level)

/-- What `mCurr` of a level becomes at the next spill into it, if it does or does not spill itself by
then. -/
def BucketLevel.resolved (level : BucketLevel) (spills : Bool) : Bucket :=
  match level.mNextCurr with
  | .FB_CLEAR => if spills then .empty else level.mCurr
  | .FB_LIVE_INPUTS curr snap shadows keepDeadEntries => curr.merge snap shadows keepDeadEntries

/-- The ledger under which a level's `mCurr` ends, given where the `mSnap` buckets begin. -/
def top (ledger : ℕ) (z : ℕ → ℕ) : ℕ → ℕ
  | 0 => ledger + 1
  | i + 1 => z i

/-- After the batches up to `ledger`, level `i` has in `mCurr` the ledgers from `x i` to the next
younger bucket and in `mSnap` those from `z i` to `x i`, and its pending merge will have what `mCurr`
should hold after the next spill. -/
structure Layered (batches : List Batch) (ledger : ℕ) (bl : BucketList) (x z : ℕ → ℕ) : Prop where
  z_le : ∀ i < kNumLevels, z i ≤ x i
  x_le : ∀ i < kNumLevels, x i ≤ top ledger z i
  bottom : x (kNumLevels - 1) = 1 ∧ z (kNumLevels - 1) = 1
  lastSnap : (bl.mLevels (kNumLevels - 1)).mSnap = .empty
  level : ∀ i < kNumLevels, (bl.mLevels i).mLevel = i
  clear : (bl.mLevels 0).mNextCurr = .FB_CLEAR
  curr : ∀ i < kNumLevels, Summarizes (batchLog batches) (ledger + 1) (keepAt i) (x i) (top ledger z i)
    (bl.mLevels i).mCurr.lookup
  snap : ∀ i < kNumLevels, Summarizes (batchLog batches) (ledger + 1) (keepAt i) (z i) (x i)
    (bl.mLevels i).mSnap.lookup
  next : ∀ i, i + 1 < kNumLevels →
    let spills := levelShouldSpill (nextSpill ledger i) (i + 1)
    Summarizes (batchLog batches) (ledger + 1) (keepAt (i + 1)) (if spills then z i else x (i + 1)) (x i)
      ((bl.mLevels (i + 1)).resolved spills).lookup

section Step

variable {batches : List Batch} {ledger : ℕ} {bl : BucketList} {x z : ℕ → ℕ}

theorem keepAt_of_lt {i : ℕ} (h : i < kNumLevels - 1) : keepAt i = keepAll := by
  funext e
  simp [kept, keepDeadEntries, h, keepAll]

/-- Where `mCurr` begins after the next batch. -/
def nextX (ledger : ℕ) (x z : ℕ → ℕ) (i : ℕ) : ℕ :=
  if levelShouldSpill (ledger + 1) i then top ledger z i else x i

/-- Where `mSnap` begins after the next batch. -/
def nextZ (ledger : ℕ) (x z : ℕ → ℕ) (i : ℕ) : ℕ :=
  if levelShouldSpill (ledger + 1) i then x i else z i

theorem layered_new (batches : List Batch) :
    Layered batches 0 BucketList.new (fun _ => 1) (fun _ => 1) := by
  have hempty : ∀ keep lo, Summarizes (batchLog batches) 1 keep lo lo Bucket.empty.lookup :=
    fun _ lo => summarizes_empty lo
  have htop : ∀ i, top 0 (fun _ => 1) i = 1 := by rintro (_ | i) <;> rfl
  constructor
  case curr => intro i _; rw [htop]; exact hempty _ _
  case next =>
    intro i _
    simp only [ite_self, BucketList.new, BucketLevel.new, BucketLevel.resolved]
    exact hempty _ _
  case snap => intro i _; exact hempty _ _
  case x_le => intro i _; rw [htop]
  all_goals first | rfl | simp [BucketList.new, BucketLevel.new]

theorem Layered.top_le (h : Layered batches ledger bl x z) {i : ℕ} (hi : i < kNumLevels) :
    top ledger z i ≤ ledger + 1 := by
  induction i with
  | zero => rfl
  | succ i ih =>
    have h1 := h.z_le i (by omega)
    have h2 := h.x_le i (by omega)
    have h3 := ih (by omega)
    rw [top]
    omega

theorem Layered.top_le_z (h : Layered batches ledger bl x z) {i j : ℕ} (hj : j < i)
    (hi : i < kNumLevels) : top ledger z i ≤ z j := by
  induction i with
  | zero => omega
  | succ i ih =>
    rw [top]
    rcases Nat.lt_succ_iff_lt_or_eq.mp hj with hj | rfl
    · have h1 := h.z_le i (by omega)
      have h2 := h.x_le i (by omega)
      have h3 := ih hj (by omega)
      omega
    · exact le_rfl

/-- The buckets of the levels above `i` mention only keys that some batch from `top` on mentions. -/
theorem Layered.shadows_none (h : Layered batches ledger bl x z) {i : ℕ} (hi : i < kNumLevels)
    {k : LedgerKey} (hu : Untouched (batchLog batches) (top ledger z i) (ledger + 1) k) :
    ¬ ∃ b ∈ bl.buckets i, (b.lookup k).isSome := by
  rintro ⟨b, hb, hsome⟩
  obtain ⟨j, hj, hb⟩ := List.mem_flatMap.mp hb
  have hji : j < i := List.mem_range.mp hj
  have hz := h.top_le_z hji hi
  have hzx := h.z_le j (by omega)
  have hxt := h.x_le j (by omega)
  have htop := h.top_le (i := j) (by omega)
  have hu' : ∀ lo, z j ≤ lo → Untouched (batchLog batches) lo (ledger + 1) k :=
    fun lo hlo m hm => hu m (by omega)
  suffices hnone : b.lookup k = none by simp [hnone] at hsome
  rcases List.mem_pair.mp hb with rfl | rfl
  · exact (h.curr j (by omega)).eq_none hxt (hu' _ hzx) htop
  · exact (h.snap j (by omega)).eq_none hzx (hu' _ le_rfl) (by omega)

/-! ### What one batch does to a level -/

@[simp] theorem mLevel_commit (level : BucketLevel) : level.commit.mLevel = level.mLevel := by
  unfold BucketLevel.commit
  split <;> rfl

@[simp] theorem mSnap_commit (level : BucketLevel) : level.commit.mSnap = level.mSnap := by
  unfold BucketLevel.commit
  split <;> rfl

@[simp] theorem mLevel_spilled (i : ℕ) : (spilled ledger bl i).mLevel = (bl.mLevels i).mLevel := by
  unfold spilled
  split <;> rfl

theorem mCurr_commit_spilled (i : ℕ) :
    (spilled ledger bl i).commit.mCurr = (bl.mLevels i).resolved (levelShouldSpill ledger i) := by
  unfold spilled BucketLevel.resolved BucketLevel.commit
  cases levelShouldSpill ledger i <;> cases h : (bl.mLevels i).mNextCurr <;>
    simp [BucketLevel.snap, h]

theorem mSnap_spilled (i : ℕ) : (spilled ledger bl i).mSnap
    = if levelShouldSpill ledger i then (bl.mLevels i).mCurr else (bl.mLevels i).mSnap := by
  unfold spilled
  split <;> rfl

theorem stepped_of_not {i : ℕ} (hi : i + 1 < kNumLevels) (hsp : ¬ levelShouldSpill ledger i = true) :
    stepped ledger bl i = bl.mLevels (i + 1) := by
  rw [stepped, if_neg hsp, spilled, if_neg fun h => hsp (levelShouldSpill_pred hi h)]

theorem mSnap_addBatch (live : List LedgerEntry) (dead : List LedgerKey) {i : ℕ}
    (hi : i < kNumLevels) : ((addBatch bl ledger live dead).mLevels i).mSnap
    = if levelShouldSpill ledger i then (bl.mLevels i).mCurr else (bl.mLevels i).mSnap := by
  cases i with
  | zero =>
    rw [addBatch_zero, mSnap_commit, ← mSnap_spilled]
    rfl
  | succ i =>
    rw [addBatch_succ _ _ _ _ _ hi, stepped, ← mSnap_spilled]
    split
    · exact mSnap_commit _
    · rfl

theorem mLevel_addBatch (live : List LedgerEntry) (dead : List LedgerKey) {i : ℕ}
    (hi : i < kNumLevels) :
    ((addBatch bl ledger live dead).mLevels i).mLevel = (bl.mLevels i).mLevel := by
  cases i with
  | zero =>
    rw [addBatch_zero, mLevel_commit]
    exact mLevel_spilled 0
  | succ i =>
    rw [addBatch_succ _ _ _ _ _ hi, stepped]
    split
    · exact (mLevel_commit _).trans (mLevel_spilled _)
    · exact mLevel_spilled _

/-! ### The step of the invariant -/

theorem Layered.snap_step (h : Layered batches ledger bl x z) (b : Batch) {i : ℕ}
    (hi : i < kNumLevels) :
    Summarizes (batchLog batches) (ledger + 2) (keepAt i) (nextZ ledger x z i) (nextX ledger x z i)
      ((addBatch bl (ledger + 1) b.liveEntries b.deadEntries).mLevels i).mSnap.lookup := by
  rw [mSnap_addBatch _ _ hi, nextX, nextZ]
  split
  · exact (h.curr i hi).mono (by omega)
  · exact (h.snap i hi).mono (by omega)

/-- The `mCurr` of level 0: the new batch over what has not spilled. -/
theorem Layered.curr_zero_step (h : Layered batches ledger bl x z) {b : Batch} (hb : b.Distinct)
    (hlog : batches[ledger]? = some b) :
    Summarizes (batchLog batches) (ledger + 2) (keepAt 0) (nextX ledger x z 0) (ledger + 2)
      ((addBatch bl (ledger + 1) b.liveEntries b.deadEntries).mLevels 0).mCurr.lookup := by
  have hkeep : keepAt 0 = keepAll := keepAt_of_lt (by decide)
  have hcurr : ((addBatch bl (ledger + 1) b.liveEntries b.deadEntries).mLevels 0).mCurr
      = (spilled (ledger + 1) bl 0).mCurr.merge (.fresh b.liveEntries b.deadEntries) [] true := by
    rw [addBatch_zero]
    simp [BucketLevel.prepare, BucketLevel.commit, h.level 0 (by decide), keepDeadEntries, kNumLevels]
  -- What level 0 keeps in front of the new batch.
  have hold : Summarizes (batchLog batches) (ledger + 2) keepAll (nextX ledger x z 0) (ledger + 1)
      (spilled (ledger + 1) bl 0).mCurr.lookup := by
    rw [nextX, spilled]
    split
    · exact summarizes_empty _
    · have := (h.curr 0 (by decide)).mono (show ledger + 1 ≤ ledger + 2 by omega)
      rwa [hkeep] at this
  have hnew : Summarizes (batchLog batches) (ledger + 2) keepAll (ledger + 1) (ledger + 2)
      (Bucket.fresh b.liveEntries b.deadEntries).lookup := by
    intro k _
    rw [lookup_fresh hb, filter_keepAll, latest_succ _ le_rfl, latest_empty, Option.or_none]
    simp [batchLog, hlog]
  have hle : nextX ledger x z 0 ≤ ledger + 1 := by
    rw [nextX]
    split
    · exact le_rfl
    · exact h.x_le 0 (by decide)
  rw [hcurr, hkeep]
  refine hold.merge (fun _ => False) hle (by omega) hnew (fun _ _ hf => hf) fun k _ => ?_
  rw [lookup_merge, if_neg (by simp), filter_keepAll]
  cases (Bucket.lookup _ k).or _ <;> rfl

/-- The `mCurr` of a deeper level: unchanged, or the resolved merge. -/
theorem Layered.curr_succ_step (h : Layered batches ledger bl x z) (b : Batch) {i : ℕ}
    (hi : i + 1 < kNumLevels) :
    Summarizes (batchLog batches) (ledger + 2) (keepAt (i + 1)) (nextX ledger x z (i + 1))
      (nextZ ledger x z i)
      ((addBatch bl (ledger + 1) b.liveEntries b.deadEntries).mLevels (i + 1)).mCurr.lookup := by
  rw [addBatch_succ _ _ _ _ _ hi]
  by_cases hsp : levelShouldSpill (ledger + 1) i = true
  · have hdvd := ((levelShouldSpill_iff _ _).mp hsp).2
    have hnext := (h.next i hi).mono (show ledger + 1 ≤ ledger + 2 by omega)
    rw [nextSpill_of_spill hdvd] at hnext
    have hcurr : (stepped (ledger + 1) bl i).mCurr
        = (bl.mLevels (i + 1)).resolved (levelShouldSpill (ledger + 1) (i + 1)) := by
      rw [stepped, if_pos hsp, ← mCurr_commit_spilled]
      rfl
    rw [hcurr, nextX, nextZ, if_pos hsp]
    exact hnext
  · have hsp' : ¬ levelShouldSpill (ledger + 1) (i + 1) = true :=
      fun hs => hsp (levelShouldSpill_pred hi hs)
    rw [stepped_of_not hi hsp, nextX, if_neg hsp', nextZ, if_neg hsp]
    exact (h.curr (i + 1) hi).mono (by omega)

/-- The merge that a deeper level has pending: unchanged, or the one started by this spill. -/
theorem Layered.next_step (h : Layered batches ledger bl x z) (b : Batch) {i : ℕ}
    (hi : i + 1 < kNumLevels) :
    let spills := levelShouldSpill (nextSpill (ledger + 1) i) (i + 1)
    Summarizes (batchLog batches) (ledger + 2) (keepAt (i + 1))
      (if spills then nextZ ledger x z i else nextX ledger x z (i + 1)) (nextX ledger x z i)
      (((addBatch bl (ledger + 1) b.liveEntries b.deadEntries).mLevels (i + 1)).resolved
        spills).lookup := by
  intro spills
  have hcurr := h.curr_succ_step b hi
  rw [addBatch_succ _ _ _ _ _ hi] at hcurr ⊢
  by_cases hsp : levelShouldSpill (ledger + 1) i = true
  · have hdvd := ((levelShouldSpill_iff _ _).mp hsp).2
    have hnext : nextSpill (ledger + 1) i = ledger + 1 + levelHalf i := nextSpill_succ_of_spill hdvd
    have hz : nextZ ledger x z i = x i := by rw [nextZ, if_pos hsp]
    have hx : nextX ledger x z i = top ledger z i := by rw [nextX, if_pos hsp]
    have hlevel : (spilled (ledger + 1) bl (i + 1)).commit.mLevel = i + 1 := by
      rw [mLevel_commit, mLevel_spilled, h.level _ hi]
    have hkeep : keepAt i = keepAll := keepAt_of_lt (by omega)
    -- The older input: an empty bucket if this level is snapshotted next, else its `mCurr`.
    have hold : Summarizes (batchLog batches) (ledger + 2) (keepAt (i + 1))
        (if spills then nextZ ledger x z i else nextX ledger x z (i + 1)) (x i)
        (if spills then Bucket.empty else (stepped (ledger + 1) bl i).mCurr).lookup := by
      cases spills
      · rw [hz] at hcurr
        exact hcurr
      · rw [hz]
        exact summarizes_empty _
    have hnew : Summarizes (batchLog batches) (ledger + 2) keepAll (x i) (top ledger z i)
        (bl.mLevels i).mCurr.lookup := by
      rw [← hkeep]
      exact (h.curr i (by omega)).mono (by omega)
    have hresolved : (stepped (ledger + 1) bl i).resolved spills
        = (if spills then Bucket.empty else (stepped (ledger + 1) bl i).mCurr).merge
            (bl.mLevels i).mCurr (bl.buckets i) (keepDeadEntries (i + 1)) := by
      simp only [stepped, if_pos hsp, BucketLevel.prepare, BucketLevel.resolved, hlevel, spills, hnext]
      simp
    rw [hx, hresolved]
    refine hold.merge (fun k => ∃ b ∈ bl.buckets i, (b.lookup k).isSome) ?_ (h.x_le i (by omega)) hnew
      ?_ ?_
    · have h1 := h.x_le (i + 1) hi
      have h2 := h.z_le i (by omega)
      rw [top] at h1
      simp only [hz, nextX, top]
      split_ifs <;> omega
    · intro k hu
      exact h.shadows_none (by omega) fun m hm hlt => hu m hm (by omega)
    · intro k hk
      rw [lookup_merge, if_neg hk]
  · have hdvd : ¬ levelHalf i ∣ ledger + 1 := by
      rw [levelShouldSpill_iff] at hsp
      exact fun hd => hsp ⟨by omega, hd⟩
    have hsp' : ¬ levelShouldSpill (ledger + 1) (i + 1) = true :=
      fun hs => hsp (levelShouldSpill_pred hi hs)
    have hspills : spills = levelShouldSpill (nextSpill ledger i) (i + 1) := by
      simp only [spills, nextSpill_succ_of_not hdvd]
    rw [stepped_of_not hi hsp, hspills, nextZ, nextX, nextX, if_neg hsp, if_neg hsp, if_neg hsp']
    exact (h.next i hi).mono (by omega)

/-- **The bucket list invariant.** A batch at the next ledger keeps every bucket and every pending
merge tied to its ledgers. -/
theorem layered_addBatch (h : Layered batches ledger bl x z) {b : Batch} (hb : b.Distinct)
    (hlog : batches[ledger]? = some b) :
    Layered batches (ledger + 1) (addBatch bl (ledger + 1) b.liveEntries b.deadEntries)
      (nextX ledger x z) (nextZ ledger x z) := by
  have hlast : ¬ levelShouldSpill (ledger + 1) (kNumLevels - 1) = true := by simp [levelShouldSpill]
  have hlt : kNumLevels - 1 < kNumLevels := by decide
  constructor
  case z_le =>
    intro i hi
    have h1 := h.x_le i hi
    have h2 := h.z_le i hi
    simp only [nextX, nextZ]
    split_ifs <;> omega
  case x_le =>
    intro i hi
    have h1 := h.x_le i hi
    cases i with
    | zero =>
      simp only [nextX, top] at h1 ⊢
      split_ifs <;> omega
    | succ i =>
      have h2 := h.z_le i (by omega)
      have hpred : levelShouldSpill (ledger + 1) (i + 1) = true → levelShouldSpill (ledger + 1) i = true :=
        levelShouldSpill_pred hi
      simp only [nextX, nextZ, top] at h1 ⊢
      split_ifs with hs hs' hs'
      · exact h2
      · exact absurd (hpred hs) hs'
      · exact h1.trans h2
      · exact h1
  case bottom => rw [nextX, nextZ, if_neg hlast, if_neg hlast]; exact h.bottom
  case lastSnap => rw [mSnap_addBatch _ _ hlt, if_neg hlast]; exact h.lastSnap
  case level => intro i hi; rw [mLevel_addBatch _ _ hi]; exact h.level i hi
  case clear => rw [addBatch_zero]; rfl
  case curr =>
    intro i hi
    cases i with
    | zero => exact h.curr_zero_step hb hlog
    | succ i => exact h.curr_succ_step b hi
  case snap => exact fun i hi => h.snap_step b hi
  case next => exact fun i hi => h.next_step b hi

/-- The invariant holds after every run of consecutive ledgers. -/
theorem layered_addBatches (h : Layered batches ledger bl x z) (rest : List Batch)
    (hrest : batches.drop ledger = rest) (hd : ∀ b ∈ rest, b.Distinct) :
    ∃ x' z', Layered batches (ledger + rest.length) (addBatches bl (ledger + 1) rest) x' z' := by
  induction rest generalizing ledger bl x z with
  | nil => exact ⟨x, z, h⟩
  | cons b rest ih =>
    have hlog : batches[ledger]? = some b := by
      rw [← List.head?_drop, hrest]
      rfl
    have hdrop : batches.drop (ledger + 1) = rest := by
      rw [← List.drop_drop, hrest]
      rfl
    have hstep := layered_addBatch h (hd b List.mem_cons_self) hlog
    have hlen : ledger + 1 + rest.length = ledger + (b :: rest).length := by
      rw [List.length_cons]
      omega
    rw [← hlen]
    exact ih hstep hdrop fun b' hb' => hd b' (List.mem_cons_of_mem _ hb')

/-- From level `i` down, the buckets tile the ledgers. -/
theorem Layered.tiled (h : Layered batches ledger bl x z) (n i : ℕ) (hi : i + n = kNumLevels) :
    Tiled (batchLog batches) (ledger + 1) (kept false) 1 (top ledger z i)
      ((List.range' i n).flatMap fun j =>
        [(bl.mLevels j).mCurr.lookup, (bl.mLevels j).mSnap.lookup]) := by
  induction n generalizing i with
  | zero =>
    obtain rfl : i = kNumLevels - 1 + 1 := hi
    exact h.bottom.2
  | succ n ih =>
    have hlt : i < kNumLevels := by omega
    have hz1 : 1 ≤ z i := by
      have := h.top_le_z (i := kNumLevels - 1) (j := i)
      rcases Nat.lt_or_ge i (kNumLevels - 1) with hi' | hi'
      · have h1 := h.top_le_z hi' (by decide)
        have h2 := h.x_le (kNumLevels - 1) (by decide)
        have h3 := h.bottom.1
        omega
      · obtain rfl : i = kNumLevels - 1 := by omega
        exact h.bottom.2.ge
    have hzx := h.z_le i hlt
    have hxt := h.x_le i hlt
    have hcurr := h.curr i hlt
    have hsnap := h.snap i hlt
    rw [List.range'_succ, List.flatMap_cons]
    rcases Nat.lt_or_ge i (kNumLevels - 1) with hi' | hi'
    · rw [keepAt_of_lt hi'] at hcurr hsnap
      exact ⟨x i, hxt, by omega, .inl ⟨hcurr, z i, hzx, hz1, .inl ⟨hsnap, ih (i + 1) (by omega)⟩⟩⟩
    · obtain rfl : i = kNumLevels - 1 := by omega
      obtain rfl : n = 0 := by omega
      refine ⟨x (kNumLevels - 1), hxt, by omega, .inr ⟨h.bottom.1, hcurr, ?_⟩⟩
      simp [h.lastSnap]

end Step

/-- The buckets as layers, newest first. -/
theorem layers_eq (bl : BucketList) (n : ℕ) : (bl.buckets n).map Bucket.lookup
    = (List.range' 0 n).flatMap fun j =>
        [(bl.mLevels j).mCurr.lookup, (bl.mLevels j).mSnap.lookup] := by
  simp [BucketList.buckets, List.range_eq_range', List.map_flatMap]

/-- The last batch entry of a key. -/
def lastChange (batches : List Batch) (k : LedgerKey) : Option BucketEntry :=
  batches.reverse.findSome? fun b => b.entry k

theorem lastChange_eq_latest (batches : List Batch) (k : LedgerKey) :
    lastChange batches k = latest (batchLog batches) 1 (batches.length + 1) k := by
  suffices hpre : ∀ n, n ≤ batches.length →
      lastChange (batches.take n) k = latest (batchLog batches) 1 (n + 1) k by
    simpa using hpre batches.length le_rfl
  intro n hn
  induction n with
  | zero => simp [lastChange]
  | succ n ih =>
    have hlt : n < batches.length := by omega
    have hlast : batches[n]? = some batches[n] := List.getElem?_eq_getElem hlt
    rw [latest_succ _ (by omega), ← ih (by omega), lastChange, List.take_add_one, hlast,
      Option.toList_some, List.reverse_append, List.reverse_singleton, List.singleton_append,
      List.findSome?_cons, batchLog, hlast, Option.bind_some, lastChange]
    cases batches[n].entry k <;> rfl

/-- A search finds the last batch entry of a key, or nothing in place of a tombstone. -/
theorem search_addBatches (batches : List Batch) (hd : ∀ b ∈ batches, b.Distinct) (k : LedgerKey) :
    (addBatches .new 1 batches).search k = lastChange batches k ∨
      (addBatches .new 1 batches).search k = none ∧
        (lastChange batches k).filter (kept false) = none := by
  obtain ⟨x, z, h⟩ := layered_addBatches (layered_new batches) batches (by simp) hd
  rw [Nat.zero_add] at h
  have hread := firstHit_of_tiled (h.tiled kNumLevels 0 (Nat.zero_add _)) (k := k)
    fun m hm hlt => absurd hm (by rw [top]; omega)
  rw [top, ← lastChange_eq_latest, ← layers_eq] at hread
  rw [BucketList.search, ← firstHit_map]
  exact hread

end ZaggCore.Buckets
