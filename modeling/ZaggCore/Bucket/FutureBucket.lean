import ZaggCore.Xdr.Types
import ZaggCore.Foundations.Checked

/-! # `FutureBucket`

The model of `bucket/FutureBucket.cpp` with its `load` and `save`. Buckets are of any type that has the
operations of `BucketOps`; a future is the bucket it will hold and whether the worker is done with it.
An empty hash string is `none`.

A future that is in use stands for no merge, a running one or a finished one: `Holds` says which, and
what it resolves to. -/

namespace ZaggCore.Buckets
open Foundations Foundations.Checked
set_option autoImplicit false
set_option maxHeartbeats 250000

/-- What the bucket list does with buckets of type `β` and batches of type `γ`. -/
structure BucketOps (β γ : Type) where
  empty : β
  fresh : γ → β
  merge (oldBucket newBucket : β) (shadows : List β) (keepDeadEntries : Bool) : β
  getHash : β → Hash

namespace Merging

structure SharedFuture (β : Type) where
  value : β
  ready : Bool

inductive FutureBucket.State where
  | FB_CLEAR
  | FB_HASH_OUTPUT
  | FB_HASH_INPUTS
  | FB_LIVE_OUTPUT
  | FB_LIVE_INPUTS
  deriving DecidableEq, Repr

structure FutureBucket (β : Type) where
  mState : FutureBucket.State
  mInputCurrBucket : Option β
  mInputSnapBucket : Option β
  mInputShadowBuckets : List β
  mOutputBucket : Option (SharedFuture β)
  mInputCurrBucketHash : Option Hash
  mInputSnapBucketHash : Option Hash
  mInputShadowBucketHashes : List Hash
  mOutputBucketHash : Option Hash

namespace FutureBucket

variable {β γ : Type}

def isLive (fb : FutureBucket β) : Bool := fb.mState = .FB_LIVE_INPUTS || fb.mState = .FB_LIVE_OUTPUT

def isMerging (fb : FutureBucket β) : Bool := fb.mState = .FB_LIVE_INPUTS

def hasHashes (fb : FutureBucket β) : Bool := fb.mState = .FB_HASH_INPUTS || fb.mState = .FB_HASH_OUTPUT

def mergeComplete (fb : FutureBucket β) : Checked Bool := do
  assert (fb.isLive = true) "isLive()"
  match fb.mOutputBucket with
  | none => raise "no state"
  | some future => return future.ready

def hasOutputHash (fb : FutureBucket β) : Checked Bool := do
  if fb.mState = .FB_LIVE_OUTPUT || fb.mState = .FB_HASH_OUTPUT then
    assert (fb.mOutputBucketHash ≠ none) "!mOutputBucketHash.empty()"
    return true
  return false

def clearInputs (fb : FutureBucket β) : FutureBucket β :=
  { fb with
    mInputShadowBuckets := []
    mInputSnapBucket := none
    mInputCurrBucket := none
    mInputShadowBucketHashes := []
    mInputSnapBucketHash := none
    mInputCurrBucketHash := none }

def clear : FutureBucket β := ⟨.FB_CLEAR, none, none, [], none, none, none, [], none⟩

section Checks

variable (ops : BucketOps β γ)

def checkHashEq (b : β) (h : Option Hash) : Checked Unit :=
  assert (some (ops.getHash b) = h) "b->getHash() == hexToBin256(h)"

/-- The loop over the shadows; the sizes agree. -/
def checkShadows : List β → List Hash → Checked Unit
  | b :: bs, h :: hs => do
    checkHashEq ops b (some h)
    checkShadows bs hs
  | _, _ => return ()

def checkHashesMatch (fb : FutureBucket β) : Checked Unit := do
  if !fb.mInputShadowBuckets.isEmpty then
    assert (fb.mInputShadowBuckets.length = fb.mInputShadowBucketHashes.length)
      "mInputShadowBuckets.size() == mInputShadowBucketHashes.size()"
    checkShadows ops fb.mInputShadowBuckets fb.mInputShadowBucketHashes
  if let some b := fb.mInputSnapBucket then
    checkHashEq ops b fb.mInputSnapBucketHash
  if let some b := fb.mInputCurrBucket then
    checkHashEq ops b fb.mInputCurrBucketHash
  if let some future := fb.mOutputBucket then
    if (← fb.mergeComplete) && fb.mOutputBucketHash.isSome then
      checkHashEq ops future.value fb.mOutputBucketHash

def checkState (fb : FutureBucket β) : Checked Unit :=
  match fb.mState with
  | .FB_CLEAR => do
    assert (fb.mInputShadowBuckets.isEmpty) "mInputShadowBuckets.empty()"
    assert (fb.mInputSnapBucket.isNone) "!mInputSnapBucket"
    assert (fb.mInputCurrBucket.isNone) "!mInputCurrBucket"
    assert (fb.mOutputBucket.isNone) "!mOutputBucket.valid()"
    assert (fb.mInputShadowBucketHashes.isEmpty) "mInputShadowBucketHashes.empty()"
    assert (fb.mInputSnapBucketHash.isNone) "mInputSnapBucketHash.empty()"
    assert (fb.mInputCurrBucketHash.isNone) "mInputCurrBucketHash.empty()"
    assert (fb.mOutputBucketHash.isNone) "mOutputBucketHash.empty()"
  | .FB_LIVE_INPUTS => do
    assert (fb.mInputSnapBucket.isSome) "mInputSnapBucket"
    assert (fb.mInputCurrBucket.isSome) "mInputCurrBucket"
    assert (fb.mOutputBucket.isSome) "mOutputBucket.valid()"
    assert (fb.mOutputBucketHash.isNone) "mOutputBucketHash.empty()"
    checkHashesMatch ops fb
  | .FB_LIVE_OUTPUT => do
    assert ((← fb.mergeComplete) = true) "mergeComplete()"
    assert (fb.mOutputBucket.isSome) "mOutputBucket.valid()"
    assert (fb.mOutputBucketHash.isSome) "!mOutputBucketHash.empty()"
    checkHashesMatch ops fb
  | .FB_HASH_INPUTS => do
    assert (fb.mInputSnapBucket.isNone) "!mInputSnapBucket"
    assert (fb.mInputCurrBucket.isNone) "!mInputCurrBucket"
    assert (fb.mOutputBucket.isNone) "!mOutputBucket.valid()"
    assert (fb.mInputSnapBucketHash.isSome) "!mInputSnapBucketHash.empty()"
    assert (fb.mInputCurrBucketHash.isSome) "!mInputCurrBucketHash.empty()"
    assert (fb.mOutputBucketHash.isNone) "mOutputBucketHash.empty()"
  | .FB_HASH_OUTPUT => do
    assert (fb.mInputSnapBucket.isNone) "!mInputSnapBucket"
    assert (fb.mInputCurrBucket.isNone) "!mInputCurrBucket"
    assert (fb.mOutputBucket.isNone) "!mOutputBucket.valid()"
    assert (fb.mInputSnapBucketHash.isNone) "mInputSnapBucketHash.empty()"
    assert (fb.mInputCurrBucketHash.isNone) "mInputCurrBucketHash.empty()"
    assert (fb.mOutputBucketHash.isSome) "!mOutputBucketHash.empty()"

/-! ## Merges -/

/-- The task is posted to a background thread, which is not done with it yet. -/
def startMerge (fb : FutureBucket β) (keepDeadEntries : Bool) : Checked (FutureBucket β) := do
  assert (fb.mState = .FB_LIVE_INPUTS) "mState == FB_LIVE_INPUTS"
  match fb.mInputCurrBucket, fb.mInputSnapBucket with
  | some curr, some snap =>
    assert (fb.mOutputBucket.isNone) "!mOutputBucket.valid()"
    let res := ops.merge curr snap fb.mInputShadowBuckets keepDeadEntries
    let fb := { fb with mOutputBucket := some ⟨res, false⟩ }
    checkState ops fb
    return fb
  | none, _ => throw (.assertion "curr")
  | _, none => throw (.assertion "snap")

/-- The constructor. -/
def new (curr snap : β) (shadows : List β) (keepDeadEntries : Bool) : Checked (FutureBucket β) :=
  startMerge ops
    { mState := .FB_LIVE_INPUTS
      mInputCurrBucket := some curr
      mInputSnapBucket := some snap
      mInputShadowBuckets := shadows
      mOutputBucket := none
      mInputCurrBucketHash := some (ops.getHash curr)
      mInputSnapBucketHash := some (ops.getHash snap)
      mInputShadowBucketHashes := shadows.map ops.getHash
      mOutputBucketHash := none } keepDeadEntries

def setLiveOutput (fb : FutureBucket β) (output : β) : Checked (FutureBucket β) := do
  let fb := { fb with
    mState := .FB_LIVE_OUTPUT
    mOutputBucketHash := some (ops.getHash output)
    mOutputBucket := some ⟨output, true⟩ }
  checkState ops fb
  return fb

/-- `get` waits for the worker. -/
def resolve (fb : FutureBucket β) : Checked (FutureBucket β × β) := do
  checkState ops fb
  assert (fb.isLive = true) "isLive()"
  let fb := fb.clearInputs
  match fb.mOutputBucket with
  | none => raise "no state"
  | some future =>
    let bucket := future.value
    let fb := { fb with mOutputBucket := some ⟨bucket, true⟩ }
    let fb ← (do
      if fb.mOutputBucketHash.isNone then
        return { fb with mOutputBucketHash := some (ops.getHash bucket) }
      checkHashEq ops bucket fb.mOutputBucketHash
      return fb)
    let fb := { fb with mState := .FB_LIVE_OUTPUT }
    checkState ops fb
    return (fb, bucket)

/-- The buckets of the shadow hashes. -/
def getShadows (getBucketByHash : Hash → Option β) : List Hash → Checked (List β)
  | [] => return []
  | h :: hs =>
    match getBucketByHash h with
    | none => throw (.assertion "b")
    | some b => return b :: (← getShadows getBucketByHash hs)

def makeLive (getBucketByHash : Hash → Option β) (fb : FutureBucket β) (keepDeadEntries : Bool) :
    Checked (FutureBucket β) := do
  checkState ops fb
  assert (fb.isLive = false) "!isLive()"
  assert (fb.hasHashes = true) "hasHashes()"
  if ← fb.hasOutputHash then
    match fb.mOutputBucketHash.bind getBucketByHash with
    | none => throw (.assertion "output")
    | some output => setLiveOutput ops fb output
  else
    assert (fb.mState = .FB_HASH_INPUTS) "mState == FB_HASH_INPUTS"
    assert (fb.mInputShadowBuckets.isEmpty) "mInputShadowBuckets.empty()"
    let shadows ← getShadows getBucketByHash fb.mInputShadowBucketHashes
    let fb ← startMerge ops { fb with
      mInputCurrBucket := fb.mInputCurrBucketHash.bind getBucketByHash
      mInputSnapBucket := fb.mInputSnapBucketHash.bind getBucketByHash
      mInputShadowBuckets := shadows
      mState := .FB_LIVE_INPUTS } keepDeadEntries
    assert (fb.isLive = true) "isLive()"
    return fb

/-- The worker gets done with a merge that is running. -/
def finish (done : Bool) (fb : FutureBucket β) : FutureBucket β :=
  { fb with mOutputBucket := fb.mOutputBucket.map fun future => { future with ready := future.ready || done } }

end Checks

/-! ## Serialization -/

/-- What `save` writes: the state, and the hashes that belong to it. -/
inductive Saved where
  | FB_CLEAR
  | FB_HASH_OUTPUT (output : Option Hash)
  | FB_HASH_INPUTS (curr snap : Option Hash) (shadow : List Hash)
  deriving DecidableEq, Repr

def save (ops : BucketOps β γ) (fb : FutureBucket β) : Checked Saved := do
  checkState ops fb
  match fb.mState with
  | .FB_LIVE_INPUTS | .FB_HASH_INPUTS =>
    return .FB_HASH_INPUTS fb.mInputCurrBucketHash fb.mInputSnapBucketHash fb.mInputShadowBucketHashes
  | .FB_LIVE_OUTPUT | .FB_HASH_OUTPUT => return .FB_HASH_OUTPUT fb.mOutputBucketHash
  | .FB_CLEAR => return .FB_CLEAR

def load (ops : BucketOps β γ) (saved : Saved) : Checked (FutureBucket β) := do
  let fb : FutureBucket β := match saved with
    | .FB_HASH_INPUTS curr snap shadow =>
      { clear with
        mState := .FB_HASH_INPUTS
        mInputCurrBucketHash := curr
        mInputSnapBucketHash := snap
        mInputShadowBucketHashes := shadow }
    | .FB_HASH_OUTPUT output => { clear with mState := .FB_HASH_OUTPUT, mOutputBucketHash := output }
    | .FB_CLEAR => clear
  checkState ops fb
  return fb

/-! ## What a future holds -/

section Holds

variable (ops : BucketOps β γ)

/-- A merge that was started with these inputs. -/
def merging (curr snap : β) (shadows : List β) (keepDeadEntries ready : Bool) : FutureBucket β where
  mState := .FB_LIVE_INPUTS
  mInputCurrBucket := some curr
  mInputSnapBucket := some snap
  mInputShadowBuckets := shadows
  mOutputBucket := some ⟨ops.merge curr snap shadows keepDeadEntries, ready⟩
  mInputCurrBucketHash := some (ops.getHash curr)
  mInputSnapBucketHash := some (ops.getHash snap)
  mInputShadowBucketHashes := shadows.map ops.getHash
  mOutputBucketHash := none

def merged (output : β) : FutureBucket β where
  mState := .FB_LIVE_OUTPUT
  mInputCurrBucket := none
  mInputSnapBucket := none
  mInputShadowBuckets := []
  mOutputBucket := some ⟨output, true⟩
  mInputCurrBucketHash := none
  mInputSnapBucketHash := none
  mInputShadowBucketHashes := []
  mOutputBucketHash := some (ops.getHash output)

/-- The future of a level that keeps dead entries or not, and the bucket it resolves to. -/
inductive Holds (keepDeadEntries : Bool) : FutureBucket β → Option β → Prop where
  | clear : Holds keepDeadEntries clear none
  | merging (curr snap : β) (shadows : List β) (ready : Bool) :
      Holds keepDeadEntries (merging ops curr snap shadows keepDeadEntries ready)
        (some (ops.merge curr snap shadows keepDeadEntries))
  | merged (output : β) : Holds keepDeadEntries (merged ops output) (some output)

variable {ops}

theorem checkShadows_map (shadows : List β) : checkShadows ops shadows (shadows.map ops.getHash) = .ok () := by
  induction shadows with
  | nil => rfl
  | cons b shadows ih =>
    rw [List.map_cons, checkShadows, checkHashEq, assert_bind rfl, ih]

@[simp] theorem checkState_merging (curr snap : β) (shadows : List β) (keepDeadEntries ready : Bool) :
    checkState ops (merging ops curr snap shadows keepDeadEntries ready) = .ok () := by
  have hmatch : checkHashesMatch ops (merging ops curr snap shadows keepDeadEntries ready) = .ok () := by
    cases shadows <;>
      simp [checkHashesMatch, merging, checkShadows_map, checkHashEq, mergeComplete, isLive,
        Checked.assert, bind, Except.bind, pure, Except.pure, -List.map_cons]
  rw [checkState]
  simp only [merging] at hmatch ⊢
  rw [hmatch]
  rfl

@[simp] theorem checkState_merged (output : β) : checkState ops (merged ops output) = .ok () := by
  simp [checkState, checkHashesMatch, merged, checkHashEq, mergeComplete, isLive, Checked.assert, bind,
    Except.bind, pure, Except.pure]

theorem new_eq (curr snap : β) (shadows : List β) (keepDeadEntries : Bool) :
    new ops curr snap shadows keepDeadEntries
      = .ok (merging ops curr snap shadows keepDeadEntries false) := by
  have hstate : checkState ops (merging ops curr snap shadows keepDeadEntries false) = .ok () :=
    checkState_merging curr snap shadows keepDeadEntries false
  simp only [merging] at hstate
  simp only [new, startMerge, Checked.assert, Option.isNone_none, if_true, bind, Except.bind]
  rw [hstate]
  rfl

/-- A future of either live kind resolves to what it holds. -/
theorem resolve_eq {keepDeadEntries : Bool} {fb : FutureBucket β} {output : β}
    (h : Holds ops keepDeadEntries fb (some output)) : resolve ops fb = .ok (merged ops output, output) := by
  have hmerged : checkState ops (merged ops output) = .ok () := checkState_merged output
  cases h with
  | merging curr snap shadows ready =>
    rw [resolve, checkState_merging]
    simp only [merging, merged, clearInputs, isLive, Checked.assert, bind, Except.bind] at hmerged ⊢
    simp only [decide_true, Bool.true_or, if_true, Option.isNone_none, pure, Except.pure]
    rw [hmerged]
  | merged =>
    rw [resolve, hmerged]
    simp only [merged, clearInputs, isLive, checkHashEq, Checked.assert, bind, Except.bind] at hmerged ⊢
    simp only [decide_true, Bool.or_true, if_true, Option.isNone_some, pure, Except.pure]
    simp only [Bool.false_eq_true, if_false]
    rw [hmerged]

theorem Holds.isLive_eq {keepDeadEntries : Bool} {fb : FutureBucket β} {output : Option β}
    (h : Holds ops keepDeadEntries fb output) : fb.isLive = output.isSome := by
  cases h <;> rfl

theorem Holds.finish {keepDeadEntries : Bool} {fb : FutureBucket β} {output : Option β}
    (h : Holds ops keepDeadEntries fb output) (done : Bool) :
    Holds ops keepDeadEntries (fb.finish done) output := by
  cases h with
  | clear => exact .clear
  | merging curr snap shadows ready => exact .merging curr snap shadows (ready || done)
  | merged output => exact .merged output

/-! ### From a live future to a saved one and back -/

/-- The buckets that a live future names by their hashes. -/
def liveBuckets (fb : FutureBucket β) : List β :=
  fb.mInputCurrBucket.toList ++ fb.mInputSnapBucket.toList ++ fb.mInputShadowBuckets ++
    if fb.mOutputBucketHash.isSome then fb.mOutputBucket.toList.map (·.value) else []

variable {getBucketByHash : Hash → Option β}

theorem getShadows_map {shadows : List β}
    (h : ∀ b ∈ shadows, getBucketByHash (ops.getHash b) = some b) :
    getShadows getBucketByHash (shadows.map ops.getHash) = .ok shadows := by
  induction shadows with
  | nil => rfl
  | cons b shadows ih =>
    have hrest := ih fun b' hb' => h b' (List.mem_cons_of_mem _ hb')
    rw [List.map_cons, getShadows, h b List.mem_cons_self]
    simp only [bind, Except.bind]
    rw [hrest]
    rfl

theorem setLiveOutput_eq (h : Option Hash) (output : β) :
    setLiveOutput ops { clear with mState := .FB_HASH_OUTPUT, mOutputBucketHash := h } output
      = .ok (merged ops output) := by
  have hmerged : checkState ops (merged ops output) = .ok () := checkState_merged output
  simp only [setLiveOutput, FutureBucket.clear, merged] at hmerged ⊢
  rw [hmerged]
  rfl

/-- With its buckets present, a future that is saved, read back and made live again holds what it held
before. -/
theorem reload_holds {keepDeadEntries : Bool} {fb : FutureBucket β} {output : Option β}
    (h : Holds ops keepDeadEntries fb output)
    (hfiles : ∀ b ∈ fb.liveBuckets, getBucketByHash (ops.getHash b) = some b) :
    ∃ saved loaded fb', save ops fb = .ok saved ∧ load ops saved = .ok loaded ∧
      loaded.isMerging = false ∧
      (if loaded.hasHashes && !loaded.isLive then makeLive ops getBucketByHash loaded keepDeadEntries
        else .ok loaded) = .ok fb' ∧
      Holds ops keepDeadEntries fb' output := by
  cases h with
  | clear => exact ⟨.FB_CLEAR, clear, clear, rfl, rfl, rfl, rfl, .clear⟩
  | merging curr snap shadows ready =>
    refine ⟨.FB_HASH_INPUTS (ops.getHash curr) (ops.getHash snap) (shadows.map ops.getHash), _, _,
      ?_, rfl, rfl, ?_, .merging curr snap shadows false⟩
    · rw [save, checkState_merging]
      rfl
    have hcurr := hfiles curr (by simp [liveBuckets, FutureBucket.merging])
    have hsnap := hfiles snap (by simp [liveBuckets, FutureBucket.merging])
    have hshadows : getShadows getBucketByHash (shadows.map ops.getHash) = .ok shadows :=
      getShadows_map fun b hb => hfiles b (by simp [liveBuckets, FutureBucket.merging, hb])
    have hnew : FutureBucket.new ops curr snap shadows keepDeadEntries
        = .ok (FutureBucket.merging ops curr snap shadows keepDeadEntries false) :=
      new_eq curr snap shadows keepDeadEntries
    simp only [FutureBucket.merging, FutureBucket.new, FutureBucket.clear, checkState, makeLive,
      hasOutputHash, hasHashes, isLive, Checked.assert, bind, Except.bind, pure, Except.pure] at hnew ⊢
    simp [hshadows, hcurr, hsnap, hnew]
  | merged output =>
    refine ⟨.FB_HASH_OUTPUT (ops.getHash output), _, _, ?_, rfl, rfl, ?_, .merged output⟩
    · rw [save, checkState_merged]
      rfl
    have houtput := hfiles output (by simp [liveBuckets, FutureBucket.merged])
    have hlive : setLiveOutput ops
          { clear with mState := .FB_HASH_OUTPUT, mOutputBucketHash := some (ops.getHash output) } output
        = .ok (merged ops output) :=
      setLiveOutput_eq (some (ops.getHash output)) output
    simp only [FutureBucket.merged, FutureBucket.clear, checkState, makeLive, hasOutputHash,
      hasHashes, isLive, Checked.assert, bind, Except.bind, pure, Except.pure] at hlive ⊢
    simp [houtput, hlive]

end Holds

end FutureBucket

end Merging

end ZaggCore.Buckets
