import ZaggCore.Foundations.Checked
import ZaggCore.History.Checkpoints
import ZaggCore.Xdr.Types

/-! # `makeCatchupRange`

Which ledgers a catchup replays, and whether it applies buckets first (`catchup/CatchupWork.cpp`). -/

namespace ZaggCore.Catchup
open Foundations Foundations.Checked History
set_option autoImplicit false
set_option maxHeartbeats 250000

def GENESIS_LEDGER_SEQ : ℕ := 1

/-- `CatchupConfiguration`, on `uint32_t` numbers. -/
structure CatchupConfiguration where
  count : ℕ
  toLedger : ℕ
  hash : Option Hash
  toLedger_lt : toLedger < 2 ^ 32

namespace CatchupConfiguration

def CURRENT : ℕ := 0

end CatchupConfiguration

/-- The constructor of `LedgerRange`. -/
def ledgerRange (first last : ℕ) (hlast : last < 2 ^ 32) : Checked LedgerRange :=
  if hfirst : 0 < first then
    if hle : first ≤ last then .ok ⟨first, last, hfirst, hle, hlast⟩
    else .error (.assertion "mLast >= mFirst")
  else .error (.assertion "mFirst > 0")

def firstNotFinishedCheckpoint (freq lastClosedLedger : ℕ) : ℕ :=
  let result := checkpointContainingLedger freq lastClosedLedger
  if lastClosedLedger < result then result else (result + freq) % 2 ^ 32

def firstNeededLedger (configuration : CatchupConfiguration) : ℕ :=
  let neededCount := max configuration.count 1
  if configuration.toLedger > neededCount then configuration.toLedger - neededCount + 1
  else GENESIS_LEDGER_SEQ

def computeCatchupStart (freq smallestLedgerToApply smallestBucketApplyCheckpoint : ℕ) : Bool × ℕ :=
  let smallestCheckpointToApply := checkpointContainingLedger freq smallestLedgerToApply
  if smallestLedgerToApply = smallestCheckpointToApply then (true, smallestCheckpointToApply)
  else if smallestLedgerToApply < freq - 1 then (false, smallestLedgerToApply)
  else
    let smallestCheckpointToApply := (smallestCheckpointToApply + 2 ^ 32 - freq) % 2 ^ 32
    if smallestCheckpointToApply ≥ smallestBucketApplyCheckpoint then (true, smallestCheckpointToApply)
    else (false, smallestLedgerToApply)

/-- The range, and whether buckets are applied. -/
def makeCatchupRange (freq lastClosedLedger : ℕ) (configuration : CatchupConfiguration) :
    Checked (LedgerRange × Bool) := do
  assert (lastClosedLedger > 0) "lastClosedLedger > 0"
  assert (configuration.toLedger ≥ lastClosedLedger) "configuration.toLedger() >= lastClosedLedger"
  assert (configuration.toLedger ≠ CatchupConfiguration.CURRENT)
    "configuration.toLedger() != CatchupConfiguration::CURRENT"
  let smallestLedgerToApply := max (firstNeededLedger configuration) lastClosedLedger
  let smallestBucketApplyCheckpoint := firstNotFinishedCheckpoint freq lastClosedLedger
  let catchupStart := computeCatchupStart freq smallestLedgerToApply smallestBucketApplyCheckpoint
  let range ← ledgerRange catchupStart.2 configuration.toLedger configuration.toLedger_lt
  -- buckets just after the last closed ledger are no better than transactions
  if catchupStart.1 ∧ catchupStart.2 ≤ (lastClosedLedger + 1) % 2 ^ 32 then return (range, false)
  return (range, catchupStart.1)

/-! ## Where the replay starts -/

/-- The first ledger in the file of the checkpoint with `ledger`; the first file starts at genesis. -/
def checkpointFileStart (freq ledger : ℕ) : ℕ :=
  max GENESIS_LEDGER_SEQ (checkpointContainingLedger freq ledger + 1 - freq)

theorem firstNeededLedger_bounds (configuration : CatchupConfiguration)
    (h : 1 ≤ configuration.toLedger) :
    1 ≤ firstNeededLedger configuration ∧ firstNeededLedger configuration ≤ configuration.toLedger ∧
      min configuration.count configuration.toLedger ≤
        configuration.toLedger - firstNeededLedger configuration + 1 := by
  unfold firstNeededLedger GENESIS_LEDGER_SEQ
  dsimp only
  split
  · omega
  · omega

section Start

variable {freq lastClosedLedger : ℕ} (hf : Frequency freq)
include hf

theorem eight_le_frequency : 8 ≤ freq := by
  rcases hf with rfl | rfl
  · decide
  · decide

/-- The checkpoint after the last closed ledger, and none before it. -/
theorem firstNotFinishedCheckpoint_bounds (h : lastClosedLedger + freq < 2 ^ 32) :
    lastClosedLedger < firstNotFinishedCheckpoint freq lastClosedLedger ∧
      firstNotFinishedCheckpoint freq lastClosedLedger ≤ lastClosedLedger + freq ∧
      firstNotFinishedCheckpoint freq lastClosedLedger % freq = freq - 1 := by
  have hmod := (checkpoint_mod hf lastClosedLedger).1
  have hfreq := eight_le_frequency hf
  have hbounds : lastClosedLedger ≤ checkpointContainingLedger freq lastClosedLedger ∧
      checkpointContainingLedger freq lastClosedLedger < lastClosedLedger + freq :=
    checkpoint_bounds hf (by omega)
  unfold firstNotFinishedCheckpoint
  dsimp only
  rcases hf with rfl | rfl
  · split <;> omega
  · split <;> omega

/-- Buckets are applied at a checkpoint up to the ledger asked for; otherwise the
file of the ledger asked for starts no later than after the last closed ledger. -/
theorem computeCatchupStart_spec {ledger : ℕ} (hle : lastClosedLedger ≤ ledger) (hpos : 1 ≤ lastClosedLedger)
    (hlt : ledger + freq < 2 ^ 32) {start : Bool × ℕ}
    (hstart : computeCatchupStart freq ledger (firstNotFinishedCheckpoint freq lastClosedLedger) = start) :
    1 ≤ start.2 ∧ start.2 ≤ ledger ∧
      (start.1 = true → start.2 % freq = freq - 1) ∧
      (start.1 = false → checkpointFileStart freq start.2 ≤ lastClosedLedger + 1) := by
  have hmod := (checkpoint_mod hf ledger).1
  have hfreq := eight_le_frequency hf
  have hbounds : ledger ≤ checkpointContainingLedger freq ledger ∧
      checkpointContainingLedger freq ledger < ledger + freq := checkpoint_bounds hf (by omega)
  have hlcl : lastClosedLedger + freq < 2 ^ 32 := by omega
  obtain ⟨hnext, hnextle, hnextmod⟩ := firstNotFinishedCheckpoint_bounds hf hlcl
  subst hstart
  unfold computeCatchupStart
  dsimp only
  split
  · next hboundary =>
    refine ⟨by omega, by omega, fun _ => hmod, fun h => absurd h.symm Bool.false_ne_true⟩
  · next hboundary =>
    split
    · next hfirst =>
      refine ⟨by omega, le_rfl, fun h => absurd h Bool.false_ne_true, fun _ => ?_⟩
      unfold checkpointFileStart GENESIS_LEDGER_SEQ
      dsimp only
      rcases hf with rfl | rfl
      · omega
      · omega
    · next hfirst =>
      have hprev : (checkpointContainingLedger freq ledger + 2 ^ 32 - freq) % 2 ^ 32 =
          checkpointContainingLedger freq ledger - freq := by
        rcases hf with rfl | rfl
        · omega
        · omega
      rw [hprev]
      split
      · next hbuckets =>
        refine ⟨by omega, by omega, fun _ => ?_, fun h => absurd h.symm Bool.false_ne_true⟩
        rcases hf with rfl | rfl
        · omega
        · omega
      · next hbuckets =>
        refine ⟨by omega, le_rfl, fun h => absurd h Bool.false_ne_true, fun _ => ?_⟩
        unfold checkpointFileStart GENESIS_LEDGER_SEQ
        dsimp only
        rcases hf with rfl | rfl
        · omega
        · omega

theorem checkpointContainingLedger_of_mod {ledger : ℕ} (hmod : ledger % freq = freq - 1)
    (hlt : ledger + 1 < 2 ^ 32) : checkpointContainingLedger freq ledger = ledger := by
  have hcp := (checkpoint_mod hf ledger).1
  have hbounds := checkpoint_bounds hf hlt
  rcases hf with rfl | rfl
  · omega
  · omega

/-- **The catchup range connects.** Either buckets are applied at a checkpoint after the last closed
ledger, and enough ledgers are replayed from there, or the replay's first file starts no later than
just after the last closed ledger. -/
theorem makeCatchupRange_connects {configuration : CatchupConfiguration} (hpos : 1 ≤ lastClosedLedger)
    (hle : lastClosedLedger ≤ configuration.toLedger) (hlt : configuration.toLedger < 2 ^ 32 - freq) :
    ∃ range buckets, makeCatchupRange freq lastClosedLedger configuration = .ok (range, buckets) ∧
      range.last = configuration.toLedger ∧ range.first ≤ configuration.toLedger ∧
      (buckets = true → checkpointContainingLedger freq range.first = range.first ∧
        lastClosedLedger + 1 < range.first ∧
        min configuration.count configuration.toLedger ≤ configuration.toLedger - range.first + 1) ∧
      (buckets = false → checkpointFileStart freq range.first ≤ lastClosedLedger + 1) := by
  obtain ⟨hneeded, hneededle, hcount⟩ := firstNeededLedger_bounds configuration (hpos.trans hle)
  obtain ⟨start, hstart⟩ : ∃ start, computeCatchupStart freq
      (max (firstNeededLedger configuration) lastClosedLedger)
      (firstNotFinishedCheckpoint freq lastClosedLedger) = start := ⟨_, rfl⟩
  have hle' : max (firstNeededLedger configuration) lastClosedLedger ≤ configuration.toLedger :=
    max_le hneededle hle
  obtain ⟨hfirst, hfirstle, hbuckets, hreplay⟩ :=
    computeCatchupStart_spec hf (le_max_right _ _) hpos (by omega) hstart
  have hstartle : start.2 ≤ configuration.toLedger := hfirstle.trans hle'
  have hfreq := eight_le_frequency hf
  have hsucc : (lastClosedLedger + 1) % 2 ^ 32 = lastClosedLedger + 1 := Nat.mod_eq_of_lt (by omega)
  have hrange : ledgerRange start.2 configuration.toLedger configuration.toLedger_lt =
      .ok ⟨start.2, configuration.toLedger, hfirst, hstartle, configuration.toLedger_lt⟩ := by
    unfold ledgerRange
    rw [dif_pos (Nat.lt_of_succ_le hfirst), dif_pos hstartle]
  unfold makeCatchupRange
  rw [assert_bind (show lastClosedLedger > 0 from hpos),
    assert_bind (show configuration.toLedger ≥ lastClosedLedger from hle),
    assert_bind (show configuration.toLedger ≠ CatchupConfiguration.CURRENT from
      Nat.ne_of_gt (hpos.trans hle))]
  dsimp only
  rw [hstart, hrange, hsucc]
  by_cases hnear : start.1 = true ∧ start.2 ≤ lastClosedLedger + 1
  · refine ⟨_, false, if_pos hnear, rfl, hstartle, fun h => absurd h Bool.false_ne_true, fun _ => ?_⟩
    have hmod := hbuckets hnear.1
    have hself := checkpointContainingLedger_of_mod hf hmod (by omega)
    unfold checkpointFileStart GENESIS_LEDGER_SEQ
    dsimp only
    rw [hself]
    rcases hf with rfl | rfl
    · omega
    · omega
  · refine ⟨_, start.1, if_neg hnear, rfl, hstartle, fun h => ?_, hreplay⟩
    have hmod := hbuckets h
    have hfar : lastClosedLedger + 1 < start.2 := not_le.mp fun h' => hnear ⟨h, h'⟩
    refine ⟨checkpointContainingLedger_of_mod hf hmod (Nat.lt_of_le_of_lt (Nat.succ_le_succ hstartle) ?_),
      hfar, ?_⟩
    · omega
    · -- the start is not after the first ledger that is needed
      dsimp only
      omega

end Start

/-- A node that is far behind. -/
theorem makeCatchupRange_connects_far :
    ∃ range buckets, makeCatchupRange 64 10 ⟨5, 1000, none, by decide⟩ = .ok (range, buckets) ∧
      range.last = 1000 ∧ range.first ≤ 1000 ∧
      (buckets = true → checkpointContainingLedger 64 range.first = range.first ∧
        10 + 1 < range.first ∧ min 5 1000 ≤ 1000 - range.first + 1) ∧
      (buckets = false → checkpointFileStart 64 range.first ≤ 10 + 1) := by
  have hle : 10 ≤ (⟨5, 1000, none, by decide⟩ : CatchupConfiguration).toLedger := by decide
  exact makeCatchupRange_connects (.inr rfl) (by decide) hle (by decide)

end ZaggCore.Catchup
