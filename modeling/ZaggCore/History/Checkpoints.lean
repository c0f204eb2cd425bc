import Mathlib

/-! # Checkpoint numbers

The checkpoint arithmetic of `history/HistoryManagerImpl.cpp` on `uint32_t` ledger numbers. A checkpoint
is named by its last ledger, one below a multiple of the frequency. -/

namespace ZaggCore.History
set_option autoImplicit false
set_option maxHeartbeats 250000

def getCheckpointFrequency (accelerated : Bool) : ℕ := if accelerated then 8 else 64

/-- A multiple of `freq`; 0 stands for the first one after genesis. -/
def nextCheckpointLedger (freq ledger : ℕ) : ℕ :=
  if ledger = 0 then freq
  else ((ledger + (freq - 1)) % 2 ^ 32 / freq * freq) % 2 ^ 32

def checkpointContainingLedger (freq ledger : ℕ) : ℕ :=
  (nextCheckpointLedger freq ((ledger + 1) % 2 ^ 32) + 2 ^ 32 - 1) % 2 ^ 32

/-- `LedgerRange`, with what its constructor asserts. -/
structure LedgerRange where
  first : ℕ
  last : ℕ
  first_pos : 0 < first
  first_le_last : first ≤ last
  last_lt : last < 2 ^ 32
  deriving DecidableEq

/-- `CheckpointRange`, as it is made from a range of ledgers, with what its constructor asserts. -/
structure CheckpointRange (freq : ℕ) extends LedgerRange where
  checkpoints_le : checkpointContainingLedger freq first ≤ checkpointContainingLedger freq last

/-- The two values of `getCheckpointFrequency`. -/
def Frequency (freq : ℕ) : Prop := freq = 8 ∨ freq = 64

theorem frequency_of_config (accelerated : Bool) : Frequency (getCheckpointFrequency accelerated) := by
  cases accelerated
  · right
    rfl
  · left
    rfl

section Frequency

variable {freq : ℕ} (hf : Frequency freq) {ledger : ℕ}
include hf

theorem checkpoint_mod (ledger : ℕ) :
    checkpointContainingLedger freq ledger % freq = freq - 1 ∧
      checkpointContainingLedger freq ledger < 2 ^ 32 := by
  unfold checkpointContainingLedger nextCheckpointLedger
  rcases hf with rfl | rfl
  · split <;> omega
  · split <;> omega

/-- The checkpoint of every ledger but the last one that `uint32_t` has. -/
theorem checkpoint_bounds (h : ledger + 1 < 2 ^ 32) :
    ledger ≤ checkpointContainingLedger freq ledger ∧
      checkpointContainingLedger freq ledger < ledger + freq := by
  unfold checkpointContainingLedger nextCheckpointLedger
  rcases hf with rfl | rfl
  · split <;> omega
  · split <;> omega

end Frequency

end ZaggCore.History
