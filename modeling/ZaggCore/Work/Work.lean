import ZaggCore.Foundations.Checked

/-! # Work items

The model of `work/Work.cpp` for an item without children. An item is its callbacks; its own data and
what they change around it are one state `σ`. -/

namespace ZaggCore
open Foundations Foundations.Checked
set_option autoImplicit false
set_option maxHeartbeats 250000

inductive Work.State where
  | WORK_PENDING
  | WORK_RUNNING
  | WORK_SUCCESS
  | WORK_FAILURE_RETRY
  | WORK_FAILURE_RAISE
  | WORK_FAILURE_FATAL
  deriving DecidableEq, Repr

inductive Work.CompleteResult where
  | WORK_COMPLETE_OK
  | WORK_COMPLETE_FAILURE
  | WORK_COMPLETE_FATAL
  deriving DecidableEq, Repr

def Work.RETRY_A_FEW : ℕ := 5

/-- The callbacks; `onRun` says with which result it schedules the completion. -/
structure Work (σ : Type) where
  onReset : σ → σ
  onStart : σ → Checked σ
  onRun : σ → Checked (Work.CompleteResult × σ)
  onSuccess : σ → Checked (Work.State × σ)
  mMaxRetries : ℕ

namespace Work

structure Item (σ : Type) where
  mState : State
  mRetries : ℕ
  data : σ

variable {σ : Type} (work : Work σ)

def isDone (st : State) : Bool :=
  st = .WORK_SUCCESS ∨ st = .WORK_FAILURE_RAISE ∨ st = .WORK_FAILURE_FATAL

def setState (item : Item σ) (st : State) : Item σ :=
  if st = .WORK_FAILURE_RETRY ∧ item.mRetries ≥ work.mMaxRetries then
    { item with mState := .WORK_FAILURE_RAISE }
  else { item with mState := st }

def reset (item : Item σ) : Item σ :=
  { item with mState := .WORK_PENDING, data := work.onReset item.data }

/-- `addWork`. -/
def added (data : σ) : Item σ := reset work ⟨.WORK_PENDING, 0, data⟩

def run (item : Item σ) : Checked (CompleteResult × Item σ) := do
  let data ← if item.mState = .WORK_PENDING then work.onStart item.data else pure item.data
  let (result, data) ← work.onRun data
  return (result, setState work { item with data := data } .WORK_RUNNING)

/-- `complete`, and the retry it schedules. -/
def complete (result : CompleteResult) (item : Item σ) : Checked (Item σ) := do
  let item ← match result with
    | .WORK_COMPLETE_OK => do
      let (st, data) ← work.onSuccess item.data
      pure (setState work { item with data := data } st)
    | .WORK_COMPLETE_FAILURE => pure (setState work item .WORK_FAILURE_RETRY)
    | .WORK_COMPLETE_FATAL => pure (setState work item .WORK_FAILURE_FATAL)
  if item.mState = .WORK_FAILURE_RETRY then
    return reset work { item with mRetries := item.mRetries + 1 }
  return item

def step (item : Item σ) : Checked (Item σ) := do
  let (result, item) ← run work item
  complete work result item

/-- The item, run up to `n` times: what it ends in, if it has. -/
def runs : ℕ → Item σ → Option (Checked (State × σ))
  | 0, _ => none
  | n + 1, item =>
    match step work item with
    | .error failure => some (.error failure)
    | .ok item => if isDone item.mState then some (.ok (item.mState, item.data)) else runs n item

variable {work} {item : Item σ}

theorem run_ok {data data' : σ} {result : CompleteResult}
    (hstart : item.mState = .WORK_PENDING → work.onStart item.data = .ok data)
    (hkept : item.mState ≠ .WORK_PENDING → item.data = data)
    (hrun : work.onRun data = .ok (result, data')) :
    run work item = .ok (result, ⟨.WORK_RUNNING, item.mRetries, data'⟩) := by
  unfold run
  simp only
  by_cases hpending : item.mState = .WORK_PENDING
  · rw [if_pos hpending, hstart hpending]
    simp only [bind, Except.bind]
    rw [hrun]
    rfl
  · rw [if_neg hpending, hkept hpending]
    simp only [bind, Except.bind, pure, Except.pure]
    rw [hrun]
    rfl

theorem step_success {item' : Item σ} {st : State} {data : σ}
    (hrun : run work item = .ok (.WORK_COMPLETE_OK, item'))
    (h : work.onSuccess item'.data = .ok (st, data)) (hst : st ≠ .WORK_FAILURE_RETRY) :
    step work item = .ok ⟨st, item'.mRetries, data⟩ := by
  unfold step
  rw [hrun]
  simp only [bind, Except.bind, complete]
  rw [h]
  simp only [setState, hst, false_and, if_false, pure, Except.pure]

theorem step_success_error {item' : Item σ} {failure : Failure}
    (hrun : run work item = .ok (.WORK_COMPLETE_OK, item'))
    (h : work.onSuccess item'.data = .error failure) : step work item = .error failure := by
  unfold step
  rw [hrun]
  simp only [bind, Except.bind, complete]
  rw [h]

/-- A failed run is put off while retries are left. -/
theorem step_failure {item' : Item σ} (hrun : run work item = .ok (.WORK_COMPLETE_FAILURE, item')) :
    step work item = .ok (if item'.mRetries ≥ work.mMaxRetries then { item' with mState := .WORK_FAILURE_RAISE }
      else reset work { item' with mRetries := item'.mRetries + 1 }) := by
  unfold step
  rw [hrun]
  simp only [bind, Except.bind, complete, pure, Except.pure, setState, true_and]
  by_cases hretries : item'.mRetries ≥ work.mMaxRetries
  · rw [if_pos hretries, if_pos hretries]
    rfl
  · rw [if_neg hretries, if_neg hretries]
    rfl

theorem run_start_error {failure : Failure} (hpending : item.mState = .WORK_PENDING)
    (hstart : work.onStart item.data = .error failure) : step work item = .error failure := by
  unfold step run
  simp only
  rw [if_pos hpending, hstart]
  rfl

theorem runs_error {failure : Failure} (n : ℕ) (h : step work item = .error failure) :
    runs work (n + 1) item = some (.error failure) := by
  unfold runs
  rw [h]

theorem runs_done {item' : Item σ} (n : ℕ) (h : step work item = .ok item') (hdone : isDone item'.mState) :
    runs work (n + 1) item = some (.ok (item'.mState, item'.data)) := by
  unfold runs
  rw [h]
  simp only
  rw [if_pos hdone]

theorem runs_next {item' : Item σ} (n : ℕ) (h : step work item = .ok item') (hdone : ¬isDone item'.mState) :
    runs work (n + 1) item = runs work n item' := by
  conv_lhs => unfold runs
  rw [h]
  simp only
  rw [if_neg hdone]

theorem runs_unique {n m : ℕ} {a b : Checked (State × σ)} (hn : runs work n item = some a)
    (hm : runs work m item = some b) : a = b := by
  induction n generalizing m item with
  | zero => cases hn
  | succ n ih =>
    cases m with
    | zero => cases hm
    | succ m =>
      cases hstep : step work item with
      | error failure =>
        rw [runs_error n hstep] at hn
        rw [runs_error m hstep] at hm
        exact Option.some.inj (hn.symm.trans hm)
      | ok item' =>
        by_cases hdone : isDone item'.mState
        · rw [runs_done n hstep hdone] at hn
          rw [runs_done m hstep hdone] at hm
          exact Option.some.inj (hn.symm.trans hm)
        · rw [runs_next n hstep hdone] at hn
          rw [runs_next m hstep hdone] at hm
          exact ih hn hm

/-- The states an item gets to, one completion after the other. -/
inductive Reached (work : Work σ) (start : Item σ) : Item σ → Prop where
  | start : Reached work start start
  | step {item item' : Item σ} : Reached work start item → ¬isDone item.mState →
      Work.step work item = .ok item' → Reached work start item'

theorem Reached.head {start next : Item σ} (hdone : ¬isDone start.mState)
    (hstep : Work.step work start = .ok next) (h : Reached work next item) : Reached work start item := by
  induction h with
  | start => exact .step .start hdone hstep
  | step _ hnot hnext ih => exact .step ih hnot hnext

theorem runs_of_reached {start : Item σ} (h : Reached work start item) (hdone : ¬isDone item.mState) :
    ∃ k, ∀ n, runs work (k + n) start = runs work n item := by
  induction h with
  | start => exact ⟨0, fun n => by rw [Nat.zero_add]⟩
  | step _ hnot hnext ih =>
    obtain ⟨k, hk⟩ := ih hnot
    refine ⟨k + 1, fun n => ?_⟩
    rw [← runs_next n hnext hdone, ← hk, Nat.add_assoc, Nat.add_comm 1 n]

/-- The last step of an item that ends. -/
theorem last_step {n : ℕ} {start : Item σ} {st : State} {data : σ} (hnot : ¬isDone start.mState)
    (h : runs work n start = some (.ok (st, data))) :
    ∃ item item', Reached work start item ∧ ¬isDone item.mState ∧ Work.step work item = .ok item' ∧
      isDone item'.mState ∧ item'.mState = st ∧ item'.data = data := by
  induction n generalizing start with
  | zero => cases h
  | succ n ih =>
    cases hstep : Work.step work start with
    | error failure =>
      rw [runs_error n hstep] at h
      cases h
    | ok next =>
      by_cases hdone : isDone next.mState
      · rw [runs_done n hstep hdone] at h
        cases h
        exact ⟨start, next, .start, hnot, hstep, hdone, rfl, rfl⟩
      · rw [runs_next n hstep hdone] at h
        obtain ⟨item, item', hreached, hrest⟩ := ih hdone h
        exact ⟨item, item', hreached.head hnot hstep, hrest⟩

end Work

end ZaggCore
