import ZaggCore.Util.TimerRuns

/-! # Steps of virtual timers

Every action under the condition keeps the invariant: the end of a loop, the calls, and what an idle clock
does. By induction over the run the callbacks are invoked as they should be. -/

namespace ZaggCore.Timers
open Foundations
set_option autoImplicit false
set_option maxHeartbeats 250000

namespace World

variable {w w' : World} {t : ℕ}

/-! ## The end of a loop -/

theorem flushCancelledEvents_eq (w : World) : ∃ queue n, queue.Sublist w.mEvents ∧
    w.flushCancelledEvents = { w with mEvents := queue, mFlushesIgnored := n } := by
  unfold flushCancelledEvents
  split
  · exact ⟨w.mEvents, w.mFlushesIgnored, .refl _, rfl⟩
  · split
    · exact ⟨w.mEvents, w.mFlushesIgnored + 1, .refl _, rfl⟩
    · exact ⟨_, 0, List.filter_sublist, rfl⟩

/-- Only the timer changes, and it is no more cancelled than before. -/
theorem rearm_eq (w : World) (t : ℕ) (expiry : Option Expiry) : ∃ timer,
    timer.mEvents = (w.timers t).mEvents ∧ (timer.mCancelled = true → (w.timers t).mCancelled = true) ∧
      w.rearm t expiry = w.setTimer t timer := by
  cases expiry with
  | none =>
    refine ⟨w.timers t, rfl, id, ?_⟩
    unfold rearm setTimer
    rw [Function.update_eq_self]
  | some expiry =>
    refine ⟨⟨expiry.time w.mNow, (w.timers t).mEvents, false⟩, rfl, fun h => ?_, rfl⟩
    cases h

theorem finishCancel_eq (expiry : Option Expiry) (h : w.iterating t = false) :
    ∃ queue n timer, queue.Sublist w.mEvents ∧ w.finishCancel t expiry =
      { w with mEvents := queue, mFlushesIgnored := n, timers := Function.update w.timers t timer } := by
  obtain ⟨queue, n, hsub, hflush⟩ := flushCancelledEvents_eq w
  obtain ⟨timer, -, -, hrearm⟩ := rearm_eq
    (w.flushCancelledEvents.setTimer t { w.flushCancelledEvents.timers t with mEvents := [] }) t expiry
  have hloop : w.flushCancelledEvents.iterating t = false := by
    rw [hflush]
    exact h
  refine ⟨queue, n, timer, hsub, ?_⟩
  have hfinish : w.finishCancel t expiry =
      (w.flushCancelledEvents.setTimer t { w.flushCancelledEvents.timers t with mEvents := [] }).rearm t
        expiry := by
    unfold finishCancel
    dsimp only
    rw [if_neg (Bool.eq_false_iff.mp hloop)]
  rw [hfinish, hrearm, hflush]
  unfold setTimer
  dsimp only
  rw [Function.update_idem]

/-- The loop over the timer's events ends when none of them waits. -/
theorem Sound.finish {expiry : Option Expiry} {frames : List Frame} (h : Sound w)
    (hframes : w.frames = .cancelling t [] expiry :: frames) :
    Sound ({ w with frames := frames }.finishCancel t expiry) := by
  have hnodup := h.tidy.loops
  rw [hframes] at hnodup
  obtain ⟨hnot, hrest⟩ := List.nodup_cons.mp hnodup
  have hloop : ({ w with frames := frames } : World).iterating t = false := by
    rw [← Bool.not_eq_true, iterating_iff_mem]
    exact hnot
  have hother : ∀ e, w.Waiting e → (w.events e).timer ≠ t := by
    intro e he htimer
    exact List.not_mem_nil
      (h.owned.looping t [] expiry (hframes.symm ▸ List.mem_cons_self ..) e he htimer)
  have hkept : ∀ e, w.Waiting e → w.iterating (w.events e).timer = true →
      ({ w with frames := frames } : World).iterating (w.events e).timer = true := by
    intro e he hiter
    rw [iterating_iff_mem, hframes] at hiter
    rw [iterating_iff_mem]
    exact (List.mem_cons.mp hiter).resolve_left (hother e he)
  obtain ⟨queue, n, timer, hsub, heq⟩ := finishCancel_eq expiry hloop
  rw [heq]
  refine ⟨?_, ⟨h.owned.timer_lt, ?_, ?_, ?_⟩, h.traced.mono rfl rfl rfl hkept, ?_⟩
  · refine h.tidy.mono h.tidy.defined (fun _ hx => hx) rfl ((List.Sublist.refl _).append hsub)
      (bottom_tail (hframes ▸ h.tidy.bottom)) (fun hnone => h.tidy.idle fun hmem => hnone ?_) ?_
    · rw [hframes] at hmem
      exact (List.mem_cons.mp hmem).resolve_left (fun hf => by cases hf)
    · rw [hframes]
      exact List.sublist_cons_self ..
  · intro e he
    dsimp only
    rw [Function.update_of_ne (hother e he)]
    exact h.owned.mem e he
  · intro t' rest expiry' hmem
    exact h.owned.looping t' rest expiry' (hframes.symm ▸ List.mem_cons_of_mem _ hmem)
  · intro e he hmark
    dsimp only at hmark
    rw [Function.update_of_ne (hother e he)] at hmark
    exact hkept e he (h.owned.marked e he hmark)
  · exact h.ordered.mono (fun _ => rfl) (fun _ => rfl) (fun _ hx => hx) rfl (.refl _) hsub.subset
      (List.Subset.refl _) fun hne => .inr (h.ordered.succeeded hframes (fun hf => by cases hf) hne)

/-! ## The calls -/

theorem Sound.newTimer (h : Sound w) : Sound (w.call .newTimer) := by
  have hother : ∀ e, w.Waiting e → (w.events e).timer ≠ w.numTimers := fun e he =>
    (h.owned.timer_lt e he).ne
  refine ⟨h.tidy.mono h.tidy.defined (fun _ hx => hx) rfl (.refl _) h.tidy.bottom h.tidy.idle (.refl _),
    ⟨?_, ?_, h.owned.looping, ?_⟩, h.traced.mono rfl rfl rfl fun _ _ hloop => hloop, ?_⟩
  · intro e he
    exact (h.owned.timer_lt e he).trans (Nat.lt_succ_self _)
  · intro e he
    show e ∈ (Function.update w.timers w.numTimers _ (w.events e).timer).mEvents
    rw [Function.update_of_ne (hother e he)]
    exact h.owned.mem e he
  · intro e he hmark
    change (Function.update w.timers w.numTimers _ (w.events e).timer).mCancelled = true at hmark
    rw [Function.update_of_ne (hother e he)] at hmark
    exact h.owned.marked e he hmark
  · exact h.ordered.mono (fun _ => rfl) (fun _ => rfl) (fun _ hx => hx) rfl (.refl _)
      (List.Subset.refl _) (List.Subset.refl _) h.ordered.current

/-- A timer is cancelled, by a loop that has begun or has been over before. -/
theorem Traced.cancel (h : Traced w) (hevents : w'.events = w.events) (hnum : w'.numEvents = w.numEvents)
    (htrace : w'.trace = .cancelled t :: w.trace)
    (hloops : ∀ t', w.iterating t' = true → w'.iterating t' = true)
    (hnew : ∀ e, w.Waiting e → (w.events e).timer = t → w'.iterating t = true) : Traced w' := by
  have hwaiting : ∀ x, w'.Waiting x ↔ w.Waiting x := fun x => by rw [Waiting, hevents, Waiting]
  have hmem : ∀ entry : Entry, entry ≠ .cancelled t → (entry ∈ w'.trace ↔ entry ∈ w.trace) := by
    intro entry hentry
    rw [htrace, List.mem_cons]
    exact or_iff_right hentry
  constructor
  · intro x t' expiry
    rw [hmem _ (fun hx => by cases hx), hevents, hnum]
    exact h.waited x t' expiry
  · intro a b ta tb wa wb hab hwa hwb
    rw [hmem _ (fun hx => by cases hx)] at hwa hwb
    rw [htrace]
    exact (h.numbered a b ta tb wa wb hab hwa hwb).cons _
  · intro x success now hx
    rw [hmem _ (fun hx => by cases hx)] at hx
    rw [hnum, hwaiting]
    exact h.invoked x success now hx
  · intro x now hx
    rw [hmem _ (fun hx => by cases hx)] at hx
    rw [hevents]
    exact h.reached x now hx
  · intro x success success' now now' hsub
    rw [htrace] at hsub
    rcases pair_sublist_cons.mp hsub with hsub | ⟨hx, -⟩
    · exact h.once x success success' now now' hsub
    · cases hx
  · intro x t' expiry now hsub
    rw [htrace] at hsub
    rcases triple_sublist_cons.mp hsub with hsub | ⟨hx, -⟩
    · exact h.uncancelled x t' expiry now hsub
    · cases hx
  · intro x t' expiry hx hsub
    rw [hwaiting] at hx
    rw [htrace] at hsub
    rcases pair_sublist_cons.mp hsub with hsub | ⟨ht, hwaited⟩
    · exact hloops t' (h.cancelled x t' expiry hx hsub)
    · cases ht
      exact hnew x hx ((h.waited x t expiry).mp hwaited).2.1

/-- Code runs outside or in a callback, so something of a batch has succeeded. -/
theorem Sound.succeeded (h : Sound w) (hcode : w.userCode = true) (hne : w.toDispatch ≠ []) :
    ∃ s ∈ successes w.trace, (w.events s).mWhen = w.mNow := by
  unfold userCode at hcode
  split at hcode
  · next hframes =>
    refine absurd (h.tidy.idle ?_) hne
    rw [hframes]
    exact List.not_mem_nil
  · next hframes => exact h.ordered.succeeded hframes (fun hf => by cases hf) hne
  · cases hcode

theorem Sound.cancelAgain {expiry : Option Expiry} (h : Sound w) (hcode : w.userCode = true)
    (hcancelled : (w.timers t).mCancelled = true) : Sound (w.beginCancel t expiry) := by
  obtain ⟨timer, hlist, hmark, hrearm⟩ := rearm_eq { w with trace := .cancelled t :: w.trace } t expiry
  have heq : w.beginCancel t expiry = ({ w with trace := .cancelled t :: w.trace } : World).setTimer t timer :=
    (if_pos hcancelled).trans hrearm
  rw [heq]
  refine ⟨h.tidy.mono h.tidy.defined (fun _ hx => hx) rfl (.refl _) h.tidy.bottom h.tidy.idle (.refl _),
    ⟨h.owned.timer_lt, ?_, h.owned.looping, ?_⟩, h.traced.cancel rfl rfl rfl (fun _ hx => hx) ?_, ?_⟩
  · intro e he
    show e ∈ (Function.update w.timers t timer (w.events e).timer).mEvents
    by_cases htimer : (w.events e).timer = t
    · have hmem := h.owned.mem e he
      rw [htimer] at hmem ⊢
      rw [Function.update_self, hlist]
      exact hmem
    · rw [Function.update_of_ne htimer]
      exact h.owned.mem e he
  · intro e he hm
    change (Function.update w.timers t timer (w.events e).timer).mCancelled = true at hm
    by_cases htimer : (w.events e).timer = t
    · refine h.owned.marked e he ?_
      rw [htimer]
      exact hcancelled
    · rw [Function.update_of_ne htimer] at hm
      exact h.owned.marked e he hm
  · intro e he htimer
    have hloop := h.owned.marked e he
    rw [htimer] at hloop
    exact hloop hcancelled
  · exact h.ordered.mono (fun _ => rfl) (fun _ => rfl) (fun _ hx => hx) rfl (.refl _)
      (List.Subset.refl _) (List.Subset.refl _) fun hne => .inr (h.succeeded hcode hne)

theorem Sound.cancelFresh {expiry : Option Expiry} (h : Sound w) (hcode : w.userCode = true)
    (hcancelled : (w.timers t).mCancelled = false) (hloop : w.iterating t = false) :
    Sound (w.beginCancel t expiry) := by
  have heq : w.beginCancel t expiry =
      { w with
        trace := .cancelled t :: w.trace
        timers := Function.update w.timers t { w.timers t with mCancelled := true }
        frames := .cancelling t (w.timers t).mEvents expiry :: w.frames } :=
    if_neg (fun hc => Bool.noConfusion (hcancelled.symm.trans hc))
  have hlist : ∀ t', (Function.update w.timers t { w.timers t with mCancelled := true } t').mEvents =
      (w.timers t').mEvents := by
    intro t'
    by_cases ht : t' = t
    · rw [ht, Function.update_self]
    · rw [Function.update_of_ne ht]
  rw [heq]
  refine ⟨⟨h.tidy.defined, h.tidy.waiting_lt, h.tidy.nodup, h.tidy.queued_lt,
    bottom_cons (fun hf => by cases hf) h.tidy.bottom, ?_, ?_⟩, ⟨h.owned.timer_lt, ?_, ?_, ?_⟩,
    h.traced.cancel rfl rfl rfl ?_ ?_, ?_⟩
  · exact fun hnone => h.tidy.idle fun hmem => hnone (List.mem_cons_of_mem _ hmem)
  · refine List.nodup_cons.mpr ⟨fun hmem => ?_, h.tidy.loops⟩
    rw [iterating_iff_mem.mpr hmem] at hloop
    cases hloop
  · intro e he
    dsimp only
    rw [hlist]
    exact h.owned.mem e he
  · intro t' rest expiry' hmem e he htimer
    rcases List.mem_cons.mp hmem with hf | hmem
    · cases hf
      have hin := h.owned.mem e he
      rwa [htimer] at hin
    · exact h.owned.looping t' rest expiry' hmem e he htimer
  · intro e he hmark
    rw [iterating_iff_mem]
    by_cases htimer : (w.events e).timer = t
    · exact List.mem_cons.mpr (.inl htimer)
    · dsimp only at hmark
      rw [Function.update_of_ne htimer] at hmark
      exact List.mem_cons_of_mem _ (iterating_iff_mem.mp (h.owned.marked e he hmark))
  · intro t' ht
    rw [iterating_iff_mem] at ht ⊢
    exact List.mem_cons_of_mem _ ht
  · intro e _ _
    exact iterating_iff_mem.mpr (List.mem_cons_self ..)
  · exact h.ordered.mono (fun _ => rfl) (fun _ => rfl) (fun _ hx => hx) rfl (.refl _)
      (List.Subset.refl _) (List.Subset.refl _) fun hne => .inr (h.succeeded hcode hne)

theorem Sound.beginCancel {expiry : Option Expiry} (h : Sound w) (hcode : w.userCode = true)
    (hkeeps : (w.timers t).mCancelled = false → w.iterating t = false) : Sound (w.beginCancel t expiry) := by
  cases hcancelled : (w.timers t).mCancelled with
  | true => exact h.cancelAgain hcode hcancelled
  | false => exact h.cancelFresh hcode hcancelled (hkeeps hcancelled)

/-! ## A new wait -/

/-- The world after `async_wait` on a timer that is not cancelled, with the queue left open. -/
def added (w : World) (t : ℕ) (queue : List ℕ) : World :=
  { w with
    mEvents := queue
    events := Function.update w.events w.numEvents ⟨false, (w.timers t).mExpiryTime, w.seq t, t⟩
    numEvents := w.numEvents + 1
    trace := .waited w.numEvents t (w.timers t).mExpiryTime :: w.trace
    timers := Function.update w.timers t
      { w.timers t with mEvents := (w.timers t).mEvents ++ [w.numEvents] } }

theorem asyncWait_eq (hcancelled : (w.timers t).mCancelled = false) (hloop : w.iterating t = false) :
    ∃ queue, (queue = w.mEvents ∨ w.mDestructing = false ∧ queue = w.numEvents :: w.mEvents) ∧
      w.asyncWait t = w.added t queue := by
  unfold asyncWait
  rw [if_neg (Bool.eq_false_iff.mp hcancelled), if_neg (Bool.eq_false_iff.mp hloop)]
  cases hdestructing : w.mDestructing with
  | true =>
    refine ⟨w.mEvents, .inl rfl, ?_⟩
    unfold enqueue
    dsimp only
    rw [if_pos hdestructing]
    rfl
  | false =>
    refine ⟨w.numEvents :: w.mEvents, .inr ⟨rfl, rfl⟩, ?_⟩
    unfold enqueue
    dsimp only
    rw [if_neg (Bool.eq_false_iff.mp hdestructing)]
    rfl

section Added

variable {queue : List ℕ} {x : ℕ}

theorem added_events_of_lt (hx : x < w.numEvents) : (w.added t queue).events x = w.events x :=
  Function.update_of_ne hx.ne ..

theorem added_events_self : (w.added t queue).events w.numEvents =
    ⟨false, (w.timers t).mExpiryTime, w.seq t, t⟩ :=
  Function.update_self ..

theorem waiting_added : (w.added t queue).Waiting x ↔ x = w.numEvents ∨ w.Waiting x := by
  unfold Waiting added
  dsimp only
  by_cases hx : x = w.numEvents
  · rw [hx, Function.update_self]
    exact ⟨fun _ => .inl rfl, fun _ => rfl⟩
  · rw [Function.update_of_ne hx]
    exact (or_iff_right hx).symm

theorem added_mCancelled (t' : ℕ) :
    ((w.added t queue).timers t').mCancelled = (w.timers t').mCancelled := by
  unfold added
  dsimp only
  by_cases ht : t' = t
  · rw [ht, Function.update_self]
  · rw [Function.update_of_ne ht]

theorem subset_added_mEvents (t' : ℕ) :
    (w.timers t').mEvents ⊆ ((w.added t queue).timers t').mEvents := by
  unfold added
  dsimp only
  by_cases ht : t' = t
  · rw [ht, Function.update_self]
    exact List.subset_append_left ..
  · rw [Function.update_of_ne ht]
    exact List.Subset.refl _

theorem Tidy.added (h : Tidy w) (hqueue : queue.Sublist (w.numEvents :: w.mEvents)) :
    Tidy (w.added t queue) := by
  have hfresh : w.numEvents ∉ w.toDispatch ++ w.mEvents := fun hmem => lt_irrefl _ (h.queued_lt _ hmem)
  have hperm : (w.toDispatch ++ w.numEvents :: w.mEvents).Perm
      (w.numEvents :: (w.toDispatch ++ w.mEvents)) := List.perm_middle
  have hsub := (List.Sublist.refl w.toDispatch).append hqueue
  refine ⟨h.defined, fun e he => ?_, ?_, fun e he => ?_, h.bottom, h.idle, h.loops⟩
  · rcases waiting_added.mp he with rfl | he
    · exact Nat.lt_succ_self _
    · exact (h.waiting_lt e he).trans (Nat.lt_succ_self _)
  · exact (hperm.nodup_iff.mpr (List.nodup_cons.mpr ⟨hfresh, h.nodup⟩)).sublist hsub
  · rcases List.mem_cons.mp (hperm.subset (hsub.subset he)) with rfl | hold
    · exact Nat.lt_succ_self _
    · exact (h.queued_lt e hold).trans (Nat.lt_succ_self _)

theorem Owned.added (h : Owned w) (hlt : ∀ e, w.Waiting e → e < w.numEvents) (ht : t < w.numTimers)
    (hcancelled : (w.timers t).mCancelled = false) (hloop : w.iterating t = false) :
    Owned (w.added t queue) := by
  refine ⟨fun e he => ?_, fun e he => ?_, fun t' rest expiry hmem e he htimer => ?_, fun e he hmark => ?_⟩
  · rcases waiting_added.mp he with rfl | he
    · rw [added_events_self]
      exact ht
    · rw [added_events_of_lt (hlt e he)]
      exact h.timer_lt e he
  · rcases waiting_added.mp he with rfl | he
    · rw [added_events_self]
      show w.numEvents ∈ (Function.update w.timers t _ t).mEvents
      rw [Function.update_self]
      exact List.mem_append_right _ (List.mem_singleton_self _)
    · rw [added_events_of_lt (hlt e he)]
      exact subset_added_mEvents _ (h.mem e he)
  · rcases waiting_added.mp he with rfl | he
    · rw [added_events_self] at htimer
      obtain rfl : t = t' := htimer
      have hiter : w.iterating t = true := iterating_iff.mpr ⟨rest, expiry, hmem⟩
      exact absurd hiter (Bool.eq_false_iff.mp hloop)
    · rw [added_events_of_lt (hlt e he)] at htimer
      exact h.looping t' rest expiry hmem e he htimer
  · rw [added_mCancelled] at hmark
    rcases waiting_added.mp he with rfl | he
    · rw [added_events_self, hcancelled] at hmark
      cases hmark
    · rw [added_events_of_lt (hlt e he)] at hmark ⊢
      exact h.marked e he hmark

theorem Traced.added (h : Traced w) : Traced (w.added t queue) := by
  have hmem : ∀ entry : Entry, entry ≠ .waited w.numEvents t (w.timers t).mExpiryTime →
      (entry ∈ (w.added t queue).trace ↔ entry ∈ w.trace) := fun entry hentry =>
    List.mem_cons.trans (or_iff_right hentry)
  constructor
  · intro e t' expiry
    by_cases he : e = w.numEvents
    · rw [he, added_events_self]
      constructor
      · intro hwaited
        rcases List.mem_cons.mp hwaited with hx | hold
        · cases hx
          exact ⟨Nat.lt_succ_self _, rfl, rfl⟩
        · exact absurd ((h.waited _ t' expiry).mp hold).1 (lt_irrefl _)
      · rintro ⟨-, rfl, rfl⟩
        exact List.mem_cons_self ..
    · rw [hmem _ (fun hx => he (Entry.waited.inj hx).1), h.waited]
      have hlt : e < (w.added t queue).numEvents ↔ e < w.numEvents := by
        show e < w.numEvents + 1 ↔ e < w.numEvents
        omega
      rw [hlt]
      refine and_congr_right fun hold => ?_
      rw [added_events_of_lt hold]
  · intro a b ta tb wa wb hab hwa hwb
    rcases List.mem_cons.mp hwb with hx | hwb
    · cases hx
      refine pair_sublist_cons.mpr (.inr ⟨rfl, ?_⟩)
      exact (hmem _ (fun hx => hab.ne (Entry.waited.inj hx).1)).mp hwa
    · rcases List.mem_cons.mp hwa with hx | hwa
      · cases hx
        exact absurd (hab.trans ((h.waited b tb wb).mp hwb).1) (lt_irrefl _)
      · exact (h.numbered a b ta tb wa wb hab hwa hwb).cons _
  · intro e success now hinvoked
    rw [hmem _ (fun hx => by cases hx)] at hinvoked
    obtain ⟨hlt, hnot⟩ := h.invoked e success now hinvoked
    refine ⟨hlt.trans (Nat.lt_succ_self _), fun he => ?_⟩
    exact (waiting_added.mp he).elim hlt.ne hnot
  · intro e now hinvoked
    rw [hmem _ (fun hx => by cases hx)] at hinvoked
    rw [added_events_of_lt (h.invoked e true now hinvoked).1]
    exact h.reached e now hinvoked
  · intro e success success' now now' hsub
    rcases pair_sublist_cons.mp hsub with hsub | ⟨hx, -⟩
    · exact h.once e success success' now now' hsub
    · cases hx
  · intro e t' expiry now hsub
    rcases triple_sublist_cons.mp hsub with hsub | ⟨hx, -⟩
    · exact h.uncancelled e t' expiry now hsub
    · cases hx
  · intro e t' expiry he hsub
    rcases pair_sublist_cons.mp hsub with hsub | ⟨hx, -⟩
    · refine h.cancelled e t' expiry ((waiting_added.mp he).resolve_left ?_) hsub
      have hwaited : .waited e t' expiry ∈ w.trace := hsub.subset (by simp)
      exact ((h.waited e t' expiry).mp hwaited).1.ne
    · cases hx

/-- The events of the line have been waited for. -/
theorem Sound.line_lt (h : Sound w) : ∀ e ∈ w.line, e < w.numEvents := by
  intro e he
  rcases List.mem_append.mp he with he | he
  · obtain ⟨now, hinvoked⟩ := mem_successes.mp (List.mem_reverse.mp he)
    exact (h.traced.invoked e true now hinvoked).1
  · exact h.tidy.queued_lt e (List.mem_append_left _ (List.mem_filter.mp he).1)

theorem Sound.line_added (h : Sound w) : (w.added t queue).line = w.line := by
  unfold line
  refine congrArg _ (List.filter_congr fun e he => ?_)
  rw [added_events_of_lt (h.tidy.queued_lt e (List.mem_append_left _ he))]

/-- Nothing of the line expires later than an event that expires no earlier than the successes. -/
theorem Sound.line_le (h : Sound w) (hcode : w.userCode = true) {expiry : ℤ}
    (hlate : ∀ e ∈ successes w.trace, (w.events e).mWhen ≤ expiry) :
    ∀ e ∈ w.line, (w.events e).mWhen ≤ expiry := by
  intro e he
  rcases List.mem_append.mp he with he | he
  · exact hlate e (List.mem_reverse.mp he)
  · have hbatch := (List.mem_filter.mp he).1
    obtain ⟨s, hs, hnow⟩ := h.succeeded hcode (List.ne_nil_of_mem hbatch)
    rw [h.ordered.due e hbatch, ← hnow]
    exact hlate s hs

theorem Sound.ordered_added (h : Sound w) (hcode : w.userCode = true)
    (hqueue : queue = w.mEvents ∨ w.mDestructing = false ∧ queue = w.numEvents :: w.mEvents)
    (hkeeps : w.mDestructing = false →
      (∀ e ∈ w.mEvents, w.Waiting e → (w.events e).mWhen = (w.timers t).mExpiryTime →
        (w.events e).mSeq < w.seq t) ∧
      ∀ e ∈ successes w.trace, (w.events e).mWhen ≤ (w.timers t).mExpiryTime) :
    Ordered (w.added t queue) := by
  have hqueued : ∀ e ∈ queue, e < w.numEvents ∧ e ∈ w.mEvents ∨ e = w.numEvents ∧ w.mDestructing = false := by
    intro e he
    rcases hqueue with rfl | ⟨hd, rfl⟩
    · exact .inl ⟨h.tidy.queued_lt e (List.mem_append_right _ he), he⟩
    · rcases List.mem_cons.mp he with rfl | he
      · exact .inr ⟨rfl, hd⟩
      · exact .inl ⟨h.tidy.queued_lt e (List.mem_append_right _ he), he⟩
  have hold : ∀ e, e < w.numEvents → (w.added t queue).Waiting e → w.Waiting e := fun e he hw =>
    (waiting_added.mp hw).resolve_left he.ne
  have hbatch : ∀ e ∈ w.toDispatch, e < w.numEvents := fun e he =>
    h.tidy.queued_lt e (List.mem_append_left _ he)
  constructor
  · intro e he
    rw [added_events_of_lt (hbatch e he)]
    exact h.ordered.due e he
  · rw [h.line_added]
    refine h.ordered.sorted.imp_of_mem fun {a b} ha hb hab => ?_
    rw [Before, added_events_of_lt (h.line_lt a ha), added_events_of_lt (h.line_lt b hb)]
    exact hab
  · intro a ha q hq hw
    rw [h.line_added] at ha
    have hlt := h.line_lt a ha
    rw [Before, added_events_of_lt hlt]
    rcases hqueued q hq with ⟨hqlt, hq⟩ | ⟨rfl, hd⟩
    · rw [added_events_of_lt hqlt]
      exact h.ordered.queue a ha q hq (hold q hqlt hw)
    · rw [added_events_self]
      have hle := h.line_le hcode (hkeeps hd).2 a ha
      exact (lt_or_eq_of_le hle).imp_right fun heq => ⟨heq, hlt⟩
  · intro a ha b hb hwa hwb heq hab
    rcases hqueued a ha with ⟨halt, ha⟩ | ⟨rfl, -⟩
    · rw [added_events_of_lt halt] at heq ⊢
      rcases hqueued b hb with ⟨hblt, hb⟩ | ⟨rfl, hd⟩
      · rw [added_events_of_lt hblt] at heq ⊢
        exact h.ordered.seqs a ha b hb (hold a halt hwa) (hold b hblt hwb) heq hab
      · rw [added_events_self] at heq ⊢
        exact (hkeeps hd).1 a ha (hold a halt hwa) heq
    · rcases hqueued b hb with ⟨hblt, -⟩ | ⟨rfl, -⟩
      · exact absurd (hab.trans hblt) (lt_irrefl _)
      · exact absurd hab (lt_irrefl _)
  · intro hne
    obtain ⟨s, hs, hnow⟩ := h.succeeded hcode hne
    obtain ⟨now, hinvoked⟩ := mem_successes.mp hs
    refine .inr ⟨s, hs, ?_⟩
    rw [added_events_of_lt (h.traced.invoked s true now hinvoked).1]
    exact hnow

end Added

theorem Sound.asyncWait (h : Sound w) (hcode : w.userCode = true) (ht : t < w.numTimers)
    (hkeeps : Keeps w (.call (.asyncWait t))) : Sound (w.asyncWait t) := by
  cases hcancelled : (w.timers t).mCancelled with
  | true =>
    have hsame : w.asyncWait t = w := if_pos hcancelled
    rw [hsame]
    exact h
  | false =>
    obtain ⟨hloop, hlate⟩ := hkeeps hcancelled
    obtain ⟨queue, hqueue, heq⟩ := asyncWait_eq hcancelled hloop
    have hsub : queue.Sublist (w.numEvents :: w.mEvents) := by
      rcases hqueue with rfl | ⟨-, rfl⟩
      · exact List.sublist_cons_self ..
      · exact .refl _
    rw [heq]
    exact ⟨h.tidy.added hsub, h.owned.added h.tidy.waiting_lt ht hcancelled hloop, h.traced.added,
      h.ordered_added hcode hqueue hlate⟩

/-! ## An idle clock -/

theorem not_iterating_of_nil (hframes : w.frames = []) : w.iterating t ≠ true := by
  unfold iterating
  rw [hframes]
  exact Bool.false_ne_true

/-- The batch has the rank order of the queue, which is the order of the waits. -/
theorem Sound.batch_sorted (h : Sound w) {now : ℤ} {order rest : List ℕ}
    (hperm : w.mEvents.Perm (order ++ rest)) (hdue : ∀ e ∈ order, (w.events e).mWhen = now)
    (hranks : order.Pairwise fun a b => (w.events a).rank ≤ (w.events b).rank) :
    (order.filter fun e => !(w.events e).mTriggered).Pairwise w.Before := by
  have hnodup : order.Nodup :=
    (List.nodup_append.mp (hperm.nodup_iff.mp (List.nodup_append.mp h.tidy.nodup).2.1)).1
  have hmem : ∀ e ∈ order, e ∈ w.mEvents := fun e he => hperm.symm.subset (List.mem_append_left _ he)
  have hwaiting : ∀ e ∈ order.filter fun e => !(w.events e).mTriggered, e ∈ order ∧ w.Waiting e := by
    intro e he
    obtain ⟨hin, hnot⟩ := List.mem_filter.mp he
    exact ⟨hin, (Bool.not_eq_true' _).mp hnot⟩
  refine ((hranks.and hnodup).filter _).imp_of_mem fun {a b} ha hb hab => ?_
  obtain ⟨hina, hwa⟩ := hwaiting a ha
  obtain ⟨hinb, hwb⟩ := hwaiting b hb
  have heq : (w.events a).mWhen = (w.events b).mWhen := (hdue a hina).trans (hdue b hinb).symm
  have hle : (w.events a).mSeq ≤ (w.events b).mSeq := by
    rcases Prod.Lex.toLex_le_toLex.mp hab.1 with hlt | ⟨-, hle⟩
    · exact absurd heq hlt.ne
    · exact hle
  refine .inr ⟨heq, (lt_or_gt_of_ne hab.2).resolve_right fun hba => ?_⟩
  have hlt := h.ordered.seqs b (hmem b hinb) a (hmem a hina) hwb hwa heq.symm hba
  omega

theorem Sound.crank (h : Sound w) (hframes : w.frames = []) (order : List ℕ) : Sound (w.crank order) := by
  have hidle : w.toDispatch = [] := h.tidy.idle (hframes ▸ List.not_mem_nil)
  unfold World.crank
  split
  · exact h
  · split
    · exact h
    · next next hnext =>
      split
      · exact h
      · next rest hpop =>
        obtain ⟨hperm, hdue, hranks, hlater⟩ := popDue_spec hpop
        have hmem : ∀ e ∈ order, e ∈ w.mEvents := fun e he =>
          hperm.symm.subset (List.mem_append_left _ he)
        have hrest : ∀ e ∈ rest, e ∈ w.mEvents := fun e he =>
          hperm.symm.subset (List.mem_append_right _ he)
        -- the clock is set to the least expiry of the queue
        have hnow : ∀ e ∈ order, (w.events e).mWhen = (w.events next).mWhen := fun e he =>
          le_antisymm (hdue e he) (VirtualClockEvent.when_le_of_rank_le
            (isTop_iff.mp (List.find?_some hnext) e (hmem e he)))
        have hline : w.line = (successes w.trace).reverse := by
          unfold line
          rw [hidle]
          exact List.append_nil _
        have hsuccess : ∀ e ∈ (successes w.trace).reverse, e ∈ w.line := fun e he => hline ▸ he
        have hqueue := (List.nodup_append.mp h.tidy.nodup).2.1
        refine ⟨⟨h.tidy.defined, h.tidy.waiting_lt, hperm.nodup_iff.mp hqueue, fun e he => ?_,
          List.not_mem_nil, fun hnone => absurd (List.mem_singleton_self _) hnone, List.nodup_nil⟩,
          ⟨h.owned.timer_lt, h.owned.mem, fun t rest' expiry hin => ?_, fun e he hmark => ?_⟩,
          h.traced.mono rfl rfl rfl fun e _ hloop => absurd hloop (not_iterating_of_nil hframes),
          ⟨hnow, ?_, ?_, fun a ha b hb => h.ordered.seqs a (hrest a ha) b (hrest b hb),
            fun _ => .inl (List.mem_singleton_self _)⟩⟩
        · exact h.tidy.queued_lt e (List.mem_append_right _ (hperm.symm.subset he))
        · cases List.mem_singleton.mp hin
        · exact absurd (h.owned.marked e he hmark) (not_iterating_of_nil hframes)
        · refine List.pairwise_append.mpr ⟨hline ▸ h.ordered.sorted, h.batch_sorted hperm hnow hranks, ?_⟩
          intro a ha b hb
          obtain ⟨hin, hnot⟩ := List.mem_filter.mp hb
          exact h.ordered.queue a (hsuccess a ha) b (hmem b hin) ((Bool.not_eq_true' _).mp hnot)
        · intro a ha q hq hw
          rcases List.mem_append.mp ha with ha | ha
          · exact h.ordered.queue a (hsuccess a ha) q (hrest q hq) hw
          · left
            show (w.events a).mWhen < (w.events q).mWhen
            rw [hnow a (List.mem_filter.mp ha).1]
            exact hlater q hq

theorem Sound.destruct (h : Sound w) (hframes : w.frames = []) (order : List ℕ) :
    Sound (w.destruct order) := by
  have hidle : w.toDispatch = [] := h.tidy.idle (hframes ▸ List.not_mem_nil)
  unfold World.destruct
  split
  · next hperm =>
    have hperm := List.isPerm_iff.mp hperm
    have hall : (w.toDispatch ++ order).Perm (w.toDispatch ++ w.mEvents) := hperm.append_left _
    refine ⟨⟨h.tidy.defined, h.tidy.waiting_lt, hall.nodup_iff.mpr h.tidy.nodup,
      fun e he => h.tidy.queued_lt e (hall.subset he), List.not_mem_nil, fun _ => hidle, List.nodup_nil⟩,
      ⟨h.owned.timer_lt, h.owned.mem, fun t rest expiry hin => ?_, fun e he hmark => ?_⟩,
      h.traced.mono rfl rfl rfl fun e _ hloop => absurd hloop (not_iterating_of_nil hframes), ?_⟩
    · cases List.mem_singleton.mp hin
    · exact absurd (h.owned.marked e he hmark) (not_iterating_of_nil hframes)
    · exact h.ordered.mono (fun _ => rfl) (fun _ => rfl) (fun _ hx => hx) rfl (.refl _) hperm.subset
        (List.Subset.refl _) fun hne => absurd hidle hne
  · exact h

/-! ## Steps -/

theorem Sound.resume (h : Sound w) : Sound w.resume := by
  unfold World.resume
  split
  · next hframes => exact h.cancelling hframes
  · next hframes => exact h.finish hframes
  · next hframes =>
    split
    · next hbatch => exact h.dispatching hframes hbatch
    · next hbatch => exact h.pop hframes (fun _ _ _ hf => by cases hf) fun _ => hbatch
  · next hframes =>
    split
    · next hqueue => exact h.draining hframes hqueue
    · exact h.pop hframes (fun _ _ _ hf => by cases hf) fun hf => by cases hf
  · exact h

theorem Sound.call (h : Sound w) (hcode : w.userCode = true) {call : Call} (hkeeps : Keeps w (.call call)) :
    Sound (w.call call) := by
  cases call with
  | newTimer => exact h.newTimer
  | expires t expiry =>
    show Sound (if t < w.numTimers then w.beginCancel t (some expiry) else w)
    split
    · exact h.beginCancel hcode hkeeps
    · exact h
  | asyncWait t =>
    show Sound (if t < w.numTimers then w.asyncWait t else w)
    split
    · next ht => exact h.asyncWait hcode ht hkeeps
    · exact h
  | cancel t =>
    show Sound (if t < w.numTimers then w.beginCancel t none else w)
    split
    · exact h.beginCancel hcode hkeeps
    · exact h

/-- A step that reaches none of the defects keeps the invariant. -/
theorem Sound.step (h : Sound w) {action : Action} (hkeeps : Keeps w action) : Sound (w.step action) := by
  unfold World.step
  rw [if_neg (Bool.eq_false_iff.mp h.tidy.defined)]
  cases action with
  | call call =>
    show Sound (if w.userCode = true then w.call call else w)
    split
    · next hcode => exact h.call hcode hkeeps
    · exact h
  | ret =>
    dsimp only
    split
    · next hframes => exact h.pop hframes (fun _ _ _ hf => by cases hf) fun hf => by cases hf
    · exact h
  | resume => exact h.resume
  | crank order =>
    dsimp only
    split
    · next hframes => exact h.crank hframes order
    · exact h
  | destruct order =>
    dsimp only
    split
    · next hframes =>
      split
      · exact h
      · exact h.destruct hframes order
    · exact h

theorem sound_new : Sound new where
  tidy := ⟨rfl, fun _ he => Bool.noConfusion he, List.nodup_nil, fun _ he => absurd he List.not_mem_nil,
    List.not_mem_nil, fun _ => rfl, List.nodup_nil⟩
  owned := ⟨fun _ he => Bool.noConfusion he, fun _ he => Bool.noConfusion he,
    fun _ _ _ hmem => absurd hmem List.not_mem_nil, fun _ he => Bool.noConfusion he⟩
  traced := by
    refine ⟨fun e t expiry => ⟨fun hmem => absurd hmem List.not_mem_nil, fun hlt => absurd hlt.1 (Nat.not_lt_zero e)⟩,
      fun _ _ _ _ _ _ _ hmem => absurd hmem List.not_mem_nil, fun _ _ _ hmem => absurd hmem List.not_mem_nil,
      fun _ _ hmem => absurd hmem List.not_mem_nil, fun _ _ _ _ _ hsub => ?_, fun _ _ _ _ hsub => ?_,
      fun _ _ _ he => Bool.noConfusion he⟩
    · cases hsub
    · cases hsub
  ordered := ⟨fun _ he => absurd he List.not_mem_nil, .nil, fun _ ha => absurd ha List.not_mem_nil,
    fun _ ha => absurd ha List.not_mem_nil, fun hne => absurd rfl hne⟩

/-! ## Runs -/

theorem Sound.orderly (h : Sound w) : Orderly w.trace where
  once := h.traced.once
  reached e now hinvoked :=
    ⟨_, _, (h.traced.waited e _ _).mpr ⟨(h.traced.invoked e true now hinvoked).1, rfl, rfl⟩,
      h.traced.reached e now hinvoked⟩
  uncancelled := h.traced.uncancelled
  inOrder a b ta tb wa wb na nb hsub hwa hwb := by
    have hsuccesses : [b, a].Sublist (successes w.trace) := hsub.filterMap Entry.success
    have hline : [a, b].Sublist w.line := hsuccesses.reverse.trans (List.sublist_append_left ..)
    have hbefore := List.pairwise_pair.mp (h.ordered.sorted.sublist hline)
    rw [Before, ((h.traced.waited a ta wa).mp hwa).2.2, ((h.traced.waited b tb wb).mp hwb).2.2] at hbefore
    rcases hbefore with hlt | ⟨heq, hab⟩
    · exact ⟨hlt.le, fun heq => absurd heq hlt.ne⟩
    · exact ⟨heq.le, fun _ => h.traced.numbered a b ta tb wa wb hab hwa hwb⟩

end World

/-- In every run whose steps reach none of the defects every callback is invoked at most once, with success
only when it is due and not cancelled, and the successes come by expiry and in the order of the waits. -/
theorem callbacks_orderly (actions : List Action) (h : EachStep World.step Keeps World.new actions) :
    Throughout World.step (fun w => w.undefined = false ∧ Orderly w.trace) World.new actions := by
  have hsound : Throughout World.step World.Sound World.new actions :=
    throughout_of_eachStep (fun _ _ hw hkeeps => hw.step hkeeps) World.sound_new h
  exact hsound.mono fun _ hw => ⟨hw.tidy.defined, hw.orderly⟩

/-- The callback of the first timer arms it again and cancels the second timer. -/
def rearmedTimers : List Action :=
  [.call .newTimer, .call .newTimer, .call (.expires 0 (.at 10)), .resume, .call (.asyncWait 0),
    .call (.expires 1 (.at 20)), .resume, .call (.asyncWait 1), .crank [0], .resume,
    .call (.expires 0 (.fromNow 5)), .resume, .resume, .call (.asyncWait 0), .call (.cancel 1), .resume, .ret,
    .resume, .ret, .resume, .crank [2], .resume, .ret, .resume]

theorem callbacks_orderly_rearmed :
    successes (rearmedTimers.foldl World.step World.new).trace = [2, 0] ∧
      Throughout World.step (fun w => w.undefined = false ∧ Orderly w.trace) World.new rearmedTimers :=
  ⟨by decide, callbacks_orderly rearmedTimers (by decide)⟩

/-- The expiry of the action is not before now. -/
def NotBefore (w : World) : Action → Prop
  | .call (.expires _ expiry) => w.mNow ≤ expiry.time w.mNow
  | _ => True

instance (w : World) : DecidablePred (NotBefore w)
  | .call (.expires _ expiry) => inferInstanceAs (Decidable (w.mNow ≤ expiry.time w.mNow))
  | .call (.asyncWait _) => isTrue trivial
  | .call (.cancel _) => isTrue trivial
  | .call .newTimer => isTrue trivial
  | .ret => isTrue trivial
  | .resume => isTrue trivial
  | .crank _ => isTrue trivial
  | .destruct _ => isTrue trivial

/-- Two waits on one timer, then one on another with the same expiry. -/
def tiedTimers : List Action :=
  [.call .newTimer, .call .newTimer, .call (.expires 0 (.at 10)), .resume, .call (.asyncWait 0),
    .call (.asyncWait 0), .call (.expires 1 (.at 10)), .resume, .call (.asyncWait 1), .crank [0, 2, 1],
    .resume, .ret, .resume, .ret, .resume, .ret, .resume]

/-- The third wait has the number of the first and is dispatched before the second. -/
theorem tied_timers_disorderly : EachStep World.step NotBefore World.new tiedTimers ∧
    ¬ Throughout World.step (fun w => w.undefined = false ∧ Orderly w.trace) World.new tiedTimers := by
  refine ⟨by decide, fun h => ?_⟩
  rw [← List.append_nil tiedTimers] at h
  have horderly : Orderly (tiedTimers.foldl World.step World.new).trace := h.of_append.2
  have hordered := (horderly.inOrder 2 1 1 0 10 10 10 10 (by decide) (by decide) (by decide)).2 rfl
  exact absurd hordered (by decide)

end ZaggCore.Timers
