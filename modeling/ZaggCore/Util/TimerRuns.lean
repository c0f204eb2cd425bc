import ZaggCore.Util.Timer

/-! # Runs of virtual timers

What every action keeps, in four parts: what is in the queue and on the stack, whom the waiting events
belong to, what the trace says of them, and the order in which they are dispatched. -/

namespace ZaggCore.Timers
open Foundations
set_option autoImplicit false
set_option maxHeartbeats 250000

/-! ## The priority queue -/

namespace VirtualClockEvent

/-- Events are dispatched by time, and by number where the time is the same. -/
def rank (a : VirtualClockEvent) : ℤ ×ₗ ℕ := toLex (a.mWhen, a.mSeq)

theorem lt_iff (a b : VirtualClockEvent) : a.lt b = true ↔ b.rank < a.rank := by
  unfold lt rank
  rw [Prod.Lex.toLex_lt_toLex]
  simp only [Bool.or_eq_true, decide_eq_true_eq, Bool.and_eq_true, beq_iff_eq, gt_iff_lt]
  constructor
  · rintro (h | ⟨h, h'⟩)
    · exact .inl h
    · exact .inr ⟨h.symm, h'⟩
  · rintro (h | ⟨h, h'⟩)
    · exact .inl h
    · exact .inr ⟨h.symm, h'⟩

theorem when_le_of_rank_le {a b : VirtualClockEvent} (h : a.rank ≤ b.rank) : a.mWhen ≤ b.mWhen := by
  rcases Prod.Lex.toLex_le_toLex.mp h with h | h
  · exact h.le
  · exact h.1.le

end VirtualClockEvent

namespace World

variable {w w' : World}

theorem isTop_iff {queue : List ℕ} {e : ℕ} :
    w.isTop queue e = true ↔ ∀ f ∈ queue, (w.events e).rank ≤ (w.events f).rank := by
  unfold isTop
  rw [List.all_eq_true]
  refine forall₂_congr fun f _ => ?_
  rw [Bool.not_eq_true', ← Bool.not_eq_true, VirtualClockEvent.lt_iff, not_lt]

/-- Some event is at the top. -/
theorem exists_isTop {queue : List ℕ} (h : queue ≠ []) : ∃ e ∈ queue, w.isTop queue e = true := by
  obtain ⟨x, hx⟩ := List.exists_mem_of_ne_nil queue h
  obtain ⟨e, he, hmin⟩ := Finset.exists_min_image queue.toFinset (fun e => (w.events e).rank)
    ⟨x, List.mem_toFinset.mpr hx⟩
  refine ⟨e, List.mem_toFinset.mp he, isTop_iff.mpr fun f hf => ?_⟩
  exact hmin f (List.mem_toFinset.mpr hf)

/-- What the loop that pops takes: all that is due, in the order of the ranks. -/
theorem popDue_spec {now : ℤ} {order queue rest : List ℕ} (h : w.popDue now order queue = some rest) :
    queue.Perm (order ++ rest) ∧ (∀ e ∈ order, (w.events e).mWhen ≤ now) ∧
      order.Pairwise (fun a b => (w.events a).rank ≤ (w.events b).rank) ∧
      ∀ e ∈ rest, now < (w.events e).mWhen := by
  induction order generalizing queue with
  | nil =>
    rw [popDue] at h
    split at h
    · cases h
    · next hnone =>
      cases h
      refine ⟨.refl _, fun e he => absurd he (List.not_mem_nil), .nil, fun e he => ?_⟩
      obtain ⟨f, hf, htop⟩ := exists_isTop (w := w) (List.ne_nil_of_mem he)
      have hle := VirtualClockEvent.when_le_of_rank_le (isTop_iff.mp htop e he)
      by_contra hdue
      refine hnone (List.any_eq_true.mpr ⟨f, hf, ?_⟩)
      rw [htop, Bool.true_and, decide_eq_true_eq]
      omega
  | cons e order ih =>
    rw [popDue] at h
    split at h
    · next hpop =>
      obtain ⟨hmem, htop, hdue⟩ := hpop
      obtain ⟨hperm, hall, hsorted, hrest⟩ := ih h
      refine ⟨(List.perm_cons_erase hmem).trans (hperm.cons e), ?_, ?_, hrest⟩
      · intro f hf
        rcases List.mem_cons.mp hf with rfl | hf
        · exact hdue
        · exact hall f hf
      · refine List.pairwise_cons.mpr ⟨fun f hf => ?_, hsorted⟩
        have hqueue : f ∈ queue.erase e := hperm.symm.subset (List.mem_append_left rest hf)
        exact isTop_iff.mp htop f (List.mem_of_mem_erase hqueue)
    · cases h

/-! ## Traces -/

theorem pair_sublist_cons {α : Type} {x y z : α} {l : List α} :
    [x, y].Sublist (z :: l) ↔ [x, y].Sublist l ∨ x = z ∧ y ∈ l := by
  rw [List.sublist_cons_iff]
  refine or_congr_right ⟨?_, ?_⟩
  · rintro ⟨r, hr, hsub⟩
    obtain ⟨rfl, rfl⟩ := List.cons.inj hr
    exact ⟨rfl, List.singleton_sublist.mp hsub⟩
  · rintro ⟨rfl, hy⟩
    exact ⟨[y], rfl, List.singleton_sublist.mpr hy⟩

theorem triple_sublist_cons {α : Type} {x y u z : α} {l : List α} :
    [x, y, u].Sublist (z :: l) ↔ [x, y, u].Sublist l ∨ x = z ∧ [y, u].Sublist l := by
  rw [List.sublist_cons_iff]
  refine or_congr_right ⟨?_, ?_⟩
  · rintro ⟨r, hr, hsub⟩
    obtain ⟨rfl, rfl⟩ := List.cons.inj hr
    exact ⟨rfl, hsub⟩
  · rintro ⟨rfl, hsub⟩
    exact ⟨[y, u], rfl, hsub⟩

theorem mem_successes {trace : List Entry} {e : ℕ} :
    e ∈ successes trace ↔ ∃ now, .invoked e true now ∈ trace := by
  unfold successes
  rw [List.mem_filterMap]
  constructor
  · rintro ⟨entry, hmem, hentry⟩
    cases entry with
    | invoked e' success now =>
      cases success with
      | true =>
        cases hentry
        exact ⟨now, hmem⟩
      | false => cases hentry
    | waited e' t expiry => cases hentry
    | cancelled t => cases hentry
  · rintro ⟨now, hmem⟩
    exact ⟨_, hmem, rfl⟩

end World

/-! ## The condition -/

/-- A step that reaches none of the defects: a loop over a timer's events finds them as they were, and a
wait is numbered after those with its expiry and expires no earlier than what has succeeded. -/
def Keeps (w : World) : Action → Prop
  | .call (.asyncWait t) => (w.timers t).mCancelled = false →
    w.iterating t = false ∧ (w.mDestructing = false →
      (∀ e ∈ w.mEvents, (w.events e).mTriggered = false →
        (w.events e).mWhen = (w.timers t).mExpiryTime → (w.events e).mSeq < w.seq t) ∧
      ∀ e ∈ successes w.trace, (w.events e).mWhen ≤ (w.timers t).mExpiryTime)
  | .call (.cancel t) => (w.timers t).mCancelled = false → w.iterating t = false
  | .call (.expires t _) => (w.timers t).mCancelled = false → w.iterating t = false
  | _ => True

instance (w : World) : DecidablePred (Keeps w)
  | .call (.asyncWait t) => inferInstanceAs (Decidable ((w.timers t).mCancelled = false →
    w.iterating t = false ∧ (w.mDestructing = false →
      (∀ e ∈ w.mEvents, (w.events e).mTriggered = false →
        (w.events e).mWhen = (w.timers t).mExpiryTime → (w.events e).mSeq < w.seq t) ∧
      ∀ e ∈ successes w.trace, (w.events e).mWhen ≤ (w.timers t).mExpiryTime)))
  | .call (.cancel t) =>
    inferInstanceAs (Decidable ((w.timers t).mCancelled = false → w.iterating t = false))
  | .call (.expires t _) =>
    inferInstanceAs (Decidable ((w.timers t).mCancelled = false → w.iterating t = false))
  | .call .newTimer => isTrue trivial
  | .ret => isTrue trivial
  | .resume => isTrue trivial
  | .crank _ => isTrue trivial
  | .destruct _ => isTrue trivial

namespace World

variable {w w' : World}

/-! ## Queue and stack -/

/-- The callback of the event has not been invoked. -/
def Waiting (w : World) (e : ℕ) : Prop := (w.events e).mTriggered = false

/-- The timers whose loops are under way. -/
def loopTimers (frames : List Frame) : List ℕ :=
  frames.filterMap fun
    | .cancelling t _ _ => some t
    | _ => none

structure Tidy (w : World) : Prop where
  defined : w.undefined = false
  waiting_lt : ∀ e, w.Waiting e → e < w.numEvents
  nodup : (w.toDispatch ++ w.mEvents).Nodup
  queued_lt : ∀ e ∈ w.toDispatch ++ w.mEvents, e < w.numEvents
  /-- The loop of `advanceTo` is below everything else. -/
  bottom : .dispatching ∉ w.frames.dropLast
  idle : .dispatching ∉ w.frames → w.toDispatch = []
  loops : (loopTimers w.frames).Nodup

theorem iterating_iff {t : ℕ} :
    w.iterating t = true ↔ ∃ rest expiry, .cancelling t rest expiry ∈ w.frames := by
  unfold iterating
  rw [List.any_eq_true]
  constructor
  · rintro ⟨frame, hmem, hframe⟩
    cases frame with
    | cancelling t' rest expiry =>
      obtain rfl : t' = t := beq_iff_eq.mp hframe
      exact ⟨rest, expiry, hmem⟩
    | callback => cases hframe
    | dispatching => cases hframe
    | draining => cases hframe
  · rintro ⟨rest, expiry, hmem⟩
    exact ⟨_, hmem, beq_self_eq_true t⟩

theorem iterating_iff_mem {t : ℕ} : w.iterating t = true ↔ t ∈ loopTimers w.frames := by
  rw [iterating_iff]
  unfold loopTimers
  rw [List.mem_filterMap]
  constructor
  · rintro ⟨rest, expiry, hmem⟩
    exact ⟨_, hmem, rfl⟩
  · rintro ⟨frame, hmem, hframe⟩
    cases frame with
    | cancelling t' rest expiry =>
      cases hframe
      exact ⟨rest, expiry, hmem⟩
    | callback => cases hframe
    | dispatching => cases hframe
    | draining => cases hframe

/-! ## What a call leaves alone -/

section Invoke

variable {e x : ℕ} {success : Bool}

theorem invoke_of_waiting (h : w.Waiting e) : w.invoke e success =
    { w with
      events := Function.update w.events e { w.events e with mTriggered := true }
      trace := .invoked e success w.mNow :: w.trace
      frames := .callback :: w.frames } :=
  if_neg (Bool.not_eq_true _ ▸ h)

theorem invoke_of_not_waiting (h : ¬ w.Waiting e) : w.invoke e success = w :=
  if_pos (Bool.of_not_eq_false h)

@[simp] theorem invoke_mWhen : ((w.invoke e success).events x).mWhen = (w.events x).mWhen := by
  unfold invoke
  split
  · rfl
  · by_cases hx : x = e
    · simp [hx]
    · simp [hx]

@[simp] theorem invoke_mSeq : ((w.invoke e success).events x).mSeq = (w.events x).mSeq := by
  unfold invoke
  split
  · rfl
  · by_cases hx : x = e
    · simp [hx]
    · simp [hx]

@[simp] theorem invoke_timer : ((w.invoke e success).events x).timer = (w.events x).timer := by
  unfold invoke
  split
  · rfl
  · by_cases hx : x = e
    · simp [hx]
    · simp [hx]

theorem waiting_invoke : (w.invoke e success).Waiting x ↔ w.Waiting x ∧ x ≠ e := by
  by_cases he : w.Waiting e
  · rw [invoke_of_waiting he]
    unfold Waiting
    by_cases hx : x = e
    · simp [hx]
    · simp [hx]
  · rw [invoke_of_not_waiting he]
    exact ⟨fun h => ⟨h, fun hx => he (hx ▸ h)⟩, fun h => h.1⟩

@[simp] theorem invoke_numEvents : (w.invoke e success).numEvents = w.numEvents := by
  unfold invoke
  split <;> rfl

@[simp] theorem invoke_timers : (w.invoke e success).timers = w.timers := by
  unfold invoke
  split <;> rfl

@[simp] theorem invoke_numTimers : (w.invoke e success).numTimers = w.numTimers := by
  unfold invoke
  split <;> rfl

@[simp] theorem invoke_mEvents : (w.invoke e success).mEvents = w.mEvents := by
  unfold invoke
  split <;> rfl

@[simp] theorem invoke_toDispatch : (w.invoke e success).toDispatch = w.toDispatch := by
  unfold invoke
  split <;> rfl

@[simp] theorem invoke_mNow : (w.invoke e success).mNow = w.mNow := by
  unfold invoke
  split <;> rfl

@[simp] theorem invoke_undefined : (w.invoke e success).undefined = w.undefined := by
  unfold invoke
  split <;> rfl

theorem mem_invoke_frames {frame : Frame} (h : frame ≠ .callback) :
    frame ∈ (w.invoke e success).frames ↔ frame ∈ w.frames := by
  unfold invoke
  split
  · rfl
  · exact List.mem_cons.trans (or_iff_right h)

theorem loopTimers_invoke : loopTimers (w.invoke e success).frames = loopTimers w.frames := by
  unfold invoke
  split <;> rfl

theorem iterating_invoke {t : ℕ} : (w.invoke e success).iterating t = w.iterating t := by
  rw [Bool.eq_iff_iff, iterating_iff_mem, iterating_iff_mem, loopTimers_invoke]

end Invoke

/-- A loop has moved past the event `e`. -/
structure Advance (w : World) (e : ℕ) (w' : World) : Prop where
  events : w'.events = w.events
  numEvents : w'.numEvents = w.numEvents
  timers : w'.timers = w.timers
  numTimers : w'.numTimers = w.numTimers
  trace : w'.trace = w.trace
  mNow : w'.mNow = w.mNow
  undefined : w'.undefined = w.undefined
  mEvents : w'.mEvents.Sublist w.mEvents
  toDispatch : w'.toDispatch.Sublist w.toDispatch
  looping : ∀ t rest expiry, .cancelling t rest expiry ∈ w'.frames →
    ∃ rest', .cancelling t rest' expiry ∈ w.frames ∧ rest' ⊆ e :: rest
  loops : loopTimers w'.frames = loopTimers w.frames

theorem Advance.iterating {e : ℕ} (ha : Advance w e w') (t : ℕ) : w'.iterating t = w.iterating t := by
  rw [Bool.eq_iff_iff, iterating_iff_mem, iterating_iff_mem, ha.loops]

theorem Advance.idle {e : ℕ} (ha : Advance w e w') (h : w.toDispatch = []) : w'.toDispatch = [] := by
  have hsub := ha.toDispatch
  rw [h] at hsub
  exact List.sublist_nil.mp hsub

/-! ## Whom the waiting events belong to -/

structure Owned (w : World) : Prop where
  timer_lt : ∀ e, w.Waiting e → (w.events e).timer < w.numTimers
  mem : ∀ e, w.Waiting e → e ∈ (w.timers (w.events e).timer).mEvents
  looping : ∀ t rest expiry, .cancelling t rest expiry ∈ w.frames →
    ∀ e, w.Waiting e → (w.events e).timer = t → e ∈ rest
  marked : ∀ e, w.Waiting e → (w.timers (w.events e).timer).mCancelled = true →
    w.iterating (w.events e).timer = true

theorem Owned.advance {e : ℕ} {success : Bool} (h : Owned w) (ha : Advance w e w') :
    Owned (w'.invoke e success) where
  timer_lt x hx := by
    rw [waiting_invoke, Waiting, ha.events] at hx
    rw [invoke_timer, invoke_numTimers, ha.events, ha.numTimers]
    exact h.timer_lt x hx.1
  mem x hx := by
    rw [waiting_invoke, Waiting, ha.events] at hx
    rw [invoke_timers, invoke_timer, ha.events, ha.timers]
    exact h.mem x hx.1
  looping t rest expiry hmem x hx htimer := by
    rw [waiting_invoke, Waiting, ha.events] at hx
    rw [invoke_timer, ha.events] at htimer
    have hframe := (mem_invoke_frames fun h => by cases h).mp hmem
    obtain ⟨rest', hmem', hsub⟩ := ha.looping t rest expiry hframe
    rcases List.mem_cons.mp (hsub (h.looping t rest' expiry hmem' x hx.1 htimer)) with hxe | hrest
    · exact absurd hxe hx.2
    · exact hrest
  marked x hx hmark := by
    rw [waiting_invoke, Waiting, ha.events] at hx
    rw [invoke_timers, invoke_timer, ha.events, ha.timers] at hmark
    rw [invoke_timer, ha.events, iterating_invoke, ha.iterating]
    exact h.marked x hx.1 hmark

/-! ## What the trace says of them -/

structure Traced (w : World) : Prop where
  waited : ∀ e t expiry, .waited e t expiry ∈ w.trace ↔
    e < w.numEvents ∧ (w.events e).timer = t ∧ (w.events e).mWhen = expiry
  numbered : ∀ a b ta tb wa wb, a < b → .waited a ta wa ∈ w.trace → .waited b tb wb ∈ w.trace →
    [.waited b tb wb, .waited a ta wa].Sublist w.trace
  invoked : ∀ e success now, .invoked e success now ∈ w.trace → e < w.numEvents ∧ ¬ w.Waiting e
  reached : ∀ e now, .invoked e true now ∈ w.trace → (w.events e).mWhen ≤ now
  once : ∀ e success success' now now',
    ¬ [.invoked e success now, .invoked e success' now'].Sublist w.trace
  uncancelled : ∀ e t expiry now,
    ¬ [.invoked e true now, .cancelled t, .waited e t expiry].Sublist w.trace
  cancelled : ∀ e t expiry, w.Waiting e → [.cancelled t, .waited e t expiry].Sublist w.trace →
    w.iterating t = true

/-- Nothing has happened, and no loop that is to end a wait is gone. -/
theorem Traced.mono (h : Traced w) (hevents : w'.events = w.events) (hnum : w'.numEvents = w.numEvents)
    (htrace : w'.trace = w.trace) (hloops : ∀ e, w.Waiting e → w.iterating (w.events e).timer = true →
      w'.iterating (w.events e).timer = true) : Traced w' := by
  have hwaiting : ∀ x, w'.Waiting x ↔ w.Waiting x := fun x => by rw [Waiting, hevents, Waiting]
  constructor
  · rw [htrace, hevents, hnum]
    exact h.waited
  · rw [htrace]
    exact h.numbered
  · intro x success now hmem
    rw [htrace] at hmem
    rw [hnum, hwaiting]
    exact h.invoked x success now hmem
  · rw [htrace, hevents]
    exact h.reached
  · rw [htrace]
    exact h.once
  · rw [htrace]
    exact h.uncancelled
  · intro x t expiry hx hsub
    rw [hwaiting] at hx
    rw [htrace] at hsub
    have hmem : .waited x t expiry ∈ w.trace := hsub.subset (by simp)
    obtain ⟨-, rfl, -⟩ := (h.waited x t expiry).mp hmem
    exact hloops x hx (h.cancelled x _ expiry hx hsub)

theorem Traced.advance {e : ℕ} {success : Bool} (h : Traced w) (ha : Advance w e w')
    (hlt : w.Waiting e → e < w.numEvents)
    (hsuccess : success = true → w.Waiting e → (w.events e).mWhen ≤ w.mNow ∧
      ∀ t expiry, ¬ [.cancelled t, .waited e t expiry].Sublist w.trace) :
    Traced (w'.invoke e success) := by
  have hwaiting : ∀ x, w'.Waiting x ↔ w.Waiting x := fun x => by rw [Waiting, ha.events, Waiting]
  by_cases he : w.Waiting e
  · have htrace : (w'.invoke e success).trace = .invoked e success w.mNow :: w.trace := by
      rw [invoke_of_waiting ((hwaiting e).mpr he), ha.mNow, ha.trace]
    have hnew : ∀ success' now, .invoked e success' now ∉ w.trace := fun success' now hmem =>
      (h.invoked e success' now hmem).2 he
    constructor
    · intro x t expiry
      rw [htrace, List.mem_cons, invoke_numEvents, invoke_timer, invoke_mWhen, ha.events, ha.numEvents,
        ← h.waited]
      exact or_iff_right (fun hx => by cases hx)
    · intro a b ta tb wa wb hab hwa hwb
      rw [htrace, List.mem_cons] at hwa hwb
      rw [htrace]
      refine (h.numbered a b ta tb wa wb hab (hwa.resolve_left ?_) (hwb.resolve_left ?_)).cons _
      · intro hx
        cases hx
      · intro hx
        cases hx
    · intro x success' now hmem
      rw [invoke_numEvents, ha.numEvents, waiting_invoke, hwaiting]
      rw [htrace, List.mem_cons] at hmem
      rcases hmem with hx | hmem
      · cases hx
        exact ⟨hlt he, fun hw => hw.2 rfl⟩
      · exact ⟨(h.invoked x success' now hmem).1, fun hw => (h.invoked x success' now hmem).2 hw.1⟩
    · intro x now hmem
      rw [invoke_mWhen, ha.events]
      rw [htrace, List.mem_cons] at hmem
      rcases hmem with hx | hmem
      · cases hx
        exact (hsuccess rfl he).1
      · exact h.reached x now hmem
    · intro x success' success'' now now' hsub
      rw [htrace] at hsub
      rcases pair_sublist_cons.mp hsub with hsub | ⟨hx, hmem⟩
      · exact h.once x success' success'' now now' hsub
      · cases hx
        exact hnew _ _ hmem
    · intro x t expiry now hsub
      rw [htrace] at hsub
      rcases triple_sublist_cons.mp hsub with hsub | ⟨hx, hcancelled⟩
      · exact h.uncancelled x t expiry now hsub
      · cases hx
        exact (hsuccess rfl he).2 t expiry hcancelled
    · intro x t expiry hw hsub
      rw [waiting_invoke, hwaiting] at hw
      rw [htrace] at hsub
      rw [iterating_invoke, ha.iterating]
      rcases pair_sublist_cons.mp hsub with hsub | ⟨hx, hmem⟩
      · exact h.cancelled x t expiry hw.1 hsub
      · cases hx
  · rw [invoke_of_not_waiting (fun hw => he ((hwaiting e).mp hw))]
    refine h.mono ha.events ha.numEvents ha.trace fun x _ hloop => ?_
    rw [ha.iterating]
    exact hloop

/-! ## The order of dispatch -/

/-- By expiry, and by number where the expiry is the same. -/
def Before (w : World) (a b : ℕ) : Prop :=
  (w.events a).mWhen < (w.events b).mWhen ∨ (w.events a).mWhen = (w.events b).mWhen ∧ a < b

/-- The events that succeeded, and those that are about to. -/
def line (w : World) : List ℕ :=
  (successes w.trace).reverse ++ w.toDispatch.filter fun e => !(w.events e).mTriggered

structure Ordered (w : World) : Prop where
  due : ∀ e ∈ w.toDispatch, (w.events e).mWhen = w.mNow
  sorted : w.line.Pairwise w.Before
  queue : ∀ a ∈ w.line, ∀ q ∈ w.mEvents, w.Waiting q → w.Before a q
  seqs : ∀ a ∈ w.mEvents, ∀ b ∈ w.mEvents, w.Waiting a → w.Waiting b →
    (w.events a).mWhen = (w.events b).mWhen → a < b → (w.events a).mSeq < (w.events b).mSeq
  /-- Code that runs during a batch runs after a success of the batch. -/
  current : w.toDispatch ≠ [] → .dispatching ∈ w.frames.take 1 ∨
    ∃ s ∈ successes w.trace, (w.events s).mWhen = w.mNow

/-- While another frame is on the stack of a batch, something of the batch has succeeded. -/
theorem Ordered.succeeded (h : Ordered w) {frame : Frame} {frames : List Frame}
    (hframes : w.frames = frame :: frames) (hframe : frame ≠ .dispatching) (hne : w.toDispatch ≠ []) :
    ∃ s ∈ successes w.trace, (w.events s).mWhen = w.mNow := by
  refine (h.current hne).resolve_left fun hmem => hframe ?_
  rw [hframes] at hmem
  exact (List.mem_singleton.mp hmem).symm

/-- Nothing new is waiting. -/
theorem Ordered.mono (h : Ordered w) (hwhen : ∀ x, (w'.events x).mWhen = (w.events x).mWhen)
    (hseq : ∀ x, (w'.events x).mSeq = (w.events x).mSeq) (hwaiting : ∀ x, w'.Waiting x → w.Waiting x)
    (hnow : w'.mNow = w.mNow) (hline : w'.line.Sublist w.line) (hqueue : w'.mEvents ⊆ w.mEvents)
    (hbatch : w'.toDispatch ⊆ w.toDispatch) (hcurrent : w'.toDispatch ≠ [] →
      .dispatching ∈ w'.frames.take 1 ∨ ∃ s ∈ successes w'.trace, (w.events s).mWhen = w.mNow) :
    Ordered w' := by
  have hbefore : w'.Before = w.Before := by
    funext a b
    rw [Before, hwhen, hwhen, Before]
  constructor
  · intro e he
    rw [hwhen, hnow]
    exact h.due e (hbatch he)
  · rw [hbefore]
    exact h.sorted.sublist hline
  · intro a ha q hq hw
    rw [hbefore]
    exact h.queue a (hline.subset ha) q (hqueue hq) (hwaiting q hw)
  · intro a ha b hb hwa hwb heq hab
    rw [hwhen, hwhen] at heq
    rw [hseq, hseq]
    exact h.seqs a (hqueue ha) b (hqueue hb) (hwaiting a hwa) (hwaiting b hwb) heq hab
  · intro hne
    rw [hnow]
    simp only [hwhen]
    exact hcurrent hne

theorem successes_invoke_false (e : ℕ) :
    successes (w.invoke e false).trace = successes w.trace := by
  unfold invoke
  split <;> rfl

theorem line_invoke_false (e : ℕ) : (w.invoke e false).line.Sublist w.line := by
  unfold line
  rw [successes_invoke_false, invoke_toDispatch]
  refine (List.Sublist.refl _).append (List.monotone_filter_right _ fun x hx => ?_)
  rw [Bool.not_eq_true'] at hx ⊢
  exact (waiting_invoke.mp hx).1

/-- A success takes the place that the event had in the line. -/
theorem line_dispatch {e : ℕ} {rest : List ℕ} (hbatch : w.toDispatch = e :: rest)
    (hnodup : w.toDispatch.Nodup) : ({ w with toDispatch := rest }.invoke e true).line = w.line := by
  rw [hbatch, List.nodup_cons] at hnodup
  unfold line
  rw [invoke_toDispatch, hbatch]
  dsimp only
  by_cases he : w.Waiting e
  · have hfilter : (e :: rest).filter (fun x => !(w.events x).mTriggered) =
        e :: rest.filter fun x => !(w.events x).mTriggered :=
      List.filter_cons_of_pos (by rw [he]; rfl)
    have hrest : rest.filter (fun x => !(({ w with toDispatch := rest }.invoke e true).events x).mTriggered) =
        rest.filter fun x => !(w.events x).mTriggered := by
      refine List.filter_congr fun x hx => ?_
      have hne : x ≠ e := fun h => hnodup.1 (h ▸ hx)
      rw [invoke_of_waiting (w := { w with toDispatch := rest }) he]
      dsimp only
      rw [Function.update_of_ne hne]
    have hsuccesses : successes ({ w with toDispatch := rest }.invoke e true).trace =
        e :: successes w.trace := by
      rw [invoke_of_waiting (w := { w with toDispatch := rest }) he]
      rfl
    rw [hrest, hsuccesses, hfilter, List.reverse_cons, List.append_assoc]
    rfl
  · have hfilter : (e :: rest).filter (fun x => !(w.events x).mTriggered) =
        rest.filter fun x => !(w.events x).mTriggered :=
      List.filter_cons_of_neg (by rw [Bool.not_eq_true']; exact he)
    rw [invoke_of_not_waiting (w := { w with toDispatch := rest }) he, hfilter]

/-! ## The stack -/

theorem bottom_cons {frame : Frame} {frames : List Frame} (hframe : frame ≠ .dispatching)
    (h : .dispatching ∉ frames.dropLast) : .dispatching ∉ (frame :: frames).dropLast := by
  cases frames with
  | nil => exact List.not_mem_nil
  | cons f fs =>
    rw [List.dropLast_cons_cons, List.mem_cons]
    exact not_or.mpr ⟨hframe.symm, h⟩

theorem bottom_tail {frame : Frame} {frames : List Frame}
    (h : .dispatching ∉ (frame :: frames).dropLast) : .dispatching ∉ frames.dropLast := by
  cases frames with
  | nil => exact List.not_mem_nil
  | cons f fs =>
    rw [List.dropLast_cons_cons, List.mem_cons] at h
    exact fun hmem => h (.inr hmem)

theorem bottom_top {frames : List Frame} (h : .dispatching ∉ (.dispatching :: frames).dropLast) :
    frames = [] := by
  cases frames with
  | nil => rfl
  | cons f fs =>
    rw [List.dropLast_cons_cons] at h
    exact absurd (List.mem_cons_self ..) h

theorem bottom_invoke {e : ℕ} {success : Bool} (h : .dispatching ∉ w.frames.dropLast) :
    .dispatching ∉ (w.invoke e success).frames.dropLast := by
  unfold invoke
  split
  · exact h
  · exact bottom_cons (fun hf => by cases hf) h

theorem Tidy.mono (h : Tidy w) (hdefined : w'.undefined = false)
    (hwaiting : ∀ x, w'.Waiting x → w.Waiting x) (hnum : w'.numEvents = w.numEvents)
    (hqueue : (w'.toDispatch ++ w'.mEvents).Sublist (w.toDispatch ++ w.mEvents))
    (hbottom : .dispatching ∉ w'.frames.dropLast)
    (hidle : .dispatching ∉ w'.frames → w'.toDispatch = [])
    (hloops : (loopTimers w'.frames).Sublist (loopTimers w.frames)) : Tidy w' where
  defined := hdefined
  waiting_lt e he := hnum ▸ h.waiting_lt e (hwaiting e he)
  nodup := h.nodup.sublist hqueue
  queued_lt e he := hnum ▸ h.queued_lt e (hqueue.subset he)
  bottom := hbottom
  idle := hidle
  loops := h.loops.sublist hloops

/-! ## The steps of the loops -/

structure Sound (w : World) : Prop where
  tidy : Tidy w
  owned : Owned w
  traced : Traced w
  ordered : Ordered w

/-- A loop that cancels looks at an event. -/
theorem Sound.abort {e : ℕ} (h : Sound w) (ha : Advance w e w') (hbottom : .dispatching ∉ w'.frames.dropLast)
    (hkept : .dispatching ∈ w.frames → .dispatching ∈ w'.frames) {frame : Frame} {frames : List Frame}
    (hframes : w.frames = frame :: frames) (hframe : frame ≠ .dispatching) :
    Sound (w'.invoke e false) := by
  have hwaiting : ∀ x, (w'.invoke e false).Waiting x → w.Waiting x := by
    intro x hx
    have hx' := (waiting_invoke.mp hx).1
    rwa [Waiting, ha.events] at hx'
  have hline : w'.line.Sublist w.line := by
    unfold line
    rw [ha.trace, ha.events]
    exact (List.Sublist.refl _).append (ha.toDispatch.filter _)
  refine ⟨?_, h.owned.advance ha, h.traced.advance ha (h.tidy.waiting_lt e) (fun hs => by cases hs), ?_⟩
  · refine h.tidy.mono ?_ hwaiting (invoke_numEvents.trans ha.numEvents) ?_ (bottom_invoke hbottom) ?_ ?_
    · rw [invoke_undefined, ha.undefined]
      exact h.tidy.defined
    · rw [invoke_toDispatch, invoke_mEvents]
      exact ha.toDispatch.append ha.mEvents
    · rw [mem_invoke_frames (fun hf => by cases hf), invoke_toDispatch]
      exact fun hnot => ha.idle (h.tidy.idle fun hmem => hnot (hkept hmem))
    · rw [loopTimers_invoke, ha.loops]
  · refine h.ordered.mono (fun x => ?_) (fun x => ?_) hwaiting (invoke_mNow.trans ha.mNow)
      ((line_invoke_false e).trans hline) ?_ ?_ ?_
    · rw [invoke_mWhen, ha.events]
    · rw [invoke_mSeq, ha.events]
    · rw [invoke_mEvents]
      exact ha.mEvents.subset
    · rw [invoke_toDispatch]
      exact ha.toDispatch.subset
    · rw [invoke_toDispatch, successes_invoke_false, ha.trace]
      intro hne
      exact .inr (h.ordered.succeeded hframes hframe fun hnil => hne (ha.idle hnil))

theorem Sound.cancelling {t e : ℕ} {rest : List ℕ} {expiry : Option Expiry} {frames : List Frame}
    (h : Sound w) (hframes : w.frames = .cancelling t (e :: rest) expiry :: frames) :
    Sound ({ w with frames := .cancelling t rest expiry :: frames }.invoke e false) := by
  have hbottom : .dispatching ∉ (Frame.cancelling t rest expiry :: frames).dropLast :=
    bottom_cons (fun hf => by cases hf) (bottom_tail (hframes ▸ h.tidy.bottom))
  refine h.abort ⟨rfl, rfl, rfl, rfl, rfl, rfl, rfl, .refl _, .refl _, fun t' rest' expiry' hmem => ?_, ?_⟩
    hbottom (fun hmem => ?_) hframes (fun hf => by cases hf)
  · rcases List.mem_cons.mp hmem with hx | hmem
    · cases hx
      exact ⟨e :: rest, hframes.symm ▸ List.mem_cons_self .., List.Subset.refl _⟩
    · exact ⟨rest', hframes.symm ▸ List.mem_cons_of_mem _ hmem, List.subset_cons_self ..⟩
  · rw [hframes]
    rfl
  · rw [hframes] at hmem
    rcases List.mem_cons.mp hmem with hx | hmem
    · cases hx
    · exact List.mem_cons_of_mem _ hmem

theorem Sound.draining {e : ℕ} {rest : List ℕ} {frames : List Frame} (h : Sound w)
    (hframes : w.frames = .draining :: frames) (hqueue : w.mEvents = e :: rest) :
    Sound ({ w with mEvents := rest }.invoke e false) :=
  h.abort ⟨rfl, rfl, rfl, rfl, rfl, rfl, rfl, hqueue ▸ List.sublist_cons_self .., .refl _,
    fun t rest' expiry hmem => ⟨rest', hmem, List.subset_cons_self ..⟩, rfl⟩ h.tidy.bottom id hframes
    (fun hf => by cases hf)

/-- The loop of `advanceTo` looks at an event; no loop of a timer is under way. -/
theorem Sound.dispatching {e : ℕ} {rest : List ℕ} {frames : List Frame} (h : Sound w)
    (hframes : w.frames = .dispatching :: frames) (hbatch : w.toDispatch = e :: rest) :
    Sound ({ w with toDispatch := rest }.invoke e true) := by
  have hbottom := h.tidy.bottom
  rw [hframes] at hbottom
  have hbase : w.frames = [.dispatching] := hframes.trans (congrArg _ (bottom_top hbottom))
  have ha : Advance w e { w with toDispatch := rest } :=
    ⟨rfl, rfl, rfl, rfl, rfl, rfl, rfl, .refl _, hbatch ▸ List.sublist_cons_self ..,
      fun t rest' expiry hmem => ⟨rest', hmem, List.subset_cons_self ..⟩, rfl⟩
  have hidle : ∀ t, w.iterating t = false := by
    intro t
    unfold iterating
    rw [hbase]
    rfl
  have hdue : (w.events e).mWhen = w.mNow := h.ordered.due e (hbatch ▸ List.mem_cons_self ..)
  have hwaiting : ∀ x, ({ w with toDispatch := rest }.invoke e true).Waiting x → w.Waiting x :=
    fun x hx => (waiting_invoke.mp hx).1
  refine ⟨?_, h.owned.advance ha, h.traced.advance ha (h.tidy.waiting_lt e) (fun _ he => ?_), ?_⟩
  · refine h.tidy.mono (invoke_undefined.trans h.tidy.defined) hwaiting invoke_numEvents ?_
      (bottom_invoke h.tidy.bottom) ?_ ?_
    · rw [invoke_toDispatch, invoke_mEvents]
      exact ha.toDispatch.append ha.mEvents
    · rw [mem_invoke_frames (fun hf => by cases hf), hbase]
      exact fun hnot => absurd (List.mem_singleton_self _) hnot
    · rw [loopTimers_invoke]
  · refine ⟨hdue.le, fun t expiry hsub => ?_⟩
    have hloop := h.traced.cancelled e t expiry he hsub
    rw [hidle t] at hloop
    cases hloop
  · have hline := line_dispatch hbatch ((List.nodup_append.mp h.tidy.nodup).1)
    refine h.ordered.mono (fun _ => invoke_mWhen) (fun _ => invoke_mSeq) hwaiting invoke_mNow
      (hline ▸ .refl _) ?_ ?_ ?_
    · rw [invoke_mEvents]
      exact List.Subset.refl _
    · rw [invoke_toDispatch]
      exact ha.toDispatch.subset
    · intro _
      by_cases he : w.Waiting e
      · right
        rw [invoke_of_waiting (w := { w with toDispatch := rest }) he]
        exact ⟨e, List.mem_cons_self .., hdue⟩
      · left
        rw [invoke_of_not_waiting (w := { w with toDispatch := rest }) he]
        dsimp only
        rw [hbase]
        exact List.mem_singleton_self _

/-- A frame that is no loop over a timer's events goes, and the loop of `advanceTo` only at its end. -/
theorem Sound.pop {frame : Frame} {frames : List Frame} (h : Sound w) (hframes : w.frames = frame :: frames)
    (hframe : ∀ t rest expiry, frame ≠ .cancelling t rest expiry)
    (hend : frame = .dispatching → w.toDispatch = []) : Sound { w with frames := frames } := by
  have hloops : ∀ t rest expiry, .cancelling t rest expiry ∈ w.frames →
      .cancelling t rest expiry ∈ frames := by
    intro t rest expiry hmem
    rw [hframes] at hmem
    exact (List.mem_cons.mp hmem).resolve_left (hframe t rest expiry).symm
  have hiterating : ∀ t, w.iterating t = true → ({ w with frames := frames } : World).iterating t = true := by
    intro t ht
    obtain ⟨rest, expiry, hmem⟩ := iterating_iff.mp ht
    exact iterating_iff.mpr ⟨rest, expiry, hloops t rest expiry hmem⟩
  have hsub : (loopTimers frames).Sublist (loopTimers w.frames) := by
    rw [hframes]
    exact (List.sublist_cons_self ..).filterMap _
  refine ⟨?_, ⟨h.owned.timer_lt, h.owned.mem, ?_, ?_⟩, ?_, ?_⟩
  · refine h.tidy.mono h.tidy.defined (fun _ hx => hx) rfl (.refl _) (bottom_tail (hframes ▸ h.tidy.bottom)) ?_
      hsub
    intro hnot
    by_cases hd : frame = .dispatching
    · exact hend hd
    · refine h.tidy.idle fun hmem => hnot ?_
      rw [hframes] at hmem
      exact (List.mem_cons.mp hmem).resolve_left (Ne.symm hd)
  · intro t rest expiry hmem
    exact h.owned.looping t rest expiry (hframes.symm ▸ List.mem_cons_of_mem _ hmem)
  · intro e he hmark
    exact hiterating _ (h.owned.marked e he hmark)
  · exact h.traced.mono rfl rfl rfl fun e _ hloop => hiterating _ hloop
  · refine h.ordered.mono (fun _ => rfl) (fun _ => rfl) (fun _ hx => hx) rfl (.refl _)
      (List.Subset.refl _) (List.Subset.refl _) fun hne => .inr ?_
    exact h.ordered.succeeded hframes (fun hd => hne (hend hd)) hne

end World

end ZaggCore.Timers
