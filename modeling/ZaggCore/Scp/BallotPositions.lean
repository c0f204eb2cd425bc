import ZaggCore.Scp.BallotOrder

/-! # Positions of the ballot protocol

The phase, the five ballots and the value override are the position of a node. This module has the
invariant of positions, the order in which they advance, and what each assignment of the protocol does to
the two. -/

namespace ZaggCore.Scp
open BallotProtocol
set_option autoImplicit false
set_option maxHeartbeats 250000

/-- The phases are in the order PREPARE < CONFIRM < EXTERNALIZE. -/
def SCPPhase.toInt : SCPPhase → ℕ
  | SCP_PHASE_PREPARE => 0
  | SCP_PHASE_CONFIRM => 1
  | SCP_PHASE_EXTERNALIZE => 2

theorem SCPPhase.eq_prepare_iff (phase : SCPPhase) :
    phase = SCP_PHASE_PREPARE ↔ phase.toInt = 0 := by
  cases phase <;> simp [toInt]

theorem SCPPhase.toInt_inj {phase phase' : SCPPhase} (h : phase.toInt = phase'.toInt) :
    phase = phase' := by
  cases phase <;> cases phase' <;> first | rfl | cases h

structure Position (Value : Type) where
  phase : SCPPhase
  current : Option (SCPBallot Value)
  prepared : Option (SCPBallot Value)
  preparedPrime : Option (SCPBallot Value)
  high : Option (SCPBallot Value)
  commit : Option (SCPBallot Value)
  override : Option Value

namespace Position

variable {Value : Type}

/-- The position of a fresh slot. -/
def start : Position Value := ⟨.SCP_PHASE_PREPARE, none, none, none, none, none, none⟩

variable [LinearOrder Value]

/-- `p'` is less than and incompatible with `p`; `c ≤ h ≤ b` are compatible; from CONFIRM on there is a
`c`. As long as nothing overrides the value there is neither `h` nor `c`. -/
structure Good (r : Position Value) : Prop where
  high : ∀ h, r.high = some h → ∃ b, r.current = some b ∧ h ≤ b ∧ h.value = b.value
  commit : ∀ c, r.commit = some c →
    c.counter ≠ 0 ∧ ∃ h, r.high = some h ∧ c ≤ h ∧ c.value = h.value
  prime : ∀ p', r.preparedPrime = some p' →
    ∃ p, r.prepared = some p ∧ p' ≤ p ∧ p'.value ≠ p.value
  phase : r.phase ≠ .SCP_PHASE_PREPARE → r.commit.isSome
  free : r.override = none →
    r.phase = .SCP_PHASE_PREPARE ∧ r.high = none ∧ r.commit = none ∧
      ∀ b, r.current = some b → b.counter ≠ 0

/-- Where the node can only throw: `c` was cleared after PREPARE, or `h` was cleared and `c` was not. -/
def Broken (r : Position Value) : Prop :=
  (r.phase ≠ .SCP_PHASE_PREPARE ∧ r.commit = none) ∨
    (r.phase = .SCP_PHASE_PREPARE ∧ (∃ c, r.commit = some c ∧ c.counter ≠ 0) ∧ r.high = none)

/-- The phase does not regress, within a phase `b` does not decrease, `p` does not decrease, after PREPARE
the value of `c` does not change, and an override stays. -/
structure Advances (r r' : Position Value) : Prop where
  phase : r.phase.toInt ≤ r'.phase.toInt
  current : r.phase = r'.phase → ptr r.current ≤ ptr r'.current
  prepared : ptr r.prepared ≤ ptr r'.prepared
  commit : r.phase ≠ .SCP_PHASE_PREPARE →
    r'.commit.map SCPBallot.value = r.commit.map SCPBallot.value
  override : r'.override = none → r.override = none

theorem Advances.refl (r : Position Value) : Advances r r :=
  ⟨le_rfl, fun _ => le_rfl, le_rfl, fun _ => rfl, id⟩

theorem Advances.trans {r r' r'' : Position Value} (h : Advances r r') (h' : Advances r' r'') :
    Advances r r'' where
  phase := h.phase.trans h'.phase
  current heq := by
    have hle := h'.phase
    rw [← heq] at hle
    have hmid : r.phase = r'.phase := SCPPhase.toInt_inj (le_antisymm h.phase hle)
    exact (h.current hmid).trans (h'.current (hmid.symm.trans heq))
  prepared := h.prepared.trans h'.prepared
  commit hne := by
    have hne' : r'.phase ≠ .SCP_PHASE_PREPARE := by
      rw [Ne, SCPPhase.eq_prepare_iff] at hne ⊢
      have := h.phase
      omega
    rw [h'.commit hne', h.commit hne]
  override hnone := h.override (h'.override hnone)

/-- A step that stays in the PREPARE phase or goes on from it. -/
theorem Advances.of_prepare {r r' : Position Value} (hphase : r.phase = .SCP_PHASE_PREPARE)
    (hcurrent : r'.phase = .SCP_PHASE_PREPARE → ptr r.current ≤ ptr r'.current)
    (hprepared : ptr r.prepared ≤ ptr r'.prepared)
    (hoverride : r'.override = none → r.override = none) : Advances r r' where
  phase := by simp [hphase, SCPPhase.toInt]
  current heq := hcurrent (heq ▸ hphase)
  prepared := hprepared
  commit hne := absurd hphase hne
  override := hoverride

theorem good_start : Good (start : Position Value) where
  high _ h := nomatch h
  commit _ h := nomatch h
  prime _ h := nomatch h
  phase h := absurd rfl h
  free _ := ⟨rfl, rfl, rfl, fun _ h => nomatch h⟩

variable {r : Position Value}

/-- All of `c`, `h` and `b` are on one value. -/
theorem Good.compatible (hr : Good r) {c : SCPBallot Value} (hc : r.commit = some c) :
    ∃ h b, r.high = some h ∧ r.current = some b ∧ c ≤ h ∧ h ≤ b ∧ c.value = h.value ∧
      h.value = b.value := by
  obtain ⟨-, h, hh, hch, hcv⟩ := hr.commit c hc
  obtain ⟨b, hb, hhb, hhv⟩ := hr.high h hh
  exact ⟨h, b, hh, hb, hch, hhb, hcv, hhv⟩

/-! ## The current ballot -/

/-- The position after `bumpToBallot`. -/
def bump (r : Position Value) (ballot : SCPBallot Value) : Position Value :=
  { r with current := some ballot, high := r.high.filter fun h => areBallotsCompatible ballot h }

theorem bump_high {ballot h : SCPBallot Value} :
    (r.bump ballot).high = some h ↔ r.high = some h ∧ ballot.value = h.value := by
  simp [bump, Option.filter_eq_some_iff, areBallotsCompatible]

theorem le_of_ptr_lt {b b' : SCPBallot Value} (hb : r.current = some b)
    (h : ptr r.current < ptr (some b')) : b < b' := by
  rw [hb] at h
  exact WithBot.coe_lt_coe.mp h

theorem Advances.bump {ballot : SCPBallot Value} (h : ptr r.current < ptr (some ballot)) :
    Advances r (r.bump ballot) where
  phase := le_rfl
  current _ := h.le
  prepared := le_rfl
  commit _ := rfl
  override := id

/-- A higher ballot that is compatible with `c`. -/
theorem Good.bump (hr : Good r) {ballot : SCPBallot Value} (hlt : ptr r.current < ptr (some ballot))
    (hcommit : ∀ c, r.commit = some c → c.value = ballot.value)
    (hfree : r.override = none → ballot.counter ≠ 0) : Good (r.bump ballot) where
  high h hh := by
    rw [bump_high] at hh
    obtain ⟨b, hb, hhb, -⟩ := hr.high h hh.1
    exact ⟨ballot, rfl, hhb.trans (le_of_ptr_lt hb hlt).le, hh.2.symm⟩
  commit c hc := by
    obtain ⟨h0, h, hh, hch, hcv⟩ := hr.commit c hc
    exact ⟨h0, h, bump_high.mpr ⟨hh, (hcommit c hc).symm.trans hcv⟩, hch, hcv⟩
  prime := hr.prime
  phase := hr.phase
  free hnone := by
    obtain ⟨hphase, hhigh, hc, -⟩ := hr.free hnone
    refine ⟨hphase, ?_, hc, fun b hb => Option.some.inj hb ▸ hfree hnone⟩
    simp [Position.bump, hhigh]

/-! ## Prepared ballots -/

/-- The position after `setPrepared`, and whether it did any work. -/
def prepare (r : Position Value) (ballot : SCPBallot Value) : Position Value × Bool :=
  match r.prepared with
  | none => ({ r with prepared := some ballot }, true)
  | some p =>
    if compareBallots p ballot < 0 then
      ({ r with
        preparedPrime := if areBallotsCompatible p ballot then r.preparedPrime else some p
        prepared := some ballot }, true)
    else if compareBallots p ballot > 0 ∧
        r.preparedPrime.all fun p' => decide (compareBallots p' ballot < 0) then
      ({ r with preparedPrime := some ballot }, true)
    else (r, false)

theorem Advances.prepare (r : Position Value) (ballot : SCPBallot Value) :
    Advances r (r.prepare ballot).1 := by
  unfold Position.prepare
  split
  case h_1 hp =>
    refine ⟨le_rfl, fun _ => le_rfl, ?_, fun _ => rfl, id⟩
    rw [hp]
    exact bot_le
  case h_2 p hp =>
    by_cases hlt : compareBallots p ballot < 0
    · rw [if_pos hlt]
      refine ⟨le_rfl, fun _ => le_rfl, ?_, fun _ => rfl, id⟩
      rw [hp]
      exact WithBot.coe_le_coe.mpr ((compareBallots_lt _ _).mp hlt).le
    · rw [if_neg hlt]
      split_ifs with hgt
      · exact ⟨le_rfl, fun _ => le_rfl, le_rfl, fun _ => rfl, id⟩
      · exact Advances.refl r

/-- A ballot that is not yet prepared. -/
theorem Good.prepare (hr : Good r) {ballot : SCPBallot Value}
    (hnew : ∀ p, r.prepared = some p → ¬ (ballot ≤ p ∧ ballot.value = p.value)) :
    Good (r.prepare ballot).1 := by
  unfold Position.prepare
  split
  case h_1 hp =>
    refine ⟨hr.high, hr.commit, fun p' hp' => ?_, hr.phase, hr.free⟩
    obtain ⟨p, hp₀, -⟩ := hr.prime p' hp'
    exact nomatch hp.symm.trans hp₀
  case h_2 p hp =>
    by_cases hlt : compareBallots p ballot < 0
    · rw [if_pos hlt]
      refine ⟨hr.high, hr.commit, fun p' hp' => ⟨ballot, rfl, ?_⟩, hr.phase, hr.free⟩
      have hp₁ : p < ballot := (compareBallots_lt _ _).mp hlt
      dsimp only at hp'
      split_ifs at hp' with hc
      · obtain ⟨p₀, hp₀, hle, hne⟩ := hr.prime p' hp'
        obtain rfl := Option.some.inj (hp₀.symm.trans hp)
        exact ⟨hle.trans hp₁.le, (areBallotsCompatible_iff _ _).mp hc ▸ hne⟩
      · obtain rfl := Option.some.inj hp'
        exact ⟨hp₁.le, fun hv => hc ((areBallotsCompatible_iff _ _).mpr hv)⟩
    · rw [if_neg hlt]
      split_ifs with hgt
      · refine ⟨hr.high, hr.commit, fun p' hp' => ?_, hr.phase, hr.free⟩
        obtain rfl := Option.some.inj hp'
        have hle : ballot ≤ p := ((compareBallots_gt _ _).mp hgt.1).le
        exact ⟨p, hp, hle, fun hv => hnew p hp ⟨hle, hv⟩⟩
      · exact hr

/-- Clearing `c` in the PREPARE phase. -/
theorem Good.clearCommit (hr : Good r) (hphase : r.phase = .SCP_PHASE_PREPARE) :
    Good { r with commit := none } where
  high := hr.high
  commit _ h := nomatch h
  prime := hr.prime
  phase h := absurd hphase h
  free hnone := ⟨hphase, (hr.free hnone).2.1, rfl, (hr.free hnone).2.2.2⟩

/-! ## Confirmed prepared ballots -/

/-- The position after `updateCurrentIfNeeded`, and whether it did any work. -/
def bumpIfNeeded (r : Position Value) (h : SCPBallot Value) : Position Value × Bool :=
  if r.current.all fun b => decide (compareBallots b h < 0) then (r.bump h, true) else (r, false)

theorem bumpIfNeeded_of_lt {h : SCPBallot Value} (hlt : ptr r.current < ptr (some h)) :
    r.bumpIfNeeded h = (r.bump h, true) := by
  unfold bumpIfNeeded
  rw [if_pos]
  rw [Option.all_eq_true]
  intro b hb
  exact decide_eq_true ((compareBallots_lt b h).mpr (le_of_ptr_lt hb hlt))

theorem bumpIfNeeded_of_le {h : SCPBallot Value} (hle : ptr (some h) ≤ ptr r.current) :
    ∃ b, r.current = some b ∧ h ≤ b ∧ r.bumpIfNeeded h = (r, false) := by
  cases hb : r.current with
  | none =>
    rw [hb] at hle
    exact absurd hle (not_le_of_gt (WithBot.bot_lt_coe h))
  | some b =>
    rw [hb] at hle
    have hhb : h ≤ b := WithBot.coe_le_coe.mp hle
    refine ⟨b, rfl, hhb, ?_⟩
    unfold bumpIfNeeded
    rw [if_neg]
    simp [hb, compareBallots_ge, hhb]

theorem Advances.bumpIfNeeded (r : Position Value) (h : SCPBallot Value) :
    Advances r (r.bumpIfNeeded h).1 := by
  rcases lt_or_ge (ptr r.current) (ptr (some h)) with hlt | hle
  · rw [bumpIfNeeded_of_lt hlt]
    exact Advances.bump hlt
  · obtain ⟨-, -, -, heq⟩ := bumpIfNeeded_of_le hle
    rw [heq]
    exact Advances.refl r

/-- With `h` itself as the high ballot, and a current ballot that is compatible with it, everything is on
one value in the end. -/
theorem Good.bumpIfNeeded {h : SCPBallot Value} (hhigh : r.high = some h)
    (hcurrent : ∀ b, r.current = some b → b.value = h.value)
    (hcommit : ∀ c, r.commit = some c → c.counter ≠ 0 ∧ c ≤ h ∧ c.value = h.value)
    (hprime : ∀ p', r.preparedPrime = some p' →
      ∃ p, r.prepared = some p ∧ p' ≤ p ∧ p'.value ≠ p.value)
    (hphase : r.phase ≠ .SCP_PHASE_PREPARE → r.commit.isSome) (hoverride : r.override ≠ none) :
    Good (r.bumpIfNeeded h).1 := by
  rcases lt_or_ge (ptr r.current) (ptr (some h)) with hlt | hle
  · rw [bumpIfNeeded_of_lt hlt]
    have hbump : (r.bump h).high = some h := bump_high.mpr ⟨hhigh, rfl⟩
    refine ⟨fun h' hh' => ?_, fun c hc => ?_, hprime, hphase, fun hnone => absurd hnone hoverride⟩
    · obtain rfl := Option.some.inj (hbump.symm.trans hh')
      exact ⟨h, rfl, le_rfl, rfl⟩
    · exact ⟨(hcommit c hc).1, h, hbump, (hcommit c hc).2⟩
  · obtain ⟨b, hb, hhb, heq⟩ := bumpIfNeeded_of_le hle
    rw [heq]
    refine ⟨fun h' hh' => ?_, fun c hc => ?_, hprime, hphase, fun hnone => absurd hnone hoverride⟩
    · obtain rfl := Option.some.inj (hhigh.symm.trans hh')
      exact ⟨b, hb, hhb, (hcurrent b hb).symm⟩
    · exact ⟨(hcommit c hc).1, h, hhigh, (hcommit c hc).2⟩

/-- The position after the assignments of `setPreparedConfirmed` to `c` and `h`. -/
def raise (r : Position Value) (newC newH : SCPBallot Value) : Position Value × Bool :=
  if r.current.all fun b => areBallotsCompatible b newH then
    let raised := r.high.all fun h => decide (compareBallots newH h > 0)
    ({ r with
      high := if raised then some newH else r.high
      commit := if newC.counter ≠ 0 then some newC else r.commit },
      raised || decide (newC.counter ≠ 0))
  else (r, false)

/-- The position after `setPreparedConfirmed`, and whether it did any work. -/
def confirmPrepared (r : Position Value) (newC newH : SCPBallot Value) : Position Value × Bool :=
  let raised := Position.raise { r with override := some newH.value } newC newH
  let bumped := raised.1.bumpIfNeeded newH
  (bumped.1, bumped.2 || raised.2)

section ConfirmPrepared

variable {newC newH : SCPBallot Value}

theorem confirmPrepared_of_compatible (hhigh : ∀ h, r.high = some h → h < newH)
    (hcurrent : ∀ b, r.current = some b → b.value = newH.value) :
    (r.confirmPrepared newC newH).1 =
      (Position.bumpIfNeeded { r with
        override := some newH.value, high := some newH,
        commit := if newC.counter ≠ 0 then some newC else r.commit } newH).1 := by
  unfold confirmPrepared raise
  have hall : r.current.all (fun b => areBallotsCompatible b newH) = true :=
    (Option.all_eq_true _ _).mpr fun b hb => (areBallotsCompatible_iff _ _).mpr (hcurrent b hb)
  have hraised : r.high.all (fun h => decide (compareBallots newH h > 0)) = true :=
    (Option.all_eq_true _ _).mpr fun h hh => decide_eq_true ((compareBallots_gt _ _).mpr (hhigh h hh))
  simp only [hall, hraised, if_true]

theorem confirmPrepared_of_incompatible {b : SCPBallot Value} (hb : r.current = some b)
    (hne : b.value ≠ newH.value) :
    r.confirmPrepared newC newH =
      Position.bumpIfNeeded { r with override := some newH.value } newH := by
  unfold confirmPrepared raise
  have hall : r.current.all (fun b => areBallotsCompatible b newH) = false := by
    simpa [hb, areBallotsCompatible] using hne
  simp [hall]

theorem Advances.confirmPrepared (hphase : r.phase = .SCP_PHASE_PREPARE)
    (hhigh : ∀ h, r.high = some h → h < newH) :
    Advances r (r.confirmPrepared newC newH).1 := by
  by_cases hcurrent : ∀ b, r.current = some b → b.value = newH.value
  · rw [confirmPrepared_of_compatible hhigh hcurrent]
    refine Advances.trans (Advances.of_prepare hphase ?_ ?_ ?_) (Advances.bumpIfNeeded _ newH)
    · exact fun _ => le_rfl
    · exact le_rfl
    · exact nofun
  · push Not at hcurrent
    obtain ⟨b, hb, hne⟩ := hcurrent
    rw [confirmPrepared_of_incompatible hb hne]
    refine Advances.trans (Advances.of_prepare hphase ?_ ?_ ?_) (Advances.bumpIfNeeded _ newH)
    · exact fun _ => le_rfl
    · exact le_rfl
    · exact nofun

/-- A new high ballot on another value clears `h`; if there was a `c` the node cannot go on. -/
theorem Good.confirmPrepared (hr : Good r) (hphase : r.phase = .SCP_PHASE_PREPARE)
    (hhigh : ∀ h, r.high = some h → h < newH)
    (hnewC : newC.counter ≠ 0 → newC ≤ newH ∧ newC.value = newH.value) :
    Good (r.confirmPrepared newC newH).1 ∨
      Broken (r.confirmPrepared newC newH).1 ∧ (r.confirmPrepared newC newH).2 = true := by
  by_cases hcurrent : ∀ b, r.current = some b → b.value = newH.value
  · rw [confirmPrepared_of_compatible hhigh hcurrent]
    refine .inl (Good.bumpIfNeeded rfl hcurrent (fun c hc => ?_) hr.prime ?_ nofun)
    · dsimp only at hc
      split_ifs at hc with h0
      · obtain rfl := Option.some.inj hc
        exact ⟨h0, hnewC h0⟩
      · obtain ⟨h, b, hh, hb, hch, -, hcv, hhv⟩ := hr.compatible hc
        exact ⟨(hr.commit c hc).1, hch.trans (hhigh h hh).le, hcv.trans (hhv.trans (hcurrent b hb))⟩
    · exact fun hne => absurd hphase hne
  · push Not at hcurrent
    obtain ⟨b, hb, hne⟩ := hcurrent
    rw [confirmPrepared_of_incompatible hb hne]
    have hgood : Good { r with override := some newH.value } :=
      ⟨hr.high, hr.commit, hr.prime, hr.phase, nofun⟩
    rcases lt_or_ge (ptr r.current) (ptr (some newH)) with hlt | hle
    · rw [bumpIfNeeded_of_lt (r := { r with override := some newH.value }) hlt]
      have hnone : r.high.filter (fun h => areBallotsCompatible newH h) = none := by
        rw [Option.filter_eq_none_iff]
        intro h hh hc
        obtain ⟨b', hb', -, hhv⟩ := hr.high h hh
        obtain rfl := Option.some.inj (hb.symm.trans hb')
        exact hne (hhv.symm.trans ((areBallotsCompatible_iff _ _).mp hc).symm)
      by_cases hc : r.commit = none
      · refine .inl ⟨fun h hh => ?_, fun c hc' => ?_, hr.prime, fun h => absurd hphase h, nofun⟩
        · exact nomatch hnone.symm.trans hh
        · exact nomatch hc.symm.trans hc'
      · obtain ⟨c, hc⟩ := Option.ne_none_iff_exists'.mp hc
        exact .inr ⟨.inr ⟨hphase, ⟨c, hc, (hr.commit c hc).1⟩, hnone⟩, rfl⟩
    · obtain ⟨-, -, -, heq⟩ := bumpIfNeeded_of_le (r := { r with override := some newH.value }) hle
      rw [heq]
      exact .inl hgood

end ConfirmPrepared

/-! ## Commits -/

/-- The position after the move of `setAcceptCommit` to the CONFIRM phase, and whether it was made. -/
def enterConfirm (r : Position Value) (h : SCPBallot Value) : Position Value × Bool :=
  if r.phase = .SCP_PHASE_PREPARE then
    let confirm : Position Value := { r with phase := .SCP_PHASE_CONFIRM }
    let moved := if r.current.any fun b => !areBallotsLessAndCompatible h b then confirm.bump h else confirm
    ({ moved with preparedPrime := none }, true)
  else (r, false)

/-- The position after `setAcceptCommit` where it did any work. -/
def acceptCommit (r : Position Value) (c h : SCPBallot Value) : Position Value :=
  (Position.bumpIfNeeded
    (Position.enterConfirm
      { r with override := some h.value, commit := some c, high := some h } h).1 h).1

/-- The position after `setConfirmCommit`. -/
def confirmCommit (r : Position Value) (c h : SCPBallot Value) : Position Value :=
  { (Position.bumpIfNeeded { r with commit := some c, high := some h } h).1 with
    phase := .SCP_PHASE_EXTERNALIZE }

section Commit

variable {c h : SCPBallot Value}

/-- From CONFIRM on everything is on the value of the high ballot. -/
theorem Good.values (hr : Good r) (hphase : r.phase ≠ .SCP_PHASE_PREPARE) {v : Value}
    (hhigh : ∀ h, r.high = some h → h.value = v) :
    (∀ b, r.current = some b → b.value = v) ∧ r.commit.map SCPBallot.value = some v := by
  obtain ⟨c, hc⟩ := Option.isSome_iff_exists.mp (hr.phase hphase)
  obtain ⟨h, b, hh, hb, -, -, hcv, hhv⟩ := hr.compatible hc
  refine ⟨fun b' hb' => ?_, ?_⟩
  · obtain rfl := Option.some.inj (hb.symm.trans hb')
    exact hhv.symm.trans (hhigh h hh)
  · rw [hc, Option.map_some, hcv, hhigh h hh]

theorem Good.setOverride (hr : Good r) (v : Value) : Good { r with override := some v } :=
  ⟨hr.high, hr.commit, hr.prime, hr.phase, nofun⟩

theorem Advances.setOverride (r : Position Value) (v : Value) : Advances r { r with override := some v } :=
  ⟨le_rfl, fun _ => le_rfl, le_rfl, fun _ => rfl, nofun⟩

theorem Good.acceptCommit (hr : Good r) (hc : c.counter ≠ 0) (hch : c ≤ h) (hcv : c.value = h.value)
    (hhigh : r.phase ≠ .SCP_PHASE_PREPARE → ∀ h', r.high = some h' → h'.value = h.value) :
    Good (r.acceptCommit c h) := by
  unfold Position.acceptCommit Position.enterConfirm
  split_ifs with hphase hmove
  · have hself : (some h).filter (fun h' => areBallotsCompatible h h') = some h := by
      simp [areBallotsCompatible]
    refine Good.bumpIfNeeded hself (fun b hb => ?_) (fun c' hc' => ?_) (fun _ hp => by cases hp) (fun _ => rfl)
      fun hp => by cases hp
    · obtain rfl := Option.some.inj hb
      rfl
    · obtain rfl := Option.some.inj hc'
      exact ⟨hc, hch, hcv⟩
  · refine Good.bumpIfNeeded rfl (fun b hb => ?_) (fun c' hc' => ?_) (fun _ hp => by cases hp) (fun _ => rfl)
      fun hp => by cases hp
    · by_contra hne
      refine hmove ((Option.any_eq_true _ _).mpr ⟨b, hb, ?_⟩)
      simp [areBallotsLessAndCompatible, areBallotsCompatible, Ne.symm hne]
    · obtain rfl := Option.some.inj hc'
      exact ⟨hc, hch, hcv⟩
  · refine Good.bumpIfNeeded rfl (hr.values hphase (hhigh hphase)).1 (fun c' hc' => ?_) hr.prime
      (fun _ => rfl) fun hp => by cases hp
    obtain rfl := Option.some.inj hc'
    exact ⟨hc, hch, hcv⟩

theorem Advances.acceptCommit (hr : Good r) (hcv : c.value = h.value)
    (hhigh : r.phase ≠ .SCP_PHASE_PREPARE → ∀ h', r.high = some h' → h'.value = h.value) :
    Advances r (r.acceptCommit c h) := by
  refine Advances.trans ?_ (Advances.bumpIfNeeded _ h)
  unfold Position.enterConfirm
  split_ifs with hphase hmove
  · exact Advances.of_prepare hphase nofun le_rfl nofun
  · exact Advances.of_prepare hphase nofun le_rfl nofun
  · refine ⟨le_rfl, fun _ => le_rfl, le_rfl, fun _ => ?_, nofun⟩
    rw [(hr.values hphase (hhigh hphase)).2]
    exact congrArg some hcv

theorem Good.confirmCommit (hr : Good r) (hphase : r.phase ≠ .SCP_PHASE_PREPARE) (hc : c.counter ≠ 0)
    (hch : c ≤ h) (hcv : c.value = h.value) (hhigh : ∀ h', r.high = some h' → h'.value = h.value) :
    Good (r.confirmCommit c h) := by
  have hgood : Good (Position.bumpIfNeeded { r with commit := some c, high := some h } h).1 := by
    refine Good.bumpIfNeeded rfl (hr.values hphase hhigh).1 (fun c' hc' => ?_) hr.prime (fun _ => rfl)
      fun hnone => hphase (hr.free hnone).1
    obtain rfl := Option.some.inj hc'
    exact ⟨hc, hch, hcv⟩
  have hcommit : (Position.bumpIfNeeded { r with commit := some c, high := some h } h).1.commit =
      some c := by
    unfold Position.bumpIfNeeded
    split_ifs <;> rfl
  refine ⟨hgood.high, hgood.commit, hgood.prime, fun _ => ?_, fun hnone => ?_⟩
  · rw [show (r.confirmCommit c h).commit = some c from hcommit]
    rfl
  · exact nomatch hcommit.symm.trans (hgood.free hnone).2.2.1

theorem Advances.confirmCommit (hr : Good r) (hphase : r.phase = .SCP_PHASE_CONFIRM)
    (hcv : c.value = h.value) (hhigh : ∀ h', r.high = some h' → h'.value = h.value) :
    Advances r (r.confirmCommit c h) := by
  have hne : r.phase ≠ .SCP_PHASE_PREPARE := by
    rw [hphase]
    exact nofun
  have hbump := Advances.bumpIfNeeded { r with commit := some c, high := some h } h
  refine ⟨?_, fun heq => ?_, hbump.prepared, fun _ => ?_, hbump.override⟩
  · rw [hphase]
    exact Nat.le_succ 1
  · exact nomatch hphase.symm.trans heq
  · rw [(hr.values hne hhigh).2]
    exact (hbump.commit hne).trans (congrArg some hcv)

end Commit

end Position

end ZaggCore.Scp
