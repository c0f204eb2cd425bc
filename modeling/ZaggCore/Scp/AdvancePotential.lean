import ZaggCore.Scp.PrepareCandidates

/-! # How far a node can advance by itself

What a node can still do without a new statement of another node, as a number. The number is at most 15,
and each step that the node takes on its own statement makes it smaller. -/

namespace ZaggCore.Scp.BallotProtocol
set_option autoImplicit false
set_option maxHeartbeats 250000

variable {X Value : Type} [LinearOrder Value] [Inhabited Value]

/-! ## What the node's own statement says of ballots -/

section OwnStatement

variable {d : BallotDriver X Value} {r r' : Position Value} {x t b : SCPBallot Value}

omit [LinearOrder Value] in
theorem mem_hintBallots_pledgesAt (h : r.phase = .SCP_PHASE_PREPARE) :
    t ∈ hintBallots (pledgesAt d r) ↔ t = r.current.getD ⟨0, default⟩ ∨ r.Top t := by
  rw [pledgesAt_prepare h]
  simp [hintBallots, Position.Top]

theorem mem_candidatesOf_pledgesAt (h : r.phase = .SCP_PHASE_PREPARE) :
    x ∈ candidatesOf t (pledgesAt d r) ↔
      x ∈ hintBallots (pledgesAt d r) ∧ x ≤ t ∧ x.value = t.value := by
  rw [pledgesAt_prepare h, ← areBallotsLessAndCompatible_iff]
  exact List.mem_filter

theorem hasPreparedBallot_pledgesAt (h : r.phase = .SCP_PHASE_PREPARE) :
    hasPreparedBallot x (pledgesAt d r) = true ↔ ∃ t, r.Top t ∧ x ≤ t ∧ x.value = t.value := by
  rw [pledgesAt_prepare h]
  simp only [hasPreparedBallot, Bool.or_eq_true, Option.any_eq_true, areBallotsLessAndCompatible_iff,
    Position.Top, or_and_right, exists_or]

theorem mem_candidatesOf_confirm (h : r.phase = .SCP_PHASE_CONFIRM)
    (hv : t.value = (r.current.getD ⟨0, default⟩).value) :
    x ∈ candidatesOf t (pledgesAt d r) ↔ x = t ∨
      r.prepared.elim 0 SCPBallot.counter < t.counter ∧
        x = ⟨r.prepared.elim 0 SCPBallot.counter, t.value⟩ := by
  rw [pledgesAt_confirm h]
  dsimp only [candidatesOf]
  rw [if_pos ((areBallotsCompatible_iff _ _).mpr hv)]
  split_ifs with hlt <;> simp [hlt]

theorem votesToPrepare_pledgesAt (h : r.phase = .SCP_PHASE_PREPARE) (h' : r'.phase = .SCP_PHASE_PREPARE)
    (hcurrent : r'.current = r.current) :
    votesToPrepare x (pledgesAt d r') = votesToPrepare x (pledgesAt d r) := by
  rw [pledgesAt_prepare h, pledgesAt_prepare h', hcurrent]
  rfl

/-- Above the current ballot the statement names the prepared ballots only. -/
theorem top_of_mem_hintBallots (h : r.phase = .SCP_PHASE_PREPARE) {c : SCPBallot Value}
    (hc : r.current = some c) (hle : c ≤ b) (hlt : b < t) (ht : t ∈ hintBallots (pledgesAt d r)) :
    r.Top t := by
  refine ((mem_hintBallots_pledgesAt h).mp ht).resolve_left fun heq => ?_
  rw [hc] at heq
  exact (hle.trans_lt hlt).ne' heq

end OwnStatement

/-! Of a ballot that may be committed only the value counts. -/

section Compatible

omit [Inhabited Value]

variable {b b' : SCPBallot Value}

theorem areBallotsCompatible_congr (h : b.value = b'.value) (c : SCPBallot Value) :
    areBallotsCompatible b c = areBallotsCompatible b' c := by
  unfold areBallotsCompatible
  rw [h]

theorem commitBoundaries_congr (h : b.value = b'.value) (pledges : BallotPledges Value) :
    commitBoundaries b pledges = commitBoundaries b' pledges := by
  cases pledges <;> simp only [commitBoundaries, areBallotsCompatible_congr h]

theorem votesToCommit_congr (h : b.value = b'.value) (cur : Uint32 × Uint32) :
    votesToCommit b cur = votesToCommit b' cur := by
  funext pledges
  cases pledges <;> simp only [votesToCommit, areBallotsCompatible_congr h]

theorem commitPredicate_congr (h : b.value = b'.value) (cur : Uint32 × Uint32) :
    commitPredicate b cur = commitPredicate b' cur := by
  funext pledges
  cases pledges <;> simp only [commitPredicate, areBallotsCompatible_congr h]

end Compatible

/-! ## What the node may do -/

open Classical in
/-- The number if the condition holds. -/
noncomputable def weight (p : Prop) (n : ℕ) : ℕ := if p then n else 0

section Weight

variable {p q : Prop} {n : ℕ}

theorem weight_of (h : p) : weight p n = n := if_pos h

theorem weight_of_not (h : ¬ p) : weight p n = 0 := if_neg h

theorem weight_le (p : Prop) (n : ℕ) : weight p n ≤ n := by
  unfold weight
  split_ifs
  · exact le_rfl
  · exact Nat.zero_le n

theorem weight_mono (h : p → q) (n : ℕ) : weight p n ≤ weight q n := by
  by_cases hp : p
  · rw [weight_of hp, weight_of (h hp)]
  · rw [weight_of_not hp]
    exact Nat.zero_le _

end Weight

namespace Peers

variable (d : BallotDriver X Value) (w : Peers X Value)

/-- The statement of another node has the candidate. -/
def Offers (t x : SCPBallot Value) : Prop :=
  ∃ e ∈ w.latest, e.statement.nodeID ≠ d.localNodeID ∧ x ∈ candidatesOf t e.statement.pledges

def Candidate (hint : BallotPledges Value) (r : Position Value) (x : SCPBallot Value) : Prop :=
  ∃ t ∈ hintBallots hint, w.Offers d t x ∨ x ∈ candidatesOf t (pledgesAt d r)

/-- `attemptPreparedAccept` may take the ballot. -/
structure Preparable (r : Position Value) (x : SCPBallot Value) : Prop where
  candidate : w.Candidate d (pledgesAt d r) r x
  raises : r.phase = .SCP_PHASE_CONFIRM → ∃ p, r.prepared = some p ∧ p ≤ x ∧ p.value = x.value
  unprepared : ¬ r.Prepared x
  accepted : w.Accepts d r (votesToPrepare x) (hasPreparedBallot x)

/-- `attemptPreparedConfirmed` may take the ballot for `h`. -/
structure Raisable (hint : BallotPledges Value) (r : Position Value) (x : SCPBallot Value) : Prop where
  candidate : w.Candidate d hint r x
  above : ∀ h, r.high = some h → h < x
  ratified : w.Ratifies d r (hasPreparedBallot x)

/-- `attemptAcceptCommit` may raise `h` to the counter. -/
structure Committable (r : Position Value) (h : SCPBallot Value) (n : Uint32) : Prop where
  boundary : ∃ e ∈ w.heard d r, n ∈ commitBoundaries h e.statement.pledges
  above : h.counter < n
  accepted : w.Accepts d r (votesToCommit h (n, n)) (commitPredicate h (n, n))

/-- A ballot can be accepted as prepared. -/
def MayPrepare (r : Position Value) : Prop := ∃ x, w.Preparable d r x

/-- A ballot above the current one is confirmed as prepared. -/
def MayMove (r : Position Value) : Prop :=
  ∃ b x, r.current = some b ∧ b < x ∧ w.Raisable d (pledgesAt d r) r x

/-- The highest ballot that is confirmed as prepared leads to work. -/
def MayRaise (r : Position Value) : Prop :=
  ∃ x, IsGreatest {x | w.Raisable d (pledgesAt d r) r x} x ∧
    ∀ b, r.current = some b → b.value = x.value ∨ b < x

/-- A higher commit can be accepted. -/
def MayCommit (r : Position Value) : Prop := ∃ h n, r.high = some h ∧ w.Committable d r h n

/-- How much a node at the position can still do by itself. -/
noncomputable def potential (r : Position Value) : ℕ :=
  match r.phase with
  | .SCP_PHASE_PREPARE =>
    4 + weight (r.current = none) 8 + weight (w.MayMove d r) 4 + weight (w.MayPrepare d r) 2 +
      weight (w.MayRaise d r) 1
  | .SCP_PHASE_CONFIRM => 1 + weight (w.MayPrepare d r) 1 + weight (w.MayCommit d r) 1
  | .SCP_PHASE_EXTERNALIZE => 0

variable {d w} {r r' r₀ : Position Value}

theorem potential_of_prepare (h : r.phase = .SCP_PHASE_PREPARE) : w.potential d r =
    4 + weight (r.current = none) 8 + weight (w.MayMove d r) 4 + weight (w.MayPrepare d r) 2 +
      weight (w.MayRaise d r) 1 := by
  rw [potential, h]

theorem potential_of_confirm (h : r.phase = .SCP_PHASE_CONFIRM) :
    w.potential d r = 1 + weight (w.MayPrepare d r) 1 + weight (w.MayCommit d r) 1 := by
  rw [potential, h]

theorem potential_of_externalize (h : r.phase = .SCP_PHASE_EXTERNALIZE) : w.potential d r = 0 := by
  rw [potential, h]

theorem potential_confirm_le (h : r.phase = .SCP_PHASE_CONFIRM) : w.potential d r ≤ 3 := by
  rw [potential_of_confirm h]
  have := weight_le (w.MayPrepare d r) 1
  have := weight_le (w.MayCommit d r) 1
  omega

theorem potential_of_not_prepare (h : r.phase ≠ .SCP_PHASE_PREPARE) : w.potential d r ≤ 3 := by
  cases hphase : r.phase with
  | SCP_PHASE_PREPARE => exact absurd hphase h
  | SCP_PHASE_CONFIRM => exact potential_confirm_le hphase
  | SCP_PHASE_EXTERNALIZE =>
    rw [potential_of_externalize hphase]
    exact Nat.zero_le 3

/-- With a current ballot there is less to do than without. -/
theorem potential_of_current (h : r.current ≠ none) : w.potential d r ≤ 11 := by
  by_cases hphase : r.phase = .SCP_PHASE_PREPARE
  · rw [potential_of_prepare hphase, weight_of_not h]
    have := weight_le (w.MayMove d r) 4
    have := weight_le (w.MayPrepare d r) 2
    have := weight_le (w.MayRaise d r) 1
    omega
  · exact (potential_of_not_prepare hphase).trans (by omega)

theorem potential_le (r : Position Value) : w.potential d r ≤ 15 := by
  by_cases h : r.current = none
  · by_cases hphase : r.phase = .SCP_PHASE_PREPARE
    · have hmove : ¬ w.MayMove d r := fun ⟨b, _, hb, _⟩ => by cases h.symm.trans hb
      rw [potential_of_prepare hphase, weight_of_not hmove]
      have := weight_le (r.current = none) 8
      have := weight_le (w.MayPrepare d r) 2
      have := weight_le (w.MayRaise d r) 1
      omega
    · exact (potential_of_not_prepare hphase).trans (by omega)
  · exact (potential_of_current h).trans (by omega)

theorem potential_lt_of_current (hphase : r₀.phase = .SCP_PHASE_PREPARE) (h₀ : r₀.current = none)
    (h : r.current ≠ none) : w.potential d r < w.potential d r₀ := by
  have hle := potential_of_current (d := d) (w := w) h
  rw [potential_of_prepare hphase, weight_of h₀]
  omega

end Peers

end ZaggCore.Scp.BallotProtocol
