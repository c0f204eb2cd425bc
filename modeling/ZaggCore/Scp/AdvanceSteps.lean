import ZaggCore.Scp.AdvancePotential

/-! # What a step leaves to do

Each assignment of the protocol, seen as a step on the node's own statement, leaves less to do than there
was. -/

namespace ZaggCore.Scp
open BallotProtocol
set_option autoImplicit false
set_option maxHeartbeats 250000

variable {X Value : Type} [LinearOrder Value]

/-! ## Confirming a prepared ballot -/

namespace Position

variable {r : Position Value} {newC newH : SCPBallot Value}

theorem confirmPrepared_same (r : Position Value) (newC newH : SCPBallot Value) :
    (r.confirmPrepared newC newH).1.phase = r.phase ∧
      (r.confirmPrepared newC newH).1.prepared = r.prepared ∧
      (r.confirmPrepared newC newH).1.preparedPrime = r.preparedPrime := by
  unfold confirmPrepared raise bumpIfNeeded
  dsimp only
  split_ifs <;> exact ⟨rfl, rfl, rfl⟩

/-- A confirmed ballot above the current one becomes the current one; one that is compatible with it
becomes the high ballot; any other is only remembered. -/
theorem confirmPrepared_cases (newC : SCPBallot Value) (hhigh : ∀ h, r.high = some h → h < newH) :
    ((∀ b, r.current = some b → b < newH) ∧ (r.confirmPrepared newC newH).2 = true ∧
        (r.confirmPrepared newC newH).1.current = some newH) ∨
      (∃ b, r.current = some b ∧ b.value = newH.value ∧ (r.confirmPrepared newC newH).2 = true ∧
        (r.confirmPrepared newC newH).1.current = some b ∧
        (r.confirmPrepared newC newH).1.high = some newH) ∨
      r.confirmPrepared newC newH = ({ r with override := some newH.value }, false) := by
  rcases lt_or_ge (ptr r.current) (ptr (some newH)) with hlt | hle
  · left
    have hcurrent : (raise { r with override := some newH.value } newC newH).1.current = r.current := by
      unfold raise
      split_ifs <;> rfl
    unfold confirmPrepared
    dsimp only
    rw [bumpIfNeeded_of_lt (lt_of_eq_of_lt (congrArg ptr hcurrent) hlt)]
    exact ⟨fun b hb => le_of_ptr_lt hb hlt, rfl, rfl⟩
  · right
    obtain ⟨b, hb, -, -⟩ := bumpIfNeeded_of_le hle
    by_cases hv : b.value = newH.value
    · left
      have hcompatible : r.current.all (fun b => areBallotsCompatible b newH) = true := by
        simpa [hb, areBallotsCompatible] using hv
      have hraised : r.high.all (fun h => decide (compareBallots newH h > 0)) = true :=
        (Option.all_eq_true _ _).mpr fun h hh => decide_eq_true ((compareBallots_gt _ _).mpr (hhigh h hh))
      obtain ⟨b', hb', -, heq⟩ := bumpIfNeeded_of_le (r := { r with
        override := some newH.value, high := some newH,
        commit := if newC.counter ≠ 0 then some newC else r.commit }) hle
      unfold confirmPrepared raise
      dsimp only
      rw [if_pos hcompatible, hraised]
      dsimp only [if_true]
      rw [if_pos rfl, heq]
      exact ⟨b, hb, hv, rfl, hb, rfl⟩
    · right
      rw [confirmPrepared_of_incompatible hb hv]
      obtain ⟨-, -, -, heq⟩ := bumpIfNeeded_of_le (r := { r with override := some newH.value }) hle
      exact heq

theorem bumpIfNeeded_phase (r : Position Value) (h : SCPBallot Value) :
    (r.bumpIfNeeded h).1.phase = r.phase := by
  unfold bumpIfNeeded
  split_ifs <;> rfl

/-- The position after `setPreparedAccept`, which may have cleared `c`. -/
def accept (r : Position Value) (q : SCPBallot Value) (c : Option (SCPBallot Value)) : Position Value :=
  { (r.prepare q).1 with commit := c }

theorem prepare_commit (r : Position Value) (q : SCPBallot Value) :
    (r.prepare q).1.commit = r.commit := by
  unfold prepare
  split
  · rfl
  · split_ifs <;> rfl

theorem accept_commit (r : Position Value) (q : SCPBallot Value) :
    r.accept q r.commit = (r.prepare q).1 := by
  unfold accept
  rw [← prepare_commit r q]

/-- If `c` is cleared after PREPARE the node cannot go on. -/
theorem Good.accept (hr : r.Good) {q : SCPBallot Value} (hq : ¬ r.Prepared q)
    {c : Option (SCPBallot Value)} (hc : c = none ∨ c = r.commit) :
    ((r.accept q c).Good ∧ r.Advances (r.accept q c)) ∨ (r.accept q c).Broken := by
  have hgood : (r.prepare q).1.Good :=
    hr.prepare fun p hp hle => hq (.inr ⟨p, hp, hle⟩)
  obtain rfl | rfl := hc
  · by_cases hphase : (r.prepare q).1.phase = .SCP_PHASE_PREPARE
    · refine .inl ⟨hgood.clearCommit hphase, (Advances.prepare r q).trans ?_⟩
      exact .of_prepare hphase (fun _ => le_rfl) le_rfl id
    · exact .inr (.inl ⟨hphase, rfl⟩)
  · rw [accept_commit]
    exact .inl ⟨hgood, .prepare r q⟩

theorem acceptCommit_phase (c h : SCPBallot Value) (hphase : r.phase ≠ .SCP_PHASE_EXTERNALIZE) :
    (r.acceptCommit c h).phase = .SCP_PHASE_CONFIRM := by
  unfold acceptCommit enterConfirm
  rw [bumpIfNeeded_phase]
  split_ifs with hp
  · rfl
  · rfl
  · show r.phase = .SCP_PHASE_CONFIRM
    cases hcase : r.phase with
    | SCP_PHASE_PREPARE => exact absurd hcase hp
    | SCP_PHASE_CONFIRM => rfl
    | SCP_PHASE_EXTERNALIZE => exact absurd hcase hphase

/-- In the CONFIRM phase only `c`, `h` and the counter of the current ballot change. -/
theorem acceptCommit_confirm (c h : SCPBallot Value) (hphase : r.phase = .SCP_PHASE_CONFIRM) :
    (r.acceptCommit c h).commit = some c ∧ (r.acceptCommit c h).high = some h ∧
      (r.acceptCommit c h).prepared = r.prepared ∧
      (r.acceptCommit c h).preparedPrime = r.preparedPrime ∧
      ((r.acceptCommit c h).current = r.current ∨ (r.acceptCommit c h).current = some h) := by
  have hne : r.phase ≠ .SCP_PHASE_PREPARE := by
    rw [hphase]
    decide
  have hself : (some h).filter (fun h' => areBallotsCompatible h h') = some h := by
    simp [areBallotsCompatible]
  unfold acceptCommit enterConfirm
  rw [if_neg hne]
  unfold bumpIfNeeded
  split_ifs
  · exact ⟨rfl, hself, rfl, rfl, .inr rfl⟩
  · exact ⟨rfl, rfl, rfl, rfl, .inl rfl⟩

/-! ## Positions that follow -/

/-- In the PREPARE phase the current ballot does not go back, and the prepared ballots above it stay. -/
def Later (r r' : Position Value) : Prop :=
  r'.phase = .SCP_PHASE_PREPARE → r.phase = .SCP_PHASE_PREPARE ∧ ∀ b, r.current = some b →
    ∃ b', r'.current = some b' ∧ b ≤ b' ∧ ∀ t, b' < t → (r'.Top t ↔ r.Top t)

theorem Later.trans {r' r'' : Position Value} (h : Later r r') (h' : Later r' r'') : Later r r'' := by
  intro hphase
  obtain ⟨hphase', hlater'⟩ := h' hphase
  obtain ⟨hphase₀, hlater⟩ := h hphase'
  refine ⟨hphase₀, fun b hb => ?_⟩
  obtain ⟨b', hb', hle, htops⟩ := hlater b hb
  obtain ⟨b'', hb'', hle', htops'⟩ := hlater' b' hb'
  exact ⟨b'', hb'', hle.trans hle', fun t ht => (htops' t ht).trans (htops t (hle'.trans_lt ht))⟩

theorem Later.override (r : Position Value) (o : Option Value) : Later r { r with override := o } :=
  fun hphase => ⟨hphase, fun b hb => ⟨b, hb, le_rfl, fun _ _ => Iff.rfl⟩⟩

theorem Later.of_phase {r' : Position Value} (h : r'.phase ≠ .SCP_PHASE_PREPARE) : Later r r' :=
  fun hphase => absurd hphase h

theorem Later.confirmPrepared (newC : SCPBallot Value) (hhigh : ∀ h, r.high = some h → h < newH) :
    Later r (r.confirmPrepared newC newH).1 := by
  obtain ⟨hphase', hp, hp'⟩ := r.confirmPrepared_same newC newH
  intro hphase
  refine ⟨hphase'.symm.trans hphase, fun b hb => ?_⟩
  have htop : ∀ t, (r.confirmPrepared newC newH).1.Top t ↔ r.Top t := by
    intro t
    unfold Top
    rw [hp, hp']
  obtain ⟨hlt, -, hcurrent⟩ | ⟨b', hb', -, -, hcurrent, -⟩ | heq := confirmPrepared_cases newC hhigh
  · exact ⟨newH, hcurrent, (hlt b hb).le, fun t _ => htop t⟩
  · obtain rfl := Option.some.inj (hb.symm.trans hb')
    exact ⟨b, hcurrent, le_rfl, fun t _ => htop t⟩
  · refine ⟨b, ?_, le_rfl, fun t _ => htop t⟩
    rw [heq]
    exact hb

end Position

namespace BallotProtocol

variable [Inhabited Value]

namespace Peers

variable {d : BallotDriver X Value} {w : Peers X Value} {r r' : Position Value}
  {x q t b : SCPBallot Value} {hint : BallotPledges Value}

/-! ## Accepting a prepared ballot -/

section Prepare

variable {c : Option (SCPBallot Value)}

/-- In the PREPARE phase a node can only accept what its current ballot votes for. -/
theorem Preparable.le_current (h : w.Preparable d r x) (hphase : r.phase = .SCP_PHASE_PREPARE) :
    (x ≤ r.current.getD ⟨0, default⟩ ∧ x.value = (r.current.getD ⟨0, default⟩).value) ∧
      (w.Offers d (r.current.getD ⟨0, default⟩) x ∨
        x ∈ candidatesOf (r.current.getD ⟨0, default⟩) (pledgesAt d r)) := by
  obtain ⟨t, ht, hcand⟩ := h.candidate
  have hle : x ≤ t ∧ x.value = t.value := by
    obtain ⟨e, -, -, hx⟩ | hx := hcand
    · exact candidatesOf_le hx
    · exact candidatesOf_le hx
  obtain rfl | htop := (mem_hintBallots_pledgesAt hphase).mp ht
  · exact ⟨hle, hcand⟩
  · exact absurd (htop.prepared hle.1 hle.2) h.unprepared

/-- Nothing that the current ballot votes for is left below the highest that was accepted. -/
theorem not_mayPrepare_prepare (hr : r.Good) (hphase : r.phase = .SCP_PHASE_PREPARE)
    (hq : w.Preparable d r q) (hmax : ∀ x, w.Preparable d r x → x ≤ q) :
    ¬ w.MayPrepare d (r.accept q c) := by
  obtain ⟨hphase', hcurrent, -⟩ := Position.prepare_phase hq.unprepared
  have hphase₁ : (r.accept q c).phase = .SCP_PHASE_PREPARE := hphase'.trans hphase
  have hcurrent₁ : (r.accept q c).current = r.current := hcurrent
  rintro ⟨x, hx⟩
  obtain ⟨⟨-, hv⟩, hcand⟩ := hx.le_current hphase₁
  have htop : ∀ t, (r.accept q c).Top t → x ≤ t → x.value ≠ t.value :=
    fun t ht hxt hxv => hx.unprepared (Position.Top.prepared ht hxt hxv)
  rw [hcurrent₁] at hv hcand
  have hx₀ : w.Preparable d r x := by
    constructor
    · refine ⟨r.current.getD ⟨0, default⟩, (mem_hintBallots_pledgesAt hphase).mpr (.inl rfl), ?_⟩
      refine hcand.imp id fun hown => ?_
      rw [mem_candidatesOf_pledgesAt hphase₁, mem_hintBallots_pledgesAt hphase₁, hcurrent₁] at hown
      rw [mem_candidatesOf_pledgesAt hphase, mem_hintBallots_pledgesAt hphase]
      obtain ⟨rfl | ht, hle⟩ := hown
      · exact ⟨.inl rfl, hle⟩
      · exact absurd rfl (htop x ht le_rfl)
    · exact fun h => absurd (hphase.symm.trans h) (by decide)
    · exact fun h => hx.unprepared (h.prepare hr hq.unprepared)
    · refine hx.accepted.of_own ?_ ?_ (fun hown => ?_) fun hown => ?_
      · rw [hphase₁]
        decide
      · rw [hphase]
        decide
      · obtain ⟨t, ht, hxt, hxv⟩ := (hasPreparedBallot_pledgesAt hphase₁).mp hown
        exact absurd hxv (htop t ht hxt)
      · rwa [votesToPrepare_pledgesAt hphase hphase₁ hcurrent₁] at hown
  have hvalue : x.value = q.value := hv.trans (hq.le_current hphase).1.2.symm
  exact hx.unprepared ((Position.prepared_prepare_self hq.unprepared).mono (hmax x hx₀) hvalue)

/-- In the CONFIRM phase a node raises the counter of `p`, on the value of its current ballot. -/
theorem Preparable.gt_prepared (h : w.Preparable d r x) (hphase : r.phase = .SCP_PHASE_CONFIRM) :
    x.value = (r.current.getD ⟨0, default⟩).value ∧
      (∃ p, r.prepared = some p ∧ p < x ∧ p.value = x.value) ∧
      (w.Offers d ⟨UINT32_MAX, x.value⟩ x ∨ x = ⟨UINT32_MAX, x.value⟩) := by
  obtain ⟨p, hp, hle, hpv⟩ := h.raises hphase
  have hlt : p < x := lt_of_le_of_ne hle fun heq => h.unprepared (.inr ⟨p, hp, heq.ge, hpv.symm⟩)
  obtain ⟨t, ht, hcand⟩ := h.candidate
  have hxt : x ≤ t ∧ x.value = t.value := by
    obtain ⟨e, -, -, hx⟩ | hx := hcand
    · exact candidatesOf_le hx
    · exact candidatesOf_le hx
  have hne : t ≠ p := fun heq => hlt.not_ge (heq ▸ hxt.1)
  rw [pledgesAt_confirm hphase, hp] at ht hcand
  obtain rfl | ht := List.mem_cons.mp ht
  · exact absurd (SCPBallot.mk_counter (hpv.trans hxt.2)) hne
  · obtain rfl := List.mem_singleton.mp ht
    have hv : x.value = (r.current.getD ⟨0, default⟩).value := hxt.2
    refine ⟨hv, ⟨p, hp, hlt, hpv⟩, ?_⟩
    rw [hv]
    refine hcand.imp id fun hown => ?_
    rw [← hp, ← pledgesAt_confirm hphase, mem_candidatesOf_confirm hphase (by rfl)] at hown
    refine hown.resolve_right fun heq => hlt.ne ?_
    rw [heq.2, hp]
    exact (SCPBallot.mk_counter (hpv.trans hv)).symm

theorem Preparable.of_confirm (h : w.Preparable d r' x) (hphase' : r'.phase = .SCP_PHASE_CONFIRM)
    (hphase : r.phase = .SCP_PHASE_CONFIRM)
    (hvalue : (r'.current.getD ⟨0, default⟩).value = (r.current.getD ⟨0, default⟩).value)
    (hraises : ∃ p, r.prepared = some p ∧ p ≤ x ∧ p.value = x.value) (hun : ¬ r.Prepared x) :
    w.Preparable d r x := by
  obtain ⟨hv, ⟨p', hp', hlt, hpv'⟩, hoffers⟩ := h.gt_prepared hphase'
  rw [hvalue] at hv
  refine ⟨⟨⟨UINT32_MAX, x.value⟩, ?_, ?_⟩, fun _ => hraises, hun, ?_⟩
  · rw [pledgesAt_confirm hphase, hv]
    exact List.mem_cons_of_mem _ (List.mem_singleton_self _)
  · refine hoffers.imp id fun hx => ?_
    rw [mem_candidatesOf_confirm hphase (by exact hv)]
    exact .inl hx
  · refine h.accepted.of_own ?_ ?_ (fun hown => ?_) fun hown => ?_
    · rw [hphase']
      decide
    · rw [hphase]
      decide
    · rw [pledgesAt_confirm hphase', hp'] at hown
      obtain ⟨hle, hv'⟩ := (areBallotsLessAndCompatible_iff _ _).mp hown
      have heq := SCPBallot.mk_counter (hpv'.trans hv')
      exact absurd (heq ▸ hle) hlt.not_ge
    · rw [pledgesAt_confirm hphase]
      exact (areBallotsCompatible_iff _ _).mpr hv

theorem not_mayPrepare_raise (hr : r.Good) (hphase : r.phase = .SCP_PHASE_CONFIRM)
    (hq : w.Preparable d r q) (hmax : ∀ x, w.Preparable d r x → x ≤ q) :
    ¬ w.MayPrepare d (r.accept q c) := by
  obtain ⟨hphase', hcurrent, -⟩ := Position.prepare_phase hq.unprepared
  rintro ⟨x, hx⟩
  obtain ⟨-, ⟨q', hq', hlt, hqv⟩, -⟩ := hx.gt_prepared (hphase'.trans hphase)
  obtain ⟨p, hp, hpq, hpv⟩ := hq.raises hphase
  have hne : p ≠ q := fun heq => hq.unprepared (.inr ⟨p, hp, heq.ge, hpv.symm⟩)
  have hprepared : (r.prepare q).1.prepared = some q := by
    obtain ⟨hnone, -⟩ | ⟨p₀, -, -, h⟩ | ⟨p₀, hp₀, hgt, -⟩ := Position.prepare_cases hq.unprepared
    · cases hnone.symm.trans hp
    · rw [h]
    · obtain rfl := Option.some.inj (hp.symm.trans hp₀)
      exact absurd hpq hgt.not_ge
  obtain rfl : q = q' := Option.some.inj (hprepared.symm.trans hq')
  have hx₀ : w.Preparable d r x := by
    refine hx.of_confirm (hphase'.trans hphase) hphase (by rw [← hcurrent]; rfl) ?_ ?_
    · exact ⟨p, hp, hpq.trans hlt.le, hpv.trans hqv⟩
    · exact fun h => hx.unprepared (h.prepare hr hq.unprepared)
  exact (hmax x hx₀).not_gt hlt

end Prepare

/-! ## Raising the commit -/

omit [LinearOrder Value] in
theorem mem_heard {e : SCPEnvelope (BallotPledges Value)} : e ∈ w.heard d r ↔
    e = ⟨statementAt d r, []⟩ ∨ e ∈ w.latest ∧ e.statement.nodeID ≠ d.localNodeID :=
  SortedKeys.mem_insertOrAssign _ w.sorted

/-- Above the high ballot a commit can only be accepted as at a position before. -/
theorem Committable.of_raised {h h' : SCPBallot Value} {n : Uint32} (hr : r.Good)
    (hphase : r.phase = .SCP_PHASE_CONFIRM) (hphase' : r'.phase = .SCP_PHASE_CONFIRM)
    (hh : r.high = some h) (hh' : r'.high = some h') (hv : h'.value = h.value)
    (hle : h.counter ≤ h'.counter) (hlow : r'.commit.elim 0 SCPBallot.counter ≤ h'.counter)
    (hn : w.Committable d r' h' n) : w.Committable d r h n := by
  have habove := hle.trans_lt hn.above
  refine ⟨?_, habove, ?_⟩
  · obtain ⟨e, he, hmem⟩ := hn.boundary
    obtain rfl | he := mem_heard.mp he
    · rw [show SCPStatement.pledges _ = pledgesAt d r' from rfl, pledgesAt_confirm hphase', hh'] at hmem
      dsimp only [commitBoundaries] at hmem
      split_ifs at hmem
      · obtain rfl | hmem := List.mem_cons.mp hmem
        · exact absurd hn.above hlow.not_gt
        · exact absurd (List.mem_singleton.mp hmem) hn.above.ne'
      · cases hmem
    · exact ⟨e, mem_heard.mpr (.inr he), commitBoundaries_congr hv _ ▸ hmem⟩
  · have haccepted := hn.accepted
    rw [votesToCommit_congr hv, commitPredicate_congr hv] at haccepted
    refine haccepted.of_own ?_ ?_ (fun hown => ?_) fun _ => ?_
    · rw [hphase']
      decide
    · rw [hphase]
      decide
    · rw [pledgesAt_confirm hphase', hh'] at hown
      have hnH : n ≤ h'.counter := of_decide_eq_true (Bool.and_eq_true_iff.mp hown).2
      exact absurd hn.above hnH.not_gt
    · obtain ⟨c, hc⟩ := Option.isSome_iff_exists.mp (hr.phase (by rw [hphase]; decide))
      obtain ⟨h₀, b, hh₀, hb, hch, -, -, hhv⟩ := hr.compatible hc
      obtain rfl := Option.some.inj (hh.symm.trans hh₀)
      rw [pledgesAt_confirm hphase, hb, hc]
      refine Bool.and_eq_true_iff.mpr ⟨(areBallotsCompatible_iff _ _).mpr hhv, ?_⟩
      exact decide_eq_true ((SCPBallot.counter_le hch).trans habove.le)

/-! ## Ballots above the current one -/

/-- What one position and hint offer above a ballot is offered by another one with the same prepared
ballots there. -/
theorem Raisable.of_tops {ρ ρ' : Position Value} (hphase : r.phase = .SCP_PHASE_PREPARE)
    (hphase' : r'.phase = .SCP_PHASE_PREPARE) (hρ : ρ.phase = .SCP_PHASE_PREPARE)
    (hρ' : ρ'.phase = .SCP_PHASE_PREPARE) (hcurrent' : ∃ c, r'.current = some c ∧ c ≤ b)
    (hhint' : ∃ c, ρ'.current = some c ∧ c ≤ b) (htops : ∀ t, b < t → r'.Top t → r.Top t)
    (hhints : ∀ t, b < t → ρ'.Top t → ρ.Top t) (habove : ∀ h, r.high = some h → h < x) (hlt : b < x)
    (hx : w.Raisable d (pledgesAt d ρ') r' x) : w.Raisable d (pledgesAt d ρ) r x := by
  obtain ⟨c, hc, hcb⟩ := hcurrent'
  obtain ⟨γ, hγ, hγb⟩ := hhint'
  refine ⟨?_, habove, ?_⟩
  · obtain ⟨t, ht, hcand⟩ := hx.candidate
    have hxt : x ≤ t := by
      obtain ⟨e, -, -, hx⟩ | hx := hcand
      · exact (candidatesOf_le hx).1
      · exact (candidatesOf_le hx).1
    have htop := top_of_mem_hintBallots hρ' hγ hγb (hlt.trans_le hxt) ht
    refine ⟨t, (mem_hintBallots_pledgesAt hρ).mpr (.inr (hhints t (hlt.trans_le hxt) htop)), ?_⟩
    refine hcand.imp id fun hown => ?_
    rw [mem_candidatesOf_pledgesAt hphase'] at hown
    rw [mem_candidatesOf_pledgesAt hphase, mem_hintBallots_pledgesAt hphase]
    exact ⟨.inr (htops x hlt (top_of_mem_hintBallots hphase' hc hcb hlt hown.1)), hown.2⟩
  · refine hx.ratified.of_own ?_ ?_ fun hown => ?_
    · rw [hphase']
      decide
    · rw [hphase]
      decide
    · rw [hasPreparedBallot_pledgesAt hphase'] at hown
      rw [hasPreparedBallot_pledgesAt hphase]
      obtain ⟨t, ht, hxt, hxv⟩ := hown
      exact ⟨t, htops t (hlt.trans_le hxt) ht, hxt, hxv⟩

/-! ## Positions with the same ballots -/

/-- In the PREPARE phase only `c` and `h` differ. -/
structure SameBallots (r r' : Position Value) : Prop where
  phase : r.phase = .SCP_PHASE_PREPARE
  phase' : r'.phase = .SCP_PHASE_PREPARE
  current : r'.current = r.current
  prepared : r'.prepared = r.prepared
  preparedPrime : r'.preparedPrime = r.preparedPrime

section SameBallots

variable (h : SameBallots r r')

include h

omit [LinearOrder Value] [Inhabited Value] in
theorem SameBallots.symm : SameBallots r' r :=
  ⟨h.phase', h.phase, h.current.symm, h.prepared.symm, h.preparedPrime.symm⟩

theorem Candidate.congr (hx : w.Candidate d (pledgesAt d r') r' x) :
    w.Candidate d (pledgesAt d r) r x := by
  obtain ⟨t, ht, hcand⟩ := hx
  rw [pledgesAt_prepare h.phase', h.current, h.prepared, h.preparedPrime] at ht hcand
  rw [Candidate, pledgesAt_prepare h.phase]
  exact ⟨t, ht, hcand⟩

theorem Preparable.congr (hx : w.Preparable d r' x) : w.Preparable d r x := by
  refine ⟨hx.candidate.congr h, fun hc => absurd (h.phase.symm.trans hc) (by decide), ?_, ?_⟩
  · have hun := hx.unprepared
    unfold Position.Prepared at hun ⊢
    rwa [h.prepared, h.preparedPrime] at hun
  · refine hx.accepted.of_own ?_ ?_ ?_ ?_
    · rw [h.phase']
      decide
    · rw [h.phase]
      decide
    · rw [pledgesAt_prepare h.phase', pledgesAt_prepare h.phase, h.prepared, h.preparedPrime]
      exact id
    · rw [votesToPrepare_pledgesAt h.phase h.phase' h.current]
      exact id

theorem Raisable.congr (habove : ∀ h, r.high = some h → h < x)
    (hx : w.Raisable d (pledgesAt d r') r' x) : w.Raisable d (pledgesAt d r) r x := by
  refine ⟨hx.candidate.congr h, habove, hx.ratified.of_own ?_ ?_ ?_⟩
  · rw [h.phase']
    decide
  · rw [h.phase]
    decide
  · rw [pledgesAt_prepare h.phase', pledgesAt_prepare h.phase, h.prepared, h.preparedPrime]
    exact id

end SameBallots

/-! ## What is left after each step -/

section Steps

variable {c : Option (SCPBallot Value)} {r₀ : Position Value} {newC newH : SCPBallot Value}

theorem later_accept (hr : r.Good) (hq : w.Preparable d r q) : r.Later (r.accept q c) := by
  obtain ⟨hphase', hcurrent, -⟩ := Position.prepare_phase hq.unprepared
  intro hphase
  have hphase₀ : r.phase = .SCP_PHASE_PREPARE := hphase'.symm.trans hphase
  refine ⟨hphase₀, fun b hb => ⟨b, hcurrent.trans hb, le_rfl, fun t ht => ?_⟩⟩
  have hle := (hq.le_current hphase₀).1.1
  rw [hb] at hle
  exact Position.top_prepare_iff hr hq.unprepared hle ht

/-- Accepting the highest ballot that can be accepted leaves none of them. -/
theorem potential_accept (hr : r.Good) (hne : r.phase ≠ .SCP_PHASE_EXTERNALIZE)
    (hq : w.Preparable d r q) (hmax : ∀ x, w.Preparable d r x → x ≤ q) (hc : c = none ∨ c = r.commit) :
    w.potential d (r.accept q c) < w.potential d r := by
  obtain ⟨hphase', hcurrent, hhigh⟩ := Position.prepare_phase hq.unprepared
  have hmay : w.MayPrepare d r := ⟨q, hq⟩
  cases hphase : r.phase with
  | SCP_PHASE_PREPARE =>
    have hphase₁ : (r.accept q c).phase = .SCP_PHASE_PREPARE := hphase'.trans hphase
    have hmove : w.MayMove d (r.accept q c) → w.MayMove d r := by
      rintro ⟨b, x, hb, hlt, hx⟩
      have hb₀ : r.current = some b := hcurrent.symm.trans hb
      have hle := (hq.le_current hphase).1.1
      rw [hb₀] at hle
      have htops : ∀ t, b < t → (r.accept q c).Top t → r.Top t :=
        fun t ht => (Position.top_prepare_iff hr hq.unprepared hle ht).mp
      refine ⟨b, x, hb₀, hlt, hx.of_tops hphase hphase₁ hphase hphase₁ ⟨b, hb, le_rfl⟩ ⟨b, hb, le_rfl⟩
        htops htops (fun h hh => ?_) hlt⟩
      exact hx.above h (hhigh.trans hh)
    rw [potential_of_prepare hphase, potential_of_prepare hphase₁,
      show (r.accept q c).current = r.current from hcurrent,
      weight_of_not (not_mayPrepare_prepare hr hphase hq hmax), weight_of hmay]
    have := weight_mono hmove 4
    have := weight_le (w.MayRaise d (r.accept q c)) 1
    omega
  | SCP_PHASE_CONFIRM =>
    have hphase₁ : (r.accept q c).phase = .SCP_PHASE_CONFIRM := hphase'.trans hphase
    have hcommit : w.MayCommit d (r.accept q c) → w.MayCommit d r := by
      rintro ⟨h, n, hh, hn⟩
      have hh₀ : r.high = some h := hhigh.symm.trans hh
      refine ⟨h, n, hh₀, hn.of_raised hr hphase hphase₁ hh₀ hh rfl le_rfl ?_⟩
      obtain rfl | rfl := hc
      · exact Nat.zero_le _
      · obtain ⟨c, hc⟩ := Option.isSome_iff_exists.mp (hr.phase (by rw [hphase]; decide))
        obtain ⟨-, h', hh', hle, -⟩ := hr.commit c hc
        obtain rfl := Option.some.inj (hh₀.symm.trans hh')
        show r.commit.elim 0 SCPBallot.counter ≤ h.counter
        rw [hc]
        exact SCPBallot.counter_le hle
    rw [potential_of_confirm hphase, potential_of_confirm hphase₁,
      weight_of_not (not_mayPrepare_raise hr hphase hq hmax), weight_of hmay]
    have := weight_mono hcommit 1
    omega
  | SCP_PHASE_EXTERNALIZE => exact absurd hphase hne

/-- The position is the one at which the node spoke last, or there is less to do than there was. -/
def Progress (d : BallotDriver X Value) (w : Peers X Value) (r₀ r : Position Value) : Prop :=
  (∃ o, r = { r₀ with override := o }) ∨ w.potential d r < w.potential d r₀

theorem potential_override (r : Position Value) (o : Option Value) :
    w.potential d { r with override := o } = w.potential d r := by
  have hprepare : w.MayPrepare d { r with override := o } ↔ w.MayPrepare d r :=
    exists_congr fun x => ⟨fun h => ⟨h.candidate, h.raises, h.unprepared, h.accepted⟩,
      fun h => ⟨h.candidate, h.raises, h.unprepared, h.accepted⟩⟩
  have hraisable : ∀ x, w.Raisable d (pledgesAt d r) { r with override := o } x ↔
      w.Raisable d (pledgesAt d r) r x :=
    fun x => ⟨fun h => ⟨h.candidate, h.above, h.ratified⟩, fun h => ⟨h.candidate, h.above, h.ratified⟩⟩
  have hmove : w.MayMove d { r with override := o } ↔ w.MayMove d r :=
    exists_congr fun b => exists_congr fun x => and_congr_right fun _ => and_congr_right fun _ =>
      hraisable x
  have hraise : w.MayRaise d { r with override := o } ↔ w.MayRaise d r := by
    have hset : {x | w.Raisable d (pledgesAt d r) { r with override := o } x} =
        {x | w.Raisable d (pledgesAt d r) r x} := Set.ext hraisable
    exact exists_congr fun x => and_congr_left fun _ => hset ▸ Iff.rfl
  have hcommit : w.MayCommit d { r with override := o } ↔ w.MayCommit d r :=
    exists_congr fun h => exists_congr fun n => and_congr_right fun _ =>
      ⟨fun h => ⟨h.boundary, h.above, h.accepted⟩, fun h => ⟨h.boundary, h.above, h.accepted⟩⟩
  unfold potential
  dsimp only
  rw [hprepare, hmove, hraise, hcommit]

theorem Progress.potential_le (h : w.Progress d r₀ r) : w.potential d r ≤ w.potential d r₀ := by
  obtain ⟨o, rfl⟩ | hlt := h
  · exact (potential_override r₀ o).le
  · exact hlt.le

/-- A step from the position at which the node spoke last, or from one at which less is left to do. -/
theorem Progress.lt (h : w.Progress d r₀ r) (hr' : w.potential d r' < w.potential d r) :
    w.potential d r' < w.potential d r₀ :=
  hr'.trans_le h.potential_le

section ConfirmPrepared

variable (hphase : r.phase = .SCP_PHASE_PREPARE) (hlater : r₀.Later r)
  (hgreatest : IsGreatest {x | w.Raisable d (pledgesAt d r₀) r x} newH)

include hphase hlater hgreatest

/-- Nothing above the new current ballot is left. -/
theorem potential_confirmPrepared_move (hlt : ∀ b, r.current = some b → b < newH)
    (hcurrent : (r.confirmPrepared newC newH).1.current = some newH) (hprogress : w.Progress d r₀ r) :
    w.potential d (r.confirmPrepared newC newH).1 < w.potential d r₀ := by
  obtain ⟨hphase', hp, hp'⟩ := r.confirmPrepared_same newC newH
  obtain ⟨hphase₀, hlater⟩ := hlater hphase
  have hsome : (r.confirmPrepared newC newH).1.current ≠ none := by
    rw [hcurrent]
    exact Option.some_ne_none newH
  cases hb₀ : r₀.current with
  | none => exact potential_lt_of_current hphase₀ hb₀ hsome
  | some b₀ =>
    obtain ⟨b, hb, hle, htops⟩ := hlater b₀ hb₀
    have hlt := hlt b hb
    have hphase₁ := hphase'.trans hphase
    have htop : ∀ t, (r.confirmPrepared newC newH).1.Top t → r.Top t := by
      intro t
      unfold Position.Top
      rw [hp, hp']
      exact id
    have hmove : w.MayMove d r := by
      refine ⟨b, newH, hb, hlt, hgreatest.1.of_tops hphase hphase hphase hphase₀ ⟨b, hb, le_rfl⟩
        ⟨b₀, hb₀, hle⟩ (fun _ _ => id) (fun t ht => (htops t ht).mpr) hgreatest.1.above hlt⟩
    have hnot : ¬ w.MayMove d (r.confirmPrepared newC newH).1 := by
      rintro ⟨b₁, x, hb₁, hxlt, hx⟩
      obtain rfl := Option.some.inj (hcurrent.symm.trans hb₁)
      have hx₀ : w.Raisable d (pledgesAt d r₀) r x := by
        refine hx.of_tops hphase hphase₁ hphase₀ hphase₁ ⟨newH, hcurrent, le_rfl⟩
          ⟨newH, hcurrent, le_rfl⟩ (fun t _ => htop t)
          (fun t ht h => (htops t (hlt.trans ht)).mp (htop t h)) (fun h hh => ?_) hxlt
        exact (hgreatest.1.above h hh).trans hxlt
      exact (hgreatest.2 hx₀).not_gt hxlt
    refine hprogress.lt ?_
    rw [potential_of_prepare hphase, potential_of_prepare hphase₁, weight_of hmove, weight_of_not hnot,
      weight_of_not hsome]
    have := weight_le (w.MayPrepare d (r.confirmPrepared newC newH).1) 2
    have := weight_le (w.MayRaise d (r.confirmPrepared newC newH).1) 1
    omega

/-- With a higher high ballot the current ballot and what is prepared stay as they are. -/
theorem potential_confirmPrepared_raise (hr : r.Good) (hb : r.current = some b)
    (hv : b.value = newH.value) (hcurrent : (r.confirmPrepared newC newH).1.current = some b)
    (hhigh : (r.confirmPrepared newC newH).1.high = some newH) (hprogress : w.Progress d r₀ r) :
    w.potential d (r.confirmPrepared newC newH).1 < w.potential d r₀ := by
  obtain ⟨hphase', hp, hp'⟩ := r.confirmPrepared_same newC newH
  have hsame : SameBallots r (r.confirmPrepared newC newH).1 :=
    ⟨hphase, hphase'.trans hphase, hcurrent.trans hb.symm, hp, hp'⟩
  have hprepare : w.MayPrepare d (r.confirmPrepared newC newH).1 → w.MayPrepare d r :=
    fun ⟨x, hx⟩ => ⟨x, hx.congr hsame⟩
  have habove : ∀ x, newH < x → ∀ h, r.high = some h → h < x :=
    fun x hx h hh => (hgreatest.1.above h hh).trans hx
  have hmove : w.MayMove d (r.confirmPrepared newC newH).1 → w.MayMove d r := by
    rintro ⟨b₁, x, hb₁, hlt, hx⟩
    exact ⟨b₁, x, hsame.current.symm.trans hb₁, hlt, hx.congr hsame (habove x (hx.above newH hhigh))⟩
  have hraise : w.MayRaise d (r.confirmPrepared newC newH).1 → w.MayRaise d r := by
    rintro ⟨x, ⟨hx, hmax⟩, hwork⟩
    have hlt := hx.above newH hhigh
    refine ⟨x, ⟨hx.congr hsame (habove x hlt), fun y hy => ?_⟩, hsame.current ▸ hwork⟩
    rcases le_or_gt y newH with hle | hgt
    · exact hle.trans hlt.le
    · refine hmax (Raisable.congr hsame.symm (fun h hh => ?_) hy)
      exact Option.some.inj (hhigh.symm.trans hh) ▸ hgt
  have hpotential : w.potential d (r.confirmPrepared newC newH).1 =
      4 + weight (r.current = none) 8 + weight (w.MayMove d (r.confirmPrepared newC newH).1) 4 +
        weight (w.MayPrepare d (r.confirmPrepared newC newH).1) 2 +
        weight (w.MayRaise d (r.confirmPrepared newC newH).1) 1 := by
    rw [potential_of_prepare hsame.phase', hsame.current]
  have hweights := And.intro (weight_mono hmove 4) (And.intro (weight_mono hprepare 2)
    (weight_mono hraise 1))
  obtain ⟨o, rfl⟩ | hlt := hprogress
  · -- the hint is the node's own statement: no higher ballot is left
    have hmay : w.MayRaise d { r₀ with override := o } :=
      ⟨newH, hgreatest, fun b' hb' => .inl (Option.some.inj (hb.symm.trans hb') ▸ hv)⟩
    have hnot : ¬ w.MayRaise d (Position.confirmPrepared { r₀ with override := o } newC newH).1 := by
      rintro ⟨x, ⟨hx, -⟩, -⟩
      have hlt := hx.above newH hhigh
      exact (hgreatest.2 (hx.congr hsame (habove x hlt))).not_gt hlt
    rw [← potential_override r₀ o, hpotential, potential_of_prepare hphase, weight_of hmay,
      weight_of_not hnot]
    omega
  · refine lt_of_le_of_lt ?_ hlt
    rw [hpotential, potential_of_prepare hphase]
    omega

/-- Where it does any work, `setPreparedConfirmed` leaves less to do. -/
theorem potential_confirmPrepared (hr : r.Good) (hwork : (r.confirmPrepared newC newH).2 = true)
    (hprogress : w.Progress d r₀ r) :
    w.potential d (r.confirmPrepared newC newH).1 < w.potential d r₀ := by
  obtain ⟨hlt, -, hcurrent⟩ | ⟨b, hb, hv, -, hcurrent, hhigh⟩ | heq :=
    Position.confirmPrepared_cases newC hgreatest.1.above
  · exact potential_confirmPrepared_move hphase hlater hgreatest hlt hcurrent hprogress
  · exact potential_confirmPrepared_raise hphase hlater hgreatest hr hb hv hcurrent hhigh hprogress
  · rw [heq] at hwork
    cases hwork

end ConfirmPrepared

/-! A commit that is accepted ends the PREPARE phase, and in the CONFIRM phase no higher one is left. -/

section AcceptCommit

variable {c h h₀ : SCPBallot Value}

theorem potential_acceptCommit_prepare (hphase : r.phase = .SCP_PHASE_PREPARE) :
    w.potential d (r.acceptCommit c h) < w.potential d r := by
  have hphase' : (r.acceptCommit c h).phase = .SCP_PHASE_CONFIRM :=
    Position.acceptCommit_phase c h (by rw [hphase]; decide)
  have hle := potential_confirm_le (d := d) (w := w) hphase'
  rw [potential_of_prepare hphase]
  omega

theorem potential_acceptCommit_confirm (hr : r.Good) (hphase : r.phase = .SCP_PHASE_CONFIRM)
    (hh : r.high = some h₀) (hv : h.value = h₀.value) (hch : c.counter ≤ h.counter)
    (hgreatest : IsGreatest {n | w.Committable d r h₀ n} h.counter) :
    w.potential d (r.acceptCommit c h) < w.potential d r := by
  obtain ⟨hcommit, hhigh, hp, hp', hcurrent⟩ := Position.acceptCommit_confirm c h hphase
  have hphase' : (r.acceptCommit c h).phase = .SCP_PHASE_CONFIRM :=
    Position.acceptCommit_phase c h (by rw [hphase]; decide)
  have hvalue : ((r.acceptCommit c h).current.getD ⟨0, default⟩).value =
      (r.current.getD ⟨0, default⟩).value := by
    obtain ⟨b, hb, -, hbv⟩ := hr.high h₀ hh
    obtain hcurrent | hcurrent := hcurrent
    · rw [hcurrent]
    · rw [hcurrent, hb]
      exact hv.trans hbv
  have hprepare : w.MayPrepare d (r.acceptCommit c h) → w.MayPrepare d r := by
    rintro ⟨x, hx⟩
    refine ⟨x, hx.of_confirm hphase' hphase hvalue (hp ▸ hx.raises hphase') ?_⟩
    have hun := hx.unprepared
    unfold Position.Prepared at hun ⊢
    rwa [hp, hp'] at hun
  have hnot : ¬ w.MayCommit d (r.acceptCommit c h) := by
    rintro ⟨h₁, n, hh₁, hn⟩
    obtain rfl := Option.some.inj (hhigh.symm.trans hh₁)
    have hlow : (r.acceptCommit c h).commit.elim 0 SCPBallot.counter ≤ h.counter := by
      rw [hcommit]
      exact hch
    have hn₀ := hn.of_raised hr hphase hphase' hh hhigh hv hgreatest.1.above.le hlow
    exact (hgreatest.2 hn₀).not_gt hn.above
  have hmay : w.MayCommit d r := ⟨h₀, h.counter, hh, hgreatest.1⟩
  rw [potential_of_confirm hphase, potential_of_confirm hphase', weight_of hmay, weight_of_not hnot]
  have := weight_mono hprepare 1
  omega

theorem potential_confirmCommit (hphase : r.phase = .SCP_PHASE_CONFIRM) :
    w.potential d (r.confirmCommit c h) < w.potential d r := by
  rw [potential_of_externalize (r := r.confirmCommit c h) rfl, potential_of_confirm hphase]
  omega

end AcceptCommit

end Steps

end Peers

end BallotProtocol

end ZaggCore.Scp
