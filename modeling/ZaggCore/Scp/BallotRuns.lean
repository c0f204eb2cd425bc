import ZaggCore.Scp.BallotMessages
import ZaggCore.Foundations.Runs

/-! # Runs of the ballot protocol

As long as no step throws, the position of the node stays good and advances, and each statement that it
records for itself or sends is newer than the one before. Where the assignments of one function leave a
position that is not good, the emission that follows throws. -/

namespace ZaggCore.Scp.BallotProtocol
open Foundations
set_option autoImplicit false
set_option maxHeartbeats 250000

variable {X Value : Type} [LinearOrder Value]

/-! ## Statements of a position -/

/-- What `createPledges` says of the position. -/
def PledgesOf [Inhabited Value] (r : Position Value) : BallotPledges Value → Prop
  | .prepare _ b p p' nC nH =>
    r.phase = .SCP_PHASE_PREPARE ∧ b = r.current.getD ⟨0, default⟩ ∧ p = r.prepared ∧
      p' = r.preparedPrime ∧ nC = r.commit.elim 0 SCPBallot.counter ∧
      nH = r.high.elim 0 SCPBallot.counter
  | .confirm b nPrepared nC nH _ =>
    r.phase = .SCP_PHASE_CONFIRM ∧ r.current = some b ∧
      r.prepared.map SCPBallot.counter = some nPrepared ∧
      r.commit.map SCPBallot.counter = some nC ∧ r.high.map SCPBallot.counter = some nH
  | .externalize c nH _ =>
    r.phase = .SCP_PHASE_EXTERNALIZE ∧ r.commit = some c ∧ r.high.map SCPBallot.counter = some nH

section Describes

variable [Inhabited Value] {r : Position Value} {st : BallotPledges Value}

theorem PledgesOf.wellFormed (h : PledgesOf r st) (hr : r.Good) : WellFormed st := by
  cases st with
  | prepare _ b p p' nC nH =>
    obtain ⟨-, rfl, rfl, rfl, rfl, rfl⟩ := h
    refine ⟨hr.prime, ?_, ?_⟩
    · cases hh : r.high with
      | none => exact Nat.zero_le _
      | some high =>
        obtain ⟨b, hb, hle, -⟩ := hr.high high hh
        rw [hb]
        exact SCPBallot.counter_le hle
    · cases hc : r.commit with
      | none => exact Nat.zero_le _
      | some c =>
        obtain ⟨-, high, hh, hle, -⟩ := hr.commit c hc
        rw [hh]
        exact SCPBallot.counter_le hle
  | confirm b nPrepared nC nH _ =>
    obtain ⟨-, hb, -, hnC, hnH⟩ := h
    obtain ⟨c, hc, rfl⟩ := Option.map_eq_some_iff.mp hnC
    obtain ⟨high, hh, rfl⟩ := Option.map_eq_some_iff.mp hnH
    obtain ⟨high', b', hh', hb', hch, hhb, -⟩ := hr.compatible hc
    obtain rfl := Option.some.inj (hh.symm.trans hh')
    obtain rfl := Option.some.inj (hb.symm.trans hb')
    exact ⟨(hr.commit c hc).1, SCPBallot.counter_le hch, SCPBallot.counter_le hhb⟩
  | externalize c nH _ =>
    obtain ⟨-, hc, hnH⟩ := h
    obtain ⟨high, hh, rfl⟩ := Option.map_eq_some_iff.mp hnH
    obtain ⟨h0, high', hh', hch, -⟩ := hr.commit c hc
    obtain rfl := Option.some.inj (hh.symm.trans hh')
    exact ⟨h0, SCPBallot.counter_le hch⟩

omit [LinearOrder Value] in
theorem PledgesOf.commitsNothing (h : PledgesOf r st) (hphase : r.phase = .SCP_PHASE_PREPARE)
    (hc : r.commit = none) : CommitsNothing st := by
  cases st with
  | prepare =>
    obtain ⟨-, -, -, -, rfl, -⟩ := h
    rw [hc]
    rfl
  | confirm => exact nomatch hphase.symm.trans h.1
  | externalize => exact nomatch hphase.symm.trans h.1

/-- A broken position has no sane statement. -/
theorem PledgesOf.insane (h : PledgesOf r st) (hr : r.Broken) : isPledgesSane true st = false := by
  obtain ⟨hphase, hc⟩ | ⟨hphase, ⟨c, hc, h0⟩, hh⟩ := hr
  · cases st with
    | prepare => exact absurd h.1 hphase
    | confirm =>
      obtain ⟨-, -, -, hnC, -⟩ := h
      simp [hc] at hnC
    | externalize => exact nomatch hc.symm.trans h.2.1
  · cases st with
    | prepare =>
      obtain ⟨-, -, -, -, rfl, rfl⟩ := h
      simp [isPledgesSane, hc, hh, h0]
    | confirm => exact nomatch hphase.symm.trans h.1
    | externalize => exact nomatch hphase.symm.trans h.1

/-- The statement that the node makes at the position. -/
structure Describes (d : BallotDriver X Value) (r : Position Value)
    (st : SCPStatement (BallotPledges Value)) : Prop where
  nodeID : st.nodeID = d.localNodeID
  slotIndex : st.slotIndex = d.slotIndex
  quorumSetHash : getCompanionQuorumSetHashFromStatement st.pledges = d.quorumSetHash
  pledges : PledgesOf r st.pledges

theorem Describes.fits {d : BallotDriver X Value} {st : SCPStatement (BallotPledges Value)}
    (h : Describes d r st) (hr : r.Good) : Fits d r st where
  nodeID := h.nodeID
  slotIndex := h.slotIndex
  quorumSetHash := h.quorumSetHash
  wellFormed := h.pledges.wellFormed hr
  free hnone := h.pledges.commitsNothing (hr.free hnone).1 (hr.free hnone).2.2.1

end Describes

/-! ## Sound states -/

/-- The position is good and not behind `r₀`, and what was recorded and sent goes forward. -/
structure Sound (d : BallotDriver X Value) (r₀ : Position Value) (s : BallotProtocol X Value) : Prop where
  good : s.position.Good
  advances : r₀.Advances s.position
  sent : Sent d s.position s.messages

/-- The state is sound, or work was done to a broken position, so that an emission follows. -/
def Pending (d : BallotDriver X Value) (r₀ : Position Value) (didWork : Bool) (s : BallotProtocol X Value) :
    Prop :=
  Sound d r₀ s ∨ didWork = true ∧ s.position.Broken ∧ ∃ r, Sent d r s.messages

section Sound

variable {d : BallotDriver X Value} {r₀ r : Position Value} {s s' : BallotProtocol X Value}

theorem Sound.refl (h : Sound d r₀ s) : Sound d s.position s :=
  ⟨h.good, .refl _, h.sent⟩

theorem Sound.trans (h : Sound d r₀ s) (h' : Sound d s.position s') :
    Sound d r₀ s' :=
  ⟨h'.good, h.advances.trans h'.advances, h'.sent⟩

/-- The position advances and the messages stay. -/
theorem Sound.move (h : Sound d r₀ s) (hs' : At r s.messages s') (hgood : r.Good)
    (hr : s.position.Advances r) : Sound d r₀ s' := by
  obtain ⟨rfl, hm⟩ := hs'
  exact ⟨hgood, h.advances.trans hr, hm ▸ h.sent.advance hr⟩

theorem Sound.stay (h : Sound d r₀ s) (hs' : At s.position s.messages s') :
    Sound d r₀ s' :=
  h.move hs' h.good (.refl _)

end Sound

/-- A program that leaves a sound state sound. -/
def Keeps {α : Type} (d : BallotDriver X Value) (x : Ballot X Value α) : Prop :=
  ∀ r₀, Partial (Sound d r₀) x fun _ => Sound d r₀

section Keeps

variable {α β : Type} {d : BallotDriver X Value} {x : Ballot X Value α}

theorem Neutral.keeps (hx : Neutral x) : Keeps d x :=
  fun _ s hs => (hx.returns s.position s.messages s ⟨rfl, rfl⟩).imp (fun _ _ h => hs.stay h) fun _ _ h => h

theorem keeps_pure (a : α) : Keeps d (pure a : Ballot X Value α) := (neutral_pure a).keeps

theorem Keeps.bind {f : α → Ballot X Value β} (hx : Keeps d x)
    (hf : ∀ a, Keeps d (f a)) : Keeps d (x >>= f) :=
  fun r₀ => (hx r₀).bind fun a => hf a r₀

theorem Keeps.onlyIf {c : Prop} [Decidable c] {x : Ballot X Value Unit} (hx : Keeps d x) :
    Keeps d (onlyIf c x) :=
  fun r₀ => Triple.onlyIf (fun _ => hx r₀) fun _ _ h => h

theorem Keeps.discard (hx : Keeps d x) : Keeps d (discard x) :=
  fun r₀ => Triple.map _ (hx r₀)

/-- A program that begins by looking at its state may use that the state is sound. -/
theorem keeps_get_bind {f : BallotProtocol X Value → Ballot X Value α}
    (hf : ∀ r₀ s, Sound d r₀ s → Partial (· = s) (f s) fun _ => Sound d r₀) :
    Keeps d (get >>= f) :=
  fun r₀ => Triple.get_bind fun s hs => hf r₀ s hs

omit [LinearOrder Value] in
theorem Triple.of_at {s : BallotProtocol X Value} {Q : α → BallotProtocol X Value → Prop}
    (h : Partial (At s.position s.messages) x Q) : Partial (· = s) x Q :=
  h.pre fun _ hs => hs ▸ ⟨rfl, rfl⟩

theorem Keeps.of_eq {r₀ : Position Value} {s : BallotProtocol X Value} (hx : Keeps d x)
    (hs : Sound d r₀ s) : Partial (· = s) x fun _ => Sound d r₀ :=
  (hx r₀).pre fun _ h => h ▸ hs

end Keeps

/-! ## Emission -/

variable (d : BallotDriver X Value)

theorem keeps_sendLatestEnvelope : Keeps d (sendLatestEnvelope d) := by
  refine keeps_get_bind fun r₀ s hs => ?_
  cases hlast : s.mLastEnvelope with
  | none => exact (keeps_pure ()).of_eq hs
  | some env =>
    refine Triple.onlyIf (fun hc => ?_) fun _ _ h => h ▸ hs
    refine Triple.bind (Q := fun _ => Sound d r₀) (Triple.modify fun s' hs' => ?_) fun _ =>
      (neutral_call _).keeps r₀
    subst hs'
    exact ⟨hs.good, hs.advances, hs.sent.emit hlast hc.2.2⟩

variable [Inhabited Value]

omit [LinearOrder Value] in
theorem triple_createPledges {r : Position Value} {m : Messages Value} (s : BallotProtocol X Value)
    (hs : s.position = r) : Partial (At r m) (createPledges d s r.phase) fun pledges s' =>
      At r m s' ∧ getCompanionQuorumSetHashFromStatement pledges = d.quorumSetHash ∧
        PledgesOf r pledges := by
  subst hs
  cases hphase : s.position.phase with
  | SCP_PHASE_PREPARE => exact Triple.pure fun _ h => ⟨h, rfl, hphase, rfl, rfl, rfl, rfl, rfl⟩
  | SCP_PHASE_CONFIRM =>
    refine (triple_deref _ s.mCurrentBallot).bind fun b => Triple.assume fun hb => ?_
    refine (triple_deref _ s.mPrepared).bind fun p => Triple.assume fun hp => ?_
    refine (triple_deref _ s.mCommit).bind fun c => Triple.assume fun hc => ?_
    refine (triple_deref _ s.mHighBallot).bind fun h => Triple.assume fun hh => ?_
    exact Triple.pure fun _ hs' => ⟨hs', rfl, hphase, hb, congrArg (Option.map _) hp,
      congrArg (Option.map _) hc, congrArg (Option.map _) hh⟩
  | SCP_PHASE_EXTERNALIZE =>
    refine (triple_deref _ s.mCommit).bind fun c => Triple.assume fun hc => ?_
    refine (triple_deref _ s.mHighBallot).bind fun h => Triple.assume fun hh => ?_
    exact Triple.pure fun _ hs' => ⟨hs', rfl, hphase, hc, congrArg (Option.map _) hh⟩

theorem triple_createStatement (r : Position Value) (m : Messages Value) :
    Partial (At r m) (createStatement d r.phase) fun st s =>
      At r m s ∧ Describes d r st := by
  refine Triple.bind ((neutral_checkInvariants d).returns r m) fun _ => Triple.get_bind fun s hs => ?_
  refine Triple.pre (P := At r m) ?_ fun _ h => h ▸ hs
  refine (triple_createPledges d s hs.1).bind fun pledges => ?_
  exact Triple.pure fun _ h => ⟨h.1, rfl, rfl, h.2.1, h.2.2⟩

/-- What the caller may rely on: the state stays sound if the node's own statements are marked as such,
and an insane statement is invalid and changes nothing. -/
structure ProcessSpec (process : SCPEnvelope (BallotPledges Value) → Bool → Ballot X Value EnvelopeState) :
    Prop where
  keeps : ∀ envelope self, (envelope.statement.nodeID = d.localNodeID → self = true) →
    Keeps d (process envelope self)
  insane : ∀ envelope self, isPledgesSane self envelope.statement.pledges = false →
    ∀ P : BallotProtocol X Value → Prop,
      Partial P (process envelope self) fun result _ => result = .INVALID

variable {d} {process : SCPEnvelope (BallotPledges Value) → Bool → Ballot X Value EnvelopeState}

omit [Inhabited Value] in
theorem triple_updateLastEnvelope (canEmit : Bool) {envelope : SCPEnvelope (BallotPledges Value)}
    {r₀ r : Position Value} (hfits : Fits d r envelope.statement) (hr : r₀.Advances r) :
    Partial (Sound d r) (updateLastEnvelope d canEmit envelope) fun _ =>
      Sound d r₀ := by
  refine Triple.get_bind fun s hs => ?_
  have hs₀ : Sound d r₀ s := ⟨hs.good, hr.trans hs.advances, hs.sent⟩
  refine Triple.onlyIf (fun hc => ?_) fun _ _ h => h ▸ hs₀
  refine Triple.bind (Q := fun _ => Sound d r₀) (Triple.modify fun s' hs' => ?_) fun _ =>
    keeps_sendLatestEnvelope d r₀
  subst hs'
  refine ⟨hs.good, hs₀.advances, hs.sent.setLast (hfits.mono hs.advances) fun last hlast => ?_⟩
  exact (Option.all_eq_true _ _).mp hc.2 last hlast

/-- From a broken position the emission throws. -/
theorem triple_emit (hprocess : ProcessSpec d process) (r₀ : Position Value) :
    Partial (Pending d r₀ true) (emitCurrentStateStatement d process) fun _ =>
      Sound d r₀ := by
  refine Triple.get_bind fun s hs => Triple.pre (P := At s.position s.messages) ?_
    fun _ h => h ▸ ⟨rfl, rfl⟩
  refine (triple_createStatement d s.position s.messages).bind fun st => ?_
  refine Triple.assume fun hdescribes => ?_
  refine Triple.bind (Q := fun envelope s' => At s.position s.messages s' ∧ envelope.statement = st)
    ?_ fun envelope => Triple.assume fun henv => ?_
  · exact ((neutral_call _).returns s.position s.messages).bind fun _ => Triple.pure fun _ h => ⟨h, rfl⟩
  subst henv
  obtain hsound | ⟨-, hbroken, r, hsent⟩ := hs
  · refine Triple.onlyIf (fun _ => ?_) fun _ _ h => hsound.stay h
    have hfits := hdescribes.fits hsound.good
    refine Triple.bind (Q := fun _ => Sound d s.position) ?_ fun result => ?_
    · exact (hprocess.keeps envelope true (fun _ => rfl) s.position).pre fun _ h => hsound.refl.stay h
    · exact Triple.ite (fun _ => triple_updateLastEnvelope _ hfits hsound.advances)
        fun _ => Partial.throw
  · have hinsane := hdescribes.pledges.insane hbroken
    refine Triple.onlyIf (fun _ => ?_) fun hfind => ?_
    · refine (hprocess.insane envelope true hinsane _).bind fun result => ?_
      refine Triple.ite (fun hvalid => ?_) fun _ => Partial.throw
      exact fun _ hinvalid => nomatch hvalid.symm.trans hinvalid
    · have hsane := hsent.sane envelope (not_not.mp hfind)
      exact nomatch hinsane.symm.trans hsane

theorem keeps_emit (hprocess : ProcessSpec d process) :
    Keeps d (emitCurrentStateStatement d process) :=
  fun r₀ => (triple_emit hprocess r₀).pre fun _ h => .inl h

/-! ## Bumping -/

omit [Inhabited Value] in
theorem triple_bump {r₀ : Position Value} {s : BallotProtocol X Value} (hs : Sound d r₀ s)
    {ballot : SCPBallot Value} (hlt : ptr s.mCurrentBallot < ptr (some ballot))
    (hcommit : ∀ c, s.mCommit = some c → c.value = ballot.value)
    (hcounter : s.mCurrentBallot = none → ballot.counter ≠ 0) :
    Partial (At s.position s.messages) (bumpToBallot d ballot true) fun _ =>
      Sound d r₀ := by
  refine (triple_bumpToBallot d ballot true).post fun _ s' hs' => ?_
  refine hs.move hs' (hs.good.bump hlt hcommit fun hnone => ?_) (Position.Advances.bump hlt)
  cases hb : s.mCurrentBallot with
  | none => exact hcounter hb
  | some b =>
    intro h0
    have hle := SCPBallot.counter_le (Position.le_of_ptr_lt (r := s.position) hb hlt).le
    rw [h0] at hle
    exact (hs.good.free hnone).2.2.2 b hb (nonpos_iff_eq_zero.mp hle)

omit [Inhabited Value] in
/-- The current ballot only moves to a higher one that is compatible with `c`. -/
theorem triple_updateCurrentValue (ballot : SCPBallot Value) (r₀ : Position Value) :
    Partial (fun s => Sound d r₀ s ∧ (s.mCurrentBallot = none → ballot.counter ≠ 0))
      (updateCurrentValue d ballot) fun _ => Sound d r₀ := by
  have hcheck : ∀ updated : Bool, Keeps d (do checkInvariants d; return updated) :=
    fun updated => ((neutral_checkInvariants d).bind fun _ => neutral_pure updated).keeps
  refine Triple.get_bind fun s hs => Triple.of_at (Triple.ite (fun _ => ?_) fun hphase => ?_)
  · exact Triple.pure fun _ h => hs.1.stay h
  cases hb : s.mCurrentBallot with
  | none =>
    have hnone : s.mCommit = none := by
      by_contra hne
      obtain ⟨c, hc⟩ := Option.ne_none_iff_exists'.mp hne
      obtain ⟨-, b, -, hb', -⟩ := hs.1.good.compatible hc
      exact nomatch hb.symm.trans hb'
    refine (triple_bump hs.1 ?_ ?_ hs.2).bind fun _ => hcheck true r₀
    · rw [hb]
      exact WithBot.bot_lt_coe ballot
    · exact fun c hc => nomatch hnone.symm.trans hc
  | some b =>
    refine Triple.get_bind fun s' hs' => Triple.pre (P := At s.position s.messages) ?_ fun _ h => h ▸ hs'
    have hcommit : s'.mCommit = s.mCommit := congrArg Position.commit hs'.1
    rw [hcommit]
    refine Triple.bind ((neutral_dbgAssert d _ _).returns _ _) fun _ => ?_
    refine Triple.ite (fun _ => Triple.pure fun _ h => hs.1.stay h) fun hany => ?_
    refine Triple.ite (fun hlt => ?_) fun _ => ?_
    · refine (triple_bump hs.1 ?_ (fun c hc => ?_) hs.2).bind fun _ => hcheck true r₀
      · rw [hb]
        exact WithBot.coe_lt_coe.mpr ((compareBallots_lt b ballot).mp hlt)
      · by_contra hne
        exact hany ((Option.any_eq_true _ _).mpr ⟨c, hc, by simpa [areBallotsCompatible] using hne⟩)
    · refine Triple.ite (fun _ => Triple.pure fun _ h => hs.1.stay h) fun _ => ?_
      exact (hcheck false r₀).pre fun _ h => hs.1.stay h

omit [Inhabited Value] in
theorem triple_bumpBallot (value : Value) (n : Uint32) (r₀ : Position Value) :
    Partial (fun s => Sound d r₀ s ∧ (s.mCurrentBallot = none → n ≠ 0))
      (bumpBallot d value n) fun _ => Sound d r₀ := by
  refine Triple.get_bind fun s hs => Triple.ite (fun _ => ?_) fun _ => ?_
  · exact (keeps_pure false).of_eq hs.1
  · exact (triple_updateCurrentValue _ r₀).pre fun _ h => h ▸ hs

theorem triple_bumpStateTo (hprocess : ProcessSpec d process) (value : Value) (n : Uint32)
    (r₀ : Position Value) :
    Partial (fun s => Sound d r₀ s ∧ (s.mCurrentBallot = none → n ≠ 0))
      (bumpStateTo d process value n) fun _ => Sound d r₀ := by
  refine (triple_bumpBallot value n r₀).bind fun updated => ?_
  refine Keeps.bind (Keeps.onlyIf ?_) (fun _ => keeps_pure updated) r₀
  exact (keeps_emit hprocess).bind fun _ => (neutral_checkHeardFromQuorum d).keeps

theorem keeps_bumpState (hprocess : ProcessSpec d process) (value : Value) (force : Bool) :
    Keeps d (bumpState d process value force) := by
  refine keeps_get_bind fun r₀ s hs => ?_
  cases hb : s.mCurrentBallot with
  | none => exact (triple_bumpStateTo hprocess value 1 r₀).pre fun _ h => ⟨h ▸ hs, fun _ => by decide⟩
  | some b =>
    refine Triple.ite (fun _ => ?_) fun _ => (keeps_pure false).of_eq hs
    refine (triple_bumpStateTo hprocess value (b.counter + 1) r₀).pre fun _ h => ⟨h ▸ hs, ?_⟩
    subst h
    exact fun hnone => nomatch hb.symm.trans hnone

theorem keeps_abandonBallot (hprocess : ProcessSpec d process) (n : Uint32) :
    Keeps d (abandonBallot d process n) := by
  refine keeps_get_bind fun r₀ s hs => Triple.ite (fun _ => (keeps_pure false).of_eq hs) fun _ => ?_
  refine Triple.ite (fun _ => (keeps_bumpState hprocess _ true).of_eq hs) fun hn => ?_
  exact (triple_bumpStateTo hprocess _ n r₀).pre fun _ h => ⟨h ▸ hs, fun _ => hn⟩

theorem keeps_attemptBump (hprocess : ProcessSpec d process) :
    Keeps d (attemptBump d process) := by
  refine keeps_get_bind fun r₀ s hs => Triple.ite (fun _ => (keeps_pure false).of_eq hs) fun _ => ?_
  dsimp only
  split
  · exact (keeps_pure false).of_eq hs
  · exact (keeps_abandonBallot hprocess _).of_eq hs

theorem keeps_bumpAll (hprocess : ProcessSpec d process) (fuel : ℕ) :
    Keeps d (bumpAll d process fuel) := by
  induction fuel with
  | zero => exact fun _ => Partial.throw
  | succ fuel ih =>
    refine (keeps_attemptBump hprocess).bind fun didBump r₀ => ?_
    exact Triple.ite (fun _ => ih.bind (fun _ => keeps_pure true) r₀) fun _ => keeps_pure false r₀

theorem keeps_bumpAtTop (hprocess : ProcessSpec d process) (fuel : ℕ) :
    Keeps d (bumpAtTop d process fuel) := by
  refine keeps_get_bind fun r₀ s hs => Triple.ite (fun _ => ?_) fun _ => (keeps_pure false).of_eq hs
  exact ((keeps_bumpAll hprocess fuel).bind fun didBump =>
    ((neutral_checkHeardFromQuorum d).bind fun _ => neutral_pure didBump).keeps).of_eq hs

/-! ## Prepared ballots -/

omit [Inhabited Value] in
theorem triple_clearCommit (r₀ : Position Value) :
    Partial (Sound d r₀) (clearCommit d) fun cleared =>
      Pending d r₀ cleared := by
  refine Triple.get_bind fun s hs => Triple.of_at (Triple.ite (fun _ => ?_) fun _ => ?_)
  · refine Triple.bind ((neutral_dbgAssert d _ _).returns _ _) fun _ => ?_
    refine Triple.bind (Q := fun _ => Pending d r₀ true) (Triple.modify fun s' hs' => ?_)
      fun _ => Triple.pure fun _ h => h
    have hcleared : At { s.position with commit := none } s.messages { s' with mCommit := none } :=
      ⟨hs'.1 ▸ rfl, hs'.2⟩
    by_cases hphase : s.position.phase = .SCP_PHASE_PREPARE
    · exact .inl (hs.move hcleared (hs.good.clearCommit hphase)
        (.of_prepare hphase (fun _ => le_rfl) le_rfl id))
    · exact .inr ⟨rfl, hcleared.1 ▸ .inl ⟨hphase, rfl⟩, s.position, hcleared.2 ▸ hs.sent⟩
  · exact Triple.pure fun _ h => .inl (hs.stay h)

/-- The end of a function that emits if it did any work. -/
theorem triple_emitAfter (hprocess : ProcessSpec d process) {before : Ballot X Value Unit}
    (hbefore : Neutral before) (r₀ : Position Value) (didWork : Bool) :
    Partial (Pending d r₀ didWork)
      (do onlyIf didWork (do before; emitCurrentStateStatement d process); return didWork)
      fun _ => Sound d r₀ := by
  refine Triple.bind (Q := fun _ => Sound d r₀) ?_ fun _ => Triple.pure fun _ h => h
  refine Triple.onlyIf (fun hwork => ?_) fun hwork s hs => ?_
  · refine Triple.bind (Q := fun _ => Pending d r₀ true) (fun s hs => ?_) fun _ =>
      triple_emit hprocess r₀
    refine (hbefore.returns s.position s.messages s ⟨rfl, rfl⟩).imp (fun _ s' hs' => ?_) fun _ _ h => h
    obtain ⟨hr, hm⟩ := hs'
    obtain hsound | ⟨-, hbroken, r, hsent⟩ := hs
    · exact .inl (hsound.stay ⟨hr, hm⟩)
    · exact .inr ⟨rfl, hr ▸ hbroken, r, hm ▸ hsent⟩
  · exact hs.resolve_right fun h => hwork h.1

theorem triple_setPreparedAccept (hprocess : ProcessSpec d process) {ballot : SCPBallot Value}
    {r₀ : Position Value} {s : BallotProtocol X Value} (hs : Sound d r₀ s)
    (hnew : ¬ s.alreadyPrepared ballot) :
    Partial (· = s) (setPreparedAccept d process ballot) fun _ => Sound d r₀ := by
  have hgood : (s.position.prepare ballot).1.Good := by
    refine hs.good.prepare fun p hp hle => hnew ?_
    unfold alreadyPrepared
    rw [Bool.or_eq_true]
    exact .inr ((Option.any_eq_true _ _).mpr
      ⟨p, hp, (areBallotsLessAndCompatible_iff ballot p).mpr hle⟩)
  have hprepared : ∀ s', At (s.position.prepare ballot).1 s.messages s' → Sound d r₀ s' :=
    fun s' hs' => hs.move hs' hgood (.prepare _ ballot)
  refine (Triple.of_at (triple_setPrepared ballot)).bind fun prepared => ?_
  refine ((triple_clearCommit r₀).pre fun s' hs' => hprepared s' hs'.1).bind fun cleared => ?_
  refine (triple_emitAfter hprocess (neutral_call _) r₀ (prepared || cleared)).pre fun s' hs' => ?_
  exact hs'.imp id fun h => ⟨by simp [h.1], h.2⟩

omit [Inhabited Value] in
theorem neutral_cannotRaisePrepared (ballot : SCPBallot Value) :
    Neutral (cannotRaisePrepared d ballot) := by
  refine Neutral.get_bind fun s r m => Triple.ite (fun _ => ?_) fun _ => neutral_pure false r m
  refine (neutral_deref s.mPrepared r m).bind fun p => ?_
  refine Triple.ite (fun _ => neutral_pure true r m) fun _ => ?_
  exact (neutral_dbgAssert d _ _ r m).bind fun _ => neutral_pure false r m

theorem keeps_acceptPrepared (hprocess : ProcessSpec d process) (candidates : List (SCPBallot Value)) :
    Keeps d (acceptPrepared d process candidates) := by
  induction candidates with
  | nil => exact keeps_pure false
  | cons ballot candidates ih =>
    refine (neutral_cannotRaisePrepared ballot).keeps.bind fun skip => keeps_get_bind fun r₀ s hs => ?_
    refine Triple.ite (fun _ => ih.of_eq hs) fun hc => Triple.ite (fun _ => ?_) fun _ => ih.of_eq hs
    exact triple_setPreparedAccept hprocess hs fun h => hc (.inr h)

theorem keeps_attemptPreparedAccept (hprocess : ProcessSpec d process) (hint : BallotPledges Value) :
    Keeps d (attemptPreparedAccept d process hint) := by
  refine keeps_get_bind fun r₀ s hs => Triple.ite (fun _ => (keeps_pure false).of_eq hs) fun _ => ?_
  exact (keeps_acceptPrepared hprocess _).of_eq hs

/-! ## Confirmed prepared ballots -/

omit [Inhabited Value] in
/-- The new high ballot is above the old one. -/
theorem findNewH_gt {s : BallotProtocol X Value} {candidates rest : List (SCPBallot Value)}
    {newH : SCPBallot Value} (hfind : s.findNewH d candidates = some (newH, rest)) :
    ∀ h, s.mHighBallot = some h → h < newH := by
  induction candidates with
  | nil => exact nomatch hfind
  | cons ballot candidates ih =>
    rw [findNewH] at hfind
    split_ifs at hfind with hhigh hratify
    · intro h hh
      obtain rfl : ballot = newH := congrArg Prod.fst (Option.some.inj hfind)
      rw [hh] at hhigh
      simpa [compareBallots_ge] using hhigh
    · exact ih hfind

omit [Inhabited Value] in
/-- The new commit ballot is compatible with the new high ballot and not above it. -/
theorem findNewC_le (s : BallotProtocol X Value) (b newH newC : SCPBallot Value)
    (candidates : List (SCPBallot Value))
    (hnewC : newC.counter ≠ 0 → newC ≤ newH ∧ newC.value = newH.value) :
    (s.findNewC d b newH newC candidates).counter ≠ 0 →
      s.findNewC d b newH newC candidates ≤ newH ∧
        (s.findNewC d b newH newC candidates).value = newH.value := by
  induction candidates generalizing newC with
  | nil => exact hnewC
  | cons ballot candidates ih =>
    rw [findNewC]
    split_ifs with hlt hcompatible hratify
    · exact hnewC
    · exact ih newC hnewC
    · refine ih ballot fun _ => (areBallotsLessAndCompatible_iff ballot newH).mp ?_
      simpa using hcompatible
    · exact hnewC

omit [Inhabited Value] in
theorem triple_raiseHigh {r : Position Value} {m : Messages Value} (newC newH : SCPBallot Value) :
    Partial (At r m) (raiseHigh d newC newH) fun didWork s =>
      At (r.raise newC newH).1 m s ∧ didWork = (r.raise newC newH).2 := by
  refine Triple.get_bind fun s hs => Triple.pre (P := At r m) ?_ fun _ h => h ▸ hs
  obtain ⟨rfl, rfl⟩ := hs
  unfold Position.raise
  refine Triple.ite (fun hc => ?_) fun hc => ?_
  · rw [if_pos (show s.position.current.all _ = true from hc)]
    dsimp only
    generalize hraised : s.position.high.all (fun h => decide (compareBallots newH h > 0)) = raised
    rw [show s.mHighBallot.all _ = raised from hraised]
    refine Triple.bind (Q := fun _ => At
      { s.position with high := if raised then some newH else s.position.high } s.messages)
      (Triple.modify fun s' hs' => ?_) fun _ => ?_
    · exact ⟨congrArg (fun r : Position Value =>
        { r with high := if raised then some newH else r.high }) hs'.1, hs'.2⟩
    refine Triple.bind (Q := fun _ => At
      { s.position with
        high := if raised then some newH else s.position.high
        commit := if newC.counter ≠ 0 then some newC else s.position.commit } s.messages) ?_ fun _ => ?_
    · refine Triple.onlyIf (fun h0 => ?_) fun h0 s' hs' => ?_
      · refine Triple.bind ((neutral_dbgAssert d _ _).returns _ _) fun _ => Triple.modify fun s' hs' => ?_
        rw [if_pos h0]
        exact ⟨congrArg (fun r : Position Value => { r with commit := some newC }) hs'.1, hs'.2⟩
      · rw [if_neg h0]
        exact hs'
    · refine Triple.bind ((Neutral.onlyIf (neutral_call _)).returns _ _) fun _ => ?_
      exact Triple.pure fun _ hs' => ⟨hs', rfl⟩
  · rw [if_neg (show ¬ s.position.current.all _ = true from hc)]
    exact Triple.pure fun _ hs' => ⟨hs', rfl⟩

theorem triple_setPreparedConfirmed (hprocess : ProcessSpec d process) {newC newH : SCPBallot Value}
    {r₀ : Position Value} {s : BallotProtocol X Value} (hs : Sound d r₀ s)
    (hphase : s.mPhase = .SCP_PHASE_PREPARE) (hhigh : ∀ h, s.mHighBallot = some h → h < newH)
    (hnewC : newC.counter ≠ 0 → newC ≤ newH ∧ newC.value = newH.value) :
    Partial (· = s) (setPreparedConfirmed d process newC newH) fun _ => Sound d r₀ := by
  refine Triple.of_at (Triple.bind (Q := fun _ => At
    { s.position with override := some newH.value } s.messages) (Triple.modify fun s' hs' => ?_)
    fun _ => ?_)
  · exact ⟨congrArg (fun r : Position Value => { r with override := some newH.value }) hs'.1, hs'.2⟩
  refine (triple_raiseHigh newC newH).bind fun raised => Triple.assume fun hraised => ?_
  refine (triple_updateCurrentIfNeeded d newH).bind fun bumped => Triple.assume fun hbumped => ?_
  have hwork : (bumped || raised) = (s.position.confirmPrepared newC newH).2 := by
    rw [hbumped, hraised]
    rfl
  refine (triple_emitAfter hprocess (neutral_pure ()) r₀ (bumped || raised)).pre fun s' hs' => ?_
  have hadvances : s.position.Advances (s.position.confirmPrepared newC newH).1 :=
    .confirmPrepared hphase hhigh
  obtain hgood | ⟨hbroken, htrue⟩ := hs.good.confirmPrepared hphase hhigh hnewC
  · exact .inl (hs.move hs' hgood hadvances)
  · exact .inr ⟨hwork.trans htrue, hs'.1 ▸ hbroken, s.position, hs'.2 ▸ hs.sent⟩

theorem keeps_attemptPreparedConfirmed (hprocess : ProcessSpec d process)
    (hint : BallotPledges Value) :
    Keeps d (attemptPreparedConfirmed d process hint) := by
  refine keeps_get_bind fun r₀ s hs => Triple.ite (fun _ => (keeps_pure false).of_eq hs) fun hc => ?_
  cases hfind : s.findNewH d (s.getPrepareCandidates hint) with
  | none => exact (keeps_pure false).of_eq hs
  | some found =>
    obtain ⟨newH, candidates⟩ := found
    push Not at hc
    refine triple_setPreparedConfirmed hprocess hs hc.1 (findNewH_gt hfind) ?_
    split_ifs
    · exact findNewC_le s _ newH _ candidates fun h0 => absurd rfl h0
    · exact fun h0 => absurd rfl h0

/-! ## Commits -/

/-- The interval that was found is not reversed. -/
theorem findExtendedInterval_le (pred : Uint32 × Uint32 → Bool) (candidate : Uint32 × Uint32)
    (boundaries : List Uint32) (h : candidate.1 ≤ candidate.2) :
    (findExtendedInterval pred candidate boundaries).1 ≤
      (findExtendedInterval pred candidate boundaries).2 := by
  induction boundaries generalizing candidate with
  | nil => exact h
  | cons b boundaries ih =>
    rw [findExtendedInterval]
    split_ifs with h0 hpred hgt hpred
    · exact ih (b, b) le_rfl
    · exact ih candidate h
    · exact ih candidate h
    · exact ih (b, candidate.2) (not_lt.mp hgt)
    · exact h

omit [Inhabited Value] in
theorem ballot_le (v : Value) {n m : Uint32} (h : n ≤ m) :
    (⟨n, v⟩ : SCPBallot Value) ≤ ⟨m, v⟩ :=
  (SCPBallot.le_iff_counter (show (⟨n, v⟩ : SCPBallot Value).value = (⟨m, v⟩ : SCPBallot Value).value
    from rfl)).mpr h

omit [Inhabited Value] in
theorem eq_some_of_compareBallots {o : Option (SCPBallot Value)} {b : SCPBallot Value}
    (h : ¬ o.all (fun b' => decide (compareBallots b' b ≠ 0)) = true) : o = some b := by
  cases o with
  | none => exact absurd rfl h
  | some b' =>
    have heq : compareBallots b' b = 0 := by simpa using h
    exact congrArg some ((compareBallots_eq b' b).mp heq)

omit [Inhabited Value] in
theorem triple_assignCommit {r : Position Value} {m : Messages Value} (c h : SCPBallot Value) :
    Partial (At r m) (assignCommit c h : Ballot X Value Bool) fun assigned s =>
      At { r with commit := some c, high := some h } m s ∧
        (assigned = false → r.commit = some c ∧ r.high = some h) := by
  refine Triple.get_bind fun s hs => Triple.pre (P := At r m) ?_ fun _ h => h ▸ hs
  obtain ⟨rfl, rfl⟩ := hs
  refine Triple.ite (fun _ => ?_) fun hc => ?_
  · refine Triple.bind (Q := fun _ => At { s.position with commit := some c, high := some h }
      s.messages) (Triple.modify fun s' hs' => ?_) fun _ => Triple.pure fun _ hs' => ⟨hs', nofun⟩
    exact ⟨congrArg (fun r : Position Value => { r with commit := some c, high := some h }) hs'.1,
      hs'.2⟩
  · obtain ⟨hhigh, hcommit⟩ := not_or.mp hc
    have hhigh : s.position.high = some h := eq_some_of_compareBallots hhigh
    have hcommit : s.position.commit = some c := eq_some_of_compareBallots hcommit
    refine Triple.pure fun s' hs' => ⟨?_, fun _ => ⟨hcommit, hhigh⟩⟩
    rw [← hhigh, ← hcommit]
    exact hs'

omit [Inhabited Value] in
theorem enterConfirm_of_false {r : Position Value} {h : SCPBallot Value}
    (hfalse : (r.enterConfirm h).2 = false) : (r.enterConfirm h).1 = r := by
  unfold Position.enterConfirm at hfalse ⊢
  split_ifs at hfalse ⊢
  rfl

omit [Inhabited Value] in
theorem enterConfirm_high {r : Position Value} {h : SCPBallot Value} (hhigh : r.high = some h) :
    (r.enterConfirm h).1.high = some h := by
  unfold Position.enterConfirm
  split_ifs
  · exact Position.bump_high.mpr ⟨hhigh, rfl⟩
  · exact hhigh
  · exact hhigh

omit [Inhabited Value] in
theorem triple_enterConfirm {r : Position Value} {m : Messages Value} (h : SCPBallot Value) :
    Partial (At r m) (enterConfirm d h) fun entered s =>
      At (r.enterConfirm h).1 m s ∧ entered = (r.enterConfirm h).2 := by
  refine Triple.get_bind fun s hs => Triple.pre (P := At r m) ?_ fun _ h => h ▸ hs
  obtain ⟨rfl, rfl⟩ := hs
  unfold Position.enterConfirm
  refine Triple.ite (fun hc => ?_) fun hc => ?_
  · rw [if_pos (show s.position.phase = .SCP_PHASE_PREPARE from hc)]
    refine Triple.bind (Q := fun _ => At { s.position with phase := .SCP_PHASE_CONFIRM } s.messages)
      (Triple.modify fun s' hs' => ?_) fun _ => ?_
    · exact ⟨congrArg (fun r : Position Value => { r with phase := .SCP_PHASE_CONFIRM }) hs'.1, hs'.2⟩
    refine Triple.bind (Q := fun _ => At
      (if s.position.current.any fun b => !areBallotsLessAndCompatible h b then
        Position.bump { s.position with phase := .SCP_PHASE_CONFIRM } h
      else { s.position with phase := .SCP_PHASE_CONFIRM }) s.messages) ?_ fun _ => ?_
    · refine Triple.onlyIf (fun hmove => ?_) fun hmove s' hs' => ?_
      · rw [if_pos (show s.position.current.any _ = true from hmove)]
        exact triple_bumpToBallot d h false
      · rw [if_neg (show ¬ s.position.current.any _ = true from hmove)]
        exact hs'
    · refine Triple.bind (Triple.modify fun s' hs' => ?_) fun _ => Triple.pure fun _ h => h
      exact ⟨⟨congrArg (fun r : Position Value => { r with preparedPrime := none }) hs'.1, hs'.2⟩, rfl⟩
  · rw [if_neg (show ¬ s.position.phase = .SCP_PHASE_PREPARE from hc)]
    exact Triple.pure fun _ hs' => ⟨hs', rfl⟩

theorem triple_setAcceptCommit (hprocess : ProcessSpec d process) {c h : SCPBallot Value}
    {r₀ : Position Value} {s : BallotProtocol X Value} (hs : Sound d r₀ s)
    (hc : c.counter ≠ 0) (hch : c ≤ h) (hcv : c.value = h.value)
    (hhigh : s.mPhase ≠ .SCP_PHASE_PREPARE → ∀ h', s.mHighBallot = some h' → h'.value = h.value) :
    Partial (At s.position s.messages) (setAcceptCommit d process c h) fun _ =>
      Sound d r₀ := by
  refine Triple.bind (Q := fun _ => At { s.position with override := some h.value } s.messages)
    (Triple.modify fun s' hs' => ?_) fun _ => ?_
  · exact ⟨congrArg (fun r : Position Value => { r with override := some h.value }) hs'.1, hs'.2⟩
  refine (triple_assignCommit c h).bind fun assigned => Triple.assume fun hassigned => ?_
  refine (triple_enterConfirm h).bind fun entered => Triple.assume fun hentered => ?_
  refine Triple.bind (Q := fun _ => Sound d r₀) ?_ fun _ => Triple.pure fun _ h => h
  refine Triple.onlyIf (fun _ => ?_) fun hwork s' hs' => ?_
  · refine Triple.get_bind fun s₁ hs₁ => ?_
    refine Triple.pre (P := At _ s.messages) ?_ fun _ h => h ▸ hs₁
    refine (triple_deref _ s₁.mHighBallot).bind fun high => Triple.assume fun hderef => ?_
    have hhigh₁ : s₁.mHighBallot = some h :=
      (congrArg Position.high hs₁.1).trans (enterConfirm_high rfl)
    obtain rfl : high = h := Option.some.inj (hderef.symm.trans hhigh₁)
    refine (triple_updateCurrentIfNeeded d high).bind fun _ => ?_
    refine Triple.bind (Q := fun _ => Sound d r₀) (fun s' hs' => ?_) fun _ =>
      keeps_emit hprocess r₀
    refine ((neutral_call _).returns _ _ s' hs'.1).imp (fun _ s'' hs'' => ?_) fun _ _ h => h
    exact hs.move hs'' (hs.good.acceptCommit hc hch hcv hhigh) (.acceptCommit hs.good hcv hhigh)
  · obtain ⟨hnone, hnot⟩ : assigned = false ∧ entered = false := by simpa using hwork
    obtain ⟨hcommit, hhigh⟩ := hassigned hnone
    rw [enterConfirm_of_false (hentered.symm.trans hnot), ← hcommit, ← hhigh] at hs'
    exact hs.move hs' (hs.good.setOverride h.value) (.setOverride _ h.value)

omit [Inhabited Value] in
theorem triple_mayRaiseConfirm {r : Position Value} {m : Messages Value} (ballot : SCPBallot Value) :
    Partial (At r m) (mayRaiseConfirm ballot : Ballot X Value Bool) fun mayRaise s =>
      At r m s ∧ (mayRaise = true → r.phase = .SCP_PHASE_CONFIRM →
        ∀ h, r.high = some h → h.value = ballot.value) := by
  refine Triple.get_bind fun s hs => Triple.pre (P := At r m) ?_ fun _ h => h ▸ hs
  obtain ⟨rfl, rfl⟩ := hs
  refine Triple.ite (fun _ => ?_) fun hphase => ?_
  · refine (triple_deref _ s.mHighBallot).bind fun h => Triple.assume fun hh => ?_
    refine Triple.pure fun s' hs' => ⟨hs', fun hcompatible _ h' hh' => ?_⟩
    obtain rfl : h = h' := Option.some.inj (hh.symm.trans hh')
    exact ((areBallotsCompatible_iff ballot h).mp hcompatible).symm
  · exact Triple.pure fun s' hs' => ⟨hs', fun _ hc => absurd hc hphase⟩

theorem keeps_attemptAcceptCommit (hprocess : ProcessSpec d process) (hint : BallotPledges Value) :
    Keeps d (attemptAcceptCommit d process hint) := by
  refine keeps_get_bind fun r₀ s hs => Triple.ite (fun _ => (keeps_pure false).of_eq hs) fun hphase => ?_
  cases hintToAcceptCommit hint with
  | none => exact (keeps_pure false).of_eq hs
  | some ballot =>
    refine (Triple.of_at (triple_mayRaiseConfirm ballot)).bind fun mayRaise => ?_
    refine Triple.assume fun hmay => Triple.ite (fun htrue => ?_) fun _ => ?_
    · refine Triple.get_bind fun s' hs' => Triple.pre (P := At s.position s.messages) ?_
        fun _ h => h ▸ hs'
      refine Triple.ite (fun hc => ?_) fun _ => Triple.pure fun _ h => hs.stay h
      refine triple_setAcceptCommit hprocess hs hc.1
        (ballot_le ballot.value (findExtendedInterval_le _ _ _ le_rfl)) rfl fun hne => hmay htrue ?_
      show s.mPhase = .SCP_PHASE_CONFIRM
      cases hp : s.mPhase with
      | SCP_PHASE_PREPARE => exact absurd hp hne
      | SCP_PHASE_CONFIRM => rfl
      | SCP_PHASE_EXTERNALIZE => exact absurd hp hphase
    · exact Triple.pure fun _ h => hs.stay h

theorem triple_setConfirmCommit (hprocess : ProcessSpec d process) {c h : SCPBallot Value}
    {r₀ : Position Value} {s : BallotProtocol X Value} (hs : Sound d r₀ s)
    (hphase : s.mPhase = .SCP_PHASE_CONFIRM) (hc : c.counter ≠ 0) (hch : c ≤ h)
    (hcv : c.value = h.value) (hhigh : ∀ h', s.mHighBallot = some h' → h'.value = h.value) :
    Partial (· = s) (setConfirmCommit d process c h) fun _ => Sound d r₀ := by
  have hne : s.position.phase ≠ .SCP_PHASE_PREPARE := by
    rw [show s.position.phase = .SCP_PHASE_CONFIRM from hphase]
    exact nofun
  refine Triple.of_at (Triple.bind (Q := fun _ => At
    { s.position with commit := some c, high := some h } s.messages) (Triple.modify fun s' hs' => ?_)
    fun _ => ?_)
  · exact ⟨congrArg (fun r : Position Value => { r with commit := some c, high := some h }) hs'.1,
      hs'.2⟩
  refine (triple_updateCurrentIfNeeded d h).bind fun _ => ?_
  refine Triple.bind (Q := fun _ => Sound d r₀) (Triple.modify fun s' hs' => ?_) fun _ => ?_
  · have hat : At (s.position.confirmCommit c h) s.messages
        { s' with mPhase := .SCP_PHASE_EXTERNALIZE } :=
      ⟨congrArg (fun r : Position Value => { r with phase := .SCP_PHASE_EXTERNALIZE }) hs'.1.1,
        hs'.1.2⟩
    exact hs.move hat (hs.good.confirmCommit hne hc hch hcv hhigh)
      (.confirmCommit hs.good hphase hcv hhigh)
  · refine ((keeps_emit hprocess).bind fun _ => Neutral.keeps ?_) r₀
    refine (neutral_call _).bind fun _ => Neutral.get_bind fun s' => ?_
    exact (neutral_deref _).bind fun c => (neutral_call _).bind fun _ => neutral_pure true

theorem keeps_attemptConfirmCommit (hprocess : ProcessSpec d process) (hint : BallotPledges Value) :
    Keeps d (attemptConfirmCommit d process hint) := by
  refine keeps_get_bind fun r₀ s hs => Triple.ite (fun _ => (keeps_pure false).of_eq hs) fun hc => ?_
  push Not at hc
  cases hintToConfirmCommit hint with
  | none => exact (keeps_pure false).of_eq hs
  | some ballot =>
    refine Triple.ite (fun hfound => ?_) fun _ => (keeps_pure false).of_eq hs
    refine triple_setConfirmCommit hprocess hs hc.1 hfound.2
      (ballot_le ballot.value (findExtendedInterval_le _ _ _ le_rfl)) rfl fun h' hh' => ?_
    obtain ⟨c, hcommit, hcompatible⟩ := (Option.any_eq_true _ _).mp hfound.1
    obtain ⟨h, -, hh, -, -, -, hcv, -⟩ := hs.good.compatible hcommit
    obtain rfl : h = h' := Option.some.inj (hh.symm.trans hh')
    exact hcv.symm.trans ((areBallotsCompatible_iff ballot c).mp hcompatible).symm

/-! ## Envelopes -/

theorem keeps_advanceSlot (hprocess : ProcessSpec d process) (fuel : ℕ) (hint : BallotPledges Value) :
    Keeps d (advanceSlot d process fuel hint) := by
  refine Keeps.bind (Neutral.keeps fun _ _ => Triple.modify fun _ h => h) fun _ => ?_
  refine keeps_get_bind fun r₀ s hs => Triple.pre (P := Sound d r₀) ?_ fun _ h => h ▸ hs
  refine Keeps.bind (Keeps.onlyIf fun _ => Partial.throw) (fun _ => ?_) r₀
  refine (keeps_attemptPreparedAccept hprocess hint).bind fun _ => ?_
  refine (keeps_attemptPreparedConfirmed hprocess hint).bind fun _ => ?_
  refine (keeps_attemptAcceptCommit hprocess hint).bind fun _ => ?_
  refine (keeps_attemptConfirmCommit hprocess hint).bind fun _ => ?_
  refine (keeps_bumpAtTop hprocess fuel).bind fun _ => ?_
  refine Keeps.bind (Neutral.keeps fun _ _ => Triple.modify fun _ h => h) fun _ => ?_
  exact Keeps.onlyIf (keeps_sendLatestEnvelope d)

omit [Inhabited Value] in
theorem neutral_validateValues (st : BallotPledges Value) : Neutral (validateValues d st) :=
  fun r m => Triple.foldlM (I := fun _ => At r m) (fun _ v _ =>
    (neutral_call (d.validateValue v) r m).bind fun _ => Triple.pure fun _ h => h) _

/-- An envelope of another node, or a sane one of the node itself, that is newer than what is recorded. -/
structure Recordable (localNodeID : NodeID) (latest : List (SCPEnvelope (BallotPledges Value)))
    (envelope : SCPEnvelope (BallotPledges Value)) : Prop where
  sane : envelope.statement.nodeID = localNodeID → isPledgesSane true envelope.statement.pledges = true
  newer : ∀ old, LocalNode.find latest envelope.statement.nodeID = some old →
    isNewerStatement old.statement.pledges envelope.statement.pledges = true

omit [Inhabited Value] in
theorem triple_recordEnvelope {envelope : SCPEnvelope (BallotPledges Value)} {r₀ : Position Value}
    {s : BallotProtocol X Value} (hs : Sound d r₀ s)
    (hrecordable : Recordable d.localNodeID s.messages.latest envelope) :
    Partial (At s.position s.messages) (recordEnvelope envelope : Ballot X Value Unit) fun _ =>
      Sound d r₀ := by
  refine Triple.modify fun s' hs' => ?_
  obtain ⟨hr, hm⟩ := hs'
  have hs₁ : Sound d r₀ s' := hs.stay ⟨hr, hm⟩
  rw [← hm] at hrecordable
  exact ⟨hs₁.good, hs₁.advances, hs₁.sent.recordEnvelope hrecordable.sane hrecordable.newer⟩

theorem processSpec (fuel : ℕ) : ProcessSpec d (processEnvelope d fuel) := by
  induction fuel with
  | zero => exact ⟨fun _ _ _ _ => Partial.throw, fun _ _ _ _ => Partial.throw⟩
  | succ fuel ih =>
    refine ⟨fun envelope self hself => ?_, fun envelope self hinsane P => ?_⟩
    · refine keeps_get_bind fun r₀ s hs => ?_
      refine Triple.ite (fun hc => Triple.of_at ?_) fun _ => (keeps_pure _).of_eq hs
      have hrecordable : Recordable d.localNodeID s.messages.latest envelope := by
        refine ⟨fun hown => ?_, (Option.all_eq_true _ _).mp hc.2⟩
        have hsane := (Bool.and_eq_true_iff.mp hc.1).2
        rwa [hself hown] at hsane
      refine ((neutral_validateValues envelope.statement.pledges).returns _ _).bind fun validationRes => ?_
      refine Triple.ite (fun _ => Triple.pure fun _ h => hs.stay h) fun _ => ?_
      refine Triple.ite (fun _ => ?_) fun _ => ?_
      · refine Triple.bind (Q := fun _ => At s.position s.messages) ?_ fun _ => ?_
        · exact Triple.onlyIf (fun _ => Triple.modify fun _ h => h) fun _ _ h => h
        refine (triple_recordEnvelope hs hrecordable).bind fun _ => ?_
        exact ((keeps_advanceSlot ih fuel _).bind fun _ => keeps_pure _) r₀
      · refine Triple.get_bind fun s' hs' => Triple.pre (P := At s.position s.messages) ?_
          fun _ h => h ▸ hs'
        refine ((neutral_deref s'.mCommit).returns _ _).bind fun c => Triple.ite (fun _ => ?_) fun _ => ?_
        · exact (triple_recordEnvelope hs hrecordable).bind fun _ => keeps_pure _ r₀
        · exact Triple.pure fun _ h => hs.stay h
    · refine Triple.get_bind fun s hs => Triple.ite (fun hc => ?_) fun _ => Triple.pure fun _ _ => rfl
      have hsane := (Bool.and_eq_true_iff.mp hc.1).2
      exact nomatch hinsane.symm.trans hsane

/-! ## Runs -/

variable (d)

/-- No event takes a state out of the invariant. -/
theorem keeps_handle (fuel : ℕ) (event : Event X Value) : Keeps d (handle d fuel event) := by
  cases event with
  | bumpState value force => exact (keeps_bumpState (processSpec fuel) value force).discard
  | ballotProtocolTimerExpired => exact (keeps_abandonBallot (processSpec fuel) 0).discard
  | recvSCPEnvelope envelope =>
    refine fun r₀ => Triple.onlyIf (fun hne => ?_) fun _ _ h => h
    exact ((processSpec fuel).keeps envelope false fun hown => absurd hown hne).discard r₀
  | outside x => exact Neutral.keeps fun _ _ => Triple.modify fun _ h => h

theorem sound_step {fuel : ℕ} {s : BallotProtocol X Value} {event : Event X Value} {r₀ : Position Value}
    (hs : Sound d r₀ s) (hreturns : Returns d fuel s event) :
    Sound d r₀ (step d fuel s event) := by
  have hends := keeps_handle d fuel event r₀ s hs
  rwa [hreturns] at hends

omit [Inhabited Value] in
theorem sound_new (outside : X) : Sound d .start (new d outside) where
  good := Position.good_start
  advances := .refl _
  sent := {
    sorted := List.Pairwise.nil
    recorded := List.Pairwise.nil
    latest := rfl
    sane := fun _ h => nomatch h
    forward := List.Pairwise.nil
    lastEmit := rfl
    last := fun _ h => nomatch h
    fits := fun _ h => nomatch h }

/-- What a node's own statements and its position go through. -/
structure Consistent (localNodeID : NodeID) (s : BallotProtocol X Value) : Prop where
  recorded : Forward (s.mStatementsHistory.filter fun st => decide (st.nodeID = localNodeID))
  emitted : Forward (s.emitted.map SCPEnvelope.statement)

/-- `isNewerStatement` is a strict order. In a run from a fresh slot in which no step throws, each
statement that the node records for itself or sends is newer than those before, and the position
advances. -/
theorem ballot_run (fuel : ℕ) (outside : X) (events : List (Event X Value))
    (hreturns : EachStep (step d fuel) (Returns d fuel) (new d outside) events) :
    ((∀ st : BallotPledges Value, ¬ isNewerStatement st st) ∧
      (∀ a b : BallotPledges Value, isNewerStatement a b → ¬ isNewerStatement b a) ∧
      ∀ a b c : BallotPledges Value, isNewerStatement a b → isNewerStatement b c →
        isNewerStatement a c) ∧
      Throughout (step d fuel) (Consistent d.localNodeID) (new d outside) events ∧
      EachStep (step d fuel) (fun s event => s.position.Advances (step d fuel s event).position)
        (new d outside) events := by
  refine ⟨⟨isNewerStatement_irrefl, fun _ _ => isNewerStatement_asymm,
    fun _ _ _ => isNewerStatement_trans⟩, ?_, ?_⟩
  · refine (throughout_of_eachStep (fun _ _ => sound_step d) (sound_new d outside) hreturns).mono ?_
    exact fun s hs => ⟨hs.sent.recorded, hs.sent.forward⟩
  · refine eachStep_of_inv (fun _ _ => sound_step d) (fun s event hs hret => ?_) (sound_new d outside)
      hreturns
    exact (sound_step d hs.refl hret).advances

/-- Node 1 of a quorum set of which both nodes are needed. -/
def twoNodes : BallotDriver Unit (List (Fin 256)) where
  NDEBUG := true
  slotIndex := 1
  localNodeID := 1
  isValidator := true
  quorumSet := .mk 2 [1, 2] []
  quorumSetHash := 7
  getQSet _ hash := if hash = 7 then some (.mk 2 [1, 2] []) else none
  getLatestCompositeCandidate _ := [9]
  signEnvelope _ := return []
  emitEnvelope _ := return ()
  validateValue _ := return .kFullyValidatedValue
  computeTimeout _ := return 0
  setupTimer _ := return ()
  stopNomination := return ()
  startedBallotProtocol _ outside := outside
  acceptedBallotPrepared _ := return ()
  confirmedBallotPrepared _ := return ()
  acceptedCommit _ := return ()
  ballotDidHearFromQuorum _ := return ()
  valueExternalized _ := return ()

/-- Node 2 accepts that the first ballot is prepared, and confirms a commit of it later. -/
def twoNodesEvents : List (Event Unit (List (Fin 256))) :=
  [.bumpState [5] false,
    .recvSCPEnvelope ⟨⟨2, 1, .prepare 7 ⟨1, [5]⟩ (some ⟨1, [5]⟩) none 0 0⟩, []⟩,
    .ballotProtocolTimerExpired,
    .recvSCPEnvelope ⟨⟨2, 1, .confirm ⟨2, [5]⟩ 2 1 2 7⟩, []⟩]

theorem ballot_run_twoNodes :
    Throughout (step twoNodes 6) (Consistent 1) (new twoNodes ()) twoNodesEvents ∧
      EachStep (step twoNodes 6)
        (fun s event => s.position.Advances (step twoNodes 6 s event).position) (new twoNodes ())
        twoNodesEvents :=
  (ballot_run twoNodes 6 () twoNodesEvents (by decide +kernel)).2

end ZaggCore.Scp.BallotProtocol
