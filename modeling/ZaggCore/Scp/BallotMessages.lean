import ZaggCore.Scp.BallotPositions

/-! # Messages of the ballot protocol

What a node recorded and sent, what keeps it in order, and the programs that leave it alone: those that
change nothing, and the assignments to the position. -/

namespace ZaggCore.Scp.BallotProtocol
open Foundations SortedKeys
set_option autoImplicit false
set_option maxHeartbeats 250000

variable {X Value : Type}

/-! ## Positions and messages -/

def position (s : BallotProtocol X Value) : Position Value :=
  ⟨s.mPhase, s.mCurrentBallot, s.mPrepared, s.mPreparedPrime, s.mHighBallot, s.mCommit,
    s.mValueOverride⟩

/-- What the node recorded and what it sent. -/
structure Messages (Value : Type) where
  latest : List (SCPEnvelope (BallotPledges Value))
  history : List (SCPStatement (BallotPledges Value))
  last : Option (SCPEnvelope (BallotPledges Value))
  lastEmit : Option (SCPEnvelope (BallotPledges Value))
  emitted : List (SCPEnvelope (BallotPledges Value))

def messages (s : BallotProtocol X Value) : Messages Value :=
  ⟨s.mLatestEnvelopes, s.mStatementsHistory, s.mLastEnvelope, s.mLastEnvelopeEmit, s.emitted⟩

/-- The statements that were recorded for a node, the latest first. -/
def Messages.recorded (m : Messages Value) (nodeID : NodeID) :
    List (SCPStatement (BallotPledges Value)) :=
  m.history.filter fun st => decide (st.nodeID = nodeID)

variable [LinearOrder Value]

/-- Each statement of the list, the latest first, is newer than those before it. -/
def Forward (statements : List (SCPStatement (BallotPledges Value))) : Prop :=
  statements.Pairwise fun st before => isNewerStatement before.pledges st.pledges = true

/-- A statement that can be restored: `p'` is less than and incompatible with `p`, and `c ≤ h ≤ b`. -/
def WellFormed : BallotPledges Value → Prop
  | .prepare _ b p p' nC nH =>
    (∀ q', p' = some q' → ∃ q, p = some q ∧ q' ≤ q ∧ q'.value ≠ q.value) ∧ nH ≤ b.counter ∧ nC ≤ nH
  | .confirm b _ nC nH _ => nC ≠ 0 ∧ nC ≤ nH ∧ nH ≤ b.counter
  | .externalize c nH _ => c.counter ≠ 0 ∧ c.counter ≤ nH

/-- A PREPARE without a commit ballot. -/
def CommitsNothing : BallotPledges Value → Prop
  | .prepare _ _ _ _ nC _ => nC = 0
  | _ => False

/-- `Slot::getCompanionQuorumSetHashFromStatement` -/
def getCompanionQuorumSetHashFromStatement : BallotPledges Value → Hash
  | .prepare quorumSetHash .. => quorumSetHash
  | .confirm _ _ _ _ quorumSetHash => quorumSetHash
  | .externalize _ _ commitQuorumSetHash => commitQuorumSetHash

/-- A statement that the node at the position, or at one before it, makes of itself. -/
structure Fits (d : BallotDriver X Value) (r : Position Value) (st : SCPStatement (BallotPledges Value)) :
    Prop where
  nodeID : st.nodeID = d.localNodeID
  slotIndex : st.slotIndex = d.slotIndex
  quorumSetHash : getCompanionQuorumSetHashFromStatement st.pledges = d.quorumSetHash
  wellFormed : WellFormed st.pledges
  free : r.override = none → CommitsNothing st.pledges

theorem Fits.mono {d : BallotDriver X Value} {r r' : Position Value}
    {st : SCPStatement (BallotPledges Value)} (h : Fits d r st) (hr : Position.Advances r r') :
    Fits d r' st where
  nodeID := h.nodeID
  slotIndex := h.slotIndex
  quorumSetHash := h.quorumSetHash
  wellFormed := h.wellFormed
  free hnone := h.free (hr.override hnone)

/-- What is recorded of the node itself is sane and goes forward, and so does what it sent; the last
envelope is the last one sent or newer. -/
structure Sent (d : BallotDriver X Value) (r : Position Value) (m : Messages Value) : Prop where
  sorted : SortedBy (fun it : SCPEnvelope (BallotPledges Value) => it.statement.nodeID) m.latest
  recorded : Forward (m.recorded d.localNodeID)
  latest : (LocalNode.find m.latest d.localNodeID).map SCPEnvelope.statement =
    (m.recorded d.localNodeID).head?
  sane : ∀ env, LocalNode.find m.latest d.localNodeID = some env →
    isPledgesSane true env.statement.pledges = true
  forward : Forward (m.emitted.map SCPEnvelope.statement)
  lastEmit : m.lastEmit = m.emitted.head?
  last : ∀ env, m.lastEmit = some env → ∃ last, m.last = some last ∧
    (env = last ∨ isNewerStatement env.statement.pledges last.statement.pledges = true)
  fits : ∀ env, m.last = some env ∨ m.lastEmit = some env → Fits d r env.statement

section Sent

variable {d : BallotDriver X Value} {r r' : Position Value} {m : Messages Value}

theorem Sent.advance (h : Sent d r m) (hr : Position.Advances r r') :
    Sent d r' m :=
  ⟨h.sorted, h.recorded, h.latest, h.sane, h.forward, h.lastEmit, h.last,
    fun env henv => (h.fits env henv).mono hr⟩

/-- What is newer than the first of a list is newer than all of it. -/
theorem Forward.cons {statements : List (SCPStatement (BallotPledges Value))}
    {st : SCPStatement (BallotPledges Value)} (h : Forward statements)
    (hst : ∀ before, statements.head? = some before →
      isNewerStatement before.pledges st.pledges = true) : Forward (st :: statements) := by
  refine List.pairwise_cons.mpr ⟨fun before hbefore => ?_, h⟩
  cases statements with
  | nil => cases hbefore
  | cons first rest =>
    have hfirst := hst first rfl
    rcases List.mem_cons.mp hbefore with rfl | hbefore
    · exact hfirst
    · exact isNewerStatement_trans (List.rel_of_pairwise_cons h hbefore) hfirst

/-- An envelope of another node, or a sane and newer one of the node itself, is recorded. -/
theorem Sent.recordEnvelope (h : Sent d r m) {env : SCPEnvelope (BallotPledges Value)}
    (hsane : env.statement.nodeID = d.localNodeID → isPledgesSane true env.statement.pledges = true)
    (hnewer : ∀ old, LocalNode.find m.latest env.statement.nodeID = some old →
      isNewerStatement old.statement.pledges env.statement.pledges = true) :
    Sent d r { m with
      latest := LocalNode.insertOrAssign m.latest env, history := env.statement :: m.history } := by
  have hfind : LocalNode.find (LocalNode.insertOrAssign m.latest env) d.localNodeID =
      if env.statement.nodeID = d.localNodeID then some env else LocalNode.find m.latest d.localNodeID :=
    lookup_insertOrAssign _ h.sorted env d.localNodeID
  have hrecorded : Messages.recorded { m with
      latest := LocalNode.insertOrAssign m.latest env, history := env.statement :: m.history }
        d.localNodeID =
      if env.statement.nodeID = d.localNodeID then env.statement :: m.recorded d.localNodeID
        else m.recorded d.localNodeID := by
    unfold Messages.recorded
    rw [List.filter_cons]
    simp
  refine ⟨sortedBy_insertOrAssign _ h.sorted env, ?_, ?_, ?_, h.forward, h.lastEmit, h.last, h.fits⟩
  · rw [hrecorded]
    split_ifs with hid
    · refine h.recorded.cons fun before hbefore => ?_
      rw [← h.latest] at hbefore
      obtain ⟨old, hold, rfl⟩ := Option.map_eq_some_iff.mp hbefore
      exact hnewer old (hid ▸ hold)
    · exact h.recorded
  · rw [hrecorded, hfind]
    split_ifs
    · rfl
    · exact h.latest
  · intro env' henv'
    rw [hfind] at henv'
    split_ifs at henv' with hid
    · obtain rfl := Option.some.inj henv'
      exact hsane hid
    · exact h.sane env' henv'

/-- A newer envelope becomes the last one. -/
theorem Sent.setLast (h : Sent d r m) {env : SCPEnvelope (BallotPledges Value)}
    (hfits : Fits d r env.statement)
    (hnewer : ∀ last, m.last = some last →
      isNewerStatement last.statement.pledges env.statement.pledges = true) :
    Sent d r { m with last := some env } where
  sorted := h.sorted
  recorded := h.recorded
  latest := h.latest
  sane := h.sane
  forward := h.forward
  lastEmit := h.lastEmit
  last before hbefore := by
    obtain ⟨last, hlast, heq | hold⟩ := h.last before hbefore
    · exact ⟨env, rfl, .inr (heq ▸ hnewer last hlast)⟩
    · exact ⟨env, rfl, .inr (isNewerStatement_trans hold (hnewer last hlast))⟩
  fits env' henv' := by
    rcases henv' with henv' | henv'
    · obtain rfl := Option.some.inj henv'
      exact hfits
    · exact h.fits env' (.inr henv')

/-- The last envelope is sent. -/
theorem Sent.emit (h : Sent d r m) {env : SCPEnvelope (BallotPledges Value)}
    (hlast : m.last = some env) (hnew : m.lastEmit ≠ some env) :
    Sent d r { m with lastEmit := some env, emitted := env :: m.emitted } where
  sorted := h.sorted
  recorded := h.recorded
  latest := h.latest
  sane := h.sane
  forward := by
    refine Forward.cons h.forward fun before hbefore => ?_
    rw [List.head?_map, ← h.lastEmit] at hbefore
    obtain ⟨old, hold, rfl⟩ := Option.map_eq_some_iff.mp hbefore
    obtain ⟨last, hlast', heq | hnewer⟩ := h.last old hold
    · obtain rfl := Option.some.inj (hlast.symm.trans hlast')
      exact absurd (heq ▸ hold) hnew
    · obtain rfl := Option.some.inj (hlast.symm.trans hlast')
      exact hnewer
  lastEmit := rfl
  last before hbefore := by
    obtain rfl := Option.some.inj hbefore
    exact ⟨env, hlast, .inl rfl⟩
  fits env' henv' := by
    rcases henv' with henv' | henv'
    · exact h.fits env' (.inl henv')
    · obtain rfl := Option.some.inj henv'
      exact h.fits env (.inl hlast)

end Sent

/-! ## Programs that change neither the position nor the messages -/

/-- The state is at the position, with these messages. -/
def At (r : Position Value) (m : Messages Value) (s : BallotProtocol X Value) : Prop :=
  s.position = r ∧ s.messages = m

/-- Also where the program throws. -/
def Neutral {α : Type} (x : Ballot X Value α) : Prop :=
  ∀ r m, Triple (At r m) x (fun _ => At r m) fun _ => At r m

section Neutral

omit [LinearOrder Value]

variable (d : BallotDriver X Value)

theorem Neutral.returns {α : Type} {x : Ballot X Value α} (hx : Neutral x) (r : Position Value)
    (m : Messages Value) : Partial (At r m) x fun _ => At r m :=
  fun s hs => (hx r m s hs).imp (fun _ _ h => h) fun _ _ _ => trivial

theorem neutral_pure {α : Type} (a : α) : Neutral (pure a : Ballot X Value α) :=
  fun _ _ => Triple.pure fun _ h => h

theorem neutral_throw {α : Type} (e : Failure) : Neutral (throw e : Ballot X Value α) :=
  fun _ _ => Triple.throw fun _ h => h

theorem Neutral.bind {α β : Type} {x : Ballot X Value α} {f : α → Ballot X Value β} (hx : Neutral x)
    (hf : ∀ a, Neutral (f a)) : Neutral (x >>= f) :=
  fun r m => (hx r m).bind fun a => hf a r m

theorem Neutral.get_bind {α : Type} {f : BallotProtocol X Value → Ballot X Value α}
    (hf : ∀ s, Neutral (f s)) : Neutral (get >>= f) :=
  fun r m => Triple.get_bind fun s hs => (hf s r m).pre fun _ h => h ▸ hs

theorem Neutral.onlyIf {c : Prop} [Decidable c] {x : Ballot X Value Unit} (hx : Neutral x) :
    Neutral (onlyIf c x) :=
  fun r m => Triple.onlyIf (fun _ => hx r m) fun _ _ h => h

theorem neutral_call {α : Type} (f : EStateM Numeric.Exception X α) :
    Neutral (call f : Ballot X Value α) :=
  fun _ _ => Triple.zoom (fun _ _ _ h => h) fun _ _ _ h => h

theorem neutral_deref {α : Type} (o : Option α) : Neutral (deref o : Ballot X Value α) := by
  cases o with
  | none => exact neutral_throw .nullDereference
  | some a => exact neutral_pure a

/-- A pointer that could be followed was not null. -/
theorem triple_deref {α : Type} (P : BallotProtocol X Value → Prop) (o : Option α) :
    Partial P (deref o) fun a s => P s ∧ o = some a := by
  cases o with
  | none => exact Partial.throw
  | some a => exact Triple.pure fun _ h => ⟨h, rfl⟩

theorem triple_dbgAssert (P : BallotProtocol X Value → Prop) (c : Option Bool) (expression : String) :
    Triple P (dbgAssert d c expression) (fun _ => P) fun _ => P := by
  refine Triple.ite (fun _ => Triple.pure fun _ h => h) fun _ => ?_
  match c with
  | none => exact Triple.throw fun _ h => h
  | some true => exact Triple.pure fun _ h => h
  | some false => exact Triple.throw fun _ h => h

theorem neutral_dbgAssert (c : Option Bool) (expression : String) :
    Neutral (dbgAssert d c expression) :=
  fun _ _ => triple_dbgAssert d _ c expression

end Neutral

variable (d : BallotDriver X Value)

theorem neutral_checkInvariants : Neutral (checkInvariants d) :=
  Neutral.get_bind fun s r m =>
    Triple.forM (l := s.invariants) fun invariant _ => neutral_dbgAssert d invariant.1 invariant.2 r m

omit [LinearOrder Value] in
theorem neutral_startBallotProtocolTimer (b : SCPBallot Value) :
    Neutral (startBallotProtocolTimer d b) :=
  (neutral_call _).bind fun _ => neutral_call _

omit [LinearOrder Value] in
theorem neutral_hearFromQuorum (b : SCPBallot Value) : Neutral (hearFromQuorum d b) :=
  Neutral.get_bind fun _ => Neutral.bind (fun _ _ => Triple.modify fun _ h => h) fun _ =>
    Neutral.bind (Neutral.onlyIf ((neutral_call _).bind fun _ =>
      Neutral.onlyIf (neutral_startBallotProtocolTimer d b))) fun _ =>
    Neutral.onlyIf (neutral_call _)

omit [LinearOrder Value] in
theorem neutral_checkHeardFromQuorum : Neutral (checkHeardFromQuorum d) := by
  refine Neutral.get_bind fun s => ?_
  cases s.mCurrentBallot with
  | none => exact neutral_pure ()
  | some b =>
    intro r m
    refine Triple.ite (fun _ => neutral_hearFromQuorum d b r m) fun _ => ?_
    exact Triple.bind (Q := fun _ => At r m) (Triple.modify fun _ h => h) fun _ => neutral_call _ r m

/-! ## Programs that change the position -/

section Assignments

variable {r : Position Value} {m : Messages Value}

theorem triple_bumpToBallot (ballot : SCPBallot Value) (check : Bool) :
    Partial (At r m) (bumpToBallot d ballot check) fun _ => At (r.bump ballot) m := by
  refine Triple.get_bind fun s hs => Triple.pre (P := At r m) ?_ fun _ h => h ▸ hs
  refine Triple.bind ((neutral_dbgAssert d _ _).returns r m) fun _ => ?_
  refine Triple.bind ((neutral_dbgAssert d _ _).returns r m) fun _ => Triple.modify fun s' hs' => ?_
  exact ⟨congrArg (Position.bump · ballot) hs'.1, hs'.2⟩

theorem triple_updateCurrentIfNeeded (h : SCPBallot Value) :
    Partial (At r m) (updateCurrentIfNeeded d h) fun updated s =>
      At (r.bumpIfNeeded h).1 m s ∧ updated = (r.bumpIfNeeded h).2 := by
  refine Triple.get_bind fun s hs => Triple.pre (P := At r m) ?_ fun _ h => h ▸ hs
  obtain ⟨rfl, -⟩ := hs
  unfold Position.bumpIfNeeded
  refine Triple.ite (fun hc => ?_) fun hc => ?_
  · rw [if_pos (show s.position.current.all _ = true from hc)]
    exact (triple_bumpToBallot d h true).bind fun _ => Triple.pure fun _ hs' => ⟨hs', rfl⟩
  · rw [if_neg (show ¬ s.position.current.all _ = true from hc)]
    exact Triple.pure fun _ hs' => ⟨hs', rfl⟩

theorem triple_setPrepared (ballot : SCPBallot Value) :
    Partial (At r m) (setPrepared ballot : Ballot X Value Bool) fun didWork s =>
      At (r.prepare ballot).1 m s ∧ didWork = (r.prepare ballot).2 := by
  refine Triple.get_bind fun s hs => ?_
  obtain ⟨rfl, rfl⟩ := hs
  have hp : s.position.prepared = s.mPrepared := rfl
  unfold Position.prepare
  rw [hp]
  cases hcase : s.mPrepared with
  | none =>
    refine Triple.bind (Triple.modify fun _ h => ?_) fun _ => Triple.pure fun _ h => h
    exact h ▸ ⟨⟨rfl, rfl⟩, rfl⟩
  | some p =>
    dsimp only
    refine Triple.ite (fun hlt => ?_) fun hlt => Triple.ite (fun hgt => ?_) fun hgt => ?_
    · rw [if_pos hlt]
      refine Triple.bind (Triple.modify fun _ h => ?_) fun _ => Triple.pure fun _ h => h
      exact h ▸ ⟨⟨rfl, rfl⟩, rfl⟩
    · have hgt' : compareBallots p ballot > 0 ∧ s.position.preparedPrime.all
          (fun p' => decide (compareBallots p' ballot < 0)) = true := hgt
      rw [if_neg hlt, if_pos hgt']
      refine Triple.bind (Triple.modify fun _ h => ?_) fun _ => Triple.pure fun _ h => h
      subst h
      exact ⟨⟨by simp only [position, hcase], rfl⟩, rfl⟩
    · have hgt' : ¬ (compareBallots p ballot > 0 ∧ s.position.preparedPrime.all
          (fun p' => decide (compareBallots p' ballot < 0)) = true) := hgt
      rw [if_neg hlt, if_neg hgt']
      exact Triple.pure fun _ h => h ▸ ⟨⟨rfl, rfl⟩, rfl⟩

end Assignments

end ZaggCore.Scp.BallotProtocol
