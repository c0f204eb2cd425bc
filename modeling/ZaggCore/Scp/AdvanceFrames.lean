import ZaggCore.Scp.AdvanceSteps

/-! # What the advance leaves alone

The functions between two re-entries of `advanceSlot` change neither the level nor the quorum sets that
the driver finds, and they do not end in the failures that would mean an unbounded advance. -/

namespace ZaggCore.Scp.BallotProtocol
open Foundations
set_option autoImplicit false
set_option maxHeartbeats 250000

variable {X Value : Type}

/-- Neither the limit of `advanceSlot` was reached nor, with enough of it, the fuel used up. -/
def Tolerated (enough : Prop) (e : Failure) : Prop :=
  e ≠ .runtime_error "maximum number of transitions reached in advanceSlot" ∧ (enough → e ≠ .outOfFuel)

/-- What the driver does while the protocol advances does not change which quorum sets it finds. -/
structure KeepsQuorumSets (d : BallotDriver X Value) : Prop where
  signEnvelope : ∀ st x signature x', d.signEnvelope st x = .ok signature x' → d.getQSet x' = d.getQSet x
  validateValue : ∀ v x level x', d.validateValue v x = .ok level x' → d.getQSet x' = d.getQSet x
  startedBallotProtocol : ∀ b x, d.getQSet (d.startedBallotProtocol b x) = d.getQSet x
  acceptedBallotPrepared : ∀ b x x', d.acceptedBallotPrepared b x = .ok () x' → d.getQSet x' = d.getQSet x
  confirmedBallotPrepared : ∀ b x x',
    d.confirmedBallotPrepared b x = .ok () x' → d.getQSet x' = d.getQSet x
  acceptedCommit : ∀ b x x', d.acceptedCommit b x = .ok () x' → d.getQSet x' = d.getQSet x

/-- The level and, if they are kept, the quorum sets. -/
def Frame (d : BallotDriver X Value) (keep : Prop) (level : ℕ) (qsets : Hash → Option SCPQuorumSet)
    (s : BallotProtocol X Value) : Prop :=
  s.mCurrentMessageLevel = level ∧ (keep → d.getQSet s.outside = qsets)

def Framed {α : Type} (d : BallotDriver X Value) (enough keep : Prop) (x : Ballot X Value α) : Prop :=
  ∀ level qsets, Triple (Frame d keep level qsets) x (fun _ => Frame d keep level qsets)
    fun e _ => Tolerated enough e

section Framed

variable {α β : Type} {d : BallotDriver X Value} {enough keep : Prop} {x : Ballot X Value α}

theorem framed_pure (a : α) : Framed d enough keep (pure a : Ballot X Value α) :=
  fun _ _ => Triple.pure fun _ h => h

theorem framed_throw {e : Failure} (he : Tolerated enough e) :
    Framed d enough keep (throw e : Ballot X Value α) :=
  fun _ _ => Triple.throw fun _ _ => he

theorem Framed.bind {f : α → Ballot X Value β} (hx : Framed d enough keep x)
    (hf : ∀ a, Framed d enough keep (f a)) : Framed d enough keep (x >>= f) :=
  fun level qsets => (hx level qsets).bind fun a => hf a level qsets

theorem Framed.get_bind {f : BallotProtocol X Value → Ballot X Value α}
    (hf : ∀ s, Framed d enough keep (f s)) : Framed d enough keep (get >>= f) :=
  fun level qsets => Triple.get_bind fun s hs => (hf s level qsets).pre fun _ h => h ▸ hs

theorem Framed.onlyIf {c : Prop} [Decidable c] {x : Ballot X Value Unit} (hx : Framed d enough keep x) :
    Framed d enough keep (onlyIf c x) :=
  fun level qsets => Triple.onlyIf (fun _ => hx level qsets) fun _ _ h => h

theorem Framed.ite {c : Prop} [Decidable c] {y : Ballot X Value α} (hx : Framed d enough keep x)
    (hy : Framed d enough keep y) : Framed d enough keep (if c then x else y) :=
  fun level qsets => Triple.ite (fun _ => hx level qsets) fun _ => hy level qsets

theorem framed_modify {f : BallotProtocol X Value → BallotProtocol X Value}
    (hlevel : ∀ s, (f s).mCurrentMessageLevel = s.mCurrentMessageLevel)
    (houtside : ∀ s, keep → d.getQSet (f s).outside = d.getQSet s.outside) :
    Framed d enough keep (modify f : Ballot X Value PUnit) :=
  fun _ _ => Triple.modify fun s hs =>
    ⟨(hlevel s).trans hs.1, fun hkeep => (houtside s hkeep).trans (hs.2 hkeep)⟩

theorem framed_call {f : EStateM Numeric.Exception X α}
    (hf : keep → ∀ x a x', f x = .ok a x' → d.getQSet x' = d.getQSet x) :
    Framed d enough keep (call f : Ballot X Value α) := by
  intro level qsets s hs
  unfold call zoom
  cases hcall : f s.outside with
  | ok a x' => exact ⟨hs.1, fun hkeep => (hf hkeep _ a x' hcall).trans (hs.2 hkeep)⟩
  | error e x' => exact ⟨by simp, fun _ => by simp⟩

theorem tolerated_nullDereference : Tolerated enough .nullDereference :=
  ⟨by simp, fun _ => by simp⟩

theorem framed_deref (o : Option α) : Framed d enough keep (deref o : Ballot X Value α) := by
  cases o with
  | none => exact framed_throw tolerated_nullDereference
  | some a => exact framed_pure a

theorem framed_dbgAssert (c : Option Bool) (expression : String) :
    Framed d enough keep (dbgAssert d c expression) := by
  refine Framed.ite (framed_pure ()) ?_
  cases c with
  | none => exact framed_throw tolerated_nullDereference
  | some b =>
    cases b with
    | true => exact framed_pure ()
    | false => exact framed_throw ⟨by simp, fun _ => by simp⟩

end Framed

/-! ## The functions that do not emit -/

section Functions

variable {d : BallotDriver X Value} {enough keep : Prop}

section Assertions

variable [LinearOrder Value]

theorem framed_checkInvariants : Framed d enough keep (checkInvariants d) :=
  Framed.get_bind fun s level qsets =>
    Triple.forM (l := s.invariants) fun i _ => framed_dbgAssert i.1 i.2 level qsets

theorem framed_createStatement [Inhabited Value] (type : SCPPhase) :
    Framed d enough keep (createStatement d type) := by
  refine framed_checkInvariants.bind fun _ => Framed.get_bind fun s => Framed.bind ?_ fun _ => framed_pure _
  cases type with
  | SCP_PHASE_PREPARE => exact framed_pure _
  | SCP_PHASE_CONFIRM =>
    exact (framed_deref _).bind fun _ => (framed_deref _).bind fun _ => (framed_deref _).bind fun _ =>
      (framed_deref _).bind fun _ => framed_pure _
  | SCP_PHASE_EXTERNALIZE => exact (framed_deref _).bind fun _ => (framed_deref _).bind fun _ => framed_pure _

theorem framed_setPrepared (ballot : SCPBallot Value) :
    Framed d enough keep (setPrepared ballot : Ballot X Value Bool) := by
  refine Framed.get_bind fun s => ?_
  cases s.mPrepared with
  | none => exact Framed.bind (framed_modify (fun _ => rfl) fun _ _ => rfl) fun _ => framed_pure true
  | some p =>
    refine Framed.ite ?_ (Framed.ite ?_ (framed_pure false))
    · exact Framed.bind (framed_modify (fun _ => rfl) fun _ _ => rfl) fun _ => framed_pure true
    · exact Framed.bind (framed_modify (fun _ => rfl) fun _ _ => rfl) fun _ => framed_pure true

theorem framed_clearCommit : Framed d enough keep (clearCommit d) := by
  refine Framed.get_bind fun s => Framed.ite ?_ (framed_pure false)
  exact (framed_dbgAssert _ _).bind fun _ =>
    Framed.bind (framed_modify (fun _ => rfl) fun _ _ => rfl) fun _ => framed_pure true

theorem framed_assignCommit (c h : SCPBallot Value) :
    Framed d enough keep (assignCommit c h : Ballot X Value Bool) :=
  Framed.get_bind fun _ =>
    Framed.ite (Framed.bind (framed_modify (fun _ => rfl) fun _ _ => rfl) fun _ => framed_pure true)
      (framed_pure false)

end Assertions

theorem framed_createEnvelope (hd : KeepsQuorumSets d) (st : SCPStatement (BallotPledges Value)) :
    Framed d enough keep (createEnvelope d st) :=
  (framed_call fun _ => hd.signEnvelope st).bind fun _ => framed_pure _

theorem framed_validateValues [LinearOrder Value] (hd : KeepsQuorumSets d) (st : BallotPledges Value) :
    Framed d enough keep (validateValues d st) :=
  fun level qsets => Triple.foldlM (I := fun _ => Frame d keep level qsets) (fun _ v _ =>
    (framed_call (fun _ => hd.validateValue v) level qsets).bind fun _ => Triple.pure fun _ h => h) _

theorem framed_bumpToBallot [LinearOrder Value] (hd : KeepsQuorumSets d) (ballot : SCPBallot Value)
    (check : Bool) : Framed d enough keep (bumpToBallot d ballot check) := by
  refine Framed.get_bind fun s => (framed_dbgAssert _ _).bind fun _ => (framed_dbgAssert _ _).bind fun _ => ?_
  refine framed_modify (fun _ => rfl) fun s _ => ?_
  unfold bumped
  dsimp only
  split_ifs
  · exact hd.startedBallotProtocol ballot s.outside
  · rfl

section Bumps

variable [LinearOrder Value] (hd : KeepsQuorumSets d)

include hd

theorem framed_updateCurrentIfNeeded (h : SCPBallot Value) :
    Framed d enough keep (updateCurrentIfNeeded d h) :=
  Framed.get_bind fun _ =>
    Framed.ite ((framed_bumpToBallot hd h true).bind fun _ => framed_pure true) (framed_pure false)

theorem framed_raiseHigh (newC newH : SCPBallot Value) : Framed d enough keep (raiseHigh d newC newH) := by
  refine Framed.get_bind fun s => Framed.ite ?_ (framed_pure false)
  refine Framed.bind (framed_modify (fun _ => rfl) fun _ _ => rfl) fun _ => ?_
  refine Framed.bind (Framed.onlyIf ?_) fun _ => ?_
  · exact (framed_dbgAssert _ _).bind fun _ => framed_modify (fun _ => rfl) fun _ _ => rfl
  · exact (Framed.onlyIf (framed_call fun _ x _ x' => hd.confirmedBallotPrepared newH x x')).bind
      fun _ => framed_pure _

theorem framed_enterConfirm (h : SCPBallot Value) : Framed d enough keep (enterConfirm d h) := by
  refine Framed.get_bind fun s => Framed.ite ?_ (framed_pure false)
  refine Framed.bind (framed_modify (fun _ => rfl) fun _ _ => rfl) fun _ => ?_
  exact (Framed.onlyIf (framed_bumpToBallot hd h false)).bind fun _ =>
    Framed.bind (framed_modify (fun _ => rfl) fun _ _ => rfl) fun _ => framed_pure true

theorem framed_updateCurrentValue (ballot : SCPBallot Value) :
    Framed d enough keep (updateCurrentValue d ballot) := by
  have hcheck : ∀ updated : Bool, Framed d enough keep (do checkInvariants d; return updated) :=
    fun updated => framed_checkInvariants.bind fun _ => framed_pure updated
  refine Framed.get_bind fun s => Framed.ite (framed_pure false) ?_
  cases s.mCurrentBallot with
  | none => exact (framed_bumpToBallot hd ballot true).bind fun _ => hcheck true
  | some b =>
    refine Framed.get_bind fun s => (framed_dbgAssert _ _).bind fun _ => Framed.ite (framed_pure false) ?_
    refine Framed.ite ((framed_bumpToBallot hd ballot true).bind fun _ => hcheck true) ?_
    exact Framed.ite (framed_pure false) (hcheck false)

theorem framed_bumpBallot (value : Value) (n : Uint32) : Framed d enough keep (bumpBallot d value n) :=
  Framed.get_bind fun _ => Framed.ite (framed_pure false) (framed_updateCurrentValue hd _)

end Bumps

/-- The timer and what the herder hears of a quorum may change what the driver knows. -/
theorem framed_checkHeardFromQuorum [LinearOrder Value] : Framed d enough False (checkHeardFromQuorum d) := by
  have hcall : ∀ {α : Type} (f : EStateM Numeric.Exception X α),
      Framed d enough False (call f : Ballot X Value α) := fun f => framed_call False.elim
  refine Framed.get_bind fun s => ?_
  cases s.mCurrentBallot with
  | none => exact framed_pure ()
  | some b =>
    refine Framed.ite (Framed.get_bind fun s => ?_) ?_
    · refine Framed.bind (framed_modify (fun _ => rfl) fun _ h => h.elim) fun _ => ?_
      refine (Framed.onlyIf ?_).bind fun _ => Framed.onlyIf (hcall _)
      exact (hcall _).bind fun _ => Framed.onlyIf ((hcall _).bind fun _ => hcall _)
    · exact Framed.bind (framed_modify (fun _ => rfl) fun _ h => h.elim) fun _ => hcall _

end Functions

end ZaggCore.Scp.BallotProtocol
