import ZaggCore.Scp.NominationProtocol
import ZaggCore.Foundations.Runs

/-! # Runs of nomination

What holds after every event from a fresh slot: the candidates are accepted, the accepted values are voted
for, the three sets only grow, the emitted statements are sane and each is newer than the one before, and
the node never finds its own statement invalid. -/

namespace ZaggCore.Scp.NominationProtocol
open Foundations SortedKeys
set_option autoImplicit false
set_option maxHeartbeats 250000

/-! ## The order of statements -/

section Statements

variable {Value : Type} [LinearOrder Value]

theorem ascending_iff (l : List Value) : ascending l = true ↔ l.Pairwise (· < ·) := by
  induction l with
  | nil => simp [ascending]
  | cons a l ih =>
    cases l with
    | nil => simp [ascending]
    | cons b l =>
      rw [ascending, Bool.and_eq_true, ih, decide_eq_true_eq, ← List.isChain_iff_pairwise,
        ← List.isChain_iff_pairwise, List.isChain_cons_cons]

theorem includes_iff {v p : List Value} (hv : v.Pairwise (· < ·)) (hp : p.Pairwise (· < ·)) :
    includes v p = true ↔ p ⊆ v := by
  fun_induction includes v p with
  | case1 => simp
  | case2 => simp
  | case3 x v y p hlt =>
    have hy : y ∉ x :: v := by
      intro hy
      rcases List.mem_cons.mp hy with rfl | hy
      · exact lt_irrefl _ hlt
      · exact lt_asymm hlt (List.rel_of_pairwise_cons hv hy)
    simp [List.cons_subset, hy]
  | case4 x v y p hle hlt ih =>
    rw [ih (List.pairwise_cons.mp hv).2 hp]
    refine ⟨fun h => List.Subset.trans h (List.subset_cons_self x v), fun h z hz => ?_⟩
    have hxz : x < z := by
      rcases List.mem_cons.mp hz with rfl | hz
      · exact hlt
      · exact hlt.trans (List.rel_of_pairwise_cons hp hz)
    exact (List.mem_cons.mp (h hz)).resolve_left hxz.ne'
  | case5 x v y p hle hge ih =>
    have heq : x = y := le_antisymm (not_lt.mp hle) (not_lt.mp hge)
    rw [ih (List.pairwise_cons.mp hv).2 (List.pairwise_cons.mp hp).2]
    refine ⟨fun h => ?_, fun h z hz => ?_⟩
    · rw [heq]
      exact List.cons_subset_cons y h
    · have hyz : y < z := List.rel_of_pairwise_cons hp hz
      exact (List.mem_cons.mp (h (List.mem_cons_of_mem y hz))).resolve_left (heq ▸ hyz.ne')

/-- A strictly ascending list has no more elements than one that it is a part of, and as many only if
the two have the same elements. -/
theorem length_of_subset {v p : List Value} (hv : v.Pairwise (· < ·)) (hp : p.Pairwise (· < ·))
    (h : p ⊆ v) : p.length ≤ v.length ∧ (p.length = v.length ↔ v ⊆ p) := by
  have hsub : p.Subperm v := List.subperm_of_subset (hp.imp fun hlt => hlt.ne) h
  refine ⟨hsub.length_le, fun hlen => ?_, fun hvp => ?_⟩
  · exact (hsub.perm_of_length_le hlen.ge).symm.subset
  · exact le_antisymm hsub.length_le (List.subperm_of_subset (hv.imp fun hlt => hlt.ne) hvp).length_le

theorem isSubsetHelper_eq {v p : List Value} (hv : v.Pairwise (· < ·)) (hp : p.Pairwise (· < ·)) :
    isSubsetHelper p v = (decide (p ⊆ v), decide ¬ (p ⊆ v ∧ v ⊆ p)) := by
  unfold isSubsetHelper
  by_cases h : p ⊆ v
  · obtain ⟨hle, heq⟩ := length_of_subset hv hp h
    simp [hle, h, (includes_iff hv hp).mpr h, ← heq, bne, beq_eq_decide]
  · have hinc : includes v p ≠ true := fun hinc => h ((includes_iff hv hp).mp hinc)
    simp [h, hinc]

/-- The values of a statement are in order, each once. -/
structure Ordered (nom : SCPNomination Value) : Prop where
  votes : nom.votes.Pairwise (· < ·)
  accepted : nom.accepted.Pairwise (· < ·)

theorem Ordered.of_isSane {nom : SCPNomination Value} (h : isSane nom = true) : Ordered nom := by
  unfold isSane at h
  rw [Bool.and_eq_true, Bool.and_eq_true, ascending_iff, ascending_iff] at h
  exact ⟨h.1.2, h.2⟩

/-- Between ordered statements, "newer" is: no value is missing and not all of them were there before. -/
theorem isNewerStatement_iff {oldst st : SCPNomination Value} (ho : Ordered oldst) (hn : Ordered st) :
    isNewerStatement oldst st = true ↔
      (oldst.votes ⊆ st.votes ∧ oldst.accepted ⊆ st.accepted) ∧
        ¬ (st.votes ⊆ oldst.votes ∧ st.accepted ⊆ oldst.accepted) := by
  unfold isNewerStatement
  rw [isSubsetHelper_eq hn.votes ho.votes, isSubsetHelper_eq hn.accepted ho.accepted]
  simp only [Bool.and_eq_true, Bool.or_eq_true, decide_eq_true_eq]
  tauto

theorem isNewerStatement_trans {a b c : SCPNomination Value} (ha : Ordered a) (hb : Ordered b)
    (hc : Ordered c) (hab : isNewerStatement a b = true) (hbc : isNewerStatement b c = true) :
    isNewerStatement a c = true := by
  rw [isNewerStatement_iff ha hb] at hab
  rw [isNewerStatement_iff hb hc] at hbc
  rw [isNewerStatement_iff ha hc]
  obtain ⟨⟨hv, hv'⟩, -⟩ := hab
  obtain ⟨⟨hw, hw'⟩, hne⟩ := hbc
  refine ⟨⟨List.Subset.trans hv hw, List.Subset.trans hv' hw'⟩, fun h => hne ?_⟩
  exact ⟨List.Subset.trans h.1 hv, List.Subset.trans h.2 hv'⟩

end Statements

variable {X Value : Type}

/-- The part of the state that the invariants speak of. -/
structure Record (Value : Type) where
  votes : Finset Value
  accepted : Finset Value
  candidates : Finset Value
  latest : List (SCPEnvelope (SCPNomination Value))
  last : Option (SCPEnvelope (SCPNomination Value))
  emitted : List (SCPEnvelope (SCPNomination Value))

def record (s : NominationProtocol X Value) : Record Value :=
  ⟨s.mVotes, s.mAccepted, s.mCandidates, s.mLatestNominations, s.mLastEnvelope, s.emitted⟩

/-! ## Programs that leave the record as it is -/

/-- The exception that the claim of a bug in the application is thrown with. -/
def badState : Failure := .runtime_error "moved to a bad state (nomination)"

/-- The program leaves the record as it is and does not move to a bad state. -/
def Neutral {α : Type} (x : Nomination X Value α) : Prop :=
  ∀ r, Triple (·.record = r) x (fun _ s => s.record = r) fun e s => s.record = r ∧ e ≠ badState

theorem neutral_call {α : Type} (f : EStateM Numeric.Exception X α) :
    Neutral (call f : Nomination X Value α) :=
  fun _ => Triple.zoom (fun _ _ _ hs => hs) fun _ _ _ hs => ⟨hs, nofun⟩

theorem neutral_bumpState (d : NominationDriver X Value) (value : Value) : Neutral (bumpState d value) :=
  fun _ => Triple.zoom (fun _ _ _ hs => hs) fun _ _ _ hs => ⟨hs, nofun⟩

theorem neutral_dbgAssert (d : NominationDriver X Value) (p : Prop) [Decidable p] (expression : String) :
    Neutral (dbgAssert d p expression) := fun _ =>
  Triple.ite (fun _ => Triple.pure fun _ hs => hs) fun _ =>
    Triple.ite (fun _ => Triple.pure fun _ hs => hs) fun _ => Triple.throw fun _ hs => ⟨hs, nofun⟩

/-- A neutral program that starts in a known state. -/
theorem Neutral.from {α : Type} {x : Nomination X Value α} (h : Neutral x)
    (s : NominationProtocol X Value) :
    Triple (· = s) x (fun _ s' => s'.record = s.record)
      fun e s' => s'.record = s.record ∧ e ≠ badState :=
  (h s.record).pre fun _ hs => congrArg record hs

theorem neutral_announceCandidates (d : NominationDriver X Value) : Neutral (announceCandidates d) := by
  intro r
  refine Triple.get_bind fun s hs => hs ▸ ?_
  refine ((neutral_call _).from s).bind fun candidate => ?_
  refine Triple.bind (Q := fun _ s' => s'.record = s.record) (Triple.modify fun _ hs => hs) fun _ => ?_
  exact (neutral_call _ _).bind fun _ => neutral_bumpState d candidate _

theorem neutral_getValueToNominate (d : NominationDriver X Value) (value : Value) :
    Neutral (getValueToNominate d value) :=
  fun r => (neutral_call _ r).bind fun _ =>
    Triple.ite (fun _ => Triple.pure fun _ hs => hs) fun _ => neutral_call _ r

/-! ## Growth -/

/-- The three sets and the emitted envelopes only grow. -/
structure Grows (r r' : Record Value) : Prop where
  votes : r.votes ⊆ r'.votes
  accepted : r.accepted ⊆ r'.accepted
  candidates : r.candidates ⊆ r'.candidates
  emitted : r.emitted <:+ r'.emitted

theorem Grows.refl (r : Record Value) : Grows r r :=
  ⟨subset_rfl, subset_rfl, subset_rfl, List.suffix_rfl⟩

theorem Grows.trans {r r' r'' : Record Value} (h : Grows r r') (h' : Grows r' r'') : Grows r r'' where
  votes := h.votes.trans h'.votes
  accepted := h.accepted.trans h'.accepted
  candidates := h.candidates.trans h'.candidates
  emitted := h.emitted.trans h'.emitted

/-- What is recorded of a node. -/
def Record.find (r : Record Value) (nodeID : NodeID) : Option (SCPEnvelope (SCPNomination Value)) :=
  LocalNode.find r.latest nodeID

/-- Something was voted for or accepted that the recorded statement of the node does not say. -/
structure Unsent (localNodeID : NodeID) (r : Record Value) : Prop where
  nonempty : r.votes.Nonempty
  own : ∀ env, r.find localNodeID = some env →
    (∃ v ∈ r.votes, v ∉ env.statement.pledges.votes) ∨
      ∃ v ∈ r.accepted, v ∉ env.statement.pledges.accepted

theorem Unsent.mono {localNodeID : NodeID} {r r' : Record Value} (h : Unsent localNodeID r) (hr : Grows r r')
    (hlatest : r'.latest = r.latest) : Unsent localNodeID r' where
  nonempty := h.nonempty.mono hr.votes
  own env henv := by
    rw [Record.find, hlatest] at henv
    rcases h.own env henv with ⟨v, hv, hnot⟩ | ⟨v, hv, hnot⟩
    · exact .inl ⟨v, hr.votes hv, hnot⟩
    · exact .inr ⟨v, hr.accepted hv, hnot⟩

variable [LinearOrder Value]

/-! ## The invariant -/

/-- The emitted statements, the latest first, are sane and each is newer than those before it. -/
structure Forward (emitted : List (SCPEnvelope (SCPNomination Value))) : Prop where
  sane : ∀ env ∈ emitted, isSane env.statement.pledges = true
  newer : emitted.Pairwise fun env before =>
    isNewerStatement before.statement.pledges env.statement.pledges = true

/-- A statement of no more than these votes and accepted values. -/
structure Within (votes accepted : Finset Value) (nom : SCPNomination Value) : Prop where
  ordered : Ordered nom
  votes : ∀ v ∈ nom.votes, v ∈ votes
  accepted : ∀ v ∈ nom.accepted, v ∈ accepted

structure Inv (localNodeID : NodeID) (r : Record Value) : Prop where
  candidates : r.candidates ⊆ r.accepted
  accepted : r.accepted ⊆ r.votes
  latest : SortedBy (fun it : SCPEnvelope (SCPNomination Value) => it.statement.nodeID) r.latest
  own : ∀ env, r.find localNodeID = some env → Within r.votes r.accepted env.statement.pledges
  last : ∀ env, r.last = some env → isSane env.statement.pledges = true
  forward : Forward r.emitted
  behind : ∀ env ∈ r.emitted, ∃ last, r.last = some last ∧
    (env = last ∨ isNewerStatement env.statement.pledges last.statement.pledges = true)

section Changes

variable {localNodeID : NodeID} {r : Record Value} {v : Value}

/-- The sets may grow as long as they stay in each other. -/
theorem Inv.grow (h : Inv localNodeID r) {votes accepted candidates : Finset Value}
    (hv : r.votes ⊆ votes) (ha : r.accepted ⊆ accepted) (hac : candidates ⊆ accepted)
    (hva : accepted ⊆ votes) :
    Inv localNodeID { r with votes := votes, accepted := accepted, candidates := candidates } where
  candidates := hac
  accepted := hva
  latest := h.latest
  own env henv :=
    { ordered := (h.own env henv).ordered
      votes := fun v hmem => hv ((h.own env henv).votes v hmem)
      accepted := fun v hmem => ha ((h.own env henv).accepted v hmem) }
  last := h.last
  forward := h.forward
  behind := h.behind

/-- A new vote. -/
theorem Inv.vote (h : Inv localNodeID r) (v : Value) :
    Inv localNodeID { r with votes := insert v r.votes } :=
  h.grow (Finset.subset_insert v _) subset_rfl h.candidates
    (h.accepted.trans (Finset.subset_insert v _))

theorem grows_vote (r : Record Value) (v : Value) : Grows r { r with votes := insert v r.votes } :=
  ⟨Finset.subset_insert v _, subset_rfl, subset_rfl, List.suffix_rfl⟩

theorem Inv.unsent_vote (h : Inv localNodeID r) (hv : v ∉ r.votes) :
    Unsent localNodeID { r with votes := insert v r.votes } where
  nonempty := ⟨v, Finset.mem_insert_self v _⟩
  own env henv := .inl ⟨v, Finset.mem_insert_self v _, fun hmem => hv ((h.own env henv).votes v hmem)⟩

/-- A newly accepted value. -/
theorem Inv.accept (h : Inv localNodeID r) (v : Value) :
    Inv localNodeID { r with accepted := insert v r.accepted, votes := insert v r.votes } :=
  h.grow (Finset.subset_insert v _) (Finset.subset_insert v _)
    (h.candidates.trans (Finset.subset_insert v _)) (Finset.insert_subset_insert v h.accepted)

theorem grows_accept (r : Record Value) (v : Value) :
    Grows r { r with accepted := insert v r.accepted, votes := insert v r.votes } :=
  ⟨Finset.subset_insert v _, Finset.subset_insert v _, subset_rfl, List.suffix_rfl⟩

theorem Inv.unsent_accept (h : Inv localNodeID r) (hv : v ∉ r.accepted) :
    Unsent localNodeID { r with accepted := insert v r.accepted, votes := insert v r.votes } where
  nonempty := ⟨v, Finset.mem_insert_self v _⟩
  own env henv :=
    .inr ⟨v, Finset.mem_insert_self v _, fun hmem => hv ((h.own env henv).accepted v hmem)⟩

/-- A new candidate. -/
theorem Inv.candidate (h : Inv localNodeID r) (hv : v ∈ r.accepted) :
    Inv localNodeID { r with candidates := insert v r.candidates } :=
  h.grow subset_rfl subset_rfl (Finset.insert_subset hv h.candidates) h.accepted

theorem grows_candidate (r : Record Value) (v : Value) :
    Grows r { r with candidates := insert v r.candidates } :=
  ⟨subset_rfl, subset_rfl, Finset.subset_insert v _, List.suffix_rfl⟩

/-- A recorded envelope, of another node or within what the node voted for. -/
theorem Inv.recordEnvelope (h : Inv localNodeID r) {env : SCPEnvelope (SCPNomination Value)}
    (henv : env.statement.nodeID = localNodeID → Within r.votes r.accepted env.statement.pledges) :
    Inv localNodeID { r with latest := LocalNode.insertOrAssign r.latest env } where
  candidates := h.candidates
  accepted := h.accepted
  latest := sortedBy_insertOrAssign _ h.latest env
  own env' henv' := by
    rw [Record.find, LocalNode.find, LocalNode.insertOrAssign,
      lookup_insertOrAssign _ h.latest] at henv'
    by_cases hid : env.statement.nodeID = localNodeID
    · rw [if_pos hid, Option.some.injEq] at henv'
      exact henv' ▸ henv hid
    · rw [if_neg hid] at henv'
      exact h.own env' henv'
  last := h.last
  forward := h.forward
  behind := h.behind

section Emission

variable {env : SCPEnvelope (SCPNomination Value)} (h : Inv localNodeID r)
  (hsane : isSane env.statement.pledges = true)
  (hnewer : ∀ last, r.last = some last →
    isNewerStatement last.statement.pledges env.statement.pledges = true)

include h hsane hnewer

/-- What is newer than the last envelope is newer than every emitted one. -/
theorem Inv.newer_emitted : ∀ before ∈ r.emitted,
    isNewerStatement before.statement.pledges env.statement.pledges = true := by
  intro before hbefore
  obtain ⟨last, hlast, heq | hold⟩ := h.behind before hbefore
  · rw [heq]
    exact hnewer last hlast
  · exact isNewerStatement_trans (.of_isSane (h.forward.sane before hbefore))
      (.of_isSane (h.last last hlast)) (.of_isSane hsane) hold (hnewer last hlast)

/-- An envelope that becomes the last one. -/
theorem Inv.setLast : Inv localNodeID { r with last := some env } where
  candidates := h.candidates
  accepted := h.accepted
  latest := h.latest
  own := h.own
  last _ heq := Option.some.inj heq ▸ hsane
  forward := h.forward
  behind before hbefore := ⟨env, rfl, .inr (h.newer_emitted hsane hnewer before hbefore)⟩

/-- The same, with the envelope emitted. -/
theorem Inv.emit : Inv localNodeID { r with last := some env, emitted := env :: r.emitted } where
  candidates := h.candidates
  accepted := h.accepted
  latest := h.latest
  own := h.own
  last _ heq := Option.some.inj heq ▸ hsane
  forward :=
    { sane := List.forall_mem_cons.mpr ⟨hsane, h.forward.sane⟩
      newer := List.pairwise_cons.mpr ⟨h.newer_emitted hsane hnewer, h.forward.newer⟩ }
  behind before hbefore := by
    rcases List.mem_cons.mp hbefore with rfl | hbefore
    · exact ⟨before, rfl, .inl rfl⟩
    · exact ⟨env, rfl, .inr (h.newer_emitted hsane hnewer before hbefore)⟩

end Emission

end Changes

/-! ## The invariant before the node may emit -/

/-- The invariant holds and nothing was lost since `r₀`. -/
def Sound (d : NominationDriver X Value) (r₀ : Record Value) (s : NominationProtocol X Value) : Prop :=
  Inv d.localNodeID s.record ∧ Grows r₀ s.record

/-- The same where something was thrown. -/
def Fails (d : NominationDriver X Value) (r₀ : Record Value) (e : Failure) (s : NominationProtocol X Value) : Prop :=
  Sound d r₀ s ∧ e ≠ badState

/-- The same before the node may emit: what is marked as modified is not sent yet. -/
def Ready (d : NominationDriver X Value) (r₀ : Record Value) (modified : Bool) (s : NominationProtocol X Value) : Prop :=
  Sound d r₀ s ∧ (modified = true → Unsent d.localNodeID s.record)

variable {d : NominationDriver X Value} {r₀ : Record Value}

theorem Ready.congr {modified : Bool} {s s' : NominationProtocol X Value}
    (hs : Ready d r₀ modified s) (h : s'.record = s.record) : Ready d r₀ modified s' := by
  unfold Ready Sound
  rwa [h]

theorem Fails.congr {modified : Bool} {s s' : NominationProtocol X Value} {e : Failure}
    (hs : Ready d r₀ modified s) (h : s'.record = s.record ∧ e ≠ badState) : Fails d r₀ e s' :=
  ⟨(hs.congr h.1).1, h.2⟩

/-- A neutral program keeps every property of the record. -/
theorem Neutral.keeps {α : Type} {x : Nomination X Value α} (h : Neutral x) (modified : Bool) :
    Triple (Ready d r₀ modified) x (fun _ => Ready d r₀ modified) (Fails d r₀) := fun s hs =>
  (h s.record s rfl).imp (fun _ _ => hs.congr) fun _ _ => Fails.congr hs

/-- The same with the record under a name. -/
theorem Neutral.keeps_record {α : Type} {x : Nomination X Value α} (h : Neutral x) {modified : Bool}
    {s : NominationProtocol X Value} (hs : Ready d r₀ modified s) :
    Triple (·.record = s.record) x (fun _ s' => s'.record = s.record) (Fails d r₀) := fun s' hs' =>
  (h s.record s' hs').imp (fun _ _ h => h) fun _ _ => Fails.congr hs

theorem Ready.vote {modified : Bool} {s : NominationProtocol X Value} {v : Value}
    (h : Ready d r₀ modified s) (hv : v ∉ s.mVotes) :
    Ready d r₀ true { s with mVotes := insert v s.mVotes } :=
  ⟨⟨h.1.1.vote v, h.1.2.trans (grows_vote _ v)⟩, fun _ => h.1.1.unsent_vote hv⟩

theorem Ready.accept {modified : Bool} {s : NominationProtocol X Value} {v : Value}
    (h : Ready d r₀ modified s) (hv : v ∉ s.mAccepted) :
    Ready d r₀ true { s with mAccepted := insert v s.mAccepted, mVotes := insert v s.mVotes } :=
  ⟨⟨h.1.1.accept v, h.1.2.trans (grows_accept _ v)⟩, fun _ => h.1.1.unsent_accept hv⟩

theorem Ready.candidate {modified : Bool} {s : NominationProtocol X Value} {a : Value}
    (h : Ready d r₀ modified s) (ha : a ∈ s.mAccepted) :
    Ready d r₀ modified { s with mCandidates := insert a s.mCandidates } :=
  ⟨⟨h.1.1.candidate ha, h.1.2.trans (grows_candidate _ a)⟩,
    fun hm => (h.2 hm).mono (grows_candidate _ a) rfl⟩

variable [Inhabited Value]

theorem Inv.new (localNodeID : NodeID) (outside : X) :
    Inv localNodeID (new outside : NominationProtocol X Value).record where
  candidates := subset_rfl
  accepted := subset_rfl
  latest := List.Pairwise.nil
  own _ h := by cases h
  last _ h := by cases h
  forward := { sane := fun _ h => (by cases h), newer := List.Pairwise.nil }
  behind _ h := by cases h

/-! ## Calls that leave the record as it is -/

variable (d)

theorem neutral_hashNode (isPriority : Bool) (nodeID : NodeID) : Neutral (hashNode d isPriority nodeID) :=
  fun _ => Triple.get_bind fun s hs => hs ▸
    ((neutral_dbgAssert d _ _).from s).bind fun _ => neutral_call _ _

theorem neutral_hashValue (value : Value) : Neutral (hashValue d value) :=
  fun _ => Triple.get_bind fun s hs => hs ▸
    ((neutral_dbgAssert d _ _).from s).bind fun _ => neutral_call _ _

theorem neutral_getNodePriority (nodeID : NodeID) (qset : SCPQuorumSet) :
    Neutral (getNodePriority d nodeID qset) :=
  fun r => (neutral_hashNode d false nodeID r).bind fun _ =>
    Triple.ite (fun _ => neutral_hashNode d true nodeID r) fun _ => Triple.pure fun _ hs => hs

theorem neutral_considerLeader (qset : SCPQuorumSet) (topPriority : ℕ) (cur : NodeID) :
    Neutral (considerLeader d qset topPriority cur) := by
  intro r
  refine (neutral_getNodePriority d cur qset r).bind fun w => ?_
  refine Triple.bind (Q := fun _ (s : NominationProtocol X Value) => s.record = r) ?_ fun _ => ?_
  · exact Triple.onlyIf (fun _ => Triple.modify fun _ hs => hs) fun _ _ hs => hs
  · refine Triple.bind (Q := fun _ (s : NominationProtocol X Value) => s.record = r) ?_ fun _ =>
      Triple.pure fun _ hs => hs
    exact Triple.onlyIf (fun _ => Triple.modify fun _ hs => hs) fun _ _ hs => hs

theorem neutral_updateRoundLeaders : Neutral (updateRoundLeaders d) := by
  intro r
  refine Triple.get_bind fun s hs => ?_
  refine Triple.bind (Q := fun _ s => s.record = r) (Triple.modify fun _ hs' => hs' ▸ hs) fun _ => ?_
  refine (neutral_getNodePriority d _ _ r).bind fun topPriority => ?_
  refine Triple.bind (Q := fun _ (s : NominationProtocol X Value) => s.record = r) ?_ fun _ => Triple.pure fun _ hs => hs
  exact Triple.foldlM (I := fun _ (s : NominationProtocol X Value) => s.record = r)
    (fun topPriority cur _ => neutral_considerLeader d _ topPriority cur r) topPriority

/-! ## What each part of the protocol keeps -/

/-- What a leader's statement gives is empty or a value that the node does not vote for yet. -/
theorem triple_getNewValueFromNomination (r : Record Value) (nom : SCPNomination Value) :
    Triple (·.record = r) (getNewValueFromNomination d nom)
      (fun newVote s => s.record = r ∧ (newVote ≠ default → newVote ∉ r.votes))
      fun e s => s.record = r ∧ e ≠ badState := by
  have hloop : Triple (fun s => s.record = r ∧ ((default : Value) ≠ default → default ∉ r.votes))
      ((values nom).foldlM (considerValue d) (default, 0))
      (fun best s => s.record = r ∧ (best.1 ≠ default → best.1 ∉ r.votes))
      fun e s => s.record = r ∧ e ≠ badState :=
    Triple.foldlM (I := fun best (s : NominationProtocol X Value) =>
      s.record = r ∧ (best.1 ≠ default → best.1 ∉ r.votes)) ?_ (default, 0)
  · exact (hloop.pre fun s hs => ⟨hs, fun h => absurd rfl h⟩).bind fun best => Triple.pure fun _ hs => hs
  intro best value _
  refine Triple.assume fun hbest => ?_
  refine (neutral_getValueToNominate d value r).bind fun valueToNominate => ?_
  refine Triple.get_bind fun s hs => ?_
  subst hs
  refine Triple.ite (fun hnew => ?_) fun _ => Triple.pure fun s' hs' => ⟨congrArg record hs', hbest⟩
  refine ((neutral_hashValue d valueToNominate).from s).bind fun curHash => ?_
  refine Triple.pure fun s' hs' => ⟨hs', ?_⟩
  split_ifs
  · exact fun _ => hnew.2
  · exact hbest

theorem triple_promoteVote (modified : Bool) (v : Value) :
    Triple (Ready d r₀ modified) (promoteVote d modified v) (Ready d r₀) (Fails d r₀) := by
  refine Triple.get_bind fun s hs => ?_
  have hskip : Triple (·.record = s.record) (pure modified : Nomination X Value Bool) (Ready d r₀)
      (Fails d r₀) := Triple.pure fun _ h => hs.congr h
  refine Triple.pre (P := (·.record = s.record)) ?_ fun _ h => congrArg record h
  refine Triple.ite (fun _ => hskip) fun hv => Triple.ite (fun _ => ?_) fun _ => hskip
  refine ((neutral_call _).keeps_record hs).bind fun vl => Triple.ite (fun _ => ?_) fun _ => ?_
  · refine Triple.bind (Triple.modify fun s' h => ?_) fun _ => Triple.pure fun _ h => h
    exact (hs.congr h).accept fun hmem =>
      hv (show v ∈ s.record.accepted from congrArg Record.accepted h ▸ hmem)
  · refine ((neutral_call _).keeps_record hs).bind fun toVote => Triple.get_bind fun s' h => ?_
    refine Triple.ite (fun hnew => ?_) fun _ => Triple.pure fun _ h' => h' ▸ hs.congr h
    refine Triple.bind (Triple.modify fun _ h' => ?_) fun _ => Triple.pure fun _ h => h
    exact h' ▸ (hs.congr h).vote hnew.2

omit [Inhabited Value] in
theorem triple_promoteAccepted (modified newCandidates : Bool) {a : Value} {r : Record Value}
    (ha : a ∈ r.accepted) :
    Triple (fun s => Ready d r₀ modified s ∧ r.accepted ⊆ s.mAccepted) (promoteAccepted d newCandidates a)
      (fun _ s => Ready d r₀ modified s ∧ r.accepted ⊆ s.mAccepted) (Fails d r₀) := by
  refine Triple.get_bind fun s hs => ?_
  have hskip : Triple (· = s) (pure newCandidates : Nomination X Value Bool)
      (fun _ s => Ready d r₀ modified s ∧ r.accepted ⊆ s.mAccepted) (Fails d r₀) :=
    Triple.pure fun _ h => h ▸ hs
  refine Triple.ite (fun _ => hskip) fun _ => Triple.ite (fun _ => ?_) fun _ => hskip
  refine Triple.bind (Triple.modify fun _ h => ?_) fun _ => Triple.pure fun _ h => h
  exact h ▸ ⟨hs.1.candidate (hs.2 ha), hs.2⟩

theorem triple_takeLeaderVote (modified : Bool) (st : SCPStatement (SCPNomination Value)) :
    Triple (Ready d r₀ modified) (takeLeaderVote d modified st) (Ready d r₀) (Fails d r₀) := by
  refine Triple.get_bind fun s hs => ?_
  refine Triple.ite (fun _ => ?_) fun _ => Triple.pure fun _ h => h ▸ hs
  have hvote := (triple_getNewValueFromNomination d s.record st.pledges).pre
    fun s' (h : s' = s) => congrArg record h
  refine Triple.bind (fun s' hs' => (hvote s' hs').imp (fun _ _ h => h) fun _ _ => Fails.congr hs)
    fun newVote => ?_
  refine Triple.assume fun hnew => Triple.ite (fun hne => ?_) fun _ => Triple.pure fun _ => hs.congr
  refine Triple.bind (Q := fun _ => Ready d r₀ true) (Triple.modify fun s' h => ?_) fun _ => ?_
  · exact (hs.congr h).vote fun hmem => hnew hne (congrArg Record.votes h ▸ hmem)
  · exact ((neutral_call _).keeps true).bind fun _ => Triple.pure fun _ h => h

/-! ## Emission and processing -/

/-- An envelope of the node itself says all that the node votes for and accepted, and something of it is
not sent yet. -/
structure Current (d : NominationDriver X Value) (s : NominationProtocol X Value)
    (env : SCPEnvelope (SCPNomination Value)) : Prop where
  votes : env.statement.pledges.votes = s.mVotes.sort
  accepted : env.statement.pledges.accepted = s.mAccepted.sort
  unsent : Unsent d.localNodeID s.record

omit [Inhabited Value] in
theorem Current.ordered {s : NominationProtocol X Value} {env : SCPEnvelope (SCPNomination Value)}
    (h : Current d s env) : Ordered env.statement.pledges where
  votes := h.votes ▸ (Finset.sortedLT_sort s.mVotes).pairwise
  accepted := h.accepted ▸ (Finset.sortedLT_sort s.mAccepted).pairwise

omit [Inhabited Value] in
theorem Current.isSane {s : NominationProtocol X Value} {env : SCPEnvelope (SCPNomination Value)}
    (h : Current d s env) : isSane env.statement.pledges = true := by
  have hne : 0 < env.statement.pledges.votes.length := by
    rw [h.votes, Finset.length_sort]
    exact Finset.card_pos.mpr h.unsent.nonempty
  unfold NominationProtocol.isSane
  rw [(ascending_iff _).mpr h.ordered.votes, (ascending_iff _).mpr h.ordered.accepted,
    Bool.and_true, Bool.and_true, bne_iff_ne]
  omega

omit [Inhabited Value] in
theorem Current.isNewer {s : NominationProtocol X Value} {env : SCPEnvelope (SCPNomination Value)}
    (h : Current d s env) (hs : Inv d.localNodeID s.record)
    (hid : env.statement.nodeID = d.localNodeID) : s.isNewer env.statement = true := by
  unfold NominationProtocol.isNewer
  rw [hid, Option.all_eq_true]
  intro old hold
  have hwithin := hs.own old hold
  rw [isNewerStatement_iff hwithin.ordered h.ordered, h.votes, h.accepted]
  refine ⟨⟨fun v hv => (Finset.mem_sort _).mpr (hwithin.votes v hv),
    fun v hv => (Finset.mem_sort _).mpr (hwithin.accepted v hv)⟩, fun hback => ?_⟩
  rcases h.unsent.own old hold with ⟨v, hv, hnot⟩ | ⟨v, hv, hnot⟩
  · exact hnot (hback.1 ((Finset.mem_sort _).mpr hv))
  · exact hnot (hback.2 ((Finset.mem_sort _).mpr hv))

/-- What is asked of the function that processes envelopes: it keeps the invariant, and finds the
current statement of the node itself valid. -/
def ProcessSpec (d : NominationDriver X Value)
    (process : SCPEnvelope (SCPNomination Value) → Nomination X Value EnvelopeState) : Prop :=
  ∀ r₀ env, Triple
    (fun s => Sound d r₀ s ∧ (env.statement.nodeID = d.localNodeID → Current d s env)) (process env)
    (fun res s => Sound d r₀ s ∧ (env.statement.nodeID = d.localNodeID → res = .VALID)) (Fails d r₀)

omit [Inhabited Value] in
theorem triple_createEnvelope {s : NominationProtocol X Value} (hs : Ready d r₀ true s)
    (st : SCPStatement (SCPNomination Value)) :
    Triple (· = s) (createEnvelope d st) (fun env s' => s'.record = s.record ∧ env.statement = st)
      (Fails d r₀) :=
  (((neutral_call _).keeps_record hs).bind fun _ => Triple.pure fun _ h => ⟨h, rfl⟩).pre
    fun _ h => congrArg record h

omit [Inhabited Value] in
theorem triple_emitNomination
    {process : SCPEnvelope (SCPNomination Value) → Nomination X Value EnvelopeState}
    (hprocess : ProcessSpec d process) :
    Triple (Ready d r₀ true) (emitNomination d process) (fun _ => Sound d r₀) (Fails d r₀) := by
  refine Triple.get_bind fun s hs => (triple_createEnvelope d hs _).bind fun env => ?_
  refine Triple.assume fun hst => ?_
  have hid : env.statement.nodeID = d.localNodeID := congrArg SCPStatement.nodeID hst
  have hcurrent : ∀ s' : NominationProtocol X Value, s'.record = s.record → Current d s' env := by
    intro s' h
    refine ⟨?_, ?_, (hs.congr h).2 rfl⟩
    · rw [hst]
      exact congrArg (fun r : Record Value => r.votes.sort) h.symm
    · rw [hst]
      exact congrArg (fun r : Record Value => r.accepted.sort) h.symm
  refine Triple.bind ((hprocess r₀ env).pre fun s' h => ⟨(hs.congr h).1, fun _ => hcurrent s' h⟩)
    fun res => Triple.assume fun hres => ?_
  rw [if_pos (hres hid)]
  refine Triple.get_bind fun s' hs' => Triple.ite (fun hlast => ?_) fun _ => Triple.pure fun _ h => h ▸ hs'
  have hsane := (hcurrent s rfl).isSane
  have hnewer : ∀ last, s'.record.last = some last →
      isNewerStatement last.statement.pledges env.statement.pledges = true := by
    rw [hst]
    exact (Option.all_eq_true _ _).mp hlast
  refine Triple.bind (Q := fun _ s'' => s'' = { s' with mLastEnvelope := some env })
    (Triple.modify fun _ h => h ▸ rfl) fun _ => Triple.get_bind fun s'' hs'' => ?_
  subst hs''
  have hset : Sound d r₀ { s' with mLastEnvelope := some env } :=
    ⟨hs'.1.setLast hsane hnewer,
      ⟨hs'.2.votes, hs'.2.accepted, hs'.2.candidates, hs'.2.emitted⟩⟩
  refine Triple.onlyIf (fun _ => ?_) fun _ _ h => h ▸ hset
  refine Triple.bind (Q := fun _ => Ready d r₀ false) (Triple.modify fun _ h => ?_) fun _ => ?_
  · subst h
    refine ⟨⟨hs'.1.emit hsane hnewer, ?_⟩, nofun⟩
    exact ⟨hs'.2.votes, hs'.2.accepted, hs'.2.candidates,
      hs'.2.emitted.trans (List.suffix_cons env _)⟩
  · exact ((neutral_call _).keeps false).post fun _ _ h => h.1

theorem triple_advance
    {process : SCPEnvelope (SCPNomination Value) → Nomination X Value EnvelopeState}
    (hprocess : ProcessSpec d process) (st : SCPStatement (SCPNomination Value)) :
    Triple (Sound d r₀) (advance d process st) (fun _ => Sound d r₀) (Fails d r₀) := by
  have hvotes : Triple (Ready d r₀ false) (st.pledges.votes.foldlM (promoteVote d) false) (Ready d r₀)
      (Fails d r₀) :=
    Triple.foldlM (fun modified v _ => triple_promoteVote d modified v) false
  refine Triple.bind (hvotes.pre fun s h => ⟨h, nofun⟩) fun modified => ?_
  refine Triple.get_bind fun s hs => ?_
  have haccepted := Triple.foldlM (l := s.mAccepted.sort)
    (I := fun (_ : Bool) s' => Ready d r₀ modified s' ∧ s.record.accepted ⊆ s'.mAccepted)
    (fun newCandidates a ha =>
      triple_promoteAccepted d modified newCandidates ((Finset.mem_sort _).mp ha)) false
  refine Triple.bind (haccepted.pre fun _ h => ?_) fun newCandidates => ?_
  · subst h
    exact ⟨hs, subset_rfl⟩
  refine Triple.bind ((triple_takeLeaderVote d modified st).pre fun _ h => h.1) fun modified' => ?_
  refine Triple.bind (Q := fun _ => Sound d r₀) ?_ fun _ => ?_
  · refine Triple.onlyIf (fun h => ?_) fun _ _ h => h.1
    exact h ▸ triple_emitNomination d hprocess
  · refine Triple.onlyIf (fun _ => ?_) fun _ _ h => h
    exact (((neutral_announceCandidates d).keeps false).pre fun _ h => ⟨h, nofun⟩).post fun _ _ h => h.1

/-- By induction on the fuel: a call in the recursion is about the node's own, current statement. -/
theorem processSpec_processEnvelope (fuel : ℕ) : ProcessSpec d (processEnvelope d fuel) := by
  induction fuel with
  | zero => exact fun r₀ env => Triple.throw fun s hs => ⟨hs.1, nofun⟩
  | succ fuel ih =>
    intro r₀ env
    refine Triple.get_bind fun s hs => Triple.ite (fun _ => ?_) fun hnot => Triple.pure fun _ h => ?_
    · have hrecord : Sound d r₀
          { s with mLatestNominations := LocalNode.insertOrAssign s.mLatestNominations env } := by
        refine ⟨hs.1.1.recordEnvelope fun hid => ?_, hs.1.2.votes, hs.1.2.accepted,
          hs.1.2.candidates, hs.1.2.emitted⟩
        have hcurrent := hs.2 hid
        refine ⟨hcurrent.ordered, fun v hv => ?_, fun v hv => ?_⟩
        · exact (Finset.mem_sort _).mp (hcurrent.votes ▸ hv)
        · exact (Finset.mem_sort _).mp (hcurrent.accepted ▸ hv)
      refine Triple.bind (Q := fun _ => Sound d r₀) (Triple.modify fun _ h => h ▸ hrecord) fun _ => ?_
      refine Triple.bind (Q := fun _ => Sound d r₀) ?_ fun _ => Triple.pure fun _ h => ⟨h, fun _ => rfl⟩
      exact Triple.onlyIf (fun _ => triple_advance d ih env.statement) fun _ _ h => h
    · subst h
      refine ⟨hs.1, fun hid => absurd ⟨?_, ?_⟩ hnot⟩
      · exact (hs.2 hid).isNewer d hs.1.1 hid
      · exact (hs.2 hid).isSane d

theorem triple_voteWithLeader (acc : Value × Bool) (leader : NodeID) :
    Triple (Ready d r₀ acc.2) (voteWithLeader d acc leader) (fun acc => Ready d r₀ acc.2)
      (Fails d r₀) := by
  refine Triple.get_bind fun s hs => ?_
  cases LocalNode.find s.mLatestNominations leader with
  | none => exact Triple.pure fun _ h => h ▸ hs
  | some it =>
    have hvote := (triple_getNewValueFromNomination d s.record it.statement.pledges).pre
      fun s' (h : s' = s) => congrArg record h
    refine Triple.bind (fun s' hs' => (hvote s' hs').imp (fun _ _ h => h) fun _ _ => Fails.congr hs)
      fun newVote => ?_
    refine Triple.assume fun hnew => Triple.ite (fun hne => ?_) fun _ => Triple.pure fun _ => hs.congr
    refine Triple.bind (Triple.modify fun s' h => ?_) fun _ => Triple.pure fun _ h => h
    exact (hs.congr h).vote fun hmem => hnew hne (congrArg Record.votes h ▸ hmem)

theorem triple_chooseVotes (value : Value) :
    Triple (Sound d r₀) (chooseVotes d value) (fun chosen => Ready d r₀ chosen.2) (Fails d r₀) := by
  refine Triple.get_bind fun s hs => Triple.ite (fun _ => ?_) fun _ => ?_
  · refine Triple.bind (Q := fun _ => Ready d r₀ (decide (value ∉ s.mVotes))) ?_ fun _ =>
      Triple.pure fun _ h => h
    refine Triple.modify fun _ h => ?_
    subst h
    refine ⟨⟨hs.1.vote value, hs.2.trans (grows_vote _ value)⟩, fun hnew => ?_⟩
    exact hs.1.unsent_vote (of_decide_eq_true hnew)
  · exact (Triple.foldlM (fun acc leader _ => triple_voteWithLeader d acc leader) _).pre
      fun _ h => h ▸ ⟨hs, nofun⟩

theorem triple_nominate (fuel : ℕ) (value previousValue : Value) (timedout : Bool) :
    Triple (Sound d r₀) (nominate d fuel value previousValue timedout) (fun _ => Sound d r₀)
      (Fails d r₀) := by
  refine Triple.get_bind fun s hs => Triple.ite (fun _ => Triple.pure fun _ h => h ▸ hs) fun _ => ?_
  refine Triple.bind (Q := fun _ => Ready d r₀ false) (Triple.modify fun _ h => ?_) fun _ => ?_
  · exact h ▸ ⟨hs, nofun⟩
  refine ((neutral_updateRoundLeaders d).keeps false).bind fun _ => ?_
  refine Triple.bind ((triple_chooseVotes d value).pre fun _ h => h.1) fun chosen => ?_
  refine Triple.get_bind fun s' hs' => ?_
  refine Triple.pre (P := Ready d r₀ chosen.2) ?_ fun _ h => h ▸ hs'
  refine ((neutral_call _).keeps chosen.2).bind fun timeout => ?_
  refine ((neutral_call _).keeps chosen.2).bind fun _ => ?_
  refine ((neutral_call _).keeps chosen.2).bind fun _ => ?_
  refine Triple.bind (Q := fun _ => Sound d r₀) ?_ fun _ => Triple.pure fun _ h => h
  refine Triple.onlyIf (fun h => ?_) fun _ _ h => h.1
  exact h ▸ triple_emitNomination d (processSpec_processEnvelope d fuel)

/-! ## Runs -/

theorem triple_handle (fuel : ℕ) (event : Event X Value) :
    Triple (Sound d r₀) (handle d fuel event) (fun _ => Sound d r₀) (Fails d r₀) := by
  cases event with
  | nominate value previousValue timedout =>
    exact Triple.map _ (triple_nominate d fuel value previousValue timedout)
  | recvSCPEnvelope env =>
    refine Triple.onlyIf (fun hid => Triple.map _ ?_) fun _ _ h => h
    exact ((processSpec_processEnvelope d fuel r₀ env).pre fun _ h => ⟨h, fun h' => absurd h' hid⟩).post
      fun _ _ h => h.1
  | stopNomination => exact Triple.modify fun _ h => h
  | outside x => exact Triple.modify fun _ h => h

theorem ends_handle (fuel : ℕ) (event : Event X Value) {s : NominationProtocol X Value}
    (hs : Inv d.localNodeID s.record) :
    Ends (fun _ => Sound d s.record) (Fails d s.record) (handle d fuel event s) :=
  triple_handle d fuel event s ⟨hs, Grows.refl _⟩

theorem inv_step (fuel : ℕ) (event : Event X Value) {s : NominationProtocol X Value}
    (hs : Inv d.localNodeID s.record) : Inv d.localNodeID (step d fuel s event).record :=
  ((ends_handle d fuel event hs).after (fun _ _ h => h) fun _ _ h => h.1).1

theorem grows_step (fuel : ℕ) (event : Event X Value) {s : NominationProtocol X Value}
    (hs : Inv d.localNodeID s.record) : Grows s.record (step d fuel s event).record :=
  ((ends_handle d fuel event hs).after (fun _ _ h => h) fun _ _ h => h.1).2

theorem handle_ne_badState (fuel : ℕ) (event : Event X Value) {s s' : NominationProtocol X Value}
    (hs : Inv d.localNodeID s.record) : handle d fuel event s ≠ .error badState s' := by
  intro h
  have hends := ends_handle d fuel event hs
  rw [h] at hends
  exact hends.2 rfl

theorem throughout_inv (fuel : ℕ) (outside : X) (events : List (Event X Value)) :
    Throughout (step d fuel) (fun s => Inv d.localNodeID s.record) (new outside) events :=
  throughout_of_step (I := fun s : NominationProtocol X Value => Inv d.localNodeID s.record)
    (fun _ event hs => inv_step d fuel event hs) (Inv.new d.localNodeID outside) events

/-- In every run from a fresh slot the candidates are accepted and the accepted values voted for, and the
emitted statements are sane and go forward; no step takes anything from the three sets, and none finds
the node's own statement invalid. -/
theorem nomination_run (fuel : ℕ) (outside : X) (events : List (Event X Value)) :
    Throughout (step d fuel)
        (fun s => s.mCandidates ⊆ s.mAccepted ∧ s.mAccepted ⊆ s.mVotes ∧ Forward s.emitted)
        (new outside) events ∧
      EachStep (step d fuel)
        (fun s event => Grows s.record (step d fuel s event).record ∧
          ∀ s', handle d fuel event s ≠ .error badState s') (new outside) events := by
  have hinv := throughout_inv d fuel outside events
  refine ⟨hinv.mono fun s hs => ⟨hs.candidates, hs.accepted, hs.forward⟩, ?_⟩
  exact eachStep_of_throughout
    (fun s event hs _ => ⟨grows_step d fuel event hs, fun _ => handle_ne_badState d fuel event hs⟩) hinv

/-! ## An envelope in the node's own name -/

/-- A node that is its own quorum. -/
def loneNode : NominationDriver Unit (List (Fin 256)) where
  NDEBUG := true
  slotIndex := 1
  localNodeID := 1
  getQuorumSet _ := .mk 1 [1] []
  getQuorumSetHash _ := 7
  getQSet _ hash := if hash = 7 then some (.mk 1 [1] []) else none
  isFullyValidated _ := true
  signEnvelope _ := return []
  emitEnvelope _ := return ()
  validateValue _ := return .kFullyValidatedValue
  extractValidValue value := return value
  computeHashNode _ _ _ _ := return 0
  computeValueHash _ _ _ := return 0
  combineCandidates _ := return [9]
  computeTimeout _ := return 0
  setupTimer _ := return ()
  nominatingValue _ := return ()
  updatedCandidateValue _ := return ()
  bumpState _ := return ()

/-- A vote of the node for a value that it does not nominate. -/
def ownVote : SCPEnvelope (SCPNomination (List (Fin 256))) := ⟨⟨1, 1, ⟨7, [[5]], []⟩⟩, []⟩

/-- `processEnvelope` records any sane envelope of the node itself, and what the node then says of its own
votes is not newer: only the herder keeps such envelopes away. -/
theorem nominate_badState :
    isSane ownVote.statement.pledges = true ∧
      ¬ ∀ s', nominate loneNode 4 [3] [1] false (after (processEnvelope loneNode 4 ownVote (new ()))) ≠
        .error badState s' := by
  refine ⟨by decide, fun h => ?_⟩
  have hthrows : thrown? (nominate loneNode 4 [3] [1] false
      (after (processEnvelope loneNode 4 ownVote (new ())))) = some badState := by decide +kernel
  exact h _ (eq_error_of_thrown? hthrows)

end ZaggCore.Scp.NominationProtocol
