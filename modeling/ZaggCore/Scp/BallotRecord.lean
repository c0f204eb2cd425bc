import ZaggCore.Foundations.FederatedVoting
import ZaggCore.Scp.BallotOrder

/-! # What honest nodes may say

The ballot protocol as federated voting: what a node says of a ballot is based on what it heard, and follows
what it said before. In a record in which every statement of an honest node is justified in this way, no
ballot is accepted as prepared above and incompatible with one that a quorum voted to commit, so that all
commits are of one value. -/

namespace ZaggCore.Scp
open Foundations BallotProtocol
set_option autoImplicit false
set_option maxHeartbeats 250000

variable {Value : Type}

/-! ## Statements -/

/-- The quorum set of an EXTERNALIZE is its node alone. -/
def Final : BallotPledges Value → Prop
  | .externalize .. => True
  | _ => False

/-- The value that a CONFIRM or an EXTERNALIZE commits to. -/
def committed : BallotPledges Value → Option Value
  | .prepare .. => none
  | .confirm b .. => some b.value
  | .externalize c .. => some c.value

/-- A PREPARE that votes to commit the ballot. -/
def VotesCommit (b : SCPBallot Value) : BallotPledges Value → Prop
  | .prepare _ ballot _ _ nC nH => nC ≠ 0 ∧ ballot.value = b.value ∧ nC ≤ b.counter ∧ b.counter ≤ nH
  | _ => False

/-- The statements of an honest node, the latest first. -/
abbrev BallotRecord (Value : Type) := List (NodeID × BallotPledges Value)

/-- What one of the nodes said. -/
def saidBy (log : BallotRecord Value) (n : NodeID) : List (BallotPledges Value) :=
  (log.filter fun e => decide (e.1 = n)).map Prod.snd

theorem mem_saidBy {log : BallotRecord Value} {n : NodeID} {st : BallotPledges Value} :
    st ∈ saidBy log n ↔ (n, st) ∈ log := by
  unfold saidBy
  simp only [List.mem_map, List.mem_filter, decide_eq_true_eq, Prod.exists]
  constructor
  · rintro ⟨m, st', ⟨hmem, rfl⟩, rfl⟩
    exact hmem
  · exact fun h => ⟨n, st, ⟨h, rfl⟩, rfl⟩

section Kinds

variable {b : SCPBallot Value} {st : BallotPledges Value}

theorem VotesCommit.committed_eq_none (h : VotesCommit b st) : committed st = none := by
  cases st with
  | prepare => rfl
  | confirm => exact h.elim
  | externalize => exact h.elim

theorem VotesCommit.not_final (h : VotesCommit b st) : ¬ Final st := by
  cases st with
  | prepare => exact id
  | confirm => exact h.elim
  | externalize => exact h.elim

/-- A quorum of PREPARE statements that vote to commit the ballot. -/
def Rooted (T : Trust NodeID) (log : BallotRecord Value) (b : SCPBallot Value) : Prop :=
  ∃ U, T.Quorum U ∧ T.Heard log (VotesCommit b) U

theorem Rooted.mono {T : Trust NodeID} {log log' : BallotRecord Value} (h : Rooted T log b)
    (hlog : log ⊆ log') : Rooted T log' b := by
  obtain ⟨U, hquorum, hheard⟩ := h
  exact ⟨U, hquorum, hheard.mono (Trust.covers_of_subset hlog)⟩

end Kinds

variable [LinearOrder Value]

section Statements

variable {q q' b : SCPBallot Value} {st : BallotPledges Value}

/-- Above the ballot and incompatible with it. -/
def Conflicts (b q : SCPBallot Value) : Prop := b < q ∧ q.value ≠ b.value

theorem hasPreparedBallot_mono (hle : q ≤ q') (hv : q.value = q'.value)
    (h : hasPreparedBallot q' st = true) : hasPreparedBallot q st = true := by
  cases st with
  | prepare _ _ p p' =>
    simp only [hasPreparedBallot, Bool.or_eq_true, Option.any_eq_true,
      areBallotsLessAndCompatible_iff] at h ⊢
    obtain ⟨r, hr, hle', hv'⟩ | ⟨r, hr, hle', hv'⟩ := h
    · exact .inl ⟨r, hr, hle.trans hle', hv.trans hv'⟩
    · exact .inr ⟨r, hr, hle.trans hle', hv.trans hv'⟩
  | confirm =>
    simp only [hasPreparedBallot, areBallotsLessAndCompatible_iff] at h ⊢
    exact ⟨hle.trans h.1, hv.trans h.2⟩
  | externalize =>
    simp only [hasPreparedBallot, areBallotsCompatible_iff] at h ⊢
    exact hv.trans h

/-- The ballots that a PREPARE has prepared are `p` and `p'` and what is below them. -/
theorem hasPreparedBallot_prepare {hash : Hash} {b : SCPBallot Value} {p p' : Option (SCPBallot Value)}
    {nC nH : Uint32} (h : hasPreparedBallot q (.prepare hash b p p' nC nH) = true) :
    ∃ r, (p = some r ∨ p' = some r) ∧ q ≤ r ∧ q.value = r.value := by
  simp only [hasPreparedBallot, Bool.or_eq_true, Option.any_eq_true,
    areBallotsLessAndCompatible_iff] at h
  obtain ⟨r, hr, hle⟩ | ⟨r, hr, hle⟩ := h
  · exact ⟨r, .inl hr, hle⟩
  · exact ⟨r, .inr hr, hle⟩

/-- From CONFIRM on a statement speaks of no other value than that of its commit. -/
theorem value_of_hasPrepared {v : Value} (hc : committed st = some v) (h : hasPreparedBallot q st = true) :
    q.value = v := by
  cases st with
  | prepare => cases hc
  | confirm b =>
    simp only [hasPreparedBallot, areBallotsLessAndCompatible_iff] at h
    exact h.2.trans (Option.some.inj hc)
  | externalize c =>
    simp only [hasPreparedBallot, areBallotsCompatible_iff] at h
    exact h.trans (Option.some.inj hc)

theorem votesToPrepare_of_committed (hc : committed st = some q.value) : votesToPrepare q st = true := by
  cases st with
  | prepare => cases hc
  | confirm b =>
    simp only [votesToPrepare, areBallotsCompatible_iff]
    exact (Option.some.inj hc).symm
  | externalize c =>
    simp only [votesToPrepare, areBallotsCompatible_iff]
    exact (Option.some.inj hc).symm

theorem value_of_votesToPrepare {v : Value} (hc : committed st = some v)
    (h : votesToPrepare q st = true) : q.value = v := by
  cases st with
  | prepare => cases hc
  | confirm b =>
    simp only [votesToPrepare, areBallotsCompatible_iff] at h
    exact h.trans (Option.some.inj hc)
  | externalize c =>
    simp only [votesToPrepare, areBallotsCompatible_iff] at h
    exact h.trans (Option.some.inj hc)

/-- Only a commit can be accepted. -/
theorem committed_of_commitPredicate {check : Uint32 × Uint32} (h : commitPredicate b check st = true) :
    committed st = some b.value := by
  cases st with
  | prepare => cases h
  | confirm c =>
    simp only [commitPredicate, Bool.and_eq_true, areBallotsCompatible_iff] at h
    exact congrArg some h.1.1.symm
  | externalize c =>
    simp only [commitPredicate, Bool.and_eq_true, areBallotsCompatible_iff] at h
    exact congrArg some h.1.symm

/-- A vote to commit an interval is that of a PREPARE, or follows from a commit of the value. -/
theorem votesToCommit_cases {lo hi : Uint32} (hle : lo ≤ hi) (h : votesToCommit b (lo, hi) st = true) :
    committed st = some b.value ∨ VotesCommit ⟨lo, b.value⟩ st := by
  cases st with
  | prepare _ ballot _ _ nC nH =>
    simp only [votesToCommit, Bool.and_eq_true, areBallotsCompatible_iff, decide_eq_true_eq] at h
    obtain ⟨⟨⟨hv, h0⟩, hC⟩, hH⟩ := h
    exact .inr ⟨h0, hv.symm, hC, hle.trans hH⟩
  | confirm c =>
    simp only [votesToCommit, Bool.and_eq_true, areBallotsCompatible_iff] at h
    exact .inl (congrArg some h.1.symm)
  | externalize c =>
    simp only [votesToCommit, Bool.and_eq_true, areBallotsCompatible_iff] at h
    exact .inl (congrArg some h.1.symm)

end Statements

/-! ## Justified records -/

section Grounds

variable (T : Trust NodeID) (log : BallotRecord Value) (n : NodeID)

def AcceptsPrepared (q : SCPBallot Value) : Prop :=
  T.Accepts log Final (fun st => votesToPrepare q st) (fun st => hasPreparedBallot q st) n

def ConfirmsPrepared (q : SCPBallot Value) : Prop :=
  T.Ratifies log Final (fun st => hasPreparedBallot q st) n

def AcceptsCommit (b : SCPBallot Value) (interval : Uint32 × Uint32) : Prop :=
  T.Accepts log Final (fun st => votesToCommit b interval st) (fun st => commitPredicate b interval st) n

def ConfirmsCommit (b : SCPBallot Value) (interval : Uint32 × Uint32) : Prop :=
  T.Ratifies log Final (fun st => commitPredicate b interval st) n

/-- What a statement of the node is based on. -/
def Grounded : BallotPledges Value → Prop
  | .prepare _ b p p' nC nH =>
    (∀ q, p = some q ∨ p' = some q → AcceptsPrepared T log n q) ∧
      (nC ≠ 0 → nH ≤ b.counter ∧ ConfirmsPrepared T log n ⟨nH, b.value⟩)
  | .confirm b _ nC nH _ => nC ≤ nH ∧ AcceptsCommit T log n b (nC, nH)
  | .externalize c nH _ => ConfirmsCommit T log n c (c.counter, nH)

end Grounds

/-- The statement follows what the node said before: a PREPARE comes after others only, it leaves the value of
an earlier vote to commit only after a ballot was accepted that aborts it, and it votes to commit only above
what it voted to prepare on other values. -/
structure Follows (st : BallotPledges Value) (earlier : List (BallotPledges Value)) : Prop where
  phase : committed st = none → ∀ e ∈ earlier, committed e = none
  aborts : committed st = none → ∀ e ∈ earlier, ∀ b q, VotesCommit b e → votesToPrepare q st = true →
    q.value ≠ b.value → ∃ e' ∈ st :: earlier, ∃ r, hasPreparedBallot r e' = true ∧ Conflicts b r
  above : ∀ b, VotesCommit b st → ∀ e ∈ earlier, ∀ q, votesToPrepare q e = true → q.value ≠ b.value → q < b

/-- Every statement is one of an honest node, is grounded in those before it, and follows the node's own. -/
def Justified (T : Trust NodeID) : BallotRecord Value → Prop
  | [] => True
  | (n, st) :: log =>
    (n ∈ T.honest ∧ Grounded T log n st ∧ Follows st (saidBy log n)) ∧ Justified T log

section Justified

variable {T : Trust NodeID} {log log' : BallotRecord Value} {n : NodeID} {st : BallotPledges Value}
  {b q : SCPBallot Value}

theorem Justified.suffix (h : Justified T log) (hsuffix : log' <:+ log) : Justified T log' := by
  obtain ⟨later, rfl⟩ := hsuffix
  induction later with
  | nil => exact h
  | cons e later ih => exact ih h.2

theorem Justified.honest (h : Justified T log) (hst : (n, st) ∈ log) : n ∈ T.honest := by
  obtain ⟨earlier, hsuffix⟩ := exists_earlier hst
  exact (h.suffix hsuffix).1.1

/-- Nothing that was accepted as prepared conflicts with what a quorum voted to commit. -/
def Agreeing (T : Trust NodeID) (log : BallotRecord Value) : Prop :=
  ∀ b, Rooted T log b → ∀ m st, (m, st) ∈ log → ∀ q, hasPreparedBallot q st = true → ¬ Conflicts b q

theorem Agreeing.mono (h : Agreeing T log) (hlog : log' ⊆ log) : Agreeing T log' :=
  fun b hroot m st hst => h b (hroot.mono hlog) m st (hlog hst)

/-- Behind an EXTERNALIZE there is a quorum of commits of its value. -/
theorem exists_quorum_of_final (h : Justified T log) (hst : (n, st) ∈ log) (hfinal : Final st) :
    ∃ V, T.satisfied n V ∧ T.Supports V ∧ T.Heard log (fun e => committed e = committed st) V := by
  induction log generalizing n st with
  | nil => cases hst
  | cons e log ih =>
    obtain ⟨n', st'⟩ := e
    obtain hst | hst := List.mem_cons.mp hst
    · obtain ⟨rfl, rfl⟩ := Prod.mk.inj hst
      cases st with
      | prepare => exact hfinal.elim
      | confirm => exact hfinal.elim
      | externalize c nH hash =>
        obtain ⟨U, hbacks⟩ := h.1.2.1
        obtain ⟨V, hsat, hsup, hheard⟩ := hbacks.exists_quorum
          (ψ := fun e => committed e = some c.value) fun m _ e he hf hφ => by
            have hc := committed_of_commitPredicate hφ
            obtain ⟨V, hsat, hsup, hheard⟩ := ih h.2 he hf
            exact ⟨V, hsat, hsup, fun k hk hhonest => by
              obtain ⟨e', he', heq⟩ := hheard k hk hhonest
              exact ⟨e', he', heq.trans hc⟩⟩
        refine ⟨V, hsat, hsup, fun k hk hhonest => ?_⟩
        obtain ⟨e, he, hφ | hψ⟩ := hheard k hk hhonest
        · exact ⟨e, List.mem_cons_of_mem _ he, committed_of_commitPredicate hφ⟩
        · exact ⟨e, List.mem_cons_of_mem _ he, hψ⟩
    · obtain ⟨V, hsat, hsup, hheard⟩ := ih h.2 hst hfinal
      exact ⟨V, hsat, hsup, hheard.mono (Trust.covers_of_subset (List.subset_cons_self _ _))⟩

/-- A PREPARE that votes to commit a ballot votes to prepare it. -/
theorem votesToPrepare_of_votesCommit {log : BallotRecord Value} (h : Justified T ((n, st) :: log))
    (hvote : VotesCommit b st) : votesToPrepare b st = true := by
  obtain ⟨⟨-, hgrounded, -⟩, -⟩ := h
  cases st with
  | prepare hash ballot p p' nC nH =>
    obtain ⟨h0, hv, -, hH⟩ := hvote
    simp only [votesToPrepare, areBallotsLessAndCompatible_iff]
    exact ⟨(SCPBallot.le_iff_counter hv.symm).mpr (hH.trans (hgrounded.2 h0).1), hv.symm⟩
  | confirm => exact hvote.elim
  | externalize => exact hvote.elim

variable (hT : T.Sound)

include hT

/-- Behind every commit there is a quorum of votes to commit a ballot of its value. -/
theorem exists_rooted_of_committed (h : Justified T log) (hst : (n, st) ∈ log) {v : Value}
    (hc : committed st = some v) : ∃ b, Rooted T log b ∧ b.value = v := by
  induction log generalizing n st with
  | nil => cases hst
  | cons e log ih =>
    obtain ⟨n', st'⟩ := e
    have hearlier : ∀ m e, (m, e) ∈ log → committed e = some v →
        ∃ b, Rooted T ((n', st') :: log) b ∧ b.value = v := by
      intro m e he hce
      obtain ⟨b, hroot, hv⟩ := ih h.2 he hce
      exact ⟨b, hroot.mono (List.subset_cons_self _ _), hv⟩
    obtain hst | hst := List.mem_cons.mp hst
    · obtain ⟨rfl, rfl⟩ := Prod.mk.inj hst
      obtain ⟨⟨hn, hgrounded, -⟩, -⟩ := h
      cases st with
      | prepare => cases hc
      | confirm ballot nPrepared nC nH hash =>
        obtain rfl := Option.some.inj hc
        obtain ⟨hle, ⟨U, hblocks, hheard⟩ | ⟨U, hbacks⟩⟩ := hgrounded
        · obtain ⟨m, hm, hU⟩ := hblocks.exists_honest hT hn
          obtain ⟨e, he, haccepted⟩ := hheard m hU hm
          exact hearlier m e he (committed_of_commitPredicate haccepted)
        · by_cases hsome : ∃ m e, (m, e) ∈ log ∧ committed e = some ballot.value
          · obtain ⟨m, e, he, hce⟩ := hsome
            exact hearlier m e he hce
          -- nobody has committed, so all of them voted in the PREPARE phase
          · push Not at hsome
            have hvotes : ∀ m ∈ U, m ∈ T.honest → ∃ e, (m, e) ∈ log ∧
                VotesCommit ⟨nC, ballot.value⟩ e ∧ (¬ Final e → T.satisfied m U) := by
              intro m hm hhonest
              obtain ⟨e, he, hφ, hsat⟩ := hbacks.heard m hm hhonest
              obtain hvoted | haccepted := hφ
              · exact ⟨e, he, (votesToCommit_cases hle hvoted).resolve_left (hsome m e he), hsat⟩
              · exact absurd (committed_of_commitPredicate haccepted) (hsome m e he)
            refine ⟨⟨nC, ballot.value⟩, ⟨U, ⟨⟨n, hn, hbacks.satisfied⟩, ?_⟩, ?_⟩, rfl⟩
            · intro m hm hhonest
              obtain ⟨e, -, hvote, hsat⟩ := hvotes m hm hhonest
              exact hsat hvote.not_final
            · intro m hm hhonest
              obtain ⟨e, he, hvote, -⟩ := hvotes m hm hhonest
              exact ⟨e, List.mem_cons_of_mem _ he, hvote⟩
      | externalize c nH hash =>
        obtain rfl := Option.some.inj hc
        obtain ⟨U, hbacks⟩ := hgrounded
        obtain ⟨m, -, -, e, he, hφ⟩ := hbacks.exists_said hT hn
        exact hearlier m e he (committed_of_commitPredicate hφ)
    · exact hearlier n st hst hc

/-- Before a vote to commit a ballot it was accepted as prepared. -/
theorem exists_prepared_of_votes (h : Justified T ((n, st) :: log)) (hvote : VotesCommit b st) :
    ∃ m e, (m, e) ∈ log ∧ hasPreparedBallot b e = true := by
  obtain ⟨⟨hn, hgrounded, -⟩, -⟩ := h
  cases st with
  | prepare hash ballot p p' nC nH =>
    obtain ⟨h0, hv, -, hH⟩ := hvote
    obtain ⟨-, U, hbacks⟩ := hgrounded.2 h0
    obtain ⟨m, -, -, e, he, hφ⟩ := hbacks.exists_said hT hn
    change hasPreparedBallot ⟨nH, ballot.value⟩ e = true at hφ
    have hle : b ≤ ⟨nH, ballot.value⟩ := by
      rw [SCPBallot.le_iff_counter (show b.value = (⟨nH, ballot.value⟩ : SCPBallot Value).value from hv.symm)]
      exact hH
    exact ⟨m, e, he, hasPreparedBallot_mono hle hv.symm hφ⟩
  | confirm => exact hvote.elim
  | externalize => exact hvote.elim

theorem Rooted.exists_prepared (h : Justified T log) (hroot : Rooted T log b) :
    ∃ m e, (m, e) ∈ log.tail ∧ hasPreparedBallot b e = true := by
  obtain ⟨U, hquorum, hheard⟩ := hroot
  obtain ⟨m, hm, hU, -⟩ := hT.intersect U U hquorum hquorum
  obtain ⟨st, hst, hvote⟩ := hheard m hU hm
  obtain ⟨earlier, later, rfl⟩ := exists_earlier hst
  obtain ⟨k, e, he, hprepared⟩ := exists_prepared_of_votes hT (h.suffix (List.suffix_append later _)) hvote
  refine ⟨k, e, ?_, hprepared⟩
  cases later with
  | nil => exact he
  | cons first later => simp [he]

/-! ## Agreement -/

/-- A ballot that was accepted in a PREPARE, as the first one in conflict with what a quorum voted to commit. -/
theorem not_rooted_of_prepare {later : BallotRecord Value} (hlater : Justified T later)
    (hsuffix : (n, st) :: log <:+ later) (hprepare : committed st = none)
    (hprepared : hasPreparedBallot q st = true) (hconflicts : Conflicts b q)
    (hfirst : ∀ m e, (m, e) ∈ log → ∀ r, hasPreparedBallot r e = true → ¬ Conflicts b r)
    (hagreeing : Agreeing T log) : ¬ Rooted T later b := by
  rintro ⟨U₁, hquorum₁, hheard₁⟩
  have hjustified := hlater.suffix hsuffix
  obtain ⟨hn, hgrounded, -⟩ := hjustified.1
  cases st with
  | confirm => cases hprepare
  | externalize => cases hprepare
  | prepare hash ballot p p' nC nH =>
    obtain ⟨r, hr, hle, hv⟩ := hasPreparedBallot_prepare hprepared
    have hconflict : Conflicts b r := ⟨hconflicts.1.trans_le hle, hv ▸ hconflicts.2⟩
    -- the first acceptance was by a quorum that voted to prepare the ballot
    obtain ⟨U, hbacks⟩ := (hgrounded.1 r hr).first hT hn
      fun m _ e he haccepted => hfirst m e he r haccepted hconflict
    obtain ⟨U₂, hsat, hsup, hheard₂⟩ := hbacks.exists_quorum (ψ := fun e => votesToPrepare r e = true)
      fun m _ e he hfinal hvoted => by
        obtain ⟨V, hsat, hsup, hheard⟩ := exists_quorum_of_final hjustified.2 he hfinal
        refine ⟨V, hsat, hsup, fun k hk hhonest => ?_⟩
        obtain ⟨e', he', heq⟩ := hheard k hk hhonest
        obtain ⟨v, hc⟩ : ∃ v, committed e = some v := by
          cases e with
          | prepare => exact hfinal.elim
          | confirm => exact hfinal.elim
          | externalize c => exact ⟨c.value, rfl⟩
        have hrv := value_of_votesToPrepare hc hvoted
        exact ⟨e', he', votesToPrepare_of_committed (by rw [heq, hc, hrv])⟩
    obtain ⟨z, hz, ⟨st₁, hst₁, hcommit⟩, st₂, hst₂, hvoted⟩ :=
      hT.exists_common hquorum₁ ⟨⟨n, hn, hsat⟩, hsup⟩ hheard₁ hheard₂
    have hvoted : votesToPrepare r st₂ = true := hvoted.elim id id
    obtain ⟨earlier, hs₂⟩ := exists_earlier hst₂
    have hlog : log <:+ later := (List.suffix_cons _ _).trans hsuffix
    have hfollows₂ := (hlater.suffix (hs₂.trans hlog)).1.2.2
    have hposition := eq_or_earlier_or_later hst₁ (hs₂.trans hlog)
    cases hc : committed st₂ with
    | none =>
      obtain heq | hmem | ⟨earlier', hs₁, hmem⟩ := hposition
      -- one statement does not vote for both
      · obtain rfl := congrArg Prod.snd heq
        cases st₁ with
        | prepare _ c =>
          simp only [votesToPrepare, areBallotsLessAndCompatible_iff] at hvoted
          exact hconflict.2 (hvoted.2.trans hcommit.2.1)
        | confirm => exact hcommit.elim
        | externalize => exact hcommit.elim
      · obtain ⟨st₃, hst₃, r', hprepared', hconflict'⟩ :=
          hfollows₂.aborts hc st₁ (mem_saidBy.mpr hmem) b r hcommit hvoted hconflict.2
        have hmem₃ : (z, st₃) ∈ log := by
          obtain rfl | hst₃ := List.mem_cons.mp hst₃
          · exact hst₂
          · exact hs₂.subset (List.mem_cons_of_mem _ (mem_saidBy.mp hst₃))
        exact hfirst z st₃ hmem₃ r' hprepared' hconflict'
      · have hfollows₁ := (hlater.suffix hs₁).1.2.2
        have hlt := hfollows₁.above b hcommit st₂ (mem_saidBy.mpr hmem) r hvoted hconflict.2
        exact absurd hconflict.1 hlt.asymm
    | some v =>
      obtain heq | hmem | ⟨earlier', hs₁, hmem⟩ := hposition
      · obtain rfl := congrArg Prod.snd heq
        rw [hcommit.committed_eq_none] at hc
        cases hc
      -- the other value was committed with the ballot prepared already
      · obtain ⟨earlier', hs₁⟩ := exists_earlier hmem
        have hs₁' : (z, st₁) :: earlier' <:+ log := hs₁.trans ((List.suffix_cons _ _).trans hs₂)
        obtain ⟨k, e, he, hb⟩ := exists_prepared_of_votes hT (hlater.suffix (hs₁'.trans hlog)) hcommit
        obtain ⟨b', hroot', hv'⟩ := exists_rooted_of_committed hT hjustified.2 hst₂ hc
        have hne : b'.value ≠ b.value := by
          rw [hv', ← value_of_votesToPrepare hc hvoted]
          exact hconflict.2
        have hnot := hagreeing b' hroot' k e (hs₁'.subset (List.mem_cons_of_mem _ he)) b hb
        have hlt : b < b' := by
          refine lt_of_le_of_ne (not_lt.mp fun hlt => hnot ⟨hlt, hne.symm⟩) fun heq => ?_
          exact hne (congrArg SCPBallot.value heq).symm
        obtain ⟨k', e', he', hb'⟩ := hroot'.exists_prepared hT hjustified.2
        exact hfirst k' e' (List.mem_of_mem_tail he') b' hb' ⟨hlt, hne⟩
      · have hfollows₁ := (hlater.suffix hs₁).1.2.2
        have hnone := hfollows₁.phase hcommit.committed_eq_none st₂ (mem_saidBy.mpr hmem)
        rw [hnone] at hc
        cases hc

/-- A ballot that was accepted in a commit, likewise. -/
theorem not_rooted_of_committed {last : NodeID × BallotPledges Value} {later : BallotRecord Value}
    (hlater : Justified T (last :: later)) (hsuffix : (n, st) :: log <:+ last :: later) {v : Value}
    (hc : committed st = some v) (hprepared : hasPreparedBallot q st = true) (hconflicts : Conflicts b q)
    (hfirst : ∀ m e, (m, e) ∈ log → ∀ r, hasPreparedBallot r e = true → ¬ Conflicts b r)
    (hagreeing : Agreeing T later) : ¬ Rooted T (last :: later) b := by
  intro hroot
  have hjustified := hlater.suffix hsuffix
  have hlog : log <:+ later := suffix_of_cons_suffix_cons hsuffix
  -- what was committed was voted for by a quorum as well
  obtain ⟨b', ⟨U₂, hquorum₂, hheard₂⟩, hv'⟩ :=
    exists_rooted_of_committed hT hjustified List.mem_cons_self hc
  have hheard₂ : T.Heard log (VotesCommit b') U₂ := by
    intro m hm hhonest
    obtain ⟨e, he, hvote⟩ := hheard₂ m hm hhonest
    obtain heq | he := List.mem_cons.mp he
    · obtain ⟨rfl, rfl⟩ := Prod.mk.inj heq
      rw [hvote.committed_eq_none] at hc
      cases hc
    · exact ⟨e, he, hvote⟩
  have hroot' : Rooted T log b' := ⟨U₂, hquorum₂, hheard₂⟩
  have hne : b'.value ≠ b.value := by
    rw [hv', ← value_of_hasPrepared hc hprepared]
    exact hconflicts.2
  have hlt : b' < b := by
    obtain ⟨k, e, he, hb'⟩ := hroot'.exists_prepared hT hjustified.2
    have hnot := hfirst k e (List.mem_of_mem_tail he) b' hb'
    refine lt_of_le_of_ne (not_lt.mp fun hlt => hnot ⟨hlt, hne⟩) fun heq => ?_
    exact hne (congrArg SCPBallot.value heq)
  have hroot₁ := hroot
  obtain ⟨U₁, hquorum₁, hheard₁⟩ := hroot₁
  obtain ⟨z, hz, ⟨st₁, hst₁, hvote₁⟩, st₂, hst₂, hvote₂⟩ :=
    hT.exists_common hquorum₁ hquorum₂ hheard₁ hheard₂
  obtain ⟨earlier, hs₂⟩ := exists_earlier hst₂
  have hs₂' := hs₂.trans (hlog.trans (List.suffix_cons last later))
  obtain heq | hmem | ⟨earlier', hs₁, hmem⟩ := eq_or_earlier_or_later hst₁ hs₂'
  · obtain rfl := congrArg Prod.snd heq
    cases st₁ with
    | prepare => exact hne (hvote₂.2.1.symm.trans hvote₁.2.1)
    | confirm => exact hvote₁.elim
    | externalize => exact hvote₁.elim
  · obtain ⟨earlier', hs₁⟩ := exists_earlier hmem
    have hvoted := votesToPrepare_of_votesCommit
      (hlater.suffix (hs₁.trans ((List.suffix_cons _ _).trans hs₂'))) hvote₁
    have hlt' := (hlater.suffix hs₂').1.2.2.above b' hvote₂ st₁ (mem_saidBy.mpr hmem) b hvoted hne.symm
    exact hlt.asymm hlt'
  · have hvoted := votesToPrepare_of_votesCommit (hlater.suffix hs₁) hvote₁
    have hfollows₁ := (hlater.suffix hs₁).1.2.2
    obtain ⟨st₃, hst₃, r, hprepared₃, hconflict₃⟩ := hfollows₁.aborts hvote₁.committed_eq_none st₂
      (mem_saidBy.mpr hmem) b' b hvote₂ hvoted hne.symm
    have hnone₃ : committed st₃ = none := by
      obtain rfl | hst₃ := List.mem_cons.mp hst₃
      · exact hvote₁.committed_eq_none
      · exact hfollows₁.phase hvote₁.committed_eq_none st₃ hst₃
    have hmem₃ : (z, st₃) ∈ last :: later := by
      obtain rfl | hst₃ := List.mem_cons.mp hst₃
      · exact hst₁
      · exact hs₁.subset (List.mem_cons_of_mem _ (mem_saidBy.mp hst₃))
    have hroot'' : Rooted T later b' := hroot'.mono hlog.subset
    -- it aborts a ballot in conflict with an accepted one, so it can only be the last
    obtain rfl | hmem₃ := List.mem_cons.mp hmem₃
    · exact not_rooted_of_prepare hT hlater List.suffix_rfl hnone₃ hprepared₃ hconflict₃
        (fun m e he r hr => hagreeing b' hroot'' m e he r hr) hagreeing
        (hroot''.mono (List.subset_cons_self _ _))
    · exact hagreeing b' hroot'' z st₃ hmem₃ r hprepared₃ hconflict₃

theorem agreeing_of_justified (h : Justified T log) : Agreeing T log := by
  induction log with
  | nil =>
    intro b _ m st hst
    cases hst
  | cons last later ih =>
    have hagreeing := ih h.2
    intro b hroot m st hst q hprepared hconflicts
    -- of all acceptances in conflict with the ballot take the first
    obtain ⟨⟨n, e⟩, log, hsuffix, ⟨q', hq', hconflict⟩, hfirst⟩ :=
      exists_first (p := fun e => ∃ q, hasPreparedBallot q e.2 = true ∧ Conflicts b q)
        ⟨(m, st), hst, q, hprepared, hconflicts⟩
    have hfirst : ∀ m e, (m, e) ∈ log → ∀ r, hasPreparedBallot r e = true → ¬ Conflicts b r :=
      fun m e he r hr hconflict => hfirst (m, e) he ⟨r, hr, hconflict⟩
    cases hc : committed e with
    | none =>
      have hlog : log <:+ later := suffix_of_cons_suffix_cons hsuffix
      exact not_rooted_of_prepare hT h hsuffix hc hq' hconflict hfirst (hagreeing.mono hlog.subset) hroot
    | some v => exact not_rooted_of_committed hT h hsuffix hc hq' hconflict hfirst hagreeing hroot

/-- All commits are of one value. -/
theorem committed_unique (h : Justified T log) {m : NodeID} {e : BallotPledges Value} {v w : Value}
    (hst : (n, st) ∈ log) (he : (m, e) ∈ log) (hv : committed st = some v) (hw : committed e = some w) :
    v = w := by
  obtain ⟨b, hroot, rfl⟩ := exists_rooted_of_committed hT h hst hv
  obtain ⟨b', hroot', rfl⟩ := exists_rooted_of_committed hT h he hw
  by_contra hne
  have hagreeing := agreeing_of_justified hT h
  obtain ⟨k, e₁, he₁, hb⟩ := hroot.exists_prepared hT h
  obtain ⟨k', e₂, he₂, hb'⟩ := hroot'.exists_prepared hT h
  have hle : b ≤ b' :=
    not_lt.mp fun hlt => hagreeing b' hroot' k e₁ (List.mem_of_mem_tail he₁) b hb ⟨hlt, hne⟩
  have hge : b' ≤ b :=
    not_lt.mp fun hlt => hagreeing b hroot k' e₂ (List.mem_of_mem_tail he₂) b' hb' ⟨hlt, fun h => hne h.symm⟩
  exact hne (congrArg SCPBallot.value (le_antisymm hle hge))

end Justified

end ZaggCore.Scp
