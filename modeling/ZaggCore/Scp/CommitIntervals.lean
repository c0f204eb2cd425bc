import Mathlib
import ZaggCore.Scp.Quorums
import ZaggCore.Scp.CounterBump

/-! # Commit intervals

The scan of `findExtendedInterval` over the boundaries, and the intervals that `attemptAcceptCommit` and
`attemptConfirmCommit` hand on. -/

namespace ZaggCore.Scp
open Foundations
set_option autoImplicit false
set_option maxHeartbeats 250000

/-! ## Federated voting -/

namespace Slot

variable {Pledges : Type} {qSet : SCPQuorumSet} {qfun : SCPStatement Pledges → Option SCPQuorumSet}
  {voted voted' accepted accepted' : SCPStatement Pledges → Bool} {envs : List (SCPEnvelope Pledges)}

theorem federatedAccept_mono (hvoted : ∀ st, voted st = true → voted' st = true)
    (haccepted : ∀ st, accepted st = true → accepted' st = true)
    (h : federatedAccept qSet qfun voted accepted envs = true) :
    federatedAccept qSet qfun voted' accepted' envs = true := by
  unfold federatedAccept at h ⊢
  rw [Bool.or_eq_true] at h ⊢
  apply h.imp
  · exact LocalNode.isVBlocking_mono haccepted
  · apply LocalNode.isQuorum_mono
    intro st hst
    rw [Bool.or_eq_true] at hst ⊢
    exact hst.imp (haccepted st) (hvoted st)

theorem federatedRatify_mono (hvoted : ∀ st, voted st = true → voted' st = true)
    (h : federatedRatify qSet qfun voted envs = true) : federatedRatify qSet qfun voted' envs = true :=
  LocalNode.isQuorum_mono hvoted h

end Slot

namespace BallotProtocol

variable {X Value : Type}

/-! ## The scan -/

section Scan

variable {pred : Uint32 × Uint32 → Bool} {boundaries : List Uint32} {lo hi b : Uint32}

/-- Sub-intervals of what the predicate takes are taken too. -/
def Hereditary (pred : Uint32 × Uint32 → Bool) : Prop :=
  ∀ a b a' b', a ≤ a' → a' ≤ b' → b' ≤ b → pred (a, b) = true → pred (a', b') = true

/-- `hi` is the largest boundary that the predicate takes, and `lo` the smallest one from which on it takes
every interval up to `hi`. -/
structure Extended (pred : Uint32 × Uint32 → Bool) (boundaries : List Uint32) (lo hi : Uint32) :
    Prop where
  hi_mem : hi ∈ boundaries
  hi_pred : pred (hi, hi) = true
  hi_max : ∀ b ∈ boundaries, pred (b, b) = true → b ≤ hi
  lo_mem : lo ∈ boundaries
  lo_le : lo ≤ hi
  lo_pred : ∀ x ∈ boundaries, lo ≤ x → x ≤ hi → pred (x, hi) = true
  lo_min : ∀ y ∈ boundaries, (∀ x ∈ boundaries, y ≤ x → x ≤ hi → pred (x, hi) = true) → lo ≤ y

/-- The low end, once the high end was found: the scan goes down as long as the predicate holds. -/
theorem findExtendedInterval_low (hlo : lo ≠ 0 ∨ boundaries = []) (hle : lo ≤ hi)
    (hsorted : (lo :: boundaries).Pairwise (· > ·)) :
    ∃ lo', findExtendedInterval pred (lo, hi) boundaries = (lo', hi) ∧ lo' ∈ lo :: boundaries ∧ lo' ≤ lo ∧
      (∀ x ∈ boundaries, lo' ≤ x → pred (x, hi) = true) ∧
      ∀ y ∈ boundaries, (∀ x ∈ boundaries, y ≤ x → pred (x, hi) = true) → lo' ≤ y := by
  induction boundaries generalizing lo with
  | nil => exact ⟨lo, rfl, List.mem_cons_self, le_rfl, by simp, by simp⟩
  | cons b boundaries ih =>
    obtain ⟨hlt, hrest⟩ := List.pairwise_cons.mp hsorted
    have hb : b < lo := hlt b List.mem_cons_self
    have hbelow := (List.pairwise_cons.mp hrest).1
    have h0 : lo ≠ 0 := hlo.resolve_right (List.cons_ne_nil _ _)
    unfold findExtendedInterval
    dsimp only
    rw [if_neg h0, if_neg (not_lt.mpr (hb.le.trans hle))]
    split_ifs with hpred
    · have hb0 : b ≠ 0 ∨ boundaries = [] := by
        cases boundaries with
        | nil => exact .inr rfl
        | cons c _ =>
          have hc : c < b := hbelow c List.mem_cons_self
          exact .inl (Nat.ne_zero_of_lt hc ∘ congrArg Fin.val)
      obtain ⟨lo', hfind, hmem, hle', hall, hmin⟩ := ih hb0 (hb.le.trans hle) hrest
      refine ⟨lo', hfind, List.mem_cons_of_mem _ hmem, hle'.trans hb.le, ?_, ?_⟩
      · intro x hx hxle
        obtain rfl | hx := List.mem_cons.mp hx
        · exact hpred
        · exact hall x hx hxle
      · intro y hy hyall
        obtain rfl | hy := List.mem_cons.mp hy
        · exact hle'
        · exact hmin y hy fun x hx => hyall x (List.mem_cons_of_mem _ hx)
    · refine ⟨lo, rfl, List.mem_cons_self, le_rfl, ?_, ?_⟩
      · intro x hx hxle
        exact absurd hxle (hlt x hx).not_ge
      · intro y hy hyall
        have hyb : y ≤ b := by
          obtain rfl | hy := List.mem_cons.mp hy
          · exact le_rfl
          · exact (hbelow y hy).le
        exact absurd (hyall b List.mem_cons_self hyb) hpred

/-- The whole scan: it finds nothing, or an interval that cannot be extended. -/
theorem findExtendedInterval_cases (pred : Uint32 × Uint32 → Bool)
    (hsorted : boundaries.Pairwise (· > ·)) :
    (findExtendedInterval pred (0, 0) boundaries = (0, 0) ∧ ∀ b ∈ boundaries, pred (b, b) = false) ∨
      ∃ lo hi, findExtendedInterval pred (0, 0) boundaries = (lo, hi) ∧ Extended pred boundaries lo hi := by
  induction boundaries with
  | nil => exact .inl ⟨rfl, by simp⟩
  | cons b boundaries ih =>
    obtain ⟨hlt, hrest⟩ := List.pairwise_cons.mp hsorted
    unfold findExtendedInterval
    dsimp only
    rw [if_pos rfl]
    split_ifs with hpred
    · have hb0 : b ≠ 0 ∨ boundaries = [] := by
        cases boundaries with
        | nil => exact .inr rfl
        | cons c _ =>
          have hc : c < b := hlt c List.mem_cons_self
          exact .inl (Nat.ne_zero_of_lt hc ∘ congrArg Fin.val)
      obtain ⟨lo, hfind, hmem, hle, hall, hmin⟩ := findExtendedInterval_low hb0 le_rfl hsorted
      refine .inr ⟨lo, b, hfind, List.mem_cons_self, hpred, ?_, hmem, hle, ?_, ?_⟩
      · intro x hx _
        obtain rfl | hx := List.mem_cons.mp hx
        · exact le_rfl
        · exact (hlt x hx).le
      · intro x hx hxle _
        obtain rfl | hx := List.mem_cons.mp hx
        · exact hpred
        · exact hall x hx hxle
      · intro y hy hyall
        obtain rfl | hy := List.mem_cons.mp hy
        · exact hle
        · exact hmin y hy fun x hx hyx => hyall x (List.mem_cons_of_mem _ hx) hyx (hlt x hx).le
    · have hfalse : pred (b, b) = false := Bool.not_eq_true _ |>.mp hpred
      obtain ⟨hfind, hnone⟩ | ⟨lo, hi, hfind, h⟩ := ih hrest
      · exact .inl ⟨hfind, List.forall_mem_cons.mpr ⟨hfalse, hnone⟩⟩
      · have hhi : hi < b := hlt hi h.hi_mem
        refine .inr ⟨lo, hi, hfind, List.mem_cons_of_mem _ h.hi_mem, h.hi_pred, ?_,
          List.mem_cons_of_mem _ h.lo_mem, h.lo_le, ?_, ?_⟩
        · intro x hx hxpred
          obtain rfl | hx := List.mem_cons.mp hx
          · exact absurd hxpred hpred
          · exact h.hi_max x hx hxpred
        · intro x hx hxlo hxhi
          obtain rfl | hx := List.mem_cons.mp hx
          · exact absurd hxhi hhi.not_ge
          · exact h.lo_pred x hx hxlo hxhi
        · intro y hy hyall
          obtain rfl | hy := List.mem_cons.mp hy
          · exact (h.lo_le.trans_lt hhi).le
          · exact h.lo_min y hy fun x hx => hyall x (List.mem_cons_of_mem _ hx)

/-- Among the intervals between boundaries that the predicate takes, this one is maximal. -/
structure Maximal (pred : Uint32 × Uint32 → Bool) (boundaries : List Uint32) (lo hi : Uint32) : Prop where
  lo_mem : lo ∈ boundaries
  hi_mem : hi ∈ boundaries
  le : lo ≤ hi
  taken : pred (lo, hi) = true
  maximal : ∀ x ∈ boundaries, ∀ y ∈ boundaries, x ≤ lo → hi ≤ y → pred (x, y) = true → x = lo ∧ y = hi

theorem Extended.maximal (h : Extended pred boundaries lo hi) (hpred : Hereditary pred) :
    Maximal pred boundaries lo hi where
  lo_mem := h.lo_mem
  hi_mem := h.hi_mem
  le := h.lo_le
  taken := h.lo_pred lo h.lo_mem le_rfl h.lo_le
  maximal x hx y hy hxlo hhiy hxy := by
    have hyhi : y = hi := by
      refine le_antisymm (h.hi_max y hy ?_) hhiy
      exact hpred x y y y (hxlo.trans (h.lo_le.trans hhiy)) le_rfl le_rfl hxy
    subst hyhi
    refine ⟨le_antisymm hxlo (h.lo_min x hx fun z _ hxz hzy => ?_), rfl⟩
    exact hpred x y z y hxz hzy le_rfl hxy

end Scan

/-! ## The recorded statements -/

section Statements

variable [LinearOrder Value]

theorem commitPredicate_mono {ballot : SCPBallot Value} {a b a' b' : Uint32} (ha : a ≤ a') (hb : b' ≤ b)
    (st : BallotPledges Value) (h : commitPredicate ballot (a, b) st = true) :
    commitPredicate ballot (a', b') st = true := by
  cases st with
  | prepare => exact h
  | confirm _ _ nCommit nH _ =>
    simp only [commitPredicate, Bool.and_eq_true, decide_eq_true_eq] at h ⊢
    exact ⟨⟨h.1.1, h.1.2.trans ha⟩, hb.trans h.2⟩
  | externalize =>
    simp only [commitPredicate, Bool.and_eq_true, decide_eq_true_eq] at h ⊢
    exact ⟨h.1, h.2.trans ha⟩

theorem votesToCommit_mono {ballot : SCPBallot Value} {a b a' b' : Uint32} (ha : a ≤ a') (hb : b' ≤ b)
    (st : BallotPledges Value) (h : votesToCommit ballot (a, b) st = true) :
    votesToCommit ballot (a', b') st = true := by
  cases st with
  | prepare =>
    simp only [votesToCommit, Bool.and_eq_true, decide_eq_true_eq] at h ⊢
    exact ⟨⟨h.1.1, h.1.2.trans ha⟩, hb.trans h.2⟩
  | confirm =>
    simp only [votesToCommit, Bool.and_eq_true, decide_eq_true_eq] at h ⊢
    exact ⟨h.1, h.2.trans ha⟩
  | externalize =>
    simp only [votesToCommit, Bool.and_eq_true, decide_eq_true_eq] at h ⊢
    exact ⟨h.1, h.2.trans ha⟩

variable (d : BallotDriver X Value) (s : BallotProtocol X Value) (ballot : SCPBallot Value)

/-- Whether the recorded statements support that the interval is accepted as committed. -/
def acceptsCommit (cur : Uint32 × Uint32) : Bool :=
  s.federatedAccept d (votesToCommit ballot cur) (commitPredicate ballot cur)

/-- Whether they support that it is confirmed. -/
def ratifiesCommit (cur : Uint32 × Uint32) : Bool := s.federatedRatify d (commitPredicate ballot cur)

theorem hereditary_acceptsCommit : Hereditary (acceptsCommit d s ballot) :=
  fun _ _ _ _ ha _ hb => Slot.federatedAccept_mono (fun st => votesToCommit_mono ha hb st.pledges)
    fun st => commitPredicate_mono ha hb st.pledges

theorem hereditary_ratifiesCommit : Hereditary (ratifiesCommit d s ballot) :=
  fun _ _ _ _ ha _ hb => Slot.federatedRatify_mono fun st => commitPredicate_mono ha hb st.pledges

theorem sorted_boundaries : (s.getCommitBoundariesFromStatements ballot).Pairwise (· > ·) :=
  sorted_foldr_insertCounter _

/-- An interval that is found in the statements is maximal. -/
theorem maximal_of_found {pred : Uint32 × Uint32 → Bool} (hpred : Hereditary pred)
    (hfound : (findExtendedInterval pred (0, 0) (s.getCommitBoundariesFromStatements ballot)).1 ≠ 0) :
    ∃ lo hi, findExtendedInterval pred (0, 0) (s.getCommitBoundariesFromStatements ballot) = (lo, hi) ∧
      Maximal pred (s.getCommitBoundariesFromStatements ballot) lo hi := by
  obtain ⟨hnone, -⟩ | ⟨lo, hi, hfind, h⟩ := findExtendedInterval_cases _ (sorted_boundaries s ballot)
  · rw [hnone] at hfound
    exact absurd rfl hfound
  · exact ⟨lo, hi, hfind, h.maximal hpred⟩

end Statements

/-! ## What is handed on -/

section Calls

variable [LinearOrder Value] [Inhabited Value] (d : BallotDriver X Value)
  (process : SCPEnvelope (BallotPledges Value) → Bool → Ballot X Value EnvelopeState)
  (hint : BallotPledges Value) (s : BallotProtocol X Value)

theorem acceptInterval_cases (ballot : SCPBallot Value) :
    acceptInterval d process ballot (s.intervalToAccept d ballot) s = .ok false s ∨
      ∃ lo hi, Maximal (acceptsCommit d s ballot) (s.getCommitBoundariesFromStatements ballot) lo hi ∧
        acceptInterval d process ballot (s.intervalToAccept d ballot) s =
          setAcceptCommit d process ⟨lo, ballot.value⟩ ⟨hi, ballot.value⟩ s := by
  by_cases hfound : (s.intervalToAccept d ballot).1 ≠ 0 ∧ (s.mPhase ≠ .SCP_PHASE_CONFIRM ∨
      s.mHighBallot.any fun h => decide ((s.intervalToAccept d ballot).2 > h.counter))
  · obtain ⟨lo, hi, hfind, hmax⟩ :=
      maximal_of_found s ballot (hereditary_acceptsCommit d s ballot) hfound.1
    have hinterval : s.intervalToAccept d ballot = (lo, hi) := hfind
    refine .inr ⟨lo, hi, hmax, ?_⟩
    show (if _ then _ else _ : Ballot X Value Bool) s = _
    rw [if_pos hfound, hinterval]
  · refine .inl ?_
    show (if _ then _ else _ : Ballot X Value Bool) s = _
    rw [if_neg hfound]
    rfl

omit [Inhabited Value] in
theorem mayRaiseConfirm_cases (ballot : SCPBallot Value) :
    (∃ may, mayRaiseConfirm ballot s = .ok may s) ∨
      mayRaiseConfirm ballot s = .error .nullDereference s := by
  have hget : mayRaiseConfirm ballot s =
      (if s.mPhase = .SCP_PHASE_CONFIRM then _ else _ : Ballot X Value Bool) s := rfl
  rw [hget]
  split_ifs
  · cases s.mHighBallot with
    | none => exact .inr rfl
    | some h => exact .inl ⟨_, rfl⟩
  · exact .inl ⟨_, rfl⟩

/-- `attemptAcceptCommit` does nothing, or it hands on a maximal interval that the recorded statements
support. -/
theorem attemptAcceptCommit_cases :
    attemptAcceptCommit d process hint s = .ok false s ∨
      attemptAcceptCommit d process hint s = .error .nullDereference s ∨
      ∃ ballot lo hi, hintToAcceptCommit hint = some ballot ∧
        Maximal (acceptsCommit d s ballot) (s.getCommitBoundariesFromStatements ballot) lo hi ∧
        attemptAcceptCommit d process hint s =
          setAcceptCommit d process ⟨lo, ballot.value⟩ ⟨hi, ballot.value⟩ s := by
  have hget : attemptAcceptCommit d process hint s =
      (if s.mPhase = .SCP_PHASE_EXTERNALIZE then return false else _ : Ballot X Value Bool) s := rfl
  rw [hget]
  split_ifs
  · exact .inl rfl
  · cases hhint : hintToAcceptCommit hint with
    | none => exact .inl rfl
    | some ballot =>
      obtain ⟨may, hmay⟩ | hmay := mayRaiseConfirm_cases s ballot
      · have hrest : (mayRaiseConfirm ballot >>= fun may => if may then
            acceptInterval d process ballot (s.intervalToAccept d ballot) else return false) s =
            (if may then acceptInterval d process ballot (s.intervalToAccept d ballot)
              else return false : Ballot X Value Bool) s := by
          change EStateM.bind _ _ s = _
          unfold EStateM.bind
          rw [hmay]
        dsimp only
        rw [hrest]
        cases may with
        | false => exact .inl rfl
        | true =>
          obtain hnone | ⟨lo, hi, hmax, hcall⟩ := acceptInterval_cases d process s ballot
          · exact .inl hnone
          · exact .inr (.inr ⟨ballot, lo, hi, rfl, hmax, hcall⟩)
      · refine .inr (.inl ?_)
        change EStateM.bind _ _ s = _
        unfold EStateM.bind
        rw [hmay]

theorem attemptConfirmCommit_cases :
    attemptConfirmCommit d process hint s = .ok false s ∨
      ∃ ballot lo hi, hintToConfirmCommit hint = some ballot ∧
        Maximal (ratifiesCommit d s ballot) (s.getCommitBoundariesFromStatements ballot) lo hi ∧
        attemptConfirmCommit d process hint s =
          setConfirmCommit d process ⟨lo, ballot.value⟩ ⟨hi, ballot.value⟩ s := by
  have hget : attemptConfirmCommit d process hint s =
      (if s.mPhase ≠ .SCP_PHASE_CONFIRM ∨ s.mHighBallot.isNone then return false else _ :
        Ballot X Value Bool) s := rfl
  rw [hget]
  split_ifs
  · exact .inl rfl
  · cases hhint : hintToConfirmCommit hint with
    | none => exact .inl rfl
    | some ballot =>
      dsimp only
      split_ifs with hfound
      · obtain ⟨lo, hi, hfind, hmax⟩ :=
          maximal_of_found s ballot (hereditary_ratifiesCommit d s ballot) hfound.2
        have hinterval : s.intervalToConfirm d ballot = (lo, hi) := hfind
        rw [hinterval]
        exact .inr ⟨ballot, lo, hi, rfl, hmax, rfl⟩
      · exact .inl rfl

end Calls

/-- **Maximal commit intervals.** The scan finds the largest boundary that the predicate takes and extends
the interval down as far as it goes. What `attemptAcceptCommit` and `attemptConfirmCommit` hand on is
maximal among the intervals that the recorded statements support. -/
theorem findExtendedInterval_maximal :
    (∀ (pred : Uint32 × Uint32 → Bool) (boundaries : List Uint32), boundaries.Pairwise (· > ·) →
        (∀ b ∈ boundaries, b ≠ 0) →
        ((findExtendedInterval pred (0, 0) boundaries).1 = 0 ↔ ∀ b ∈ boundaries, pred (b, b) = false) ∧
          ((findExtendedInterval pred (0, 0) boundaries).1 = 0 →
            findExtendedInterval pred (0, 0) boundaries = (0, 0)) ∧
          ((findExtendedInterval pred (0, 0) boundaries).1 ≠ 0 →
            Extended pred boundaries (findExtendedInterval pred (0, 0) boundaries).1
              (findExtendedInterval pred (0, 0) boundaries).2 ∧
            (Hereditary pred → Maximal pred boundaries (findExtendedInterval pred (0, 0) boundaries).1
              (findExtendedInterval pred (0, 0) boundaries).2))) ∧
      ∀ (X Value : Type) [LinearOrder Value] [Inhabited Value] (d : BallotDriver X Value)
        (process : SCPEnvelope (BallotPledges Value) → Bool → Ballot X Value EnvelopeState)
        (hint : BallotPledges Value) (s : BallotProtocol X Value),
        (attemptAcceptCommit d process hint s = .ok false s ∨
          attemptAcceptCommit d process hint s = .error .nullDereference s ∨
          ∃ ballot lo hi, hintToAcceptCommit hint = some ballot ∧
            Maximal (acceptsCommit d s ballot) (s.getCommitBoundariesFromStatements ballot) lo hi ∧
            attemptAcceptCommit d process hint s =
              setAcceptCommit d process ⟨lo, ballot.value⟩ ⟨hi, ballot.value⟩ s) ∧
        (attemptConfirmCommit d process hint s = .ok false s ∨
          ∃ ballot lo hi, hintToConfirmCommit hint = some ballot ∧
            Maximal (ratifiesCommit d s ballot) (s.getCommitBoundariesFromStatements ballot) lo hi ∧
            attemptConfirmCommit d process hint s =
              setConfirmCommit d process ⟨lo, ballot.value⟩ ⟨hi, ballot.value⟩ s) := by
  refine ⟨fun pred boundaries hsorted hpos => ?_, fun X Value _ _ d process hint s => ?_⟩
  · obtain ⟨hfind, hnone⟩ | ⟨lo, hi, hfind, h⟩ := findExtendedInterval_cases _ hsorted
    · rw [hfind]
      exact ⟨iff_of_true rfl hnone, fun _ => rfl, fun h => absurd rfl h⟩
    · rw [hfind]
      have hlo : lo ≠ 0 := hpos lo h.lo_mem
      refine ⟨iff_of_false hlo fun hnone => ?_, fun h0 => absurd h0 hlo,
        fun _ => ⟨h, h.maximal⟩⟩
      have hfalse := hnone hi h.hi_mem
      rw [h.hi_pred] at hfalse
      cases hfalse
  · exact ⟨attemptAcceptCommit_cases d process hint s, attemptConfirmCommit_cases d process hint s⟩

end BallotProtocol

end ZaggCore.Scp
