import ZaggCore.Scp.BallotRuns
import ZaggCore.Scp.QuorumSets

/-! # The counter bump

`attemptBump` runs through the counters of the recorded statements from the lowest on and breaks at the
first that is below the local counter, so that a single node that lags keeps the local node from moving
on. Without such a node it moves to the smallest counter that no blocking set is ahead of. -/

namespace ZaggCore.Scp
open Foundations
set_option autoImplicit false
set_option maxHeartbeats 250000

namespace BallotProtocol

/-! ## The set of counters -/

theorem mem_insertCounter {n m : Uint32} {set : List Uint32} :
    m ∈ insertCounter n set ↔ m = n ∨ m ∈ set := by
  induction set with
  | nil => simp [insertCounter]
  | cons k set ih =>
    rw [insertCounter]
    split_ifs with hgt heq
    · exact List.mem_cons
    · subst heq
      simp
    · rw [List.mem_cons, List.mem_cons, ih]
      exact or_left_comm

theorem sorted_insertCounter {n : Uint32} {set : List Uint32} (h : set.Pairwise (· > ·)) :
    (insertCounter n set).Pairwise (· > ·) := by
  induction set with
  | nil => exact List.pairwise_singleton _ _
  | cons k set ih =>
    obtain ⟨hk, hset⟩ := List.pairwise_cons.mp h
    rw [insertCounter]
    split_ifs with hgt heq
    · refine List.pairwise_cons.mpr ⟨fun m hm => ?_, h⟩
      obtain rfl | hm := List.mem_cons.mp hm
      · exact hgt
      · exact (hk m hm).trans hgt
    · exact h
    · refine List.pairwise_cons.mpr ⟨fun m hm => ?_, ih hset⟩
      obtain rfl | hm := mem_insertCounter.mp hm
      · exact lt_of_le_of_ne (not_lt.mp hgt) heq
      · exact hk m hm

theorem mem_foldr_insertCounter {m : Uint32} {l : List Uint32} :
    m ∈ l.foldr insertCounter [] ↔ m ∈ l := by
  induction l with
  | nil => rfl
  | cons n l ih => rw [List.foldr_cons, mem_insertCounter, List.mem_cons, ih]

theorem sorted_foldr_insertCounter (l : List Uint32) : (l.foldr insertCounter []).Pairwise (· > ·) := by
  induction l with
  | nil => exact List.Pairwise.nil
  | cons n l ih => exact sorted_insertCounter ih

variable {X Value : Type}

/-! ## What the loop finds -/

section FindBump

variable (d : BallotDriver X Value) (s : BallotProtocol X Value)

/-- The counters of the recorded statements, EXTERNALIZE counting as `UINT32_MAX`. -/
def recordedCounters : List Uint32 := s.mLatestEnvelopes.map fun e => bumpCounter e.statement.pledges

/-- Whether the nodes with a counter above `n` are a blocking set. -/
def blockedAbove (n : Uint32) : Bool :=
  LocalNode.isVBlocking d.quorumSet s.mLatestEnvelopes fun st => decide (n < bumpCounter st.pledges)

theorem isAhead_eq (n : Uint32) (pledges : BallotPledges Value) :
    isAhead n pledges = decide (n < bumpCounter pledges) := by
  cases pledges with
  | prepare => rfl
  | confirm => rfl
  | externalize =>
    have hle : n ≤ UINT32_MAX := Fin.le_def.mpr (Nat.le_sub_one_of_lt n.isLt)
    have hiff : n ≠ UINT32_MAX ↔ n < UINT32_MAX := (lt_iff_le_and_ne.trans (and_iff_right hle)).symm
    exact decide_eq_decide.mpr hiff

/-- There is no blocking set above the highest counter. -/
theorem blockedAbove_of_max {n : Uint32} (h : ∀ m ∈ s.recordedCounters, m ≤ n) :
    blockedAbove d s n = false := by
  unfold blockedAbove LocalNode.isVBlocking LocalNode.filterNodes
  rw [List.filter_eq_nil_iff.mpr]
  · exact Bool.eq_false_iff.mpr (LocalNode.not_blocked_of_disjoint fun _ _ => List.not_mem_nil)
  · intro e he
    rw [decide_eq_true_iff, not_lt]
    exact h _ (List.mem_map_of_mem he)

def targetCounter : Uint32 := s.mCurrentBallot.elim 0 SCPBallot.counter

/-- The counters that the loop runs through, in ascending order. -/
def allCounters : List Uint32 :=
  (insertCounter s.targetCounter (s.recordedCounters.foldr insertCounter [])).reverse

theorem mem_allCounters {n : Uint32} :
    n ∈ s.allCounters ↔ n = s.targetCounter ∨ n ∈ s.recordedCounters := by
  unfold allCounters
  rw [List.mem_reverse, mem_insertCounter, mem_foldr_insertCounter]

theorem sorted_allCounters : s.allCounters.Pairwise (· < ·) :=
  List.pairwise_reverse.mpr (sorted_insertCounter (sorted_foldr_insertCounter _))

theorem isVBlocking_isAhead (n : Uint32) :
    (LocalNode.isVBlocking d.quorumSet s.mLatestEnvelopes fun st => isAhead n st.pledges) =
      blockedAbove d s n := by
  unfold blockedAbove
  congr 1
  funext st
  exact isAhead_eq n st.pledges

/-- Above the local counter the loop looks for the first that is not blocked from above. -/
theorem findBump_above {counters : List Uint32} (h : ∀ n ∈ counters, s.targetCounter < n) :
    findBump d s s.targetCounter counters = counters.find? fun n => !blockedAbove d s n := by
  induction counters with
  | nil => rfl
  | cons n counters ih =>
    have hlt := h n List.mem_cons_self
    rw [findBump, if_neg (not_lt.mpr hlt.le), isVBlocking_isAhead, if_neg hlt.ne', List.find?_cons]
    cases blockedAbove d s n with
    | false => rfl
    | true => exact ih fun m hm => h m (List.mem_cons_of_mem _ hm)

/-- The loop over the counters: nothing if a recorded counter is below the local one. -/
theorem findBump_allCounters :
    findBump d s s.targetCounter s.allCounters =
      if (∀ n ∈ s.recordedCounters, s.targetCounter ≤ n) ∧ blockedAbove d s s.targetCounter = true then
        (s.allCounters.filter (s.targetCounter < ·)).find? fun n => !blockedAbove d s n
      else none := by
  have hsorted := s.sorted_allCounters
  have hmem : ∀ n, n ∈ s.allCounters ↔ n = s.targetCounter ∨ n ∈ s.recordedCounters :=
    fun n => s.mem_allCounters
  cases hcounters : s.allCounters with
  | nil =>
    rw [hcounters] at hmem
    exact nomatch (hmem s.targetCounter).mpr (.inl rfl)
  | cons n rest =>
    rw [hcounters] at hsorted hmem
    obtain ⟨hn, hrest⟩ := List.pairwise_cons.mp hsorted
    by_cases hlt : n < s.targetCounter
    · have hrecorded : n ∈ s.recordedCounters :=
        ((hmem n).mp List.mem_cons_self).resolve_left hlt.ne
      rw [findBump, if_pos hlt, if_neg fun h => absurd hlt (not_lt.mpr (h.1 n hrecorded))]
    · obtain rfl : s.targetCounter = n := by
        obtain heq | hin := List.mem_cons.mp ((hmem s.targetCounter).mpr (.inl rfl))
        · exact heq
        · exact absurd (hn _ hin) hlt
      have hge : ∀ m ∈ s.recordedCounters, s.targetCounter ≤ m := by
        intro m hm
        obtain rfl | hin := List.mem_cons.mp ((hmem m).mpr (.inr hm))
        · exact le_rfl
        · exact (hn m hin).le
      have hfilter : (s.targetCounter :: rest).filter (s.targetCounter < ·) = rest := by
        rw [List.filter_cons_of_neg (by simp), List.filter_eq_self]
        exact fun m hm => decide_eq_true (hn m hm)
      rw [findBump, if_neg hlt, isVBlocking_isAhead, if_pos rfl, hfilter, findBump_above d s hn]
      cases hblocked : blockedAbove d s s.targetCounter with
      | false => simp
      | true => rw [if_pos rfl, if_pos ⟨hge, rfl⟩]

/-- The counter to move to: the smallest above the local one that no blocking set is ahead of. -/
def BumpsTo (n : Uint32) : Prop :=
  IsLeast {n | n ∈ s.recordedCounters ∧ s.targetCounter < n ∧ blockedAbove d s n = false} n

theorem find_bumpsTo {n : Uint32}
    (h : (s.allCounters.filter (s.targetCounter < ·)).find? (fun n => !blockedAbove d s n) = some n) :
    BumpsTo d s n := by
  have hmem : ∀ m, m ∈ s.allCounters.filter (s.targetCounter < ·) ↔
      m ∈ s.recordedCounters ∧ s.targetCounter < m := by
    intro m
    rw [List.mem_filter, mem_allCounters, decide_eq_true_iff]
    exact and_congr_left fun hlt => or_iff_right hlt.ne'
  have hsorted := s.sorted_allCounters.filter fun n => decide (s.targetCounter < n)
  obtain ⟨hn, before, rest, heq, hbefore⟩ := List.find?_eq_some_iff_append.mp h
  rw [heq] at hmem hsorted
  obtain ⟨hrecorded, hlt⟩ := (hmem n).mp (List.mem_append_right _ List.mem_cons_self)
  refine ⟨⟨hrecorded, hlt, by simpa using hn⟩, fun m ⟨hm, hmlt, hmblocked⟩ => ?_⟩
  obtain hin | hin := List.mem_append.mp ((hmem m).mpr ⟨hm, hmlt⟩)
  · have hblocked := hbefore m hin
    rw [hmblocked] at hblocked
    exact absurd hblocked (by decide)
  · obtain rfl | hin := List.mem_cons.mp hin
    · exact le_rfl
    · have hrest := (List.pairwise_append.mp hsorted).2.1
      exact (List.rel_of_pairwise_cons hrest hin).le

/-- If the local counter is blocked from above there is a counter to move to. -/
theorem find_isSome (h : blockedAbove d s s.targetCounter = true) :
    ∃ n, (s.allCounters.filter (s.targetCounter < ·)).find? (fun n => !blockedAbove d s n) = some n := by
  have hnonempty : s.allCounters.toFinset.Nonempty :=
    ⟨s.targetCounter, List.mem_toFinset.mpr (s.mem_allCounters.mpr (.inl rfl))⟩
  obtain ⟨n, hn, hmax⟩ := s.allCounters.toFinset.exists_max_image id hnonempty
  have hle : ∀ m ∈ s.recordedCounters, m ≤ n := fun m hm =>
    hmax m (List.mem_toFinset.mpr (s.mem_allCounters.mpr (.inr hm)))
  have hblocked := blockedAbove_of_max d s hle
  have hlt : s.targetCounter < n := by
    refine lt_of_le_of_ne (hmax _ (List.mem_toFinset.mpr (s.mem_allCounters.mpr (.inl rfl)))) ?_
    rintro rfl
    exact nomatch h.symm.trans hblocked
  have hin : n ∈ s.allCounters.filter (s.targetCounter < ·) :=
    List.mem_filter.mpr ⟨List.mem_toFinset.mp hn, decide_eq_true hlt⟩
  refine Option.isSome_iff_exists.mp (List.find?_isSome.mpr ⟨n, hin, ?_⟩)
  rw [hblocked]
  rfl

end FindBump

/-! ## `attemptBump` -/

section AttemptBump

variable [LinearOrder Value] [Inhabited Value] (d : BallotDriver X Value)

/-- `attemptBump` with what it calls as an argument. -/
def attemptBumpWith (abandonBallot : Uint32 → Ballot X Value Bool) : Ballot X Value Bool := do
  let s ← get
  if s.mPhase = .SCP_PHASE_EXTERNALIZE then return false
  else match findBump d s s.targetCounter s.allCounters with
    | none => return false
    | some n => abandonBallot n

omit [LinearOrder Value] [Inhabited Value] in
theorem attemptBumpWith_eq {s : BallotProtocol X Value} (hphase : s.mPhase ≠ .SCP_PHASE_EXTERNALIZE)
    (abandonBallot : Uint32 → Ballot X Value Bool) :
    attemptBumpWith d abandonBallot s =
      match findBump d s s.targetCounter s.allCounters with
      | none => .ok false s
      | some n => abandonBallot n s := by
  change (if s.mPhase = .SCP_PHASE_EXTERNALIZE then (pure false : Ballot X Value Bool)
    else match findBump d s s.targetCounter s.allCounters with
      | none => pure false
      | some n => abandonBallot n) s = _
  rw [if_neg hphase]
  cases findBump d s s.targetCounter s.allCounters <;> rfl

/-- A call of `abandonBallot` with the counter to move to if the nodes ahead are a blocking set, and
otherwise no call. -/
structure BumpsWell (s : BallotProtocol X Value) : Prop where
  bumps : blockedAbove d s s.targetCounter = true → ∃ n, BumpsTo d s n ∧
    ∀ abandonBallot, attemptBumpWith d abandonBallot s = abandonBallot n s
  rests : blockedAbove d s s.targetCounter = false →
    ∀ abandonBallot, attemptBumpWith d abandonBallot s = .ok false s

omit [LinearOrder Value] [Inhabited Value] in
theorem bumpsWell_iff {s : BallotProtocol X Value} (hphase : s.mPhase ≠ .SCP_PHASE_EXTERNALIZE) :
    BumpsWell d s ↔
      (blockedAbove d s s.targetCounter = true → ∀ n ∈ s.recordedCounters, s.targetCounter ≤ n) := by
  refine ⟨fun h hblocked => ?_, fun h => ⟨fun hblocked => ?_, fun hfree => ?_⟩⟩
  · obtain ⟨n, -, hcall⟩ := h.bumps hblocked
    by_contra hbelow
    -- the loop breaks, so that nothing is called
    have hthrow := hcall fun _ => throw .outOfFuel
    rw [attemptBumpWith_eq d hphase, findBump_allCounters, if_neg fun hc => hbelow hc.1] at hthrow
    exact nomatch hthrow
  · obtain ⟨n, hn⟩ := find_isSome d s hblocked
    refine ⟨n, find_bumpsTo d s hn, fun abandonBallot => ?_⟩
    rw [attemptBumpWith_eq d hphase, findBump_allCounters, if_pos ⟨h hblocked, hblocked⟩, hn]
  · intro abandonBallot
    rw [attemptBumpWith_eq d hphase, findBump_allCounters, hfree, if_neg fun hc => nomatch hc.2]

/-- Before EXTERNALIZE `attemptBump` does so exactly if no recorded statement is below the local counter
or there is no reason to move. -/
theorem attemptBump_iff (s : BallotProtocol X Value) (hphase : s.mPhase ≠ .SCP_PHASE_EXTERNALIZE) :
    (∀ process, attemptBump d process s = attemptBumpWith d (abandonBallot d process) s) ∧
      (BumpsWell d s ↔
        (blockedAbove d s s.targetCounter = true → ∀ n ∈ s.recordedCounters, s.targetCounter ≤ n)) :=
  ⟨fun _ => rfl, bumpsWell_iff d hphase⟩

end AttemptBump

/-- Node 1 of a quorum set of which three of four nodes are needed. -/
def fourNodes : BallotDriver Unit (List (Fin 256)) :=
  { twoNodes with
    quorumSet := .mk 3 [1, 2, 3, 4] []
    getQSet := fun _ hash => if hash = 7 then some (.mk 3 [1, 2, 3, 4] []) else none }

/-- A vote of a node for a ballot with that counter. -/
def voteAt (nodeID : NodeID) (n : Uint32) : Event Unit (List (Fin 256)) :=
  .recvSCPEnvelope ⟨⟨nodeID, 1, .prepare 7 ⟨n, [5]⟩ none none 0 0⟩, []⟩

/-- Node 1 is at its second ballot, node 2 at its first, and nodes 3 and 4 are ahead. -/
def laggingEvents : List (Event Unit (List (Fin 256))) :=
  [.bumpState [5] false, .ballotProtocolTimerExpired, voteAt 2 1, voteAt 3 3, voteAt 4 3]

def lagging : BallotProtocol Unit (List (Fin 256)) :=
  laggingEvents.foldl (step fourNodes 6) (new fourNodes ())

/-- Node 1 is at its first ballot, node 3 is ahead, and the statement of node 4 is recorded that is ahead as
well. -/
def ahead : BallotProtocol Unit (List (Fin 256)) :=
  after (recordEnvelope ⟨⟨4, 1, .prepare 7 ⟨3, [5]⟩ none none 0 0⟩, []⟩
    ([.bumpState [5] false, voteAt 2 1, voteAt 3 4].foldl (step fourNodes 6) (new fourNodes ())))

theorem attemptBump_iff_fourNodes :
    ahead.mCurrentBallot = some ⟨1, [5]⟩ ∧ ahead.recordedCounters = [1, 1, 4, 3] ∧
      blockedAbove fourNodes ahead ahead.targetCounter = true ∧ BumpsWell fourNodes ahead := by
  have hcounters : ahead.recordedCounters = [1, 1, 4, 3] := by decide +kernel
  have hcurrent : ahead.targetCounter = 1 := by decide +kernel
  refine ⟨by decide +kernel, hcounters, by decide +kernel,
    (attemptBump_iff fourNodes ahead (by decide +kernel)).2.mpr fun _ => ?_⟩
  rw [hcounters, hcurrent]
  exact List.all_iff_forall_prop.mp (by decide +kernel)

/-- Nodes 3 and 4 block, and node 1 is not moved to their ballot. -/
theorem attemptBump_stalls :
    EachStep (step fourNodes 6) (Returns fourNodes 6) (new fourNodes ()) laggingEvents ∧
      lagging.mCurrentBallot = some ⟨2, [9]⟩ ∧ BumpsTo fourNodes lagging 3 ∧
      ¬ BumpsWell fourNodes lagging := by
  have hreturns : EachStep (step fourNodes 6) (Returns fourNodes 6) (new fourNodes ())
      laggingEvents := by decide +kernel
  have hcurrent : lagging.mCurrentBallot = some ⟨2, [9]⟩ := by decide +kernel
  have hfind : (lagging.allCounters.filter (lagging.targetCounter < ·)).find?
      (fun n => !blockedAbove fourNodes lagging n) = some 3 := by decide +kernel
  have hphase : lagging.mPhase ≠ .SCP_PHASE_EXTERNALIZE := by decide +kernel
  refine ⟨hreturns, hcurrent, find_bumpsTo fourNodes lagging hfind, fun h => ?_⟩
  have hblocked : blockedAbove fourNodes lagging lagging.targetCounter = true := by decide +kernel
  have hmem : 1 ∈ lagging.recordedCounters := by decide +kernel
  have hbelow : ¬ lagging.targetCounter ≤ 1 := by decide +kernel
  exact hbelow ((bumpsWell_iff fourNodes hphase).mp h hblocked 1 hmem)

end BallotProtocol

end ZaggCore.Scp
