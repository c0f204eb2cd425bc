import Mathlib
import ZaggCore.Scp.QuorumSets

/-! # Quorums

The loop of `isQuorum` takes nodes away until every node that is left is satisfied by those that are left.
What is left is the greatest set of nodes with that property. -/

namespace ZaggCore.Scp.LocalNode
set_option autoImplicit false
set_option maxHeartbeats 250000

variable {Pledges : Type} {map : List (SCPEnvelope Pledges)}
  {qfun : SCPStatement Pledges → Option SCPQuorumSet} {U U' : List NodeID} {n : NodeID}

/-- The quorum set of the node is there and the nodes satisfy it. -/
def Satisfied (map : List (SCPEnvelope Pledges)) (qfun : SCPStatement Pledges → Option SCPQuorumSet)
    (U : List NodeID) (n : NodeID) : Prop :=
  ∃ it q, find map n = some it ∧ qfun it.statement = some q ∧ isQuorumSlice q U = true

/-- Every node of the set is satisfied by the set. -/
def SelfSupporting (map : List (SCPEnvelope Pledges))
    (qfun : SCPStatement Pledges → Option SCPQuorumSet) (U : List NodeID) : Prop :=
  ∀ n ∈ U, Satisfied map qfun U n

theorem Satisfied.mono (h : Satisfied map qfun U n) (hsub : U ⊆ U') : Satisfied map qfun U' n := by
  obtain ⟨it, q, hfind, hq, hslice⟩ := h
  exact ⟨it, q, hfind, hq, isQuorumSlice_mono (fun n _ hn => hsub hn) hslice⟩

theorem mem_filterQuorum : n ∈ filterQuorum map qfun U ↔ n ∈ U ∧ Satisfied map qfun U n := by
  unfold filterQuorum
  rw [List.mem_filter]
  apply and_congr_right
  intro hn
  unfold Satisfied
  cases hfind : find map n with
  | none => simp
  | some it =>
    cases hq : qfun it.statement with
    | none => simp [hq]
    | some q => simp [hq]

/-- A set that supports itself passes every round. -/
theorem subset_filterQuorum (hU : SelfSupporting map qfun U) (hsub : U ⊆ U') :
    U ⊆ filterQuorum map qfun U' :=
  fun n hn => mem_filterQuorum.mpr ⟨hsub hn, (hU n hn).mono hsub⟩

theorem filterQuorum_subset : filterQuorum map qfun U ⊆ U :=
  fun _ hn => (mem_filterQuorum.mp hn).1

theorem quorumLoop_subset (rounds : ℕ) : quorumLoop map qfun rounds U ⊆ U := by
  induction rounds generalizing U with
  | zero => exact List.Subset.refl U
  | succ rounds ih =>
    unfold quorumLoop
    dsimp only
    split_ifs
    · exact filterQuorum_subset
    · exact List.Subset.trans ih filterQuorum_subset

theorem subset_quorumLoop (rounds : ℕ) (hU : SelfSupporting map qfun U) (hsub : U ⊆ U') :
    U ⊆ quorumLoop map qfun rounds U' := by
  induction rounds generalizing U' with
  | zero => exact hsub
  | succ rounds ih =>
    have hnext := subset_filterQuorum hU hsub
    unfold quorumLoop
    dsimp only
    split_ifs
    · exact hnext
    · exact ih hnext

theorem selfSupporting_quorumLoop {rounds : ℕ} (h : U.length < rounds) :
    SelfSupporting map qfun (quorumLoop map qfun rounds U) := by
  intro n hn
  rw [← filterQuorum_quorumLoop map qfun h] at hn
  exact (mem_filterQuorum.mp hn).2

/-- More rounds than there are nodes change nothing: the loop has ended. -/
theorem quorumLoop_eq {rounds rounds' : ℕ} (h : U.length < rounds) (h' : U.length < rounds') :
    quorumLoop map qfun rounds U = quorumLoop map qfun rounds' U := by
  induction rounds generalizing U rounds' with
  | zero => omega
  | succ rounds ih =>
    obtain ⟨rounds', rfl⟩ := Nat.exists_eq_succ_of_ne_zero (Nat.ne_of_gt (Nat.zero_lt_of_lt h'))
    have hle : (filterQuorum map qfun U).length ≤ U.length := List.length_filter_le ..
    unfold quorumLoop
    dsimp only
    split_ifs with heq
    · rfl
    · exact ih (by omega) (by omega)

/-- **The transitive quorum test.** The loop ends in the greatest set of nodes passing the filter that
supports itself, and the test finds whether any such set satisfies the local quorum set. -/
theorem isQuorum_iff (qSet : SCPQuorumSet) (map : List (SCPEnvelope Pledges))
    (qfun : SCPStatement Pledges → Option SCPQuorumSet) (filter : SCPStatement Pledges → Bool) :
    (isQuorum qSet map qfun filter = true ↔
        ∃ U, U ⊆ filterNodes map filter ∧ SelfSupporting map qfun U ∧ isQuorumSlice qSet U = true) ∧
      ∃ R, (∀ rounds, (filterNodes map filter).length < rounds →
          quorumLoop map qfun rounds (filterNodes map filter) = R) ∧
        isQuorum qSet map qfun filter = isQuorumSlice qSet R ∧
        R ⊆ filterNodes map filter ∧ SelfSupporting map qfun R ∧
        ∀ U, U ⊆ filterNodes map filter → SelfSupporting map qfun U → U ⊆ R := by
  have hlt := Nat.lt_succ_self (filterNodes map filter).length
  have hsubset : quorumLoop map qfun ((filterNodes map filter).length + 1) (filterNodes map filter) ⊆
      filterNodes map filter := quorumLoop_subset _
  have hsupports : SelfSupporting map qfun
      (quorumLoop map qfun ((filterNodes map filter).length + 1) (filterNodes map filter)) :=
    selfSupporting_quorumLoop hlt
  constructor
  · constructor
    · intro h
      exact ⟨_, hsubset, hsupports, h⟩
    · rintro ⟨U, hsub, hU, hslice⟩
      exact isQuorumSlice_mono (fun n _ hn => subset_quorumLoop _ hU hsub hn) hslice
  · exact ⟨_, fun rounds hrounds => quorumLoop_eq hrounds hlt, rfl, hsubset, hsupports,
      fun U hsub hU => subset_quorumLoop _ hU hsub⟩

/-! ## Filters that take more -/

section Filters

variable {filter filter' : SCPStatement Pledges → Bool} {qSet : SCPQuorumSet}
  (h : ∀ st, filter st = true → filter' st = true)

include h

theorem filterNodes_subset : filterNodes map filter ⊆ filterNodes map filter' := by
  intro n hn
  obtain ⟨it, hit, rfl⟩ := List.mem_map.mp hn
  obtain ⟨hmem, hfilter⟩ := List.mem_filter.mp hit
  exact List.mem_map_of_mem (List.mem_filter.mpr ⟨hmem, h _ hfilter⟩)

theorem isVBlocking_mono (hblocking : isVBlocking qSet map filter = true) :
    isVBlocking qSet map filter' = true :=
  isVBlockingInternal_mono (fun _ _ hn => filterNodes_subset h hn) hblocking

theorem isQuorum_mono (hquorum : isQuorum qSet map qfun filter = true) :
    isQuorum qSet map qfun filter' = true := by
  have hlt := Nat.lt_succ_self (filterNodes map filter).length
  have hsub : quorumLoop map qfun ((filterNodes map filter).length + 1) (filterNodes map filter) ⊆
      filterNodes map filter' := List.Subset.trans (quorumLoop_subset _) (filterNodes_subset h)
  exact isQuorumSlice_mono
    (fun _ _ hn => subset_quorumLoop _ (selfSupporting_quorumLoop hlt) hsub hn) hquorum

end Filters

end ZaggCore.Scp.LocalNode
