import ZaggCore.History.InferredQuorum

/-! # What the intersection check finds

`CartesianProductEnumerator::operator++` resets one enumerator where a carry has exhausted several, so a
product skips tuples, the check misses slices, and with them it can miss the quorums that do not meet. -/

namespace ZaggCore.History.InferredQuorum
open Foundations Foundations.Checked Util Scp Scp.LocalNode
set_option autoImplicit false
set_option maxHeartbeats 250000

variable (iq : InferredQuorum)

/-! ## Quorums -/

def quorumSet (n : NodeID) : Option SCPQuorumSet := (iq.mQsetHashes.lookup n).bind fun h => iq.mQsets.lookup h

/-- Some nodes with known quorum sets, each of which they satisfy. -/
def IsQuorum (U : List NodeID) : Prop :=
  U ≠ [] ∧ ∀ n ∈ U, ∃ q, iq.quorumSet n = some q ∧ isQuorumSlice q U = true

def QuorumsIntersect : Prop := ∀ U V, iq.IsQuorum U → iq.IsQuorum V → ∃ n ∈ U, n ∈ V

/-- Some nodes that contain, for each of them, a slice that its enumerator gives. -/
def SeenQuorum (U : List NodeID) : Prop :=
  U ≠ [] ∧ ∀ n ∈ U, ∃ q, iq.quorumSet n = some q ∧ ∃ s ∈ slices q, s ⊆ U

def SeenQuorumsIntersect : Prop := ∀ U V, iq.SeenQuorum U → iq.SeenQuorum V → ∃ n ∈ U, n ∈ V

/-- The node of each hash is known, its quorum set is known and sane, and so are the nodes in that; the
bitsets have room for the nodes. -/
structure Admitted : Prop where
  nodes_nodup : iq.nodes.Nodup
  nodes_length : iq.nodes.length ≤ 64
  hashes_nodup : (iq.mQsetHashes.map Prod.fst).Nodup
  hashes_length : iq.mQsetHashes.length < 64
  known : ∀ n ∈ iq.mQsetHashes, n.1 ∈ iq.nodes ∧ ∃ q, iq.mQsets.lookup n.2 = some q ∧
    isQuorumSetSane q false = true ∧ Narrow q ∧ ∀ m ∈ allNodesInternal q, m ∈ iq.nodes
  some_quorum : ∃ U, iq.IsQuorum U

/-- The check returns, and what it returns says whether all quorums intersect. -/
def Exact (order : List ℕ → List ℕ) : Prop :=
  ∃ intersect enough, (∀ fuel, enough ≤ fuel → iq.checkQuorumIntersection order fuel = .ok intersect) ∧
    (intersect = true ↔ iq.QuorumsIntersect)

/-- The bit number of a node. -/
def number (n : NodeID) : ℕ := iq.nodes.idxOf n

/-- Enough for each loop. -/
def fuelBound : ℕ :=
  2 ^ iq.mQsetHashes.length +
    (iq.mQsetHashes.map fun n => (iq.quorumSet n.1).elim 0 fun q => (slices q).length).sum + 1

variable {iq} {q : SCPQuorumSet} {n : NodeID} {U V : List NodeID}

/-! ## The lookups -/

theorem lookup_of_mem {κ ν : Type} [DecidableEq κ] {map : List (κ × ν)} (hnodup : (map.map Prod.fst).Nodup)
    {p : κ × ν} (hp : p ∈ map) : map.lookup p.1 = some p.2 := by
  induction map with
  | nil => exact absurd hp List.not_mem_nil
  | cons p' map ih =>
    rw [List.map_cons, List.nodup_cons] at hnodup
    obtain rfl | hp := List.mem_cons.mp hp
    · exact List.lookup_cons_self
    · have hne : p.1 ≠ p'.1 := fun heq => hnodup.1 (heq ▸ List.mem_map_of_mem hp)
      rw [List.lookup_cons, beq_eq_false_iff_ne.mpr hne]
      exact ih hnodup.2 hp

theorem mem_of_lookup {κ ν : Type} [DecidableEq κ] {map : List (κ × ν)} {k : κ} {x : ν}
    (h : map.lookup k = some x) : (k, x) ∈ map := by
  obtain ⟨l₁, l₂, heq, -⟩ := List.lookup_eq_some_iff.mp h
  rw [heq]
  exact List.mem_append_right _ List.mem_cons_self

theorem lookup_zipIdx {κ : Type} [DecidableEq κ] {l : List κ} {a : κ} (ha : a ∈ l) (k : ℕ) :
    (l.zipIdx k).lookup a = some (k + l.idxOf a) := by
  induction l generalizing k with
  | nil => exact absurd ha List.not_mem_nil
  | cons b l ih =>
    rw [List.zipIdx_cons, List.lookup_cons]
    by_cases hab : a = b
    · rw [hab, beq_self_eq_true, List.idxOf_cons_self]
      rfl
    · rw [beq_eq_false_iff_ne.mpr hab, ih ((List.mem_cons.mp ha).resolve_left hab) (k + 1),
        List.idxOf_cons_ne _ (Ne.symm hab)]
      show some _ = some _
      congr 1
      omega

theorem lookup_nodeNumbers (hn : n ∈ iq.nodes) : iq.nodeNumbers.lookup n = some (iq.number n) := by
  have h := lookup_zipIdx hn 0
  rwa [zero_add] at h

theorem number_injective {m : NodeID} (hn : n ∈ iq.nodes) (heq : iq.number n = iq.number m) : n = m :=
  (List.idxOf_inj hn).mp heq

theorem find_of_lookup {κ ν : Type} [BEq κ] {map : List (κ × ν)} {key : κ} {value : ν} {condition : String}
    (h : map.lookup key = some value) : find map key condition = .ok value := by
  unfold find
  rw [h]

namespace Admitted

variable (h : iq.Admitted)

include h

theorem number_lt (hn : n ∈ iq.nodes) : iq.number n < 64 :=
  (List.idxOf_lt_length_of_mem hn).trans_le h.nodes_length

/-- What is known of a node with a quorum set. -/
theorem quorumSet_spec (hq : iq.quorumSet n = some q) : n ∈ iq.nodes ∧ (∃ hash, (n, hash) ∈ iq.mQsetHashes) ∧
    isQuorumSetSane q false = true ∧ Narrow q ∧ ∀ m ∈ allNodesInternal q, m ∈ iq.nodes := by
  obtain ⟨hash, hhash, hlookup⟩ := Option.bind_eq_some_iff.mp hq
  have hmem := mem_of_lookup hhash
  obtain ⟨hnode, q', hq', hsane, hnarrow, hnodes⟩ := h.known _ hmem
  obtain rfl := Option.some.inj (hq'.symm.trans hlookup)
  exact ⟨hnode, ⟨hash, hmem⟩, hsane, hnarrow, hnodes⟩

theorem quorumSet_of_hash {hash : Hash} (hn : (n, hash) ∈ iq.mQsetHashes) : ∃ q, iq.quorumSet n = some q := by
  obtain ⟨-, q, hq, -⟩ := h.known _ hn
  refine ⟨q, ?_⟩
  unfold quorumSet
  rw [lookup_of_mem h.hashes_nodup hn]
  exact hq

end Admitted

/-! ## Slices as node sets -/

theorem exists_of_forall₂ {α β : Type} {R : α → β → Prop} {l : List α} {l' : List β}
    (h : List.Forall₂ R l l') {a : α} (ha : a ∈ l) : ∃ b ∈ l', R a b := by
  induction h with
  | nil => exact absurd ha List.not_mem_nil
  | @cons a' b l l' hab h ih =>
    obtain rfl | ha := List.mem_cons.mp ha
    · exact ⟨b, List.mem_cons_self, hab⟩
    · obtain ⟨b', hb', hab'⟩ := ih ha
      exact ⟨b', List.mem_cons_of_mem _ hb', hab'⟩

/-- The nodes have a slice of the list. -/
def HasSlice (U : List NodeID) (l : List (List NodeID)) : Prop := ∃ s ∈ l, s ⊆ U

open Classical in
/-- A slice consists of nodes of the quorum set and satisfies it. -/
theorem slices_sound {extraChecks : Bool} {depth : ℕ} (hr : Ranged extraChecks depth q) (hn : Narrow q)
    {s : List NodeID} (hs : s ∈ slices q) :
    (∀ m ∈ s, m ∈ allNodesInternal q) ∧ (s ⊆ U → isQuorumSlice q U = true) := by
  induction q using SCPQuorumSet.induction generalizing depth s with
  | mk t v i ih =>
    obtain ⟨-, hpos, hle, -, hinner⟩ := ranged_mk.mp hr
    have hn' := hn
    obtain ⟨hlt, hnarrow⟩ := hn'
    rw [slices_mk] at hs
    obtain ⟨m, hm, hs⟩ := List.mem_flatMap.mp hs
    obtain ⟨tuple, htuple, rfl⟩ := List.mem_map.mp hs
    have hsub := chosen_sublist m 0 (memberSlices v i)
    have hmem := mem_visited (fun l hl => memberSlices_ne_nil hr hn l (hsub.subset hl)) htuple
    refine ⟨fun n hnode => ?_, fun hU => ?_⟩
    · obtain ⟨s', hs', hns'⟩ := List.mem_flatten.mp hnode
      obtain ⟨l, hl, hsl⟩ := exists_of_forall₂ hmem hs'
      obtain hl | hl := List.mem_append.mp (hsub.subset hl)
      · obtain ⟨n', hn', rfl⟩ := List.mem_map.mp hl
        obtain rfl := List.mem_singleton.mp hsl
        obtain rfl := List.mem_singleton.mp hns'
        exact mem_of_validator hn'
      · obtain ⟨q, hq, rfl⟩ := List.mem_map.mp hl
        exact mem_of_inner hq ((ih q hq (hinner q hq) (hnarrow q hq) hsl).1 n hns')
    · -- each of the chosen members is hit
      have hhit : ∀ l ∈ chosen m 0 (memberSlices v i), decide (HasSlice U l) = true := by
        intro l hl
        obtain ⟨s', hs', hsl⟩ := exists_of_forall₂ hmem.flip hl
        exact decide_eq_true ⟨s', hsl, fun n hns' => hU (List.mem_flatten.mpr ⟨s', hs', hns'⟩)⟩
      have hlen := length_memberSlices v i
      have hcount : t ≤ (memberSlices v i).countP fun l => decide (HasSlice U l) := by
        rw [← hlen] at hm hlt
        calc t = (chosen m 0 (memberSlices v i)).length := (length_chosen_masks hlt.le hm).symm
          _ = (chosen m 0 (memberSlices v i)).countP fun l => decide (HasSlice U l) :=
            (List.countP_eq_length.mpr hhit).symm
          _ ≤ _ := hsub.countP_le
      rw [isQuorumSlice_mk, hitsNeeded_of_pos hpos (by omega)]
      refine hcount.trans ?_
      unfold memberSlices sliceHits
      rw [List.countP_append, List.countP_map, List.countP_map]
      apply Nat.add_le_add
      · refine List.countP_mono_left fun n _ hhas => ?_
        obtain ⟨s', hs', hsU⟩ := of_decide_eq_true hhas
        obtain rfl := List.mem_singleton.mp hs'
        exact decide_eq_true (hsU (List.mem_singleton_self n))
      · refine List.countP_mono_left fun q hq hhas => ?_
        obtain ⟨s', hs', hsU⟩ := of_decide_eq_true hhas
        exact (ih q hq (hinner q hq) (hnarrow q hq) hs').2 hsU

/-- The seen quorums are quorums. -/
theorem Admitted.seen_isQuorum (h : iq.Admitted) (hU : iq.SeenQuorum U) : iq.IsQuorum U := by
  refine ⟨hU.1, fun n hn => ?_⟩
  obtain ⟨q, hq, s, hs, hsU⟩ := hU.2 n hn
  obtain ⟨-, -, hsane, hnarrow, -⟩ := h.quorumSet_spec hq
  exact ⟨q, hq, (slices_sound (isQuorumSetSane_iff.mp hsane).1 hnarrow hs).2 hsU⟩

theorem getLsbD_union (l : List Bitset) (k : ℕ) :
    (union l).getLsbD k = true ↔ ∃ b ∈ l, b.getLsbD k = true := by
  induction l with
  | nil => simp [union]
  | cons b l ih =>
    show (b ||| union l).getLsbD k = true ↔ _
    rw [BitVec.getLsbD_or, Bool.or_eq_true, ih]
    simp

theorem getLsbD_twoPows {l : List ℕ} {k : ℕ} :
    (union (l.map (BitVec.twoPow 64))).getLsbD k = true ↔ k < 64 ∧ k ∈ l := by
  rw [getLsbD_union]
  constructor
  · rintro ⟨b, hb, hk⟩
    obtain ⟨i, hi, rfl⟩ := List.mem_map.mp hb
    rw [BitVec.getLsbD_twoPow, Bool.and_eq_true, decide_eq_true_iff, decide_eq_true_iff] at hk
    obtain ⟨hlt, rfl⟩ := hk
    exact ⟨hlt, hi⟩
  · rintro ⟨hk, hmem⟩
    refine ⟨_, List.mem_map_of_mem hmem, ?_⟩
    rw [BitVec.getLsbD_twoPow, decide_eq_true hk, decide_eq_true rfl]
    rfl

theorem getLsbD_bitsOf {number : NodeID → ℕ} {s : List NodeID} {k : ℕ} :
    (bitsOf number s).getLsbD k = true ↔ k < 64 ∧ ∃ m ∈ s, number m = k := by
  have heq : bitsOf number s = union ((s.map number).map (BitVec.twoPow 64)) := by
    rw [List.map_map]
    rfl
  rw [heq, getLsbD_twoPows, List.mem_map]

/-- A set of bits covers some nodes if it has the bit of each. -/
theorem or_bitsOf_eq {number : NodeID → ℕ} {s : List NodeID} {b : Bitset} (hs : ∀ m ∈ s, number m < 64) :
    b ||| bitsOf number s = b ↔ ∀ m ∈ s, b.getLsbD (number m) = true := by
  constructor
  · intro heq m hm
    rw [← heq, BitVec.getLsbD_or, getLsbD_bitsOf.mpr ⟨hs m hm, m, hm, rfl⟩, Bool.or_true]
  · intro hall
    refine BitVec.eq_of_getLsbD_eq fun k hk => ?_
    rw [BitVec.getLsbD_or, Bool.or_eq_left_iff_imp]
    intro hbit
    obtain ⟨-, m, hm, rfl⟩ := getLsbD_bitsOf.mp hbit
    exact hall m hm

/-! ## The loops -/

theorem containsSlice_spec {b : Bitset} {full rem : List Bitset} {e : BitsetEnumerator} {fuel : ℕ}
    (he : enumerators.Lists True full rem e) (hfuel : rem.length < fuel) :
    containsSlice b fuel e = .ok (rem.any fun x => b ||| x = b) := by
  induction fuel generalizing rem e with
  | zero => exact absurd hfuel (Nat.not_lt_zero _)
  | succ fuel ih =>
    have halive : e.alive = !rem.isEmpty := he.alive
    unfold containsSlice
    rw [halive]
    cases rem with
    | nil => rfl
    | cons x rem =>
      have hderef : e.deref = x := he.deref
      have hnext : containsSlice b fuel e.next = _ :=
        ih (he.next (.inl trivial)) (Nat.lt_of_succ_lt_succ hfuel)
      rw [hderef, List.any_cons]
      by_cases hx : b ||| x = b
      · simp [hx]
      · simpa [hx] using hnext

/-- The enumerator of a node gives its slices, the node included. -/
theorem Admitted.makeSliceEnumerator_spec (h : iq.Admitted) (hq : iq.quorumSet n = some q) :
    ∃ e, iq.makeSliceEnumerator n iq.nodeNumbers = .ok e ∧
      enumerators.Lists True ((slices q).map fun s => bitsOf iq.number (n :: s))
        ((slices q).map fun s => bitsOf iq.number (n :: s)) e := by
  obtain ⟨hnode, ⟨hash, hhash⟩, hsane, hnarrow, hnodes⟩ := h.quorumSet_spec hq
  obtain ⟨hr, -, -, -⟩ := isQuorumSetSane_iff.mp hsane
  have hlookup := lookup_of_mem h.hashes_nodup hhash
  have hqset : iq.mQsets.lookup hash = some q := by
    unfold quorumSet at hq
    rwa [hlookup] at hq
  have hspec : ∃ e, makeQsetEnumerator iq.nodeNumbers q = .ok e ∧ enumerators.Tracks
      ((slices q).map (bitsOf iq.number)) ((slices q).map (bitsOf iq.number)) e :=
    makeQsetEnumerator_spec (fun m hm => ⟨lookup_nodeNumbers (hnodes m hm), h.number_lt (hnodes m hm)⟩) hr
      hnarrow
  obtain ⟨e, he, htracks⟩ := hspec
  have hne : ∀ l ∈ [[BitVec.twoPow 64 (iq.number n)], (slices q).map (bitsOf iq.number)], l ≠ [] := by
    intro l hl
    obtain rfl | hl := List.mem_cons.mp hl
    · exact List.cons_ne_nil _ _
    · obtain rfl := List.mem_singleton.mp hl
      exact fun hnil => slices_ne_nil hr hnarrow (List.map_eq_nil_iff.mp hnil)
  have hgives : Gives [Util.bitNumber (iq.number n), e]
      [[BitVec.twoPow 64 (iq.number n)], (slices q).map (bitsOf iq.number)] :=
    .cons (tracks_constant _) (.cons htracks .nil)
  have hlists := lists_newCartesianProduct hne hgives
  have hvisited : (visited [[BitVec.twoPow 64 (iq.number n)], (slices q).map (bitsOf iq.number)]).map union =
      (slices q).map fun s => bitsOf iq.number (n :: s) := by
    have hcarried : ∀ l : List Bitset, carried [l] = l.map fun x => [x] := fun l => by simp [carried]
    have htuples : ∀ (x : Bitset) (l : List Bitset), visited [[x], l] = l.map fun y => [x, y] := by
      intro x l
      rw [visited, hcarried, List.flatMap_map]
      exact List.flatMap_pure_eq_map _ l
    rw [htuples, List.map_map, List.map_map]
    apply List.map_congr_left
    intro s _
    show BitVec.twoPow 64 (iq.number n) ||| (bitsOf iq.number s ||| 0) = _
    rw [show bitsOf iq.number s ||| 0 = bitsOf iq.number s from BitVec.or_zero]
    rfl
  rw [hvisited] at hlists
  refine ⟨_, ?_, hlists⟩
  have hbit : bitNumber (iq.number n) = .ok (Util.bitNumber (iq.number n)) :=
    assert_bind (h.number_lt hnode) _ _
  unfold makeSliceEnumerator
  simp only [find_of_lookup (lookup_nodeNumbers hnode), find_of_lookup hlookup, find_of_lookup hqset, hbit,
    he, bind, Except.bind]
  rfl

theorem slices_lt_fuelBound (h : iq.Admitted) (hq : iq.quorumSet n = some q) :
    (slices q).length < iq.fuelBound := by
  obtain ⟨-, ⟨hash, hhash⟩, -⟩ := h.quorumSet_spec hq
  have hmem : (slices q).length ∈
      iq.mQsetHashes.map fun n => (iq.quorumSet n.1).elim 0 fun q => (slices q).length := by
    refine List.mem_map.mpr ⟨(n, hash), hhash, ?_⟩
    rw [hq]
    rfl
  have hle := List.single_le_sum (fun _ _ => Nat.zero_le _) _ hmem
  exact hle.trans_lt (Nat.lt_succ_of_le (Nat.le_add_left _ _))

/-- The bit is that of a node of which a slice is covered. -/
def Covered (iq : InferredQuorum) (b : Bitset) (i : ℕ) : Prop :=
  ∃ n q, iq.nodes[i]? = some n ∧ iq.quorumSet n = some q ∧
    ∃ s ∈ slices q, ∀ m ∈ s, b.getLsbD (iq.number m) = true

/-- Each bit is that of a node with a quorum set. -/
def Grounded (iq : InferredQuorum) (b : Bitset) : Prop :=
  ∀ i, b.getLsbD i = true → ∃ n q, iq.nodes[i]? = some n ∧ iq.quorumSet n = some q

theorem Admitted.number_of_getElem (h : iq.Admitted) {i : ℕ} (hi : iq.nodes[i]? = some n) :
    n ∈ iq.nodes ∧ iq.number n = i := by
  obtain ⟨hlt, rfl⟩ := List.getElem?_eq_some_iff.mp hi
  exact ⟨List.getElem_mem hlt, h.nodes_nodup.idxOf_getElem i hlt⟩

theorem Admitted.isQuorumFrom_spec (h : iq.Admitted) {fuel : ℕ} (hfuel : iq.fuelBound ≤ fuel) {b : Bitset}
    (hb : iq.Grounded b) (is : List ℕ) : ∃ isOne, isQuorumFrom iq fuel b iq.nodeNumbers iq.nodes is = .ok isOne ∧
      (isOne = true ↔ ∀ i ∈ is, b.getLsbD i = true → iq.Covered b i) := by
  induction is with
  | nil => exact ⟨true, rfl, by simp⟩
  | cons i is ih =>
    obtain ⟨isOne, his, hiff⟩ := ih
    unfold isQuorumFrom
    by_cases hbit : b.getLsbD i = true
    · obtain ⟨n, q, hn, hq⟩ := hb i hbit
      obtain ⟨hnode, hnumber⟩ := h.number_of_getElem hn
      obtain ⟨-, -, hsane, hnarrow, hnodes⟩ := h.quorumSet_spec hq
      obtain ⟨e, he, hlists⟩ := h.makeSliceEnumerator_spec hq
      have hlen : ((slices q).map fun s => bitsOf iq.number (n :: s)).length < fuel := by
        rw [List.length_map]
        exact (slices_lt_fuelBound h hq).trans_le hfuel
      have hcontains := containsSlice_spec (b := b) hlists hlen
      have hcovered : (((slices q).map fun s => bitsOf iq.number (n :: s)).any fun x => b ||| x = b) = true ↔
          iq.Covered b i := by
        have hslice : ∀ s ∈ slices q, (b ||| bitsOf iq.number (n :: s) = b ↔
            ∀ m ∈ s, b.getLsbD (iq.number m) = true) := by
          intro s hs
          have hsub := (slices_sound (U := []) (isQuorumSetSane_iff.mp hsane).1 hnarrow hs).1
          rw [or_bitsOf_eq, List.forall_mem_cons, hnumber, and_iff_right hbit]
          intro m hm
          obtain rfl | hm := List.mem_cons.mp hm
          · exact h.number_lt hnode
          · exact h.number_lt (hnodes m (hsub m hm))
        rw [List.any_map, List.any_eq_true]
        constructor
        · rintro ⟨s, hs, hor⟩
          exact ⟨n, q, hn, hq, s, hs, (hslice s hs).mp (of_decide_eq_true hor)⟩
        · rintro ⟨n', q', hn', hq', s, hs, hall⟩
          obtain rfl := Option.some.inj (hn.symm.trans hn')
          obtain rfl := Option.some.inj (hq.symm.trans hq')
          exact ⟨s, hs, decide_eq_true ((hslice s hs).mpr hall)⟩
      rw [if_pos hbit, hn]
      simp only [he, checked, Except.mapError, hcontains, bind, Except.bind]
      rw [List.forall_mem_cons, forall_prop_of_true hbit, ← hcovered]
      cases hany : ((slices q).map fun s => bitsOf iq.number (n :: s)).any fun x => decide (b ||| x = b) with
      | true => exact ⟨isOne, his, by rw [hiff, and_iff_right rfl]⟩
      | false => exact ⟨false, rfl, by simp⟩
    · rw [if_neg hbit, List.forall_mem_cons]
      exact ⟨isOne, his, by rw [hiff, and_iff_right fun hbit' => absurd hbit' hbit]⟩

/-- The bits of a seen quorum. -/
def Covers (iq : InferredQuorum) (b : Bitset) : Prop := ∀ i, b.getLsbD i = true → iq.Covered b i

theorem Admitted.isQuorum_spec (h : iq.Admitted) {fuel : ℕ} (hfuel : iq.fuelBound ≤ fuel) {b : Bitset}
    (hb : iq.Grounded b) : ∃ isOne, iq.isQuorum fuel b iq.nodeNumbers iq.nodes = .ok isOne ∧
      (isOne = true ↔ iq.Covers b) := by
  obtain ⟨isOne, hrun, hiff⟩ := h.isQuorumFrom_spec hfuel hb (List.range 64)
  refine ⟨isOne, hrun, hiff.trans ⟨fun hall i hi => ?_, fun hall i _ hi => hall i hi⟩⟩
  exact hall i (List.mem_range.mpr (BitVec.lt_of_getLsbD hi)) hi

/-- The loop over the candidates keeps the quorums among them. -/
theorem Admitted.enumerateQuorums_spec (h : iq.Admitted) {fuel : ℕ} (hfuel : iq.fuelBound ≤ fuel)
    {full rem : List Bitset} {e : BitsetEnumerator} {n : ℕ} (he : enumerators.Lists False full rem e)
    (hn : rem.length < n) (hrem : ∀ b ∈ rem, iq.Grounded b) (allQuorums : List Bitset) :
    ∃ found, iq.enumerateQuorums fuel iq.nodeNumbers iq.nodes n e allQuorums = .ok found ∧
      ∀ b, b ∈ found ↔ b ∈ allQuorums ∨ b ∈ rem ∧ iq.Covers b := by
  induction n generalizing rem e allQuorums with
  | zero => exact absurd hn (Nat.not_lt_zero _)
  | succ n ih =>
    have halive : e.alive = !rem.isEmpty := he.alive
    unfold enumerateQuorums
    rw [halive]
    cases rem with
    | nil => exact ⟨allQuorums, rfl, fun b => by simp⟩
    | cons x rem =>
      obtain ⟨hx, hrem⟩ := List.forall_mem_cons.mp hrem
      have hderef : e.deref = x := he.deref
      obtain ⟨isOne, hrun, hiff⟩ := h.isQuorum_spec hfuel hx
      obtain ⟨found, hfound, hmem⟩ := ih (he.next (.inr (List.cons_ne_nil x rem))) (Nat.lt_of_succ_lt_succ hn)
        hrem (if isOne then allQuorums.insert x else allQuorums)
      refine ⟨found, ?_, fun b => ?_⟩
      · rw [hderef, hrun]
        exact hfound
      · rw [hmem, List.mem_cons]
        cases isOne with
        | true =>
          have hcovers := hiff.mp rfl
          rw [if_pos rfl, List.mem_insert_iff]
          constructor
          · rintro ((rfl | hb) | hb)
            · exact .inr ⟨.inl rfl, hcovers⟩
            · exact .inl hb
            · exact .inr ⟨.inr hb.1, hb.2⟩
          · rintro (hb | ⟨rfl | hb, hb'⟩)
            · exact .inl (.inr hb)
            · exact .inl (.inl rfl)
            · exact .inr ⟨hb, hb'⟩
        | false =>
          have hcovers : ¬ iq.Covers x := fun hc => Bool.false_ne_true (hiff.mpr hc)
          rw [if_neg Bool.false_ne_true]
          constructor
          · rintro (hb | hb)
            · exact .inl hb
            · exact .inr ⟨.inr hb.1, hb.2⟩
          · rintro (hb | ⟨rfl | hb, hb'⟩)
            · exact .inl hb
            · exact absurd hb' hcovers
            · exact .inr ⟨hb, hb'⟩

/-! ## The candidates -/

theorem visited_singletons {α : Type} (f : α → Bitset) {l : List α} (hl : l ≠ []) :
    visited (l.map fun a => [f a]) = [l.map f] := by
  have hcarried : ∀ l : List α, carried (l.map fun a => [f a]) = [l.map f] := by
    intro l
    induction l with
    | nil => rfl
    | cons a l ih =>
      rw [List.map_cons, carried, ih, List.map_map]
      rfl
  obtain ⟨a, l, rfl⟩ := List.exists_cons_of_ne_nil hl
  rw [List.map_cons, visited, hcarried]
  rfl

theorem selections_singletons {numbers : List ℕ} {ms : List Bitset} (h : ∀ m ∈ ms, chosen m 0 numbers ≠ []) :
    selections (numbers.map fun i => [BitVec.twoPow 64 i]) ms =
      ms.map fun m => union ((chosen m 0 numbers).map (BitVec.twoPow 64)) := by
  unfold selections
  induction ms with
  | nil => rfl
  | cons m ms ih =>
    obtain ⟨hm, hms⟩ := List.forall_mem_cons.mp h
    rw [List.flatMap_cons, ih hms, chosen_map, visited_singletons _ hm]
    rfl

theorem ones_pos {x : ℕ} (hx : x ≠ 0) : 0 < ones x := by
  obtain ⟨h, j, c, hruns⟩ := exists_runs hx
  rw [hruns.ones_eq]
  omega

/-- What the enumerator of the candidates gives. -/
def candidates (numbers : List ℕ) : List Bitset :=
  selections (numbers.map fun i => [BitVec.twoPow 64 i]) (words (List.range' 1 (2 ^ numbers.length - 1)))

section Candidates

variable {numbers : List ℕ} (hlt : numbers.length < 64)

include hlt

theorem mem_subsets {m : Bitset} : m ∈ words (List.range' 1 (2 ^ numbers.length - 1)) ↔
    m.toNat ≠ 0 ∧ m.toNat < 2 ^ numbers.length := by
  have hpos := Nat.two_pow_pos numbers.length
  have hpow : 2 ^ numbers.length ≤ 2 ^ 63 := Nat.pow_le_pow_right (by decide) (by omega)
  constructor
  · intro hm
    obtain ⟨k, hk, rfl⟩ := List.mem_map.mp hm
    rw [List.mem_range'_1] at hk
    rw [BitVec.toNat_ofNat, Nat.mod_eq_of_lt (by omega)]
    omega
  · rintro ⟨hne, hm⟩
    refine List.mem_map.mpr ⟨m.toNat, ?_, by rw [BitVec.ofNat_toNat, BitVec.setWidth_eq]⟩
    rw [List.mem_range'_1]
    omega

theorem chosen_subsets {m : Bitset} (hm : m ∈ words (List.range' 1 (2 ^ numbers.length - 1))) :
    chosen m 0 numbers ≠ [] := by
  obtain ⟨hne, hm⟩ := (mem_subsets hlt).mp hm
  intro hnil
  have hlength := length_chosen hm
  have hpos := ones_pos hne
  rw [hnil, List.length_nil] at hlength
  omega

/-- A candidate has the bits of some of the numbers. -/
theorem mem_candidates {b : Bitset} : b ∈ candidates numbers ↔
    ∃ part, part.Sublist numbers ∧ part ≠ [] ∧ b = union (part.map (BitVec.twoPow 64)) := by
  unfold candidates
  rw [selections_singletons fun m hm => chosen_subsets hlt hm]
  constructor
  · intro hb
    obtain ⟨m, hm, rfl⟩ := List.mem_map.mp hb
    exact ⟨chosen m 0 numbers, chosen_sublist _ _ _, chosen_subsets hlt hm, rfl⟩
  · rintro ⟨part, hsub, hne, rfl⟩
    obtain ⟨m, hm, rfl⟩ := exists_chosen hsub hlt.le
    refine List.mem_map.mpr ⟨m, (mem_subsets hlt).mpr ⟨fun h0 => hne ?_, hm⟩, rfl⟩
    have hlength := length_chosen hm
    rw [h0, ones_zero] at hlength
    exact List.eq_nil_of_length_eq_zero hlength

theorem length_candidates : (candidates numbers).length = 2 ^ numbers.length - 1 := by
  unfold candidates
  rw [selections_singletons fun m hm => chosen_subsets hlt hm, List.length_map, words, List.length_map,
    List.length_range']

theorem lists_candidates (hne : numbers ≠ []) :
    enumerators.Lists False (candidates numbers) (candidates numbers)
      (newSelection (newPowerset numbers.length) (numbers.map Util.bitNumber)) := by
  have hgives : Gives (numbers.map Util.bitNumber) (numbers.map fun i => [BitVec.twoPow 64 i]) :=
    List.forall₂_map_left_iff.mpr (List.forall₂_map_right_iff.mpr
      (List.forall₂_same.mpr fun i _ => tracks_constant _))
  refine lists_newSelection (fun l hl => ?_) (fun m hm => ?_) ?_ (lists_newPowerset hlt) hgives
  · obtain ⟨i, -, rfl⟩ := List.mem_map.mp hl
    exact List.cons_ne_nil _ _
  · rw [chosen_map]
    exact fun hnil => chosen_subsets hlt hm (List.map_eq_nil_iff.mp hnil)
  · have hpow := Nat.one_lt_two_pow (List.length_pos_iff.mpr hne).ne'
    refine fun hnil => ?_
    have hlength := congrArg List.length hnil
    rw [words, List.length_map, List.length_range', List.length_nil] at hlength
    omega

end Candidates

/-! ## The check -/

/-- A pair of different sets of bits without a common one makes the check fail. -/
theorem allOk_iff {found : List Bitset} (hne : ∀ b ∈ found, b ≠ 0) :
    allOk found = true ↔ ∀ b ∈ found, ∀ b' ∈ found, ∃ i, b.getLsbD i = true ∧ b'.getLsbD i = true := by
  have hfalse : ∀ i, (0 : Bitset).getLsbD i = false := fun _ => BitVec.getLsbD_zero
  have hcommon : ∀ b b' : Bitset, b &&& b' ≠ 0 ↔ ∃ i, b.getLsbD i = true ∧ b'.getLsbD i = true := by
    intro b b'
    constructor
    · intro hand
      by_contra hno
      refine hand (BitVec.eq_of_getLsbD_eq fun i hi => ?_)
      rw [BitVec.getLsbD_and, hfalse, Bool.and_eq_false_iff]
      by_contra hbits
      rw [not_or, Bool.not_eq_false, Bool.not_eq_false] at hbits
      exact hno ⟨i, hbits⟩
    · rintro ⟨i, hb, hb'⟩ hzero
      have hbit : (b &&& b').getLsbD i = true := by rw [BitVec.getLsbD_and, hb, hb']; rfl
      rw [hzero, hfalse] at hbit
      cases hbit
  unfold allOk
  rw [List.all_eq_true]
  refine forall₂_congr fun b hb => ?_
  rw [List.all_eq_true]
  refine forall₂_congr fun b' hb' => ?_
  rw [Bool.or_eq_true, decide_eq_true_iff, decide_eq_true_iff, ← hcommon]
  constructor
  · rintro (rfl | hand)
    · rw [BitVec.and_self]
      exact hne b hb
    · exact hand
  · exact .inr

theorem seenQuorum_spec (h : iq.Admitted) (hU : iq.SeenQuorum U) {n : NodeID} (hn : n ∈ U) :
    n ∈ iq.nodes ∧ ∃ hash, (n, hash) ∈ iq.mQsetHashes := by
  obtain ⟨q, hq, -⟩ := hU.2 n hn
  obtain ⟨hnode, hhash, -⟩ := h.quorumSet_spec hq
  exact ⟨hnode, hhash⟩

/-- The bits of a seen quorum are covered. -/
theorem Admitted.covers_bitsOf (h : iq.Admitted) (hU : iq.SeenQuorum U) : iq.Covers (bitsOf iq.number U) := by
  intro i hi
  obtain ⟨-, n, hn, rfl⟩ := getLsbD_bitsOf.mp hi
  obtain ⟨q, hq, s, hs, hsub⟩ := hU.2 n hn
  have hnode := (seenQuorum_spec h hU hn).1
  refine ⟨n, q, List.getElem?_idxOf hnode, hq, s, hs, fun m hm => ?_⟩
  exact getLsbD_bitsOf.mpr ⟨h.number_lt (seenQuorum_spec h hU (hsub hm)).1, m, hsub hm, rfl⟩

/-- The nodes of some bits. -/
def nodesOf (iq : InferredQuorum) (b : Bitset) : List NodeID := iq.nodes.filter fun n => b.getLsbD (iq.number n)

theorem Admitted.seenQuorum_nodesOf (h : iq.Admitted) {b : Bitset} (hb : iq.Covers b) {i : ℕ}
    (hi : b.getLsbD i = true) : iq.SeenQuorum (iq.nodesOf b) := by
  refine ⟨?_, fun n hn => ?_⟩
  · obtain ⟨n, -, hget, -⟩ := hb i hi
    obtain ⟨hnode, rfl⟩ := h.number_of_getElem hget
    exact List.ne_nil_of_mem (List.mem_filter.mpr ⟨hnode, hi⟩)
  · obtain ⟨hnode, hbit⟩ := List.mem_filter.mp hn
    obtain ⟨n', q, hget, hq, s, hs, hall⟩ := hb _ hbit
    obtain rfl : n = n' := number_injective hnode (h.number_of_getElem hget).2.symm
    obtain ⟨-, -, hsane, hnarrow, hnodes⟩ := h.quorumSet_spec hq
    refine ⟨q, hq, s, hs, fun m hm => List.mem_filter.mpr ⟨hnodes m ?_, hall m hm⟩⟩
    exact (slices_sound (U := []) (isQuorumSetSane_iff.mp hsane).1 hnarrow hs).1 m hm

section Found

/-- The bit numbers of the nodes with quorum sets. -/
def NumbersOf (iq : InferredQuorum) (numbers : List ℕ) : Prop :=
  ∀ i, i ∈ numbers ↔ ∃ n hash, (n, hash) ∈ iq.mQsetHashes ∧ iq.number n = i

/-- The candidates that are covered. -/
def FoundAmong (iq : InferredQuorum) (numbers : List ℕ) (found : List Bitset) : Prop :=
  ∀ b, b ∈ found ↔
    (∃ part, part.Sublist numbers ∧ part ≠ [] ∧ b = union (part.map (BitVec.twoPow 64))) ∧ iq.Covers b

variable (h : iq.Admitted) {numbers : List ℕ} (hnumbers : iq.NumbersOf numbers) {found : List Bitset}
  (hfound : iq.FoundAmong numbers found)

include h hnumbers hfound

/-- The bits of a seen quorum are found. -/
theorem bitsOf_mem_found (hU : iq.SeenQuorum U) : bitsOf iq.number U ∈ found := by
  refine (hfound _).mpr ⟨⟨numbers.filter fun i => decide (i ∈ U.map iq.number), List.filter_sublist, ?_, ?_⟩,
    h.covers_bitsOf hU⟩
  · obtain ⟨n, U', rfl⟩ := List.exists_cons_of_ne_nil hU.1
    obtain ⟨-, hash, hn⟩ := seenQuorum_spec h hU List.mem_cons_self
    exact List.ne_nil_of_mem (List.mem_filter.mpr
      ⟨(hnumbers _).mpr ⟨n, hash, hn, rfl⟩, decide_eq_true (List.mem_map_of_mem List.mem_cons_self)⟩)
  · refine BitVec.eq_of_getLsbD_eq fun k hk => ?_
    rw [Bool.eq_iff_iff, getLsbD_bitsOf, getLsbD_twoPows, List.mem_filter, decide_eq_true_iff, List.mem_map,
      and_congr_right_iff]
    refine fun _ => ⟨fun hmem => ⟨?_, hmem⟩, fun hmem => hmem.2⟩
    obtain ⟨n, hn, rfl⟩ := hmem
    obtain ⟨-, hash, hn⟩ := seenQuorum_spec h hU hn
    exact (hnumbers _).mpr ⟨n, hash, hn, rfl⟩

theorem exists_bit_of_found {b : Bitset} (hb : b ∈ found) : ∃ i, b.getLsbD i = true := by
  obtain ⟨⟨part, hsub, hpart, rfl⟩, -⟩ := (hfound b).mp hb
  obtain ⟨i, part, rfl⟩ := List.exists_cons_of_ne_nil hpart
  obtain ⟨n, hash, hn, rfl⟩ := (hnumbers _).mp (hsub.subset List.mem_cons_self)
  exact ⟨_, getLsbD_twoPows.mpr ⟨h.number_lt (h.known _ hn).1, List.mem_cons_self⟩⟩

theorem allOk_found_iff : allOk found = true ↔ iq.SeenQuorumsIntersect := by
  have hsome : ∀ b ∈ found, ∃ i, b.getLsbD i = true := fun b hb => exists_bit_of_found h hnumbers hfound hb
  have hnonzero : ∀ b ∈ found, b ≠ 0 := by
    rintro b hb rfl
    obtain ⟨i, hi⟩ := hsome 0 hb
    rw [show (0 : Bitset).getLsbD i = false from BitVec.getLsbD_zero] at hi
    cases hi
  rw [allOk_iff hnonzero]
  constructor
  · intro hall U V hU hV
    obtain ⟨i, hi, hi'⟩ :=
      hall _ (bitsOf_mem_found h hnumbers hfound hU) _ (bitsOf_mem_found h hnumbers hfound hV)
    obtain ⟨-, n, hn, rfl⟩ := getLsbD_bitsOf.mp hi
    obtain ⟨-, m, hm, hmn⟩ := getLsbD_bitsOf.mp hi'
    obtain rfl := number_injective (seenQuorum_spec h hV hm).1 hmn
    exact ⟨m, hn, hm⟩
  · intro hall b hb b' hb'
    obtain ⟨i, hi⟩ := hsome b hb
    obtain ⟨i', hi'⟩ := hsome b' hb'
    obtain ⟨n, hn, hn'⟩ := hall _ _ (h.seenQuorum_nodesOf ((hfound b).mp hb).2 hi)
      (h.seenQuorum_nodesOf ((hfound b').mp hb').2 hi')
    exact ⟨_, (List.mem_filter.mp hn).2, (List.mem_filter.mp hn').2⟩

end Found

theorem checked_bind {α β : Type} (a : α) (f : α → Looping β) : (checked (.ok a) >>= f) = f a := rfl

/-- The check goes through all sets of nodes with quorum sets and compares those that it sees to be
quorums. -/
theorem Admitted.checkQuorumIntersection_spec (h : iq.Admitted) {order : List ℕ → List ℕ}
    (horder : ∀ l, (order l).Perm l) {fuel : ℕ} (hfuel : iq.fuelBound ≤ fuel) :
    ∃ intersect, iq.checkQuorumIntersection order fuel = .ok intersect ∧
      (intersect = true ↔ iq.SeenQuorumsIntersect) := by
  have hrun : (iq.mQsetHashes.mapM fun n => do
      assert (iq.mQsets.lookup n.2).isSome "mQsets.find(n.second) != mQsets.end()"
      find iq.nodeNumbers n.1 "i != nodeNumbers.end()") = .ok (iq.mQsetHashes.map fun n => iq.number n.1) := by
    refine mapM_ok fun n hn => ?_
    obtain ⟨hnode, q, hq, -⟩ := h.known n hn
    rw [assert_bind (by rw [hq]; rfl), find_of_lookup (lookup_nodeNumbers hnode)]
  obtain ⟨numbers, hdef⟩ : ∃ numbers, numbers = order (iq.mQsetHashes.map fun n => iq.number n.1).dedup :=
    ⟨_, rfl⟩
  have hperm := horder (iq.mQsetHashes.map fun n => iq.number n.1).dedup
  rw [← hdef] at hperm
  have hnumbers : iq.NumbersOf numbers := by
    intro i
    rw [hperm.mem_iff, List.mem_dedup, List.mem_map]
    exact ⟨fun ⟨⟨n, hash⟩, hn, hi⟩ => ⟨n, hash, hn, hi⟩, fun ⟨n, hash, hn, hi⟩ => ⟨(n, hash), hn, hi⟩⟩
  have hlen : numbers.length ≤ iq.mQsetHashes.length := by
    rw [hperm.length_eq]
    exact (List.dedup_sublist _).length_le.trans_eq (List.length_map _)
  have hlt : numbers.length < 64 := hlen.trans_lt h.hashes_length
  have hbits : numbers.mapM bitNumber = .ok (numbers.map Util.bitNumber) := by
    refine mapM_ok fun i hi => ?_
    obtain ⟨n, hash, hn, rfl⟩ := (hnumbers i).mp hi
    exact assert_bind (h.number_lt (h.known _ hn).1) _ _
  have hne : numbers ≠ [] := by
    obtain ⟨U, hU, hq⟩ := h.some_quorum
    obtain ⟨n, U, rfl⟩ := List.exists_cons_of_ne_nil hU
    obtain ⟨q, hq, -⟩ := hq n List.mem_cons_self
    obtain ⟨-, ⟨hash, hhash⟩, -⟩ := h.quorumSet_spec hq
    exact List.ne_nil_of_mem ((hnumbers _).mpr ⟨n, hash, hhash, rfl⟩)
  have hcount : (candidates numbers).length < fuel := by
    have hpow : 2 ^ numbers.length ≤ 2 ^ iq.mQsetHashes.length := Nat.pow_le_pow_right (by decide) hlen
    have hbound : 2 ^ iq.mQsetHashes.length < iq.fuelBound := Nat.lt_succ_of_le (Nat.le_add_right _ _)
    have hpos := Nat.two_pow_pos numbers.length
    rw [length_candidates hlt]
    omega
  have hgrounded : ∀ b ∈ candidates numbers, iq.Grounded b := by
    intro b hb i hi
    obtain ⟨part, hsub, -, rfl⟩ := (mem_candidates hlt).mp hb
    obtain ⟨-, hpart⟩ := getLsbD_twoPows.mp hi
    obtain ⟨n, hash, hn, rfl⟩ := (hnumbers i).mp (hsub.subset hpart)
    obtain ⟨q, hq⟩ := h.quorumSet_of_hash hn
    exact ⟨n, q, List.getElem?_idxOf (h.known _ hn).1, hq⟩
  obtain ⟨found, hloop, hmem⟩ :=
    h.enumerateQuorums_spec hfuel (lists_candidates hlt hne) hcount hgrounded []
  have hfound : iq.FoundAmong numbers found := by
    intro b
    rw [hmem, mem_candidates hlt]
    simp
  refine ⟨allOk found, ?_, allOk_found_iff h hnumbers hfound⟩
  have hassert := assert_of (show (numbers.map Util.bitNumber).length < 64 by rwa [List.length_map])
  unfold checkQuorumIntersection
  rw [hrun, checked_bind]
  dsimp only
  rw [← hdef, hbits, checked_bind, hassert, checked_bind, hassert, checked_bind, List.length_map, hloop]
  rfl

/-- **When the check is exact.** If there are two quorums that do not meet, there are two among those that
have a seen slice for each of their nodes. -/
theorem checkQuorumIntersection_exact_iff (h : iq.Admitted) {order : List ℕ → List ℕ}
    (horder : ∀ l, (order l).Perm l) : iq.Exact order ↔
      ((∃ U V, iq.IsQuorum U ∧ iq.IsQuorum V ∧ U.Disjoint V) →
        ∃ U V, iq.SeenQuorum U ∧ iq.SeenQuorum V ∧ U.Disjoint V) := by
  have hdisjoint : ∀ {P : List NodeID → Prop}, (∃ U V, P U ∧ P V ∧ U.Disjoint V) ↔
      ¬ ∀ U V, P U → P V → ∃ n ∈ U, n ∈ V := by
    intro P
    constructor
    · rintro ⟨U, V, hU, hV, hUV⟩ hall
      obtain ⟨n, hn, hn'⟩ := hall U V hU hV
      exact hUV hn hn'
    · intro hno
      push Not at hno
      obtain ⟨U, V, hU, hV, hUV⟩ := hno
      exact ⟨U, V, hU, hV, fun n hn hn' => hUV n hn hn'⟩
  rw [hdisjoint, hdisjoint, not_imp_not]
  have hsound : iq.QuorumsIntersect → iq.SeenQuorumsIntersect := fun hall U V hU hV =>
    hall U V (h.seen_isQuorum hU) (h.seen_isQuorum hV)
  constructor
  · rintro ⟨intersect, enough, hruns, hiff⟩ hseen
    obtain ⟨intersect', hrun', hiff'⟩ := h.checkQuorumIntersection_spec horder (le_max_right enough iq.fuelBound)
    obtain rfl := Except.ok.inj ((hruns _ (le_max_left _ _)).symm.trans hrun')
    exact hiff.mp (hiff'.mpr hseen)
  · intro hexact
    by_cases hseen : iq.SeenQuorumsIntersect
    · refine ⟨true, iq.fuelBound, fun fuel hfuel => ?_, fun _ => hexact hseen, fun _ => rfl⟩
      obtain ⟨intersect, hrun, hiff⟩ := h.checkQuorumIntersection_spec horder hfuel
      rw [hrun, hiff.mpr hseen]
    · refine ⟨false, iq.fuelBound, fun fuel hfuel => ?_, (fun hfalse => by cases hfalse),
        fun hall => absurd (hsound hall) hseen⟩
      obtain ⟨intersect, hrun, hiff⟩ := h.checkQuorumIntersection_spec horder hfuel
      rw [hrun, Bool.eq_false_iff.mpr fun htrue => hseen (hiff.mp htrue)]

/-- The first node wants one of each of three pairs, the nodes 1, 3 and 6 want the first one, and the last
one wants itself only. -/
def skippedSlice : InferredQuorum where
  mQsets := [(0, .mk 3 [] [.mk 1 [1, 2] [], .mk 1 [3, 4] [], .mk 1 [5, 6] []]), (1, .mk 1 [0] []),
    (2, .mk 1 [7] [])]
  mQsetHashes := [(0, 0), (1, 1), (3, 1), (6, 1), (7, 2)]
  mPubKeys := [(0, 1), (1, 1), (2, 1), (3, 1), (4, 1), (5, 1), (6, 1), (7, 1)]

theorem narrow_plain {t : ℕ} {v : List NodeID} (h : v.length < 64) : Narrow (.mk t v []) :=
  .mk h fun _ hq => absurd hq List.not_mem_nil

theorem subset_of_all (h : U.all (fun n => decide (n ∈ V)) = true) : ∀ n ∈ U, n ∈ V := fun n hn =>
  of_decide_eq_true (List.all_eq_true.mp h n hn)

theorem admitted_skippedSlice : skippedSlice.Admitted where
  nodes_nodup := by decide +kernel
  nodes_length := by decide +kernel
  hashes_nodup := by decide +kernel
  hashes_length := by decide +kernel
  known := by
    have hone : ∀ n : NodeID, Narrow (.mk 1 [n] []) := fun _ => narrow_plain (show 1 < 64 by decide)
    have hpair : ∀ n m : NodeID, Narrow (.mk 1 [n, m] []) := fun _ _ => narrow_plain (show 2 < 64 by decide)
    have hthree : Narrow (.mk 3 [] [.mk 1 [1, 2] [], .mk 1 [3, 4] [], .mk 1 [5, 6] []]) := by
      refine .mk (by decide) ?_
      rw [List.forall_mem_cons, List.forall_mem_cons, List.forall_mem_singleton]
      exact ⟨hpair 1 2, hpair 3 4, hpair 5 6⟩
    have hwants : ∀ n : NodeID, n ∈ skippedSlice.nodes → n ∈ skippedSlice.nodes ∧ ∃ q,
        skippedSlice.mQsets.lookup 1 = some q ∧ isQuorumSetSane q false = true ∧ Narrow q ∧
          ∀ m ∈ allNodesInternal q, m ∈ skippedSlice.nodes := fun n hn =>
      ⟨hn, _, rfl, by decide +kernel, hone 0, subset_of_all (by decide +kernel)⟩
    refine List.forall_mem_cons.mpr ⟨⟨by decide +kernel, _, rfl, by decide +kernel, hthree,
      subset_of_all (by decide +kernel)⟩, ?_⟩
    refine List.forall_mem_cons.mpr ⟨hwants 1 (by decide +kernel), ?_⟩
    refine List.forall_mem_cons.mpr ⟨hwants 3 (by decide +kernel), ?_⟩
    refine List.forall_mem_cons.mpr ⟨hwants 6 (by decide +kernel), ?_⟩
    exact List.forall_mem_singleton.mpr
      ⟨by decide +kernel, _, rfl, by decide +kernel, hone 7, subset_of_all (by decide +kernel)⟩
  some_quorum := by
    refine ⟨[7], List.cons_ne_nil _ _, fun n hn => ?_⟩
    obtain rfl := List.mem_singleton.mp hn
    exact ⟨_, rfl, by decide +kernel⟩

/-- The nodes 0, 1, 3 and 6 are a quorum, and so is 7; the check says that all quorums meet. -/
theorem skippedSlice_inexact : skippedSlice.Admitted ∧ ¬ skippedSlice.Exact id := by
  refine ⟨admitted_skippedSlice, ?_⟩
  rintro ⟨intersect, enough, hruns, hiff⟩
  have hrun : skippedSlice.checkQuorumIntersection id skippedSlice.fuelBound = .ok true := by decide +kernel
  have horder : ∀ l : List ℕ, (id l).Perm l := fun l => List.Perm.refl l
  obtain ⟨found, hfound, hseen⟩ := admitted_skippedSlice.checkQuorumIntersection_spec horder le_rfl
  obtain rfl := Except.ok.inj (hrun.symm.trans hfound)
  obtain ⟨found', hfound', hseen'⟩ := admitted_skippedSlice.checkQuorumIntersection_spec horder
    (le_max_right enough skippedSlice.fuelBound)
  obtain rfl := Except.ok.inj ((hruns _ (le_max_left _ _)).symm.trans hfound')
  have hall : skippedSlice.QuorumsIntersect := hiff.mp (hseen'.mpr (hseen.mp rfl))
  have hfour : skippedSlice.IsQuorum [0, 1, 3, 6] := by
    refine ⟨List.cons_ne_nil _ _, ?_⟩
    refine List.forall_mem_cons.mpr ⟨⟨_, rfl, by decide +kernel⟩, ?_⟩
    refine List.forall_mem_cons.mpr ⟨⟨_, rfl, by decide +kernel⟩, ?_⟩
    exact List.forall_mem_cons.mpr ⟨⟨_, rfl, by decide +kernel⟩,
      List.forall_mem_singleton.mpr ⟨_, rfl, by decide +kernel⟩⟩
  have hlast : skippedSlice.IsQuorum [7] :=
    ⟨List.cons_ne_nil _ _, List.forall_mem_singleton.mpr ⟨_, rfl, by decide +kernel⟩⟩
  obtain ⟨n, hn, hn'⟩ := hall _ _ hfour hlast
  obtain rfl := List.mem_singleton.mp hn'
  revert hn
  decide +kernel

theorem checkQuorumIntersection_exact_iff_skippedSlice : skippedSlice.Exact id ↔
    ((∃ U V, skippedSlice.IsQuorum U ∧ skippedSlice.IsQuorum V ∧ U.Disjoint V) →
      ∃ U V, skippedSlice.SeenQuorum U ∧ skippedSlice.SeenQuorum V ∧ U.Disjoint V) :=
  checkQuorumIntersection_exact_iff admitted_skippedSlice fun l => List.Perm.refl l

end ZaggCore.History.InferredQuorum
