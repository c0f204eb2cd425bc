import Mathlib
import ZaggCore.Overlay.OverlayManager

/-! # The registry of peers

A connection keeps its own state, and the overlay manager lists it among the pending or the authenticated
peers. The two agree as long as no peer is evicted for a preferred one (an evicted peer is taken off the
list and goes on), `async_connect` does not complete on a connection that was dropped (which brings it
back to life), and no connection is turned away while a peer is listed under the ID that a connection has
before its HELLO. -/

namespace ZaggCore.Overlay
open Foundations
set_option autoImplicit false
set_option maxHeartbeats 250000

/-- The states in which a connection is pending. -/
def PeerState.isPending : PeerState → Bool
  | .CONNECTING => true
  | .CONNECTED => true
  | .GOT_HELLO => true
  | .GOT_AUTH => false
  | .CLOSING => false

namespace OverlayManager

/-- The number of connections in some states. -/
def numberOf (om : OverlayManager) (states : PeerState → Bool) : ℕ :=
  (List.range om.created).countP fun p => states (om.peers p).mState

/-- A connection of `mPendingPeers` or `mAuthenticatedPeers`. -/
def Listed (om : OverlayManager) (peer : ℕ) : Prop :=
  peer ∈ om.mPendingPeers ∨ ∃ peerID, om.mAuthenticatedPeers.lookup peerID = some peer

variable (cfg : Config)

/-- The lists agree with the states of the connections, and are no longer than they may be. -/
structure Registered (om : OverlayManager) : Prop where
  pending : ∀ p ∈ om.admitted, p ∈ om.mPendingPeers ↔ (om.peers p).mState.isPending
  authenticated : ∀ p ∈ om.admitted,
    om.mAuthenticatedPeers.lookup (om.peers p).mPeerID = some p ↔ (om.peers p).mState = .GOT_AUTH
  closing : ∀ p ∈ om.admitted, (om.peers p).mState = .CLOSING → ¬ om.Listed p
  pendingCount : om.numberOf PeerState.isPending ≤ cfg.MAX_PENDING_CONNECTIONS
  authenticatedCount : om.numberOf (· = .GOT_AUTH) ≤ cfg.MAX_PEER_CONNECTIONS

/-- Whoever leaves the lists in a step is closing after it. -/
def LosesOnlyDropped (om : OverlayManager) (e : Event) : Prop :=
  ∀ p, om.Listed p → ¬ (overlayStep cfg om e).Listed p →
    ((overlayStep cfg om e).peers p).mState = .CLOSING

/-! ## The invariant -/

/-- What holds between events, with what it rests on. -/
structure Inv (om : OverlayManager) : Prop where
  created : ∀ p ∈ om.admitted, p < om.created
  outside : ∀ p, p ∉ om.admitted → (om.peers p).mState = .CLOSING ∧ (om.peers p).connecting = false
  nodup : om.mPendingPeers.Nodup
  pending_mem : ∀ p ∈ om.mPendingPeers, p ∈ om.admitted
  pending : ∀ p ∈ om.admitted, p ∈ om.mPendingPeers ↔ (om.peers p).mState.isPending
  listed : ∀ peerID p, om.mAuthenticatedPeers.lookup peerID = some p →
    p ∈ om.admitted ∧ (om.peers p).mPeerID = peerID ∧ (om.peers p).mState = .GOT_AUTH
  authenticated : ∀ p ∈ om.admitted, (om.peers p).mState = .GOT_AUTH →
    om.mAuthenticatedPeers.lookup (om.peers p).mPeerID = some p
  connecting : ∀ p, (om.peers p).connecting = true →
    (om.peers p).reading = false ∧ ((om.peers p).mState = .CONNECTING ∨ (om.peers p).mState = .CLOSING)
  pendingCount : om.getPendingPeersCount ≤ cfg.MAX_PENDING_CONNECTIONS
  authenticatedCount : om.getAuthenticatedPeersCount ≤ cfg.MAX_PEER_CONNECTIONS

variable {cfg} {om : OverlayManager}

theorem inv_new : Inv cfg new where
  created := by simp [new]
  outside _ _ := ⟨rfl, rfl⟩
  nodup := List.nodup_nil
  pending_mem := by simp [new]
  pending := by simp [new]
  listed _ _ h := by cases h
  authenticated := by simp [new]
  connecting _ h := by cases h
  pendingCount := Nat.zero_le _
  authenticatedCount := Nat.zero_le _

section Counts

theorem numberOf_eq (om : OverlayManager) (states : PeerState → Bool) :
    om.numberOf states = ((Finset.range om.created).filter fun p => states (om.peers p).mState).card := by
  rw [numberOf, List.countP_eq_length_filter,
    ← List.toFinset_card_of_nodup (List.Nodup.filter _ List.nodup_range)]
  congr 1
  ext p
  simp

/-- A connection in a state that is not `CLOSING` was admitted. -/
theorem Inv.admitted (h : Inv cfg om) {p : ℕ} (hp : (om.peers p).mState ≠ .CLOSING) :
    p ∈ om.admitted := by
  by_contra hnot
  exact hp (h.outside p hnot).1

theorem Inv.numberOf_pending (h : Inv cfg om) :
    om.numberOf PeerState.isPending ≤ cfg.MAX_PENDING_CONNECTIONS := by
  refine le_trans ?_ h.pendingCount
  rw [numberOf_eq, getPendingPeersCount, ← List.toFinset_card_of_nodup h.nodup]
  refine Finset.card_le_card fun p hp => ?_
  have hstate := (Finset.mem_filter.mp hp).2
  have hadmitted : p ∈ om.admitted := h.admitted fun hclosing => by
    rw [hclosing] at hstate
    cases hstate
  exact List.mem_toFinset.mpr ((h.pending p hadmitted).mpr hstate)

theorem Inv.numberOf_authenticated (h : Inv cfg om) :
    om.numberOf (· = .GOT_AUTH) ≤ cfg.MAX_PEER_CONNECTIONS := by
  refine le_trans ?_ h.authenticatedCount
  have hkeys : om.mAuthenticatedPeers.keys.toFinset.card = om.getAuthenticatedPeersCount :=
    List.toFinset_card_of_nodup om.mAuthenticatedPeers.keys_nodup
  have hentry : ∀ p ∈ (Finset.range om.created).filter (fun p => decide ((om.peers p).mState = .GOT_AUTH)),
      om.mAuthenticatedPeers.lookup (om.peers p).mPeerID = some p := by
    intro p hp
    have hstate : (om.peers p).mState = .GOT_AUTH := by simpa using (Finset.mem_filter.mp hp).2
    exact h.authenticated p (h.admitted (by rw [hstate]; exact PeerState.noConfusion)) hstate
  rw [numberOf_eq, ← hkeys]
  refine Finset.card_le_card_of_injOn (fun p => (om.peers p).mPeerID) (fun p hp => ?_)
    fun p hp q hq heq => ?_
  · rw [Finset.mem_coe, List.mem_toFinset]
    refine AList.mem_keys.mp (AList.lookup_isSome.mp ?_)
    rw [hentry p hp]
    rfl
  · have hp' := hentry p hp
    dsimp only at heq
    rw [heq, hentry q hq] at hp'
    exact (Option.some.inj hp').symm

theorem Inv.registered (h : Inv cfg om) : Registered cfg om where
  pending := h.pending
  authenticated p hp := ⟨fun hlookup => (h.listed _ p hlookup).2.2, h.authenticated p hp⟩
  closing p hp hclosing hlisted := by
    rcases hlisted with hpending | ⟨peerID, hlookup⟩
    · have := (h.pending p hp).mp hpending
      rw [hclosing] at this
      cases this
    · rw [(h.listed peerID p hlookup).2.2] at hclosing
      cases hclosing
  pendingCount := h.numberOf_pending
  authenticatedCount := h.numberOf_authenticated

/-- A connection that is in neither list is closing. -/
theorem Inv.closing_of_not_listed (h : Inv cfg om) {p : ℕ} (hp : ¬ om.Listed p) :
    (om.peers p).mState = .CLOSING := by
  by_contra hopen
  have hadmitted := h.admitted hopen
  cases hstate : (om.peers p).mState with
  | CLOSING => exact hopen hstate
  | GOT_AUTH => exact hp (.inr ⟨_, h.authenticated p hadmitted hstate⟩)
  | _ => exact hp (.inl ((h.pending p hadmitted).mpr (by rw [hstate]; rfl)))

end Counts

/-! ## What a step may do to a connection -/

section Changes

variable {p : ℕ} {x : Peer}

theorem Inv.not_listed_pending (h : Inv cfg om) (hp : p ∈ om.mPendingPeers) (peerID : NodeID) :
    om.mAuthenticatedPeers.lookup peerID ≠ some p := by
  intro hlookup
  have hpending := (h.pending p (h.pending_mem p hp)).mp hp
  rw [(h.listed peerID p hlookup).2.2] at hpending
  cases hpending

/-- A pending connection changes and stays pending. -/
theorem Inv.change (h : Inv cfg om) (hp : p ∈ om.mPendingPeers) (hstate : x.mState.isPending = true)
    (hconnecting : x.connecting = true → x.reading = false ∧ x.mState = .CONNECTING) :
    Inv cfg { om with peers := Function.update om.peers p x } where
  created := h.created
  outside q hq := by
    have hne : q ≠ p := fun heq => hq (heq ▸ h.pending_mem p hp)
    simpa [Function.update_of_ne hne] using h.outside q hq
  nodup := h.nodup
  pending_mem := h.pending_mem
  pending q hq := by
    by_cases heq : q = p
    · subst heq
      simpa [hstate] using hp
    · simpa [Function.update_of_ne heq] using h.pending q hq
  listed peerID q hq := by
    have hne : q ≠ p := fun heq => h.not_listed_pending hp peerID (heq ▸ hq)
    simpa [Function.update_of_ne hne] using h.listed peerID q hq
  authenticated q hq := by
    by_cases heq : q = p
    · subst heq
      intro hauth
      simp only [Function.update_self] at hauth
      rw [hauth] at hstate
      cases hstate
    · dsimp only
      rw [Function.update_of_ne heq]
      exact h.authenticated q hq
  connecting q := by
    by_cases heq : q = p
    · subst heq
      simp only [Function.update_self]
      exact fun hc => ⟨(hconnecting hc).1, .inl (hconnecting hc).2⟩
    · simpa [Function.update_of_ne heq] using h.connecting q
  pendingCount := h.pendingCount
  authenticatedCount := h.authenticatedCount

/-- A connection that is closing changes and stays so. -/
theorem Inv.changeClosing (h : Inv cfg om) (hp : (om.peers p).mState = .CLOSING)
    (hstate : x.mState = .CLOSING) (hconnecting : x.connecting = false) :
    Inv cfg { om with peers := Function.update om.peers p x } where
  created := h.created
  outside q hq := by
    by_cases heq : q = p
    · subst heq
      simpa using ⟨hstate, hconnecting⟩
    · simpa [Function.update_of_ne heq] using h.outside q hq
  nodup := h.nodup
  pending_mem := h.pending_mem
  pending q hq := by
    by_cases heq : q = p
    · subst heq
      have := h.pending q hq
      rw [hp] at this
      simpa [hstate] using this
    · simpa [Function.update_of_ne heq] using h.pending q hq
  listed peerID q hq := by
    have hne : q ≠ p := by
      rintro rfl
      rw [(h.listed peerID q hq).2.2] at hp
      cases hp
    simpa [Function.update_of_ne hne] using h.listed peerID q hq
  authenticated q hq := by
    by_cases heq : q = p
    · subst heq
      simp [hstate]
    · dsimp only
      rw [Function.update_of_ne heq]
      exact h.authenticated q hq
  connecting q := by
    by_cases heq : q = p
    · subst heq
      simp [hconnecting]
    · simpa [Function.update_of_ne heq] using h.connecting q
  pendingCount := h.pendingCount
  authenticatedCount := h.authenticatedCount

/-- A pending connection is dropped. -/
theorem Inv.closePending (h : Inv cfg om) (hp : p ∈ om.mPendingPeers) (hstate : x.mState = .CLOSING)
    (hconnecting : x.connecting = true → x.reading = false) :
    Inv cfg { om with
      peers := Function.update om.peers p x
      mPendingPeers := om.mPendingPeers.erase p } where
  created := h.created
  outside q hq := by
    have hne : q ≠ p := fun heq => hq (heq ▸ h.pending_mem p hp)
    simpa [Function.update_of_ne hne] using h.outside q hq
  nodup := h.nodup.erase p
  pending_mem q hq := h.pending_mem q (List.mem_of_mem_erase hq)
  pending q hq := by
    by_cases heq : q = p
    · subst heq
      simp [hstate, PeerState.isPending, h.nodup.not_mem_erase]
    · simpa [Function.update_of_ne heq, List.mem_erase_of_ne heq] using h.pending q hq
  listed peerID q hq := by
    have hne : q ≠ p := fun heq => h.not_listed_pending hp peerID (heq ▸ hq)
    simpa [Function.update_of_ne hne] using h.listed peerID q hq
  authenticated q hq := by
    by_cases heq : q = p
    · subst heq
      simp [hstate]
    · dsimp only
      rw [Function.update_of_ne heq]
      exact h.authenticated q hq
  connecting q := by
    by_cases heq : q = p
    · subst heq
      simpa [hstate] using hconnecting
    · simpa [Function.update_of_ne heq] using h.connecting q
  pendingCount := (List.length_erase_le ..).trans h.pendingCount
  authenticatedCount := h.authenticatedCount

/-- An authenticated connection is dropped. -/
theorem Inv.closeAuthenticated (h : Inv cfg om) (hp : (om.peers p).mState = .GOT_AUTH)
    (hstate : x.mState = .CLOSING) (hconnecting : x.connecting = false) :
    Inv cfg { om with
      peers := Function.update om.peers p x
      mAuthenticatedPeers := om.mAuthenticatedPeers.erase (om.peers p).mPeerID } where
  created := h.created
  outside q hq := by
    by_cases heq : q = p
    · subst heq
      simpa using ⟨hstate, hconnecting⟩
    · simpa [Function.update_of_ne heq] using h.outside q hq
  nodup := h.nodup
  pending_mem := h.pending_mem
  pending q hq := by
    by_cases heq : q = p
    · subst heq
      have := h.pending q hq
      rw [hp] at this
      simpa [hstate, PeerState.isPending] using this
    · simpa [Function.update_of_ne heq] using h.pending q hq
  listed peerID q hq := by
    have hID : peerID ≠ (om.peers p).mPeerID := by
      rintro rfl
      simp [AList.lookup_erase] at hq
    rw [AList.lookup_erase_ne hID] at hq
    have hne : q ≠ p := by
      rintro rfl
      exact hID (h.listed peerID q hq).2.1.symm
    simpa [Function.update_of_ne hne] using h.listed peerID q hq
  authenticated q hq := by
    by_cases heq : q = p
    · subst heq
      simp [hstate]
    · dsimp only
      rw [Function.update_of_ne heq]
      intro hauth
      have hlookup := h.authenticated q hq hauth
      rw [AList.lookup_erase_ne, hlookup]
      intro hID
      have hlookup' := h.authenticated p (h.admitted (by rw [hp]; exact PeerState.noConfusion)) hp
      rw [← hID, hlookup] at hlookup'
      exact heq (Option.some.inj hlookup')
  connecting q := by
    by_cases heq : q = p
    · subst heq
      simp [hconnecting]
    · simpa [Function.update_of_ne heq] using h.connecting q
  pendingCount := h.pendingCount
  authenticatedCount := by
    refine le_trans ?_ h.authenticatedCount
    unfold getAuthenticatedPeersCount
    rw [AList.keys_erase]
    exact List.length_erase_le ..

/-- A pending connection moves to the authenticated ones. -/
theorem Inv.authenticate (h : Inv cfg om) (hp : p ∈ om.mPendingPeers) (hstate : x.mState = .GOT_AUTH)
    (hconnecting : x.connecting = false) (hID : om.mAuthenticatedPeers.lookup x.mPeerID = none)
    (hroom : om.getAuthenticatedPeersCount < cfg.MAX_PEER_CONNECTIONS) :
    Inv cfg { om with
      peers := Function.update om.peers p x
      mPendingPeers := om.mPendingPeers.erase p
      mAuthenticatedPeers := om.mAuthenticatedPeers.insert x.mPeerID p } where
  created := h.created
  outside q hq := by
    have hne : q ≠ p := fun heq => hq (heq ▸ h.pending_mem p hp)
    simpa [Function.update_of_ne hne] using h.outside q hq
  nodup := h.nodup.erase p
  pending_mem q hq := h.pending_mem q (List.mem_of_mem_erase hq)
  pending q hq := by
    by_cases heq : q = p
    · subst heq
      simp [hstate, PeerState.isPending, h.nodup.not_mem_erase]
    · simpa [Function.update_of_ne heq, List.mem_erase_of_ne heq] using h.pending q hq
  listed peerID q hq := by
    by_cases heqID : peerID = x.mPeerID
    · subst heqID
      rw [AList.lookup_insert] at hq
      cases hq
      simpa [hstate] using h.pending_mem p hp
    · rw [AList.lookup_insert_ne heqID] at hq
      have hne : q ≠ p := fun heq => h.not_listed_pending hp peerID (heq ▸ hq)
      simpa [Function.update_of_ne hne] using h.listed peerID q hq
  authenticated q hq := by
    by_cases heq : q = p
    · subst heq
      dsimp only
      rw [Function.update_self]
      exact fun _ => AList.lookup_insert _
    · dsimp only
      rw [Function.update_of_ne heq]
      intro hauth
      have hlookup := h.authenticated q hq hauth
      rw [AList.lookup_insert_ne, hlookup]
      intro heqID
      rw [heqID, hID] at hlookup
      cases hlookup
  connecting q := by
    by_cases heq : q = p
    · subst heq
      simp [hconnecting]
    · simpa [Function.update_of_ne heq] using h.connecting q
  pendingCount := (List.length_erase_le ..).trans h.pendingCount
  authenticatedCount := by
    have hle := List.length_erase_le (a := x.mPeerID) (l := om.mAuthenticatedPeers.keys)
    unfold getAuthenticatedPeersCount at hroom ⊢
    rw [AList.keys_insert, List.length_cons]
    omega

/-- A new connection is let in. -/
theorem Inv.admit (h : Inv cfg om) (hstate : x.mState.isPending = true)
    (hconnecting : x.connecting = true → x.reading = false ∧ x.mState = .CONNECTING)
    (hroom : om.getPendingPeersCount < cfg.MAX_PENDING_CONNECTIONS) :
    Inv cfg { om with
      peers := Function.update om.peers om.created x
      created := om.created + 1
      admitted := om.admitted ++ [om.created]
      mPendingPeers := om.mPendingPeers ++ [om.created] } where
  created q hq := by
    rcases List.mem_append.mp hq with hq | hq
    · exact (h.created q hq).trans (Nat.lt_succ_self _)
    · rw [List.mem_singleton.mp hq]
      exact Nat.lt_succ_self _
  outside q hq := by
    have hne : q ≠ om.created := fun heq => hq (by simp [heq])
    have hq' : q ∉ om.admitted := fun hmem => hq (List.mem_append_left _ hmem)
    simpa [Function.update_of_ne hne] using h.outside q hq'
  nodup := by
    refine List.nodup_append.mpr ⟨h.nodup, List.nodup_singleton _, fun q hq r hr => ?_⟩
    rw [List.mem_singleton.mp hr]
    exact (h.created q (h.pending_mem q hq)).ne
  pending_mem q hq := by
    rcases List.mem_append.mp hq with hq | hq
    · exact List.mem_append_left _ (h.pending_mem q hq)
    · exact List.mem_append_right _ hq
  pending q hq := by
    by_cases heq : q = om.created
    · subst heq
      simp [hstate]
    · have hq' : q ∈ om.admitted := by simpa [heq] using hq
      simpa [Function.update_of_ne heq, heq] using h.pending q hq'
  listed peerID q hq := by
    have hold := h.listed peerID q hq
    have hne : q ≠ om.created := (h.created q hold.1).ne
    exact ⟨List.mem_append_left _ hold.1, by simpa [Function.update_of_ne hne] using hold.2⟩
  authenticated q hq := by
    by_cases heq : q = om.created
    · subst heq
      intro hauth
      simp only [Function.update_self] at hauth
      rw [hauth] at hstate
      cases hstate
    · have hq' : q ∈ om.admitted := by simpa [heq] using hq
      dsimp only
      rw [Function.update_of_ne heq]
      exact h.authenticated q hq'
  connecting q := by
    by_cases heq : q = om.created
    · subst heq
      simp only [Function.update_self]
      exact fun hc => ⟨(hconnecting hc).1, .inl (hconnecting hc).2⟩
    · simpa [Function.update_of_ne heq] using h.connecting q
  pendingCount := by simpa [getPendingPeersCount] using hroom
  authenticatedCount := h.authenticatedCount

end Changes

/-! ## What a step needs -/

variable (cfg) in
/-- The AUTH of the connection takes the place of a peer that is not preferred. -/
def Evicts (om : OverlayManager) (peer : ℕ) : Prop :=
  let om := om.setPeer peer fun p => { p with mState := .GOT_AUTH }
  om.isPreferred cfg peer = true ∧ cfg.MAX_PEER_CONNECTIONS ≤ om.getAuthenticatedPeersCount ∧
    (om.victim cfg).isSome = true

variable (cfg) in
/-- No peer is evicted, no connection comes back to life, and none is turned away under the ID of a peer. -/
def Sound (om : OverlayManager) : Event → Prop
  | .handleKnock => cfg.MAX_PENDING_CONNECTIONS ≤ om.getPendingPeersCount →
      om.mAuthenticatedPeers.lookup 0 = none
  | .connectHandler peer false => (om.peers peer).connecting = true →
      (om.peers peer).mState ≠ .CLOSING
  | .recvMessage peer .AUTH true _ _ => (om.peers peer).reading = true →
      (om.peers peer).mState = .GOT_HELLO → ¬ Evicts cfg om peer
  | _ => True

/-! ## The steps keep the invariant -/

section Steps

variable {p : ℕ}

@[simp] theorem setPeer_setPeer (om : OverlayManager) (p : ℕ) (f g : Peer → Peer) :
    (om.setPeer p f).setPeer p g = om.setPeer p (g ∘ f) := by
  simp [setPeer]

@[simp] theorem peers_setPeer (om : OverlayManager) (p : ℕ) (f : Peer → Peer) :
    (om.setPeer p f).peers p = f (om.peers p) := by
  simp [setPeer]

theorem peers_setPeer_of_ne {q : ℕ} (h : q ≠ p) (f : Peer → Peer) :
    (om.setPeer p f).peers q = om.peers q :=
  Function.update_of_ne h _ _

theorem drop_of_pending (hp : p ∈ om.mPendingPeers) (hopen : (om.peers p).mState ≠ .CLOSING) :
    om.drop p = { om with
      peers := Function.update om.peers p { om.peers p with mState := .CLOSING }
      mPendingPeers := om.mPendingPeers.erase p } := by
  unfold drop dropPeer
  rw [if_neg hopen, if_pos (by exact hp)]
  rfl

theorem drop_of_not_pending (hp : p ∉ om.mPendingPeers) (hopen : (om.peers p).mState ≠ .CLOSING) :
    om.drop p = { om with
      peers := Function.update om.peers p { om.peers p with mState := .CLOSING }
      mAuthenticatedPeers := om.mAuthenticatedPeers.erase (om.peers p).mPeerID } := by
  unfold drop dropPeer
  rw [if_neg hopen, if_neg (by exact hp), peers_setPeer]
  rfl

theorem Inv.mem_pending (h : Inv cfg om) (hp : (om.peers p).mState.isPending = true) :
    p ∈ om.mPendingPeers := by
  have hadmitted : p ∈ om.admitted := h.admitted fun hclosing => by
    rw [hclosing] at hp
    cases hp
  exact (h.pending p hadmitted).mpr hp

theorem Inv.drop (h : Inv cfg om) (p : ℕ) : Inv cfg (om.drop p) := by
  by_cases hclosing : (om.peers p).mState = .CLOSING
  · unfold OverlayManager.drop
    rwa [if_pos hclosing]
  by_cases hpending : p ∈ om.mPendingPeers
  · rw [drop_of_pending hpending hclosing]
    exact h.closePending hpending rfl fun hc => (h.connecting p hc).1
  · have hauth : (om.peers p).mState = .GOT_AUTH := by
      by_contra hne
      refine hpending (h.mem_pending ?_)
      cases hstate : (om.peers p).mState with
      | CLOSING => exact absurd hstate hclosing
      | GOT_AUTH => exact absurd hstate hne
      | _ => rfl
    rw [drop_of_not_pending hpending hclosing]
    refine h.closeAuthenticated hauth rfl (Bool.eq_false_iff.mpr fun hc => ?_)
    rcases (h.connecting p hc).2 with hstate | hstate
    · rw [hauth] at hstate
      cases hstate
    · exact hclosing hstate

theorem Inv.peers_created (h : Inv cfg om) : om.created ∉ om.admitted :=
  fun hmem => absurd (h.created _ hmem) (lt_irrefl _)

theorem erase_of_lookup_eq_none {m : AList fun _ : NodeID => ℕ} {peerID : NodeID}
    (hnone : m.lookup peerID = none) : m.erase peerID = m :=
  AList.ext (List.kerase_of_notMem_keys (AList.lookup_eq_none.mp hnone))

/-- A pointer is used up. -/
theorem Inv.create (h : Inv cfg om) : Inv cfg { om with created := om.created + 1 } :=
  { h with created := fun p hp => (h.created p hp).trans (Nat.lt_succ_self _) }

theorem Inv.handleKnock (h : Inv cfg om) (hsound : Sound cfg om .handleKnock) :
    Inv cfg (om.handleKnock cfg) := by
  unfold OverlayManager.handleKnock addPendingPeer OverlayManager.create
  dsimp only
  by_cases hfull : cfg.MAX_PENDING_CONNECTIONS ≤ om.getPendingPeersCount
  · rw [if_pos (by exact hfull)]
    have hfresh : om.created ∉ om.mPendingPeers := fun hmem => h.peers_created (h.pending_mem _ hmem)
    rw [drop_of_not_pending (by exact hfresh) (by simp)]
    simp only [Function.update_self, Function.update_idem]
    rw [erase_of_lookup_eq_none (hsound hfull)]
    have hclosing := (h.outside _ h.peers_created).1
    exact (h.changeClosing hclosing rfl rfl).create
  · rw [if_neg (by exact hfull)]
    exact h.admit rfl (fun hc => by cases hc) (not_le.mp hfull)

theorem Inv.connectTo (h : Inv cfg om) (address : PeerBareAddress) :
    Inv cfg (om.connectTo cfg address) := by
  unfold OverlayManager.connectTo
  by_cases hconnected : (om.getConnectedPeer address).isSome = true
  · rwa [if_pos hconnected]
  rw [if_neg hconnected]
  by_cases hroom : om.getPendingPeersCount < cfg.MAX_PENDING_CONNECTIONS
  · rw [if_pos hroom]
    unfold addPendingPeer OverlayManager.create
    dsimp only
    rw [if_neg (by exact not_le.mpr hroom)]
    exact h.admit rfl (fun _ => ⟨rfl, rfl⟩) hroom
  · rwa [if_neg hroom]

theorem Inv.connectHandler (h : Inv cfg om) {error : Bool} (hc : (om.peers p).connecting = true)
    (hsound : Sound cfg om (.connectHandler p error)) : Inv cfg (om.connectHandler p error) := by
  have hcompleted : Inv cfg (om.setPeer p fun p => { p with connecting := false }) := by
    rcases (h.connecting p hc).2 with hstate | hstate
    · refine h.change (h.mem_pending (by rw [hstate]; rfl)) ?_ (fun hc => by cases hc)
      dsimp only
      rw [hstate]
      rfl
    · exact h.changeClosing hstate hstate rfl
  cases error with
  | true => exact hcompleted.drop p
  | false =>
    have hstate := (h.connecting p hc).2.resolve_right (hsound hc)
    unfold OverlayManager.connectHandler
    refine hcompleted.change (h.mem_pending (by rw [hstate]; rfl)) rfl fun hc => ?_
    simp at hc

theorem Inv.recvHello (h : Inv cfg om) (hreading : (om.peers p).reading = true) (elo : Hello)
    (isBanned : Bool) (remoteIP : Option String) : Inv cfg (om.recvHello cfg p elo isBanned remoteIP) := by
  have hconnecting : (om.peers p).connecting = false := by
    by_contra hc
    rw [(h.connecting p (by simpa using hc)).1] at hreading
    cases hreading
  unfold OverlayManager.recvHello
  dsimp only
  by_cases hstate : (om.peers p).mState = .GOT_HELLO ∨ (om.peers p).mState = .GOT_AUTH ∨
      (om.peers p).mState = .CLOSING
  · rw [if_pos hstate]
    exact h.drop p
  rw [if_neg hstate]
  have hpending : p ∈ om.mPendingPeers := by
    refine h.mem_pending ?_
    cases hs : (om.peers p).mState <;> simp [hs] at hstate <;> rfl
  have hhello : Inv cfg (om.setPeer p fun p => { p with mPeerID := elo.peerID, mState := .GOT_HELLO }) :=
    h.change hpending rfl fun hc => by simp [hconnecting] at hc
  have haddress : Inv cfg ((om.setPeer p fun p => { p with mPeerID := elo.peerID, mState := .GOT_HELLO }).setPeer p
      fun p => { p with mAddress := makeAddress remoteIP elo.listeningPort }) :=
    hhello.change hpending (by rw [peers_setPeer]; rfl) fun hc => by simp [hconnecting] at hc
  split_ifs
  all_goals first
    | exact h.drop p
    | exact hhello.drop p
    | exact haddress.drop p
    | exact haddress

/-- A connection that is not listed stays where it is, or moves, if there is room for it. -/
theorem moveToAuthenticated_cases (om : OverlayManager) (p : ℕ) :
    om.moveToAuthenticated p = (om, false) ∨
      p ∈ om.mPendingPeers ∧ om.mAuthenticatedPeers.lookup (om.peers p).mPeerID = none ∧
        om.moveToAuthenticated p = ({ om with
          mPendingPeers := om.mPendingPeers.erase p
          mAuthenticatedPeers := om.mAuthenticatedPeers.insert (om.peers p).mPeerID p }, true) := by
  unfold moveToAuthenticated
  by_cases hp : p ∈ om.mPendingPeers
  · cases hlookup : om.mAuthenticatedPeers.lookup (om.peers p).mPeerID with
    | some q => simp [hp, hlookup]
    | none => simp [hp, hlookup]
  · simp [hp]

theorem acceptAuthenticatedPeer_cases (cfg : Config) (om : OverlayManager) (p : ℕ) :
    om.acceptAuthenticatedPeer cfg p = (om, false) ∨
      (om.getAuthenticatedPeersCount < cfg.MAX_PEER_CONNECTIONS ∧
        om.acceptAuthenticatedPeer cfg p = om.moveToAuthenticated p) ∨
      ∃ victim, om.isPreferred cfg p = true ∧
        cfg.MAX_PEER_CONNECTIONS ≤ om.getAuthenticatedPeersCount ∧ om.victim cfg = some victim ∧
        om.acceptAuthenticatedPeer cfg p = (om.dropPeer victim).moveToAuthenticated p := by
  unfold acceptAuthenticatedPeer
  dsimp only
  by_cases hroom : om.getAuthenticatedPeersCount < cfg.MAX_PEER_CONNECTIONS
  · by_cases hpreferred : om.isPreferred cfg p = true
    · exact .inr (.inl ⟨hroom, by simp [hpreferred, hroom]⟩)
    · by_cases honly : cfg.PREFERRED_PEERS_ONLY = true
      · exact .inl (by simp [hpreferred, honly])
      · exact .inr (.inl ⟨hroom, by simp [hpreferred, hroom, honly]⟩)
  · by_cases hpreferred : om.isPreferred cfg p = true
    · cases hvictim : om.victim cfg with
      | none => exact .inl (by simp [hpreferred, hroom])
      | some victim =>
        exact .inr (.inr ⟨victim, hpreferred, not_lt.mp hroom, rfl, by simp [hpreferred, hroom]⟩)
    · exact .inl (by simp [hpreferred, hroom])

theorem Inv.recvAuth (h : Inv cfg om) (hreading : (om.peers p).reading = true)
    (hevicts : (om.peers p).mState = .GOT_HELLO → ¬ Evicts cfg om p) :
    Inv cfg (om.recvAuth cfg p) := by
  unfold OverlayManager.recvAuth
  by_cases hstate : (om.peers p).mState ≠ .GOT_HELLO
  · rw [if_pos hstate]
    exact h.drop p
  rw [if_neg hstate]
  have hpending : p ∈ om.mPendingPeers := h.mem_pending (by rw [not_not.mp hstate]; rfl)
  have hconnecting : (om.peers p).connecting = false := by
    by_contra hc
    rw [(h.connecting p (by simpa using hc)).1] at hreading
    cases hreading
  have hrefused : Inv cfg ((om.setPeer p fun p => { p with mState := .GOT_AUTH }).drop p) := by
    rw [drop_of_pending (by exact hpending) (by simp)]
    simp only [setPeer, Function.update_self, Function.update_idem]
    exact h.closePending hpending rfl fun hc => by simp [hconnecting] at hc
  dsimp only
  rcases acceptAuthenticatedPeer_cases cfg
    (om.setPeer p fun p => { p with mState := .GOT_AUTH }) p with hno | ⟨hroom, hmove⟩ | hevict
  · rw [hno]
    exact hrefused
  · rw [hmove]
    rcases moveToAuthenticated_cases (om.setPeer p fun p => { p with mState := .GOT_AUTH }) p with
      hno | ⟨-, hnone, hyes⟩
    · rw [hno]
      exact hrefused
    · rw [hyes]
      rw [peers_setPeer] at hnone ⊢
      have hmoved := h.authenticate hpending rfl (by exact hconnecting) hnone hroom
      dsimp only
      rw [if_neg (by simp)]
      split_ifs
      · exact hmoved.drop p
      · exact hmoved
  · obtain ⟨victim, hpreferred, hfull, hvictim, -⟩ := hevict
    exact absurd ⟨hpreferred, hfull, by rw [hvictim]; rfl⟩ (hevicts (not_not.mp hstate))

theorem Inv.recvMessage (h : Inv cfg om) (msg : StellarMessage) (macVerified isBanned : Bool)
    (remoteIP : Option String) (hsound : Sound cfg om (.recvMessage p msg macVerified isBanned remoteIP)) :
    Inv cfg (om.recvMessage cfg p msg macVerified isBanned remoteIP) := by
  unfold OverlayManager.recvMessage
  dsimp only
  by_cases hclosed : (!(om.peers p).reading) = true ∨ (om.peers p).mState = .CLOSING
  · rwa [if_pos hclosed]
  rw [if_neg hclosed]
  have hreading : (om.peers p).reading = true := by
    simpa using (not_or.mp hclosed).1
  by_cases hmac : ((om.peers p).mState = .GOT_HELLO ∨ (om.peers p).mState = .GOT_AUTH) ∧
      msg ≠ .ERROR_MSG ∧ (!macVerified) = true
  · rw [if_pos hmac]
    exact h.drop p
  rw [if_neg hmac]
  cases msg with
  | ERROR_MSG => exact h.drop p
  | HELLO elo => exact h.recvHello hreading elo isBanned remoteIP
  | AUTH =>
    refine h.recvAuth hreading fun hhello => ?_
    cases macVerified with
    | true => exact hsound hreading hhello
    | false => exact absurd ⟨.inl hhello, by simp, rfl⟩ hmac
  | other =>
    dsimp only
    split_ifs
    · exact h
    · exact h.drop p

theorem Inv.step (h : Inv cfg om) (e : Event) (hsound : Sound cfg om e) :
    Inv cfg (overlayStep cfg om e) := by
  cases e with
  | handleKnock => exact h.handleKnock hsound
  | connectTo address => exact h.connectTo address
  | connectHandler peer error =>
    unfold overlayStep
    dsimp only
    split_ifs with hc
    · exact h.connectHandler hc hsound
    · exact h
  | recvMessage peer msg macVerified isBanned remoteIP =>
    exact h.recvMessage msg macVerified isBanned remoteIP hsound
  | drop peer => exact h.drop peer

end Steps

/-! ## What goes wrong otherwise -/

section Unsound

variable {p q : ℕ}

/-- A peer that is as it was, off its place in the list. -/
structure Unlisted (old om : OverlayManager) (q : ℕ) : Prop where
  peers : om.peers q = old.peers q
  admitted : om.admitted = old.admitted
  lookup : om.mAuthenticatedPeers.lookup (old.peers q).mPeerID ≠ some q

variable {old : OverlayManager}

theorem Unlisted.moveToAuthenticated (h : Unlisted old om q) (hne : p ≠ q) :
    Unlisted old (om.moveToAuthenticated p).1 q := by
  rcases moveToAuthenticated_cases om p with hno | ⟨-, -, hyes⟩
  · rw [hno]
    exact h
  · rw [hyes]
    refine ⟨h.peers, h.admitted, ?_⟩
    dsimp only
    by_cases hID : (old.peers q).mPeerID = (om.peers p).mPeerID
    · rw [hID, AList.lookup_insert]
      exact fun heq => hne (Option.some.inj heq)
    · rw [AList.lookup_insert_ne hID]
      exact h.lookup

theorem lookup_erase_ne_some {m : AList fun _ : NodeID => ℕ} {peerID : NodeID} (key : NodeID)
    (h : m.lookup peerID ≠ some q) : (m.erase key).lookup peerID ≠ some q := by
  by_cases heq : peerID = key
  · rw [heq, AList.lookup_erase]
    exact nofun
  · rwa [AList.lookup_erase_ne heq]

theorem Unlisted.drop (h : Unlisted old om q) (hne : p ≠ q) : Unlisted old (om.drop p) q := by
  by_cases hclosing : (om.peers p).mState = .CLOSING
  · unfold OverlayManager.drop
    rwa [if_pos hclosing]
  by_cases hpending : p ∈ om.mPendingPeers
  · rw [drop_of_pending hpending hclosing]
    exact ⟨(Function.update_of_ne hne.symm _ _).trans h.peers, h.admitted, h.lookup⟩
  · rw [drop_of_not_pending hpending hclosing]
    exact ⟨(Function.update_of_ne hne.symm _ _).trans h.peers, h.admitted,
      lookup_erase_ne_some _ h.lookup⟩

/-- An admitted peer that is off its place is not registered. -/
theorem Unlisted.not_registered (h : Unlisted old om q) (hadmitted : q ∈ old.admitted)
    (hauth : (old.peers q).mState = .GOT_AUTH) : ¬ Registered cfg om := by
  intro hreg
  have hlookup := (hreg.authenticated q (h.admitted ▸ hadmitted)).mpr (by rw [h.peers, hauth])
  rw [h.peers] at hlookup
  exact h.lookup hlookup

theorem mem_authenticatedPeers (hp : p ∈ om.authenticatedPeers) :
    ∃ peerID, om.mAuthenticatedPeers.lookup peerID = some p := by
  obtain ⟨peerID, -, hlookup⟩ := List.mem_filterMap.mp hp
  exact ⟨peerID, hlookup⟩

/-- The victim of an eviction goes on without a place in the registry. -/
theorem Inv.not_registered_of_evicts (h : Inv cfg om) (hstate : (om.peers p).mState = .GOT_HELLO)
    (hevicts : Evicts cfg om p) : ¬ Registered cfg (om.recvAuth cfg p) := by
  obtain ⟨hpreferred, hfull, hvictim⟩ := hevicts
  obtain ⟨v, hv⟩ := Option.isSome_iff_exists.mp hvictim
  obtain ⟨peerID, hlookup⟩ := mem_authenticatedPeers (List.mem_of_find?_eq_some hv)
  obtain ⟨hadmitted, hID, hauth⟩ := h.listed peerID v hlookup
  have hne : p ≠ v := by
    rintro rfl
    rw [hstate] at hauth
    cases hauth
  have hnot : v ∉ om.mPendingPeers := fun hmem => h.not_listed_pending hmem peerID hlookup
  have hpeers : (om.setPeer p fun p => { p with mState := .GOT_AUTH }).peers v = om.peers v :=
    peers_setPeer_of_ne hne.symm _
  have hdropped : Unlisted om
      ((om.setPeer p fun p => { p with mState := .GOT_AUTH }).dropPeer v) v := by
    unfold dropPeer
    rw [if_neg (by exact hnot), hpeers]
    refine ⟨hpeers, rfl, ?_⟩
    dsimp only
    rw [AList.lookup_erase]
    exact nofun
  have haccept : (om.setPeer p fun p => { p with mState := .GOT_AUTH }).acceptAuthenticatedPeer cfg p =
      ((om.setPeer p fun p => { p with mState := .GOT_AUTH }).dropPeer v).moveToAuthenticated p := by
    unfold acceptAuthenticatedPeer
    dsimp only
    rw [if_pos hpreferred, if_neg (by simpa using hfull), hv]
  have hmoved := hdropped.moveToAuthenticated hne
  rw [← haccept] at hmoved
  unfold OverlayManager.recvAuth
  rw [if_neg (not_not.mpr hstate)]
  dsimp only
  split_ifs
  · exact (hmoved.drop hne).not_registered hadmitted hauth
  · exact (hmoved.drop hne).not_registered hadmitted hauth
  · exact hmoved.not_registered hadmitted hauth

theorem Inv.sound_handleKnock (h : Inv cfg om) (hreg : Registered cfg (om.handleKnock cfg)) :
    Sound cfg om .handleKnock := by
  intro hfull
  by_contra hsome
  obtain ⟨q, hlookup⟩ := Option.ne_none_iff_exists'.mp hsome
  obtain ⟨hadmitted, hID, hauth⟩ := h.listed 0 q hlookup
  have hne : q ≠ om.created := (h.created q hadmitted).ne
  have hunlisted : Unlisted om (om.handleKnock cfg) q := ?_
  · exact hunlisted.not_registered hadmitted hauth hreg
  unfold OverlayManager.handleKnock addPendingPeer OverlayManager.create
  dsimp only
  rw [if_pos (by exact hfull), drop_of_not_pending
    (by exact fun hmem => h.peers_created (h.pending_mem _ hmem)) (by simp)]
  simp only [Function.update_self, Function.update_idem]
  refine ⟨Function.update_of_ne hne _ _, rfl, ?_⟩
  rw [hID, AList.lookup_erase]
  exact nofun

theorem Inv.sound_connectHandler (h : Inv cfg om)
    (hreg : Registered cfg (overlayStep cfg om (.connectHandler p false))) :
    Sound cfg om (.connectHandler p false) := by
  intro hc hclosing
  have hadmitted : p ∈ om.admitted := by
    by_contra hnot
    rw [(h.outside p hnot).2] at hc
    cases hc
  have hnot : p ∉ om.mPendingPeers := fun hmem => by
    have := (h.pending p hadmitted).mp hmem
    rw [hclosing] at this
    cases this
  unfold overlayStep at hreg
  dsimp only at hreg
  rw [if_pos hc] at hreg
  refine hnot ((hreg.pending p hadmitted).mpr ?_)
  unfold OverlayManager.connectHandler
  simp
  rfl

theorem Inv.sound_of_registered (h : Inv cfg om) (e : Event)
    (hreg : Registered cfg (overlayStep cfg om e)) : Sound cfg om e := by
  cases e with
  | handleKnock => exact h.sound_handleKnock hreg
  | connectTo address => trivial
  | connectHandler peer error =>
    cases error with
    | true => trivial
    | false => exact h.sound_connectHandler hreg
  | recvMessage peer msg macVerified isBanned remoteIP =>
    cases msg with
    | AUTH =>
      cases macVerified with
      | false => trivial
      | true =>
        intro hreading hstate hevicts
        refine h.not_registered_of_evicts hstate hevicts ?_
        unfold overlayStep OverlayManager.recvMessage at hreg
        dsimp only at hreg
        rwa [if_neg (by simp [hreading, hstate]), if_neg (by simp)] at hreg
    | _ => trivial
  | drop peer => trivial

end Unsound

/-! ## The registry -/

theorem Inv.losesOnlyDropped (h : Inv cfg om) {e : Event} (hsound : Sound cfg om e) :
    LosesOnlyDropped cfg om e :=
  fun _ _ hgone => (h.step e hsound).closing_of_not_listed hgone

/-- **The registry of peers.** In every state of a run the lists agree with the connections and only
connections that were dropped have left them, if and only if no step of it evicts a peer, completes
`async_connect` on a connection that was dropped, or turns a connection away while a peer is listed under
the ID of one without a HELLO. -/
theorem throughout_registered_iff (cfg : Config) (es : List Event) :
    (Throughout (overlayStep cfg) (Registered cfg) new es ∧
        EachStep (overlayStep cfg) (LosesOnlyDropped cfg) new es) ↔
      EachStep (overlayStep cfg) (Sound cfg) new es := by
  constructor
  · rintro ⟨hreg, -⟩
    exact eachStep_of_throughout_of_inv (fun _ e h hreg => h.sound_of_registered e hreg)
      (fun _ e h hsound => h.step e hsound) inv_new hreg
  · intro hsound
    refine ⟨?_, eachStep_of_inv (fun _ e h hsound => h.step e hsound)
      (fun _ _ h hsound => h.losesOnlyDropped hsound) inv_new hsound⟩
    exact (throughout_of_eachStep (fun _ e h hsound => h.step e hsound) inv_new hsound).mono
      fun _ h => h.registered

/-- Room for one authenticated peer; the key 2 is preferred. -/
def oneSlot : Config where
  MAX_PENDING_CONNECTIONS := 2
  MAX_PEER_CONNECTIONS := 1
  PREFERRED_PEERS_ONLY := false
  PREFERRED_PEER_KEYS := [2]
  mPreferredPeers := []
  OVERLAY_PROTOCOL_MIN_VERSION := 5
  OVERLAY_PROTOCOL_VERSION := 8
  NODE_ID := 9
  networkID := 0

/-- An inbound connection of the peer, up to its AUTH. -/
def handshake (peer : ℕ) (peerID : NodeID) : List Event :=
  [.handleKnock, .recvMessage peer (.HELLO ⟨8, 5, 0, 11625, peerID, true⟩) true false (some "10.0.0.1"),
    .recvMessage peer .AUTH true false (some "10.0.0.1")]

/-- The peer 1 is evicted for the peer 2 and goes on as if it was authenticated. -/
theorem not_throughout_registered :
    ¬ ∀ es, Throughout (overlayStep oneSlot) (Registered oneSlot) new es ∧
      EachStep (overlayStep oneSlot) (LosesOnlyDropped oneSlot) new es := by
  intro h
  have hlast := (h (handshake 0 1 ++ handshake 1 2)).1.2.2.2.2.2.2.head
  have hauth := (hlast.authenticated 0 (by decide +kernel)).mpr (by decide +kernel)
  revert hauth
  decide +kernel

end OverlayManager

end ZaggCore.Overlay
