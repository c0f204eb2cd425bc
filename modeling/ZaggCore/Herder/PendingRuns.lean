import Mathlib
import ZaggCore.Herder.PendingTransactions
import ZaggCore.Transactions.EntryChanges

/-! # Runs of the pending transactions

As long as no account has a negative sequence number, the aggregates of the maps are right after every
event, the transactions of an account have distinct sequence numbers, and one that was accepted stays for
four ledgers unless it is dropped. -/

namespace ZaggCore.Herder
set_option autoImplicit false
set_option maxHeartbeats 250000

open Foundations Transactions

variable {X Q : Type}

/-! ## Dropping transactions -/

section Drop

variable {fullHash : TransactionEnvelope → Hash} {m m₀ : AccountTxMap} {acc : AccountID} {t : TxMap}
  {txs : List TransactionEnvelope} {tx : TransactionEnvelope} {s : AccountTxMap × List AccountID}

/-- The maps of a generation are sound. -/
def SoundMaps (fullHash : TransactionEnvelope → Hash) (m : AccountTxMap) : Prop :=
  ∀ acc t, m.lookup acc = some t → t.Sound fullHash acc

/-- What the loop over the transactions has done to the maps of a generation: those it changed are to be
recalculated, and what is not dropped is kept. -/
structure Dropped (fullHash : TransactionEnvelope → Hash) (txs : List TransactionEnvelope)
    (m₀ : AccountTxMap) (s : AccountTxMap × List AccountID) : Prop where
  left : ∀ acc t, s.1.lookup acc = some t → ∃ t₀, m₀.lookup acc = some t₀ ∧
    t.mTransactions.entries.Sublist t₀.mTransactions.entries ∧
      (acc ∈ s.2 → t.mTransactions.entries ≠ []) ∧ (acc ∉ s.2 → t = t₀)
  kept : ∀ acc t₀ h tx, m₀.lookup acc = some t₀ → t₀.mTransactions.lookup h = some tx →
    (∀ tx' ∈ txs, tx'.tx.sourceAccount = acc → fullHash tx' ≠ h) →
      ∃ t, s.1.lookup acc = some t ∧ t.mTransactions.lookup h = some tx

theorem entries_erase_sublist {α : Type} {β : α → Type} [DecidableEq α] (a : α) (l : AList β) :
    (l.erase a).entries.Sublist l.entries := List.kerase_sublist a l.entries

theorem Dropped.dropTx (hs : Dropped fullHash txs m₀ s) (htx : tx ∈ txs) :
    Dropped fullHash txs m₀ (dropTx fullHash s tx) := by
  unfold Herder.dropTx
  cases hlookup : s.1.lookup tx.tx.sourceAccount with
  | none => exact hs
  | some t =>
    dsimp only
    by_cases hmem : fullHash tx ∈ t.mTransactions
    · rw [if_pos hmem]
      obtain ⟨t₀, ht₀, hsub, -, -⟩ := hs.left _ _ hlookup
      -- what is kept in the map of this account is not the transaction
      have hrest : ∀ h tx', m₀.lookup tx.tx.sourceAccount = some t₀ →
          t₀.mTransactions.lookup h = some tx' →
          (∀ tx'' ∈ txs, tx''.tx.sourceAccount = tx.tx.sourceAccount → fullHash tx'' ≠ h) →
            (t.mTransactions.erase (fullHash tx)).lookup h = some tx' := by
        intro h tx' hm₀ ht₀' hnot
        obtain ⟨t', ht', hlook⟩ := hs.kept _ _ _ _ hm₀ ht₀' hnot
        obtain rfl := Option.some.inj (hlookup.symm.trans ht')
        rw [AList.lookup_erase_ne (hnot tx htx rfl).symm]
        exact hlook
      by_cases hempty : (t.mTransactions.erase (fullHash tx)).entries.isEmpty = true
      · rw [if_pos hempty]
        constructor
        · intro acc t' ht'
          by_cases hacc : acc = tx.tx.sourceAccount
          · subst hacc
            rw [AList.lookup_erase] at ht'
            cases ht'
          · rw [AList.lookup_erase_ne hacc] at ht'
            exact hs.left acc t' ht'
        · intro acc t₁ h tx' hm₀ hlook hnot
          by_cases hacc : acc = tx.tx.sourceAccount
          · subst hacc
            obtain rfl := Option.some.inj (ht₀.symm.trans hm₀)
            have hin := AList.mem_lookup_iff.mp (hrest h tx' hm₀ hlook hnot)
            rw [List.isEmpty_iff.mp hempty] at hin
            exact absurd hin List.not_mem_nil
          · rw [AList.lookup_erase_ne hacc]
            exact hs.kept acc t₁ h tx' hm₀ hlook hnot
      · rw [if_neg hempty]
        constructor
        · intro acc t' ht'
          by_cases hacc : acc = tx.tx.sourceAccount
          · subst hacc
            rw [AList.lookup_insert] at ht'
            obtain rfl := Option.some.inj ht'
            refine ⟨t₀, ht₀, (entries_erase_sublist _ _).trans hsub, fun _ hnil => ?_, fun hnot => ?_⟩
            · exact hempty (List.isEmpty_iff.mpr hnil)
            · exact absurd List.mem_cons_self hnot
          · rw [AList.lookup_insert_ne hacc] at ht'
            obtain ⟨t₁, ht₁, hsub', hne, heq⟩ := hs.left acc t' ht'
            refine ⟨t₁, ht₁, hsub', fun hin => hne ?_, fun hnot => heq fun hin => ?_⟩
            · exact (List.mem_cons.mp hin).resolve_left hacc
            · exact hnot (List.mem_cons_of_mem _ hin)
        · intro acc t₁ h tx' hm₀ hlook hnot
          by_cases hacc : acc = tx.tx.sourceAccount
          · subst hacc
            obtain rfl := Option.some.inj (ht₀.symm.trans hm₀)
            rw [AList.lookup_insert]
            exact ⟨_, rfl, hrest h tx' hm₀ hlook hnot⟩
          · rw [AList.lookup_insert_ne hacc]
            exact hs.kept acc t₁ h tx' hm₀ hlook hnot
    · rw [if_neg hmem]
      exact hs

theorem dropped_foldl (l : List TransactionEnvelope) (hl : ∀ tx ∈ l, tx ∈ txs)
    (hs : Dropped fullHash txs m₀ s) : Dropped fullHash txs m₀ (l.foldl (dropTx fullHash) s) := by
  induction l generalizing s with
  | nil => exact hs
  | cons tx l ih =>
    exact ih (fun tx' h => hl tx' (List.mem_cons_of_mem _ h)) (hs.dropTx (hl tx List.mem_cons_self))

theorem recalculate_recalculate (t : TxMap) : t.recalculate.recalculate = t.recalculate := by
  have h : ∀ t' : TxMap, t'.recalculate = t'.mTransactions.entries.foldl TxMap.count ⟨0, 0, t'.mTransactions⟩ :=
    fun _ => rfl
  rw [h t.recalculate, TxMap.mTransactions_recalculate, ← h t]

theorem lookup_recalculateAt (m : AccountTxMap) (acc acc' : AccountID) :
    (recalculateAt m acc).lookup acc' =
      (m.lookup acc').map fun t => if acc' = acc then t.recalculate else t := by
  unfold recalculateAt
  by_cases hacc : acc' = acc
  · subst hacc
    cases hlookup : m.lookup acc' with
    | none => simp [hlookup]
    | some t => simp
  · cases hlookup : m.lookup acc with
    | none => simp [hacc]
    | some t => simp [hacc, AList.lookup_insert_ne hacc]

theorem lookup_foldl_recalculateAt (l : List AccountID) (m : AccountTxMap) (acc : AccountID) :
    (l.foldl recalculateAt m).lookup acc =
      (m.lookup acc).map fun t => if acc ∈ l then t.recalculate else t := by
  induction l generalizing m with
  | nil => simp
  | cons a l ih =>
    rw [List.foldl_cons, ih, lookup_recalculateAt, Option.map_map]
    congr 1
    funext t
    by_cases hacc : acc = a
    · simp [hacc, recalculate_recalculate]
    · simp [hacc]

theorem dropped_dropTxs (fullHash : TransactionEnvelope → Hash) (txs : List TransactionEnvelope)
    (m : AccountTxMap) : Dropped fullHash txs m (txs.foldl (dropTx fullHash) (m, [])) := by
  refine dropped_foldl txs (fun _ h => h) ⟨fun acc t ht => ⟨t, ht, .refl _, fun hin => ?_, fun _ => rfl⟩, ?_⟩
  · exact absurd hin List.not_mem_nil
  · exact fun acc t₀ h tx hm₀ hlook _ => ⟨t₀, hm₀, hlook⟩

/-- The maps of a generation are sound after transactions were dropped, and hold fewer. -/
theorem sound_dropTxs (txs : List TransactionEnvelope) (hm : SoundMaps fullHash m)
    (ht : (dropTxs fullHash txs m).lookup acc = some t) :
    t.Sound fullHash acc ∧ ∃ t₀, m.lookup acc = some t₀ ∧ t.transactions.Sublist t₀.transactions := by
  have hdropped := dropped_dropTxs fullHash txs m
  change AList.lookup acc ((txs.foldl (dropTx fullHash) (m, [])).2.foldl recalculateAt
    (txs.foldl (dropTx fullHash) (m, [])).1) = some t at ht
  generalize txs.foldl (dropTx fullHash) (m, []) = s at hdropped ht
  rw [lookup_foldl_recalculateAt] at ht
  obtain ⟨t₁, ht₁, heq⟩ := Option.map_eq_some_iff.mp ht
  obtain ⟨t₀, ht₀, hsub, hne, hsame⟩ := hdropped.left acc t₁ ht₁
  have hsound := hm acc t₀ ht₀
  have hsubTxs : t₁.transactions.Sublist t₀.transactions := hsub.map _
  by_cases hacc : acc ∈ s.2
  · rw [if_pos hacc] at heq
    subst heq
    constructor
    · refine TxMap.sound_recalculate (fun hnil => hne hacc (List.map_eq_nil_iff.mp hnil)) ?_ ?_
      · exact fun e he => hsound.own e (hsub.subset he)
      · exact fun tx htx => hsound.positive tx (hsubTxs.subset htx)
    · rw [TxMap.transactions_recalculate]
      exact ⟨t₀, ht₀, hsubTxs⟩
  · rw [if_neg hacc] at heq
    subst heq
    rw [hsame hacc]
    exact ⟨hsound, t₀, ht₀, .refl _⟩

/-- A transaction that is not dropped stays. -/
theorem lookup_dropTxs {h : Hash} (ht : m.lookup acc = some t)
    (htx : t.mTransactions.lookup h = some tx)
    (hnot : ∀ tx' ∈ txs, tx'.tx.sourceAccount = acc → fullHash tx' ≠ h) :
    ∃ t', (dropTxs fullHash txs m).lookup acc = some t' ∧ t'.mTransactions.lookup h = some tx := by
  have hdropped := dropped_dropTxs fullHash txs m
  change ∃ t', AList.lookup acc ((txs.foldl (dropTx fullHash) (m, [])).2.foldl recalculateAt
    (txs.foldl (dropTx fullHash) (m, [])).1) = some t' ∧ _
  generalize txs.foldl (dropTx fullHash) (m, []) = s at hdropped
  obtain ⟨t₁, ht₁, hlook⟩ := hdropped.kept acc t h tx ht htx hnot
  rw [lookup_foldl_recalculateAt, ht₁]
  refine ⟨_, rfl, ?_⟩
  split_ifs
  · rw [TxMap.mTransactions_recalculate]
    exact hlook
  · exact hlook

end Drop

/-! ## The queue of an account -/

section Queue

variable {fullHash : TransactionEnvelope → Hash} {acc : AccountID} {tx : TransactionEnvelope}
  {pending : List AccountTxMap}

def transactionsOf (m : AccountTxMap) (acc : AccountID) : List TransactionEnvelope :=
  ((m.lookup acc).map TxMap.transactions).getD []

/-- The transactions of an account over all generations. -/
def queued (pending : List AccountTxMap) (acc : AccountID) : List TransactionEnvelope :=
  pending.flatMap fun m => transactionsOf m acc

theorem mem_queued : tx ∈ queued pending acc ↔
    ∃ m ∈ pending, ∃ t, m.lookup acc = some t ∧ tx ∈ t.transactions := by
  unfold queued
  rw [List.mem_flatMap]
  refine exists_congr fun m => and_congr_right fun _ => ?_
  unfold transactionsOf
  cases m.lookup acc with
  | none => simp
  | some t => simp

/-- In each of the four generations the maps are sound, and over all of them the transactions of an account
are distinct and have distinct sequence numbers. -/
structure PendingSound (fullHash : TransactionEnvelope → Hash) (pending : List AccountTxMap) : Prop where
  length : pending.length = 4
  maps : ∀ m ∈ pending, SoundMaps fullHash m
  distinct : ∀ acc, ((queued pending acc).map fullHash).Nodup
  distinctSeqs : ∀ acc, ((queued pending acc).map fun tx => tx.tx.seqNum).Nodup

theorem queued_map_sublist {f : AccountTxMap → AccountTxMap}
    (h : ∀ m ∈ pending, (transactionsOf (f m) acc).Sublist (transactionsOf m acc)) :
    (queued (pending.map f) acc).Sublist (queued pending acc) := by
  induction pending with
  | nil => exact .refl _
  | cons m pending ih =>
    exact (h m List.mem_cons_self).append (ih fun m hm => h m (List.mem_cons_of_mem _ hm))

theorem PendingSound.removeReceivedTxs (h : PendingSound fullHash pending) (txs : List TransactionEnvelope) :
    PendingSound fullHash (removeReceivedTxs fullHash txs pending) := by
  have hsub : ∀ acc, (queued (Herder.removeReceivedTxs fullHash txs pending) acc).Sublist
      (queued pending acc) := by
    intro acc
    refine queued_map_sublist fun m hm => ?_
    unfold transactionsOf
    cases hlookup : (dropTxs fullHash txs m).lookup acc with
    | none => exact List.nil_sublist _
    | some t =>
      obtain ⟨-, t₀, ht₀, hsub⟩ := sound_dropTxs txs (h.maps m hm) hlookup
      rw [ht₀]
      exact hsub
  refine ⟨(List.length_map _).trans h.length, fun m hm acc t ht => ?_, fun acc => ?_, fun acc => ?_⟩
  · obtain ⟨m₀, hm₀, rfl⟩ := List.mem_map.mp hm
    exact (sound_dropTxs txs (h.maps m₀ hm₀) ht).1
  · exact (h.distinct acc).sublist ((hsub acc).map _)
  · exact (h.distinctSeqs acc).sublist ((hsub acc).map _)

theorem PendingSound.shiftPending (h : PendingSound fullHash pending) (applied : List TransactionEnvelope) :
    PendingSound fullHash (shiftPending fullHash applied pending) := by
  have hremoved := h.removeReceivedTxs applied
  have hsub : ∀ acc, (queued (Herder.shiftPending fullHash applied pending) acc).Sublist
      (queued (Herder.removeReceivedTxs fullHash applied pending) acc) :=
    fun acc => ((List.dropLast_sublist _).map _).flatten
  refine ⟨?_, fun m hm => ?_, fun acc => ?_, fun acc => ?_⟩
  · have hlength := hremoved.length
    unfold Herder.shiftPending
    rw [List.length_cons, List.length_dropLast]
    omega
  · obtain rfl | hm := List.mem_cons.mp hm
    · intro acc t ht
      rw [AList.lookup_empty] at ht
      cases ht
    · exact hremoved.maps m (List.mem_of_mem_dropLast hm)
  · exact (hremoved.distinct acc).sublist ((hsub acc).map _)
  · exact (hremoved.distinctSeqs acc).sublist ((hsub acc).map _)

/-! ## Accepting a transaction -/

/-- What `recvTransaction` finds in the generations: the sum of the fees, and the greatest number or zero. -/
theorem lookAround_some (h : ∀ m ∈ pending, SoundMaps fullHash m) {fee seq totFee highSeq : ℤ}
    (hlook : lookAround fullHash tx pending fee seq = some (totFee, highSeq)) :
    (∀ m ∈ pending, ∀ t, m.lookup tx.tx.sourceAccount = some t → fullHash tx ∉ t.mTransactions) ∧
      totFee = fee + ((queued pending tx.tx.sourceAccount).map fun tx => (tx.tx.fee : ℤ)).sum ∧
      seq ≤ highSeq ∧ (∀ tx' ∈ queued pending tx.tx.sourceAccount, tx'.tx.seqNum ≤ highSeq) ∧
      (highSeq = seq ∨ ∃ tx' ∈ queued pending tx.tx.sourceAccount, tx'.tx.seqNum = highSeq) := by
  induction pending generalizing fee seq with
  | nil =>
    obtain ⟨rfl, rfl⟩ := Prod.mk.inj (Option.some.inj hlook)
    exact ⟨fun m hm => absurd hm List.not_mem_nil, by simp [queued], le_rfl,
      fun tx' h => absurd h List.not_mem_nil, .inl rfl⟩
  | cons m pending ih =>
    have hmaps : ∀ m ∈ pending, SoundMaps fullHash m := fun m hm => h m (List.mem_cons_of_mem _ hm)
    have hqueued : queued (m :: pending) tx.tx.sourceAccount =
        transactionsOf m tx.tx.sourceAccount ++ queued pending tx.tx.sourceAccount := rfl
    unfold lookAround at hlook
    cases hlookup : m.lookup tx.tx.sourceAccount with
    | none =>
      rw [hlookup] at hlook
      have hnone : transactionsOf m tx.tx.sourceAccount = [] := by
        unfold transactionsOf
        rw [hlookup]
        rfl
      rw [hqueued, hnone, List.nil_append]
      obtain ⟨hnew, hrest⟩ := ih hmaps hlook
      refine ⟨fun m' hm' t ht => ?_, hrest⟩
      obtain rfl | hm' := List.mem_cons.mp hm'
      · rw [hlookup] at ht
        cases ht
      · exact hnew m' hm' t ht
    | some t =>
      rw [hlookup] at hlook
      dsimp only at hlook
      split_ifs at hlook with hmem
      have htxs : transactionsOf m tx.tx.sourceAccount = t.transactions := by
        unfold transactionsOf
        rw [hlookup]
        rfl
      have hsound := h m List.mem_cons_self _ t hlookup
      obtain ⟨⟨tx₀, htx₀, heq₀⟩, hmax⟩ := hsound.maxSeq
      obtain ⟨hnew, hfees, hle, hall, hhigh⟩ := ih hmaps hlook
      rw [hqueued, htxs]
      refine ⟨fun m' hm' t' ht' => ?_, ?_, (le_max_left _ _).trans hle, fun tx' htx' => ?_, ?_⟩
      · obtain rfl | hm' := List.mem_cons.mp hm'
        · obtain rfl := Option.some.inj (hlookup.symm.trans ht')
          exact hmem
        · exact hnew m' hm' t' ht'
      · rw [hfees, hsound.totalFees, List.map_append, List.sum_append, add_assoc]
      · obtain htx' | htx' := List.mem_append.mp htx'
        · exact (hmax ⟨tx', htx', rfl⟩).trans ((le_max_right _ _).trans hle)
        · exact hall tx' htx'
      · obtain rfl | ⟨tx', htx', heq⟩ := hhigh
        · obtain hle | hle := le_total seq t.mMaxSeq
          · exact .inr ⟨tx₀, List.mem_append_left _ htx₀, heq₀.trans (max_eq_right hle).symm⟩
          · exact .inl (max_eq_left hle)
        · exact .inr ⟨tx', List.mem_append_right _ htx', heq⟩

end Queue

/-! ## The check of a transaction -/

section Check

variable {w w' : World X} {a : AccountID} {acc : Option AccountEntry}

/-- The cached account is the one of the ledger. -/
def CachesOf (a : AccountID) (w : World X) : Prop :=
  w.mCachedAccount = none ∨ w.mCachedAccount = w.ltx.account a

/-- What is loaded is the account of the ledger. -/
theorem loadAccountCached_cached (hcache : CachesOf a w) (h : loadAccountCached a w = .ok acc w') :
    acc = w.ltx.account a := by
  obtain ⟨header, w₁, hheader, h⟩ := bind_ok.mp h
  obtain ⟨rfl, rfl⟩ := loadHeader_ok.mp hheader
  obtain ⟨w₂, w₃, hget, h⟩ := bind_ok.mp h
  obtain ⟨rfl, rfl⟩ := get_ok.mp hget
  obtain hnone | hsome := hcache
  · rw [hnone] at h
    exact (loadAccount_ok.mp h).1.symm
  · cases hcached : w.mCachedAccount with
    | none =>
      rw [hcached] at h
      exact (loadAccount_ok.mp h).1.symm
    | some cached =>
      rw [hcached] at h hsome
      dsimp only at h
      split_ifs at h
      · rw [← hsome]
        obtain ⟨found, w₄, -, h⟩ := bind_ok.mp h
        cases found with
        | none =>
          obtain ⟨u, w₅, -, h⟩ := bind_ok.mp h
          exact (pure_ok.mp h).1.symm
        | some old =>
          obtain ⟨u, w₅, -, h⟩ := bind_ok.mp h
          exact (pure_ok.mp h).1.symm
      · exact (loadAccount_ok.mp h).1.symm

theorem loadSourceAccount_cached (hcache : CachesOf a w) (h : loadSourceAccount a w = .ok acc w') :
    acc = w.ltx.account a := by
  obtain ⟨res, w₁, hload, h⟩ := bind_ok.mp h
  obtain ⟨header, w₂, -, h⟩ := bind_ok.mp h
  rw [← loadAccountCached_cached hcache hload]
  split_ifs at h
  · obtain ⟨u, w₃, -, h⟩ := bind_ok.mp h
    exact (pure_ok.mp h).1.symm
  · exact (pure_ok.mp h).1.symm

/-- The first load leaves the ledger, and what it caches is the account. -/
theorem loadSourceAccount_first (hcache : w.mCachedAccount = none)
    (h : loadSourceAccount a w = .ok acc w') : w'.ltx = w.ltx ∧ CachesOf a w' := by
  obtain ⟨res, w₁, hload, h⟩ := bind_ok.mp h
  have hres := loadAccountCached_cached (.inl hcache) hload
  obtain ⟨header, w₂, hheader, hload⟩ := bind_ok.mp hload
  obtain ⟨rfl, rfl⟩ := loadHeader_ok.mp hheader
  obtain ⟨w₃, w₄, hget, hload⟩ := bind_ok.mp hload
  obtain ⟨rfl, rfl⟩ := get_ok.mp hget
  rw [hcache] at hload
  obtain ⟨-, rfl⟩ := loadAccount_ok.mp hload
  obtain ⟨header', w₅, hheader, h⟩ := bind_ok.mp h
  obtain ⟨rfl, rfl⟩ := loadHeader_ok.mp hheader
  have hltx : (w.load (.account a)).ltx = w.ltx := by simp
  have hcached : (w.load (.account a)).mCachedAccount = none := by
    unfold World.load
    split <;> exact hcache
  split_ifs at h
  · obtain ⟨u, w₆, hmodify, h⟩ := bind_ok.mp h
    obtain rfl := modify_ok.mp hmodify
    obtain ⟨-, rfl⟩ := pure_ok.mp h
    refine ⟨hltx, .inr ?_⟩
    change res = (w.load (.account a)).ltx.account a
    rw [hltx]
    exact hres
  · obtain ⟨-, rfl⟩ := pure_ok.mp h
    exact ⟨hltx, .inl hcached⟩

/-- A code is one of a failure, and without one the source account was loaded. -/
theorem commonValidPreSeqNum_ok {tx : Transaction} {code : Option TransactionResultCode}
    (h : commonValidPreSeqNum tx w = .ok code w') :
    code ≠ some .txSUCCESS ∧
      (code = none → ∃ acc, loadSourceAccount tx.sourceAccount w = .ok acc w') := by
  have hfails : ∀ c : TransactionResultCode, c ≠ .txSUCCESS → some c = code →
      code ≠ some .txSUCCESS ∧
        (code = none → ∃ acc, loadSourceAccount tx.sourceAccount w = .ok acc w') := by
    rintro c hc rfl
    exact ⟨fun heq => hc (Option.some.inj heq), fun hnone => by cases hnone⟩
  unfold commonValidPreSeqNum at h
  split_ifs at h
  · exact hfails _ (by decide) (pure_ok.mp h).1
  · obtain ⟨ltx, w₁, hltx, h⟩ := bind_ok.mp h
    cases hltx
    split_ifs at h
    · exact hfails _ (by decide) (pure_ok.mp h).1
    · exact hfails _ (by decide) (pure_ok.mp h).1
    · exact hfails _ (by decide) (pure_ok.mp h).1
    · obtain ⟨acc, w₂, hload, h⟩ := bind_ok.mp h
      split_ifs at h
      · exact hfails _ (by decide) (pure_ok.mp h).1
      · obtain ⟨rfl, rfl⟩ := pure_ok.mp h
        exact ⟨(fun heq => by cases heq), fun _ => ⟨acc, hload⟩⟩

variable [LinearOrder Q] {app : Application X Q}

omit [LinearOrder Q] in
/-- A transaction that is valid outside of a ledger close follows the sequence number. -/
theorem commonValid_follows {tx : Transaction} {current : ℤ} {cv : ValidationType}
    {code : TransactionResultCode} (hcache : w.mCachedAccount = none)
    (h : commonValid app tx current false w = .ok (cv, code) w') (hcode : cv = .kFullyValid ∨ code = .txSUCCESS) :
    ∃ acc, w.ltx.account tx.sourceAccount = some acc ∧ followsSeqNum tx current acc = true := by
  have hfails : ∀ {cv' : ValidationType} {code' : TransactionResultCode}, cv' ≠ .kFullyValid →
      code' ≠ .txSUCCESS → (cv', code') = (cv, code) → False := by
    rintro cv' code' hcv' hcode' heq
    obtain ⟨rfl, rfl⟩ := Prod.mk.inj heq
    exact hcode.elim hcv' hcode'
  obtain ⟨w₁, hrun, -⟩ := rolledBack_ok.mp h
  obtain ⟨pre, w₂, hpre, hrun⟩ := bind_ok.mp hrun
  obtain ⟨hne, hloaded⟩ := commonValidPreSeqNum_ok hpre
  cases pre with
  | some c =>
    have heq := (pure_ok.mp hrun).1
    exact (hfails (by decide) (fun hc => hne (congrArg some hc)) heq).elim
  | none =>
    obtain ⟨acc₀, hload₀⟩ := hloaded rfl
    obtain ⟨hltx, hcache₂⟩ := loadSourceAccount_first hcache hload₀
    obtain ⟨header, w₃, hheader, hrun⟩ := bind_ok.mp hrun
    obtain ⟨rfl, rfl⟩ := loadHeader_ok.mp hheader
    obtain ⟨acc', w₄, hload, hrun⟩ := bind_ok.mp hrun
    obtain ⟨acc, w₅, hcurrent, hrun⟩ := bind_ok.mp hrun
    obtain ⟨rfl, rfl⟩ := current_ok.mp hcurrent
    have hacc := loadSourceAccount_cached hcache₂ hload
    rw [hltx] at hacc
    refine ⟨acc, hacc.symm, ?_⟩
    by_contra hfollows
    rw [Bool.not_eq_true] at hfollows
    rw [hfollows] at hrun
    simp only [Bool.not_false, Bool.or_true, Bool.and_true, if_true] at hrun
    exact hfails (by decide) (by decide) (pure_ok.mp hrun).1

theorem checkValid_follows {tx : TransactionEnvelope} {current : ℤ}
    (h : checkValid app tx current w = .ok .txSUCCESS w') :
    ∃ acc, w.ltx.account tx.tx.sourceAccount = some acc ∧ followsSeqNum tx.tx current acc = true := by
  obtain ⟨u, w₁, hstart, h⟩ := bind_ok.mp h
  obtain rfl := modify_ok.mp hstart
  obtain ⟨w₂, hrun, -⟩ := rolledBack_ok.mp h
  obtain ⟨⟨cv, code⟩, w₃, hcommon, hrun⟩ := bind_ok.mp hrun
  have hvalid : cv = .kFullyValid ∨ code = .txSUCCESS := by
    dsimp only at hrun
    split_ifs at hrun with hcv
    · exact .inr (pure_ok.mp hrun).1
    · exact .inl (not_not.mp hcv)
  have hfollows := commonValid_follows rfl hcommon hvalid
  exact hfollows

/-- A transaction that can be paid for follows the sequence number, and its account has enough for all. -/
theorem canPay_true {tx : TransactionEnvelope} {totFee highSeq : ℤ}
    (h : canPay app tx totFee highSeq w = .ok true w') :
    ∃ acc, w.ltx.account tx.tx.sourceAccount = some acc ∧ followsSeqNum tx.tx highSeq acc = true ∧
      totFee ≤ AccountEntry.getAvailableBalance w.ltx.header acc := by
  obtain ⟨w₁, hrun, -⟩ := rolledBack_ok.mp h
  obtain ⟨code, w₂, hcheck, hrun⟩ := bind_ok.mp hrun
  split_ifs at hrun with hcode
  · cases (pure_ok.mp hrun).1
  · rw [not_not.mp hcode] at hcheck
    obtain ⟨acc, hacc, hfollows⟩ := checkValid_follows hcheck
    obtain ⟨hltx, -⟩ := checkValid_ledger hcheck
    obtain ⟨acc', w₃, hload, hrun⟩ := bind_ok.mp hrun
    obtain ⟨hacc', rfl⟩ := loadAccount_ok.mp hload
    obtain ⟨acc'', w₄, hcurrent, hrun⟩ := bind_ok.mp hrun
    obtain ⟨rfl, rfl⟩ := current_ok.mp hcurrent
    obtain ⟨header, w₅, hheader, hrun⟩ := bind_ok.mp hrun
    obtain ⟨rfl, rfl⟩ := loadHeader_ok.mp hheader
    rw [hltx, hacc] at hacc'
    obtain rfl := Option.some.inj hacc'
    have hpays := (pure_ok.mp hrun).1
    refine ⟨acc, hacc, hfollows, ?_⟩
    simpa [hltx] using hpays

end Check

/-! ## Steps -/

section Steps

variable [LinearOrder Q] {app : Application X Q} {pending : List AccountTxMap} {tx : TransactionEnvelope}
  {w : World X}

/-- What an accepted transaction was found to be: new, following the sequence number, and paid for. -/
structure Admitted (app : Application X Q) (pending : List AccountTxMap) (tx : TransactionEnvelope)
    (w : World X) : Prop where
  step : pendingStep app pending (.recvTransaction tx w) =
    pending.modifyHead (addPending app.fullHash tx)
  admitted : ∃ totFee highSeq acc,
    lookAround app.fullHash tx pending tx.tx.fee 0 = some (totFee, highSeq) ∧
      w.ltx.account tx.tx.sourceAccount = some acc ∧ followsSeqNum tx.tx highSeq acc = true ∧
        totFee ≤ AccountEntry.getAvailableBalance w.ltx.header acc

theorem pendingStep_recv (app : Application X Q) (pending : List AccountTxMap) (tx : TransactionEnvelope)
    (w : World X) : pendingStep app pending (.recvTransaction tx w) =
      ((result? (recvTransaction app tx pending w)).map Prod.snd).getD pending := rfl

/-- A transaction that is received is accepted, or nothing changes. -/
theorem recvTransaction_cases (app : Application X Q) (pending : List AccountTxMap)
    (tx : TransactionEnvelope) (w : World X) :
    (Accepts app pending tx w ∧ Admitted app pending tx w) ∨
      ¬ Accepts app pending tx w ∧ pendingStep app pending (.recvTransaction tx w) = pending := by
  unfold Accepts
  rw [pendingStep_recv]
  cases hlook : lookAround app.fullHash tx pending tx.tx.fee 0 with
  | none =>
    have hrun : recvTransaction app tx pending w = .ok (.TX_STATUS_DUPLICATE, pending) w := by
      unfold recvTransaction
      rw [hlook]
      rfl
    rw [hrun]
    exact .inr ⟨by simp [result?], rfl⟩
  | some found =>
    obtain ⟨totFee, highSeq⟩ := found
    have hstart : recvTransaction app tx pending w = (canPay app tx totFee highSeq >>= fun ok =>
        if ok then pure (.TX_STATUS_PENDING, pending.modifyHead (addPending app.fullHash tx))
        else pure (.TX_STATUS_ERROR, pending)) w := by
      unfold recvTransaction
      rw [hlook]
    cases hpay : canPay app tx totFee highSeq w with
    | error e w' =>
      have hrun : recvTransaction app tx pending w = .error e w' := by
        rw [hstart]
        exact bind_error.mpr (.inl hpay)
      rw [hrun]
      exact .inr ⟨by simp [result?], rfl⟩
    | ok ok w' =>
      cases ok with
      | false =>
        have hrun : recvTransaction app tx pending w = .ok (.TX_STATUS_ERROR, pending) w' := by
          rw [hstart]
          exact bind_ok.mpr ⟨false, w', hpay, rfl⟩
        rw [hrun]
        exact .inr ⟨by simp [result?], rfl⟩
      | true =>
        have hrun : recvTransaction app tx pending w =
            .ok (.TX_STATUS_PENDING, pending.modifyHead (addPending app.fullHash tx)) w' := by
          rw [hstart]
          exact bind_ok.mpr ⟨true, w', hpay, rfl⟩
        obtain ⟨acc, hacc, hfollows, hfits⟩ := canPay_true hpay
        refine .inl ⟨?_, ?_, totFee, highSeq, acc, hlook, hacc, hfollows, hfits⟩
        · rw [hrun]
          rfl
        · rw [pendingStep_recv, hrun]
          rfl

/-- An admitted transaction has a higher sequence number than those queued, and the fees fit. -/
theorem Admitted.numbers (h : Admitted app pending tx w) (hs : PendingSound app.fullHash pending) :
    (∀ m ∈ pending, ∀ t, m.lookup tx.tx.sourceAccount = some t → app.fullHash tx ∉ t.mTransactions) ∧
      ∃ acc, w.ltx.account tx.tx.sourceAccount = some acc ∧
        tx.tx.fee + ((queued pending tx.tx.sourceAccount).map fun tx => (tx.tx.fee : ℤ)).sum ≤
          AccountEntry.getAvailableBalance w.ltx.header acc ∧
        (0 ≤ acc.seqNum → 0 < tx.tx.seqNum ∧
          ∀ tx' ∈ queued pending tx.tx.sourceAccount, tx'.tx.seqNum < tx.tx.seqNum) := by
  obtain ⟨totFee, highSeq, acc, hlook, hacc, hfollows, hfits⟩ := h.admitted
  obtain ⟨hnew, rfl, hle, hall, hhigh⟩ := lookAround_some hs.maps hlook
  refine ⟨hnew, acc, hacc, hfits, fun hseq => ?_⟩
  have hnumber : (if highSeq = 0 then acc.seqNum else highSeq) + 1 = tx.tx.seqNum := by
    unfold followsSeqNum at hfollows
    simp only [Bool.not_eq_true', Bool.or_eq_false_iff, decide_eq_false_iff_not, not_not] at hfollows
    exact hfollows.2
  have hpositive : ∀ tx' ∈ queued pending tx.tx.sourceAccount, 0 < tx'.tx.seqNum := by
    intro tx' htx'
    obtain ⟨m, hm, t, ht, hmem⟩ := mem_queued.mp htx'
    exact (hs.maps m hm _ t ht).positive tx' hmem
  by_cases hzero : highSeq = 0
  · rw [if_pos hzero] at hnumber
    refine ⟨by omega, fun tx' htx' => ?_⟩
    have := hall tx' htx'
    have := hpositive tx' htx'
    omega
  · rw [if_neg hzero] at hnumber
    refine ⟨by omega, fun tx' htx' => ?_⟩
    have := hall tx' htx'
    omega

omit [LinearOrder Q] in
theorem transactionsOf_addPending (m : AccountTxMap) (acc : AccountID)
    (hnew : ∀ t, m.lookup tx.tx.sourceAccount = some t → app.fullHash tx ∉ t.mTransactions) :
    transactionsOf (addPending app.fullHash tx m) acc =
      if acc = tx.tx.sourceAccount then tx :: transactionsOf m acc else transactionsOf m acc := by
  unfold transactionsOf addPending
  by_cases hacc : acc = tx.tx.sourceAccount
  · subst hacc
    rw [AList.lookup_insert, if_pos rfl]
    cases hlookup : m.lookup tx.tx.sourceAccount with
    | none =>
      have hempty : app.fullHash tx ∉ TxMap.new.mTransactions := AList.notMem_empty _
      exact TxMap.transactions_addTx hempty
    | some t => exact TxMap.transactions_addTx (hnew t hlookup)
  · rw [AList.lookup_insert_ne hacc, if_neg hacc]

/-- Every step keeps the generations sound, as long as no account that sends has a negative sequence
number. -/
theorem Admitted.sound (h : Admitted app pending tx w) (hs : PendingSound app.fullHash pending)
    (hseq : ∀ acc, w.ltx.account tx.tx.sourceAccount = some acc → 0 ≤ acc.seqNum) :
    PendingSound app.fullHash (pending.modifyHead (addPending app.fullHash tx)) := by
  obtain ⟨hnew, acc, hacc, -, hnumbers⟩ := h.numbers hs
  obtain ⟨hpositive, hhigher⟩ := hnumbers (hseq acc hacc)
  cases pending with
  | nil => cases hs.length
  | cons m pending =>
    have hnewM := hnew m List.mem_cons_self
    have hqueued : ∀ a, queued (addPending app.fullHash tx m :: pending) a =
        if a = tx.tx.sourceAccount then tx :: queued (m :: pending) a else queued (m :: pending) a := by
      intro a
      unfold queued
      rw [List.flatMap_cons, List.flatMap_cons, transactionsOf_addPending m a hnewM]
      split_ifs <;> rfl
    rw [List.modifyHead_cons]
    refine ⟨hs.length, fun m' hm' a t ht => ?_, fun a => ?_, fun a => ?_⟩
    · obtain rfl | hm' := List.mem_cons.mp hm'
      · unfold addPending at ht
        by_cases ha : a = tx.tx.sourceAccount
        · subst ha
          rw [AList.lookup_insert] at ht
          obtain rfl := Option.some.inj ht
          cases hlookup : m.lookup tx.tx.sourceAccount with
          | none => exact TxMap.sound_addTx (AList.notMem_empty _) rfl hpositive (.inr rfl)
          | some t =>
            have ht := hs.maps m List.mem_cons_self _ t hlookup
            exact TxMap.sound_addTx (hnewM t hlookup) rfl hpositive (.inl ht)
        · rw [AList.lookup_insert_ne ha] at ht
          exact hs.maps m List.mem_cons_self a t ht
      · exact hs.maps m' (List.mem_cons_of_mem _ hm') a t ht
    · rw [hqueued]
      split_ifs with ha
      · subst ha
        refine List.nodup_cons.mpr ⟨fun hmem => ?_, hs.distinct _⟩
        obtain ⟨tx', htx', heq⟩ := List.mem_map.mp hmem
        obtain ⟨m', hm', t, ht, hin⟩ := mem_queued.mp htx'
        obtain ⟨e, he, rfl⟩ := List.mem_map.mp hin
        have hown := ((hs.maps m' hm' _ t ht).own e he).1
        apply hnew m' hm' t ht
        rw [← heq, ← hown]
        exact List.mem_keys_of_mem he
      · exact hs.distinct a
    · rw [hqueued]
      split_ifs with ha
      · subst ha
        refine List.nodup_cons.mpr ⟨fun hmem => ?_, hs.distinctSeqs _⟩
        obtain ⟨tx', htx', heq⟩ := List.mem_map.mp hmem
        exact absurd heq (hhigher tx' htx').ne
      · exact hs.distinctSeqs a

/-! ## What stays -/

/-- The transaction is queued in a generation. -/
def InGeneration (fullHash : TransactionEnvelope → Hash) (k : ℕ) (pending : List AccountTxMap)
    (tx : TransactionEnvelope) : Prop :=
  ∃ m t, pending[k]? = some m ∧ m.lookup tx.tx.sourceAccount = some t ∧
    t.mTransactions.lookup (fullHash tx) = some tx

/-- The transactions that an event drops: those that were trimmed or applied. -/
def PendingEvent.dropped : PendingEvent X → List TransactionEnvelope
  | .recvTransaction _ _ => []
  | .removeReceivedTxs txs => txs
  | .updatePendingTransactions applied => applied

/-- How many ledgers an event closes. -/
def PendingEvent.closes : PendingEvent X → ℕ
  | .updatePendingTransactions _ => 1
  | _ => 0

/-- The event does not drop the transaction. -/
def Spares (fullHash : TransactionEnvelope → Hash) (tx : TransactionEnvelope) (event : PendingEvent X) :
    Prop :=
  ∀ tx' ∈ event.dropped, tx'.tx.sourceAccount = tx.tx.sourceAccount → fullHash tx' ≠ fullHash tx

variable {fullHash : TransactionEnvelope → Hash} {k : ℕ}

omit [LinearOrder Q] in
theorem InGeneration.removeReceivedTxs (h : InGeneration fullHash k pending tx)
    {txs : List TransactionEnvelope}
    (hspares : ∀ tx' ∈ txs, tx'.tx.sourceAccount = tx.tx.sourceAccount → fullHash tx' ≠ fullHash tx) :
    InGeneration fullHash k (removeReceivedTxs fullHash txs pending) tx := by
  obtain ⟨m, t, hm, ht, hlook⟩ := h
  obtain ⟨t', ht', hlook'⟩ := lookup_dropTxs ht hlook hspares
  refine ⟨dropTxs fullHash txs m, t', ?_, ht', hlook'⟩
  unfold Herder.removeReceivedTxs
  rw [List.getElem?_map, hm]
  rfl

omit [LinearOrder Q] in
/-- A ledger close moves a transaction on by one generation, unless it was in the last. -/
theorem InGeneration.shiftPending (h : InGeneration fullHash k pending tx) (hk : k + 1 < pending.length)
    {applied : List TransactionEnvelope}
    (hspares : ∀ tx' ∈ applied, tx'.tx.sourceAccount = tx.tx.sourceAccount →
      fullHash tx' ≠ fullHash tx) :
    InGeneration fullHash (k + 1) (shiftPending fullHash applied pending) tx := by
  obtain ⟨m, t, hm, ht, hlook⟩ := h.removeReceivedTxs hspares
  refine ⟨m, t, ?_, ht, hlook⟩
  unfold Herder.shiftPending
  rw [List.getElem?_cons_succ, List.getElem?_dropLast, if_pos, hm]
  unfold Herder.removeReceivedTxs
  rw [List.length_map]
  omega

theorem mem_addTx {t : TxMap} {tx' : TransactionEnvelope}
    (hlook : t.mTransactions.lookup (fullHash tx) = some tx) :
    (t.addTx fullHash tx').mTransactions.lookup (fullHash tx) = some tx := by
  unfold TxMap.addTx
  split_ifs with hmem
  · exact hlook
  · rw [AList.lookup_insert_ne]
    · exact hlook
    · intro heq
      apply hmem
      rw [← heq, ← AList.lookup_isSome, hlook]
      rfl

theorem length_pendingStep (event : PendingEvent X) (h : pending ≠ []) :
    (pendingStep app pending event).length = pending.length := by
  cases event with
  | recvTransaction tx w =>
    obtain ⟨-, hadmitted⟩ | ⟨-, heq⟩ := recvTransaction_cases app pending tx w
    · rw [hadmitted.step, List.length_modifyHead]
    · rw [heq]
  | removeReceivedTxs txs => exact List.length_map _
  | updatePendingTransactions applied =>
    have hpos := List.length_pos_of_ne_nil h
    change (shiftPending app.fullHash applied pending).length = pending.length
    unfold shiftPending removeReceivedTxs
    rw [List.length_cons, List.length_dropLast, List.length_map]
    omega

/-- A step that spares the transaction leaves it in its generation, or moves it on with a ledger close. -/
theorem InGeneration.step (h : InGeneration app.fullHash k pending tx) {event : PendingEvent X}
    (hk : k + event.closes < pending.length) (hspares : Spares app.fullHash tx event) :
    InGeneration app.fullHash (k + event.closes) (pendingStep app pending event) tx := by
  cases event with
  | recvTransaction tx' w =>
    obtain ⟨-, hadmitted⟩ | ⟨-, heq⟩ := recvTransaction_cases app pending tx' w
    · rw [hadmitted.step]
      obtain ⟨m, t, hm, ht, hlook⟩ := h
      cases pending with
      | nil => cases hm
      | cons m₀ pending =>
        rw [List.modifyHead_cons]
        change InGeneration app.fullHash k _ tx
        cases k with
        | succ k => exact ⟨m, t, hm, ht, hlook⟩
        | zero =>
          obtain rfl := Option.some.inj hm
          refine ⟨addPending app.fullHash tx' m₀, ?_⟩
          unfold addPending
          by_cases hacc : tx.tx.sourceAccount = tx'.tx.sourceAccount
          · refine ⟨t.addTx app.fullHash tx', rfl, ?_, mem_addTx hlook⟩
            rw [← hacc, AList.lookup_insert, ht]
            rfl
          · refine ⟨t, rfl, ?_, hlook⟩
            rw [AList.lookup_insert_ne hacc]
            exact ht
    · rw [heq]
      exact h
  | removeReceivedTxs txs => exact h.removeReceivedTxs hspares
  | updatePendingTransactions applied => exact h.shiftPending hk hspares

/-- How many ledgers are closed in a run. -/
def ledgersClosed (events : List (PendingEvent X)) : ℕ := (events.map PendingEvent.closes).sum

theorem InGeneration.run (h : InGeneration app.fullHash k pending tx) {events : List (PendingEvent X)}
    (hk : k + ledgersClosed events < pending.length)
    (hspares : ∀ event ∈ events, Spares app.fullHash tx event) :
    InGeneration app.fullHash (k + ledgersClosed events) (events.foldl (pendingStep app) pending) tx := by
  induction events generalizing k pending with
  | nil => exact h
  | cons event events ih =>
    have hsum : ledgersClosed (event :: events) = event.closes + ledgersClosed events := by
      unfold ledgersClosed
      rw [List.map_cons, List.sum_cons]
    rw [hsum] at hk ⊢
    have hne : pending ≠ [] := by
      rintro rfl
      cases hk
    have hstep := h.step (by omega) (hspares event List.mem_cons_self)
    have hlength : (pendingStep app pending event).length = pending.length := length_pendingStep event hne
    rw [List.foldl_cons, ← add_assoc]
    exact ih hstep (by omega) fun event h => hspares event (List.mem_cons_of_mem _ h)

theorem Admitted.inGeneration (h : Admitted app pending tx w) (hs : PendingSound app.fullHash pending) :
    InGeneration app.fullHash 0 (pendingStep app pending (.recvTransaction tx w)) tx := by
  obtain ⟨hnew, -⟩ := h.numbers hs
  rw [h.step]
  cases pending with
  | nil => cases hs.length
  | cons m pending =>
    have hmem : app.fullHash tx ∉ ((m.lookup tx.tx.sourceAccount).getD .new).mTransactions := by
      cases hlookup : m.lookup tx.tx.sourceAccount with
      | none => exact AList.notMem_empty _
      | some t => exact hnew m List.mem_cons_self t hlookup
    refine ⟨addPending app.fullHash tx m, _, rfl, AList.lookup_insert _, ?_⟩
    unfold TxMap.addTx
    rw [if_neg hmem, AList.lookup_insert]

/-! ## Runs -/

/-- The account of a transaction that is received has no negative sequence number. -/
def PendingEvent.SeqNonneg : PendingEvent X → Prop
  | .recvTransaction tx w => ∀ acc, w.ltx.account tx.tx.sourceAccount = some acc → 0 ≤ acc.seqNum
  | _ => True

theorem PendingSound.step (hs : PendingSound app.fullHash pending) {event : PendingEvent X}
    (hseq : event.SeqNonneg) : PendingSound app.fullHash (pendingStep app pending event) := by
  cases event with
  | recvTransaction tx w =>
    obtain ⟨-, hadmitted⟩ | ⟨-, heq⟩ := recvTransaction_cases app pending tx w
    · rw [hadmitted.step]
      exact hadmitted.sound hs hseq
    · rw [heq]
      exact hs
  | removeReceivedTxs txs => exact hs.removeReceivedTxs txs
  | updatePendingTransactions applied => exact hs.shiftPending applied

theorem pendingSound_new (fullHash : TransactionEnvelope → Hash) : PendingSound fullHash newPending := by
  refine ⟨rfl, fun m hm acc t ht => ?_, fun acc => ?_, fun acc => ?_⟩
  · rw [List.eq_of_mem_replicate hm, AList.lookup_empty] at ht
    cases ht
  · exact List.nodup_nil
  · exact List.nodup_nil

theorem PendingSound.run (hs : PendingSound app.fullHash pending) {events : List (PendingEvent X)}
    (hseq : ∀ event ∈ events, event.SeqNonneg) :
    PendingSound app.fullHash (events.foldl (pendingStep app) pending) := by
  induction events generalizing pending with
  | nil => exact hs
  | cons event events ih =>
    exact ih (hs.step (hseq event List.mem_cons_self)) fun event h => hseq event (List.mem_cons_of_mem _ h)

end Steps

/-- **The queue of pending transactions.** After any run in which no transaction is received for an account
with a negative sequence number, the generations are sound. A transaction that is accepted then fits the
available balance with all that are queued for its account, and stays in the generation of its age for less
than four ledger closes if it is neither trimmed nor applied. -/
theorem pending_run [LinearOrder Q] (app : Application X Q) (events : List (PendingEvent X))
    (hseq : ∀ event ∈ events, event.SeqNonneg) :
    PendingSound app.fullHash (events.foldl (pendingStep app) newPending) ∧
      ∀ tx w, Accepts app (events.foldl (pendingStep app) newPending) tx w →
        (∃ acc, w.ltx.account tx.tx.sourceAccount = some acc ∧
          tx.tx.fee + ((queued (events.foldl (pendingStep app) newPending) tx.tx.sourceAccount).map
            fun tx => (tx.tx.fee : ℤ)).sum ≤ AccountEntry.getAvailableBalance w.ltx.header acc) ∧
        ∀ later : List (PendingEvent X), ledgersClosed later < 4 →
          (∀ event ∈ later, Spares app.fullHash tx event) →
            InGeneration app.fullHash (ledgersClosed later)
              ((.recvTransaction tx w :: later).foldl (pendingStep app)
                (events.foldl (pendingStep app) newPending)) tx := by
  have hs := (pendingSound_new app.fullHash).run hseq
  refine ⟨hs, fun tx w haccepts => ?_⟩
  generalize events.foldl (pendingStep app) newPending = pending at hs haccepts ⊢
  obtain ⟨-, hadmitted⟩ | ⟨hnot, -⟩ := recvTransaction_cases app pending tx w
  · obtain ⟨-, acc, hacc, hfits, -⟩ := hadmitted.numbers hs
    refine ⟨⟨acc, hacc, hfits⟩, fun later hclosed hspares => ?_⟩
    have hne : pending ≠ [] := by
      rintro rfl
      cases hs.length
    have hlength : (pendingStep app pending (.recvTransaction tx w)).length = pending.length :=
      length_pendingStep _ hne
    have hlt : 0 + ledgersClosed later < (pendingStep app pending (.recvTransaction tx w)).length := by
      rw [hlength, hs.length]
      omega
    have hrun := (hadmitted.inGeneration hs).run hlt hspares
    rwa [Nat.zero_add] at hrun
  · exact absurd haccepts hnot

/-- A node with its own hash for each fee. -/
def hashingFees : Application Unit ℕ where
  crypto := standalone.crypto
  contentsHash := standalone.contentsHash
  fullHash := fun envelope => Fin.ofNat _ envelope.tx.fee
  quotient := standalone.quotient
  queryInflationWinners := standalone.queryInflationWinners
  checkOnOperationApply := standalone.checkOnOperationApply
  SendRawTransactionZagg := standalone.SendRawTransactionZagg
  generateBlocks := standalone.generateBlocks

/-- The ledger after genesis, where the root account has the sequence number and has authorized what it
sends. -/
def worldAt (seqNum : ℤ) : World Unit :=
  let header := { genesisLedger with ledgerVersion := CURRENT_LEDGER_PROTOCOL_VERSION }
  .start ((emptyLedger header).put (.account
    { rootAccount 7 header with seqNum := seqNum, numSubEntries := 1, signers := [⟨.preAuthTx 0, 1⟩] })) ()

def bumpFor (fee : ℕ) (seqNum : ℤ) : TransactionEnvelope where
  tx := { sourceAccount := 7, fee := fee, seqNum := seqNum, timeBounds := none,
          operations := [⟨none, .BUMP_SEQUENCE 5⟩] }
  signatures := []

/-- Two transactions with a ledger close between them. -/
def twoPending : List (PendingEvent Unit) :=
  [.recvTransaction (bumpFor 200 1) (worldAt 0), .updatePendingTransactions [],
    .recvTransaction (bumpFor 300 2) (worldAt 0)]

/-- The first one is applied and the second one trimmed. -/
def twoDropped : List (PendingEvent Unit) :=
  [.updatePendingTransactions [bumpFor 200 1], .removeReceivedTxs [bumpFor 300 2],
    .updatePendingTransactions []]

theorem pending_run_two :
    PendingSound hashingFees.fullHash (twoPending.foldl (pendingStep hashingFees) newPending) ∧
      InGeneration hashingFees.fullHash 2
        ((.recvTransaction (bumpFor 400 3) (worldAt 0) :: twoDropped).foldl (pendingStep hashingFees)
          (twoPending.foldl (pendingStep hashingFees) newPending)) (bumpFor 400 3) := by
  have hseq : ∀ event ∈ twoPending, event.SeqNonneg := by
    have hworld : ∀ acc, (worldAt 0).ltx.account 7 = some acc → 0 ≤ acc.seqNum := by
      intro acc hacc
      have heq : (worldAt 0).ltx.account 7 =
          some { rootAccount 7 { genesisLedger with ledgerVersion := CURRENT_LEDGER_PROTOCOL_VERSION } with
            seqNum := 0, numSubEntries := 1, signers := [⟨.preAuthTx 0, 1⟩] } := by
        decide +kernel
      obtain rfl := Option.some.inj (heq.symm.trans hacc)
      exact le_rfl
    intro event hevent
    simp only [twoPending, List.mem_cons, List.not_mem_nil, or_false] at hevent
    obtain rfl | rfl | rfl := hevent
    · exact hworld
    · trivial
    · exact hworld
  obtain ⟨hsound, haccepted⟩ := pending_run hashingFees twoPending hseq
  refine ⟨hsound, ?_⟩
  have hspares : ∀ event ∈ twoDropped, Spares hashingFees.fullHash (bumpFor 400 3) event := by
    have h200 : hashingFees.fullHash (bumpFor 200 1) ≠ hashingFees.fullHash (bumpFor 400 3) := by
      decide +kernel
    have h300 : hashingFees.fullHash (bumpFor 300 2) ≠ hashingFees.fullHash (bumpFor 400 3) := by
      decide +kernel
    intro event hevent tx hdropped _
    simp only [twoDropped, List.mem_cons, List.not_mem_nil, or_false] at hevent
    obtain rfl | rfl | rfl := hevent
    · obtain rfl := List.mem_singleton.mp hdropped
      exact h200
    · obtain rfl := List.mem_singleton.mp hdropped
      exact h300
    · exact absurd hdropped List.not_mem_nil
  have haccepts : Accepts hashingFees (twoPending.foldl (pendingStep hashingFees) newPending)
      (bumpFor 400 3) (worldAt 0) := by
    unfold Accepts
    decide +kernel
  exact (haccepted (bumpFor 400 3) (worldAt 0) haccepts).2 twoDropped (by decide) hspares

/-- With a negative sequence number `mMaxSeq` is not that of a transaction, and another transaction with the
same number is accepted. -/
theorem pending_negative :
    Accepts hashingFees newPending (bumpFor 200 (-1)) (worldAt (-2)) ∧
      ((pendingStep hashingFees newPending (.recvTransaction (bumpFor 200 (-1)) (worldAt (-2)))).map fun m =>
        (m.lookup 7).map fun t => (t.mMaxSeq, t.transactions.map fun tx => tx.tx.seqNum)) =
          [some (0, [-1]), none, none, none] ∧
      ([.recvTransaction (bumpFor 200 (-1)) (worldAt (-2)),
        .recvTransaction (bumpFor 300 (-1)) (worldAt (-2))].foldl (pendingStep hashingFees) newPending).map
          (fun m => (transactionsOf m 7).map fun tx => tx.tx.seqNum) = [[-1, -1], [], [], []] := by
  unfold Accepts
  decide +kernel

end ZaggCore.Herder
