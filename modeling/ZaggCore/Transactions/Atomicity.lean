import Mathlib
import ZaggCore.Transactions.EntryChanges
import ZaggCore.Ledger.LedgerManagerImpl

/-! # A transaction that fails leaves no trace

Whatever `applyTransactions` does with a transaction happens in nested ledger transactions. The ones that
stay committed when the transaction does not succeed hold its sequence number and the removal of its
one-time signers. -/

namespace ZaggCore.Transactions
set_option autoImplicit false
set_option maxHeartbeats 250000

open Foundations Numeric Signatures

variable {X Q : Type}

/-! ## The keys a checker has used -/

/-- The keys a checker has noted are the pre-auth key of the transaction, at accounts that have it. -/
def Noted (hash : Hash) (ltx : AbstractLedgerTxn) (sc : SignatureChecker) : Prop :=
  ∀ a, ∀ k ∈ sc.mUsedOneTimeSignerKeys a, k = .preAuthTx hash ∧
    ∃ acc, ltx.account a = some acc ∧ ∃ s ∈ acc.signers, s.key = k

/-- The checker is at work on the transaction with this hash. -/
structure NotesOwnSigners (hash : Hash) (w : World X) : Prop where
  contentsHash : w.signatureChecker.mContentsHash = hash
  noted : Noted hash w.ltx w.signatureChecker

theorem mem_checkPreAuth (v : ℕ) (hash : Hash) (needed : ℤ) (signers : List Signer) (t : ℤ)
    (used : Finset SignerKey) {k : SignerKey}
    (hk : k ∈ (checkPreAuth v hash needed signers t used).2.2) :
    k ∈ used ∨ k = .preAuthTx hash ∧ ∃ s ∈ signers, s.key = k := by
  induction signers generalizing t used with
  | nil => exact .inl hk
  | cons s signers ih =>
    by_cases hs : s.key = .preAuthTx hash
    · have hins : k ∈ insert s.key used →
          k ∈ used ∨ k = .preAuthTx hash ∧ ∃ s' ∈ s :: signers, s'.key = k := by
        intro h
        rcases Finset.mem_insert.mp h with rfl | h
        · exact .inr ⟨hs, s, List.mem_cons_self, rfl⟩
        · exact .inl h
      by_cases hn : needed ≤ addWeight t (cappedWeight v s)
      · rw [checkPreAuth, if_pos hs] at hk
        simp only [if_pos hn] at hk
        exact hins hk
      · rw [checkPreAuth, if_pos hs] at hk
        simp only [if_neg hn] at hk
        rcases ih _ _ hk with h | ⟨h, s', hs', hk'⟩
        · exact hins h
        · exact .inr ⟨h, s', List.mem_cons_of_mem _ hs', hk'⟩
    · rw [checkPreAuth, if_neg hs] at hk
      rcases ih _ _ hk with h | ⟨h, s', hs', hk'⟩
      · exact .inl h
      · exact .inr ⟨h, s', List.mem_cons_of_mem _ hs', hk'⟩

/-- A call notes nothing but the pre-auth key of the transaction, if it is among the signers. -/
theorem mem_used_checkSignature (c : Crypto) (sc : SignatureChecker) (accountID a : AccountID)
    (signersV : List Signer) (needed : ℤ) {k : SignerKey}
    (hk : k ∈ (Signatures.checkSignature c sc accountID signersV needed).2.mUsedOneTimeSignerKeys a) :
    k ∈ sc.mUsedOneTimeSignerKeys a ∨
      a = accountID ∧ k = .preAuthTx sc.mContentsHash ∧ ∃ s ∈ signersV, s.key = k := by
  rw [Signatures.checkSignature] at hk
  split_ifs at hk with hv
  · exact .inl hk
  · set p := checkPreAuth sc.mProtocolVersion sc.mContentsHash needed
      (signersOf signersV .SIGNER_KEY_TYPE_PRE_AUTH_TX) 0 (sc.mUsedOneTimeSignerKeys accountID) with hp
    have hk' : k ∈ Function.update sc.mUsedOneTimeSignerKeys accountID p.2.2 a := by
      revert hk
      rcases p with ⟨returned, t, used⟩
      dsimp only
      split_ifs <;> exact id
    by_cases ha : a = accountID
    · subst ha
      rw [Function.update_self, hp] at hk'
      rcases mem_checkPreAuth _ _ _ _ _ _ hk' with h | ⟨h, s, hs, hsk⟩
      · exact .inl h
      · exact .inr ⟨rfl, h, s, List.mem_of_mem_filter hs, hsk⟩
    · rw [Function.update_of_ne ha] at hk'
      exact .inl hk'

/-- A step that neither writes to the ledger nor notes a key that is not there to be used. -/
def Quiet (hash : Hash) (w w' : World X) : Prop :=
  8 ≤ w.ltx.header.ledgerVersion →
    w'.ltx = w.ltx ∧ (NotesOwnSigners hash w → NotesOwnSigners hash w')

instance (hash : Hash) : Std.Refl (Quiet (X := X) hash) := ⟨fun _ _ => ⟨rfl, id⟩⟩

instance (hash : Hash) : IsTrans (World X) (Quiet hash) where
  trans a b c h₁ h₂ hv := by
    obtain ⟨e₁, n₁⟩ := h₁ hv
    obtain ⟨e₂, n₂⟩ := h₂ (by rwa [e₁])
    exact ⟨e₂.trans e₁, n₂ ∘ n₁⟩

/-- Changes outside of the ledger and of the checker are quiet. -/
theorem Quiet.of_eq {hash : Hash} {w w' : World X} (hltx : w'.ltx = w.ltx)
    (hsc : w'.signatureChecker = w.signatureChecker) : Quiet hash w w' := by
  refine fun _ => ⟨hltx, fun h => ⟨?_, ?_⟩⟩
  · rw [hsc]
    exact h.contentsHash
  · rw [hsc, hltx]
    exact h.noted

theorem quiet_load (hash : Hash) (w : World X) (k : LedgerKey) : Quiet hash w (w.load k) := by
  refine .of_eq (w.ltx_load k) ?_
  unfold World.load
  split_ifs <;> rfl

theorem quiet_loadSourceAccount (hash : Hash) (a : AccountID) :
    Keeps (Quiet hash) (loadSourceAccount (X := X) a) := by
  intro w hv
  rw [loadSourceAccount_eq hv]
  exact quiet_load hash w _ hv

/-- What a rolled back program leaves behind it is quiet if the program is. -/
theorem quiet_rolledBack {hash : Hash} {α : Type} {x : AppM X α} (hx : Keeps (Quiet hash) x) :
    Keeps (Quiet hash) (rolledBack World.restore x) := by
  refine .rolledBack fun w hv => ⟨rfl, fun h => ?_⟩
  obtain ⟨hltx, hn⟩ := hx w hv
  have h' := hn h
  refine ⟨h'.contentsHash, fun a k hk => ?_⟩
  have := h'.noted a k hk
  rwa [hltx] at this

section

variable (app : Application X Q)

/-- A call of the checker about an account of the ledger is quiet. -/
theorem quiet_callChecker (hash : Hash) (w : World X) (a : AccountID) (signersV : List Signer)
    (needed : ℤ) (hs : ∀ s ∈ signersV, s.key = .preAuthTx hash →
      ∃ acc, w.ltx.account a = some acc ∧ s ∈ acc.signers) :
    Quiet hash w (after (callChecker app a signersV needed w)) := by
  refine fun _ => ⟨rfl, fun h => ⟨?_, fun b k hk => ?_⟩⟩
  · exact (checkSignature_frame app.crypto w.signatureChecker a signersV needed).2.1.trans h.contentsHash
  · rcases mem_used_checkSignature app.crypto w.signatureChecker a b signersV needed hk with hk | hk
    · exact h.noted b k hk
    · obtain ⟨rfl, rfl, s, hmem, hsk⟩ := hk
      rw [h.contentsHash] at hsk ⊢
      obtain ⟨acc, hacc, hin⟩ := hs s hmem hsk
      exact ⟨rfl, acc, hacc, s, hin, hsk⟩

theorem quiet_checkSignature (hash : Hash) {w : World X} {a : AccountID} {acc : AccountEntry}
    (hacc : w.ltx.account a = some acc) (needed : ℤ) :
    Quiet hash w (after (checkSignature app acc needed w)) := by
  refine quiet_callChecker app hash w _ _ _ fun s hs hk => ?_
  obtain rfl := AbstractLedgerTxn.accountID_of_account hacc
  refine ⟨acc, hacc, ?_⟩
  unfold signersOfAccount at hs
  dsimp only at hs
  split_ifs at hs
  · exact hs
  · rcases List.mem_cons.mp hs with rfl | hs
    · cases hk
    · exact hs

/-- Whatever is done with the result of a check, if it writes nothing. -/
theorem quiet_afterCheck (hash : Hash) {w : World X} {a : AccountID} {acc : AccountEntry} {α : Type}
    (hacc : w.ltx.account a = some acc) (needed : ℤ) {f : Bool → AppM X α}
    (hf : ∀ b, Keeps (Quiet hash) (f b)) :
    Quiet hash w (after ((checkSignature app acc needed >>= f) w)) := by
  have h := quiet_checkSignature app hash hacc needed
  change Quiet hash w (after (EStateM.bind _ f w))
  unfold EStateM.bind
  cases hx : checkSignature app acc needed w with
  | ok b w' =>
    rw [hx] at h
    exact trans_of (Quiet hash) h (hf b w')
  | error e w' =>
    rw [hx] at h
    exact h

theorem quiet_opCheckSignature (hash : Hash) (op : OperationFrame X) (forApply : Bool) :
    Keeps (Quiet hash) (OperationFrame.checkSignature app op forApply) := by
  intro w hv
  rw [OperationFrame.checkSignature, after_bind_of_ok (loadAccountCached_eq hv _)]
  have hload := quiet_load hash w (.account op.sourceID)
  cases hacc : w.ltx.account op.sourceID with
  | some acc =>
    refine trans_of (Quiet hash) hload (quiet_afterCheck app hash (a := op.sourceID) ?_ _ ?_) hv
    · rw [w.ltx_load, hacc]
    · exact fun b => .ite (fun _ => .pure _) (fun _ => .pure _)
  | none =>
    dsimp only
    split_ifs
    · exact hload hv
    · refine trans_of (Quiet hash) hload ?_ hv
      refine Keeps.bind (R := Quiet hash) (fun w' => ?_) (fun b => ?_) _
      · refine quiet_callChecker app hash w' _ _ _ fun s hs hk => ?_
        obtain rfl := List.mem_singleton.mp hs
        cases hk
      · exact .ite (fun _ => .pure _) (fun _ => .pure _)

theorem quiet_checkSignatures (hash : Hash) (ops : List (OperationFrame X)) :
    Keeps (Quiet hash) (checkSignatures app ops) := by
  induction ops with
  | nil => exact .pure _
  | cons op ops ih =>
    exact .bind (quiet_opCheckSignature app hash op false) fun res => .bind ih fun r => .pure _

theorem quiet_commonValidPreSeqNum (hash : Hash) (tx : Transaction) :
    Keeps (Quiet hash) (commonValidPreSeqNum (X := X) tx) := by
  refine .ite (fun _ => .pure _) fun _ => .bind (fun w => refl_of (Quiet hash) w) fun ltx => ?_
  refine .ite (fun _ => .pure _) fun _ => .ite (fun _ => .pure _) fun _ => .ite (fun _ => .pure _) ?_
  intro _
  exact .bind (quiet_loadSourceAccount hash _) fun res => .ite (fun _ => .pure _) fun _ => .pure _

theorem quiet_commonValid (hash : Hash) (tx : Transaction) (current : ℤ) (applying : Bool) :
    Keeps (Quiet hash) (commonValid app tx current applying) := by
  refine quiet_rolledBack (.bind (quiet_commonValidPreSeqNum hash tx) fun res => ?_)
  cases res with
  | some code => exact .pure _
  | none =>
    refine .bind (fun w => refl_of (Quiet hash) w) fun header => ?_
    intro w hv
    rw [after_bind_of_ok (loadSourceAccount_eq hv _)]
    have hload := quiet_load hash w (.account tx.sourceAccount)
    cases hacc : w.ltx.account tx.sourceAccount with
    | none => exact hload hv
    | some acc =>
      refine trans_of (Quiet hash) hload ?_ hv
      change Quiet hash _ (after ((if _ then _ else _ : AppM X _) _))
      split
      · exact refl_of (Quiet hash) _
      · refine quiet_afterCheck app hash (a := tx.sourceAccount) (by rw [w.ltx_load, hacc]) _ fun b => ?_
        exact .ite (fun _ => .pure _) fun _ => .ite (fun _ => .pure _) fun _ => .pure _

end

/-! ## What a failed transaction leaves behind -/

/-- The account after `removeAccountSigner`: `normalizeSigners` puts the other signers in order. -/
def withoutSigner (key : SignerKey) (acc : AccountEntry) : AccountEntry :=
  normalizeSigners { acc with
    numSubEntries := changedCount acc.numSubEntries (-1)
    signers := acc.signers.eraseP (·.key = key) }

@[simp] theorem accountID_withoutSigner (key : SignerKey) (acc : AccountEntry) :
    (withoutSigner key acc).accountID = acc.accountID := rfl

/-- The account with its sequence number consumed and without the one-time signer of the transaction. -/
def spent (tx : Transaction) (hash : Hash) (consumed removed : Bool) (acc : AccountEntry) :
    AccountEntry :=
  let acc := if consumed then { acc with seqNum := tx.seqNum } else acc
  if removed then withoutSigner (.preAuthTx hash) acc else acc

theorem signers_spent_false (tx : Transaction) (hash : Hash) (consumed : Bool) (acc : AccountEntry) :
    (spent tx hash consumed false acc).signers = acc.signers := by
  cases consumed <;> rfl

/-- From `w` to `w'` the sequence number was consumed, if `consumed` says so, and the one-time signers of
the accounts in `removed` were removed; nothing else has changed. -/
structure Spends (tx : Transaction) (hash : Hash) (consumed : Bool) (removed : Finset AccountID)
    (w w' : World X) : Prop where
  header : w'.ltx.header = w.ltx.header
  closeTime : w'.ltx.closeTime = w.ltx.closeTime
  others : ∀ k, (∀ a, k ≠ .account a) →
    w'.ltx.getNewestVersion k = w.ltx.getNewestVersion k ∧
      w'.lastModifiedLedgerSeq k = w.lastModifiedLedgerSeq k
  accounts : ∀ a, w'.ltx.account a =
    (w.ltx.account a).map (spent tx hash (consumed && a = tx.sourceAccount) (a ∈ removed))
  hadSigner : ∀ a ∈ removed, ∃ acc, w.ltx.account a = some acc ∧
    ∃ s ∈ acc.signers, s.key = .preAuthTx hash
  stamps : ∀ a, ¬ (consumed ∧ a = tx.sourceAccount) → a ∉ removed →
    w'.lastModifiedLedgerSeq (.account a) = w.lastModifiedLedgerSeq (.account a)

/-- What a transaction that does not succeed may do to the ledger. -/
def OnlyConsumes (tx : Transaction) (hash : Hash) (w w' : World X) : Prop :=
  ∃ consumed removed, Spends tx hash consumed removed w w'

theorem Spends.of_eq {tx : Transaction} {hash : Hash} {w w' : World X} (hltx : w'.ltx = w.ltx)
    (hstamps : w'.lastModifiedLedgerSeq = w.lastModifiedLedgerSeq) :
    Spends tx hash false ∅ w w' where
  header := by rw [hltx]
  closeTime := by rw [hltx]
  others k _ := by rw [hltx, hstamps]; exact ⟨rfl, rfl⟩
  accounts a := by rw [hltx]; cases w.ltx.account a <;> simp [spent]
  hadSigner := by simp
  stamps a _ _ := by rw [hstamps]

/-- Only the ledger and the stamps at the end count. -/
theorem Spends.congr {tx : Transaction} {hash : Hash} {consumed : Bool} {removed : Finset AccountID}
    {w w₁ w₂ : World X} (h : Spends tx hash consumed removed w w₁) (hltx : w₂.ltx = w₁.ltx)
    (hstamps : w₂.lastModifiedLedgerSeq = w₁.lastModifiedLedgerSeq) :
    Spends tx hash consumed removed w w₂ where
  header := by rw [hltx]; exact h.header
  closeTime := by rw [hltx]; exact h.closeTime
  others k hk := by rw [hltx, hstamps]; exact h.others k hk
  accounts a := by rw [hltx]; exact h.accounts a
  hadSigner := h.hadSigner
  stamps a hc hr := by rw [hstamps]; exact h.stamps a hc hr

/-! ## The sequence number -/

theorem lastModifiedLedgerSeq_load (w : World X) {k k' : LedgerKey} (hk : k ≠ k') :
    (w.load k').lastModifiedLedgerSeq k = w.lastModifiedLedgerSeq k := by
  unfold World.load
  split_ifs
  · exact Function.update_of_ne hk _ _
  · rfl

theorem signatureChecker_load (w : World X) (k : LedgerKey) :
    (w.load k).signatureChecker = w.signatureChecker := by
  unfold World.load
  split_ifs <;> rfl

/-- Everything but the accounts is as before when an account is stored. -/
theorem getNewestVersion_put_account {ltx : AbstractLedgerTxn} {acc : AccountEntry} {k : LedgerKey}
    (hk : ∀ a, k ≠ .account a) :
    (ltx.put (.account acc)).getNewestVersion k = ltx.getNewestVersion k := by
  rw [AbstractLedgerTxn.getNewestVersion_put, if_neg]
  exact hk _

/-- `loadAccount` of an account followed by an assignment through its handle. -/
def World.assign (w : World X) (acc : AccountEntry) : World X :=
  ((w.load (.account acc.accountID)).setLtx (w.ltx.put (.account acc))).touch (.account acc.accountID)

theorem lastModifiedLedgerSeq_assign (w : World X) {acc : AccountEntry} {k : LedgerKey}
    (hk : k ≠ .account acc.accountID) :
    (w.assign acc).lastModifiedLedgerSeq k = w.lastModifiedLedgerSeq k := by
  unfold World.assign World.touch World.setLtx
  dsimp only
  rw [Function.update_of_ne hk]
  exact lastModifiedLedgerSeq_load w hk

theorem signatureChecker_assign (w : World X) (acc : AccountEntry) :
    (w.assign acc).signatureChecker = w.signatureChecker :=
  signatureChecker_load w _

theorem storeAccount_load_ok {w w' : World X} {a : AccountID} {acc acc' : AccountEntry}
    (hacc : w.ltx.account a = some acc) (hid : acc'.accountID = acc.accountID)
    (h : storeAccount acc' (w.load (.account a)) = .ok () w') : w' = w.assign acc' := by
  obtain rfl : acc'.accountID = a := hid.trans (AbstractLedgerTxn.accountID_of_account hacc)
  rw [← store_ok.mp h, w.ltx_load]
  rfl

theorem processSeqNum_ok {tx : Transaction} {w w' : World X} (hv : 10 ≤ w.ltx.header.ledgerVersion)
    (h : processSeqNum tx w = .ok () w') :
    ∃ acc, w.ltx.account tx.sourceAccount = some acc ∧ acc.seqNum ≤ tx.seqNum ∧
      w' = w.assign { acc with seqNum := tx.seqNum } := by
  obtain ⟨header, w₁, h₁, h⟩ := bind_ok.mp h
  obtain ⟨rfl, rfl⟩ := loadHeader_ok.mp h₁
  rw [if_pos hv] at h
  obtain ⟨res, w₁, h₁, h⟩ := bind_ok.mp h
  obtain ⟨rfl, rfl⟩ := (loadSourceAccount_ok (by omega)).mp h₁
  obtain ⟨acc, w₁, h₁, h⟩ := bind_ok.mp h
  obtain ⟨hacc, rfl⟩ := current_ok.mp h₁
  obtain ⟨_, w₁, h₁, h⟩ := bind_ok.mp h
  obtain ⟨hle, rfl⟩ := lift_ok.mp h₁
  rw [storeCached_eq (by rw [w.ltx_load]; omega)] at h
  exact ⟨acc, hacc, not_lt.mp (throwIf_ok.mp hle), storeAccount_load_ok hacc rfl h⟩

theorem Spends.of_processSeqNum {tx : Transaction} {hash : Hash} {w w' : World X}
    (hv : 10 ≤ w.ltx.header.ledgerVersion) (h : processSeqNum tx w = .ok () w') :
    Spends tx hash true ∅ w w' := by
  obtain ⟨acc, hacc, -, rfl⟩ := processSeqNum_ok hv h
  have hid := AbstractLedgerTxn.accountID_of_account hacc
  constructor
  case header => rfl
  case closeTime => rfl
  case others =>
    intro k hk
    exact ⟨getNewestVersion_put_account hk, lastModifiedLedgerSeq_assign w (hk _)⟩
  case accounts =>
    intro a
    change (w.ltx.put (.account _)).account a = _
    rw [AbstractLedgerTxn.account_put_account]
    dsimp only
    by_cases ha : a = tx.sourceAccount
    · subst ha
      simp [hid, hacc, spent]
    · rw [hid, if_neg ha]
      cases w.ltx.account a <;> simp [spent, ha]
  case hadSigner => simp
  case stamps =>
    intro a ha _
    refine lastModifiedLedgerSeq_assign w ?_
    intro heq
    exact ha ⟨rfl, by rw [← hid]; injection heq⟩

/-! ## The one-time signers -/

theorem removeFirstSigner_ok {header : LedgerHeader} {acc acc' : AccountEntry} {key : SignerKey}
    {changed : Bool} (hs : ∃ s ∈ acc.signers, s.key = key)
    (h : removeFirstSigner header acc [key] = .ok (acc', changed)) :
    changed = true ∧ acc' = { acc with
      numSubEntries := changedCount acc.numSubEntries (-1)
      signers := acc.signers.eraseP (·.key = key) } := by
  have hany : acc.signers.any (·.key = key) := by simpa using hs
  obtain ⟨⟨acc₁, changed₁⟩, h₁, h⟩ := except_bind_ok.mp h
  rw [removeAccountSigner, if_pos hany] at h₁
  obtain ⟨res, hres, h₁⟩ := except_bind_ok.mp h₁
  obtain ⟨-, ⟨-, hpos⟩ | rfl⟩ := addNumEntries_ok hres
  · omega
  · obtain ⟨rfl, rfl⟩ := Prod.mk.inj (except_pure_ok.mp h₁)
    obtain ⟨rfl, rfl⟩ := Prod.mk.inj (except_pure_ok.mp h)
    exact ⟨rfl, rfl⟩

theorem removeUsedOneTimeSignerKeysOf_ok {a : AccountID} {key : SignerKey} {acc : AccountEntry}
    {w w' : World X} (hacc : w.ltx.account a = some acc) (hs : ∃ s ∈ acc.signers, s.key = key)
    (h : removeUsedOneTimeSignerKeysOf a {key} w = .ok () w') :
    w' = w.assign (withoutSigner key acc) := by
  obtain ⟨res, w₁, h₁, h⟩ := bind_ok.mp h
  obtain ⟨rfl, rfl⟩ := loadAccount_ok.mp h₁
  rw [hacc] at h
  obtain ⟨header, w₁, h₁, h⟩ := bind_ok.mp h
  obtain ⟨rfl, rfl⟩ := loadHeader_ok.mp h₁
  obtain ⟨⟨acc', changed⟩, w₁, h₁, h⟩ := bind_ok.mp h
  obtain ⟨hremove, rfl⟩ := lift_ok.mp h₁
  rw [Finset.sort_singleton] at hremove
  obtain ⟨rfl, rfl⟩ := removeFirstSigner_ok hs hremove
  exact storeAccount_load_ok hacc rfl h

/-- One more account without its one-time signer. -/
theorem Spends.remove {tx : Transaction} {hash : Hash} {consumed : Bool} {removed : Finset AccountID}
    {w w₁ : World X} (h : Spends tx hash consumed removed w w₁) {a : AccountID} {acc acc₁ : AccountEntry}
    (ha : a ∉ removed) (hacc : w.ltx.account a = some acc)
    (hs : ∃ s ∈ acc.signers, s.key = .preAuthTx hash) (hacc₁ : w₁.ltx.account a = some acc₁) :
    Spends tx hash consumed (insert a removed) w (w₁.assign (withoutSigner (.preAuthTx hash) acc₁)) := by
  have hspent := h.accounts a
  rw [hacc, Option.map_some, decide_eq_false ha, hacc₁] at hspent
  have hid := AbstractLedgerTxn.accountID_of_account hacc₁
  obtain rfl := Option.some.inj hspent
  constructor
  case header => exact h.header
  case closeTime => exact h.closeTime
  case others =>
    intro k hk
    obtain ⟨hv, hm⟩ := h.others k hk
    exact ⟨(getNewestVersion_put_account hk).trans hv, (lastModifiedLedgerSeq_assign w₁ (hk _)).trans hm⟩
  case accounts =>
    intro b
    change (w₁.ltx.put (.account _)).account b = _
    rw [AbstractLedgerTxn.account_put_account]
    by_cases hb : b = a
    · subst hb
      rw [accountID_withoutSigner, if_pos hid.symm, hacc, Option.map_some]
      simp [spent]
    · rw [accountID_withoutSigner, hid, if_neg hb, h.accounts b]
      simp [hb]
  case hadSigner =>
    intro b hb
    rcases Finset.mem_insert.mp hb with rfl | hb
    · exact ⟨acc, hacc, hs⟩
    · exact h.hadSigner b hb
  case stamps =>
    intro b hc hb
    obtain ⟨hba, hb⟩ := not_or.mp (Finset.mem_insert.not.mp hb)
    refine (lastModifiedLedgerSeq_assign w₁ ?_).trans (h.stamps b hc hb)
    intro heq
    exact hba ((LedgerKey.account.inj heq).trans hid)

theorem Spends.removeAll {tx : Transaction} {hash : Hash} {consumed : Bool} (accounts : List AccountID)
    {removed : Finset AccountID} {w w₁ w₂ : World X} (h : Spends tx hash consumed removed w w₁)
    (hnd : accounts.Nodup) (hdisj : ∀ a ∈ accounts, a ∉ removed)
    (hnoted : Noted hash w.ltx w₁.signatureChecker)
    (hrun : removeUsedOneTimeSignerKeys accounts w₁ = .ok () w₂) :
    ∃ removed', Spends tx hash consumed removed' w w₂ := by
  induction accounts generalizing removed w₁ with
  | nil =>
    obtain ⟨-, rfl⟩ := pure_ok.mp hrun
    exact ⟨removed, h⟩
  | cons a accounts ih =>
    rw [List.nodup_cons] at hnd
    obtain ⟨w', w₁', h₁, hrun⟩ := bind_ok.mp hrun
    obtain ⟨rfl, rfl⟩ := get_ok.mp h₁
    obtain ⟨_, w₃, h₁, hrun⟩ := bind_ok.mp hrun
    by_cases hk : w₁.signatureChecker.mUsedOneTimeSignerKeys a = ∅
    · rw [if_neg (not_not.mpr hk)] at h₁
      obtain ⟨-, rfl⟩ := pure_ok.mp h₁
      exact ih h hnd.2 (fun b hb => hdisj b (List.mem_cons_of_mem _ hb)) hnoted hrun
    · rw [if_pos hk] at h₁
      obtain ⟨k, hmem⟩ := Finset.nonempty_iff_ne_empty.mpr hk
      obtain ⟨hkey, acc, hacc, hs⟩ := hnoted a k hmem
      have hsingle : w₁.signatureChecker.mUsedOneTimeSignerKeys a = {.preAuthTx hash} :=
        Finset.eq_singleton_iff_nonempty_unique_mem.mpr ⟨⟨k, hmem⟩, fun x hx => (hnoted a x hx).1⟩
      rw [hsingle] at h₁
      rw [hkey] at hs
      have hacc₁ := h.accounts a
      rw [hacc, Option.map_some, decide_eq_false (hdisj a List.mem_cons_self)] at hacc₁
      obtain rfl := removeUsedOneTimeSignerKeysOf_ok hacc₁ (by rwa [signers_spent_false]) h₁
      refine ih (h.remove (hdisj a List.mem_cons_self) hacc hs hacc₁) hnd.2 (fun b hb hmem' => ?_) ?_ hrun
      · rcases Finset.mem_insert.mp hmem' with rfl | hmem'
        · exact hnd.1 hb
        · exact hdisj b (List.mem_cons_of_mem _ hb) hmem'
      · rw [signatureChecker_assign]
        exact hnoted

/-- As long as no signer is removed the keys noted can be read off the old accounts or the new ones. -/
theorem Spends.noted {tx : Transaction} {hash : Hash} {consumed : Bool} {w w₁ : World X}
    (h : Spends tx hash consumed ∅ w w₁) (sc : SignatureChecker) :
    Noted hash w₁.ltx sc ↔ Noted hash w.ltx sc := by
  unfold Noted
  simp only [h.accounts, Option.map_eq_some_iff, Finset.notMem_empty, decide_false]
  refine forall₃_congr fun a k _ => and_congr_right fun _ => ⟨?_, ?_⟩
  · rintro ⟨_, ⟨acc, hacc, rfl⟩, s, hs, hk⟩
    rw [signers_spent_false] at hs
    exact ⟨acc, hacc, s, hs, hk⟩
  · rintro ⟨acc, hacc, s, hs, hk⟩
    refine ⟨_, ⟨acc, hacc, rfl⟩, s, ?_, hk⟩
    rwa [signers_spent_false]

theorem Spends.of_congr {tx : Transaction} {hash : Hash} {consumed : Bool} {removed : Finset AccountID}
    {w₀ w w' : World X} (h : Spends tx hash consumed removed w w') (hltx : w.ltx = w₀.ltx)
    (hstamps : w.lastModifiedLedgerSeq = w₀.lastModifiedLedgerSeq) :
    Spends tx hash consumed removed w₀ w' where
  header := by rw [← hltx]; exact h.header
  closeTime := by rw [← hltx]; exact h.closeTime
  others k hk := by rw [← hltx, ← hstamps]; exact h.others k hk
  accounts a := by rw [← hltx]; exact h.accounts a
  hadSigner := by rw [← hltx]; exact h.hadSigner
  stamps a hc hr := by rw [← hstamps]; exact h.stamps a hc hr

section

variable (app : Application X Q)

theorem commonValid_ok {tx : Transaction} {current : ℤ} {applying : Bool} {w w' : World X}
    {res : ValidationType × TransactionResultCode}
    (h : commonValid app tx current applying w = .ok res w') :
    w'.ltx = w.ltx ∧ w'.lastModifiedLedgerSeq = w.lastModifiedLedgerSeq := by
  obtain ⟨w₁, -, rfl⟩ := rolledBack_ok.mp h
  exact ⟨rfl, rfl⟩

/-- A new checker has noted nothing. -/
theorem notesOwnSigners_startChecker {envelope : TransactionEnvelope} {w w' : World X}
    (h : startChecker app envelope w = .ok () w') :
    w'.ltx = w.ltx ∧ w'.lastModifiedLedgerSeq = w.lastModifiedLedgerSeq ∧
      NotesOwnSigners (app.contentsHash envelope.tx) w' := by
  obtain rfl := modify_ok.mp h
  exact ⟨rfl, rfl, rfl, fun a k hk => absurd hk (by simp [SignatureChecker.new])⟩

variable [LinearOrder Q]

theorem updateSeqNum_spends {tx : Transaction} (hash : Hash) {cv : ValidationType} {w w' : World X}
    (hv : 10 ≤ w.ltx.header.ledgerVersion)
    (h : (if cv.updatesSeqNum then processSeqNum tx else pure ()) w = .ok () w') :
    Spends tx hash cv.updatesSeqNum ∅ w w' ∧ w'.signatureChecker = w.signatureChecker := by
  split_ifs at h with hcv
  · obtain ⟨acc, -, -, hw⟩ := processSeqNum_ok hv h
    exact ⟨hcv ▸ .of_processSeqNum hv h, hw ▸ signatureChecker_assign w _⟩
  · obtain ⟨-, rfl⟩ := pure_ok.mp h
    rw [Bool.not_eq_true] at hcv
    exact ⟨hcv ▸ .of_eq rfl rfl, rfl⟩

/-- `processSignatures` removes the one-time signers that it has used, whatever it comes to. -/
theorem processSignatures_spends {tx : Transaction} {hash : Hash} {consumed : Bool}
    {code : TransactionResultCode} {w w₁ w₂ : World X} {res : TransactionResult × Bool}
    (hv : 10 ≤ w.ltx.header.ledgerVersion) (hnotes : NotesOwnSigners hash w₁)
    (hs : Spends tx hash consumed ∅ w w₁) (h : processSignatures app tx code w₁ = .ok res w₂) :
    OnlyConsumes tx hash w w₂ := by
  rw [← hs.header] at hv
  obtain ⟨header, _, h₁, h⟩ := bind_ok.mp h
  obtain ⟨rfl, rfl⟩ := loadHeader_ok.mp h₁
  rw [if_neg (by omega)] at h
  obtain ⟨⟨results, allOpsValid⟩, w₃, h₃, h⟩ := bind_ok.mp h
  obtain ⟨hltx, hn⟩ := (quiet_rolledBack (quiet_checkSignatures app hash _)).ok h₃ (by omega)
  obtain ⟨w₃', -, rfl⟩ := rolledBack_ok.mp h₃
  have hnoted := (hs.noted _).mp (hn hnotes).noted
  obtain ⟨⟨⟩, w₄, h₄, h⟩ := bind_ok.mp h
  have hs₃ : Spends tx hash consumed ∅ w (World.restore w₁ w₃') := hs.congr rfl rfl
  obtain ⟨removed, hs₄⟩ := hs₃.removeAll _ (Finset.sort_nodup _ _) (by simp) hnoted h₄
  refine ⟨consumed, removed, ?_⟩
  suffices w₄ = w₂ by rwa [← this]
  split at h
  · obtain ⟨_, w₅, h₅, h⟩ := bind_ok.mp h
    obtain ⟨-, rfl⟩ := lift_ok.mp h₅
    exact (pure_ok.mp h).2
  · obtain ⟨_, w₅, h₅, h⟩ := bind_ok.mp h
    obtain ⟨-, rfl⟩ := get_ok.mp h₅
    split at h
    · exact (pure_ok.mp h).2
    · exact (pure_ok.mp h).2

theorem validate_spends {tx : Transaction} {hash : Hash} {w w' : World X}
    {res : TransactionResult × Bool} (hv : 10 ≤ w.ltx.header.ledgerVersion)
    (hnotes : NotesOwnSigners hash w) (h : validate app tx w = .ok res w') :
    OnlyConsumes tx hash w w' := by
  obtain ⟨⟨cv, code⟩, w₁, h₁, h⟩ := bind_ok.mp (committed_ok.mp h)
  obtain ⟨-, hn₁⟩ := (quiet_commonValid app hash tx 0 true).ok h₁ (by omega)
  obtain ⟨hltx₁, hst₁⟩ := commonValid_ok app h₁
  obtain ⟨⟨⟩, w₂, h₂, h⟩ := bind_ok.mp h
  obtain ⟨hs₂, hsc₂⟩ := updateSeqNum_spends hash (by rwa [hltx₁]) h₂
  have hnotes₂ : NotesOwnSigners hash w₂ :=
    ⟨hsc₂ ▸ (hn₁ hnotes).contentsHash, (hs₂.noted _).mpr (hsc₂ ▸ (hn₁ hnotes).noted)⟩
  have hs := hs₂.of_congr hltx₁ hst₁
  split at h
  · obtain ⟨⟨result, signaturesValid⟩, w₃, h₃, h⟩ := bind_ok.mp h
    obtain ⟨-, rfl⟩ := pure_ok.mp h
    exact processSignatures_spends app hv hnotes₂ hs h₃
  · obtain ⟨-, rfl⟩ := pure_ok.mp h
    exact ⟨_, _, hs⟩

/-- Up to version 9 the first half of `apply` does not write. -/
theorem validate_old {tx : Transaction} {w w' : World X} {res : TransactionResult × Bool}
    (hv : w.ltx.header.ledgerVersion < 10) (h : validate app tx w = .ok res w') :
    w'.ltx = w.ltx ∧ w'.lastModifiedLedgerSeq = w.lastModifiedLedgerSeq := by
  obtain ⟨⟨cv, code⟩, w₁, h₁, h⟩ := bind_ok.mp (committed_ok.mp h)
  obtain ⟨hltx₁, hst₁⟩ := commonValid_ok app h₁
  have hv₁ : ¬ 10 ≤ w₁.ltx.header.ledgerVersion := by rw [hltx₁]; omega
  obtain ⟨⟨⟩, w₂, h₂, h⟩ := bind_ok.mp h
  have hw₂ : w₁ = w₂ := by
    split at h₂
    · obtain ⟨header, _, h₃, h₂⟩ := bind_ok.mp h₂
      obtain ⟨rfl, rfl⟩ := loadHeader_ok.mp h₃
      rw [if_neg hv₁] at h₂
      exact (pure_ok.mp h₂).2
    · exact (pure_ok.mp h₂).2
  subst hw₂
  have hw' : w₁ = w' := by
    split at h
    · obtain ⟨⟨result, signaturesValid⟩, w₃, h₃, h⟩ := bind_ok.mp h
      obtain ⟨header, _, h₄, h₃⟩ := bind_ok.mp h₃
      obtain ⟨rfl, rfl⟩ := loadHeader_ok.mp h₄
      rw [if_pos (not_le.mp hv₁)] at h₃
      exact (pure_ok.mp h₃).2.trans (pure_ok.mp h).2
    · exact (pure_ok.mp h).2
  subst hw'
  exact ⟨hltx₁, hst₁⟩

/-! ## The operations -/

/-- Operations that do not succeed leave nothing in the ledger. -/
theorem applyOperations_restores {tx : Transaction} {w w' : World X} {result : TransactionResult}
    (h : applyOperations app tx w = .ok result w') (hfail : result.code ≠ .txSUCCESS) :
    w'.ltx = w.ltx ∧ w'.lastModifiedLedgerSeq = w.lastModifiedLedgerSeq := by
  rcases committedIf_ok.mp h with h | ⟨w₁, -, rfl⟩
  · exfalso
    obtain ⟨⟨results, errorEncountered⟩, w₁, -, h⟩ := bind_ok.mp h
    dsimp only at h
    split at h
    · cases (pure_ok.mp h).1
    · obtain ⟨allUsed, w₂, -, h⟩ := bind_ok.mp h
      split at h
      · cases (pure_ok.mp h).1
      · cases (pure_ok.mp h).1
        exact hfail rfl
  · exact ⟨rfl, rfl⟩

theorem applyOperations_error {tx : Transaction} {w w' : World X} {e : Exception}
    (h : applyOperations app tx w = .error e w') :
    w'.ltx = w.ltx ∧ w'.lastModifiedLedgerSeq = w.lastModifiedLedgerSeq := by
  obtain ⟨w₁, -, rfl⟩ := committedIf_error.mp h
  exact ⟨rfl, rfl⟩

/-! ## The transaction -/

theorem OnlyConsumes.congr {tx : Transaction} {hash : Hash} {w w₁ w₂ : World X}
    (h : OnlyConsumes tx hash w w₁)
    (heq : w₂.ltx = w₁.ltx ∧ w₂.lastModifiedLedgerSeq = w₁.lastModifiedLedgerSeq) :
    OnlyConsumes tx hash w w₂ := by
  obtain ⟨consumed, removed, h⟩ := h
  exact ⟨consumed, removed, h.congr heq.1 heq.2⟩

theorem validate_onlyConsumes {tx : Transaction} {hash : Hash} {w w' : World X}
    {res : TransactionResult × Bool} (hnotes : NotesOwnSigners hash w)
    (h : validate app tx w = .ok res w') : OnlyConsumes tx hash w w' := by
  by_cases hv : 10 ≤ w.ltx.header.ledgerVersion
  · exact validate_spends app hv hnotes h
  · obtain ⟨hltx, hst⟩ := validate_old app (not_le.mp hv) h
    exact ⟨false, ∅, .of_eq hltx hst⟩

/-- `apply` returns or throws: in both cases a transaction that is not a success only consumes. -/
theorem apply_onlyConsumes {envelope : TransactionEnvelope} {w w' : World X}
    (h : (∃ result, apply app envelope w = .ok result w' ∧ result.code ≠ .txSUCCESS) ∨
      ∃ e, apply app envelope w = .error e w') :
    OnlyConsumes envelope.tx (app.contentsHash envelope.tx) w w' := by
  obtain ⟨w₀, h₀⟩ : ∃ w₀, startChecker app envelope w = .ok () w₀ := ⟨_, rfl⟩
  obtain ⟨hltx₀, hst₀, hnotes⟩ := notesOwnSigners_startChecker app h₀
  have back : ∀ w₁, OnlyConsumes envelope.tx (app.contentsHash envelope.tx) w₀ w₁ →
      OnlyConsumes envelope.tx (app.contentsHash envelope.tx) w w₁ :=
    fun w₁ ⟨c, r, h⟩ => ⟨c, r, h.of_congr hltx₀ hst₀⟩
  refine back w' ?_
  rcases h with ⟨result, h, hfail⟩ | ⟨e, h⟩
  · obtain ⟨_, w₀', h₀', h⟩ := bind_ok.mp h
    obtain rfl : w₀ = w₀' := by rw [h₀] at h₀'; injection h₀'
    obtain ⟨⟨result', valid⟩, w₁, h₁, h⟩ := bind_ok.mp h
    have hs := validate_onlyConsumes app hnotes h₁
    dsimp only at h
    split at h
    · exact hs.congr (applyOperations_restores app h hfail)
    · obtain ⟨-, rfl⟩ := pure_ok.mp h
      exact hs
  · rcases bind_error.mp h with h | ⟨_, w₀', h₀', h⟩
    · rw [h₀] at h
      cases h
    · obtain rfl : w₀ = w₀' := by rw [h₀] at h₀'; injection h₀'
      rcases bind_error.mp h with h | ⟨⟨result', valid⟩, w₁, h₁, h⟩
      · obtain ⟨w₁, -, rfl⟩ := committed_error.mp h
        exact ⟨false, ∅, .of_eq rfl rfl⟩
      · have hs := validate_onlyConsumes app hnotes h₁
        dsimp only at h
        split at h
        · exact hs.congr (applyOperations_error app h)
        · exact absurd h pure_error

/-- A transaction whose result is not `txSUCCESS` has consumed its sequence number and its one-time
signers, and left the ledger alone otherwise. -/
theorem applyTransaction_onlyConsumes (envelope : TransactionEnvelope) (w w' : World X)
    (result : TransactionResult) (h : applyTransaction app envelope w = .ok result w')
    (hfail : result.code ≠ .txSUCCESS) :
    OnlyConsumes envelope.tx (app.contentsHash envelope.tx) w w' := by
  unfold applyTransaction at h
  refine apply_onlyConsumes app ?_
  split at h
  case h_1 result' w₁ h₁ =>
    cases h
    exact .inl ⟨result, h₁, hfail⟩
  case h_2 => cases h
  case h_3 => cases h
  case h_4 e w₁ _ _ h₁ =>
    cases h
    exact .inr ⟨_, h₁⟩

end

/-- A root account that has authorized its next transaction beforehand. -/
def authorizedWorld : World Unit :=
  let header := { genesisLedger with ledgerVersion := CURRENT_LEDGER_PROTOCOL_VERSION }
  .start ((emptyLedger header).put (.account
    { rootAccount 7 header with numSubEntries := 1, signers := [⟨.preAuthTx 0, 1⟩] })) ()

/-- A bump of the sequence number and a payment to an account that is not there. -/
def unclaimedPayment : TransactionEnvelope where
  tx := { sourceAccount := 7, fee := 200, seqNum := 1, timeBounds := none,
          operations := [⟨none, .BUMP_SEQUENCE 9⟩, ⟨none, .PAYMENT 8 .native 5⟩] }
  signatures := []

/-- The bump succeeds and is taken back. -/
theorem applyTransaction_onlyConsumes_unclaimedPayment :
    result? (applyTransaction standalone unclaimedPayment authorizedWorld) =
        some ⟨.txFAILED, [.opINNER (.bumpSeqResult .BUMP_SEQUENCE_SUCCESS),
          .opINNER (.paymentResult .PAYMENT_NO_DESTINATION)]⟩ ∧
      OnlyConsumes unclaimedPayment.tx 0 authorizedWorld
        (after (applyTransaction standalone unclaimedPayment authorizedWorld)) := by
  have hresult : result? (applyTransaction standalone unclaimedPayment authorizedWorld) =
      some ⟨.txFAILED, [.opINNER (.bumpSeqResult .BUMP_SEQUENCE_SUCCESS),
        .opINNER (.paymentResult .PAYMENT_NO_DESTINATION)]⟩ := by decide +kernel
  exact ⟨hresult, applyTransaction_onlyConsumes standalone unclaimedPayment authorizedWorld _ _
    (eq_ok_of_result? hresult) (by decide)⟩

end ZaggCore.Transactions
