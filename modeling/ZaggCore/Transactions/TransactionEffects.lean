import Mathlib
import ZaggCore.Transactions.Atomicity
import ZaggCore.Transactions.BookEffects

/-! # What transactions move

A transaction moves nothing in sum, whether it succeeds, fails or throws: what did not succeed is rolled
back, what stays are sequence numbers and one-time signers. Neither does taking its fee. From version 8 on. -/

namespace ZaggCore.Transactions
set_option autoImplicit false
set_option maxHeartbeats 250000

open Foundations Numeric AbstractLedgerTxn

variable {X Q : Type} {w w' : World X}

/-! ## Programs that balance -/

/-- From one state to the next nothing was moved in sum. -/
def Balanced (w w' : World X) : Prop := 8 ≤ w.ltx.header.ledgerVersion → Moves 0 w.ltx w'.ltx

instance : Std.Refl (Balanced (X := X)) := ⟨fun _ _ => .refl _⟩

instance : IsTrans (World X) Balanced where
  trans w w₁ w' h h' hv := by
    have hm := h hv
    exact (hm.trans (h' (by rwa [hm.version]))).cast (add_zero 0)

/-- However the program ends. -/
abbrev Balances {α : Type} (x : AppM X α) : Prop := Keeps Balanced x

theorem Reads.balances {α : Type} {x : AppM X α} (h : Reads x) : Balances x :=
  h.mono fun _ _ hsame hv => .of_eq (hsame hv)

/-- In a nested transaction only what ends well has to balance. -/
theorem balances_committed {α : Type} {x : AppM X α}
    (h : ∀ w a w', 8 ≤ w.ltx.header.ledgerVersion → x w = .ok a w' → Moves 0 w.ltx w'.ltx) :
    Balances (committed World.restore x) := by
  intro w hv
  cases hx : committed World.restore x w with
  | ok a w' => exact h w a w' hv (committed_ok.mp hx)
  | error e w' =>
    obtain ⟨w₁, -, rfl⟩ := committed_error.mp hx
    exact .refl _

theorem balances_committedIf {α : Type} {x : AppM X (α × Bool)}
    (h : ∀ w a w', 8 ≤ w.ltx.header.ledgerVersion → x w = .ok (a, true) w' → Moves 0 w.ltx w'.ltx) :
    Balances (committedIf World.restore x) := by
  intro w hv
  cases hx : committedIf World.restore x w with
  | ok a w' =>
    obtain hx | ⟨w₁, -, rfl⟩ := committedIf_ok.mp hx
    · exact h w a w' hv hx
    · exact .refl _
  | error e w' =>
    obtain ⟨w₁, -, rfl⟩ := committedIf_error.mp hx
    exact .refl _

/-! ## Operations -/

/-- An error is not forgotten. -/
theorem applyEach_error (app : Application X Q) (ops : List (OperationFrame X)) {results : List OperationResult}
    {errorEncountered : Bool}
    (h : applyEach app ops true w = .ok (results, errorEncountered) w') : errorEncountered = true := by
  induction ops generalizing results w with
  | nil => exact (Prod.mk.inj (pure_ok.mp h).1).2.symm
  | cons op ops ih =>
    obtain ⟨before, w₁, -, h⟩ := bind_ok.mp h
    obtain ⟨res, w₂, -, h⟩ := bind_ok.mp h
    obtain ⟨ltx, w₃, -, h⟩ := bind_ok.mp h
    obtain ⟨_, w₄, -, h⟩ := bind_ok.mp h
    obtain ⟨⟨results', err⟩, w₅, h₅, h⟩ := bind_ok.mp h
    obtain ⟨heq, rfl⟩ := pure_ok.mp h
    obtain rfl := (Prod.mk.inj heq).2
    rw [Bool.true_or] at h₅
    exact ih h₅

section

variable [LinearOrder Q] (app : Application X Q)

/-- An operation that was checked and succeeds. -/
theorem doApply_moves {sourceID : AccountID} {body : OperationBody} {tr : OperationResultTr}
    (hmerge : ∀ destination, body = .ACCOUNT_MERGE destination → sourceID ≠ destination)
    (hv : 8 ≤ w.ltx.header.ledgerVersion) (h : doApply app sourceID body w = .ok tr w')
    (hsucceeded : tr.succeeded = true) : Moves 0 w.ltx w'.ltx := by
  cases body with
  | CREATE_ACCOUNT destination startingBalance =>
    obtain ⟨code, hcode, rfl⟩ := map_ok.mp h
    rw [of_decide_eq_true hsucceeded] at hcode
    exact CreateAccountOpFrame.doApply_moves hv hcode
  | PAYMENT destination asset amount =>
    obtain ⟨code, hcode, rfl⟩ := map_ok.mp h
    rw [of_decide_eq_true hsucceeded] at hcode
    exact PaymentOpFrame.doApply_moves app hv hcode
  | PATH_PAYMENT op =>
    obtain ⟨code, hcode, rfl⟩ := map_ok.mp h
    rw [of_decide_eq_true hsucceeded] at hcode
    exact PathPaymentOpFrame.doApply_moves app hv hcode
  | MANAGE_OFFER op =>
    obtain ⟨code, hcode, rfl⟩ := map_ok.mp h
    exact ManageOfferOpFrame.doApply_moves app hv hcode
  | CREATE_PASSIVE_OFFER op =>
    obtain ⟨code, hcode, rfl⟩ := map_ok.mp h
    exact ManageOfferOpFrame.doApply_moves app hv hcode
  | SET_OPTIONS op =>
    obtain ⟨code, hcode, rfl⟩ := map_ok.mp h
    exact SetOptionsOpFrame.doApply_moves hv hcode
  | CHANGE_TRUST line limit =>
    obtain ⟨code, hcode, rfl⟩ := map_ok.mp h
    rw [of_decide_eq_true hsucceeded] at hcode
    exact ChangeTrustOpFrame.doApply_moves hv hcode
  | ALLOW_TRUST trustor asset authorize =>
    obtain ⟨code, hcode, rfl⟩ := map_ok.mp h
    rw [of_decide_eq_true hsucceeded] at hcode
    exact AllowTrustOpFrame.doApply_moves hv hcode
  | ACCOUNT_MERGE destination =>
    obtain ⟨code, hcode, rfl⟩ := map_ok.mp h
    rw [of_decide_eq_true hsucceeded] at hcode
    exact MergeOpFrame.doApply_moves (hmerge destination rfl) hv hcode
  | INFLATION =>
    obtain ⟨code, hcode, rfl⟩ := map_ok.mp h
    exact InflationOpFrame.doApply_moves hv hcode
  | MANAGE_DATA dataName dataValue =>
    obtain ⟨code, hcode, rfl⟩ := map_ok.mp h
    rw [of_decide_eq_true hsucceeded] at hcode
    exact ManageDataOpFrame.doApply_moves hv hcode
  | BUMP_SEQUENCE bumpTo =>
    obtain ⟨code, hcode, rfl⟩ := map_ok.mp h
    exact BumpSequenceOpFrame.doApply_moves hv hcode
  | MARK_ACCOUNT marker =>
    obtain ⟨code, hcode, rfl⟩ := map_ok.mp h
    exact MarkAccountOpFrame.doApply_moves hcode

/-- A merge that passes its checks is with another account. -/
theorem ne_of_checkValid {txSource : AccountID} {op : Operation} {destination : AccountID}
    (hbody : op.body = .ACCOUNT_MERGE destination)
    (h : OperationFrame.checkValid app (makeHelper app txSource op) true w = .ok none w') :
    op.sourceAccount.getD txSource ≠ destination := by
  obtain ⟨w₁, h, -⟩ := rolledBack_ok.mp h
  obtain ⟨header, w₂, -, h⟩ := bind_ok.mp h
  obtain ⟨checked, w₃, -, h⟩ := bind_ok.mp h
  cases checked with
  | some res => cases (pure_ok.mp h).1
  | none =>
    obtain ⟨tr, w₄, h₄, h⟩ := bind_ok.mp h
    have htr : tr = none := by
      cases tr with
      | none => rfl
      | some tr => cases (pure_ok.mp h).1
    intro heq
    unfold onExt makeHelper doCheckValid at h₄
    rw [hbody, heq] at h₄
    simp only [MergeOpFrame.doCheckValid, if_true] at h₄
    cases h₄
    cases htr

theorem operation_moves {txSource : AccountID} {op : Operation} {res : OperationResult}
    (hv : 8 ≤ w.ltx.header.ledgerVersion)
    (h : OperationFrame.apply app (makeHelper app txSource op) w = .ok res w') (hsucceeded : res.succeeded = true) :
    Moves 0 w.ltx w'.ltx := by
  obtain ⟨checked, w₁, h₁, h⟩ := bind_ok.mp h
  have hltx := (reads_rolledBack _).ltx hv h₁
  rw [← hltx] at hv ⊢
  cases checked with
  | some code =>
    obtain ⟨-, rfl⟩ := pure_ok.mp h
    exact .refl _
  | none =>
    obtain ⟨tr, w₂, h₂, h⟩ := bind_ok.mp h
    obtain ⟨rfl, rfl⟩ := pure_ok.mp h
    exact doApply_moves app (fun destination hbody => ne_of_checkValid app hbody h₁) hv h₂ hsucceeded

/-- All operations together, if none of them fails. -/
theorem applyEach_moves {txSource : AccountID} (ops : List Operation) {results : List OperationResult}
    (hv : 8 ≤ w.ltx.header.ledgerVersion)
    (h : applyEach app (ops.map (makeHelper app txSource)) false w = .ok (results, false) w') :
    Moves 0 w.ltx w'.ltx := by
  induction ops generalizing results w with
  | nil =>
    obtain ⟨-, rfl⟩ := pure_ok.mp h
    exact .refl _
  | cons op ops ih =>
    obtain ⟨before, w₁, h₁, h⟩ := bind_ok.mp h
    obtain ⟨rfl, rfl⟩ := getLedger_ok.mp h₁
    obtain ⟨res, w₁, h₁, h⟩ := bind_ok.mp h
    obtain ⟨ltx, w₂, h₂, h⟩ := bind_ok.mp h
    obtain ⟨rfl, rfl⟩ := getLedger_ok.mp h₂
    obtain ⟨_, w₂, h₂, h⟩ := bind_ok.mp h
    obtain ⟨-, rfl⟩ := lift_ok.mp h₂
    obtain ⟨⟨results', err⟩, w₂, h₂, h⟩ := bind_ok.mp h
    obtain ⟨heq, rfl⟩ := pure_ok.mp h
    obtain rfl := (Prod.mk.inj heq).2
    cases hres : res.succeeded with
    | false =>
      rw [hres] at h₂
      cases applyEach_error app _ h₂
    | true =>
      rw [hres] at h₂
      have hm := operation_moves app hv (committed_ok.mp h₁) hres
      exact (hm.trans (ih (by rwa [hm.version]) h₂)).cast (add_zero 0)

end

/-! ## One-time signers and sequence numbers -/

theorem removeAccountSigner_step {header : LedgerHeader} {acc acc' : AccountEntry} {key : SignerKey}
    {changed : Bool} (h : removeAccountSigner header acc key = .ok (acc', changed)) : AccountStep 0 acc acc' := by
  unfold removeAccountSigner at h
  split at h
  case isTrue hany =>
    obtain ⟨res, hres, h⟩ := except_bind_ok.mp h
    cases res with
    | none => cases h
    | some acc₁ =>
      cases except_pure_ok.mp h
      have hs := AccountStep.addNumEntries (.inr rfl) hres
      obtain ⟨-, ⟨hnone, -⟩ | hsome⟩ := addNumEntries_ok hres
      · cases hnone
      · obtain ⟨n, rfl⟩ : ∃ n, acc₁ = { acc with numSubEntries := n } := ⟨_, Option.some.inj hsome⟩
        refine ⟨hs.accountID, hs.seqNum, hs.balance.trans (by simp), hs.fits, fun hfit => ?_⟩
        obtain ⟨hfit', hcount⟩ := hs.counts hfit
        refine ⟨hfit', ?_⟩
        obtain ⟨s, hs, hkey⟩ := List.any_eq_true.mp hany
        have hlength := List.length_eraseP_of_mem (p := fun s : Signer => decide (s.key = key)) hs hkey
        have hpos : 0 < acc.signers.length := List.length_pos_of_mem hs
        simp only [hlength, Prod.snd_zero]
        dsimp only at hcount
        push_cast [Nat.cast_pred hpos]
        linarith
  case isFalse =>
    cases except_pure_ok.mp h
    exact .refl _

theorem removeFirstSigner_step {header : LedgerHeader} {acc acc' : AccountEntry} (keys : List SignerKey)
    {changed : Bool} (h : removeFirstSigner header acc keys = .ok (acc', changed)) : AccountStep 0 acc acc' := by
  induction keys generalizing acc with
  | nil =>
    cases except_pure_ok.mp h
    exact .refl _
  | cons key keys ih =>
    obtain ⟨⟨acc₁, changed₁⟩, h₁, h⟩ := except_bind_ok.mp h
    have hs := removeAccountSigner_step h₁
    dsimp only at h
    split at h
    · cases except_pure_ok.mp h
      exact hs
    · exact (hs.trans (ih h)).cast (add_zero 0)

theorem removeUsedOneTimeSignerKeysOf_moves {a : AccountID} {keys : Finset SignerKey}
    (hv : 8 ≤ w.ltx.header.ledgerVersion) (h : removeUsedOneTimeSignerKeysOf a keys w = .ok () w') :
    Moves 0 w.ltx w'.ltx := by
  obtain ⟨res, w₁, h₁, h⟩ := bind_ok.mp h
  obtain ⟨hacc, rfl⟩ := loadAccount_ok.mp h₁
  have hltx := w.ltx_load (.account a)
  rw [← hltx] at hv hacc ⊢
  cases res with
  | none =>
    obtain ⟨-, rfl⟩ := pure_ok.mp h
    exact .refl _
  | some acc =>
    obtain ⟨header, w₂, h₂, h⟩ := bind_ok.mp h
    obtain ⟨rfl, rfl⟩ := loadHeader_ok.mp h₂
    obtain ⟨⟨acc', changed⟩, w₂, h₂, h⟩ := bind_ok.mp h
    obtain ⟨hremove, rfl⟩ := lift_ok.mp h₂
    dsimp only at h
    split at h
    · have hs := removeFirstSigner_step _ hremove
      have hs' : AccountStep 0 acc (normalizeSigners acc') :=
        (hs.trans (SetOptionsOpFrame.step_normalizeSigners acc' acc'.signers rfl)).cast (add_zero 0)
      rw [assigns_storeAccount _ _ _ hv h]
      exact (Moves.account (held_of_account hacc) hs').cast (by simp)
    · obtain ⟨-, rfl⟩ := pure_ok.mp h
      exact .refl _

theorem removeUsedOneTimeSignerKeys_moves (accounts : List AccountID) (hv : 8 ≤ w.ltx.header.ledgerVersion)
    (h : removeUsedOneTimeSignerKeys accounts w = .ok () w') : Moves 0 w.ltx w'.ltx := by
  induction accounts generalizing w with
  | nil =>
    obtain ⟨-, rfl⟩ := pure_ok.mp h
    exact .refl _
  | cons a accounts ih =>
    obtain ⟨w₁, w₂, h₁, h⟩ := bind_ok.mp h
    obtain ⟨rfl, rfl⟩ := get_ok.mp h₁
    obtain ⟨_, w₂, h₂, h⟩ := bind_ok.mp h
    have hm : Moves 0 w.ltx w₂.ltx := by
      split at h₂
      · exact removeUsedOneTimeSignerKeysOf_moves hv h₂
      · exact .of_eq (by rw [(pure_ok.mp h₂).2])
    exact (hm.trans (ih (by rwa [hm.version]) h)).cast (add_zero 0)

theorem processSeqNum_moves {tx : Transaction} (h : processSeqNum tx w = .ok () w') : Moves 0 w.ltx w'.ltx := by
  by_cases hv10 : 10 ≤ w.ltx.header.ledgerVersion
  · obtain ⟨acc, hacc, hle, rfl⟩ := processSeqNum_ok hv10 h
    have hs : AccountStep 0 acc { acc with seqNum := tx.seqNum } := .of_eq rfl hle rfl rfl rfl
    exact (Moves.account (held_of_account hacc) hs).cast (by simp)
  · obtain ⟨header, w₁, h₁, h⟩ := bind_ok.mp h
    obtain ⟨rfl, rfl⟩ := loadHeader_ok.mp h₁
    rw [if_neg hv10] at h
    exact .of_eq (by rw [(pure_ok.mp h).2])

/-! ## Fees -/

/-- What is left of a balance after the fee, where the balance is an amount. -/
theorem charged_eq {balance : ℤ} {fee : ℕ} {charged : Option ℤ} (hfit : balance ≤ INT64_MAX)
    (h : Numeric.addBalance balance (-min balance fee) INT64_MAX = .ok charged) :
    charged = some (balance - min balance fee) ∧ IsAmount (balance - min balance fee) := by
  obtain ⟨_, hbalance, h⟩ := except_bind_ok.mp h
  obtain ⟨_, -, h⟩ := except_bind_ok.mp h
  have hbalance := assert_ok.mp hbalance
  have hmin : 0 ≤ min balance (fee : ℤ) := le_min hbalance (Int.natCast_nonneg fee)
  have hle : min balance (fee : ℤ) ≤ balance := min_le_left _ _
  refine ⟨?_, by omega, by omega⟩
  rw [← except_pure_ok.mp h]
  split_ifs
  · congr 1
    omega
  · omega
  · omega
  · rw [sub_eq_add_neg]

/-- The fee goes from the account to the pool, whatever the account can pay. -/
theorem processFeeSeqNum_moves {tx : Transaction} {fee : ℤ} (hv : 8 ≤ w.ltx.header.ledgerVersion)
    (h : processFeeSeqNum tx w = .ok fee w') : Moves 0 w.ltx w'.ltx := by
  obtain ⟨_, w₁, h₁, h⟩ := bind_ok.mp h
  obtain rfl := modify_ok.mp h₁
  obtain ⟨header, w₂, h₂, h⟩ := bind_ok.mp h
  obtain ⟨rfl, rfl⟩ := loadHeader_ok.mp h₂
  obtain ⟨res, w₂, h₂, h⟩ := bind_ok.mp h
  obtain ⟨hacc, rfl⟩ := (loadSourceAccount_ok (w := { w with mCachedAccount := none }) hv).mp h₂
  cases res with
  | none => exact absurd h throw_ok
  | some acc =>
    dsimp only at hacc h
    obtain ⟨charged, w₃, h₃, h⟩ := bind_ok.mp h
    have hltx₃ : w₃.ltx = w.ltx := by
      refine Eq.trans ?_ (World.ltx_load { w with mCachedAccount := none } (.account tx.sourceAccount))
      split at h₃
      · rw [(lift_ok.mp h₃).2]
      · rw [(pure_ok.mp h₃).2]
    have hcharged : IsAmount acc.balance → IsAmount (charged.getD acc.balance) ∧
        charged.getD acc.balance = acc.balance - if (0 : ℤ) < tx.fee then min acc.balance tx.fee else 0 := by
      intro hfit
      split at h₃
      case isTrue hpos =>
        obtain ⟨heq, hamount⟩ := charged_eq hfit.2 (lift_ok.mp h₃).1
        rw [heq, if_pos hpos, Option.getD_some]
        exact ⟨hamount, rfl⟩
      case isFalse hzero =>
        rw [← (pure_ok.mp h₃).1, if_neg hzero, sub_zero, Option.getD_some]
        exact ⟨hfit, rfl⟩
    obtain ⟨_, w₄, h₄, h⟩ := bind_ok.mp h
    obtain rfl := storeHeader_ok.mp h₄
    -- the account is stored once, up to version 9 with the next sequence number
    obtain ⟨seqNum, header, hseq, hput, hversion, hledger, htotal, hfits, hpool⟩ : ∃ seqNum header, acc.seqNum ≤ seqNum ∧
        w'.ltx = AbstractLedgerTxn.put { w₃.ltx with header := header }
          (.account { acc with balance := charged.getD acc.balance, seqNum := seqNum }) ∧
        header.ledgerVersion = w.ltx.header.ledgerVersion ∧ header.ledgerSeq = w.ltx.header.ledgerSeq ∧
        header.totalCoins = w.ltx.header.totalCoins ∧
        (FitsInt64 w.ltx.header.feePool → FitsInt64 header.feePool) ∧
        header.feePool ≡ w.ltx.header.feePool + (if (0 : ℤ) < tx.fee then min acc.balance tx.fee else 0)
          [ZMOD 2 ^ 64] := by
      have hfits : ∀ charge, FitsInt64 w.ltx.header.feePool → FitsInt64
          (if (0 : ℤ) < tx.fee then toInt64 (w.ltx.header.feePool + charge) else w.ltx.header.feePool) := by
        intro charge hfit
        split_ifs
        · exact fitsInt64_toInt64 _
        · exact hfit
      have hpool : (if (0 : ℤ) < tx.fee then
            toInt64 (w.ltx.header.feePool + if (0 : ℤ) < tx.fee then min acc.balance tx.fee else tx.fee)
          else w.ltx.header.feePool)
          ≡ w.ltx.header.feePool + (if (0 : ℤ) < tx.fee then min acc.balance tx.fee else 0)
            [ZMOD 2 ^ 64] := by
        split_ifs
        · exact toInt64_modEq _
        · rw [add_zero]
      split at h
      · obtain ⟨_, w₄, h₄, h⟩ := bind_ok.mp h
        obtain ⟨hnext, rfl⟩ := lift_ok.mp h₄
        obtain ⟨_, w₄, h₄, h⟩ := bind_ok.mp h
        obtain ⟨-, rfl⟩ := pure_ok.mp h
        have hput := assigns_storeCached _ _ _ (by exact hv) h₄
        refine ⟨tx.seqNum, _, ?_, hput, rfl, rfl, rfl, hfits _, hpool⟩
        have hnext := throwIf_ok.mp hnext
        omega
      · obtain ⟨_, w₄, h₄, h⟩ := bind_ok.mp h
        obtain ⟨-, rfl⟩ := pure_ok.mp h
        have hput := assigns_storeCached _ _ _ (by exact hv) h₄
        exact ⟨acc.seqNum, _, le_rfl, hput, rfl, rfl, rfl, hfits _, hpool⟩
    rw [hput, hltx₃]
    have hstep : AccountStep (charged.getD acc.balance - acc.balance, 0) acc
        { acc with balance := charged.getD acc.balance, seqNum := seqNum } :=
      ⟨rfl, hseq, by ring, fun hfit => (hcharged hfit).1, fun hnum => ⟨hnum, by simp⟩⟩
    have haccount : Moves _ { w.ltx with header := header } _ := .account (held_of_account hacc) hstep
    have hheader : Moves _ w.ltx { w.ltx with header := header } := .header hversion hledger fun hfit =>
      ⟨hfits hfit.feePool, htotal ▸ hfit.totalCoins⟩
    refine (hheader.trans haccount).of_fits (by simp) fun hfit => ?_
    rw [Prod.fst_add, Prod.fst_zero, (hcharged (hfit.balances _ _ hacc)).2, htotal]
    refine (((hpool.sub_right _).sub_right _).add_right _).trans (congrArg (· % 2 ^ 64) ?_)
    ring

/-! ## Transactions -/

theorem reads_startChecker (app : Application X Q) (envelope : TransactionEnvelope) :
    Reads (startChecker app envelope) :=
  .modify fun _ _ => rfl

section

variable [LinearOrder Q] (app : Application X Q)

theorem processSignatures_moves {tx : Transaction} {code : TransactionResultCode} {res : TransactionResult × Bool}
    (hv : 8 ≤ w.ltx.header.ledgerVersion) (h : processSignatures app tx code w = .ok res w') :
    Moves 0 w.ltx w'.ltx := by
  obtain ⟨header, w₁, h₁, h⟩ := bind_ok.mp h
  obtain ⟨rfl, rfl⟩ := loadHeader_ok.mp h₁
  split at h
  · exact .of_eq (by rw [(pure_ok.mp h).2])
  · obtain ⟨⟨results, allOpsValid⟩, w₁, h₁, h⟩ := bind_ok.mp h
    have hltx := (reads_rolledBack _).ltx hv h₁
    rw [← hltx] at hv ⊢
    obtain ⟨_, w₂, h₂, h⟩ := bind_ok.mp h
    have hm := removeUsedOneTimeSignerKeys_moves _ hv h₂
    have hkept : w'.ltx = w₂.ltx := by
      split at h
      · obtain ⟨result, w₃, h₃, h⟩ := bind_ok.mp h
        rw [← (pure_ok.mp h).2, (lift_ok.mp h₃).2]
      · obtain ⟨now, w₃, h₃, h⟩ := bind_ok.mp h
        obtain ⟨rfl, rfl⟩ := get_ok.mp h₃
        split at h <;> rw [(pure_ok.mp h).2]
    rwa [hkept]

/-- What stays of the first half: the sequence number, and that used signers are gone. -/
theorem balances_validate (tx : Transaction) : Balances (validate app tx) := by
  refine balances_committed fun w res w' hv h => ?_
  obtain ⟨⟨cv, code⟩, w₁, h₁, h⟩ := bind_ok.mp h
  have hltx := (reads_rolledBack _).ltx hv h₁
  rw [← hltx] at hv ⊢
  obtain ⟨_, w₂, h₂, h⟩ := bind_ok.mp h
  have hm : Moves 0 w₁.ltx w₂.ltx := by
    split at h₂
    · exact processSeqNum_moves h₂
    · exact .of_eq (by rw [(pure_ok.mp h₂).2])
  dsimp only at h
  split at h
  · obtain ⟨⟨result, signaturesValid⟩, w₃, h₃, h⟩ := bind_ok.mp h
    obtain ⟨-, rfl⟩ := pure_ok.mp h
    exact (hm.trans (processSignatures_moves app (by rwa [hm.version]) h₃)).cast (add_zero 0)
  · obtain ⟨-, rfl⟩ := pure_ok.mp h
    exact hm

theorem removeSignersAfterOperations_moves {tx : Transaction} {used : Bool} (hv : 8 ≤ w.ltx.header.ledgerVersion)
    (h : removeSignersAfterOperations tx w = .ok used w') : Moves 0 w.ltx w'.ltx := by
  obtain ⟨header, w₁, h₁, h⟩ := bind_ok.mp h
  obtain ⟨rfl, rfl⟩ := loadHeader_ok.mp h₁
  split at h
  · exact .of_eq (by rw [(pure_ok.mp h).2])
  · obtain ⟨now, w₁, h₁, h⟩ := bind_ok.mp h
    obtain ⟨rfl, rfl⟩ := get_ok.mp h₁
    split at h
    · exact .of_eq (by rw [(pure_ok.mp h).2])
    · obtain ⟨_, w₁, h₁, h⟩ := bind_ok.mp h
      obtain ⟨-, rfl⟩ := pure_ok.mp h
      exact removeUsedOneTimeSignerKeys_moves _ hv h₁

/-- All operations or none. -/
theorem balances_applyOperations (tx : Transaction) : Balances (applyOperations app tx) := by
  refine balances_committedIf fun w res w' hv h => ?_
  obtain ⟨⟨results, errorEncountered⟩, w₁, h₁, h⟩ := bind_ok.mp h
  dsimp only at h
  split at h
  · cases (pure_ok.mp h).1
  · obtain rfl : errorEncountered = false := eq_false_of_ne_true ‹_›
    have hm := applyEach_moves app tx.operations hv h₁
    obtain ⟨used, w₂, h₂, h⟩ := bind_ok.mp h
    have hm' := removeSignersAfterOperations_moves (by rwa [hm.version]) h₂
    have heq : w' = w₂ := by
      split at h <;> exact (pure_ok.mp h).2.symm
    rw [heq]
    exact (hm.trans hm').cast (add_zero 0)

/-- A transaction moves nothing, however it ends. -/
theorem balances_apply (envelope : TransactionEnvelope) : Balances (apply app envelope) := by
  refine (reads_startChecker app envelope).balances.bind fun _ => ?_
  refine (balances_validate app envelope.tx).bind fun ⟨result, valid⟩ => ?_
  exact .ite (fun _ => balances_applyOperations app envelope.tx) fun _ => .pure _

end

end ZaggCore.Transactions
