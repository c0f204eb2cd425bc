import Mathlib
import ZaggCore.Foundations.Replay
import ZaggCore.Transactions.TransactionFrame

/-! # Checking a transaction again

`checkValid` leaves the ledger as it was, but it sends the raw transactions of mark operations to the
bitcoin node. What a check that succeeded says holds later as well if the node takes again what it has
taken: nothing else a check looks at is outside of the ledger. -/

namespace ZaggCore.Transactions
set_option autoImplicit false
set_option maxHeartbeats 250000

open Foundations Numeric Signatures

variable {X Q : Type}

/-! ## The bitcoin node -/

section Node

variable (app : Application X Q)

/-- The node takes the raw transaction in this state. -/
def Takes (x : X) (marker : AccountMarker) : Prop :=
  ∃ x', app.SendRawTransactionZagg marker x = .ok true x'

/-- States of the node with transactions sent to it in between. -/
inductive Sent : X → X → Prop where
  | refl (x : X) : Sent x x
  | step {x x' x'' : X} {marker : AccountMarker} {res : Bool} (h : Sent x x')
      (hsend : app.SendRawTransactionZagg marker x' = .ok res x'') : Sent x x''

instance : Std.Refl (Sent app) := ⟨Sent.refl⟩

instance : IsTrans X (Sent app) := by
  refine ⟨fun x x' x'' h h' => ?_⟩
  induction h' with
  | refl => exact h
  | step _ hsend ih => exact .step ih hsend

/-- "`sendrawtransaction`" may be repeated: what the node has taken it takes again, whatever was sent to it in
between. -/
def Remembers : Prop :=
  ∀ marker x x' x'', app.SendRawTransactionZagg marker x = .ok true x' → Sent app x' x'' →
    Takes app x'' marker

end Node

/-- The state of the node in a `World`. -/
def extPart : Part (World X) X where
  get w := w.ext
  set w e := { w with ext := e }
  get_set _ _ := rfl
  set_get _ := rfl
  set_set _ _ _ := rfl

/-! ## What does not ask the node -/

section Inert

theorem inert_getLedger : Inert extPart (getLedger : AppM X AbstractLedgerTxn) := fun _ _ => rfl

theorem inert_loadHeader : Inert extPart (loadHeader : AppM X LedgerHeader) := fun _ _ => rfl

theorem load_set (w : World X) (e : X) (key : LedgerKey) :
    (extPart.set w e).load key = extPart.set (w.load key) e := by
  unfold World.load
  split_ifs <;> first | rfl | contradiction

theorem inert_loadAccount (accountID : AccountID) :
    Inert extPart (loadAccount accountID : AppM X (Option AccountEntry)) := fun w e =>
  congrArg (EStateM.Result.ok _) (load_set w e _)

theorem inert_current {α : Type} (entry : Option α) : Inert extPart (current entry : AppM X α) := by
  cases entry <;> exact fun _ _ => rfl

theorem inert_storeAccount (acc : AccountEntry) :
    Inert extPart (storeAccount acc : AppM X Unit) := fun _ _ => rfl

theorem inert_create (e : LedgerEntryData) : Inert extPart (create e : AppM X Unit) := by
  intro w x
  have hsame : (extPart.set w x).ltx.getNewestVersion e.key = w.ltx.getNewestVersion e.key := rfl
  unfold create
  rw [hsame]
  cases w.ltx.getNewestVersion e.key <;> rfl

/-- What is read of the world is not the state of the node. -/
theorem inert_get_bind {α : Type} {f : World X → AppM X α}
    (hread : ∀ w e, f (extPart.set w e) = f w) (hf : ∀ w, Inert extPart (f w)) :
    Inert extPart ((get : AppM X (World X)) >>= f) := by
  intro w e
  change f (extPart.set w e) (extPart.set w e) = extPart.onResult e (f w w)
  rw [hread w e]
  exact hf w w e

theorem inert_modify {g : World X → World X} (hg : ∀ w e, g (extPart.set w e) = extPart.set (g w) e) :
    Inert extPart (modify g : AppM X PUnit) := fun w e =>
  congrArg (EStateM.Result.ok PUnit.unit) (hg w e)

theorem inert_rolledBack {α : Type} {x : AppM X α} (hx : Inert extPart x) :
    Inert extPart (rolledBack World.restore x) :=
  hx.rolledBack fun _ _ _ => rfl

theorem inert_loadAccountCached (accountID : AccountID) :
    Inert extPart (loadAccountCached accountID : AppM X (Option AccountEntry)) := by
  refine inert_loadHeader.bind fun header => ?_
  refine inert_get_bind (fun _ _ => rfl) fun w => ?_
  cases w.mCachedAccount with
  | none => exact inert_loadAccount accountID
  | some cached =>
    refine Inert.ite ?_ (inert_loadAccount accountID)
    refine (inert_loadAccount accountID).bind fun acc => ?_
    cases acc with
    | none => exact (inert_create _).bind fun _ => Inert.pure _
    | some _ => exact (inert_storeAccount cached).bind fun _ => Inert.pure _

theorem inert_loadSourceAccount (sourceID : AccountID) :
    Inert extPart (loadSourceAccount sourceID : AppM X (Option AccountEntry)) := by
  refine (inert_loadAccountCached sourceID).bind fun res => ?_
  refine inert_loadHeader.bind fun header => ?_
  refine Inert.ite ?_ (Inert.pure _)
  exact (inert_modify fun _ _ => rfl).bind fun _ => Inert.pure _

variable (app : Application X Q)

theorem inert_checkSignature (account : AccountEntry) (neededWeight : ℤ) :
    Inert extPart (checkSignature app account neededWeight) := fun _ _ => rfl

theorem inert_checkSignatureNoAccount (accountID : AccountID) :
    Inert extPart (checkSignatureNoAccount app accountID) := fun _ _ => rfl

theorem inert_commonValidPreSeqNum (tx : Transaction) :
    Inert extPart (commonValidPreSeqNum tx : AppM X (Option TransactionResultCode)) := by
  refine Inert.ite (Inert.pure _) ?_
  refine inert_getLedger.bind fun ltx => ?_
  refine Inert.ite (Inert.pure _) (Inert.ite (Inert.pure _) (Inert.ite (Inert.pure _) ?_))
  exact (inert_loadSourceAccount _).bind fun acc => Inert.ite (Inert.pure _) (Inert.pure _)

theorem inert_commonValid (tx : Transaction) (current : ℤ) (applying : Bool) :
    Inert extPart (commonValid app tx current applying) := by
  refine inert_rolledBack ((inert_commonValidPreSeqNum tx).bind fun code => ?_)
  cases code with
  | some code => exact Inert.pure _
  | none =>
    refine inert_loadHeader.bind fun header => ?_
    refine (inert_loadSourceAccount _).bind fun acc => (inert_current acc).bind fun acc => ?_
    refine Inert.ite (Inert.pure _) ?_
    refine (inert_checkSignature app acc _).bind fun ok => Inert.ite (Inert.pure _) ?_
    exact Inert.ite (Inert.pure _) (Inert.pure _)

theorem inert_opCheckSignature (op : OperationFrame X) (forApply : Bool) :
    Inert extPart (OperationFrame.checkSignature app op forApply) := by
  refine (inert_loadAccountCached _).bind fun acc => ?_
  cases acc with
  | some acc =>
    exact (inert_checkSignature app acc _).bind fun ok => Inert.ite (Inert.pure _) (Inert.pure _)
  | none =>
    refine Inert.ite (Inert.pure _) ?_
    exact (inert_checkSignatureNoAccount app _).bind fun ok => Inert.ite (Inert.pure _) (Inert.pure _)

theorem inert_checkSource (op : OperationFrame X) (forApply : Bool) (ledgerVersion : ℕ) :
    Inert extPart (OperationFrame.checkSource app op forApply ledgerVersion) := by
  refine Inert.ite (inert_opCheckSignature app op forApply) ?_
  refine (inert_loadAccountCached _).bind fun acc => ?_
  cases acc <;> exact Inert.pure _

end Inert

/-! ## What asks the node -/

section Replays

variable {app : Application X Q}

theorem restore_set (w w' : World X) (e e' : X) :
    World.restore (extPart.set w e) (extPart.set w' e') = extPart.set (w.restore w') e' := rfl

theorem onExt_ok {α : Type} {x : EStateM Exception X α} {w w' : World X} {a : α} :
    onExt x w = .ok a w' ↔ ∃ e, x w.ext = .ok a e ∧ extPart.set w e = w' := by
  unfold onExt
  cases x w.ext <;> simp [extPart]

theorem doCheckValid_none {marker : AccountMarker} {x x' : X} :
    MarkAccountOpFrame.doCheckValid app marker x = .ok none x' ↔
      app.SendRawTransactionZagg marker x = .ok true x' := by
  unfold MarkAccountOpFrame.doCheckValid
  rw [bind_ok]
  constructor
  · rintro ⟨taken, x₁, hsend, hres⟩
    cases taken with
    | false => simp [pure_ok] at hres
    | true =>
      obtain ⟨-, rfl⟩ := pure_ok.mp hres
      exact hsend
  · intro hsend
    exact ⟨true, x', hsend, rfl⟩

variable (app) in
/-- A raw transaction that was taken is taken again by a node that is beyond the state it was left in. -/
def MarksAgain (le : X → X → Prop) : Prop :=
  ∀ marker, Replays extPart le (· = none)
    (onExt (MarkAccountOpFrame.doCheckValid app marker) : AppM X _)

theorem marks_of_remembers (node : Remembers app) : MarksAgain app (Sent app) := by
  rintro marker w res w' h rfl
  obtain ⟨x, hcheck, rfl⟩ := onExt_ok.mp h
  have hsend := doCheckValid_none.mp hcheck
  refine ⟨.step (.refl _) hsend, fun e he => ?_⟩
  obtain ⟨e', hagain⟩ := node marker _ _ e hsend he
  exact ⟨e', .step (.refl _) hagain, onExt_ok.mpr ⟨e', doCheckValid_none.mpr hagain, rfl⟩⟩

theorem inert_onExt_pure {α : Type} (a : α) :
    Inert extPart (onExt (pure a) : AppM X α) := fun _ _ => rfl

variable {le : X → X → Prop} [Std.Refl le] [IsTrans X le]

omit [IsTrans X le] in
/-- Among the operations only a mark asks the node. -/
theorem replays_doCheckValid (node : MarksAgain app le) (sourceID : AccountID) (body : OperationBody)
    (ledgerVersion : ℕ) :
    Replays extPart le (· = none)
      (onExt (doCheckValid app sourceID body ledgerVersion) : AppM X _) := by
  cases body with
  | MARK_ACCOUNT marker =>
    rintro w res w' h rfl
    obtain ⟨x, hcheck, rfl⟩ := onExt_ok.mp h
    obtain ⟨code, x₁, hmark, hcode⟩ := bind_ok.mp hcheck
    obtain ⟨hnone, rfl⟩ := pure_ok.mp hcode
    rw [Option.map_eq_none_iff] at hnone
    subst hnone
    obtain ⟨hle, again⟩ := node marker w none _ (onExt_ok.mpr ⟨x₁, hmark, rfl⟩) rfl
    refine ⟨hle, fun e he => ?_⟩
    obtain ⟨e', he', hrun⟩ := again e he
    obtain ⟨x₂, hmark', heq⟩ := onExt_ok.mp hrun
    refine ⟨e', he', onExt_ok.mpr ⟨x₂, bind_ok.mpr ⟨none, x₂, hmark', rfl⟩, heq⟩⟩
  | _ => exact (inert_onExt_pure _).replays

theorem inert_startChecker (envelope : TransactionEnvelope) :
    Inert extPart (startChecker app envelope) :=
  inert_modify fun _ _ => rfl

variable [LinearOrder Q]

theorem replays_opCheckValid (node : MarksAgain app le) (txSource : AccountID) (op : Operation) :
    Replays extPart le (· = none)
      (OperationFrame.checkValid app (makeHelper app txSource op) false) := by
  refine Replays.rolledBack restore_set (fun _ _ => rfl) ?_
  refine inert_loadHeader.bind_replays fun header => ?_
  refine (inert_checkSource app _ _ _).bind_replays fun res => ?_
  cases res with
  | some res => exact Replays.pure _
  | none =>
    refine (replays_doCheckValid node _ _ _).bind (fun tr => Replays.pure _) ?_
    intro tr w res w' h hres
    obtain ⟨rfl, -⟩ := pure_ok.mp h
    exact Option.map_eq_none_iff.mp hres

theorem replays_checkOperations (node : MarksAgain app le) (txSource : AccountID)
    (ops : List Operation) :
    Replays extPart le (· = none)
      (checkOperations app (ops.map (makeHelper app txSource))) := by
  induction ops with
  | nil => exact Replays.pure _
  | cons op ops ih =>
    refine (replays_opCheckValid node txSource op).bind (fun res => ?_) ?_
    · cases res with
      | some res => exact Replays.pure _
      | none => exact ih
    · intro res w res' w' h hres
      cases res with
      | some res =>
        obtain ⟨rfl, -⟩ := pure_ok.mp h
        cases hres
      | none => rfl

/-- The checker and the cached account that `checkValid` finds make no difference. -/
theorem checkValid_fresh (envelope : TransactionEnvelope) (current : ℤ) (w : World X)
    (acc : Option AccountEntry) (checker : SignatureChecker) :
    checkValid app envelope current { w with mCachedAccount := acc, signatureChecker := checker } =
      checkValid app envelope current w := rfl

/-- A transaction that is valid is valid again. -/
theorem replays_checkValid (node : MarksAgain app le) (envelope : TransactionEnvelope) (current : ℤ) :
    Replays extPart le (· = .txSUCCESS) (checkValid app envelope current) := by
  refine (inert_startChecker envelope).bind_replays fun _ => ?_
  refine Replays.rolledBack restore_set (fun _ _ => rfl) ?_
  refine (inert_commonValid app _ _ _).bind_replays fun cvcode => ?_
  obtain ⟨cv, code⟩ := cvcode
  change Replays _ _ _ (if cv ≠ .kFullyValid then pure code else _)
  by_cases hcv : cv ≠ .kFullyValid
  · rw [if_pos hcv]
    exact Replays.pure _
  · rw [if_neg hcv]
    refine (replays_checkOperations node _ _).bind (fun res => ?_) ?_
    · cases res <;> exact Replays.pure _
    · intro res w code w' h hcode
      cases res with
      | none => rfl
      | some res =>
        obtain ⟨rfl, -⟩ := pure_ok.mp h
        cases hcode

/-- A check leaves the ledger as it was. -/
theorem checkValid_ledger {envelope : TransactionEnvelope} {current : ℤ} {w w' : World X}
    {code : TransactionResultCode} (h : checkValid app envelope current w = .ok code w') :
    w'.ltx = w.ltx ∧ w'.lastModifiedLedgerSeq = w.lastModifiedLedgerSeq := by
  obtain ⟨u, w₁, hstart, hrest⟩ := bind_ok.mp h
  obtain ⟨w₂, -, rfl⟩ := rolledBack_ok.mp hrest
  obtain rfl := modify_ok.mp hstart
  exact ⟨rfl, rfl⟩

end Replays

end ZaggCore.Transactions
