import Mathlib
import ZaggCore.Ledger.LedgerManagerImpl
import ZaggCore.Transactions.CheckAgain
import ZaggCore.Transactions.EntryChanges
import ZaggCore.Transactions.NodeFrames

/-! # What transactions do to the bitcoin node

`MarkAccountOpFrame::doCheckValid` sends a raw transaction and `doApply` makes a block, and no `LedgerTxn`
brings the node back. What was sent and mined is not taken back, so a check or a transaction that is rolled
back has left the node alone exactly if every call it came to did. -/

namespace ZaggCore.Transactions
set_option autoImplicit false
set_option maxHeartbeats 250000

open Foundations Numeric Signatures

variable {X Q : Type}

/-! ## Validation leaves the node aside but for the marks -/

theorem aside_of_inert {α : Type} {x : AppM X α} (h : Inert extPart x) : Aside x := by
  intro w
  have hw := h w w.ext
  change x w = extPart.onResult w.ext (x w) at hw
  unfold SameNode
  rw [hw]
  cases x w <;> rfl

section

variable (app : Application X Q)

theorem aside_startChecker (envelope : TransactionEnvelope) : Aside (startChecker app envelope) :=
  aside_of_inert (inert_startChecker envelope)

theorem aside_processSeqNum (tx : Transaction) : Aside (processSeqNum tx : AppM X Unit) := by
  refine aside_loadHeader.bind fun header => .ite (fun _ => ?_) fun _ => .pure _
  refine (aside_loadSourceAccount _).bind fun acc => (aside_current acc).bind fun acc => ?_
  exact (Keeps.lift _).bind fun _ => aside_storeCached _

theorem aside_removeUsedOneTimeSignerKeysOf (a : AccountID) (keys : Finset SignerKey) :
    Aside (removeUsedOneTimeSignerKeysOf a keys : AppM X Unit) := by
  refine (aside_loadAccount a).bind fun acc => ?_
  cases acc with
  | none => exact .pure _
  | some acc =>
    refine aside_loadHeader.bind fun header => (Keeps.lift _).bind fun res => ?_
    exact .ite (fun _ => aside_storeAccount _) fun _ => .pure _

theorem aside_removeUsedOneTimeSignerKeys (accounts : List AccountID) :
    Aside (removeUsedOneTimeSignerKeys accounts : AppM X Unit) := by
  induction accounts with
  | nil => exact .pure _
  | cons a accounts ih =>
    refine Keeps.get.bind fun w => .bind (.ite (fun _ => ?_) fun _ => .pure _) fun _ => ih
    exact aside_removeUsedOneTimeSignerKeysOf a _

theorem aside_checkSignatures (ops : List (OperationFrame X)) : Aside (checkSignatures app ops) := by
  induction ops with
  | nil => exact .pure _
  | cons op ops ih =>
    have hop := aside_of_inert (inert_opCheckSignature app op false)
    exact hop.bind fun res => ih.bind fun rest => .pure _

variable [LinearOrder Q]

theorem aside_processSignatures (tx : Transaction) (code : TransactionResultCode) :
    Aside (processSignatures app tx code) := by
  refine aside_loadHeader.bind fun header => .ite (fun _ => .pure _) fun _ => ?_
  refine (aside_rolledBack (aside_checkSignatures app _)).bind fun res => ?_
  refine (aside_removeUsedOneTimeSignerKeys _).bind fun _ => .ite (fun _ => ?_) fun _ => ?_
  · exact (Keeps.lift _).bind fun _ => .pure _
  · exact Keeps.get.bind fun w => .ite (fun _ => .pure _) fun _ => .pure _

theorem aside_validate (tx : Transaction) : Aside (validate app tx) := by
  refine aside_committed ((aside_of_inert (inert_commonValid app tx 0 true)).bind fun cv => ?_)
  refine .bind (.ite (fun _ => aside_processSeqNum tx) fun _ => .pure _) fun _ => ?_
  refine .ite (fun _ => ?_) fun _ => .pure _
  exact (aside_processSignatures app tx _).bind fun res => .pure _

end

theorem aside_removeSignersAfterOperations (tx : Transaction) :
    Aside (removeSignersAfterOperations tx : AppM X Bool) := by
  refine aside_loadHeader.bind fun header => .ite (fun _ => .pure _) fun _ => ?_
  refine Keeps.get.bind fun w => .ite (fun _ => .pure _) fun _ => ?_
  exact (aside_removeUsedOneTimeSignerKeys _).bind fun _ => .pure _

/-! ## What is not taken back -/

/-- What the node was sent and what it has mined stays with it: its states only go up. -/
structure Irreversible [PartialOrder X] (app : Application X Q) : Prop where
  send : ∀ marker x, x ≤ after (app.SendRawTransactionZagg marker x)
  mine : ∀ marker x, x ≤ after (app.generateBlocks marker x)

section Rises

variable [PartialOrder X]

/-- The state of the node does not go down. -/
def NodeLE (w w' : World X) : Prop := w.ext ≤ w'.ext

instance : Std.Refl (NodeLE (X := X)) := ⟨fun _ => le_rfl⟩

instance : IsTrans (World X) NodeLE := ⟨fun _ _ _ h h' => h.trans h'⟩

abbrev Rises {α : Type} (x : AppM X α) : Prop := Keeps NodeLE x

theorem rises_of_aside {α : Type} {x : AppM X α} (h : Aside x) : Rises x :=
  h.mono fun _ _ h => h.symm.le

variable {α β : Type} {x : AppM X α} {f : α → AppM X β}

/-- A program of two parts that never go down leaves the node alone if both do. -/
theorem sameNode_bind_iff (hx : Rises x) (hf : ∀ a, Rises (f a)) (w : World X) :
    SameNode w (after ((x >>= f) w)) ↔
      SameNode w (after (x w)) ∧ ∀ a w₁, x w = .ok a w₁ → SameNode w₁ (after (f a w₁)) := by
  change SameNode w (after (EStateM.bind x f w)) ↔ _
  unfold EStateM.bind
  have hrise := hx w
  cases hw : x w with
  | error e w₁ =>
    rw [hw] at hrise
    exact ⟨fun hsame => ⟨hsame, fun a w₂ h => by cases h⟩, fun h => h.1⟩
  | ok a w₁ =>
    rw [hw] at hrise
    constructor
    · intro hsame
      have hle : w₁.ext ≤ w.ext := (hf a w₁).trans_eq hsame
      have heq : w₁.ext = w.ext := le_antisymm hle hrise
      refine ⟨heq, fun a' w₂ h => ?_⟩
      cases h
      exact hsame.trans heq.symm
    · rintro ⟨hfirst, hsecond⟩
      exact (hsecond a w₁ rfl).trans hfirst

end Rises

theorem sameNode_bind_of_aside {α β : Type} {x : AppM X α} {f : α → AppM X β} (hx : Aside x)
    (w : World X) :
    SameNode w (after ((x >>= f) w)) ↔ ∀ a w₁, x w = .ok a w₁ → SameNode w₁ (after (f a w₁)) := by
  change SameNode w (after (EStateM.bind x f w)) ↔ _
  unfold EStateM.bind
  have hsame := hx w
  cases hw : x w with
  | error e w₁ =>
    rw [hw] at hsame
    exact iff_of_true hsame fun a w₂ h => by cases h
  | ok a w₁ =>
    rw [hw] at hsame
    constructor
    · intro h a' w₂ hrun
      cases hrun
      exact h.trans hsame.symm
    · exact fun h => (h a w₁ rfl).trans hsame

section Nested

variable {α β : Type} (w : World X)

theorem after_bind_pure (x : AppM X α) (g : α → β) :
    after ((x >>= fun a => pure (g a)) w) = after (x w) := by
  change after (EStateM.bind x _ w) = _
  unfold EStateM.bind
  cases x w <;> rfl

theorem sameNode_rolledBack (x : AppM X α) :
    SameNode w (after (rolledBack World.restore x w)) ↔ SameNode w (after (x w)) := by
  unfold rolledBack
  cases x w <;> exact Iff.rfl

theorem sameNode_committed (x : AppM X α) :
    SameNode w (after (committed World.restore x w)) ↔ SameNode w (after (x w)) := by
  unfold committed
  cases x w <;> exact Iff.rfl

theorem sameNode_committedIf (x : AppM X (α × Bool)) :
    SameNode w (after (committedIf World.restore x w)) ↔ SameNode w (after (x w)) := by
  unfold committedIf
  rcases x w with ⟨⟨a, _ | _⟩, w₁⟩ | ⟨e, w₁⟩ <;> exact Iff.rfl

end Nested

/-! ## One operation -/

section Operation

variable (app : Application X Q)

theorem after_onExt {α : Type} (x : EStateM Exception X α) (w : World X) :
    (after (onExt x w)).ext = after (x w.ext) := by
  unfold onExt
  cases x w.ext <;> rfl

theorem after_mark_doCheckValid (marker : AccountMarker) (x : X) :
    after (MarkAccountOpFrame.doCheckValid app marker x) = after (app.SendRawTransactionZagg marker x) := by
  change after (EStateM.bind (app.SendRawTransactionZagg marker) _ x) = _
  unfold EStateM.bind
  cases app.SendRawTransactionZagg marker x with
  | error e x' => rfl
  | ok taken x' => cases taken <;> rfl

theorem after_doCheckValid_mark (sourceID : AccountID) (marker : AccountMarker) (ledgerVersion : ℕ)
    (x : X) :
    after (doCheckValid app sourceID (.MARK_ACCOUNT marker) ledgerVersion x) =
      after (app.SendRawTransactionZagg marker x) := by
  rw [← after_mark_doCheckValid]
  change after (EStateM.bind (MarkAccountOpFrame.doCheckValid app marker) _ x) = _
  unfold EStateM.bind
  cases MarkAccountOpFrame.doCheckValid app marker x <;> rfl

theorem after_doCheckValid_of_ne (sourceID : AccountID) {body : OperationBody}
    (h : ∀ marker, body ≠ .MARK_ACCOUNT marker) (ledgerVersion : ℕ) (x : X) :
    after (doCheckValid app sourceID body ledgerVersion x) = x := by
  cases body with
  | MARK_ACCOUNT marker => exact absurd rfl (h marker)
  | _ => rfl

variable [LinearOrder Q] (txSource : AccountID)

/-- Where checking the operation comes to sending a raw transaction, the node is as before. -/
def CheckLeaves (op : Operation) (forApply : Bool) (w : World X) : Prop :=
  ∀ marker, op.body = .MARK_ACCOUNT marker → ∀ w₁,
    OperationFrame.checkSource app (makeHelper app txSource op) forApply w.ltx.header.ledgerVersion w =
        .ok none w₁ →
      after (app.SendRawTransactionZagg marker w.ext) = w.ext

/-- Where applying the operation comes to making a block, the node is as before. -/
def MineLeaves (op : Operation) (w : World X) : Prop :=
  ∀ marker, op.body = .MARK_ACCOUNT marker → ∀ w₁,
    OperationFrame.checkValid app (makeHelper app txSource op) true w = .ok none w₁ →
      after (app.generateBlocks marker w₁.ext) = w₁.ext

theorem checkValid_leaves_iff (op : Operation) (forApply : Bool) (w : World X) :
    SameNode w (after (OperationFrame.checkValid app (makeHelper app txSource op) forApply w)) ↔
      CheckLeaves app txSource op forApply w := by
  unfold OperationFrame.checkValid
  rw [sameNode_rolledBack, sameNode_bind_of_aside aside_loadHeader]
  have hsource := aside_of_inert
    (inert_checkSource app (makeHelper app txSource op) forApply w.ltx.header.ledgerVersion)
  -- Once the source account is in order, what is left is the check of the class.
  have hclass : ∀ w₁, SameNode w₁ (after ((do
      let tr ← onExt ((makeHelper app txSource op).doCheckValid w.ltx.header.ledgerVersion)
      return tr.map OperationResult.opINNER : AppM X (Option OperationResult)) w₁)) ↔
        ∀ marker, op.body = .MARK_ACCOUNT marker →
          after (app.SendRawTransactionZagg marker w₁.ext) = w₁.ext := by
    intro w₁
    rw [after_bind_pure, SameNode, after_onExt]
    change after (doCheckValid app _ op.body _ w₁.ext) = _ ↔ _
    by_cases hmark : ∃ marker, op.body = .MARK_ACCOUNT marker
    · obtain ⟨marker, hmarker⟩ := hmark
      rw [hmarker, after_doCheckValid_mark]
      exact ⟨fun h marker' heq => by cases heq; exact h, fun h => h marker rfl⟩
    · have hne := not_exists.mp hmark
      rw [after_doCheckValid_of_ne app _ hne]
      exact iff_of_true rfl fun marker hmarker => absurd hmarker (hne marker)
  constructor
  · intro h marker hbody w₁ hrun
    have hrest := (sameNode_bind_of_aside hsource w).mp (h w.ltx.header w rfl) none w₁ hrun
    have hext : w₁.ext = w.ext := hsource.ok hrun
    rw [← hext]
    exact (hclass w₁).mp hrest marker hbody
  · intro h header w₁ hheader
    obtain ⟨rfl, rfl⟩ := loadHeader_ok.mp hheader
    refine (sameNode_bind_of_aside hsource w).mpr fun code w₁ hrun => ?_
    cases code with
    | some code => exact refl_of SameNode w₁
    | none =>
      refine (hclass w₁).mpr fun marker hbody => ?_
      have hext : w₁.ext = w.ext := hsource.ok hrun
      rw [hext]
      exact h marker hbody w₁ hrun

theorem doApply_leaves_iff (sourceID : AccountID) (body : OperationBody) (w : World X) :
    SameNode w (after (doApply app sourceID body w)) ↔
      ∀ marker, body = .MARK_ACCOUNT marker → after (app.generateBlocks marker w.ext) = w.ext := by
  by_cases hmark : ∃ marker, body = .MARK_ACCOUNT marker
  · obtain ⟨marker, rfl⟩ := hmark
    have hrun : (after (doApply app sourceID (.MARK_ACCOUNT marker) w)).ext
        = after (app.generateBlocks marker w.ext) := by
      change (after (((MarkAccountOpFrame.doApply app marker) >>= fun code =>
        pure (OperationResultTr.markAccountResult code)) w)).ext = _
      rw [after_bind_pure]
      change (after ((onExt (app.generateBlocks marker) >>= fun _ =>
        pure MarkAccountResultCode.MARK_ACCOUNT_SUCCESS : AppM X _) w)).ext = _
      rw [after_bind_pure, after_onExt]
    rw [SameNode, hrun]
    exact ⟨fun h marker' heq => by cases heq; exact h, fun h => h marker rfl⟩
  · have hne := not_exists.mp hmark
    exact iff_of_true (aside_doApply app sourceID hne w) fun marker hmarker => absurd hmarker (hne marker)

section Irreversible

variable {app txSource} [PartialOrder X] (node : Irreversible app)

include node

theorem rises_checkValid (op : Operation) (forApply : Bool) :
    Rises (OperationFrame.checkValid app (makeHelper app txSource op) forApply) := by
  have hclass : ∀ ledgerVersion, Rises (onExt ((makeHelper app txSource op).doCheckValid ledgerVersion)) := by
    intro ledgerVersion w
    change w.ext ≤ _
    rw [after_onExt]
    change w.ext ≤ after (doCheckValid app _ op.body ledgerVersion w.ext)
    by_cases hmark : ∃ marker, op.body = .MARK_ACCOUNT marker
    · obtain ⟨marker, hmarker⟩ := hmark
      rw [hmarker, after_doCheckValid_mark]
      exact node.send marker w.ext
    · rw [after_doCheckValid_of_ne app _ (not_exists.mp hmark)]
  refine Keeps.rolledBack fun w => ?_
  refine Keeps.bind (rises_of_aside aside_loadHeader) (fun header => ?_) w
  have hsource := inert_checkSource app (makeHelper app txSource op) forApply header.ledgerVersion
  refine (rises_of_aside (aside_of_inert hsource)).bind fun code => ?_
  cases code with
  | some code => exact .pure _
  | none => exact (hclass _).bind fun tr => .pure _

theorem rises_doApply (sourceID : AccountID) (body : OperationBody) :
    Rises (doApply app sourceID body) := by
  by_cases hmark : ∃ marker, body = .MARK_ACCOUNT marker
  · obtain ⟨marker, rfl⟩ := hmark
    refine .map _ (Keeps.bind (fun w => ?_) fun _ => .pure _)
    change w.ext ≤ _
    rw [after_onExt]
    exact node.mine marker w.ext
  · exact rises_of_aside (aside_doApply app sourceID (not_exists.mp hmark))

theorem rises_apply (op : Operation) :
    Rises (OperationFrame.apply app (makeHelper app txSource op)) := by
  refine (rises_checkValid node op true).bind fun code => ?_
  cases code with
  | some code => exact .pure _
  | none => exact (rises_doApply node _ op.body).bind fun tr => .pure _

theorem apply_leaves_iff (op : Operation) (w : World X) :
    SameNode w (after (OperationFrame.apply app (makeHelper app txSource op) w)) ↔
      CheckLeaves app txSource op true w ∧ MineLeaves app txSource op w := by
  unfold OperationFrame.apply
  rw [sameNode_bind_iff (rises_checkValid node op true), checkValid_leaves_iff]
  · refine and_congr_right fun _ => ⟨fun h marker hbody w₁ hrun => ?_, fun h code w₁ hrun => ?_⟩
    · have hmine := h none w₁ hrun
      rw [after_bind_pure] at hmine
      exact (doApply_leaves_iff app _ op.body w₁).mp hmine marker hbody
    · cases code with
      | some code => exact refl_of SameNode w₁
      | none =>
        rw [after_bind_pure]
        exact (doApply_leaves_iff app _ op.body w₁).mpr fun marker hbody => h marker hbody w₁ hrun
  · intro code
    cases code with
    | some code => exact .pure _
    | none => exact (rises_doApply node _ op.body).bind fun tr => .pure _

end Irreversible

end Operation

/-! ## Transactions -/

section Transactions

variable [LinearOrder Q] (app : Application X Q)

/-- The node is as before after every raw transaction that checking the operations comes to send. -/
def CheckEachLeaves (txSource : AccountID) : List Operation → World X → Prop
  | [], _ => True
  | op :: ops, w => CheckLeaves app txSource op false w ∧
      ∀ w₁, OperationFrame.checkValid app (makeHelper app txSource op) false w = .ok none w₁ →
        CheckEachLeaves txSource ops w₁

/-- The same for applying the operations, with the blocks made: those that follow an operation are come
to unless an invariant fails after it. -/
def ApplyEachLeaves (txSource : AccountID) : List Operation → Bool → World X → Prop
  | [], _, _ => True
  | op :: ops, errorEncountered, w =>
    CheckLeaves app txSource op true w ∧ MineLeaves app txSource op w ∧
      ∀ res w₁, OperationFrame.apply app (makeHelper app txSource op) w = .ok res w₁ →
        (errorEncountered = false → res.succeeded = true →
          app.checkOnOperationApply op res w.ltx w₁.ltx = true) →
        ApplyEachLeaves txSource ops (errorEncountered || !res.succeeded) w₁

/-- The world in which a transaction is checked or applied, with its own signature checker. -/
def started (envelope : TransactionEnvelope) (w : World X) : World X :=
  after (startChecker app envelope w)

/-- A mark leaves the node alone as long as its transaction is only checked, fails or is rolled back. -/
structure KeepsNode (envelope : TransactionEnvelope) (current : ℤ) (w : World X) : Prop where
  checked : SameNode w (after (checkValid app envelope current w))
  failed : ∀ result w', applyTransaction app envelope w = .ok result w' → result.code ≠ .txSUCCESS →
    SameNode w w'
  rolledBack : SameNode w (after (rolledBack World.restore (applyTransaction app envelope) w))

/-- No check and no application of the transaction comes to a call that changes the node. -/
structure Untouched (envelope : TransactionEnvelope) (current : ℤ) (w : World X) : Prop where
  checked : ∀ code w₁, commonValid app envelope.tx current false (started app envelope w) =
      .ok (.kFullyValid, code) w₁ →
    CheckEachLeaves app envelope.tx.sourceAccount envelope.tx.operations w₁
  applied : ∀ result w₁, validate app envelope.tx (started app envelope w) = .ok (result, true) w₁ →
    ApplyEachLeaves app envelope.tx.sourceAccount envelope.tx.operations false w₁

variable {app} [PartialOrder X] (node : Irreversible app)

include node

theorem rises_checkOperations (txSource : AccountID) (ops : List Operation) :
    Rises (checkOperations app (ops.map (makeHelper app txSource))) := by
  induction ops with
  | nil => exact .pure _
  | cons op ops ih =>
    refine (rises_checkValid node op false).bind fun code => ?_
    cases code with
    | some code => exact .pure _
    | none => exact ih

theorem checkOperations_leaves_iff (txSource : AccountID) (ops : List Operation) (w : World X) :
    SameNode w (after (checkOperations app (ops.map (makeHelper app txSource)) w)) ↔
      CheckEachLeaves app txSource ops w := by
  induction ops generalizing w with
  | nil => exact iff_of_true (refl_of SameNode w) trivial
  | cons op ops ih =>
    rw [List.map_cons, checkOperations, sameNode_bind_iff (rises_checkValid node op false),
      checkValid_leaves_iff, CheckEachLeaves]
    · refine and_congr_right fun _ => ⟨fun h w₁ hrun => (ih w₁).mp (h none w₁ hrun), fun h code w₁ hrun => ?_⟩
      cases code with
      | some code => exact refl_of SameNode w₁
      | none => exact (ih w₁).mpr (h w₁ hrun)
    · intro code
      cases code with
      | some code => exact .pure _
      | none => exact rises_checkOperations node txSource ops

theorem rises_applyEach (txSource : AccountID) (ops : List Operation) (errorEncountered : Bool) :
    Rises (applyEach app (ops.map (makeHelper app txSource)) errorEncountered) := by
  induction ops generalizing errorEncountered with
  | nil => exact .pure _
  | cons op ops ih =>
    refine (rises_of_aside aside_getLedger).bind fun before => ?_
    refine .bind (.committed (rises_apply node op) fun w => rises_apply node op w) fun res => ?_
    refine (rises_of_aside aside_getLedger).bind fun after => .bind (.lift _) fun _ => ?_
    exact (ih _).bind fun rest => .pure _

omit [PartialOrder X] node in
/-- What follows the application of one operation: the invariants, and the other operations. -/
theorem rest_leaves_iff {txSource : AccountID} {op : Operation} {ops : List Operation} {failed : Bool}
    {res : OperationResult} {before : AbstractLedgerTxn} (w₁ : World X)
    (ih : SameNode w₁ (after (applyEach app (ops.map (makeHelper app txSource)) failed w₁)) ↔
      ApplyEachLeaves app txSource ops failed w₁) :
    SameNode w₁ (after ((do
        let after ← getLedger
        throwIf (!failed && !app.checkOnOperationApply op res before after) .InvariantDoesNotHold
        let (results, errorEncountered) ← applyEach app (ops.map (makeHelper app txSource)) failed
        return (res :: results, errorEncountered) : AppM X (List OperationResult × Bool)) w₁)) ↔
      ((failed = false → app.checkOnOperationApply op res before w₁.ltx = true) →
        ApplyEachLeaves app txSource ops failed w₁) := by
  rw [sameNode_bind_of_aside aside_getLedger]
  constructor
  · intro h hholds
    have hthrow : ¬ ((!failed && !app.checkOnOperationApply op res before w₁.ltx) = true) := by
      cases failed <;> simp_all
    have hrest := (sameNode_bind_of_aside (Keeps.lift _) w₁).mp (h w₁.ltx w₁ rfl) () w₁
      (lift_ok.mpr ⟨throwIf_ok.mpr hthrow, rfl⟩)
    rw [after_bind_pure] at hrest
    exact ih.mp hrest
  · intro h ltx w₂ hltx
    obtain ⟨rfl, rfl⟩ := getLedger_ok.mp hltx
    refine (sameNode_bind_of_aside (Keeps.lift _) _).mpr fun _ w₂ hlift => ?_
    obtain ⟨hthrow, rfl⟩ := lift_ok.mp hlift
    have hnot := throwIf_ok.mp hthrow
    rw [after_bind_pure]
    refine ih.mpr (h fun hfailed => ?_)
    simpa [hfailed] using hnot

theorem applyEach_leaves_iff (txSource : AccountID) (ops : List Operation) (errorEncountered : Bool)
    (w : World X) :
    SameNode w (after (applyEach app (ops.map (makeHelper app txSource)) errorEncountered w)) ↔
      ApplyEachLeaves app txSource ops errorEncountered w := by
  induction ops generalizing errorEncountered w with
  | nil => exact iff_of_true (refl_of SameNode w) trivial
  | cons op ops ih =>
    have hrises : ∀ res : OperationResult, Rises (do
        let after ← getLedger
        throwIf (!(errorEncountered || !res.succeeded) && !app.checkOnOperationApply op res w.ltx after)
          .InvariantDoesNotHold
        let (results, errorEncountered) ←
          applyEach app (ops.map (makeHelper app txSource)) (errorEncountered || !res.succeeded)
        return (res :: results, errorEncountered) : AppM X (List OperationResult × Bool)) := fun res =>
      (rises_of_aside aside_getLedger).bind fun _ => .bind (.lift _) fun _ =>
        (rises_applyEach node txSource ops _).bind fun _ => .pure _
    have happly : Rises (committed World.restore (OperationFrame.apply app (makeHelper app txSource op))) :=
      .committed (rises_apply node op) fun w => rises_apply node op w
    have hsplit := sameNode_bind_iff happly hrises w
    rw [sameNode_committed, apply_leaves_iff node op w, and_assoc] at hsplit
    refine (?_ : _ ↔ _).trans (hsplit.trans ?_)
    · exact Iff.rfl
    · rw [ApplyEachLeaves]
      refine and_congr_right fun _ => and_congr_right fun _ => ?_
      refine forall_congr' fun res => forall_congr' fun w₁ => ?_
      rw [committed_ok, rest_leaves_iff w₁ (ih _ w₁)]
      refine imp_congr_right fun _ => imp_congr_left ?_
      cases errorEncountered <;> cases res.succeeded <;> simp

theorem checkTransaction_leaves_iff (envelope : TransactionEnvelope) (current : ℤ) (w : World X) :
    SameNode w (after (checkValid app envelope current w)) ↔
      ∀ code w₁, commonValid app envelope.tx current false (started app envelope w) =
          .ok (.kFullyValid, code) w₁ →
        CheckEachLeaves app envelope.tx.sourceAccount envelope.tx.operations w₁ := by
  have hcommon := aside_of_inert (inert_commonValid app envelope.tx current false)
  -- only the code depends on the result of `checkOperations`
  have hrest : ∀ (continued : Option OperationResult → AppM X TransactionResultCode),
      (∀ res, ∃ code, continued res = pure code) →
      ∀ w₁, SameNode w₁
          (after ((checkOperations app (operationFrames app envelope.tx) >>= continued) w₁)) ↔
        CheckEachLeaves app envelope.tx.sourceAccount envelope.tx.operations w₁ := by
    intro continued hcontinued w₁
    have hrises := rises_checkOperations node envelope.tx.sourceAccount envelope.tx.operations
    rw [← checkOperations_leaves_iff node]
    refine (sameNode_bind_iff hrises (fun res => ?_) w₁).trans (and_iff_left fun res w₂ _ => ?_)
    · obtain ⟨code, hcode⟩ := hcontinued res
      rw [hcode]
      exact .pure _
    · obtain ⟨code, hcode⟩ := hcontinued res
      rw [hcode]
      exact refl_of SameNode w₂
  unfold checkValid
  rw [sameNode_bind_of_aside (aside_startChecker app envelope)]
  constructor
  · intro h code w₁ hrun
    have hchecked := (sameNode_rolledBack _ _).mp (h () (started app envelope w) rfl)
    exact (hrest _ (fun res => by cases res <;> exact ⟨_, rfl⟩) w₁).mp ((sameNode_bind_of_aside hcommon _).mp hchecked _ w₁ hrun)
  · intro h _ w₀ hstart
    cases hstart
    refine (sameNode_rolledBack _ _).mpr ((sameNode_bind_of_aside hcommon _).mpr fun cv w₁ hrun => ?_)
    obtain ⟨cv, code⟩ := cv
    change SameNode w₁ (after ((if cv ≠ .kFullyValid then pure code else _ : AppM X _) w₁))
    by_cases hcv : cv = .kFullyValid
    · subst hcv
      exact (hrest _ (fun res => by cases res <;> exact ⟨_, rfl⟩) w₁).mpr (h code w₁ hrun)
    · rw [if_pos hcv]
      exact refl_of SameNode w₁

theorem applyTransaction_leaves_iff (envelope : TransactionEnvelope) (w : World X) :
    SameNode w (after (applyTransaction app envelope w)) ↔
      ∀ result w₁, validate app envelope.tx (started app envelope w) = .ok (result, true) w₁ →
        ApplyEachLeaves app envelope.tx.sourceAccount envelope.tx.operations false w₁ := by
  have hresult : SameNode w (after (applyTransaction app envelope w)) ↔
      SameNode w (after (apply app envelope w)) := by
    unfold applyTransaction
    cases apply app envelope w with
    | ok result w₁ => exact Iff.rfl
    | error e w₁ => cases e <;> exact Iff.rfl
  have hops : ∀ w₁, SameNode w₁ (after (applyOperations app envelope.tx w₁)) ↔
      ApplyEachLeaves app envelope.tx.sourceAccount envelope.tx.operations false w₁ := by
    intro w₁
    have hrises := rises_applyEach node envelope.tx.sourceAccount envelope.tx.operations false
    have hafter : ∀ res : List OperationResult × Bool, Aside (do
        if res.2 then
          return (⟨.txFAILED, res.1⟩, false)
        if !(← removeSignersAfterOperations envelope.tx) then
          return (⟨.txBAD_AUTH_EXTRA, []⟩, false)
        return (⟨.txSUCCESS, res.1⟩, true) : AppM X (TransactionResult × Bool)) := by
      intro res
      refine .ite (fun _ => .pure _) fun _ => (aside_removeSignersAfterOperations _).bind fun ok => ?_
      exact .ite (fun _ => .pure _) fun _ => .pure _
    rw [← applyEach_leaves_iff node]
    refine (sameNode_committedIf _ _).trans ?_
    refine (sameNode_bind_iff hrises (fun res => rises_of_aside (hafter res)) w₁).trans ?_
    exact and_iff_left fun res w₂ _ => hafter res w₂
  rw [hresult]
  unfold apply
  rw [sameNode_bind_of_aside (aside_startChecker app envelope)]
  constructor
  · intro h result w₁ hrun
    have happlied := (sameNode_bind_of_aside (aside_validate app envelope.tx) _).mp
      (h () (started app envelope w) rfl) (result, true) w₁ hrun
    exact (hops w₁).mp happlied
  · intro h _ w₀ hstart
    cases hstart
    refine (sameNode_bind_of_aside (aside_validate app envelope.tx) _).mpr fun res w₁ hrun => ?_
    obtain ⟨result, valid⟩ := res
    cases valid with
    | false => exact refl_of SameNode w₁
    | true => exact (hops w₁).mpr (h result w₁ hrun)

/-- **The node and the ledger.** A transaction keeps the node exactly if none of the calls that its check
and its application come to changes the node. -/
theorem keepsNode_iff (envelope : TransactionEnvelope) (current : ℤ) (w : World X) :
    KeepsNode app envelope current w ↔ Untouched app envelope current w := by
  have hrollback := sameNode_rolledBack w (applyTransaction app envelope)
  constructor
  · intro h
    exact ⟨(checkTransaction_leaves_iff node envelope current w).mp h.checked,
      (applyTransaction_leaves_iff node envelope w).mp (hrollback.mp h.rolledBack)⟩
  · intro h
    have happly := (applyTransaction_leaves_iff node envelope w).mpr h.applied
    refine ⟨(checkTransaction_leaves_iff node envelope current w).mpr h.checked, fun result w' hrun _ => ?_,
      hrollback.mpr happly⟩
    rw [hrun] at happly
    exact happly

end Transactions

/-! ## A node that counts -/

/-- An application whose node counts what it is sent and what it mines. -/
def counting : Application ℕ ℕ where
  crypto := standalone.crypto
  contentsHash := standalone.contentsHash
  fullHash := standalone.fullHash
  quotient := standalone.quotient
  queryInflationWinners := standalone.queryInflationWinners
  checkOnOperationApply := standalone.checkOnOperationApply
  SendRawTransactionZagg := fun _ x => .ok true (x + 1)
  generateBlocks := fun _ x => .ok () (x + 1)

/-- Its world, where the transactions of the root account have been authorized beforehand. -/
def countingWorld : World ℕ :=
  let header := { genesisLedger with ledgerVersion := CURRENT_LEDGER_PROTOCOL_VERSION }
  .start ((emptyLedger header).put (.account
    { rootAccount 7 header with numSubEntries := 1, signers := [⟨.preAuthTx 0, 1⟩] })) 0

/-- A mark and a payment to an account that is not there, for the given fee. -/
def markAndPay (fee : ℕ) : TransactionEnvelope where
  tx := { sourceAccount := 7, fee := fee, seqNum := 1, timeBounds := none,
          operations := [⟨none, .MARK_ACCOUNT [1]⟩, ⟨none, .PAYMENT 8 .native 5⟩] }
  signatures := []

/-- The same for the fee 200, with the number behind that one. -/
def markAndPayNext : TransactionEnvelope :=
  { markAndPay 200 with tx := { (markAndPay 200).tx with seqNum := 2 } }

/-- The world of `countingWorld` with a mempool that has the marker. -/
def knowingWorld : World Mempool := .start countingWorld.ltx ({[1]}, ∅)

theorem irreversible_withMempool : Irreversible withMempool where
  send marker x := by
    simp only [withMempool, Mempool.send]
    split_ifs
    · exact le_rfl
    · exact le_rfl
    · exact le_rfl
    · exact ⟨Finset.subset_insert _ _, le_rfl⟩
  mine marker x := ⟨le_rfl, Finset.subset_insert _ _⟩

/-- Behind a transaction with the number 1 the check comes to the mark and passes, and the mempool has its
marker already; applied without the other one the transaction does not come to its operations. -/
theorem keepsNode_markAndPayNext :
    checkValid withMempool markAndPayNext 1 knowingWorld =
        .ok .txSUCCESS (after (checkValid withMempool markAndPayNext 1 knowingWorld)) ∧
      KeepsNode withMempool markAndPayNext 1 knowingWorld := by
  have hvalidate := eq_ok_of_result?
    (r := validate withMempool markAndPayNext.tx (started withMempool markAndPayNext knowingWorld))
    (a := (⟨.txBAD_SEQ, []⟩, false)) (by decide +kernel)
  refine ⟨eq_ok_of_result? (by decide +kernel),
    (keepsNode_iff irreversible_withMempool markAndPayNext 1 knowingWorld).mpr
      ⟨fun code w₁ hrun => ⟨fun marker hbody w₂ _ => ?_, fun w₂ _ => ⟨fun marker hbody => ?_, fun _ _ => trivial⟩⟩,
        fun result w₁ hrun => ?_⟩⟩
  · have hsame := aside_of_inert (inert_commonValid withMempool markAndPayNext.tx 1 false)
      (started withMempool markAndPayNext knowingWorld)
    rw [hrun] at hsame
    have hext : w₁.ext = ({[1]}, ∅) := hsame
    cases hbody
    rw [hext]
    rfl
  · cases hbody
  · rw [hvalidate] at hrun
    cases hrun

/-- The transaction is valid and fails: its check has sent a raw transaction, and its application has sent
another and made a block. -/
theorem not_keepsNode_markAndPay :
    checkValid counting (markAndPay 200) 0 countingWorld =
        .ok .txSUCCESS (after (checkValid counting (markAndPay 200) 0 countingWorld)) ∧
      (after (checkValid counting (markAndPay 200) 0 countingWorld)).ext = 1 ∧
      (∃ results w', applyTransaction counting (markAndPay 200) countingWorld =
        .ok ⟨.txFAILED, results⟩ w' ∧ w'.ext = 2) ∧
      ¬ KeepsNode counting (markAndPay 200) 0 countingWorld := by
  have hchecked : (after (checkValid counting (markAndPay 200) 0 countingWorld)).ext = 1 := by
    decide +kernel
  have happly := eq_ok_of_result?
    (r := applyTransaction counting (markAndPay 200) countingWorld)
    (a := ⟨.txFAILED, [.opINNER (.markAccountResult .MARK_ACCOUNT_SUCCESS),
      .opINNER (.paymentResult .PAYMENT_NO_DESTINATION)]⟩) (by decide +kernel)
  refine ⟨eq_ok_of_result? (by decide +kernel), hchecked, ⟨_, _, happly, by decide +kernel⟩, fun hkeeps => ?_⟩
  have hsame : (after (checkValid counting (markAndPay 200) 0 countingWorld)).ext = 0 := hkeeps.checked
  rw [hchecked] at hsame
  cases hsame

end ZaggCore.Transactions
