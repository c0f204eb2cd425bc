import Mathlib
import ZaggCore.Transactions.Atomicity
import ZaggCore.Transactions.CheckAgain

/-! # Operations of later versions

`OperationFrame::checkValid` with every assignment to `mResult` that it makes: the one for a version that
is not supported is overwritten before the function returns, and the `return` after it is commented out.
So `isVersionSupported` decides nothing, and the frame without it is the frame. -/

namespace ZaggCore.Transactions
set_option autoImplicit false
set_option maxHeartbeats 250000

open Foundations Numeric Signatures

variable {X Q : Type}

/-- `isVersionSupported`, of the class that `makeHelper` picks. -/
def isVersionSupported : OperationBody → ℕ → Bool
  | .BUMP_SEQUENCE _, protocolVersion => 10 ≤ protocolVersion
  | .MARK_ACCOUNT _, protocolVersion => 10 ≤ protocolVersion
  | _, _ => true

/-- `mResult.tr().type(mOperation.body.type())`: the arm of the operation, with the first of its codes. -/
def initialResult : OperationBody → OperationResultTr
  | .CREATE_ACCOUNT _ _ => .createAccountResult .CREATE_ACCOUNT_SUCCESS
  | .PAYMENT _ _ _ => .paymentResult .PAYMENT_SUCCESS
  | .PATH_PAYMENT _ => .pathPaymentResult .PATH_PAYMENT_SUCCESS
  | .MANAGE_OFFER _ => .manageOfferResult .MANAGE_OFFER_SUCCESS
  | .CREATE_PASSIVE_OFFER _ => .manageOfferResult .MANAGE_OFFER_SUCCESS
  | .SET_OPTIONS _ => .setOptionsResult .SET_OPTIONS_SUCCESS
  | .CHANGE_TRUST _ _ => .changeTrustResult .CHANGE_TRUST_SUCCESS
  | .ALLOW_TRUST _ _ _ => .allowTrustResult .ALLOW_TRUST_SUCCESS
  | .ACCOUNT_MERGE _ => .accountMergeResult .ACCOUNT_MERGE_SUCCESS
  | .INFLATION => .inflationResult .INFLATION_SUCCESS
  | .MANAGE_DATA _ _ => .manageDataResult .MANAGE_DATA_SUCCESS
  | .BUMP_SEQUENCE _ => .bumpSeqResult .BUMP_SEQUENCE_SUCCESS
  | .MARK_ACCOUNT _ => .markAccountResult .MARK_ACCOUNT_SUCCESS

namespace OperationFrame

section

variable (app : Application X Q) (op : OperationFrame X)

/-- `checkValid` on the `mResult` it finds: what it returns, and the `mResult` it leaves. -/
def checkValidGated (forApply : Bool) (mResult : OperationResult) : AppM X (Bool × OperationResult) :=
  rolledBack World.restore do
    let ledgerVersion := (← loadHeader).ledgerVersion
    let mResult :=
      if !isVersionSupported op.mOperation.body ledgerVersion then
        -- the `return false` that follows is commented out
        .opNOT_SUPPORTED
      else mResult
    let code ← checkSource app op forApply ledgerVersion
    let mResult := code.getD mResult
    if code.isSome then
      return (false, mResult)
    let mResult := .opINNER (initialResult op.mOperation.body)
    let tr ← onExt (op.doCheckValid ledgerVersion)
    return (tr.isNone, (tr.map OperationResult.opINNER).getD mResult)

/-- `apply` on the `mResult` it finds. -/
def applyGated (mResult : OperationResult) : AppM X (Bool × OperationResult) := do
  let (res, mResult) ← checkValidGated app op true mResult
  if res then
    let tr ← op.doApply
    return (tr.succeeded, .opINNER tr)
  return (false, mResult)

/-- The gate makes no difference to what `checkValid` does and returns. -/
theorem checkValidGated_ok {forApply : Bool} {mResult : OperationResult} {w w' : World X}
    {res : Bool × OperationResult} :
    checkValidGated app op forApply mResult w = .ok res w' ↔
      ∃ code, checkValid app op forApply w = .ok code w' ∧
        res = (code.isNone, code.getD (.opINNER (initialResult op.mOperation.body))) := by
  unfold checkValidGated checkValid
  simp only [rolledBack_ok]
  constructor
  · rintro ⟨w₁, h, rfl⟩
    obtain ⟨header, w₂, hheader, h⟩ := bind_ok.mp h
    obtain ⟨code, w₃, hcode, h⟩ := bind_ok.mp h
    cases code with
    | some code =>
      obtain ⟨rfl, rfl⟩ := pure_ok.mp h
      refine ⟨some code, ⟨w₃, ?_, rfl⟩, rfl⟩
      exact bind_ok.mpr ⟨header, w₂, hheader, bind_ok.mpr ⟨some code, w₃, hcode, rfl⟩⟩
    | none =>
      obtain ⟨tr, w₄, htr, h⟩ := bind_ok.mp h
      obtain ⟨rfl, rfl⟩ := pure_ok.mp h
      refine ⟨tr.map .opINNER, ⟨w₄, ?_, rfl⟩, by rw [Option.isNone_map]⟩
      refine bind_ok.mpr ⟨header, w₂, hheader, bind_ok.mpr ⟨none, w₃, hcode, ?_⟩⟩
      exact bind_ok.mpr ⟨tr, w₄, htr, rfl⟩
  · rintro ⟨code, ⟨w₁, h, rfl⟩, rfl⟩
    refine ⟨w₁, ?_, rfl⟩
    obtain ⟨header, w₂, hheader, h⟩ := bind_ok.mp h
    obtain ⟨source, w₃, hsource, h⟩ := bind_ok.mp h
    refine bind_ok.mpr ⟨header, w₂, hheader, bind_ok.mpr ⟨source, w₃, hsource, ?_⟩⟩
    cases source with
    | some source =>
      obtain ⟨rfl, rfl⟩ := pure_ok.mp h
      rfl
    | none =>
      obtain ⟨tr, w₄, htr, h⟩ := bind_ok.mp h
      obtain ⟨rfl, rfl⟩ := pure_ok.mp h
      refine bind_ok.mpr ⟨tr, w₄, htr, ?_⟩
      rw [Option.isNone_map]
      rfl

/-- `apply` fails with the code of `checkValid`, or does what `doApply` does. -/
theorem applyGated_ok {mResult : OperationResult} {w w' : World X} {res : Bool × OperationResult} :
    applyGated app op mResult w = .ok res w' ↔
      (∃ code, checkValid app op true w = .ok (some code) w' ∧ res = (false, code)) ∨
        ∃ w₁ tr, checkValid app op true w = .ok none w₁ ∧ op.doApply w₁ = .ok tr w' ∧
          res = (tr.succeeded, .opINNER tr) := by
  unfold applyGated
  constructor
  · intro h
    obtain ⟨r, w₁, hgated, h⟩ := bind_ok.mp h
    obtain ⟨code, hcheck, rfl⟩ := (checkValidGated_ok app op).mp hgated
    cases code with
    | some code =>
      obtain ⟨rfl, rfl⟩ := pure_ok.mp h
      exact .inl ⟨code, hcheck, rfl⟩
    | none =>
      obtain ⟨tr, w₂, htr, h⟩ := bind_ok.mp h
      obtain ⟨rfl, rfl⟩ := pure_ok.mp h
      exact .inr ⟨w₁, tr, hcheck, htr, rfl⟩
  · rintro (⟨code, hcheck, rfl⟩ | ⟨w₁, tr, hcheck, htr, rfl⟩)
    · exact bind_ok.mpr ⟨_, w', (checkValidGated_ok app op).mpr ⟨some code, hcheck, rfl⟩, rfl⟩
    · refine bind_ok.mpr ⟨_, w₁, (checkValidGated_ok app op).mpr ⟨none, hcheck, rfl⟩, ?_⟩
      exact bind_ok.mpr ⟨tr, w', htr, rfl⟩

theorem checkSignature_code {forApply : Bool} {w w' : World X} {code : OperationResult}
    (h : checkSignature app op forApply w = .ok (some code) w') :
    code = .opBAD_AUTH ∨ code = .opNO_ACCOUNT := by
  obtain ⟨acc, w₁, -, h⟩ := bind_ok.mp h
  cases acc with
  | some acc =>
    obtain ⟨ok, w₂, -, h⟩ := bind_ok.mp h
    split at h
    · exact .inl (Option.some.inj (pure_ok.mp h).1).symm
    · exact absurd (pure_ok.mp h).1 (by simp)
  | none =>
    dsimp only at h
    split at h
    · exact .inr (Option.some.inj (pure_ok.mp h).1).symm
    · obtain ⟨ok, w₂, -, h⟩ := bind_ok.mp h
      split at h
      · exact .inl (Option.some.inj (pure_ok.mp h).1).symm
      · exact absurd (pure_ok.mp h).1 (by simp)

theorem checkSource_code {forApply : Bool} {ledgerVersion : ℕ} {w w' : World X}
    {code : OperationResult} (h : checkSource app op forApply ledgerVersion w = .ok (some code) w') :
    code = .opBAD_AUTH ∨ code = .opNO_ACCOUNT := by
  unfold checkSource at h
  split at h
  · exact checkSignature_code app op h
  · obtain ⟨acc, w₁, -, h⟩ := bind_ok.mp h
    cases acc with
    | some acc => exact absurd (pure_ok.mp h).1 (by simp)
    | none => exact .inr (Option.some.inj (pure_ok.mp h).1).symm

/-- The code that `checkValid` fails with is one of the source account or one of the operation. -/
theorem checkValid_code {forApply : Bool} {w w' : World X} {code : OperationResult}
    (h : checkValid app op forApply w = .ok (some code) w') :
    code = .opBAD_AUTH ∨ code = .opNO_ACCOUNT ∨ ∃ tr, code = .opINNER tr := by
  obtain ⟨w₁, h, -⟩ := rolledBack_ok.mp h
  obtain ⟨header, w₂, -, h⟩ := bind_ok.mp h
  obtain ⟨source, w₃, hsource, h⟩ := bind_ok.mp h
  cases source with
  | some source =>
    obtain rfl := Option.some.inj (pure_ok.mp h).1
    exact (checkSource_code app op hsource).imp_right .inl
  | none =>
    obtain ⟨tr, w₄, -, h⟩ := bind_ok.mp h
    obtain ⟨tr, -, rfl⟩ := Option.map_eq_some_iff.mp (pure_ok.mp h).1
    exact .inr (.inr ⟨tr, rfl⟩)

end

end OperationFrame

section

variable [LinearOrder Q] (app : Application X Q)

/-- What an operation that is not supported should do in a ledger: report that, run neither of the
functions of its class, and leave its transaction to fail. -/
structure InertAt (txSource : AccountID) (op : Operation) (w : World X) : Prop where
  checkValid_reports : ∀ forApply mResult, ∃ w',
    OperationFrame.checkValidGated app (makeHelper app txSource op) forApply mResult w =
      .ok (false, .opNOT_SUPPORTED) w'
  apply_reports : ∀ mResult, ∃ w',
    OperationFrame.applyGated app (makeHelper app txSource op) mResult w =
      .ok (false, .opNOT_SUPPORTED) w'
  doCheckValid_unused : ∀ doCheckValid forApply mResult,
    OperationFrame.checkValidGated app
        { makeHelper app txSource op with doCheckValid := doCheckValid } forApply mResult w =
      OperationFrame.checkValidGated app (makeHelper app txSource op) forApply mResult w
  doApply_unused : ∀ doApply mResult,
    OperationFrame.applyGated app { makeHelper app txSource op with doApply := doApply } mResult w =
      OperationFrame.applyGated app (makeHelper app txSource op) mResult w
  transaction_fails : ∀ envelope result w', op ∈ envelope.tx.operations →
    envelope.tx.sourceAccount = txSource → applyTransaction app envelope w = .ok result w' →
      result.code ≠ .txSUCCESS ∧ OnlyConsumes envelope.tx (app.contentsHash envelope.tx) w w'

/-- **The version gate.** No operation is inert, supported or not: no run of `checkValid` or
`apply` reports `opNOT_SUPPORTED`, `checkValid` asks `doCheckValid` once the source account is in order,
and `apply` does what `doApply` does once `checkValid` passes. -/
theorem unsupported_notInert (txSource : AccountID) (op : Operation) (w : World X) :
    ¬ InertAt app txSource op w ∧
      (∀ forApply mResult res w', OperationFrame.checkValidGated app (makeHelper app txSource op)
        forApply mResult w = .ok res w' → res.2 ≠ .opNOT_SUPPORTED) ∧
      (∀ mResult res w', OperationFrame.applyGated app (makeHelper app txSource op) mResult w =
        .ok res w' → res.2 ≠ .opNOT_SUPPORTED) ∧
      (∀ forApply mResult w₁ code w₂,
        OperationFrame.checkSource app (makeHelper app txSource op) forApply
          w.ltx.header.ledgerVersion w = .ok none w₁ →
        doCheckValid app (op.sourceAccount.getD txSource) op.body w.ltx.header.ledgerVersion w₁.ext =
          .ok code w₂ →
        OperationFrame.checkValidGated app (makeHelper app txSource op) forApply mResult w =
          .ok (code.isNone, .opINNER (code.getD (initialResult op.body)))
            (w.restore { w₁ with ext := w₂ })) ∧
      ∀ mResult mResult' w₁ tr w₂,
        OperationFrame.checkValidGated app (makeHelper app txSource op) true mResult w =
          .ok (true, mResult') w₁ →
        doApply app (op.sourceAccount.getD txSource) op.body w₁ = .ok tr w₂ →
        OperationFrame.applyGated app (makeHelper app txSource op) mResult w =
          .ok (tr.succeeded, .opINNER tr) w₂ := by
  have hcheck : ∀ forApply mResult res w', OperationFrame.checkValidGated app
      (makeHelper app txSource op) forApply mResult w = .ok res w' → res.2 ≠ .opNOT_SUPPORTED := by
    intro forApply mResult res w' h
    obtain ⟨code, hcode, rfl⟩ := (OperationFrame.checkValidGated_ok app _).mp h
    cases code with
    | none => simp
    | some code =>
      obtain rfl | rfl | ⟨tr, rfl⟩ := OperationFrame.checkValid_code app _ hcode <;> simp
  refine ⟨fun hinert => ?_, hcheck, fun mResult res w' h => ?_, ?_, ?_⟩
  · obtain ⟨w', h⟩ := hinert.checkValid_reports true .opNO_ACCOUNT
    exact hcheck _ _ _ _ h rfl
  · obtain ⟨code, hcode, rfl⟩ | ⟨w₁, tr, -, -, rfl⟩ := (OperationFrame.applyGated_ok app _).mp h
    · obtain rfl | rfl | ⟨tr, rfl⟩ := OperationFrame.checkValid_code app _ hcode <;> simp
    · simp
  · intro forApply mResult w₁ code w₂ hsource hcode
    refine (OperationFrame.checkValidGated_ok app _).mpr ⟨code.map .opINNER, ?_, ?_⟩
    · refine rolledBack_ok.mpr ⟨{ w₁ with ext := w₂ }, ?_, rfl⟩
      refine bind_ok.mpr ⟨w.ltx.header, w, rfl, bind_ok.mpr ⟨none, w₁, hsource, ?_⟩⟩
      exact bind_ok.mpr ⟨code, _, onExt_ok.mpr ⟨w₂, hcode, rfl⟩, rfl⟩
    · cases code <;> rfl
  · intro mResult mResult' w₁ tr w₂ hgated happly
    obtain ⟨code, hcode, heq⟩ := (OperationFrame.checkValidGated_ok app _).mp hgated
    obtain rfl : code = none := by
      rw [← Option.isNone_iff_eq_none]
      exact (congrArg Prod.fst heq).symm
    exact (OperationFrame.applyGated_ok app _).mpr (.inr ⟨w₁, tr, hcode, happly, rfl⟩)

/-! ## A bump before its version -/

/-- `standaloneWorld` under a version that does not have the operation. -/
def versionSevenWorld : World Unit :=
  .start (startNewLedger 7 { genesisLedger with ledgerVersion := 7 }) ()

def unsupportedBump : TransactionEnvelope where
  tx := { sourceAccount := 7, fee := 100, seqNum := 1, timeBounds := none,
          operations := [⟨none, .BUMP_SEQUENCE 9⟩] }
  signatures := [⟨7, []⟩]

/-- The unsupported operation is applied: its transaction succeeds and sets the sequence number. -/
theorem unsupportedBump_applied :
    isVersionSupported (.BUMP_SEQUENCE 9) versionSevenWorld.ltx.header.ledgerVersion = false ∧
      (∃ w', Transactions.checkValid standalone unsupportedBump 0 versionSevenWorld =
        .ok .txSUCCESS w') ∧
      (∃ w', applyTransaction standalone unsupportedBump versionSevenWorld =
          .ok ⟨.txSUCCESS, [.opINNER (.bumpSeqResult .BUMP_SEQUENCE_SUCCESS)]⟩ w' ∧
        (w'.ltx.account 7).map AccountEntry.seqNum = some 9) ∧
      ¬ InertAt standalone 7 ⟨none, .BUMP_SEQUENCE 9⟩ versionSevenWorld := by
  have happly := eq_ok_of_result? (r := applyTransaction standalone unsupportedBump versionSevenWorld)
    (a := ⟨.txSUCCESS, [.opINNER (.bumpSeqResult .BUMP_SEQUENCE_SUCCESS)]⟩) (by decide +kernel)
  refine ⟨by decide, ⟨_, eq_ok_of_result? (by decide +kernel)⟩, ⟨_, happly, ?_⟩, fun hinert => ?_⟩
  · decide +kernel
  · exact (hinert.transaction_fails unsupportedBump _ _ (by decide) rfl happly).1 rfl

end

end ZaggCore.Transactions
