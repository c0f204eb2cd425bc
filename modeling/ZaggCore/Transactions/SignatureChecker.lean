import Mathlib
import ZaggCore.Xdr.Types

/-! # `SignatureChecker`: which envelopes an account's signers authorise

The model of `transactions/SignatureChecker.cpp` and of the two predicates of
`transactions/SignatureUtils.cpp` it is called with. `sha256` and the ed25519 verification of the
crypto library are parameters (`Crypto`). The `verifyAll` closure of `checkSignature` starts the body
of its inner loop with `return true`, so the code behind that statement is never reached and is not
part of the model; `checkSignature_eq` is the closed form of what is left. -/

namespace ZaggCore.Signatures
set_option autoImplicit false
set_option maxHeartbeats 250000

/-- The primitives of the crypto library. -/
structure Crypto where
  sha256 : List UInt8 → Hash
  verifySig : PublicKey → Signature → Hash → Bool

/-! ## `SignatureUtils` -/

/-- The last four bytes of the key are the hint. -/
def doesHintMatch (bs : Uint256) (hint : SignatureHint) : Bool :=
  bs.val % 2 ^ 32 == hint.val

/-- `SignatureUtils::verify`: only an ed25519 signer key converts to a `PublicKey`. -/
def verify (c : Crypto) (sig : DecoratedSignature) (signerKey : SignerKey) (hash : Hash) : Bool :=
  match signerKey with
  | .ed25519 pubKey => doesHintMatch pubKey sig.hint && c.verifySig pubKey sig.signature hash
  | _ => false

def verifyHashX (c : Crypto) (sig : DecoratedSignature) (signerKey : SignerKey) : Bool :=
  match signerKey with
  | .hashX h => doesHintMatch h sig.hint && h == c.sha256 sig.signature
  | _ => false

/-! ## The checker -/

structure SignatureChecker where
  mProtocolVersion : ℕ
  mContentsHash : Hash
  mSignatures : List DecoratedSignature
  mUsedSignatures : List Bool
  mUsedOneTimeSignerKeys : AccountID → Finset SignerKey

/-- The constructor: no signature is marked used. -/
def SignatureChecker.new (protocolVersion : ℕ) (contentsHash : Hash)
    (signatures : List DecoratedSignature) : SignatureChecker where
  mProtocolVersion := protocolVersion
  mContentsHash := contentsHash
  mSignatures := signatures
  mUsedSignatures := List.replicate signatures.length false
  mUsedOneTimeSignerKeys := fun _ => ∅

/-- The weight a signer counts with: capped at `UINT8_MAX` after version 9. -/
def cappedWeight (protocolVersion : ℕ) (s : Signer) : ℕ :=
  if 9 < protocolVersion ∧ 255 < s.weight.val then 255 else s.weight.val

/-- `totalWeight += w` on an `int` and a `uint32_t`: the sum wraps modulo `2 ^ 32`. -/
def addWeight (totalWeight : ℤ) (w : ℕ) : ℤ := Int.bmod (totalWeight + w) (2 ^ 32)

/-- `split` of the signer list by key type, one part of it. -/
def signersOf (signersV : List Signer) (type : SignerKeyType) : List Signer :=
  signersV.filter fun s => s.key.type = type

/-- The loop over the pre-auth signers: whether it returned, the total weight and the one-time keys
it inserted. -/
def checkPreAuth (protocolVersion : ℕ) (contentsHash : Hash) (neededWeight : ℤ) :
    List Signer → ℤ → Finset SignerKey → Bool × ℤ × Finset SignerKey
  | [], totalWeight, used => (false, totalWeight, used)
  | s :: signers, totalWeight, used =>
    if s.key = .preAuthTx contentsHash then
      let totalWeight := addWeight totalWeight (cappedWeight protocolVersion s)
      let used := insert s.key used
      if neededWeight ≤ totalWeight then (true, totalWeight, used)
      else checkPreAuth protocolVersion contentsHash neededWeight signers totalWeight used
    else checkPreAuth protocolVersion contentsHash neededWeight signers totalWeight used

/-- The `verifyAll` closure. Its inner loop returns `true` at the first signer it looks at, before
`verify` is called and before any signature is marked used. -/
def verifyAll (signers : List Signer) (_verify : DecoratedSignature → Signer → Bool) :
    List DecoratedSignature → Bool
  | [] => false
  | _ :: signatures =>
    match signers with
    | _ :: _ => true
    | [] => verifyAll signers _verify signatures

def checkSignature (c : Crypto) (sc : SignatureChecker) (accountID : AccountID)
    (signersV : List Signer) (neededWeight : ℤ) : Bool × SignatureChecker :=
  if sc.mProtocolVersion = 7 then (true, sc)
  else
    match checkPreAuth sc.mProtocolVersion sc.mContentsHash neededWeight
        (signersOf signersV .SIGNER_KEY_TYPE_PRE_AUTH_TX) 0
        (sc.mUsedOneTimeSignerKeys accountID) with
    | (returned, _, used) =>
      let sc := { sc with
        mUsedOneTimeSignerKeys := Function.update sc.mUsedOneTimeSignerKeys accountID used }
      if returned then (true, sc)
      else if verifyAll (signersOf signersV .SIGNER_KEY_TYPE_HASH_X)
          (fun sig signer => verifyHashX c sig signer.key) sc.mSignatures then (true, sc)
      else if verifyAll (signersOf signersV .SIGNER_KEY_TYPE_ED25519)
          (fun sig signer => verify c sig signer.key sc.mContentsHash) sc.mSignatures then (true, sc)
      else (false, sc)

def checkAllSignaturesUsed (sc : SignatureChecker) : Bool :=
  if sc.mProtocolVersion = 7 then true else sc.mUsedSignatures.all id

/-! ## What an authorisation is -/

/-- A signer counts for an envelope: a pre-auth key is the contents hash, the other kinds come with
the position of an envelope signature that verifies for them. -/
def Matched (c : Crypto) (contentsHash : Hash) (signatures : List DecoratedSignature) (s : Signer)
    (position : Option ℕ) : Prop :=
  match s.key with
  | .preAuthTx h => h = contentsHash
  | .hashX h => ∃ i sig, position = some i ∧ signatures[i]? = some sig ∧ verifyHashX c sig (.hashX h)
  | .ed25519 k =>
    ∃ i sig, position = some i ∧ signatures[i]? = some sig ∧ verify c sig (.ed25519 k) contentsHash

/-- Some signers of the list, each taken once and each with a signature of its own, carry the needed
weight. -/
def Authorized (c : Crypto) (protocolVersion : ℕ) (contentsHash : Hash)
    (signatures : List DecoratedSignature) (signersV : List Signer) (neededWeight : ℤ) : Prop :=
  ∃ chosen : List (Signer × Option ℕ), chosen ≠ [] ∧
    (chosen.map Prod.fst).Subperm signersV ∧ (chosen.filterMap Prod.snd).Nodup ∧
    (∀ p ∈ chosen, Matched c contentsHash signatures p.1 p.2) ∧
    neededWeight ≤ ((chosen.map fun p => cappedWeight protocolVersion p.1).sum : ℕ)

/-! ## The pre-auth loop -/

theorem addWeight_le {t : ℤ} {w n : ℕ} (h : t ≤ n) (hlow : -2 ^ 31 ≤ t) :
    addWeight t w ≤ (n + w : ℕ) := by
  rw [addWeight, Int.bmod_def]
  push_cast
  split_ifs <;> omega

theorem neg_le_addWeight (t : ℤ) (w : ℕ) : -2 ^ 31 ≤ addWeight t w := by
  rw [addWeight, Int.bmod_def]
  push_cast
  split_ifs <;> omega

/-- When the pre-auth loop returns, a sublist of the signers it scanned matches the contents hash
and carries the needed weight, on top of what was counted before. -/
theorem checkPreAuth_sound (v : ℕ) (hash : Hash) (needed : ℤ) (signers : List Signer) (t : ℤ)
    (used : Finset SignerKey) (n : ℕ) (ht : t ≤ n) (hlow : -2 ^ 31 ≤ t)
    (h : (checkPreAuth v hash needed signers t used).1 = true) :
    ∃ S : List Signer, S ≠ [] ∧ S.Sublist signers ∧ (∀ s ∈ S, s.key = .preAuthTx hash) ∧
      needed ≤ (n + (S.map (cappedWeight v)).sum : ℕ) := by
  induction signers generalizing t used n with
  | nil => simp [checkPreAuth] at h
  | cons s signers ih =>
    by_cases hk : s.key = .preAuthTx hash
    · have ht' := addWeight_le (w := cappedWeight v s) ht hlow
      by_cases hn : needed ≤ addWeight t (cappedWeight v s)
      · refine ⟨[s], by simp, by simp, by simpa using hk, ?_⟩
        simpa using hn.trans ht'
      · rw [checkPreAuth, if_pos hk] at h
        simp only [if_neg hn] at h
        obtain ⟨S, _, hsub, hall, hw⟩ := ih _ _ _ ht' (neg_le_addWeight _ _) h
        refine ⟨s :: S, by simp, hsub.cons_cons s, ?_, ?_⟩
        · simpa [hk] using hall
        · simpa [Nat.add_assoc] using hw
    · rw [checkPreAuth, if_neg hk] at h
      obtain ⟨S, hne, hsub, hall, hw⟩ := ih _ _ _ ht hlow h
      exact ⟨S, hne, hsub.cons s, hall, hw⟩

theorem authorized_of_preAuth (c : Crypto) (v : ℕ) (hash : Hash) (sigs : List DecoratedSignature)
    (signersV : List Signer) (needed : ℤ) (used : Finset SignerKey)
    (h : (checkPreAuth v hash needed (signersOf signersV .SIGNER_KEY_TYPE_PRE_AUTH_TX) 0 used).1
      = true) :
    Authorized c v hash sigs signersV needed := by
  obtain ⟨S, hne, hsub, hall, hw⟩ := checkPreAuth_sound v hash needed _ 0 used 0 (by simp) (by norm_num) h
  refine ⟨S.map fun s => (s, none), by simpa using hne, ?_, ?_, ?_, ?_⟩
  · simpa [Function.comp_def] using (hsub.trans List.filter_sublist).subperm
  · simp [List.filterMap_map]
  · intro p hp
    obtain ⟨s, hs, rfl⟩ := List.mem_map.mp hp
    simp [Matched, hall s hs]
  · simpa [Function.comp_def] using hw

/-! ## The closed form of `checkSignature` -/

theorem verifyAll_eq (signers : List Signer) (verify : DecoratedSignature → Signer → Bool)
    (signatures : List DecoratedSignature) :
    verifyAll signers verify signatures = (!signers.isEmpty && !signatures.isEmpty) := by
  cases signers with
  | nil =>
    induction signatures with
    | nil => rfl
    | cons _ signatures ih => simpa [verifyAll] using ih
  | cons s signers => cases signatures <;> rfl

/-- The call reaches `verifyAll` with something to iterate over: the envelope is signed and the list
holds a hash-X or an ed25519 signer. -/
def EntersVerifyAll (signatures : List DecoratedSignature) (signersV : List Signer) : Prop :=
  signatures ≠ [] ∧ ∃ s ∈ signersV, s.key.type ≠ .SIGNER_KEY_TYPE_PRE_AUTH_TX

instance (signatures : List DecoratedSignature) (signersV : List Signer) :
    Decidable (EntersVerifyAll signatures signersV) :=
  inferInstanceAs (Decidable (_ ∧ _))

theorem entersVerifyAll_iff (signatures : List DecoratedSignature) (signersV : List Signer) :
    EntersVerifyAll signatures signersV ↔ signatures ≠ [] ∧
      (signersOf signersV .SIGNER_KEY_TYPE_HASH_X ≠ [] ∨
        signersOf signersV .SIGNER_KEY_TYPE_ED25519 ≠ []) := by
  unfold EntersVerifyAll signersOf
  refine and_congr_right fun _ => ?_
  simp only [ne_eq, List.filter_eq_nil_iff, not_forall, decide_eq_true_eq, not_not]
  constructor
  · rintro ⟨s, hs, hk⟩
    cases ht : s.key.type with
    | SIGNER_KEY_TYPE_ED25519 => exact .inr ⟨s, hs, ht⟩
    | SIGNER_KEY_TYPE_PRE_AUTH_TX => exact absurd ht hk
    | SIGNER_KEY_TYPE_HASH_X => exact .inl ⟨s, hs, ht⟩
  · rintro (⟨s, hs, ht⟩ | ⟨s, hs, ht⟩) <;> exact ⟨s, hs, by simp [ht]⟩

/-- Outside version 7 the call succeeds exactly when the pre-auth loop returned or `verifyAll` was
entered. -/
theorem checkSignature_eq (c : Crypto) (sc : SignatureChecker) (accountID : AccountID)
    (signersV : List Signer) (needed : ℤ) (hv : sc.mProtocolVersion ≠ 7) :
    (checkSignature c sc accountID signersV needed).1 = true ↔
      (checkPreAuth sc.mProtocolVersion sc.mContentsHash needed
        (signersOf signersV .SIGNER_KEY_TYPE_PRE_AUTH_TX) 0
        (sc.mUsedOneTimeSignerKeys accountID)).1 = true ∨
      EntersVerifyAll sc.mSignatures signersV := by
  rw [entersVerifyAll_iff, checkSignature, if_neg hv]
  simp only [verifyAll_eq]
  split_ifs with h1 h2 h3
  · simp [h1]
  · simp_all
  · simp_all
  · simp only [Bool.false_eq_true, h1, false_or, false_iff, not_and, not_or, not_not]
    simp_all
    tauto

/-- A call changes nothing but the one-time keys. -/
theorem checkSignature_frame (c : Crypto) (sc : SignatureChecker) (accountID : AccountID)
    (signersV : List Signer) (needed : ℤ) :
    let sc' := (checkSignature c sc accountID signersV needed).2
    sc'.mProtocolVersion = sc.mProtocolVersion ∧ sc'.mContentsHash = sc.mContentsHash ∧
      sc'.mSignatures = sc.mSignatures ∧ sc'.mUsedSignatures = sc.mUsedSignatures := by
  intro sc'
  simp only [sc', checkSignature]
  split_ifs <;> simp

/-! ## Runs of one checker -/

/-- The arguments of one `checkSignature` call. -/
structure Call where
  accountID : AccountID
  signersV : List Signer
  neededWeight : ℤ

/-- A checker called with each of `calls` in order: the results and the final checker. -/
def runCalls (c : Crypto) : SignatureChecker → List Call → List Bool × SignatureChecker
  | sc, [] => ([], sc)
  | sc, call :: calls =>
    let (res, sc) := checkSignature c sc call.accountID call.signersV call.neededWeight
    let (ress, sc) := runCalls c sc calls
    (res :: ress, sc)

/-- The envelope signature verifies for the signer. -/
def VerifiesFor (c : Crypto) (contentsHash : Hash) (sig : DecoratedSignature) (s : Signer) : Prop :=
  verifyHashX c sig s.key = true ∨ verify c sig s.key contentsHash = true

/-- What the checker promises over a run: a call that succeeded was authorised, and when all
signatures count as used each of them verified for some signer of some call. -/
def SoundRun (c : Crypto) (protocolVersion : ℕ) (contentsHash : Hash)
    (signatures : List DecoratedSignature) (calls : List Call) : Prop :=
  let run := runCalls c (SignatureChecker.new protocolVersion contentsHash signatures) calls
  (∀ p ∈ calls.zip run.1, p.2 = true →
    Authorized c protocolVersion contentsHash signatures p.1.signersV p.1.neededWeight) ∧
  (checkAllSignaturesUsed run.2 = true →
    ∀ sig ∈ signatures, ∃ call ∈ calls, ∃ s ∈ call.signersV, VerifiesFor c contentsHash sig s)

theorem runCalls_frame (c : Crypto) (sc : SignatureChecker) (calls : List Call) :
    let sc' := (runCalls c sc calls).2
    sc'.mProtocolVersion = sc.mProtocolVersion ∧ sc'.mUsedSignatures = sc.mUsedSignatures := by
  induction calls generalizing sc with
  | nil => simp [runCalls]
  | cons call calls ih =>
    have hf := checkSignature_frame c sc call.accountID call.signersV call.neededWeight
    have hr := ih (checkSignature c sc call.accountID call.signersV call.neededWeight).2
    exact ⟨hr.1.trans hf.1, hr.2.trans hf.2.2.2⟩

/-- Over a run, every successful call is authorised iff every call that enters `verifyAll` is. -/
theorem runCalls_authorized_iff (c : Crypto) (sc : SignatureChecker) (calls : List Call)
    (hv : sc.mProtocolVersion ≠ 7) :
    (∀ p ∈ calls.zip (runCalls c sc calls).1, p.2 = true →
      Authorized c sc.mProtocolVersion sc.mContentsHash sc.mSignatures p.1.signersV
        p.1.neededWeight) ↔
    ∀ call ∈ calls, EntersVerifyAll sc.mSignatures call.signersV →
      Authorized c sc.mProtocolVersion sc.mContentsHash sc.mSignatures call.signersV
        call.neededWeight := by
  induction calls generalizing sc with
  | nil => simp [runCalls]
  | cons call calls ih =>
    obtain ⟨hver, hhash, hsigs, -⟩ :=
      checkSignature_frame c sc call.accountID call.signersV call.neededWeight
    have hrest := ih (checkSignature c sc call.accountID call.signersV call.neededWeight).2
      (by rw [hver]; exact hv)
    rw [hver, hhash, hsigs] at hrest
    simp only [runCalls, List.zip_cons_cons, List.forall_mem_cons, hrest]
    refine and_congr_left fun _ => ?_
    rw [checkSignature_eq c sc _ _ _ hv]
    constructor
    · exact fun h henter => h (.inr henter)
    · rintro h (hpre | henter)
      · exact authorized_of_preAuth _ _ _ _ _ _ _ hpre
      · exact h henter

/-- No run marks a signature used, so all of them count as used only when there is none. -/
theorem checkAllSignaturesUsed_run (c : Crypto) (v : ℕ) (hash : Hash)
    (signatures : List DecoratedSignature) (calls : List Call) (hv : v ≠ 7)
    (h : checkAllSignaturesUsed (runCalls c (.new v hash signatures) calls).2 = true) :
    signatures = [] := by
  obtain ⟨hver, hused⟩ := runCalls_frame c (.new v hash signatures) calls
  rw [checkAllSignaturesUsed, hver, hused, if_neg (by exact hv)] at h
  cases signatures with
  | nil => rfl
  | cons sig signatures => simp [SignatureChecker.new, List.replicate_succ] at h

/-- **Signature soundness.** A run of the checker keeps its promise exactly when each of its calls
either stays out of `verifyAll` or is authorised anyway. -/
theorem checkSignature_sound_iff (c : Crypto) (protocolVersion : ℕ) (contentsHash : Hash)
    (signatures : List DecoratedSignature) (calls : List Call) (hv : protocolVersion ≠ 7) :
    SoundRun c protocolVersion contentsHash signatures calls ↔
      ∀ call ∈ calls, ¬ EntersVerifyAll signatures call.signersV ∨
        Authorized c protocolVersion contentsHash signatures call.signersV call.neededWeight := by
  have hcalls := runCalls_authorized_iff c (.new protocolVersion contentsHash signatures) calls hv
  simp only [← imp_iff_not_or]
  refine ⟨fun h => hcalls.mp h.1, fun h => ⟨hcalls.mpr h, fun hall sig hsig => ?_⟩⟩
  rw [checkAllSignaturesUsed_run c protocolVersion contentsHash signatures calls hv hall] at hsig
  cases hsig

/-- A crypto library under which nothing verifies. -/
def nothingVerifies : Crypto where
  sha256 := fun _ => 0
  verifySig := fun _ _ _ => false

/-- Signer 1 of weight 1, asked for weight 100. -/
def unsignedCall : Call := ⟨1, [⟨.ed25519 1, 1⟩], 100⟩

/-- A crypto library under which one signature of key 1 verifies. -/
def oneVerifies : Crypto where
  sha256 := fun _ => 0
  verifySig := fun pubKey signature hash => pubKey = 1 && signature = [7] && hash = 5

/-- An account that authorized the transaction beforehand, and one whose key 1 has to sign it. -/
def authorizedCalls : List Call :=
  [⟨1, [⟨.preAuthTx 5, 1⟩], 1⟩, ⟨2, [⟨.ed25519 1, 2⟩, ⟨.ed25519 9, 1⟩], 2⟩]

theorem checkSignature_sound_iff_authorized :
    (runCalls oneVerifies (.new 10 5 [⟨1, [7]⟩]) authorizedCalls).1 = [true, true] ∧
      EntersVerifyAll [⟨1, [7]⟩] [⟨.ed25519 1, 2⟩, ⟨.ed25519 9, 1⟩] ∧
      SoundRun oneVerifies 10 5 [⟨1, [7]⟩] authorizedCalls := by
  refine ⟨by decide, by decide,
    (checkSignature_sound_iff oneVerifies 10 5 [⟨1, [7]⟩] authorizedCalls (by decide)).mpr fun call hcall => ?_⟩
  obtain rfl | hcall := List.mem_cons.mp hcall
  · exact .inl (by decide)
  · obtain rfl := List.mem_singleton.mp hcall
    -- key 1 signed, and its weight alone is enough
    refine .inr ⟨[(⟨.ed25519 1, 2⟩, some 0)], by decide, ?_, by decide, fun p hp => ?_, by decide⟩
    · exact (List.singleton_sublist.mpr List.mem_cons_self).subperm
    · obtain rfl := List.mem_singleton.mp hp
      exact ⟨0, ⟨1, [7]⟩, rfl, rfl, by decide⟩

theorem not_authorized_of_short (c : Crypto) (v : ℕ) (hash : Hash) (sigs : List DecoratedSignature)
    (signersV : List Signer) (needed : ℤ)
    (hw : ((signersV.map (cappedWeight v)).sum : ℕ) < needed) :
    ¬ Authorized c v hash sigs signersV needed := by
  rintro ⟨chosen, _, hsub, _, _, hle⟩
  obtain ⟨l, hperm, hsl⟩ := hsub
  have h1 : (chosen.map fun p => cappedWeight v p.1).sum = (l.map (cappedWeight v)).sum := by
    rw [(hperm.map (cappedWeight v)).sum_eq, List.map_map]
    rfl
  have h2 : (l.map (cappedWeight v)).sum ≤ (signersV.map (cappedWeight v)).sum :=
    (hsl.map _).sum_le_sum (fun _ _ => Nat.zero_le _)
  omega

/-- One signature that verifies for nobody passes a check for weight 100. -/
theorem checkSignature_unsound :
    ¬ SoundRun nothingVerifies 10 5 [⟨0, []⟩] [unsignedCall] := by
  rw [SoundRun]
  rintro ⟨h, -⟩
  refine not_authorized_of_short nothingVerifies 10 5 [⟨0, []⟩] unsignedCall.signersV 100 ?_
    (h (unsignedCall, true) ?_ rfl)
  · decide
  · simp [runCalls, checkSignature, checkPreAuth, verifyAll, signersOf, unsignedCall,
      SignatureChecker.new, SignerKey.type]

end ZaggCore.Signatures
