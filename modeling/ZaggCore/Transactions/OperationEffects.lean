import Mathlib
import ZaggCore.Transactions.AccountOperations
import ZaggCore.Transactions.CrossingEffects

/-! # What operations on accounts move

An operation that succeeds moves nothing in sum: lumens only change hands, and entries come and go with the
counts of their owners. From version 8 on. -/

namespace ZaggCore.Transactions
set_option autoImplicit false
set_option maxHeartbeats 250000

open Foundations Numeric AbstractLedgerTxn

variable {X Q : Type} {w w' : World X}

/-! ## Source accounts -/

/-- Both ways to load an account give a handle that is held. -/
theorem loadSource_ok (hv : 8 ≤ w.ltx.header.ledgerVersion) {a : AccountID} {acc : AccountEntry}
    (h : (do current (← loadAccountCached a)) w = .ok acc w') :
    w'.ltx = w.ltx ∧ Held w.ltx acc ∧ acc.accountID = a := by
  obtain ⟨res, w₁, h₁, h⟩ := bind_ok.mp h
  obtain ⟨hacc, rfl⟩ := (loadAccountCached_ok hv).mp h₁
  obtain ⟨rfl, rfl⟩ := current_ok.mp h
  exact ⟨w.ltx_load _, held_of_account hacc, accountID_of_account hacc⟩

/-- An update that gives a value made the change. -/
theorem updateAccount_some {assign : AccountEntry → AppM X Unit}
    {change : AccountEntry → Except Exception (Option AccountEntry)} {acc acc' : AccountEntry}
    (h : updateAccount assign change acc w = .ok (some acc') w') : change acc = .ok (some acc') := by
  obtain ⟨res, w₁, h₁, h⟩ := bind_ok.mp h
  obtain ⟨hchange, rfl⟩ := lift_ok.mp h₁
  cases res with
  | none => cases (pure_ok.mp h).1
  | some acc₁ =>
    obtain ⟨_, w₂, -, h⟩ := bind_ok.mp h
    rw [hchange, (pure_ok.mp h).1]

/-- One entry more or less on the count of the source. -/
theorem countSource_ok (hv : 8 ≤ w.ltx.header.ledgerVersion) {header : LedgerHeader} {a : AccountID} {count : ℤ}
    (hcount : count = 1 ∨ count = -1) {res : Option AccountEntry}
    (h : (do
      let acc ← current (← loadAccountCached a)
      updateAccount storeCached (addNumEntries header · count) acc) w = .ok res w') :
    res = none ∧ count = 1 ∧ w'.ltx = w.ltx ∨
      res.isSome ∧ Moves (0, Pi.single a (-count)) w.ltx w'.ltx ∧
        ∀ k, (∀ b, k ≠ .account b) → w'.ltx.getNewestVersion k = w.ltx.getNewestVersion k := by
  obtain ⟨res', w₁, h₁, h⟩ := bind_ok.mp h
  obtain ⟨acc, w₂, h₂, h⟩ := bind_ok.mp h
  obtain ⟨hltx, hheld, hid⟩ := loadSource_ok hv (bind_ok.mpr ⟨res', w₁, h₁, h₂⟩)
  rw [← hltx] at hv hheld ⊢
  rw [← hid]
  obtain ⟨rfl, hpos, hltx'⟩ | ⟨acc', rfl, -, -, hltx', hm⟩ :=
    addNumEntries_moves assigns_storeCached hcount hv hheld h
  · exact .inl ⟨rfl, hpos, hltx'⟩
  · refine .inr ⟨rfl, hm, fun k hk => ?_⟩
    rw [hltx', getNewestVersion_put, if_neg]
    exact hk acc'.accountID

/-! ## Creating an account -/

/-- What is taken off a balance was in it. -/
theorem AccountEntry.le_of_addBalance {header : LedgerHeader} {acc acc' : AccountEntry} {amount : ℤ}
    (h : AccountEntry.addBalance header acc (-amount) = .ok (some acc')) : amount = 0 ∨ amount ≤ acc.balance := by
  by_cases hzero : amount = 0
  · exact .inl hzero
  · right
    unfold AccountEntry.addBalance at h
    rw [if_neg (by omega)] at h
    obtain ⟨res, hres, h⟩ := except_bind_ok.mp h
    cases res with
    | none => cases except_pure_ok.mp h
    | some b =>
      obtain ⟨rfl, hnonneg, -⟩ := addBalance_ok hres
      omega

theorem toInt64_startingSequenceNumber {header : LedgerHeader} (h : header.ledgerSeq < 2 ^ 31) :
    toInt64 (getStartingSequenceNumber header) = header.ledgerSeq * 2 ^ 32 := by
  unfold getStartingSequenceNumber toInt64
  rw [Nat.mod_eq_of_lt (by omega)]
  push_cast
  rw [Int.bmod_eq_of_le] <;> omega

theorem CreateAccountOpFrame.doApply_moves {sourceID destination : AccountID} {startingBalance : ℤ}
    (hv : 8 ≤ w.ltx.header.ledgerVersion)
    (h : doApply sourceID destination startingBalance w = .ok .CREATE_ACCOUNT_SUCCESS w') :
    Moves 0 w.ltx w'.ltx := by
  obtain ⟨res, w₁, h₁, h⟩ := bind_ok.mp h
  obtain ⟨hres, rfl⟩ := loadAccount_ok.mp h₁
  split at h
  case isTrue => cases (pure_ok.mp h).1
  case isFalse =>
    obtain ⟨header, w₁, h₁, h⟩ := bind_ok.mp h
    obtain ⟨rfl, rfl⟩ := loadHeader_ok.mp h₁
    split at h
    case isTrue => cases (pure_ok.mp h).1
    case isFalse hreserve =>
      obtain ⟨_, w₁, h₁, h⟩ := bind_ok.mp h
      obtain ⟨-, rfl⟩ := loadAccountWithoutRecord_ok.mp h₁
      obtain ⟨res', w₁, h₁, h⟩ := bind_ok.mp h
      obtain ⟨acc, w₂, h₂, h⟩ := bind_ok.mp h
      obtain ⟨hltx, hheld, -⟩ :=
        loadSource_ok (by rwa [World.ltx_load]) (bind_ok.mpr ⟨res', w₁, h₁, h₂⟩)
      split at h
      case isTrue => cases (pure_ok.mp h).1
      case isFalse =>
        obtain ⟨_, w₃, h₃, h⟩ := bind_ok.mp h
        obtain ⟨-, rfl⟩ := lift_ok.mp h₃
        obtain ⟨ok, w₃, h₃, h⟩ := bind_ok.mp h
        obtain ⟨_, w₄, h₄, h⟩ := bind_ok.mp h
        obtain ⟨hok, rfl⟩ := lift_ok.mp h₄
        obtain ⟨_, w₄, h₄, h⟩ := bind_ok.mp h
        obtain ⟨hnone, rfl⟩ := create_ok.mp h₄
        obtain ⟨-, rfl⟩ := pure_ok.mp h
        rw [World.ltx_load] at hltx hheld hnone
        rw [← hltx] at hv hheld
        obtain ⟨rfl, -⟩ | ⟨acc', rfl, -, -, -, hm⟩ := addBalance_moves assigns_storeCached hv hheld h₃
        · cases assert_ok.mp hok
        · rw [hltx] at hm
          have habsent : w₃.ltx.account (newAccount (w.load (.account destination)).ltx.header destination
              startingBalance).accountID = none := account_eq_none.mpr hnone
          have hnew := hm.createAccount habsent
          refine (hnew (fun hfit => ?_) ?_ fun hs => ?_).cast ?_
          -- the source paid the starting balance
          · rw [hltx] at hheld
            have hbalance := hfit.balances _ _ hheld
            obtain rfl | hle := AccountEntry.le_of_addBalance (updateAccount_some h₃)
            · simp [newAccount, IsAmount, INT64_MAX]
            · exact ⟨(getMinBalance_nonneg _ _).trans (not_lt.mp hreserve), hle.trans hbalance.2⟩
          · simp [newAccount]
          · rw [newAccount, World.ltx_load, toInt64_startingSequenceNumber hs]
          · simp [worth, newAccount]

/-! ## Merging an account -/

theorem MergeOpFrame.doApply_moves {sourceID destination : AccountID} (hne : sourceID ≠ destination)
    (hv : 8 ≤ w.ltx.header.ledgerVersion)
    (h : doApply sourceID destination w = .ok .ACCOUNT_MERGE_SUCCESS w') : Moves 0 w.ltx w'.ltx := by
  obtain ⟨header, w₁, h₁, h⟩ := bind_ok.mp h
  obtain ⟨rfl, rfl⟩ := loadHeader_ok.mp h₁
  obtain ⟨other, w₁, h₁, h⟩ := bind_ok.mp h
  obtain ⟨hother, rfl⟩ := loadAccount_ok.mp h₁
  cases other with
  | none => cases (pure_ok.mp h).1
  | some other =>
    obtain ⟨stale, w₁, h₁, h⟩ := bind_ok.mp h
    unfold staleBalance at h₁
    rw [if_neg (by omega)] at h₁
    obtain ⟨rfl, rfl⟩ := pure_ok.mp h₁
    obtain ⟨res, w₁, h₁, h⟩ := bind_ok.mp h
    obtain ⟨acc, w₂, h₂, h⟩ := bind_ok.mp h
    obtain ⟨hltx, hheld, hid⟩ :=
      loadSource_ok (by rwa [World.ltx_load]) (bind_ok.mpr ⟨res, w₁, h₁, h₂⟩)
    rw [World.ltx_load] at hltx hheld
    split at h
    case isTrue => cases (pure_ok.mp h).1
    case isFalse =>
      split at h
      case isTrue => cases (pure_ok.mp h).1
      case isFalse hentries =>
        split at h
        case isTrue => cases (pure_ok.mp h).1
        case isFalse hseq =>
          obtain ⟨ok, w₃, h₃, h⟩ := bind_ok.mp h
          rw [if_pos (.inr hv)] at h₃
          rw [← hltx] at hv hheld hother
          obtain ⟨rfl, -⟩ | ⟨other', rfl, hid', -, hltx₃, hm⟩ :=
            addBalance_moves assigns_storeAccount hv (held_of_account hother) h₃
          · cases (pure_ok.mp h).1
          · obtain ⟨_, w₄, h₄, h⟩ := bind_ok.mp h
            obtain ⟨-, rfl⟩ := pure_ok.mp h
            obtain ⟨-, rfl⟩ := erase_ok.mp h₄
            -- the account that goes is another one
            have hsource : w₃.ltx.account acc.accountID = some acc := by
              rw [hltx₃, account_put_account, if_neg, hheld]
              rw [hid', hid, accountID_of_account hother]
              exact hne
            rw [hltx] at hm
            refine (hm.trans (Moves.eraseAccount hsource fun h10 hs => ?_)).cast ?_
            · rw [hm.version] at h10
              rw [hm.ledgerSeq] at hs ⊢
              rw [toInt64_startingSequenceNumber hs, not_and_or] at hseq
              obtain hlow | hseq := hseq
              · exact absurd h10 hlow
              · exact (not_le.mp hseq).le
            · have hlength : acc.numSubEntries = acc.signers.length := not_not.mp hentries
              simp [worth, hlength]

/-! ## Sequence numbers -/

/-- An assignment that leaves balance and count alone. -/
theorem storeCached_moves (hv : 8 ≤ w.ltx.header.ledgerVersion) {acc acc' : AccountEntry}
    (hheld : Held w.ltx acc) (hstep : AccountStep 0 acc acc') {u : Unit} (h : storeCached acc' w = .ok u w') :
    Moves 0 w.ltx w'.ltx := by
  rw [assigns_storeCached acc' w w' hv h]
  refine (Moves.account hheld hstep).cast ?_
  simp

theorem BumpSequenceOpFrame.doApply_moves {sourceID : AccountID} {bumpTo : ℤ} {code : BumpSequenceResultCode}
    (hv : 8 ≤ w.ltx.header.ledgerVersion) (h : doApply sourceID bumpTo w = .ok code w') :
    Moves 0 w.ltx w'.ltx := by
  obtain h | ⟨w₁, -, rfl⟩ := committedIf_ok.mp h
  · obtain ⟨res, w₁, h₁, h⟩ := bind_ok.mp h
    obtain ⟨acc, w₂, h₂, h⟩ := bind_ok.mp h
    obtain ⟨hltx, hheld, -⟩ := loadSource_ok hv (bind_ok.mpr ⟨res, w₁, h₁, h₂⟩)
    rw [← hltx] at hv hheld ⊢
    split at h
    case isTrue hlt =>
      obtain ⟨_, w₃, h₃, h⟩ := bind_ok.mp h
      obtain ⟨-, rfl⟩ := pure_ok.mp h
      have hstep : AccountStep 0 acc { acc with seqNum := bumpTo } := .of_eq rfl hlt.le rfl rfl rfl
      exact storeCached_moves hv hheld hstep h₃
    case isFalse => cases (pure_ok.mp h).1
  · exact .of_eq rfl

/-! ## Data and trust lines -/

/-- An entry of the source that comes, after it was counted. -/
theorem countAndCreate_moves (hv : 8 ≤ w.ltx.header.ledgerVersion) {header : LedgerHeader} {a : AccountID}
    {e : LedgerEntryData} (he : ∀ b, e.key ≠ .account b) (howner : LedgerKey.owner e.key = a) {w₁ : World X}
    {res : Option AccountEntry}
    (h : (do
      let acc ← current (← loadAccountCached a)
      updateAccount storeCached (addNumEntries header · 1) acc) w = .ok res w₁)
    (hres : ¬ res.isNone) (hcreate : create e w₁ = .ok () w') : Moves 0 w.ltx w'.ltx := by
  obtain ⟨rfl, -⟩ | ⟨-, hm₁, -⟩ := countSource_ok hv (.inl rfl) h
  · exact absurd rfl hres
  · obtain ⟨hm₂, -⟩ := create_moves he hcreate
    refine (hm₁.trans hm₂).cast ?_
    rw [howner, Prod.mk_add_mk, ← Pi.single_add]
    simp

/-- An entry of the source that goes, and is counted off. -/
theorem eraseAndCount_moves (hv : 8 ≤ w.ltx.header.ledgerVersion) {header : LedgerHeader} {a : AccountID}
    {key : LedgerKey} (hkey : ∀ b, key ≠ .account b) (howner : LedgerKey.owner key = a) {w₁ : World X}
    {res : Option AccountEntry} (herase : erase key w = .ok () w₁)
    (h : (do
      let acc ← current (← loadAccountCached a)
      updateAccount storeCached (addNumEntries header · (-1)) acc) w₁ = .ok res w') : Moves 0 w.ltx w'.ltx := by
  have hm₁ := erase_moves hkey herase
  obtain ⟨-, hcount, -⟩ | ⟨-, hm₂, -⟩ := countSource_ok (by rwa [hm₁.version]) (.inr rfl) h
  · omega
  · refine (hm₁.trans hm₂).cast ?_
    rw [howner]
    simp

theorem ManageDataOpFrame.doApply_moves {sourceID : AccountID} {dataName : String64}
    {dataValue : Option (List (Fin 256))} (hv : 8 ≤ w.ltx.header.ledgerVersion)
    (h : doApply sourceID dataName dataValue w = .ok .MANAGE_DATA_SUCCESS w') : Moves 0 w.ltx w'.ltx := by
  obtain ⟨header, w₁, h₁, h⟩ := bind_ok.mp h
  obtain ⟨rfl, rfl⟩ := loadHeader_ok.mp h₁
  obtain ⟨_, w₁, h₁, h⟩ := bind_ok.mp h
  obtain ⟨-, rfl⟩ := lift_ok.mp h₁
  obtain ⟨res, w₁, h₁, h⟩ := bind_ok.mp h
  obtain ⟨hdata, rfl⟩ := loadData_ok.mp h₁
  have hltx := w.ltx_load (.data sourceID dataName)
  rw [← hltx] at hv hdata ⊢
  cases dataValue with
  | some value =>
    cases res with
    | none =>
      obtain ⟨loaded, w₂, h₂, h⟩ := bind_ok.mp h
      obtain ⟨acc, w₃, h₃, h⟩ := bind_ok.mp h
      obtain ⟨counted, w₄, h₄, h⟩ := bind_ok.mp h
      split at h
      case isTrue => cases (pure_ok.mp h).1
      case isFalse hres =>
        obtain ⟨_, w₅, h₅, h⟩ := bind_ok.mp h
        obtain ⟨-, rfl⟩ := pure_ok.mp h
        exact countAndCreate_moves (e := .data ⟨sourceID, dataName, value⟩) hv (by simp [LedgerEntryData.key]) rfl
          (bind_ok.mpr ⟨loaded, w₂, h₂, bind_ok.mpr ⟨acc, w₃, h₃, h₄⟩⟩) hres h₅
    | some d =>
      obtain ⟨_, w₂, h₂, h⟩ := bind_ok.mp h
      obtain ⟨-, rfl⟩ := pure_ok.mp h
      have hpresent := data_eq_some.mp hdata
      have hkey := (w.load (.data sourceID dataName)).ltx.keyed _ _ hpresent
      refine (store_moves (by simp [LedgerEntryData.key]) ?_ h₂).1
      change ((w.load _).ltx.getNewestVersion (LedgerEntryData.data d).key).isSome
      rw [hkey, hpresent]
      rfl
  | none =>
    cases res with
    | none => cases (pure_ok.mp h).1
    | some d =>
      obtain ⟨_, w₂, h₂, h⟩ := bind_ok.mp h
      obtain ⟨loaded, w₃, h₃, h⟩ := bind_ok.mp h
      obtain ⟨acc, w₄, h₄, h⟩ := bind_ok.mp h
      obtain ⟨counted, w₅, h₅, h⟩ := bind_ok.mp h
      obtain ⟨-, rfl⟩ := pure_ok.mp h
      exact eraseAndCount_moves hv (by simp) rfl h₂
        (bind_ok.mpr ⟨loaded, w₃, h₃, bind_ok.mpr ⟨acc, w₄, h₄, h₅⟩⟩)

theorem ChangeTrustOpFrame.modifyLine_moves {header : LedgerHeader} {sourceID issuerID : AccountID} {line : Asset}
    {limit : ℤ} {trustLine : TrustLineEntry} (hv : 8 ≤ w.ltx.header.ledgerVersion)
    (hline : w.ltx.trustLine sourceID line = some trustLine)
    (h : modifyLine header sourceID issuerID line limit trustLine w = .ok .CHANGE_TRUST_SUCCESS w') :
    Moves 0 w.ltx w'.ltx := by
  unfold modifyLine at h
  split at h
  case isTrue => cases (pure_ok.mp h).1
  case isFalse =>
    split at h
    case isTrue =>
      obtain ⟨_, w₂, h₂, h⟩ := bind_ok.mp h
      obtain ⟨loaded, w₃, h₃, h⟩ := bind_ok.mp h
      obtain ⟨acc, w₄, h₄, h⟩ := bind_ok.mp h
      obtain ⟨counted, w₅, h₅, h⟩ := bind_ok.mp h
      obtain ⟨-, rfl⟩ := pure_ok.mp h
      exact eraseAndCount_moves hv (by simp) rfl h₂
        (bind_ok.mpr ⟨loaded, w₃, h₃, bind_ok.mpr ⟨acc, w₄, h₄, h₅⟩⟩)
    case isFalse =>
      obtain ⟨issuer, w₁, h₁, h⟩ := bind_ok.mp h
      obtain ⟨-, rfl⟩ := loadAccountWithoutRecord_ok.mp h₁
      split at h
      case isTrue => cases (pure_ok.mp h).1
      case isFalse =>
        obtain ⟨_, w₂, h₂, h⟩ := bind_ok.mp h
        obtain ⟨-, rfl⟩ := pure_ok.mp h
        obtain ⟨hid, hasset⟩ := key_of_trustLine hline
        refine (store_moves (by simp [LedgerEntryData.key]) ?_ h₂).1
        rw [LedgerEntryData.key, hid, hasset, trustLine_eq_some.mp hline]
        rfl

theorem ChangeTrustOpFrame.createLine_moves {header : LedgerHeader} {sourceID issuerID : AccountID} {line : Asset}
    {limit : ℤ} (hv : 8 ≤ w.ltx.header.ledgerVersion)
    (h : createLine header sourceID issuerID line limit w = .ok .CHANGE_TRUST_SUCCESS w') :
    Moves 0 w.ltx w'.ltx := by
  unfold createLine at h
  split at h
  case isTrue => cases (pure_ok.mp h).1
  case isFalse =>
    obtain ⟨issuer, w₁, h₁, h⟩ := bind_ok.mp h
    obtain ⟨-, rfl⟩ := loadAccountWithoutRecord_ok.mp h₁
    cases issuer with
    | none => cases (pure_ok.mp h).1
    | some issuer =>
      obtain ⟨loaded, w₂, h₂, h⟩ := bind_ok.mp h
      obtain ⟨acc, w₃, h₃, h⟩ := bind_ok.mp h
      obtain ⟨counted, w₄, h₄, h⟩ := bind_ok.mp h
      split at h
      case isTrue => cases (pure_ok.mp h).1
      case isFalse hres =>
        obtain ⟨_, w₅, h₅, h⟩ := bind_ok.mp h
        obtain ⟨-, rfl⟩ := pure_ok.mp h
        refine countAndCreate_moves hv ?_ ?_ (bind_ok.mpr ⟨loaded, w₂, h₂, bind_ok.mpr ⟨acc, w₃, h₃, h₄⟩⟩) hres h₅
        · simp [LedgerEntryData.key]
        · rfl

theorem ChangeTrustOpFrame.doApply_moves {sourceID : AccountID} {line : Asset} {limit : ℤ}
    (hv : 8 ≤ w.ltx.header.ledgerVersion)
    (h : doApply sourceID line limit w = .ok .CHANGE_TRUST_SUCCESS w') : Moves 0 w.ltx w'.ltx := by
  obtain ⟨header, w₁, h₁, h⟩ := bind_ok.mp h
  obtain ⟨rfl, rfl⟩ := loadHeader_ok.mp h₁
  obtain ⟨issuerID, w₁, h₁, h⟩ := bind_ok.mp h
  obtain ⟨-, rfl⟩ := lift_ok.mp h₁
  split at h
  case isTrue =>
    rw [if_pos (by omega)] at h
    cases (pure_ok.mp h).1
  case isFalse =>
    obtain ⟨res, w₁, h₁, h⟩ := bind_ok.mp h
    obtain ⟨hline, rfl⟩ := loadTrustLineEntry_ok.mp h₁
    have hltx := w.ltx_load (.trustLine sourceID line)
    rw [← hltx] at hv hline ⊢
    cases res with
    | some trustLine => exact modifyLine_moves hv hline h
    | none => exact createLine_moves hv h

/-! ## Authorizing a trust line -/

theorem AllowTrustOpFrame.deleteOffers_moves {header : LedgerHeader} {trustor : AccountID} {ci : Asset}
    (offers : List OfferEntry) (hv : 8 ≤ w.ltx.header.ledgerVersion)
    (h : deleteOffers header trustor ci offers w = .ok () w') : Moves 0 w.ltx w'.ltx := by
  induction offers generalizing w with
  | nil =>
    obtain ⟨-, rfl⟩ := pure_ok.mp h
    exact .refl _
  | cons offer offers ih =>
    obtain ⟨_, w₁, h₁, h⟩ := bind_ok.mp h
    obtain ⟨hseller, rfl⟩ := lift_ok.mp h₁
    have hseller : offer.sellerID = trustor := not_not.mp (throwIf_ok.mp hseller)
    obtain ⟨_, w₁, h₁, h⟩ := bind_ok.mp h
    obtain ⟨-, rfl⟩ := lift_ok.mp h₁
    obtain ⟨_, w₁, h₁, h⟩ := bind_ok.mp h
    obtain ⟨hm₁, -⟩ := acquireOrReleaseLiabilities_moves hv h₁
    rw [← hm₁.version] at hv
    obtain ⟨_, w₂, h₂, h⟩ := bind_ok.mp h
    obtain ⟨hm₂, -⟩ := removeNumEntry_moves hv h₂
    rw [← hm₂.version] at hv
    obtain ⟨_, w₃, h₃, h⟩ := bind_ok.mp h
    have hm₃ := erase_moves (by simp) h₃
    rw [← hm₃.version] at hv
    refine (((hm₁.trans hm₂).trans hm₃).trans (ih hv h)).cast ?_
    simp [LedgerKey.owner, hseller]

theorem AllowTrustOpFrame.doApply_moves {sourceID trustor : AccountID} {asset : AssetCode} {authorize : Bool}
    (hv : 8 ≤ w.ltx.header.ledgerVersion)
    (h : doApply sourceID trustor asset authorize w = .ok .ALLOW_TRUST_SUCCESS w') : Moves 0 w.ltx w'.ltx := by
  obtain ⟨header, w₁, h₁, h⟩ := bind_ok.mp h
  obtain ⟨rfl, rfl⟩ := loadHeader_ok.mp h₁
  split at h
  case isTrue => cases (pure_ok.mp h).1
  case isFalse hself =>
    obtain ⟨checked, w₁, h₁, h⟩ := bind_ok.mp h
    have hltx₁ := (reads_rolledBack _).ltx hv h₁
    rw [← hltx₁] at hv ⊢
    cases checked with
    | some code =>
      obtain ⟨rfl, rfl⟩ := pure_ok.mp h
      exact .refl _
    | none =>
      have hne : ¬ trustor = sourceID := fun heq => hself ⟨by rw [← hltx₁]; omega, heq⟩
      dsimp only at h
      rw [if_neg hne] at h
      obtain ⟨trust, w₂, h₂, h⟩ := bind_ok.mp h
      obtain ⟨-, rfl⟩ := loadTrustLineEntry_ok.mp h₂
      have hltx₂ := w₁.ltx_load (.trustLine trustor (assetOf sourceID asset))
      rw [← hltx₂] at hv ⊢
      cases trust with
      | none => cases (pure_ok.mp h).1
      | some trust =>
        obtain ⟨ltx, w₃, h₃, h⟩ := bind_ok.mp h
        obtain ⟨rfl, rfl⟩ := getLedger_ok.mp h₃
        obtain ⟨_, w₃, h₃, h⟩ := bind_ok.mp h
        have hm₃ := deleteOffers_moves _ hv h₃
        obtain ⟨line, w₄, h₄, h⟩ := bind_ok.mp h
        obtain ⟨hline, rfl⟩ := loadTrustLineEntry_ok.mp h₄
        obtain ⟨tl, w₅, h₅, h⟩ := bind_ok.mp h
        obtain ⟨rfl, rfl⟩ := current_ok.mp h₅
        obtain ⟨_, w₅, h₅, h⟩ := bind_ok.mp h
        obtain ⟨-, rfl⟩ := pure_ok.mp h
        have hm₅ := (store_moves (by simp [LedgerEntryData.key]) (by
          obtain ⟨hid, hasset⟩ := key_of_trustLine hline
          rw [World.ltx_load, LedgerEntryData.key, setAuthorized, hid, hasset, trustLine_eq_some.mp hline]
          rfl) h₅).1
        rw [World.ltx_load] at hm₅
        exact (hm₃.trans hm₅).cast (add_zero 0)

/-! ## Options -/

namespace SetOptionsOpFrame

variable {header : LedgerHeader} {acc acc' : AccountEntry}

theorem step_setField {α : Type} {field : Option α} {change : α → AccountEntry → AccountEntry}
    (h : ∀ a acc, AccountStep 0 acc (change a acc)) (acc : AccountEntry) :
    AccountStep 0 acc (setField field change acc) := by
  cases field with
  | none => exact .refl _
  | some a => exact h a acc

theorem removeEntries_step (n : ℕ) (h : removeEntries header n acc = .ok acc') :
    AccountStep (0, n) acc acc' := by
  induction n generalizing acc with
  | zero =>
    cases h
    exact (AccountStep.refl _).cast rfl
  | succ n ih =>
    obtain ⟨res, hres, h⟩ := except_bind_ok.mp h
    cases res with
    | none =>
      obtain ⟨-, ⟨-, hpos⟩ | hsome⟩ := addNumEntries_ok hres
      · omega
      · cases hsome
    | some acc₁ =>
      refine ((AccountStep.addNumEntries (.inr rfl) hres).trans (ih h)).cast ?_
      rw [Prod.mk_add_mk, add_zero, neg_neg, Nat.cast_succ, add_comm]

theorem step_normalizeSigners (acc : AccountEntry) (signers : List Signer) (h : signers.length = acc.signers.length) :
    AccountStep 0 acc (normalizeSigners { acc with signers := signers }) :=
  .of_eq rfl le_rfl rfl rfl (by rw [normalizeSigners, List.length_mergeSort, h])

theorem setSigner_step {signer : Signer} {code : SetOptionsResultCode}
    (h : setSigner header signer acc = .ok (acc', code)) : AccountStep 0 acc acc' := by
  unfold setSigner at h
  split at h
  case isTrue =>
    dsimp only at h
    split at h
    case isTrue =>
      cases except_pure_ok.mp h
      exact step_normalizeSigners _ _ (List.length_map _)
    case isFalse =>
      split at h
      case isTrue =>
        cases except_pure_ok.mp h
        exact .refl _
      case isFalse =>
        obtain ⟨res, hres, h⟩ := except_bind_ok.mp h
        cases res with
        | none =>
          cases except_pure_ok.mp h
          exact .refl _
        | some acc₁ =>
          cases except_pure_ok.mp h
          -- one more in the count and one more signer
          have hs := AccountStep.addNumEntries (.inl rfl) hres
          obtain ⟨-, ⟨hnone, -⟩ | hsome⟩ := addNumEntries_ok hres
          · cases hnone
          · obtain ⟨n, rfl⟩ : ∃ n, acc₁ = { acc with numSubEntries := n } := ⟨_, Option.some.inj hsome⟩
            refine ⟨hs.accountID, hs.seqNum, hs.balance.trans (by simp), hs.fits, fun hfit => ?_⟩
            obtain ⟨hfit', hcount⟩ := hs.counts hfit
            refine ⟨hfit', ?_⟩
            simp only [normalizeSigners, List.length_mergeSort, List.length_append, List.length_singleton,
              Prod.snd_zero]
            dsimp only at hcount
            push_cast
            linarith
  case isFalse =>
    obtain ⟨acc₁, hacc₁, h⟩ := except_bind_ok.mp h
    cases except_pure_ok.mp h
    have hs := removeEntries_step _ hacc₁
    have hle := List.length_filter_le (fun s : Signer => decide (s.key ≠ signer.key)) acc.signers
    refine ⟨hs.accountID, hs.seqNum, hs.balance.trans (by simp), hs.fits, fun hfit => ?_⟩
    obtain ⟨hfit', hcount⟩ := hs.counts hfit
    refine ⟨hfit', ?_⟩
    simp only [normalizeSigners, List.length_mergeSort, Prod.snd_zero]
    dsimp only at hcount
    push_cast [Nat.cast_sub hle] at hcount
    linarith

theorem applyTo_step {op : SetOptionsOp} {inflationExists : Bool} {code : SetOptionsResultCode}
    (h : applyTo header op inflationExists acc = .ok (acc', code)) : AccountStep 0 acc acc' := by
  unfold applyTo at h
  split at h
  case isTrue =>
    cases except_pure_ok.mp h
    exact .refl _
  case isFalse =>
    extract_lets acc₁ acc₂ acc₃ acc₄ acc₅ acc₆ acc₇ acc₈ at h
    have h₁ : AccountStep 0 acc acc₁ := by
      apply step_setField
      exact fun _ _ => .of_eq rfl le_rfl rfl rfl rfl
    have h₂ : AccountStep 0 acc acc₂ := by
      refine (h₁.trans (step_setField ?_ _)).cast (add_zero 0)
      exact fun _ _ => .of_eq rfl le_rfl rfl rfl rfl
    have h₈ : AccountStep 0 acc acc₈ := by
      iterate 6
        refine (AccountStep.trans ?_ (step_setField ?_ _)).cast (add_zero 0)
        rotate_left
        · exact fun _ _ => .of_eq rfl le_rfl rfl rfl rfl
      exact h₂
    clear_value acc₁ acc₂ acc₃ acc₄ acc₅ acc₆ acc₇ acc₈
    split at h
    case isTrue =>
      cases except_pure_ok.mp h
      exact h₁
    case isFalse =>
      split at h
      case isTrue =>
        cases except_pure_ok.mp h
        exact h₂
      case isFalse =>
        cases hsigner : op.signer with
        | none =>
          rw [hsigner] at h
          cases except_pure_ok.mp h
          exact h₈
        | some signer =>
          rw [hsigner] at h
          exact (h₈.trans (setSigner_step h)).cast (add_zero 0)

theorem doApply_moves {sourceID : AccountID} {op : SetOptionsOp} {code : SetOptionsResultCode}
    (hv : 8 ≤ w.ltx.header.ledgerVersion) (h : doApply sourceID op w = .ok code w') : Moves 0 w.ltx w'.ltx := by
  obtain ⟨header, w₁, h₁, h⟩ := bind_ok.mp h
  obtain ⟨rfl, rfl⟩ := loadHeader_ok.mp h₁
  obtain ⟨res, w₁, h₁, h⟩ := bind_ok.mp h
  obtain ⟨acc, w₂, h₂, h⟩ := bind_ok.mp h
  obtain ⟨hltx, hheld, -⟩ := loadSource_ok hv (bind_ok.mpr ⟨res, w₁, h₁, h₂⟩)
  rw [← hltx] at hv hheld ⊢
  obtain ⟨ltx, w₃, h₃, h⟩ := bind_ok.mp h
  obtain ⟨rfl, rfl⟩ := getLedger_ok.mp h₃
  obtain ⟨⟨acc', code'⟩, w₃, h₃, h⟩ := bind_ok.mp h
  obtain ⟨happly, rfl⟩ := lift_ok.mp h₃
  obtain ⟨_, w₃, h₃, h⟩ := bind_ok.mp h
  obtain ⟨-, rfl⟩ := pure_ok.mp h
  exact storeCached_moves hv hheld (applyTo_step happly) h₃

end SetOptionsOpFrame

/-! ## Inflation -/

namespace InflationOpFrame

theorem reads_receivable (header : LedgerHeader) (a : AccountID) (amount : ℤ) :
    Reads (receivable header a amount : AppM X ℤ) := by
  refine .ite (fun _ => .pure _) fun _ => (reads_loadAccountWithoutRecord _).bind fun res => ?_
  cases res <;> exact .pure _

/-- What the winners get is taken off the dole, in 64 bits. -/
theorem creditWinners_moves {header : LedgerHeader} {amountToDole totalVotes : ℤ}
    (winners : List (AccountID × ℤ)) {left left' totalCoins totalCoins' : ℤ} (hheader : 8 ≤ header.ledgerVersion)
    (hv : 8 ≤ w.ltx.header.ledgerVersion)
    (h : creditWinners header amountToDole totalVotes winners left totalCoins w = .ok (left', totalCoins') w') :
    Moves (left - left', 0) w.ltx w'.ltx ∧ w'.ltx.header = w.ltx.header ∧ totalCoins' = totalCoins ∧
      (FitsInt64 left → FitsInt64 left') := by
  induction winners generalizing left w with
  | nil =>
    obtain ⟨heq, rfl⟩ := pure_ok.mp h
    cases heq
    exact ⟨(Moves.refl _).cast (by rw [sub_self]; rfl), rfl, rfl, id⟩
  | cons winner winners ih =>
    obtain ⟨a, votes⟩ := winner
    obtain ⟨dole, w₁, h₁, h⟩ := bind_ok.mp h
    obtain ⟨-, rfl⟩ := lift_ok.mp h₁
    split at h
    case isTrue => exact ih hv h
    case isFalse =>
      obtain ⟨dole', w₁, h₁, h⟩ := bind_ok.mp h
      have hltx₁ := (reads_receivable _ _ _).ltx hv h₁
      rw [← hltx₁] at hv ⊢
      split at h
      case isTrue => exact ih hv h
      case isFalse =>
        obtain ⟨res, w₂, h₂, h⟩ := bind_ok.mp h
        obtain ⟨hacc, rfl⟩ := loadAccount_ok.mp h₂
        have hltx₂ := w₁.ltx_load (.account a)
        rw [← hltx₂] at hv hacc ⊢
        cases res with
        | none => exact ih hv h
        | some acc =>
          obtain ⟨res, w₃, h₃, h⟩ := bind_ok.mp h
          obtain ⟨_, w₄, h₄, h⟩ := bind_ok.mp h
          obtain ⟨hsome, rfl⟩ := lift_ok.mp h₄
          rw [if_neg (by omega)] at h
          obtain ⟨hres, -⟩ | ⟨acc', -, -, -, hltx₃, hm₃⟩ :=
            addBalance_moves assigns_storeAccount hv (held_of_account hacc) h₃
          · rw [hres] at hsome
            exact absurd rfl (throwIf_ok.mp hsome)
          · obtain ⟨hm, hsame, htotal, hfits⟩ := ih (by rwa [hm₃.version]) h
            refine ⟨(hm₃.trans hm).of_fits (add_zero _) fun _ => ?_, ?_, htotal,
              fun _ => hfits (fitsInt64_toInt64 _)⟩
            · rw [Prod.mk_add_mk]
              refine (((toInt64_modEq _).sub_right _).add_left _).trans (congrArg (· % 2 ^ 64) ?_)
              ring
            · rw [hsame, hltx₃, header_put]

theorem doApply_moves {app : Application X Q} {code : InflationResultCode}
    (hv : 8 ≤ w.ltx.header.ledgerVersion) (h : doApply app w = .ok code w') : Moves 0 w.ltx w'.ltx := by
  obtain ⟨ltx, w₁, h₁, h⟩ := bind_ok.mp h
  obtain ⟨rfl, rfl⟩ := getLedger_ok.mp h₁
  split at h
  case isTrue =>
    obtain ⟨-, rfl⟩ := pure_ok.mp h
    exact .refl _
  case isFalse =>
    obtain ⟨minBalance, w₁, h₁, h⟩ := bind_ok.mp h
    obtain ⟨-, rfl⟩ := lift_ok.mp h₁
    obtain ⟨inflationAmount, w₁, h₁, h⟩ := bind_ok.mp h
    obtain ⟨-, rfl⟩ := lift_ok.mp h₁
    obtain ⟨⟨left, totalCoins⟩, w₁, h₁, h⟩ := bind_ok.mp h
    obtain ⟨hm₁, hsame, rfl, hleft⟩ := creditWinners_moves _ hv hv h₁
    obtain ⟨_, w₂, h₂, h⟩ := bind_ok.mp h
    obtain ⟨-, rfl⟩ := pure_ok.mp h
    rw [← storeHeader_ok.mp h₂]
    -- what is not doled out goes back to the fee pool
    have hheader := @Moves.header w₁.ltx { w.ltx.header with
        feePool := left
        inflationSeq := (w.ltx.header.inflationSeq + 1) % 2 ^ 32
        totalCoins := toInt64 (w.ltx.header.totalCoins + inflationAmount) }
      (by rw [hsame]) (by rw [hsame]) fun _ => ⟨hleft (fitsInt64_toInt64 _), fitsInt64_toInt64 _⟩
    rw [if_pos (by omega)]
    refine (hm₁.trans hheader).of_fits (add_zero _) fun _ => ?_
    rw [hsame, Prod.mk_add_mk, Prod.fst_zero]
    have hdole := toInt64_modEq (inflationAmount + w.ltx.header.feePool)
    have htotal := toInt64_modEq (w.ltx.header.totalCoins + inflationAmount)
    refine ((hdole.sub_right left).add ((htotal.sub_left left).sub_right _)).trans
      (congrArg (· % 2 ^ 64) ?_)
    ring

end InflationOpFrame

/-! ## Marks -/

theorem MarkAccountOpFrame.doApply_moves {app : Application X Q} {marker : AccountMarker}
    {code : MarkAccountResultCode} (h : doApply app marker w = .ok code w') : Moves 0 w.ltx w'.ltx := by
  obtain ⟨_, w₁, h₁, h⟩ := bind_ok.mp h
  obtain ⟨-, rfl⟩ := pure_ok.mp h
  unfold onExt at h₁
  split at h₁
  · cases h₁
    exact .refl _
  · cases h₁

end ZaggCore.Transactions
