import Mathlib
import ZaggCore.Transactions.Standings

/-! # What the exchange does to a party

The loads and updates that `crossOfferV10` is made of, between standings that are sound: each returns,
and leaves the view changed at one party. -/

namespace ZaggCore.Transactions
set_option autoImplicit false
set_option maxHeartbeats 250000

open Foundations Numeric AbstractLedgerTxn

variable {X : Type}

/-! ## Handles -/

/-- The handles of an account and of a line show the newest version of a party. -/
inductive Shows (ltx : AbstractLedgerTxn) (a : AccountID) (asset : Asset) (account : Option AccountEntry)
    (line : Option TrustLineWrapper) : Party → Prop
  | native (acc : AccountEntry) (hasset : asset = .native) (haccount : account = some acc)
      (hacc : ltx.account a = some acc) : Shows ltx a asset account line (.holder (AccountEntry.standing acc))
  | issuer (hasset : getIssuer asset = .ok a) (hline : line = some (.IssuerImpl a asset)) :
      Shows ltx a asset account line .issuer
  | line (issuer : AccountID) (tl : TrustLineEntry) (hasset : getIssuer asset = .ok issuer)
      (hne : issuer ≠ a) (hline : line = some (.NonIssuerImpl tl))
      (htl : ltx.trustLine a asset = some tl) :
      Shows ltx a asset account line (.holder (TrustLineEntry.standing tl))

/-- The reserve of what a party holds of an asset. -/
def View.reserve (v : View) (header : LedgerHeader) (a : AccountID) (asset : Asset) : ℤ :=
  if asset = .native then getMinBalance header ((v.count a).getD 0) else 0

@[simp] theorem View.reserve_setParty (v : View) (header : LedgerHeader) (a : AccountID) (asset : Asset)
    (p : Party) (b : AccountID) (other : Asset) :
    (v.setParty a asset p).reserve header b other = v.reserve header b other := rfl

@[simp] theorem View.reserve_setOffer (v : View) (header : LedgerHeader) (a : AccountID) (id : ℕ)
    (o : Option OfferEntry) (b : AccountID) (other : Asset) :
    (v.setOffer a id o).reserve header b other = v.reserve header b other := rfl

theorem reserve_native {ltx : AbstractLedgerTxn} {header : LedgerHeader} {a : AccountID} {acc : AccountEntry}
    (h : ltx.account a = some acc) :
    ltx.view.reserve header a .native = getMinBalance header acc.numSubEntries := by
  unfold View.reserve
  rw [if_pos rfl]
  show getMinBalance header (((ltx.account a).map _).getD 0) = _
  rw [h]
  rfl

theorem reserve_credit {v : View} {header : LedgerHeader} {a : AccountID} {asset : Asset}
    (h : asset ≠ .native) : v.reserve header a asset = 0 :=
  if_neg h

theorem ne_native_of_getIssuer {asset : Asset} {issuer : AccountID} (h : getIssuer asset = .ok issuer) :
    asset ≠ .native := by
  rintro rfl
  cases h

section Shows

variable {ltx ltx' : AbstractLedgerTxn} {a : AccountID} {asset : Asset} {account : Option AccountEntry}
  {line : Option TrustLineWrapper} {p : Party} {header : LedgerHeader} {w : World X}

theorem Shows.party (h : Shows ltx a asset account line p) : ltx.party a asset = some p := by
  cases h with
  | native acc hasset haccount hacc =>
    subst hasset
    rw [party_native, hacc]
    rfl
  | issuer hasset hline => exact party_issuer hasset
  | line issuer tl hasset hne hline htl =>
    rw [party_line hasset hne, htl]
    rfl

theorem Shows.canBuyAtMost (h : Shows ltx a asset account line p) (hv : 10 ≤ header.ledgerVersion) :
    canBuyAtMost header account asset line w = .ok p.canBuy w := by
  unfold Transactions.canBuyAtMost
  cases h with
  | native acc hasset haccount hacc =>
    subst hasset haccount
    have hroom : INT64_MAX - (acc.balance + (liabilitiesOf acc.ext).buying) =
        INT64_MAX - acc.balance - (liabilitiesOf acc.ext).buying := by ring
    rw [if_pos rfl]
    show EStateM.Result.ok (max (AccountEntry.getMaxAmountReceive header acc) 0) w = _
    unfold AccountEntry.getMaxAmountReceive
    rw [if_pos hv, hroom]
    rfl
  | issuer hasset hline =>
    rw [if_neg (ne_native_of_getIssuer hasset), hline]
    rfl
  | line issuer tl hasset hne hline htl =>
    rw [if_neg (ne_native_of_getIssuer hasset), hline]
    show EStateM.Result.ok (max (TrustLineEntry.getMaxAmountReceive header tl) 0) w = _
    unfold TrustLineEntry.getMaxAmountReceive
    rw [if_pos hv]
    show _ = EStateM.Result.ok
      (if isAuthorized tl then max (tl.limit - tl.balance - (liabilitiesOf tl.ext).buying) 0 else 0) w
    split_ifs <;> rfl

theorem Shows.canSellAtMost (h : Shows ltx a asset account line p) (hv : 10 ≤ header.ledgerVersion) :
    canSellAtMost header account asset line w = .ok (p.canSell (ltx.view.reserve header a asset)) w := by
  unfold Transactions.canSellAtMost
  cases h with
  | native acc hasset haccount hacc =>
    subst hasset haccount
    rw [if_pos rfl, reserve_native hacc]
    show EStateM.Result.ok (max (AccountEntry.getAvailableBalance header acc) 0) w = _
    unfold AccountEntry.getAvailableBalance
    rw [if_pos hv]
    rfl
  | issuer hasset hline =>
    rw [if_neg (ne_native_of_getIssuer hasset), hline]
    rfl
  | line issuer tl hasset hne hline htl =>
    rw [if_neg (ne_native_of_getIssuer hasset), reserve_credit (ne_native_of_getIssuer hasset), hline]
    show EStateM.Result.ok
      (if isAuthorized tl then max (TrustLineEntry.getAvailableBalance header tl) 0 else 0) w = _
    unfold TrustLineEntry.getAvailableBalance
    rw [if_pos hv]
    show _ = EStateM.Result.ok
      (if isAuthorized tl then max (tl.balance - 0 - (liabilitiesOf tl.ext).selling) 0 else 0) w
    rw [sub_zero]

end Shows

/-- What a write to one asset of an account leaves alone. -/
structure Apart (a : AccountID) (asset : Asset) (ltx ltx' : AbstractLedgerTxn) : Prop where
  account : asset ≠ .native → ltx'.account a = ltx.account a
  line : ∀ other, other ≠ asset → ltx'.trustLine a other = ltx.trustLine a other

theorem Shows.apart {ltx ltx' : AbstractLedgerTxn} {a : AccountID} {asset other : Asset}
    {account account' : Option AccountEntry} {line : Option TrustLineWrapper} {p : Party}
    (h : Shows ltx a other account line p) (hne : other ≠ asset) (hapart : Apart a asset ltx ltx')
    (haccount : asset ≠ .native → account' = account) : Shows ltx' a other account' line p := by
  cases h with
  | native acc hasset hacc hltx =>
    subst hasset
    exact .native acc rfl ((haccount hne.symm).trans hacc) ((hapart.account hne.symm).trans hltx)
  | issuer hasset hline => exact .issuer hasset hline
  | line issuer tl hasset hissuer hline htl =>
    exact .line issuer tl hasset hissuer hline ((hapart.line other hne).trans htl)

/-! ## Loads -/

theorem loadTrustLine_eq {w : World X} {a : AccountID} {asset : Asset} {issuer : AccountID}
    (h : getIssuer asset = .ok issuer) : loadTrustLine a asset w =
      if issuer = a then .ok (some (.IssuerImpl a asset)) w
      else .ok ((w.ltx.trustLine a asset).map .NonIssuerImpl) (w.load (.trustLine a asset)) := by
  have hnative : ¬ asset = .native := ne_native_of_getIssuer h
  unfold loadTrustLine wrapTrustLine
  simp only [bind, EStateM.bind, liftM, monadLift, MonadLift.monadLift, Foundations.lift, throwIf,
    hnative, if_false, h]
  split_ifs <;> rfl

/-- The line of a party for a credit. -/
theorem shows_loadTrustLine {w : World X} {a : AccountID} {asset : Asset} {p : Party}
    (h : w.ltx.party a asset = some p) (hnative : asset ≠ .native) (account : Option AccountEntry) :
    Returns (fun line w' => w'.ltx = w.ltx ∧ ∃ l, line = some l ∧ Shows w.ltx a asset account line p)
      (loadTrustLine a asset w) := by
  obtain ⟨issuer, hissuer⟩ := getIssuer_of_ne_native hnative
  rw [loadTrustLine_eq hissuer]
  by_cases hown : issuer = a
  · subst hown
    rw [party_issuer hissuer] at h
    rw [if_pos rfl]
    obtain rfl := Option.some.inj h
    exact ⟨rfl, _, rfl, .issuer hissuer rfl⟩
  · rw [party_line hissuer hown] at h
    obtain ⟨tl, htl, rfl⟩ := Option.map_eq_some_iff.mp h
    rw [if_neg hown, htl]
    exact ⟨w.ltx_load _, _, rfl, .line issuer tl hissuer hown rfl htl⟩

theorem party_native_eq_some {ltx : AbstractLedgerTxn} {a : AccountID} {p : Party}
    (h : ltx.party a .native = some p) :
    ∃ acc, ltx.account a = some acc ∧ p = .holder (AccountEntry.standing acc) := by
  rw [party_native] at h
  obtain ⟨acc, hacc, rfl⟩ := Option.map_eq_some_iff.mp h
  exact ⟨acc, hacc, rfl⟩

theorem shows_loadTrustLineIfNotNative {w : World X} {a : AccountID} {asset : Asset} {p : Party}
    {account : Option AccountEntry} (h : w.ltx.party a asset = some p)
    (haccount : asset = .native → account = w.ltx.account a) :
    Returns (fun line w' => w'.ltx = w.ltx ∧ Shows w.ltx a asset account line p)
      (loadTrustLineIfNotNative a asset w) := by
  unfold loadTrustLineIfNotNative
  by_cases hnative : asset = .native
  · subst hnative
    obtain ⟨acc, hacc, rfl⟩ := party_native_eq_some h
    rw [if_pos rfl]
    exact ⟨rfl, .native acc rfl ((haccount rfl).trans hacc) hacc⟩
  · rw [if_neg hnative]
    refine (shows_loadTrustLine h hnative account).imp (fun line w' hline => ?_) fun _ _ => id
    obtain ⟨hltx, l, -, hshows⟩ := hline
    exact ⟨hltx, hshows⟩

theorem returns_loadParties {w : World X} {a : AccountID} {wheat sheep : Asset} {pw ps : Party}
    (hpw : w.ltx.party a wheat = some pw) (hps : w.ltx.party a sheep = some ps) :
    Returns (fun parties w' => w'.ltx = w.ltx ∧
        Shows w.ltx a sheep parties.accountB parties.sheepLineAccountB ps ∧
        Shows w.ltx a wheat parties.accountB parties.wheatLineAccountB pw)
      (loadParties a wheat sheep w) := by
  have hload : Returns (fun account w' => w'.ltx = w.ltx ∧
      (wheat = .native ∨ sheep = .native → account = w.ltx.account a))
      ((if wheat = .native ∨ sheep = .native then loadAccount a else pure none : AppM X _) w) := by
    split_ifs with h
    · exact ⟨w.ltx_load _, fun _ => rfl⟩
    · exact ⟨rfl, fun h' => absurd h' h⟩
  unfold loadParties
  refine hload.bind fun account w₁ ⟨hw₁, haccount⟩ => ?_
  rw [← hw₁] at hpw hps haccount ⊢
  refine (shows_loadTrustLineIfNotNative hps fun h => haccount (.inr h)).bind fun sheepLine w₂ ⟨hw₂, hsheep⟩ => ?_
  rw [← hw₂] at hpw hps haccount hsheep ⊢
  refine (shows_loadTrustLineIfNotNative hpw fun h => haccount (.inl h)).bind fun wheatLine w₃ ⟨hw₃, hwheat⟩ => ?_
  exact ⟨hw₃, hsheep, hwheat⟩

/-! ## Updates -/

/-- The header stays and the view is the one given. -/
structure Leaves (w : World X) (v : View) (w' : World X) : Prop where
  header : w'.ltx.header = w.ltx.header
  view : w'.ltx.view = v

theorem Leaves.trans {w w₁ w₂ : World X} {v₁ v₂ : View} (h₁ : Leaves w v₁ w₁) (h₂ : Leaves w₁ v₂ w₂) :
    Leaves w v₂ w₂ :=
  ⟨h₂.header.trans h₁.header, h₂.view⟩

/-- A load before does not count. -/
theorem Leaves.of_ltx {w w₁ w' : World X} {v : View} (h : w₁.ltx = w.ltx) (hleaves : Leaves w₁ v w') :
    Leaves w v w' :=
  ⟨by rw [hleaves.header, h], hleaves.view⟩

section Updates

variable {w : World X} {a : AccountID} {reserved : Bool} {step : Standing → Standing}
  {onAccount : AccountEntry → Except Exception (Option AccountEntry)}
  {onLine : TrustLineEntry → Except Exception (Option TrustLineEntry)}
  (hsteps : Steps w.ltx.header reserved step onAccount onLine)

include hsteps

/-- A step of an account between sound standings. -/
theorem returns_updateAccount {acc : AccountEntry} (hacc : w.ltx.account a = some acc) {r : ℤ}
    (hr : r = if reserved then getMinBalance w.ltx.header acc.numSubEntries else 0)
    (hs : (AccountEntry.standing acc).Sound r) (hs' : (step (AccountEntry.standing acc)).Sound r) :
    Returns (fun res w' => Leaves w (w.ltx.view.setParty a .native (.holder (step (AccountEntry.standing acc)))) w' ∧
        Apart a .native w.ltx w'.ltx ∧
        ∃ acc', res = some acc' ∧ w'.ltx.account a = some acc' ∧
          AccountEntry.standing acc' = step (AccountEntry.standing acc))
      (updateAccount storeAccount onAccount acc w) := by
  obtain ⟨acc', hchange, hstanding, hid, hcount⟩ := hsteps.account acc r hr hs hs'
  have hkey : acc'.accountID = a := hid.trans (accountID_of_account hacc)
  have hcounted : (w.ltx.view.setParty a .native (.holder (AccountEntry.standing acc'))).count a =
      some acc'.numSubEntries := by
    show (w.ltx.account a).map _ = _
    rw [hacc, hcount]
    rfl
  rw [updateAccount_eq, hchange]
  refine ⟨⟨rfl, ?_⟩, ⟨fun h => absurd rfl h, fun other _ => trustLine_put_of_ne (by simp) a other⟩,
    acc', rfl, ?_, hstanding⟩
  · show (w.ltx.put (.account acc')).view = _
    rw [view_put_account, hkey, View.setCount_self hcounted, hstanding]
  · show (w.ltx.put (.account acc')).account a = _
    rw [account_put_account, if_pos hkey.symm]

/-- A step of a line. -/
theorem returns_updateLine {asset : Asset} {issuer : AccountID} {tl : TrustLineEntry}
    (hasset : getIssuer asset = .ok issuer) (hne : issuer ≠ a) (htl : w.ltx.trustLine a asset = some tl)
    (hs : (TrustLineEntry.standing tl).Sound 0) (hs' : (step (TrustLineEntry.standing tl)).Sound 0) :
    Returns (fun res w' => Leaves w (w.ltx.view.setParty a asset (.holder (step (TrustLineEntry.standing tl)))) w' ∧
        Apart a asset w.ltx w'.ltx ∧
        ∃ tl', res = some (.NonIssuerImpl tl') ∧ w'.ltx.trustLine a asset = some tl' ∧
          TrustLineEntry.standing tl' = step (TrustLineEntry.standing tl))
      ((TrustLineWrapper.NonIssuerImpl tl).update onLine w) := by
  obtain ⟨tl', hchange, hstanding, hid, hasset'⟩ := hsteps.line tl hs hs'
  obtain ⟨hkey, hkey'⟩ := key_of_trustLine htl
  have hrun : (TrustLineWrapper.NonIssuerImpl tl).update onLine w =
      .ok (some (.NonIssuerImpl tl')) ((w.setLtx (w.ltx.put (.trustLine tl'))).touch (.trustLine tl'.accountID tl'.asset)) := by
    show EStateM.bind (Foundations.lift (onLine tl)) _ w = _
    rw [hchange]
    rfl
  rw [hkey] at hid
  rw [hkey'] at hasset'
  rw [hrun]
  refine ⟨⟨rfl, ?_⟩, ⟨fun _ => account_put_of_ne (by simp) a, fun other h => ?_⟩, tl', rfl, ?_, hstanding⟩
  · show (w.ltx.put (.trustLine tl')).view = _
    rw [view_put_trustLine tl' (by rwa [hasset']) (by rwa [hid]), hid, hasset', hstanding]
  · show (w.ltx.put (.trustLine tl')).trustLine a other = _
    rw [trustLine_put_trustLine, if_neg fun hk => h (hk.2.trans hasset')]
  · show (w.ltx.put (.trustLine tl')).trustLine a asset = _
    rw [trustLine_put_trustLine, if_pos ⟨hid.symm, hasset'.symm⟩]

/-- One side of the liabilities of an offer. -/
theorem returns_changeLiabilities {asset : Asset} {p : Party} {r : ℤ} (what : String)
    (hp : w.ltx.party a asset = some p)
    (hr : r = if reserved then w.ltx.view.reserve w.ltx.header a asset else 0)
    (hs : p.Sound r) (hs' : (p.map step).Sound r) :
    Returns (fun _ w' => Leaves w (w.ltx.view.setParty a asset (p.map step)) w')
      (changeLiabilities a asset what onAccount (fun trust => trust.update onLine) w) := by
  unfold changeLiabilities
  by_cases hnative : asset = .native
  · subst hnative
    obtain ⟨acc, hacc, rfl⟩ := party_native_eq_some hp
    rw [reserve_native hacc] at hr
    rw [if_pos rfl]
    refine (ends_bind_of_ok (show loadAccount a w = .ok (some acc) (w.load (.account a)) by
      rw [← hacc]; rfl)).mpr ?_
    have hload := w.ltx_load (.account a)
    refine (returns_updateAccount (w := w.load (.account a)) (by rwa [hload]) (by rwa [hload])
      (by rwa [hload]) hs hs').bind fun res w' hres => ?_
    obtain ⟨hleaves, -, acc', rfl, -, -⟩ := hres
    rw [hload] at hleaves
    exact hleaves.of_ltx hload
  · rw [if_neg hnative]
    refine (shows_loadTrustLine hp hnative none).bind fun line w₁ hline => ?_
    obtain ⟨hw₁, l, rfl, hshows⟩ := hline
    rw [← hw₁] at hsteps hp hr hshows
    have hback : ∀ w', Leaves w₁ (w₁.ltx.view.setParty a asset (p.map step)) w' →
        Leaves w (w.ltx.view.setParty a asset (p.map step)) w' := by
      intro w' h
      rw [← hw₁]
      exact h.of_ltx hw₁
    cases hshows with
    | native acc hasset => exact absurd hasset hnative
    | issuer hasset hl =>
      obtain rfl := Option.some.inj hl
      refine hback _ ⟨rfl, ?_⟩
      exact (View.setParty_self hp).symm
    | line issuer tl hasset hne hl htl =>
      obtain rfl := Option.some.inj hl
      have hr0 : r = 0 := by
        rw [hr, reserve_credit hnative, ite_self]
      rw [hr0] at hs hs'
      refine (returns_updateLine hsteps hasset hne htl hs hs').bind fun res w' hres => ?_
      obtain ⟨hleaves, -, tl', rfl, -, -⟩ := hres
      exact hback _ hleaves

end Updates

/-- A change of a balance through the handles. -/
theorem returns_changeParty {w : World X} {header : LedgerHeader} {a : AccountID} {asset : Asset}
    {account : Option AccountEntry} {line : Option TrustLineWrapper} {p : Party} {delta r : ℤ}
    (reserved : Bool) (what : String) (hheader : w.ltx.header = header)
    (hreserved : delta < 0 → reserved = true)
    (hshows : Shows w.ltx a asset account line p)
    (hr : r = if reserved then w.ltx.view.reserve header a asset else 0) (hs : p.Sound r)
    (hs' : (p.map (Standing.addBalance delta)).Sound r) :
    Returns (fun handles w' =>
        Leaves w (w.ltx.view.setParty a asset (p.map (Standing.addBalance delta))) w' ∧
        Apart a asset w.ltx w'.ltx ∧ (asset ≠ .native → handles.1 = account) ∧
        Shows w'.ltx a asset handles.1 handles.2 (p.map (Standing.addBalance delta)))
      (changeParty header account line asset delta what w) := by
  subst hheader
  have hsteps := steps_addBalance w.ltx.header delta reserved hreserved
  unfold changeParty
  by_cases h0 : delta = 0
  · subst h0
    have hmap : p.map (Standing.addBalance 0) = p := by
      cases p <;> simp [Party.map]
    rw [if_pos rfl, hmap, View.setParty_self hshows.party]
    exact ⟨⟨rfl, rfl⟩, ⟨fun _ => rfl, fun _ _ => rfl⟩, fun _ => rfl, hshows⟩
  rw [if_neg h0]
  cases hshows with
  | native acc hasset haccount hacc =>
    subst hasset haccount
    rw [reserve_native hacc] at hr
    rw [if_pos rfl]
    refine (ends_bind_of_ok (show current (some acc) w = .ok acc w from rfl)).mpr ?_
    refine (returns_updateAccount hsteps hacc hr hs hs').bind fun res w' hres => ?_
    obtain ⟨hleaves, hapart, acc', rfl, hacc', hstanding⟩ := hres
    refine ⟨hleaves, hapart, fun h => absurd rfl h, ?_⟩
    show Shows _ _ _ _ _ (.holder (Standing.addBalance delta (AccountEntry.standing acc)))
    rw [← hstanding]
    exact .native acc' rfl rfl hacc'
  | issuer hasset hline =>
    subst hline
    rw [if_neg (ne_native_of_getIssuer hasset)]
    refine ⟨⟨rfl, ?_⟩, ⟨fun _ => rfl, fun _ _ => rfl⟩, fun _ => rfl, .issuer hasset rfl⟩
    exact (View.setParty_self (party_issuer hasset)).symm
  | line issuer tl hasset hne hline htl =>
    subst hline
    have hnative := ne_native_of_getIssuer hasset
    have hr0 : r = 0 := by
      rw [hr, reserve_credit hnative, ite_self]
    rw [hr0] at hs hs'
    rw [if_neg hnative]
    refine (ends_bind_of_ok (show getImpl (some (.NonIssuerImpl tl)) w = .ok _ w from rfl)).mpr ?_
    refine (returns_updateLine hsteps hasset hne htl hs hs').bind fun res w' hres => ?_
    obtain ⟨hleaves, hapart, tl', rfl, htl', hstanding⟩ := hres
    refine ⟨hleaves, hapart, fun _ => rfl, ?_⟩
    show Shows _ _ _ _ _ (.holder (Standing.addBalance delta (TrustLineEntry.standing tl)))
    rw [← hstanding]
    exact .line issuer tl' hasset hne rfl htl'

/-! ## The liabilities of an offer -/

/-- Acquiring or releasing between sound standings. -/
theorem returns_acquireOrRelease {w : World X} {header : LedgerHeader} {o : OfferEntry} {ps pw : Party}
    {cost amount sign r : ℤ} {isAcquire : Bool} (hheader : w.ltx.header = header)
    (hv : 10 ≤ header.ledgerVersion) (hassets : o.buying ≠ o.selling)
    (hps : w.ltx.party o.sellerID o.buying = some ps) (hpw : w.ltx.party o.sellerID o.selling = some pw)
    (hbuying : getOfferBuyingLiabilities header o = .ok cost)
    (hselling : getOfferSellingLiabilities header o = .ok amount)
    (hsign : sign = if isAcquire then 1 else -1)
    (hr : r = w.ltx.view.reserve header o.sellerID o.selling)
    (hs : ps.Sound 0) (hs' : (ps.map (Standing.addBuying (sign * cost))).Sound 0)
    (hw : pw.Sound r) (hw' : (pw.map (Standing.addSelling (sign * amount))).Sound r) :
    Returns (fun _ w' => Leaves w
        (w.ltx.view.setParties o.sellerID o.buying (ps.map (Standing.addBuying (sign * cost))) o.selling
          (pw.map (Standing.addSelling (sign * amount)))) w')
      (acquireOrReleaseLiabilities header o isAcquire w) := by
  subst hheader hsign
  unfold acquireOrReleaseLiabilities
  refine (ends_bind_of_ok (lift_ok.mpr ⟨(throwIf_ok (u := ())).mpr hassets, rfl⟩)).mpr ?_
  refine (ends_bind_of_ok (lift_ok.mpr ⟨hbuying, rfl⟩)).mpr ?_
  refine (returns_changeLiabilities (steps_addBuyingLiabilities _ _ hv) _ hps rfl hs hs').bind
    fun _ w₁ hleaves => ?_
  refine (ends_bind_of_ok (lift_ok.mpr ⟨hselling, rfl⟩)).mpr ?_
  have hpw₁ : w₁.ltx.party o.sellerID o.selling = some pw := by
    show w₁.ltx.view.party _ _ = _
    rw [hleaves.view, View.party_setParty, if_neg fun h => hassets h.2.symm]
    exact hpw
  have hsteps := steps_addSellingLiabilities w₁.ltx.header
    ((if isAcquire then 1 else -1) * amount) (by rwa [hleaves.header])
  have hr₁ : r = w₁.ltx.view.reserve w₁.ltx.header o.sellerID o.selling := by
    rw [hleaves.header, hleaves.view, View.reserve_setParty]
    exact hr
  have hsell := returns_changeLiabilities hsteps "could not add selling liabilities" hpw₁ hr₁ hw hw'
  rw [hleaves.header, hleaves.view] at hsell
  exact hsell.imp (fun _ w' hleaves' => hleaves.trans hleaves') fun _ _ => id

section Liabilities

variable {w : World X} {header : LedgerHeader} {o : OfferEntry} {ps pw : Party} {cost amount r : ℤ}
  (hheader : w.ltx.header = header) (hv : 10 ≤ header.ledgerVersion) (hassets : o.buying ≠ o.selling)
  (hps : w.ltx.party o.sellerID o.buying = some ps) (hpw : w.ltx.party o.sellerID o.selling = some pw)
  (hbuying : getOfferBuyingLiabilities header o = .ok cost)
  (hselling : getOfferSellingLiabilities header o = .ok amount)
  (hr : r = w.ltx.view.reserve header o.sellerID o.selling) (hs : ps.Sound 0) (hw : pw.Sound r)

include hheader hv hassets hps hpw hbuying hselling hr hs hw

theorem returns_acquireLiabilities (hs' : (ps.map (Standing.addBuying cost)).Sound 0)
    (hw' : (pw.map (Standing.addSelling amount)).Sound r) :
    Returns (fun _ w' => Leaves w
        (w.ltx.view.setParties o.sellerID o.buying (ps.map (Standing.addBuying cost)) o.selling
          (pw.map (Standing.addSelling amount))) w')
      (acquireLiabilities header o w) := by
  rw [← one_mul cost] at hs' ⊢
  rw [← one_mul amount] at hw' ⊢
  exact returns_acquireOrRelease hheader hv hassets hps hpw hbuying hselling rfl hr hs hs' hw hw'

theorem returns_releaseLiabilities (hs' : (ps.map (Standing.addBuying (-cost))).Sound 0)
    (hw' : (pw.map (Standing.addSelling (-amount))).Sound r) :
    Returns (fun _ w' => Leaves w
        (w.ltx.view.setParties o.sellerID o.buying (ps.map (Standing.addBuying (-cost))) o.selling
          (pw.map (Standing.addSelling (-amount)))) w')
      (releaseLiabilities header o w) := by
  rw [← neg_one_mul cost] at hs' ⊢
  rw [← neg_one_mul amount] at hw' ⊢
  exact returns_acquireOrRelease hheader hv hassets hps hpw hbuying hselling rfl hr hs hs' hw hw'

end Liabilities

/-! ## What stays of an offer -/

theorem addNumEntries_eq {header : LedgerHeader} {acc : AccountEntry}
    (h : 1 ≤ acc.numSubEntries ∧ acc.numSubEntries < 2 ^ 31) :
    addNumEntries header acc (-1) = .ok (some { acc with numSubEntries := acc.numSubEntries - 1 }) := by
  have hcount : toInt32 (acc.numSubEntries + -1) = (acc.numSubEntries - 1 : ℕ) := by
    rw [toInt32, Int.bmod_def]
    push_cast
    split_ifs <;> omega
  have hlow : ¬ toInt32 (acc.numSubEntries + -1) < 0 := by omega
  unfold addNumEntries
  dsimp only
  rw [(throwIf_ok (u := ())).mpr hlow, hcount]
  rfl

theorem returns_removeNumEntry {w : World X} (header : LedgerHeader) {a : AccountID} {n : ℕ}
    (hcount : w.ltx.view.count a = some n) (hn : 1 ≤ n ∧ n < 2 ^ 31) :
    Returns (fun _ w' => Leaves w (w.ltx.view.setCount a (n - 1)) w') (removeNumEntry header a w) := by
  obtain ⟨acc, hacc, rfl⟩ := Option.map_eq_some_iff.mp hcount
  have hkey := accountID_of_account hacc
  have hsame : w.ltx.view.party a .native = some (.holder (AccountEntry.standing acc)) := by
    show w.ltx.party a .native = _
    rw [party_native, hacc]
    rfl
  unfold removeNumEntry
  refine (ends_bind_of_ok (loadAccount_ok.mpr ⟨hacc, rfl⟩)).mpr ?_
  refine (ends_bind_of_ok (current_ok.mpr ⟨rfl, rfl⟩)).mpr ?_
  refine (ends_bind_of_ok (by rw [updateAccount_eq, addNumEntries_eq hn])).mpr ⟨?_, ?_⟩
  · show (w.load _).ltx.header = _
    rw [w.ltx_load]
  · show ((w.load _).ltx.put _).view = _
    rw [w.ltx_load, view_put_account]
    show (w.ltx.view.setParty acc.accountID .native (.holder (AccountEntry.standing acc))).setCount
      acc.accountID (acc.numSubEntries - 1) = _
    rw [hkey, View.setParty_self hsame]

theorem returns_leaveOffer_taken {w : World X} (header : LedgerHeader) {a : AccountID} {id n : ℕ}
    {o : OfferEntry} (ho : w.ltx.offer a id = some o) (hcount : w.ltx.view.count a = some n)
    (hn : 1 ≤ n ∧ n < 2 ^ 31) :
    Returns (fun _ w' => Leaves w ((w.ltx.view.setOffer a id none).setCount a (n - 1)) w')
      (leaveOffer header a id true w) := by
  have hload := w.ltx_load (.offer a id)
  have hpresent : ((w.load (.offer a id)).ltx.getNewestVersion (.offer a id)).isSome := by
    rw [hload, offer_eq_some.mp ho]
    rfl
  unfold leaveOffer
  refine Returns.committed ?_
  refine (ends_bind_of_ok (loadOffer_ok.mpr ⟨ho, rfl⟩)).mpr ?_
  refine (ends_bind_of_ok (current_ok.mpr ⟨rfl, rfl⟩)).mpr ?_
  rw [if_pos rfl]
  refine (ends_bind_of_ok (a := ()) (erase_ok.mpr ⟨hpresent, rfl⟩)).mpr ?_
  have herased : ((w.load (.offer a id)).setLtx ((w.load (.offer a id)).ltx.erase (.offer a id))).ltx.view =
      w.ltx.view.setOffer a id none := by
    rw [World.ltx_setLtx, hload, view_erase_offer]
  have hremove := returns_removeNumEntry header
    (w := (w.load (.offer a id)).setLtx ((w.load (.offer a id)).ltx.erase (.offer a id)))
    (by rw [herased]; exact hcount) hn
  rw [herased] at hremove
  refine hremove.imp (fun _ w' hleaves => ⟨?_, hleaves.view⟩) fun _ _ h => h
  rw [hleaves.header, World.ltx_setLtx, header_erase, hload]

theorem leaveOffer_stays {w : World X} {header : LedgerHeader} {a : AccountID} {id : ℕ} {o : OfferEntry}
    {Q : Unit → World X → Prop} (ho : w.ltx.offer a id = some o)
    (h : Returns Q (acquireLiabilities header o (w.load (.offer a id)))) :
    Returns Q (leaveOffer header a id false w) := by
  unfold leaveOffer
  refine Returns.committed ?_
  refine (ends_bind_of_ok (loadOffer_ok.mpr ⟨ho, rfl⟩)).mpr ?_
  exact (ends_bind_of_ok (current_ok.mpr ⟨rfl, rfl⟩)).mpr h

end ZaggCore.Transactions
