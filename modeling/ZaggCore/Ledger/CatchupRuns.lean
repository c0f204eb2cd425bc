import ZaggCore.Ledger.CatchupState

/-! # Runs of the catch-up states

What externalized values, posted callbacks and the catch-up work can do to the ledger manager, in any
order. The buffer is contiguous and ends at the latest ledger it was given, and its first ledger is the
one that the catch-up work stops before; after that its first ledger is the next one to close. This
fails when the last buffered ledger has been closed, its callback is still posted, and a ledger after
a gap arrives: the empty buffer takes it. -/

namespace ZaggCore.Ledger
open Foundations Foundations.Checked History
set_option autoImplicit false
set_option maxHeartbeats 250000

namespace LedgerManager

variable {Db Tx : Type}

/-! ## Events -/

inductive Event (Db Tx : Type) where
  | valueExternalized (ledgerData : LedgerCloseData Tx)
  | applyBufferedCallback
  /-- The catch-up work closes a ledger. -/
  | applyHistory (ledgerData : LedgerCloseData Tx)
  | historyCaughtup (ec : Bool) (progressState : ProgressState) (db : Db)
      (lastClosed : LedgerHeaderHistoryEntry)

def step (chain : Chain Db Tx) (freq : ℕ) (s : LedgerManager Db Tx) :
    Event Db Tx → Checked (LedgerManager Db Tx)
  | .valueExternalized ledgerData => s.valueExternalized chain freq ledgerData
  | .applyBufferedCallback => s.applyBufferedCallback chain
  | .applyHistory ledgerData => s.close chain ledgerData
  | .historyCaughtup ec progressState db lastClosed => s.historyCaughtup ec progressState db lastClosed

/-- The events that can come in a state, `last` being the latest ledger externalized: a later one, a
posted callback, and of the catch-up work in progress a failure or the steps of a replay that ends at
the ledger it was asked for. -/
def Allowed (s : LedgerManager Db Tx) (last : ℕ) : Event Db Tx → Prop
  | .valueExternalized ledgerData => last < ledgerData.ledgerSeq ∧ ledgerData.ledgerSeq < 2 ^ 32
  | .applyBufferedCallback => 0 < s.posted
  | .applyHistory ledgerData => ledgerData.ledgerSeq = s.lclSeq + 1 ∧
      ∃ toLedger ∈ s.mCatchupWork, ledgerData.ledgerSeq ≤ toLedger
  | .historyCaughtup true _ _ _ => s.mCatchupWork ≠ none
  | .historyCaughtup false .APPLIED_BUCKETS _ lastClosed => s.lclSeq ≤ lastClosed.header.ledgerSeq ∧
      ∃ toLedger ∈ s.mCatchupWork, lastClosed.header.ledgerSeq ≤ toLedger
  | .historyCaughtup false _ _ lastClosed => s.mCatchupWork = some s.lclSeq ∧ lastClosed = s.lcl.entry

instance (s : LedgerManager Db Tx) (last : ℕ) : (e : Event Db Tx) → Decidable (Allowed s last e)
  | .valueExternalized _ => inferInstanceAs (Decidable (_ ∧ _))
  | .applyBufferedCallback => inferInstanceAs (Decidable (_ < _))
  | .applyHistory _ => inferInstanceAs (Decidable (_ ∧ _))
  | .historyCaughtup true _ _ _ => inferInstanceAs (Decidable (_ ≠ _))
  | .historyCaughtup false .APPLIED_BUCKETS _ _ => inferInstanceAs (Decidable (_ ∧ _))
  | .historyCaughtup false .APPLIED_TRANSACTIONS _ _ => inferInstanceAs (Decidable (_ ∧ _))
  | .historyCaughtup false .FINISHED _ _ => inferInstanceAs (Decidable (_ ∧ _))

def latest (last : ℕ) : Event Db Tx → ℕ
  | .valueExternalized ledgerData => ledgerData.ledgerSeq
  | _ => last

/-- While the buffered ledgers are applied, a ledger that finds the buffer empty is the next one. -/
def InOrder (s : LedgerManager Db Tx) : Event Db Tx → Prop
  | .valueExternalized ledgerData =>
    s.mCatchupState = .APPLYING_BUFFERED_LEDGERS → s.mSyncingLedgers = [] →
      ledgerData.ledgerSeq = s.lclSeq + 1
  | _ => True

instance (s : LedgerManager Db Tx) : (e : Event Db Tx) → Decidable (InOrder s e)
  | .valueExternalized _ => inferInstanceAs (Decidable (_ → _))
  | .applyBufferedCallback => .isTrue trivial
  | .applyHistory _ => .isTrue trivial
  | .historyCaughtup _ _ _ _ => .isTrue trivial

/-! ## The invariant -/

def Contiguous (l : List (LedgerCloseData Tx)) : Prop :=
  l.IsChain fun a b => b.ledgerSeq = a.ledgerSeq + 1

/-- A buffer with `first` in front, of ledgers up to `last`. -/
structure Buffered (buffer : List (LedgerCloseData Tx)) (first last : ℕ) : Prop where
  front : buffer.head?.map (·.ledgerSeq) = some first
  contiguous : Contiguous buffer
  le_last : ∀ lcd ∈ buffer, lcd.ledgerSeq ≤ last

/-- What the two state variables say about the buffer, the catch-up work and the callback. -/
inductive Phase (last : ℕ) (s : LedgerManager Db Tx) : Prop where
  | idle (state : s.mState ≠ .LM_CATCHING_UP_STATE) (catchup : s.mCatchupState = .NONE)
      (buffer : s.mSyncingLedgers = []) (work : s.mCatchupWork = none) (posted : s.posted = 0)
  | waitingForTrigger (first : ℕ) (state : s.mState = .LM_CATCHING_UP_STATE)
      (catchup : s.mCatchupState = .WAITING_FOR_TRIGGER_LEDGER)
      (buffer : Buffered s.mSyncingLedgers first last) (ahead : s.lclSeq + 1 < first)
      (work : s.mCatchupWork = none) (posted : s.posted = 0)
  | applyingHistory (first : ℕ) (state : s.mState = .LM_CATCHING_UP_STATE)
      (catchup : s.mCatchupState = .APPLYING_HISTORY)
      (buffer : Buffered s.mSyncingLedgers (first + 1) last) (ahead : s.lclSeq ≤ first)
      (work : s.mCatchupWork = some first) (posted : s.posted = 0)
  | applyingBuffered (state : s.mState = .LM_CATCHING_UP_STATE)
      (catchup : s.mCatchupState = .APPLYING_BUFFERED_LEDGERS)
      (buffer : s.mSyncingLedgers = [] ∨ Buffered s.mSyncingLedgers (s.lclSeq + 1) last)
      (behind : s.lclSeq ≤ last) (work : s.mCatchupWork = none) (posted : s.posted = 1)
  | waitingForClosing (state : s.mState = .LM_CATCHING_UP_STATE)
      (catchup : s.mCatchupState = .WAITING_FOR_CLOSING_LEDGER)
      (buffer : s.mSyncingLedgers = []) (work : s.mCatchupWork = none) (posted : s.posted = 0)

/-- Every ledger was closed right after the last closed one, and each after those before it. -/
structure ClosedInOrder (s : LedgerManager Db Tx) : Prop where
  next : ∀ c ∈ s.closed, c.2 = c.1 + 1
  upTo : ∀ c ∈ s.closed, c.2 ≤ s.lclSeq
  ordered : s.closed.Pairwise fun later earlier => earlier.2 ≤ later.1

structure Inv (last : ℕ) (s : LedgerManager Db Tx) : Prop where
  lcl_lt : s.lclSeq < 2 ^ 32
  last_lt : last < 2 ^ 32
  order : ClosedInOrder s
  phase : Phase last s

/-! ## The buffer -/

theorem push_nil (lcd : LedgerCloseData Tx) : push [] lcd = [lcd] := rfl

theorem Buffered.of_singleton (lcd : LedgerCloseData Tx) : Buffered [lcd] lcd.ledgerSeq lcd.ledgerSeq where
  front := rfl
  contiguous := List.isChain_singleton lcd
  le_last := by simp

/-- A later ledger is appended or dropped. -/
theorem Buffered.push {buffer : List (LedgerCloseData Tx)} {first last : ℕ} (h : Buffered buffer first last)
    {lcd : LedgerCloseData Tx} (hlast : last < lcd.ledgerSeq) (hlt : lcd.ledgerSeq < 2 ^ 32) :
    Buffered (push buffer lcd) first lcd.ledgerSeq := by
  have hle : ∀ d ∈ buffer, d.ledgerSeq ≤ lcd.ledgerSeq := fun d hd => (h.le_last d hd).trans hlast.le
  unfold LedgerManager.push
  split
  · next hnone =>
    have hfront := h.front
    rw [List.getLast?_eq_none_iff.mp hnone] at hfront
    cases hfront
  · next back hback =>
    split
    · next hseq =>
      have hnext : lcd.ledgerSeq = back.ledgerSeq + 1 := by
        have := h.le_last back (List.mem_of_getLast? hback)
        unfold nextSeq at hseq
        omega
      refine ⟨?_, ?_, ?_⟩
      · rw [List.head?_append]
        have hfront := h.front
        cases hb : buffer.head? with
        | none => rw [hb] at hfront; cases hfront
        | some b => rw [hb] at hfront; exact hfront
      · refine List.IsChain.append h.contiguous (List.isChain_singleton lcd) ?_
        intro a ha b hb
        rw [hback] at ha
        cases ha
        cases hb
        exact hnext
      · intro d hd
        rcases List.mem_append.mp hd with hd | hd
        · exact hle d hd
        · rw [List.mem_singleton.mp hd]
    · exact ⟨h.front, h.contiguous, hle⟩

/-- What is left when the first ledger is taken. -/
theorem Buffered.tail {lcd : LedgerCloseData Tx} {rest : List (LedgerCloseData Tx)} {first last : ℕ}
    (h : Buffered (lcd :: rest) first last) :
    lcd.ledgerSeq = first ∧ first ≤ last ∧ (rest = [] ∨ Buffered rest (first + 1) last) := by
  have hfirst : lcd.ledgerSeq = first := Option.some.inj h.front
  refine ⟨hfirst, hfirst ▸ h.le_last lcd List.mem_cons_self, ?_⟩
  cases rest with
  | nil => exact Or.inl rfl
  | cons d rest =>
    obtain ⟨hnext, hcontiguous⟩ := List.isChain_cons_cons.mp h.contiguous
    refine Or.inr ⟨?_, hcontiguous, fun e he => h.le_last e (List.mem_cons_of_mem _ he)⟩
    rw [← hfirst, ← hnext]
    rfl

theorem Buffered.ne_nil {buffer : List (LedgerCloseData Tx)} {first last : ℕ} (h : Buffered buffer first last) :
    buffer ≠ [] := by
  rintro rfl
  cases h.front

/-! ## Closing -/

theorem close_keeps (chain : Chain Db Tx) {s : LedgerManager Db Tx} {ledgerData : LedgerCloseData Tx}
    (hseq : ledgerData.ledgerSeq = s.lclSeq + 1) (hlt : ledgerData.ledgerSeq < 2 ^ 32)
    (horder : ClosedInOrder s) :
    Keeps (fun s' => ∃ lcl closed, s' = { s with lcl := lcl, closed := closed } ∧
      s'.lclSeq = ledgerData.ledgerSeq ∧ ClosedInOrder s') (s.close chain ledgerData) := by
  unfold close
  cases hclose : closeLedger chain s.lcl ledgerData with
  | error what => exact keeps_raise
  | ok lcl =>
    obtain ⟨hnext, -⟩ := closeLedger_spec hclose
    have hlcl : lcl.entry.header.ledgerSeq = ledgerData.ledgerSeq := by
      rw [hnext, nextSeq, hseq]
      exact Nat.mod_eq_of_lt (hseq ▸ hlt)
    refine ⟨lcl, _, rfl, hlcl, ?_, ?_, ?_⟩
    · exact List.forall_mem_cons.mpr ⟨hseq, horder.next⟩
    · refine List.forall_mem_cons.mpr ⟨hlcl.ge, fun c hc => ?_⟩
      have hle := horder.upTo c hc
      change c.2 ≤ lcl.entry.header.ledgerSeq
      omega
    · exact List.pairwise_cons.mpr ⟨horder.upTo, horder.ordered⟩

/-! ## Steps -/

variable {s : LedgerManager Db Tx} {last last' : ℕ}

/-- A step that closes nothing. -/
theorem Inv.frame {s' : LedgerManager Db Tx} (h : Inv last s) (hlcl : s'.lcl = s.lcl)
    (hclosed : s'.closed = s.closed) (hlast : last' < 2 ^ 32) (hphase : Phase last' s') : Inv last' s' := by
  have hseq : s'.lclSeq = s.lclSeq := congrArg (·.entry.header.ledgerSeq) hlcl
  refine ⟨hseq ▸ h.lcl_lt, hlast, ⟨?_, ?_, ?_⟩, hphase⟩
  · rw [hclosed]
    exact h.order.next
  · rw [hclosed, hseq]
    exact h.order.upTo
  · rw [hclosed]
    exact h.order.ordered

theorem startCatchupIf_of_started {lastReceived : ℕ} (hbuffer : s.mSyncingLedgers ≠ [])
    (hnone : s.mCatchupState ≠ .NONE) (hwaiting : s.mCatchupState ≠ .WAITING_FOR_TRIGGER_LEDGER) :
    s.startCatchupIf lastReceived = .ok s := by
  unfold startCatchupIf
  rw [assert_bind hbuffer, assert_bind hnone, if_pos hwaiting]
  rfl

theorem setCatchupState_of_catchingUp (h : s.mState = .LM_CATCHING_UP_STATE) (st : CatchupState) :
    s.setCatchupState st = { s with mCatchupState := st } := by
  unfold setCatchupState setState
  exact if_pos h.symm

theorem startCatchup_eq {toLedger : ℕ} (state : s.mState = .LM_CATCHING_UP_STATE)
    (buffer : s.mSyncingLedgers ≠ []) (work : s.mCatchupWork = none) (hnew : s.lclSeq < toLedger) :
    s.startCatchup toLedger false =
      .ok { s with mCatchupState := .APPLYING_HISTORY, mCatchupWork := some toLedger } := by
  have hold : ¬ (toLedger ≠ Catchup.CatchupConfiguration.CURRENT ∧ toLedger ≤ s.lclSeq) := fun h => by
    have := h.2
    omega
  have hempty : (false = s.mSyncingLedgers.isEmpty) := by
    rw [eq_comm, List.isEmpty_eq_false_iff]
    exact buffer
  unfold startCatchup
  rw [if_neg hold, setCatchupState_of_catchingUp state]
  simp only [bind, Except.bind, assert_of hempty, work, Option.isSome_none, Bool.false_eq_true, if_false]
  rfl

/-- Waiting goes on, or the catch-up work starts with the ledger before the first buffered one. -/
theorem startCatchupIf_keeps {first lastReceived : ℕ} (hlcl : s.lclSeq < 2 ^ 32) (hlast : last < 2 ^ 32)
    (order : ClosedInOrder s) (state : s.mState = .LM_CATCHING_UP_STATE)
    (catchup : s.mCatchupState = .WAITING_FOR_TRIGGER_LEDGER)
    (buffer : Buffered s.mSyncingLedgers first last) (ahead : s.lclSeq + 1 < first)
    (work : s.mCatchupWork = none) (posted : s.posted = 0) :
    Keeps (Inv last) (s.startCatchupIf lastReceived) := by
  have hnone : s.mCatchupState ≠ .NONE := by
    rw [catchup]
    decide
  unfold startCatchupIf
  rw [assert_bind buffer.ne_nil, assert_bind hnone, if_neg (not_not.mpr catchup)]
  split
  · have hfirst : first < 2 ^ 32 := by
      cases hb : s.mSyncingLedgers with
      | nil => exact absurd hb buffer.ne_nil
      | cons lcd rest =>
        obtain ⟨-, hle, -⟩ := Buffered.tail (hb ▸ buffer)
        omega
    have htarget : ((s.mSyncingLedgers.head?.map (·.ledgerSeq)).getD 0 + 2 ^ 32 - 1) % 2 ^ 32 = first - 1 := by
      rw [buffer.front, Option.getD_some]
      omega
    have hnew : s.lclSeq < first - 1 := by omega
    simp only [setCatchupState_of_catchingUp state, htarget]
    rw [@startCatchup_eq _ _ { s with mCatchupState := .APPLYING_HISTORY } _ state buffer.ne_nil work hnew]
    refine keeps_ok ⟨hlcl, hlast, ⟨order.next, order.upTo, order.ordered⟩, ?_⟩
    refine .applyingHistory (first - 1) state rfl ?_ hnew.le rfl posted
    rw [Nat.sub_add_cancel (by omega)]
    exact buffer
  · exact keeps_ok ⟨hlcl, hlast, order, .waitingForTrigger first state catchup buffer ahead work posted⟩

theorem initializeCatchup_keeps {freq : ℕ} {ledgerData : LedgerCloseData Tx} (hlcl : s.lclSeq < 2 ^ 32)
    (order : ClosedInOrder s) (state : s.mState ≠ .LM_CATCHING_UP_STATE) (catchup : s.mCatchupState = .NONE)
    (buffer : s.mSyncingLedgers = []) (work : s.mCatchupWork = none) (posted : s.posted = 0)
    (hlt : ledgerData.ledgerSeq < 2 ^ 32) (hnew : s.lclSeq + 1 < ledgerData.ledgerSeq) :
    Keeps (Inv ledgerData.ledgerSeq) (s.initializeCatchup freq ledgerData) := by
  have hstate : s.setState .LM_CATCHING_UP_STATE =
      { s with mState := .LM_CATCHING_UP_STATE, mCatchupState := s.mCatchupState } := by
    unfold setState
    rw [if_neg (Ne.symm state)]
    rfl
  have hbuffered : Buffered (push s.mSyncingLedgers ledgerData) ledgerData.ledgerSeq ledgerData.ledgerSeq := by
    rw [buffer, push_nil]
    exact Buffered.of_singleton ledgerData
  unfold initializeCatchup
  rw [assert_bind state, assert_bind catchup, assert_bind buffer, hstate]
  exact startCatchupIf_keeps hlcl hlt ⟨order.next, order.upTo, order.ordered⟩ rfl rfl hbuffered hnew work posted

theorem continueCatchup_keeps {ledgerData : LedgerCloseData Tx} (h : Inv last s)
    (hlast : last < ledgerData.ledgerSeq) (hlt : ledgerData.ledgerSeq < 2 ^ 32)
    (state : s.mState = .LM_CATCHING_UP_STATE)
    (closing : s.mCatchupState ≠ .WAITING_FOR_CLOSING_LEDGER)
    (horder : s.mCatchupState = .APPLYING_BUFFERED_LEDGERS → s.mSyncingLedgers = [] →
      ledgerData.ledgerSeq = s.lclSeq + 1) :
    Keeps (Inv ledgerData.ledgerSeq) (s.continueCatchup ledgerData) := by
  unfold continueCatchup
  rw [assert_bind state]
  have order : ClosedInOrder (s.addToSyncingLedgers ledgerData) :=
    ⟨h.order.next, h.order.upTo, h.order.ordered⟩
  cases h.phase with
  | idle state' => exact absurd state state'
  | waitingForClosing _ catchup => exact absurd catchup closing
  | waitingForTrigger first _ catchup buffer ahead work posted =>
    exact startCatchupIf_keeps h.lcl_lt hlt order state catchup (buffer.push hlast hlt) ahead work posted
  | applyingHistory first _ catchup buffer ahead work posted =>
    have hbuffer := buffer.push hlast hlt
    rw [@startCatchupIf_of_started _ _ (s.addToSyncingLedgers ledgerData) _ hbuffer.ne_nil
      (by rw [show (s.addToSyncingLedgers ledgerData).mCatchupState = _ from catchup]; decide)
      (by rw [show (s.addToSyncingLedgers ledgerData).mCatchupState = _ from catchup]; decide)]
    exact keeps_ok ⟨h.lcl_lt, hlt, order, .applyingHistory first state catchup hbuffer ahead work posted⟩
  | applyingBuffered _ catchup buffer behind work posted =>
    have hbuffer : Buffered (push s.mSyncingLedgers ledgerData) (s.lclSeq + 1) ledgerData.ledgerSeq := by
      rcases buffer with hempty | buffer
      · rw [hempty, push_nil, ← horder catchup hempty]
        exact Buffered.of_singleton ledgerData
      · exact buffer.push hlast hlt
    rw [@startCatchupIf_of_started _ _ (s.addToSyncingLedgers ledgerData) _ hbuffer.ne_nil
      (by rw [show (s.addToSyncingLedgers ledgerData).mCatchupState = _ from catchup]; decide)
      (by rw [show (s.addToSyncingLedgers ledgerData).mCatchupState = _ from catchup]; decide)]
    exact keeps_ok ⟨h.lcl_lt, hlt, order,
      .applyingBuffered state catchup (.inr hbuffer) (behind.trans hlast.le) work posted⟩

/-- Closing now, skipping, or leaving it to catch-up. -/
theorem closeLedgerIf_keeps (chain : Chain Db Tx) {ledgerData : LedgerCloseData Tx} (h : Inv last s)
    (hlast : last < ledgerData.ledgerSeq) (hlt : ledgerData.ledgerSeq < 2 ^ 32) :
    Keeps (fun r => match r.2 with
      | .CLOSED => (∃ lcl closed, r.1 = { s with lcl := lcl, closed := closed }) ∧
          r.1.lclSeq = ledgerData.ledgerSeq ∧ ClosedInOrder r.1
      | .TOO_OLD => r.1 = s
      | .TOO_NEW => r.1 = s ∧ s.lclSeq + 1 < ledgerData.ledgerSeq)
      (s.closeLedgerIf chain ledgerData) := by
  have hlcl := h.lcl_lt
  unfold closeLedgerIf
  split
  · next hnext =>
    have hseq : ledgerData.ledgerSeq = s.lclSeq + 1 := by
      unfold nextSeq at hnext
      omega
    split
    · refine Keeps.bind (close_keeps chain hseq hlt h.order) fun s' hs' => ?_
      obtain ⟨lcl, closed, heq, hlclSeq, horder⟩ := hs'
      exact keeps_ok ⟨⟨lcl, closed, heq⟩, hlclSeq, horder⟩
    · exact keeps_raise
  · next hnext =>
    split
    · exact keeps_ok rfl
    · next hold =>
      refine keeps_ok ⟨rfl, ?_⟩
      unfold nextSeq at hnext
      omega

theorem idle_of_setState {st : ManagerState} (hst : st ≠ .LM_CATCHING_UP_STATE) (h : Phase last s)
    (buffer : s.mSyncingLedgers = []) (work : s.mCatchupWork = none) (posted : s.posted = 0) :
    Phase last' (s.setState st) := by
  unfold setState
  split
  · next hsame =>
    cases h with
    | idle state catchup => exact .idle state catchup buffer work posted
    | waitingForTrigger _ state => exact absurd (hsame.trans state) hst
    | applyingHistory _ state => exact absurd (hsame.trans state) hst
    | applyingBuffered state => exact absurd (hsame.trans state) hst
    | waitingForClosing state => exact absurd (hsame.trans state) hst
  · exact .idle hst rfl buffer work posted

theorem order_setState (st : ManagerState) (h : ClosedInOrder s) :
    ClosedInOrder (s.setState st) ∧ (s.setState st).lclSeq = s.lclSeq ∧
      (s.setState st).mSyncingLedgers = s.mSyncingLedgers ∧ (s.setState st).mCatchupWork = s.mCatchupWork ∧
      (s.setState st).posted = s.posted := by
  unfold setState
  split
  · exact ⟨h, rfl, rfl, rfl, rfl⟩
  · exact ⟨⟨h.next, h.upTo, h.ordered⟩, rfl, rfl, rfl, rfl⟩

/-- After a close that leaves no catch-up behind. -/
theorem synced_keeps (last : ℕ) {ledgerSeq : ℕ} (hlt : ledgerSeq < 2 ^ 32) (hseq : s.lclSeq = ledgerSeq)
    (order : ClosedInOrder s) (phase : Phase last s) (buffer : s.mSyncingLedgers = [])
    (work : s.mCatchupWork = none) (posted : s.posted = 0) :
    Keeps (Inv ledgerSeq) (.ok (s.setState .LM_SYNCED_STATE)) := by
  obtain ⟨horder, hlcl, -, -, -⟩ := order_setState .LM_SYNCED_STATE order
  refine keeps_ok ⟨?_, hlt, horder, idle_of_setState (by decide) phase buffer work posted⟩
  rw [hlcl, hseq]
  exact hlt

theorem finalizeCatchup_keeps (chain : Chain Db Tx) {freq : ℕ} {ledgerData : LedgerCloseData Tx}
    (h : Inv last s) (hlast : last < ledgerData.ledgerSeq) (hlt : ledgerData.ledgerSeq < 2 ^ 32)
    (state : s.mState = .LM_CATCHING_UP_STATE) (catchup : s.mCatchupState = .WAITING_FOR_CLOSING_LEDGER)
    (buffer : s.mSyncingLedgers = []) (work : s.mCatchupWork = none) (posted : s.posted = 0) :
    Keeps (Inv ledgerData.ledgerSeq) (s.finalizeCatchup chain freq ledgerData) := by
  unfold finalizeCatchup
  rw [assert_bind state, assert_bind catchup, assert_bind buffer]
  refine Keeps.bind (closeLedgerIf_keeps chain h hlast hlt) fun r hr => ?_
  obtain ⟨s', result⟩ := r
  cases result with
  | CLOSED =>
    obtain ⟨⟨lcl, closed, rfl⟩, hseq, order⟩ := hr
    exact synced_keeps last hlt hseq order (.waitingForClosing state catchup buffer work posted)
      buffer work posted
  | TOO_OLD =>
    obtain rfl := hr
    exact keeps_ok (h.frame rfl rfl hlt (.waitingForClosing state catchup buffer work posted))
  | TOO_NEW =>
    obtain ⟨rfl, hnew⟩ := hr
    obtain ⟨order, hlcl, hbuffer, hwork, hposted⟩ := order_setState .LM_BOOTING_STATE h.order
    have hbooting : s'.setState .LM_BOOTING_STATE =
        { s' with mState := .LM_BOOTING_STATE, mCatchupState := .NONE } := by
      unfold setState
      rw [if_neg (by rw [state]; decide)]
      rfl
    refine initializeCatchup_keeps (by rw [hlcl]; exact h.lcl_lt) order ?_ ?_ (hbuffer.trans buffer)
      (hwork.trans work) (hposted.trans posted) hlt (by rw [hlcl]; exact hnew)
    · rw [hbooting]
      exact ManagerState.noConfusion
    · rw [hbooting]

theorem valueExternalized_keeps (chain : Chain Db Tx) {freq : ℕ} {ledgerData : LedgerCloseData Tx}
    (h : Inv last s) (hlast : last < ledgerData.ledgerSeq) (hlt : ledgerData.ledgerSeq < 2 ^ 32)
    (horder : s.mCatchupState = .APPLYING_BUFFERED_LEDGERS → s.mSyncingLedgers = [] →
      ledgerData.ledgerSeq = s.lclSeq + 1) :
    Keeps (Inv ledgerData.ledgerSeq) (s.valueExternalized chain freq ledgerData) := by
  -- the two idle states continue in the same way after `closeLedgerIf`
  have hidle : s.mState ≠ .LM_CATCHING_UP_STATE →
      ∀ continued : LedgerManager Db Tx × CloseLedgerIfResult → Checked (LedgerManager Db Tx),
        (∀ s', continued (s', .CLOSED) = .ok (s'.setState .LM_SYNCED_STATE)) →
        (∀ s', continued (s', .TOO_OLD) = .ok s') →
        (∀ s', continued (s', .TOO_NEW) = s'.initializeCatchup freq ledgerData) →
        Keeps (Inv ledgerData.ledgerSeq) (s.closeLedgerIf chain ledgerData >>= continued) := by
    intro state continued hclosed hold hnewer
    obtain ⟨catchup, buffer, work, posted⟩ : s.mCatchupState = .NONE ∧ s.mSyncingLedgers = [] ∧
        s.mCatchupWork = none ∧ s.posted = 0 := by
      cases h.phase with
      | idle _ catchup buffer work posted => exact ⟨catchup, buffer, work, posted⟩
      | waitingForTrigger _ state' => exact absurd state' state
      | applyingHistory _ state' => exact absurd state' state
      | applyingBuffered state' => exact absurd state' state
      | waitingForClosing state' => exact absurd state' state
    refine Keeps.bind (closeLedgerIf_keeps chain h hlast hlt) fun r hr => ?_
    obtain ⟨s', result⟩ := r
    cases result with
    | CLOSED =>
      obtain ⟨⟨lcl, closed, rfl⟩, hseq, order⟩ := hr
      rw [hclosed]
      exact synced_keeps last hlt hseq order (.idle state catchup buffer work posted) buffer work posted
    | TOO_OLD =>
      obtain rfl := hr
      rw [hold]
      exact keeps_ok (h.frame rfl rfl hlt (.idle state catchup buffer work posted))
    | TOO_NEW =>
      obtain ⟨rfl, hnew⟩ := hr
      rw [hnewer]
      exact initializeCatchup_keeps h.lcl_lt h.order state catchup buffer work posted hlt hnew
  unfold valueExternalized
  cases state : s.mState with
  | LM_BOOTING_STATE => exact hidle (by rw [state]; decide) _ (fun _ => rfl) (fun _ => rfl) fun _ => rfl
  | LM_SYNCED_STATE => exact hidle (by rw [state]; decide) _ (fun _ => rfl) (fun _ => rfl) fun _ => rfl
  | LM_CATCHING_UP_STATE =>
    by_cases catchup : s.mCatchupState = .WAITING_FOR_CLOSING_LEDGER
    · simp only [catchup]
      cases h.phase with
      | idle state' => exact absurd state state'
      | waitingForTrigger _ _ catchup' => rw [catchup] at catchup'; cases catchup'
      | applyingHistory _ _ catchup' => rw [catchup] at catchup'; cases catchup'
      | applyingBuffered _ catchup' => rw [catchup] at catchup'; cases catchup'
      | waitingForClosing _ _ buffer work posted =>
        exact finalizeCatchup_keeps chain h hlast hlt state catchup buffer work posted
    · have hcontinue := continueCatchup_keeps h hlast hlt state catchup horder
      simp only
      exact hcontinue

theorem applyBufferedCallback_keeps (chain : Chain Db Tx) (h : Inv last s) (hposted : 0 < s.posted) :
    Keeps (Inv last) (s.applyBufferedCallback chain) := by
  obtain ⟨state, catchup, buffer, behind, work, posted⟩ : s.mState = .LM_CATCHING_UP_STATE ∧
      s.mCatchupState = .APPLYING_BUFFERED_LEDGERS ∧
      (s.mSyncingLedgers = [] ∨ Buffered s.mSyncingLedgers (s.lclSeq + 1) last) ∧ s.lclSeq ≤ last ∧
      s.mCatchupWork = none ∧ s.posted = 1 := by
    cases h.phase with
    | idle _ _ _ _ posted => omega
    | waitingForTrigger _ _ _ _ _ _ posted => omega
    | applyingHistory _ _ _ _ _ _ posted => omega
    | waitingForClosing _ _ _ _ posted => omega
    | applyingBuffered state catchup buffer behind work posted =>
      exact ⟨state, catchup, buffer, behind, work, posted⟩
  unfold applyBufferedCallback
  cases hbuffer : s.mSyncingLedgers with
  | nil =>
    have hset := @setCatchupState_of_catchingUp Db Tx
      { s with mSyncingLedgers := [], posted := s.posted - 1 } state .WAITING_FOR_CLOSING_LEDGER
    simp only
    rw [hset]
    refine keeps_ok (h.frame rfl rfl h.last_lt (.waitingForClosing state rfl rfl work ?_))
    change s.posted - 1 = 0
    omega
  | cons lcd rest =>
    rw [hbuffer] at buffer
    obtain hnil | buffer := buffer
    · cases hnil
    obtain ⟨hseq, hle, hrest⟩ := buffer.tail
    have hlcl := h.last_lt
    have hnext : lcd.ledgerSeq = nextSeq s.lclSeq := by
      unfold nextSeq
      omega
    refine Keeps.assert hnext ?_
    refine Keeps.bind (close_keeps chain (s := { s with posted := s.posted - 1, mSyncingLedgers := rest })
      hseq (by omega) ⟨h.order.next, h.order.upTo, h.order.ordered⟩) fun s' hs' => ?_
    obtain ⟨lcl, closed, rfl, hlclSeq, order⟩ := hs'
    unfold applyBufferedLedgers
    refine Keeps.assert catchup ?_
    refine keeps_ok ⟨?_, h.last_lt, ⟨order.next, order.upTo, order.ordered⟩,
      .applyingBuffered state catchup ?_ ?_ work ?_⟩
    · exact hlclSeq.trans_lt (by omega)
    · rcases hrest with hnil | hrest
      · exact .inl hnil
      · have hnew : lcl.entry.header.ledgerSeq + 1 = s.lclSeq + 1 + 1 := by
          rw [← hseq, ← hlclSeq]
          rfl
        exact .inr (hnew.symm ▸ hrest)
    · exact hlclSeq.trans_le (hseq.trans_le hle)
    · change s.posted - 1 + 1 = 1
      omega

theorem applyHistory_keeps (chain : Chain Db Tx) {ledgerData : LedgerCloseData Tx} {toLedger : ℕ}
    (h : Inv last s) (hwork : s.mCatchupWork = some toLedger) (hseq : ledgerData.ledgerSeq = s.lclSeq + 1)
    (hle : ledgerData.ledgerSeq ≤ toLedger) : Keeps (Inv last) (s.close chain ledgerData) := by
  cases h.phase with
  | idle _ _ _ work => rw [hwork] at work; cases work
  | waitingForTrigger _ _ _ _ _ work => rw [hwork] at work; cases work
  | applyingBuffered _ _ _ _ work => rw [hwork] at work; cases work
  | waitingForClosing _ _ _ work => rw [hwork] at work; cases work
  | applyingHistory first state catchup buffer ahead work posted =>
    obtain rfl : toLedger = first := Option.some.inj (hwork.symm.trans work)
    have hlast : toLedger + 1 ≤ last := by
      cases hb : s.mSyncingLedgers with
      | nil => exact absurd hb buffer.ne_nil
      | cons lcd rest => exact (Buffered.tail (hb ▸ buffer)).2.1
    have hlt := h.last_lt
    refine (close_keeps chain hseq (by omega) h.order).mono fun s' hs' => ?_
    obtain ⟨lcl, closed, rfl, hlclSeq, order⟩ := hs'
    refine ⟨hlclSeq.trans_lt (by omega), hlt, order, ?_⟩
    exact .applyingHistory toLedger state catchup buffer (hlclSeq.trans_le hle) work posted

theorem historyCaughtup_keeps {ec : Bool} {progressState : ProgressState} {db : Db}
    {lastClosed : LedgerHeaderHistoryEntry} (h : Inv last s)
    (hallowed : Allowed s last (.historyCaughtup ec progressState db lastClosed : Event Db Tx)) :
    Keeps (Inv last) (s.historyCaughtup ec progressState db lastClosed) := by
  obtain ⟨first, state, catchup, buffer, ahead, work, posted⟩ : ∃ first, s.mState = .LM_CATCHING_UP_STATE ∧
      s.mCatchupState = .APPLYING_HISTORY ∧ Buffered s.mSyncingLedgers (first + 1) last ∧ s.lclSeq ≤ first ∧
      s.mCatchupWork = some first ∧ s.posted = 0 := by
    have hwork : s.mCatchupWork ≠ none := by
      cases ec with
      | true => exact hallowed
      | false =>
        cases progressState with
        | APPLIED_BUCKETS =>
          obtain ⟨-, toLedger, hwork, -⟩ := hallowed
          exact Option.mem_def.mp hwork ▸ Option.some_ne_none toLedger
        | APPLIED_TRANSACTIONS => exact hallowed.1 ▸ Option.some_ne_none s.lclSeq
        | FINISHED => exact hallowed.1 ▸ Option.some_ne_none s.lclSeq
    cases h.phase with
    | idle _ _ _ work => exact absurd work hwork
    | waitingForTrigger _ _ _ _ _ work => exact absurd work hwork
    | applyingBuffered _ _ _ _ work => exact absurd work hwork
    | waitingForClosing _ _ _ work => exact absurd work hwork
    | applyingHistory first state catchup buffer ahead work posted =>
      exact ⟨first, state, catchup, buffer, ahead, work, posted⟩
  unfold historyCaughtup
  refine Keeps.assert catchup ?_
  cases ec with
  | true =>
    have hbooting : s.setState .LM_BOOTING_STATE =
        { s with mState := .LM_BOOTING_STATE, mCatchupState := .NONE } := by
      unfold setState
      rw [if_neg (by rw [state]; decide)]
      rfl
    simp only [if_true, hbooting]
    exact keeps_ok (h.frame rfl rfl h.last_lt (.idle ManagerState.noConfusion rfl rfl rfl posted))
  | false =>
    have hlast : first + 1 ≤ last := by
      cases hb : s.mSyncingLedgers with
      | nil => exact absurd hb buffer.ne_nil
      | cons lcd rest => exact (Buffered.tail (hb ▸ buffer)).2.1
    cases progressState with
    | APPLIED_BUCKETS =>
      obtain ⟨hlcl, toLedger, hwork, hle⟩ := hallowed
      obtain rfl : toLedger = first := Option.some.inj (hwork.symm.trans work)
      have hlt := h.last_lt
      refine keeps_ok ⟨?_, hlt, ⟨h.order.next, fun c hc => (h.order.upTo c hc).trans hlcl, h.order.ordered⟩,
        .applyingHistory toLedger state catchup buffer hle work posted⟩
      change lastClosed.header.ledgerSeq < 2 ^ 32
      omega
    | APPLIED_TRANSACTIONS =>
      obtain ⟨-, rfl⟩ := hallowed
      exact Keeps.assert rfl (Keeps.assert rfl (keeps_ok h))
    | FINISHED =>
      obtain ⟨hwork, -⟩ := hallowed
      obtain rfl : s.lclSeq = first := Option.some.inj (hwork.symm.trans work)
      have hset := @setCatchupState_of_catchingUp Db Tx
        { s with mCatchupWork := none } state .APPLYING_BUFFERED_LEDGERS
      simp only [Bool.false_eq_true, if_false, hset]
      unfold applyBufferedLedgers
      refine Keeps.assert rfl (keeps_ok (h.frame rfl rfl h.last_lt ?_))
      refine .applyingBuffered state rfl (.inr buffer) ((Nat.le_succ _).trans hlast) rfl ?_
      change s.posted + 1 = 1
      omega

/-- One event keeps the invariant and fails no assertion. -/
theorem step_keeps (chain : Chain Db Tx) (freq : ℕ) {e : Event Db Tx} (h : Inv last s)
    (hallowed : Allowed s last e) (horder : InOrder s e) :
    Keeps (Inv (latest last e)) (s.step chain freq e) := by
  cases e with
  | valueExternalized ledgerData => exact valueExternalized_keeps chain h hallowed.1 hallowed.2 horder
  | applyBufferedCallback => exact applyBufferedCallback_keeps chain h hallowed
  | applyHistory ledgerData =>
    obtain ⟨hseq, toLedger, hwork, hle⟩ := hallowed
    exact applyHistory_keeps chain h hwork hseq hle
  | historyCaughtup ec progressState db lastClosed => exact historyCaughtup_keeps h hallowed

/-! ## Runs -/

section Runs

variable (chain : Chain Db Tx) (freq : ℕ)

def run : LedgerManager Db Tx → List (Event Db Tx) → Checked (LedgerManager Db Tx)
  | s, [] => .ok s
  | s, e :: es => s.step chain freq e >>= fun s => run s es

/-- Every event comes in a state that allows it, up to one that ends the run. -/
def Admissible : LedgerManager Db Tx → ℕ → List (Event Db Tx) → Prop
  | _, _, [] => True
  | s, last, e :: es => Allowed s last e ∧
    IfOk (s.step chain freq e) fun s' => Admissible s' (latest last e) es

def AllInOrder : LedgerManager Db Tx → List (Event Db Tx) → Prop
  | _, [] => True
  | s, e :: es => InOrder s e ∧ IfOk (s.step chain freq e) fun s' => AllInOrder s' es

instance decidableAdmissible : ∀ (s : LedgerManager Db Tx) (last : ℕ) (es : List (Event Db Tx)),
    Decidable (Admissible chain freq s last es)
  | _, _, [] => .isTrue trivial
  | _, last, e :: es =>
    have := fun s' => decidableAdmissible s' (latest last e) es
    inferInstanceAs (Decidable (_ ∧ _))

instance decidableAllInOrder : ∀ (s : LedgerManager Db Tx) (es : List (Event Db Tx)),
    Decidable (AllInOrder chain freq s es)
  | _, [] => .isTrue trivial
  | _, _ :: es =>
    have := fun s' => decidableAllInOrder s' es
    inferInstanceAs (Decidable (_ ∧ _))

/-- A ledger manager that has not begun to catch up. -/
structure Started (s : LedgerManager Db Tx) : Prop where
  state : s.mState ≠ .LM_CATCHING_UP_STATE
  catchup : s.mCatchupState = .NONE
  buffer : s.mSyncingLedgers = []
  work : s.mCatchupWork = none
  posted : s.posted = 0
  closed : s.closed = []
  lcl_lt : s.lclSeq < 2 ^ 32

theorem Started.inv {s : LedgerManager Db Tx} (h : Started s) : Inv 0 s where
  lcl_lt := h.lcl_lt
  last_lt := by decide
  order := by
    refine ⟨?_, ?_, ?_⟩ <;> rw [h.closed]
    · exact fun c hc => absurd hc List.not_mem_nil
    · exact fun c hc => absurd hc List.not_mem_nil
    · exact List.Pairwise.nil
  phase := .idle h.state h.catchup h.buffer h.work h.posted

variable {chain freq}

theorem run_keeps {es : List (Event Db Tx)} (h : Inv last s) (hadm : Admissible chain freq s last es)
    (horder : AllInOrder chain freq s es) : Keeps (fun s' => ∃ last', Inv last' s') (run chain freq s es) := by
  induction es generalizing s last with
  | nil => exact keeps_ok ⟨last, h⟩
  | cons e es ih =>
    obtain ⟨hallowed, hadm⟩ := hadm
    obtain ⟨hinOrder, horder⟩ := horder
    have hstep := step_keeps chain freq h hallowed hinOrder
    rw [run]
    cases hs : s.step chain freq e with
    | error failure =>
      rw [hs] at hstep
      cases failure with
      | assertion condition => exact hstep.elim
      | exception what => exact keeps_raise
    | ok s' =>
      rw [hs] at hstep hadm horder
      exact ih hstep hadm horder

/-- A ledger out of order makes the callback that is still posted fail. -/
theorem run_of_not_inOrder {ledgerData : LedgerCloseData Tx} (h : Inv last s)
    (hallowed : Allowed s last (.valueExternalized ledgerData))
    (hout : ¬ InOrder s (.valueExternalized ledgerData)) :
    run chain freq s [.valueExternalized ledgerData, .applyBufferedCallback] =
      .error (.assertion "lcd.getLedgerSeq() == mLastClosedLedger.header.ledgerSeq + 1") := by
  obtain ⟨hlast, hlt⟩ := hallowed
  unfold InOrder at hout
  push Not at hout
  obtain ⟨catchup, buffer, hseq⟩ := hout
  obtain ⟨state, behind⟩ : s.mState = .LM_CATCHING_UP_STATE ∧ s.lclSeq ≤ last := by
    cases h.phase with
    | idle _ catchup' => rw [catchup] at catchup'; cases catchup'
    | waitingForTrigger _ _ catchup' => rw [catchup] at catchup'; cases catchup'
    | applyingHistory _ _ catchup' => rw [catchup] at catchup'; cases catchup'
    | waitingForClosing _ catchup' => rw [catchup] at catchup'; cases catchup'
    | applyingBuffered state _ _ behind => exact ⟨state, behind⟩
  have hadd : s.addToSyncingLedgers ledgerData = { s with mSyncingLedgers := [ledgerData] } := by
    unfold addToSyncingLedgers
    rw [buffer, push_nil]
  have hstarted := @startCatchupIf_of_started Db Tx { s with mSyncingLedgers := [ledgerData] }
    ledgerData.ledgerSeq (List.cons_ne_nil _ _) (by rw [catchup]; decide) (by rw [catchup]; decide)
  have hcontinue : s.continueCatchup ledgerData = .ok { s with mSyncingLedgers := [ledgerData] } := by
    unfold continueCatchup
    rw [assert_bind state]
    change (s.addToSyncingLedgers ledgerData).startCatchupIf _ = _
    rw [hadd, hstarted]
  have hstep : s.valueExternalized chain freq ledgerData = s.continueCatchup ledgerData := by
    unfold valueExternalized
    simp only [state, catchup]
  have hnext : ¬ ledgerData.ledgerSeq = nextSeq s.lclSeq := by
    unfold nextSeq
    omega
  have hcallback : ({ s with mSyncingLedgers := [ledgerData] } : LedgerManager Db Tx).applyBufferedCallback chain =
      .error (.assertion "lcd.getLedgerSeq() == mLastClosedLedger.header.ledgerSeq + 1") := by
    unfold applyBufferedCallback
    simp only
    have hfail : assert (ledgerData.ledgerSeq = nextSeq s.lclSeq)
        "lcd.getLedgerSeq() == mLastClosedLedger.header.ledgerSeq + 1" = .error (.assertion _) := if_neg hnext
    change (assert (ledgerData.ledgerSeq = nextSeq s.lclSeq) _ >>= _) = _
    rw [hfail]
    rfl
  rw [run, step, hstep, hcontinue]
  change (run chain freq _ [.applyBufferedCallback]) = _
  rw [run, step, hcallback]
  rfl

variable (chain freq)

/-- While ledgers come in order, no assertion fails and every ledger is closed once, right after the
last closed one. -/
theorem run_catchup_safe {s : LedgerManager Db Tx} (hs : Started s) {es : List (Event Db Tx)}
    (hadm : Admissible chain freq s 0 es) (horder : AllInOrder chain freq s es) :
    (∀ condition, run chain freq s es ≠ .error (.assertion condition)) ∧
      ∀ s', run chain freq s es = .ok s' → ClosedInOrder s' := by
  have hkeeps := run_keeps hs.inv hadm horder
  refine ⟨hkeeps.ne_assertion, fun s' hs' => ?_⟩
  obtain ⟨last', h⟩ := hkeeps.of_ok hs'
  exact h.order

end Runs

/-! ## A missed ledger -/

section Missed

/-- A chain whose hashes are the ledger numbers. -/
def numberedChain : Chain Unit Unit where
  headerHash header := Fin.ofNat _ header.ledgerSeq
  contentsHash _ := 0
  applyTxSet _ header _ := .ok ((), ⟨header.ledgerVersion, 0, 0⟩)

/-- A node at ledger `n`. -/
def syncedAt (n : ℕ) : LedgerManager Unit Unit where
  lcl := ⟨(), Fin.ofNat _ n, ⟨10, Fin.ofNat _ (n - 1), ⟨0, 0⟩, 0, 0, n⟩⟩
  mState := .LM_SYNCED_STATE
  mCatchupState := .NONE
  mSyncingLedgers := []
  mCatchupTriggerLedger := 0
  mCatchupWork := none
  posted := 0
  closed := []

def ledgerAt (n : ℕ) : LedgerCloseData Unit := ⟨n, ⟨Fin.ofNat _ (n - 1), []⟩, ⟨0, 0⟩⟩

/-- The node at 14 hears of 16 and 17, replays 15 from history, and closes both. -/
def caughtUp : List (Event Unit Unit) :=
  [.valueExternalized (ledgerAt 16), .valueExternalized (ledgerAt 17), .applyHistory (ledgerAt 15),
    .historyCaughtup false .FINISHED () ⟨Fin.ofNat _ 15, ⟨10, Fin.ofNat _ 14, ⟨0, 0⟩, 0, 0, 15⟩⟩,
    .applyBufferedCallback, .applyBufferedCallback]

theorem run_catchup_safe_caughtUp :
    (∀ condition, run numberedChain 8 (syncedAt 14) (caughtUp ++ [.valueExternalized (ledgerAt 18),
        .applyBufferedCallback]) ≠ .error (.assertion condition)) ∧
      ∀ s', run numberedChain 8 (syncedAt 14) (caughtUp ++ [.valueExternalized (ledgerAt 18),
        .applyBufferedCallback]) = .ok s' → ClosedInOrder s' := by
  refine run_catchup_safe numberedChain 8 ⟨by decide, rfl, rfl, rfl, rfl, rfl, by decide⟩ ?_ ?_
  · decide +kernel
  · decide +kernel

/-- When 18 is missed and 19 comes before the callback, 19 is taken for the ledger after 17. -/
theorem run_catchup_missed :
    ¬ ∀ (chain : Chain Unit Unit) (freq : ℕ) (s : LedgerManager Unit Unit) (es : List (Event Unit Unit)),
      Frequency freq → Started s → Admissible chain freq s 0 es →
      (∀ condition, run chain freq s es ≠ .error (.assertion condition)) ∧
        ∀ s', run chain freq s es = .ok s' → ClosedInOrder s' := by
  intro h
  refine (h numberedChain 8 (syncedAt 14) (caughtUp ++ [.valueExternalized (ledgerAt 19),
    .applyBufferedCallback]) (.inl rfl) ⟨by decide, rfl, rfl, rfl, rfl, rfl, by decide⟩ ?_).1
    "lcd.getLedgerSeq() == mLastClosedLedger.header.ledgerSeq + 1" ?_
  · decide +kernel
  · rfl

end Missed

end LedgerManager

end ZaggCore.Ledger
