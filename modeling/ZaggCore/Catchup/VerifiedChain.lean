import ZaggCore.Catchup.VerifyLedgerChain

/-! # What `VerifyLedgerChainWork` verifies

The checkpoints are verified from the last one down. A file passes when its headers are sound and chained
up to where the work stops reading; it fits when its end meets the beginning of the file above without
an assertion in the way. Where every file that is reached can be read and fits, and the first one reaches
down to the range, success means a good chain; everywhere else the work trips or accepts a range with a
gap. -/

namespace ZaggCore.Catchup
open Foundations Foundations.Checked History Ledger
set_option autoImplicit false
set_option maxHeartbeats 250000

/-- The entries up to the first one of ledger `last`. -/
def upTo (last : ℕ) : List LedgerHeaderHistoryEntry → List LedgerHeaderHistoryEntry
  | [] => []
  | e :: rest => if e.header.ledgerSeq = last then [e] else e :: upTo last rest

/-- The next header after `a`. -/
def Linked (a b : LedgerHeaderHistoryEntry) : Prop :=
  b.header.ledgerSeq = nextSeq a.header.ledgerSeq ∧ b.header.previousLedgerHash = a.hash

theorem mem_of_mem_upTo {last : ℕ} {l : List LedgerHeaderHistoryEntry} {e : LedgerHeaderHistoryEntry}
    (h : e ∈ upTo last l) : e ∈ l := by
  induction l with
  | nil => cases h
  | cons a rest ih =>
    unfold upTo at h
    split at h
    · rw [List.mem_singleton] at h
      exact h ▸ List.mem_cons_self
    · rcases List.mem_cons.mp h with rfl | h
      · exact List.mem_cons_self
      · exact List.mem_cons_of_mem _ (ih h)

/-- Only the last of the entries read can be the one of ledger `last`. -/
theorem upTo_dropLast {last : ℕ} {l : List LedgerHeaderHistoryEntry} {e : LedgerHeaderHistoryEntry}
    (h : e ∈ (upTo last l).dropLast) : e.header.ledgerSeq ≠ last := by
  induction l with
  | nil => cases h
  | cons a rest ih =>
    unfold upTo at h
    split at h
    · cases h
    · next ha =>
      cases hrest : upTo last rest with
      | nil =>
        rw [hrest] at h
        cases h
      | cons b tail =>
        rw [hrest, List.dropLast_cons_cons] at h
        rcases List.mem_cons.mp h with rfl | h
        · exact ha
        · rw [hrest] at ih
          exact ih h

/-- Every entry of a chain but the last has one after it. -/
theorem next_of_chain {l : List LedgerHeaderHistoryEntry} {e : LedgerHeaderHistoryEntry}
    (hchain : l.IsChain Linked) (he : e ∈ l) : e = l.getLastD emptyEntry ∨ ∃ e' ∈ l, Linked e e' := by
  induction l with
  | nil => cases he
  | cons a rest ih =>
    cases rest with
    | nil =>
      left
      exact List.mem_singleton.mp he
    | cons b tail =>
      obtain ⟨hlinked, hrest⟩ := List.isChain_cons_cons.mp hchain
      rcases List.mem_cons.mp he with rfl | he
      · right
        exact ⟨b, List.mem_cons_of_mem _ List.mem_cons_self, hlinked⟩
      · rcases ih hrest he with h | ⟨e', he', h⟩
        · left
          rw [h, List.getLastD_cons, List.getLastD_cons, List.getLastD_cons]
        · right
          exact ⟨e', List.mem_cons_of_mem _ he', h⟩

theorem eq_last_of_seq {last : ℕ} {l : List LedgerHeaderHistoryEntry} {e : LedgerHeaderHistoryEntry}
    (he : e ∈ upTo last l) (hseq : e.header.ledgerSeq = last) : e = (upTo last l).getLastD emptyEntry := by
  have hnil : upTo last l ≠ [] := List.ne_nil_of_mem he
  rw [← List.dropLast_append_getLast hnil] at he
  rcases List.mem_append.mp he with he | he
  · exact absurd hseq (upTo_dropLast he)
  · rw [List.mem_singleton.mp he, List.getLastD_eq_getLast?, List.getLast?_eq_getLast_of_ne_nil hnil]
    rfl

namespace VerifyLedgerChainWork

variable {freq : ℕ} (w : VerifyLedgerChainWork freq)

/-- The checkpoints of the range. -/
def InRange (c : ℕ) : Prop :=
  c % freq = freq - 1 ∧ w.firstCheckpoint ≤ c ∧ c ≤ w.lastCheckpoint

/-- The headers the work reads in the file of a checkpoint. -/
def headers (c : ℕ) : List LedgerHeaderHistoryEntry :=
  match w.files c with
  | none => []
  | some file => upTo w.mRange.last file.entries

def firstHeader (c : ℕ) : LedgerHeaderHistoryEntry := (w.headers c).headD emptyEntry

def lastHeader (c : ℕ) : LedgerHeaderHistoryEntry := (w.headers c).getLastD emptyEntry

/-- A header that agrees with its claimed hash, the protocol version and the last closed ledger. -/
structure Sound (e : LedgerHeaderHistoryEntry) : Prop where
  version : e.header.ledgerVersion ≤ CURRENT_LEDGER_PROTOCOL_VERSION
  hash : w.headerHash e.header = e.hash
  lastClosed : e.header.ledgerSeq = w.mLastClosed.1 → e.hash = w.mLastClosed.2
  afterLastClosed : e.header.ledgerSeq = nextSeq w.mLastClosed.1 →
    e.header.previousLedgerHash = w.mLastClosed.2

def Passes (c : ℕ) : Prop := (∀ e ∈ w.headers c, w.Sound e) ∧ (w.headers c).IsChain Linked

/-- The file is there, and the work meets no entry it cannot read. -/
def Readable (c : ℕ) : Prop :=
  ∃ file, w.files c = some file ∧
    (w.Passes c → (w.lastHeader c).header.ledgerSeq ≠ w.mRange.last → file.malformed = false)

/-- A file that passes and ends where one can end, ends the range at its last checkpoint, or meets the
first header of the file above. A first header numbered 1 leaves the 0 that stands for nothing above. -/
def Fits (c : ℕ) : Prop :=
  w.Passes c →
    ((w.lastHeader c).header.ledgerSeq = w.mRange.last →
      c = w.lastCheckpoint ∨ (w.firstHeader (c + freq)).header.ledgerSeq = 1) ∧
    ((w.lastHeader c).header.ledgerSeq = c → c ≠ w.mRange.last →
      c ≠ w.lastCheckpoint ∧ (w.firstHeader (c + freq)).header.ledgerSeq = c + 1)

/-- The file passes, and its last header has the hash expected from above. -/
structure Verified (c : ℕ) : Prop where
  readable : w.Readable c
  fits : w.Fits c
  passes : w.Passes c
  ends : (w.lastHeader c).header.ledgerSeq = w.mRange.last ∨ (w.lastHeader c).header.ledgerSeq = c
  trusted : (w.lastHeader c).header.ledgerSeq = w.mRange.last →
    ∀ h ∈ w.mTrustedHash, (w.lastHeader c).hash = h
  above : (w.lastHeader c).header.ledgerSeq ≠ w.mRange.last →
    (w.lastHeader c).hash = (w.firstHeader (c + freq)).header.previousLedgerHash

/-- The work gets to a checkpoint when it has verified those above. -/
def Reached (c : ℕ) : Prop := w.InRange c ∧ ∀ c', w.InRange c' → c < c' → w.Verified c'

/-- Every file the work gets to can be read and fits, and where all are verified, a header of the first
ledger of the range is among those read. -/
structure Aligned : Prop where
  fits : ∀ c, w.Reached c → w.Readable c ∧ w.Fits c
  covers : (∀ c, w.InRange c → w.Verified c) →
    ∃ c, w.InRange c ∧ ∃ e ∈ w.headers c, e.header.ledgerSeq = w.mRange.first

/-- A good chain from `first` to the end of the range, in the headers read from the files. -/
structure GoodChain (first : ℕ) (chain : ℕ → LedgerHeaderHistoryEntry) : Prop where
  read : ∀ n, first ≤ n → n ≤ w.mRange.last → ∃ c, w.InRange c ∧ chain n ∈ w.headers c
  numbered : ∀ n, first ≤ n → n ≤ w.mRange.last → (chain n).header.ledgerSeq = n
  hashed : ∀ n, first ≤ n → n ≤ w.mRange.last → w.headerHash (chain n).header = (chain n).hash
  linked : ∀ n, first ≤ n → n < w.mRange.last →
    (chain (n + 1)).header.previousLedgerHash = w.headerHash (chain n).header
  trusted : ∀ h ∈ w.mTrustedHash, w.headerHash (chain w.mRange.last).header = h
  lastClosed : first ≤ w.mLastClosed.1 → w.mLastClosed.1 ≤ w.mRange.last →
    w.headerHash (chain w.mLastClosed.1).header = w.mLastClosed.2
  afterLastClosed : first ≤ w.mLastClosed.1 + 1 → w.mLastClosed.1 + 1 ≤ w.mRange.last →
    (chain (w.mLastClosed.1 + 1)).header.previousLedgerHash = w.mLastClosed.2

/-- The work ends in success or in a failure state, in success only on a good chain. -/
def AcceptsGoodChains : Prop :=
  ∃ n ended s, Work.runs w.work n (Work.added w.work w.onReset) = some (.ok (ended, s)) ∧
    (ended = .WORK_SUCCESS → ∃ chain, w.GoodChain w.mRange.first chain)

section Entries

variable {w} {prev : Option LedgerHeaderHistoryEntry} {e curr : LedgerHeaderHistoryEntry}
  {l : List LedgerHeaderHistoryEntry} {ahead : LedgerNumHashPair} {malformed : Bool}

theorem verifyLedgerHistoryEntry_ok :
    w.verifyLedgerHistoryEntry e = .VERIFY_STATUS_OK ↔ w.headerHash e.header = e.hash := by
  unfold verifyLedgerHistoryEntry
  split <;> simp_all

theorem verifyLedgerHistoryLink_ok {hash : Hash} :
    w.verifyLedgerHistoryLink hash e = .VERIFY_STATUS_OK ↔
      w.headerHash e.header = e.hash ∧ e.header.previousLedgerHash = hash := by
  rw [← verifyLedgerHistoryEntry_ok (w := w)]
  unfold verifyLedgerHistoryLink
  split
  · next h =>
    rw [h, eq_comm (b := hash)]
    split <;> simp_all
  · next h =>
    exact ⟨fun hok => absurd hok h, fun hok => hok.1⟩

theorem verifyPrevious_ok : w.verifyPrevious prev e = .VERIFY_STATUS_OK ↔
    w.headerHash e.header = e.hash ∧ ∀ p ∈ prev, Linked p e := by
  unfold verifyPrevious Linked
  cases prev with
  | none => simp [verifyLedgerHistoryEntry_ok]
  | some p =>
    simp only [Option.mem_some_iff, forall_eq']
    split
    · next h =>
      constructor
      · intro hok
        cases hok
      · intro hok
        omega
    · split
      · constructor
        · intro hok
          cases hok
        · intro hok
          omega
      · rw [verifyLedgerHistoryLink_ok]
        have hseq : e.header.ledgerSeq = nextSeq p.header.ledgerSeq := by omega
        tauto

theorem verifyLastClosed_ok (hhash : w.headerHash e.header = e.hash) :
    w.verifyLastClosed e = .VERIFY_STATUS_OK ↔
      (e.header.ledgerSeq = w.mLastClosed.1 → e.hash = w.mLastClosed.2) ∧
      (e.header.ledgerSeq = nextSeq w.mLastClosed.1 →
        e.header.previousLedgerHash = w.mLastClosed.2) := by
  unfold verifyLastClosed
  split
  · next h =>
    have hne : e.header.ledgerSeq ≠ nextSeq w.mLastClosed.1 := by
      rw [h]
      unfold nextSeq
      omega
    rw [hhash]
    split <;> simp_all
  · next h =>
    split
    · rw [verifyLedgerHistoryLink_ok]
      tauto
    · simp_all

/-- What one round of the loop lets through. -/
theorem sound_iff : w.Sound e ∧ (∀ p ∈ prev, Linked p e) ↔
    ¬e.header.ledgerVersion > CURRENT_LEDGER_PROTOCOL_VERSION ∧
      w.verifyLastClosed e = .VERIFY_STATUS_OK ∧ w.verifyPrevious prev e = .VERIFY_STATUS_OK := by
  constructor
  · intro h
    have hhash := h.1.hash
    exact ⟨not_lt.mpr h.1.version, (verifyLastClosed_ok hhash).mpr ⟨h.1.lastClosed, h.1.afterLastClosed⟩,
      verifyPrevious_ok.mpr ⟨hhash, h.2⟩⟩
  · intro h
    obtain ⟨hhash, hlinked⟩ := verifyPrevious_ok.mp h.2.2
    obtain ⟨hlast, hafter⟩ := (verifyLastClosed_ok hhash).mp h.2.1
    exact ⟨⟨not_lt.mp h.1, hhash, hlast, hafter⟩, hlinked⟩

/-- What the loop leaves in the pair for the checkpoint below. -/
def aheadAfter (prev : Option LedgerHeaderHistoryEntry) (ahead : LedgerNumHashPair)
    (l : List LedgerHeaderHistoryEntry) : LedgerNumHashPair :=
  match prev, l with
  | none, e :: _ => aheadOf e
  | _, _ => ahead

theorem aheadAfter_some : aheadAfter (some e) ahead l = ahead := by
  cases l <;> rfl

/-- The loop over headers that are sound and chained. -/
theorem verifyEntries_pass (hsound : ∀ x ∈ upTo w.mRange.last l, w.Sound x)
    (hchain : (prev.toList ++ upTo w.mRange.last l).IsChain Linked) :
    w.verifyEntries malformed l prev curr ahead =
      if malformed = true ∧ ∀ x ∈ l, x.header.ledgerSeq ≠ w.mRange.last then raise "malformed XDR file"
      else .ok (.VERIFY_STATUS_OK, (upTo w.mRange.last l).getLastD curr, aheadAfter prev ahead l) := by
  induction l generalizing prev curr ahead with
  | nil =>
    unfold verifyEntries upTo
    cases malformed with
    | true => simp
    | false => cases prev <;> simp [aheadAfter]
  | cons e rest ih =>
    have hmem : e ∈ upTo w.mRange.last (e :: rest) := by
      unfold upTo
      split <;> exact List.mem_cons_self
    have hlinked : ∀ p ∈ prev, Linked p e := by
      intro p hp
      rw [Option.mem_def.mp hp] at hchain
      unfold upTo at hchain
      split at hchain
      · exact (List.isChain_cons_cons.mp hchain).1
      · exact (List.isChain_cons_cons.mp hchain).1
    obtain ⟨hversion, hlast, hprev⟩ := sound_iff.mp ⟨hsound e hmem, hlinked⟩
    unfold verifyEntries
    rw [if_neg hversion, if_neg (not_not.mpr hlast), if_neg (not_not.mpr hprev)]
    have hahead : (if prev.isNone then aheadOf e else ahead) = aheadAfter prev ahead (e :: rest) := by
      cases prev <;> rfl
    simp only [hahead]
    by_cases hseq : e.header.ledgerSeq = w.mRange.last
    · rw [if_pos hseq, if_neg (fun h => h.2 e List.mem_cons_self hseq), upTo, if_pos hseq]
      rfl
    · rw [if_neg hseq]
      rw [upTo, if_neg hseq] at hsound hchain ⊢
      have hrest : (Option.toList (some e) ++ upTo w.mRange.last rest).IsChain Linked := by
        cases prev with
        | none => exact hchain
        | some p => exact (List.isChain_cons_cons.mp hchain).2
      rw [ih (fun x hx => hsound x (List.mem_cons_of_mem _ hx)) hrest, List.getLastD_cons, aheadAfter_some]
      simp only [List.mem_cons, forall_eq_or_imp, ne_eq, hseq, not_false_eq_true, true_and]

/-- The loop over headers that are not. -/
theorem verifyEntries_fail (hl : ¬((∀ x ∈ upTo w.mRange.last l, w.Sound x) ∧
      (prev.toList ++ upTo w.mRange.last l).IsChain Linked)) (hp : prev.toList.IsChain Linked) :
    ∃ status curr' ahead', status ≠ .VERIFY_STATUS_OK ∧
      w.verifyEntries malformed l prev curr ahead = .ok (status, curr', ahead') := by
  induction l generalizing prev curr ahead with
  | nil =>
    refine absurd ⟨?_, ?_⟩ hl
    · intro x hx
      cases hx
    · rw [upTo, List.append_nil]
      exact hp
  | cons e rest ih =>
    unfold verifyEntries
    by_cases hround : w.Sound e ∧ ∀ p ∈ prev, Linked p e
    · obtain ⟨hversion, hlast, hprev⟩ := sound_iff.mp hround
      rw [if_neg hversion, if_neg (not_not.mpr hlast), if_neg (not_not.mpr hprev)]
      have hcons : (prev.toList ++ [e]).IsChain Linked := by
        cases prev with
        | none => exact List.isChain_singleton _
        | some p => exact List.isChain_cons_cons.mpr ⟨hround.2 p rfl, List.isChain_singleton _⟩
      by_cases hseq : e.header.ledgerSeq = w.mRange.last
      · rw [upTo, if_pos hseq] at hl
        refine absurd ⟨?_, hcons⟩ hl
        intro x hx
        rw [List.mem_singleton.mp hx]
        exact hround.1
      · simp only [if_neg hseq]
        rw [upTo, if_neg hseq] at hl
        refine ih ?_ (List.isChain_singleton _)
        intro h
        refine hl ⟨?_, ?_⟩
        · intro x hx
          rcases List.mem_cons.mp hx with rfl | hx
          · exact hround.1
          · exact h.1 x hx
        · cases prev with
          | none => exact h.2
          | some p => exact List.isChain_cons_cons.mpr ⟨hround.2 p rfl, h.2⟩
    · rw [sound_iff] at hround
      split
      · exact ⟨_, _, _, by decide, rfl⟩
      · next hversion =>
        split
        · next hlast => exact ⟨_, _, _, hlast, rfl⟩
        · next hlast =>
          split
          · next hprev => exact ⟨_, _, _, hprev, rfl⟩
          · next hprev => exact absurd ⟨hversion, not_not.mp hlast, not_not.mp hprev⟩ hround

end Entries

/-- `mVerifiedAhead` when the work gets to a checkpoint. -/
def aheadAt (c : ℕ) : LedgerNumHashPair :=
  if c = w.lastCheckpoint then (0, none) else aheadOf (w.firstHeader (c + freq))

/-- The end of `verifyHistoryOfSingleCheckpoint`. -/
def conclude (s : VerifyState) (curr : LedgerHeaderHistoryEntry) (next : LedgerNumHashPair) :
    Checked (VerificationStatus × VerifyState) := do
  let verifyTrustedHash ← verifyLastLedgerInCheckpoint curr next
  if verifyTrustedHash ≠ .VERIFY_STATUS_OK then
    assert (next.2 ≠ none) "nextCheckpointFirstLedger.second"
    return (verifyTrustedHash, s)
  if s.mCurrCheckpoint = w.firstCheckpoint then
    return (.VERIFY_STATUS_OK, { s with mVerifiedLedgerRangeStart := curr })
  return (.VERIFY_STATUS_OK, s)

section Checkpoint

variable {w} {c : ℕ} {s : VerifyState} {file : HeaderFile}

theorem headers_of (hfile : w.files c = some file) : w.headers c = upTo w.mRange.last file.entries := by
  unfold headers
  rw [hfile]

theorem lastHeader_eq_last (hfile : w.files c = some file) :
    (w.lastHeader c).header.ledgerSeq = w.mRange.last ↔
      ∃ x ∈ file.entries, x.header.ledgerSeq = w.mRange.last := by
  have hpos : w.mRange.last ≠ 0 := by
    have := w.mRange.first_pos
    have := w.mRange.first_le_last
    omega
  unfold lastHeader
  rw [headers_of hfile]
  generalize hentry : emptyEntry = d
  have hd : d.header.ledgerSeq ≠ w.mRange.last := by
    rw [← hentry]
    exact hpos.symm
  clear hfile hentry
  induction file.entries generalizing d with
  | nil => simp [upTo, hd]
  | cons e rest ih =>
    unfold upTo
    by_cases hseq : e.header.ledgerSeq = w.mRange.last
    · simp [hseq]
    · rw [if_neg hseq, List.getLastD_cons]
      refine (ih e hseq).trans ?_
      simp [hseq]

theorem lastHeader_mem (hnil : w.headers c ≠ []) : w.lastHeader c ∈ w.headers c := by
  unfold lastHeader
  rw [List.getLastD_eq_getLast?, List.getLast?_eq_getLast_of_ne_nil hnil]
  exact List.getLast_mem hnil

theorem firstHeader_mem (hnil : w.headers c ≠ []) : w.firstHeader c ∈ w.headers c := by
  unfold firstHeader
  cases h : w.headers c with
  | nil => exact absurd h hnil
  | cons e rest => exact List.mem_cons_self

/-- The loop over a file that passes. -/
theorem verifyEntries_file (hfile : w.files c = some file) (hp : w.Passes c) (ahead : LedgerNumHashPair) :
    w.verifyEntries file.malformed file.entries none emptyEntry ahead =
      if file.malformed = true ∧ (w.lastHeader c).header.ledgerSeq ≠ w.mRange.last then
        raise "malformed XDR file"
      else .ok (.VERIFY_STATUS_OK, w.lastHeader c, aheadAfter none ahead file.entries) := by
  have hheaders := headers_of hfile
  rw [Passes, hheaders] at hp
  have hchain : (Option.toList none ++ upTo w.mRange.last file.entries).IsChain Linked := hp.2
  have hlast : (upTo w.mRange.last file.entries).getLastD emptyEntry = w.lastHeader c := by
    rw [lastHeader, hheaders]
  have hread : (∀ x ∈ file.entries, x.header.ledgerSeq ≠ w.mRange.last) ↔
      (w.lastHeader c).header.ledgerSeq ≠ w.mRange.last := by
    rw [ne_eq, lastHeader_eq_last hfile]
    push Not
    exact Iff.rfl
  rw [verifyEntries_pass hp.1 hchain, hlast]
  simp only [hread]

theorem single_unreadable (hs : s.mCurrCheckpoint = c) (h : ¬w.Readable c) :
    ∃ what, w.verifyHistoryOfSingleCheckpoint s = .error (.exception what) := by
  unfold verifyHistoryOfSingleCheckpoint
  rw [hs]
  cases hfile : w.files c with
  | none => exact ⟨_, rfl⟩
  | some file =>
    unfold Readable at h
    push Not at h
    obtain ⟨hp, hlast, hmalformed⟩ := h file hfile
    have hmal : file.malformed = true := by
      cases hm : file.malformed with
      | true => rfl
      | false => exact absurd hm hmalformed
    simp only
    rw [verifyEntries_file hfile hp, if_pos ⟨hmal, hlast⟩]
    exact ⟨_, rfl⟩

/-- The pair left by a file that is not empty. -/
theorem aheadAfter_file (hfile : w.files c = some file) (hnil : w.headers c ≠ []) (ahead : LedgerNumHashPair) :
    aheadAfter none ahead file.entries = aheadOf (w.firstHeader c) := by
  rw [headers_of hfile] at hnil
  unfold firstHeader
  rw [headers_of hfile]
  cases hentries : file.entries with
  | nil =>
    rw [hentries] at hnil
    exact absurd rfl hnil
  | cons e rest =>
    unfold upTo
    split <;> rfl

theorem single_failed (hs : s.mCurrCheckpoint = c) (hr : w.Readable c) (hp : ¬w.Passes c) :
    ∃ status s', status ≠ .VERIFY_STATUS_OK ∧ w.verifyHistoryOfSingleCheckpoint s = .ok (status, s') := by
  obtain ⟨file, hfile, -⟩ := hr
  have hheaders := headers_of hfile
  rw [Passes, hheaders] at hp
  obtain ⟨status, curr, ahead, hstatus, hentries⟩ :=
    @verifyEntries_fail _ w none emptyEntry _ s.mVerifiedAhead file.malformed hp List.isChain_nil
  unfold verifyHistoryOfSingleCheckpoint
  rw [hs, hfile]
  simp only
  rw [hentries]
  refine ⟨status, { s with mVerifiedAhead := ahead }, hstatus, ?_⟩
  simp only [bind, Except.bind, if_pos hstatus]
  rw [hs]
  rfl

theorem headers_ne_nil (hpos : 0 < c)
    (hends : (w.lastHeader c).header.ledgerSeq = w.mRange.last ∨ (w.lastHeader c).header.ledgerSeq = c) :
    w.headers c ≠ [] := by
  intro hnil
  have hzero : (w.lastHeader c).header.ledgerSeq = 0 := by
    unfold lastHeader
    rw [hnil]
    rfl
  have := w.mRange.first_pos
  have := w.mRange.first_le_last
  omega

/-- The comparison with the hash expected from above. -/
theorem conclude_spec {curr : LedgerHeaderHistoryEntry} {next : LedgerNumHashPair}
    (hseq : curr.header.ledgerSeq = next.1) :
    ∃ s', s'.mCurrCheckpoint = s.mCurrCheckpoint ∧ s'.mVerifiedAhead = s.mVerifiedAhead ∧
      w.conclude s curr next =
        .ok (if ∀ h ∈ next.2, curr.hash = h then .VERIFY_STATUS_OK else .VERIFY_STATUS_ERR_BAD_HASH, s') := by
  unfold conclude verifyLastLedgerInCheckpoint
  rw [assert_bind hseq]
  cases hnext : next.2 with
  | none =>
    by_cases hc : s.mCurrCheckpoint = w.firstCheckpoint
    · refine ⟨{ s with mVerifiedLedgerRangeStart := curr }, rfl, rfl, ?_⟩
      simp [bind, Except.bind, pure, Except.pure, hc]
    · refine ⟨s, rfl, rfl, ?_⟩
      simp [bind, Except.bind, pure, Except.pure, hc]
  | some hash =>
    by_cases hhash : curr.hash = hash
    · by_cases hc : s.mCurrCheckpoint = w.firstCheckpoint
      · refine ⟨{ s with mVerifiedLedgerRangeStart := curr }, rfl, rfl, ?_⟩
        simp [bind, Except.bind, pure, Except.pure, hc, hhash]
      · refine ⟨s, rfl, rfl, ?_⟩
        simp [bind, Except.bind, pure, Except.pure, hc, hhash]
    · refine ⟨s, rfl, rfl, ?_⟩
      simp [bind, Except.bind, pure, Except.pure, hhash]
      rfl

/-- A file that passes and is read to where the work stops. -/
theorem single_passed (hs : s.mCurrCheckpoint = c) (hfile : w.files c = some file) (hp : w.Passes c)
    (hread : ¬(file.malformed = true ∧ (w.lastHeader c).header.ledgerSeq ≠ w.mRange.last)) :
    w.verifyHistoryOfSingleCheckpoint s =
      if (w.lastHeader c).header.ledgerSeq ≠ c ∧ (w.lastHeader c).header.ledgerSeq ≠ w.mRange.last then
        .ok (.VERIFY_STATUS_ERR_MISSING_ENTRIES,
          { s with mVerifiedAhead := aheadAfter none s.mVerifiedAhead file.entries })
      else if (w.lastHeader c).header.ledgerSeq = w.mRange.last then
        assert (s.mVerifiedAhead.1 = 0) "nextCheckpointFirstLedger.first == 0" >>= fun _ =>
          w.conclude { s with mVerifiedAhead := aheadAfter none s.mVerifiedAhead file.entries }
            (w.lastHeader c) w.mTrustedEndLedger
      else
        assert (s.mVerifiedAhead.2 ≠ none) "nextCheckpointFirstLedger.second" >>= fun _ =>
        assert (s.mVerifiedAhead.1 ≠ 0) "nextCheckpointFirstLedger.first != 0" >>= fun _ =>
          w.conclude { s with mVerifiedAhead := aheadAfter none s.mVerifiedAhead file.entries }
            (w.lastHeader c) s.mVerifiedAhead := by
  subst hs
  unfold verifyHistoryOfSingleCheckpoint
  rw [hfile]
  simp only
  rw [verifyEntries_file hfile hp, if_neg hread]
  rfl

theorem single_missing (hs : s.mCurrCheckpoint = c) (hr : w.Readable c) (hp : w.Passes c)
    (hends : ¬((w.lastHeader c).header.ledgerSeq = w.mRange.last ∨
      (w.lastHeader c).header.ledgerSeq = c)) :
    ∃ status s', status ≠ .VERIFY_STATUS_OK ∧ w.verifyHistoryOfSingleCheckpoint s = .ok (status, s') := by
  obtain ⟨file, hfile, hmalformed⟩ := hr
  push Not at hends
  have hread : ¬(file.malformed = true ∧ (w.lastHeader c).header.ledgerSeq ≠ w.mRange.last) := by
    rw [hmalformed hp hends.1]
    simp
  rw [single_passed hs hfile hp hread, if_pos ⟨hends.2, hends.1⟩]
  exact ⟨_, _, by decide, rfl⟩

/-- A file that ends the range. -/
theorem single_last (hs : s.mCurrCheckpoint = c) (hpos : 0 < c) (hr : w.Readable c) (hp : w.Passes c)
    (hlast : (w.lastHeader c).header.ledgerSeq = w.mRange.last) :
    ∃ s', s'.mCurrCheckpoint = c ∧ s'.mVerifiedAhead = aheadOf (w.firstHeader c) ∧
      w.verifyHistoryOfSingleCheckpoint s =
        if s.mVerifiedAhead.1 = 0 then
          .ok (if ∀ h ∈ w.mTrustedHash, (w.lastHeader c).hash = h then .VERIFY_STATUS_OK
            else .VERIFY_STATUS_ERR_BAD_HASH, s')
        else .error (.assertion "nextCheckpointFirstLedger.first == 0") := by
  obtain ⟨file, hfile, -⟩ := hr
  rw [single_passed hs hfile hp (fun h => h.2 hlast), if_neg (fun h => h.2 hlast), if_pos hlast,
    aheadAfter_file hfile (headers_ne_nil hpos (.inl hlast))]
  obtain ⟨s', hcurr, hahead, hconclude⟩ := @conclude_spec _ w
    { s with mVerifiedAhead := aheadOf (w.firstHeader c) } (w.lastHeader c) w.mTrustedEndLedger hlast
  refine ⟨s', hcurr.trans hs, hahead, ?_⟩
  by_cases hzero : s.mVerifiedAhead.1 = 0
  · rw [assert_bind hzero, if_pos hzero, hconclude]
    rfl
  · rw [assert, if_neg hzero, if_neg hzero]
    rfl

/-- A file that ends at its checkpoint. -/
theorem single_full (hs : s.mCurrCheckpoint = c) (hpos : 0 < c) (hr : w.Readable c) (hp : w.Passes c)
    (hfull : (w.lastHeader c).header.ledgerSeq = c) (hlast : c ≠ w.mRange.last) :
    ∃ s', s'.mCurrCheckpoint = c ∧ s'.mVerifiedAhead = aheadOf (w.firstHeader c) ∧
      (s.mVerifiedAhead.2 ≠ none ∧ s.mVerifiedAhead.1 = c →
        w.verifyHistoryOfSingleCheckpoint s =
          .ok (if ∀ h ∈ s.mVerifiedAhead.2, (w.lastHeader c).hash = h then .VERIFY_STATUS_OK
            else .VERIFY_STATUS_ERR_BAD_HASH, s')) ∧
      (¬(s.mVerifiedAhead.2 ≠ none ∧ s.mVerifiedAhead.1 = c) →
        ∃ condition, w.verifyHistoryOfSingleCheckpoint s = .error (.assertion condition)) := by
  obtain ⟨file, hfile, hmalformed⟩ := hr
  have hne : (w.lastHeader c).header.ledgerSeq ≠ w.mRange.last := by
    rw [hfull]
    exact hlast
  have hread : ¬(file.malformed = true ∧ (w.lastHeader c).header.ledgerSeq ≠ w.mRange.last) := by
    rw [hmalformed hp hne]
    simp
  rw [single_passed hs hfile hp hread, if_neg (fun h => h.1 hfull), if_neg hne,
    aheadAfter_file hfile (headers_ne_nil hpos (.inr hfull))]
  by_cases hsome : s.mVerifiedAhead.2 ≠ none
  · by_cases hzero : s.mVerifiedAhead.1 ≠ 0
    · rw [assert_bind hsome, assert_bind hzero]
      by_cases hseq : s.mVerifiedAhead.1 = c
      · obtain ⟨s', hcurr, hahead, hconclude⟩ := @conclude_spec _ w
          { s with mVerifiedAhead := aheadOf (w.firstHeader c) } (w.lastHeader c) s.mVerifiedAhead
          (hfull.trans hseq.symm)
        exact ⟨s', hcurr.trans hs, hahead, fun _ => hconclude, fun h => absurd ⟨hsome, hseq⟩ h⟩
      · refine ⟨⟨c, aheadOf (w.firstHeader c), emptyEntry⟩, rfl, rfl, fun h => absurd h.2 hseq, fun _ => ?_⟩
        have hfalse : ¬(w.lastHeader c).header.ledgerSeq = s.mVerifiedAhead.1 := by
          rw [hfull]
          exact Ne.symm hseq
        unfold conclude verifyLastLedgerInCheckpoint
        rw [assert, if_neg hfalse]
        exact ⟨_, rfl⟩
    · refine ⟨⟨c, aheadOf (w.firstHeader c), emptyEntry⟩, rfl, rfl, fun h => ?_, fun _ => ?_⟩
      · omega
      · rw [assert_bind hsome, assert, if_neg hzero]
        exact ⟨_, rfl⟩
  · refine ⟨⟨c, aheadOf (w.firstHeader c), emptyEntry⟩, rfl, rfl, fun h => absurd h.1 hsome, fun _ => ?_⟩
    rw [assert, if_neg hsome]
    exact ⟨_, rfl⟩

end Checkpoint

section Run

variable {w} (hf : Frequency freq) {c : ℕ} {s : VerifyState}

theorem firstHeader_seq_lt (c : ℕ) : (w.firstHeader c).header.ledgerSeq < 2 ^ 32 := by
  by_cases hnil : w.headers c = []
  · unfold firstHeader
    rw [hnil]
    decide
  · have hmem := firstHeader_mem hnil
    unfold headers at hmem
    split at hmem
    · cases hmem
    · next file _ => exact file.seq_lt _ (mem_of_mem_upTo hmem)

theorem aheadAt_zero : (w.aheadAt c).1 = 0 ↔
    c = w.lastCheckpoint ∨ (w.firstHeader (c + freq)).header.ledgerSeq = 1 := by
  have hlt := @firstHeader_seq_lt _ w (c + freq)
  unfold aheadAt
  split
  · next h => simp [h]
  · next h =>
    unfold aheadOf prevSeq
    simp only [h, false_or]
    omega

include hf

theorem lastCheckpoint_lt : w.lastCheckpoint < 2 ^ 32 := (checkpoint_mod hf _).2

theorem aheadAt_next (hc : w.InRange c) : (w.aheadAt c).2 ≠ none ∧ (w.aheadAt c).1 = c ↔
    c ≠ w.lastCheckpoint ∧ (w.firstHeader (c + freq)).header.ledgerSeq = c + 1 := by
  have hlt := @firstHeader_seq_lt _ w (c + freq)
  have htop := @lastCheckpoint_lt _ w hf
  have hle := hc.2.2
  unfold aheadAt
  split
  · next h => simp [h]
  · next h =>
    unfold aheadOf prevSeq
    simp only [ne_eq, reduceCtorEq, not_false_eq_true, true_and, h]
    omega

theorem inRange_pos (hc : w.InRange c) : 0 < c := by
  obtain ⟨hmod, -, -⟩ := hc
  rcases hf with rfl | rfl
  · omega
  · omega

/-- A file that cannot be read, or does not fit, ends the work by an exception or an assertion. -/
theorem single_error (hc : w.InRange c) (hs : s.mCurrCheckpoint = c) (hahead : s.mVerifiedAhead = w.aheadAt c)
    (h : ¬(w.Readable c ∧ w.Fits c)) : ∃ failure, w.verifyHistoryOfSingleCheckpoint s = .error failure := by
  have hpos := inRange_pos hf hc
  by_cases hr : w.Readable c
  · have hfits : ¬w.Fits c := fun hfits => h ⟨hr, hfits⟩
    unfold Fits at hfits
    rw [Classical.not_imp] at hfits
    obtain ⟨hp, hfits⟩ := hfits
    by_cases hlast : (w.lastHeader c).header.ledgerSeq = w.mRange.last
    · obtain ⟨s', -, -, hrun⟩ := single_last hs hpos hr hp hlast
      by_cases hzero : (w.aheadAt c).1 = 0
      · refine absurd ⟨fun _ => aheadAt_zero.mp hzero, ?_⟩ hfits
        intro hfull hne
        exact absurd (hfull.symm.trans hlast) hne
      · rw [hrun, hahead, if_neg hzero]
        exact ⟨_, rfl⟩
    · by_cases hfull : (w.lastHeader c).header.ledgerSeq = c ∧ c ≠ w.mRange.last
      · obtain ⟨s', -, -, -, hrun⟩ := single_full hs hpos hr hp hfull.1 hfull.2
        rw [hahead] at hrun
        by_cases hnext : (w.aheadAt c).2 ≠ none ∧ (w.aheadAt c).1 = c
        · refine absurd ⟨fun h => absurd h hlast, fun _ _ => ?_⟩ hfits
          exact (aheadAt_next hf hc).mp hnext
        · obtain ⟨condition, hrun⟩ := hrun hnext
          exact ⟨_, hrun⟩
      · refine absurd ⟨fun h => absurd h hlast, fun h hne => absurd ⟨h, hne⟩ hfull⟩ hfits
  · obtain ⟨what, hrun⟩ := single_unreadable hs hr
    exact ⟨_, hrun⟩

theorem single_verified (hc : w.InRange c) (hs : s.mCurrCheckpoint = c)
    (hahead : s.mVerifiedAhead = w.aheadAt c) (h : w.Verified c) :
    ∃ s', s'.mCurrCheckpoint = c ∧ s'.mVerifiedAhead = aheadOf (w.firstHeader c) ∧
      w.verifyHistoryOfSingleCheckpoint s = .ok (.VERIFY_STATUS_OK, s') := by
  have hpos := inRange_pos hf hc
  have hfits := h.fits h.passes
  by_cases hlast : (w.lastHeader c).header.ledgerSeq = w.mRange.last
  · obtain ⟨s', hcurr, hleft, hrun⟩ := single_last hs hpos h.readable h.passes hlast
    refine ⟨s', hcurr, hleft, ?_⟩
    rw [hrun, hahead, if_pos (aheadAt_zero.mpr (hfits.1 hlast)), if_pos (h.trusted hlast)]
  · have hfull : (w.lastHeader c).header.ledgerSeq = c := h.ends.resolve_left hlast
    have hne : c ≠ w.mRange.last := fun heq => hlast (hfull.trans heq)
    have hnext := (aheadAt_next hf hc).mpr (hfits.2 hfull hne)
    obtain ⟨s', hcurr, hleft, hrun, -⟩ := single_full hs hpos h.readable h.passes hfull hne
    refine ⟨s', hcurr, hleft, ?_⟩
    have habove : (w.aheadAt c).2 = some (w.firstHeader (c + freq)).header.previousLedgerHash := by
      unfold aheadAt
      rw [if_neg (hfits.2 hfull hne).1]
      rfl
    rw [hahead] at hrun
    rw [hrun hnext, if_pos]
    intro hash hhash
    rw [habove] at hhash
    rw [← Option.some.inj hhash]
    exact h.above hlast

theorem single_rejected (hc : w.InRange c) (hs : s.mCurrCheckpoint = c)
    (hahead : s.mVerifiedAhead = w.aheadAt c) (hr : w.Readable c) (hfits : w.Fits c) (h : ¬w.Verified c) :
    ∃ status s', status ≠ .VERIFY_STATUS_OK ∧ w.verifyHistoryOfSingleCheckpoint s = .ok (status, s') := by
  have hpos := inRange_pos hf hc
  by_cases hp : w.Passes c
  · by_cases hlast : (w.lastHeader c).header.ledgerSeq = w.mRange.last
    · obtain ⟨s', -, -, hrun⟩ := single_last hs hpos hr hp hlast
      rw [hrun, hahead, if_pos (aheadAt_zero.mpr ((hfits hp).1 hlast)), if_neg]
      · exact ⟨_, s', by decide, rfl⟩
      · intro htrusted
        exact h ⟨hr, hfits, hp, .inl hlast, fun _ => htrusted, fun hne => absurd hlast hne⟩
    · by_cases hfull : (w.lastHeader c).header.ledgerSeq = c
      · have hne : c ≠ w.mRange.last := fun heq => hlast (hfull.trans heq)
        have hnext := (hfits hp).2 hfull hne
        obtain ⟨s', -, -, hrun, -⟩ := single_full hs hpos hr hp hfull hne
        rw [hahead] at hrun
        rw [hrun ((aheadAt_next hf hc).mpr hnext), if_neg]
        · exact ⟨_, s', by decide, rfl⟩
        · intro habove
          refine h ⟨hr, hfits, hp, .inr hfull, fun heq => absurd heq hlast, fun _ => habove _ ?_⟩
          unfold aheadAt
          rw [if_neg hnext.1]
          rfl
      · exact single_missing hs hr hp (fun hends => hends.elim hlast hfull)
  · exact single_failed hs hr hp

/-- The checkpoint below one of the range that is not the first. -/
theorem inRange_below (hc : w.InRange c) (hne : c ≠ w.firstCheckpoint) :
    w.InRange (c - freq) ∧ c - freq + freq = c ∧ c - freq ≠ w.lastCheckpoint := by
  obtain ⟨hmod, hfirst, hlast⟩ := hc
  have hmodFirst : w.firstCheckpoint % freq = freq - 1 := (checkpoint_mod hf _).1
  unfold InRange
  rcases hf with rfl | rfl
  · omega
  · omega

theorem inRange_above (hc : w.InRange c) (hne : c ≠ w.lastCheckpoint) : w.InRange (c + freq) := by
  obtain ⟨hmod, hfirst, hlast⟩ := hc
  have hmodLast : w.lastCheckpoint % freq = freq - 1 := (checkpoint_mod hf _).1
  unfold InRange
  rcases hf with rfl | rfl
  · omega
  · omega

theorem inRange_last : w.InRange w.lastCheckpoint :=
  ⟨(checkpoint_mod hf _).1, w.mRange.checkpoints_le, le_rfl⟩

theorem onSuccess_first (hc : w.InRange c) (hs : s.mCurrCheckpoint = c)
    (hahead : s.mVerifiedAhead = w.aheadAt c) (h : w.Verified c) (hfirst : c = w.firstCheckpoint) :
    ∃ s', w.onSuccess s = .ok (.WORK_SUCCESS, s') := by
  obtain ⟨s', hcurr, -, hsingle⟩ := single_verified hf hc hs hahead h
  refine ⟨s', ?_⟩
  unfold onSuccess
  rw [if_neg (by rw [hs]; exact not_lt.mpr hc.2.1), hsingle]
  simp only [bind, Except.bind, hcurr, hfirst, if_true]
  rfl

theorem onSuccess_next (hc : w.InRange c) (hs : s.mCurrCheckpoint = c)
    (hahead : s.mVerifiedAhead = w.aheadAt c) (h : w.Verified c) (hfirst : c ≠ w.firstCheckpoint) :
    ∃ s', s'.mCurrCheckpoint = c - freq ∧ s'.mVerifiedAhead = w.aheadAt (c - freq) ∧
      w.onSuccess s = .ok (.WORK_RUNNING, s') := by
  obtain ⟨s', hcurr, hleft, hsingle⟩ := single_verified hf hc hs hahead h
  refine ⟨{ s' with mCurrCheckpoint := c - freq }, rfl, ?_, ?_⟩
  · obtain ⟨-, hsub, hne⟩ := inRange_below hf hc hfirst
    unfold aheadAt
    rw [if_neg hne, hsub]
    exact hleft
  · unfold onSuccess
    rw [if_neg (by rw [hs]; exact not_lt.mpr hc.2.1), hsingle]
    simp only [bind, Except.bind, hcurr, hfirst, if_false]
    rfl

theorem onSuccess_rejected (hc : w.InRange c) (hs : s.mCurrCheckpoint = c)
    (hahead : s.mVerifiedAhead = w.aheadAt c) (hr : w.Readable c) (hfits : w.Fits c) (h : ¬w.Verified c) :
    ∃ s', w.onSuccess s = .ok (.WORK_FAILURE_FATAL, s') := by
  obtain ⟨status, s', hstatus, hsingle⟩ := single_rejected hf hc hs hahead hr hfits h
  refine ⟨s', ?_⟩
  unfold onSuccess
  rw [if_neg (by rw [hs]; exact not_lt.mpr hc.2.1), hsingle]
  cases status with
  | VERIFY_STATUS_OK => exact absurd rfl hstatus
  | _ => rfl

theorem onSuccess_error (hc : w.InRange c) (hs : s.mCurrCheckpoint = c)
    (hahead : s.mVerifiedAhead = w.aheadAt c) (h : ¬(w.Readable c ∧ w.Fits c)) :
    ∃ failure, w.onSuccess s = .error failure := by
  obtain ⟨failure, hsingle⟩ := single_error hf hc hs hahead h
  refine ⟨failure, ?_⟩
  unfold onSuccess
  rw [if_neg (by rw [hs]; exact not_lt.mpr hc.2.1), hsingle]
  rfl

omit hf in
theorem work_run (item : Work.Item VerifyState) :
    Work.run w.work item = .ok (.WORK_COMPLETE_OK, ⟨.WORK_RUNNING, item.mRetries, item.data⟩) :=
  Work.run_ok (fun _ => rfl) (fun _ => rfl) rfl

omit hf in
theorem work_onSuccess (s : VerifyState) : w.work.onSuccess s = w.onSuccess s := by
  unfold work
  with_reducible rfl

omit hf in
theorem step_ok {item : Work.Item VerifyState} {st : Work.State} {s' : VerifyState}
    (h : w.onSuccess item.data = .ok (st, s')) (hst : st ≠ .WORK_FAILURE_RETRY) :
    Work.step w.work item = .ok ⟨st, item.mRetries, s'⟩ := by
  have hstep := Work.step_success (work_run item) ((work_onSuccess item.data).trans h) hst
  exact hstep

omit hf in
theorem step_error {item : Work.Item VerifyState} {failure : Failure}
    (h : w.onSuccess item.data = .error failure) : Work.step w.work item = .error failure := by
  have hstep := Work.step_success_error (work_run item) ((work_onSuccess item.data).trans h)
  exact hstep

/-- The run gets to every checkpoint above which all are verified. -/
theorem runs_reached (hc : w.Reached c) :
    ∃ k item, item.data.mCurrCheckpoint = c ∧ item.data.mVerifiedAhead = w.aheadAt c ∧
      ∀ n, Work.runs w.work (k + n) (Work.added w.work w.onReset) = Work.runs w.work n item := by
  obtain ⟨hin, habove⟩ := hc
  induction hd : w.lastCheckpoint - c using Nat.strong_induction_on generalizing c with
  | _ d ih =>
    by_cases hlast : c = w.lastCheckpoint
    · refine ⟨0, Work.added w.work w.onReset, hlast.symm, ?_, fun n => by rw [Nat.zero_add]⟩
      unfold aheadAt
      rw [if_pos hlast]
      rfl
    · have hin' := inRange_above hf hin hlast
      have hpos : 0 < freq := by
        rcases hf with rfl | rfl
        · omega
        · omega
      have hle := hin'.2.2
      obtain ⟨k, item, hs, hahead, hrun⟩ := ih (w.lastCheckpoint - (c + freq)) (by omega) hin'
        (fun c' hc' hlt => habove c' hc' (by omega)) rfl
      have hfirst : c + freq ≠ w.firstCheckpoint := by
        have := hin.2.1
        omega
      obtain ⟨s', hs', hahead', hstep⟩ :=
        onSuccess_next hf hin' hs hahead (habove _ hin' (by omega)) hfirst
      rw [Nat.add_sub_cancel] at hs' hahead'
      refine ⟨k + 1, ⟨.WORK_RUNNING, item.mRetries, s'⟩, hs', hahead', fun n => ?_⟩
      have hnext := Work.runs_next n (step_ok hstep nofun) (by simp [Work.isDone])
      rw [← hnext, ← hrun, Nat.add_assoc, Nat.add_comm 1 n]

/-- From a checkpoint it gets to, an aligned run ends: in success when everything is verified. -/
theorem runs_ends (hw : w.Aligned) (hc : w.Reached c) :
    ∀ item : Work.Item VerifyState, item.data.mCurrCheckpoint = c → item.data.mVerifiedAhead = w.aheadAt c →
      ∃ n ended s, Work.runs w.work n item = some (.ok (ended, s)) ∧
        (ended = .WORK_SUCCESS → ∀ c', w.InRange c' → w.Verified c') := by
  induction hd : c - w.firstCheckpoint using Nat.strong_induction_on generalizing c with
  | _ d ih =>
    intro item hs hahead
    obtain ⟨hr, hfits⟩ := hw.fits c hc
    by_cases hv : w.Verified c
    · by_cases hfirst : c = w.firstCheckpoint
      · obtain ⟨s', hstep⟩ := onSuccess_first hf hc.1 hs hahead hv hfirst
        refine ⟨1, _, _, Work.runs_done 0 (step_ok hstep nofun) (by simp [Work.isDone]), fun _ c' hc' => ?_⟩
        by_cases heq : c' = c
        · rw [heq]
          exact hv
        · have := hc'.2.1
          exact hc.2 c' hc' (by omega)
      · obtain ⟨s', hs', hahead', hstep⟩ := onSuccess_next hf hc.1 hs hahead hv hfirst
        obtain ⟨hin', hsub, -⟩ := inRange_below hf hc.1 hfirst
        have hreached : w.Reached (c - freq) := by
          refine ⟨hin', fun c' hc' hlt => ?_⟩
          by_cases hgt : c < c'
          · exact hc.2 c' hc' hgt
          · have hmod := hc'.1
            have hmod' := hc.1.1
            have heq : c' = c := by
              rcases hf with rfl | rfl
              · omega
              · omega
            rw [heq]
            exact hv
        have hpos : 0 < freq := by
          rcases hf with rfl | rfl
          · omega
          · omega
        have hge := hin'.2.1
        obtain ⟨n, ended, s, hrun, hended⟩ := ih (c - freq - w.firstCheckpoint) (by omega) hreached rfl
          ⟨.WORK_RUNNING, item.mRetries, s'⟩ hs' hahead'
        refine ⟨n + 1, ended, s, ?_, hended⟩
        rw [Work.runs_next n (step_ok hstep nofun) (by simp [Work.isDone])]
        exact hrun
    · obtain ⟨s', hstep⟩ := onSuccess_rejected hf hc.1 hs hahead hr hfits hv
      refine ⟨1, _, _, Work.runs_done 0 (step_ok hstep nofun) (by simp [Work.isDone]), fun h => ?_⟩
      cases h

/-- Success means that every file has been verified. -/
theorem verified_of_success {n : ℕ}
    (h : Work.runs w.work n (Work.added w.work w.onReset) = some (.ok (.WORK_SUCCESS, s))) :
    ∀ c, w.InRange c → w.Verified c := by
  intro c hc
  induction hd : w.lastCheckpoint - c using Nat.strong_induction_on generalizing c with
  | _ d ih =>
    have habove : ∀ c', w.InRange c' → c < c' → w.Verified c' := by
      intro c' hc' hlt
      have := hc'.2.2
      exact ih (w.lastCheckpoint - c') (by omega) c' hc' rfl
    obtain ⟨k, item, hs, hahead, hreach⟩ := runs_reached hf ⟨hc, habove⟩
    by_contra hbad
    by_cases hfits : w.Readable c ∧ w.Fits c
    · obtain ⟨s', hstep⟩ := onSuccess_rejected hf hc hs hahead hfits.1 hfits.2 hbad
      have hend := Work.runs_done 0 (step_ok hstep nofun) (by simp [Work.isDone])
      rw [← hreach] at hend
      cases Work.runs_unique h hend
    · obtain ⟨failure, hstep⟩ := onSuccess_error hf hc hs hahead hfits
      have hend := Work.runs_error 0 (step_error hstep)
      rw [← hreach] at hend
      cases Work.runs_unique h hend

omit hf in
theorem sound_of_verified (hv : w.Verified c) {e : LedgerHeaderHistoryEntry} (he : e ∈ w.headers c) :
    w.Sound e := hv.passes.1 e he

omit hf in
theorem eq_lastHeader {e : LedgerHeaderHistoryEntry} (he : e ∈ w.headers c)
    (hseq : e.header.ledgerSeq = w.mRange.last) : e = w.lastHeader c := by
  unfold lastHeader
  unfold headers at he ⊢
  split at he
  · cases he
  · exact eq_last_of_seq he hseq

/-- The header after one that has been verified, in the same file or the next. -/
theorem next_of_verified (hv : ∀ c, w.InRange c → w.Verified c) (hc : w.InRange c)
    {e : LedgerHeaderHistoryEntry} (he : e ∈ w.headers c) (hseq : e.header.ledgerSeq < w.mRange.last) :
    ∃ c' e', w.InRange c' ∧ e' ∈ w.headers c' ∧ e'.header.ledgerSeq = e.header.ledgerSeq + 1 ∧
      e'.header.previousLedgerHash = e.hash := by
  have hlt := w.mRange.last_lt
  rcases next_of_chain (hv c hc).passes.2 he with hlast | ⟨e', he', hnext, hprev⟩
  · change e = w.lastHeader c at hlast
    have hne : (w.lastHeader c).header.ledgerSeq ≠ w.mRange.last := by
      rw [← hlast]
      omega
    have hfull := (hv c hc).ends.resolve_left hne
    have hcne : c ≠ w.mRange.last := fun heq => hne (hfull.trans heq)
    obtain ⟨htop, hfirst⟩ := ((hv c hc).fits (hv c hc).passes).2 hfull hcne
    have hc' := inRange_above hf hc htop
    have hnil := headers_ne_nil (inRange_pos hf hc') (hv _ hc').ends
    refine ⟨c + freq, w.firstHeader (c + freq), hc', firstHeader_mem hnil, ?_, ?_⟩
    · rw [hfirst, hlast, hfull]
    · rw [hlast]
      exact ((hv c hc).above hne).symm
  · refine ⟨c, e', hc, he', ?_, hprev⟩
    rw [hnext]
    unfold nextSeq
    omega

/-- From a header of a verified file a good chain goes up to the end of the range. -/
theorem goodChain_of_verified (hv : ∀ c, w.InRange c → w.Verified c) :
    ∀ {n c : ℕ} {e : LedgerHeaderHistoryEntry}, w.InRange c → e ∈ w.headers c → e.header.ledgerSeq = n →
      n ≤ w.mRange.last → ∃ chain, chain n = e ∧ w.GoodChain n chain := by
  intro n
  induction hd : w.mRange.last - n generalizing n with
  | zero =>
    intro c e hc he hseq hle
    have hn : n = w.mRange.last := by omega
    subst hn
    have hsound := sound_of_verified (hv c hc) he
    have hlast := eq_lastHeader he hseq
    have hlt := w.mRange.last_lt
    refine ⟨fun _ => e, rfl, ?_⟩
    constructor
    · intro m _ _
      exact ⟨c, hc, he⟩
    · intro m hm hm'
      omega
    · intro m _ _
      exact hsound.hash
    · intro m hm hm'
      omega
    · intro h hh
      rw [hsound.hash, hlast]
      exact (hv c hc).trusted (by rw [← hlast]; exact hseq) h hh
    · intro hm hm'
      rw [hsound.hash]
      exact hsound.lastClosed (by omega)
    · intro hm hm'
      refine hsound.afterLastClosed ?_
      unfold nextSeq
      omega
  | succ d ih =>
    intro c e hc he hseq hle
    have hlt := w.mRange.last_lt
    obtain ⟨c', e', hc', he', hseq', hprev⟩ := next_of_verified hf hv hc he (by omega)
    obtain ⟨chain, hchain, hgood⟩ := @ih (n + 1) (by omega) c' e' hc' he' (by omega) (by omega)
    have hsound := sound_of_verified (hv c hc) he
    have hat : ∀ m, n ≠ m → Function.update chain n e m = chain m := by
      intro m hm
      exact Function.update_of_ne (Ne.symm hm) e chain
    have hself : Function.update chain n e n = e := Function.update_self n e chain
    refine ⟨Function.update chain n e, hself, ?_⟩
    constructor
    · intro m hm hm'
      by_cases heq : n = m
      · rw [← heq, hself]
        exact ⟨c, hc, he⟩
      · rw [hat m heq]
        exact hgood.read m (by omega) hm'
    · intro m hm hm'
      by_cases heq : n = m
      · rw [← heq, hself]
        exact hseq
      · rw [hat m heq]
        exact hgood.numbered m (by omega) hm'
    · intro m hm hm'
      by_cases heq : n = m
      · rw [← heq, hself]
        exact hsound.hash
      · rw [hat m heq]
        exact hgood.hashed m (by omega) hm'
    · intro m hm hm'
      rw [hat (m + 1) (by omega)]
      by_cases heq : n = m
      · rw [← heq, hself, hchain, hsound.hash]
        exact hprev
      · rw [hat m heq]
        exact hgood.linked m (by omega) hm'
    · rw [hat _ (by omega)]
      exact hgood.trusted
    · intro hm hm'
      by_cases heq : n = w.mLastClosed.1
      · rw [← heq, hself, hsound.hash]
        exact hsound.lastClosed (by omega)
      · rw [hat _ heq]
        exact hgood.lastClosed (by omega) hm'
    · intro hm hm'
      by_cases heq : n = w.mLastClosed.1 + 1
      · rw [← heq, hself]
        refine hsound.afterLastClosed ?_
        unfold nextSeq
        omega
      · rw [hat _ heq]
        exact hgood.afterLastClosed (by omega) hm'

theorem accepts_iff_aligned : w.AcceptsGoodChains ↔ w.Aligned := by
  constructor
  · intro h
    obtain ⟨n, ended, s, hrun, hgood⟩ := h
    constructor
    · intro c hc
      by_contra hbad
      obtain ⟨k, item, hs, hahead, hreach⟩ := runs_reached hf hc
      obtain ⟨failure, hstep⟩ := onSuccess_error hf hc.1 hs hahead hbad
      have hfail := Work.runs_error 0 (step_error hstep)
      rw [← hreach] at hfail
      have := Work.runs_unique hrun hfail
      cases this
    · intro hv
      have hfirst : w.InRange w.firstCheckpoint :=
        ⟨(checkpoint_mod hf _).1, le_rfl, w.mRange.checkpoints_le⟩
      obtain ⟨k, item, hs, hahead, hreach⟩ := runs_reached hf ⟨hfirst, fun c hc _ => hv c hc⟩
      obtain ⟨s', hstep⟩ := onSuccess_first hf hfirst hs hahead (hv _ hfirst) rfl
      have hdone := Work.runs_done 0 (step_ok hstep nofun) (by simp [Work.isDone])
      rw [← hreach] at hdone
      have heq := Work.runs_unique hrun hdone
      have hended : ended = .WORK_SUCCESS := (Prod.mk.inj (Except.ok.inj heq)).1
      obtain ⟨chain, hchain⟩ := hgood hended
      have hle := w.mRange.first_le_last
      obtain ⟨c, hc, hmem⟩ := hchain.read _ le_rfl hle
      exact ⟨c, hc, _, hmem, hchain.numbered _ le_rfl hle⟩
  · intro h
    obtain ⟨n, ended, s, hrun, hended⟩ := runs_ends hf h ⟨inRange_last hf, fun c hc hlt =>
      absurd hc.2.2 (not_le.mpr hlt)⟩ (Work.added w.work w.onReset) rfl (by
        unfold aheadAt
        rw [if_pos rfl]
        rfl)
    refine ⟨n, ended, s, hrun, fun hsuccess => ?_⟩
    have hv := hended hsuccess
    obtain ⟨c, hc, e, he, hseq⟩ := h.covers hv
    obtain ⟨chain, -, hgood⟩ := goodChain_of_verified hf hv hc he hseq w.mRange.first_le_last
    exact ⟨chain, hgood⟩

end Run

/-- **The work ends, and accepts nothing but good chains, exactly where the files are aligned.** -/
theorem acceptsGoodChains_iff (accelerated : Bool)
    (w : VerifyLedgerChainWork (getCheckpointFrequency accelerated)) : w.AcceptsGoodChains ↔ w.Aligned :=
  accepts_iff_aligned (frequency_of_config accelerated)

section Failing

/-- A header hashed to its number. -/
def headerAt (ledgerSeq : ℕ) : LedgerHeaderHistoryEntry :=
  ⟨Fin.ofNat _ ledgerSeq, ⟨CURRENT_LEDGER_PROTOCOL_VERSION, Fin.ofNat _ (ledgerSeq - 1), ⟨0, 0⟩, 0, 0, ledgerSeq⟩⟩

/-- The range from 2 to 15, with the first file cut down to its last header. -/
def truncated : VerifyLedgerChainWork 8 where
  headerHash header := Fin.ofNat _ header.ledgerSeq
  mRange := ⟨⟨2, 15, by decide, by decide, by decide⟩, by decide⟩
  mLastClosed := (1, 1)
  mTrustedHash := some 15
  files
    | 7 => some ⟨[headerAt 7], false, by decide⟩
    | 15 => some ⟨(List.range 8).map (fun i => headerAt (8 + i)), false, by decide⟩
    | _ => none

/-- The range from 2 to 4, with a file that begins behind it. -/
def overlong : VerifyLedgerChainWork 8 where
  headerHash header := Fin.ofNat _ header.ledgerSeq
  mRange := ⟨⟨2, 4, by decide, by decide, by decide⟩, by decide⟩
  mLastClosed := (1, 1)
  mTrustedHash := some 4
  files
    | 7 => some ⟨[headerAt 7], false, by decide⟩
    | _ => none

theorem truncated_succeeds : ∃ s, Work.runs truncated.work 2 (Work.added truncated.work truncated.onReset) =
    some (.ok (.WORK_SUCCESS, s)) := by
  refine ⟨⟨7, (6, some 6), headerAt 7⟩, ?_⟩
  rfl

theorem overlong_trips : Work.runs overlong.work 1 (Work.added overlong.work overlong.onReset) =
    some (.error (.assertion "nextCheckpointFirstLedger.second")) := by
  rfl

/-- The first succeeds without a header of ledger 2, the second fails an assertion. -/
theorem truncated_overlong : ¬truncated.AcceptsGoodChains ∧ ¬overlong.AcceptsGoodChains := by
  constructor
  · intro h
    obtain ⟨n, ended, s, hrun, hgood⟩ := h
    obtain ⟨s', hsuccess⟩ := truncated_succeeds
    have heq := Work.runs_unique hrun hsuccess
    obtain ⟨chain, hchain⟩ := hgood (Prod.mk.inj (Except.ok.inj heq)).1
    obtain ⟨c, hc, hmem⟩ := hchain.read 2 le_rfl (by decide)
    have hseq := hchain.numbered 2 le_rfl (by decide)
    have hnone : ∀ c, c ≤ 15 → ∀ e ∈ truncated.headers c, e.header.ledgerSeq ≠ 2 := by decide +kernel
    exact hnone c hc.2.2 _ hmem hseq
  · intro h
    obtain ⟨n, ended, s, hrun, -⟩ := h
    have heq := Work.runs_unique hrun overlong_trips
    cases heq

end Failing

end VerifyLedgerChainWork

end ZaggCore.Catchup
