import ZaggCore.Bucket.Restart

/-! # Which ledgers a bucket is made of

The model of `sizeOfCurr`, `sizeOfSnap`, `oldestLedgerInCurr` and `oldestLedgerInSnap` of
`bucket/BucketList.cpp`, and of what they say: `traced` buckets carry the numbers of the ledgers whose
batches were merged into them, and `boundaries` says that these numbers are the ranges that the four
functions give. -/

namespace ZaggCore.Buckets
set_option autoImplicit false
set_option maxHeartbeats 250000

/-! ## The sizes -/

theorem mask_le (v m : ℕ) : mask v m ≤ v := Nat.sub_le _ _

/-- The latest ledger before this one that some spill into or out of the level may have changed. -/
def previousRelevantLedger (ledger level : ℕ) : ℕ :=
  max (max (mask (ledger - 1) (levelHalf (level - 1))) (mask (ledger - 1) (levelSize (level - 1))))
    (max (mask (ledger - 1) (levelHalf level)) (mask (ledger - 1) (levelSize level)))

theorem previousRelevantLedger_lt {ledger level m : ℕ} (h : mask ledger m ≠ 0) :
    previousRelevantLedger ledger level < ledger := by
  have hle := mask_le ledger m
  have h1 := mask_le (ledger - 1) (levelHalf (level - 1))
  have h2 := mask_le (ledger - 1) (levelSize (level - 1))
  have h3 := mask_le (ledger - 1) (levelHalf level)
  have h4 := mask_le (ledger - 1) (levelSize level)
  unfold previousRelevantLedger
  omega

mutual

def sizeOfCurr (ledger level : ℕ) : ℕ :=
  if level = 0 then
    if ledger = 1 then 1 else 1 + ledger % 2
  else
    if _h : level ≠ kNumLevels - 1 ∧ mask ledger (levelHalf level) ≠ 0 then
      let sizeDelta := 1 <<< (2 * level - 1)
      if mask ledger (levelHalf level) = ledger ∨ mask ledger (levelSize level) = ledger then
        sizeDelta
      else if mask ledger (levelHalf (level - 1)) = ledger ∨
          mask ledger (levelSize (level - 1)) = ledger then
        sizeOfCurr (previousRelevantLedger ledger level) level + sizeDelta
      else sizeOfCurr (previousRelevantLedger ledger level) level
    else ledger - ∑ l : Fin level, (sizeOfCurr ledger l + sizeOfSnap ledger l)
termination_by (level, 0, ledger)
decreasing_by
  all_goals first
    | exact Prod.Lex.right _ (Prod.Lex.right _ (previousRelevantLedger_lt _h.2))
    | exact Prod.Lex.left _ _ l.2

def sizeOfSnap (ledger level : ℕ) : ℕ :=
  if level = kNumLevels - 1 then 0
  else if mask ledger (levelSize level) ≠ 0 then levelHalf level
  else ledger - (∑ l : Fin level, (sizeOfCurr ledger l + sizeOfSnap ledger l) + sizeOfCurr ledger level)
termination_by (level, 1, ledger)
decreasing_by
  all_goals first
    | exact Prod.Lex.left _ _ l.2
    | exact Prod.Lex.right _ (Prod.Lex.left _ _ Nat.zero_lt_one)

end

def UINT32_MAX : ℕ := 2 ^ 32 - 1

def oldestLedgerInCurr (ledger level : ℕ) : ℕ :=
  if sizeOfCurr ledger level = 0 then UINT32_MAX
  else
    let count := ledger - ∑ l : Fin level, (sizeOfCurr ledger l + sizeOfSnap ledger l)
    count - sizeOfCurr ledger level + 1

def oldestLedgerInSnap (ledger level : ℕ) : ℕ :=
  if sizeOfSnap ledger level = 0 then UINT32_MAX
  else ledger - ∑ l : Fin (level + 1), (sizeOfCurr ledger l + sizeOfSnap ledger l) + 1

/-! ## Where the buckets begin

At a ledger that spills a level, the level's `mSnap` gets what `mCurr` had and `mCurr` starts over; the
ledgers of the younger levels are `backlog` many then. -/

section Boundaries

/-- The latest ledger that spilled the level. -/
def lastSpill (ledger level : ℕ) : ℕ := ledger / levelHalf level * levelHalf level

/-- The ledgers that the younger levels hold when a level spills. -/
def backlog (level : ℕ) : ℕ := ∑ l ∈ Finset.range level, levelSize l

/-- The first ledger of `mCurr`. -/
def currStart (ledger level : ℕ) : ℕ :=
  if level = kNumLevels - 1 then 1 else max 1 (lastSpill ledger level - backlog level)

/-- The first ledger of `mSnap`. -/
def snapStart (ledger level : ℕ) : ℕ :=
  if level = kNumLevels - 1 then 1
  else max 1 (lastSpill ledger level - levelHalf level - backlog level)

theorem levelSize_eq_half (level : ℕ) : levelSize level = 2 * levelHalf level := by
  rw [levelSize_eq, levelHalf_eq, pow_succ, mul_comm]

theorem levelHalf_succ (level : ℕ) : levelHalf (level + 1) = 4 * levelHalf level := by
  rw [levelHalf_eq, levelHalf_eq]
  ring

theorem backlog_succ (level : ℕ) : backlog (level + 1) = backlog level + 2 * levelHalf level := by
  rw [backlog, Finset.sum_range_succ, ← backlog, levelSize_eq_half]

theorem backlog_lt (level : ℕ) : backlog level < levelHalf level := by
  induction level with
  | zero => decide
  | succ level ih =>
    rw [backlog_succ, levelHalf_succ]
    omega

theorem lastSpill_le (ledger level : ℕ) : lastSpill ledger level ≤ ledger := Nat.div_mul_le_self _ _

theorem dvd_lastSpill (ledger level : ℕ) : levelHalf level ∣ lastSpill ledger level := Dvd.intro_left _ rfl

theorem lastSpill_of_dvd {ledger level : ℕ} (h : levelHalf level ∣ ledger) :
    lastSpill ledger level = ledger := Nat.div_mul_cancel h

theorem lt_lastSpill (ledger level : ℕ) : ledger < lastSpill ledger level + levelHalf level := by
  have hdiv := Nat.div_add_mod ledger (levelHalf level)
  have hmod := Nat.mod_lt ledger (levelHalf_pos level)
  rw [mul_comm] at hdiv
  rw [lastSpill]
  omega

/-- The latest spill is the greatest multiple of the level's half size. -/
theorem le_lastSpill {ledger level m : ℕ} (hm : levelHalf level ∣ m) (hle : m ≤ ledger) :
    m ≤ lastSpill ledger level := by
  obtain ⟨c, rfl⟩ := hm
  rw [lastSpill, mul_comm]
  exact Nat.mul_le_mul_right _ ((Nat.le_div_iff_mul_le (levelHalf_pos level)).mpr (by rwa [mul_comm]))

theorem lastSpill_succ_of_not {ledger level : ℕ} (h : ¬ levelHalf level ∣ ledger + 1) :
    lastSpill (ledger + 1) level = lastSpill ledger level := by
  rw [lastSpill, lastSpill, Nat.succ_div_of_not_dvd h]

theorem lastSpill_pred_of_dvd {ledger level : ℕ} (h : levelHalf level ∣ ledger + 1) :
    lastSpill ledger level = ledger + 1 - levelHalf level := by
  obtain ⟨c, hc⟩ := h
  have hpos := levelHalf_pos level
  have hlt := lt_lastSpill ledger level
  have hle := lastSpill_le ledger level
  have hge : levelHalf level * (c - 1) ≤ lastSpill ledger level := by
    refine le_lastSpill (dvd_mul_right _ _) ?_
    rw [Nat.mul_sub, mul_one]
    omega
  obtain ⟨d, hd⟩ := dvd_lastSpill ledger level
  have hdc : d < c := lt_of_mul_lt_mul_left (by omega : levelHalf level * d < levelHalf level * c) (by omega)
  have hmul : levelHalf level * d ≤ levelHalf level * (c - 1) := Nat.mul_le_mul_left _ (by omega)
  rw [Nat.mul_sub, mul_one] at hge hmul
  omega

theorem lastSpill_succ_le (ledger level : ℕ) : lastSpill ledger (level + 1) ≤ lastSpill ledger level :=
  le_lastSpill ((levelHalf_dvd_succ level).trans (dvd_lastSpill _ _)) (lastSpill_le _ _)

theorem one_le_snapStart (ledger level : ℕ) : 1 ≤ snapStart ledger level := by
  unfold snapStart
  split_ifs <;> omega

theorem snapStart_le (ledger level : ℕ) : snapStart ledger level ≤ currStart ledger level := by
  unfold snapStart currStart
  split_ifs <;> omega

theorem currStart_le_top (ledger : ℕ) {level : ℕ} (hlevel : level < kNumLevels) :
    currStart ledger level ≤ top ledger (snapStart ledger) level := by
  cases level with
  | zero =>
    have hle := lastSpill_le ledger 0
    simp only [currStart, top]
    split_ifs <;> omega
  | succ level =>
    have hspill := lastSpill_succ_le ledger level
    have hback := backlog_succ level
    by_cases hlast : level + 1 = kNumLevels - 1
    · rw [currStart, if_pos hlast]
      exact one_le_snapStart ledger level
    · rw [currStart, if_neg hlast, top, snapStart, if_neg (by omega)]
      omega

/-! ### One more ledger -/

theorem currStart_succ {ledger level : ℕ} (hlevel : level < kNumLevels) :
    currStart (ledger + 1) level = nextX ledger (currStart ledger) (snapStart ledger) level := by
  rw [nextX]
  by_cases hsp : levelShouldSpill (ledger + 1) level = true
  · obtain ⟨hlast, hdvd⟩ := (levelShouldSpill_iff _ _).mp hsp
    rw [if_pos hsp, currStart, if_neg hlast, lastSpill_of_dvd hdvd]
    cases level with
    | zero =>
      simp only [top, backlog, Finset.range_zero, Finset.sum_empty]
      omega
    | succ level =>
      have hpred := lastSpill_pred_of_dvd ((levelHalf_dvd_succ level).trans hdvd)
      rw [top, snapStart, if_neg (by omega), hpred, backlog_succ]
      omega
  · rw [if_neg hsp, currStart, currStart]
    split_ifs with hlast
    · rfl
    · rw [lastSpill_succ_of_not fun hdvd => hsp ((levelShouldSpill_iff _ _).mpr ⟨hlast, hdvd⟩)]

theorem snapStart_succ {ledger level : ℕ} :
    snapStart (ledger + 1) level = nextZ ledger (currStart ledger) (snapStart ledger) level := by
  rw [nextZ]
  by_cases hsp : levelShouldSpill (ledger + 1) level = true
  · obtain ⟨hlast, hdvd⟩ := (levelShouldSpill_iff _ _).mp hsp
    rw [if_pos hsp, snapStart, currStart, if_neg hlast, if_neg hlast, lastSpill_of_dvd hdvd,
      lastSpill_pred_of_dvd hdvd]
  · rw [if_neg hsp, snapStart, snapStart]
    split_ifs with hlast
    · rfl
    · rw [lastSpill_succ_of_not fun hdvd => hsp ((levelShouldSpill_iff _ _).mpr ⟨hlast, hdvd⟩)]

/-! ### The sizes are the differences -/

theorem mask_half (ledger level : ℕ) : mask ledger (levelHalf level) = lastSpill ledger level := by
  rw [mask, lastSpill, levelHalf_eq, Nat.and_two_pow_sub_one_eq_mod]
  have hdiv := Nat.div_add_mod ledger (2 ^ (2 * level + 1))
  rw [mul_comm] at hdiv
  omega

theorem mask_size_le (ledger level : ℕ) : mask ledger (levelSize level) ≤ lastSpill ledger level := by
  refine le_lastSpill ?_ (mask_le _ _)
  have hdvd : levelHalf level ∣ levelSize level := ⟨2, by rw [levelSize_eq_half, mul_comm]⟩
  refine hdvd.trans ?_
  rw [mask, levelSize_eq, Nat.and_two_pow_sub_one_eq_mod]
  exact Nat.dvd_sub_mod ledger

theorem mask_size_ne_zero (ledger level : ℕ) :
    mask ledger (levelSize level) ≠ 0 ↔ levelSize level ≤ ledger := by
  rw [mask, levelSize_eq, Nat.and_two_pow_sub_one_eq_mod]
  rcases Nat.lt_or_ge ledger (2 ^ (2 * level + 2)) with hlt | hge
  · rw [Nat.mod_eq_of_lt hlt]
    omega
  · have hmod := Nat.mod_lt ledger (show 0 < 2 ^ (2 * level + 2) by positivity)
    omega

/-- The two spellings of "the level spills at this ledger". -/
theorem mask_eq_iff (ledger level : ℕ) :
    (mask ledger (levelHalf level) = ledger ∨ mask ledger (levelSize level) = ledger)
      ↔ levelHalf level ∣ ledger := by
  rw [mask_half]
  constructor
  · rintro (h | h)
    · exact h ▸ dvd_lastSpill ledger level
    · have hle := mask_size_le ledger level
      have hge := lastSpill_le ledger level
      have heq : lastSpill ledger level = ledger := by omega
      exact heq ▸ dvd_lastSpill ledger level
  · exact fun h => .inl (lastSpill_of_dvd h)

theorem lastSpill_mono (level : ℕ) {m n : ℕ} (h : m ≤ n) : lastSpill m level ≤ lastSpill n level :=
  le_lastSpill (dvd_lastSpill _ _) ((lastSpill_le _ _).trans h)

theorem previousRelevantLedger_eq (ledger level : ℕ) :
    previousRelevantLedger ledger (level + 1) = lastSpill (ledger - 1) level := by
  have h1 := mask_size_le (ledger - 1) level
  have h2 := mask_size_le (ledger - 1) (level + 1)
  have h3 := lastSpill_succ_le (ledger - 1) level
  simp only [previousRelevantLedger, Nat.add_sub_cancel, mask_half]
  omega

/-- The ledgers in the levels younger than this one. -/
theorem sum_sizes {ledger level : ℕ} (hlevel : level < kNumLevels)
    (h : ∀ l < level, sizeOfCurr ledger l = top ledger (snapStart ledger) l - currStart ledger l ∧
      sizeOfSnap ledger l = currStart ledger l - snapStart ledger l) :
    ∑ l : Fin level, (sizeOfCurr ledger l + sizeOfSnap ledger l)
      = ledger + 1 - top ledger (snapStart ledger) level ∧
    top ledger (snapStart ledger) level ≤ ledger + 1 := by
  induction level with
  | zero => simp [top]
  | succ level ih =>
    obtain ⟨hsum, hle⟩ := ih (by omega) fun l hl => h l (by omega)
    obtain ⟨hcurr, hsnap⟩ := h level (by omega)
    have h1 := currStart_le_top ledger (show level < kNumLevels by omega)
    have h2 := snapStart_le ledger level
    rw [Fin.sum_univ_castSucc]
    simp only [Fin.val_castSucc, Fin.val_last]
    rw [hsum, hcurr, hsnap, top]
    omega

theorem size_snap {ledger level : ℕ} (hlevel : level < kNumLevels)
    (h : ∀ l < level, sizeOfCurr ledger l = top ledger (snapStart ledger) l - currStart ledger l ∧
      sizeOfSnap ledger l = currStart ledger l - snapStart ledger l)
    (hcurr : sizeOfCurr ledger level = top ledger (snapStart ledger) level - currStart ledger level) :
    sizeOfSnap ledger level = currStart ledger level - snapStart ledger level := by
  rw [sizeOfSnap]
  by_cases hlast : level = kNumLevels - 1
  · rw [if_pos hlast, currStart, snapStart, if_pos hlast, if_pos hlast]
  rw [if_neg hlast]
  have hback := backlog_lt level
  have hsize := levelSize_eq_half level
  by_cases hmask : mask ledger (levelSize level) ≠ 0
  · rw [if_pos hmask]
    have hge : levelSize level ≤ lastSpill ledger level :=
      le_lastSpill ⟨2, by rw [hsize, mul_comm]⟩ ((mask_size_ne_zero _ _).mp hmask)
    rw [currStart, snapStart, if_neg hlast, if_neg hlast]
    omega
  · rw [if_neg hmask]
    obtain ⟨hsum, hle⟩ := sum_sizes hlevel h
    have hlt : ledger < levelSize level := by
      by_contra hge
      exact hmask ((mask_size_ne_zero _ _).mpr (by omega))
    have hstart : snapStart ledger level = 1 := by
      -- A level of which less than its size has been seen has spilled at most once.
      have hspill : lastSpill ledger level ≤ levelHalf level := by
        obtain ⟨c, hc⟩ := dvd_lastSpill ledger level
        have hspill_le := lastSpill_le ledger level
        have hc2 : c < 2 := lt_of_mul_lt_mul_left
          (by omega : levelHalf level * c < levelHalf level * 2) (by omega)
        rw [hc]
        interval_cases c <;> omega
      rw [snapStart, if_neg hlast]
      omega
    have h1 := currStart_le_top ledger hlevel
    have h2 : 1 ≤ currStart ledger level := (one_le_snapStart _ _).trans (snapStart_le _ _)
    rw [hsum, hcurr, hstart]
    omega

/-- The ledgers of a level that has spilled before. -/
theorem top_sub_currStart {ledger level : ℕ} (hlast : level + 1 ≠ kNumLevels - 1)
    (hlevel : level + 1 < kNumLevels) (hspill : levelHalf (level + 1) ≤ lastSpill ledger (level + 1)) :
    top ledger (snapStart ledger) (level + 1) - currStart ledger (level + 1)
      = lastSpill ledger level + levelHalf level - lastSpill ledger (level + 1) := by
  have hle := lastSpill_succ_le ledger level
  have hback := backlog_lt level
  have hhalf := levelHalf_succ level
  have hsucc := backlog_succ level
  rw [top, snapStart, currStart, if_neg (by omega), if_neg hlast]
  omega

theorem size_curr_zero {ledger : ℕ} (hledger : 0 < ledger) :
    sizeOfCurr ledger 0 = top ledger (snapStart ledger) 0 - currStart ledger 0 := by
  have hhalf : levelHalf 0 = 2 := rfl
  have hspill : lastSpill ledger 0 = ledger - ledger % 2 := by
    have hdiv := Nat.div_add_mod ledger 2
    rw [lastSpill, hhalf]
    omega
  have hback : backlog 0 = 0 := rfl
  rw [sizeOfCurr, if_pos rfl, top, currStart, if_neg (show (0 : ℕ) ≠ kNumLevels - 1 by decide), hspill,
    hback]
  have hmod := Nat.mod_lt ledger Nat.two_pos
  split_ifs with hone
  · subst hone
    rfl
  · omega

theorem size_curr_succ {ledger level : ℕ} (hledger : 0 < ledger) (hlevel : level + 1 < kNumLevels)
    (h : ∀ ledger, 0 < ledger → ∀ l < level + 1,
      sizeOfCurr ledger l = top ledger (snapStart ledger) l - currStart ledger l ∧
        sizeOfSnap ledger l = currStart ledger l - snapStart ledger l) :
    sizeOfCurr ledger (level + 1)
      = top ledger (snapStart ledger) (level + 1) - currStart ledger (level + 1) := by
  induction ledger using Nat.strong_induction_on with
  | _ ledger ih =>
    rw [sizeOfCurr, if_neg (Nat.succ_ne_zero level)]
    by_cases hcond : level + 1 ≠ kNumLevels - 1 ∧ mask ledger (levelHalf (level + 1)) ≠ 0
    · obtain ⟨hlast, hmask⟩ := hcond
      rw [dif_pos ⟨hlast, hmask⟩]
      rw [mask_half] at hmask
      have hdelta : 1 <<< (2 * (level + 1) - 1) = levelHalf level := by
        rw [levelHalf_eq, Nat.one_shiftLeft, show 2 * (level + 1) - 1 = 2 * level + 1 by omega]
      have hspill : levelHalf (level + 1) ≤ lastSpill ledger (level + 1) :=
        Nat.le_of_dvd (Nat.pos_of_ne_zero hmask) (dvd_lastSpill _ _)
      rw [hdelta, top_sub_currStart hlast hlevel hspill]
      simp only [mask_eq_iff, Nat.add_sub_cancel, previousRelevantLedger_eq]
      by_cases hdvd : levelHalf (level + 1) ∣ ledger
      · rw [if_pos hdvd, lastSpill_of_dvd hdvd,
          lastSpill_of_dvd ((levelHalf_dvd_succ level).trans hdvd)]
        omega
      rw [if_neg hdvd]
      -- The level has not changed since the latest earlier spill of the level before it.
      have hprev_le := lastSpill_le (ledger - 1) level
      have hlt : lastSpill (ledger - 1) level < ledger := by omega
      have hne : lastSpill ledger (level + 1) ≠ ledger := fun heq => hdvd (heq ▸ dvd_lastSpill _ _)
      have hsame : lastSpill (lastSpill (ledger - 1) level) (level + 1) = lastSpill ledger (level + 1) := by
        refine le_antisymm (lastSpill_mono _ (by omega)) (le_lastSpill (dvd_lastSpill _ _) ?_)
        refine le_lastSpill ((levelHalf_dvd_succ level).trans (dvd_lastSpill _ _)) ?_
        have := lastSpill_le ledger (level + 1)
        omega
      have hprev_spill : lastSpill (lastSpill (ledger - 1) level) level = lastSpill (ledger - 1) level :=
        lastSpill_of_dvd (dvd_lastSpill _ _)
      have hge := lastSpill_le (lastSpill (ledger - 1) level) (level + 1)
      rw [hsame] at hge
      have hpos := levelHalf_pos (level + 1)
      have hprev := ih (lastSpill (ledger - 1) level) hlt (by omega)
      rw [top_sub_currStart hlast hlevel (by rw [hsame]; exact hspill), hsame, hprev_spill] at hprev
      rw [hprev]
      obtain ⟨n, rfl⟩ : ∃ n, ledger = n + 1 := ⟨ledger - 1, by omega⟩
      simp only [Nat.add_sub_cancel] at hge ⊢
      split_ifs with hdvd'
      · have hpred := lastSpill_pred_of_dvd hdvd'
        rw [lastSpill_of_dvd hdvd']
        have hhalf := Nat.le_of_dvd (Nat.succ_pos n) hdvd'
        omega
      · rw [lastSpill_succ_of_not hdvd']
    · rw [dif_neg hcond]
      obtain ⟨hsum, hle⟩ := sum_sizes hlevel (h ledger hledger)
      have hstart : currStart ledger (level + 1) = 1 := by
        rw [currStart]
        split_ifs with hlast
        · rfl
        · have hzero : lastSpill ledger (level + 1) = 0 := by
            by_contra hne
            exact hcond ⟨hlast, by rwa [mask_half]⟩
          omega
      rw [hsum, hstart]
      omega

/-- The sizes that the code computes are the differences between the starts. -/
theorem sizes_eq {level : ℕ} (hlevel : level < kNumLevels) {ledger : ℕ} (hledger : 0 < ledger) :
    sizeOfCurr ledger level = top ledger (snapStart ledger) level - currStart ledger level ∧
      sizeOfSnap ledger level = currStart ledger level - snapStart ledger level := by
  induction level using Nat.strong_induction_on generalizing ledger with
  | _ level ih =>
    have hlower : ∀ ledger, 0 < ledger → ∀ l < level,
        sizeOfCurr ledger l = top ledger (snapStart ledger) l - currStart ledger l ∧
          sizeOfSnap ledger l = currStart ledger l - snapStart ledger l :=
      fun _ h l hl => ih l hl (by omega) h
    have hcurr : sizeOfCurr ledger level
        = top ledger (snapStart ledger) level - currStart ledger level := by
      cases level with
      | zero => exact size_curr_zero hledger
      | succ level => exact size_curr_succ hledger hlevel hlower
    exact ⟨hcurr, size_snap hlevel (hlower ledger hledger) hcurr⟩

/-- The ranges that the four functions give. -/
theorem ranges_eq {ledger level : ℕ} (hledger : 0 < ledger) (hlevel : level < kNumLevels) :
    Finset.Ico (oldestLedgerInCurr ledger level)
        (oldestLedgerInCurr ledger level + sizeOfCurr ledger level)
      = Finset.Ico (currStart ledger level) (top ledger (snapStart ledger) level) ∧
    Finset.Ico (oldestLedgerInSnap ledger level)
        (oldestLedgerInSnap ledger level + sizeOfSnap ledger level)
      = Finset.Ico (snapStart ledger level) (currStart ledger level) := by
  obtain ⟨hcurr, hsnap⟩ := sizes_eq hlevel hledger
  obtain ⟨hsum, hle⟩ := sum_sizes hlevel fun l hl => sizes_eq (by omega) hledger
  have h1 := currStart_le_top ledger hlevel
  have h2 := snapStart_le ledger level
  have h3 := one_le_snapStart ledger level
  constructor
  · rw [oldestLedgerInCurr]
    split_ifs with hzero
    · rw [hzero, Nat.add_zero, Finset.Ico_self, Finset.Ico_eq_empty (by omega)]
    · simp only
      congr 1 <;> omega
  · rw [oldestLedgerInSnap]
    split_ifs with hzero
    · rw [hzero, Nat.add_zero, Finset.Ico_self, Finset.Ico_eq_empty (by omega)]
    · rw [Fin.sum_univ_castSucc]
      simp only [Fin.val_castSucc, Fin.val_last]
      congr 1 <;> omega

end Boundaries

/-! ## Buckets that know their ledgers -/

namespace Merging

variable {β γ : Type}

/-- Buckets with the numbers of the ledgers whose batches were merged into them; a batch comes with the
number of its ledger. -/
def traced (ops : BucketOps β γ) : BucketOps (β × Finset ℕ) (ℕ × γ) where
  empty := (ops.empty, ∅)
  fresh b := (ops.fresh b.2, {b.1})
  merge oldBucket newBucket shadows keepDeadEntries :=
    (ops.merge oldBucket.1 newBucket.1 (shadows.map Prod.fst) keepDeadEntries, oldBucket.2 ∪ newBucket.2)
  getHash b := ops.getHash b.1

/-- The batches with the numbers of their ledgers. -/
def numbered (ledger : ℕ) : List ((ℕ → Bool) × γ) → List ((ℕ → Bool) × ℕ × γ)
  | [] => []
  | b :: bs => (b.1, ledger, b.2) :: numbered (ledger + 1) bs

/-- After the batches up to `ledger`, the buckets of every level, and what its merge will give, are made
of the ledgers between the starts. -/
structure Ranges (ledger : ℕ) (v : ℕ → LevelView (β × Finset ℕ)) : Prop where
  curr : ∀ i < kNumLevels,
    (v i).curr.2 = Finset.Ico (currStart ledger i) (top ledger (snapStart ledger) i)
  snap : ∀ i < kNumLevels, (v i).snap.2 = Finset.Ico (snapStart ledger i) (currStart ledger i)
  next : ∀ i, i + 1 < kNumLevels →
    let spills := levelShouldSpill (nextSpill ledger i) (i + 1)
    ((v (i + 1)).next.map Prod.snd).getD (if spills then ∅ else (v (i + 1)).curr.2)
      = Finset.Ico (if spills then snapStart ledger i else currStart ledger (i + 1)) (currStart ledger i)

section Ranges

variable {ops : BucketOps β γ} {ledger : ℕ} {v : ℕ → LevelView (β × Finset ℕ)}

theorem starts_zero (level : ℕ) : currStart 0 level = 1 ∧ snapStart 0 level = 1 := by
  simp [currStart, snapStart, lastSpill]

theorem ranges_new : Ranges 0 fun _ => LevelView.new (traced ops) := by
  have htop : ∀ i, top 0 (snapStart 0) i = 1 := by
    rintro (_ | i)
    · rfl
    · exact (starts_zero i).2
  constructor
  · intro i _
    simp [LevelView.new, traced, htop, starts_zero]
  · intro i _
    simp [LevelView.new, traced, starts_zero]
  · intro i _
    simp [LevelView.new, traced, starts_zero]

theorem curr_spilledView (i : ℕ) : (spilledView (traced ops) (ledger + 1) v i).curr.2
    = if levelShouldSpill (ledger + 1) i then ∅ else (v i).curr.2 := by
  unfold spilledView
  split <;> rfl

theorem next_spilledView (i : ℕ) :
    (spilledView (traced ops) (ledger + 1) v i).next = (v i).next := by
  unfold spilledView
  split <;> rfl

/-- `mCurr` after a commit. -/
theorem curr_commit (u : LevelView (β × Finset ℕ)) :
    u.commit.curr.2 = (u.next.map Prod.snd).getD u.curr.2 := by
  unfold LevelView.commit
  cases u.next <;> rfl

theorem spilledView_of_not {i : ℕ} (hi : i + 1 < kNumLevels)
    (hsp : ¬ levelShouldSpill (ledger + 1) i = true) :
    spilledView (traced ops) (ledger + 1) v (i + 1) = v (i + 1) := by
  rw [spilledView, if_neg fun h => hsp (levelShouldSpill_pred hi h)]

theorem Ranges.snap_step (h : Ranges ledger v) (b : ℕ × γ) {i : ℕ} (hi : i < kNumLevels) :
    (batchView (traced ops) (ledger + 1) b v i).snap.2
      = Finset.Ico (snapStart (ledger + 1) i) (currStart (ledger + 1) i) := by
  have hsnap : (batchView (traced ops) (ledger + 1) b v i).snap
      = if levelShouldSpill (ledger + 1) i then (v i).curr else (v i).snap := by
    have hspilled : (spilledView (traced ops) (ledger + 1) v i).snap
        = if levelShouldSpill (ledger + 1) i then (v i).curr else (v i).snap := by
      unfold spilledView
      split <;> rfl
    cases i with
    | zero => exact hspilled
    | succ i =>
      rw [batchView]
      split
      · exact hspilled
      · exact hspilled
  rw [hsnap, snapStart_succ, currStart_succ hi, nextZ, nextX]
  split
  · exact h.curr i hi
  · exact h.snap i hi

theorem Ranges.curr_zero_step (h : Ranges ledger v) (b : γ) :
    (batchView (traced ops) (ledger + 1) (ledger + 1, b) v 0).curr.2
      = Finset.Ico (currStart (ledger + 1) 0) (ledger + 2) := by
  have hcurr : (batchView (traced ops) (ledger + 1) (ledger + 1, b) v 0).curr.2
      = (spilledView (traced ops) (ledger + 1) v 0).curr.2 ∪ {ledger + 1} := rfl
  have hle := currStart_le_top ledger (show 0 < kNumLevels by decide)
  rw [hcurr, curr_spilledView, currStart_succ (by decide), nextX]
  rw [h.curr 0 (by decide)]
  rw [top] at hle ⊢
  split
  · rw [Finset.empty_union, Nat.Ico_succ_singleton]
  · rw [← Nat.Ico_succ_singleton, Finset.Ico_union_Ico_eq_Ico hle (by omega)]

theorem Ranges.curr_succ_step (h : Ranges ledger v) (b : ℕ × γ) {i : ℕ} (hi : i + 1 < kNumLevels) :
    (batchView (traced ops) (ledger + 1) b v (i + 1)).curr.2
      = Finset.Ico (currStart (ledger + 1) (i + 1)) (snapStart (ledger + 1) i) := by
  rw [currStart_succ hi, snapStart_succ, nextX, nextZ, batchView]
  by_cases hsp : levelShouldSpill (ledger + 1) i = true
  · have hdvd := ((levelShouldSpill_iff _ _).mp hsp).2
    have hnext := h.next i hi
    rw [nextSpill_of_spill hdvd] at hnext
    rw [if_pos hsp, if_pos hsp]
    have hcurr : ((spilledView (traced ops) (ledger + 1) v (i + 1)).commit.prepare (traced ops) (i + 1)
        (ledger + 1) (v i).curr (viewBuckets v i)).curr
          = (spilledView (traced ops) (ledger + 1) v (i + 1)).commit.curr := rfl
    rw [hcurr, curr_commit, next_spilledView, curr_spilledView]
    exact hnext
  · have hsp' : ¬ levelShouldSpill (ledger + 1) (i + 1) = true :=
      fun hs => hsp (levelShouldSpill_pred hi hs)
    rw [if_neg hsp, if_neg hsp, if_neg hsp', spilledView_of_not hi hsp]
    exact h.curr (i + 1) hi

theorem Ranges.next_step (h : Ranges ledger v) (b : ℕ × γ) {i : ℕ} (hi : i + 1 < kNumLevels) :
    let spills := levelShouldSpill (nextSpill (ledger + 1) i) (i + 1)
    ((batchView (traced ops) (ledger + 1) b v (i + 1)).next.map Prod.snd).getD
        (if spills then ∅ else (batchView (traced ops) (ledger + 1) b v (i + 1)).curr.2)
      = Finset.Ico (if spills then snapStart (ledger + 1) i else currStart (ledger + 1) (i + 1))
        (currStart (ledger + 1) i) := by
  intro spills
  have hcurr : (batchView (traced ops) (ledger + 1) b v (i + 1)).curr.2
      = Finset.Ico (currStart (ledger + 1) (i + 1)) (snapStart (ledger + 1) i) := h.curr_succ_step b hi
  rw [batchView] at hcurr ⊢
  by_cases hsp : levelShouldSpill (ledger + 1) i = true
  · have hdvd := ((levelShouldSpill_iff _ _).mp hsp).2
    have hnext : nextSpill (ledger + 1) i = ledger + 1 + levelHalf i := nextSpill_succ_of_spill hdvd
    rw [if_pos hsp] at hcurr ⊢
    -- The older input: an empty bucket if this level is snapshotted next, else its `mCurr`.
    have hmerge : ((spilledView (traced ops) (ledger + 1) v (i + 1)).commit.prepare (traced ops) (i + 1)
        (ledger + 1) (v i).curr (viewBuckets v i)).next.map Prod.snd
          = some ((if spills then ∅
            else Finset.Ico (currStart (ledger + 1) (i + 1)) (snapStart (ledger + 1) i)) ∪ (v i).curr.2) := by
      rw [← hcurr]
      simp only [LevelView.prepare, Option.map_some, spills, hnext, ne_eq, Nat.add_eq_zero_iff,
        one_ne_zero, and_false, not_false_eq_true, true_and, Nat.add_sub_cancel]
      congr 1
      split <;> rfl
    rw [hmerge, Option.getD_some, h.curr i (by omega)]
    have hle := currStart_le_top (ledger + 1) hi
    have hstart := currStart_le_top ledger (show i < kNumLevels by omega)
    have hz : snapStart (ledger + 1) i = currStart ledger i := by
      rw [snapStart_succ, nextZ, if_pos hsp]
    have hx : currStart (ledger + 1) i = top ledger (snapStart ledger) i := by
      rw [currStart_succ (by omega), nextX, if_pos hsp]
    rw [top] at hle
    rw [← hz, ← hx]
    have hzx := snapStart_le (ledger + 1) i
    cases spills
    · simp only [Bool.false_eq_true, if_false]
      exact Finset.Ico_union_Ico_eq_Ico hle hzx
    · simp only [if_true]
      rw [Finset.empty_union]
  · have hdvd : ¬ levelHalf i ∣ ledger + 1 := by
      rw [levelShouldSpill_iff] at hsp
      exact fun hd => hsp ⟨by omega, hd⟩
    have hsp' : ¬ levelShouldSpill (ledger + 1) (i + 1) = true :=
      fun hs => hsp (levelShouldSpill_pred hi hs)
    have hspills : spills = levelShouldSpill (nextSpill ledger i) (i + 1) := by
      simp only [spills, nextSpill_succ_of_not hdvd]
    have hnext := h.next i hi
    rw [if_neg hsp, spilledView_of_not hi hsp, hspills, snapStart_succ, currStart_succ hi,
      currStart_succ (by omega), nextZ, nextX, nextX, if_neg hsp, if_neg hsp, if_neg hsp']
    exact hnext

theorem ranges_batchView (h : Ranges ledger v) (b : γ) :
    Ranges (ledger + 1) (batchView (traced ops) (ledger + 1) (ledger + 1, b) v) := by
  constructor
  · intro i hi
    cases i with
    | zero => exact h.curr_zero_step b
    | succ i => exact h.curr_succ_step _ hi
  · exact fun i hi => h.snap_step _ hi
  · exact fun i hi => h.next_step _ hi

theorem ranges_batchesView (h : Ranges ledger v) (bs : List ((ℕ → Bool) × γ)) :
    Ranges (ledger + bs.length)
      (batchesView (traced ops) v (ledger + 1) ((numbered (ledger + 1) bs).map Prod.snd)) := by
  induction bs generalizing ledger v with
  | nil => exact h
  | cons b bs ih =>
    have hlen : ledger + (b :: bs).length = ledger + 1 + bs.length := by
      rw [List.length_cons]
      omega
    rw [hlen]
    exact ih (ranges_batchView h b.2)

/-! ### Without the numbers -/

/-- A level without the ledger numbers. -/
def untraced (u : LevelView (β × Finset ℕ)) : LevelView β := ⟨u.curr.1, u.snap.1, u.next.map Prod.fst⟩

theorem viewBuckets_untraced (n : ℕ) :
    viewBuckets (fun i => untraced (v i)) n = (viewBuckets v n).map Prod.fst := by
  simp [viewBuckets, untraced, List.map_flatMap]

theorem spilledView_untraced (currLedger i : ℕ) :
    spilledView ops currLedger (fun i => untraced (v i)) i
      = untraced (spilledView (traced ops) currLedger v i) := by
  unfold spilledView
  split <;> rfl

theorem commit_untraced (u : LevelView (β × Finset ℕ)) : (untraced u).commit = untraced u.commit := by
  unfold LevelView.commit untraced
  cases u.next <;> rfl

theorem prepare_untraced (u : LevelView (β × Finset ℕ)) (i currLedger : ℕ) (snap : β × Finset ℕ)
    (shadows : List (β × Finset ℕ)) :
    (untraced u).prepare ops i currLedger snap.1 (shadows.map Prod.fst)
      = untraced (u.prepare (traced ops) i currLedger snap shadows) := by
  simp only [LevelView.prepare, untraced, traced, Option.map_some]
  split <;> rfl

theorem batchView_untraced (currLedger : ℕ) (b : ℕ × γ) :
    (fun i => untraced (batchView (traced ops) currLedger b v i))
      = batchView ops currLedger b.2 fun i => untraced (v i) := by
  funext i
  cases i with
  | zero =>
    rw [batchView, batchView, spilledView_untraced, ← commit_untraced]
    exact congrArg LevelView.commit
      (prepare_untraced _ 0 currLedger ((traced ops).fresh b) []).symm
  | succ i =>
    rw [batchView, batchView]
    split
    · rw [spilledView_untraced, commit_untraced, viewBuckets_untraced]
      exact (prepare_untraced _ (i + 1) currLedger (v i).curr (viewBuckets v i)).symm
    · rw [spilledView_untraced]

theorem batchesView_untraced (currLedger : ℕ) (bs : List ((ℕ → Bool) × γ)) :
    (fun i => untraced (batchesView (traced ops) v currLedger ((numbered currLedger bs).map Prod.snd) i))
      = batchesView ops (fun i => untraced (v i)) currLedger (bs.map Prod.snd) := by
  induction bs generalizing currLedger v with
  | nil => rfl
  | cons b bs ih =>
    rw [numbered, List.map_cons, batchesView, ih, batchView_untraced]
    rfl

end Ranges

/-! ### The boundaries -/

section Tiling

variable {ledger : ℕ}

/-- The ranges of the levels from `level` down, newest first. -/
def rangesFrom (ledger : ℕ) : ℕ → ℕ → List (Finset ℕ)
  | _, 0 => []
  | level, n + 1 =>
    Finset.Ico (currStart ledger level) (top ledger (snapStart ledger) level) ::
      Finset.Ico (snapStart ledger level) (currStart ledger level) :: rangesFrom ledger (level + 1) n

theorem rangesFrom_eq (level n : ℕ) : rangesFrom ledger level n = (List.range' level n).flatMap fun i =>
    [Finset.Ico (currStart ledger i) (top ledger (snapStart ledger) i),
      Finset.Ico (snapStart ledger i) (currStart ledger i)] := by
  induction n generalizing level with
  | zero => rfl
  | succ n ih =>
    rw [rangesFrom, ih, List.range'_succ, List.flatMap_cons]
    rfl

/-- One range is newer than another. -/
def Newer (r r' : Finset ℕ) : Prop := ∀ a ∈ r, ∀ b ∈ r', b < a

theorem rangesFrom_below (n level : ℕ) (hn : level + n ≤ kNumLevels) :
    ∀ r ∈ rangesFrom ledger level n, ∀ a ∈ r, a < top ledger (snapStart ledger) level := by
  induction n generalizing level with
  | zero => simp [rangesFrom]
  | succ n ih =>
    have h1 := currStart_le_top ledger (show level < kNumLevels by omega)
    have h2 := snapStart_le ledger level
    intro r hr a ha
    rcases List.mem_cons.mp hr with rfl | hr
    · exact (Finset.mem_Ico.mp ha).2
    rcases List.mem_cons.mp hr with rfl | hr
    · have := (Finset.mem_Ico.mp ha).2
      omega
    · have := ih (level + 1) (by omega) r hr a ha
      rw [top] at this
      omega

theorem rangesFrom_pairwise (n level : ℕ) (hn : level + n ≤ kNumLevels) :
    (rangesFrom ledger level n).Pairwise Newer := by
  induction n generalizing level with
  | zero => exact List.Pairwise.nil
  | succ n ih =>
    have h2 := snapStart_le ledger level
    have hbelow : ∀ r ∈ rangesFrom ledger (level + 1) n, ∀ a ∈ r, a < top ledger (snapStart ledger) (level + 1) :=
      rangesFrom_below n (level + 1) (by omega)
    rw [top] at hbelow
    refine List.pairwise_cons.mpr ⟨fun r hr a ha b hb => ?_,
      List.pairwise_cons.mpr ⟨fun r hr a ha b hb => ?_, ih (level + 1) (by omega)⟩⟩
    · have ha' := (Finset.mem_Ico.mp ha).1
      rcases List.mem_cons.mp hr with rfl | hr
      · exact (Finset.mem_Ico.mp hb).2.trans_le ha'
      · have := hbelow r hr b hb
        omega
    · have ha' := (Finset.mem_Ico.mp ha).1
      exact (hbelow r hr b hb).trans_le ha'

theorem rangesFrom_cover (n level : ℕ) (hn : level + n = kNumLevels) (hpos : 0 < n) (a : ℕ) :
    (∃ r ∈ rangesFrom ledger level n, a ∈ r) ↔ 1 ≤ a ∧ a < top ledger (snapStart ledger) level := by
  induction n generalizing level with
  | zero => omega
  | succ n ih =>
    have h1 := currStart_le_top ledger (show level < kNumLevels by omega)
    have h2 := snapStart_le ledger level
    have h3 := one_le_snapStart ledger level
    have hrest : (∃ r ∈ rangesFrom ledger (level + 1) n, a ∈ r) ↔ 1 ≤ a ∧ a < snapStart ledger level := by
      rcases Nat.eq_zero_or_pos n with rfl | hn'
      · -- The last level's `mSnap` begins at ledger 1.
        have hlast : snapStart ledger level = 1 := if_pos (by rw [kNumLevels] at hn ⊢; omega)
        rw [hlast]
        simp only [rangesFrom, List.not_mem_nil, false_and, exists_false, false_iff]
        omega
      · exact ih (level + 1) (by omega) hn'
    rw [rangesFrom]
    simp only [List.exists_mem_cons_iff, hrest, Finset.mem_Ico]
    omega

end Tiling

/-- **Bucket boundaries.** After the batches of the ledgers from 1 on, the ledgers that the buckets of
every level are made of are the ranges that the size functions give; from the newest bucket to the
oldest they follow each other and cover all ledgers. The buckets are those of the list that keeps no
numbers. -/
theorem boundaries (ops : BucketOps β γ) (bs : List ((ℕ → Bool) × γ)) (hbs : 1 ≤ bs.length) :
    ∃ bl plain, addBatches (traced ops) (.new (traced ops)) 1 (numbered 1 bs) = .ok bl ∧
      addBatches ops (.new ops) 1 bs = .ok plain ∧
      (∀ level < kNumLevels,
        (bl.mLevels level).mCurr = ((plain.mLevels level).mCurr,
          Finset.Ico (oldestLedgerInCurr bs.length level)
            (oldestLedgerInCurr bs.length level + sizeOfCurr bs.length level)) ∧
        (bl.mLevels level).mSnap = ((plain.mLevels level).mSnap,
          Finset.Ico (oldestLedgerInSnap bs.length level)
            (oldestLedgerInSnap bs.length level + sizeOfSnap bs.length level))) ∧
      ((bl.buckets kNumLevels).map Prod.snd).Pairwise Newer ∧
      ∀ ledger, (∃ b ∈ bl.buckets kNumLevels, ledger ∈ b.2) ↔ 1 ≤ ledger ∧ ledger ≤ bs.length := by
  have htraced : Shows (traced ops) (.new (traced ops)) fun _ => .new (traced ops) := shows_new
  have hnew : Shows ops (.new ops) fun _ => .new ops := shows_new
  obtain ⟨bl, hbl, hshows⟩ := addBatches_shows htraced Nat.one_pos (numbered 1 bs)
  obtain ⟨plain, hplain, hshows'⟩ := addBatches_shows hnew Nat.one_pos bs
  have hfirst : Ranges 0 fun _ => LevelView.new (traced ops) := ranges_new
  have hranges : Ranges (0 + bs.length) (batchesView (traced ops) (fun _ => .new (traced ops)) (0 + 1)
      ((numbered (0 + 1) bs).map Prod.snd)) := ranges_batchesView hfirst bs
  have huntraced : ∀ i, untraced (batchesView (traced ops) (fun _ => .new (traced ops)) 1
        ((numbered 1 bs).map Prod.snd) i)
      = batchesView ops (fun _ => .new ops) 1 (bs.map Prod.snd) i :=
    congrFun (batchesView_untraced 1 bs)
  rw [Nat.zero_add] at hranges
  have hcurr : ∀ i < kNumLevels, (bl.mLevels i).mCurr.2
      = Finset.Ico (currStart bs.length i) (top bs.length (snapStart bs.length) i) := fun i hi => by
    rw [(hshows.levels i hi).curr]
    exact hranges.curr i hi
  have hsnap : ∀ i < kNumLevels, (bl.mLevels i).mSnap.2
      = Finset.Ico (snapStart bs.length i) (currStart bs.length i) := fun i hi => by
    rw [(hshows.levels i hi).snap]
    exact hranges.snap i hi
  have hbuckets : (bl.buckets kNumLevels).map Prod.snd = rangesFrom bs.length 0 kNumLevels := by
    rw [rangesFrom_eq, BucketList.buckets, List.range_eq_range', List.map_flatMap]
    refine List.flatMap_congr fun i hi => ?_
    have hlt : i < kNumLevels := by simpa using hi
    rw [List.map_cons, List.map_cons, List.map_nil, hcurr i hlt, hsnap i hlt]
  refine ⟨bl, plain, hbl, hplain, fun level hlevel => ⟨?_, ?_⟩, ?_, fun ledger => ?_⟩
  · refine Prod.ext ?_ ?_
    · rw [(hshows.levels level hlevel).curr, (hshows'.levels level hlevel).curr]
      exact congrArg LevelView.curr (huntraced level)
    · rw [hcurr level hlevel, (ranges_eq hbs hlevel).1]
  · refine Prod.ext ?_ ?_
    · rw [(hshows.levels level hlevel).snap, (hshows'.levels level hlevel).snap]
      exact congrArg LevelView.snap (huntraced level)
    · rw [hsnap level hlevel, (ranges_eq hbs hlevel).2]
  · rw [hbuckets]
    exact rangesFrom_pairwise kNumLevels 0 (Nat.zero_add _).le
  · have hmem : (∃ b ∈ bl.buckets kNumLevels, ledger ∈ b.2)
        ↔ ∃ r ∈ (bl.buckets kNumLevels).map Prod.snd, ledger ∈ r :=
      ⟨fun ⟨b, hb, hin⟩ => ⟨b.2, List.mem_map_of_mem hb, hin⟩, fun ⟨r, hr, hin⟩ => by
        obtain ⟨b, hb, rfl⟩ := List.mem_map.mp hr
        exact ⟨b, hb, hin⟩⟩
    have hcover : (∃ r ∈ rangesFrom bs.length 0 kNumLevels, ledger ∈ r)
        ↔ 1 ≤ ledger ∧ ledger < top bs.length (snapStart bs.length) 0 :=
      rangesFrom_cover kNumLevels 0 (Nat.zero_add _) (by decide) ledger
    rw [hmem, hbuckets, hcover, top, Nat.lt_succ_iff]

/-- The first eight ledgers. -/
theorem boundaries_eight : ∃ bl plain,
    addBatches (traced hashOps) (.new (traced hashOps)) 1
        (numbered 1 (List.replicate 8 (fun _ => true, 1))) = .ok bl ∧
      addBatches hashOps (.new hashOps) 1 (List.replicate 8 (fun _ => true, 1)) = .ok plain ∧
      (bl.mLevels 1).mCurr = ((plain.mLevels 1).mCurr,
        Finset.Ico (oldestLedgerInCurr 8 1) (oldestLedgerInCurr 8 1 + sizeOfCurr 8 1)) := by
  obtain ⟨bl, plain, hbl, hplain, hlevels, -⟩ :=
    boundaries hashOps (List.replicate 8 (fun _ => true, 1)) (by decide)
  exact ⟨bl, plain, hbl, hplain, (hlevels 1 (by decide)).1⟩

/-! ### What the numbers say about the entries -/

section Entries

variable {batches : List Batch}

/-- Every entry of the bucket is what the batch of one of its ledgers says about the key. -/
def FromLedgers (batches : List Batch) (b : Bucket × Finset ℕ) : Prop :=
  ∀ k e, b.1.lookup k = some e → ∃ ledger ∈ b.2, batchLog batches ledger k = some e

structure LevelView.All {α : Type} (P : α → Prop) (u : LevelView α) : Prop where
  curr : P u.curr
  snap : P u.snap
  next : ∀ b ∈ u.next, P b

/-- What holds of fresh buckets and is kept by merges holds of all buckets. -/
theorem batchView_all {ops : BucketOps β γ} {P : β → Prop} {v : ℕ → LevelView β} {currLedger : ℕ} {b : γ}
    (hempty : P ops.empty) (hfresh : P (ops.fresh b))
    (hmerge : ∀ x y shadows keep, P x → P y → P (ops.merge x y shadows keep))
    (h : ∀ i, (v i).All P) (i : ℕ) : (batchView ops currLedger b v i).All P := by
  have hspilled : ∀ i, (spilledView ops currLedger v i).All P := by
    intro i
    unfold spilledView
    split
    · exact ⟨hempty, (h i).curr, (h i).next⟩
    · exact h i
  have hcommit : ∀ u : LevelView β, u.All P → u.commit.All P := by
    intro u hu
    refine ⟨?_, hu.snap, fun b hb => by cases hb⟩
    cases hnext : u.next with
    | none => simpa [LevelView.commit, hnext] using hu.curr
    | some b => simpa [LevelView.commit, hnext] using hu.next b (by simp [hnext])
  have hprepare : ∀ (u : LevelView β) (i : ℕ) (snap : β) (shadows : List β), u.All P → P snap →
      (u.prepare ops i currLedger snap shadows).All P := by
    intro u i snap shadows hu hsnap
    refine ⟨hu.curr, hu.snap, fun b hb => ?_⟩
    obtain rfl := Option.some.inj hb
    refine hmerge _ _ _ _ ?_ hsnap
    split
    · exact hempty
    · exact hu.curr
  cases i with
  | zero => exact hcommit _ (hprepare _ 0 _ [] (hspilled 0) hfresh)
  | succ i =>
    rw [batchView]
    split
    · exact hprepare _ _ _ _ (hcommit _ (hspilled (i + 1))) (h i).curr
    · exact hspilled (i + 1)

theorem fromLedgers_merge (getHash : Bucket → Hash) (x y : Bucket × Finset ℕ)
    (shadows : List (Bucket × Finset ℕ)) (keep : Bool) (hx : FromLedgers batches x)
    (hy : FromLedgers batches y) :
    FromLedgers batches ((traced (bucketOps getHash)).merge x y shadows keep) := by
  intro k e hlookup
  have hmerge := lookup_merge x.1 y.1 (shadows.map Prod.fst) keep k
  rw [show (((traced (bucketOps getHash)).merge x y shadows keep).1).lookup k
    = (x.1.merge y.1 (shadows.map Prod.fst) keep).lookup k from rfl, hmerge] at hlookup
  split_ifs at hlookup
  obtain ⟨hor, -⟩ := Option.filter_eq_some_iff.mp hlookup
  rcases Option.or_eq_some_iff.mp hor with hnew | ⟨-, hold⟩
  · obtain ⟨ledger, hmem, hlog⟩ := hy k e hnew
    exact ⟨ledger, Finset.mem_union_right _ hmem, hlog⟩
  · obtain ⟨ledger, hmem, hlog⟩ := hx k e hold
    exact ⟨ledger, Finset.mem_union_left _ hmem, hlog⟩

theorem fromLedgers_batchesView (getHash : Bucket → Hash) {v : ℕ → LevelView (Bucket × Finset ℕ)}
    {ledger : ℕ} (h : ∀ i, (v i).All (FromLedgers batches)) (bs : List ((ℕ → Bool) × Batch))
    (hrest : batches.drop ledger = bs.map Prod.snd) (hd : ∀ b ∈ batches, b.Distinct) :
    ∀ i, (batchesView (traced (bucketOps getHash)) v (ledger + 1)
      ((numbered (ledger + 1) bs).map Prod.snd) i).All (FromLedgers batches) := by
  induction bs generalizing ledger v with
  | nil => exact h
  | cons b bs ih =>
    have hlog : batches[ledger]? = some b.2 := by
      rw [← List.head?_drop, hrest]
      rfl
    have hdrop : batches.drop (ledger + 1) = bs.map Prod.snd := by
      rw [← List.drop_drop, hrest]
      rfl
    refine ih (batchView_all ?_ ?_ (fromLedgers_merge getHash) h) hdrop
    · intro k e hlookup
      cases hlookup
    · intro k e hlookup
      refine ⟨ledger + 1, Finset.mem_singleton_self _, ?_⟩
      have hfresh := lookup_fresh (hd b.2 (List.mem_of_getElem? hlog)) k
      rw [batchLog, hlog, Option.bind_some, ← hfresh]
      exact hlookup

/-- The ledgers of a bucket are those whose batches its entries come from. -/
theorem entries_fromLedgers (getHash : Bucket → Hash) (bs : List ((ℕ → Bool) × Batch))
    (hd : ∀ b ∈ bs.map Prod.snd, b.Distinct) :
    ∃ bl, addBatches (traced (bucketOps getHash)) (.new (traced (bucketOps getHash))) 1 (numbered 1 bs)
        = .ok bl ∧
      ∀ b ∈ bl.buckets kNumLevels, FromLedgers (bs.map Prod.snd) b := by
  have hnew : Shows (traced (bucketOps getHash)) (.new (traced (bucketOps getHash))) fun _ =>
    .new (traced (bucketOps getHash)) := shows_new
  obtain ⟨bl, hbl, hshows⟩ := addBatches_shows hnew Nat.one_pos (numbered 1 bs)
  have hempty : FromLedgers (bs.map Prod.snd) (traced (bucketOps getHash)).empty := fun k e h => by cases h
  have hfirst : ∀ i, LevelView.All (FromLedgers (bs.map Prod.snd))
      ((fun _ : ℕ => LevelView.new (traced (bucketOps getHash))) i) :=
    fun _ => ⟨hempty, hempty, fun b hb => by cases hb⟩
  have hall := fromLedgers_batchesView getHash hfirst bs List.drop_zero hd
  refine ⟨bl, hbl, fun b hb => ?_⟩
  obtain ⟨i, hi, hb⟩ := List.mem_flatMap.mp hb
  have hlevel := hshows.levels i (List.mem_range.mp hi)
  rw [hlevel.curr, hlevel.snap] at hb
  rcases List.mem_pair.mp hb with rfl | rfl
  · exact (hall i).curr
  · exact (hall i).snap

end Entries

end Merging

end ZaggCore.Buckets
