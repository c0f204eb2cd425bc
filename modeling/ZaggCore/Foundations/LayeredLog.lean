import Mathlib

/-! # Layered summaries of a log of batches

A log gives every batch number a partial map from keys to entries. A store that keeps the log in
layers, newest layer first, answers a read with the first hit. A layer stands for a range of batches,
and it owes an answer only for the keys that no batch after its range mentions: it may keep a stale
entry of a key, or none, once a newer batch has one. This slack is what lets a compaction drop the
entries that newer layers shadow. The oldest layer may moreover forget the entries that say nothing
(`keep` is false on them). -/

namespace ZaggCore.LayeredLog
set_option autoImplicit false
set_option maxHeartbeats 250000

variable {κ β : Type*}

/-- The newest entry that the batches of `[lo, hi)` have for a key. -/
def latest (log : ℕ → κ → Option β) (lo : ℕ) : ℕ → κ → Option β
  | 0, _ => none
  | n + 1, k => if lo ≤ n then (log n k).or (latest log lo n k) else none

/-- No batch of `[hi, now)` has an entry for the key. -/
def Untouched (log : ℕ → κ → Option β) (hi now : ℕ) (k : κ) : Prop :=
  ∀ m, hi ≤ m → m < now → log m k = none

/-- The layer `b` stands for the batches of `[lo, hi)` when the log has `now` batches. -/
def Summarizes (log : ℕ → κ → Option β) (now : ℕ) (keep : β → Bool) (lo hi : ℕ) (b : κ → Option β) :
    Prop :=
  ∀ k, Untouched log hi now k → b k = (latest log lo hi k).filter keep

/-- The keep-everything predicate of the layers that forget nothing. -/
def keepAll : β → Bool := fun _ => true

@[simp] theorem filter_keepAll (o : Option β) : o.filter keepAll = o := by
  cases o <;> rfl

section Latest

variable (log : ℕ → κ → Option β)

@[simp] theorem latest_empty (lo : ℕ) (k : κ) : latest log lo lo k = none := by
  cases lo with
  | zero => rfl
  | succ n => simp [latest]

theorem latest_succ {lo n : ℕ} (h : lo ≤ n) (k : κ) :
    latest log lo (n + 1) k = (log n k).or (latest log lo n k) := by
  rw [latest, if_pos h]

theorem latest_eq_none_iff {lo hi : ℕ} (h : lo ≤ hi) (k : κ) :
    latest log lo hi k = none ↔ ∀ m, lo ≤ m → m < hi → log m k = none := by
  induction hi, h using Nat.le_induction with
  | base => simpa using fun m h1 h2 => absurd h2 (by omega)
  | succ n hn ih =>
    rw [latest_succ log hn, Option.or_eq_none_iff, ih]
    constructor
    · rintro ⟨hlast, hrest⟩ m hlo hm
      rcases Nat.lt_succ_iff_lt_or_eq.mp hm with hm | rfl
      · exact hrest m hlo hm
      · exact hlast
    · intro hall
      exact ⟨hall n hn (by omega), fun m hlo hm => hall m hlo (by omega)⟩

/-- A range of batches splits at any batch, and the newer part answers first. -/
theorem latest_split {lo mid hi : ℕ} (h₁ : lo ≤ mid) (h₂ : mid ≤ hi) (k : κ) :
    latest log lo hi k = (latest log mid hi k).or (latest log lo mid k) := by
  induction hi, h₂ using Nat.le_induction with
  | base => simp
  | succ n hn ih => rw [latest_succ log hn, latest_succ log (h₁.trans hn), ih, Option.or_assoc]

theorem untouched_of_latest {mid hi now : ℕ} (h : mid ≤ hi) {k : κ} (hu : Untouched log hi now k)
    (hl : latest log mid hi k = none) : Untouched log mid now k := by
  intro m hm hnow
  rcases lt_or_ge m hi with hlt | hge
  · exact (latest_eq_none_iff log h k).mp hl m hm hlt
  · exact hu m hge hnow

end Latest

section Summaries

variable {log : ℕ → κ → Option β} {now : ℕ} {keep : β → Bool}

theorem Summarizes.mono {lo hi now' : ℕ} {b : κ → Option β} (h : Summarizes log now keep lo hi b)
    (hnow : now ≤ now') : Summarizes log now' keep lo hi b :=
  fun k hu => h k fun m hm hlt => hu m hm (by omega)

/-- An empty layer stands for an empty range. -/
theorem summarizes_empty (lo : ℕ) : Summarizes log now keep lo lo fun _ => none := by
  intro k _
  simp

/-- A layer mentions only keys that some batch from its range on mentions. -/
theorem Summarizes.eq_none {lo hi : ℕ} {b : κ → Option β} (h : Summarizes log now keep lo hi b)
    (hle : lo ≤ hi) {k : κ} (hu : Untouched log lo now k) (hnow : hi ≤ now) : b k = none := by
  rw [h k fun m hm hlt => hu m (by omega) hlt,
    (latest_eq_none_iff log hle k).mpr fun m h1 h2 => hu m h1 (by omega)]
  rfl

/-- Merging a newer layer over the adjacent older one, leaving out the keys that newer layers shadow
and the entries that need not be kept, summarizes the joined range. -/
theorem Summarizes.merge {lo mid hi : ℕ} {old new out : κ → Option β} (shadowed : κ → Prop)
    (h₁ : lo ≤ mid) (h₂ : mid ≤ hi)
    (hold : Summarizes log now keep lo mid old) (hnew : Summarizes log now keepAll mid hi new)
    (hshadow : ∀ k, Untouched log hi now k → ¬ shadowed k)
    (hout : ∀ k, ¬ shadowed k → out k = ((new k).or (old k)).filter keep) :
    Summarizes log now keep lo hi out := by
  intro k hu
  have hn : new k = latest log mid hi k := by simpa using hnew k hu
  rw [hout k (hshadow k hu), hn, latest_split log h₁ h₂]
  cases hl : latest log mid hi k with
  | some e => simp
  | none =>
    have ho := hold k (untouched_of_latest log h₂ hu hl)
    simp [ho, Option.filter_filter]

end Summaries

/-! ## Reading the layers, newest first -/

/-- The answer of the first layer that has one. -/
def firstHit : List (κ → Option β) → κ → Option β
  | [], _ => none
  | b :: layers, k => (b k).or (firstHit layers k)

theorem firstHit_eq_none {layers : List (κ → Option β)} {k : κ} (h : ∀ b ∈ layers, b k = none) :
    firstHit layers k = none := by
  induction layers with
  | nil => rfl
  | cons b layers ih =>
    rw [firstHit, h b List.mem_cons_self, Option.none_or]
    exact ih fun b' hb' => h b' (List.mem_cons_of_mem _ hb')

theorem firstHit_map {γ : Type*} (f : γ → κ → Option β) (l : List γ) (k : κ) :
    firstHit (l.map f) k = l.findSome? fun b => f b k := by
  induction l with
  | nil => rfl
  | cons b l ih =>
    rw [List.map_cons, firstHit, ih, List.findSome?_cons]
    cases f b k <;> rfl

/-- The layers stand for adjacent ranges from `hi` down to `bottom`; a layer that forgets entries has
only empty layers under it. -/
def Tiled (log : ℕ → κ → Option β) (now : ℕ) (keep : β → Bool) (bottom : ℕ) :
    ℕ → List (κ → Option β) → Prop
  | hi, [] => hi = bottom
  | hi, b :: layers => ∃ lo, lo ≤ hi ∧ bottom ≤ lo ∧
      (Summarizes log now keepAll lo hi b ∧ Tiled log now keep bottom lo layers ∨
        lo = bottom ∧ Summarizes log now keep lo hi b ∧ ∀ b' ∈ layers, ∀ k, b' k = none)

/-- A read of tiled layers finds the newest entry of the log, or nothing where that entry need not be
kept. -/
theorem firstHit_of_tiled {log : ℕ → κ → Option β} {now bottom : ℕ} {keep : β → Bool} {k : κ}
    {layers : List (κ → Option β)} {hi : ℕ} (h : Tiled log now keep bottom hi layers)
    (hu : Untouched log hi now k) :
    firstHit layers k = latest log bottom hi k ∨
      firstHit layers k = none ∧ (latest log bottom hi k).filter keep = none := by
  induction layers generalizing hi with
  | nil =>
    obtain rfl : hi = bottom := h
    simp [firstHit]
  | cons b layers ih =>
    obtain ⟨lo, hlo, hbot, ⟨hb, hrest⟩ | ⟨rfl, hb, hempty⟩⟩ := h
    · have hbk : b k = latest log lo hi k := by simpa using hb k hu
      rw [firstHit, hbk, latest_split log hbot hlo]
      cases hl : latest log lo hi k with
      | some e => simp
      | none => simpa using ih hrest (untouched_of_latest log hlo hu hl)
    · rw [firstHit, hb k hu, firstHit_eq_none fun b' hb' => hempty b' hb' k, Option.or_none]
      cases hl : latest log lo hi k with
      | none => simp
      | some e => by_cases hk : keep e <;> simp [hk]

end ZaggCore.LayeredLog
