import ZaggCore.Foundations.BitMasks

/-! # Bitset enumerators

The model of `util/BitsetEnumerator.cpp`. The enumerators that a selection picks from, and those of its
current product, are the same objects: each inner enumerator is stored once, with a flag that says
whether the current product has it. -/

namespace ZaggCore.Util
open Foundations
set_option autoImplicit false
set_option maxHeartbeats 250000

abbrev Bitset := BitVec 64

mutual

inductive BitsetEnumerator where
  | constant (mBits : Bitset) (mDone : Bool)
  | permutation (mCur : BitVec 64) (mSet mTot : ℕ)
  | powerset (mCur mLim : BitVec 64)
  | cartesianProduct (mInnerEnums : InnerEnums)
  | selection (mInnerEnums : InnerEnums) (mIndexEnum : BitsetEnumerator)

inductive InnerEnums where
  | nil
  | cons (inProduct : Bool) (e : BitsetEnumerator) (rest : InnerEnums)

end

/-- The loop that sets the lowest `nSet` bits. -/
def lowBits : ℕ → BitVec 64
  | 0 => 0
  | nSet + 1 => lowBits nSet <<< 1 ||| 1

def uneg (n : BitVec 64) : BitVec 64 := ~~~n + 1

/-- `PermutationEnumerator::operator++`. -/
def nextPermutation (mCur : BitVec 64) : BitVec 64 :=
  let t := (mCur ||| (mCur - 1)) + 1
  t ||| ((((t &&& uneg t) / (mCur &&& uneg mCur)) >>> 1) - 1)

mutual

/-- `operator bool`. -/
def BitsetEnumerator.alive : BitsetEnumerator → Bool
  | .constant _ mDone => !mDone
  | .permutation mCur _ mTot => mCur &&& ~~~((1#64 <<< mTot) - 1) == 0
  | .powerset mCur mLim => mCur < mLim
  | .cartesianProduct mInnerEnums => mInnerEnums.alive
  | .selection mInnerEnums mIndexEnum => mInnerEnums.alive || mIndexEnum.alive

def InnerEnums.alive : InnerEnums → Bool
  | .nil => false
  | .cons inProduct e rest => (inProduct && e.alive) || rest.alive

end

mutual

/-- `operator*`. -/
def BitsetEnumerator.deref : BitsetEnumerator → Bitset
  | .constant mBits _ => mBits
  | .permutation mCur _ _ => mCur
  | .powerset mCur _ => mCur
  | .cartesianProduct mInnerEnums => mInnerEnums.deref
  | .selection mInnerEnums _ => mInnerEnums.deref

def InnerEnums.deref : InnerEnums → Bitset
  | .nil => 0
  | .cons inProduct e rest => (if inProduct then e.deref else 0) ||| rest.deref

end

mutual

def BitsetEnumerator.reset : BitsetEnumerator → BitsetEnumerator
  | .constant mBits _ => .constant mBits false
  | .permutation _ mSet mTot => .permutation (lowBits mSet) mSet mTot
  | .powerset _ mLim => .powerset 1 mLim
  | .cartesianProduct mInnerEnums => .cartesianProduct mInnerEnums.reset
  | .selection mInnerEnums mIndexEnum =>
    .selection (mInnerEnums.select mIndexEnum.reset.deref 0) mIndexEnum.reset

/-- Reset the enumerators of the product. -/
def InnerEnums.reset : InnerEnums → InnerEnums
  | .nil => .nil
  | .cons inProduct e rest => .cons inProduct (if inProduct then e.reset else e) rest.reset

/-- `SelectionEnumerator::select`, from the enumerator number `i` on; the product's constructor resets
those it is given. -/
def InnerEnums.select (bits : Bitset) : ℕ → InnerEnums → InnerEnums
  | _, .nil => .nil
  | i, .cons _ e rest =>
    .cons (bits.getLsbD i) (if bits.getLsbD i then e.reset else e) (rest.select bits (i + 1))

end

mutual

/-- `operator++`. -/
def BitsetEnumerator.next : BitsetEnumerator → BitsetEnumerator
  | .constant mBits _ => .constant mBits true
  | .permutation mCur mSet mTot => .permutation (nextPermutation mCur) mSet mTot
  | .powerset mCur mLim => .powerset (mCur + 1) mLim
  | .cartesianProduct mInnerEnums => .cartesianProduct mInnerEnums.next
  | .selection mInnerEnums mIndexEnum =>
    let mProduct := if mInnerEnums.alive then mInnerEnums.next else mInnerEnums
    if mProduct.alive then .selection mProduct mIndexEnum
    else if mIndexEnum.next.alive then
      .selection (mProduct.select mIndexEnum.next.deref 0) mIndexEnum.next
    else .selection mProduct mIndexEnum.next

/-- The outer loop. A carry that fails leaves every later enumerator of the product exhausted, and the
rest of the loop passes over those. -/
def InnerEnums.next : InnerEnums → InnerEnums
  | .nil => .nil
  | .cons inProduct curr rest =>
    if !(inProduct && curr.alive) then .cons inProduct curr rest.next
    else if curr.next.alive then .cons inProduct curr.next rest
    else
      match rest.carry with
      -- the loop over `reset` resets `mInnerEnums[i]`, whatever `reset` is
      | (rest', true) => .cons inProduct curr.next.reset rest'
      | (rest', false) => .cons inProduct curr.next rest'

/-- The loop over `carry`. -/
def InnerEnums.carry : InnerEnums → InnerEnums × Bool
  | .nil => (.nil, false)
  | .cons inProduct next rest =>
    if !inProduct then (.cons inProduct next rest.carry.1, rest.carry.2)
    else if next.next.alive then (.cons inProduct next.next rest, true)
    else (.cons inProduct next.next rest.carry.1, rest.carry.2)

end

def bitNumber (n : ℕ) : BitsetEnumerator := .constant (BitVec.twoPow 64 n) false

def newPermutation (nSet nTotal : ℕ) : BitsetEnumerator := .permutation (lowBits nSet) nSet nTotal

def newPowerset (nBits : ℕ) : BitsetEnumerator := .powerset 1 (1 <<< nBits)

/-- All of the enumerators, in the product. -/
def InnerEnums.ofList : List BitsetEnumerator → InnerEnums
  | [] => .nil
  | e :: es => .cons true e (ofList es)

def InnerEnums.resetAll : InnerEnums → InnerEnums
  | .nil => .nil
  | .cons inProduct e rest => .cons inProduct e.reset rest.resetAll

def newCartesianProduct (innerEnums : List BitsetEnumerator) : BitsetEnumerator :=
  .cartesianProduct (InnerEnums.ofList innerEnums).reset

def newSelection (index : BitsetEnumerator) (innerEnums : List BitsetEnumerator) : BitsetEnumerator :=
  .selection ((InnerEnums.ofList innerEnums).select index.deref 0).resetAll index

end ZaggCore.Util
