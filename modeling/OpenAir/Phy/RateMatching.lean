import Mathlib.Data.BitVec
import OpenAir.Lib.Circular

/-! Rate matching of one turbo-coded block: the sub-block interleaver, the bit selection of the
sender and the combining of the receiver. -/
namespace OpenAir.Phy

def lteNull : Nat := 2

def bitrev : List Nat :=
  [0, 16, 8, 24, 4, 20, 12, 28, 2, 18, 10, 26, 6, 22, 14, 30, 1, 17, 9, 25, 5, 21, 13, 29, 3, 19,
   11, 27, 7, 23, 15, 31]

/-- `RTC`, the rows of the interleaver for `d` columns' worth of bits. -/
def rtcOf (d : Nat) : Nat := if 0 < d &&& 31 then (d >>> 5) + 1 else d >>> 5

section Interleaver

variable {σ : Type} (visit : σ → Nat → Nat → σ)

/-- One column, top to bottom: position `k` of the output belongs to `index`. -/
def column : (rows k index : Nat) → σ → σ
  | 0, _, _, s => s
  | rows + 1, k, index, s => column rows (k + 1) (index + 32) (visit s k index)

def columns (rtc : Nat) : (heads : List Nat) → (k : Nat) → σ → σ
  | [], _, s => s
  | head :: rest, k, s => columns rtc rest (k + rtc) (column visit rtc k head s)

end Interleaver

/-- Writes the three streams of `d` to the buffer `w`; `d` reaches below 0 and is itself written at
one place. -/
def subBlockInterleavingTurbo (size : Nat) (d : Int → Nat) (w : Nat → Nat) :
    (Int → Nat) × (Nat → Nat) × Nat :=
  let rtc := rtcOf size
  let kpi := 32 * rtc
  let nd := kpi - size
  let d := Function.update d (3 * size + 2) (d 2)
  let store (w : Nat → Nat) (k index : Nat) : Nat → Nat :=
    let w := Function.update w k (d (3 * index - 3 * nd))
    let w := Function.update w (kpi + 2 * k) (d (3 * index - 3 * nd + 1))
    Function.update w (kpi + 1 + 2 * k) (d (3 * index - 3 * nd + 5))
  let w := columns store rtc bitrev 0 w
  (d, if 0 < nd then Function.update w (3 * kpi - 1) lteNull else w, rtc)

def subBlockDeinterleavingTurbo (size : Nat) (d : Int → BitVec 16) (w : Nat → BitVec 16) :
    Int → BitVec 16 :=
  let rtc := rtcOf size
  let kpi := 32 * rtc
  let nd := kpi - size
  let store (d : Int → BitVec 16) (k index : Nat) : Int → BitVec 16 :=
    let d := Function.update d (3 * index - 3 * nd) (w k)
    let d := Function.update d (3 * index - 3 * nd + 1) (w (kpi + 2 * k))
    Function.update d (3 * index - 3 * nd + 5) (w (kpi + 1 + 2 * k))
  columns store rtc bitrev 0 d

section Dummy

def markNull (condition : Prop) [Decidable condition] (ind : Nat) (w : Nat → Nat) : Nat → Nat :=
  if condition then Function.update w ind lteNull else w

/-- The null positions at the top of the columns; filler bits reach down to the third row. -/
def dummyColumns (rtc kpi nd f : Nat) : (heads : List Nat) → (k : Nat) → (Nat → Nat) → Nat → Nat
  | [], _, w => w
  | index :: rest, k, w =>
    let w := markNull (index < nd + f) (kpi + 2 * k) (markNull (index < nd + f) k w)
    let w := markNull (index + 32 < nd + f) (kpi + 2 + 2 * k)
      (markNull (index + 32 < nd + f) (k + 1) w)
    let w := markNull (index + 64 < nd + f) (kpi + 4 + 2 * k)
      (markNull (index + 64 < nd + f) (k + 2) w)
    let w := markNull (index + 1 < nd) (kpi + 1 + 2 * k) w
    dummyColumns rtc kpi nd f rest (k + rtc) w

def generateDummyW (size : Nat) (w : Nat → Nat) (f : Nat) : (Nat → Nat) × Nat :=
  let rtc := rtcOf size
  let kpi := 32 * rtc
  let nd := kpi - size
  let w := dummyColumns rtc kpi nd f bitrev 0 w
  (markNull (0 < nd) (3 * kpi - 1) w, rtc)

end Dummy

/-- The parameters that the sender and the receiver of a block share. -/
structure RateParams where
  g : Nat
  c : Nat
  nsoft : Nat
  mdlharq : Nat
  kmimo : Nat
  rvidx : Nat
  qm : Nat
  nl : Nat
  r : Nat
deriving DecidableEq

namespace RateParams

def ncb (p : RateParams) (rtc : Nat) : Nat :=
  if 0 < p.mdlharq then min (p.nsoft / p.kmimo / min 8 p.mdlharq / p.c) (3 * (32 * rtc))
    else 3 * (32 * rtc)

def e (p : RateParams) : Nat :=
  let gp := p.g / p.nl / p.qm
  if p.r < p.c - gp % p.c then p.nl * p.qm * (gp / p.c)
  else p.nl * p.qm * ((if gp % p.c = 0 then 0 else 1) + gp / p.c)

def start (p : RateParams) (rtc : Nat) : Nat :=
  rtc * (2 + p.rvidx * ((if p.ncb rtc % (8 * rtc) = 0 then 0 else 1) + p.ncb rtc / (8 * rtc)) * 2)

/-- No division by zero, and no assertion fails. -/
def Valid (p : RateParams) : Prop := 0 < p.kmimo ∧ 0 < p.c ∧ 0 < p.qm ∧ 0 < p.nl

instance (p : RateParams) : Decidable p.Valid := inferInstanceAs (Decidable (_ ∧ _))

end RateParams

inductive RateFailure where
  | invalid
  | endless
deriving DecidableEq

def orEndless {α : Type} : Option α → Except RateFailure α
  | none => .error .endless
  | some a => .ok a

/-- The sender stops for `Kmimo = 0` only where it divides by it. -/
def lteRateMatchingTurbo (rtc : Nat) (p : RateParams) (w e : Nat → Nat) :
    Except RateFailure ((Nat → Nat) × Nat) :=
  if p.mdlharq > 0 ∧ p.kmimo = 0 ∨ p.c = 0 ∨ p.qm = 0 ∨ p.nl = 0 then .error .invalid
  else do
    let e ← orEndless
      (Circular.scan (fun ind => w ind ≠ lteNull) (fun e k ind => Function.update e k (w ind)) p.e
      (p.ncb rtc) (p.start rtc) e)
    return (e, p.e)

/-- The soft values are added in 16 bits, without saturation. -/
def lteRateMatchingTurboRx (rtc : Nat) (p : RateParams) (w : Nat → BitVec 16) (dummyW : Nat → Nat)
    (softInput : Nat → BitVec 16) (clear : Bool) : Except RateFailure ((Nat → BitVec 16) × Nat) :=
  if p.kmimo = 0 ∨ p.c = 0 ∨ p.qm = 0 ∨ p.nl = 0 then .error .invalid
  else do
    let w := if clear then fun ind => if ind < p.ncb rtc then 0 else w ind else w
    let w ← orEndless (Circular.scan (fun ind => dummyW ind ≠ lteNull)
      (fun w k ind => Function.update w ind (w ind + softInput k)) p.e (p.ncb rtc) (p.start rtc) w)
    return (w, p.e)

section Bits

variable {p : RateParams} {rtc : Nat}

def bitPlace (rtc : Nat) (p : RateParams) (w : Nat → Nat) : Nat → Nat :=
  Circular.place (fun ind => w ind ≠ lteNull) (p.ncb rtc) (p.start rtc) p.e

theorem bitPlace_live {w : Nat → Nat} {ind k : Nat} (inside : ind < p.ncb rtc)
    (alive : w ind ≠ lteNull) (below : k < p.e) :
    bitPlace rtc p w k < p.ncb rtc ∧ w (bitPlace rtc p w k) ≠ lteNull := by
  obtain ⟨bound, live⟩ :=
    @Circular.place_live (fun ind => w ind ≠ lteNull) _ _ (p.start rtc) _ _ inside
    (decide_eq_true alive) below
  exact ⟨bound, of_decide_eq_true live⟩

theorem bitPlace_congr {w other : Nat → Nat}
    (same : ∀ ind < p.ncb rtc, w ind = lteNull ↔ other ind = lteNull) :
    bitPlace rtc p w = bitPlace rtc p other := by
  funext k
  rw [bitPlace, bitPlace, Circular.place, Circular.place,
    Circular.places_congr fun ind inside => decide_eq_decide.mpr (not_congr (same ind inside))]

theorem ncb_le (p : RateParams) (rtc : Nat) : p.ncb rtc ≤ 3 * (32 * rtc) := by
  rw [RateParams.ncb]
  split
  · exact Nat.min_le_right _ _
  · exact Nat.le_refl _

theorem lteRateMatchingTurbo_eq {w : Nat → Nat} {ind : Nat} (valid : p.Valid)
    (inside : ind < p.ncb rtc)
    (alive : w ind ≠ lteNull) (e : Nat → Nat) :
    lteRateMatchingTurbo rtc p w e =
    .ok (fun k => if k < p.e then w (bitPlace rtc p w k) else e k, p.e) := by
  obtain ⟨kmimo, c, qm, nl⟩ := valid
  rw [lteRateMatchingTurbo, if_neg (by omega), Circular.scan_eq inside (decide_eq_true alive)]
  apply congrArg Except.ok
  apply Prod.ext
  · funext k
    exact Circular.read_places inside (decide_eq_true alive) w e k
  · rfl

/-- Whatever `e` held before, the bits are the same, and nothing behind them is written. -/
theorem lteRateMatchingTurbo_uniform (rtc : Nat) (p : RateParams) (w : Nat → Nat) :
    ∃ outcome : Except RateFailure (Nat → Nat), ∀ e, lteRateMatchingTurbo rtc p w e =
      outcome.map fun bits => (fun k => if k < p.e then bits k else e k, p.e) := by
  by_cases invalid : p.mdlharq > 0 ∧ p.kmimo = 0 ∨ p.c = 0 ∨ p.qm = 0 ∨ p.nl = 0
  · exact ⟨.error .invalid, fun e => if_pos invalid⟩
  · by_cases live : ∃ ind < p.ncb rtc, w ind ≠ lteNull
    · obtain ⟨ind, inside, alive⟩ := live
      refine ⟨.ok fun k => w (bitPlace rtc p w k), fun e => ?_⟩
      rw [lteRateMatchingTurbo, if_neg invalid, Circular.scan_eq inside (decide_eq_true alive)]
      exact congrArg (fun bits => Except.ok (bits, p.e))
        (funext (Circular.read_places inside (decide_eq_true alive) w e))
    · have dead (ind : Nat) (inside : ind < p.ncb rtc) : decide (w ind ≠ lteNull) = false :=
        decide_eq_false fun alive => live ⟨ind, inside, alive⟩
      refine ⟨if p.e = 0 then .ok id else .error .endless, fun e => ?_⟩
      rw [lteRateMatchingTurbo, if_neg invalid, Circular.scan_dead dead]
      by_cases none : p.e = 0
      · rw [if_pos none, if_pos none]
        refine congrArg (fun bits => Except.ok (bits, p.e)) (funext fun k => (if_neg ?_).symm)
        rw [none]
        exact Nat.not_lt_zero k
      · rw [if_neg none, if_neg none]
        rfl

/-- A sum of 16-bit values is the sum of the integers they stand for, cut to 16 bits. -/
theorem ofInt_sum (count : Nat) (chosen : Nat → Prop) [DecidablePred chosen] (value : Nat → Int) :
    ∑ k ∈ Finset.range count, (if chosen k then BitVec.ofInt 16 (value k) else 0) =
      BitVec.ofInt 16 (∑ k ∈ Finset.range count, if chosen k then value k else 0) := by
  have wrapped := map_sum (Int.castRingHom (BitVec 16)) (fun k => if chosen k then value k else 0)
    (Finset.range count)
  refine Eq.trans (Finset.sum_congr rfl fun k _ => ?_) wrapped.symm
  split_ifs
  · rfl
  · exact (map_zero (Int.castRingHom (BitVec 16))).symm

/-- What a reception adds to place `i`. -/
def softSum (rtc : Nat) (p : RateParams) (dummyW : Nat → Nat) (softInput : Nat → BitVec 16)
    (i : Nat) : Int :=
  ∑ k ∈ Finset.range p.e, if bitPlace rtc p dummyW k = i then (softInput k).toInt else 0

theorem lteRateMatchingTurboRx_eq {dummyW : Nat → Nat} {ind : Nat} (valid : p.Valid)
    (inside : ind < p.ncb rtc)
    (alive : dummyW ind ≠ lteNull) (w softInput : Nat → BitVec 16) (clear : Bool) :
    lteRateMatchingTurboRx rtc p w dummyW softInput clear = .ok
      (fun i => (if clear ∧ i < p.ncb rtc then 0 else w i) + BitVec.ofInt 16
        (softSum rtc p dummyW softInput i), p.e) := by
  obtain ⟨kmimo, c, qm, nl⟩ := valid
  rw [lteRateMatchingTurboRx, if_neg (by omega)]
  dsimp only
  rw [Circular.scan_eq inside (decide_eq_true alive)]
  apply congrArg Except.ok
  apply Prod.ext
  · funext i
    refine (Circular.add_places inside (decide_eq_true alive) softInput _ i).trans ?_
    simp only [softSum, ← ofInt_sum, BitVec.ofInt_toInt]
    congr 1
    cases clear with
    | true => simp only [true_and, if_true]
    | false => simp only [Bool.false_eq_true, false_and, if_false]
  · rfl

end Bits

end OpenAir.Phy
