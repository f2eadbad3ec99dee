import Mathlib.Data.Rat.Floor
import OpenAir.Mac.Cce
import OpenAir.Mac.UlGrant

/-! Fair round robin of the uplink: what `ulsch_scheduler_pre_processor_fairRR` makes of the
selection list of a carrier. A UE is in one entry of the list at most, so an entry carries what the
loops read of its UE. -/
namespace OpenAir.Mac.FairRR
open OpenAir.Mac.Cce (Bandwidth)

/-- The uplink members of `SCH_UE_PRIORITY`. -/
inductive Priority where
  | prach | msg3 | retrans | first | inactive
deriving DecidableEq

structure UlschUeInfo where
  uePriority : Priority
  startRb : Nat
  nbRb : Nat
  ulTotalBuffer : Nat
  estimatedUlBuffer : Int
  scheduledUlBytes : Int
  phrReceived : Bool
  phrInfo : Int

/-- `bytes_to_schedule`, zero where it would be negative. -/
def UlschUeInfo.bytesToSchedule (ue : UlschUeInfo) : Nat :=
  (ue.estimatedUlBuffer - ue.scheduledUlBytes).toNat

def UlschUeInfo.firstMcs (ue : UlschUeInfo) : Nat := if ue.phrReceived then 20 else 10

structure Carrier where
  tdd : Bool
  bandwidth : Bandwidth
  table : TbsTable
  /-- `estimate_ue_tx_power` of a number of bits in a number of resource blocks. -/
  estimateUeTxPower : Nat → Nat → Int

def Carrier.nRbUl (c : Carrier) : Nat := c.bandwidth.toPrb

def Carrier.numPucchRb (c : Carrier) : Nat :=
  if c.tdd then
    if c.nRbUl = 25 then 1 else if c.nRbUl = 50 then 2 else 3
  else if c.nRbUl = 25 then 1 else 2

/-- The first resource block of the upper PUCCH region. -/
def Carrier.lastRb (c : Carrier) : Nat := c.nRbUl - c.numPucchRb

/-- `round`, of a quotient that is not negative; without a value for a divisor of zero. -/
def roundedQuotient (total count : Nat) : Option Nat :=
  if count = 0 then none else some ((2 * total + count) / (2 * count))

/-- `find_rb_table_index`; its value before the table is 255. -/
def findRbTableIndex (averageRbs : Nat) : Nat :=
  match rbTable.findIdx? (averageRbs < ·) with
  | some i => (i + 255) % 256
  | none => 34

/-- The loop that goes up in the table as long as the blocks are left; `none` outside of the
table. -/
def passSmaller (totalRbs : Nat) : List Nat → Nat → Option Nat
  | [], _ => none
  | nbRb :: rest, index => if nbRb ≤ totalRbs then passSmaller totalRbs rest (index + 1)
      else some index

/-- The resource blocks of a retransmission that had `nbRb`. -/
def retransmittedRbs (totalRbs averageRbs nbRb : Nat) : Option Nat :=
  if nbRb ≤ averageRbs then some nbRb
  else if nbRb ≤ totalRbs then some nbRb
  else do
    let index ← passSmaller totalRbs (rbTable.drop 2) 2
    rbTable[index - 1]?

/-- The transmission power of a block with an MCS, and what it leaves of the reported headroom. -/
def Carrier.headroom (c : Carrier) (ue : UlschUeInfo) (mcs nbRb : Nat) : Int :=
  ue.phrInfo - c.estimateUeTxPower (getTbsUl c.table mcs nbRb * 8) nbRb

/-- The loop that lowers the MCS in three resource blocks. -/
def Carrier.lowerMcs (c : Carrier) (ue : UlschUeInfo) : Nat → Nat
  | 0 => 0
  | mcs + 1 =>
    if (c.headroom ue (mcs + 1) (rbOf 2) < 0 ∨ ue.bytesToSchedule <
        getTbsUl c.table (mcs + 1) (rbOf 2)) ∧ 3 < mcs + 1 then
      c.lowerMcs ue mcs
    else mcs + 1

/-- The loop that goes up in the table with that MCS. -/
def Carrier.widen (c : Carrier) (ue : UlschUeInfo) (mcs remaining : Nat) : Nat → Nat → Nat →
    Int → Option Nat
  | 0, _, _, _ => none
  | fuel + 1, index, tbs, txPower => do
    let nbRb ← rbTable[index]?
    if tbs < ue.bytesToSchedule ∧ nbRb < remaining ∧ 0 < ue.phrInfo - txPower ∧ index < 32 then
      let nbRb ← rbTable[index + 1]?
      -- in bits from here on, against a number of bytes
      let tbs := getTbsUl c.table mcs nbRb <<< 3
      c.widen ue mcs remaining fuel (index + 1) tbs (c.estimateUeTxPower tbs nbRb)
    else some index

/-- `pre_allocated_rb_table_index_ul` and `pre_assigned_mcs_ul` -/
structure PreAllocated where
  rbTableIndex : Nat
  mcs : Nat
deriving DecidableEq

/-- The resource blocks of an entry; with what is stored for a UE that sends something new. -/
structure Assignment where
  range : RbRange
  preAllocated : Option PreAllocated
deriving DecidableEq

/-- A first transmission with something in its buffer; the inner `none` where the carrier is
left. -/
def Carrier.bufferedRbs (c : Carrier) (ue : UlschUeInfo) (firstRb averageRbs : Nat) :
    Option (Option Assignment) := do
  let mcs := c.lowerMcs ue ue.firstMcs
  let tbs := getTbsUl c.table mcs (rbOf 2)
  let index ← c.widen ue mcs (c.lastRb - firstRb) 31 2 tbs (c.estimateUeTxPower (tbs * 8) (rbOf 2))
  let nbRb ← rbTable[index]?
  let index := if nbRb < 3 then 2 else index
  let nbRb ← rbTable[index]?
  if nbRb ≤ averageRbs then some (some ⟨⟨firstRb, nbRb⟩, some ⟨index, mcs⟩⟩)
  else
    let index := findRbTableIndex averageRbs
    if 34 ≤ index then some none
    else do
      let nbRb ← rbTable[index]?
      some (some ⟨⟨firstRb, nbRb⟩, some ⟨index, mcs⟩⟩)

def threeRbs (firstRb : Nat) : Assignment := ⟨⟨firstRb, 3⟩, some ⟨2, 10⟩⟩

structure Walk where
  ulschUeNum : Nat
  ueNum : Nat
  ueNumTemp : Nat
  firstRb : Nat
  assigned : List Assignment

/-- Decrement of a `uint8_t`. -/
def pred8 (n : Nat) : Nat := (n + 255) % 256

/-- The next entry, behind resource blocks that are not assigned here. -/
def Walk.reserve (w : Walk) (firstRb : Nat) : Walk :=
  { w with ulschUeNum := w.ulschUeNum + 1, ueNumTemp := pred8 w.ueNumTemp, firstRb }

/-- The same entry again, in a list that is one shorter. -/
def Walk.shorten (w : Walk) : Walk :=
  { w with ueNum := pred8 w.ueNum, ueNumTemp := pred8 w.ueNumTemp }

def Walk.assign (w : Walk) (a : Assignment) : Walk :=
  { w with
    ulschUeNum := w.ulschUeNum + 1
    ueNumTemp := pred8 w.ueNumTemp
    firstRb := w.firstRb + a.range.count
    assigned := w.assigned ++ [a] }

/-- How a pass of the loop over the list ends. -/
inductive Outcome where
  | next (w : Walk)
  | leave

/-- An entry that shares the remaining resource blocks: `rule` makes its assignment of the total and
the average. -/
def Carrier.share (c : Carrier) (w : Walk) (rule : Nat → Nat → Option (Option Assignment)) :
    Option Outcome :=
  if c.lastRb ≤ w.firstRb then some .leave
  else do
    let totalRbs := (c.lastRb - w.firstRb) % 256
    let averageRbs := (← roundedQuotient totalRbs w.ueNumTemp) % 256
    if averageRbs < 3 then some (.next w.shorten)
    else
      match ← rule totalRbs averageRbs with
      | some a => some (.next (w.assign a))
      | none => some .leave

/-- A pass of the loop over the list; `none` where it divides by zero or leaves an array. -/
def Carrier.turn (c : Carrier) (list : List UlschUeInfo) (w : Walk) : Option Outcome := do
  let ue ← list[w.ulschUeNum]?
  match ue.uePriority with
  | .msg3 => some (.next (w.reserve (w.firstRb + 1)))
  | .prach => some (.next (w.reserve (ue.startRb + ue.nbRb)))
  | .retrans => c.share w fun totalRbs averageRbs => do
      let nbRb ← retransmittedRbs totalRbs averageRbs ue.nbRb
      some (some ⟨⟨w.firstRb, nbRb⟩, none⟩)
  | .first => c.share w fun _ averageRbs =>
      if 0 < ue.ulTotalBuffer then c.bufferedRbs ue w.firstRb averageRbs
        else some (some (threeRbs w.firstRb))
  | .inactive => c.share w fun _ _ => some (some (threeRbs w.firstRb))

/-- The loop over the list; `none` also when it does not end with the fuel. -/
def Carrier.loop (c : Carrier) (list : List UlschUeInfo) : Nat → Walk → Option Walk
  | 0, _ => none
  | fuel + 1, w =>
    if w.ulschUeNum < w.ueNum then do
      match ← c.turn list w with
      | .next w => c.loop list fuel w
      | .leave => some w
    else some w

def Carrier.start (c : Carrier) (list : List UlschUeInfo) : Walk :=
  ⟨0, list.length, list.length, c.numPucchRb, []⟩

def Carrier.preProcess (c : Carrier) (list : List UlschUeInfo) (fuel : Nat) : Option Walk :=
  c.loop list fuel (c.start list)

end OpenAir.Mac.FairRR
