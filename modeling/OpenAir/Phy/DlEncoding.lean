import OpenAir.Lib.Interleave
import OpenAir.Phy.CodeBlocks
import OpenAir.Phy.RateInverse

/-! Downlink encoding of a transport block by one thread, and by a main thread with workers. -/
namespace OpenAir.Phy
open BitField (Memory)
open Interleave (Interleaves opsAt)

inductive MimoMode where
  | siso
  | alamouti
  | largeCdd
  | uniformPrecoding11
  | uniformPrecoding1m1
  | uniformPrecoding1j
  | uniformPrecoding1mj
  | puschPrecoding0
  | puschPrecoding1
  | dualstreamUniformPrecoding1
  | dualstreamUniformPrecodingj
  | dualstreamPuschPrecoding
  | tm7
  | tm8
  | tm9_10
deriving DecidableEq

/-- What the encoder is told about the transmission. -/
structure DlParams where
  harqPid : Nat
  round : Nat
  tbs : Nat
  qm : Nat
  nl : Nat
  rvidx : Nat
  mimoMode : MimoMode
  nsoft : Nat
  mdlharq : Nat
  kmimo : Nat
deriving DecidableEq

/-- The buffers that the operations on code blocks write. -/
structure Coding where
  d : Nat → Int → Nat
  w : Nat → Nat → Nat
  rtc : Nat → Nat
  e : Nat → Nat

/-- A HARQ process: the transport block with its checksum, its segments, and their coding. -/
structure DlHarq where
  b : Memory
  seg : Segments
  c : Nat → Memory
  coding : Coding

section Crc

def poly24a : UInt32 := 0x864cfb00

/-- `crc24aTable`, as it was generated. -/
def crc24aTable (c : UInt8) : UInt32 := crcBits poly24a 8 (c.toUInt32 <<< 24) 0

def crc24aOctets (block : Memory) : Nat → Nat → UInt32 → UInt32
  | 0, _, crc => crc
  | n + 1, i, crc =>
    crc24aOctets block n (i + 1) ((crc <<< 8) ^^^ crc24aTable (block i ^^^ (crc >>> 24).toUInt8))

def crc24a (block : Memory) (bitlen : Nat) : UInt32 :=
  let crc := crc24aOctets block (bitlen / 8) 0 0
  let resbit := bitlen % 8
  if 0 < resbit then
    (crc <<< resbit.toUInt32) ^^^
      crc24aTable ((block (bitlen / 8) >>> (8 - resbit).toUInt8) ^^^
        (crc >>> (32 - resbit).toUInt32).toUInt8)
  else crc

def attachCrc (a : Memory) (tbs : Nat) : Memory :=
  let crc := crc24a a tbs >>> 8
  let a := Function.update a (tbs >>> 3) (crc >>> 16).toUInt8
  let a := Function.update a (1 + tbs >>> 3) (crc >>> 8).toUInt8
  Function.update a (2 + tbs >>> 3) crc.toUInt8

end Crc

def newPacket (tbs : Nat) (a : Memory) (h : DlHarq) : Option DlHarq :=
  let b := memcpy h.b 0 (attachCrc a tbs) 0 (tbs / 8 + 4)
  match lteSegmentation (tbs + 24) with
  | none => none
  | some seg => some { h with b := b, seg := seg, c := codeBlocks seg (crcSize (tbs + 24)) b h.c }

/-- What comes before the work on the code blocks, in both variants; no value where they return
-1. -/
def handOver (par : DlParams) (a : Memory) (h : DlHarq) : Option DlHarq :=
  if par.mdlharq ≤ par.harqPid then none
  else if par.round = 0 then newPacket par.tbs a h
  else some h

inductive Part where
  | encode (r : Nat)
  | interleave (r : Nat)
  | rateMatch (r offset : Nat)
deriving DecidableEq

def Part.block : Part → Nat
  | .encode r => r
  | .interleave r => r
  | .rateMatch r _ => r

section Parts

variable (encoder : Memory → Nat → (Int → Nat) → Nat → Int → Nat) (par : DlParams) (seg : Segments)
    (c : Nat → Memory) (g : Nat)

def rateParams (r : Nat) : RateParams where
  g := g
  c := seg.c
  nsoft := par.nsoft
  mdlharq := par.mdlharq
  kmimo := par.kmimo
  rvidx := par.rvidx
  qm := par.qm
  nl := par.nl
  r := r

def partStep (s : Coding) : Part → Option Coding
  | .encode r =>
    some { s with d := Function.update s.d r (encoder (c r) (seg.size r >>> 3) (s.d r)
      (if r = 0 then seg.f else 0)) }
  | .interleave r =>
    let (d, w, rtc) := subBlockInterleavingTurbo (4 + (seg.size r >>> 3) * 8) (s.d r) (s.w r)
    some { s with
      d := Function.update s.d r d
      w := Function.update s.w r w
      rtc := Function.update s.rtc r rtc }
  | .rateMatch r offset =>
    match lteRateMatchingTurbo (s.rtc r) (rateParams par seg g r) (s.w r)
        (fun k => s.e (offset + k)) with
    | .error _ => none
    | .ok (e, _) => some { s with e := fun j => if offset ≤ j then e (j - offset) else s.e j }

/-- The length of a code block that another thread rate-matches. -/
def skippedLength (r : Nat) : Nat :=
  let gp := g / par.nl / par.qm
  let gpModC := gp % seg.c
  if r < seg.c - gpModC then par.nl * par.qm * (gp / seg.c)
  else par.nl * par.qm * ((if gpModC = 0 then 0 else 1) + gp / seg.c)

def encodeLoop (first count : Nat) : List Part :=
  (List.range' first count).flatMap fun r => [.encode r, .interleave r]

/-- The loop over all code blocks up to a bound, which only counts those before `first`; with the
final `r_offset`. -/
def matchLoop (first : Nat) : (left r offset : Nat) → List Part × Nat
  | 0, _, offset => ([], offset)
  | left + 1, r, offset =>
    if r < first then matchLoop first left (r + 1) (offset + skippedLength par seg g r)
    else
      let (parts, last) := matchLoop first left (r + 1) (offset + (rateParams par seg g r).e)
      (.rateMatch r offset :: parts, last)

/-- The work of one thread: code blocks from `first` up to `bound`. -/
def shareOf (first bound : Nat) : List Part :=
  (if par.round = 0 then encodeLoop first (bound - first) else []) ++
    (matchLoop par seg g first bound 0 0).1

def dlschEncoding2threads0 (totalWorker currentWorker : Nat) : List Part :=
  shareOf par seg g (seg.c / (totalWorker + 1) * currentWorker)
    (seg.c / (totalWorker + 1) * (currentWorker + 1))

/-- How often the main thread raises the instance counter of a worker: for a retransmission it only
signals. -/
def raises : Nat := if par.round = 0 then 1 else 0

/-- The workers, which run once for each raise, and the main thread after them. -/
def program (workerNum thread : Nat) : List Part :=
  if thread < workerNum then
    (List.replicate (raises par) (dlschEncoding2threads0 par seg g workerNum thread)).flatten
  else if thread = workerNum then shareOf par seg g (seg.c / (workerNum + 1) * workerNum) seg.c
  else []

/-- The entries of `e` up to the `r_offset` of the thread whose code blocks start at `first`. -/
def sequenceOf (first : Nat) (s : Coding) : List Nat :=
  (List.range (matchLoop par seg g first seg.c 0 0).2).map s.e

end Parts

/-- `beamforming_mode` of the single-threaded encoder. -/
def beamformingMode : MimoMode → Nat
  | .tm7 => 7
  | .tm8 => 8
  | .tm9_10 => 9
  | _ => 0

/-- The last argument of `get_G` in the variant with workers. -/
def beamformingMode2threads (mode : MimoMode) : Nat := if mode = .tm7 then 7 else 0

section Encoders

variable (encoder : Memory → Nat → (Int → Nat) → Nat → Int → Nat) (getG : Nat → Nat)
    (par : DlParams) (a : Memory) (h : DlHarq)

def dlschEncoding : Option (List Nat) :=
  (handOver par a h).bind fun h =>
    let g := getG (beamformingMode par.mimoMode)
    (Run.run (partStep encoder par h.seg h.c g) h.coding (shareOf par h.seg g 0 h.seg.c)).map
      (sequenceOf par h.seg g 0)

/-- The same for the order in which the threads happen to do their parts. -/
def dlschEncoding2threads (workerNum : Nat) (order : List Part) : Option (List Nat) :=
  (handOver par a h).bind fun h =>
    let g := getG (beamformingMode2threads par.mimoMode)
    (Run.run (partStep encoder par h.seg h.c g) h.coding order).map
      (sequenceOf par h.seg g (h.seg.c / (workerNum + 1) * workerNum))

def Ordered (workerNum : Nat) (order : List Part) : Prop :=
  ∀ prepared, handOver par a h = some prepared →
    Interleaves (program par prepared.seg (getG (beamformingMode2threads par.mimoMode)) workerNum)
      order

end Encoders

section Loops

variable {par : DlParams} {seg : Segments} {g : Nat}

def bitOffset (par : DlParams) (seg : Segments) (g : Nat) : Nat → Nat
  | 0 => 0
  | r + 1 => bitOffset par seg g r + (rateParams par seg g r).e

theorem bitOffset_le {r s : Nat} (ordered : r ≤ s) :
    bitOffset par seg g r ≤ bitOffset par seg g s := by
  induction ordered with
  | refl => exact Nat.le_refl _
  | step _ ih => exact Nat.le_trans ih (Nat.le_add_right _ _)

theorem exists_block {c j : Nat} (inside : j < bitOffset par seg g c) :
    ∃ r < c, bitOffset par seg g r ≤ j ∧
      j < bitOffset par seg g r + (rateParams par seg g r).e := by
  induction c with
  | zero => exact absurd inside (Nat.not_lt_zero j)
  | succ c ih =>
    rcases Nat.lt_or_ge j (bitOffset par seg g c) with before | here
    · obtain ⟨r, less, found⟩ := ih before
      exact ⟨r, Nat.lt_succ_of_lt less, found⟩
    · exact ⟨c, Nat.lt_succ_self c, here, inside⟩

theorem bitOffset_sum (c : Nat) : bitOffset par seg g c = ∑ r ∈ Finset.range c,
    (rateParams par seg g r).e := by
  induction c with
  | zero => rfl
  | succ c ih => rw [bitOffset, Finset.sum_range_succ, ih]

theorem bitOffset_total (some_ : 0 < seg.c) :
    bitOffset par seg g seg.c = par.nl * par.qm * (g / par.nl / par.qm) := by
  rw [bitOffset_sum]
  exact e_sum (rateParams par seg g 0) some_

theorem matchLoop_eq (first left r : Nat) :
    matchLoop par seg g first left r (bitOffset par seg g r) =
      ((List.range' r left).flatMap
        fun k => if k < first then [] else [.rateMatch k (bitOffset par seg g k)],
        bitOffset par seg g (r + left)) := by
  induction left generalizing r with
  | zero => rfl
  | succ left ih =>
    have next := ih (r + 1)
    have last : r + 1 + left = r + (left + 1) := by omega
    rw [bitOffset, last] at next
    rw [matchLoop, List.range'_succ, List.flatMap_cons]
    by_cases skipped : r < first
    · rw [if_pos skipped, if_pos skipped]
      exact next
    · rw [if_neg skipped, if_neg skipped, next]
      rfl

/-- A loop over code blocks does at each what its body does there. -/
theorem opsAt_loop {body : Nat → List Part} (own : ∀ r, ∀ part ∈ body r, part.block = r)
    (first count k : Nat) :
    opsAt Part.block k ((List.range' first count).flatMap body) = if first ≤ k ∧
    k < first + count then body k else [] := by
  induction count generalizing first with
  | zero => rw [if_neg (by omega)]; rfl
  | succ count ih =>
    rw [List.range'_succ, List.flatMap_cons, Interleave.opsAt_append, ih]
    by_cases here : first = k
    · have all : opsAt Part.block k (body first) = body first :=
        List.filter_eq_self.mpr
          fun part member => decide_eq_true ((own first part member).trans here)
      rw [all, if_neg (by omega), if_pos (by omega), List.append_nil, here]
    · have none : opsAt Part.block k (body first) = [] :=
        List.filter_eq_nil_iff.mpr
          fun part member same => here ((own first part member).symm.trans (of_decide_eq_true same))
      rw [none, List.nil_append]
      by_cases later : first + 1 ≤ k ∧ k < first + 1 + count
      · rw [if_pos later, if_pos (by omega)]
      · rw [if_neg later, if_neg (by omega)]

def blockParts (par : DlParams) (seg : Segments) (g k : Nat) : List Part :=
  (if par.round = 0 then [.encode k, .interleave k] else []) ++
    [.rateMatch k (bitOffset par seg g k)]

theorem opsAt_shareOf {first bound : Nat} (ordered : first ≤ bound) (k : Nat) :
    opsAt Part.block k (shareOf par seg g first bound) = if first ≤ k ∧ k < bound then
    blockParts par seg g k else [] := by
  have matched : matchLoop par seg g first bound 0 0 = _ := matchLoop_eq first bound 0
  have encodes :
    opsAt Part.block k (if par.round = 0 then encodeLoop first (bound - first) else []) =
      if first ≤ k ∧ k < bound then if par.round = 0 then [.encode k, .interleave k]
          else [] else [] := by
    by_cases fresh : par.round = 0
    · rw [if_pos fresh, if_pos fresh, encodeLoop, opsAt_loop fun r part member => ?_]
      · rw [Nat.add_sub_cancel' ordered]
      · rcases List.mem_pair.mp member with rfl | rfl
        · rfl
        · rfl
    · rw [if_neg fresh, if_neg fresh, ite_self]
      rfl
  rw [shareOf, Interleave.opsAt_append, encodes, matched, opsAt_loop fun r part member => ?_]
  · simp only [Nat.zero_le, true_and, Nat.zero_add]
    by_cases inside : first ≤ k ∧ k < bound
    · rw [if_pos inside, if_pos inside.2, if_neg (Nat.not_lt.mpr inside.1),
        if_pos inside, blockParts]
    · rw [if_neg inside, if_neg inside]
      by_cases below : k < bound
      · rw [if_pos below, if_pos (by omega)]
        rfl
      · rw [if_neg below]
        rfl
  · split at member
    · cases member
    · rw [List.mem_singleton.mp member]
      rfl

end Loops

section Threads

variable {par : DlParams} {seg : Segments} {g workerNum : Nat}

def owner (seg : Segments) (workerNum k : Nat) : Nat :=
  if seg.c / (workerNum + 1) * workerNum ≤ k then workerNum else k / (seg.c / (workerNum + 1))

theorem share_le (c workerNum : Nat) : c / (workerNum + 1) * workerNum ≤ c :=
  Nat.le_trans (Nat.mul_le_mul_left _ (Nat.le_succ workerNum))
    (Nat.div_mul_le_self c (workerNum + 1))

theorem opsAt_worker {thread : Nat} (worker : thread < workerNum) (k : Nat) :
    opsAt Part.block k (dlschEncoding2threads0 par seg g workerNum thread) =
      if thread = owner seg workerNum k ∧ k < seg.c then blockParts par seg g k else [] := by
  rw [dlschEncoding2threads0,
    opsAt_shareOf (Nat.mul_le_mul_left _ (Nat.le_add_right thread 1)), owner]
  have most := share_le seg.c workerNum
  generalize seg.c / (workerNum + 1) = share at most ⊢
  have upTo : share * (thread + 1) ≤ share * workerNum := Nat.mul_le_mul_left _ worker
  by_cases main : share * workerNum ≤ k
  · rw [if_pos main, if_neg (by omega), if_neg (by omega)]
  · rw [if_neg main]
    have positive : 0 < share :=
      Nat.pos_of_ne_zero fun zero => main (by rw [zero, Nat.zero_mul]; exact Nat.zero_le k)
    have within : share * thread ≤ k ∧ k < share * (thread + 1) ↔ thread = k / share ∧
        k < seg.c := by
      rw [eq_comm, Nat.div_eq_iff positive, Nat.mul_comm share, Nat.mul_comm share, Nat.succ_mul]
      omega
    simp only [within]

theorem owner_main {k : Nat} : owner seg workerNum k = workerNum ↔
    seg.c / (workerNum + 1) * workerNum ≤ k := by
  constructor
  · intro last
    by_contra worker
    rw [owner, if_neg worker] at last
    exact Nat.ne_of_lt (Nat.div_lt_of_lt_mul (Nat.lt_of_not_le worker)) last
  · exact fun main => if_pos main

theorem opsAt_main (k : Nat) :
    opsAt Part.block k (shareOf par seg g (seg.c / (workerNum + 1) * workerNum) seg.c) =
      if owner seg workerNum k = workerNum ∧ k < seg.c then blockParts par seg g k else [] := by
  rw [opsAt_shareOf (share_le seg.c workerNum)]
  simp only [owner_main]

theorem owner_le (k : Nat) : owner seg workerNum k ≤ workerNum := by
  rw [owner]
  split
  · exact Nat.le_refl _
  · rename_i worker
    exact Nat.le_of_lt (Nat.div_lt_of_lt_mul (Nat.lt_of_not_le worker))

/-- The programs at one code block: its owner's, if that thread runs at all. -/
theorem opsAt_program (thread k : Nat) :
    opsAt Part.block k (program par seg g workerNum thread) =
      if thread = owner seg workerNum k ∧ k < seg.c ∧ (par.round = 0 ∨ thread = workerNum) then
      blockParts par seg g k else [] := by
  have low := @owner_le seg workerNum k
  rw [program]
  by_cases worker : thread < workerNum
  · rw [if_pos worker, raises]
    by_cases fresh : par.round = 0
    · rw [if_pos fresh, List.replicate_one, List.flatten_singleton, opsAt_worker worker]
      simp only [fresh, true_or, and_true]
    · rw [if_neg fresh, if_neg (by omega)]
      rfl
  · rw [if_neg worker]
    by_cases main : thread = workerNum
    · rw [if_pos main, opsAt_main, main]
      simp only [or_true, and_true, eq_comm]
    · rw [if_neg main, if_neg (by omega)]
      rfl

/-- Every order has the work on a code block as its owner has it. -/
theorem opsAt_order {order : List Part}
    (interleaves : Interleaves (program par seg g workerNum) order) (k : Nat) :
    opsAt Part.block k order =
      if k < seg.c ∧ (par.round = 0 ∨ seg.c / (workerNum + 1) * workerNum ≤ k) then
      blockParts par seg g k else [] := by
  have alone (thread : Nat) (other : thread ≠ owner seg workerNum k) (part : Part)
      (member : part ∈ program par seg g workerNum thread) : decide (part.block = k) = false := by
    have none := @opsAt_program par seg g workerNum thread k
    rw [if_neg fun both => other both.1] at none
    exact eq_false_of_ne_true (List.filter_eq_nil_iff.mp none part member)
  have own := interleaves.filter_eq alone
  refine own.trans ((opsAt_program _ k).trans ?_)
  simp only [owner_main, true_and]

end Threads

section Separate

variable {encoder : Memory → Nat → (Int → Nat) → Nat → Int → Nat} {par : DlParams} {seg : Segments}
    {c : Nat → Memory} {g : Nat}

/-- What belongs to one code block: its buffers, and its bits of `e`. -/
structure BlockView where
  d : Int → Nat
  w : Nat → Nat
  rtc : Nat
  bits : Nat → Nat

def blockView (par : DlParams) (seg : Segments) (g k : Nat) (s : Coding) : BlockView where
  d := s.d k
  w := s.w k
  rtc := s.rtc k
  bits := fun j => if j < (rateParams par seg g k).e then s.e (bitOffset par seg g k + j) else 0

/-- The work on a code block, as far as that code block is concerned. -/
def blockStep (encoder : Memory → Nat → (Int → Nat) → Nat → Int → Nat) (par : DlParams)
    (seg : Segments) (c : Nat → Memory) (g : Nat)
    (v : BlockView) : Part → Option BlockView
  | .encode r =>
    some { v with d := encoder (c r) (seg.size r >>> 3) v.d (if r = 0 then seg.f else 0) }
  | .interleave r =>
    let (d, w, rtc) := subBlockInterleavingTurbo (4 + (seg.size r >>> 3) * 8) v.d v.w
    some { v with d := d, w := w, rtc := rtc }
  | .rateMatch r _ =>
    match lteRateMatchingTurbo v.rtc (rateParams par seg g r) v.w (fun _ => 0) with
    | .error _ => none
    | .ok (e, _) =>
      some { v with bits := fun j => if j < (rateParams par seg g r).e then e j else 0 }

/-- The bits of a code block go where they start. -/
def Part.Placed (par : DlParams) (seg : Segments) (g : Nat) : Part → Prop
  | .rateMatch r offset => offset = bitOffset par seg g r
  | _ => True

theorem blockParts_placed {k : Nat} {part : Part} (member : part ∈ blockParts par seg g k) :
    part.Placed par seg g := by
  rcases List.mem_append.mp member with first | last
  · split at first
    · rcases List.mem_pair.mp first with rfl | rfl
      · trivial
      · trivial
    · cases first
  · rw [List.mem_singleton.mp last]
    rfl

/-- The code blocks do not touch each other's buffers or bits. -/
theorem partStep_separate :
    Interleave.Separate (partStep encoder par seg c g) (Part.Placed par seg g) Part.block
      (blockView par seg g)
      (blockStep encoder par seg c g) := by
  constructor
  · intro s part placed
    cases part with
    | encode r =>
      simp only [partStep, blockStep, Part.block, blockView, Option.map_some, Function.update_self]
      rfl
    | interleave r =>
      simp only [partStep, blockStep, Part.block, blockView, Option.map_some, Function.update_self]
      rfl
    | rateMatch r offset =>
      cases placed
      obtain ⟨outcome, same⟩ :=
        lteRateMatchingTurbo_uniform (s.rtc r) (rateParams par seg g r) (s.w r)
      simp only [partStep, blockStep, Part.block, blockView, same]
      cases outcome with
      | error failure => rfl
      | ok bits =>
        refine congrArg (fun bits => some (BlockView.mk _ _ _ bits)) (funext fun j => ?_)
        by_cases inside : j < (rateParams par seg g r).e
        · simp only [if_pos inside, Nat.le_add_right, if_true, Nat.add_sub_cancel_left]
        · rw [if_neg inside, if_neg inside]
  · intro s part next k placed stepped apart
    cases part with
    | encode r =>
      cases stepped
      have apart : k ≠ r := apart
      simp only [blockView, Function.update_of_ne apart]
    | interleave r =>
      cases stepped
      have apart : k ≠ r := apart
      simp only [blockView, Function.update_of_ne apart]
    | rateMatch r offset =>
      cases placed
      obtain ⟨outcome, same⟩ :=
        lteRateMatchingTurbo_uniform (s.rtc r) (rateParams par seg g r) (s.w r)
      simp only [partStep, same] at stepped
      cases outcome with
      | error failure => cases stepped
      | ok bits =>
        cases stepped
        refine congrArg (fun bits => BlockView.mk _ _ _ bits) (funext fun j => ?_)
        by_cases inside : j < (rateParams par seg g k).e
        · rw [if_pos inside, if_pos inside]
          rcases Nat.lt_or_gt_of_ne apart with before | after
          · have bound := @bitOffset_le par seg g _ _ (show k + 1 ≤ r from before)
            rw [bitOffset] at bound
            exact if_neg (by omega)
          · have bound := @bitOffset_le par seg g _ _ (show r + 1 ≤ k from after)
            rw [bitOffset] at bound
            have place :
                bitOffset par seg g r + (bitOffset par seg g k + j - bitOffset par seg g r) =
                bitOffset par seg g k + j := by
              omega
            refine (if_pos (by omega)).trans ((if_neg (by omega)).trans ?_)
            rw [place]
        · rw [if_neg inside, if_neg inside]

end Separate

section Length

variable {encoder : Memory → Nat → (Int → Nat) → Nat → Int → Nat} {par : DlParams} {seg : Segments}
    {c : Nat → Memory} {g other : Nat}

theorem rateParams_e (same : other / par.nl / par.qm = g / par.nl / par.qm) (r : Nat) :
    (rateParams par seg other r).e = (rateParams par seg g r).e := by
  change skippedLength par seg other r = skippedLength par seg g r
  rw [skippedLength, same, skippedLength]

theorem bitOffset_congr (same : other / par.nl / par.qm = g / par.nl / par.qm) (r : Nat) :
    bitOffset par seg other r = bitOffset par seg g r := by
  induction r with
  | zero => rfl
  | succ r ih => rw [bitOffset, ih, rateParams_e same, bitOffset]

theorem blockParts_congr (same : other / par.nl / par.qm = g / par.nl / par.qm) (k : Nat) :
    blockParts par seg other k = blockParts par seg g k := by
  rw [blockParts, bitOffset_congr same, blockParts]

/-- Only the number of units counts, not `G` itself. -/
theorem partStep_congr (same : other / par.nl / par.qm = g / par.nl / par.qm) :
    partStep encoder par seg c other = partStep encoder par seg c g := by
  funext s part
  cases part with
  | encode r => rfl
  | interleave r => rfl
  | rateMatch r offset =>
    have selected : lteRateMatchingTurbo (s.rtc r) (rateParams par seg other r) (s.w r)
      (fun k => s.e (offset + k)) =
        lteRateMatchingTurbo (s.rtc r) (rateParams par seg g r) (s.w r)
            (fun k => s.e (offset + k)) := by
      rw [lteRateMatchingTurbo, rateParams_e same]
      rfl
    rw [partStep, partStep, selected]

theorem matchLoop_last (first : Nat) : (matchLoop par seg g first seg.c 0 0).2 =
    bitOffset par seg g seg.c := by
  have loop : matchLoop par seg g first seg.c 0 0 = _ := matchLoop_eq first seg.c 0
  rw [loop, Nat.zero_add]

theorem sequenceOf_congr (same : other / par.nl / par.qm = g / par.nl / par.qm) (first : Nat) :
    sequenceOf par seg other first = sequenceOf par seg g first := by
  funext s
  rw [sequenceOf, sequenceOf, matchLoop_last, matchLoop_last, bitOffset_congr same]

end Length

section Comparison

variable {encoder : Memory → Nat → (Int → Nat) → Nat → Int → Nat} {par : DlParams} {seg : Segments}
    {c : Nat → Memory} {g : Nat}

theorem mem_opsAt {parts : List Part} {part : Part} (member : part ∈ parts) :
    part ∈ opsAt Part.block part.block parts :=
  List.mem_filter.mpr ⟨member, decide_eq_true rfl⟩

/-- Two orders that do all the work on each code block leave the same sequence. -/
theorem run_sequence {parts others : List Part} {bound first : Nat}
    (own : ∀ k, opsAt Part.block k parts = if k < bound then blockParts par seg g k else [])
    (same : ∀ k, opsAt Part.block k others = opsAt Part.block k parts) {s last : Coding}
    (ran : Run.run (partStep encoder par seg c g) s parts = some last) :
    ∃ otherLast, Run.run (partStep encoder par seg c g) s others = some otherLast ∧
      sequenceOf par seg g first otherLast = sequenceOf par seg g 0 last := by
  have placed (list : List Part)
    (at_ : ∀ k, opsAt Part.block k list = opsAt Part.block k parts) (part : Part)
      (member : part ∈ list) : part.Placed par seg g := by
    have here := mem_opsAt member
    rw [at_, own] at here
    split at here
    · exact blockParts_placed here
    · cases here
  obtain ⟨otherLast, otherRan, views⟩ :=
    partStep_separate.run_agree (placed parts fun _ => rfl) (placed others same) same ran
  refine ⟨otherLast, otherRan, ?_⟩
  rw [sequenceOf, sequenceOf, matchLoop_last, matchLoop_last]
  refine List.map_congr_left fun j inside => ?_
  obtain ⟨k, _, low, high⟩ := exists_block (List.mem_range.mp inside)
  have bits := congrFun (congrArg BlockView.bits (views k)) (j - bitOffset par seg g k)
  simp only [blockView] at bits
  rwa [if_pos (by omega), if_pos (by omega), Nat.add_sub_cancel' low] at bits

end Comparison

section Result

/-- The numbers of workers that the main thread can wait for. -/
def WorkerNum : Type := { n : Nat // 1 ≤ n ∧ n ≤ 3 }

def Part.isRateMatch (r : Nat) : Part → Bool
  | .rateMatch block _ => block = r
  | _ => false

variable (encoder : Memory → Nat → (Int → Nat) → Nat → Int → Nat) (getG : Nat → Nat)
    (par : DlParams) (a : Memory) (h : DlHarq)

/-- The threads leave the sequence of the single-threaded encoder, and do the work on each code
block once; a retransmission is not encoded again. -/
structure SameEncoding (workerNum : Nat) (order : List Part) : Prop where
  sequence : dlschEncoding2threads encoder getG par a h workerNum order =
    dlschEncoding encoder getG par a h
  once : ∀ prepared, handOver par a h = some prepared → ∀ r < prepared.seg.c,
    order.count (.encode r) = raises par ∧ order.count (.interleave r) = raises par ∧
      order.countP (Part.isRateMatch r) = 1

variable {encoder getG par a h}

theorem segmentation_blocks {b : Nat} {seg : Segments} (done : lteSegmentation b = some seg) :
    0 < seg.c := by
  rw [(segmentation_kPlus done).1, numBlocks]
  split
  · exact Nat.one_pos
  · split
    · exact Nat.succ_pos _
    · omega

theorem handOver_blocks {prepared : DlHarq} (blocks : par.round ≠ 0 → 0 < h.seg.c)
    (done : handOver par a h = some prepared) :
    0 < prepared.seg.c := by
  rw [handOver] at done
  split at done
  · cases done
  · split at done
    · rw [newPacket] at done
      cases cut : lteSegmentation (par.tbs + 24) with
      | none =>
        rw [cut] at done
        cases done
      | some seg =>
        rw [cut] at done
        cases done
        exact segmentation_blocks cut
    · cases done
      exact blocks ‹_›

theorem count_blockParts {seg : Segments} {g r : Nat} {order : List Part}
    (own : opsAt Part.block r order = blockParts par seg g r) :
    order.count (.encode r) = raises par ∧ order.count (.interleave r) = raises par ∧
    order.countP (Part.isRateMatch r) = 1 := by
  have counted (part : Part) (here : part.block = r) :
      order.count part = (blockParts par seg g r).count part := by
    rw [← own, opsAt, List.count_filter]
    exact decide_eq_true here
  have matched : order.countP (Part.isRateMatch r) = (blockParts par seg g r).countP
      (Part.isRateMatch r) := by
    rw [← own, opsAt, List.countP_filter]
    refine List.countP_congr fun part _ => ?_
    cases part with
    | encode k => simp only [Part.isRateMatch, Bool.false_and]
    | interleave k => simp only [Part.isRateMatch, Bool.false_and]
    | rateMatch k offset =>
      exact ⟨fun here => Bool.and_eq_true_iff.mpr ⟨here, here⟩,
        fun both => (Bool.and_eq_true_iff.mp both).1⟩
  rw [counted _ rfl, counted _ rfl, matched, blockParts, raises]
  split
  · simp [Part.isRateMatch]
  · simp [Part.isRateMatch]

theorem encoding2threads_same {workerNum : Nat} {prepared : DlHarq}
    (done : handOver par a h = some prepared)
    (computed : (dlschEncoding encoder getG par a h).isSome)
    (same : getG (beamformingMode2threads par.mimoMode) / par.nl / par.qm =
      getG (beamformingMode par.mimoMode) / par.nl / par.qm)
    (all : par.round = 0 ∨ prepared.seg.c ≤ workerNum) {order : List Part}
    (ordered : Ordered getG par a h workerNum order) :
    SameEncoding encoder getG par a h workerNum order := by
  have everyBlock (k : Nat) : opsAt Part.block k order =
      if k < prepared.seg.c then blockParts par prepared.seg (getG (beamformingMode par.mimoMode))
          k else [] := by
    rw [opsAt_order (ordered prepared done), blockParts_congr same]
    rcases all with fresh | few
    · simp only [fresh, true_or, and_true]
    · rw [Nat.div_eq_of_lt (Nat.lt_succ_of_le few), Nat.zero_mul]
      simp only [Nat.zero_le, or_true, and_true]
  constructor
  · rw [dlschEncoding, done] at computed ⊢
    rw [dlschEncoding2threads, done, Option.bind_some, Option.bind_some]
    simp only [Option.bind_some] at computed ⊢
    rw [partStep_congr same, sequenceOf_congr same]
    obtain ⟨sequence, found⟩ := Option.isSome_iff_exists.mp computed
    obtain ⟨last, ran, _⟩ := Option.map_eq_some_iff.mp found
    have single (k : Nat) :=
      @opsAt_shareOf par prepared.seg (getG (beamformingMode par.mimoMode)) 0 prepared.seg.c
      (Nat.zero_le _) k
    simp only [Nat.zero_le, true_and] at single
    obtain ⟨otherLast, otherRan, agree⟩ :=
      run_sequence single (fun k => (everyBlock k).trans (single k).symm) ran
    rw [ran, otherRan, Option.map_some, Option.map_some, agree]
  · intro again doneAgain r inside
    cases done.symm.trans doneAgain
    exact count_blockParts ((everyBlock r).trans (if_pos inside))

theorem length_sequenceOf {seg : Segments} {g first : Nat} (s : Coding) :
    (sequenceOf par seg g first s).length = bitOffset par seg g seg.c := by
  rw [sequenceOf, List.length_map, List.length_range, matchLoop_last]

/-- Sequences of one length have the same number of units. -/
theorem units_cancel {nl qm g other : Nat}
    (same : nl * qm * (other / nl / qm) = nl * qm * (g / nl / qm)) :
    other / nl / qm = g / nl / qm := by
  rcases Nat.eq_zero_or_pos (nl * qm) with zero | positive
  · rcases Nat.mul_eq_zero.mp zero with rfl | rfl
    · rw [Nat.div_zero, Nat.div_zero]
    · rw [Nat.div_zero, Nat.div_zero]
  · exact Nat.eq_of_mul_eq_mul_left positive same

theorem handOver_done (computed : (dlschEncoding encoder getG par a h).isSome) :
    ∃ prepared, handOver par a h = some prepared := by
  cases done : handOver par a h with
  | none =>
    rw [dlschEncoding, done] at computed
    cases computed
  | some prepared => exact ⟨prepared, rfl⟩

theorem handOver_kept {prepared : DlHarq} (done : handOver par a h = some prepared)
    (again : par.round ≠ 0) : prepared = h := by
  rw [handOver, if_neg again] at done
  split at done
  · cases done
  · exact (Option.some.inj done).symm

/-- One order is enough to tell that the lengths agree and that every code block has a thread. -/
theorem agrees_only (workers : WorkerNum) (blocks : par.round ≠ 0 → 0 < h.seg.c)
    (computed : (dlschEncoding encoder getG par a h).isSome)
    (all : ∀ order, Ordered getG par a h workers.1 order →
      SameEncoding encoder getG par a h workers.1 order) :
    getG (beamformingMode2threads par.mimoMode) / par.nl / par.qm =
    getG (beamformingMode par.mimoMode) / par.nl / par.qm ∧
        (par.round = 0 ∨ h.seg.c ≤ workers.1) := by
  obtain ⟨prepared, done⟩ := handOver_done computed
  obtain ⟨order, interleaves⟩ : ∃ order, Interleaves
      (program par prepared.seg (getG (beamformingMode2threads par.mimoMode)) workers.1) order := by
    apply @Interleave.exists_interleaves _ _ (workers.1 + 1)
    intro thread outside
    rw [program, if_neg (by omega), if_neg (by omega)]
  have same :=
    all order (fun again doneAgain => Option.some.inj (done.symm.trans doneAgain) ▸ interleaves)
  constructor
  · obtain ⟨sequence, found⟩ := Option.isSome_iff_exists.mp computed
    have other := same.sequence.trans found
    rw [dlschEncoding, done] at found
    rw [dlschEncoding2threads, done] at other
    obtain ⟨last, _, rfl⟩ := Option.map_eq_some_iff.mp found
    obtain ⟨otherLast, _, agree⟩ := Option.map_eq_some_iff.mp other
    have lengths := congrArg List.length agree
    rw [length_sequenceOf, length_sequenceOf, bitOffset_total (handOver_blocks blocks done),
      bitOffset_total (handOver_blocks blocks done)] at lengths
    exact units_cancel lengths
  · by_contra late
    obtain ⟨again, many⟩ := not_or.mp late
    cases handOver_kept done again
    have none : opsAt Part.block 0 order = [] := by
      rw [opsAt_order interleaves, if_neg]
      rintro ⟨_, fresh | main⟩
      · exact again fresh
      · have share : 0 < h.seg.c / (workers.1 + 1) := Nat.div_pos (by omega) (Nat.succ_pos _)
        exact absurd main (Nat.not_le.mpr (Nat.mul_pos share workers.2.1))
    have once := (same.once h done 0 (blocks again)).2.2
    obtain ⟨part, member, matched⟩ :=
      List.countP_pos_iff.mp (Nat.lt_of_lt_of_eq Nat.one_pos once.symm)
    cases part with
    | encode r => cases matched
    | interleave r => cases matched
    | rateMatch r offset =>
      have here := mem_opsAt member
      rw [show (Part.rateMatch r offset).block = 0 from of_decide_eq_true matched, none] at here
      cases here

/-- The threads agree with the single-threaded encoder in every order exactly where `get_G` does not
depend on the difference in the mode, and no worker is left out of a retransmission. -/
theorem encoding2threads_iff (workers : WorkerNum) (blocks : par.round ≠ 0 → 0 < h.seg.c)
    (computed : (dlschEncoding encoder getG par a h).isSome) :
    (∀ order, Ordered getG par a h workers.1 order →
        SameEncoding encoder getG par a h workers.1 order) ↔
      getG (beamformingMode2threads par.mimoMode) / par.nl / par.qm =
      getG (beamformingMode par.mimoMode) / par.nl / par.qm ∧
        (par.round = 0 ∨ h.seg.c ≤ workers.1) := by
  constructor
  · exact agrees_only workers blocks computed
  · rintro ⟨same, whole⟩ order ordered
    obtain ⟨prepared, done⟩ := handOver_done computed
    refine encoding2threads_same done computed same ?_ ordered
    by_cases fresh : par.round = 0
    · exact .inl fresh
    · rw [handOver_kept done fresh]
      exact whole

/-- A second round of QPSK on one layer. -/
def retransmission (mode : MimoMode) : DlParams := ⟨0, 1, 16, 2, 1, 0, mode, 1827072, 8, 1⟩

/-- A process that holds the given number of coded blocks of 40 bits, all zero. -/
def zeroHarq (c : Nat) : DlHarq :=
  ⟨fun _ => 0, ⟨c, c, 0, 40, 0, 0⟩,
    fun _ _ => 0, ⟨fun _ _ => 0, fun _ _ => 0, fun _ => 2, fun _ => 0⟩⟩

/-- Three code blocks and three workers. -/
theorem encoding2threads_three_blocks :
    (dlschEncoding (fun _ _ d _ => d) (fun _ => 48) (retransmission .tm8) (fun _ => 0)
      (zeroHarq 3)).isSome ∧
      ∀ order, Ordered (fun _ => 48) (retransmission .tm8) (fun _ => 0) (zeroHarq 3) 3 order →
        SameEncoding (fun _ _ d _ => d) (fun _ => 48) (retransmission .tm8) (fun _ => 0)
          (zeroHarq 3) 3 order :=
  ⟨by decide +kernel,
    (encoding2threads_iff ⟨3, by decide⟩ (fun _ => by decide) (by decide +kernel)).mpr
      ⟨rfl, .inr (by decide)⟩⟩

/-- Two code blocks and one worker, which is not told about the second round. -/
theorem encoding2threads_left_out :
    ¬ ∀ (encoder : Memory → Nat → (Int → Nat) → Nat → Int → Nat) (getG : Nat → Nat) (par : DlParams)
    (a : Memory) (h : DlHarq)
      (workers : WorkerNum), (par.round ≠ 0 → 0 < h.seg.c) →
      (dlschEncoding encoder getG par a h).isSome →
      ∀ order, Ordered getG par a h workers.1 order →
        SameEncoding encoder getG par a h workers.1 order := by
  intro claim
  have computed :
    (dlschEncoding (fun _ _ d _ => d) (fun _ => 16) (retransmission .siso) (fun _ => 0)
    (zeroHarq 2)).isSome := by decide
  have all := claim _ _ _ _ _ ⟨1, by decide⟩ (fun _ => Nat.two_pos) computed
  rcases (agrees_only ⟨1, by decide⟩ (fun _ => Nat.two_pos) computed all).2 with fresh | few
  · cases fresh
  · exact absurd few (by decide)

end Result

end OpenAir.Phy
