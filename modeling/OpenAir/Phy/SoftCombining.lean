import Mathlib.Algebra.Order.BigOperators.Group.Finset
import OpenAir.Phy.Segmentation
import OpenAir.Phy.SubBlock

/-! The uplink receiver: rate matching and turbo decoding of the code blocks of one HARQ process. -/
namespace OpenAir.Phy

def nsoft : Nat := 1827072

/-- One reception: the soft values, and what the turbo decoder will return for each code block. -/
structure Reception where
  g : Nat
  rvidx : Nat
  qm : Nat
  qm_pos : 0 < qm
  e : Nat → BitVec 16
  ret : Nat → Nat

/-- The receptions of a transport block, round 0 first. -/
structure TransportBlock where
  seg : Segments
  /-- The sizes are those of the interleaver table. -/
  large : ∀ r < seg.c, 40 ≤ seg.size r
  rounds : List Reception

/-- One call of the turbo decoder: the code block, and its soft buffer at that moment. -/
structure TurboCall where
  r : Nat
  buffer : Nat → BitVec 16

def rxParams (seg : Segments) (rx : Reception) (r : Nat) : RateParams where
  g := rx.g
  c := seg.c
  nsoft := nsoft
  mdlharq := 0
  kmimo := 1
  rvidx := rx.rvidx
  qm := rx.qm
  nl := 1
  r := r

/-- The null positions of a code block, and its `RTC`. -/
def dummyOf (seg : Segments) (r : Nat) : (Nat → Nat) × Nat :=
  generateDummyW (4 + seg.size r / 8 * 8) (fun _ => 0) (if r = 0 then seg.f else 0)

section Decoding

variable (seg : Segments) (maxTurboIterations round : Nat) (rx : Reception)

/-- The loop over the code blocks, which ends at the first one that is not decoded. -/
def decodeBlocks : (left r rOffset : Nat) → (w : Nat → Nat → BitVec 16) → (ret : Int) →
    (Nat → Nat → BitVec 16) × List TurboCall × Int
  | 0, _, _, w, ret => (w, [], ret)
  | left + 1, r, rOffset, w, _ =>
    let (dummyW, rtc) := dummyOf seg r
    match lteRateMatchingTurboRx rtc (rxParams seg rx r) (w r) dummyW (fun k => rx.e (rOffset + k))
        (round == 0) with
    | .error _ => (w, [], -1)
    | .ok (buffer, e) =>
      let w := Function.update w r buffer
      if rx.ret r ≠ 1 + maxTurboIterations then
        let (w, calls, ret) := decodeBlocks left (r + 1) (rOffset + e) w (rx.ret r)
        (w, ⟨r, buffer⟩ :: calls, ret)
      else (w, [⟨r, buffer⟩], rx.ret r)

def ulschDecodingData (w : Nat → Nat → BitVec 16) :
    (Nat → Nat → BitVec 16) × List TurboCall × Int :=
  decodeBlocks seg maxTurboIterations round rx seg.c 0 0 w 1

end Decoding

/-- A call of the decoder in a run: its transport block, and what was received of it so far. -/
structure Decoding where
  block : TransportBlock
  heard : List Reception
  call : TurboCall

section Run

variable (maxTurboIterations : Nat)

def receiveRounds (block : TransportBlock) : (heard rest : List Reception) →
    (Nat → Nat → BitVec 16) → (Nat → Nat → BitVec 16) × List Decoding
  | _, [], w => (w, [])
  | heard, rx :: rest, w =>
    let (w, calls, _) := ulschDecodingData block.seg maxTurboIterations heard.length rx w
    let (w, later) := receiveRounds block (heard ++ [rx]) rest w
    (w, calls.map (Decoding.mk block (heard ++ [rx])) ++ later)

/-- Transport blocks one after another on the same buffers. -/
def receiveBlocks : List TransportBlock → (Nat → Nat → BitVec 16) →
    (Nat → Nat → BitVec 16) × List Decoding
  | [], w => (w, [])
  | block :: rest, w =>
    let (w, first) := receiveRounds maxTurboIterations block [] block.rounds w
    let (w, later) := receiveBlocks rest w
    (w, first ++ later)

end Run

/-- Where the soft values of a code block start. -/
def offsetOf (seg : Segments) (rx : Reception) : Nat → Nat
  | 0 => 0
  | r + 1 => offsetOf seg rx r + (rxParams seg rx r).e

/-- What one reception adds to position `i` of the soft buffer of code block `r`. -/
def softValue (seg : Segments) (rx : Reception) (r : Nat) : Nat → Int :=
  softSum (dummyOf seg r).2 (rxParams seg rx r) (dummyOf seg r).1
    fun k => rx.e (offsetOf seg rx r + k)

/-- The size of the soft buffer of a code block. -/
def bufferSize (seg : Segments) (r : Nat) : Nat := 3 * (32 * (dummyOf seg r).2)

/-- The soft buffer is the sum over the receptions of the current transport block, in 16 bits. -/
def Decoding.Combined (d : Decoding) : Prop :=
  ∀ i < bufferSize d.block.seg d.call.r,
    d.call.buffer i =
      BitVec.ofInt 16 (d.heard.map fun rx => softValue d.block.seg rx d.call.r i).sum

theorem Decoding.Combined.toInt {d : Decoding} (combined : d.Combined) {i : Nat}
    (inside : i < bufferSize d.block.seg d.call.r)
    (low : -2 ^ 15 ≤ (d.heard.map fun rx => softValue d.block.seg rx d.call.r i).sum)
    (high : (d.heard.map fun rx => softValue d.block.seg rx d.call.r i).sum < 2 ^ 15) :
    (d.call.buffer i).toInt = (d.heard.map fun rx => softValue d.block.seg rx d.call.r i).sum := by
  rw [combined i inside]
  exact BitVec.toInt_ofInt_eq_self (by decide) low high

section Step

variable {seg : Segments} {maxTurboIterations : Nat}

/-- The decoder gets as far as code block `r`. -/
def Reception.Reaches (maxTurboIterations : Nat) (rx : Reception) (r : Nat) : Prop :=
  ∀ earlier < r, rx.ret earlier ≠ 1 + maxTurboIterations

theorem ncb_rxParams (seg : Segments) (rx : Reception) (r : Nat) :
    (rxParams seg rx r).ncb (dummyOf seg r).2 = bufferSize seg r := if_neg (Nat.lt_irrefl 0)

/-- The buffer of a code block has a place that is not null. -/
theorem dummyOf_live {r : Nat} (large : 40 ≤ seg.size r) :
    ∃ ind < bufferSize seg r, (dummyOf seg r).1 ind ≠ lteNull := by
  have size : 32 < 4 + seg.size r / 8 * 8 := by omega
  have bounds := rtcOf_bounds (4 + seg.size r / 8 * 8)
  refine ⟨_, ?_, generateDummyW_live size⟩
  have rows : (dummyOf seg r).2 = rtcOf (4 + seg.size r / 8 * 8) := rfl
  rw [bufferSize, rows]
  omega

/-- One code block: the buffer is cleared in round 0 only, and takes the new values. -/
theorem rateMatch_block {rx : Reception} {r : Nat} (inside : r < seg.c) (large : 40 ≤ seg.size r)
    (w : Nat → BitVec 16) (round : Nat) :
    ∃ buffer, lteRateMatchingTurboRx (dummyOf seg r).2 (rxParams seg rx r) w (dummyOf seg r).1
        (fun k => rx.e (offsetOf seg rx r + k)) (round == 0) = .ok (buffer, (rxParams seg rx r).e) ∧
      ∀ i < bufferSize seg r, buffer i = (if round = 0 then 0 else w i) + BitVec.ofInt 16
          (softValue seg rx r i) := by
  have valid : (rxParams seg rx r).Valid :=
    ⟨Nat.one_pos, Nat.zero_lt_of_lt inside, rx.qm_pos, Nat.one_pos⟩
  obtain ⟨ind, below, live⟩ := dummyOf_live large
  rw [← ncb_rxParams seg rx r] at below
  refine ⟨_, lteRateMatchingTurboRx_eq valid below live _ _ _, fun i small => ?_⟩
  rw [softValue, ncb_rxParams]
  congr 1
  by_cases first : round = 0
  · rw [if_pos ⟨beq_iff_eq.mpr first, small⟩, if_pos first]
  · rw [if_neg (fun both => first (beq_iff_eq.mp both.1)), if_neg first]

/-- What the loop does from code block `r` on. -/
structure Decodes (seg : Segments) (maxTurboIterations round : Nat) (rx : Reception) (r : Nat)
    (w : Nat → Nat → BitVec 16)
    (result : (Nat → Nat → BitVec 16) × List TurboCall × Int) : Prop where
  before : ∀ s < r, result.1 s = w s
  combined : ∀ s < seg.c, r ≤ s →
    (∀ earlier < s, r ≤ earlier → rx.ret earlier ≠ 1 + maxTurboIterations) →
    ∀ i < bufferSize seg s, result.1 s i = (if round = 0 then 0 else w s i) + BitVec.ofInt 16
      (softValue seg rx s i)
  calls : ∀ call ∈ result.2.1, call.r < seg.c ∧ r ≤ call.r ∧
    (∀ earlier < call.r, r ≤ earlier → rx.ret earlier ≠ 1 + maxTurboIterations) ∧
      call.buffer = result.1 call.r
  skipped : ∀ s, (∃ earlier < s, r ≤ earlier ∧ rx.ret earlier = 1 + maxTurboIterations) →
    result.1 s = w s
  called : ∀ s < seg.c, r ≤ s →
    (∀ earlier < s, r ≤ earlier → rx.ret earlier ≠ 1 + maxTurboIterations) →
    ⟨s, result.1 s⟩ ∈ result.2.1

theorem decodeBlocks_spec {rx : Reception} (round : Nat)
    (large : ∀ r < seg.c, 40 ≤ seg.size r) (left r : Nat)
    (all : r + left = seg.c) (w : Nat → Nat → BitVec 16) (ret : Int) :
    Decodes seg maxTurboIterations round rx r w
      (decodeBlocks seg maxTurboIterations round rx left r (offsetOf seg rx r) w ret) := by
  induction left generalizing r w ret with
  | zero =>
    refine ⟨fun _ _ =>
      rfl, fun s inside reached =>
      ?_, fun call member => ?_, fun _ _ => rfl, fun s inside reached => ?_⟩
    · omega
    · cases member
    · omega
  | succ left ih =>
    have inside : r < seg.c := by omega
    obtain ⟨buffer, matched, values⟩ :=
      @rateMatch_block seg rx r inside (large r inside) (w r) round
    rw [decodeBlocks]
    simp only [matched]
    by_cases decoded : rx.ret r ≠ 1 + maxTurboIterations
    · rw [if_pos decoded]
      have later := ih (r + 1) (by omega) (Function.update w r buffer) (rx.ret r)
      have here : (decodeBlocks seg maxTurboIterations round rx left (r + 1)
        (offsetOf seg rx (r + 1))
          (Function.update w r buffer) (rx.ret r)).1 r = buffer := by
        rw [later.before r (Nat.lt_succ_self r), Function.update_self]
      refine ⟨fun s below =>
        ?_, fun s inside reached ok i small => ?_, fun call member => ?_, fun s stopped => ?_,
        fun s inside reached ok => ?_⟩
      · exact (later.before s (by omega)).trans (Function.update_of_ne (by omega) _ _)
      · rcases Nat.eq_or_lt_of_le reached with rfl | after
        · exact (congrFun here i).trans (values i small)
        · refine (later.combined s inside after
            (fun earlier less from_ => ok earlier less (by omega)) i small).trans ?_
          rw [Function.update_of_ne (by omega)]
      · rcases List.mem_cons.mp member with rfl | member
        · exact ⟨inside, Nat.le_refl r,
            fun earlier less from_ => absurd less (Nat.not_lt.mpr from_), here.symm⟩
        · obtain ⟨within, after, ok, same⟩ := later.calls call member
          refine ⟨within, by omega, fun earlier less from_ => ?_, same⟩
          rcases Nat.eq_or_lt_of_le from_ with rfl | after
          · exact decoded
          · exact ok earlier less after
      · obtain ⟨earlier, less, from_, failed⟩ := stopped
        have after : r < earlier := Nat.lt_of_le_of_ne from_ (fun same => decoded (same ▸ failed))
        exact (later.skipped s ⟨earlier, less, after, failed⟩).trans
          (Function.update_of_ne (by omega) _ _)
      · rcases Nat.eq_or_lt_of_le reached with rfl | after
        · exact List.mem_cons.mpr (.inl (congrArg (TurboCall.mk r) here))
        · exact List.mem_cons_of_mem
            _ (later.called s inside after (fun earlier less from_ => ok earlier less (by omega)))
    · rw [if_neg decoded]
      refine ⟨fun s below => Function.update_of_ne (by
        omega) _ _, fun s inside reached ok i small => ?_,
        fun call member => ?_, fun s stopped => ?_, fun s inside reached ok => ?_⟩
      · rcases Nat.eq_or_lt_of_le reached with rfl | after
        · exact (congrFun (Function.update_self r buffer w) i).trans (values i small)
        · exact absurd (ok r after (Nat.le_refl r)) decoded
      · cases List.mem_singleton.mp member
        exact ⟨inside, Nat.le_refl r, fun earlier less from_ => absurd less (Nat.not_lt.mpr from_),
          (Function.update_self r buffer w).symm⟩
      · obtain ⟨earlier, less, from_, _⟩ := stopped
        exact Function.update_of_ne (by omega) _ _
      · rcases Nat.eq_or_lt_of_le reached with rfl | after
        · exact List.mem_singleton.mpr (congrArg (TurboCall.mk r) (Function.update_self r buffer w))
        · exact absurd (ok r after (Nat.le_refl r)) decoded

end Step

section Run

variable {maxTurboIterations : Nat}

/-- The buffers of the code blocks that every round reached hold the sums. -/
def Sums (maxTurboIterations : Nat) (seg : Segments) (heard : List Reception)
    (w : Nat → Nat → BitVec 16) : Prop :=
  ∀ r < seg.c, (∀ rx ∈ heard, rx.Reaches maxTurboIterations r) → ∀ i < bufferSize seg r,
    w r i = BitVec.ofInt 16 (heard.map fun rx => softValue seg rx r i).sum

/-- One reception keeps the sums; in the first the buffers may hold anything. -/
theorem ulschDecodingData_sums {seg : Segments} {heard : List Reception} {w : Nat → Nat → BitVec 16}
    (large : ∀ r < seg.c, 40 ≤ seg.size r)
    (sums : heard ≠ [] → Sums maxTurboIterations seg heard w) (rx : Reception) :
    Sums maxTurboIterations seg (heard ++ [rx])
      (ulschDecodingData seg maxTurboIterations heard.length rx w).1 := by
  intro r inside reached i small
  have decodes : Decodes seg maxTurboIterations heard.length rx 0 w _ :=
    decodeBlocks_spec heard.length large seg.c 0 (Nat.zero_add _) w 1
  have now : rx.Reaches maxTurboIterations r :=
    reached rx (List.mem_append_right _ List.mem_cons_self)
  refine (decodes.combined r inside (Nat.zero_le r) (fun earlier less _ => now earlier less) i
    small).trans ?_
  rw [List.map_append, List.sum_append, List.map_singleton, List.sum_singleton, BitVec.ofInt_add]
  congr 1
  cases heard with
  | nil => rfl
  | cons first rest =>
    rw [List.length_cons, if_neg (Nat.succ_ne_zero _)]
    exact sums (List.cons_ne_nil _ _) r inside
      (fun rx member => reached rx (List.mem_append_left _ member)) i small

/-- A code block that was not decoded stops every later round of its transport block too. -/
def TransportBlock.StopsAgain (maxTurboIterations : Nat) (block : TransportBlock) : Prop :=
  block.rounds.Pairwise
    fun earlier later => ∀ r, r + 1 < block.seg.c → earlier.ret r = 1 + maxTurboIterations →
    ∃ s ≤ r, later.ret s = 1 + maxTurboIterations

/-- A code block that a round reaches was reached in every earlier round. -/
theorem reaches_earlier {c r : Nat} {earlier later : Reception} (inside : r < c)
    (stops : ∀ r, r + 1 < c → earlier.ret r = 1 + maxTurboIterations →
      ∃ s ≤ r, later.ret s = 1 + maxTurboIterations)
    (reached : later.Reaches maxTurboIterations r) : earlier.Reaches maxTurboIterations r := by
  intro s less failed
  obtain ⟨t, before, again⟩ := stops s (by omega) failed
  exact reached t (by omega) again

theorem receiveRounds_combined {block : TransportBlock} {heard rest : List Reception}
    {w : Nat → Nat → BitVec 16}
    (whole : block.rounds = heard ++ rest) (stops : block.StopsAgain maxTurboIterations)
    (sums : heard ≠ [] → Sums maxTurboIterations block.seg heard w) :
    ∀ d ∈ (receiveRounds maxTurboIterations block heard rest w).2, d.Combined := by
  induction rest generalizing heard w with
  | nil => exact fun d member => absurd member List.not_mem_nil
  | cons rx rest ih =>
    have decodes : Decodes block.seg maxTurboIterations heard.length rx 0 w _ :=
      decodeBlocks_spec heard.length block.large block.seg.c 0 (Nat.zero_add _) w 1
    have after := ulschDecodingData_sums block.large sums rx
    intro d member
    rcases List.mem_append.mp member with now | later
    · obtain ⟨call, called, rfl⟩ := List.mem_map.mp now
      obtain ⟨inside, _, ok, same⟩ := decodes.calls call called
      have reached : rx.Reaches maxTurboIterations call.r :=
        fun earlier less => ok earlier less (Nat.zero_le _)
      intro i small
      refine (congrFun same i).trans (after call.r inside (fun other member => ?_) i small)
      rcases List.mem_append.mp member with before | this
      · rw [TransportBlock.StopsAgain, whole, List.pairwise_append] at stops
        exact reaches_earlier inside (stops.2.2 other before rx List.mem_cons_self) reached
      · rwa [List.mem_singleton.mp this]
    · refine ih ?_ (fun _ => after) d later
      rw [whole, List.append_assoc, List.singleton_append]

/-- Soft combining of one HARQ process, over every run in which a code block that fails keeps the
later rounds of its transport block from getting past it. -/
theorem receiveBlocks_combined (maxTurboIterations : Nat) (blocks : List TransportBlock)
    (w : Nat → Nat → BitVec 16)
    (stops : ∀ block ∈ blocks, block.StopsAgain maxTurboIterations) :
    ∀ d ∈ (receiveBlocks maxTurboIterations blocks w).2, d.Combined := by
  induction blocks generalizing w with
  | nil => exact fun d member => absurd member List.not_mem_nil
  | cons block rest ih =>
    intro d member
    rcases List.mem_append.mp member with now | later
    · exact receiveRounds_combined rfl (stops block List.mem_cons_self)
        (fun some => absurd rfl some) d now
    · exact ih _ (fun other member => stops other (List.mem_cons_of_mem _ member)) d later

def twoBlocks : Segments := ⟨2, 1, 1, 3136, 3072, 8⟩

theorem twoBlocks_large (r : Nat) (inside : r < twoBlocks.c) : 40 ≤ twoBlocks.size r := by
  cases r with
  | zero => decide
  | succ r =>
    have plus : twoBlocks.size (r + 1) = 3136 :=
      if_neg (Nat.not_lt.mpr (Nat.succ_le_succ (Nat.zero_le r)))
    exact Nat.le_trans (by decide) (Nat.le_of_eq plus.symm)

/-- Soft values all 1; the decoder fails at the given code blocks after 4 iterations. -/
def ones (fails : Nat → Bool) : Reception where
  g := 16
  rvidx := 0
  qm := 2
  qm_pos := Nat.two_pos
  e := fun _ => 1
  ret := fun r => if fails r then 5 else 1

def retransmitted : TransportBlock :=
  ⟨twoBlocks, twoBlocks_large, [ones (· == 1), ones (· == 1), ones fun _ => false]⟩

theorem receiveBlocks_combined_retransmitted :
    retransmitted.StopsAgain 4 ∧ ∀ d ∈ (receiveBlocks 4 [retransmitted] fun _ _ => 7).2,
    d.Combined := by
  have stops : retransmitted.StopsAgain 4 := by
    have first (other : Reception) (r : Nat) (inside : r + 1 < twoBlocks.c)
      (failed : (ones (· == 1)).ret r = 1 + 4) :
        ∃ s ≤ r, other.ret s = 1 + 4 := by
      have zero : r = 0 := Nat.lt_one_iff.mp (Nat.lt_of_succ_lt_succ inside)
      rw [zero] at failed
      cases failed
    refine .cons (fun other _ => first other)
      (.cons (fun other _ => first other) (.cons (fun other member => ?_) .nil))
    cases member
  refine ⟨stops, receiveBlocks_combined 4 _ _ fun block member => ?_⟩
  rwa [List.mem_singleton.mp member]

/-- A code block that the first round does not reach is decoded from the second round alone. -/
theorem receiveBlocks_second {seg : Segments} {large : ∀ r < seg.c, 40 ≤ seg.size r}
    {first second : Reception} {r : Nat}
    (inside : r < seg.c) (missed : ¬ first.Reaches maxTurboIterations r)
    (reached : second.Reaches maxTurboIterations r)
    (w : Nat → Nat → BitVec 16) :
    ∃ d ∈ (receiveBlocks maxTurboIterations [⟨seg, large, [first, second]⟩] w).2,
      d.block.seg = seg ∧ d.call.r = r ∧
      d.heard = [first, second] ∧ ∀ i < bufferSize seg r, d.call.buffer i =
      w r i + BitVec.ofInt 16 (softValue seg second r i) := by
  have one : Decodes seg maxTurboIterations 0 first 0 w
      (ulschDecodingData seg maxTurboIterations 0 first w) :=
    decodeBlocks_spec 0 large seg.c 0 (Nat.zero_add _) w 1
  have two : Decodes seg maxTurboIterations 1 second 0
    (ulschDecodingData seg maxTurboIterations 0 first w).1
      (ulschDecodingData seg maxTurboIterations 1 second
          (ulschDecodingData seg maxTurboIterations 0 first w).1) :=
    decodeBlocks_spec 1 large seg.c 0 (Nat.zero_add _) _ 1
  have call := two.called r inside (Nat.zero_le r) (fun earlier less _ => reached earlier less)
  refine ⟨⟨⟨seg, large, [first, second]⟩, [first, second], _⟩,
    List.mem_append_left _ (List.mem_append_right _
    (List.mem_append_left _ (List.mem_map_of_mem call))), rfl, rfl, rfl, fun i small => ?_⟩
  have skipped : (ulschDecodingData seg maxTurboIterations 0 first w).1 r = w r := by
    apply one.skipped r
    simpa only [Reception.Reaches, not_forall, not_not, Nat.zero_le, true_and, exists_prop]
      using missed
  refine (two.combined r inside (Nat.zero_le r) (fun earlier less _ => reached earlier less) i
    small).trans ?_
  rw [if_neg Nat.one_ne_zero, skipped]

/-- Soft values all 1 leave a trace at the place of the first bit. -/
theorem softValue_ones (fails : Nat → Bool) :
    ∃ i < bufferSize twoBlocks 1, 0 < softValue twoBlocks (ones fails) 1 i ∧
      softValue twoBlocks (ones fails) 1 i ≤ 8 := by
  have count : (rxParams twoBlocks (ones fails) 1).e = 8 := by
    simp [rxParams, RateParams.e, ones, twoBlocks]
  have one (k : Nat) : ((ones fails).e k).toInt = 1 := by rfl
  obtain ⟨ind, below, live⟩ := dummyOf_live (twoBlocks_large 1 (by decide))
  rw [← ncb_rxParams _ (ones fails)] at below
  have inside := (bitPlace_live below live (Nat.lt_of_lt_of_eq (Nat.succ_pos 7) count.symm)).1
  rw [ncb_rxParams] at inside
  refine ⟨_, inside, ?_, ?_⟩
  · rw [softValue, softSum, count]
    refine Finset.sum_pos' (fun k _ => ?_) ⟨0, by decide, ?_⟩
    · rw [one]
      split
      · exact Int.one_nonneg
      · exact Int.le_refl 0
    · rw [if_pos rfl, one]
      exact Int.one_pos
  · rw [softValue, softSum, count]
    refine (Finset.sum_le_card_nsmul _ _ 1 fun k _ => ?_).trans (by decide)
    rw [one]
    split
    · exact Int.le_refl 1
    · exact Int.one_nonneg

/-- The first round stops at code block 0, and the second does not. -/
theorem receiveBlocks_misses :
    ¬ ∀ (maxTurboIterations : Nat) (blocks : List TransportBlock) (w : Nat → Nat → BitVec 16),
      ∀ d ∈ (receiveBlocks maxTurboIterations blocks w).2, d.Combined := by
  intro claim
  have missed : ¬ (ones (· == 0)).Reaches 4 1 := fun reached => reached 0 Nat.one_pos rfl
  have reached : (ones fun _ => false).Reaches 4 1 := fun _ _ failed => nomatch failed
  obtain ⟨d, member, seg, r, heard, buffer⟩ :=
    @receiveBlocks_second 4 twoBlocks twoBlocks_large _ _ 1 (by decide) missed reached fun _ _ => 0
  obtain ⟨i, small, positive, bounded⟩ := softValue_ones (· == 0)
  have sum := claim 4 _ _ d member i (by rw [seg, r]; exact small)
  rw [heard, seg, r, buffer i small, List.map_cons, List.map_cons, List.map_nil,
    List.sum_cons, List.sum_cons, List.sum_nil, Int.add_zero, BitVec.ofInt_add] at sum
  have nothing := congrArg BitVec.toInt (add_right_cancel sum)
  rw [BitVec.toInt_ofInt_eq_self (by decide) (by omega) (by omega)] at nothing
  exact absurd nothing.symm (Int.ne_of_gt positive)

end Run

end OpenAir.Phy
