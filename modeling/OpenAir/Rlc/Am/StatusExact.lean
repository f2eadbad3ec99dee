import OpenAir.Rlc.Am.StatusReport

/-! When the report says exactly what is missing. -/
namespace OpenAir.Rlc.Am
open Interval

/-- `a` names earlier bytes than `b`, and none of its bytes. -/
def NackBefore (vrR : Nat) (a b : NackedRange) : Prop :=
  diffSn a.sn vrR < diffSn b.sn vrR ∨ a.sn = b.sn ∧ a.last < b.first

def NackedRange.Has (n : NackedRange) (i : Nat) : Prop := n.first ≤ i ∧ i ≤ n.last

/-- From the SN `k` ahead of VR(R) on, the entries name the missing bytes of the SNs
below ACK_SN, `ack` ahead of VR(R), and no others; `room` of them can be stored. -/
structure ExactFrom (vrR : Nat) (l : List RxPdu) (k room : Nat)
    (nacks : List NackedRange) (ack : Nat) :
    Prop where
  fewer : nacks.length ≤ room
  lower : ∀ n ∈ nacks, k ≤ diffSn n.sn vrR
  proper : ∀ n ∈ nacks, n.sn < snModulo ∧ n.first ≤ n.last
  increasing : nacks.Pairwise (NackBefore vrR)
  exact : ∀ sn < snModulo, k ≤ diffSn sn vrR → ∀ i ≤ 0x7FFF,
    (∃ n ∈ nacks, n.sn = sn ∧ n.Has i) ↔ diffSn sn vrR < ack ∧ Missing l sn i

/-- The NACK list of a STATUS PDU is exactly what is missing in [VR(R), ACK_SN). -/
def StatusExact (vrR : Nat) (l : List RxPdu) (info : ControlPduInfo) : Prop :=
  ExactFrom vrR l 0 maxNackInStatusPdu (info.nackList.map NackSn.nacked) (diffSn info.ackSn vrR)

/-- The entries name the missing bytes of one SN. -/
structure SnExact (l : List RxPdu) (sn : Nat) (nacks : List NackedRange) : Prop where
  proper : ∀ n ∈ nacks, n.first ≤ n.last
  apart : nacks.Pairwise fun a b => a.last < b.first
  exact : ∀ i ≤ 0x7FFF, (∃ n ∈ nacks, n.Has i) ↔ Missing l sn i

section
variable {vrR k room ack : Nat} {l : List RxPdu}

theorem exactFrom_nil (vrR : Nat) (l : List RxPdu) (k room : Nat) :
    ExactFrom vrR l k room [] k where
  fewer := Nat.zero_le room
  lower := nofun
  proper := nofun
  increasing := List.Pairwise.nil
  exact := by
    intro sn _ lower i _
    simp only [List.not_mem_nil, false_and, exists_false, false_iff]
    rintro ⟨upper, -⟩
    exact Nat.lt_irrefl _ (Nat.lt_of_lt_of_le upper lower)

/-- Entries of the SN at which the report ends are wrong. -/
theorem not_exactFrom_stuck {nacks : List NackedRange} (some : nacks ≠ [])
    (same : ∀ n ∈ nacks, diffSn n.sn vrR = k) (small : ∀ n ∈ nacks, n.first ≤ 0x7FFF) :
    ¬ ExactFrom vrR l k room nacks k := by
  intro exact
  obtain ⟨n, member⟩ := List.exists_mem_of_ne_nil nacks some
  obtain ⟨valid, proper⟩ := exact.proper n member
  have named := (exact.exact n.sn valid (exact.lower n member) n.first (small n member)).mp
    ⟨n, member, rfl, Nat.le_refl _, proper⟩
  rw [same n member] at named
  exact Nat.lt_irrefl _ named.1

/-- The entries of the first SN and the later ones are judged apart. -/
theorem exactFrom_split (valid : vrR < snModulo) (turn : k < snModulo) (below : k < ack)
    {first later : List NackedRange} (here : ∀ n ∈ first, n.sn = snAt vrR k)
    (behind : ∀ n ∈ later, k < diffSn n.sn vrR) :
    ExactFrom vrR l k room (first ++ later) ack ↔
      first.length ≤ room ∧ SnExact l (snAt vrR k) first ∧
      ExactFrom vrR l (k + 1) (room - first.length) later ack := by
  have position : diffSn (snAt vrR k) vrR = k := diffSn_snAt valid turn
  constructor
  · intro exact
    have fewer := exact.fewer
    rw [List.length_append] at fewer
    obtain ⟨firstOrder, laterOrder, -⟩ := List.pairwise_append.mp exact.increasing
    refine ⟨by omega, ⟨?_, ?_, ?_⟩, ⟨by omega, ?_, ?_, laterOrder, ?_⟩⟩
    · exact fun n member => (exact.proper n (List.mem_append_left _ member)).2
    · refine firstOrder.imp_of_mem ?_
      rintro a b left right (ahead | ⟨-, apart⟩)
      · rw [here a left, here b right] at ahead
        exact absurd ahead (Nat.lt_irrefl _)
      · exact apart
    · intro i small
      rw [← and_iff_right (show diffSn (snAt vrR k) vrR < ack by omega)
        (b := Missing l (snAt vrR k) i),
          ← exact.exact _ (snAt_lt _ _) (Nat.le_of_eq position.symm) i small]
      constructor
      · rintro ⟨n, member, has⟩
        exact ⟨n, List.mem_append_left _ member, here n member, has⟩
      · rintro ⟨n, member, sn, has⟩
        rcases List.mem_append.mp member with inFirst | inLater
        · exact ⟨n, inFirst, has⟩
        · have := behind n inLater
          rw [sn] at this
          omega
    · exact behind
    · exact fun n member => exact.proper n (List.mem_append_right _ member)
    · intro sn validSn lower i small
      rw [← exact.exact sn validSn (by omega) i small]
      constructor
      · rintro ⟨n, member, rest⟩
        exact ⟨n, List.mem_append_right _ member, rest⟩
      · rintro ⟨n, member, same, has⟩
        rcases List.mem_append.mp member with inFirst | inLater
        · rw [← same, here n inFirst] at lower
          omega
        · exact ⟨n, inLater, same, has⟩
  · rintro ⟨fits, firstExact, laterExact⟩
    have fewer := laterExact.fewer
    refine ⟨by rw [List.length_append]; omega, ?_, ?_, ?_, ?_⟩
    · intro n member
      rcases List.mem_append.mp member with inFirst | inLater
      · rw [here n inFirst]
        omega
      · exact Nat.le_of_lt (behind n inLater)
    · intro n member
      rcases List.mem_append.mp member with inFirst | inLater
      · exact ⟨by rw [here n inFirst]; exact snAt_lt _ _, firstExact.proper n inFirst⟩
      · exact laterExact.proper n inLater
    · refine List.pairwise_append.mpr ⟨?_, laterExact.increasing, ?_⟩
      · refine firstExact.apart.imp_of_mem ?_
        intro a b left right apart
        exact Or.inr ⟨by rw [here a left, here b right], apart⟩
      · intro a left b right
        left
        rw [here a left, position]
        exact behind b right
    · intro sn validSn lower i small
      by_cases atK : diffSn sn vrR = k
      · have same : sn = snAt vrR k := by rw [← atK, snAt_diffSn valid validSn]
        rw [and_iff_right (show diffSn sn vrR < ack by omega), same, ← firstExact.exact i small]
        constructor
        · rintro ⟨n, member, sn, has⟩
          rcases List.mem_append.mp member with inFirst | inLater
          · exact ⟨n, inFirst, has⟩
          · have := behind n inLater
            rw [sn] at this
            omega
        · rintro ⟨n, member, has⟩
          exact ⟨n, List.mem_append_left _ member, here n member, has⟩
      · rw [← laterExact.exact sn validSn (by omega) i small]
        constructor
        · rintro ⟨n, member, same, has⟩
          rcases List.mem_append.mp member with inFirst | inLater
          · rw [← same, here n inFirst] at atK
            exact absurd position atK
          · exact ⟨n, inLater, same, has⟩
        · rintro ⟨n, member, rest⟩
          exact ⟨n, List.mem_append_right _ member, rest⟩

end

/-- Reporting `n` SNs from the SN `k` ahead of VR(R) on goes right. As long as there
is room for the next entry and elements are left: a PDU reported as a whole has no
byte stored; a marked PDU is complete; and an unmarked one has a gap behind its
first segment only right before its last one, ends within the offset space, and
all its missing ranges fit. `room` is what the array of entries can still take. -/
def Reports (vrR : Nat) (l : List RxPdu) : Nat → Nat → Nat → Nat → List RxPdu → Prop
  | 0, _, _, _, _ => True
  | _, _, _, _, [] => True
  | n + 1, k, bits, room, e :: rest =>
    if e.info.sn ≠ snAt vrR k then
      nackBits ≤ bits → 0 < room ∧ (∀ other ∈ l, other.info.sn ≠ snAt vrR k) ∧
        Reports vrR l n (k + 1) (bits - nackBits) (room - 1) (e :: rest)
    else if e.allSegmentsReceived then
      missingFrom 0 (e :: sameSn e rest) = [] ∧
        Reports vrR l n (k + 1) bits room (rest.dropWhile fun other => other.info.sn = e.info.sn)
    else
      nackSoBits ≤ bits →
        let count := (missingFrom 0 (e :: sameSn e rest)).length
        (e.ends = true ∨ Straight e.stop (sameSn e rest)) ∧ nackSoBits * count ≤
          bits ∧ count ≤ room ∧
        Reports vrR l n (k + 1) (bits - nackSoBits * count) (room - count)
          (if e.info.lsf then rest else behindEnd e.info.sn rest)

theorem behindEnd_split (sn : Nat) (l : List RxPdu) :
    ∃ front, l = front ++ behindEnd sn l ∧ ∀ e ∈ front, e.info.sn = sn := by
  induction l with
  | nil => exact ⟨[], rfl, fun _ member => absurd member List.not_mem_nil⟩
  | cons e rest ih =>
    rw [behindEnd]
    split
    · rename_i same
      split
      · exact ⟨[e], rfl, fun other member => by rw [List.mem_singleton.mp member]; exact same⟩
      · obtain ⟨front, whole, all⟩ := ih
        refine ⟨e :: front, by rw [List.cons_append, ← whole], ?_⟩
        exact List.forall_mem_cons.mpr ⟨same, all⟩
    · exact ⟨[], rfl, fun _ member => absurd member List.not_mem_nil⟩

theorem RxOrdered.mem_sameSn {vrR : Nat} {e other : RxPdu} {rest : List RxPdu}
    (ordered : RxOrdered vrR (e :: rest)) (member : other ∈ rest)
    (same : other.info.sn = e.info.sn) :
    other ∈ sameSn e rest := by
  induction rest with
  | nil => cases member
  | cons next rest ih =>
    obtain ⟨first, sorted⟩ := List.pairwise_cons.mp ordered.sorted
    by_cases here : next.info.sn = e.info.sn
    · rw [sameSn, List.takeWhile_cons_of_pos (by simpa using here)]
      rcases List.mem_cons.mp member with rfl | later
      · exact List.mem_cons_self
      · refine List.mem_cons_of_mem _ (ih ?_ later)
        exact ordered.of_sublist ((List.sublist_cons_self next rest).cons_cons e)
    · -- behind another SN no element of this one can follow
      exfalso
      have behind : diffSn e.info.sn vrR < diffSn next.info.sn vrR := by
        rcases first next List.mem_cons_self with ahead | ⟨equal, -⟩
        · exact ahead
        · exact absurd equal.symm here
      rcases List.mem_cons.mp member with rfl | later
      · exact here same
      · rcases (List.pairwise_cons.mp sorted).1 other later with ahead | ⟨equal, -⟩
        · rw [same] at ahead
          omega
        · exact here (equal.trans same)

theorem mem_sameSn_sn {e other : RxPdu} {rest : List RxPdu} (member : other ∈ sameSn e rest) :
    other.info.sn = e.info.sn := by
  simpa using List.mem_takeWhile_imp member

theorem RxOrdered.laidFrom {vrR : Nat} {e : RxPdu} {rest : List RxPdu}
    (ordered : RxOrdered vrR (e :: rest)) :
    Laid e.stop ((sameSn e rest).map RxPdu.interval) :=
  (ordered.of_sublist ((List.takeWhile_sublist _).cons_cons e)).laid
    fun _ member => mem_sameSn_sn member

section
variable {vrR k : Nat} {l done rest : List RxPdu} {e : RxPdu}

/-- The walk stands at the SN `k` ahead of VR(R): all elements of that SN or a later
one are still ahead. -/
structure WalkedTo (vrR k : Nat) (l done cursor : List RxPdu) : Prop where
  split : l = done ++ cursor
  passed : ∀ e ∈ done, diffSn e.info.sn vrR < k

theorem WalkedTo.skip {cursor : List RxPdu} (walked : WalkedTo vrR k l done cursor) :
    WalkedTo vrR (k + 1) l done cursor :=
  ⟨walked.split, fun e member => Nat.lt_succ_of_lt (walked.passed e member)⟩

theorem WalkedTo.pass {front cursor : List RxPdu} (walked : WalkedTo vrR k l done (front ++ cursor))
    (same : ∀ e ∈ front, diffSn e.info.sn vrR = k) :
    WalkedTo vrR (k + 1) l (done ++ front) cursor := by
  refine ⟨by rw [walked.split, List.append_assoc], ?_⟩
  intro e member
  rcases List.mem_append.mp member with before | here
  · exact Nat.lt_succ_of_lt (walked.passed e before)
  · rw [same e here]
    exact Nat.lt_succ_self k

/-- What is missing of the SN at which the walk stands. -/
theorem WalkedTo.missing (valid : vrR < snModulo) (turn : k < snModulo)
    (walked : WalkedTo vrR k l done (e :: rest)) (ordered : RxOrdered vrR l)
    (here : e.info.sn = snAt vrR k) {i : Nat} (small : i < 2 ^ 15) :
    Covers (missingFrom 0 (e :: sameSn e rest)) i ↔ Missing l (snAt vrR k) i := by
  have aheadOrdered : RxOrdered vrR (e :: rest) := by
    rw [walked.split] at ordered
    exact ordered.of_sublist (List.sublist_append_right _ _)
  have fits : ∀ other ∈ e :: sameSn e rest, other.Fits := by
    intro other member
    refine aheadOrdered.fits other ?_
    exact ((List.takeWhile_sublist _).cons_cons e).subset member
  have all (other : RxPdu) : other ∈ l ∧ other.info.sn = snAt vrR k ↔
      other ∈ e :: sameSn e rest := by
    constructor
    · rintro ⟨member, sn⟩
      rw [walked.split] at member
      rcases List.mem_append.mp member with before | after
      · have := walked.passed other before
        rw [sn, diffSn_snAt valid turn] at this
        exact absurd this (Nat.lt_irrefl k)
      · rcases List.mem_cons.mp after with rfl | later
        · exact List.mem_cons_self
        · exact List.mem_cons_of_mem _ (aheadOrdered.mem_sameSn later (sn.trans here.symm))
    · intro member
      have inside := ((List.takeWhile_sublist _).cons_cons e).subset member
      refine ⟨by rw [walked.split]; exact List.mem_append_right _ inside, ?_⟩
      rcases List.mem_cons.mp member with rfl | later
      · exact here
      · rw [mem_sameSn_sn later, here]
  have laid : Laid 0 ((e :: sameSn e rest).map RxPdu.interval) :=
    ⟨Nat.zero_le _, (aheadOrdered.fits e List.mem_cons_self).proper, aheadOrdered.laidFrom⟩
  have stored : Stored l (snAt vrR k) i ↔ Covers ((e :: sameSn e rest).map RxPdu.interval) i := by
    constructor
    · rintro ⟨other, member, sn, inside⟩
      exact ⟨other.interval, List.mem_map_of_mem ((all other).mp ⟨member, sn⟩), inside⟩
    · rintro ⟨p, member, inside⟩
      obtain ⟨other, among, rfl⟩ := List.mem_map.mp member
      obtain ⟨inL, sn⟩ := (all other).mpr among
      exact ⟨other, inL, sn, inside⟩
  rw [missingFrom_covers laid fits, Missing, stored]
  constructor
  · rintro ⟨-, -, out, below⟩
    exact ⟨out, fun other member sn => below other ((all other).mp ⟨member, sn⟩)⟩
  · rintro ⟨out, below⟩
    refine ⟨Nat.zero_le i, small, out, fun other member => ?_⟩
    obtain ⟨inL, sn⟩ := (all other).mpr member
    exact below other inL sn

/-- A report of the whole PDU is right when no byte of it is stored. -/
theorem snExact_whole (fits : ∀ other ∈ l, other.Fits) (sn : Nat) :
    SnExact l sn [wholeEntry sn] ↔ ∀ other ∈ l, other.info.sn ≠ sn := by
  constructor
  · intro exact other member same
    have so := (fits other member).so
    have missing := (exact.exact other.info.so (by omega)).mp
      ⟨wholeEntry sn, List.mem_singleton_self _, Nat.zero_le _, show _ ≤ 0x7FFF by omega⟩
    exact missing.1 ⟨other, member, same, Nat.le_refl _, (fits other member).proper⟩
  · intro absent
    refine ⟨?_, List.pairwise_singleton _ _, ?_⟩
    · intro n member
      rw [List.mem_singleton.mp member]
      exact Nat.zero_le _
    · intro i small
      constructor
      · intro _
        exact ⟨fun ⟨other, member, same, _⟩ => absent other member same,
          fun other member same => absurd same (absent other member)⟩
      · intro _
        exact ⟨wholeEntry sn, List.mem_singleton_self _, Nat.zero_le _, small⟩

theorem snExact_ranges {sn w : Nat} {ranges : List (Nat × Nat)} (laid : Laid w ranges)
    (stops : ∀ p ∈ ranges, p.2 ≤ 2 ^ 15) (exact : ∀ i < 2 ^ 15, Covers ranges i ↔ Missing l sn i) :
    SnExact l sn (ranges.map (rangeEntry sn)) := by
  have first (p : Nat × Nat) (member : p ∈ ranges) : (rangeEntry sn p).first = p.1 :=
    rangeEntry_first (Nat.lt_of_lt_of_le (laid.proper member).1 (stops p member))
  have last (p : Nat × Nat) (member : p ∈ ranges) : (rangeEntry sn p).last = p.2 - 1 :=
    rangeEntry_last (Nat.lt_of_le_of_lt (Nat.zero_le _) (laid.proper member).1) (stops p member)
  refine ⟨?_, ?_, ?_⟩
  · intro n member
    obtain ⟨p, inside, rfl⟩ := List.mem_map.mp member
    have := (laid.proper inside).1
    rw [first p inside, last p inside]
    omega
  · refine List.pairwise_map.mpr (laid.pairwise.imp_of_mem ?_)
    intro a b left right apart
    have := (laid.proper left).1
    rw [last a left, first b right]
    omega
  · intro i small
    rw [← exact i (by omega)]
    constructor
    · rintro ⟨n, member, lower, upper⟩
      obtain ⟨p, inside, rfl⟩ := List.mem_map.mp member
      have := (laid.proper inside).1
      rw [first p inside] at lower
      rw [last p inside] at upper
      exact ⟨p, inside, lower, by omega⟩
    · rintro ⟨p, inside, lower, upper⟩
      refine ⟨_, List.mem_map_of_mem inside, ?_, ?_⟩
      · rw [first p inside]
        exact lower
      · rw [last p inside]
        omega

theorem snExact_none {sn w : Nat} {ranges : List (Nat × Nat)} (laid : Laid w ranges)
    (stops : ∀ p ∈ ranges, p.2 ≤ 2 ^ 15) (exact : ∀ i < 2 ^ 15, Covers ranges i ↔ Missing l sn i) :
    SnExact l sn [] ↔ ranges = [] := by
  constructor
  · intro none
    by_contra some
    obtain ⟨p, inside⟩ := List.exists_mem_of_ne_nil ranges some
    have proper := (laid.proper inside).1
    have stop := stops p inside
    have missing := (exact p.1 (by omega)).mp ⟨p, inside, Nat.le_refl _, proper⟩
    obtain ⟨n, member, -⟩ := (none.exact p.1 (by omega)).mpr missing
    cases member
  · rintro rfl
    exact snExact_ranges laid stops exact

/-- The ranges reported of a PDU that is not straight are wrong. -/
theorem WalkedTo.not_snExact (valid : vrR < snModulo) (turn : k < snModulo)
    (walked : WalkedTo vrR k l done (e :: rest)) (ordered : RxOrdered vrR l)
    (here : e.info.sn = snAt vrR k)
    (crooked : ¬ (e.ends = true ∨ Straight e.stop (sameSn e rest))) :
    ¬ SnExact l (snAt vrR k) ((soughtRanges e (sameSn e rest)).map (rangeEntry e.info.sn)) := by
  intro exact
  have aheadOrdered : RxOrdered vrR (e :: rest) := by
    rw [walked.split] at ordered
    exact ordered.of_sublist (List.sublist_append_right _ _)
  have fit := aheadOrdered.fits e List.mem_cons_self
  have fits : ∀ other ∈ e :: sameSn e rest, other.Fits := fun other member =>
    aheadOrdered.fits other (((List.takeWhile_sublist _).cons_cons e).subset member)
  have laid : Laid 0 ((e :: sameSn e rest).map RxPdu.interval) :=
    ⟨Nat.zero_le _, fit.proper, aheadOrdered.laidFrom⟩
  have open' : e.ends = false := Bool.eq_false_iff.mpr fun ended => crooked (Or.inl ended)
  have parts : soughtRanges e (sameSn e rest) = (if 0 < e.info.so then [(0, e.info.so)] else []) ++
      soughtFrom e.stop (sameSn e rest) := by
    rw [soughtRanges, open']
    rfl
  rw [parts, List.map_append] at exact
  rcases soughtFrom_crooked e.info.sn fit.so fit.proper aheadOrdered.laidFrom
    (fun other member => fits other (List.mem_cons_of_mem _ member))
    (fun straight => crooked (Or.inr straight)) with overlap | ⟨⟨n, member, first, last⟩, stored⟩
  · exact overlap (List.pairwise_append.mp exact.apart).2.1
  · have missing := (exact.exact 0x7FFF (Nat.le_refl _)).mp
      ⟨n, List.mem_append_right _ member, first, last⟩
    have uncovered := (walked.missing valid turn ordered here (by decide)).mpr missing
    exact ((missingFrom_covers laid fits _).mp uncovered).2.2.1 stored

theorem soughtRanges_straight {es : List RxPdu} (laid : Laid e.stop (es.map RxPdu.interval))
    (straight : e.ends = true ∨ Straight e.stop es) :
    soughtRanges e es = missingFrom 0 (e :: es) := by
  rw [soughtRanges, missingFrom]
  cases ended : e.ends with
  | true => rfl
  | false =>
    rcases straight with last | straight
    · rw [ended] at last
      cases last
    · rw [soughtFrom_straight laid straight]

theorem reported_bounds (valid : vrR < snModulo) {n bits : Nat} {cursor : List RxPdu}
    (turn : k + n < snModulo) :
    (∀ x ∈ (reported vrR n k bits cursor).1, k ≤ diffSn x.sn vrR) ∧
      k ≤ (reported vrR n k bits cursor).2 := by
  induction n generalizing k bits cursor with
  | zero => exact ⟨fun _ member => absurd member List.not_mem_nil, Nat.le_refl k⟩
  | succ n ih =>
    cases cursor with
    | nil =>
      rw [reported]
      · exact ⟨fun _ member => absurd member List.not_mem_nil, Nat.le_refl k⟩
      · intro none
        cases none
    | cons e rest =>
      have at' : diffSn (snAt vrR k) vrR = k := diffSn_snAt valid (by omega)
      have ranges (rs : List (Nat × Nat)) (sn : e.info.sn = snAt vrR k) :
          ∀ x ∈ rs.map (rangeEntry e.info.sn), k ≤ diffSn x.sn vrR := by
        intro x member
        obtain ⟨p, -, rfl⟩ := List.mem_map.mp member
        show k ≤ diffSn e.info.sn vrR
        rw [sn, at']
      rw [reported]
      split
      · split
        · exact ⟨fun _ member => absurd member List.not_mem_nil, Nat.le_refl k⟩
        · obtain ⟨later, ack⟩ := @ih (k + 1) (bits - nackBits) (e :: rest) (by omega)
          refine ⟨?_, by simp only; omega⟩
          intro x member
          rcases List.mem_cons.mp member with rfl | inLater
          · exact Nat.le_of_eq at'.symm
          · exact Nat.le_of_succ_le (later x inLater)
      · rename_i present
        have sn : e.info.sn = snAt vrR k := not_not.mp present
        split
        · obtain ⟨later, ack⟩ := @ih (k + 1) bits
            (rest.dropWhile fun other => other.info.sn = e.info.sn) (by omega)
          exact ⟨fun x member => Nat.le_of_succ_le (later x member), Nat.le_of_succ_le ack⟩
        · split
          · exact ⟨fun _ member => absurd member List.not_mem_nil, Nat.le_refl k⟩
          · simp only
            split
            · obtain ⟨later, ack⟩ := @ih (k + 1)
                (bits - nackSoBits * (soughtRanges e (sameSn e rest)).length)
                (if e.info.lsf then rest else behindEnd e.info.sn rest) (by omega)
              refine ⟨?_, by simp only; omega⟩
              intro x member
              rcases List.mem_append.mp member with here | inLater
              · exact ranges _ sn x here
              · exact Nat.le_of_succ_le (later x inLater)
            · exact ⟨ranges _ sn, Nat.le_refl k⟩

/-- The report is exact when `Reports` says so, and only then. -/
theorem reported_exact (valid : vrR < snModulo) (ordered : RxOrdered vrR l) {n bits room : Nat}
    {cursor : List RxPdu} (turn : k + n < snModulo) (walked : WalkedTo vrR k l done cursor) :
    ExactFrom vrR l k room (reported vrR n k bits cursor).1 (reported vrR n k bits cursor).2 ↔
      Reports vrR l n k bits room cursor := by
  induction n generalizing k bits room cursor done with
  | zero => simp only [reported, Reports, exactFrom_nil]
  | succ n ih =>
    cases cursor with
    | nil =>
      rw [reported, Reports]
      · exact iff_true_intro (exactFrom_nil _ _ _ _)
      · intro none
        cases none
      · intro none
        cases none
    | cons e rest =>
      have small : k < snModulo := by omega
      -- the SN reported first and the SNs behind it
      have divide {bits : Nat} {cursor : List RxPdu} {first : List NackedRange}
          (here : ∀ x ∈ first, x.sn = snAt vrR k) :
          ExactFrom vrR l k room (first ++ (reported vrR n (k + 1) bits cursor).1)
            (reported vrR n (k + 1) bits cursor).2 ↔
          first.length ≤ room ∧ SnExact l (snAt vrR k) first ∧
          ExactFrom vrR l (k + 1) (room - first.length) (reported vrR n (k + 1) bits cursor).1
            (reported vrR n (k + 1) bits cursor).2 := by
        obtain ⟨later, ack⟩ := @reported_bounds vrR (k + 1) valid n bits cursor (by omega)
        exact exactFrom_split valid small ack here later
      rw [reported, Reports]
      by_cases present : e.info.sn = snAt vrR k
      · rw [if_neg (not_not.mpr present), if_neg (not_not.mpr present)]
        have aheadOrdered : RxOrdered vrR (e :: rest) := by
          have sorted := ordered
          rw [walked.split] at sorted
          exact sorted.of_sublist (List.sublist_append_right _ _)
        have fits : ∀ other ∈ e :: sameSn e rest, other.Fits := fun other member =>
          aheadOrdered.fits other (((List.takeWhile_sublist _).cons_cons e).subset member)
        have laid : Laid 0 (missingFrom 0 (e :: sameSn e rest)) :=
          missingFrom_laid
            ⟨Nat.zero_le _, (fits e List.mem_cons_self).proper, aheadOrdered.laidFrom⟩
        have stops : ∀ p ∈ missingFrom 0 (e :: sameSn e rest), p.2 ≤ 2 ^ 15 := fun p member =>
          missingFrom_stop fits member
        have exact : ∀ i < 2 ^ 15, Covers (missingFrom 0 (e :: sameSn e rest)) i ↔
            Missing l (snAt vrR k) i :=
          fun i below => walked.missing valid small ordered present below
        have atK : diffSn e.info.sn vrR = k := by rw [present, diffSn_snAt valid small]
        cases e.allSegmentsReceived with
        | true =>
          have past := @WalkedTo.pass vrR k l done (e :: sameSn e rest)
            (rest.dropWhile fun other => other.info.sn = e.info.sn)
            (by rw [List.cons_append, sameSn, List.takeWhile_append_dropWhile]; exact walked)
            (List.forall_mem_cons.mpr
              ⟨atK, fun other member => by rw [mem_sameSn_sn member]; exact atK⟩)
          have parts := @divide bits (rest.dropWhile fun other => other.info.sn = e.info.sn) []
            fun _ member => absurd member List.not_mem_nil
          simp only [List.nil_append, List.length_nil, Nat.zero_le, true_and, Nat.sub_zero] at parts
          rw [if_pos rfl, if_pos rfl, parts, snExact_none laid stops exact, ih (by omega) past]
        | false =>
          simp only [Bool.false_eq_true, if_false]
          by_cases full : bits < nackSoBits
          · rw [if_pos full]
            exact iff_of_true (exactFrom_nil _ _ _ _)
              fun enough => absurd full (Nat.not_lt.mpr enough)
          · rw [if_neg full, forall_prop_of_true (Nat.not_lt.mp full)]
            have entriesSn (rs : List (Nat × Nat)) :
                ∀ x ∈ rs.map (rangeEntry e.info.sn), x.sn = snAt vrR k := by
              intro x member
              obtain ⟨p, -, rfl⟩ := List.mem_map.mp member
              exact present
            have past : ∃ front, WalkedTo vrR (k + 1) l (done ++ front)
                (if e.info.lsf then rest else behindEnd e.info.sn rest) := by
              split
              · refine ⟨[e], WalkedTo.pass walked fun other member => ?_⟩
                rw [List.mem_singleton.mp member]
                exact atK
              · obtain ⟨front, whole, same⟩ := behindEnd_split e.info.sn rest
                refine ⟨e :: front, @WalkedTo.pass vrR k l done (e :: front) _ ?_ ?_⟩
                · rw [List.cons_append, ← whole]
                  exact walked
                · exact List.forall_mem_cons.mpr
                    ⟨atK, fun other member => by rw [same other member]; exact atK⟩
            obtain ⟨front, past⟩ := past
            by_cases fitting : (soughtRanges e (sameSn e rest)).length ≤ bits / nackSoBits
            · rw [if_pos fitting, List.take_of_length_le fitting]
              rw [divide (entriesSn _), List.length_map, ih (by omega) past]
              by_cases straight : e.ends = true ∨ Straight e.stop (sameSn e rest)
              · have same := soughtRanges_straight aheadOrdered.laidFrom straight
                rw [same] at fitting ⊢
                have room := (Nat.le_div_iff_mul_le (by decide)).mp fitting
                have right : SnExact l (snAt vrR k)
                    ((missingFrom 0 (e :: sameSn e rest)).map (rangeEntry e.info.sn)) := by
                  rw [present]
                  exact snExact_ranges laid stops exact
                rw [Nat.mul_comm] at room
                simp only [right, straight, room, true_and]
              · constructor
                · rintro ⟨-, right, -⟩
                  exact absurd right (walked.not_snExact valid small ordered present straight)
                · rintro ⟨right, -⟩
                  exact absurd right straight
            · rw [if_neg fitting]
              have short := Nat.not_le.mp fitting
              have one : 0 < bits / nackSoBits := Nat.div_pos (Nat.not_lt.mp full) (by decide)
              constructor
              · intro wrong
                refine absurd wrong (not_exactFrom_stuck ?_ ?_ ?_)
                · rw [ne_eq, List.map_eq_nil_iff, ← List.length_eq_zero_iff, List.length_take]
                  omega
                · intro n member
                  rw [entriesSn _ n member, diffSn_snAt valid small]
                · intro n member
                  obtain ⟨p, -, rfl⟩ := List.mem_map.mp member
                  exact rangeEntry_first_le _ _
              · rintro ⟨straight, enough, -⟩
                rw [soughtRanges_straight aheadOrdered.laidFrom straight] at short
                rw [Nat.mul_comm] at enough
                exact absurd ((Nat.le_div_iff_mul_le (by decide)).mpr enough) (Nat.not_le.mpr short)
      · rw [if_pos present, if_pos present]
        by_cases full : bits < nackBits
        · rw [if_pos full]
          exact iff_of_true (exactFrom_nil _ _ _ _)
            fun enough => absurd full (Nat.not_lt.mpr enough)
        · rw [if_neg full, forall_prop_of_true (Nat.not_lt.mp full)]
          have parts := @divide (bits - nackBits) (e :: rest) [wholeEntry (snAt vrR k)]
            fun x member => by rw [List.mem_singleton.mp member]; rfl
          simp only [List.cons_append, List.nil_append] at parts
          rw [parts, snExact_whole ordered.fits, ih (by omega) walked.skip]
          rfl

end

theorem reported_ack_le (vrR n k bits : Nat) (cursor : List RxPdu) :
    (reported vrR n k bits cursor).2 ≤ k + n := by
  induction n generalizing k bits cursor with
  | zero => exact Nat.le_refl k
  | succ n ih =>
    cases cursor with
    | nil =>
      rw [reported]
      · exact Nat.le_add_right k _
      · intro none
        cases none
    | cons e rest =>
      have later (bits : Nat) (cursor : List RxPdu) :
          (reported vrR n (k + 1) bits cursor).2 ≤ k + (n + 1) := by
        have := ih (k + 1) bits cursor
        omega
      rw [reported]
      split
      · split
        · exact Nat.le_add_right k _
        · exact later _ _
      · split
        · exact later _ _
        · split
          · exact Nat.le_add_right k _
          · simp only
            split
            · exact later _ _
            · exact Nat.le_add_right k _

theorem clearLastE1_nacked (nacks : List NackSn) :
    (clearLastE1 nacks).map NackSn.nacked = nacks.map NackSn.nacked := by
  fun_induction clearLastE1 nacks with
  | case1 => rfl
  | case2 nack => rfl
  | case3 nack rest _ ih => rw [List.map_cons, List.map_cons, ih]

theorem statusExact_none (vrR : Nat) (l : List RxPdu) (e1 : Bool) :
    StatusExact vrR l { ackSn := vrR, e1 := e1 } := by
  have none := exactFrom_nil vrR l 0 maxNackInStatusPdu
  have self : diffSn vrR vrR = 0 := Serial.dist_self _ _
  rwa [StatusExact, self]

/-- The SNs below VR(MS) are reported right, with the bits the grant leaves. -/
def StatusReports (vrR vrMs nbBytesRequested : Nat) (l : List RxPdu) : Prop :=
  15 + nackBits ≤ 8 * nbBytesRequested →
    Reports vrR l (diffSn vrMs vrR) 0 (8 * nbBytesRequested - 15) maxNackInStatusPdu l

theorem buildStatus_exact {vrR vrMs nbBytesRequested : Nat} {l : List RxPdu} {info : ControlPduInfo}
    {nbBitsTransmitted : Nat} (valid : vrR < snModulo) (validMs : vrMs < snModulo)
    (ordered : RxOrdered vrR l) (whole : WholeMarked l)
    (built : buildStatus vrR vrMs nbBytesRequested l = some (info, nbBitsTransmitted)) :
    StatusExact vrR l info ↔ StatusReports vrR vrMs nbBytesRequested l := by
  rw [buildStatus] at built
  by_cases idle : vrR = vrMs
  · rw [if_pos idle] at built
    cases built
    subst idle
    have self : diffSn vrR vrR = 0 := Serial.dist_self _ _
    refine iff_of_true (statusExact_none _ _ _) fun _ => ?_
    rw [self, Reports]
    trivial
  · rw [if_neg idle] at built
    by_cases room : l ≠ [] ∧ 15 + nackBits ≤ 8 * nbBytesRequested
    · simp only [if_pos room] at built
      have start : vrR = snAt vrR 0 := (Nat.mod_eq_of_lt valid).symm
      have turn : diffSn vrMs vrR < snModulo := Serial.dist_lt valid
      have carried := @statusLoop_reported vrR vrMs (8 * nbBytesRequested) valid validMs
        (diffSn vrMs vrR) 0
        (8 * nbBytesRequested - 15) l.length l { info := { e1 := true }, snNack := vrR }
          (Nat.zero_add _)
        start rfl (by simp only; omega) (Nat.le_refl _) ordered whole
      generalize statusLoop vrR vrMs (8 * nbBytesRequested) l.length l
        { info := { e1 := true }, snNack := vrR } = b at built carried
      split at built
      · cases built
      · cases built
        have entries : (clearLastE1 b.info.nackList).map NackSn.nacked =
            (reported vrR (diffSn vrMs vrR) 0 (8 * nbBytesRequested - 15) l).1 := by
          rw [clearLastE1_nacked]
          simpa [StatusBuild.entries] using carried.entries
        have ack := carried.ack
        rw [StatusBuild.ack] at ack
        have below := reported_ack_le vrR (diffSn vrMs vrR) 0 (8 * nbBytesRequested - 15) l
        rw [StatusExact, StatusReports, forall_prop_of_true room.2]
        simp only [entries, ack]
        rw [diffSn_snAt valid (by omega)]
        have start : WalkedTo vrR 0 l [] l := ⟨rfl, fun e member => by cases member⟩
        exact reported_exact valid ordered (by omega) start
    · rw [if_neg room] at built
      cases built
      refine iff_of_true (statusExact_none _ _ _) fun enough => ?_
      have empty : l = [] := by
        by_contra some
        exact room ⟨some, enough⟩
      cases diffSn vrMs vrR <;> simp [empty, Reports]

/-- A STATUS PDU that is sent says exactly what is missing below its ACK_SN, within
the grant, just when every SN it covers is reported right. -/
theorem sendStatusPdu_exact (vrR vrMs nbBytesRequested : Nat) (l : List RxPdu) (pdu : StatusPdu)
    (valid : vrR < snModulo) (validMs : vrMs < snModulo) (ordered : RxOrdered vrR l)
    (whole : WholeMarked l)
    (sent : sendStatusPdu vrR vrMs nbBytesRequested l = some pdu) :
    (StatusExact vrR l pdu.info ∧ pdu.size ≤ nbBytesRequested) ↔
      StatusReports vrR vrMs nbBytesRequested l := by
  rw [sendStatusPdu, Option.bind_eq_some_iff] at sent
  obtain ⟨⟨info, bits⟩, built, sent⟩ := sent
  simp only at sent
  split at sent
  · cases sent
  · rename_i fits
    split at sent
    · cases sent
    · rename_i forecast
      cases sent
      have size := not_not.mp forecast
      rw [and_iff_left (by simp only; omega)]
      exact buildStatus_exact valid validMs ordered whole built

def storedSegment (sn so size : Nat) (lsf : Bool) : RxPdu where
  mem _ := 0
  info := { dC := true, rf := true, sn := sn, so := so, payloadSize := size, lsf := lsf }

/-- Three segments of SN 0 with a gap behind each. -/
def threeSegments : List RxPdu :=
  [storedSegment 0 0 10 false, storedSegment 0 20 10 false, storedSegment 0 40 10 false]

/-- The second gap is reported from the start of the first one, bytes 20 to 29 with it. -/
theorem threeSegments_not_exact :
    ∃ pdu, sendStatusPdu 0 1 100 threeSegments = some pdu ∧ RxOrdered 0 threeSegments ∧
      WholeMarked threeSegments ∧ ¬ StatusExact 0 threeSegments pdu.info := by
  have sent : (sendStatusPdu 0 1 100 threeSegments).map (·.info.nackList.map NackSn.nacked) =
      some [⟨0, 10, 19⟩, ⟨0, 10, 39⟩, ⟨0, 10, 0x7FFF⟩] := by decide +kernel
  obtain ⟨pdu, found, entries⟩ := Option.map_eq_some_iff.mp sent
  refine ⟨pdu, found, ⟨?_, by decide⟩, by unfold WholeMarked; decide, fun exact => ?_⟩
  · intro e member
    simp only [threeSegments, List.mem_cons, List.not_mem_nil, or_false] at member
    obtain rfl | rfl | rfl := member <;> exact ⟨by decide, by decide, by decide⟩
  · have increasing := exact.increasing
    rw [entries] at increasing
    rcases (List.pairwise_cons.mp increasing).1 ⟨0, 10, 39⟩ (by simp) with ahead | ⟨-, apart⟩
    · exact absurd ahead (by decide)
    · exact absurd apart (by decide)

/-- A lost PDU and one whose middle is lost: both are reported. -/
def lostMiddle : List RxPdu := [storedSegment 1 0 10 false, storedSegment 1 20 10 true]

theorem sendStatusPdu_exact_lostMiddle :
    ∃ pdu, sendStatusPdu 0 2 100 lostMiddle = some pdu ∧ StatusExact 0 lostMiddle pdu.info ∧
      pdu.size ≤ 100 := by
  have sent : (sendStatusPdu 0 2 100 lostMiddle).isSome = true := by decide +kernel
  obtain ⟨pdu, found⟩ := Option.isSome_iff_exists.mp sent
  have fits : ∀ e ∈ lostMiddle, e.Fits := by
    intro e member
    simp only [lostMiddle, List.mem_cons, List.not_mem_nil, or_false] at member
    obtain rfl | rfl := member <;> exact ⟨by decide, by decide, by decide⟩
  refine ⟨pdu, found, (sendStatusPdu_exact 0 2 100 lostMiddle pdu (by decide) (by decide)
    ⟨fits, by decide⟩ (by unfold WholeMarked; decide) found).mpr fun _ => ?_⟩
  have two : diffSn 2 0 = 2 := rfl
  rw [two]
  simp [Reports, lostMiddle, storedSegment, snAt, snModulo, nackBits, nackSoBits, sameSn,
    missingFrom, Straight, RxPdu.stop, RxPdu.ends, maxNackInStatusPdu]

end OpenAir.Rlc.Am
