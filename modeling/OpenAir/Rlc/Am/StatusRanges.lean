import OpenAir.Rlc.Am.StatusSend

/-! The byte ranges of one AMD PDU: those that are missing, and those that the
loop over its segments reports. -/
namespace OpenAir.Rlc.Am
open Interval

/-- What one entry of a report says: bytes `first` to `last` of an SN are missing. -/
structure NackedRange where
  sn : Nat
  first : Nat
  last : Nat
deriving Repr, DecidableEq

/-- An entry without offsets stands for every byte. -/
def NackSn.nacked (nack : NackSn) : NackedRange :=
  ⟨nack.nackSn, if nack.e2 then nack.soStart else 0, if nack.e2 then nack.soEnd
    else statusPduSoEndAllBytes⟩

/-- The missing ranges from `w` on, given the segments in order; the last one runs
to the end of the offset space when the end of the PDU is not known. -/
def missingFrom (w : Nat) : List RxPdu → List (Nat × Nat)
  | [] => if w < 2 ^ 15 then [(w, 2 ^ 15)] else []
  | e :: es => (if w < e.info.so then [(w, e.info.so)] else []) ++ if e.ends then
      [] else missingFrom e.stop es

/-- Behind the first segment, the only one that may follow a gap is the one that
ends the PDU; and an end that is not known lies within the offset space. -/
def Straight (w : Nat) : List RxPdu → Prop
  | [] => w < 2 ^ 15
  | e :: es => e.ends = true ∨ e.info.so = w ∧ Straight e.stop es

/-- The ranges the loop reports when there is room, `waitedSo` kept at a gap. -/
def soughtFrom (w : Nat) : List RxPdu → List (Nat × Nat)
  | [] => [(w, 2 ^ 15)]
  | e :: es =>
    if w < e.info.so then (w, e.info.so) :: if e.ends then [] else soughtFrom w es
    else if e.ends then [] else soughtFrom (w + e.info.payloadSize.toNat) es

/-- What the entry for a range of bytes says. -/
def rangeEntry (sn : Nat) (p : Nat × Nat) : NackedRange := (nackRange sn p.1 (p.2 - 1)).nacked

theorem rangeEntry_first {sn : Nat} {p : Nat × Nat} (start : p.1 < 2 ^ 15) :
    (rangeEntry sn p).first = p.1 := by
  simp only [rangeEntry, nackRange, NackSn.nacked, if_true]
  omega

theorem rangeEntry_last {sn : Nat} {p : Nat × Nat} (some : 0 < p.2) (stop : p.2 ≤ 2 ^ 15) :
    (rangeEntry sn p).last = p.2 - 1 := by
  simp only [rangeEntry, nackRange, NackSn.nacked, if_true]
  omega

theorem rangeEntry_first_le (sn : Nat) (p : Nat × Nat) : (rangeEntry sn p).first ≤ 0x7FFF := by
  simp only [rangeEntry, nackRange, NackSn.nacked, if_true]
  omega

variable {w : Nat} {es : List RxPdu}

theorem missingFrom_laid (laid : Laid w (es.map RxPdu.interval)) : Laid w (missingFrom w es) := by
  induction es generalizing w with
  | nil =>
    rw [missingFrom]
    split
    · rename_i inside
      exact ⟨Nat.le_refl w, inside, trivial⟩
    · trivial
  | cons e es ih =>
    obtain ⟨start, proper, rest⟩ := laid
    have later : Laid e.info.so (if e.ends then [] else missingFrom e.stop es) := by
      split
      · trivial
      · exact (ih rest).weaken (Nat.le_of_lt proper)
    rw [missingFrom]
    split
    · rename_i apart
      exact ⟨Nat.le_refl w, apart, later⟩
    · exact later.weaken start

theorem missingFrom_stop (fits : ∀ e ∈ es, e.Fits) {p : Nat × Nat} (member : p ∈ missingFrom w es) :
    p.2 ≤ 2 ^ 15 := by
  induction es generalizing w with
  | nil =>
    rw [missingFrom] at member
    split at member
    · rw [List.mem_singleton.mp member]
    · cases member
  | cons e es ih =>
    rw [missingFrom] at member
    rcases List.mem_append.mp member with first | later
    · split at first
      · rw [List.mem_singleton.mp first]
        exact Nat.le_of_lt (fits e List.mem_cons_self).so
      · cases first
    · split at later
      · cases later
      · exact ih (fun other inside => fits other (List.mem_cons_of_mem _ inside)) later

/-- The ranges hold the bytes that no segment has, below the end of the PDU. -/
theorem missingFrom_covers (laid : Laid w (es.map RxPdu.interval))
    (fits : ∀ e ∈ es, e.Fits) (i : Nat) :
    Covers (missingFrom w es) i ↔ w ≤ i ∧ i < 2 ^ 15 ∧ ¬ Covers (es.map RxPdu.interval) i ∧
      ∀ e ∈ es, e.ends = true → i < e.stop := by
  induction es generalizing w with
  | nil =>
    rw [missingFrom]
    split
    · simp
    · simp only [covers_nil, List.map_nil, false_iff]
      omega
  | cons e es ih =>
    have start : w ≤ e.info.so := laid.1
    have proper : e.info.so < e.stop := laid.2.1
    have rest : Laid e.stop (es.map RxPdu.interval) := laid.2.2
    have far := (fits e List.mem_cons_self).so
    have ih := ih rest fun other inside => fits other (List.mem_cons_of_mem _ inside)
    have behind : Covers (es.map RxPdu.interval) i → e.stop ≤ i :=
      fun covered => (rest.bounds covered).1
    have later : ∀ other ∈ es, e.stop < other.stop := by
      intro other member
      have inside : other.interval ∈ es.map RxPdu.interval := List.mem_map_of_mem member
      exact Nat.lt_of_le_of_lt (rest.le_start inside) (rest.proper inside).1
    have first : Covers (if w < e.info.so then [(w, e.info.so)] else []) i ↔
        w ≤ i ∧ i < e.info.so := by
      split
      · simp
      · simp only [covers_nil, false_iff]
        omega
    simp only [missingFrom, covers_append, first, List.map_cons, covers_cons, not_or,
      List.forall_mem_cons]
    have interval : e.interval = (e.info.so, e.stop) := rfl
    simp only [interval]
    cases ended : e.ends with
    | true =>
      simp only [if_true, covers_nil, or_false, forall_const]
      constructor
      · rintro ⟨lower, upper⟩
        refine ⟨lower, by omega, ⟨by omega, fun covered => ?_⟩, by omega, fun other member _ => ?_⟩
        · have := behind covered
          omega
        · have := later other member
          omega
      · rintro ⟨lower, -, ⟨outside, -⟩, upper, -⟩
        omega
    | false =>
      simp only [Bool.false_eq_true, if_false, false_implies, true_and, ih]
      constructor
      · rintro (⟨lower, upper⟩ | ⟨lower, inside, out, below⟩)
        · refine ⟨lower, by omega, ⟨by omega, fun covered => ?_⟩, fun other member _ => ?_⟩
          · have := behind covered
            omega
          · have := later other member
            omega
        · exact ⟨by omega, inside, ⟨by omega, out⟩, below⟩
      · rintro ⟨lower, inside, ⟨outside, out⟩, below⟩
        by_cases before : i < e.info.so
        · exact Or.inl ⟨lower, before⟩
        · exact Or.inr ⟨by omega, inside, out, below⟩

theorem soughtFrom_straight (laid : Laid w (es.map RxPdu.interval)) (straight : Straight w es) :
    soughtFrom w es = missingFrom w es := by
  induction es generalizing w with
  | nil =>
    have inside : w < 2 ^ 15 := straight
    rw [soughtFrom, missingFrom, if_pos inside]
  | cons e es ih =>
    rw [soughtFrom, missingFrom]
    cases ended : e.ends with
    | true => split <;> rfl
    | false =>
      rcases straight with last | ⟨contiguous, straight⟩
      · rw [ended] at last
        cases last
      · have moved : w + e.info.payloadSize.toNat = e.stop := by rw [RxPdu.stop, contiguous]
        have joined : ¬ w < e.info.so := by omega
        simp only [if_neg joined, Bool.false_eq_true, if_false, List.nil_append, moved]
        exact ih laid.2.2 straight

/-- Where the running offset was left behind, the next range starts at it again. -/
theorem soughtFrom_stale {v : Nat} (laid : Laid v (es.map RxPdu.interval)) (behind : w < v) :
    ∃ stop rest, soughtFrom w es = (w, stop) :: rest := by
  cases es with
  | nil => exact ⟨2 ^ 15, [], rfl⟩
  | cons e es =>
    have ahead : w < e.info.so := Nat.lt_of_lt_of_le behind laid.1
    exact ⟨e.info.so, _, by rw [soughtFrom, if_pos ahead]⟩

/-- Off the straight case two reported ranges start alike, or the tail of a PDU
that fills the offset space is reported. -/
theorem soughtFrom_crooked (sn : Nat) {start : Nat} (inside : start < 2 ^ 15) (proper : start < w)
    (laid : Laid w (es.map RxPdu.interval)) (fits : ∀ e ∈ es, e.Fits) (crooked : ¬ Straight w es) :
    ¬ ((soughtFrom w es).map (rangeEntry sn)).Pairwise (fun a b => a.last < b.first) ∨
    (∃ n ∈ (soughtFrom w es).map (rangeEntry sn), n.first ≤ 0x7FFF ∧ 0x7FFF ≤ n.last) ∧
      Covers ((start, w) :: es.map RxPdu.interval) 0x7FFF := by
  induction es generalizing w start with
  | nil =>
    have beyond : 2 ^ 15 ≤ w := Nat.not_lt.mp crooked
    refine Or.inr
      ⟨⟨rangeEntry sn (w, 2 ^ 15), by simp [soughtFrom], rangeEntry_first_le _ _, ?_⟩, ?_⟩
    · rw [rangeEntry_last (by simp) (Nat.le_refl _)]
      exact Nat.le_refl _
    · rw [covers_cons]
      exact Or.inl ⟨by omega, by omega⟩
  | cons e es ih =>
    obtain ⟨ahead, wide, rest⟩ := laid
    have fit := fits e List.mem_cons_self
    have open' : e.ends = false := by
      cases ended : e.ends with
      | true => exact absurd (Or.inl ended) crooked
      | false => rfl
    rw [soughtFrom, open']
    simp only [RxPdu.interval] at ahead wide
    by_cases gap : w < e.info.so
    · left
      rw [if_pos gap]
      obtain ⟨stop, tail, stale⟩ := soughtFrom_stale rest (Nat.lt_trans gap wide)
      simp only [Bool.false_eq_true, if_false, stale, List.map_cons, List.pairwise_cons]
      rintro ⟨first, -⟩
      have overlap := first _ List.mem_cons_self
      rw [rangeEntry_last (by simp; omega) (Nat.le_of_lt fit.so),
        rangeEntry_first (Nat.lt_trans gap fit.so)] at overlap
      simp only at overlap
      omega
    · have contiguous : e.info.so = w := Nat.le_antisymm (Nat.not_lt.mp gap) ahead
      have moved : w + e.info.payloadSize.toNat = e.stop := by rw [RxPdu.stop, contiguous]
      simp only [if_neg gap, Bool.false_eq_true, if_false, moved]
      rcases ih fit.so wide rest (fun other member => fits other (List.mem_cons_of_mem _ member))
        fun straight => crooked (Or.inr ⟨contiguous, straight⟩) with overlap | ⟨reported, stored⟩
      · exact Or.inl overlap
      · refine Or.inr ⟨reported, ?_⟩
        rw [List.map_cons, covers_cons]
        exact Or.inr stored

end OpenAir.Rlc.Am
