import Mathlib.Data.List.Sort
import OpenAir.Lib.Run
import OpenAir.Agent.SliceUpdate

/-! An admissible slice configuration, and the messages that keep it so: what the verification
expects of them is what the loop makes of them. -/
namespace OpenAir.Agent
open Keyed

section Updates

variable {α : Type} {id : α → UInt32} {percentage : α → UInt32} {slices update : List α}
    {u : α} {pct n : Int}

/-- What the verification expects of the rest of a message is the same after the first slice is
written. -/
theorem resultingShare_put (distinct : (slices.map id).Nodup) (other : ∀ v ∈ update, id v ≠ id u) :
    resultingShare id percentage (put id slices u) pct update =
    resultingShare id percentage slices pct update := by
  induction update generalizing pct with
  | nil => rfl
  | cons v update ih =>
    have here := other v List.mem_cons_self
    have later : ∀ v ∈ update, id v ≠ id u :=
      fun v member => other v (List.mem_cons_of_mem _ member)
    rw [resultingShare, resultingShare, record_put distinct here, ih later]

/-- The expected share is the share of the slices once they are written. -/
theorem resultingShare_eq (distinct : (slices.map id).Nodup) (once : (update.map id).Nodup) :
    resultingShare id percentage slices (totalShare percentage slices) update =
      totalShare percentage (puts id slices update) := by
  induction update generalizing slices with
  | nil => rfl
  | cons u update ih =>
    obtain ⟨other, once⟩ := List.nodup_cons.mp once
    have others : ∀ v ∈ update, id v ≠ id u :=
      fun v member same => other (same ▸ List.mem_map_of_mem member)
    have written := @ih (put id slices u) (put_distinct distinct) once
    rw [resultingShare_put distinct others, totalShare, sum_put distinct] at written
    rw [resultingShare]
    refine Eq.trans ?_ written
    cases record id slices (id u) with
    | none => simp [totalShare]
    | some s => simp [totalShare]

/-- The expected number counts the new slices, when no slice without a share is named. -/
theorem resultingNumber_eq (distinct : (slices.map id).Nodup)
    (shares : ∀ u ∈ update, ∀ s, record id slices (id u) = some s → percentage s ≠ 0) :
    resultingNumber id percentage slices n update = n + (fresh id slices update).length := by
  induction update generalizing n with
  | nil => exact (Int.add_zero n).symm
  | cons u update ih =>
    have here := shares u List.mem_cons_self
    have later := fun (n : Int) => @ih n fun v member => shares v (List.mem_cons_of_mem _ member)
    rw [resultingNumber, fresh_cons distinct]
    cases named : record id slices (id u) with
    | none =>
      simp only [later, if_true]
      omega
    | some s =>
      simp only [later, if_neg (here s named), reduceCtorEq, if_false]
      omega

theorem modify_eq_put {overwrite : α → α → α} {i : Nat}
    (over_ : ∀ exist u, id exist = id u → overwrite exist u = u)
    (at_ : position id slices (id u) = some i) : (slices.modify i fun exist => overwrite exist u) =
    put id slices u := by
  obtain ⟨inside, same⟩ := position_some at_
  rw [put_some at_]
  refine List.ext_getElem (by rw [List.length_modify, List.length_set]) fun j before after => ?_
  rw [List.getElem_modify, List.getElem_set]
  split
  · rename_i here
    subst here
    exact over_ _ _ same
  · rfl

theorem applyUpdates_eq {overwrite : α → α → α} {slot : UInt32 → α}
    (over_ : ∀ exist u, id exist = id u → overwrite exist u = u) (empty : ∀ k, id (slot k) = k)
    (room : (puts id slices update).length ≤ maxNumSlices) :
    applyUpdates id overwrite slot slices update = .ok (puts id slices update) := by
  induction update generalizing slices with
  | nil => rfl
  | cons u update ih =>
    have later := @ih (put id slices u) room
    rw [applyUpdates]
    cases at_ : position id slices (id u) with
    | some i =>
      simp only [modify_eq_put over_ at_]
      exact later
    | none =>
      have short : slices.length < maxNumSlices := by
        have grown := @length_puts_le _ _ _ id (put id slices u) update
        have all := Nat.le_trans grown room
        rw [put_none at_, List.length_append, List.length_singleton] at all
        exact all
      rw [put_none at_] at later
      simp only [if_pos short, over_ _ _ (empty (id u)), later]
      exact congrArg (fun l => Except.ok (puts id l update)) (put_none at_).symm

end Updates

section Regions

variable {existing update : List UlSlice} {u : UlSlice} {regions : List SRegion}
    {nRb : Nat} {n : Int}

/-- The positions that the verification looks up are the same after the first slice is written. -/
theorem updateRegions_put (distinct : (existing.map UlSlice.id).Nodup)
    (other : ∀ v ∈ update, v.id ≠ u.id) :
    updateRegions nRb n (put UlSlice.id existing u) regions update =
    updateRegions nRb n existing regions update := by
  induction update generalizing regions with
  | nil => rfl
  | cons v update ih =>
    have here := other v List.mem_cons_self
    have later : ∀ v ∈ update, v.id ≠ u.id :=
      fun v member => other v (List.mem_cons_of_mem _ member)
    simp only [updateRegions, lastPosition_eq distinct, lastPosition_eq (put_distinct distinct),
      position_put here, ih later]

/-- The regions that are checked are those of the slices once they are written. -/
theorem updateRegions_eq (distinct : (existing.map UlSlice.id).Nodup)
    (once : (update.map UlSlice.id).Nodup)
    (room : ((puts UlSlice.id existing update).length : Int) ≤ n) :
    updateRegions nRb n existing (existing.map (sregion nRb)) update =
      .ok ((puts UlSlice.id existing update).map (sregion nRb)) := by
  induction update generalizing existing with
  | nil => rfl
  | cons u update ih =>
    obtain ⟨other, once⟩ := List.nodup_cons.mp once
    have others : ∀ v ∈ update, v.id ≠ u.id :=
      fun v member same => other (same ▸ List.mem_map_of_mem member)
    have written := @ih (put UlSlice.id existing u) (put_distinct distinct) once room
    have grown := @length_puts_le _ _ _ UlSlice.id (put UlSlice.id existing u) update
    rw [updateRegions_put distinct others] at written
    have all : ((put UlSlice.id existing u).length : Int) ≤ n :=
      Int.le_trans (Int.ofNat_le.mpr grown) room
    rw [updateRegions, lastPosition_eq distinct]
    refine Eq.trans ?_ written
    cases at_ : position UlSlice.id existing u.id with
    | some i =>
      obtain ⟨inside, -⟩ := position_some at_
      rw [put_some at_, List.length_set] at all
      simp only [if_pos (show (i : Int) < n by omega), put_some at_, List.map_set]
    | none =>
      rw [put_none at_, List.length_append, List.length_singleton] at all
      simp only [List.length_map, if_pos (show (existing.length : Int) < n by omega), put_none at_,
        List.map_append, List.map_singleton]

/-- A region reaches over the start of the next one, or the end of the band, by 10% of its length or
more. -/
def SRegion.ReachesOver (sr : SRegion) (u : Int) : Prop :=
  0 < sr.start + sr.length - u ∧ sr.length ≤ (sr.start + sr.length - u) * 10

def Clear (nRb : Nat) : List SRegion → Prop
  | [] => True
  | sr :: rest => ¬ sr.ReachesOver (nextStart nRb rest) ∧ Clear nRb rest

/-- No region reaches over the next one, in an order by start. -/
def Separate (nRb : Nat) (regions : List SRegion) : Prop :=
  ∃ order : List SRegion, order.Perm regions ∧ (order.Pairwise fun a b => a.start ≤ b.start) ∧
    Clear nRb order

theorem Clear.inside (clear : Clear nRb regions)
    (sorted : regions.Pairwise fun a b => a.start ≤ b.start)
    (positive : ∀ sr ∈ regions, 0 ≤ sr.length) : ∀ sr ∈ regions, sr.start ≤ nRb := by
  induction regions with
  | nil => exact fun sr none => absurd none List.not_mem_nil
  | cons sr rest ih =>
    obtain ⟨first, sorted⟩ := List.pairwise_cons.mp sorted
    have later := ih clear.2 sorted fun sr member => positive sr (List.mem_cons_of_mem _ member)
    have length := positive sr List.mem_cons_self
    have here : sr.start ≤ nRb := by
      cases rest with
      | nil =>
        have short := clear.1
        simp only [SRegion.ReachesOver, nextStart] at short
        omega
      | cons next rest =>
        exact Int.le_trans (first next List.mem_cons_self) (later next List.mem_cons_self)
    intro other member
    rcases List.mem_cons.mp member with rfl | member
    · exact here
    · exact later other member

/-- Sorted regions that start in the band are checked without a fault, and pass when they are
clear. -/
theorem checkOverlap_spec (sorted : regions.Pairwise fun a b => a.start ≤ b.start)
    (inside : ∀ sr ∈ regions, sr.start ≤ nRb) (positive : ∀ sr ∈ regions, 0 ≤ sr.length) :
    ∃ passed, checkOverlap nRb regions = .ok passed ∧ (passed = true → Clear nRb regions) := by
  induction regions with
  | nil => exact ⟨true, rfl, fun _ => trivial⟩
  | cons sr rest ih =>
    obtain ⟨first, sorted⟩ := List.pairwise_cons.mp sorted
    obtain ⟨passed, checked, clear⟩ :=
      ih sorted (fun sr member => inside sr (List.mem_cons_of_mem _ member))
      fun sr member => positive sr (List.mem_cons_of_mem _ member)
    have length := positive sr List.mem_cons_self
    have below : sr.start ≤ nextStart nRb rest := by
      cases rest with
      | nil => exact inside sr List.mem_cons_self
      | cons next rest => exact first next List.mem_cons_self
    rw [checkOverlap]
    simp only [below, not_true, if_false]
    split
    · rename_i apart
      refine ⟨passed, checked, fun pass => ⟨fun reaches => ?_, clear pass⟩⟩
      exact absurd reaches.1 (by omega)
    · rename_i overlap
      rw [if_neg (show ¬ sr.length = 0 by omega)]
      split
      · exact ⟨false, rfl, fun pass => absurd pass (by decide)⟩
      · rename_i little
        refine ⟨passed, checked, fun pass => ⟨fun reaches => little ?_, clear pass⟩⟩
        rw [ge_iff_le, Int.tdiv_eq_ediv_of_nonneg (by omega), Int.le_ediv_iff_mul_le (by omega)]
        have tenth := reaches.2
        omega

end Regions

section Admissible

variable {α : Type} {id : α → UInt32} {percentage : α → UInt32} {slices update : List α}

/-- The slices of one direction: different ids, not too many, and shares that add up to 1 to 100
percent. -/
structure Admissible (id : α → UInt32) (percentage : α → UInt32) (slices : List α) : Prop where
  distinct : (slices.map id).Nodup
  number : slices.length ≤ maxNumSlices
  some : 1 ≤ totalShare percentage slices
  whole : totalShare percentage slices ≤ 100

/-- An admissible configuration for an uplink of `nRb` resource blocks. -/
structure SliceConfig.Admissible (nRb : Nat) (sc : SliceConfig) : Prop where
  dl : Agent.Admissible DlSlice.id DlSlice.percentage sc.dl
  ul : Agent.Admissible UlSlice.id UlSlice.percentage sc.ul
  separate : Separate nRb (sc.ul.map (sregion nRb))

def NamesShares (id : α → UInt32) (percentage : α → UInt32) (slices update : List α) : Prop :=
  ∀ u ∈ update, ∀ s, record id slices (id u) = Option.some s → percentage s ≠ 0

theorem Admissible.puts (admissible : Admissible id percentage slices)
    (once : (update.map id).Nodup)
    (counted : NamesShares id percentage slices update ∨
      slices.length + (fresh id slices update).length ≤ maxNumSlices)
    (verified : verifyGroup id percentage slices update = true) :
    Admissible id percentage (puts id slices update) := by
  rw [verifyGroup, decide_eq_true_eq, resultingShare_eq admissible.distinct once] at verified
  obtain ⟨-, number, some_, whole⟩ := verified
  refine ⟨puts_distinct admissible.distinct, ?_, some_, whole⟩
  rw [length_puts admissible.distinct once]
  rcases counted with shares | room
  · rw [resultingNumber_eq admissible.distinct shares] at number
    omega
  · exact room

end Admissible

section Parts

variable {qsort : Qsort} {nRb : Nat}

/-- The DL part of a message, unless an entry is refused by itself: no id is there twice, and no
slice without a share is named, or there is room for all new slices. -/
def DlCareful (slices : List DlSlice) (entries : List DlSliceEntry) : Prop :=
  ∀ update, filledDl slices entries = some update → (update.map DlSlice.id).Nodup ∧
    (NamesShares DlSlice.id DlSlice.percentage slices update ∨
      slices.length + (fresh DlSlice.id slices update).length ≤ maxNumSlices)

/-- The UL part of a message, unless an entry is refused by itself: no id is there twice, no slice
without a share is named, and no slice starts behind the band. -/
def UlCareful (nRb : Nat) (slices : List UlSlice) (entries : List UlSliceEntry) : Prop :=
  ∀ update, filledUl slices entries = some update → (update.map UlSlice.id).Nodup ∧
    NamesShares UlSlice.id UlSlice.percentage slices update ∧ ∀ u ∈ update, toInt u.firstRb ≤ nRb

theorem prepareDl_admissible {slices : List DlSlice} {entries : List DlSliceEntry}
    (admissible : Admissible DlSlice.id DlSlice.percentage slices)
    (careful : DlCareful slices entries) :
    ∃ result, prepareDl slices entries = .ok result ∧
      Admissible DlSlice.id DlSlice.percentage result.slices := by
  cases entries with
  | nil => exact ⟨_, rfl, admissible⟩
  | cons entry rest =>
    unfold prepareDl
    cases filled : filledDl slices (entry :: rest) with
    | none => exact ⟨_, rfl, admissible⟩
    | some update =>
      obtain ⟨once, counted⟩ := careful update filled
      cases verified : flexranVerifyGroupDlSlices slices update with
      | false => exact ⟨⟨false, slices⟩, by simp only [verified]; rfl, admissible⟩
      | true =>
        have written := admissible.puts once counted verified
        have applied := @applyUpdates_eq _ _ _ _ overwriteSliceConfigDl (fun id => { id })
          (fun exist u same => by rw [overwriteSliceConfigDl, same]) (fun _ => rfl) written.number
        exact ⟨⟨true, puts DlSlice.id slices update⟩, by
          simp only [verified, applied]; rfl, written⟩

theorem sregion_length (nRb : Nat) (uls : UlSlice) : 0 ≤ (sregion nRb uls).length := by
  have small : (uls.percentage * UInt32.ofNat nRb / 100).toNat < 2 ^ 31 := by
    rw [UInt32.toNat_div]
    have below := (uls.percentage * UInt32.ofNat nRb).toNat_lt
    exact Nat.div_lt_of_lt_mul (Nat.lt_of_lt_of_le below (by decide))
  show 0 ≤ (uls.percentage * UInt32.ofNat nRb / 100).toBitVec.toInt
  rw [BitVec.toInt_eq_toNat_of_lt (by exact Nat.mul_lt_mul_of_pos_left small Nat.two_pos)]
  exact Int.natCast_nonneg _

theorem Separate.inside {slices : List UlSlice}
    (separate : Separate nRb (slices.map (sregion nRb))) :
    ∀ s ∈ slices, toInt s.firstRb ≤ nRb := by
  obtain ⟨order, perm, sorted, clear⟩ := separate
  intro s member
  refine clear.inside sorted (fun sr there => ?_) (sregion nRb s)
    (perm.mem_iff.mpr (List.mem_map_of_mem member))
  obtain ⟨uls, -, rfl⟩ := List.mem_map.mp (perm.mem_iff.mp there)
  exact sregion_length nRb uls

/-- The check of the UL slices as a group has no fault, and what passes it is admissible once it is
written. -/
theorem verifyGroupUl_spec {slices update : List UlSlice}
    (admissible : Admissible UlSlice.id UlSlice.percentage slices)
    (separate : Separate nRb (slices.map (sregion nRb))) (once : (update.map UlSlice.id).Nodup)
    (shares : NamesShares UlSlice.id UlSlice.percentage slices update)
    (inside : ∀ u ∈ update, toInt u.firstRb ≤ nRb) :
    ∃ passed, flexranVerifyGroupUlSlices qsort nRb slices update = .ok passed ∧
      (passed = true → Admissible UlSlice.id UlSlice.percentage (puts UlSlice.id slices update) ∧
        Separate nRb ((puts UlSlice.id slices update).map (sregion nRb))) := by
  have number := @resultingNumber_eq _ _ _ _ _ (slices.length : Int) admissible.distinct shares
  have length := length_puts admissible.distinct once
  unfold flexranVerifyGroupUlSlices
  cases verified : verifyGroup UlSlice.id UlSlice.percentage slices update with
  | false => exact ⟨false, rfl, fun pass => absurd pass (by decide)⟩
  | true =>
    have regions :=
      @updateRegions_eq slices update nRb (slices.length + (fresh UlSlice.id slices update).length)
      admissible.distinct once (by omega)
    have starts (s : UlSlice) (member : s ∈ puts UlSlice.id slices update) :
        toInt s.firstRb ≤ nRb := by
      rcases mem_puts member with earlier | later
      · exact separate.inside s earlier
      · exact inside s later
    have perm := qsort.perm ((puts UlSlice.id slices update).map (sregion nRb))
    obtain ⟨passed, checked, clear⟩ := @checkOverlap_spec
      (qsort.sort ((puts UlSlice.id slices update).map (sregion nRb))) nRb (qsort.sorted _)
      (fun sr member => by
        obtain ⟨s, there, rfl⟩ := List.mem_map.mp (perm.mem_iff.mp member)
        exact starts s there)
      (fun sr member => by
        obtain ⟨s, -, rfl⟩ := List.mem_map.mp (perm.mem_iff.mp member)
        exact sregion_length nRb s)
    refine ⟨passed, ?_,
      fun pass => ⟨admissible.puts once (.inl shares) verified, _, perm,
      qsort.sorted _, clear pass⟩⟩
    have grown : (slices.length : Int) ≤
      slices.length + (fresh UlSlice.id slices update).length := by omega
    have count : (((puts UlSlice.id slices update).map (sregion nRb)).length : Int) =
        slices.length + (fresh UlSlice.id slices update).length := by
      rw [List.length_map, length]
      rfl
    simp only [number, regions, if_true, if_pos grown, if_pos count]
    exact checked

theorem prepareUl_admissible {slices : List UlSlice} {entries : List UlSliceEntry}
    (admissible : Admissible UlSlice.id UlSlice.percentage slices)
    (separate : Separate nRb (slices.map (sregion nRb)))
    (careful : UlCareful nRb slices entries) :
    ∃ result, prepareUl qsort nRb slices entries = .ok result ∧
      Admissible UlSlice.id UlSlice.percentage result.slices ∧
      Separate nRb (result.slices.map (sregion nRb)) := by
  cases entries with
  | nil => exact ⟨_, rfl, admissible, separate⟩
  | cons entry rest =>
    unfold prepareUl
    cases filled : filledUl slices (entry :: rest) with
    | none => exact ⟨_, rfl, admissible, separate⟩
    | some update =>
      obtain ⟨once, shares, inside⟩ := careful update filled
      obtain ⟨passed, checked, written⟩ :=
        @verifyGroupUl_spec qsort nRb _ _ admissible separate once shares inside
      cases passed with
      | false => exact ⟨⟨false, slices⟩, by simp only [checked], admissible, separate⟩
      | true =>
        obtain ⟨whole, apart⟩ := written rfl
        have applied := @applyUpdates_eq _ _ _ _ overwriteSliceConfigUl (fun id => { id })
          (fun exist u same => by rw [overwriteSliceConfigUl, same]) (fun _ => rfl) whole.number
        exact ⟨⟨true, puts UlSlice.id slices update⟩, by
          simp only [checked, applied]; rfl, whole, apart⟩

end Parts

section Refused

variable {qsort : Qsort} {nRb : Nat}

theorem prepareDl_refused {slices : List DlSlice} {entries : List DlSliceEntry}
    {result : PartResult DlSlice}
    (done : prepareDl slices entries = .ok result) (refused : result.verified = false) :
    result.slices = slices := by
  unfold prepareDl at done
  split at done
  · cases done
    rfl
  · cases done
    rfl
  · split at done
    · rename_i update _ _ _
      cases applied :
          applyUpdates DlSlice.id overwriteSliceConfigDl (fun id => { id }) slices update with
      | error fault =>
        rw [applied] at done
        cases done
      | ok written =>
        rw [applied] at done
        cases done
        cases refused
    · cases done
      rfl

theorem prepareUl_refused {slices : List UlSlice} {entries : List UlSliceEntry}
    {result : PartResult UlSlice}
    (done : prepareUl qsort nRb slices entries = .ok result) (refused : result.verified = false) :
    result.slices = slices := by
  unfold prepareUl at done
  split at done
  · cases done
    rfl
  · cases done
    rfl
  · split at done
    · cases done
    · rename_i update _ _ _ _
      cases applied :
          applyUpdates UlSlice.id overwriteSliceConfigUl (fun id => { id }) slices update with
      | error fault =>
        rw [applied] at done
        cases done
      | ok written =>
        rw [applied] at done
        cases done
        cases refused
    · cases done
      rfl

end Refused

/-- A message under which the verification counts right and asserts nothing. -/
structure Careful (nRb : Nat) (sc : SliceConfig) (sup : SliceMessage) : Prop where
  dl : DlCareful sc.dl sup.dl
  ul : UlCareful nRb sc.ul sup.ul

/-- A message, when no fault stops it. -/
def handle (qsort : Qsort) (nRb : Nat) (sc : SliceConfig) (sup : SliceMessage) :
    Option SliceConfig :=
  (prepareUpdateSliceConfig qsort nRb sc sup).toOption.map MessageResult.config

/-- Careful messages keep the configuration admissible, without a fault; and for every message, a
part that is refused leaves its slices as they are. -/
theorem slices_stay_admissible (qsort : Qsort) (nRb : Nat) (sc : SliceConfig)
    (start : sc.Admissible nRb)
    (messages : List SliceMessage)
    (careful : Run.Meets (handle qsort nRb) (Careful nRb) sc messages) :
    (∃ sc', Run.run (handle qsort nRb) sc messages = some sc' ∧ sc'.Admissible nRb) ∧
    ∀ sc sup result, prepareUpdateSliceConfig qsort nRb sc sup = .ok result →
      (result.dlVerified = false → result.config.dl = sc.dl) ∧
      (result.ulVerified = false → result.config.ul = sc.ul) := by
  constructor
  · refine Run.run_invariant_meets (fun sc sup admissible careful => ?_) start careful
    obtain ⟨dl, prepared, dlAdmissible⟩ := prepareDl_admissible admissible.dl careful.dl
    obtain ⟨ul, prepared', ulAdmissible, separate⟩ :=
      @prepareUl_admissible qsort nRb _ _ admissible.ul admissible.separate careful.ul
    have handled : handle qsort nRb sc sup = some
        { intrasliceShareActive := sup.intrasliceShareActive.getD sc.intrasliceShareActive
          intersliceShareActive := sup.intersliceShareActive.getD sc.intersliceShareActive
          dl := dl.slices
          ul := ul.slices } := by
      simp only [handle, prepareUpdateSliceConfig, prepared, prepared']
      rfl
    exact ⟨_, handled, dlAdmissible, ulAdmissible, separate⟩
  · intro sc sup result done
    unfold prepareUpdateSliceConfig at done
    cases dl : prepareDl sc.dl sup.dl with
    | error fault =>
      rw [dl] at done
      cases done
    | ok dlResult =>
      cases ul : prepareUl qsort nRb sc.ul sup.ul with
      | error fault =>
        simp only [dl, ul] at done
        cases done
      | ok ulResult =>
        simp only [dl, ul] at done
        cases done
        exact ⟨prepareDl_refused dl, prepareUl_refused ul⟩

def singleSlice : SliceConfig where
  dl :=
    [{ id := 0, percentage := 100, positionHigh := 25, maxmcs := 28, sorting := [.crRound],
       schedulerName := "schedule_ue_spec" }]
  ul := [{ id := 0, percentage := 100, maxmcs := 20, schedulerName := "schedule_ulsch_rnti" }]

theorem singleSlice_admissible (nRb : Nat) (band : nRb = 25) : singleSlice.Admissible nRb := by
  subst band
  exact ⟨⟨by decide, by decide, by decide, by decide⟩, ⟨by decide, by decide, by decide, by decide⟩,
    [⟨0, 25⟩], .refl _, List.pairwise_singleton _ _, by
      simp [Clear, SRegion.ReachesOver, nextStart]⟩

def insertionQsort : Qsort where
  sort regions := regions.insertionSort fun a b => a.start ≤ b.start
  perm := List.perm_insertionSort _
  sorted regions :=
    haveI : Std.Total
      fun a b : SRegion => a.start ≤ b.start := ⟨fun a b => Int.le_total a.start b.start⟩
    haveI : IsTrans SRegion fun a b => a.start ≤ b.start := ⟨fun _ _ _ ab bc => Int.le_trans ab bc⟩
    List.pairwise_insertionSort _ regions

def halve : SliceMessage where
  dl := [{ id := some 0, percentage := some 50 }]
  ul := [{ id := some 0, percentage := some 50, firstRb := some 12 }]

/-- Two DL slices are added to the one that is left, and the UL slice starts at the first block. -/
def addTwo : SliceMessage where
  dl := [{ id := some 1, percentage := some 30 }, { id := some 2, percentage := some 20 }]
  ul := [{ id := some 0, firstRb := some 0 }]

/-- A share that leaves more than the whole is refused. -/
def overfill : SliceMessage where
  dl := [{ id := some 1, percentage := some 90 }]

instance {α : Type} (id percentage : α → UInt32) (slices update : List α) :
    Decidable (NamesShares id percentage slices update) :=
  inferInstanceAs (Decidable (∀ u ∈ update, ∀ s ∈ record id slices (id u), percentage s ≠ 0))

instance (slices : List DlSlice) (entries : List DlSliceEntry) :
    Decidable (DlCareful slices entries) :=
  inferInstanceAs (Decidable (∀ update ∈ filledDl slices entries, _ ∧ _))

instance (nRb : Nat) (slices : List UlSlice) (entries : List UlSliceEntry) :
    Decidable (UlCareful nRb slices entries) :=
  inferInstanceAs (Decidable (∀ update ∈ filledUl slices entries, _ ∧ _ ∧ _))

instance (nRb : Nat) (sc : SliceConfig) (sup : SliceMessage) : Decidable (Careful nRb sc sup) :=
  decidable_of_iff (DlCareful sc.dl sup.dl ∧ UlCareful nRb sc.ul sup.ul)
    ⟨fun both => ⟨both.1, both.2⟩, fun careful => ⟨careful.dl, careful.ul⟩⟩

theorem slices_stay_admissible_added :
    ∃ sc', Run.run (handle insertionQsort 25) singleSlice [halve, addTwo, overfill] = some sc' ∧
    sc'.Admissible 25 :=
  (slices_stay_admissible insertionQsort 25 singleSlice (singleSlice_admissible 25 rfl)
    [halve, addTwo, overfill]
    (by decide +kernel)).1

/-- A message with a slice that starts behind the band stops the base station. -/
theorem slice_behind_band_asserts : ¬ ∀ (qsort : Qsort) (nRb : Nat)
    (sc : SliceConfig), sc.Admissible nRb →
    ∀ messages : List SliceMessage, ∃ sc', Run.run (handle qsort nRb) sc messages = some sc' ∧
      sc'.Admissible nRb := by
  intro claim
  obtain ⟨sc', ran, -⟩ := claim insertionQsort 25 singleSlice (singleSlice_admissible 25 rfl)
    [{ ul := [{ id := some 0, percentage := some 50, firstRb := some 30 }] }]
  cases ran

end OpenAir.Agent
