import OpenAir.Mac.FairShare

/-! The whole walk over the selection list. -/
namespace OpenAir.Mac.FairRR
open OpenAir.Mac.Cce (Bandwidth)

/-- The entry stands for resource blocks that were assigned before. -/
def UlschUeInfo.Reserved (ue : UlschUeInfo) : Prop := ue.uePriority = .prach ∨ ue.uePriority = .msg3

def UlschUeInfo.New (ue : UlschUeInfo) : Prop := ue.uePriority = .first ∨ ue.uePriority = .inactive

/-- What the random access procedures and `ulsch_scheduler_pre_ue_select_fairRR` leave. -/
structure HandedOver (list : List UlschUeInfo) : Prop where
  short : list.length < 256
  reservedFirst : list.Pairwise fun a b => b.Reserved → a.Reserved
  prach : ∀ ue ∈ list, ue.uePriority = .prach → ue.nbRb = 6

def Carrier.average (c : Carrier) (w : Walk) : Nat :=
  (round (((c.lastRb - w.firstRb : Nat) : ℚ) / ((w.ueNum - w.ulschUeNum : Nat) : ℚ))).toNat

/-- The states before the passes of the loop. -/
inductive Reached (c : Carrier) (list : List UlschUeInfo) : Walk → Prop where
  | start : Reached c list (c.start list)
  | next {w w' : Walk} : Reached c list w → w.ulschUeNum < w.ueNum →
      c.turn list w = some (.next w') → Reached c list w'

/-- Between the two PUCCH regions, one behind the other. -/
structure Carrier.Placed (c : Carrier) (assigned : List Assignment) : Prop where
  between : ∀ a ∈ assigned, c.numPucchRb ≤ a.range.first ∧ a.range.first + a.range.count ≤ c.lastRb
  apart : assigned.Pairwise fun a b => a.range.first + a.range.count ≤ b.range.first

/-- The walk goes through and places what it assigns, and every new UE gets the least that it
needs. -/
structure Carrier.Fair (c : Carrier) (list : List UlschUeInfo) : Prop where
  placed : ∃ w, c.preProcess list (list.length + 1) = some w ∧ c.Placed w.assigned
  least : ∀ w, Reached c list w → w.ulschUeNum < w.ueNum → ∀ ue ∈ list[w.ulschUeNum]?, ue.New →
    ∀ a, c.turn list w = some (.next (w.assign a)) →
      ∃ p, a.preAllocated = some p ∧ c.Least ue (c.average w) (c.lastRb - w.firstRb) a.range.count p

/-- The condition on a new UE, in a state in which it gets a share. -/
def Carrier.Fills (c : Carrier) (list : List UlschUeInfo) (w : Walk) : Prop :=
  ∀ ue ∈ list[w.ulschUeNum]?, ue.New → w.firstRb < c.lastRb → 3 ≤ c.average w →
    if ue.uePriority = .first ∧ 0 < ue.ulTotalBuffer then c.FillsBuffered ue (c.average w)
    else c.FillsThree ue (c.average w) (c.lastRb - w.firstRb)

theorem lastRb_lt (c : Carrier) : c.lastRb < 100 := by
  have positive : 0 < c.numPucchRb := by
    unfold Carrier.numPucchRb
    split_ifs <;> decide
  have bound : c.nRbUl ≤ 100 := by
    unfold Carrier.nRbUl
    cases c.bandwidth <;> decide
  unfold Carrier.lastRb
  omega

theorem numPucchRb_le (c : Carrier) : c.numPucchRb ≤ 3 := by
  unfold Carrier.numPucchRb
  split_ifs <;> decide

/-- What holds before every pass: the rest of the list is counted in `ueNumTemp`, what is assigned
lies below `firstRb`, and once something is assigned no reserved entry follows. -/
structure Inv (c : Carrier) (list : List UlschUeInfo) (w : Walk) : Prop where
  num : w.ulschUeNum ≤ w.ueNum
  length : w.ueNum ≤ list.length
  temp : w.ueNumTemp = w.ueNum - w.ulschUeNum
  low : c.numPucchRb ≤ w.firstRb
  placed : c.Placed w.assigned
  below : ∀ a ∈ w.assigned, a.range.first + a.range.count ≤ w.firstRb
  behind : w.assigned ≠ [] → ∀ k, w.ulschUeNum ≤ k → ∀ ue ∈ list[k]?, ¬ ue.Reserved

variable {c : Carrier} {list : List UlschUeInfo} {w w' : Walk} {ue : UlschUeInfo}

theorem pred8_eq {n : Nat} (positive : 0 < n) (small : n < 256) : pred8 n = n - 1 := by
  unfold pred8
  omega

theorem Inv.shorten (inv : Inv c list w) (handed : HandedOver list)
    (more : w.ulschUeNum < w.ueNum) : Inv c list w.shorten := by
  have short := handed.short
  have length := inv.length
  have temp := inv.temp
  have num : w.shorten.ueNum = w.ueNum - 1 := pred8_eq (by omega) (by omega)
  have left : w.shorten.ueNumTemp = w.ueNumTemp - 1 := pred8_eq (by omega) (by omega)
  refine ⟨?_, ?_, ?_, inv.low, inv.placed, inv.below, inv.behind⟩
  · rw [num]
    exact Nat.le_sub_one_of_lt more
  · rw [num]
    omega
  · rw [num, left, temp]
    exact Nat.sub_right_comm _ _ 1

theorem Inv.reserve (inv : Inv c list w) (handed : HandedOver list) (more : w.ulschUeNum < w.ueNum)
    {firstRb : Nat}
    (low : c.numPucchRb ≤ firstRb) (here : list[w.ulschUeNum]? = some ue) (reserved : ue.Reserved) :
    Inv c list (w.reserve firstRb) := by
  have short := handed.short
  have length := inv.length
  have temp := inv.temp
  have left : (w.reserve firstRb).ueNumTemp = w.ueNumTemp - 1 := pred8_eq (by omega) (by omega)
  have none : w.assigned = [] := by
    by_contra some
    exact inv.behind some w.ulschUeNum (Nat.le_refl _) ue here reserved
  have empty : (w.reserve firstRb).assigned = [] := none
  refine ⟨more, inv.length, ?_, low, ?_, ?_, fun some => absurd empty some⟩
  · rw [left, temp]
    exact Nat.sub_sub _ _ 1
  · rw [empty]
    exact ⟨nofun, List.Pairwise.nil⟩
  · rw [empty]
    exact nofun

theorem Inv.assign (inv : Inv c list w) (handed : HandedOver list) (more : w.ulschUeNum < w.ueNum)
    {a : Assignment}
    (first : a.range.first = w.firstRb) (fits : w.firstRb + a.range.count ≤ c.lastRb)
    (here : list[w.ulschUeNum]? = some ue)
    (shared : ¬ ue.Reserved) : Inv c list (w.assign a) := by
  have short := handed.short
  have length := inv.length
  have temp := inv.temp
  have left : (w.assign a).ueNumTemp = w.ueNumTemp - 1 := pred8_eq (by omega) (by omega)
  have members : ∀ b, b ∈ (w.assign a).assigned ↔ b ∈ w.assigned ∨ b = a := fun b => by
    rw [Walk.assign, List.mem_append, List.mem_singleton]
  refine ⟨more, inv.length, ?_, Nat.le_add_right_of_le inv.low, ⟨fun b member => ?_, ?_⟩,
    fun b member => ?_, fun _ k after other there => ?_⟩
  · rw [left, temp]
    exact Nat.sub_sub _ _ 1
  · rcases (members b).mp member with before | rfl
    · exact inv.placed.between b before
    · rw [first]
      exact ⟨inv.low, fits⟩
  · refine List.pairwise_append.mpr
      ⟨inv.placed.apart, List.pairwise_singleton _ a, fun b before d last => ?_⟩
    rw [List.mem_singleton.mp last, first]
    exact inv.below b before
  · rcases (members b).mp member with before | rfl
    · exact (inv.below b before).trans (Nat.le_add_right _ _)
    · rw [first]
      exact Nat.le_refl _
  · obtain ⟨insideK, rfl⟩ := List.getElem?_eq_some_iff.mp there
    obtain ⟨insideW, rfl⟩ := List.getElem?_eq_some_iff.mp here
    exact fun reserved =>
      shared (List.pairwise_iff_getElem.mp handed.reservedFirst _ _ insideW insideK after reserved)

/-- The share that an entry has, in 8-bit numbers, is that of the exact ones. -/
theorem share_eq (inv : Inv c list w) (more : w.ulschUeNum < w.ueNum) (left : w.firstRb < c.lastRb)
    (rule : Nat → Nat → Option (Option Assignment)) : c.average w ≤ c.lastRb - w.firstRb ∧
      c.share w rule = if c.average w < 3 then some (.next w.shorten)
        else (rule (c.lastRb - w.firstRb) (c.average w)).map
        fun result => result.elim .leave fun a => .next (w.assign a) := by
  have last := lastRb_lt c
  have positive : 0 < w.ueNum - w.ulschUeNum := Nat.sub_pos_of_lt more
  have average : roundedQuotient (c.lastRb - w.firstRb) w.ueNumTemp = some (c.average w) := by
    rw [inv.temp]
    exact roundedQuotient_eq _ positive
  have le : c.average w ≤ c.lastRb - w.firstRb := roundedQuotient_le average
  have total : (c.lastRb - w.firstRb) % 256 = c.lastRb - w.firstRb := Nat.mod_eq_of_lt (by omega)
  have small : c.average w % 256 = c.average w := Nat.mod_eq_of_lt (by omega)
  refine ⟨le, ?_⟩
  rw [Carrier.share, if_neg (Nat.not_le.mpr left)]
  simp only [total, average, Option.bind_eq_bind, Option.bind_some, small]
  by_cases few : c.average w < 3
  · rw [if_pos few, if_pos few]
  · rw [if_neg few, if_neg few]
    cases rule (c.lastRb - w.firstRb) (c.average w) with
    | none => rfl
    | some result => cases result <;> rfl

/-- The walk goes on with its invariant, nearer to the end of the list. -/
def Advances (c : Carrier) (list : List UlschUeInfo) (w w' : Walk) : Prop :=
  Inv c list w' ∧ w'.ueNum - w'.ulschUeNum < w.ueNum - w.ulschUeNum

theorem share_advances (inv : Inv c list w) (handed : HandedOver list)
    (more : w.ulschUeNum < w.ueNum)
    (here : list[w.ulschUeNum]? = some ue) (shared : ¬ ue.Reserved)
    {rule : Nat → Nat → Option (Option Assignment)}
    (ruled : w.firstRb < c.lastRb → 3 ≤ c.average w → c.average w ≤ c.lastRb - w.firstRb →
      ∃ a, rule (c.lastRb - w.firstRb) (c.average w) = some (some a) ∧ a.range.first = w.firstRb ∧
        a.range.count ≤ c.lastRb - w.firstRb) :
    ∃ outcome, c.share w rule = some outcome ∧ ∀ w', outcome = .next w' → Advances c list w w' := by
  by_cases full : c.lastRb ≤ w.firstRb
  · exact ⟨.leave, if_pos full, nofun⟩
  have left := Nat.not_le.mp full
  obtain ⟨le, equal⟩ := share_eq inv more left rule
  by_cases few : c.average w < 3
  · refine ⟨.next w.shorten, by rw [equal, if_pos few], fun w' same => ?_⟩
    cases same
    refine ⟨inv.shorten handed more, ?_⟩
    have short := handed.short
    have length := inv.length
    have num : w.shorten.ueNum = w.ueNum - 1 := pred8_eq (by omega) (by omega)
    have index : w.shorten.ulschUeNum = w.ulschUeNum := rfl
    omega
  · obtain ⟨a, result, first, count⟩ := ruled left (Nat.not_lt.mp few) le
    refine ⟨.next (w.assign a), by rw [equal, if_neg few, result]; rfl, fun w' same => ?_⟩
    cases same
    refine ⟨inv.assign handed more first (by omega) here shared, ?_⟩
    have index : (w.assign a).ulschUeNum = w.ulschUeNum + 1 := rfl
    have num : (w.assign a).ueNum = w.ueNum := rfl
    omega

theorem reserve_advances (inv : Inv c list (w.reserve firstRb)) (more : w.ulschUeNum < w.ueNum) :
    Advances c list w (w.reserve firstRb) := by
  refine ⟨inv, ?_⟩
  have index : (w.reserve firstRb).ulschUeNum = w.ulschUeNum + 1 := rfl
  have num : (w.reserve firstRb).ueNum = w.ueNum := rfl
  omega

theorem turn_advances (mono : c.Monotone) (inv : Inv c list w) (handed : HandedOver list)
    (more : w.ulschUeNum < w.ueNum) :
    ∃ outcome, c.turn list w = some outcome ∧ ∀ w', outcome = .next w' → Advances c list w w' := by
  have last := lastRb_lt c
  have pucch := numPucchRb_le c
  obtain ⟨ue, here⟩ : ∃ ue, list[w.ulschUeNum]? = some ue :=
    ⟨_, List.getElem?_eq_getElem (Nat.lt_of_lt_of_le more inv.length)⟩
  have three : w.firstRb < c.lastRb → 3 ≤ c.average w → c.average w ≤ c.lastRb - w.firstRb →
      ∃ a, some (some (threeRbs w.firstRb)) = some (some a) ∧ a.range.first = w.firstRb ∧
          a.range.count ≤ c.lastRb - w.firstRb :=
    fun _ atLeast le => ⟨threeRbs w.firstRb, rfl, rfl, atLeast.trans le⟩
  simp only [Carrier.turn, here, Option.bind_eq_bind, Option.bind_some]
  cases priority : ue.uePriority with
  | prach =>
    have blocks := handed.prach ue (List.mem_of_getElem? here) priority
    refine ⟨_, rfl, fun w' same => ?_⟩
    cases same
    exact reserve_advances (inv.reserve handed more (by omega) here (Or.inl priority)) more
  | msg3 =>
    refine ⟨_, rfl, fun w' same => ?_⟩
    cases same
    exact reserve_advances
      (inv.reserve handed more (Nat.le_add_right_of_le inv.low) here (Or.inr priority)) more
  | retrans =>
    refine share_advances inv handed more here (by rw [UlschUeInfo.Reserved, priority]; decide)
      fun _ atLeast le => ?_
    obtain ⟨n, found, fits⟩ := retransmittedRbs_spec ue.nbRb le (atLeast.trans le) (by omega)
    exact ⟨⟨⟨w.firstRb, n⟩, none⟩, by rw [found]; rfl, rfl, fits⟩
  | first =>
    refine share_advances inv handed more here (by rw [UlschUeInfo.Reserved, priority]; decide)
      fun left atLeast le => ?_
    by_cases buffered : 0 < ue.ulTotalBuffer
    · obtain ⟨p, found, fits, _⟩ := bufferedRbs_spec ue mono atLeast le (by omega)
      exact ⟨_, by rw [if_pos buffered, found], rfl, fits.trans le⟩
    · rw [if_neg buffered]
      exact three left atLeast le
  | inactive =>
    exact share_advances inv handed more here (by rw [UlschUeInfo.Reserved, priority]; decide) three

theorem start_inv : Inv c list (c.start list) where
  num := Nat.zero_le _
  length := Nat.le_refl _
  temp := rfl
  low := Nat.le_refl _
  placed := ⟨nofun, List.Pairwise.nil⟩
  below := nofun
  behind some := absurd rfl some

theorem loop_ends (mono : c.Monotone) (handed : HandedOver list) {fuel : Nat} (inv : Inv c list w)
    (enough : w.ueNum - w.ulschUeNum < fuel) : ∃ w', c.loop list fuel w = some w' ∧
    Inv c list w' := by
  induction fuel generalizing w with
  | zero => exact absurd enough (Nat.not_lt_zero _)
  | succ fuel ih =>
    rw [Carrier.loop]
    by_cases more : w.ulschUeNum < w.ueNum
    · obtain ⟨outcome, turned, advances⟩ := turn_advances mono inv handed more
      rw [if_pos more, turned, Option.bind_eq_bind, Option.bind_some]
      cases outcome with
      | leave => exact ⟨w, rfl, inv⟩
      | next w' =>
        obtain ⟨inv', nearer⟩ := advances w' rfl
        exact ih inv' (by omega)
    · rw [if_neg more]
      exact ⟨w, rfl, inv⟩

theorem Reached.inv (mono : c.Monotone) (handed : HandedOver list) (reached : Reached c list w) :
    Inv c list w := by
  induction reached with
  | start => exact start_inv
  | next _ more turned ih =>
    obtain ⟨outcome, same, advances⟩ := turn_advances mono ih handed more
    cases turned.symm.trans same
    exact (advances _ rfl).1

theorem assign_inj {a b : Assignment} (same : w.assign a = w.assign b) : a = b := by
  have assigned : w.assigned ++ [a] = w.assigned ++ [b] := congrArg Walk.assigned same
  exact List.singleton_inj.mp (List.append_cancel_left assigned)

theorem shorten_ne_assign (a : Assignment) : w.shorten ≠ w.assign a := by
  intro same
  have index : w.ulschUeNum = w.ulschUeNum + 1 := congrArg Walk.ulschUeNum same
  exact absurd index (Nat.ne_of_lt (Nat.lt_succ_self _))

/-- A new UE gets the least that it needs exactly under the condition of its rule. -/
theorem share_least_iff {rule : Nat → Nat → Option (Option Assignment)} {fills : Prop}
    (inv : Inv c list w)
    (more : w.ulschUeNum < w.ueNum)
    (ruled : w.firstRb < c.lastRb → 3 ≤ c.average w → c.average w ≤ c.lastRb - w.firstRb →
      ∃ a p, rule (c.lastRb - w.firstRb) (c.average w) = some (some a) ∧ a.preAllocated = some p ∧
        (c.Least ue (c.average w) (c.lastRb - w.firstRb) a.range.count p ↔ fills)) :
    (∀ a, c.share w rule = some (.next (w.assign a)) →
        ∃ p, a.preAllocated = some p ∧
          c.Least ue (c.average w) (c.lastRb - w.firstRb) a.range.count p) ↔
      (w.firstRb < c.lastRb → 3 ≤ c.average w → fills) := by
  by_cases full : c.lastRb ≤ w.firstRb
  · refine iff_of_true (fun b shared => ?_) fun left => absurd full (Nat.not_le.mpr left)
    rw [Carrier.share, if_pos full] at shared
    exact nomatch shared
  have left := Nat.not_le.mp full
  obtain ⟨le, equal⟩ := share_eq inv more left rule
  rw [equal]
  by_cases few : c.average w < 3
  · rw [if_pos few]
    refine iff_of_true (fun b shared => ?_) fun _ three => absurd few (Nat.not_lt.mpr three)
    exact absurd (Outcome.next.inj (Option.some.inj shared)) (shorten_ne_assign b)
  have three := Nat.not_lt.mp few
  obtain ⟨a, p, result, stored, exactly⟩ := ruled left three le
  rw [if_neg few, result]
  constructor
  · intro least _ _
    obtain ⟨q, same, holds⟩ := least a rfl
    cases stored.symm.trans same
    exact exactly.mp holds
  · intro holds b shared
    obtain rfl := assign_inj (Outcome.next.inj (Option.some.inj shared))
    exact ⟨p, stored, exactly.mpr (holds left three)⟩

theorem turn_least_iff (mono : c.Monotone) (inv : Inv c list w) (more : w.ulschUeNum < w.ueNum) :
    (∀ ue ∈ list[w.ulschUeNum]?, ue.New → ∀ a, c.turn list w = some (.next (w.assign a)) →
        ∃ p, a.preAllocated = some p ∧
          c.Least ue (c.average w) (c.lastRb - w.firstRb) a.range.count p) ↔ c.Fills list w := by
  have last := lastRb_lt c
  refine forall_congr' fun ue => forall_congr' fun here => forall_congr' fun new => ?_
  have here : list[w.ulschUeNum]? = some ue := here
  simp only [Carrier.turn, here, Option.bind_eq_bind, Option.bind_some]
  rcases new with priority | priority
  · simp only [priority, true_and]
    refine share_least_iff inv more fun left atLeast le => ?_
    by_cases buffered : 0 < ue.ulTotalBuffer
    · obtain ⟨p, found, _, exactly⟩ := bufferedRbs_spec ue mono atLeast le (by omega)
      rw [if_pos buffered, if_pos buffered, found]
      exact ⟨_, p, rfl, rfl, exactly⟩
    · rw [if_neg buffered, if_neg buffered]
      exact ⟨threeRbs w.firstRb, _, rfl, rfl, threeRbs_least_iff⟩
  · simp only [priority]
    exact share_least_iff inv more
      fun _ _ _ => ⟨threeRbs w.firstRb, _, rfl, rfl, threeRbs_least_iff⟩

/-- The walk is fair exactly when it takes no number of bits for a number of bytes, and three
resource blocks are enough wherever it gives three. -/
theorem fair_iff_fills (c : Carrier) (list : List UlschUeInfo) (mono : c.Monotone)
    (handed : HandedOver list) :
    c.Fair list ↔ ∀ w, Reached c list w → w.ulschUeNum < w.ueNum → c.Fills list w := by
  constructor
  · intro fair w reached more
    exact (turn_least_iff mono (reached.inv mono handed) more).mp (fair.least w reached more)
  · intro fills
    refine ⟨?_, fun w reached more => (turn_least_iff mono (reached.inv mono handed) more).mpr
      (fills w reached more)⟩
    obtain ⟨w, ended, inv⟩ := loop_ends mono handed start_inv (Nat.lt_succ_self list.length)
    exact ⟨w, ended, inv.placed⟩

def sizes : TbsTable where
  bits _ n := [144, 328, 504, 680, 872].getD n 1032
  bounded _ n := by
    rcases n with _ | _ | _ | _ | _ | n <;> simp

/-- 50 resource blocks, and no power needed. -/
def wide : Carrier := ⟨false, .n50, sizes, fun _ _ => 0⟩

def hundredBytes : UlschUeInfo := ⟨.first, 0, 0, 100, 100, 0, false, 40⟩

theorem wide_monotone : wide.Monotone where
  tbs mcs n k le := by
    have grows : ∀ a b : Nat, a ≤ b → [144, 328, 504, 680, 872].getD a 1032 ≤
        [144, 328, 504, 680, 872].getD b 1032 := by
      intro a b le
      rcases a with _ | _ | _ | _ | _ | a <;> rcases b with _ | _ | _ | _ | _ | b
        <;> first | omega | simp
    unfold getTbsUl
    split_ifs with first second second
    · rw [Nat.shiftRight_eq_div_pow, Nat.shiftRight_eq_div_pow]
      exact Nat.div_le_div_right (grows _ _ (Nat.sub_le_sub_right le 1))
    · exact absurd ⟨first.1.trans_le le, first.2⟩ second
    · exact Nat.zero_le _
    · exact Nat.le_refl 0
  power _ _ _ _ := le_refl 0

theorem hundredBytes_handedOver : HandedOver [hundredBytes] := by
  refine ⟨by decide, List.pairwise_singleton _ _, fun ue member prach => ?_⟩
  rw [List.mem_singleton.mp member] at prach
  exact nomatch prach

theorem fair_iff_fills_wide : wide.Fair [hundredBytes] ↔
    ∀ w, Reached wide [hundredBytes] w → w.ulschUeNum < w.ueNum → wide.Fills [hundredBytes] w :=
  fair_iff_fills wide [hundredBytes] wide_monotone hundredBytes_handedOver

/-- Four resource blocks, of 85 bytes, for 100 bytes. -/
theorem not_always_fair : ¬ ∀ (c : Carrier) (list : List UlschUeInfo), c.Monotone →
    HandedOver list → c.Fair list := by
  intro all
  have fair := all wide [hundredBytes] wide_monotone hundredBytes_handedOver
  obtain ⟨p, stored, least⟩ := fair.least _ .start Nat.one_pos hundredBytes rfl (Or.inl rfl)
    ⟨⟨2, 4⟩, some ⟨3, 10⟩⟩ rfl
  cases stored
  have average : wide.average (wide.start [hundredBytes]) = 46 :=
    Option.some.inj (roundedQuotient_eq 46 Nat.one_pos).symm
  have enough := least.enough
  rw [average] at enough
  exact absurd enough (by decide)

end OpenAir.Mac.FairRR
