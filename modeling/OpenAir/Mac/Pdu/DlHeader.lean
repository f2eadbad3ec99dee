import Mathlib.Data.List.Basic
import OpenAir.Mac.Pdu.Framing

/-! The downlink MAC header: written by the eNB, read by the UE. -/
namespace OpenAir.Mac.Pdu
open BitField (Memory)

/-- What the generator is given besides the SDUs and the padding. -/
structure DlCommands where
  /-- 255 for none. -/
  drxCmd : UInt8
  /-- 31 for none. -/
  timingAdvanceCmd : UInt16
  ueContResId : Option (List UInt8)
  sixBytes : ∀ id ∈ ueContResId, id.length = 6

def DlCommands.tail (commands : DlCommands) : List (Nat × List UInt8) :=
  (if commands.timingAdvanceCmd ≠ 31 then
    [(29, [UInt8.ofNat commands.timingAdvanceCmd.toNat])] else []) ++
    (commands.ueContResId.map fun id => (28, id)).toList

/-- LCIDs and bytes of the control elements, in the order in which they are written. -/
def DlCommands.list (commands : DlCommands) : List (Nat × List UInt8) :=
  (if commands.drxCmd ≠ 255 then [(30, [])] else []) ++ commands.tail

/-- The buffer after the call and the returned length; `none` when the assertion on the timing
advance fails. -/
def generateDlschHeader (buffer : Memory) (sdus : List (Nat × Nat)) (commands : DlCommands)
    (shortPadding postPadding : Nat) :
    Option (Memory × Nat) :=
  if commands.timingAdvanceCmd ≠ 31 ∧ 64 ≤ commands.timingAdvanceCmd.toNat then none
  else
    let w := ((Writer.start buffer).shortPadding shortPadding).elements commands.list
    some ((w.sdus sdus).finish postPadding)

/-- With nothing but a contention resolution and one SDU the header is short. -/
theorem generateDlschHeader_contRes {buffer : Memory} {commands : DlCommands} {id : List UInt8}
    {lcid n shortPadding postPadding : Nat} {header : Memory × Nat}
    (alone : commands.drxCmd = 255 ∧ commands.timingAdvanceCmd = 31 ∧
      commands.ueContResId = some id)
    (generated : generateDlschHeader buffer [(lcid, n)] commands shortPadding
      postPadding = some header) :
    0 < header.2 ∧ header.2 < 256 := by
  obtain ⟨drx, timing, contRes⟩ := alone
  have six : id.length = 6 := commands.sixBytes id contRes
  have list : commands.list = [(28, id)] := by
    simp [DlCommands.list, DlCommands.tail, drx, timing, contRes]
  rw [generateDlschHeader, if_neg (fun set => set.1 timing), list] at generated
  obtain rfl := Option.some.inj generated
  simp only [Writer.elements, Writer.sdus, List.foldl_cons, List.foldl_nil, Writer.shortPadding]
  unfold Writer.finish Writer.sdu Writer.element Writer.advance
  by_cases one : shortPadding = 1 <;> by_cases two : shortPadding = 2 <;>
    by_cases post : 0 < postPadding <;> by_cases short : n < 128
      <;> simp [one, two, post, short, Writer.start, six]

/-- What the UE takes from a control element. -/
inductive DlCe where
  | contRes (id : List UInt8)
  | timingAdvance (command : Nat)
  | drx
deriving DecidableEq

structure UeSend where
  /-- `payload_ptr - sdu` -/
  ptr : Nat
  raActive : Bool
  received : List DlCe
  /-- The contention was lost: the function returns. -/
  failed : Bool

/-- The loop over `rx_ces` in `ue_send_sdu`. The comparison of the identity runs over the same
`i`, which is 7 in the next round. `txSdu` are the bytes of Msg3 it is compared with. -/
def ueCes (mem : Memory) (txSdu : List UInt8) (ces : List Nat) : Nat → Nat → UeSend → UeSend
  | 0, _, s => s
  | rounds + 1, i, s =>
    match ces[i]? with
    | none => s
    | some 28 =>
      let s' : UeSend := { s with received := s.received ++ [.contRes (bytesAt mem s.ptr 6)] }
      if s.raActive then
        if bytesAt mem s.ptr 6 = txSdu then
          ueCes mem txSdu ces rounds 7 { s' with raActive := false, ptr := s.ptr + 6 }
        else { s' with raActive := false, failed := true }
      else ueCes mem txSdu ces rounds (i + 1) { s' with ptr := s.ptr + 6 }
    | some 29 =>
      ueCes mem txSdu ces rounds (i + 1)
        { s with received := s.received ++ [.timingAdvance (mem s.ptr).toNat], ptr := s.ptr + 1 }
    | some 30 =>
      ueCes mem txSdu ces rounds (i + 1)
        { s with received := s.received ++ [.drx], ptr := s.ptr + 1 }
    | some _ => ueCes mem txSdu ces rounds (i + 1) s

/-- Where the loop over the SDUs starts, and what was received before. -/
def ueStart (mem : Memory) (raActive : Bool) (txSdu : List UInt8) (read : HeaderRead) : UeSend :=
  ueCes mem txSdu read.ces read.ces.length 0 ⟨read.ptr, raActive, [], false⟩

/-- The SDUs that are handed over, each with its channel: to RRC for `CCCH`, otherwise to RLC. -/
def ueSdus (mem : Memory) : Nat → List (Nat × Nat) → List (Nat × List UInt8)
  | _, [] => []
  | a, (lcid, length) :: rest =>
    if lcid < nbRbMax then (lcid, bytesAt mem a length) :: ueSdus mem (a + length) rest
    else ueSdus mem (a + length) rest

/-- The commands received and the SDUs handed over, of an accepted block. -/
def ueSendSdu (mem : Memory) (raActive : Bool) (txSdu : List UInt8) (read : HeaderRead) :
    List DlCe × List (Nat × List UInt8) :=
  let s := ueStart mem raActive txSdu read
  (s.received, if s.failed then [] else ueSdus mem s.ptr read.sdus)

def DlCommands.tailValues (commands : DlCommands) : List DlCe :=
  (if commands.timingAdvanceCmd ≠ 31 then
    [.timingAdvance commands.timingAdvanceCmd.toNat] else []) ++
    (commands.ueContResId.map DlCe.contRes).toList

def DlCommands.values (commands : DlCommands) : List DlCe :=
  (if commands.drxCmd ≠ 255 then [.drx] else []) ++ commands.tailValues

section Elements

variable {mem : Memory} {txSdu : List UInt8} {ces : List Nat}

/-- The same loop over the list, which the contention resolution ends. -/
def walk (mem : Memory) (txSdu : List UInt8) : List Nat → UeSend → UeSend
  | [], s => s
  | lcid :: rest, s =>
    if lcid = 28 then
      let s' : UeSend := { s with received := s.received ++ [.contRes (bytesAt mem s.ptr 6)] }
      if s.raActive then
        if bytesAt mem s.ptr 6 = txSdu then { s' with raActive := false, ptr := s.ptr + 6 }
        else { s' with raActive := false, failed := true }
      else walk mem txSdu rest { s' with ptr := s.ptr + 6 }
    else if lcid = 29 then
      walk mem txSdu rest
        { s with received := s.received ++ [.timingAdvance (mem s.ptr).toNat], ptr := s.ptr + 1 }
    else if lcid = 30 then
      walk mem txSdu rest { s with received := s.received ++ [.drx], ptr := s.ptr + 1 }
    else walk mem txSdu rest s

theorem ueCes_end {rounds i : Nat} {s : UeSend} (ends : ces.length ≤ i) :
    ueCes mem txSdu ces rounds i s = s := by
  cases rounds with
  | zero => rfl
  | succ rounds => rw [ueCes, List.getElem?_eq_none ends]

theorem ueCes_walk (few : ces.length ≤ 7) {rounds i : Nat} {s : UeSend}
    (enough : ces.length ≤ i + rounds) :
    ueCes mem txSdu ces rounds i s = walk mem txSdu (ces.drop i) s := by
  induction rounds generalizing i s with
  | zero =>
    rw [List.drop_eq_nil_of_le (Nat.le_trans enough (Nat.le_of_eq (Nat.add_zero i)))]
    rfl
  | succ rounds ih =>
    by_cases inside : i < ces.length
    · have later : ces.length ≤ i + 1 + rounds := by omega
      rw [List.drop_eq_getElem_cons inside, walk, ueCes, List.getElem?_eq_getElem inside]
      generalize ces[i] = lcid
      split
      · rename_i found
        exact nomatch found
      · rename_i found
        obtain rfl := Option.some.inj found
        simp only [if_true]
        rw [ueCes_end few, ih later]
      · rename_i found
        obtain rfl := Option.some.inj found
        exact ih later
      · rename_i found
        obtain rfl := Option.some.inj found
        exact ih later
      · rename_i other noContRes noTiming noDrx found
        obtain rfl := Option.some.inj found
        rw [if_neg noContRes, if_neg noTiming, if_neg noDrx]
        exact ih later
    · rw [ueCes_end (Nat.not_lt.mp inside), List.drop_eq_nil_of_le (Nat.not_lt.mp inside)]
      rfl

theorem ueStart_walk {read : HeaderRead} {raActive : Bool} (few : read.ces.length ≤ maxNumCe) :
    ueStart mem raActive txSdu read = walk mem txSdu read.ces ⟨read.ptr, raActive, [], false⟩ := by
  rw [ueStart, ueCes_walk (Nat.le_trans few (by decide)) (Nat.le_of_eq (Nat.zero_add _).symm),
    List.drop_zero]

theorem ceBytes_cons (lcid : Nat) (rest : List Nat) :
    ceBytes dlRules (lcid :: rest) = dlRules.ceSize lcid + ceBytes dlRules rest := rfl

/-- Every element moves the pointer by its size, and a DRX command by one more. -/
theorem walk_ptr {s : UeSend} (runs : s.raActive = false ∨ 28 ∉ ces) :
    (walk mem txSdu ces s).ptr = s.ptr + ceBytes dlRules ces + ces.count 30 := by
  induction ces generalizing s with
  | nil => rfl
  | cons lcid rest ih =>
    have rests : s.raActive = false ∨ 28 ∉ rest :=
      runs.imp_right fun absent member => absent (List.mem_cons_of_mem _ member)
    rw [walk, ceBytes_cons]
    by_cases contRes : lcid = 28
    · subst contRes
      have inactive : s.raActive = false :=
        runs.resolve_right fun absent => absent List.mem_cons_self
      simp only [if_true, inactive, Bool.false_eq_true, if_false]
      rw [ih (.inl rfl), List.count_cons_of_ne (by decide)]
      simp only [dlRules, Nat.add_assoc]
      rfl
    · by_cases timing : lcid = 29
      · subst timing
        rw [if_neg contRes, if_pos rfl, ih, List.count_cons_of_ne (by decide)]
        · simp only [dlRules, Nat.add_assoc, if_true]
        · exact rests
      · by_cases drx : lcid = 30
        · subst drx
          have none : dlRules.ceSize 30 = 0 := rfl
          rw [if_neg contRes, if_neg timing, if_pos rfl, ih, List.count_cons_self]
          · simp only [none]
            omega
          · exact rests
        · have none : dlRules.ceSize lcid = 0 := by simp [dlRules, contRes, timing]
          rw [if_neg contRes, if_neg timing, if_neg drx, ih rests, none, Nat.zero_add,
            List.count_cons_of_ne drx]

/-- With random access active, nothing is looked at behind the contention resolution. -/
theorem walk_contRes {s : UeSend} {before after : List Nat} (active : s.raActive = true)
    (first : 28 ∉ before)
    (won : (walk mem txSdu (before ++ 28 :: after) s).failed = false) :
    (walk mem txSdu (before ++ 28 :: after) s).ptr = s.ptr + ceBytes dlRules before +
    before.count 30 + 6 := by
  induction before generalizing s with
  | nil =>
    simp only [List.nil_append, walk, if_true, active] at won ⊢
    by_cases same : bytesAt mem s.ptr 6 = txSdu
    · rw [if_pos same]
      rfl
    · rw [if_neg same] at won
      exact nomatch won
  | cons lcid rest ih =>
    have other : lcid ≠ 28 := fun same => first (same ▸ List.mem_cons_self)
    have absent : 28 ∉ rest := fun member => first (List.mem_cons_of_mem _ member)
    rw [List.cons_append, walk, if_neg other] at won ⊢
    rw [ceBytes_cons]
    by_cases timing : lcid = 29
    · subst timing
      rw [if_pos rfl] at won ⊢
      rw [ih _ absent won, List.count_cons_of_ne (by decide)]
      · simp only [dlRules, Nat.add_assoc, if_true]
      · exact active
    · by_cases drx : lcid = 30
      · subst drx
        rw [if_neg timing, if_pos rfl] at won ⊢
        have none : dlRules.ceSize 30 = 0 := rfl
        rw [ih _ absent won, List.count_cons_self]
        · simp only [none]
          omega
        · exact active
      · have none : dlRules.ceSize lcid = 0 := by simp [dlRules, other, timing]
        rw [if_neg timing, if_neg drx] at won ⊢
        rw [ih active absent won, none, Nat.zero_add, List.count_cons_of_ne drx]

/-- The pointer comes out right: no DRX command is looked at, or as many as there are bytes of
control elements behind the contention resolution at which the UE stops. -/
def Aligned (raActive : Bool) (ces : List Nat) : Prop :=
  (raActive = false ∨ 28 ∉ ces → 30 ∉ ces) ∧
    ∀ before after, raActive = true → ces = before ++ 28 :: after → 28 ∉ before →
      before.count 30 = ceBytes dlRules after

/-- A list is split in one way only at the first place where an element stands. -/
theorem split_unique {x : Nat} {before front after back : List Nat} (first : x ∉ before)
    (also : x ∉ front)
    (same : before ++ x :: after = front ++ x :: back) : before = front ∧ after = back := by
  induction before generalizing front with
  | nil =>
    cases front with
    | nil => exact ⟨rfl, (List.cons_eq_cons.mp same).2⟩
    | cons y rest =>
      obtain ⟨rfl, -⟩ := List.cons_eq_cons.mp same
      exact absurd List.mem_cons_self also
  | cons y rest ih =>
    cases front with
    | nil =>
      obtain ⟨rfl, -⟩ := List.cons_eq_cons.mp same
      exact absurd List.mem_cons_self first
    | cons z others =>
      obtain ⟨rfl, tails⟩ := List.cons_eq_cons.mp same
      obtain ⟨rfl, rfl⟩ := ih (fun member => first (List.mem_cons_of_mem _ member))
        (fun member => also (List.mem_cons_of_mem _ member)) tails
      exact ⟨rfl, rfl⟩

theorem walk_aligned {ptr : Nat} {raActive : Bool}
    (won : (walk mem txSdu ces ⟨ptr, raActive, [], false⟩).failed = false) :
    (walk mem txSdu ces ⟨ptr, raActive, [], false⟩).ptr = ptr + ceBytes dlRules ces ↔
    Aligned raActive ces := by
  by_cases runs : raActive = false ∨ 28 ∉ ces
  · rw [walk_ptr (s := ⟨ptr, raActive, [], false⟩) runs, Nat.add_eq_left, List.count_eq_zero]
    refine ⟨fun absent => ⟨fun _ => absent, ?_⟩, fun aligned => aligned.1 runs⟩
    rintro before after active rfl -
    obtain inactive | none := runs
    · rw [inactive] at active
      exact nomatch active
    · exact absurd (List.mem_append_right _ List.mem_cons_self) none
  · rw [not_or, Bool.not_eq_false, not_not] at runs
    obtain ⟨rfl, member⟩ := runs
    obtain ⟨before, after, rfl, first⟩ := List.eq_append_cons_of_mem member
    have total : ceBytes dlRules (before ++ 28 :: after) = ceBytes dlRules before +
        (6 + ceBytes dlRules after) := by
      rw [ceBytes_append]
      rfl
    rw [walk_contRes rfl first won, total]
    constructor
    · intro same
      refine ⟨fun runs => ?_, ?_⟩
      · obtain inactive | absent := runs
        · exact nomatch inactive
        · exact absurd member absent
      · intro front back _ split also
        obtain ⟨rfl, rfl⟩ := split_unique first also split
        simp only at same
        omega
    · intro aligned
      have count := aligned.2 before after rfl rfl first
      simp only
      omega

def HoldsAt (mem : Memory) (a : Nat) (bytes : List UInt8) : Prop :=
  ∀ k < bytes.length, mem (a + k) = bytes.getD k 0

theorem holdsAt_append {a : Nat} {first second : List UInt8} :
    HoldsAt mem a (first ++ second) ↔ HoldsAt mem a first ∧
    HoldsAt mem (a + first.length) second := by
  constructor
  · intro held
    refine ⟨fun k inside => ?_, fun k inside => ?_⟩
    · rw [held k (by rw [List.length_append]; omega), List.getD_append _ _ _ _ inside]
    · rw [Nat.add_assoc, held _ (by rw [List.length_append]; omega),
        List.getD_append_right _ _ _ _ (Nat.le_add_right ..), Nat.add_sub_cancel_left]
  · rintro ⟨low, high⟩ k inside
    rw [List.length_append] at inside
    by_cases early : k < first.length
    · rw [low k early, List.getD_append _ _ _ _ early]
    · have place := high (k - first.length) (by omega)
      rw [Nat.add_assoc, Nat.add_sub_cancel' (Nat.not_lt.mp early)] at place
      rw [place, List.getD_append_right _ _ _ _ (Nat.not_lt.mp early)]

theorem bytesAt_eq_iff {a : Nat} {bytes : List UInt8} : bytesAt mem a bytes.length = bytes ↔
    HoldsAt mem a bytes := by
  refine ⟨fun same k inside => ?_, bytesAt_eq⟩
  have place : (bytesAt mem a bytes.length).getD k 0 = mem (a + k) := by
    simp [bytesAt, List.getD_eq_getElem?_getD, inside]
  rw [← place, same]

/-- What a walk over some control elements does: it reads values that are those sent when the
bytes at its pointer are. -/
structure Receives (mem : Memory) (ptr : Nat) (received : List DlCe) (bytes : List UInt8)
    (values : List DlCe)
    (lost : Prop) (s : UeSend) : Prop where
  read : ∃ read, s.received = received ++ read ∧ (read = values ↔ HoldsAt mem ptr bytes)
  failed : HoldsAt mem ptr bytes → (s.failed = true ↔ lost)
  moved : s.failed = false → s.ptr = ptr + bytes.length

theorem walk_id (id? : Option (List UInt8)) (six : ∀ id ∈ id?, id.length = 6) (ptr : Nat)
    (raActive : Bool)
    (received : List DlCe) :
    Receives mem ptr received (elementBytes (id?.map fun id => (28, id)).toList)
      (id?.map DlCe.contRes).toList
      (raActive = true ∧ ∃ id ∈ id?, id ≠ txSdu)
      (walk mem txSdu ((id?.map fun id => (28, id)).toList.map Prod.fst)
        ⟨ptr, raActive, received, false⟩) := by
  cases id? with
  | none =>
    refine ⟨⟨[], (List.append_nil _).symm, iff_of_true rfl nofun⟩,
      fun _ => iff_of_false nofun ?_, fun _ => rfl⟩
    rintro ⟨-, id, none, -⟩
    exact nomatch none
  | some id =>
    have length := six id rfl
    have bytes : elementBytes [(28, id)] = id := List.append_nil id
    have held : HoldsAt mem ptr id ↔ bytesAt mem ptr 6 = id := by rw [← length, bytesAt_eq_iff]
    have read : [DlCe.contRes (bytesAt mem ptr 6)] = [.contRes id] ↔
      HoldsAt mem ptr id := by simp [held]
    simp only [Option.map_some, Option.toList_some, List.map_cons, List.map_nil, walk,
      if_true, bytes]
    cases raActive with
    | false =>
      refine ⟨⟨_, rfl, read⟩, fun _ => iff_of_false nofun ?_, fun _ => by rw [length]; rfl⟩
      rintro ⟨inactive, -⟩
      exact nomatch inactive
    | true =>
      simp only [if_true]
      by_cases same : bytesAt mem ptr 6 = txSdu
      · rw [if_pos same]
        refine ⟨⟨_, rfl, read⟩, fun holds => iff_of_false nofun ?_, fun _ => by rw [length]⟩
        rintro ⟨-, other, found, differs⟩
        obtain rfl := Option.some.inj found
        exact differs ((held.mp holds).symm.trans same)
      · rw [if_neg same]
        refine ⟨⟨_, rfl, read⟩,
          fun holds => iff_of_true rfl ⟨trivial, id, rfl, fun equal => same ?_⟩, nofun⟩
        exact (held.mp holds).trans equal

theorem walk_tail (commands : DlCommands)
    (small : commands.timingAdvanceCmd = 31 ∨ commands.timingAdvanceCmd.toNat < 64)
    (ptr : Nat) (raActive : Bool) (received : List DlCe) :
    Receives mem ptr received (elementBytes commands.tail) commands.tailValues
      (raActive = true ∧ ∃ id ∈ commands.ueContResId, id ≠ txSdu)
      (walk mem txSdu (commands.tail.map Prod.fst) ⟨ptr, raActive, received, false⟩) := by
  unfold DlCommands.tail DlCommands.tailValues
  by_cases none : commands.timingAdvanceCmd = 31
  · simp only [none, ne_eq, not_true_eq_false, if_false, List.nil_append]
    exact walk_id _ commands.sixBytes ptr raActive received
  · have value : (UInt8.ofNat commands.timingAdvanceCmd.toNat).toNat =
        commands.timingAdvanceCmd.toNat :=
      toNat_ofNat_lt (Nat.lt_trans (small.resolve_left none) (by decide))
    have byte : (mem ptr).toNat = commands.timingAdvanceCmd.toNat ↔
        HoldsAt mem ptr [UInt8.ofNat commands.timingAdvanceCmd.toNat] := by
      constructor
      · rintro same _ (_ | ⟨⟨⟩⟩)
        exact UInt8.toNat_inj.mp (same.trans value.symm)
      · intro held
        exact (congrArg UInt8.toNat (held 0 (Nat.succ_pos 0))).trans value
    simp only [none, ne_eq, not_false_eq_true, if_true]
    obtain ⟨⟨read, received', same⟩, failed, moved⟩ :=
      walk_id commands.ueContResId commands.sixBytes (ptr + 1) raActive
        (received ++ [.timingAdvance (mem ptr).toNat])
    have bytes (rest : List (Nat × List UInt8)) :
      elementBytes ([(29, [UInt8.ofNat commands.timingAdvanceCmd.toNat])] ++ rest) =
        [UInt8.ofNat commands.timingAdvanceCmd.toNat] ++ elementBytes rest := rfl
    rw [bytes]
    refine ⟨⟨[.timingAdvance (mem ptr).toNat] ++ read, ?_, ?_⟩, fun held => ?_, fun won => ?_⟩
    · rw [← List.append_assoc]
      exact received'
    · rw [holdsAt_append, ← byte, List.length_singleton, ← same]
      simp
    · exact failed (holdsAt_append.mp held).2
    · rw [List.length_append, ← Nat.add_assoc]
      exact moved won

end Elements

section Header

variable {commands : DlCommands} {sdus : List (Nat × Nat)} {shortPadding postPadding : Nat}

theorem DlCommands.list_valid (commands : DlCommands) :
    ∀ ce ∈ commands.list, (28 ≤ ce.1 ∧ ce.1 < 31) ∧ dlRules.ceSize ce.1 = ce.2.length := by
  intro ce member
  rw [DlCommands.list, DlCommands.tail, List.mem_append, List.mem_append] at member
  obtain member | member | member := member
  · split at member
    · obtain rfl := List.mem_singleton.mp member
      exact ⟨by decide, rfl⟩
    · exact nomatch member
  · split at member
    · obtain rfl := List.mem_singleton.mp member
      exact ⟨by simp, rfl⟩
    · exact nomatch member
  · obtain ⟨id, found, rfl⟩ := Option.map_eq_some_iff.mp (Option.mem_toList.mp member)
    exact ⟨by simp, (commands.sixBytes id found).symm⟩

/-- The control elements in front of a contention resolution. -/
def DlCommands.front (commands : DlCommands) : List (Nat × List UInt8) :=
  (if commands.drxCmd ≠ 255 then [(30, [])] else []) ++
    if commands.timingAdvanceCmd ≠ 31 then
      [(29, [UInt8.ofNat commands.timingAdvanceCmd.toNat])] else []

theorem DlCommands.list_eq (commands : DlCommands) :
    commands.list = commands.front ++ (commands.ueContResId.map fun id => (28, id)).toList :=
  (List.append_assoc ..).symm

theorem DlCommands.front_lcids (commands : DlCommands) : 28 ∉ commands.front.map Prod.fst ∧
    commands.front.length ≤ 2 := by
  unfold DlCommands.front
  split <;> split <;> simp

theorem DlCommands.front_nil (commands : DlCommands) :
    commands.front = [] ↔ commands.drxCmd = 255 ∧ commands.timingAdvanceCmd = 31 := by
  rw [DlCommands.front, List.append_eq_nil_iff]
  constructor
  · rintro ⟨first, second⟩
    constructor
    · by_contra drx
      rw [if_pos drx] at first
      exact nomatch first
    · by_contra timing
      rw [if_pos timing] at second
      exact nomatch second
  · rintro ⟨drx, timing⟩
    simp [drx, timing]

theorem generateDlschHeader_framed (buffer : Memory) (lcids : ∀ sdu ∈ sdus, sdu.1 < 28)
    (some : SomeSubheader shortPadding commands.list sdus postPadding) {header : Memory × Nat}
    (generated : generateDlschHeader buffer sdus commands shortPadding postPadding = .some header) :
    ∃ front last b,
      Framed 28 header.1 header.2 commands.list (!sdus.isEmpty && postPadding == 0)
        sdus front last b ∧
      (∀ lcid, last = .ce lcid → sdus = [] ∧ postPadding = 0) ∧
      (sdus = [] → postPadding = 0 → frontItems shortPadding commands.list = front ++ [last]) := by
  obtain ⟨wrote, bytes⟩ :=
    front_wrote (by decide) buffer shortPadding fun ce member => (commands.list_valid ce member).1
  rw [generateDlschHeader] at generated
  split at generated
  · exact nomatch generated
  obtain rfl := Option.some.inj generated
  generalize ((Writer.start buffer).shortPadding shortPadding).elements commands.list =
    w at wrote bytes
  obtain ⟨done, kept⟩ := wrote.sdus (by decide) lcids
  cases postPadding with
  | succ bytesLeft =>
    obtain ⟨front, b, framed⟩ :=
      framed_padded done (kept.trans bytes) (by decide) (Nat.succ_pos bytesLeft)
    have flag : (!sdus.isEmpty && bytesLeft + 1 == 0) = false := Bool.and_false _
    rw [flag]
    exact ⟨front, .padding, b, framed, nofun, nofun⟩
  | zero =>
    obtain rfl | ⟨before, ⟨lcid, length⟩, rfl⟩ := List.eq_nil_or_concat' sdus
    · have front : frontItems shortPadding commands.list ≠ [] := by
        obtain front | none | none := some
        · exact front
        · exact absurd rfl none
        · exact absurd none (Nat.lt_irrefl 0)
      obtain ⟨front, last, b, split, framed⟩ := framed_bare wrote bytes front
      exact ⟨front, last, b, framed, fun _ _ => ⟨rfl, rfl⟩, fun _ _ => split⟩
    · rw [List.map_append, ← List.append_assoc] at done
      obtain ⟨none, -⟩ | ⟨front, last, split, held⟩ := done
      · exact absurd none (List.append_ne_nil_of_right_ne_nil _ (List.cons_ne_nil _ _))
      · obtain ⟨rfl, same⟩ := List.append_inj' split rfl
        obtain rfl := (List.cons_eq_cons.mp same).1
        have is : (sduItem lcid length).fixed = .sdu lcid 0 false := by
          unfold sduItem
          split <;> rfl
        obtain ⟨front, b, framed⟩ := framed_implicit held.header is (kept.trans bytes)
        have flag : (!(before ++ [(lcid, length)]).isEmpty && 0 == 0) = true := by simp
        rw [flag]
        refine ⟨front, _, b, framed, fun other same => ?_, fun none => ?_⟩
        · exact nomatch (congrArg Item.fixed same).symm.trans is
        · exact absurd none (List.append_ne_nil_of_right_ne_nil _ (List.cons_ne_nil _ _))

/-- The contention resolution is not the last of several subheaders. -/
def ContResPlaced (commands : DlCommands) (sdus : List (Nat × Nat))
    (shortPadding postPadding : Nat) : Prop :=
  commands.ueContResId = none ∨ sdus ≠ [] ∨ 0 < postPadding ∨
    paddingItems shortPadding = [] ∧ commands.drxCmd = 255 ∧ commands.timingAdvanceCmd = 31

theorem DlCommands.contRes_once (commands : DlCommands) :
    (commands.list.map Prod.fst).count 28 ≤ 1 := by
  rw [commands.list_eq, List.map_append, List.count_append,
    List.count_eq_zero.mpr commands.front_lcids.1, Nat.zero_add]
  exact Nat.le_trans List.count_le_length (by rw [List.length_map]; exact Option.length_toList_le)

/-- A contention resolution behind other subheaders is refused. -/
theorem dlRefused_front (commands : DlCommands) (shortPadding : Nat) :
    DlRefused (frontItems shortPadding commands.front) true 28 ↔
      ¬ (paddingItems shortPadding = [] ∧ commands.drxCmd = 255 ∧
        commands.timingAdvanceCmd = 31) := by
  obtain ⟨ces, sdus⟩ := frontItems_lists shortPadding commands.front
  rw [DlRefused, ces, sdus, ← commands.front_nil]
  simp only [commands.front_lcids.1, false_or, true_and, ne_eq, not_true_eq_false,
    List.map_eq_nil_iff]
  by_cases none : commands.front = []
  · have count : (frontItems shortPadding commands.front).count .padding =
        (paddingItems shortPadding).length := by
      rw [frontItems, none, List.map_nil, List.append_nil, paddingItems]
      split
      · rfl
      · split <;> rfl
    have few := (paddingItems_none shortPadding).2.2
    rw [count, Nat.mod_eq_of_lt (Nat.lt_of_le_of_lt few (by decide)), List.length_eq_zero_iff]
    simp [none]
  · simp [none]

/-- Only a contention resolution has LCID 28, and it stands behind everything else. -/
theorem frontItems_contRes {front : List Item}
    (split : frontItems shortPadding commands.list = front ++ [.ce 28]) :
    (∃ id, commands.ueContResId = some id) ∧ front = frontItems shortPadding commands.front := by
  have member : 28 ∈ commands.list.map Prod.fst := by
    rw [← (frontItems_lists shortPadding commands.list).1, split, cesOf_append]
    exact List.mem_append_right _ List.mem_cons_self
  rw [commands.list_eq] at member split
  cases found : commands.ueContResId with
  | none =>
    rw [found, Option.map_none, Option.toList_none, List.append_nil] at member
    exact absurd member commands.front_lcids.1
  | some id =>
    rw [found, frontItems, Option.map_some, Option.toList_some, List.map_append,
      ← List.append_assoc] at split
    exact ⟨⟨id, rfl⟩, (List.append_inj' split rfl).1.symm⟩

section Block

variable {buffer block : Memory} {header : Memory × Nat}

/-- What the UE reads of a block that starts with a generated header. -/
theorem dlBlock_read (tbLength : Nat) (room : sdus.length ≤ nbRbMax)
    (lcids : ∀ sdu ∈ sdus, sdu.1 < 28)
    (some : SomeSubheader shortPadding commands.list sdus postPadding)
    (placed : ContResPlaced commands sdus shortPadding postPadding)
    (generated : generateDlschHeader buffer sdus commands shortPadding postPadding = .some header)
    (starts : ∀ i < header.2, block i = header.1 i) :
    ∃ rounds read, parseHeader block tbLength rounds = .accepted read ∧
      read.ces = commands.list.map Prod.fst ∧
      header.2 = read.ptr + (elementBytes commands.list).length ∧
      HoldsAt block read.ptr (elementBytes commands.list) ∧
      Decodes tbLength header.2 (!sdus.isEmpty && postPadding == 0) sdus read.sdus := by
  obtain ⟨front, last, b, framed, element, bare⟩ :=
    generateDlschHeader_framed buffer lcids some generated
  have framed := framed.congr starts
  have few : commands.list.length ≤ maxNumCe := by
    have two := commands.front_lcids.2
    have one : (commands.ueContResId.map fun id => (28, id)).toList.length ≤ 1 :=
      Option.length_toList_le
    rw [commands.list_eq, List.length_append]
    exact Nat.le_trans (Nat.add_le_add two one) (by decide)
  have once := commands.contRes_once
  rw [← framed.ces, cesOf_append, List.count_append] at once
  have passed : NoneRefused dlRules .start front := by
    rw [dlRules_noneRefused (Nat.zero_le _)]
    exact Nat.le_trans (Nat.le_of_eq (Nat.zero_add _)) (Nat.le_trans (Nat.le_add_right ..) once)
  have kept (lcid : Nat) (is : last = .ce lcid) :
      dlRules.refuses (storeCe (HeaderRead.start.addAll dlRules front) lcid) lcid true = false := by
    rw [← Bool.not_eq_true, dlRules_refuses]
    intro refused
    obtain rfl := refused.1
    obtain ⟨rfl, rfl⟩ := element 28 is
    obtain ⟨⟨id, found⟩, rfl⟩ := frontItems_contRes (is ▸ bare rfl rfl)
    rw [dlRefused_front] at refused
    obtain none | none | none | alone := placed
    · exact nomatch found.symm.trans none
    · exact none rfl
    · exact absurd none (Nat.lt_irrefl 0)
    · exact refused alone
  obtain ⟨read, accepted, place, ces, decodes⟩ :=
    Framed.parse framed room few (fun ce member => (commands.list_valid ce member).2) passed kept
  refine ⟨front.length + 1, read, accepted, ces, ?_, ?_, decodes⟩
  · rw [place]
    exact framed.size
  · rw [place]
    exact framed.bytes

/-- A contention resolution at the end of other subheaders: the block is not accepted. -/
theorem dlBlock_refused
    (generated : generateDlschHeader buffer sdus commands shortPadding postPadding = .some header)
    (misplaced : ¬ ContResPlaced commands sdus shortPadding postPadding)
    (starts : ∀ i < header.2, block i = header.1 i)
    {tbLength rounds : Nat} {read : HeaderRead} : parseHeader block tbLength rounds ≠
    .accepted read := by
  intro accepted
  simp only [ContResPlaced, not_or, Nat.not_lt, Nat.le_zero, not_not] at misplaced
  obtain ⟨contRes, rfl, rfl, others⟩ := misplaced
  obtain ⟨id, found⟩ := Option.ne_none_iff_exists'.mp contRes
  have items : frontItems shortPadding commands.list =
      frontItems shortPadding commands.front ++ [.ce 28] := by
    rw [commands.list_eq, found, frontItems, frontItems, List.map_append, ← List.append_assoc]
    rfl
  have some : SomeSubheader shortPadding commands.list [] 0 :=
    .inl (by rw [items]; exact List.append_ne_nil_of_right_ne_nil _ (List.cons_ne_nil _ _))
  have noSdus : ∀ sdu ∈ ([] : List (Nat × Nat)), sdu.1 < 28 :=
    fun _ member => absurd member List.not_mem_nil
  obtain ⟨front, last, b, framed, -, bare⟩ :=
    generateDlschHeader_framed buffer noSdus some generated
  have framed := framed.congr starts
  obtain ⟨rfl, same⟩ := List.append_inj' ((bare rfl rfl).symm.trans items) rfl
  obtain rfl := (List.cons_eq_cons.mp same).1
  have last : itemAt 28 block b = .ce 28 := by
    have fixed := framed.header.last
    cases found : itemAt 28 block b with
    | sdu lcid length long => rw [found] at fixed; cases fixed
    | ce lcid => rw [found] at fixed; exact fixed
    | padding => rw [found] at fixed; cases fixed
  have few : (cesOf (frontItems shortPadding commands.front ++ [.ce 28])).length ≤ maxNumCe := by
    rw [cesOf_append, (frontItems_lists shortPadding commands.front).1, List.length_append,
      List.length_map]
    exact Nat.le_trans (Nat.add_le_add_right commands.front_lcids.2 1) (by decide)
  have admitted : AllAdmitted dlRules .start (frontItems shortPadding commands.front) := by
    obtain ⟨ces, sdus⟩ := frontItems_lists shortPadding commands.front
    refine (allAdmitted_iff (Nat.zero_le _) (Nat.zero_le _)).mpr ⟨?_, ?_, ?_⟩
    · rw [sdus]
      exact Nat.zero_le _
    · rw [ces, List.length_map]
      exact Nat.le_trans (Nat.le_of_eq (Nat.zero_add _))
        (Nat.le_trans commands.front_lcids.2 (by decide))
    · rw [dlRules_noneRefused (Nat.zero_le _), ces, List.count_eq_zero.mpr commands.front_lcids.1]
      exact Nat.zero_le _
  have refusal :
    dlRules.refuses
    (storeCe (HeaderRead.start.addAll dlRules (frontItems shortPadding commands.front)) 28) 28
      (!extended (block b)) = true := by
    rw [framed.header.ends, dlRules_refuses]
    exact (dlRefused_front commands shortPadding).mpr others
  have refused : parseLoop dlRules block tbLength _ .start = _ :=
    parseLoop_refused framed.header.chain admitted last refusal few
  have ended : parseLoop dlRules block tbLength rounds .start ≠ .running := by
    intro running
    cases accepted.symm.trans running
  have same := parseLoop_unique (fun running => by cases refused.symm.trans running) ended
  cases (refused.symm.trans same).trans accepted

end Block

end Header

end OpenAir.Mac.Pdu
