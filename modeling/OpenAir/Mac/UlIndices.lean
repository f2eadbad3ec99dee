import OpenAir.Mac.UeList
import OpenAir.Mac.UlHarq

/-! The indices that `rx_sdu` uses on a block of any sender: of the tables of UEs and random access
processes, and of the tables that the control elements are looked up in. -/
namespace OpenAir.Mac
open BitField (Memory)
open Pdu (UlCe rxCes rxCe parseUlschHeader)

abbrev nbRaProcMax : Nat := 4

inductive IndexUse where
  | ue (index : Int)
  | ra (index : Int)
  /-- Of `BSR_TABLE`. -/
  | bufferSize (index : Int)
  /-- Of `ul_buffer_info` and `lcgid_updated`. -/
  | group (index : Int)
  /-- Of `lcgidmap`. -/
  | channel (index : Int)
  /-- Of `hundred_times_log10_NPRB`. -/
  | rbCount (index : Int)
  /-- The parser stores behind the end of `rx_ces`, `rx_lcids` or `rx_lengths`. -/
  | behindParsed
deriving DecidableEq

def IndexUse.size (mobiles : Nat) : IndexUse → Nat
  | .ue _ => mobiles
  | .ra _ => nbRaProcMax
  | .bufferSize _ => 64
  | .group _ => 4
  | .channel _ => 11
  | .rbCount _ => 100
  | .behindParsed => 0

def IndexUse.index : IndexUse → Int
  | .ue index => index
  | .ra index => index
  | .bufferSize index => index
  | .group index => index
  | .channel index => index
  | .rbCount index => index
  | .behindParsed => 0

def IndexUse.Inside (mobiles : Nat) (use : IndexUse) : Prop := 0 ≤ use.index ∧
    use.index < use.size mobiles

instance (mobiles : Nat) (use : IndexUse) : Decidable (use.Inside mobiles) :=
  inferInstanceAs (Decidable (_ ∧ _))

structure UlState where
  list : UeList
  ues : Nat → UeUl
  ras : List RaProc
  raCount : ras.length = nbRaProcMax
  msg3Round : Nat → Nat

/-- The arguments of `rx_sdu`, and the limit for Msg3. -/
structure UlBlock where
  rnti : Nat
  harqPid : Fin 8
  /-- `sduP` and `sdu_lenP`, without a value when the block was not decoded. -/
  block : Option (Memory × Nat)
  /-- Rounds granted to the parser. -/
  rounds : Nat
  maxHarqMsg3Tx : Nat

section Uses

variable (mobiles : Nat) (list : UeList) (pid : Fin 8)

/-- `UE_id` -/
def Rx.index (s : Rx) : Int := s.ueId.elim (-1) fun id => id

/-- The loop over the random access processes up to the one that is looked for. -/
def scanUses (rnti : Nat) (ras : List RaProc) : List IndexUse :=
  (List.range (min (ras.findIdx (RaProc.active rnti) + 1) ras.length)).map fun ii : Nat => .ra ii

def Rx.elementUses (s : Rx) : UlCe → List IndexUse
  | .powerHeadroom _ =>
    match s.ueId with
    | none => []
    | some id => [.ue id, .rbCount ((s.ues id).nbRbUl pid - 1)]
  | .crnti rnti =>
    match findUeId mobiles list rnti with
    | none => []
    | some old => scanUses s.currentRnti s.ras ++ if s.ras.any (RaProc.active s.currentRnti) then
        [.ue old] else []
  | .truncatedBsr lcgid bsr => if s.ueId.isSome then
      [.group lcgid, .ue s.index, .bufferSize bsr] else []
  | .shortBsr lcgid bsr => if s.ueId.isSome then
      [.group lcgid, .ue s.index, .bufferSize bsr] else []
  | .longBsr bsr0 bsr1 bsr2 bsr3 =>
    if s.ueId.isSome then
      [.ue s.index, .bufferSize bsr0, .bufferSize bsr1, .bufferSize bsr2, .bufferSize bsr3] else []

def elementsUses : Rx → List UlCe → Rx × List IndexUse
  | s, [] => (s, [])
  | s, ce :: rest =>
    let later := elementsUses (s.element (findUeId mobiles list) ce) rest
    (later.1, s.elementUses mobiles list pid ce ++ later.2)

/-- `add_new_ue` takes the first free place. -/
def freeUe : Option Nat := (List.range mobiles).find? fun ue => !list.active ue

/-- The UE is new where there was none; its flag is cleared for the process that is found. -/
def Rx.ccchUses (s : Rx) : List IndexUse :=
  (List.range s.ras.length).map (fun ii : Nat => IndexUse.ra ii) ++
    if s.ras.any (RaProc.active s.currentRnti) then
      ((s.ueId.or (freeUe mobiles list)).map fun id : Nat => IndexUse.ue id).toList else []

def Rx.sduUses (s : Rx) (sdu : Nat × Nat) : List IndexUse :=
  if sdu.1 = 0 then if 128 < sdu.2 then [] else s.ccchUses mobiles list
  else if sdu.1 < Pdu.nbRbMax then
    match s.ueId with
    | none => []
    | some id => [.ue id, .channel sdu.1, .group ((s.ues id).lcgidmap sdu.1).val]
  else []

/-- The loop over the SDUs; behind the end of `lcgidmap` nothing is known of what it goes on
with. -/
def sdusUses : Rx → List (Nat × Nat) → Option Rx × List IndexUse
  | s, [] => (some s, [])
  | s, sdu :: rest =>
    match s.sdu (freeUe mobiles list) sdu with
    | none => (none, s.sduUses mobiles list sdu)
    | some next =>
      let later := sdusUses next rest
      (later.1, s.sduUses mobiles list sdu ++ later.2)

/-- From the call of the parser on; the flag says that a UE was added. -/
def blockUses (s : UlState) (ues : Nat → UeUl) (ueId : Option Nat) (b : UlBlock)
    (block : Memory × Nat) :
    Option (Rx × Bool) × List IndexUse :=
  let start : Rx := ⟨ues, ueId, b.rnti, s.ras, fun _ => false⟩
  match parseUlschHeader block.1 block.2 b.rounds with
  | .running => (none, [])
  | .overflow => (none, [.behindParsed])
  | .refused _ => (some (start, false), [])
  | .accepted read =>
    -- The round is set whether there is a UE or not.
    let first := start.modify fun ue => ue.setRound b.harqPid 0
    let elements := elementsUses mobiles s.list b.harqPid first (rxCes block.1 read.ptr read.ces).1
    let sdus := sdusUses mobiles s.list elements.1 read.sdus
    (sdus.1.map fun rx => (rx, elements.1.ueId.isNone && rx.ueId.isSome),
      .ue start.index :: (elements.2 ++ sdus.2))

end Uses

theorem length_cancelRaProc (rnti : Nat) (ras : List RaProc) :
    (cancelRaProc rnti ras).length = ras.length :=
  List.length_map _

/-- The state behind a block; the table of random access processes keeps its size, and Msg3 of a
cancelled one starts anew. -/
def UlState.behind (s : UlState) (mobiles : Nat) (rx : Rx) (added : Bool) : UlState where
  list := if added then addNewUe mobiles s.list rx.currentRnti else s.list
  ues := rx.ues
  ras := (List.range nbRaProcMax).map fun ii => rx.ras.getD ii ⟨0, true⟩
  raCount := by rw [List.length_map, List.length_range]
  msg3Round ii := if (rx.ras.getD ii ⟨0, true⟩).rnti = 0 ∧ (s.ras.getD ii ⟨0, true⟩).rnti ≠ 0 then
    0 else s.msg3Round ii

def UlState.cancel (s : UlState) (rnti : Nat) : UlState :=
  { s with
    ras := cancelRaProc rnti s.ras
    raCount := by rw [length_cancelRaProc, s.raCount]
    msg3Round := fun ii => if (s.ras.getD ii ⟨0, true⟩).rnti = rnti then 0 else s.msg3Round ii }

/-- A block of a UE that was not decoded; in the last round its random access is given up, too. -/
def UlState.failed (s : UlState) (id : Nat) (b : UlBlock) : UlState :=
  let last := (s.ues id).roundUl b.harqPid = 3
  let s := { s with ues := Function.update s.ues id ((s.ues id).failed b.harqPid) }
  if last ∧ s.ras.any (RaProc.active b.rnti) then s.cancel b.rnti else s

/-- The state after the call, unknown where an assertion fails or memory behind an array is used,
and the indices. -/
def rxSduUses (mobiles : Nat) (s : UlState) (b : UlBlock) : Option UlState × List IndexUse :=
  match findUeId mobiles s.list b.rnti with
  | some id =>
    if (s.ues id).roundUl b.harqPid < 8 then
      match b.block with
      | none => (some (s.failed id b), [.ue id])
      | some block =>
        let ues := Function.update s.ues id ((s.ues id).unschedule b.harqPid)
        let result := blockUses mobiles s ues (some id) b block
        (result.1.map fun behind => s.behind mobiles behind.1 behind.2, .ue id :: result.2)
    else (none, [.ue id])
  | none =>
    match s.ras.findIdx? (RaProc.active b.rnti) with
    | none => (some s, [])
    | some ra =>
      if 1 < b.maxHarqMsg3Tx then
        match b.block with
        | none =>
          if b.maxHarqMsg3Tx - 1 ≤ s.msg3Round ra then (some (s.cancel b.rnti), [.ra ra])
          else
            -- `first_rb` is taken from the template of UE -1.
            (some { s with msg3Round := Function.update s.msg3Round ra (s.msg3Round ra + 1) },
              [.ra ra, .ue (-1)])
        | some block =>
          let result := blockUses mobiles s s.ues none b block
          (result.1.map fun behind => s.behind mobiles behind.1 behind.2, .ra ra :: result.2)
      else (none, [])

/-- Every index lies in its table, and an unknown sender changes nothing. -/
def Tolerates (mobiles : Nat) (s : UlState) (b : UlBlock) : Prop :=
  (∀ use ∈ (rxSduUses mobiles s b).2, use.Inside mobiles) ∧
    (findUeId mobiles s.list b.rnti = none → s.ras.any (RaProc.active b.rnti) = false →
      (rxSduUses mobiles s b).1 = some s)

/-! ### When they do -/

section Condition

variable (mobiles : Nat) (list : UeList)

/-- The UE that the elements hand the rest of a block over to. -/
def handedTo (ue : Option Nat) (rnti : Nat) (ras : List RaProc) : List UlCe → Option Nat
  | [] => ue
  | .crnti other :: rest =>
    match findUeId mobiles list other with
    | some old =>
      if ras.any (RaProc.active rnti) then handedTo (some old) other (handOver rnti other ras) rest
      else handedTo ue rnti ras rest
    | none => handedTo ue rnti (cancelRaProc rnti ras) rest
  | _ :: rest => handedTo ue rnti ras rest

/-- The parser has room for the subheaders, each power headroom comes to a UE with 1 to 100 resource
blocks in the HARQ process, and no SDU is of one of the channels 11 to 13. -/
def BlockInside (s : UlState) (id : Nat) (b : UlBlock) (block : Memory × Nat) : Prop :=
  parseUlschHeader block.1 block.2 b.rounds ≠ .overflow ∧
  ∀ read, parseUlschHeader block.1 block.2 b.rounds = .accepted read →
    (∀ before ph after, (rxCes block.1 read.ptr read.ces).1 = before ++ .powerHeadroom ph :: after →
      ∀ ue, handedTo mobiles s.list (some id) b.rnti s.ras before = some ue →
        1 ≤ (s.ues ue).nbRbUl b.harqPid ∧ (s.ues ue).nbRbUl b.harqPid ≤ 100) ∧
    ∀ sdu ∈ read.sdus, sdu.1 < 11 ∨ Pdu.nbRbMax ≤ sdu.1

/-- For a UE its blocks are as above; for a random access process Msg3 fails in the last round or
has a header that the parser refuses inside its arrays. -/
def Tolerable (s : UlState) (b : UlBlock) : Prop :=
  match findUeId mobiles s.list b.rnti with
  | some id => (s.ues id).roundUl b.harqPid < 8 → ∀ block, b.block = some block →
      BlockInside mobiles s id b block
  | none => ∀ ra, s.ras.findIdx? (RaProc.active b.rnti) = some ra → 1 < b.maxHarqMsg3Tx →
    match b.block with
    | none => b.maxHarqMsg3Tx - 1 ≤ s.msg3Round ra
    | some block => parseUlschHeader block.1 block.2 b.rounds ≠ .overflow ∧
      ∀ read, parseUlschHeader block.1 block.2 b.rounds ≠ .accepted read

end Condition

section Elements

variable {mobiles : Nat} {list : UeList} {pid : Fin 8} {s : Rx} {id : Nat}

theorem findUeId_lt {rnti : Nat} (found : findUeId mobiles list rnti = some id) : id < mobiles :=
  List.mem_range.mp (List.mem_of_find?_eq_some found)

/-- The values that the bits of an element can have. -/
def CeInside : UlCe → Prop
  | .powerHeadroom _ => True
  | .crnti _ => True
  | .truncatedBsr lcgid bsr => lcgid < 4 ∧ bsr < 64
  | .shortBsr lcgid bsr => lcgid < 4 ∧ bsr < 64
  | .longBsr bsr0 bsr1 bsr2 bsr3 => bsr0 < 64 ∧ bsr1 < 64 ∧ bsr2 < 64 ∧ bsr3 < 64

theorem rxCe_inside (mem : Memory) (a lcid : Nat) : ∀ ce ∈ (rxCe mem a lcid).1, CeInside ce := by
  have six (x : UInt8) : x.toNat &&& 0x3f < 64 := Nat.lt_of_le_of_lt Nat.and_le_right (by decide)
  have two (x : UInt8) : x.toNat >>> 6 < 4 := by
    rw [Nat.shiftRight_eq_div_pow]
    exact Nat.div_lt_of_lt_mul x.toNat_lt
  have high (x mask shift bound : Nat) (small : mask < bound * 2 ^ shift) :
      (x &&& mask) >>> shift < bound := by
    rw [Nat.shiftRight_eq_div_pow]
    exact Nat.div_lt_of_lt_mul (Nat.mul_comm bound _ ▸ Nat.lt_of_le_of_lt Nat.and_le_right small)
  have low (x mask shift : Nat) (small : mask * 2 ^ shift < 64) :
      (x &&& mask) <<< shift < 2 ^ 6 := by
    rw [Nat.shiftLeft_eq]
    exact Nat.lt_of_le_of_lt (Nat.mul_le_mul_right _ Nat.and_le_right) small
  unfold rxCe
  intro ce member
  split_ifs at member
  · cases member
    trivial
  · cases member
    trivial
  · cases member
    exact ⟨two _, six _⟩
  · cases member
    exact ⟨two _, six _⟩
  · cases member
    refine ⟨high _ _ 2 64 (by decide), ?_, ?_, six _⟩
    · exact Nat.or_lt_two_pow (low _ 3 4 (by decide)) (high _ 0xf0 4 64 (by decide))
    · exact Nat.or_lt_two_pow (low _ 0xf 2 (by decide)) (high _ 0xc0 6 64 (by decide))
  · exact nomatch member

theorem rxCes_inside (mem : Memory) (a : Nat) (lcids : List Nat) : ∀ ce ∈ (rxCes mem a lcids).1,
    CeInside ce := by
  induction lcids generalizing a with
  | nil => exact fun ce member => nomatch member
  | cons lcid rest ih =>
    intro ce member
    rcases List.mem_append.mp member with here | later
    · exact rxCe_inside mem a lcid ce (Option.mem_toList.mp here)
    · exact ih _ ce later

/-- The UE at hand is one of the table, and the table of random access processes has its size. -/
structure Rx.Known (mobiles : Nat) (s : Rx) (id : Nat) : Prop where
  ue : s.ueId = some id
  below : id < mobiles
  ras : s.ras.length = nbRaProcMax

theorem length_handOver (rnti other : Nat) (ras : List RaProc) : (handOver rnti other ras).length =
    ras.length := by
  induction ras with
  | nil => rfl
  | cons ra rest ih =>
    rw [handOver]
    split
    · rfl
    · rw [List.length_cons, ih, List.length_cons]

theorem modify_ueId (s : Rx) (change : UeUl → UeUl) : (s.modify change).ueId = s.ueId ∧
    (s.modify change).currentRnti = s.currentRnti ∧ (s.modify change).ras = s.ras := by
  unfold Rx.modify
  split <;> exact ⟨rfl, rfl, rfl⟩

theorem mark_ueId (s : Rx) (groups : List Nat) : (s.mark groups).ueId = s.ueId ∧
    (s.mark groups).currentRnti = s.currentRnti ∧ (s.mark groups).ras = s.ras ∧
    (s.mark groups).ues = s.ues := by
  unfold Rx.mark
  split <;> exact ⟨rfl, rfl, rfl, rfl⟩

/-- What an element does to the UE at hand, and what is found of it later. -/
theorem handedTo_cons (s : Rx) (ce : UlCe) (rest : List UlCe) :
    handedTo mobiles list s.ueId s.currentRnti s.ras (ce :: rest) =
      handedTo mobiles list (s.element (findUeId mobiles list) ce).ueId
        (s.element (findUeId mobiles list) ce).currentRnti
        (s.element (findUeId mobiles list) ce).ras rest := by
  have report (groups : List Nat) (change : UeUl → UeUl) :
    ((s.mark groups).modify change).ueId = s.ueId ∧
      ((s.mark groups).modify change).currentRnti = s.currentRnti ∧
          ((s.mark groups).modify change).ras = s.ras := by
    obtain ⟨ue, rnti, ras⟩ := modify_ueId (s.mark groups) change
    obtain ⟨marked, same, kept, -⟩ := mark_ueId s groups
    exact ⟨ue.trans marked, rnti.trans same, ras.trans kept⟩
  cases ce with
  | powerHeadroom ph => rfl
  | crnti other =>
    rw [handedTo, Rx.element]
    cases findUeId mobiles list other with
    | none => rfl
    | some old =>
      simp only
      split <;> rfl
  | truncatedBsr lcgid bsr =>
    obtain ⟨ue, rnti, ras⟩ := report [lcgid] fun ue => ue.shortBsr lcgid bsr
    rw [Rx.element, ue, rnti, ras]
    rfl
  | shortBsr lcgid bsr =>
    obtain ⟨ue, rnti, ras⟩ := report [lcgid] fun ue => ue.shortBsr lcgid bsr
    rw [Rx.element, ue, rnti, ras]
    rfl
  | longBsr bsr0 bsr1 bsr2 bsr3 =>
    obtain ⟨ue, rnti, ras⟩ := report [0, 1, 2, 3] fun ue => ue.longBsr bsr0 bsr1 bsr2 bsr3
    rw [Rx.element, ue, rnti, ras]
    rfl

theorem modify_nbRbUl (s : Rx) {change : UeUl → UeUl} (keeps : ∀ ue, (change ue).nbRbUl = ue.nbRbUl)
    (other : Nat) :
    ((s.modify change).ues other).nbRbUl = (s.ues other).nbRbUl := by
  unfold Rx.modify
  split
  · rfl
  · rename_i id _
    by_cases same : other = id
    · subst same
      simp only [Function.update_self, keeps]
    · simp only [Function.update_of_ne same]

theorem element_nbRbUl (s : Rx) (ce : UlCe) (other : Nat) :
    ((s.element (findUeId mobiles list) ce).ues other).nbRbUl = (s.ues other).nbRbUl := by
  have report (groups : List Nat) {change : UeUl → UeUl}
    (keeps : ∀ ue, (change ue).nbRbUl = ue.nbRbUl) :
      (((s.mark groups).modify change).ues other).nbRbUl = (s.ues other).nbRbUl := by
    rw [modify_nbRbUl _ keeps, (mark_ueId s groups).2.2.2]
  cases ce with
  | powerHeadroom ph => rfl
  | crnti rnti =>
    rw [Rx.element]
    cases findUeId mobiles list rnti with
    | none => rfl
    | some old =>
      simp only
      split <;> rfl
  | truncatedBsr lcgid bsr => exact report [lcgid] fun ue => rfl
  | shortBsr lcgid bsr => exact report [lcgid] fun ue => rfl
  | longBsr bsr0 bsr1 bsr2 bsr3 => exact report [0, 1, 2, 3] fun ue => rfl

theorem Rx.Known.element (known : s.Known mobiles id) (ce : UlCe) :
    ∃ next, (s.element (findUeId mobiles list) ce).Known mobiles next := by
  have report (groups : List Nat) (change : UeUl → UeUl) :
      ((s.mark groups).modify change).Known mobiles id := by
    obtain ⟨ue, -, ras⟩ := modify_ueId (s.mark groups) change
    obtain ⟨marked, -, kept, -⟩ := mark_ueId s groups
    exact ⟨ue.trans (marked.trans known.ue), known.below,
      (congrArg List.length (ras.trans kept)).trans known.ras⟩
  cases ce with
  | powerHeadroom ph => exact ⟨id, known⟩
  | crnti rnti =>
    rw [Rx.element]
    cases found : findUeId mobiles list rnti with
    | none => exact ⟨id, known.ue, known.below, (length_cancelRaProc _ _).trans known.ras⟩
    | some old =>
      simp only
      split
      · exact ⟨old, rfl, findUeId_lt found, (length_handOver _ _ _).trans known.ras⟩
      · exact ⟨id, known⟩
  | truncatedBsr lcgid bsr => exact ⟨id, report [lcgid] fun ue => ue.shortBsr lcgid bsr⟩
  | shortBsr lcgid bsr => exact ⟨id, report [lcgid] fun ue => ue.shortBsr lcgid bsr⟩
  | longBsr bsr0 bsr1 bsr2 bsr3 =>
    exact ⟨id, report [0, 1, 2, 3] fun ue => ue.longBsr bsr0 bsr1 bsr2 bsr3⟩

theorem ue_inside (below : id < mobiles) : (IndexUse.ue id).Inside mobiles :=
  ⟨Int.natCast_nonneg id, Int.ofNat_lt.mpr below⟩

theorem ra_inside {ii : Nat} (below : ii < nbRaProcMax) : (IndexUse.ra ii).Inside mobiles :=
  ⟨Int.natCast_nonneg ii, Int.ofNat_lt.mpr below⟩

theorem scanUses_inside (rnti : Nat) {ras : List RaProc} (count : ras.length = nbRaProcMax) :
    ∀ use ∈ scanUses rnti ras, use.Inside mobiles := by
  intro use member
  obtain ⟨ii, below, rfl⟩ := List.mem_map.mp member
  have bound := Nat.lt_of_lt_of_le (List.mem_range.mp below) (Nat.min_le_right _ _)
  exact ra_inside (Nat.lt_of_lt_of_eq bound count)

/-- The indices of an element: only those of a power headroom can be outside. -/
theorem elementUses_inside (known : s.Known mobiles id) {ce : UlCe} (values : CeInside ce) :
    (∀ use ∈ s.elementUses mobiles list pid ce, use.Inside mobiles) ↔
      ∀ ph, ce = .powerHeadroom ph → 1 ≤ (s.ues id).nbRbUl pid ∧ (s.ues id).nbRbUl pid ≤ 100 := by
  have here := ue_inside known.below
  have own : s.index = id := by rw [Rx.index, known.ue]; rfl
  have some_ : s.ueId.isSome = true := by rw [known.ue]; rfl
  have natural {n size : Nat} (below : n < size) : 0 ≤ (n : Int) ∧ (n : Int) < size :=
    ⟨Int.natCast_nonneg n, Int.ofNat_lt.mpr below⟩
  cases ce with
  | powerHeadroom ph =>
    rw [Rx.elementUses, known.ue]
    simp only [List.forall_mem_cons, List.not_mem_nil, false_imp_iff, implies_true, and_true]
    constructor
    · rintro ⟨-, low, high⟩ other -
      have low : 0 ≤ ((s.ues id).nbRbUl pid : Int) - 1 := low
      have high : ((s.ues id).nbRbUl pid : Int) - 1 < 100 := high
      omega
    · intro count
      obtain ⟨low, high⟩ := count ph rfl
      refine ⟨here, ?_, ?_⟩
      · change 0 ≤ ((s.ues id).nbRbUl pid : Int) - 1
        omega
      · change ((s.ues id).nbRbUl pid : Int) - 1 < 100
        omega
  | crnti rnti =>
    refine iff_of_true (fun use member => ?_) (fun ph impossible => nomatch impossible)
    rw [Rx.elementUses] at member
    cases found : findUeId mobiles list rnti with
    | none =>
      rw [found] at member
      exact nomatch member
    | some old =>
      rw [found] at member
      rcases List.mem_append.mp member with scan | switched
      · exact scanUses_inside _ known.ras use scan
      · split_ifs at switched
        · cases List.mem_singleton.mp switched
          exact ue_inside (findUeId_lt found)
        · exact nomatch switched
  | truncatedBsr lcgid bsr =>
    refine iff_of_true ?_ (fun ph impossible => nomatch impossible)
    rw [Rx.elementUses, if_pos some_, own]
    simp only [List.forall_mem_cons, List.not_mem_nil, false_imp_iff, implies_true, and_true]
    exact ⟨natural values.1, here, natural values.2⟩
  | shortBsr lcgid bsr =>
    refine iff_of_true ?_ (fun ph impossible => nomatch impossible)
    rw [Rx.elementUses, if_pos some_, own]
    simp only [List.forall_mem_cons, List.not_mem_nil, false_imp_iff, implies_true, and_true]
    exact ⟨natural values.1, here, natural values.2⟩
  | longBsr bsr0 bsr1 bsr2 bsr3 =>
    refine iff_of_true ?_ (fun ph impossible => nomatch impossible)
    rw [Rx.elementUses, if_pos some_, own]
    simp only [List.forall_mem_cons, List.not_mem_nil, false_imp_iff, implies_true, and_true]
    exact ⟨here, natural values.1, natural values.2.1, natural values.2.2.1, natural values.2.2.2⟩

theorem elementsUses_inside (known : s.Known mobiles id) {ces : List UlCe}
    (values : ∀ ce ∈ ces, CeInside ce) :
    ((∀ use ∈ (elementsUses mobiles list pid s ces).2, use.Inside mobiles) ↔
      ∀ before ph after, ces = before ++ .powerHeadroom ph :: after →
        ∀ ue, handedTo mobiles list s.ueId s.currentRnti s.ras before = some ue →
          1 ≤ (s.ues ue).nbRbUl pid ∧ (s.ues ue).nbRbUl pid ≤ 100) ∧
      ∃ last, (elementsUses mobiles list pid s ces).1.Known mobiles last := by
  induction ces generalizing s id with
  | nil =>
    refine ⟨iff_of_true (fun use member => nomatch member) (fun before ph after split_ => ?_), id,
      known⟩
    exact absurd split_.symm (List.append_ne_nil_of_right_ne_nil _ (List.cons_ne_nil _ _))
  | cons ce rest ih =>
    obtain ⟨next, behind⟩ := @Rx.Known.element mobiles list s id known ce
    obtain ⟨later, last⟩ :=
      ih behind fun other member => values other (List.mem_cons_of_mem _ member)
    refine ⟨?_, last⟩
    rw [elementsUses, List.forall_mem_append, later,
      elementUses_inside known (values ce List.mem_cons_self)]
    constructor
    · rintro ⟨here, others⟩ before ph after split_ ue handed
      cases before with
      | nil =>
        obtain ⟨rfl, -⟩ := List.cons.inj split_
        cases known.ue.symm.trans handed
        exact here ph rfl
      | cons front before =>
        obtain ⟨rfl, rfl⟩ := List.cons.inj split_
        rw [handedTo_cons] at handed
        have count := others before ph after rfl ue handed
        rwa [element_nbRbUl] at count
    · intro all
      refine ⟨fun ph same => ?_, fun before ph after split_ ue handed => ?_⟩
      · subst same
        exact all [] ph rest rfl id known.ue
      · subst split_
        rw [← handedTo_cons] at handed
        have count := all (ce :: before) ph after rfl ue handed
        rwa [element_nbRbUl]

end Elements

section Sdus

variable {mobiles : Nat} {list : UeList} {s : Rx} {id : Nat}

/-- The indices of an SDU: only its channel can be outside. -/
theorem sduUses_inside (known : s.Known mobiles id) (sdu : Nat × Nat) :
    (∀ use ∈ s.sduUses mobiles list sdu, use.Inside mobiles) ↔
      sdu.1 < 11 ∨ Pdu.nbRbMax ≤ sdu.1 := by
  have here := ue_inside known.below
  rw [Rx.sduUses]
  split_ifs with ccch long below
  · exact iff_of_true (fun use member => nomatch member) (.inl (by omega))
  · refine iff_of_true (fun use member => ?_) (.inl (by omega))
    rcases List.mem_append.mp member with scan | found
    · obtain ⟨ii, inside, rfl⟩ := List.mem_map.mp scan
      exact ra_inside (Nat.lt_of_lt_of_eq (List.mem_range.mp inside) known.ras)
    · split_ifs at found
      · rw [known.ue] at found
        cases List.mem_singleton.mp found
        exact here
      · exact nomatch found
  · rw [known.ue]
    simp only [List.forall_mem_cons, List.not_mem_nil, false_imp_iff, implies_true, and_true]
    constructor
    · rintro ⟨-, ⟨-, channel⟩, -⟩
      have channel : (sdu.1 : Int) < 11 := channel
      omega
    · intro channel
      have inside : sdu.1 < 11 := by omega
      refine ⟨here, ⟨Int.natCast_nonneg _, Int.ofNat_lt.mpr inside⟩, Int.natCast_nonneg _, ?_⟩
      exact Int.ofNat_lt.mpr ((s.ues id).lcgidmap sdu.1).isLt
  · exact iff_of_true (fun use member => nomatch member) (.inr (by omega))

/-- An SDU leaves the block with its UE, unless its channel is outside. -/
theorem Rx.Known.sdu (known : s.Known mobiles id) (free : Option Nat) (sdu : Nat × Nat) :
    (s.sdu free sdu = none ∧ ¬ (sdu.1 < 11 ∨ Pdu.nbRbMax ≤ sdu.1)) ∨
      ∃ next, s.sdu free sdu = some next ∧ next.Known mobiles id := by
  unfold Rx.sdu
  by_cases isCcch : sdu.1 = 0
  · rw [if_pos isCcch]
    have registered : (s.ueId.isNone && s.ras.any (RaProc.active s.currentRnti)) = false := by
      rw [known.ue]; rfl
    by_cases long : 128 < sdu.2
    · rw [if_pos long]
      exact .inr ⟨s, rfl, known⟩
    · have same : s.ccch free = s := by
        unfold Rx.ccch
        rw [registered, if_neg Bool.false_ne_true]
      rw [if_neg long, same]
      exact .inr ⟨s, rfl, known⟩
  · rw [if_neg isCcch]
    by_cases below : sdu.1 < Pdu.nbRbMax
    · rw [if_pos below, known.ue]
      by_cases channel : sdu.1 < 11
      · simp only [if_pos channel]
        by_cases updated : s.lcgidUpdated ((s.ues id).lcgidmap sdu.1) = true
        · rw [if_pos updated]
          exact .inr ⟨s, rfl, known⟩
        · rw [if_neg updated]
          obtain ⟨ue, -, ras⟩ := modify_ueId s fun ue => ue.taken ((s.ues id).lcgidmap sdu.1) sdu.2
          exact .inr ⟨_, rfl, ue.trans known.ue, known.below,
            (congrArg List.length ras).trans known.ras⟩
      · simp only [if_neg channel]
        exact .inl ⟨trivial, by omega⟩
    · rw [if_neg below]
      exact .inr ⟨s, rfl, known⟩

theorem sdusUses_inside (known : s.Known mobiles id) (sdus : List (Nat × Nat)) :
    (∀ use ∈ (sdusUses mobiles list s sdus).2, use.Inside mobiles) ↔ ∀ sdu ∈ sdus, sdu.1 < 11 ∨
      Pdu.nbRbMax ≤ sdu.1 := by
  induction sdus generalizing s with
  | nil => exact iff_of_true (fun use member => nomatch member) (fun sdu member => nomatch member)
  | cons sdu rest ih =>
    have first := @sduUses_inside mobiles list s id known sdu
    rw [sdusUses, List.forall_mem_cons]
    rcases known.sdu (freeUe mobiles list) sdu with ⟨ends, outside⟩ | ⟨next, goes, behind⟩
    · rw [ends]
      exact iff_of_false (fun all => outside (first.mp all)) (fun all => outside all.1)
    · rw [goes]
      simp only [List.forall_mem_append, first, ih behind]

end Sdus

section Calls

variable {mobiles : Nat} {s : UlState} {b : UlBlock}

theorem not_behindParsed : ¬ IndexUse.behindParsed.Inside mobiles :=
  fun inside => Int.lt_irrefl 0 inside.2

theorem blockUses_inside {id : Nat} (below : id < mobiles) {ues : Nat → UeUl}
    (same : ∀ other, (ues other).nbRbUl = (s.ues other).nbRbUl) (block : Memory × Nat) :
    (∀ use ∈ (blockUses mobiles s ues (some id) b block).2, use.Inside mobiles) ↔
      BlockInside mobiles s id b block := by
  have here := ue_inside below
  unfold blockUses BlockInside
  cases parsed : parseUlschHeader block.1 block.2 b.rounds with
  | running =>
    exact iff_of_true (fun use member => nomatch member)
      ⟨(fun beyond => nomatch beyond), fun read ends => nomatch ends⟩
  | overflow =>
    exact iff_of_false (fun all => not_behindParsed (all _ (List.mem_singleton_self _)))
      (fun both => both.1 rfl)
  | refused read =>
    exact iff_of_true (fun use member => nomatch member)
      ⟨(fun beyond => nomatch beyond), fun read ends => nomatch ends⟩
  | accepted read =>
    let start : Rx := ⟨ues, some id, b.rnti, s.ras, fun _ => false⟩
    let first := start.modify fun ue => ue.setRound b.harqPid 0
    have known : first.Known mobiles id := ⟨rfl, below, s.raCount⟩
    have counts (other : Nat) : (first.ues other).nbRbUl = (s.ues other).nbRbUl :=
      (@modify_nbRbUl start (fun ue => ue.setRound b.harqPid 0) (fun ue => rfl) other).trans
        (same other)
    obtain ⟨elements, last, behind⟩ :=
      @elementsUses_inside mobiles s.list b.harqPid first id known _
      (rxCes_inside block.1 read.ptr read.ces)
    have sdus := @sdusUses_inside mobiles s.list _ last behind read.sdus
    have all : (∀ use ∈
      IndexUse.ue id :: ((elementsUses mobiles s.list b.harqPid
      first (rxCes block.1 read.ptr read.ces).1).2 ++
        (sdusUses mobiles s.list
          (elementsUses mobiles s.list b.harqPid first (rxCes block.1 read.ptr read.ces).1).1
          read.sdus).2),
        use.Inside mobiles) ↔ _ :=
      (List.forall_mem_cons.trans (and_iff_right here)).trans
        (List.forall_mem_append.trans (and_congr elements sdus))
    refine all.trans
      ⟨fun inside => ⟨(fun beyond => nomatch beyond), fun other same => ?_⟩, fun inside => ?_⟩
    · cases same
      simp only [counts] at inside
      exact inside
    · simp only [counts]
      exact inside.2 read rfl

/-- The UE that is not there is used. -/
theorem blockUses_outside {ues : Nat → UeUl} (block : Memory × Nat) :
    (∀ use ∈ (blockUses mobiles s ues none b block).2, use.Inside mobiles) ↔
      parseUlschHeader block.1 block.2 b.rounds ≠ .overflow ∧
        ∀ read, parseUlschHeader block.1 block.2 b.rounds ≠ .accepted read := by
  unfold blockUses
  cases parsed : parseUlschHeader block.1 block.2 b.rounds with
  | running =>
    exact iff_of_true (fun use member => nomatch member)
      ⟨(fun beyond => nomatch beyond), fun read ends => nomatch ends⟩
  | overflow =>
    exact iff_of_false (fun all => not_behindParsed (all _ (List.mem_singleton_self _)))
      (fun both => both.1 rfl)
  | refused read =>
    exact iff_of_true (fun use member => nomatch member)
      ⟨(fun beyond => nomatch beyond), fun read ends => nomatch ends⟩
  | accepted read =>
    refine iff_of_false (fun all => ?_) (fun never => never.2 read rfl)
    have nowhere : (IndexUse.ue (-1)).Inside mobiles := all _ List.mem_cons_self
    exact absurd nowhere.1 (by decide)

theorem raUse_inside {ra : Nat} (found : s.ras.findIdx? (RaProc.active b.rnti) = some ra) :
    (IndexUse.ra ra).Inside mobiles := by
  have below := (List.findIdx?_eq_some_iff_getElem.mp found).1
  exact ra_inside (Nat.lt_of_lt_of_eq below s.raCount)

/-- A block of a UE is tolerated exactly when its elements and SDUs are inside. -/
theorem ue_tolerates_iff {id : Nat} (known : findUeId mobiles s.list b.rnti = some id) :
    Tolerates mobiles s b ↔
      ((s.ues id).roundUl b.harqPid < 8 → ∀ block, b.block = some block →
        BlockInside mobiles s id b block) := by
  have here := ue_inside (findUeId_lt known)
  unfold Tolerates rxSduUses
  rw [known]
  refine (and_iff_left fun impossible => absurd impossible (Option.some_ne_none id)).trans ?_
  by_cases round : (s.ues id).roundUl b.harqPid < 8
  · simp only [forall_const, round, if_true]
    cases received : b.block with
    | none =>
      exact iff_of_true (List.forall_mem_singleton.mpr here)
        (fun other impossible => absurd impossible.symm (Option.some_ne_none other))
    | some block =>
      have unscheduled (other : Nat) :
          (Function.update s.ues id ((s.ues id).unschedule b.harqPid) other).nbRbUl =
            (s.ues other).nbRbUl := by
        by_cases same : other = id
        · rw [same, Function.update_self]
          rfl
        · rw [Function.update_of_ne same]
      refine (List.forall_mem_cons.trans (and_iff_right here)).trans ?_
      rw [blockUses_inside (findUeId_lt known) unscheduled]
      constructor
      · intro inside other same
        cases same
        exact inside
      · intro inside
        exact inside block rfl
  · simp only [if_neg round]
    exact iff_of_true (List.forall_mem_singleton.mpr here) (fun below => absurd below round)

/-- Msg3 of a random access process is tolerated when it is given up, or its header is refused. -/
theorem ra_tolerates_iff {ra : Nat} (unknown : findUeId mobiles s.list b.rnti = none)
    (found : s.ras.findIdx? (RaProc.active b.rnti) = some ra) :
    Tolerates mobiles s b ↔ (1 < b.maxHarqMsg3Tx →
      match b.block with
      | none => b.maxHarqMsg3Tx - 1 ≤ s.msg3Round ra
      | some block => parseUlschHeader block.1 block.2 b.rounds ≠ .overflow ∧
        ∀ read, parseUlschHeader block.1 block.2 b.rounds ≠ .accepted read) := by
  have active : s.ras.any (RaProc.active b.rnti) = true := by
    obtain ⟨below, alive, -⟩ := List.findIdx?_eq_some_iff_getElem.mp found
    exact List.any_eq_true.mpr ⟨_, List.getElem_mem below, alive⟩
  have there := @raUse_inside mobiles s b ra found
  unfold Tolerates rxSduUses
  rw [unknown, found]
  refine (and_iff_left fun _ idle => absurd (active.symm.trans idle) (by decide)).trans ?_
  by_cases rounds : 1 < b.maxHarqMsg3Tx
  · simp only [forall_const, rounds]
    cases received : b.block with
    | none =>
      by_cases last : b.maxHarqMsg3Tx - 1 ≤ s.msg3Round ra
      · simp only [if_pos last]
        exact iff_of_true (List.forall_mem_singleton.mpr there) last
      · simp only [if_neg last]
        refine iff_of_false (fun all => ?_) last
        have nowhere : (IndexUse.ue (-1)).Inside mobiles :=
          all _ (List.mem_cons_of_mem _ List.mem_cons_self)
        exact absurd nowhere.1 (by decide)
    | some block =>
      refine (List.forall_mem_cons.trans (and_iff_right there)).trans ?_
      exact blockUses_outside block
  · simp only [if_neg rounds]
    exact iff_of_true (fun use member => absurd member List.not_mem_nil)
      (fun many => absurd many rounds)

theorem unknown_tolerates (unknown : findUeId mobiles s.list b.rnti = none)
    (absent : s.ras.findIdx? (RaProc.active b.rnti) = none) : Tolerates mobiles s b := by
  unfold Tolerates rxSduUses
  rw [unknown, absent]
  exact ⟨fun use member => absurd member List.not_mem_nil, fun _ _ => rfl⟩

end Calls

/-- `rx_sdu` keeps to its tables exactly for the blocks that are tolerable; it changes nothing for
an unknown sender. -/
theorem tolerates_iff (mobiles : Nat) (s : UlState) (b : UlBlock) :
    Tolerates mobiles s b ↔ Tolerable mobiles s b := by
  unfold Tolerable
  cases known : findUeId mobiles s.list b.rnti with
  | some id => exact ue_tolerates_iff known
  | none =>
    cases found : s.ras.findIdx? (RaProc.active b.rnti) with
    | none =>
      exact iff_of_true (unknown_tolerates known found)
        (fun ra impossible => absurd impossible.symm (Option.some_ne_none ra))
    | some ra =>
      refine (ra_tolerates_iff known found).trans ⟨fun inside other same => ?_, fun inside => ?_⟩
      · cases same
        exact inside
      · exact inside ra rfl

/-- A random access process that waits for Msg3, and no UE. -/
def waiting : UlState where
  list := initUeList 16
  ues _ := .fresh
  ras := [⟨0x1000, false⟩, ⟨0, true⟩, ⟨0, true⟩, ⟨0, true⟩]
  raCount := rfl
  msg3Round _ := 0

theorem pids_pos : 0 < 8 := by decide

def msg3 : UlBlock where
  rnti := 0x1000
  harqPid := ⟨0, pids_pos⟩
  block := some (fun _ => 0, 7)
  rounds := 1
  maxHarqMsg3Tx := 5

theorem msg3_uses_no_ue :
    IndexUse.ue (-1) ∈ (rxSduUses 16 waiting msg3).2 ∧
    IndexUse.ue (-1) ∈ (rxSduUses 16 waiting { msg3 with block := none }).2 ∧
    ¬ Tolerates 16 waiting msg3 ∧ ¬ Tolerates 16 waiting { msg3 with block := none } := by
  have decoded : IndexUse.ue (-1) ∈ (rxSduUses 16 waiting msg3).2 := by decide +kernel
  have failed : IndexUse.ue (-1) ∈ (rxSduUses 16 waiting { msg3 with block := none }).2 := by
    decide +kernel
  refine ⟨decoded, failed, fun tolerates => ?_, fun tolerates => ?_⟩
  · exact absurd (tolerates.1 _ decoded).1 (by decide)
  · exact absurd (tolerates.1 _ failed).1 (by decide)

end OpenAir.Mac
