import OpenAir.Mac.Pdu.DlHeader

/-! Whether a downlink block is received as it was put together. -/
namespace OpenAir.Mac.Pdu
open BitField (Memory)

/-- An SDU with the length of an `unsigned short`. -/
structure DlSdu where
  lcid : Nat
  payload : List UInt8
  length : payload.length < 65536

def DlSdu.sent (sdu : DlSdu) : Nat × List UInt8 := (sdu.lcid, sdu.payload)

/-- A block that starts with the header and the SDUs; what is behind them is not told. -/
structure IsBlock (header : Memory × Nat) (sdus : List (Nat × List UInt8))
    (block : Memory) : Prop where
  starts : ∀ i < header.2, block i = header.1 i
  payload : HoldsAt block header.2 (sdus.map Prod.snd).flatten

/-- The state of the UE that matters: whether random access is active, and the bytes of Msg3. -/
structure UeRa where
  active : Bool
  txSdu : List UInt8

/-- Every block with a generated header is received as the commands and the SDUs that were sent. -/
def DlRoundTrip (commands : DlCommands) (sdus : List DlSdu) (shortPadding postPadding : Nat)
    (ra : UeRa) : Prop :=
  ∀ buffer, ∃ header,
    generateDlschHeader buffer ((sdus.map DlSdu.sent).map withLength) commands shortPadding
      postPadding = some header ∧
    ∀ block, IsBlock header (sdus.map DlSdu.sent) block → ∃ rounds read,
      parseHeader block
        ((header.2 + lengths ((sdus.map DlSdu.sent).map withLength) + postPadding) % 65536) rounds =
        .accepted read ∧
      ueSendSdu block ra.active ra.txSdu read = (commands.values, sdus.map DlSdu.sent)

section Sdus

variable {mem : Memory} {a : Nat} {read : List (Nat × Nat)} {sent : List (Nat × List UInt8)}

theorem ueSdus_bounds : (ueSdus mem a read).length ≤ read.length ∧ ∀ sdu ∈ ueSdus mem a read,
    sdu.1 < nbRbMax := by
  induction read generalizing a with
  | nil => exact ⟨Nat.le_refl 0, nofun⟩
  | cons sdu rest ih =>
    rw [ueSdus, List.length_cons]
    obtain ⟨length, lcids⟩ := ih (a := a + sdu.2)
    split
    · rename_i known
      exact ⟨Nat.succ_le_succ length, List.forall_mem_cons.mpr ⟨known, lcids⟩⟩
    · exact ⟨Nat.le_succ_of_le length, lcids⟩

theorem ueSendSdu_bounds (mem : Memory) (ra : UeRa) (read : HeaderRead) :
    (ueSendSdu mem ra.active ra.txSdu read).2.length ≤ read.sdus.length ∧
      ∀ sdu ∈ (ueSendSdu mem ra.active ra.txSdu read).2, sdu.1 < nbRbMax := by
  rw [ueSendSdu]
  cases (ueStart mem ra.active ra.txSdu read).failed with
  | true => exact ⟨Nat.zero_le _, nofun⟩
  | false => exact ueSdus_bounds

/-- The SDUs handed over are those sent when their lengths and the bytes at the pointer are. -/
theorem ueSdus_eq_iff (known : ∀ sdu ∈ read, sdu.1 < nbRbMax) :
    ueSdus mem a read = sent ↔ read = sent.map withLength ∧
    HoldsAt mem a (sent.map Prod.snd).flatten := by
  induction read generalizing a sent with
  | nil =>
    rw [ueSdus]
    cases sent with
    | nil => exact iff_of_true rfl ⟨rfl, nofun⟩
    | cons sdu rest => exact iff_of_false nofun fun both => nomatch both.1
  | cons sdu rest ih =>
    obtain ⟨lcid, length⟩ := sdu
    rw [ueSdus, if_pos (known (lcid, length) List.mem_cons_self)]
    cases sent with
    | nil => exact iff_of_false nofun fun both => nomatch both.1
    | cons first others =>
      obtain ⟨channel, payload⟩ := first
      have later (b : Nat) : ueSdus mem b rest = others ↔
          rest = others.map withLength ∧ HoldsAt mem b (others.map Prod.snd).flatten :=
        ih fun sdu member => known sdu (List.mem_cons_of_mem _ member)
      rw [List.cons_eq_cons, later]
      simp only [List.map_cons, List.flatten_cons, withLength, List.cons_eq_cons, Prod.mk.injEq,
        holdsAt_append]
      constructor
      · rintro ⟨⟨rfl, bytes⟩, same, held⟩
        have equal : length = payload.length := by
          rw [← bytes]
          simp [bytesAt]
        subst equal
        exact ⟨⟨⟨rfl, rfl⟩, same⟩, bytesAt_eq_iff.mp bytes, held⟩
      · rintro ⟨⟨⟨rfl, rfl⟩, same⟩, bytes, held⟩
        exact ⟨⟨rfl, bytesAt_eq_iff.mpr bytes⟩, same, held⟩

end Sdus

section Shift

variable {mem : Memory} {txSdu : List UInt8}

/-- A DRX command has no bytes, but the UE steps over one. -/
def DlCommands.shift (commands : DlCommands) : Nat := if commands.drxCmd ≠ 255 then 1 else 0

theorem DlCommands.list_bytes (commands : DlCommands) : elementBytes commands.list =
    elementBytes commands.tail := by
  unfold DlCommands.list
  split <;> rfl

theorem walk_list (commands : DlCommands)
    (small : commands.timingAdvanceCmd = 31 ∨ commands.timingAdvanceCmd.toNat < 64)
    (ptr : Nat) (raActive : Bool) :
    Receives mem (ptr + commands.shift) (if commands.drxCmd ≠ 255 then [.drx] else [])
      (elementBytes commands.list)
      commands.tailValues (raActive = true ∧ ∃ id ∈ commands.ueContResId, id ≠ txSdu)
      (walk mem txSdu (commands.list.map Prod.fst) ⟨ptr, raActive, [], false⟩) := by
  rw [commands.list_bytes, DlCommands.list, DlCommands.shift]
  by_cases drx : commands.drxCmd = 255
  · simp only [drx, ne_eq, not_true_eq_false, if_false, List.nil_append]
    exact walk_tail commands small ptr raActive []
  · simp only [drx, ne_eq, not_false_eq_true, if_true]
    exact walk_tail commands small (ptr + 1) raActive [.drx]

end Shift

section Block

variable {commands : DlCommands} {sdus : List (Nat × List UInt8)}
    {shortPadding postPadding tbLength : Nat} {ra : UeRa}
  {buffer block : Memory} {header : Memory × Nat}

/-- What the UE does with a block it accepts. -/
structure Sends (commands : DlCommands) (sdus : List (Nat × List UInt8))
    (postPadding tbLength : Nat) (ra : UeRa)
    (header : Memory × Nat) (block : Memory) (read : HeaderRead) (s : UeSend) : Prop where
  result : ueSendSdu block ra.active ra.txSdu read =
    (s.received, if s.failed then [] else ueSdus block s.ptr read.sdus)
  size : header.2 = read.ptr + (elementBytes commands.list).length
  held : HoldsAt block read.ptr (elementBytes commands.list)
  receives : Receives block (read.ptr + commands.shift)
    (if commands.drxCmd ≠ 255 then [.drx] else [])
    (elementBytes commands.list) commands.tailValues
      (ra.active = true ∧ ∃ id ∈ commands.ueContResId, id ≠ ra.txSdu) s
  decodes : Decodes tbLength header.2 (!(sdus.map withLength).isEmpty && postPadding == 0)
    (sdus.map withLength) read.sdus
  channels : ∀ sdu ∈ read.sdus, sdu.1 < nbRbMax

theorem dlBlock_sends (tbLength : Nat) (ra : UeRa)
    (small : commands.timingAdvanceCmd = 31 ∨ commands.timingAdvanceCmd.toNat < 64)
    (room : sdus.length ≤ nbRbMax)
    (lcids : ∀ sdu ∈ sdus, sdu.1 < nbRbMax)
    (some : SomeSubheader shortPadding commands.list (sdus.map withLength) postPadding)
    (placed : ContResPlaced commands (sdus.map withLength) shortPadding postPadding)
    (generated : generateDlschHeader buffer (sdus.map withLength) commands shortPadding
      postPadding = .some header)
    (isBlock : IsBlock header sdus block) :
    ∃ rounds read s, parseHeader block tbLength rounds = .accepted read ∧
      Sends commands sdus postPadding tbLength ra header block read s := by
  have lcidsSent : ∀ sdu ∈ sdus.map withLength, sdu.1 < 28 :=
    List.forall_mem_map.mpr fun sdu member => Nat.lt_trans (lcids sdu member) (by decide)
  obtain ⟨rounds, read, accepted, ces, size, held, decodes⟩ :=
    dlBlock_read tbLength (by rw [List.length_map]; exact room) lcidsSent some placed
      generated isBlock.starts
  have few := (accepted_bounds accepted).1
  refine ⟨rounds, read, ueStart block ra.active ra.txSdu read, accepted, rfl, size, held,
    ?_, decodes, ?_⟩
  · rw [ueStart_walk few, ces]
    exact walk_list commands small read.ptr ra.active
  · intro sdu member
    have channel : sdu.1 ∈ (sdus.map withLength).map Prod.fst :=
      decodes.lcids ▸ List.mem_map_of_mem member
    rw [List.map_map] at channel
    obtain ⟨other, inside, same⟩ := List.mem_map.mp channel
    rw [← same]
    exact lcids other inside

variable {read : HeaderRead} {s : UeSend}

/-- The commands are received when the bytes at the shifted pointer are theirs. -/
theorem Sends.values_iff (sends : Sends commands sdus postPadding tbLength ra header block read s) :
    s.received = commands.values ↔
    HoldsAt block (read.ptr + commands.shift) (elementBytes commands.list) := by
  obtain ⟨values, received, same⟩ := sends.receives.read
  rw [received, DlCommands.values, List.append_cancel_left_eq, same]

theorem Sends.shifted (sends : Sends commands sdus postPadding tbLength ra header block read s)
    (same : ueSendSdu block ra.active ra.txSdu read = (commands.values, sdus)) :
    HoldsAt block (read.ptr + commands.shift)
      (elementBytes commands.list ++ (sdus.map Prod.snd).flatten) ∧
      (s.failed = false → read.sdus = sdus.map withLength) ∧ (s.failed = true → sdus = []) := by
  rw [sends.result, Prod.mk.injEq] at same
  obtain ⟨values, handed⟩ := same
  have elements := sends.values_iff.mp values
  cases failed : s.failed with
  | true =>
    rw [failed] at handed
    obtain rfl : [] = sdus := handed
    refine ⟨?_, nofun, fun _ => rfl⟩
    rw [List.map_nil, List.flatten_nil, List.append_nil]
    exact elements
  | false =>
    rw [failed] at handed
    obtain ⟨read, payload⟩ := (ueSdus_eq_iff sends.channels).mp handed
    refine ⟨holdsAt_append.mpr ⟨elements, ?_⟩, fun _ => read, nofun⟩
    rw [← sends.receives.moved failed]
    exact payload

theorem transportBlock_isBlock (header : Memory × Nat) (sdus : List (Nat × List UInt8)) :
    IsBlock header sdus (transportBlock header sdus) :=
  ⟨fun _ below => copyTo_below below, fun _ inside => copyTo_inside inside⟩

/-- The byte behind a block can be any. -/
theorem IsBlock.update (isBlock : IsBlock header sdus block) (byte : UInt8) :
    IsBlock header sdus
      (Function.update block (header.2 + (sdus.map Prod.snd).flatten.length) byte) where
  starts := by
    intro i below
    rw [Function.update_of_ne (Nat.ne_of_lt (Nat.lt_of_lt_of_le below (Nat.le_add_right ..)))]
    exact isBlock.starts i below
  payload := by
    intro k inside
    rw [Function.update_of_ne (Nat.ne_of_lt (Nat.add_lt_add_left inside _))]
    exact isBlock.payload k inside

/-- The last of some bytes that are found one place too far. -/
theorem HoldsAt.last {mem : Memory} {a : Nat} {bytes : List UInt8}
    (held : HoldsAt mem (a + 1) bytes) (some : bytes ≠ []) :
    mem (a + bytes.length) = bytes.getD (bytes.length - 1) 0 := by
  have positive := List.length_pos_iff.mpr some
  have found := held (bytes.length - 1) (Nat.sub_lt positive Nat.one_pos)
  rw [Nat.add_assoc, Nat.add_sub_cancel' positive] at found
  exact found

end Block

/-- When a block is received as it was put together. -/
structure DlFits (commands : DlCommands) (sdus : List DlSdu) (shortPadding postPadding : Nat)
    (ra : UeRa) : Prop where
  timing : commands.timingAdvanceCmd = 31 ∨ commands.timingAdvanceCmd.toNat < 64
  room : sdus.length ≤ nbRbMax
  channels : ∀ sdu ∈ sdus, sdu.lcid < nbRbMax
  written : SomeSubheader shortPadding commands.list
    ((sdus.map DlSdu.sent).map withLength) postPadding
  placed : ContResPlaced commands ((sdus.map DlSdu.sent).map withLength) shortPadding postPadding
  /-- The lengths in the header have 15 bits; without padding the last one is not there. -/
  short : ∀ sdu ∈ if postPadding = 0 then sdus.dropLast else sdus, sdu.payload.length < 32768
  /-- No DRX command in front of any byte. -/
  drx : commands.drxCmd = 255 ∨
    commands.timingAdvanceCmd = 31 ∧ commands.ueContResId = none ∧ ∀ sdu ∈ sdus, sdu.payload = []
  contention : ra.active = false ∨ (∀ id ∈ commands.ueContResId, id = ra.txSdu) ∨ sdus = []

section RoundTrip

variable {commands : DlCommands} {sdus : List DlSdu} {shortPadding postPadding : Nat} {ra : UeRa}

theorem DlSdu.small : ∀ sdu ∈ (sdus.map DlSdu.sent).map withLength, sdu.2 < 65536 := by
  rw [List.forall_mem_map, List.forall_mem_map]
  exact fun sdu _ => sdu.length

theorem lengths_iff :
    (∀ sdu ∈ explicitOnes (!((sdus.map DlSdu.sent).map withLength).isEmpty && postPadding == 0)
      ((sdus.map DlSdu.sent).map withLength), sdu.2 < 32768) ↔
      ∀ sdu ∈ if postPadding = 0 then sdus.dropLast else sdus, sdu.payload.length < 32768 := by
  have ones : explicitOnes (!((sdus.map DlSdu.sent).map withLength).isEmpty && postPadding == 0)
      ((sdus.map DlSdu.sent).map withLength) =
      ((if postPadding = 0 then sdus.dropLast else sdus).map DlSdu.sent).map withLength := by
    cases sdus with
    | nil => simp [explicitOnes]
    | cons sdu rest =>
      by_cases none : postPadding = 0
      · simp [explicitOnes, none, List.map_dropLast]
      · simp [explicitOnes, none]
  rw [ones, List.forall_mem_map, List.forall_mem_map]
  rfl

section Fits

variable {buffer block : Memory} {header : Memory × Nat}

theorem DlFits.sends (fits : DlFits commands sdus shortPadding postPadding ra)
    (generated : generateDlschHeader buffer ((sdus.map DlSdu.sent).map withLength) commands
      shortPadding postPadding = .some header)
    (isBlock : IsBlock header (sdus.map DlSdu.sent) block) (tbLength : Nat) :
    ∃ rounds read s, parseHeader block tbLength rounds = .accepted read ∧
      Sends commands (sdus.map DlSdu.sent) postPadding tbLength ra header block read s :=
  dlBlock_sends tbLength ra fits.timing (by rw [List.length_map]; exact fits.room)
    (List.forall_mem_map.mpr fits.channels)
    fits.written fits.placed generated isBlock

theorem sends_lengths {read : HeaderRead} {s : UeSend}
    (sends : Sends commands (sdus.map DlSdu.sent) postPadding
    ((header.2 + lengths ((sdus.map DlSdu.sent).map withLength) + postPadding) % 65536) ra header
      block read s) :
    read.sdus = (sdus.map DlSdu.sent).map withLength ↔
      ∀ sdu ∈ if postPadding = 0 then sdus.dropLast else sdus, sdu.payload.length < 32768 := by
  rw [← lengths_iff]
  refine sends.decodes.eq_iff DlSdu.small fun implicit => ?_
  have none : postPadding = 0 := by
    rw [Bool.and_eq_true, beq_iff_eq] at implicit
    exact implicit.2
  rw [none, Nat.mod_mod]
  rfl

end Fits

theorem DlFits.roundTrip (fits : DlFits commands sdus shortPadding postPadding ra) :
    DlRoundTrip commands sdus shortPadding postPadding ra := by
  intro buffer
  have asserted : ¬ (commands.timingAdvanceCmd ≠ 31 ∧ 64 ≤ commands.timingAdvanceCmd.toNat) := by
    rintro ⟨sent, large⟩
    exact absurd (fits.timing.resolve_left sent) (Nat.not_lt.mpr large)
  obtain ⟨header, generated⟩ :
    ∃ header, generateDlschHeader buffer ((sdus.map DlSdu.sent).map withLength) commands
      shortPadding postPadding = some header := ⟨_, by rw [generateDlschHeader, if_neg asserted]⟩
  refine ⟨header, generated, fun block isBlock => ?_⟩
  obtain ⟨rounds, read, s, accepted, sends⟩ := fits.sends generated isBlock
    ((header.2 + lengths ((sdus.map DlSdu.sent).map withLength) + postPadding) % 65536)
  refine ⟨rounds, read, accepted, ?_⟩
  have sdusRead := (sends_lengths sends).mpr fits.short
  -- With a DRX command there is nothing that could be read one place too far.
  have bytes : HoldsAt block (read.ptr + commands.shift)
      (elementBytes commands.list ++ ((sdus.map DlSdu.sent).map Prod.snd).flatten) := by
    obtain none | ⟨noTiming, noContRes, empty⟩ := fits.drx
    · rw [DlCommands.shift, if_neg (not_not.mpr none), Nat.add_zero, holdsAt_append, ← sends.size]
      exact ⟨sends.held, isBlock.payload⟩
    · have noElement : elementBytes commands.list = [] := by
        rw [commands.list_bytes, DlCommands.tail, noContRes, noTiming]
        rfl
      have noPayload : ((sdus.map DlSdu.sent).map Prod.snd).flatten = [] := by
        rw [List.flatten_eq_nil_iff, List.forall_mem_map, List.forall_mem_map]
        exact empty
      rw [noElement, noPayload]
      exact fun _ within => absurd within (Nat.not_lt_zero _)
  obtain ⟨elements, payload⟩ := holdsAt_append.mp bytes
  rw [sends.result, sends.values_iff.mpr elements]
  cases failed : s.failed with
  | true =>
    obtain ⟨active, id, found, differs⟩ := (sends.receives.failed elements).mp failed
    obtain inactive | same | rfl := fits.contention
    · cases active.symm.trans inactive
    · exact absurd (same id found) differs
    · rfl
  | false =>
    have handed : ueSdus block s.ptr read.sdus = sdus.map DlSdu.sent := by
      rw [ueSdus_eq_iff sends.channels, sends.receives.moved failed]
      exact ⟨sdusRead, payload⟩
    rw [handed]
    rfl

/-- A header without a subheader is one byte that was never written. -/
theorem dlHeader_unwritten
    (none : ¬ SomeSubheader shortPadding commands.list
      ((sdus.map DlSdu.sent).map withLength) postPadding) :
    ¬ DlRoundTrip commands sdus shortPadding postPadding ra := by
  intro roundTrip
  simp only [SomeSubheader, not_or, not_not, Nat.not_lt, Nat.le_zero] at none
  obtain ⟨front, noSdu, rfl⟩ := none
  obtain ⟨noPadding, noCe⟩ := List.append_eq_nil_iff.mp front
  obtain rfl := List.map_eq_nil_iff.mp (List.map_eq_nil_iff.mp noSdu)
  rw [List.map_eq_nil_iff] at noCe
  obtain ⟨header, generated, received⟩ := roundTrip fun _ => 0
  obtain ⟨rounds, read, accepted, same⟩ := received _ (transportBlock_isBlock header _)
  have byte : transportBlock header ([].map DlSdu.sent) 0 = 0 := by
    rw [generateDlschHeader, Writer.shortPadding_none noPadding, noCe] at generated
    split at generated
    · cases generated
    · obtain rfl := Option.some.inj generated
      rfl
  obtain rfl := accepted_unique accepted (parse_zero (by decide) byte)
  cases congrArg Prod.snd same

theorem DlRoundTrip.bounds (roundTrip : DlRoundTrip commands sdus shortPadding postPadding ra) :
    sdus.length ≤ nbRbMax ∧ ∀ sdu ∈ sdus, sdu.lcid < nbRbMax := by
  obtain ⟨header, generated, received⟩ := roundTrip fun _ => 0
  obtain ⟨rounds, read, accepted, same⟩ := received _ (transportBlock_isBlock header _)
  obtain ⟨-, room, -⟩ := accepted_bounds accepted
  obtain ⟨length, channels⟩ :=
    ueSendSdu_bounds (transportBlock header (sdus.map DlSdu.sent)) ra read
  rw [same] at length channels
  rw [List.length_map] at length
  exact ⟨Nat.le_trans length room, List.forall_mem_map.mp channels⟩

theorem DlCommands.bytes_nil (commands : DlCommands) (empty : elementBytes commands.list = []) :
    commands.timingAdvanceCmd = 31 ∧ commands.ueContResId = none := by
  have bytes : elementBytes commands.tail = elementBytes
      (if commands.timingAdvanceCmd ≠ 31 then
        [(29, [UInt8.ofNat commands.timingAdvanceCmd.toNat])] else []) ++
      elementBytes (commands.ueContResId.map fun id => (28, id)).toList := by
    rw [DlCommands.tail, elementBytes, List.map_append, List.flatten_append]
    rfl
  rw [commands.list_bytes, bytes, List.append_eq_nil_iff] at empty
  constructor
  · by_contra timing
    rw [if_pos timing] at empty
    cases empty.1
  · cases found : commands.ueContResId with
    | none => rfl
    | some id =>
      have noId : id = [] := by
        rw [found] at empty
        exact (List.append_nil id).symm.trans empty.2
      have six := commands.sixBytes id found
      rw [noId] at six
      cases six

/-- A DRX command shifts everything behind it by one, into a byte that can be any. -/
theorem DlRoundTrip.drx (roundTrip : DlRoundTrip commands sdus shortPadding postPadding ra)
    (timing : commands.timingAdvanceCmd = 31 ∨ commands.timingAdvanceCmd.toNat < 64)
    (written : SomeSubheader shortPadding commands.list
      ((sdus.map DlSdu.sent).map withLength) postPadding)
    (placed : ContResPlaced commands ((sdus.map DlSdu.sent).map withLength)
      shortPadding postPadding) :
    commands.drxCmd = 255 ∨
    elementBytes commands.list ++ ((sdus.map DlSdu.sent).map Prod.snd).flatten = [] := by
  refine Classical.or_iff_not_imp_left.mpr fun drx => Classical.byContradiction fun some => ?_
  obtain ⟨room, channels⟩ := roundTrip.bounds
  obtain ⟨header, generated, received⟩ := roundTrip fun _ => 0
  have behind (byte : UInt8) :
    byte = (elementBytes commands.list ++ ((sdus.map DlSdu.sent).map Prod.snd).flatten).getD
      ((elementBytes commands.list ++ ((sdus.map DlSdu.sent).map Prod.snd).flatten).length - 1)
          0 := by
    have isBlock := (transportBlock_isBlock header (sdus.map DlSdu.sent)).update byte
    obtain ⟨rounds, read, accepted, same⟩ := received _ isBlock
    obtain ⟨more, other, s, ended, sends⟩ := dlBlock_sends
      ((header.2 + lengths ((sdus.map DlSdu.sent).map withLength) + postPadding) % 65536) ra timing
      (by rw [List.length_map]; exact room) (List.forall_mem_map.mpr channels) written placed
        generated isBlock
    obtain rfl := accepted_unique accepted ended
    have held := (sends.shifted same).1
    rw [DlCommands.shift, if_pos drx] at held
    rw [← held.last some, List.length_append, ← Nat.add_assoc, ← sends.size, Function.update_self]
  have zero := behind 0
  rw [← behind 1] at zero
  exact nomatch zero

theorem DlRoundTrip.fits (roundTrip : DlRoundTrip commands sdus shortPadding postPadding ra) :
    DlFits commands sdus shortPadding postPadding ra := by
  obtain ⟨room, channels⟩ := roundTrip.bounds
  have written := Classical.byContradiction fun none => dlHeader_unwritten none roundTrip
  obtain ⟨header, generated, received⟩ := roundTrip fun _ => 0
  have isBlock := transportBlock_isBlock header (sdus.map DlSdu.sent)
  obtain ⟨rounds, read, accepted, same⟩ := received _ isBlock
  have timing : commands.timingAdvanceCmd = 31 ∨ commands.timingAdvanceCmd.toNat < 64 := by
    rw [generateDlschHeader] at generated
    split at generated
    · cases generated
    · rename_i asserted
      rw [not_and, Nat.not_le] at asserted
      exact Classical.or_iff_not_imp_left.mpr asserted
  have placed :=
    Classical.byContradiction
    fun misplaced => dlBlock_refused generated misplaced isBlock.starts accepted
  obtain ⟨more, other, s, ended, sends⟩ := dlBlock_sends
    ((header.2 + lengths ((sdus.map DlSdu.sent).map withLength) + postPadding) % 65536) ra timing
    (by rw [List.length_map]; exact room) (List.forall_mem_map.mpr channels) written placed
      generated isBlock
  obtain rfl := accepted_unique accepted ended
  obtain ⟨held, won, lost⟩ := sends.shifted same
  have drx := roundTrip.drx timing written placed
  refine ⟨timing, room, channels, written, placed, ?_, ?_, ?_⟩
  · cases failed : s.failed with
    | true =>
      obtain rfl := List.map_eq_nil_iff.mp (lost failed)
      rw [List.dropLast_nil, ite_self]
      intro sdu member
      cases member
    | false => exact (sends_lengths sends).mp (won failed)
  · refine drx.imp_right fun none => ?_
    obtain ⟨noElement, noPayload⟩ := List.append_eq_nil_iff.mp none
    obtain ⟨noTiming, noContRes⟩ := commands.bytes_nil noElement
    rw [List.flatten_eq_nil_iff, List.forall_mem_map, List.forall_mem_map] at noPayload
    exact ⟨noTiming, noContRes, noPayload⟩
  · refine Classical.or_iff_not_imp_left.mpr
      fun active => Classical.or_iff_not_imp_left.mpr fun differs => ?_
    obtain ⟨id, found, other⟩ : ∃ id ∈ commands.ueContResId, id ≠ ra.txSdu := by
      simpa only [not_forall, exists_prop] using differs
    have failed := (sends.receives.failed (holdsAt_append.mp held).1).mpr
      ⟨Bool.eq_true_of_not_eq_false active, id, found, other⟩
    exact List.map_eq_nil_iff.mp (lost failed)

end RoundTrip

/-- A generated block is received as it was put together exactly when it fits, and the SDUs of an
accepted block are looked for behind its control elements exactly when these are aligned. -/
theorem dlReceived_iff (commands : DlCommands) (sdus : List DlSdu)
    (shortPadding postPadding : Nat) (ra : UeRa) :
    (DlRoundTrip commands sdus shortPadding postPadding ra ↔
      DlFits commands sdus shortPadding postPadding ra) ∧
    ∀ (mem : Memory) (tbLength rounds : Nat) (read : HeaderRead),
      parseHeader mem tbLength rounds = .accepted read →
      (ueStart mem ra.active ra.txSdu read).failed = false →
      ((ueStart mem ra.active ra.txSdu read).ptr = read.ptr + ceBytes dlRules read.ces ↔
        Aligned ra.active read.ces) := by
  refine ⟨⟨DlRoundTrip.fits, DlFits.roundTrip⟩, ?_⟩
  intro mem tbLength rounds read accepted won
  rw [ueStart_walk (accepted_bounds accepted).1] at won ⊢
  exact walk_aligned won

/-- A DRX command in front of an SDU of three bytes on LCID 3. -/
def drxOnly : DlCommands := ⟨0, 31, none, nofun⟩

def threeBytes : DlSdu := ⟨3, [1, 2, 3], by decide⟩

/-- With a DRX command the SDU is taken one byte too far: the block `3e 03 01 02 03` gives the
bytes from 3 on, where its header ends at 2. -/
theorem dlReceived_shifted :
    ¬ DlRoundTrip drxOnly [threeBytes] 0 0 ⟨false, []⟩ ∧
    parseHeader (blockOf [0x3e, 0x03, 1, 2, 3]) 5 2 =
    .accepted ⟨2, [30], [(3, 3)], 0, 0, 0, false⟩ ∧
    (ueStart (blockOf [0x3e, 0x03, 1, 2, 3]) false [] ⟨2, [30], [(3, 3)], 0, 0, 0, false⟩).ptr =
    3 := by
  refine ⟨fun roundTrip => ?_, by decide, by decide⟩
  obtain none | ⟨-, -, empty⟩ := roundTrip.fits.drx
  · exact absurd none (by decide)
  · exact nomatch empty threeBytes List.mem_cons_self

end OpenAir.Mac.Pdu
