import OpenAir.Mac.Pdu.HeaderBounds
import OpenAir.Mac.Pdu.HeaderWriter

/-! What a parser reads back of a written header, and where the SDUs behind it are found. -/
namespace OpenAir.Mac.Pdu
open BitField (Memory)

/-- A length as a subheader in front of the last one gives it. -/
def explicitLength (length : Nat) : Nat := if length < 128 then length else length % 32768

def told (sdu : Nat × Nat) : Nat × Nat := (sdu.1, explicitLength sdu.2)

theorem sdusOf_sduItem (sdus : List (Nat × Nat)) :
    sdusOf (sdus.map fun sdu => sduItem sdu.1 sdu.2) = sdus.map told := by
  induction sdus with
  | nil => rfl
  | cons sdu rest ih =>
    rw [List.map_cons, List.map_cons, ← ih, sduItem, told, explicitLength]
    by_cases short : sdu.2 < 128
    · rw [if_pos short, if_pos short]
      rfl
    · rw [if_neg short, if_neg short]
      rfl

theorem cesOf_sduItem (sdus : List (Nat × Nat)) :
    cesOf (sdus.map fun sdu => sduItem sdu.1 sdu.2) = [] := by
  induction sdus with
  | nil => rfl
  | cons sdu rest ih =>
    rw [List.map_cons, sduItem]
    split <;> exact ih

/-- The SDUs of a header: all with a length, or the last one without. -/
inductive Announces (front : List Item) (last : Item) : Bool → List (Nat × Nat) → Prop
  | explicit {sdus : List (Nat × Nat)} (other : sdusOf [last] = [])
      (same : sdusOf front = sdus.map told) :
    Announces front last false sdus
  | implicit {before : List (Nat × Nat)} {lcid length : Nat} (is : last.fixed = .sdu lcid 0 false)
    (same : sdusOf front = before.map told) : Announces front last true (before ++ [(lcid, length)])

def elementBytes (ces : List (Nat × List UInt8)) : List UInt8 := (ces.map Prod.snd).flatten

/-- A written header of `size` bytes with its control elements. -/
structure Framed (sduBelow : Nat) (mem : Memory) (size : Nat) (ces : List (Nat × List UInt8))
    (implicit : Bool)
    (sdus : List (Nat × Nat)) (front : List Item) (last : Item) (b : Nat) : Prop where
  few : front.length ≤ 2 + ces.length + sdus.length
  header : HeaderAt sduBelow mem front last b
  size : size = b + 1 + (elementBytes ces).length
  bytes : ∀ k < (elementBytes ces).length, mem (b + 1 + k) = (elementBytes ces).getD k 0
  ces : cesOf (front ++ [last]) = ces.map Prod.fst
  sdus : Announces front last implicit sdus

/-- What is read of the SDUs: the last one has what remains of the block. -/
inductive Decodes (tbLength size : Nat) : Bool → List (Nat × Nat) → List (Nat × Nat) → Prop
  | explicit (sdus : List (Nat × Nat)) : Decodes tbLength size false sdus (sdus.map told)
  | implicit (before : List (Nat × Nat)) (lcid length : Nat) :
      Decodes tbLength size true (before ++ [(lcid, length)])
    (before.map told ++
      [(lcid, (((tbLength : Int) - size - lengths (before.map told)) % 65536).toNat)])

section Parse

variable {rules : Rules} {mem other : Memory} {tbLength size b : Nat}
    {ces : List (Nat × List UInt8)} {implicit : Bool}
  {sdus : List (Nat × Nat)} {front : List Item} {last : Item}

theorem Announces.length (announces : Announces front last implicit sdus) :
    (sdusOf (front ++ [last])).length = sdus.length := by
  rw [sdusOf_append, List.length_append]
  cases announces with
  | explicit none same => rw [none, same, List.length_map]; rfl
  | @implicit before lcid length is same =>
    obtain ⟨size, long, rfl⟩ : ∃ size long, last = .sdu lcid size long := by
      cases last with
      | sdu other size long =>
        obtain rfl := (Item.sdu.inj is).1
        exact ⟨size, long, rfl⟩
      | ce other => exact nomatch is
      | padding => exact nomatch is
    rw [same, List.length_map, List.length_append]
    rfl

theorem ceBytes_eq (sizes : ∀ ce ∈ ces, rules.ceSize ce.1 = ce.2.length) :
    ceBytes rules (ces.map Prod.fst) = (elementBytes ces).length := by
  induction ces with
  | nil => rfl
  | cons ce rest ih =>
    have later := ih fun other member => sizes other (List.mem_cons_of_mem _ member)
    simp only [ceBytes, elementBytes, List.map_cons, List.sum_cons, List.flatten_cons,
      List.length_append] at later ⊢
    rw [sizes ce List.mem_cons_self, later]

/-- A written header is read back, with what the 16-bit arithmetic makes of the last length. -/
theorem Framed.parse (framed : Framed rules.sduBelow mem size ces implicit sdus front last b)
    (room : sdus.length ≤ nbRbMax) (few : ces.length ≤ maxNumCe)
    (sizes : ∀ ce ∈ ces, rules.ceSize ce.1 = ce.2.length)
    (spared : NoneRefused rules .start front)
    (kept : ∀ lcid, last = .ce lcid →
      rules.refuses (storeCe (HeaderRead.start.addAll rules front) lcid) lcid true = false) :
    ∃ read, parseLoop rules mem tbLength (front.length + 1) .start = .accepted read ∧
      read.ptr = b + 1 ∧
      read.ces = ces.map Prod.fst ∧ Decodes tbLength size implicit sdus read.sdus := by
  have numSdus := framed.sdus.length
  have numCes := congrArg List.length framed.ces
  rw [sdusOf_append, List.length_append] at numSdus
  rw [cesOf_append, List.length_append, List.length_map] at numCes
  have admitted : AllAdmitted rules .start front := by
    refine (allAdmitted_iff (Nat.zero_le _) (Nat.zero_le _)).mpr ⟨?_, ?_, spared⟩
    · simp only [HeaderRead.start, List.length_nil]
      omega
    · simp only [HeaderRead.start, List.length_nil]
      omega
  have sdusRead : (HeaderRead.start.addAll rules front).sdus = sdusOf front := addAll_sdus front
  have cesRead : (HeaderRead.start.addAll rules front).ces = cesOf front := addAll_ces front
  have place : (HeaderRead.start.addAll rules front).ptr = b := addAll_ptr framed.header.chain
  have taken : Admitted rules (HeaderRead.start.addAll rules front) true last := by
    cases last with
    | sdu lcid length long =>
      rw [Admitted, sdusRead]
      rw [sdusOf_sdu, List.length_cons] at numSdus
      omega
    | ce lcid =>
      refine ⟨?_, kept lcid rfl⟩
      rw [cesRead]
      rw [cesOf_ce, List.length_cons] at numCes
      omega
    | padding => trivial
  refine ⟨_, framed.header.parse admitted taken, ?_, ?_, ?_⟩
  · rw [HeaderRead.close_ptr, place]
  · rw [← framed.ces, cesOf_append, ← cesRead]
    cases last with
    | sdu lcid length long => exact (List.append_nil _).symm
    | ce lcid => rfl
    | padding => exact (List.append_nil _).symm
  · have announced := framed.sdus
    cases announced with
    | explicit none same =>
      have read : ((HeaderRead.start.addAll rules front).close rules tbLength last).sdus =
          sdusOf front := by
        rw [← sdusRead]
        cases last with
        | sdu lcid length long => cases none
        | ce lcid => rfl
        | padding => rfl
      rw [read, same]
      exact .explicit sdus
    | @implicit before lcid length is same =>
      have total : (HeaderRead.start.addAll rules front).ceLen = (elementBytes ces).length := by
        have none : cesOf [last] = [] := by
          cases last with
          | sdu other size long => rfl
          | ce other => cases is
          | padding => rfl
        rw [addAll_ceLen, ← ceBytes_eq sizes, ← framed.ces, cesOf_append, none, List.append_nil]
        exact Nat.zero_add _
      have rest : (tbLength : Int) - (b + 1 : Nat) - (elementBytes ces).length =
          tbLength - size := by
        have := framed.size
        omega
      rw [← close_fixed, is]
      simp only [HeaderRead.close, sdusRead, same, implicitLength, place, total, rest]
      exact .implicit before lcid length

theorem told_eq_iff {sdus : List (Nat × Nat)} : sdus.map told = sdus ↔
    ∀ sdu ∈ sdus, sdu.2 < 32768 := by
  have one (sdu : Nat × Nat) : told sdu = sdu ↔ sdu.2 < 32768 := by
    rw [told, explicitLength, Prod.ext_iff]
    split
    · exact iff_of_true ⟨rfl, rfl⟩ (by omega)
    · simp only [true_and]
      omega
  induction sdus with
  | nil => exact iff_of_true rfl nofun
  | cons sdu rest ih =>
    rw [List.map_cons, List.cons_eq_cons, List.forall_mem_cons]
    exact and_congr (one sdu) ih

/-- The SDUs whose length is in the header. -/
def explicitOnes (implicit : Bool) (sdus : List (Nat × Nat)) : List (Nat × Nat) :=
  if implicit then sdus.dropLast else sdus

/-- In a block of the right length, the lengths are read as they were written when those in the
header have 15 bits. -/
theorem Decodes.eq_iff {read : List (Nat × Nat)}
    (decodes : Decodes tbLength size implicit sdus read)
    (small : ∀ sdu ∈ sdus, sdu.2 < 65536)
    (total : implicit = true → tbLength % 65536 = (size + lengths sdus) % 65536) :
    read = sdus ↔ ∀ sdu ∈ explicitOnes implicit sdus, sdu.2 < 32768 := by
  cases decodes with
  | explicit => exact told_eq_iff
  | implicit before lcid length =>
    have last := small (lcid, length) (List.mem_append_right _ List.mem_cons_self)
    have whole := total rfl
    have sum : lengths (before ++ [(lcid, length)]) = lengths before + length := by
      rw [lengths_append]
      rfl
    have split : explicitOnes true (before ++ [(lcid, length)]) = before := List.dropLast_concat
    rw [split, ← told_eq_iff]
    constructor
    · intro same
      exact (List.append_inj' same rfl).1
    · intro same
      rw [same]
      have value : (((tbLength : Int) - size - lengths before) % 65536).toNat = length := by omega
      rw [value]

theorem Decodes.lcids {read : List (Nat × Nat)}
    (decodes : Decodes tbLength size implicit sdus read) :
    read.map Prod.fst = sdus.map Prod.fst := by
  cases decodes with
  | explicit => simp [told]
  | implicit before lcid length => simp [told]

/-- A framed header is read from its own bytes only. -/
theorem Framed.congr {sduBelow : Nat}
    (framed : Framed sduBelow mem size ces implicit sdus front last b)
    (same : ∀ i < size, other i = mem i) :
    Framed sduBelow other size ces implicit sdus front last b where
  few := framed.few
  header := framed.header.congr fun i upper => same i (by have := framed.size; omega)
  size := framed.size
  bytes := by
    intro k inside
    rw [same _ (by have := framed.size; omega)]
    exact framed.bytes k inside
  ces := framed.ces
  sdus := framed.sdus

theorem Framed.size_le {sduBelow : Nat}
    (framed : Framed sduBelow mem size ces implicit sdus front last b) :
    size ≤ 7 + 3 * (ces.length + sdus.length) + (elementBytes ces).length := by
  have whole := framed.size
  have few := framed.few
  have far := framed.header.chain.le_three
  omega

theorem itemAt_lcid {sduBelow a lcid length : Nat} {long : Bool}
    (found : itemAt sduBelow mem a = .sdu lcid length long) :
    lcid < sduBelow := by
  unfold itemAt at found
  split at found
  · rename_i sdu
    split at found
    · obtain ⟨rfl, -⟩ := Item.sdu.inj found
      exact sdu
    · obtain ⟨rfl, -⟩ := Item.sdu.inj found
      exact sdu
  · split at found <;> exact nomatch found

theorem Subheaders.lcids {sduBelow a : Nat} {items : List Item}
    (chain : Subheaders sduBelow mem a items b) :
    ∀ sdu ∈ sdusOf items, sdu.1 < sduBelow := by
  induction items generalizing a with
  | nil => exact nofun
  | cons item rest ih =>
    cases item with
    | sdu lcid length long =>
      rw [sdusOf_sdu, List.forall_mem_cons]
      exact ⟨itemAt_lcid chain.2.1, ih chain.2.2⟩
    | ce lcid => exact ih chain.2.2
    | padding => exact ih chain.2.2

/-- Whatever a parser accepts fits the arrays, and its SDUs are on logical channels. -/
theorem accepted_bounds {rounds : Nat} {read : HeaderRead}
    (accepted : parseLoop rules mem tbLength rounds .start = .accepted read) :
    read.ces.length ≤ maxNumCe ∧ read.sdus.length ≤ nbRbMax ∧ ∀ sdu ∈ read.sdus,
    sdu.1 < rules.sduBelow := by
  obtain ⟨items, chain, admitted, ends⟩ := parseLoop_ended (by rw [accepted]; exact nofun)
  obtain ⟨room, few, -⟩ := (allAdmitted_iff (Nat.zero_le _) (Nat.zero_le _)).mp admitted
  have noSdus : HeaderRead.start.sdus.length = 0 := rfl
  have noCes : HeaderRead.start.ces.length = 0 := rfl
  rw [noSdus, Nat.zero_add] at room
  rw [noCes, Nat.zero_add] at few
  have ces : (HeaderRead.start.addAll rules items).ces = cesOf items := addAll_ces items
  have sdus : (HeaderRead.start.addAll rules items).sdus = sdusOf items := addAll_sdus items
  rw [accepted] at ends
  cases ends with
  | rejected rejected =>
    obtain same | ⟨lcid, -, -, -, same⟩ := rejected
    · exact nomatch same
    · exact nomatch same
  | accepted stop taken =>
    cases found : itemAt rules.sduBelow mem (HeaderRead.start.addAll rules items).ptr with
    | sdu lcid length long =>
      rw [found, Admitted, sdus] at taken
      simp only [HeaderRead.close, sdus, ces, List.length_append, List.length_singleton,
        List.mem_append, List.mem_singleton]
      refine ⟨few, taken, ?_⟩
      rintro sdu (member | rfl)
      · exact chain.lcids sdu member
      · exact itemAt_lcid found
    | ce lcid =>
      rw [found, Admitted, ces] at taken
      simp only [HeaderRead.close, countCe, storeCe, sdus, ces, List.length_append,
        List.length_singleton]
      exact ⟨taken.1, room, chain.lcids⟩
    | padding =>
      simp only [HeaderRead.close, readPadding, sdus, ces]
      exact ⟨few, room, chain.lcids⟩

/-- A first byte of zero is the subheader of an SDU on LCID 0. -/
theorem parse_zero (lcid : 0 < rules.sduBelow) (byte : mem 0 = 0) :
    parseLoop rules mem tbLength 1 .start =
    .accepted (HeaderRead.start.close rules tbLength (.sdu 0 0 false)) := by
  have found : HeaderAt rules.sduBelow mem [] (.sdu 0 0 false) 0 := by
    have zero : lcidOf 0 = 0 := rfl
    refine ⟨rfl, by rw [byte]; rfl, ?_⟩
    unfold itemAt
    rw [byte, zero, if_pos lcid]
    split <;> rfl
  exact found.parse trivial (Nat.succ_pos 13)

end Parse

section Written

variable {sduBelow shortPadding : Nat} {w : Writer} {ces : List (Nat × List UInt8)}
    {sdus : List (Nat × Nat)}

/-- The subheaders in front of those of the SDUs. -/
def frontItems (shortPadding : Nat) (ces : List (Nat × List UInt8)) : List Item :=
  paddingItems shortPadding ++ ces.map fun ce => .ce ce.1

def SomeSubheader (shortPadding : Nat) (ces : List (Nat × List UInt8)) (sdus : List (Nat × Nat))
    (postPadding : Nat) : Prop :=
  frontItems shortPadding ces ≠ [] ∨ sdus ≠ [] ∨ 0 < postPadding

theorem cesOf_ce_map (ces : List (Nat × List UInt8)) : cesOf (ces.map fun ce => .ce ce.1) =
    ces.map Prod.fst := by
  induction ces with
  | nil => rfl
  | cons ce rest ih => exact congrArg (ce.1 :: ·) ih

theorem sdusOf_ce_map (ces : List (Nat × List UInt8)) :
    sdusOf (ces.map fun ce => .ce ce.1) = [] := by
  induction ces with
  | nil => rfl
  | cons ce rest ih => exact ih

theorem frontItems_lists (shortPadding : Nat) (ces : List (Nat × List UInt8)) :
    cesOf (frontItems shortPadding ces) = ces.map Prod.fst ∧
    sdusOf (frontItems shortPadding ces) = [] := by
  obtain ⟨noCes, noSdus, -⟩ := paddingItems_none shortPadding
  rw [frontItems, cesOf_append, sdusOf_append, noCes, noSdus, cesOf_ce_map, sdusOf_ce_map]
  exact ⟨rfl, rfl⟩

theorem front_wrote (padding : sduBelow ≤ 31) (buffer : Memory) (shortPadding : Nat)
    (valid : ∀ ce ∈ ces, sduBelow ≤ ce.1 ∧ ce.1 < 31) :
    (((Writer.start buffer).shortPadding shortPadding).elements ces).Wrote sduBelow
      (frontItems shortPadding ces) ∧
      (((Writer.start buffer).shortPadding shortPadding).elements ces).ces = elementBytes ces := by
  obtain ⟨wrote, none, single⟩ := Writer.shortPadding_wrote padding buffer shortPadding
  obtain ⟨done, bytes⟩ := wrote.elements single valid
  rw [none] at bytes
  exact ⟨done, bytes⟩

theorem frontItems_length (shortPadding : Nat) (ces : List (Nat × List UInt8)) :
    (frontItems shortPadding ces).length ≤ 2 + ces.length := by
  rw [frontItems, List.length_append, List.length_map]
  exact Nat.add_le_add_right (paddingItems_none shortPadding).2.2 _

/-- Padding at the end: every SDU has its length in the header. -/
theorem framed_padded
    (wrote : w.Wrote sduBelow
      (frontItems shortPadding ces ++ sdus.map fun sdu => sduItem sdu.1 sdu.2))
    (bytes : w.ces = elementBytes ces) (padding : sduBelow ≤ 31) {postPadding : Nat}
    (padded : 0 < postPadding) :
    ∃ front b, Framed sduBelow (w.finish postPadding).1 (w.finish postPadding).2 ces false sdus
        front .padding b := by
  obtain ⟨header, size, held⟩ := wrote.finish_padded padding padded
  obtain ⟨cesFront, sdusFront⟩ := frontItems_lists shortPadding ces
  rw [bytes] at size held
  refine ⟨_, _, ?_, header, size, held, ?_, .explicit rfl ?_⟩
  · rw [List.length_append, List.length_map]
    exact Nat.add_le_add_right (frontItems_length shortPadding ces) _
  · rw [cesOf_append, cesOf_append, cesOf_sduItem, cesFront]
    simp
  · rw [sdusOf_append, sdusFront, sdusOf_sduItem]
    rfl

/-- Without padding at the end, the last SDU has what remains of the block. -/
theorem framed_implicit {before : List (Nat × Nat)} {lcid length : Nat} {last : Item}
    (header : HeaderAt sduBelow w.mem
      (frontItems shortPadding ces ++ before.map fun sdu => sduItem sdu.1 sdu.2) last w.ptr)
    (is : last.fixed = .sdu lcid 0 false) (bytes : w.ces = elementBytes ces) :
    ∃ front b, Framed sduBelow (w.finish 0).1 (w.finish 0).2 ces true (before ++ [(lcid, length)])
        front last b := by
  obtain ⟨header, size, held⟩ := Writer.finish_header header
  rw [bytes] at size held
  obtain ⟨cesFront, sdusFront⟩ := frontItems_lists shortPadding ces
  have noCe : cesOf [last] = [] := by
    cases last with
    | sdu other size long => rfl
    | ce other => exact nomatch is
    | padding => rfl
  refine ⟨_, w.ptr, ?_, header, size, held, ?_, .implicit is ?_⟩
  · have short := frontItems_length shortPadding ces
    rw [List.length_append, List.length_map, List.length_append]
    omega
  · rw [cesOf_append, cesOf_append, cesOf_sduItem, cesFront, noCe]
    simp
  · rw [sdusOf_append, sdusFront, sdusOf_sduItem]
    rfl

/-- A header without SDUs ends with a control element or with padding. -/
theorem framed_bare (wrote : w.Wrote sduBelow (frontItems shortPadding ces))
    (bytes : w.ces = elementBytes ces)
    (some : frontItems shortPadding ces ≠ []) :
    ∃ front last b, frontItems shortPadding ces = front ++ [last] ∧
      Framed sduBelow (w.finish 0).1 (w.finish 0).2 ces false [] front last b := by
  obtain ⟨none, -⟩ | ⟨front, last, split, held⟩ := wrote
  · exact absurd none some
  · obtain ⟨header, size, kept⟩ := Writer.finish_header held.header
    obtain ⟨cesFront, sdusFront⟩ := frontItems_lists shortPadding ces
    have short := frontItems_length shortPadding ces
    rw [split] at cesFront sdusFront short
    rw [sdusOf_append] at sdusFront
    rw [List.length_append] at short
    rw [bytes] at size kept
    obtain ⟨noneFront, noneLast⟩ := List.append_eq_nil_iff.mp sdusFront
    exact ⟨front, last, w.ptr, split, Nat.le_of_succ_le short, header, size, kept, cesFront,
      .explicit noneLast noneFront⟩

end Written

section Payload

def bytesAt (mem : Memory) (a n : Nat) : List UInt8 := (List.range n).map fun i => mem (a + i)

/-- The bytes of one SDU after the other. -/
def payloadsAt (mem : Memory) : Nat → List (Nat × Nat) → List (List UInt8)
  | _, [] => []
  | a, (_, length) :: rest => bytesAt mem a length :: payloadsAt mem (a + length) rest

def transportBlock (header : Memory × Nat) (sdus : List (Nat × List UInt8)) : Memory :=
  copyTo header.1 header.2 (sdus.map Prod.snd).flatten

def withLength (sdu : Nat × List UInt8) : Nat × Nat := (sdu.1, sdu.2.length)

variable {mem : Memory} {a : Nat}

theorem bytesAt_eq {bytes : List UInt8} (held : ∀ k < bytes.length, mem (a + k) = bytes.getD k 0) :
    bytesAt mem a bytes.length = bytes := by
  apply List.ext_getElem
  · simp [bytesAt]
  · intro k _ inside
    simp [bytesAt, held k inside, inside]

theorem payloadsAt_eq {sdus : List (Nat × List UInt8)}
    (held : ∀ k < (sdus.map Prod.snd).flatten.length, mem (a + k) =
      (sdus.map Prod.snd).flatten.getD k 0) :
    payloadsAt mem a (sdus.map withLength) = sdus.map Prod.snd := by
  induction sdus generalizing a with
  | nil => rfl
  | cons sdu rest ih =>
    simp only [List.map_cons, List.flatten_cons, List.length_append] at held
    rw [List.map_cons, List.map_cons, withLength, payloadsAt, bytesAt_eq, ih]
    · intro k inside
      rw [Nat.add_assoc, held _ (by omega), List.getD_append_right _ _ _ _ (Nat.le_add_right ..),
        Nat.add_sub_cancel_left]
    · intro k inside
      rw [held k (by omega), List.getD_append _ _ _ _ inside]

end Payload

end OpenAir.Mac.Pdu
