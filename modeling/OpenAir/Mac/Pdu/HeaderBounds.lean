import OpenAir.Mac.Pdu.ParseHeader

/-! What the parsers read, store and accept when the block is arbitrary. -/
namespace OpenAir.Mac.Pdu
open BitField (Memory)

/-- Nothing was read or stored outside, and an accepted block holds what its header says. -/
def Bounded (rules : Rules) (tbLength : Nat) : ParseEnd → Prop
  | .running => False
  | .overflow => False
  | .refused read => read.ptr ≤ tbLength ∧ read.ces.length ≤ maxNumCe ∧ read.sdus.length ≤ nbRbMax
  | .accepted read =>
    (read.ptr ≤ tbLength ∧ read.ces.length ≤ maxNumCe ∧ read.sdus.length ≤ nbRbMax) ∧
      read.ptr + ceBytes rules read.ces + lengths read.sdus ≤ tbLength ∧ read.wrapped = false

/-- A header of the given subheaders in front of the last one, at `b`, that lies in the block
with the elements it announces, or is refused at `b`. -/
structure Fits (rules : Rules) (passed : List Item → Prop)
    (refused : List Item → Bool → Nat → Prop) (mem : Memory)
    (tbLength : Nat) (items : List Item) (b : Nat) : Prop where
  chain : Subheaders rules.sduBelow mem 0 items b
  inside : b < tbLength
  passed : passed items
  sdus : (sdusOf (items ++ [itemAt rules.sduBelow mem b])).length ≤ nbRbMax
  ces : (cesOf (items ++ [itemAt rules.sduBelow mem b])).length ≤ maxNumCe
  ends : (∃ lcid, itemAt rules.sduBelow mem b = .ce lcid ∧ refused items (!extended (mem b)) lcid) ∨
    extended (mem b) = false ∧
      b + 1 + ceBytes rules (cesOf (items ++ [itemAt rules.sduBelow mem b])) +
        lengths (sdusOf items) ≤ tbLength

section General

variable {rules : Rules} {mem : Memory} {tbLength rounds : Nat} {items : List Item} {item : Item}

theorem lengths_append (first second : List (Nat × Nat)) :
    lengths (first ++ second) = lengths first + lengths second := by
  simp [lengths]

theorem ceBytes_append (first second : List Nat) : ceBytes rules (first ++ second) =
    ceBytes rules first + ceBytes rules second := by
  simp [ceBytes]

/-- What stands in a header that was read to its end, with the length of the last SDU as it
comes out of 16 bits. -/
theorem close_bounded {b : Nat} (chain : Subheaders rules.sduBelow mem 0 items b)
    (admitted : Admitted rules (HeaderRead.start.addAll rules items) true item) :
    Bounded rules tbLength
      (.accepted ((HeaderRead.start.addAll rules items).close rules tbLength item)) ↔
      b < tbLength ∧ (cesOf (items ++ [item])).length ≤ maxNumCe ∧
      (sdusOf (items ++ [item])).length ≤ nbRbMax ∧
        b + 1 + ceBytes rules (cesOf (items ++ [item])) + lengths (sdusOf items) ≤ tbLength := by
  have place : (HeaderRead.start.addAll rules items).ptr = b := addAll_ptr chain
  have sdus : (HeaderRead.start.addAll rules items).sdus = sdusOf items := addAll_sdus items
  have ces : (HeaderRead.start.addAll rules items).ces = cesOf items := addAll_ces items
  have ceLen : (HeaderRead.start.addAll rules items).ceLen = ceBytes rules (cesOf items) := by
    rw [addAll_ceLen]
    exact Nat.zero_add _
  have wrapped : (HeaderRead.start.addAll rules items).wrapped = false := addAll_wrapped items
  rw [sdusOf_append, cesOf_append, ceBytes_append]
  simp only [Bounded, HeaderRead.close_ptr, place]
  cases item with
  | sdu lcid length long =>
    have room : (sdusOf items).length < nbRbMax := sdus ▸ admitted
    simp only [HeaderRead.close, sdus, ces, lengths_append, implicitLength, place, ceLen,
      cesOf_sdu, cesOf_nil, sdusOf_sdu, sdusOf_nil, List.append_nil, decide_eq_false_iff_not,
        List.length_append, List.length_singleton]
    simp only [ceBytes, List.map_nil, List.sum_nil]
    simp only [lengths, List.map_cons, List.map_nil, List.sum_cons, List.sum_nil]
    omega
  | ce lcid =>
    simp [HeaderRead.close, countCe, storeCe, sdus, ces, wrapped, ceBytes]
    omega
  | padding =>
    simp [HeaderRead.close, readPadding, sdus, ces, wrapped, ceBytes]
    omega

/-- A refused header: its last subheader is a control element that was still stored. -/
theorem storeCe_bounded {b lcid : Nat} (chain : Subheaders rules.sduBelow mem 0 items b) :
    Bounded rules tbLength (.refused (storeCe (HeaderRead.start.addAll rules items) lcid)) ↔
      b < tbLength ∧ (cesOf (items ++ [.ce lcid])).length ≤ maxNumCe ∧
      (sdusOf (items ++ [.ce lcid])).length ≤ nbRbMax := by
  have place : (HeaderRead.start.addAll rules items).ptr = b := addAll_ptr chain
  have sdus : (HeaderRead.start.addAll rules items).sdus = sdusOf items := addAll_sdus items
  have ces : (HeaderRead.start.addAll rules items).ces = cesOf items := addAll_ces items
  simp only [Bounded, storeCe, place, sdus, ces, sdusOf_append, cesOf_append, cesOf_ce, cesOf_nil,
    sdusOf_ce, sdusOf_nil, List.append_nil, Nat.succ_le_iff]

variable {passed : List Item → Prop} {refused : List Item → Bool → Nat → Prop}

theorem Fits.admitted {b : Nat} (fits : Fits rules passed refused mem tbLength items b)
    (passes : ∀ items, NoneRefused rules .start items ↔ passed items) :
    AllAdmitted rules .start items ∧
      ((∀ lcid, itemAt rules.sduBelow mem b = .ce lcid →
        rules.refuses (storeCe (HeaderRead.start.addAll rules items) lcid) lcid true = false) →
      Admitted rules (HeaderRead.start.addAll rules items) true (itemAt rules.sduBelow mem b)) := by
  have sdus := fits.sdus
  have ces := fits.ces
  rw [sdusOf_append, List.length_append] at sdus
  rw [cesOf_append, List.length_append] at ces
  refine ⟨(allAdmitted_iff (Nat.zero_le _) (Nat.zero_le _)).mpr
    ⟨?_, ?_, (passes items).mpr fits.passed⟩, ?_⟩
  · rw [show HeaderRead.start.sdus.length = 0 from rfl, Nat.zero_add]
    exact Nat.le_trans (Nat.le_add_right ..) sdus
  · rw [show HeaderRead.start.ces.length = 0 from rfl, Nat.zero_add]
    exact Nat.le_trans (Nat.le_add_right ..) ces
  · intro spared
    cases found : itemAt rules.sduBelow mem b with
    | sdu lcid length long =>
      rw [found] at sdus
      rw [Admitted, addAll_sdus]
      exact sdus
    | ce lcid =>
      rw [found] at ces
      refine ⟨?_, spared lcid found⟩
      rw [addAll_ces]
      exact ces
    | padding => trivial

/-- A parser is bounded on exactly the blocks that fit, whatever it refuses. -/
theorem parseLoop_bounded_iff (passes : ∀ items, NoneRefused rules .start items ↔ passed items)
    (refuses : ∀ items last lcid,
      rules.refuses (storeCe (HeaderRead.start.addAll rules items) lcid) lcid last = true ↔
      refused items last lcid) :
    (∃ rounds, Bounded rules tbLength (parseLoop rules mem tbLength rounds .start)) ↔
      ∃ items b, Fits rules passed refused mem tbLength items b := by
  constructor
  · rintro ⟨rounds, bounded⟩
    have ended : parseLoop rules mem tbLength rounds .start ≠ .running := by
      intro running
      rw [running] at bounded
      exact bounded
    obtain ⟨items, chain, admitted, ends⟩ := parseLoop_ended ended
    have spared := ((allAdmitted_iff (Nat.zero_le _) (Nat.zero_le _)).mp admitted).2.2
    refine ⟨items, (HeaderRead.start.addAll rules items).ptr, ?_⟩
    generalize parseLoop rules mem tbLength rounds .start = result at bounded ends
    cases ends with
    | accepted stop last =>
      obtain ⟨inside, ces, sdus, total⟩ := (close_bounded chain last).mp bounded
      exact ⟨chain, inside, (passes items).mp spared, sdus, ces, .inr ⟨stop, total⟩⟩
    | rejected rejected =>
      obtain rfl | ⟨lcid, found, room, refusal, rfl⟩ := rejected
      · exact bounded.elim
      · obtain ⟨inside, ces, sdus⟩ := (storeCe_bounded chain).mp bounded
        rw [← found] at ces sdus
        exact ⟨chain, inside, (passes items).mp spared, sdus, ces,
          .inl ⟨lcid, found, (refuses ..).mp refusal⟩⟩
  · rintro ⟨items, b, fits⟩
    obtain ⟨admitted, last⟩ := fits.admitted passes
    refine ⟨items.length + 1, ?_⟩
    obtain ⟨lcid, found, refusal⟩ | spared :=
      Classical.em (∃ lcid, itemAt rules.sduBelow mem b = .ce lcid ∧
        refused items (!extended (mem b)) lcid)
    · rw [parseLoop_refused fits.chain admitted found ((refuses ..).mpr refusal) (found ▸ fits.ces)]
      exact (storeCe_bounded fits.chain).mpr ⟨fits.inside, found ▸ fits.ces, found ▸ fits.sdus⟩
    · obtain ⟨stop, total⟩ := fits.ends.resolve_left spared
      have taken : Admitted rules (HeaderRead.start.addAll rules items) true
          (itemAt rules.sduBelow mem b) := by
        apply last
        intro lcid found
        rw [Bool.eq_false_iff]
        intro refusal
        rw [refuses] at refusal
        exact spared ⟨lcid, found, by rw [stop]; exact refusal⟩
      rw [parseLoop_accepted fits.chain admitted stop taken]
      exact (close_bounded fits.chain taken).mpr ⟨fits.inside, fits.ces, fits.sdus, total⟩

end General

def UlKnown (lcid : Nat) : Prop := lcid ∈ [26, 27, 28, 29, 30]

def UlPassed (items : List Item) : Prop := ∀ lcid ∈ cesOf items, UlKnown lcid

def UlRefused (_ : List Item) (_ : Bool) (lcid : Nat) : Prop := ¬ UlKnown lcid

theorem ulRules_refuses (s : HeaderRead) (lcid : Nat) (last : Bool) :
    ulRules.refuses s lcid last = true ↔ ¬ UlKnown lcid := by
  simp [ulRules, UlKnown, and_assoc]

theorem ulRules_noneRefused (s : HeaderRead) (items : List Item) : NoneRefused ulRules s items ↔
    UlPassed items := by
  induction items generalizing s with
  | nil => exact iff_of_true trivial nofun
  | cons item rest ih =>
    rw [NoneRefused, ih]
    cases item with
    | sdu lcid length long => simp [UlPassed]
    | ce lcid =>
      have known : ulRules.refuses (storeCe s lcid) lcid false = false ↔ UlKnown lcid := by
        rw [← Bool.not_eq_true, ulRules_refuses, not_not]
      simp [UlPassed, known]
    | padding => simp [UlPassed]

/-- At most one contention resolution stands in front of the last subheader. -/
def DlPassed (items : List Item) : Prop := (cesOf items).count 28 ≤ 1

/-- A second contention resolution is refused, and one at the end of other subheaders; so many
of them as fill an `unsigned char` with padding alone are overlooked. -/
def DlRefused (items : List Item) (last : Bool) (lcid : Nat) : Prop :=
  lcid = 28 ∧ (28 ∈ cesOf items ∨
    last = true ∧ (sdusOf items ≠ [] ∨ cesOf items ≠ [] ∨ items.count .padding % 256 ≠ 0))

theorem dlRules_refuses_iff (s : HeaderRead) (lcid : Nat) (last : Bool) :
    dlRules.refuses s lcid last = true ↔ lcid = 28 ∧ (s.numContRes ≠ 0 ∨
      last = true ∧ (s.sdus ≠ [] ∨ 1 < s.ces.length ∨ s.numPadding ≠ 0)) := by
  simp [dlRules, or_assoc]

theorem dlRules_refuses (items : List Item) (last : Bool) (lcid : Nat) :
    dlRules.refuses (storeCe (HeaderRead.start.addAll dlRules items) lcid) lcid last = true ↔
    DlRefused items last lcid := by
  have contRes : (HeaderRead.start.addAll dlRules items).numContRes = (cesOf items).count 28 := by
    rw [addAll_numContRes]
    exact Nat.zero_add _
  have padding : (HeaderRead.start.addAll dlRules items).numPadding =
      items.count .padding % 256 := by
    rw [addAll_numPadding items (by decide)]
    exact congrArg (· % 256) (Nat.zero_add _)
  have sdus : (HeaderRead.start.addAll dlRules items).sdus = sdusOf items := addAll_sdus items
  have ces : (HeaderRead.start.addAll dlRules items).ces = cesOf items := addAll_ces items
  have once : (cesOf items).count 28 ≠ 0 ↔ 28 ∈ cesOf items := by
    rw [← Nat.pos_iff_ne_zero, List.count_pos_iff]
  rw [dlRules_refuses_iff, DlRefused, ← once, ← contRes, ← padding, ← sdus, ← ces,
    ← List.length_pos_iff (l := HeaderRead.ces _)]
  simp only [storeCe, List.length_append, List.length_singleton, Nat.lt_add_left_iff_pos]

theorem dlRules_noneRefused {s : HeaderRead} (once : s.numContRes ≤ 1) (items : List Item) :
    NoneRefused dlRules s items ↔ s.numContRes + (cesOf items).count 28 ≤ 1 := by
  induction items generalizing s with
  | nil => exact iff_of_true trivial once
  | cons item rest ih =>
    rw [NoneRefused]
    cases item with
    | sdu lcid length long =>
      rw [ih (s := s.add dlRules (.sdu lcid length long)) once]
      simp [HeaderRead.add]
    | padding =>
      rw [ih (s := s.add dlRules .padding) once]
      simp [HeaderRead.add, readPadding]
    | ce lcid =>
      simp only [Item.ce.injEq, forall_eq', cesOf_ce]
      by_cases contRes : lcid = 28
      · subst contRes
        by_cases none : s.numContRes = 0
        · rw [ih (s := s.add dlRules (.ce 28))
            (by simp [HeaderRead.add, countCe, storeCe, none, dlRules])]
          simp [HeaderRead.add, countCe, storeCe, dlRules, none, Nat.add_comm]
        · refine iff_of_false (fun both => ?_) fun sum => ?_
          · have spared := both.1
            simp [dlRules, storeCe, none] at spared
          · rw [List.count_cons_self] at sum
            omega
      · have same : (s.add dlRules (.ce lcid)).numContRes = s.numContRes := by
          simp [HeaderRead.add, countCe, storeCe, dlRules, beq_eq_false_iff_ne.mpr contRes]
        have spared : dlRules.refuses (storeCe s lcid) lcid false = false := by
          rw [← Bool.not_eq_true, dlRules_refuses_iff]
          exact fun refused => contRes refused.1
        rw [ih (s := s.add dlRules (.ce lcid)) (same ▸ once), same, List.count_cons_of_ne contRes]
        exact and_iff_right spared

/-- Both parsers stay inside the block, their arrays and 16 bits on exactly the blocks whose
subheaders, control elements and explicit lengths fit into the block. -/
theorem parsers_bounded_iff (mem : Memory) (tbLength : Nat) :
    ((∃ rounds, Bounded ulRules tbLength (parseUlschHeader mem tbLength rounds)) ↔
      ∃ items b, Fits ulRules UlPassed UlRefused mem tbLength items b) ∧
    ((∃ rounds, Bounded dlRules tbLength (parseHeader mem tbLength rounds)) ↔
      ∃ items b, Fits dlRules DlPassed DlRefused mem tbLength items b) := by
  constructor
  · exact parseLoop_bounded_iff (ulRules_noneRefused .start)
      fun items last lcid => ulRules_refuses _ lcid last
  · apply parseLoop_bounded_iff _ dlRules_refuses
    intro items
    rw [dlRules_noneRefused (Nat.zero_le _)]
    exact iff_of_eq (congrArg (· ≤ 1) (Nat.zero_add _))

/-- Bytes of a block; behind its end there are zeros. -/
def blockOf (bytes : List UInt8) : Memory := fun i => bytes.getD i 0

theorem not_bounded {rules : Rules} {mem : Memory} {tbLength : Nat} (rounds : Nat)
    (ended : ParseEnd)
    (ran : parseLoop rules mem tbLength rounds .start = ended) (finished : ended ≠ .running)
    (beyond : ¬ Bounded rules tbLength ended) :
    ¬ ∃ rounds, Bounded rules tbLength (parseLoop rules mem tbLength rounds .start) := by
  rintro ⟨more, bounded⟩
  have other : parseLoop rules mem tbLength more .start ≠ .running := by
    intro running
    rw [running] at bounded
    exact bounded
  rw [parseLoop_unique other (ran.symm ▸ finished), ran] at bounded
  exact beyond bounded

/-- Six power headrooms in a block of twelve bytes are stored in an array of five; the block
`21 7f 03` holds two SDUs, of 127 and of 65409 bytes. -/
theorem parsers_unbounded :
    (¬ ∃ rounds,
      Bounded ulRules 12
      (parseUlschHeader
      (blockOf [0x3a, 0x3a, 0x3a, 0x3a, 0x3a, 0x1a, 1, 2, 3, 4, 5, 6]) 12 rounds)) ∧
    ¬ ∃ rounds, Bounded dlRules 3 (parseHeader (blockOf [0x21, 0x7f, 0x03]) 3 rounds) := by
  constructor
  · exact not_bounded 6 .overflow (by decide) nofun id
  · exact not_bounded 2 (.accepted ⟨3, [], [(1, 127), (3, 65409)], 0, 0, 0, true⟩) (by decide) nofun
      fun bounded => nomatch bounded.2.2

end OpenAir.Mac.Pdu
