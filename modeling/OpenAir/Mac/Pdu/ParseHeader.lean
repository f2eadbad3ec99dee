import OpenAir.Mac.Pdu.Subheader

/-! The two parsers of MAC headers: of the eNB, for the uplink, and of the UE, for the
downlink. They differ in the LCIDs of control elements, in their sizes and in what they
refuse. Neither looks at the length of the block before it reads on. -/
namespace OpenAir.Mac.Pdu
open BitField (Memory)

structure HeaderRead where
  /-- `mac_header_ptr - mac_header`: all bytes below have been read, and no others. -/
  ptr : Nat
  ces : List Nat
  /-- LCIDs and lengths. -/
  sdus : List (Nat × Nat)
  ceLen : Nat
  numContRes : Nat
  /-- An `unsigned char`. -/
  numPadding : Nat
  /-- The length of the last SDU came out below zero. -/
  wrapped : Bool
deriving DecidableEq

def HeaderRead.start : HeaderRead where
  ptr := 0
  ces := []
  sdus := []
  ceLen := 0
  numContRes := 0
  numPadding := 0
  wrapped := false

inductive ParseEnd where
  /-- The rounds are used up. -/
  | running
  /-- A store behind the end of `rx_ces`, `rx_lcids` or `rx_lengths`. -/
  | overflow
  /-- `NULL` is returned. -/
  | refused (read : HeaderRead)
  | accepted (read : HeaderRead)
deriving DecidableEq

/-- In what the two parsers differ. -/
structure Rules where
  sduBelow : Nat
  ceSize : Nat → Nat
  /-- A contention resolution, which is counted. -/
  contRes : Nat → Bool
  /-- A control element that ends the parsing; the last flag says that no subheader follows. -/
  refuses : HeaderRead → Nat → Bool → Bool

def lengths (sdus : List (Nat × Nat)) : Nat := (sdus.map Prod.snd).sum

/-- The length of the last SDU before it is cut to 16 bits. -/
def implicitLength (tbLength : Nat) (s : HeaderRead) : Int :=
  tbLength - (s.ptr + 1 : Nat) - s.ceLen - lengths s.sdus

def readSdu (mem : Memory) (tbLength : Nat) (s : HeaderRead) (lcid : Nat) (last : Bool) :
    Except ParseEnd HeaderRead :=
  if s.sdus.length < nbRbMax then
    .ok <|
      if last then
        { s with
          ptr := s.ptr + 1
          sdus := s.sdus ++ [(lcid, (implicitLength tbLength s % 65536).toNat)]
          wrapped := implicitLength tbLength s < 0 }
      else if longFormat (mem (s.ptr + 1)) then
        { s with
          ptr := s.ptr + 3
          sdus := s.sdus ++ [(lcid, lengthBits (mem (s.ptr + 1)) * 256 + (mem (s.ptr + 2)).toNat)] }
      else
        { s with ptr := s.ptr + 2, sdus := s.sdus ++ [(lcid, lengthBits (mem (s.ptr + 1)))] }
  else .error .overflow

def readPadding (s : HeaderRead) : HeaderRead :=
  { s with ptr := s.ptr + 1, numPadding := (s.numPadding + 1) % 256 }

/-- The LCID is stored before anything is checked. -/
def storeCe (s : HeaderRead) (lcid : Nat) : HeaderRead :=
  { s with ptr := s.ptr + 1, ces := s.ces ++ [lcid] }

def countCe (rules : Rules) (s : HeaderRead) (lcid : Nat) : HeaderRead :=
  { s with
    ceLen := s.ceLen + rules.ceSize lcid
    numContRes := s.numContRes + (rules.contRes lcid).toNat }

def readCe (rules : Rules) (s : HeaderRead) (lcid : Nat) (last : Bool) :
    Except ParseEnd HeaderRead :=
  if s.ces.length < maxNumCe then
    if rules.refuses (storeCe s lcid) lcid last then .error (.refused (storeCe s lcid))
    else .ok (countCe rules (storeCe s lcid) lcid)
  else .error .overflow

def parseStep (rules : Rules) (mem : Memory) (tbLength : Nat) (s : HeaderRead) :
    Except ParseEnd HeaderRead :=
  let last := !extended (mem s.ptr)
  let lcid := lcidOf (mem s.ptr)
  if lcid < rules.sduBelow then readSdu mem tbLength s lcid last
  else if lcid = shortPadding then .ok (readPadding s)
  else readCe rules s lcid last

/-- At most so many rounds of the loop. -/
def parseLoop (rules : Rules) (mem : Memory) (tbLength : Nat) : Nat → HeaderRead → ParseEnd
  | 0, _ => .running
  | rounds + 1, s =>
    match parseStep rules mem tbLength s with
    | .error ended => ended
    | .ok next => if extended (mem s.ptr) then
        parseLoop rules mem tbLength rounds next else .accepted next

/-- `POWER_HEADROOM`, `CRNTI` and the buffer status reports; `EXTENDED_POWER_HEADROOM` is
not known. -/
def ulRules : Rules where
  sduBelow := 25
  ceSize lcid := if lcid = 30 then 3 else if lcid = 27 then 2 else 1
  contRes _ := false
  refuses _ lcid _ := !(lcid == 26 || lcid == 27 || lcid == 28 || lcid == 29 || lcid == 30)

/-- `UE_CONT_RES`, `TIMING_ADV_CMD` and `DRX_CMD`, which has no bytes of its own. -/
def dlRules : Rules where
  sduBelow := 28
  ceSize lcid := if lcid = 29 then 1 else if lcid = 28 then 6 else 0
  contRes lcid := lcid == 28
  refuses s lcid last := lcid == 28 &&
    (s.numContRes != 0 || last &&
      (!s.sdus.isEmpty || decide (1 < s.ces.length) || s.numPadding != 0))

def parseUlschHeader (mem : Memory) (tbLength rounds : Nat) : ParseEnd :=
  parseLoop ulRules mem tbLength rounds .start

def parseHeader (mem : Memory) (tbLength rounds : Nat) : ParseEnd :=
  parseLoop dlRules mem tbLength rounds .start

section Items

variable {rules : Rules} {mem : Memory} {tbLength rounds : Nat} {s next : HeaderRead}

/-- What a subheader in front of the last one leaves. -/
def HeaderRead.add (rules : Rules) (s : HeaderRead) : Item → HeaderRead
  | .sdu lcid length long =>
    { s with ptr := s.ptr + (Item.sdu lcid length long).size, sdus := s.sdus ++ [(lcid, length)] }
  | .ce lcid => countCe rules (storeCe s lcid) lcid
  | .padding => readPadding s

theorem HeaderRead.add_ptr (item : Item) : (s.add rules item).ptr = s.ptr + item.size := by
  cases item with
  | sdu lcid length long => rfl
  | ce lcid => rfl
  | padding => rfl

/-- There is room for a subheader, and it is not refused. -/
def Admitted (rules : Rules) (s : HeaderRead) (last : Bool) : Item → Prop
  | .sdu .. => s.sdus.length < nbRbMax
  | .ce lcid => s.ces.length < maxNumCe ∧ rules.refuses (storeCe s lcid) lcid last = false
  | .padding => True

/-- What the last subheader leaves; the length of an SDU is what remains of the block. -/
def HeaderRead.close (rules : Rules) (tbLength : Nat) (s : HeaderRead) : Item → HeaderRead
  | .sdu lcid .. =>
    { s with
      ptr := s.ptr + 1
      sdus := s.sdus ++ [(lcid, (implicitLength tbLength s % 65536).toNat)]
      wrapped := implicitLength tbLength s < 0 }
  | .ce lcid => countCe rules (storeCe s lcid) lcid
  | .padding => readPadding s

theorem HeaderRead.close_ptr (item : Item) : (s.close rules tbLength item).ptr = s.ptr + 1 := by
  cases item with
  | sdu lcid length long => rfl
  | ce lcid => rfl
  | padding => rfl

def after (rules : Rules) (tbLength : Nat) (s : HeaderRead) (last : Bool)
    (item : Item) : HeaderRead :=
  if last then s.close rules tbLength item else s.add rules item

theorem readCe_ok {lcid : Nat} {last : Bool} :
    readCe rules s lcid last = .ok next ↔
      (s.ces.length < maxNumCe ∧ rules.refuses (storeCe s lcid) lcid last = false) ∧
        next = countCe rules (storeCe s lcid) lcid := by
  rw [readCe]
  by_cases room : s.ces.length < maxNumCe
  · rw [if_pos room]
    cases refused : rules.refuses (storeCe s lcid) lcid last with
    | true => simp
    | false => simp [room, eq_comm]
  · rw [if_neg room]
    simp [room]

/-- One round: the subheader at hand is read, or it is not admitted. -/
theorem parseStep_ok :
    parseStep rules mem tbLength s = .ok next ↔
      Admitted rules s (!extended (mem s.ptr)) (itemAt rules.sduBelow mem s.ptr) ∧
        next = after rules tbLength s (!extended (mem s.ptr))
          (itemAt rules.sduBelow mem s.ptr) := by
  unfold parseStep itemAt
  by_cases sdu : lcidOf (mem s.ptr) < rules.sduBelow
  · simp only [if_pos sdu, readSdu]
    by_cases room : s.sdus.length < nbRbMax
    · rw [if_pos room]
      cases extended (mem s.ptr) <;> by_cases long : longFormat (mem (s.ptr + 1)) = true <;>
        simp [long, Admitted, room, after, HeaderRead.add, HeaderRead.close, Item.size, eq_comm]
    · rw [if_neg room]
      by_cases long : longFormat (mem (s.ptr + 1)) = true <;> simp [long, Admitted, room]
  · simp only [if_neg sdu]
    by_cases padding : lcidOf (mem s.ptr) = shortPadding
    · simp only [if_pos padding, Admitted, true_and, after, HeaderRead.add, HeaderRead.close,
        ite_self, Except.ok.injEq]
      exact eq_comm
    · simp only [if_neg padding, readCe_ok, Admitted, after, HeaderRead.add,
        HeaderRead.close, ite_self]

/-- What subheaders in front of the last one leave. -/
def HeaderRead.addAll (rules : Rules) (s : HeaderRead) (items : List Item) : HeaderRead :=
  items.foldl (·.add rules) s

theorem addAll_cons (item : Item) (rest : List Item) :
    s.addAll rules (item :: rest) = (s.add rules item).addAll rules rest := rfl

def ceBytes (rules : Rules) (ces : List Nat) : Nat := (ces.map rules.ceSize).sum

theorem addAll_sdus (items : List Item) : (s.addAll rules items).sdus = s.sdus ++ sdusOf items := by
  induction items generalizing s with
  | nil => exact (List.append_nil _).symm
  | cons item rest ih =>
    rw [addAll_cons, ih]
    cases item with
    | sdu lcid length long => exact List.append_assoc ..
    | ce lcid => rfl
    | padding => rfl

theorem addAll_ces (items : List Item) : (s.addAll rules items).ces = s.ces ++ cesOf items := by
  induction items generalizing s with
  | nil => exact (List.append_nil _).symm
  | cons item rest ih =>
    rw [addAll_cons, ih]
    cases item with
    | sdu lcid length long => rfl
    | ce lcid => exact List.append_assoc ..
    | padding => rfl

theorem addAll_ceLen (items : List Item) : (s.addAll rules items).ceLen =
    s.ceLen + ceBytes rules (cesOf items) := by
  induction items generalizing s with
  | nil => rfl
  | cons item rest ih =>
    rw [addAll_cons, ih]
    cases item with
    | sdu lcid length long => rfl
    | ce lcid => exact Nat.add_assoc ..
    | padding => rfl

theorem addAll_numContRes (items : List Item) :
    (s.addAll rules items).numContRes = s.numContRes + (cesOf items).countP rules.contRes := by
  induction items generalizing s with
  | nil => rfl
  | cons item rest ih =>
    rw [addAll_cons, ih]
    cases item with
    | sdu lcid length long => rfl
    | ce lcid =>
      rw [cesOf_ce, List.countP_cons, HeaderRead.add, countCe, storeCe]
      cases rules.contRes lcid with
      | true => exact Nat.add_right_comm ..
      | false => rfl
    | padding => rfl

theorem addAll_numPadding (items : List Item) (byte : s.numPadding < 256) :
    (s.addAll rules items).numPadding = (s.numPadding + items.count .padding) % 256 := by
  induction items generalizing s with
  | nil => exact (Nat.mod_eq_of_lt byte).symm
  | cons item rest ih =>
    rw [addAll_cons]
    cases item with
    | sdu lcid length long => exact ih byte
    | ce lcid => exact ih byte
    | padding =>
      rw [ih (Nat.mod_lt _ (by decide)), List.count_cons_self]
      simp only [HeaderRead.add, readPadding, Nat.mod_add_mod, Nat.add_assoc, Nat.add_comm 1]

theorem addAll_wrapped (items : List Item) : (s.addAll rules items).wrapped = s.wrapped := by
  induction items generalizing s with
  | nil => rfl
  | cons item rest ih =>
    rw [addAll_cons, ih]
    cases item with
    | sdu lcid length long => rfl
    | ce lcid => rfl
    | padding => rfl

/-- Every one of these subheaders is admitted after those in front of it. -/
def AllAdmitted (rules : Rules) (s : HeaderRead) : List Item → Prop
  | [] => True
  | item :: rest => Admitted rules s false item ∧ AllAdmitted rules (s.add rules item) rest

/-- None of these subheaders is refused after those in front of it. -/
def NoneRefused (rules : Rules) (s : HeaderRead) : List Item → Prop
  | [] => True
  | item :: rest =>
    (∀ lcid, item = .ce lcid → rules.refuses (storeCe s lcid) lcid false = false) ∧
      NoneRefused rules (s.add rules item) rest

/-- Subheaders are admitted as long as there is room and none of them is refused. -/
theorem allAdmitted_iff {items : List Item} (sdus : s.sdus.length ≤ nbRbMax)
    (ces : s.ces.length ≤ maxNumCe) :
    AllAdmitted rules s items ↔ s.sdus.length + (sdusOf items).length ≤ nbRbMax ∧
      s.ces.length + (cesOf items).length ≤ maxNumCe ∧ NoneRefused rules s items := by
  induction items generalizing s with
  | nil => exact iff_of_true trivial ⟨sdus, ces, trivial⟩
  | cons item rest ih =>
    rw [AllAdmitted, NoneRefused]
    cases item with
    | sdu lcid length long =>
      have count : (s.add rules (.sdu lcid length long)).sdus.length = s.sdus.length + 1 :=
        List.length_append
      by_cases room : s.sdus.length < nbRbMax
      · rw [ih (s := s.add rules (.sdu lcid length long)) (count ▸ room) ces, count, sdusOf_sdu,
          List.length_cons, Nat.add_right_comm s.sdus.length 1, ← Nat.add_assoc]
        simp [Admitted, room, HeaderRead.add]
      · refine iff_of_false (fun both => room both.1) fun all => room ?_
        rw [sdusOf_sdu, List.length_cons] at all
        omega
    | ce lcid =>
      have count : (s.add rules (.ce lcid)).ces.length = s.ces.length + 1 := List.length_append
      by_cases room : s.ces.length < maxNumCe
      · rw [ih (s := s.add rules (.ce lcid)) sdus (count ▸ room), count, cesOf_ce, List.length_cons,
          Nat.add_right_comm s.ces.length 1, ← Nat.add_assoc]
        simp only [Admitted, room, true_and, Item.ce.injEq, forall_eq', sdusOf_ce, HeaderRead.add,
          countCe, storeCe]
        tauto
      · refine iff_of_false (fun both => room both.1.1) fun all => room ?_
        rw [cesOf_ce, List.length_cons] at all
        omega
    | padding =>
      rw [ih (s := s.add rules .padding) sdus ces]
      simp [Admitted, HeaderRead.add, readPadding]

theorem addAll_ptr {items : List Item} {b : Nat}
    (chain : Subheaders rules.sduBelow mem s.ptr items b) :
    (s.addAll rules items).ptr = b := by
  induction items generalizing s with
  | nil => exact chain
  | cons item rest ih =>
    refine ih (s := s.add rules item) ?_
    rw [HeaderRead.add_ptr]
    exact chain.2.2

theorem parseLoop_items {items : List Item} {b : Nat}
    (chain : Subheaders rules.sduBelow mem s.ptr items b)
    (admitted : AllAdmitted rules s items) :
    parseLoop rules mem tbLength (items.length + rounds) s =
    parseLoop rules mem tbLength rounds (s.addAll rules items) := by
  induction items generalizing s with
  | nil => rw [List.length_nil, Nat.zero_add]; rfl
  | cons item rest ih =>
    obtain ⟨more, found, tail⟩ := chain
    have stepped : parseStep rules mem tbLength s = .ok (s.add rules item) := by
      rw [parseStep_ok, more, found]
      exact ⟨admitted.1, rfl⟩
    rw [List.length_cons, Nat.add_right_comm, parseLoop, stepped]
    simp only [more, if_true]
    rw [ih (by rw [HeaderRead.add_ptr]; exact tail) admitted.2]
    rfl

theorem parseLoop_accepted {items : List Item} {b : Nat}
    (chain : Subheaders rules.sduBelow mem s.ptr items b)
    (admitted : AllAdmitted rules s items) (ends : extended (mem b) = false)
    (last : Admitted rules (s.addAll rules items) true (itemAt rules.sduBelow mem b)) :
    parseLoop rules mem tbLength (items.length + 1) s =
      .accepted ((s.addAll rules items).close rules tbLength (itemAt rules.sduBelow mem b)) := by
  have place := addAll_ptr chain
  have stepped : parseStep rules mem tbLength (s.addAll rules items) =
      .ok ((s.addAll rules items).close rules tbLength (itemAt rules.sduBelow mem b)) := by
    rw [parseStep_ok, place, ends]
    exact ⟨last, rfl⟩
  rw [parseLoop_items chain admitted, parseLoop, stepped]
  simp only [place, ends, Bool.false_eq_true, if_false]

theorem close_fixed (item : Item) : s.close rules tbLength item.fixed =
    s.close rules tbLength item := by
  cases item <;> rfl

theorem admitted_fixed {last : Bool} (item : Item) : Admitted rules s last item.fixed ↔
    Admitted rules s last item := by
  cases item <;> rfl

/-- A header is read to its end when all its subheaders are admitted. -/
theorem HeaderAt.parse {front : List Item} {last : Item} {b : Nat}
    (header : HeaderAt rules.sduBelow mem front last b)
    (admitted : AllAdmitted rules .start front)
    (taken : Admitted rules (HeaderRead.start.addAll rules front) true last) :
    parseLoop rules mem tbLength (front.length + 1) .start =
      .accepted ((HeaderRead.start.addAll rules front).close rules tbLength last) := by
  rw [parseLoop_accepted (s := .start) header.chain admitted header.ends,
    ← close_fixed (itemAt ..), header.last, close_fixed]
  rw [← admitted_fixed, header.last, admitted_fixed]
  exact taken

/-- A control element that is refused behind admitted subheaders ends the parsing. -/
theorem parseLoop_refused {items : List Item} {b lcid : Nat}
    (chain : Subheaders rules.sduBelow mem 0 items b)
    (admitted : AllAdmitted rules .start items) (found : itemAt rules.sduBelow mem b = .ce lcid)
    (refusal : rules.refuses (storeCe (HeaderRead.start.addAll rules items) lcid) lcid
      (!extended (mem b)) = true)
    (room : (cesOf (items ++ [.ce lcid])).length ≤ maxNumCe) :
    parseLoop rules mem tbLength (items.length + 1) .start =
      .refused (storeCe (HeaderRead.start.addAll rules items) lcid) := by
  have place : (HeaderRead.start.addAll rules items).ptr = b := addAll_ptr chain
  have space : (HeaderRead.start.addAll rules items).ces.length < maxNumCe := by
    rw [addAll_ces]
    rw [cesOf_append, List.length_append] at room
    exact room
  have stepped : parseStep rules mem tbLength (HeaderRead.start.addAll rules items) =
      .error (.refused (storeCe (HeaderRead.start.addAll rules items) lcid)) := by
    rw [parseStep, place]
    unfold itemAt at found
    split at found
    · split at found <;> exact nomatch found
    · rename_i element
      split at found
      · exact nomatch found
      · rename_i filled
        rw [Item.ce.injEq] at found
        simp only [if_neg element, if_neg filled, readCe]
        rw [found, if_pos space, if_pos refusal]
  rw [parseLoop_items (s := .start) chain admitted, parseLoop, stepped]

/-- How a subheader that is not admitted ends the parsing. -/
def Rejected (rules : Rules) (s : HeaderRead) (last : Bool) (item : Item)
    (ended : ParseEnd) : Prop :=
  ended = .overflow ∨ ∃ lcid, item = .ce lcid ∧ s.ces.length < maxNumCe ∧
    rules.refuses (storeCe s lcid) lcid last = true ∧ ended = .refused (storeCe s lcid)

theorem parseStep_error {ended : ParseEnd}
    (failed : parseStep rules mem tbLength s = .error ended) :
    Rejected rules s (!extended (mem s.ptr)) (itemAt rules.sduBelow mem s.ptr) ended := by
  unfold parseStep at failed
  unfold itemAt
  by_cases sdu : lcidOf (mem s.ptr) < rules.sduBelow
  · simp only [if_pos sdu, readSdu] at failed
    by_cases room : s.sdus.length < nbRbMax
    · rw [if_pos room] at failed
      exact nomatch failed
    · rw [if_neg room] at failed
      exact .inl (Except.error.inj failed).symm
  · simp only [if_neg sdu] at failed ⊢
    by_cases padding : lcidOf (mem s.ptr) = shortPadding
    · rw [if_pos padding] at failed
      exact nomatch failed
    · rw [if_neg padding, readCe] at failed
      rw [if_neg padding]
      by_cases room : s.ces.length < maxNumCe
      · rw [if_pos room] at failed
        cases refused : rules.refuses (storeCe s (lcidOf (mem s.ptr))) (lcidOf (mem s.ptr))
            (!extended (mem s.ptr)) with
        | true =>
          rw [refused] at failed
          exact .inr ⟨_, rfl, room, refused, (Except.error.inj failed).symm⟩
        | false =>
          rw [refused] at failed
          exact nomatch failed
      · rw [if_neg room] at failed
        exact .inl (Except.error.inj failed).symm

/-- How the parsing ends at a subheader behind admitted ones. -/
inductive EndsAt (rules : Rules) (mem : Memory) (tbLength : Nat) (s : HeaderRead) : ParseEnd → Prop
  | accepted (ends : extended (mem s.ptr) = false)
      (admitted : Admitted rules s true (itemAt rules.sduBelow mem s.ptr)) :
    EndsAt rules mem tbLength s
      (.accepted (s.close rules tbLength (itemAt rules.sduBelow mem s.ptr)))
  | rejected {ended : ParseEnd}
    (rejected : Rejected rules s (!extended (mem s.ptr)) (itemAt rules.sduBelow mem s.ptr) ended) :
    EndsAt rules mem tbLength s ended

/-- The parser reads a chain of admitted subheaders, and the one behind it ends the parsing. -/
theorem parseLoop_ended (ended : parseLoop rules mem tbLength rounds s ≠ .running) :
    ∃ items, Subheaders rules.sduBelow mem s.ptr items (s.addAll rules items).ptr ∧
      AllAdmitted rules s items ∧
      EndsAt rules mem tbLength (s.addAll rules items) (parseLoop rules mem tbLength rounds s) := by
  induction rounds generalizing s with
  | zero => exact absurd rfl ended
  | succ rounds ih =>
    rw [parseLoop] at ended ⊢
    cases stepped : parseStep rules mem tbLength s with
    | error failed => exact ⟨[], rfl, trivial, .rejected (parseStep_error stepped)⟩
    | ok next =>
      obtain ⟨admitted, rfl⟩ := parseStep_ok.mp stepped
      cases more : extended (mem s.ptr) with
      | false =>
        rw [more] at admitted
        exact ⟨[], rfl, trivial, .accepted more admitted⟩
      | true =>
        rw [more] at admitted
        rw [stepped, more] at ended
        obtain ⟨items, chain, all, last⟩ := ih ended
        refine ⟨itemAt rules.sduBelow mem s.ptr :: items, ⟨more, rfl, ?_⟩, ⟨admitted, all⟩, last⟩
        rw [← HeaderRead.add_ptr]
        exact chain

/-- Rounds that are not needed change nothing. -/
theorem parseLoop_settled {more : Nat} (ended : parseLoop rules mem tbLength rounds s ≠ .running)
    (le : rounds ≤ more) :
    parseLoop rules mem tbLength more s = parseLoop rules mem tbLength rounds s := by
  induction rounds generalizing s more with
  | zero => exact absurd rfl ended
  | succ rounds ih =>
    obtain ⟨more, rfl⟩ := Nat.exists_eq_succ_of_ne_zero (Nat.ne_of_gt (Nat.zero_lt_of_lt le))
    rw [parseLoop] at ended
    rw [parseLoop, parseLoop]
    cases stepped : parseStep rules mem tbLength s with
    | error failed => rfl
    | ok next =>
      cases goes : extended (mem s.ptr) with
      | false => rfl
      | true =>
        rw [stepped, goes] at ended
        exact ih ended (Nat.le_of_succ_le_succ le)

theorem parseLoop_unique {more : Nat} (ended : parseLoop rules mem tbLength rounds s ≠ .running)
    (other : parseLoop rules mem tbLength more s ≠ .running) :
    parseLoop rules mem tbLength rounds s = parseLoop rules mem tbLength more s := by
  obtain le | le := Nat.le_total rounds more
  · exact (parseLoop_settled ended le).symm
  · exact parseLoop_settled other le

theorem accepted_unique {more : Nat} {read other : HeaderRead}
    (accepted : parseLoop rules mem tbLength rounds s = .accepted read)
    (ended : parseLoop rules mem tbLength more s = .accepted other) : read = other := by
  have same :=
    parseLoop_unique (by rw [accepted]; exact nofun)
    (show parseLoop rules mem tbLength more s ≠ .running by rw [ended]; exact nofun)
  exact ParseEnd.accepted.inj (accepted.symm.trans (same.trans ended))

end Items

end OpenAir.Mac.Pdu
