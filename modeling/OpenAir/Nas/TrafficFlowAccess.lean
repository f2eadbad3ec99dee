import OpenAir.Nas.TrafficFlow

/-! What the decoder of the traffic flow template reads and stores, and when it stays in its
buffers. -/
namespace OpenAir.Nas

inductive Access where
  | read (at_ : Nat)
  | storeFilter (i : Nat)
  | storeIdentifier (i : Nat)
  /-- The components of a filter end, where they should and where they do. -/
  | ended (announced reached : Nat)
deriving DecidableEq

/-- The bytes that are read behind the type of a component; `DECODE_U24` reads four. -/
def Component.width : Component → Nat
  | .flowLabel => 4
  | c => c.size

section Decoder
variable (m : Nat → Byte)

def contentsTraced (end_ : Nat) : Nat → Nat → PacketFilter →
    List Nat × Except DecodeError (PacketFilter × Nat)
  | 0, at_, f => ([], .ok (f, at_))
  | fuel + 1, at_, f =>
    if at_ < end_ then
      match Component.all.find? fun c => c.code = m at_ with
      | none => ([at_], .error .unexpectedIei)
      | some c =>
        let rest := contentsTraced end_ fuel (at_ + 1 + c.size) (readComponent m (at_ + 1) f c)
        (at_ :: (List.range c.width).map (at_ + 1 + ·) ++ rest.1, rest.2)
    else ([], .ok (f, at_))

def packetFiltersTraced (end_ : Nat) :
    Nat → Nat → Nat → (Nat → PacketFilters) →
    List Access × Except DecodeError ((Nat → PacketFilters) × Nat)
  | _, 0, at_, filters => ([], if at_ ≠ end_ then .error .valueDoesntMatch else .ok (filters, at_))
  | i, count + 1, at_, filters =>
    if at_ = end_ then ([], .error .valueDoesntMatch)
    else
      let pkflen := (m (at_ + 2)).toNat
      let head := [.storeFilter i, .read at_, .read (at_ + 1), .read (at_ + 2)]
      let contents :=
        contentsTraced m (at_ + 3 + pkflen) pkflen (at_ + 3)
        { (filters i).packetfilter with flags := 0 }
      match contents.2 with
      | .error e => (head ++ contents.1.map .read, .error e)
      | .ok (f, next) =>
        let filter : PacketFilters :=
          ⟨(m at_).extractLsb' 0 4, (m at_).extractLsb' 4 2, m (at_ + 1), f⟩
        let rest := packetFiltersTraced end_
          (i + 1) count next fun k => if k = i then filter else filters k
        (head ++ contents.1.map .read ++ .ended (at_ + 3 + pkflen) next :: rest.1, rest.2)

def identifiersTraced (end_ : Nat) : Nat → Nat → Nat → (Nat → Byte) →
    List Access × ((Nat → Byte) × Nat)
  | _, 0, at_, identifiers => ([], (identifiers, at_))
  | i, count + 1, at_, identifiers =>
    if at_ = end_ then ([], (identifiers, at_))
    else
      let rest := identifiersTraced end_ (i + 1) count (at_ + 1)
        fun k => if k = i then m at_ else identifiers k
      (.storeIdentifier i :: .read at_ :: rest.1, rest.2)

def trafficFlowTemplateTraced (iei : Byte) (len : Nat) (old : TrafficFlowTemplate) :
    List Access × Except DecodeError (TrafficFlowTemplate × Nat) :=
  let tag := if 0 < iei then [.read 0] else []
  if 0 < iei ∧ m 0 ≠ iei then (tag, .error .unexpectedIei)
  else
    let decoded := if 0 < iei then 1 else 0
    let ielen := (m decoded).toNat
    if remaining len (decoded + 1) < ielen then (tag ++ [.read decoded], .error .bufferTooShort)
    else
      let first := m (decoded + 1)
      let head := tag ++ [.read decoded, .read (decoded + 1)]
      let t := { old with
        tftoperationcode := first.extractLsb' 5 3
        ebit := first.extractLsb' 4 1
        numberofpacketfilters := first.extractLsb' 0 4 }
      match listKind t.tftoperationcode with
      | .identifiers =>
        let list := identifiersTraced m len 0 t.numberofpacketfilters.toNat
          (decoded + 2) t.identifiers
        (head ++ list.1, .ok ({ t with identifiers := list.2.1 }, list.2.2))
      | .filters =>
        let list := packetFiltersTraced m len 0 t.numberofpacketfilters.toNat
          (decoded + 2) t.filters
        (head ++ list.1, list.2.map fun result => ({ t with filters := result.1 }, result.2))
      | .nothing => (head, .ok (t, decoded + 2))

end Decoder

/-- The decoder ends, reads below `len`, stores into the four filters and the sixteen identifiers,
and what it accepts is as long as the element announces, and every filter as long as it
announces. -/
structure Robust (m : Nat → Byte) (iei : Byte) (len : Nat) (old : TrafficFlowTemplate) : Prop where
  ends : ∀ announced reached,
    .ended announced reached ∈ (trafficFlowTemplateTraced m iei len old).1 → announced ≤ reached
  reads : ∀ at_, .read at_ ∈ (trafficFlowTemplateTraced m iei len old).1 → at_ < len
  filters : ∀ i, .storeFilter i ∈ (trafficFlowTemplateTraced m iei len old).1 → i < 4
  identifiers : ∀ i, .storeIdentifier i ∈ (trafficFlowTemplateTraced m iei len old).1 → i < 16
  consumed : ∀ t decoded, (trafficFlowTemplateTraced m iei len old).2 = .ok (t, decoded) →
    decoded = (if 0 < iei then 1 else 0) + 1 + (m (if 0 < iei then 1 else 0)).toNat ∧
      ∀ announced reached, .ended announced reached ∈ (trafficFlowTemplateTraced m iei len old).1 →
        reached = announced

/-! ### The layouts that are safe -/

section Layout
variable (m : Nat → Byte) (len : Nat)

/-- The components from a place on, to the first one that starts behind the end, or to a type that
is not known; all that is read lies below `len`. -/
inductive Contents (end_ : Nat) : Nat → Option Nat → Prop where
  | done {at_ : Nat} : end_ ≤ at_ → Contents end_ at_ (some at_)
  | unknown {at_ : Nat} : at_ < end_ → at_ < len → (∀ c : Component, c.code ≠ m at_) →
      Contents end_ at_ none
  | component {at_ : Nat} {next : Option Nat} (c : Component) : at_ < end_ → c.code = m at_ →
      at_ + c.width < len →
      Contents end_ (at_ + 1 + c.size) next → Contents end_ at_ next

/-- The filters from a place on; `exact` while none has gone over its end. A list that fills the
buffer is accepted, and then the element has to end there too. -/
inductive Layout (announced : Nat) : Nat → Nat → Nat → (exact_ : Bool) → Prop where
  | accepted {i : Nat} : announced = len → Layout announced i 0 len true
  | long {i at_ : Nat} {exact_ : Bool} : at_ ≠ len → Layout announced i 0 at_ exact_
  | short {i count : Nat} {exact_ : Bool} : Layout announced i (count + 1) len exact_
  | unknown {i count at_ : Nat} {exact_ : Bool} : at_ ≠ len → i < 4 → at_ + 2 < len →
      Contents m len (at_ + 3 + (m (at_ + 2)).toNat) (at_ + 3) none →
        Layout announced i (count + 1) at_ exact_
  | filter {i count at_ next : Nat} {exact_ : Bool} : at_ ≠ len → i < 4 → at_ + 2 < len →
      Contents m len (at_ + 3 + (m (at_ + 2)).toNat) (at_ + 3) (some next) →
      Layout announced
        (i + 1) count next (exact_ && decide (next = at_ + 3 + (m (at_ + 2)).toNat)) →
      Layout announced i (count + 1) at_ exact_

/-- The element nests in the buffer; `tag` is the number of its octets before the length. -/
def Nested (iei : Byte) : Prop :=
  let tag := if 0 < iei then 1 else 0
  let ielen := (m tag).toNat
  let count := (m (tag + 1)).extractLsb' 0 4
  if 0 < iei ∧ m 0 ≠ iei then 0 < len
  else if len ≤ tag + ielen then tag < len
  else tag + 1 < len ∧
    match listKind ((m (tag + 1)).extractLsb' 5 3) with
    | .identifiers => min (tag + 2 + count.toNat) len = tag + 1 + ielen
    | .filters => Layout m len (tag + 1 + ielen) 0 count.toNat (tag + 2) true
    | .nothing => ielen = 1

end Layout

/-! ### The decoder in its buffers -/

/-- An access stays where it may go, and a loop over components ends where its condition does. -/
def Access.Inside (len : Nat) : Access → Prop
  | .read at_ => at_ < len
  | .storeFilter i => i < 4
  | .storeIdentifier i => i < 16
  | .ended announced reached => announced ≤ reached

def Access.Exact : Access → Prop
  | .ended announced reached => reached = announced
  | _ => True

section Proofs
variable {m : Nat → Byte} {len : Nat}

/-- Where the components end, when all their types are known. -/
def reached : Except DecodeError (PacketFilter × Nat) → Option Nat
  | .ok (_, next) => some next
  | .error _ => none

theorem contentsTraced_result (end_ fuel at_ : Nat) (f : PacketFilter) :
    (contentsTraced m end_ fuel at_ f).2 = decodeContents m end_ fuel at_ f := by
  induction fuel generalizing at_ f with
  | zero => rfl
  | succ fuel ih =>
    by_cases inside : at_ < end_
    · cases found : Component.all.find? fun c => c.code = m at_ with
      | none => simp only [contentsTraced, decodeContents, if_pos inside, found]
      | some c =>
        simp only [contentsTraced, decodeContents, if_pos inside, found]
        exact ih _ _
    · simp only [contentsTraced, decodeContents, if_neg inside]

theorem packetFiltersTraced_result (end_ i count at_ : Nat) (filters : Nat → PacketFilters) :
    (packetFiltersTraced m end_ i count at_ filters).2 =
    decodePacketFilters m end_ i count at_ filters := by
  induction count generalizing i at_ filters with
  | zero => rfl
  | succ count ih =>
    rw [packetFiltersTraced, decodePacketFilters]
    split
    · rfl
    · have contents := contentsTraced_result (m := m) (at_ + 3 + (m (at_ + 2)).toNat)
        (m (at_ + 2)).toNat (at_ + 3)
        { (filters i).packetfilter with flags := 0 }
      dsimp only [decodePacketFilter]
      rw [← contents]
      cases result : (contentsTraced m (at_ + 3 + (m (at_ + 2)).toNat) (m (at_ + 2)).toNat (at_ + 3)
        { (filters i).packetfilter with flags := 0 }).2 with
      | error e => rfl
      | ok found => exact ih _ _ _

theorem identifiersTraced_result (end_ i count at_ : Nat) (identifiers : Nat → Byte) :
    (identifiersTraced m end_ i count at_ identifiers).2 =
    decodeIdentifiers m end_ i count at_ identifiers := by
  induction count generalizing i at_ identifiers with
  | zero => rfl
  | succ count ih =>
    rw [identifiersTraced, decodeIdentifiers]
    split
    · rfl
    · exact ih _ _ _

theorem trafficFlowTemplateTraced_result (iei : Byte) (len : Nat) (old : TrafficFlowTemplate) :
    (trafficFlowTemplateTraced m iei len old).2 = decodeTrafficFlowTemplate m iei len old := by
  by_cases wrong : 0 < iei ∧ m 0 ≠ iei
  · simp only [trafficFlowTemplateTraced, decodeTrafficFlowTemplate, if_pos wrong]
  · simp only [trafficFlowTemplateTraced, decodeTrafficFlowTemplate, if_neg wrong,
      ← packetFiltersTraced_result, ← identifiersTraced_result]
    generalize (if 0 < iei then 1 else 0) = tag
    by_cases short : remaining len (tag + 1) < (m tag).toNat
    · simp only [if_pos short]
    · simp only [if_neg short]
      cases kind : listKind ((m (tag + 1)).extractLsb' 5 3) with
      | identifiers => rfl
      | filters =>
        cases (packetFiltersTraced m len 0 ((m (tag + 1)).extractLsb' 0 4).toNat
          (tag + 2) old.filters).2 <;> rfl
      | nothing => rfl

theorem Component.code_inj {c d : Component} (same : c.code = d.code) : c = d := by
  cases c <;> cases d <;> first | rfl | exact absurd same (by decide)

theorem Component.width_pos (c : Component) : 0 < c.width := by
  cases c <;> decide

theorem contents_iff {end_ fuel at_ : Nat} (f : PacketFilter) (out : Option Nat)
    (enough : end_ ≤ at_ + fuel) :
    Contents m len end_ at_ out ↔ (∀ place ∈ (contentsTraced m end_ fuel at_ f).1, place < len) ∧
      out = reached (contentsTraced m end_ fuel at_ f).2 := by
  induction fuel generalizing at_ f with
  | zero =>
    refine ⟨fun contents => ⟨fun place member => (nomatch member), ?_⟩,
      fun ⟨_, same⟩ => same ▸ .done enough⟩
    cases contents with
    | done => rfl
    | unknown inside => exact absurd inside (Nat.not_lt.mpr enough)
    | component c inside => exact absurd inside (Nat.not_lt.mpr enough)
  | succ fuel ih =>
    by_cases inside : at_ < end_
    · cases found : Component.all.find? fun c => c.code = m at_ with
      | none =>
        have strange : ∀ c : Component, c.code ≠ m at_ := fun c => by
          have all : c ∈ Component.all := by cases c <;> decide
          simpa using List.find?_eq_none.mp found c all
        simp only [contentsTraced, if_pos inside, found, List.forall_mem_singleton, reached]
        constructor
        · intro contents
          cases contents with
          | done behind => exact absurd inside (Nat.not_lt.mpr behind)
          | unknown _ below => exact ⟨below, rfl⟩
          | component c _ known => exact absurd known (strange c)
        · rintro ⟨below, rfl⟩
          exact .unknown inside below strange
      | some c =>
        have known : c.code = m at_ := by simpa using List.find?_some found
        have further : end_ ≤ at_ + 1 + c.size + fuel := by omega
        have positive := c.width_pos
        have places : (∀ place ∈ at_ :: (List.range c.width).map (at_ + 1 + ·), place < len) ↔
            at_ + c.width < len := by
          constructor
          · intro all
            have last := all (at_ + 1 + (c.width - 1)) (List.mem_cons_of_mem _ (List.mem_map.mpr
              ⟨c.width - 1, List.mem_range.mpr (Nat.sub_lt positive Nat.one_pos), rfl⟩))
            omega
          · intro below place member
            rcases List.mem_cons.mp member with rfl | member
            · omega
            · obtain ⟨k, small, rfl⟩ := List.mem_map.mp member
              have small := List.mem_range.mp small
              omega
        simp only [contentsTraced, if_pos inside, found, List.forall_mem_append, places, and_assoc,
          ← ih (f := readComponent m (at_ + 1) f c) further]
        constructor
        · intro contents
          cases contents with
          | done behind => exact absurd inside (Nat.not_lt.mpr behind)
          | unknown _ _ strange => exact absurd known (strange c)
          | component d _ other below rest =>
            cases Component.code_inj (known.trans other.symm)
            exact ⟨below, rest⟩
        · rintro ⟨below, rest⟩
          exact .component c inside known below rest
    · have behind := Nat.not_lt.mp inside
      simp only [contentsTraced, if_neg inside, reached]
      refine ⟨fun contents => ⟨fun place member => (nomatch member), ?_⟩,
        fun ⟨_, same⟩ => same ▸ .done behind⟩
      cases contents with
      | done => rfl
      | unknown within => exact absurd within inside
      | component c within => exact absurd within inside

/-- The loop over the components ends at the end of the contents or behind it. -/
theorem contentsTraced_end {end_ fuel at_ next : Nat} {f g : PacketFilter}
    (enough : end_ ≤ at_ + fuel)
    (found : (contentsTraced m end_ fuel at_ f).2 = .ok (g, next)) : end_ ≤ next := by
  induction fuel generalizing at_ f with
  | zero =>
    cases found
    exact enough
  | succ fuel ih =>
    rw [contentsTraced] at found
    split at found
    · split at found
      · exact nomatch found
      · exact ih (by omega) found
    · cases found
      exact Nat.not_lt.mp ‹_›

theorem filter_inside {i at_ : Nat} {places : List Nat} :
    (∀ e ∈ [.storeFilter i, .read at_, .read (at_ + 1), .read (at_ + 2)] ++ places.map .read,
        Access.Inside len e) ↔
      i < 4 ∧ at_ + 2 < len ∧ ∀ place ∈ places, place < len := by
  simp only [List.forall_mem_append, List.forall_mem_cons, List.forall_mem_map, Access.Inside]
  constructor
  · rintro ⟨⟨stored, _, _, last, _⟩, rest⟩
    exact ⟨stored, last, rest⟩
  · rintro ⟨stored, last, rest⟩
    exact ⟨⟨stored, by omega, by omega, last, nofun⟩, rest⟩

theorem filter_exact {i at_ : Nat} {places : List Nat} :
    ∀ e ∈ [.storeFilter i, .read at_, .read (at_ + 1), .read (at_ + 2)] ++ places.map .read,
      Access.Exact e := by
  simp only [List.forall_mem_append, List.forall_mem_cons, List.forall_mem_map, Access.Exact]
  exact ⟨⟨trivial, trivial, trivial, trivial, nofun⟩, fun _ _ => trivial⟩

theorem layout_iff {announced i count at_ : Nat} {exact_ : Bool} (filters : Nat → PacketFilters) :
    Layout m len announced i count at_ exact_ ↔
    (∀ e ∈ (packetFiltersTraced m len i count at_ filters).1, e.Inside len) ∧
      ∀ decoded, (packetFiltersTraced m len i count at_ filters).2 = .ok decoded →
        decoded.2 = announced ∧ exact_ = true ∧
        ∀ e ∈ (packetFiltersTraced m len i count at_ filters).1, e.Exact := by
  induction count generalizing i at_ exact_ filters with
  | zero =>
    rw [packetFiltersTraced]
    by_cases full : at_ = len
    · subst full
      constructor
      · intro layout
        refine ⟨nofun, fun decoded accepted => ?_⟩
        cases layout with
        | accepted same =>
          rw [if_neg (not_not_intro rfl)] at accepted
          cases accepted
          exact ⟨same.symm, rfl, nofun⟩
        | long other => exact absurd rfl other
      · rintro ⟨_, accepted⟩
        obtain ⟨same, rfl, _⟩ := accepted (filters, at_) (if_neg (not_not_intro rfl))
        exact .accepted same.symm
    · refine iff_of_true (.long full) ⟨nofun, fun decoded accepted => ?_⟩
      rw [if_pos full] at accepted
      exact nomatch accepted
  | succ count ih =>
    by_cases full : at_ = len
    · subst full
      rw [packetFiltersTraced, if_pos rfl]
      exact iff_of_true .short ⟨nofun, nofun⟩
    · have enough : at_ + 3 + (m (at_ + 2)).toNat ≤ at_ + 3 + (m (at_ + 2)).toNat := Nat.le_refl _
      have contents : ∀ out, Contents m len (at_ + 3 + (m (at_ + 2)).toNat) (at_ + 3) out ↔
        _ := fun out =>
          contents_iff { (filters i).packetfilter with flags := 0 } out enough
      cases result : (contentsTraced m (at_ + 3 + (m (at_ + 2)).toNat) (m (at_ + 2)).toNat (at_ + 3)
          { (filters i).packetfilter with flags := 0 }).2 with
      | error e =>
        simp only [packetFiltersTraced, if_neg full, result, reached] at contents ⊢
        rw [filter_inside]
        constructor
        · intro layout
          cases layout with
          | short => exact absurd rfl full
          | unknown _ stored below walked =>
            exact ⟨⟨stored, below, ((contents none).mp walked).1⟩, nofun⟩
          | filter _ _ _ walked => exact nomatch ((contents _).mp walked).2
        · rintro ⟨⟨stored, below, places⟩, _⟩
          exact .unknown full stored below ((contents none).mpr ⟨places, rfl⟩)
      | ok found =>
        have behind := contentsTraced_end enough result
        simp only [packetFiltersTraced, if_neg full, result, reached] at contents ⊢
        rw [List.forall_mem_append, filter_inside, List.forall_mem_cons]
        constructor
        · intro layout
          cases layout with
          | short => exact absurd rfl full
          | unknown _ _ _ walked => exact nomatch ((contents none).mp walked).2
          | filter _ stored below walked more =>
            obtain ⟨places, same⟩ := (contents _).mp walked
            cases same
            obtain ⟨inside, accepted⟩ := (ih _).mp more
            refine ⟨⟨⟨stored, below, places⟩, behind, inside⟩, fun decoded here => ?_⟩
            obtain ⟨atEnd, exactly, others⟩ := accepted decoded here
            obtain ⟨before, own⟩ := Bool.and_eq_true_iff.mp exactly
            have own : found.2 = at_ + 3 + (m (at_ + 2)).toNat := of_decide_eq_true own
            exact ⟨atEnd, before,
              List.forall_mem_append.mpr ⟨filter_exact, List.forall_mem_cons.mpr ⟨own, others⟩⟩⟩
        · rintro ⟨⟨⟨stored, below, places⟩, _, inside⟩, accepted⟩
          refine .filter full stored below ((contents _).mpr ⟨places, rfl⟩)
            ((ih _).mpr ⟨inside, fun decoded here => ?_⟩)
          obtain ⟨atEnd, before, all⟩ := accepted decoded here
          obtain ⟨own, others⟩ := List.forall_mem_cons.mp (List.forall_mem_append.mp all).2
          have own : found.2 = at_ + 3 + (m (at_ + 2)).toNat := own
          exact ⟨atEnd, Bool.and_eq_true_iff.mpr ⟨before, decide_eq_true own⟩, others⟩

theorem identifiersTraced_spec {i count at_ : Nat} (identifiers : Nat → Byte) (below : at_ ≤ len)
    (few : i + count < 16) :
    (∀ e ∈ (identifiersTraced m len i count at_ identifiers).1, e.Inside len ∧ e.Exact) ∧
      (identifiersTraced m len i count at_ identifiers).2.2 = min (at_ + count) len := by
  induction count generalizing i at_ identifiers with
  | zero => exact ⟨nofun, (Nat.min_eq_left below).symm⟩
  | succ count ih =>
    by_cases full : at_ = len
    · rw [identifiersTraced, if_pos full]
      exact ⟨nofun, full.trans (Nat.min_eq_right (full ▸ Nat.le_add_right at_ _)).symm⟩
    · obtain ⟨inside, place⟩ :=
        @ih (i + 1) (at_ + 1) (fun k => if k = i then m at_ else identifiers k)
        (by omega) (by omega)
      rw [identifiersTraced, if_neg full]
      refine ⟨List.forall_mem_cons.mpr
        ⟨⟨?_, trivial⟩, List.forall_mem_cons.mpr ⟨⟨?_, trivial⟩, inside⟩⟩, ?_⟩
      · exact Nat.lt_of_le_of_lt (Nat.le_add_right i (count + 1)) few
      · exact Nat.lt_of_le_of_ne below full
      · exact place.trans (by omega)

theorem robust_iff {iei : Byte} {old : TrafficFlowTemplate} : Robust m iei len old ↔
    (∀ e ∈ (trafficFlowTemplateTraced m iei len old).1, e.Inside len) ∧
      ∀ decoded, (trafficFlowTemplateTraced m iei len old).2 = .ok decoded →
        decoded.2 = (if 0 < iei then 1 else 0) + 1 + (m (if 0 < iei then 1 else 0)).toNat ∧
          ∀ e ∈ (trafficFlowTemplateTraced m iei len old).1, e.Exact := by
  constructor
  · intro robust
    refine ⟨fun e member => ?_, fun decoded accepted => ?_⟩
    · cases e with
      | read at_ => exact robust.reads at_ member
      | storeFilter i => exact robust.filters i member
      | storeIdentifier i => exact robust.identifiers i member
      | ended announced reached => exact robust.ends announced reached member
    · obtain ⟨consumed, exactly⟩ := robust.consumed decoded.1 decoded.2 accepted
      refine ⟨consumed, fun e member => ?_⟩
      cases e with
      | ended announced reached => exact exactly announced reached member
      | _ => trivial
  · rintro ⟨inside, accepted⟩
    refine ⟨fun a b member => inside _ member,
      fun a member => inside _ member, fun i member => inside _ member,
      fun i member => inside _ member, fun t decoded here => ?_⟩
    obtain ⟨consumed, exactly⟩ := accepted (t, decoded) here
    exact ⟨consumed, fun a b member => exactly _ member⟩

theorem head_inside (len : Nat) (iei : Byte) (places : List Nat) (rest : List Access) :
    (∀ e ∈ (if 0 < iei then [.read 0] else []) ++ places.map .read ++ rest, Access.Inside len e) ↔
      (0 < iei → 0 < len) ∧ (∀ place ∈ places, place < len) ∧ ∀ e ∈ rest, Access.Inside len e := by
  rw [List.forall_mem_append, List.forall_mem_append, List.forall_mem_map, and_assoc]
  refine and_congr_left fun _ => ?_
  by_cases tagged : 0 < iei
  · rw [if_pos tagged, List.forall_mem_singleton]
    exact ⟨fun inside _ => inside, fun inside => inside tagged⟩
  · rw [if_neg tagged]
    exact iff_of_true (fun e member => nomatch member) fun some => absurd some tagged

theorem head_exact (iei : Byte) (places : List Nat) (rest : List Access) :
    (∀ e ∈ (if 0 < iei then [.read 0] else []) ++ places.map .read ++ rest, Access.Exact e) ↔
      ∀ e ∈ rest, Access.Exact e := by
  rw [List.forall_mem_append, List.forall_mem_append, List.forall_mem_map]
  refine and_iff_right ⟨?_, fun _ _ => trivial⟩
  split_ifs
  · exact List.forall_mem_singleton.mpr trivial
  · exact nofun

end Proofs

/-- The decoder is robust exactly on the elements that nest in the buffer. -/
theorem robust_iff_nested (m : Nat → Byte) (iei : Byte) (len : BitVec 32)
    (old : TrafficFlowTemplate) :
    Robust m iei len.toNat old ↔ Nested m len.toNat iei := by
  have bound : len.toNat < 2 ^ 32 := len.isLt
  generalize len.toNat = len at bound
  rw [robust_iff]
  by_cases wrong : 0 < iei ∧ m 0 ≠ iei
  · simp only [trafficFlowTemplateTraced, Nested, if_pos wrong, if_pos wrong.1,
      List.forall_mem_singleton, Access.Inside]
    exact and_iff_left nofun
  have tagged : 0 < iei → (if 0 < iei then 1 else 0) = 1 := fun tagged => if_pos tagged
  simp only [trafficFlowTemplateTraced, Nested, if_neg wrong]
  generalize (if 0 < iei then 1 else 0) = tag at tagged ⊢
  by_cases below : tag < len
  case neg =>
    have outside : ∀ rest : List Access, ¬ ∀ e ∈ (if 0 < iei then [.read 0] else []) ++
        .read tag :: rest, Access.Inside len e :=
      fun rest inside => below (inside (.read tag) (List.mem_append_right _ List.mem_cons_self))
    rw [if_pos (Nat.le_add_right_of_le (Nat.not_lt.mp below))]
    refine iff_of_false (fun robust => ?_) below
    split at robust
    · exact outside [] robust.1
    · split at robust
      · exact outside (.read (tag + 1) :: _)
          (by simpa only [List.append_assoc, List.cons_append, List.nil_append] using robust.1)
      · exact outside (.read (tag + 1) :: _)
          (by simpa only [List.append_assoc, List.cons_append, List.nil_append] using robust.1)
      · exact outside [.read (tag + 1)] robust.1
  have some : 0 < iei → 0 < len := fun _ => Nat.zero_lt_of_lt below
  have left : remaining len (tag + 1) = len - (tag + 1) := by
    unfold remaining
    omega
  by_cases short : len ≤ tag + (m tag).toNat
  · have first := head_inside len iei [tag] []
    rw [List.append_nil, List.map_singleton, List.forall_mem_singleton] at first
    rw [if_pos (left ▸ by omega), if_pos short, first]
    exact iff_of_true ⟨⟨some, below, nofun⟩, nofun⟩ below
  rw [if_neg (left ▸ by omega), if_neg short]
  have places : (∀ place ∈ [tag, tag + 1], place < len) ↔ tag + 1 < len := by
    rw [List.forall_mem_cons, List.forall_mem_singleton]
    exact and_iff_right below
  have inside := head_inside len iei [tag, tag + 1]
  have exactly := head_exact iei [tag, tag + 1]
  simp only [places, List.map_cons, List.map_nil] at inside exactly
  cases kind : listKind ((m (tag + 1)).extractLsb' 5 3) with
  | nothing =>
    have head := inside []
    have same := exactly []
    rw [List.append_nil] at head same
    simp only [head, same]
    constructor
    · rintro ⟨⟨_, above, _⟩, accepted⟩
      have consumed := (accepted _ rfl).1
      exact ⟨above, by dsimp only at consumed; omega⟩
    · rintro ⟨above, single⟩
      refine ⟨⟨some, above, nofun⟩, fun decoded accepted => ?_⟩
      cases accepted
      exact ⟨by dsimp only; omega, nofun⟩
  | identifiers =>
    simp only [inside, exactly]
    have few := ((m (tag + 1)).extractLsb' 0 4).isLt
    constructor
    · rintro ⟨⟨_, above, _⟩, accepted⟩
      have spec := @identifiersTraced_spec m len 0 _ (tag + 2) old.identifiers above
        (by rw [Nat.zero_add]; exact few)
      have consumed := (accepted _ rfl).1
      exact ⟨above, spec.2.symm.trans consumed⟩
    · rintro ⟨above, consumed⟩
      have spec := @identifiersTraced_spec m len 0 _ (tag + 2) old.identifiers above
        (by rw [Nat.zero_add]; exact few)
      refine ⟨⟨some, above, fun e member => (spec.1 e member).1⟩, fun decoded accepted => ?_⟩
      cases accepted
      exact ⟨spec.2.trans consumed, fun e member => (spec.1 e member).2⟩
  | filters =>
    simp only [inside, exactly, layout_iff old.filters]
    constructor
    · rintro ⟨⟨_, above, list⟩, accepted⟩
      refine ⟨above, list, fun decoded here => ?_⟩
      obtain ⟨consumed, rest⟩ := accepted _ (by rw [here]; rfl)
      exact ⟨consumed, trivial, rest⟩
    · rintro ⟨above, list, accepted⟩
      refine ⟨⟨some, above, list⟩, fun decoded here => ?_⟩
      cases result :
          (packetFiltersTraced m len 0 ((m (tag + 1)).extractLsb' 0 4).toNat
          (tag + 2) old.filters).2 with
      | error e =>
        rw [result] at here
        exact nomatch here
      | ok found =>
        rw [result] at here
        cases here
        obtain ⟨consumed, _, rest⟩ := accepted found result
        exact ⟨consumed, rest⟩

def fiveFilters (i : Nat) : Byte := if i = 0 then 16 else if i = 1 then 0b00100101 else 0

/-- The fifth filter is stored behind the four. -/
theorem not_always_robust : ¬ ∀ (m : Nat → Byte) (iei : Byte) (len : BitVec 32)
    (old : TrafficFlowTemplate),
    Robust m iei len.toNat old := by
  intro all
  have fits :=
    (all fiveFilters 0 17
    ⟨0, 0, 0, fun _ => ⟨0, 0, 0, ⟨0, fun _ => 0, fun _ => 0, 0, 0, 0, 0, 0, 0, (0, 0), 0⟩⟩,
    fun _ => 0⟩).filters 4 (by decide +kernel)
  exact absurd fits (by decide)

end OpenAir.Nas
