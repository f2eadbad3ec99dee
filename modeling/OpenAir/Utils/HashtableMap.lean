import OpenAir.Lib.Run
import OpenAir.Utils.Hashtable
import Mathlib.Data.Finmap

/-! The hash table as a finite map from keys to data. -/
namespace OpenAir.Hashtable
open OpenAir.Run

variable {δ : Type}

abbrev Map (δ : Type) := Finmap fun _ : Key => Option δ

def Table.index (t : Table δ) (keyP : Key) : Nat := (t.hashfunc keyP).toNat % t.size

def Table.lookup (t : Table δ) (keyP : Key) : Option (Option δ) :=
  search keyP (t.nodes (t.index keyP))

def Table.entries (t : Table δ) : List (Node δ) := (List.range t.size).flatMap t.nodes

/-- Nodes are in the bucket of their key, and no key is there twice. -/
structure Table.Valid (t : Table δ) : Prop where
  positive : 0 < t.size
  placed : ∀ i < t.size, ∀ node ∈ t.nodes i, t.index node.key = i
  distinct : ∀ i < t.size, ((t.nodes i).map Node.key).Nodup

section Tables
variable {t : Table δ} {keyP : Key}

theorem Table.Valid.index_lt (valid : t.Valid) (keyP : Key) : t.index keyP < t.size :=
  Nat.mod_lt _ valid.positive

theorem Table.Valid.hash_eq (valid : t.Valid) (keyP : Key) : t.hash keyP = some (t.index keyP) :=
  if_neg (Nat.ne_of_gt valid.positive)

theorem Table.Valid.get_eq (valid : t.Valid) (keyP : Key) :
    hashtableGet t keyP =
    some (match t.lookup keyP with | some data => (.ok, data) | none => (.keyNotExists, none)) := by
  rw [hashtableGet, valid.hash_eq, Table.lookup]
  simp only [Option.bind_eq_bind, Option.bind_some]
  cases search keyP (t.nodes (t.index keyP)) <;> rfl

theorem Table.Valid.exists_eq (valid : t.Valid) (keyP : Key) :
    hashtableIsKeyExists t keyP = some (if (t.lookup keyP).isSome then .ok else .keyNotExists) := by
  rw [hashtableIsKeyExists, valid.hash_eq, Table.lookup]
  simp only [Option.bind_eq_bind, Option.bind_some]
  cases search keyP (t.nodes (t.index keyP)) <;> rfl

theorem setBucket_nodes (t : Table δ) (i j : Nat) (bucket : List (Node δ)) :
    (t.setBucket i bucket).nodes j = if j = i then bucket else t.nodes j := Function.update_apply ..

theorem setBucket_lookup (t : Table δ) (keyP k : Key) (bucket : List (Node δ)) :
    (t.setBucket (t.index keyP) bucket).lookup k = if t.index k = t.index keyP then search k bucket
    else t.lookup k := by
  change search k ((t.setBucket (t.index keyP) bucket).nodes (t.index k)) = _
  rw [setBucket_nodes]
  split <;> rfl

theorem Table.Valid.setBucket (valid : t.Valid) {i : Nat} {bucket : List (Node δ)}
    (placed : ∀ node ∈ bucket, t.index node.key = i)
    (distinct : (bucket.map Node.key).Nodup) : (t.setBucket i bucket).Valid := by
  refine ⟨valid.positive, fun j inside node member => ?_, fun j inside => ?_⟩
  · rw [setBucket_nodes] at member
    split at member
    · rename_i same
      rw [same]
      exact placed node member
    · exact valid.placed j inside node member
  · rw [setBucket_nodes]
    split
    · exact distinct
    · exact valid.distinct j inside

theorem setBucket_lookup_eq (t : Table δ) {bucket : List (Node δ)} {value : Option (Option δ)}
    (found : ∀ k, search k bucket = if k = keyP then value else search k (t.nodes (t.index keyP)))
    (k : Key) :
    (t.setBucket (t.index keyP) bucket).lookup k = if k = keyP then value else t.lookup k := by
  rw [setBucket_lookup, found, Table.lookup]
  by_cases mine : k = keyP
  · rw [if_pos mine, if_pos mine, if_pos (mine ▸ rfl)]
  · rw [if_neg mine, if_neg mine]
    split
    · rename_i same
      rw [same]
    · rfl

/-- What an operation on one key does to the table. -/
structure Changed (t after : Table δ) (keyP : Key) (value : Option (Option δ)) : Prop where
  valid : after.Valid
  size : after.size = t.size
  hashfunc : after.hashfunc = t.hashfunc
  lookup : ∀ k, after.lookup k = if k = keyP then value else t.lookup k

theorem insert_present (dataP : Option δ) (valid : t.Valid) {old : Option δ}
    (present : t.lookup keyP = some old) :
    ∃ after, hashtableInsert t keyP dataP = some (after, .insertOverwrittenData, old) ∧
      Changed t after keyP (some dataP) ∧
      after.numElements = t.numElements := by
  obtain ⟨bucket, replaced, keys, found⟩ := overwrite_some dataP present
  have inside := valid.index_lt keyP
  refine ⟨t.setBucket (t.index keyP) bucket, ?_,
    ⟨valid.setBucket ?_ ?_, rfl, rfl, setBucket_lookup_eq t found⟩, rfl⟩
  · rw [hashtableInsert, valid.hash_eq]
    simp only [Option.bind_eq_bind, Option.bind_some, replaced]
    rfl
  · intro node member
    have key : node.key ∈ (t.nodes (t.index keyP)).map Node.key := keys ▸ List.mem_map_of_mem member
    obtain ⟨before, member, same⟩ := List.mem_map.mp key
    rw [← same]
    exact valid.placed _ inside before member
  · rw [keys]
    exact valid.distinct _ inside

theorem insert_absent (dataP : Option δ) (valid : t.Valid) (absent : t.lookup keyP = none) :
    ∃ after, hashtableInsert t keyP dataP = some (after, .ok, none) ∧
      Changed t after keyP (some dataP) ∧
      after.numElements = t.numElements + 1 := by
  have inside := valid.index_lt keyP
  have fresh := search_eq_none.mp absent
  have bucket : (t.setBucket (t.index keyP) (⟨keyP, dataP⟩ :: t.nodes (t.index keyP))).Valid := by
    refine valid.setBucket ?_ ?_
    · rintro node (_ | ⟨_, member⟩)
      · rfl
      · exact valid.placed _ inside node member
    · refine List.nodup_cons.mpr ⟨fun member => ?_, valid.distinct _ inside⟩
      obtain ⟨node, member, same⟩ := List.mem_map.mp member
      exact fresh node member same
  have found (k : Key) : search k (⟨keyP, dataP⟩ :: t.nodes (t.index keyP)) =
      if k = keyP then some dataP else search k (t.nodes (t.index keyP)) := by
    rw [search_cons]
    by_cases mine : k = keyP
    · rw [if_pos mine.symm, if_pos mine]
    · rw [if_neg (Ne.symm mine), if_neg mine]
  refine ⟨{ t.setBucket (t.index keyP) (⟨keyP, dataP⟩ :: t.nodes
    (t.index keyP)) with numElements := t.numElements + 1 }, ?_,
    ⟨⟨bucket.positive, bucket.placed, bucket.distinct⟩, rfl, rfl, setBucket_lookup_eq t found⟩, rfl⟩
  rw [hashtableInsert, valid.hash_eq]
  simp only [Option.bind_eq_bind, Option.bind_some, overwrite_none absent]
  rfl

theorem remove_present (valid : t.Valid) {old : Option δ} (present : t.lookup keyP = some old) :
    ∃ after, hashtableRemove t keyP = some (after, .ok, old) ∧ Changed t after keyP none ∧
      after.numElements = t.numElements - 1 := by
  have inside := valid.index_lt keyP
  obtain ⟨bucket, removed, sub, found⟩ := unlink_some (valid.distinct _ inside) present
  have kept : (t.setBucket (t.index keyP) bucket).Valid :=
    valid.setBucket (fun node member => valid.placed _ inside node (sub.subset member))
      ((valid.distinct _ inside).sublist (sub.map Node.key))
  refine ⟨{ t.setBucket (t.index keyP) bucket with numElements := t.numElements - 1 }, ?_,
    ⟨⟨kept.positive, kept.placed, kept.distinct⟩, rfl, rfl, setBucket_lookup_eq t found⟩, rfl⟩
  rw [hashtableRemove, valid.hash_eq]
  simp only [Option.bind_eq_bind, Option.bind_some, removed]
  rfl

theorem remove_absent (valid : t.Valid) (absent : t.lookup keyP = none) :
    hashtableRemove t keyP = some (t, .keyNotExists, none) := by
  rw [hashtableRemove, valid.hash_eq]
  simp only [Option.bind_eq_bind, Option.bind_some, unlink_none absent]
  rfl

theorem mem_entries (valid : t.Valid) {node : Node δ} : node ∈ t.entries ↔
    t.lookup node.key = some node.data := by
  have inside := valid.index_lt node.key
  rw [Table.entries, List.mem_flatMap, Table.lookup, search_eq_some (valid.distinct _ inside)]
  constructor
  · rintro ⟨i, small, member⟩
    rw [valid.placed i (List.mem_range.mp small) node member]
    exact member
  · intro member
    exact ⟨t.index node.key, List.mem_range.mpr inside, member⟩

theorem entries_distinct (valid : t.Valid) : (t.entries.map Node.key).Nodup := by
  rw [Table.entries, List.map_flatMap, List.nodup_flatMap]
  refine ⟨fun i small => valid.distinct i (List.mem_range.mp small), ?_⟩
  refine List.Pairwise.imp_of_mem ?_ List.nodup_range
  intro i j first second different k left right
  obtain ⟨a, member, rfl⟩ := List.mem_map.mp left
  obtain ⟨b, other, same⟩ := List.mem_map.mp right
  apply different
  rw [← valid.placed i (List.mem_range.mp first) a member,
    ← valid.placed j (List.mem_range.mp second) b other, same]

end Tables

section Represented

/-- The table stores the map. The last two say that the counters of `unsigned int` reach all of
it. -/
structure Represents (t : Table δ) (m : Map δ) : Prop where
  valid : t.Valid
  lookup : ∀ k, t.lookup k = m.lookup k
  number : t.numElements = BitVec.ofNat 64 m.keys.card
  few : m.keys.card < 2 ^ 32
  low : ∀ k ∈ m, t.index k < 2 ^ 32

variable {t : Table δ} {m : Map δ}

theorem Represents.number_toNat (stored : Represents t m) : t.numElements.toNat = m.keys.card := by
  have few := stored.few
  rw [stored.number, BitVec.toNat_ofNat, Nat.mod_eq_of_lt (by omega)]

theorem Represents.mem_entries (stored : Represents t m) {node : Node δ} :
    node ∈ t.entries ↔ m.lookup node.key = some node.data := by
  rw [Hashtable.mem_entries stored.valid, stored.lookup]

theorem Represents.length (stored : Represents t m) : t.entries.length = m.keys.card := by
  have same : (t.entries.map Node.key).toFinset = m.keys := by
    ext k
    rw [List.mem_toFinset, List.mem_map, Finmap.mem_keys, Finmap.mem_iff]
    constructor
    · rintro ⟨node, member, rfl⟩
      exact ⟨node.data, stored.mem_entries.mp member⟩
    · rintro ⟨data, found⟩
      exact ⟨⟨k, data⟩, stored.mem_entries.mpr found, rfl⟩
  rw [← same, List.toFinset_card_of_nodup (entries_distinct stored.valid), List.length_map]

/-- The buckets that a 32-bit index reaches have all nodes. -/
theorem Represents.entries_low (stored : Represents t m) :
    t.entries = (List.range (min t.size (2 ^ 32))).flatMap t.nodes := by
  obtain ⟨rest, split_⟩ : ∃ rest, t.size = min t.size (2 ^ 32) + rest :=
    Nat.exists_eq_add_of_le (Nat.min_le_left ..)
  have empty : ((List.range rest).map (min t.size (2 ^ 32) + ·)).flatMap t.nodes = [] := by
    rw [List.flatMap_eq_nil_iff]
    intro i member
    obtain ⟨j, small, rfl⟩ := List.mem_map.mp member
    rw [List.mem_range] at small
    apply List.eq_nil_iff_forall_not_mem.mpr
    intro node member
    have inside : min t.size (2 ^ 32) + j < t.size := by omega
    have placed := stored.valid.placed _ inside node member
    have found :=
      stored.mem_entries.mp (List.mem_flatMap.mpr ⟨_, List.mem_range.mpr inside, member⟩)
    have low := stored.low node.key (Finmap.mem_iff.mpr ⟨_, found⟩)
    omega
  have whole : t.entries = (List.range (min t.size (2 ^ 32) + rest)).flatMap t.nodes := by
    rw [Table.entries, ← split_]
  rw [whole, List.range_add, List.flatMap_append, empty, List.append_nil]

theorem Represents.entries_from (stored : Represents t m) {i : Nat}
    (inside : i ≤ min t.size (2 ^ 32)) :
    ∃ rest, t.entries = (List.range i).flatMap t.nodes ++ rest ∧
      (i = min t.size (2 ^ 32) → rest = []) := by
  obtain ⟨count, split_⟩ : ∃ count, min t.size (2 ^ 32) = i + count :=
    Nat.exists_eq_add_of_le inside
  refine ⟨((List.range count).map (i + ·)).flatMap t.nodes, ?_, fun last => ?_⟩
  · rw [stored.entries_low, split_, List.range_add, List.flatMap_append]
  · obtain rfl : count = 0 := by omega
    rfl

theorem applyLoop_entries (stored : Represents t m) (rounds i : Nat)
    (inside : i ≤ min t.size (2 ^ 32))
    (enough : min t.size (2 ^ 32) < i + rounds) :
    applyLoop t rounds (BitVec.ofNat 32 i) (BitVec.ofNat 32 ((List.range i).flatMap t.nodes).length)
      ((List.range i).flatMap t.nodes) =
      some t.entries := by
  have few := stored.few
  induction rounds generalizing i with
  | zero => omega
  | succ rounds ih =>
    obtain ⟨rest, whole, last⟩ := stored.entries_from inside
    have total : ((List.range i).flatMap t.nodes).length + rest.length = m.keys.card := by
      rw [← stored.length, whole, List.length_append]
    have small : (BitVec.ofNat 32 ((List.range i).flatMap t.nodes).length).toNat =
        ((List.range i).flatMap t.nodes).length := by
      rw [BitVec.toNat_ofNat, Nat.mod_eq_of_lt (by omega)]
    rw [applyLoop, small, stored.number_toNat]
    by_cases done : rest = []
    · subst done
      rw [List.length_nil, Nat.add_zero] at total
      rw [if_neg (fun go => absurd go.1 (Nat.not_lt.mpr (Nat.le_of_eq total.symm))), whole,
        List.append_nil]
    · have further : i < min t.size (2 ^ 32) := Nat.lt_of_le_of_ne inside (mt last done)
      have more : 0 < rest.length := List.length_pos_of_ne_nil done
      have index : (BitVec.ofNat 32 i).toNat = i := by
        rw [BitVec.toNat_ofNat, Nat.mod_eq_of_lt (by omega)]
      have visited : (List.range i).flatMap t.nodes ++ t.nodes i =
          (List.range (i + 1)).flatMap t.nodes := by
        rw [List.range_succ, List.flatMap_append, List.flatMap_singleton]
      have count : BitVec.ofNat 32 ((List.range i).flatMap t.nodes).length + BitVec.ofNat 32
        (t.nodes i).length =
          BitVec.ofNat 32 ((List.range (i + 1)).flatMap t.nodes).length := by
        rw [← visited, List.length_append, BitVec.ofNat_add]
      rw [index, if_pos ⟨by omega, by omega⟩, visited, count]
      have next : BitVec.ofNat 32 i + 1 = BitVec.ofNat 32 (i + 1) := (BitVec.ofNat_add i 1).symm
      rw [next]
      exact ih (i + 1) further (by omega)

/-- What the readers of the table find. -/
structure Refines (t : Table δ) (m : Map δ) : Prop where
  get : ∀ k, hashtableGet t k =
    some (match m.lookup k with | some data => (.ok, data) | none => (.keyNotExists, none))
  isKeyExists : ∀ k, hashtableIsKeyExists t k = some (if k ∈ m then .ok else .keyNotExists)
  numElements : t.numElements.toNat = m.keys.card
  apply : ∃ visited bound,
    (∀ rounds ≥ bound, hashtableApplyFunctOnElements t rounds = some visited) ∧
    (visited.map Node.key).Nodup ∧ ∀ k data, ⟨k, data⟩ ∈ visited ↔ m.lookup k = some data

theorem Represents.refines (stored : Represents t m) : Refines t m := by
  refine ⟨fun k =>
    ?_, fun k => ?_, stored.number_toNat, t.entries, min t.size (2 ^ 32) + 1,
    fun rounds enough => ?_, ?_, ?_⟩
  · rw [stored.valid.get_eq, stored.lookup]
  · rw [stored.valid.exists_eq, stored.lookup]
    simp only [Finmap.lookup_isSome]
  · exact applyLoop_entries stored rounds 0 (Nat.zero_le _) (by omega)
  · exact entries_distinct stored.valid
  · intro k data
    exact stored.mem_entries

theorem create_represents {size : Nat} (positive : 0 < size) (hashfunc : Option (Key → BitVec 64)) :
    Represents (hashtableCreate size hashfunc 0 : Table δ) ∅ where
  valid := ⟨positive, nofun, fun _ _ => List.nodup_nil⟩
  lookup _ := rfl
  number := rfl
  few := by rw [Finmap.keys_empty]; decide
  low _ member := absurd member Finmap.notMem_empty

theorem Changed.index {after : Table δ} {k : Key} {value : Option (Option δ)}
    (changed : Changed t after k value) (other : Key) :
    after.index other = t.index other := by
  rw [Table.index, changed.hashfunc, changed.size]
  rfl

theorem keys_insert (m : Map δ) (k : Key) (data : Option δ) :
    (m.insert k data).keys = insert k m.keys := by
  ext other
  rw [Finmap.mem_keys, Finmap.mem_insert, Finset.mem_insert, Finmap.mem_keys]

theorem lookup_insert_eq (m : Map δ) (k : Key) (data : Option δ) (other : Key) :
    (m.insert k data).lookup other = if other = k then some data else m.lookup other := by
  by_cases same : other = k
  · subst same
    rw [if_pos rfl, Finmap.lookup_insert]
  · rw [if_neg same, Finmap.lookup_insert_of_ne m same]

theorem lookup_erase_eq (m : Map δ) (k other : Key) :
    (m.erase k).lookup other = if other = k then none else m.lookup other := by
  by_cases same : other = k
  · subst same
    rw [if_pos rfl, Finmap.lookup_erase]
  · rw [if_neg same, Finmap.lookup_erase_ne same]

theorem Represents.insert (stored : Represents t m) {k : Key} (data : Option δ)
    (low : t.index k < 2 ^ 32)
    (few : k ∈ m ∨ m.keys.card + 1 < 2 ^ 32) :
    ∃ after rc, hashtableInsert t k data = some (after, rc, (m.lookup k).join) ∧
      Represents after (m.insert k data) := by
  have below {after : Table δ} (changed : Changed t after k (some data)) :
      ∀ other ∈ m.insert k data, after.index other < 2 ^ 32 := by
    intro other member
    rw [changed.index]
    rcases Finmap.mem_insert.mp member with rfl | before
    · exact low
    · exact stored.low other before
  cases found : m.lookup k with
  | some old =>
    obtain ⟨after, inserted, changed, number⟩ :=
      insert_present data stored.valid ((stored.lookup k).trans found)
    have present : k ∈ m := Finmap.mem_iff.mpr ⟨old, found⟩
    have keys : (m.insert k data).keys = m.keys := by
      rw [keys_insert, Finset.insert_eq_self.mpr (Finmap.mem_keys.mpr present)]
    refine ⟨after, _, inserted, changed.valid, fun other => ?_, ?_, ?_, below changed⟩
    · rw [changed.lookup, lookup_insert_eq, stored.lookup]
    · rw [number, keys, stored.number]
    · rw [keys]
      exact stored.few
  | none =>
    obtain ⟨after, inserted, changed, number⟩ :=
      insert_absent data stored.valid ((stored.lookup k).trans found)
    have absent : k ∉ m := Finmap.lookup_eq_none.mp found
    have card : (m.insert k data).keys.card = m.keys.card + 1 := by
      rw [keys_insert, Finset.card_insert_of_notMem (mt Finmap.mem_keys.mp absent)]
    refine ⟨after, _, inserted, changed.valid, fun other => ?_, ?_, ?_, below changed⟩
    · rw [changed.lookup, lookup_insert_eq, stored.lookup]
    · rw [number, card, stored.number, BitVec.ofNat_add]
      rfl
    · rw [card]
      exact few.resolve_left absent

theorem Represents.remove (stored : Represents t m) (k : Key) :
    ∃ after rc, hashtableRemove t k = some (after, rc, (m.lookup k).join) ∧
      Represents after (m.erase k) := by
  cases found : m.lookup k with
  | some old =>
    obtain ⟨after, removed, changed, number⟩ :=
      remove_present stored.valid ((stored.lookup k).trans found)
    have present : k ∈ m.keys := Finmap.mem_keys.mpr (Finmap.mem_iff.mpr ⟨old, found⟩)
    have card : (m.erase k).keys.card + 1 = m.keys.card := by
      rw [Finmap.keys_erase, Finset.card_erase_add_one present]
    have few := stored.few
    refine ⟨after, _, removed, changed.valid, fun other => ?_, ?_, by omega, fun other member => ?_⟩
    · rw [changed.lookup, lookup_erase_eq, stored.lookup]
    · rw [number, stored.number, ← card, BitVec.ofNat_add]
      exact BitVec.add_sub_cancel ..
    · rw [changed.index]
      exact stored.low other (Finmap.mem_erase.mp member).2
  | none =>
    have same : m.erase k = m := by
      apply Finmap.ext_lookup
      intro other
      rw [lookup_erase_eq]
      split
      · rename_i mine
        rw [mine, found]
      · rfl
    rw [same]
    exact ⟨t, _, remove_absent stored.valid ((stored.lookup k).trans found), stored⟩

theorem moveBuckets_empty {old : Table δ} (new : Table δ) (n count : Nat)
    (empty : ∀ i < n + count, old.nodes i = []) :
    moveBuckets n count old new [] = some (old, new, []) := by
  induction count generalizing n with
  | zero => rfl
  | succ count ih =>
    rw [moveBuckets, empty n (by omega)]
    exact ih (n + 1) (fun i less => empty i (by omega))

theorem Represents.resize (stored : Represents t m) (empty : t.entries = []) {size : Nat}
    (positive : 0 < size) (found : BitVec 64) :
    ∃ after, hashtableResize t size found = some (after, []) ∧ Represents after m := by
  have clear : ∀ i < t.size, t.nodes i = [] := fun i less =>
    List.flatMap_eq_nil_iff.mp empty i (List.mem_range.mpr less)
  have nothing (k : Key) : m.lookup k = none := by
    rw [← stored.lookup, Table.lookup, clear _ (stored.valid.index_lt k)]
    rfl
  refine ⟨{ t with size := size, nodes := fun _ => [] }, ?_, ?_⟩
  · rw [hashtableResize, moveBuckets_empty _ 0 t.size (by simpa using clear)]
    rfl
  · refine ⟨⟨positive, nofun, fun _ _ => List.nodup_nil⟩,
      fun k => (nothing k).symm, stored.number, stored.few, fun k member => ?_⟩
    exact absurd member (Finmap.lookup_eq_none.mp (nothing k))

end Represented

section Runs

/-- A table, and what `freefunc` has been given. -/
structure Machine (δ : Type) where
  table : Table δ
  released : List δ

inductive Command (δ : Type) where
  | insert (keyP : Key) (dataP : Option δ)
  | remove (keyP : Key)
  /-- `found` is what the stack has in the place of the counter. -/
  | resize (sizeP : Nat) (found : BitVec 64)

def step (s : Machine δ) : Command δ → Option (Machine δ)
  | .insert keyP dataP => (hashtableInsert s.table keyP dataP).map
      fun (table, _, released) => ⟨table, s.released ++ released.toList⟩
  | .remove keyP => (hashtableRemove s.table keyP).map
      fun (table, _, released) => ⟨table, s.released ++ released.toList⟩
  | .resize sizeP found => (hashtableResize s.table sizeP found).map
      fun (table, released) => ⟨table, s.released ++ released⟩

/-- The same on the map: only data that was overwritten or removed is released. -/
def specification (s : Map δ × List δ) : Command δ → Map δ × List δ
  | .insert keyP dataP => (s.1.insert keyP dataP, s.2 ++ (s.1.lookup keyP).join.toList)
  | .remove keyP => (s.1.erase keyP, s.2 ++ (s.1.lookup keyP).join.toList)
  | .resize _ _ => s

/-- A new node comes into a bucket that a 32-bit index reaches, and leaves the number of nodes
below 2^32; a table that is resized is empty. -/
def Harmless (s : Machine δ) : Command δ → Prop
  | .insert keyP _ => s.table.index keyP < 2 ^ 32 ∧
    (hashtableIsKeyExists s.table keyP = some .ok ∨ s.table.entries.length + 1 < 2 ^ 32)
  | .remove _ => True
  | .resize sizeP _ => s.table.entries = [] ∧ 0 < sizeP

theorem step_simulates (s : Machine δ) (a : Map δ × List δ) (command : Command δ)
    (related : Represents s.table a.1 ∧ s.released = a.2) (harmless : Harmless s command) :
    ∃ s', step s command = some s' ∧ Represents s'.table (specification a command).1 ∧
      s'.released = (specification a command).2 := by
  obtain ⟨stored, released⟩ := related
  cases command with
  | insert keyP dataP =>
    have few : keyP ∈ a.1 ∨ a.1.keys.card + 1 < 2 ^ 32 := by
      rcases harmless.2 with present | few
      · rw [stored.refines.isKeyExists] at present
        by_contra not_either
        rw [if_neg (fun member => not_either (Or.inl member))] at present
        exact nomatch present
      · exact Or.inr (stored.length ▸ few)
    obtain ⟨after, rc, inserted, stored⟩ := stored.insert dataP harmless.1 few
    exact ⟨_, by rw [step, inserted]; rfl, stored, congrArg (· ++ _) released⟩
  | remove keyP =>
    obtain ⟨after, rc, removed, stored⟩ := stored.remove keyP
    exact ⟨_, by rw [step, removed]; rfl, stored, congrArg (· ++ _) released⟩
  | resize sizeP found =>
    obtain ⟨after, resized, stored⟩ := stored.resize harmless.1 harmless.2 found
    exact ⟨_, by rw [step, resized]; rfl, stored, (List.append_nil _).trans released⟩

/-- A run leaves a table whose readers find what the map has, and has released what the map lost. -/
def Kept (s : Machine δ) (commands : List (Command δ)) : Prop :=
  ∃ s', run step s commands = some s' ∧
    Refines s'.table (commands.foldl specification (∅, s.released)).1 ∧
    s'.released = (commands.foldl specification (∅, s.released)).2

/-- A new table refines a map through every harmless run just when the memory it was made in had a
zero for the counter. -/
theorem hashtable_refines {size : Nat} (positive : 0 < size) (hashfunc : Option (Key → BitVec 64))
    (found : BitVec 64) :
    (∀ commands,
        Meets step Harmless (⟨hashtableCreate size hashfunc found, []⟩ : Machine δ) commands →
      Kept ⟨hashtableCreate size hashfunc found, []⟩ commands) ↔ found = 0 := by
  constructor
  · intro kept
    obtain ⟨s, ran, refines, _⟩ := kept [] trivial
    cases ran
    have number : found.toNat = (∅ : Map δ).keys.card := refines.numElements
    rw [Finmap.keys_empty, Finset.card_empty] at number
    exact BitVec.eq_of_toNat_eq number
  · rintro rfl commands meets
    let blank : Map δ × List δ := (∅, [])
    have start : Represents (hashtableCreate size hashfunc 0 : Table δ) blank.1 ∧
        ([] : List δ) = blank.2 :=
      ⟨create_represents positive hashfunc, rfl⟩
    obtain ⟨s, ran, stored, released⟩ := run_simulates step_simulates start meets
    exact ⟨s, ran, stored.refines, released⟩

theorem hashtable_refines_rlc : (0 < 208) ∧
    ∀ commands, Meets step Harmless (⟨hashtableCreate 208 none 0, []⟩ : Machine Nat) commands →
      Kept ⟨hashtableCreate 208 none 0, []⟩ commands :=
  ⟨by decide, (hashtable_refines (by decide) none 0).mpr rfl⟩

/-- Resizing gives stored data to `freefunc` and forgets the number of elements, after which the
iteration sees none of them; a table made in used memory counts from what is there. -/
theorem resize_releases :
    (∃ s, run step (⟨hashtableCreate 4 none 0, []⟩ : Machine Nat)
        [.insert 5 (some 9), .resize 8 0] = some s ∧ s.released = [9] ∧
      hashtableGet s.table 5 = some (.ok, some 9) ∧
      hashtableApplyFunctOnElements s.table 100 = some []) ∧
    ¬ Kept (⟨hashtableCreate 4 none 0, []⟩ : Machine Nat) [.insert 5 (some 9), .resize 8 0] ∧
    ¬ Kept (⟨hashtableCreate 4 none 1, []⟩ : Machine Nat) [] := by
  refine ⟨⟨_, rfl, rfl, rfl, rfl⟩, ?_, ?_⟩
  · rintro ⟨s, ran, _, released⟩
    cases ran
    exact absurd released (by decide)
  · rintro ⟨s, ran, refines, _⟩
    cases ran
    exact absurd refines.numElements (by decide)

end Runs

end OpenAir.Hashtable
