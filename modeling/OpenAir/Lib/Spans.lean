import Mathlib.Data.List.Basic

/-! Disjoint spans of numbers in increasing order, as a list that is consumed from the front
in pieces of any size. -/
namespace OpenAir.Spans

/-- The numbers from `start` on that are below `stop`. -/
structure Span where
  start : Nat
  stop : Nat
deriving Repr, DecidableEq

def Span.numbers (span : Span) : List Nat := List.range' span.start (span.stop - span.start)

def numbers (spans : List Span) : List Nat := spans.flatMap Span.numbers

/-- Spans below `bound`, none empty, each behind the ones before it. -/
structure Ordered (bound : Nat) (spans : List Span) : Prop where
  some : ∀ span ∈ spans, span.start < span.stop
  inside : ∀ span ∈ spans, span.stop ≤ bound
  apart : spans.Pairwise fun span later => span.stop ≤ later.start

/-- What is left when `count` numbers of the first span are taken. -/
def consume (count : Nat) : List Span → List Span
  | [] => []
  | span :: rest => if span.start + count < span.stop then
      ⟨span.start + count, span.stop⟩ :: rest else rest

section Numbers

variable {spans rest : List Span} {span : Span} {bound count : Nat}

theorem numbers_cons (span : Span) (rest : List Span) :
    numbers (span :: rest) = span.numbers ++ numbers rest :=
  List.flatMap_cons

theorem Span.numbers_length (span : Span) : span.numbers.length = span.stop - span.start :=
  List.length_range'

theorem numbers_pos (ordered : Ordered bound spans) (more : spans ≠ []) :
    0 < (numbers spans).length := by
  obtain ⟨span, rest, rfl⟩ := List.exists_cons_of_ne_nil more
  have here := ordered.some span List.mem_cons_self
  rw [numbers_cons, List.length_append, span.numbers_length]
  omega

theorem numbers_consume (within : span.start + count ≤ span.stop) (rest : List Span) :
    numbers (span :: rest) = List.range' span.start count ++
    numbers (consume count (span :: rest)) := by
  rw [numbers_cons, Span.numbers, consume]
  split
  · rw [numbers_cons, Span.numbers, ← List.append_assoc]
    congr 1
    have split_ : span.stop - span.start = count + (span.stop - (span.start + count)) := by omega
    rw [split_, ← List.range'_append_1]
  · have all : span.stop - span.start = count := by omega
    rw [all]

theorem Ordered.tail (ordered : Ordered bound (span :: rest)) : Ordered bound rest where
  some span member := ordered.some span (List.mem_cons_of_mem _ member)
  inside span member := ordered.inside span (List.mem_cons_of_mem _ member)
  apart := (List.pairwise_cons.mp ordered.apart).2

theorem Ordered.consume (ordered : Ordered bound spans) (count : Nat) :
    Ordered bound (consume count spans) := by
  cases spans with
  | nil => exact ordered
  | cons span rest =>
    rw [Spans.consume]
    split
    · rename_i more
      constructor
      · intro other member
        rcases List.mem_cons.mp member with rfl | later
        · exact more
        · exact ordered.tail.some other later
      · intro other member
        rcases List.mem_cons.mp member with rfl | later
        · exact ordered.inside span List.mem_cons_self
        · exact ordered.tail.inside other later
      · exact List.pairwise_cons.mpr (List.pairwise_cons.mp ordered.apart)
    · exact ordered.tail

/-- Spans behind `start` that have as many numbers as there are up to the bound have all of them. -/
theorem numbers_full {start : Nat} (ordered : Ordered bound spans)
    (behind : ∀ span ∈ spans, start ≤ span.start) :
    (numbers spans).length ≤ bound - start ∧
    ((numbers spans).length = bound - start →
      numbers spans = List.range' start (bound - start)) := by
  induction spans generalizing start with
  | nil =>
    refine ⟨Nat.zero_le _, fun all => ?_⟩
    have none : bound - start = 0 := all.symm
    rw [none]
    rfl
  | cons span rest ih =>
    have first := behind span List.mem_cons_self
    have some := ordered.some span List.mem_cons_self
    have inside := ordered.inside span List.mem_cons_self
    obtain ⟨most, full⟩ := @ih span.stop ordered.tail (List.pairwise_cons.mp ordered.apart).1
    rw [numbers_cons, List.length_append, span.numbers_length]
    refine ⟨by omega, fun all => ?_⟩
    have begins : span.start = start := by omega
    rw [full (by omega), Span.numbers, begins]
    have split_ : bound - start = (span.stop - start) + (bound - span.stop) := by omega
    rw [split_, ← List.range'_append_1]
    congr 2
    omega

end Numbers

end OpenAir.Spans
