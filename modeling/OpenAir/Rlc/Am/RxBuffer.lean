import OpenAir.Lib.Interval
import OpenAir.Lib.Serial
import OpenAir.Rlc.Am.DataPdu

/-! The receive list: PDUs and PDU segments in the order of their SN ahead of
VR(R), the segments of one SN by their offset. -/
namespace OpenAir.Rlc.Am
open BitField Interval

/-- `rlc_am_rx_segment_reassemble_info_t`. -/
inductive SegmentReassembled where
  | no
  | pending
  | reassembled
deriving Repr, DecidableEq

/-- `rlc_am_rx_pdu_management_t`, with the bytes its `pdu_info` describes. -/
structure RxPdu where
  mem : Memory
  info : PduInfo
  allSegmentsReceived : Bool := false
  segmentReassembled : SegmentReassembled := .no

namespace RxPdu

def stop (e : RxPdu) : Nat := e.info.so + e.info.payloadSize.toNat

def interval (e : RxPdu) : Nat × Nat := (e.info.so, e.stop)

def ends (e : RxPdu) : Bool := e.info.lsf || !e.info.rf

/-- Fields within their widths and a payload that is not empty. -/
structure Fits (e : RxPdu) : Prop where
  sn : e.info.sn < snModulo
  so : e.info.so < 2 ^ 15
  size : 0 < e.info.payloadSize

theorem Fits.proper {e : RxPdu} (fits : e.Fits) : e.info.so < e.stop := by
  have := fits.size
  rw [stop]
  omega

theorem Fits.stop_eq {e : RxPdu} (fits : e.Fits) :
    (e.info.so : Int) + e.info.payloadSize = e.stop := by
  have := fits.size
  rw [stop]
  omega

end RxPdu

/-- `a` stands before `b`: an earlier SN, or earlier bytes of the same SN. -/
def Before (vrR : Nat) (a b : RxPdu) : Prop :=
  diffSn a.info.sn vrR < diffSn b.info.sn vrR ∨ a.info.sn = b.info.sn ∧ a.stop ≤ b.info.so

instance (vrR : Nat) (a b : RxPdu) : Decidable (Before vrR a b) :=
  inferInstanceAs (Decidable (_ ∨ _))

/-- The representation invariant of `receiver_buffer`. -/
structure RxOrdered (vrR : Nat) (l : List RxPdu) : Prop where
  fits : ∀ e ∈ l, e.Fits
  sorted : l.Pairwise (Before vrR)

/-- A whole PDU starts at byte 0 and was marked when it was stored. -/
def WholeMarked (l : List RxPdu) : Prop :=
  ∀ e ∈ l, e.info.rf = false → e.info.so = 0 ∧ e.allSegmentsReceived = true

/-- Byte `i` of the AMD PDU `sn` is stored. -/
def Stored (l : List RxPdu) (sn i : Nat) : Prop :=
  ∃ e ∈ l, e.info.sn = sn ∧ e.info.so ≤ i ∧ i < e.stop

/-- Byte `i` of the AMD PDU `sn` is not stored, and nothing that is stored puts it
behind the end of the PDU. -/
def Missing (l : List RxPdu) (sn i : Nat) : Prop :=
  ¬ Stored l sn i ∧ ∀ e ∈ l, e.info.sn = sn → e.ends = true → i < e.stop

theorem RxOrdered.tail {vrR : Nat} {e : RxPdu} {l : List RxPdu} (ordered : RxOrdered vrR (e :: l)) :
    RxOrdered vrR l :=
  ⟨fun other member => ordered.fits other (List.mem_cons_of_mem _ member),
    (List.pairwise_cons.mp ordered.sorted).2⟩

theorem RxOrdered.of_sublist {vrR : Nat} {l r : List RxPdu} (ordered : RxOrdered vrR l)
    (sub : r.Sublist l) :
    RxOrdered vrR r :=
  ⟨fun e member => ordered.fits e (sub.subset member), ordered.sorted.sublist sub⟩

theorem RxOrdered.laid {vrR : Nat} {e : RxPdu} {l : List RxPdu} (ordered : RxOrdered vrR (e :: l))
    (same : ∀ other ∈ l, other.info.sn = e.info.sn) : Laid e.stop (l.map RxPdu.interval) := by
  induction l generalizing e with
  | nil => trivial
  | cons next l ih =>
    have sn := same next List.mem_cons_self
    have first := (List.pairwise_cons.mp ordered.sorted).1 next List.mem_cons_self
    refine ⟨?_, (ordered.fits next (by simp)).proper, ?_⟩
    · rcases first with ahead | ⟨-, apart⟩
      · rw [sn] at ahead
        exact absurd ahead (Nat.lt_irrefl _)
      · exact apart
    · apply ih ordered.tail
      intro other member
      rw [sn]
      exact same other (List.mem_cons_of_mem _ member)

end OpenAir.Rlc.Am
