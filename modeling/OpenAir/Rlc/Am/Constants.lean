/-! Constants and sequence-number macros of the acknowledged-mode RLC entity. -/
namespace OpenAir.Rlc.Am

def snModulo : Nat := 1024
def windowSize : Nat := 512
def sduControlBufferSize : Nat := 1024
def pduRetransmissionBufferSize : Nat := windowSize
def headerMinSize : Nat := 2
def pduSegmentHeaderMinSize : Nat := 4
def maxSduInPdu : Nat := 128
def maxSduFragments : Nat := 32
def maxNackInStatusPdu : Nat := 1023
def maxHolesReportPerPdu : Nat := 16
def snUndefined : Nat := 0xFFFF
def sduMaxSize : Nat := 9000

def statusPduSoEndAllBytes : Nat := 0x7FFF

/-- `RLC_AM_NEXT_SN`; masking with the modulo less one is reduction by the modulo. -/
def nextSn (sn : Nat) : Nat := (sn + 1) % snModulo

def prevSn (sn : Nat) : Nat := (sn + snModulo - 1) % snModulo

/-- `RLC_AM_DIFF_SN`: how far `sn` lies ahead of `snref`. -/
def diffSn (sn snref : Nat) : Nat := (sn + snModulo - snref) % snModulo

/-- `RLC_AM_HEADER_LI_LENGTH`: two length indicators share three bytes. -/
def headerLiLength (li : Nat) : Nat := li + li / 2 + li % 2

def pduSegmentHeaderSize (numLis : Nat) : Nat := pduSegmentHeaderMinSize + headerLiLength numLis

/-- Conversion to `int16_t`. -/
def int16 (x : Int) : Int := Int.bmod x 65536

theorem int16_eq {x : Int} (lower : -32768 ≤ x) (upper : x < 32768) : int16 x = x := by
  rw [int16, Int.bmod_eq_of_le] <;> omega

end OpenAir.Rlc.Am
