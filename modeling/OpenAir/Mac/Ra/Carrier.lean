import OpenAir.Mac.Ra.Process

/-! The random-access processes of a carrier from preamble to preamble: what starts them, what
Msg3 brings them and what ends them, one subframe after the other. -/
namespace OpenAir.Mac.Ra

structure Carrier where
  enb : Enb
  /-- The subframe that `schedule_RA` is called for next. -/
  now : Now
  failureCnt : Nat
  /-- The process that has made this UE with Msg3, until its place is taken by a new procedure.
  No part of the program. -/
  creator : Nat → Option (Fin raProcMax)

def Time.back (time : Time) (lag : Nat) : Time where
  frame := (10240 + time.absSF - lag) % 10240 / 10
  subframe := (10240 + time.absSF - lag) % 10

/-- The distance from the preamble to Msg2; `none` where the source aborts. -/
def msg2Offset (cell : Cell) : Option Nat :=
  match cell.tdd with
  | some 1 => some 6
  | some _ => none
  | none => some (if cell.nfapiMode then 7 else 5)

/-- The values of the random generator that are taken as RNTIs. Those of other processes are
not excluded. -/
def acceptRnti (cell : Cell) (ueList : UeList) (rnti : Nat) : Bool :=
  findUeId cell.mobiles ueList rnti = none && decide (1024 ≤ rnti) && decide (rnti < 60000)

/-- The first value that is accepted. The source gives up at the hundredth draw, whatever it
brings. -/
def drawRnti (cell : Cell) (ueList : UeList) (taus : Nat → Nat) : Option Nat :=
  ((List.range 99).map fun loop => taus loop % 65536).find? (acceptRnti cell ueList)

/-- A preamble as it comes from the PHY. -/
structure Preamble where
  /-- How many subframes ago it was received: the scheduler is four subframes ahead of the
  receiver, and in nFAPI mode two more. -/
  lag : Nat
  index : Nat
  timingOffset : Int
  raRnti : Nat
  taus : Nat → Nat

def Cell.ahead (cell : Cell) : Nat := if cell.nfapiMode then 6 else 4

def Process.cancelled (ra : Process) : Process :=
  { ra with state := .idle, timingOffset := 0, rrcTimer := 20, rnti := 0, msg3Round := 0 }

def clearRaProc (s : Enb) : Enb := { s with ra := fun i => (s.ra i).cancelled }

section Steps
variable (cell : Cell)

/-- After more than 20 preambles that found no idle process all of them are cleared. -/
def initiateRaProc (c : Carrier) (preamble : Preamble) : Option Carrier :=
  match (List.finRange raProcMax).find? fun i => (c.enb.ra i).state = .idle with
  | some i => do
    let received := c.now.toTime.back preamble.lag
    let offset ← msg2Offset cell
    let rnti ← drawRnti cell c.enb.ueList preamble.taus
    return { c with
      enb := c.enb.setRa i
        { c.enb.ra i with
          state := .msg2, timingOffset := preamble.timingOffset, preambleSubframe :=
            received.subframe
          msg2 := received.addSubframe offset, rnti := rnti, raRnti := preamble.raRnti
          preambleIndex := preamble.index }
      failureCnt := 0
      creator := fun ue => if c.creator ue = some i then none else c.creator ue }
  | none =>
    let failureCnt := (c.failureCnt + 1) % 256
    some { c with
      enb := if 20 < failureCnt then clearRaProc c.enb else c.enb
      failureCnt := failureCnt }

def findRaId (s : Enb) (rnti : Nat) : Option (Fin raProcMax) :=
  (List.finRange raProcMax).find? fun i => (s.ra i).state ≠ .idle && (s.ra i).rnti = rnti

/-- What `rx_sdu` has at hand while it goes through a PDU. -/
structure Rx where
  carrier : Carrier
  currentRnti : Nat
  ueId : Option Nat

def Rx.cancel (s : Rx) : Rx :=
  { s with carrier := { s.carrier with enb := cancelRaProc s.carrier.enb s.currentRnti } }

def Rx.setRa (s : Rx) (i : Fin raProcMax) (ra : Process) : Rx :=
  { s with carrier := { s.carrier with enb := s.carrier.enb.setRa i ra } }

/-- A C-RNTI in Msg3: the procedure goes on for the UE that has it. -/
def rxCrnti (s : Rx) (oldRnti : Nat) : Rx :=
  match findUeId cell.mobiles s.carrier.enb.ueList oldRnti with
  | none => s.cancel
  | some ue =>
    match findRaId s.carrier.enb s.currentRnti with
    | none => s
    | some i =>
      let s := s.setRa i { s.carrier.enb.ra i with state := .msgCrnti, rnti := oldRnti }
      { s with currentRnti := oldRnti, ueId := some ue }

/-- The frame is not taken modulo 1024 here; `none` where the source aborts. -/
def msg4Time (time : Time) : Option Time :=
  match cell.tdd with
  | none => some ⟨time.frame + if 5 < time.subframe then 1 else 0, (time.subframe + 4) % 10⟩
  | some 1 => some ⟨time.frame + if 2 < time.subframe then 1 else 0, (time.subframe + 7) % 10⟩
  | some _ => none

def freePlace (ueList : UeList) : Option Nat :=
  (List.range cell.mobiles).find? fun ue => !ueList.active ue

/-- The UE that Msg3 makes for a process. -/
def Rx.newUe (s : Rx) (i : Fin raProcMax) (ue : Nat) : Rx :=
  let enb := s.carrier.enb
  { s with
    carrier := { s.carrier with
      enb := { enb with
        ueList := addNewUe cell.mobiles enb.ueList (enb.ra i).rnti
        round := Function.update enb.round ue fun _ => 8
        configured := Function.update enb.configured ue false }
      creator := Function.update s.carrier.creator ue (some i) }
    ueId := some ue }

/-- Msg3 has come for this process: Msg4 is prepared. -/
def Rx.toMsg4 (s : Rx) (time : Time) (i : Fin raProcMax) : Option Rx := do
  let msg4 ← msg4Time cell time
  return s.setRa i { s.carrier.enb.ra i with state := .msg4, msg4 := msg4 }

/-- The loop over the processes for a CCCH SDU that begins with these six bytes. -/
def rxCcch (time : Time) (id : { id : List UInt8 // id.length = 6 }) :
    List (Fin raProcMax) → Rx → Option Rx
  | [], s => some s
  | i :: rest, s =>
    let ra := s.carrier.enb.ra i
    if ra.rnti = s.currentRnti ∧ ra.state ≠ .idle then
      match s.ueId with
      | some _ => do rxCcch time id rest (← s.toMsg4 cell time i)
      | none =>
        let s := s.setRa i { ra with contResId := id.1, sixBytes := id.2 }
        match freePlace cell s.carrier.enb.ueList with
        | none => some s.cancel
        | some ue => do rxCcch time id rest (← (s.newUe cell i ue).toMsg4 cell time i)
    else rxCcch time id rest s

/-- What of a PDU concerns the processes: the C-RNTIs of its control elements and the first
bytes of its CCCH SDUs. -/
structure Msg3 where
  crntis : List Nat
  ccchs : List { id : List UInt8 // id.length = 6 }

structure Reception where
  time : Time
  rnti : Nat
  /-- `none` for an error. -/
  pdu : Option Msg3
  /-- The UE's HARQ process is in its last round. -/
  lastRound : Bool

def rxMsg3 (time : Time) (pdu : Msg3) (s : Rx) : Option Rx :=
  pdu.ccchs.foldlM (fun s id => rxCcch cell time id (List.finRange raProcMax) s)
    (pdu.crntis.foldl (rxCrnti cell) s)

/-- `rx_sdu`, as far as it concerns the processes. -/
def rxSdu (c : Carrier) (r : Reception) : Option Carrier :=
  let ueId := findUeId cell.mobiles c.enb.ueList r.rnti
  let cancel : Carrier := { c with enb := cancelRaProc c.enb r.rnti }
  match ueId, findRaId c.enb r.rnti, r.pdu with
  | some _, ra, none => some (if r.lastRound ∧ ra.isSome then cancel else c)
  | none, none, _ => some c
  | none, some i, none =>
    if cell.maxHarqMsg3Tx ≤ 1 then none
    else if cell.maxHarqMsg3Tx - 1 ≤ (c.enb.ra i).msg3Round then some cancel
    else do
      let ra := { c.enb.ra i with
        msg3Round := (c.enb.ra i).msg3Round + 1, msg3 := getMsg3allocret cell (c.enb.ra i).msg3 }
      let enb ← addMsg3 cell r.time.subframe ra (c.enb.setRa i ra)
      return { c with enb := enb }
  | none, some _, some pdu =>
    if cell.maxHarqMsg3Tx ≤ 1 then
      none else (rxMsg3 cell r.time pdu ⟨c, r.rnti, none⟩).map Rx.carrier
  | some ue, _, some pdu => (rxMsg3 cell r.time pdu ⟨c, r.rnti, some ue⟩).map Rx.carrier

def Now.tick (now : Now) : Now where
  toTime := now.addSubframe 1
  frameCnt := if now.frame = 1023 ∧ now.subframe = 9 then (now.frameCnt + 1) % 7 else now.frameCnt

inductive Event where
  | preamble (preamble : Preamble)
  | schedule (answers : Fin raProcMax → Answer)
  | receive (reception : Reception)
  | cancel (rnti : Nat)
  /-- Feedback of a UE sets the round of a HARQ process. -/
  | harq (ue pid round : Nat)

def raStep (c : Carrier) : Event → Option Carrier
  | .preamble preamble => if preamble.lag ≤ cell.ahead then initiateRaProc cell c preamble else none
  | .schedule answers => do
    let enb ← scheduleRa cell c.now answers c.enb
    return { c with enb := enb, now := c.now.tick }
  | .receive reception => rxSdu cell c reception
  | .cancel rnti => some { c with enb := cancelRaProc c.enb rnti }
  | .harq ue pid round =>
    some { c with enb := { c.enb with round := Function.update c.enb.round ue (Function.update
      (c.enb.round ue) pid round) } }

end Steps

end OpenAir.Mac.Ra
