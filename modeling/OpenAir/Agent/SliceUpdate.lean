import OpenAir.Agent.SliceConfig

/-! The verification of the slices of a message as a group, and the loop that writes them. -/
namespace OpenAir.Agent
open Keyed

section Group

variable {α : Type} (id : α → UInt32) (percentage : α → UInt32) (existing : List α)

/-- The number of slices that the verification expects: `n`. -/
def resultingNumber (n : Int) : List α → Int
  | [] => n
  | u :: update =>
    match record id existing (id u) with
    | none => resultingNumber (n + 1) update
    | some s => if percentage s = 0 then resultingNumber (n - 1) update
        else resultingNumber n update

/-- The share of all slices that the verification expects: `pct`. -/
def resultingShare (pct : Int) : List α → Int
  | [] => pct
  | u :: update =>
    let pct := match record id existing (id u) with
      | none => pct
      | some s => pct - (percentage s).toNat
    resultingShare (pct + (percentage u).toNat) update

def totalShare (slices : List α) : Int := (slices.map fun s => ((percentage s).toNat : Int)).sum

/-- The checks that both directions have: number and share. -/
def verifyGroup (update : List α) : Bool :=
  let n := resultingNumber id percentage existing existing.length update
  let pct := resultingShare id percentage existing (totalShare percentage existing) update
  1 ≤ n ∧ n ≤ maxNumSlices ∧ 1 ≤ pct ∧ pct ≤ 100

end Group

def flexranVerifyGroupDlSlices (existing update : List DlSlice) : Bool :=
  verifyGroup DlSlice.id DlSlice.percentage existing update

/-- `struct sregion_s` -/
structure SRegion where
  start : Int
  length : Int
deriving Repr, DecidableEq

/-- The C library's `qsort` with `sregion_compare`; the order of equal elements is its own. -/
structure Qsort where
  sort : List SRegion → List SRegion
  perm (regions : List SRegion) : (sort regions).Perm regions
  sorted (regions : List SRegion) : (sort regions).Pairwise fun a b => a.start ≤ b.start

/-- The region of an UL slice; the product is one of `uint32_t`. -/
def sregion (nRb : Nat) (uls : UlSlice) : SRegion where
  start := toInt uls.firstRb
  length := toInt (uls.percentage * UInt32.ofNat nRb / 100)

/-- Where the region behind the current one starts, or the band ends. -/
def nextStart (nRb : Nat) : List SRegion → Int
  | [] => nRb
  | next :: _ => next.start

/-- The loop of `check_ul_slice_overlap` over sorted regions. -/
def checkOverlap (nRb : Nat) : List SRegion → Except SliceFault Bool
  | [] => .ok true
  | sr :: rest =>
    let u := nextStart nRb rest
    if ¬ sr.start ≤ u then
      .error .assertFatal
    else
      let overlap := sr.start + sr.length - u
      if overlap ≤ 0 then
        checkOverlap nRb rest
      else if sr.length = 0 then
        .error .divisionByZero
      else if (overlap * 100).tdiv sr.length ≥ 10 then
        .ok false
      else
        checkOverlap nRb rest

def checkUlSliceOverlap (qsort : Qsort) (nRb : Nat) (regions : List SRegion) :
    Except SliceFault Bool :=
  checkOverlap nRb (qsort.sort regions)

/-- The regions of the updates, in an array of `n`; those of the existing slices are there. -/
def updateRegions (nRb : Nat) (n : Int) (existing : List UlSlice) : List SRegion → List UlSlice →
    Except SliceFault (List SRegion)
  | regions, [] => .ok regions
  | regions, u :: update =>
    match lastPosition UlSlice.id u.id existing with
    | some d =>
      if (d : Int) < n then
        updateRegions nRb n existing (regions.set d (sregion nRb u)) update
      else
        .error .regionIndex
    | none =>
      if (regions.length : Int) < n then
        updateRegions nRb n existing (regions ++ [sregion nRb u]) update
      else
        .error .regionIndex

def flexranVerifyGroupUlSlices (qsort : Qsort) (nRb : Nat) (existing update : List UlSlice) :
    Except SliceFault Bool :=
  if verifyGroup UlSlice.id UlSlice.percentage existing update then
    let n := resultingNumber UlSlice.id UlSlice.percentage existing existing.length update
    if (existing.length : Int) ≤ n then
      match updateRegions nRb n existing (existing.map (sregion nRb)) update with
      | .error fault => .error fault
      | .ok regions =>
        if (regions.length : Int) = n then checkUlSliceOverlap qsort nRb regions
          else .error .assertFatal
    else
      .error .regionIndex
  else
    .ok false

section Overwrite

/-- `overwrite_slice_config_dl`: the fields that differ; `check_dl_sorting_update` finds every
difference. -/
def overwriteSliceConfigDl (exist update : DlSlice) : DlSlice :=
  { exist with
    label := update.label
    percentage := update.percentage
    isolation := update.isolation
    priority := update.priority
    positionLow := update.positionLow
    positionHigh := update.positionHigh
    maxmcs := update.maxmcs
    sorting := update.sorting
    accounting := update.accounting
    schedulerName := update.schedulerName }

def overwriteSliceConfigUl (exist update : UlSlice) : UlSlice :=
  { exist with
    label := update.label
    percentage := update.percentage
    isolation := update.isolation
    priority := update.priority
    firstRb := update.firstRb
    maxmcs := update.maxmcs
    accounting := update.accounting
    schedulerName := update.schedulerName }

variable {α : Type} (id : α → UInt32) (overwrite : α → α → α) (slot : UInt32 → α)

/-- The loop that writes the updates: over the slice that is found, or over a new one. A new slice
keeps what its slot holds until it is written over, which are all fields. -/
def applyUpdates : List α → List α → Except SliceFault (List α)
  | slices, [] => .ok slices
  | slices, u :: update =>
    match position id slices (id u) with
    | some i => applyUpdates (slices.modify i fun exist => overwrite exist u) update
    | none =>
      if slices.length < maxNumSlices then
        applyUpdates (slices ++ [overwrite (slot (id u)) u]) update
      else
        .error .assertFatal

end Overwrite

section Part

variable {ε α : Type}

/-- The loop that verifies the slices of a message one by one: the filled slices, `none` when one is
refused. -/
def verifyEach (fill : ε → Option α) (verify : α → Bool) : List ε → Option (List α)
  | [] => some []
  | entry :: rest =>
    match fill entry with
    | none => none
    | some s => if verify s then (verifyEach fill verify rest).map (s :: ·) else none

end Part

/-- An entry of the message, filled up; one without an id is refused. -/
def fillDlEntry (slices : List DlSlice) (s : DlSliceEntry) : Option DlSlice :=
  s.id.map fun id =>
    fillDlSlice slices s id ((position DlSlice.id slices id).bind fun i => slices[i]?)

def fillUlEntry (slices : List UlSlice) (s : UlSliceEntry) : Option UlSlice :=
  s.id.map fun id =>
    fillUlSlice slices s id ((position UlSlice.id slices id).bind fun i => slices[i]?)

def filledDl (slices : List DlSlice) (entries : List DlSliceEntry) : Option (List DlSlice) :=
  verifyEach (fillDlEntry slices) flexranVerifyDlSlice entries

def filledUl (slices : List UlSlice) (entries : List UlSliceEntry) : Option (List UlSlice) :=
  verifyEach (fillUlEntry slices) flexranVerifyUlSlice entries

/-- One direction of a message: whether it was verified, and the slices afterwards. -/
structure PartResult (α : Type) where
  verified : Bool
  slices : List α

/-- The DL part of `prepare_update_slice_config`. -/
def prepareDl (slices : List DlSlice) (entries : List DlSliceEntry) :
    Except SliceFault (PartResult DlSlice) :=
  match entries, filledDl slices entries with
  | [], _ => .ok ⟨true, slices⟩
  | _, none => .ok ⟨false, slices⟩
  | _, some update =>
    if flexranVerifyGroupDlSlices slices update then
      (applyUpdates DlSlice.id overwriteSliceConfigDl (fun id => { id }) slices update).map
        (PartResult.mk true)
    else
      .ok ⟨false, slices⟩

/-- The UL part of `prepare_update_slice_config`. -/
def prepareUl (qsort : Qsort) (nRb : Nat) (slices : List UlSlice) (entries : List UlSliceEntry) :
    Except SliceFault (PartResult UlSlice) :=
  match entries, filledUl slices entries with
  | [], _ => .ok ⟨true, slices⟩
  | _, none => .ok ⟨false, slices⟩
  | _, some update =>
    match flexranVerifyGroupUlSlices qsort nRb slices update with
    | .error fault => .error fault
    | .ok true =>
      (applyUpdates UlSlice.id overwriteSliceConfigUl (fun id => { id }) slices update).map
        (PartResult.mk true)
    | .ok false => .ok ⟨false, slices⟩

/-- What a message does: the configuration afterwards, and which parts were verified. -/
structure MessageResult where
  config : SliceConfig
  dlVerified : Bool
  ulVerified : Bool

/-- `prepare_update_slice_config` on an existing configuration. -/
def prepareUpdateSliceConfig (qsort : Qsort) (nRb : Nat) (sc : SliceConfig) (sup : SliceMessage) :
    Except SliceFault MessageResult :=
  match prepareDl sc.dl sup.dl with
  | .error fault => .error fault
  | .ok dl =>
    match prepareUl qsort nRb sc.ul sup.ul with
    | .error fault => .error fault
    | .ok ul =>
      .ok
        { config :=
            { intrasliceShareActive := sup.intrasliceShareActive.getD sc.intrasliceShareActive
              intersliceShareActive := sup.intersliceShareActive.getD sc.intersliceShareActive
              dl := dl.slices
              ul := ul.slices }
          dlVerified := dl.verified
          ulVerified := ul.verified }

end OpenAir.Agent
