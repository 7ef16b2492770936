import SloPPC603.Completion.Model

/-!
# The rename slots

The registers, signals and clock edge of `ppc_rename.sv`, the rename outputs of the
completion queue (`wake_o`, `wake1_o`, `recovery_rename_o`), and the wiring that
`ppc_core.sv` puts between the two, as one clocked machine.

The three allocation ports, the three release ports and the two wakes are lists in
port order.  A map entry is a slot number beside its valid bit, as in the source.
The early read values, which only forward another wake value, are left out.
-/

namespace SloPPC603
namespace Rename

/-- `GPR_RENAME_DEPTH`: the rename slots. -/
def renameDepth : ℕ := 5

/-! ## Ports and registers -/

/-- An allocation port. -/
structure AllocPort where
  valid : Bool := false
  reg : BitVec 5 := 0
  producer : CompletionTag := default
  /-- The slot is written ready with `value` (an update form's EA). -/
  valueValid : Bool := false
  value : BitVec 32 := 0
  deriving DecidableEq, Repr

/-- A release port. -/
structure ReleasePort where
  valid : Bool := false
  reg : BitVec 5 := 0
  tag : BitVec 3 := 0
  producer : CompletionTag := default
  deriving DecidableEq, Repr

/-- `wake_packet_t` and its valid bit. -/
structure Wake where
  valid : Bool := false
  tag : BitVec 3 := 0
  producer : CompletionTag := default
  value : BitVec 32 := 0
  late : Bool := false
  deriving DecidableEq, Repr

/-- `rename_recovery_entry_t`. -/
structure RecoveryEntry where
  retained : Bool
  gprWrite : Bool
  gpr : BitVec 5
  tag : BitVec 3
  updateOwned : Bool
  updateGpr : BitVec 5
  updateTag : BitVec 3
  producer : CompletionTag
  deriving DecidableEq, Repr

/-- The inputs of one cycle. -/
structure Port where
  rstN : Bool := true
  alloc : List AllocPort := []
  wake : Wake := {}
  wake1 : Wake := {}
  wake1Offer : Bool := false
  release : List ReleasePort := []
  recovery : Bool := false
  /-- `recovery_rename_i`, by age. -/
  recoveryRename : ℕ → RecoveryEntry
  /-- The entries of age 0 and 1 retire on this edge (`recovery_remove_i`). -/
  recoveryRemove : ℕ → Bool

/-- The registers. -/
structure State where
  valid : BitVec 3 → Bool
  ready : BitVec 3 → Bool
  values : BitVec 3 → BitVec 32
  owners : BitVec 3 → CompletionTag
  mapValid : BitVec 5 → Bool
  mapTag : BitVec 5 → BitVec 3

/-- `operand_t`. -/
structure Operand where
  ready : Bool
  value : BitVec 32
  tag : BitVec 3
  producer : CompletionTag
  deriving DecidableEq, Repr

/-! ## Signals -/

section Signals

variable (s : State) (i : Port)

/-- The slots in order. -/
def slots : List (BitVec 3) := (List.range renameDepth).map (BitVec.ofNat 3)

/-- The free slots, lowest first: the three allocation tags are the first three. -/
def freeSlots : List (BitVec 3) := slots.filter fun t => !s.valid t

/-- `alloc_tag_o`, `alloc1_tag_o`, `alloc2_tag_o`. -/
def allocTag (k : ℕ) : BitVec 3 := (freeSlots s)[k]?.getD 0

/-- `alloc_ready_o`, `alloc1_ready_o`, `alloc2_ready_o`. -/
def allocReady (k : ℕ) : Bool := decide (k < (freeSlots s).length) && i.rstN && !i.recovery

/-- `wake_match`, `release_match`: the slot is held by the producer. -/
def owns (tag : BitVec 3) (producer : CompletionTag) : Bool :=
  decide (tag.toNat < renameDepth) && s.valid tag && s.owners tag = producer

/-- `wake_match`. -/
def wakeMatch (w : Wake) : Bool := w.valid && owns s w.tag w.producer

/-- The allocations that fire, each with its slot, in port order. -/
def fired : List (BitVec 3 × AllocPort) :=
  i.alloc.zipIdx.filterMap fun p =>
    if p.1.valid && allocReady s i p.2 then some (allocTag s p.2, p.1) else none

/-- The releases that match, in port order. -/
def released : List ReleasePort :=
  i.release.filter fun p => p.valid && owns s p.tag p.producer

/-- `read_operand`. -/
def readOperand (reg : BitVec 5) (arch : BitVec 32) : Operand :=
  if s.mapValid reg then
    let tag := s.mapTag reg
    let forwarded :=
      if !s.ready tag && i.wake1Offer && i.wake1.tag = tag && s.owners tag = i.wake1.producer then
        i.wake1.value
      else if !s.ready tag && s.owners tag = i.wake.producer then i.wake.value
      else if s.ready tag then s.values tag else 0
    { ready := s.ready tag || (wakeMatch s i.wake && !i.wake.late && i.wake.tag = tag) ||
        (wakeMatch s i.wake1 && !i.wake1.late && i.wake1.tag = tag)
      value := forwarded
      tag := tag
      producer := s.owners tag }
  else { ready := true, value := arch, tag := 0, producer := default }

/-! ## The rebuilt map -/

/-- The registers of the recovery walk: the slots and map entries of the entries
seen so far, with the age of each. -/
structure Rebuild where
  valid : BitVec 3 → Bool := fun _ => false
  ready : BitVec 3 → Bool := fun _ => false
  slotAge : BitVec 3 → ℕ := fun _ => 0
  mapValid : BitVec 5 → Bool := fun _ => false
  mapTag : BitVec 5 → BitVec 3 := fun _ => 0
  mapAge : BitVec 5 → ℕ := fun _ => 0

/-- What one owned slot puts into the walk. -/
def Rebuild.put (b : Rebuild) (reg : BitVec 5) (tag : BitVec 3) (ready : Bool) (age : ℕ) :
    Rebuild where
  valid := Function.update b.valid tag true
  ready := Function.update b.ready tag ready
  slotAge := Function.update b.slotAge tag age
  mapValid := Function.update b.mapValid reg true
  mapTag := Function.update b.mapTag reg tag
  mapAge := Function.update b.mapAge reg age

/-- `main_owned`. -/
def mainOwned (e : RecoveryEntry) : Bool := e.retained && e.gprWrite && owns s e.tag e.producer

/-- `update_owned`. -/
def updateOwned (e : RecoveryEntry) : Bool :=
  e.retained && e.updateOwned && s.valid e.updateTag && s.owners e.updateTag = e.producer

/-- The slot is ready, or a wake of this cycle makes it so. -/
def readyNow (tag : BitVec 3) (producer : CompletionTag) : Bool :=
  s.ready tag ||
    (wakeMatch s i.wake && i.wake.tag = tag && i.wake.producer = producer) ||
    (wakeMatch s i.wake1 && i.wake1.tag = tag && i.wake1.producer = producer)

/-- One entry of the walk: its destination, then its update base. -/
def rebuildEntry (b : Rebuild) (age : ℕ) : Rebuild :=
  let e := i.recoveryRename age
  let b := if mainOwned s e then b.put e.gpr e.tag (readyNow s i e.tag e.producer) age else b
  if updateOwned s e then b.put e.updateGpr e.updateTag true age else b

/-- The walk over the queue, oldest entry first. -/
def rebuild : Rebuild := (List.range cqDepth).foldl (rebuildEntry s i) {}

/-! ## The clock edge -/

/-- `ready` and `values` after a wake. -/
def applyWake (st : State) (w : Wake) : State :=
  if wakeMatch s w then
    { st with
      ready := Function.update st.ready w.tag true
      values := Function.update st.values w.tag w.value }
  else st

/-- The registers after the wakes. -/
def woken : State := applyWake s (applyWake s s i.wake) i.wake1

/-- The registers after the releases; they read the registers before the edge. -/
def freed (st : State) : State :=
  { st with
    valid := fun t => st.valid t && !(released s i).any (fun p => p.tag = t)
    ready := fun t => st.ready t && !(released s i).any (fun p => p.tag = t)
    mapValid := fun r => st.mapValid r &&
      !(released s i).any (fun p => p.reg = r && p.tag = s.mapTag r) }

/-- An allocation; the last write of the edge. -/
def State.allocate (st : State) (a : BitVec 3 × AllocPort) : State where
  valid := Function.update st.valid a.1 true
  ready := Function.update st.ready a.1 a.2.valueValid
  values := if a.2.valueValid then Function.update st.values a.1 a.2.value else st.values
  owners := Function.update st.owners a.1 a.2.producer
  mapValid := Function.update st.mapValid a.2.reg true
  mapTag := Function.update st.mapTag a.2.reg a.1

/-- The registers after a recovery: the walk less the entries that retire.  The
values go on taking wakes, and owners persist. -/
def recovered : State :=
  let b := rebuild s i
  let valid := fun t => b.valid t && !i.recoveryRemove (b.slotAge t)
  let mapValid := fun r => b.mapValid r && !i.recoveryRemove (b.mapAge r)
  { valid := valid
    ready := fun t => valid t && b.ready t
    values := (woken s i).values
    owners := s.owners
    mapValid := mapValid
    mapTag := fun r => if mapValid r then b.mapTag r else 0 }

/-- One clock edge. -/
def step : State :=
  if !i.rstN then
    { woken s i with
      valid := fun _ => false
      ready := fun _ => false
      mapValid := fun _ => false
      mapTag := fun _ => 0 }
  else if i.recovery then recovered s i
  else (fired s i).foldl State.allocate (freed s i (woken s i))

end Signals

/-! ## The wiring to the completion queue -/

/-- The inputs of one cycle of the two units. -/
structure Input where
  /-- The queue's inputs; the rename fields of its allocations are wired. -/
  cq : Completion.Input := {}
  /-- `wake.late`, `wake1.late`: the value comes over the bus later. -/
  late : Bool := false
  late1 : Bool := false
  /-- `result1_offer`: the second port holds a result, accepted or not. -/
  result1Offer : Bool := false

/-- The registers of the two units. -/
structure System where
  cq : Completion.State
  rename : State

section Wiring

variable (cfg : Completion.Config) (s : System) (i : Input)

/-- `update_alloc`: lane 0 is an update form of the load/store unit. -/
def updateAlloc : Bool := i.cq.allocValid && i.cq.alloc.updateOwned

/-- `update_alloc_store`. -/
def updateAllocStore : Bool := updateAlloc i && !i.cq.alloc.gprWrite

/-- `update_load`. -/
def updateLoad : Bool := i.cq.alloc.updateOwned && i.cq.alloc.gprWrite

/-- Lane 1 writes a GPR. -/
def d1Gpr : Bool := i.cq.alloc1Valid && i.cq.alloc1.gprWrite

/-- `rename0_dq1`. -/
def rename0Dq1 : Bool := d1Gpr i && !i.cq.alloc.gprWrite && !i.cq.alloc.updateOwned

/-- `rename1_dq1`. -/
def rename1Dq1 : Bool := d1Gpr i && (i.cq.alloc.gprWrite != i.cq.alloc.updateOwned)

/-- `rename2_dq1`. -/
def rename2Dq1 : Bool := d1Gpr i && updateLoad i

/-- `allocation`. -/
def allocation : RetirePacket :=
  { i.cq.alloc with
    tag := allocTag s.rename 0
    updateOwned := updateAlloc i
    updateTag :=
      if !updateAlloc i then 0
      else if updateAllocStore i then allocTag s.rename 0 else allocTag s.rename 1 }

/-- `allocation1`: no exception and no update form. -/
def allocation1 : RetirePacket :=
  { i.cq.alloc1 with
    illegal := false
    updateWrite := false
    updateOwned := false
    tag :=
      if updateLoad i then allocTag s.rename 2
      else if i.cq.alloc.gprWrite || i.cq.alloc.updateOwned then allocTag s.rename 1
      else allocTag s.rename 0 }

/-- The ports of the completion queue. -/
def cqPorts : Completion.Input :=
  { i.cq with
    alloc := allocation s i
    alloc1 := allocation1 s i }

/-- `recovery_rename_o`. -/
def recoveryRename (age : ℕ) : RecoveryEntry :=
  let slot := Completion.ringOffset s.cq.head age
  let p := s.cq.packets slot
  { retained := cfg.pivot && decide (age < Completion.retained cfg s.cq (cqPorts s i))
    gprWrite := p.gprWrite
    gpr := p.gpr
    tag := p.tag
    updateOwned := p.updateOwned
    updateGpr := p.updateGpr
    updateTag := p.updateTag
    producer := ⟨slot, s.cq.generations slot⟩ }

/-- `commit`. -/
def commit : Bool := Completion.retireFire cfg s.cq (cqPorts s i)

/-- `commit1`. -/
def commit1 : Bool := Completion.retire1Fire cfg s.cq (cqPorts s i)

/-- `retire_o`. -/
def retireO : RetirePacket := Completion.retire cfg s.cq (cqPorts s i)

/-- `retire1_o`. -/
def retire1O : RetirePacket := Completion.retire1 cfg s.cq (cqPorts s i)

/-- `wake_o`: a clean result for a register writer on the first port. -/
def wakeO : Wake where
  valid := Completion.finishAccept cfg s.cq (cqPorts s i) &&
    (s.cq.packets i.cq.result.producer.index).gprWrite && !i.cq.result.fault &&
    i.cq.result.dataFault = .ok
  tag := (s.cq.packets i.cq.result.producer.index).tag
  producer := i.cq.result.producer
  value := i.cq.result.value
  late := i.late

/-- `wake1_o`. -/
def wake1O : Wake where
  valid := Completion.finish1Accept cfg s.cq (cqPorts s i) &&
    (s.cq.packets i.cq.result1.producer.index).gprWrite
  tag := (s.cq.packets i.cq.result1.producer.index).tag
  producer := i.cq.result1.producer
  value := i.cq.result1.value
  late := i.late1

/-- The first allocation port: lane 0's destination, lane 1's when lane 0 takes no
slot, or an update store's base. -/
def port0 : AllocPort where
  valid := (i.cq.allocValid && i.cq.alloc.gprWrite) || rename0Dq1 i || updateAllocStore i
  reg :=
    if rename0Dq1 i then i.cq.alloc1.gpr
    else if updateAllocStore i then i.cq.alloc.updateGpr else i.cq.alloc.gpr
  producer :=
    if rename0Dq1 i then Completion.alloc1Tag s.cq (cqPorts s i) else Completion.allocTag s.cq
  valueValid := updateAllocStore i
  value := i.cq.alloc.updateValue

/-- The second: lane 1's destination, or an update load's base. -/
def port1 : AllocPort where
  valid := rename1Dq1 i || (updateAlloc i && !updateAllocStore i)
  reg := if updateLoad i then i.cq.alloc.updateGpr else i.cq.alloc1.gpr
  producer :=
    if updateLoad i then Completion.allocTag s.cq else Completion.alloc1Tag s.cq (cqPorts s i)
  valueValid := updateAlloc i && !updateAllocStore i
  value := i.cq.alloc.updateValue

/-- The third: lane 1's destination beside an update load. -/
def port2 : AllocPort where
  valid := rename2Dq1 i
  reg := i.cq.alloc1.gpr
  producer := Completion.alloc1Tag s.cq (cqPorts s i)

/-- The release ports: the retiring destinations, then the head's update base. -/
def releases : List ReleasePort :=
  let p := retireO cfg s i
  let q := retire1O cfg s i
  [⟨commit cfg s i && p.renameOwned, p.gpr, p.tag, Completion.retireTag s.cq⟩,
    ⟨commit1 cfg s i && q.renameOwned, q.gpr, q.tag, Completion.retire1Tag s.cq⟩,
    ⟨commit cfg s i && p.updateOwned, p.updateGpr, p.updateTag, Completion.retireTag s.cq⟩]

/-- The ports of the rename unit. -/
def renamePort : Port where
  rstN := i.cq.rstN
  alloc := [port0 s i, port1 s i, port2 s i]
  wake := wakeO cfg s i
  wake1 := wake1O cfg s i
  wake1Offer := i.result1Offer
  release := releases cfg s i
  recovery := Completion.redirectAccepted cfg s.cq (cqPorts s i)
  recoveryRename := recoveryRename cfg s i
  recoveryRemove := fun age =>
    (age = 0 && commit cfg s i) || (age = 1 && commit1 cfg s i)

/-- One clock edge of the two units. -/
def System.step : System where
  cq := Completion.step cfg s.cq (cqPorts s i)
  rename := Rename.step s.rename (renamePort cfg s i)

/-- A read in the current cycle: of register `reg`, whose architectural value is
`arch`. -/
def read (reg : BitVec 5) (arch : BitVec 32) : Operand :=
  readOperand s.rename (renamePort cfg s i) reg arch

end Wiring

/-- The two units as a clocked machine, started by an edge in reset. -/
def machine (cfg : Completion.Config) : Clocked.Machine System Input where
  Initial := fun s => ∃ s₀ i, i.cq.rstN = false ∧ s = System.step cfg s₀ i
  step := System.step cfg

end Rename
end SloPPC603
