import SloPPC603.Pkg
import SloPPC603.Clocked.Machine

/-!
# The completion queue

The registers, combinational signals and clock edge of `ppc_completion.sv`.
Entries are allocated in program order, finish by tag, retire from the head
(alone or with the entry behind it) and are removed by an accepted recovery.

Indexes and counts are natural numbers reduced to the source's widths: three
bits for a slot or a count, four for the widened sums of the ring arithmetic,
eight for a generation.  A register array is a function of the slot; the source
reads it at a slot of five or more only under a guard that rejects such a slot.
-/

namespace SloPPC603
namespace Completion

/-! ## Parameters, inputs and registers -/

/-- The module's parameters. -/
structure Config where
  enableTlbMissExceptions : Bool
  enablePairRetire : Bool
  enablePivotRecovery : Bool
  enableBranchPivot : Bool
  deriving DecidableEq, Repr

/-- `PIVOT`: some recovery may keep part of the queue. -/
def Config.pivot (cfg : Config) : Bool := cfg.enablePivotRecovery || cfg.enableBranchPivot

/-- The inputs of one cycle. -/
structure Input where
  rstN : Bool := true
  allocValid : Bool := false
  alloc : RetirePacket := default
  allocFinished : Bool := false
  alloc1Valid : Bool := false
  alloc1AtTail : Bool := false
  alloc1 : RetirePacket := default
  alloc1Finished : Bool := false
  resultValid : Bool := false
  result : ResultPacket := default
  resultRetire : Bool := false
  result1Valid : Bool := false
  result1Retire : Bool := false
  result1 : ResultPacket := default
  result2Valid : Bool := false
  result2 : ResultPacket := default
  resultLsuValid : Bool := false
  retireReady : Bool := false
  retireHold : Bool := false
  retire1Ready : Bool := false
  redirectValid : Bool := false
  redirectAll : Bool := false
  redirectKeepPivot : Bool := false
  redirectPivot : CompletionTag := default

/-- The registers. -/
structure State where
  packets : ℕ → RetirePacket
  generations : ℕ → ℕ
  active : ℕ → Bool
  done : ℕ → Bool
  head : ℕ
  tail : ℕ
  head1 : ℕ
  tail1 : ℕ
  count : ℕ

/-! ## Packet functions -/

/-- `expand_cr_mask`: one mask bit for each field, widened to its four bits. -/
def expandCrMask (m : BitVec 8) : BitVec 32 :=
  let nibble (k : ℕ) : BitVec 4 := if m.getLsbD k then 0xf#4 else 0x0#4
  nibble 7 ++ nibble 6 ++ nibble 5 ++ nibble 4 ++ nibble 3 ++ nibble 2 ++ nibble 1 ++ nibble 0

/-- The summary-overflow, overflow and carry bits in their XER places. -/
def xerBits (so ov ca : Bool) : BitVec 32 :=
  BitVec.ofBool so ++ BitVec.ofBool ov ++ BitVec.ofBool ca ++ 0#29

/-- The CR field's delta when the entry records one. -/
def crFieldDelta (p : RetirePacket) (r : ResultPacket) : BitVec 32 :=
  if p.writeCrField then (r.cr0 ++ 0#28) >>> (p.crField.toNat * 4) else 0

/-- `finished`: an entry after a fault-free finish on the first port. -/
def finished (p : RetirePacket) (r : ResultPacket) : RetirePacket :=
  { p with
    value := r.value
    updateValue := if p.updateWrite then r.updateValue else 0
    crDelta :=
      if p.writeCrFields then r.value &&& expandCrMask p.crMask
      else if p.writeCrBit then
        (if r.value.getLsbD 0 then 0x80000000#32 >>> p.crBit.toNat else 0)
      else crFieldDelta p r
    xerDelta :=
      if p.writeXer then r.value &&& 0xe000007f#32
      else xerBits (p.writeOvSo && r.so) (p.writeOvSo && r.ov) (p.writeCa && r.ca) }

/-- `finished1`: the same on the second port, which records fewer results. -/
def finished1 (p : RetirePacket) (r : ResultPacket) : RetirePacket :=
  { p with
    value := r.value
    updateValue := 0
    crDelta := crFieldDelta p r
    xerDelta := xerBits (p.writeOvSo && r.so) (p.writeOvSo && r.ov) (p.writeCa && r.ca) }

/-- `faulted`: an entry after a faulting finish; it retires a cycle later. -/
def faulted (p : RetirePacket) (r : ResultPacket) : RetirePacket :=
  { p with
    value := 0
    updateValue := 0
    illegal := r.fault
    dataFault :=
      if r.fault && r.dataFault ≠ .pageMiss && r.dataFault ≠ .pageChanged then .ok
      else r.dataFault
    pageMiss :=
      if r.dataFault = .pageMiss ∨ r.dataFault = .pageChanged then r.pageMiss
      else if p.fetchFault = .pageMiss ∧ r.fault then p.pageMiss else default
    gprWrite := false
    updateWrite := false
    updateGpr := if p.updateOwned then p.updateGpr else 0
    -- A typed fault still returns the flag token it owns.
    needsFlags := !r.fault && p.needsFlags
    writeXer := false
    writeCa := false
    writeOvSo := false
    writeCrField := false
    crField := 0
    writeCrFields := false
    crMask := 0
    writeCrBit := false
    crBit := 0
    crDelta := 0
    xerDelta := 0 }

/-- `merge_finish`: an entry with the fields a clean finish rewrites taken from
`n`. -/
def mergeFinish (own n : RetirePacket) : RetirePacket :=
  { own with
    value := n.value
    updateValue := n.updateValue
    crDelta := n.crDelta
    xerDelta := n.xerDelta }

/-- `merge_fault`: the same for a faulting finish. -/
def mergeFault (own n : RetirePacket) : RetirePacket :=
  { mergeFinish own n with
    illegal := n.illegal
    dataFault := n.dataFault
    pageMiss := n.pageMiss
    gprWrite := n.gprWrite
    updateWrite := n.updateWrite
    updateGpr := n.updateGpr
    needsFlags := n.needsFlags
    writeXer := n.writeXer
    writeCa := n.writeCa
    writeOvSo := n.writeOvSo
    writeCrField := n.writeCrField
    crField := n.crField
    writeCrFields := n.writeCrFields
    crMask := n.crMask
    writeCrBit := n.writeCrBit
    crBit := n.crBit }

/-- `is_fault`: the result ends its entry in an exception or a halt. -/
def isFault (cfg : Config) (r : ResultPacket) : Bool :=
  r.fault || r.dataFault = .dsiProtection || r.dataFault = .dsiExternal ||
    r.dataFault = .dsiDirectStore || r.dataFault = .alignmentDirectStore ||
    r.dataFault = .machineCheck ||
    (cfg.enableTlbMissExceptions && (r.dataFault = .pageMiss || r.dataFault = .pageChanged))

/-- `normalize`: an entry as it is stored at allocation. -/
def normalize (a : RetirePacket) : RetirePacket :=
  { a with
    alignmentException := a.alignmentException && !a.illegal
    dataFault := .ok
    gprWrite := a.gprWrite && !a.illegal
    renameOwned := a.gprWrite && !a.illegal
    -- A branch allocates finished with its next PC.
    value := if a.branch then a.value else 0
    updateWrite := a.updateWrite && !a.illegal
    updateGpr := if a.updateWrite && !a.illegal then a.updateGpr else 0
    updateValue := if a.updateOwned then a.updateValue else 0
    needsFlags := !a.illegal &&
      (a.needsFlags || a.writeXer || a.writeCa || a.writeOvSo || a.writeCrField ||
        a.writeCrFields || a.writeCrBit)
    writeXer := a.writeXer && !a.illegal
    writeCa := a.writeCa && !a.illegal
    writeOvSo := a.writeOvSo && !a.illegal
    writeCrField := a.writeCrField && !a.illegal
    crField := if a.illegal then 0 else a.crField
    writeCrFields := a.writeCrFields && !a.illegal
    crMask := if a.writeCrFields && !a.illegal then a.crMask else 0
    writeCrBit := a.writeCrBit && !a.illegal
    crBit := if a.writeCrBit && !a.illegal then a.crBit else 0
    crDelta := 0
    xerDelta := 0 }

/-- `pair_ok`: CQ[1] may retire beside the head. -/
def pairOk (older younger : RetirePacket) : Bool :=
  younger.cq1Ok && !younger.illegal && !younger.alignmentException &&
    younger.dataFault = .ok && younger.fetchFault = .ok &&
    decide (older.gprWrite.toNat + older.updateWrite.toNat + younger.gprWrite.toNat +
      younger.updateWrite.toNat ≤ 2) &&
    !(older.needsFlags && younger.needsFlags) && !(older.fprWrite && younger.fprWrite) &&
    !(older.branch && younger.branch)

/-! ## Ring arithmetic -/

/-- `next_index`. -/
def nextIndex (index : ℕ) : ℕ := if index = cqDepth - 1 then 0 else (index + 1) % 8

/-- `ring_offset`: a widened add and one subtraction replace the modulo. -/
def ringOffset (index offset : ℕ) : ℕ :=
  let sum := (index + offset) % 16
  (if cqDepth ≤ sum then sum - cqDepth else sum) % 8

/-- `ring_age`: the distance from `head` to `slot`. -/
def ringAge (slot head : ℕ) : ℕ :=
  let diff := (slot + 16 - head) % 16
  (if slot < head then (diff + cqDepth) % 16 else diff) % 8

/-! ## Redirect selection -/

section Signals

variable (cfg : Config) (s : State) (i : Input)

/-- `pivot_owner_match`: the slot is held under the pivot's generation. -/
def pivotOwnerMatch (slot : ℕ) : Bool :=
  s.active slot && i.redirectPivot.generation = s.generations slot

/-- `pivot_age`. -/
def pivotAge : ℕ := ringAge i.redirectPivot.index s.head

/-- `pivot_hit`: the pivot names an entry of the queue. -/
def pivotHit : Bool :=
  cfg.pivot && !i.redirectAll && decide (i.redirectPivot.index < cqDepth) &&
    decide (pivotAge s i < s.count) && pivotOwnerMatch s i i.redirectPivot.index

/-- `redirect_found`. -/
def redirectFound : Bool :=
  if cfg.pivot then i.redirectAll || pivotHit cfg s i else true

/-- `retained` before the build without pivots overrides it. -/
def pivotRetained : ℕ :=
  if i.redirectAll then 0
  else if pivotHit cfg s i then (pivotAge s i + i.redirectKeepPivot.toNat) % 8
  else s.count

/-- `retained`: the entries a recovery leaves in the queue. -/
def retained : ℕ := if cfg.pivot then pivotRetained cfg s i else 0

/-- `redirect_candidate_kill`. -/
def redirectCandidateKill (slot : ℕ) : Bool :=
  if cfg.pivot then
    decide (ringAge slot s.head < s.count) && decide (retained cfg s i ≤ ringAge slot s.head)
  else s.active slot

/-- `kill_head`: the recovery would remove the head. -/
def killHead : Bool :=
  s.count ≠ 0 &&
    (i.redirectAll ||
      (cfg.pivot && !i.redirectKeepPivot && i.redirectPivot.index = s.head &&
        s.active s.head && i.redirectPivot.generation = s.generations s.head))

/-- `kill_head1`: the recovery would remove CQ[1]. -/
def killHead1 : Bool := decide (1 < s.count) && decide (pivotRetained cfg s i ≤ 1)

/-- `redirect_candidate_tail`. -/
def redirectCandidateTail : ℕ := ringOffset s.head (retained cfg s i)

/-- `retire1_settled`: the head and CQ[1] both finished earlier and may pair. -/
def retire1Settled : Bool :=
  cfg.enablePairRetire && i.rstN && decide (1 < s.count) && s.active s.head &&
    s.done s.head && s.active s.head1 && s.done s.head1 &&
    pairOk (s.packets s.head) (s.packets s.head1)

/-- An offered finished head is irrevocable. -/
def headIrrevocable : Bool :=
  cfg.enablePivotRecovery && s.count ≠ 0 && decide (s.head < cqDepth) && !i.retireHold &&
    s.done s.head && killHead cfg s i

/-- So is an offered CQ[1] that may retire. -/
def head1Irrevocable : Bool :=
  cfg.enablePivotRecovery && retire1Settled cfg s i && i.retire1Ready && !i.retireHold &&
    killHead1 cfg s i

/-- `redirect_accepted_o`. -/
def redirectAccepted : Bool :=
  i.redirectValid && redirectFound cfg s i && !headIrrevocable cfg s i &&
    !head1Irrevocable cfg s i

/-- `redirect_kill_o`. -/
def redirectKill (slot : ℕ) : Bool :=
  redirectAccepted cfg s i && redirectCandidateKill cfg s i slot

/-! ## Finish ports -/

/-- A result names an unfinished entry that the cycle's recovery leaves alone:
the qualification all three finish ports make. -/
def finishOwner (valid : Bool) (r : ResultPacket) : Bool :=
  valid && decide (r.producer.index < cqDepth) && s.active r.producer.index &&
    !s.done r.producer.index && s.generations r.producer.index = r.producer.generation &&
    !redirectKill cfg s i r.producer.index

/-- `finish_accept`. -/
def finishAccept : Bool := finishOwner cfg s i i.resultValid i.result

/-- `finish1_accept`. -/
def finish1Accept : Bool := finishOwner cfg s i i.result1Valid i.result1

/-- `finish2_accept`. -/
def finish2Accept : Bool := finishOwner cfg s i i.result2Valid i.result2

/-- `result_fault`. -/
def resultFault : Bool := isFault cfg i.result

/-- `result2_fault`. -/
def result2Fault : Bool := isFault cfg i.result2

/-! ## Retirement -/

/-- `retire_settled_o`: the head finished on an earlier cycle. -/
def retireSettled : Bool := i.rstN && s.count ≠ 0 && s.active s.head && s.done s.head

/-- `pending_head`. -/
def pendingHead : Bool := s.count ≠ 0 && s.active s.head && !s.done s.head

/-- `pending_head1`. -/
def pendingHead1 : Bool := decide (1 < s.count) && s.active s.head1 && !s.done s.head1

/-- `pivot_at_head`. -/
def pivotAtHead : Bool :=
  s.count ≠ 0 && s.active s.head && i.redirectPivot.index = s.head &&
    i.redirectPivot.generation = s.generations s.head

/-- `pivot_at_head1`. -/
def pivotAtHead1 : Bool :=
  decide (1 < s.count) && s.active s.head1 && i.redirectPivot.index = s.head1 &&
    i.redirectPivot.generation = s.generations s.head1

/-- `pending_head_kill`. -/
def pendingHeadKill : Bool :=
  i.redirectValid &&
    (!cfg.pivot || i.redirectAll || (pivotAtHead s i && !i.redirectKeepPivot))

/-- `head_recovery_protected`. -/
def headRecoveryProtected : Bool :=
  cfg.enablePivotRecovery && s.count ≠ 0 && decide (s.head < cqDepth) && !i.retireHold &&
    s.done s.head

/-- `pending_head1_kill`. -/
def pendingHead1Kill : Bool :=
  i.redirectValid &&
    (!cfg.pivot || i.redirectAll || pivotAtHead s i ||
      (pivotAtHead1 s i && !i.redirectKeepPivot)) &&
    !(headRecoveryProtected cfg s i && pendingHeadKill cfg s i)

/-- `head_result_match`: the result on a port names the pending head. -/
def headResultMatch (r : ResultPacket) : Bool :=
  pendingHead s && r.producer.index = s.head && r.producer.generation = s.generations s.head

/-- `head1_result_match`. -/
def head1ResultMatch (r : ResultPacket) : Bool :=
  pendingHead1 s && r.producer.index = s.head1 &&
    r.producer.generation = s.generations s.head1

/-- `head_now0`: the head finishes cleanly on the first port this cycle. -/
def headNow0 : Bool :=
  i.resultValid && i.resultRetire && !resultFault cfg i && headResultMatch s i.result &&
    !pendingHeadKill cfg s i

/-- `head_now1`. -/
def headNow1 : Bool :=
  i.result1Valid && i.result1Retire && headResultMatch s i.result1 && !pendingHeadKill cfg s i

/-- `head_now2`. -/
def headNow2 : Bool :=
  i.result2Valid && !result2Fault cfg i && headResultMatch s i.result2 &&
    !pendingHeadKill cfg s i

/-- `head1_now0`. -/
def head1Now0 : Bool :=
  i.resultValid && i.resultRetire && !resultFault cfg i && head1ResultMatch s i.result &&
    !pendingHead1Kill cfg s i

/-- `head1_now1`. -/
def head1Now1 : Bool :=
  i.result1Valid && i.result1Retire && head1ResultMatch s i.result1 &&
    !pendingHead1Kill cfg s i

/-- `head1_now2`. -/
def head1Now2 : Bool :=
  i.result2Valid && !result2Fault cfg i && head1ResultMatch s i.result2 &&
    !pendingHead1Kill cfg s i

/-- `retire_valid_o`. -/
def retireValid : Bool :=
  retireSettled s i ||
    (i.rstN && s.count ≠ 0 && s.active s.head &&
      (headNow0 cfg s i || headNow1 cfg s i || headNow2 cfg s i))

/-- `retire_mem_valid_o`: `retire_valid_o` for a head that finished earlier or
finishes on a load/store unit result. -/
def retireMemValid : Bool :=
  retireSettled s i ||
    (i.rstN && s.count ≠ 0 && s.active s.head &&
      ((i.resultLsuValid && headResultMatch s i.result && !pendingHeadKill cfg s i &&
        !resultFault cfg i) || headNow2 cfg s i))

/-- `retire_o`. -/
def retire : RetirePacket :=
  if retireValid cfg s i then
    if headNow0 cfg s i then finished (s.packets s.head) i.result
    else if headNow1 cfg s i then finished1 (s.packets s.head) i.result1
    else if headNow2 cfg s i then finished (s.packets s.head) default
    else s.packets s.head
  else default

/-- `retire_tag_o`. -/
def retireTag : CompletionTag :=
  if s.count ≠ 0 ∧ s.active s.head then ⟨s.head, s.generations s.head⟩ else default

/-- `retire1_valid_o`. -/
def retire1Valid : Bool :=
  cfg.enablePairRetire && retireValid cfg s i && decide (1 < s.count) && s.active s.head1 &&
    ((s.done s.head1 && !redirectKill cfg s i s.head1) || head1Now0 cfg s i ||
      head1Now1 cfg s i || head1Now2 cfg s i) &&
    pairOk (s.packets s.head) (s.packets s.head1)

/-- `retire1_o`. -/
def retire1 : RetirePacket :=
  if retire1Valid cfg s i then
    if head1Now0 cfg s i then finished (s.packets s.head1) i.result
    else if head1Now1 cfg s i then finished1 (s.packets s.head1) i.result1
    else if head1Now2 cfg s i then finished (s.packets s.head1) default
    else s.packets s.head1
  else default

/-- `retire1_tag_o`. -/
def retire1Tag : CompletionTag :=
  if 1 < s.count ∧ s.active s.head1 then ⟨s.head1, s.generations s.head1⟩ else default

/-! ## Handshakes -/

/-- `alloc_ready_o`. -/
def allocReady : Bool := !redirectAccepted cfg s i && decide (s.count < cqDepth)

/-- `alloc1_ready_o`. -/
def alloc1Ready : Bool :=
  !redirectAccepted cfg s i &&
    decide (s.count < if i.alloc1AtTail then cqDepth else cqDepth - 1)

/-- `alloc_fire`. -/
def allocFire : Bool := i.allocValid && allocReady cfg s i

/-- `alloc1_fire`. -/
def alloc1Fire : Bool :=
  (allocFire cfg s i || i.alloc1AtTail) && i.alloc1Valid && alloc1Ready cfg s i

/-- `retire_fire`. -/
def retireFire : Bool := retireValid cfg s i && i.retireReady

/-- `retire1_fire`. -/
def retire1Fire : Bool := retireFire cfg s i && retire1Valid cfg s i && i.retire1Ready

/-- `alloc_tag_o`. -/
def allocTag : CompletionTag := ⟨s.tail, (s.generations s.tail + 1) % 256⟩

/-- `alloc1_tag_o`. -/
def alloc1Tag : CompletionTag :=
  let index := if i.alloc1AtTail then s.tail else s.tail1
  ⟨index, (s.generations index + 1) % 256⟩

/-! ## The clock edge -/

/-- The registers while `rst_ni` is low. -/
def resetState : State where
  packets := fun _ => default
  generations := fun _ => 0
  active := fun _ => false
  done := fun _ => false
  head := 0
  tail := 0
  head1 := 1
  tail1 := 1
  count := 0

/-- `active_q` and `done_q` at a slot, after the retiring entries' bits clear. -/
def afterRetire (bits : ℕ → Bool) (slot : ℕ) : Bool :=
  bits slot && !(retireFire cfg s i && slot = s.head) &&
    !(retire1Fire cfg s i && slot = s.head1)

/-- The next `active_q`. -/
def nextActive (slot : ℕ) : Bool :=
  if redirectAccepted cfg s i then
    if redirectKill cfg s i slot then false else afterRetire cfg s i s.active slot
  else if alloc1Fire cfg s i ∧ slot = (alloc1Tag s i).index then true
  else if allocFire cfg s i ∧ slot = s.tail then true
  else afterRetire cfg s i s.active slot

/-- The next `done_q`; a finish is the last write of the edge. -/
def nextDone (slot : ℕ) : Bool :=
  if finishAccept cfg s i ∧ slot = i.result.producer.index ∨
      finish1Accept cfg s i ∧ slot = i.result1.producer.index ∨
      finish2Accept cfg s i ∧ slot = i.result2.producer.index then true
  else if redirectAccepted cfg s i then
    if redirectKill cfg s i slot then false else afterRetire cfg s i s.done slot
  else if alloc1Fire cfg s i ∧ slot = (alloc1Tag s i).index then
    i.alloc1.illegal || i.alloc1Finished
  else if allocFire cfg s i ∧ slot = s.tail then i.alloc.illegal || i.allocFinished
  else afterRetire cfg s i s.done slot

/-- The next `generations_q`. -/
def nextGenerations (slot : ℕ) : ℕ :=
  if alloc1Fire cfg s i ∧ slot = (alloc1Tag s i).index then (alloc1Tag s i).generation
  else if allocFire cfg s i ∧ slot = s.tail then (allocTag s).generation
  else s.generations slot

/-- What a finish on one port leaves of an entry. -/
def finishInto (fault : Bool) (own : RetirePacket) (clean bad : RetirePacket) : RetirePacket :=
  if fault then mergeFault own bad else mergeFinish own clean

/-- The next `packets_q`.  The third port's write is the last of the edge, then
the second's, the first's, lane 1's allocation and lane 0's. -/
def nextPackets (slot : ℕ) : RetirePacket :=
  if finish2Accept cfg s i ∧ i.result2.producer.index = slot then
    finishInto (result2Fault cfg i) (s.packets slot) (finished (s.packets slot) default)
      (faulted (s.packets slot) i.result2)
  else if finish1Accept cfg s i ∧ i.result1.producer.index = slot then
    mergeFinish (s.packets slot) (finished1 (s.packets slot) i.result1)
  else if finishAccept cfg s i ∧ i.result.producer.index = slot then
    finishInto (resultFault cfg i) (s.packets slot) (finished (s.packets slot) i.result)
      (faulted (s.packets slot) i.result)
  else if alloc1Fire cfg s i ∧ slot = (alloc1Tag s i).index then normalize i.alloc1
  else if allocFire cfg s i ∧ slot = s.tail then normalize i.alloc
  else s.packets slot

/-- The next `head_q`. -/
def nextHead : ℕ :=
  if retire1Fire cfg s i then nextIndex s.head1
  else if retireFire cfg s i then s.head1 else s.head

/-- The next `head1_q`. -/
def nextHead1 : ℕ :=
  if retire1Fire cfg s i then nextIndex (nextIndex s.head1)
  else if retireFire cfg s i then nextIndex s.head1 else s.head1

/-- The next `tail_q`. -/
def nextTail : ℕ :=
  if redirectAccepted cfg s i then redirectCandidateTail cfg s i
  else if alloc1Fire cfg s i && !i.alloc1AtTail then nextIndex s.tail1
  else if allocFire cfg s i || alloc1Fire cfg s i then s.tail1 else s.tail

/-- The next `tail1_q`. -/
def nextTail1 : ℕ :=
  if redirectAccepted cfg s i then nextIndex (redirectCandidateTail cfg s i)
  else if alloc1Fire cfg s i && !i.alloc1AtTail then nextIndex (nextIndex s.tail1)
  else if allocFire cfg s i || alloc1Fire cfg s i then nextIndex s.tail1 else s.tail1

/-- The next `count_q`, in three bits. -/
def nextCount : ℕ :=
  if redirectAccepted cfg s i then
    (retained cfg s i + 16 - (retireFire cfg s i).toNat - (retire1Fire cfg s i).toNat) % 8
  else
    (s.count + (allocFire cfg s i).toNat + (alloc1Fire cfg s i).toNat + 16 -
      (retireFire cfg s i).toNat - (retire1Fire cfg s i).toNat) % 8

/-- One clock edge. -/
def step : State :=
  if i.rstN then
    { packets := nextPackets cfg s i
      generations := nextGenerations cfg s i
      active := nextActive cfg s i
      done := nextDone cfg s i
      head := nextHead cfg s i
      tail := nextTail cfg s i
      head1 := nextHead1 cfg s i
      tail1 := nextTail1 cfg s i
      count := nextCount cfg s i }
  else resetState

variable {cfg s i}

theorem step_head (h : i.rstN = true) : (step cfg s i).head = nextHead cfg s i := by
  rw [step, if_pos h]

theorem step_count (h : i.rstN = true) : (step cfg s i).count = nextCount cfg s i := by
  rw [step, if_pos h]

theorem step_generations (h : i.rstN = true) :
    (step cfg s i).generations = nextGenerations cfg s i := by
  rw [step, if_pos h]

end Signals

/-- The completion queue as a clocked machine, started by an edge in reset. -/
def machine (cfg : Config) : Clocked.Machine State Input where
  Initial := fun s => ∃ s₀ i, i.rstN = false ∧ s = step cfg s₀ i
  step := step cfg

/-- An edge in reset starts the machine. -/
theorem initial_reset (cfg : Config) : (machine cfg).Initial resetState :=
  ⟨resetState, { rstN := false }, rfl, rfl⟩

end Completion
end SloPPC603
