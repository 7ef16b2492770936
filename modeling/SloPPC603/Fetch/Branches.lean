import SloPPC603.Decode.Decoder
import SloPPC603.Fetch.Model

/-!
# Branches at fetch and at dispatch

The branch predicates that `ppc_core.sv` computes from the raw words of the fetch-to-decode
registers, and the branch class, decision and target of the operation the decoder makes of
the same word.

* `Fetched`, `pushRemove0`, `foldPredict0` — the words leaving those registers.
* `branchClass`, `buTaken`, `buTarget` — the branch unit at dispatch.
* `Agrees`, `agrees_iff` — which words the two handle alike.
-/

namespace SloPPC603
namespace Fetch
namespace Branches

open Decode (Uop decode decodeIllegal decodeForm decode19 aligns legal undecoded rD rA disp24 disp14)
open Flags (DecodeConfig SpecialOp primary xo bits bit selector validBo)

/-! ## Predicates over a fetched word -/

section Predicates

variable (p : Packet)

/-- The prediction of `folds`: resolved where the CTR alone or a final CR decides. -/
def predicts (crFinal crBit ctrOne : Bool) : Bool :=
  if bit p.insn 25 && !bit p.insn 23 then ctrOne == bit p.insn 22
  else if !bit p.insn 25 && crFinal then
    (crBit == bit p.insn 24) && (bit p.insn 23 || (ctrOne == bit p.insn 22))
  else (bit p.insn 25 && bit p.insn 23) || (bit p.insn 15 ^^ bit p.insn 21)

/-- `bo_ok`. -/
def boOk : Bool := bits p.insn 21 5 ≤ 20 && bits p.insn 22 3 ≠ 3 && bits p.insn 22 3 ≠ 7

/-- `xl_ok`. -/
def xlOk : Bool :=
  bits p.insn 11 5 = 0 && boOk p && (xo p.insn = 16 || (xo p.insn = 528 && bit p.insn 23))

/-- `folds`: the word redirects fetch on the edge after it enters the queue. -/
def folds (trace lrOk ctrOk crFinal crBit ctrOne : Bool) : Bool :=
  !trace && p.fault = .ok &&
    (primary p.insn = 18 || (primary p.insn = 16 && predicts p crFinal crBit ctrOne) ||
      (primary p.insn = 19 && xlOk p && predicts p crFinal crBit ctrOne &&
        if bit p.insn 10 then ctrOk else lrOk))

/-- `waits`: the word stops fetching. -/
def waits (lrOk lkOk ctrOk ctrDecOk : Bool) : Bool :=
  let bc := primary p.insn = 16
  let bclr := primary p.insn = 19 && xo p.insn = 16
  let bcctr := primary p.insn = 19 && xo p.insn = 528
  p.fault = .ok &&
    ((bclr && !lrOk) || (bcctr && !ctrOk) ||
      ((bc || bclr || bcctr) && ((!bit p.insn 23 && !ctrDecOk) || (bit p.insn 0 && !lkOk))))

/-- `cr_branch`: the word tests a CR bit that its CTR test leaves open. -/
def crBranch (ctrKnown ctrOne : Bool) : Bool :=
  p.fault = .ok && !bit p.insn 25 &&
    !(!bit p.insn 23 && ctrKnown && (ctrOne ^^ bit p.insn 22)) &&
    (primary p.insn = 16 || (primary p.insn = 19 && (xo p.insn = 16 || xo p.insn = 528)))

/-- `bc_not_taken`. -/
def bcNotTaken : Bool := primary p.insn = 16 && !folds p false true true false false false

/-- `plain_b`. -/
def plainB : Bool := p.fault = .ok && primary p.insn = 18 && !bit p.insn 0

/-- `is_bl`. -/
def isBl : Bool := p.fault = .ok && primary p.insn = 18 && bit p.insn 0

/-- `resolved`, its upper bit: the word leaves the stream with its decision made. -/
def resolved (lrRdy crFin : Bool) : Bool :=
  let bc := primary p.insn = 16
  let bclr := primary p.insn = 19 && xo p.insn = 16 && bits p.insn 11 5 = 0 && lrRdy
  p.fault = .ok && (bc || bclr) && !bit p.insn 0 && bit p.insn 23 && (bit p.insn 25 || crFin)

/-- `resolved`, its lower bit: that decision. -/
def resolvedTaken (crBit : Bool) : Bool := bit p.insn 25 || (crBit == bit p.insn 24)

/-- `folded_target`. -/
def foldedTarget (lrTarget ctrTarget : BitVec 30) : BitVec 32 :=
  if primary p.insn = 19 then (if bit p.insn 10 then ctrTarget else lrTarget) ++ 0#2
  else (if bit p.insn 1 then 0 else p.pc) + if primary p.insn = 18 then disp24 p.insn else disp14 p.insn

/-- `iabr_check`. -/
def iabrCheck (enableDebugExceptions : Bool) (bp : BitVec 32) : Packet :=
  if enableDebugExceptions && bit bp 1 && p.fault = .ok && p.pc.extractLsb' 2 30 = bp.extractLsb' 2 30
  then { p with fault := .iabr } else p

end Predicates

/-- `fetch_lr_ctr_projection`: writes LR, writes CTR, links. -/
def lrCtrProjection (insn : BitVec 32) : Bool × Bool × Bool :=
  let directB := primary insn = 18
  let condB := primary insn = 16 && validBo (bits insn 21 5)
  let indirectB := primary insn = 19 && bits insn 11 5 = 0 && validBo (bits insn 21 5) &&
    (xo insn = 16 || (xo insn = 528 && bit insn 23))
  let mtspr := primary insn = 31 && xo insn = 467 && !bit insn 0
  let link := (directB || condB || indirectB) && bit insn 0
  (link || (mtspr && selector insn = 8),
    ((condB || indirectB) && !bit insn 23) || (mtspr && selector insn = 9), link)

/-! ## The branch unit -/

/-- `branch_class`, its first bit: the operation is a branch of the branch unit. -/
def branchClass (u : Uop) (fault : FetchFault) : Bool :=
  fault = .ok && !u.illegal && u.specialOp.branch

/-- `bu_ctr_ok`. -/
def buCtrOk (u : Uop) (ctr : BitVec 32) : Bool :=
  u.branchBo.getLsbD 2 || (ctr ≠ 1 ^^ u.branchBo.getLsbD 1)

/-- `bu_cond_ok`. -/
def buCondOk (u : Uop) (cr : BitVec 32) : Bool :=
  u.branchBo.getLsbD 4 || (cr.getLsbD (31 - u.branchBi.toNat) == u.branchBo.getLsbD 3)

/-- `bu_reads_cr`. -/
def buReadsCr (u : Uop) : Bool := u.specialOp ≠ .b && !u.branchBo.getLsbD 4

/-- `bu_pred`. -/
def buPred (p : Packet) : Bool := folds p false true true false false false

/-- `bu_taken`: a branch whose CR is outstanding takes its prediction. -/
def buTaken (spec : Bool) (p : Packet) (u : Uop) (cr ctr : BitVec 32) : Bool :=
  if spec then buPred p else u.specialOp = .b || (buCtrOk u ctr && buCondOk u cr)

/-- `bu_target`. -/
def buTarget (u : Uop) (pc : BitVec 32) (lr ctr : BitVec 30) : BitVec 32 :=
  match u.specialOp with
  | .bclr => lr ++ 0#2
  | .bcctr => ctr ++ 0#2
  | _ => if u.branchAa then u.branchDisp else pc + u.branchDisp

/-! ## The words leaving the fetch registers -/

/-- The core's parameters. -/
structure Cfg where
  fetchWidth : ℕ := 2
  branchRemoval : Bool := true
  /-- `BS_ANCHOR`. -/
  branchAnchor : Bool := true
  enableBranchSpec : Bool := true
  enableDebugExceptions : Bool := true

/-- The signals the front end decides from in one cycle. -/
structure FrontEnd where
  traceMode : Bool := false
  fdPacket : Packet
  fd1Insn : BitVec 32 := 0
  fdValid : Bool := false
  fd1Valid : Bool := false
  iabr : BitVec 32 := 0
  foldQ : Bool := false
  fstopQ : Bool := false
  iqPushReady : Bool := true
  iqPush2Ready : Bool := true
  /-- No LR writer is queued or pending. -/
  lrFree : Bool := true
  lrFrontOk : Bool := false
  lr : BitVec 32 := 0
  lrFront : BitVec 30 := 0
  lkFree : Bool := true
  ctrFree : Bool := true
  ctrArch : BitVec 30 := 0
  ctrFeOk : Bool := true
  ctrFe : BitVec 32 := 0
  cr : BitVec 32 := 0
  flagsBusy : Bool := false
  flagsWaiter : Bool := false
  fpCrPending : Bool := false
  buCrValid : Bool := false
  buCrQ : BitVec 32 := 0
  /-- `bu_cr_capture`: the last flag owner's result arrives. -/
  buCrCapture : Bool := false
  ownerCrfValid : Bool := false
  ownerCrf : BitVec 3 := 0
  ownerCr0 : BitVec 4 := 0
  /-- `crw_left_q` is not zero. -/
  crwQueued : Bool := false
  bsValid : Bool := false
  bsMiss : Bool := false
  bsFix : Bool := false
  crUnres : Bool := false
  crUnresFd : Bool := false
  /-- `cr_writer` of either word. -/
  crWriter0 : Bool := false
  crWriter1 : Bool := false
  fetchRemoved : BitVec 2 := 0
  /-- `last_carry_q` with an entry left in the queue. -/
  carries : Bool := false
  rem0Fd : Bool := false
  blOk : Bool := false
  /-- The first word's unit. -/
  unitIu : Bool := false
  unitLsu : Bool := false
  /-- `held_q`, with the registers read and no redirect. -/
  held : Bool := false
  fdPushOkQ : Bool := false
  stopInsn : BitVec 32 := 0
  /-- The stopped branch is the youngest entry and the CTR behind it is final. -/
  ctrRelReady : Bool := false
  ctr : BitVec 32 := 0

namespace FrontEnd

variable (dec : DecodeConfig) (cfg : Cfg) (s : FrontEnd)

/-- `queued`. -/
def queued : Packet := iabrCheck s.fdPacket cfg.enableDebugExceptions s.iabr

/-- `queued1`. -/
def queued1 : Packet :=
  iabrCheck
    { pc := s.fdPacket.pc.extractLsb' 3 29 ++ 4#3, insn := s.fd1Insn, fault := .ok
      esa := s.fdPacket.esa, hints := s.fdPacket.hints }
    cfg.enableDebugExceptions s.iabr

/-- `push_uop`. -/
def pushUop : Uop := decode dec s.fdPacket.insn

/-- `push_uop1`. -/
def pushUop1 : Uop := decode dec s.fd1Insn

/-- `push_branch`, its first bit. -/
def pushBranch : Bool := branchClass (s.pushUop dec) (s.queued cfg).fault

/-- `push_branch1`, its first bit. -/
def pushBranch1 : Bool := branchClass (s.pushUop1 dec) (s.queued1 cfg).fault

/-- `push_writes`: LR, CTR; and `push_lk`. -/
def pushWrites : Bool × Bool × Bool := lrCtrProjection (s.queued cfg).insn

/-- `lr_ok`. -/
def lrOk : Bool := s.lrFree || s.lrFrontOk

/-- `lr_fold`: the LR behind every queued word. -/
def lrFold : BitVec 30 := if s.lrFree then s.lr.extractLsb' 2 30 else s.lrFront

/-- `ctr_one`. -/
def ctrOne : Bool := s.ctrFe = 1

/-- `crw0`. -/
def crw0 : Bool := (s.queued cfg).fault = .ok && s.crWriter0

/-- `bs_busy`. -/
def bsBusy : Bool := s.bsValid || s.bsMiss || s.bsFix

/-- `cr_inflight`. -/
def crInflight : Bool := (s.flagsBusy && (!s.buCrValid || s.flagsWaiter)) || s.fpCrPending

/-- `cr_dep`. -/
def crDep : Bool := s.crwQueued || s.crInflight

/-- `cr_final`. -/
def crFinal : Bool :=
  (!s.crDep && !s.bsBusy) ||
    (s.buCrCapture && !s.flagsWaiter && !s.crwQueued && (s.bsValid || !s.bsBusy))

/-- `bu_cr`. -/
def buCr : BitVec 32 := if s.flagsBusy && s.buCrValid then s.buCrQ else s.cr

/-- `bu_cr_d`: the committed CR with the owner's field. -/
def buCrD : BitVec 32 :=
  if s.ownerCrfValid then
    (s.cr &&& ~~~(0xf0000000#32 >>> (s.ownerCrf.toNat * 4))) |||
      ((s.ownerCr0 ++ 0#28) >>> (s.ownerCrf.toNat * 4))
  else s.cr

/-- The CR the branch unit reads from the next edge on. -/
def dispatchCr : BitVec 32 := if s.buCrCapture then s.buCrD else s.buCr

/-- `bu_spec` from the next edge on. -/
def dispatchSpec (u : Uop) (ctr : BitVec 32) : Bool :=
  cfg.enableBranchSpec && buReadsCr u && buCtrOk u ctr && s.flagsBusy &&
    (!(s.buCrCapture || s.buCrValid) || s.flagsWaiter)

/-- `selected_cr_bit` at the owner's merge. -/
def selectedCrBit (bi : BitVec 5) : Bool :=
  if s.buCrCapture then
    if s.ownerCrfValid && s.ownerCrf = bi.extractLsb' 2 3 then
      s.ownerCr0.getLsbD (3 - (bi.extractLsb' 0 2).toNat)
    else s.cr.getLsbD (31 - bi.toNat)
  else s.buCr.getLsbD (31 - bi.toNat)

/-- `cr0_now`. -/
def cr0Now : Bool := s.selectedCrBit (rA (s.queued cfg).insn)

/-- `cr1_now`. -/
def cr1Now : Bool := s.selectedCrBit (rA (s.queued1 cfg).insn)

/-- `crb0`. -/
def crb0 : Bool := crBranch (s.queued cfg) s.ctrFeOk s.ctrOne

/-- `crb1`. -/
def crb1 : Bool :=
  cfg.fetchWidth = 2 &&
    crBranch (s.queued1 cfg) (s.ctrFeOk && !(s.pushWrites cfg).2.1) s.ctrOne

/-- `wait0`. -/
def wait0 : Bool := waits (s.queued cfg) s.lrOk s.lkFree s.ctrFree s.ctrFeOk

/-- `wait1`. -/
def wait1 : Bool :=
  let w := s.pushWrites cfg
  cfg.fetchWidth = 2 &&
    waits (s.queued1 cfg) (if w.1 then w.2.2 else s.lrOk) (s.lkFree && !w.2.2)
      (s.ctrFree && !w.2.1) (s.ctrFeOk && !w.2.1)

/-- `fold_predict`. -/
def foldPredict0 : Bool :=
  folds (s.queued cfg) s.traceMode s.lrOk s.ctrFree s.crFinal (s.cr0Now cfg) s.ctrOne &&
    !s.wait0 cfg

/-- `fold_predict1`. -/
def foldPredict1 : Bool :=
  let w := s.pushWrites cfg
  cfg.fetchWidth = 2 && !s.wait0 cfg && !s.wait1 cfg &&
    folds (s.queued1 cfg) s.traceMode (s.lrOk && !w.1) (s.ctrFree && !w.2.1)
      (s.crFinal && !s.crw0 cfg) (s.cr1Now cfg) s.ctrOne

/-- `cr_hold0`. -/
def crHold0 : Bool := s.fdValid && s.crb0 cfg && s.crUnres

/-- `hold1_cr`. -/
def hold1Cr : Bool :=
  s.crb1 cfg && ((s.crb0 cfg && s.crDep) ||
      if bcNotTaken (s.queued1 cfg) && (s.crw0 cfg || s.crwQueued) then s.crUnresFd else s.crUnres) &&
    !s.wait0 cfg && !s.foldPredict0 cfg

/-- `res0`, its upper bit. -/
def res0 : Bool := resolved (s.queued cfg) s.lrOk s.crFinal

/-- `res1`, its upper bit. -/
def res1 : Bool :=
  resolved (s.queued1 cfg) (s.lrOk && !(s.pushWrites cfg).1) (s.crFinal && !s.crw0 cfg)

/-- `rem0_pred`. -/
def rem0Pred : Bool :=
  cfg.branchAnchor && !s.traceMode && !s.wait0 cfg && s.crb0 cfg && !s.res0 cfg &&
    primary (s.queued cfg).insn = 16 && bit (s.queued cfg).insn 23 && !bit (s.queued cfg).insn 0 &&
    (s.carries || s.rem0Fd)

/-- `push_remove0`. -/
def pushRemove0 : Bool :=
  let room := !s.fd1Valid || !s.fetchRemoved.getLsbD 1
  cfg.branchRemoval && !s.traceMode && s.fetchRemoved ≠ 3 &&
    (plainB (s.queued cfg) || (s.blOk && isBl (s.queued cfg)) ||
      (s.res0 cfg &&
        if resolvedTaken (s.queued cfg) (s.cr0Now cfg) then s.foldPredict0 cfg else room) ||
      (s.rem0Pred cfg && (s.foldPredict0 cfg || room)))

/-- `rem1_pred`. -/
def rem1Pred : Bool :=
  cfg.branchAnchor && !s.traceMode && !s.pushRemove0 cfg && !s.wait1 cfg && s.crb1 cfg &&
    !s.res1 cfg && primary (s.queued1 cfg).insn = 16 && bit (s.queued1 cfg).insn 23 &&
    !bit (s.queued1 cfg).insn 0 && (s.queued cfg).fault = .ok && !s.pushBranch dec cfg &&
    !(s.pushUop dec).privileged && (s.unitIu || (s.unitLsu && !s.crw0 cfg))

/-- `push_remove1`. -/
def pushRemove1 : Bool :=
  cfg.branchRemoval && !s.traceMode && !s.wait0 cfg &&
    (plainB (s.queued1 cfg) ||
      (s.blOk && isBl (s.queued1 cfg) && !s.pushBranch dec cfg && !(s.pushWrites cfg).1) ||
      (s.res1 cfg && (!resolvedTaken (s.queued1 cfg) (s.cr1Now cfg) || s.foldPredict1 cfg)) ||
      s.rem1Pred dec cfg)

/-- `fd_push_ok`. -/
def fdPushOk : Bool :=
  if s.fd1Valid then
    s.iqPush2Ready || (s.iqPushReady &&
      (s.pushRemove0 cfg || s.pushRemove1 dec cfg || s.foldPredict0 cfg || s.hold1Cr cfg))
  else s.iqPushReady

/-- `iq_push0`. -/
def iqPush0 : Bool :=
  s.fdValid && !s.foldQ && !s.fstopQ && !s.crHold0 cfg && s.fdPushOk dec cfg

/-- `iq_push1`. -/
def iqPush1 : Bool :=
  s.iqPush0 dec cfg && s.fd1Valid && !s.foldPredict0 cfg && !(s.fd1Valid && s.hold1Cr cfg)

/-- `rel_fold`: a held word redirects fetch as it is released. -/
def relFold : Bool :=
  s.held && !s.foldQ && !s.fstopQ && !(s.crb0 cfg && s.crUnres) && s.fdPushOkQ && s.foldPredict0 cfg

/-- `ctr_rel_taken`: a stopped branch redirects fetch once the CTR is final. -/
def ctrRelTaken : Bool :=
  s.ctrRelReady && !s.traceMode && primary s.stopInsn = 16 && bit s.stopInsn 25 &&
    !bit s.stopInsn 23 && !bit s.stopInsn 0 && (s.ctr ≠ 1 ^^ bit s.stopInsn 22)

/-- The first word leaves the stream as a branch. -/
def removed0 : Bool := s.iqPush0 dec cfg && s.pushRemove0 cfg

/-- The second word leaves the stream as a branch. -/
def removed1 : Bool := s.iqPush1 dec cfg && s.pushRemove1 dec cfg

/-- The first word redirects fetch. -/
def folded0 : Bool := (s.iqPush0 dec cfg && s.foldPredict0 cfg) || s.relFold cfg

/-- The second word redirects fetch. -/
def folded1 : Bool := s.iqPush1 dec cfg && s.foldPredict1 cfg

/-- `bu_taken` of an operation dispatched from the next edge on. -/
def dispatchTaken (p : Packet) (u : Uop) (ctr : BitVec 32) : Bool :=
  buTaken (s.dispatchSpec cfg u ctr) p u s.dispatchCr ctr

/-- `bu_target` of an operation dispatched behind every queued word. -/
def dispatchTarget (p : Packet) (u : Uop) : BitVec 32 := buTarget u p.pc s.lrFold s.ctrArch

end FrontEnd

/-! ## What decode makes of a branch -/

section Decode

variable (dec : DecodeConfig) {w : BitVec 32}

/-- An operation that keeps its class and carries no alignment syndrome. -/
theorem decode_of_form {u : Uop} (h : decodeForm dec w = u) (hl : u.illegal = false)
    (ha : aligns dec w u = false) : decode dec w = u := by
  simp [decode, decodeIllegal, h, hl, ha]

theorem decode_b (h : primary w = 18) :
    decode dec w = { legal w with
      specialOp := .b, branchDisp := disp24 w, branchAa := bit w 1, branchLk := bit w 0 } := by
  refine decode_of_form dec ?_ rfl (by simp [aligns])
  simp [decodeForm, h]

theorem decode_bc (h : primary w = 16) (hv : validBo (bits w 21 5) = true) :
    decode dec w = { legal w with
      specialOp := .bc, branchDisp := disp14 w, branchAa := bit w 1
      branchLk := bit w 0, branchBo := rD w, branchBi := rA w } := by
  refine decode_of_form dec ?_ rfl (by simp [aligns])
  simp [decodeForm, h, hv]

theorem decode_bclr (h : primary w = 19) (hx : xo w = 16) (hb : bits w 11 5 = 0)
    (hv : validBo (bits w 21 5) = true) :
    decode dec w = { legal w with
      specialOp := .bclr, branchLk := bit w 0, branchBo := rD w, branchBi := rA w } := by
  refine decode_of_form dec ?_ rfl (by simp [aligns])
  simp [decodeForm, decode19, h, hx, hb, hv]

theorem decode_bcctr (h : primary w = 19) (hx : xo w = 528) (hb : bits w 11 5 = 0)
    (hv : validBo (bits w 21 5) = true) (hc : bit w 23 = true) :
    decode dec w = { legal w with
      specialOp := .bcctr, branchLk := bit w 0, branchBo := rD w, branchBi := rA w } := by
  refine decode_of_form dec ?_ rfl (by simp [aligns])
  simp [decodeForm, decode19, h, hx, hb, hv, hc]

/-- A form the decoder leaves illegal is no branch. -/
theorem branchClass_undecoded (h : decodeForm dec w = undecoded w) (f : FetchFault) :
    branchClass (decode dec w) f = false := by
  have hi : (undecoded w).illegal = true := rfl
  by_cases hf : dec.enableFullDecode = true <;>
    simp [branchClass, decode, decodeIllegal, h, hi, hf, aligns, SpecialOp.branch]

theorem branchClass_bc_reserved (h : primary w = 16) (hv : validBo (bits w 21 5) = false)
    (f : FetchFault) : branchClass (decode dec w) f = false :=
  branchClass_undecoded dec (by simp [decodeForm, h, hv]) f

theorem branchClass_bclr_reserved (h : primary w = 19) (hx : xo w = 16)
    (hv : validBo (bits w 21 5) = false) (f : FetchFault) :
    branchClass (decode dec w) f = false :=
  branchClass_undecoded dec (by simp [decodeForm, decode19, h, hx, hv]) f

end Decode

/-! ## The words handled alike -/

section Bo

variable (w : BitVec 32)

theorem bit_rD {k : ℕ} (hk : k < 5) : bit w (21 + k) = (rD w).getLsbD k := by
  simp [bit, rD, hk]

theorem bits_rD_mid : bits w 22 3 = ((rD w).extractLsb' 1 3).toNat := by
  have h : w.extractLsb' 22 3 = (rD w).extractLsb' 1 3 := by
    ext k hk
    simp only [rD, BitVec.getElem_extractLsb', BitVec.getLsbD_extractLsb']
    rw [show 22 + k = 21 + (1 + k) by omega]
    simp [show 1 + k < 5 by omega]
  rw [bits, h]

/-- The fetch-side test of the branch options is the decoder's. -/
theorem boOk_eq (p : Packet) : boOk p = validBo (bits p.insn 21 5) := by
  have h : ∀ b : BitVec 5, (b.toNat ≤ 20 && (b.extractLsb' 1 3).toNat ≠ 3 &&
      (b.extractLsb' 1 3).toNat ≠ 7 : Bool) = validBo b.toNat := by decide
  rw [boOk, bits_rD_mid]
  exact h (rD p.insn)

end Bo

/-- `branch_class` of every word a fetch-side predicate may take for a branch. -/
structure Branching (dec : DecodeConfig) (w : BitVec 32) : Prop where
  b : primary w = 18 → branchClass (decode dec w) .ok = true
  bc : primary w = 16 → validBo (bits w 21 5) = true → branchClass (decode dec w) .ok = true
  xl : primary w = 19 → bits w 11 5 = 0 → validBo (bits w 21 5) = true →
    xo w = 16 ∨ (xo w = 528 ∧ bit w 23 = true) → branchClass (decode dec w) .ok = true

theorem branching (dec : DecodeConfig) (w : BitVec 32) : Branching dec w where
  b h := by
    rw [decode_b dec h]
    rfl
  bc h hv := by
    rw [decode_bc dec h hv]
    rfl
  xl h hb hv hx := by
    rcases hx with hx | ⟨hx, hc⟩
    · rw [decode_bclr dec h hx hb hv]
      rfl
    · rw [decode_bcctr dec h hx hb hv hc]
      rfl

/-- The bits of a CR word that one field takes. -/
theorem getLsbD_fieldMask (f : BitVec 3) (bi : BitVec 5) :
    (0xf0000000#32).getLsbD (f.toNat * 4 + (31 - bi.toNat)) = decide (f = bi.extractLsb' 2 3) := by
  revert f bi
  decide +kernel

theorem getLsbD_fieldValue (v : BitVec 4) (f : BitVec 3) (bi : BitVec 5) :
    (v ++ 0#28).getLsbD (f.toNat * 4 + (31 - bi.toNat)) =
      (decide (f = bi.extractLsb' 2 3) && v.getLsbD (3 - (bi.extractLsb' 0 2).toNat)) := by
  revert v f bi
  decide +kernel

/-- The CR bit fetch resolves from is the one the branch unit tests. -/
theorem FrontEnd.selectedCrBit_eq (s : FrontEnd) (bi : BitVec 5) :
    s.selectedCrBit bi = s.dispatchCr.getLsbD (31 - bi.toNat) := by
  unfold FrontEnd.selectedCrBit FrontEnd.dispatchCr FrontEnd.buCrD
  cases s.buCrCapture
  · rfl
  · cases s.ownerCrfValid
    · rfl
    · have hlt : 31 - bi.toNat < 32 := by omega
      simp only [BitVec.getLsbD_or, BitVec.getLsbD_and, BitVec.getLsbD_not,
        BitVec.getLsbD_ushiftRight, getLsbD_fieldMask, getLsbD_fieldValue, hlt, if_true]
      by_cases hf : s.ownerCrf = bi.extractLsb' 2 3 <;> simp [hf]

/-! ### Facts about one word -/

section Word

variable {p : Packet}

/-- What a folding word is. -/
theorem folds_cases {t l c f b o : Bool} (h : folds p t l c f b o = true) :
    p.fault = .ok ∧ (primary p.insn = 18 ∨ primary p.insn = 16 ∨
      (primary p.insn = 19 ∧ bits p.insn 11 5 = 0 ∧ validBo (bits p.insn 21 5) = true ∧
        (xo p.insn = 16 ∨ (xo p.insn = 528 ∧ bit p.insn 23 = true)))) := by
  simp only [folds, xlOk, boOk_eq] at h
  simp only [Bool.and_eq_true, Bool.or_eq_true, Bool.not_eq_true', decide_eq_true_eq] at h
  obtain ⟨⟨-, hf⟩, h⟩ := h
  refine ⟨hf, ?_⟩
  rcases h with (h | h) | h
  · exact .inl h
  · exact .inr (.inl h.1)
  · exact .inr (.inr ⟨h.1.1.1, h.1.1.2.1.1, h.1.1.2.1.2, h.1.1.2.2⟩)

/-- What a resolved word is. -/
theorem resolved_cases {l c : Bool} (h : resolved p l c = true) :
    p.fault = .ok ∧ bit p.insn 0 = false ∧ bit p.insn 23 = true ∧
      (bit p.insn 25 = true ∨ c = true) ∧
      (primary p.insn = 16 ∨ (primary p.insn = 19 ∧ xo p.insn = 16 ∧ bits p.insn 11 5 = 0)) := by
  simp only [resolved, Bool.and_eq_true, Bool.or_eq_true, Bool.not_eq_true',
    decide_eq_true_eq] at h
  obtain ⟨⟨⟨⟨hf, hk⟩, h0⟩, h23⟩, hc⟩ := h
  refine ⟨hf, h0, h23, hc, ?_⟩
  rcases hk with h | h
  · exact .inl h
  · exact .inr ⟨h.1.1.1, h.1.1.2, h.1.2⟩

/-- A resolved word that is not taken does not fold. -/
theorem folds_eq_resolvedTaken {t l c f b o : Bool} (hr : resolved p l f = true)
    (hn : resolvedTaken p b = false) : folds p t l c f b o = false := by
  obtain ⟨-, -, h23, hf, hp⟩ := resolved_cases hr
  obtain ⟨h25, hb⟩ : bit p.insn 25 = false ∧ (b == bit p.insn 24) = false := by
    simpa [resolvedTaken] using hn
  have hf : f = true := hf.resolve_left (by simp [h25])
  have hq : predicts p f b o = false := by simp [predicts, h25, hf, hb]
  rcases hp with hp | ⟨hp, -⟩ <;> simp [folds, hq, hp]

end Word

/-! ## Agreement -/

/-- An encoding that fetch takes for a branch and decode leaves illegal. -/
def Reserved (cfg : Cfg) (w : BitVec 32) : Prop :=
  validBo (bits w 21 5) = false ∧
    (primary w = 16 ∨
      (cfg.branchRemoval = true ∧ primary w = 19 ∧ xo w = 16 ∧ bits w 11 5 = 0 ∧
        bit w 0 = false ∧ bit w 25 = false ∧ bit w 23 = true))

/-- What fetch does with a word when it retires it resolved: the redirect, if any. -/
structure Resolves (cfg : Cfg) (s : FrontEnd) (p : Packet) (u : Uop) (fold : Bool) : Prop where
  taken : ∀ ctr, fold = s.dispatchTaken cfg p u ctr
  target : fold = true → foldedTarget p s.lrFold s.ctrArch = s.dispatchTarget p u

/-- One word is handled the same way at fetch and at dispatch, wherever it stands. -/
structure Agrees (dec : DecodeConfig) (cfg : Cfg) (s : FrontEnd) (w : BitVec 32) : Prop where
  /-- A first word that leaves the stream or redirects fetch is queued as a branch. -/
  class0 : (s.queued cfg).insn = w → s.removed0 dec cfg = true ∨ s.folded0 dec cfg = true →
    s.pushBranch dec cfg = true
  /-- So is a second word. -/
  class1 : (s.queued1 cfg).insn = w → s.removed1 dec cfg = true ∨ s.folded1 dec cfg = true →
    s.pushBranch1 dec cfg = true
  /-- So was a stopped one. -/
  stopped : s.stopInsn = w → s.ctrRelTaken = true → branchClass (decode dec w) .ok = true
  resolved0 : (s.queued cfg).insn = w → s.removed0 dec cfg = true → s.res0 cfg = true →
    Resolves cfg s (s.queued cfg) (s.pushUop dec) (s.foldPredict0 cfg)
  resolved1 : (s.queued1 cfg).insn = w → s.removed1 dec cfg = true → s.res1 cfg = true →
    Resolves cfg s (s.queued1 cfg) (s.pushUop1 dec) (s.foldPredict1 cfg)

section NotReserved

variable {cfg : Cfg} {w : BitVec 32}

theorem validBo_of_bc (hr : ¬Reserved cfg w) (h : primary w = 16) :
    validBo (bits w 21 5) = true := by
  by_contra hv
  exact hr ⟨by simpa using hv, .inl h⟩

theorem validBo_of_bclr (hr : ¬Reserved cfg w) (hb : cfg.branchRemoval = true)
    (h : primary w = 19 ∧ xo w = 16 ∧ bits w 11 5 = 0) (h0 : bit w 0 = false)
    (h25 : bit w 25 = false) (h23 : bit w 23 = true) : validBo (bits w 21 5) = true := by
  by_contra hv
  exact hr ⟨by simpa using hv, .inr ⟨hb, h.1, h.2.1, h.2.2, h0, h25, h23⟩⟩

/-- A folding word is queued as a branch. -/
theorem class_of_folds (dec : DecodeConfig) {p : Packet} {t l c f b o : Bool}
    (hr : ¬Reserved cfg p.insn) (h : folds p t l c f b o = true) :
    branchClass (decode dec p.insn) p.fault = true := by
  obtain ⟨hf, hp⟩ := folds_cases h
  rw [hf]
  rcases hp with hp | hp | ⟨hp, hb, hv, hx⟩
  · exact (branching dec _).b hp
  · exact (branching dec _).bc hp (validBo_of_bc hr hp)
  · exact (branching dec _).xl hp hb hv hx

/-- A resolved word that leaves the stream has valid branch options. -/
theorem validBo_of_resolved {p : Packet} {l f b t l' c o : Bool} (hr : ¬Reserved cfg p.insn)
    (hb : cfg.branchRemoval = true) (h : resolved p l f = true)
    (ht : resolvedTaken p b = true → folds p t l' c f b o = true) :
    validBo (bits p.insn 21 5) = true := by
  obtain ⟨-, h0, h23, -, hp⟩ := resolved_cases h
  rcases hp with hp | hp
  · exact validBo_of_bc hr hp
  · cases h25 : bit p.insn 25 with
    | false => exact validBo_of_bclr hr hb hp h0 h25 h23
    | true =>
      obtain ⟨-, hq⟩ := folds_cases (ht (by simp [resolvedTaken, h25]))
      rcases hq with hq | hq | ⟨-, -, hv, -⟩
      · simp [hp.1] at hq
      · simp [hp.1] at hq
      · exact hv

/-- A resolved word with valid options is queued as a branch. -/
theorem class_of_resolved (dec : DecodeConfig) {p : Packet} {l f : Bool}
    (h : resolved p l f = true) (hv : validBo (bits p.insn 21 5) = true) :
    branchClass (decode dec p.insn) p.fault = true := by
  obtain ⟨hf, -, -, -, hp⟩ := resolved_cases h
  rw [hf]
  rcases hp with hp | ⟨hp, hx, hb⟩
  · exact (branching dec _).bc hp hv
  · exact (branching dec _).xl hp hb hv (.inl hx)

end NotReserved

/-- A final CR leaves nothing to predict. -/
theorem FrontEnd.dispatchSpec_of_crFinal {s : FrontEnd} (cfg : Cfg) (u : Uop) (ctr : BitVec 32)
    (h : s.crFinal = true) : s.dispatchSpec cfg u ctr = false := by
  have hfin : (s.flagsBusy && (!(s.buCrCapture || s.buCrValid) || s.flagsWaiter)) = false := by
    simp only [crFinal, crDep, crInflight] at h
    revert h
    cases s.flagsBusy <;> cases s.buCrCapture <;> cases s.buCrValid <;> cases s.flagsWaiter <;> simp
  simp only [dispatchSpec, Bool.and_assoc, hfin, Bool.and_false]

theorem bit_ten_of_bclr {w : BitVec 32} (h : xo w = 16) : bit w 10 = false := by
  have hx : w.extractLsb' 1 10 = 16#10 := BitVec.eq_of_toNat_eq h
  have hb : (w.extractLsb' 1 10).getLsbD 9 = false := by
    rw [hx]
    rfl
  simpa [bit] using hb

/-- Fetch takes the decision and the target of the branch unit. -/
theorem resolves_of (dec : DecodeConfig) (cfg : Cfg) {s : FrontEnd} {p : Packet} {l f fold : Bool}
    (h : resolved p l f = true) (hf : f = true → s.crFinal = true)
    (hv : validBo (bits p.insn 21 5) = true)
    (hfold : fold = resolvedTaken p (s.selectedCrBit (rA p.insn))) :
    Resolves cfg s p (decode dec p.insn) fold := by
  obtain ⟨-, -, h23, hc, hp⟩ := resolved_cases h
  have hbo2 : (rD p.insn).getLsbD 2 = true := (bit_rD p.insn (k := 2) (by decide)).symm.trans h23
  have hbo3 := (bit_rD p.insn (k := 3) (by decide)).symm
  have hbo4 := (bit_rD p.insn (k := 4) (by decide)).symm
  obtain ⟨u, hu, hop, hbo, hbi, htarget⟩ : ∃ u, decode dec p.insn = u ∧ u.specialOp ≠ .b ∧
      u.branchBo = rD p.insn ∧ u.branchBi = rA p.insn ∧
      foldedTarget p s.lrFold s.ctrArch = s.dispatchTarget p u := by
    rcases hp with hp | ⟨hp, hx, hb⟩
    · refine ⟨_, decode_bc dec hp hv, by simp, rfl, rfl, ?_⟩
      cases h1 : bit p.insn 1 <;> simp [foldedTarget, FrontEnd.dispatchTarget, buTarget, hp, h1]
    · refine ⟨_, decode_bclr dec hp hx hb hv, by simp, rfl, rfl, ?_⟩
      simp [foldedTarget, FrontEnd.dispatchTarget, buTarget, hp, bit_ten_of_bclr hx]
  rw [hu]
  refine ⟨fun ctr => ?_, fun _ => htarget⟩
  have hspec : s.dispatchSpec cfg u ctr = false := by
    rcases hc with h25 | hcr
    · have hread : buReadsCr u = false := by
        simp only [buReadsCr, hbo, hbo4, Bool.and_eq_false_iff, Bool.not_eq_false']
        exact .inr h25
      simp [FrontEnd.dispatchSpec, hread]
    · exact FrontEnd.dispatchSpec_of_crFinal cfg u ctr (hf hcr)
  have hctr : buCtrOk u ctr = true := by simp [buCtrOk, hbo, hbo2]
  simp only [FrontEnd.dispatchTaken, buTaken, hspec, hctr, hop, buCondOk, hbo, hbi, hbo3, hbo4,
    ← s.selectedCrBit_eq, hfold, resolvedTaken]
  simp

namespace FrontEnd

variable {dec : DecodeConfig} {cfg : Cfg} {s : FrontEnd}

@[simp] theorem iabrCheck_insn (p : Packet) (e : Bool) (bp : BitVec 32) :
    (iabrCheck p e bp).insn = p.insn := by
  unfold iabrCheck
  split_ifs <;> rfl

theorem pushUop_eq (dec : DecodeConfig) (cfg : Cfg) (s : FrontEnd) :
    s.pushUop dec = decode dec (s.queued cfg).insn := by simp [pushUop, queued]

theorem pushUop1_eq (dec : DecodeConfig) (cfg : Cfg) (s : FrontEnd) :
    s.pushUop1 dec = decode dec (s.queued1 cfg).insn := by simp [pushUop1, queued1]

/-- A `b` or `bl` is queued as a branch. -/
theorem class_of_b (dec : DecodeConfig) {p : Packet} (h : p.fault = .ok ∧ primary p.insn = 18) :
    branchClass (decode dec p.insn) p.fault = true := by
  rw [h.1]
  exact (branching dec _).b h.2

theorem b_of_plainB {p : Packet} (h : plainB p = true) : p.fault = .ok ∧ primary p.insn = 18 := by
  simp only [plainB, Bool.and_eq_true, decide_eq_true_eq] at h
  exact h.1

theorem b_of_isBl {p : Packet} (h : isBl p = true) : p.fault = .ok ∧ primary p.insn = 18 := by
  simp only [isBl, Bool.and_eq_true, decide_eq_true_eq] at h
  exact h.1

/-- Why a first word leaves the stream. -/
theorem pushRemove0_cases (h : s.pushRemove0 cfg = true) :
    cfg.branchRemoval = true ∧
      (((s.queued cfg).fault = .ok ∧ primary (s.queued cfg).insn = 18) ∨
        (s.res0 cfg = true ∧ (resolvedTaken (s.queued cfg) (s.cr0Now cfg) = true →
          s.foldPredict0 cfg = true)) ∨
        (s.crb0 cfg = true ∧ primary (s.queued cfg).insn = 16 ∧ s.res0 cfg = false)) := by
  simp only [pushRemove0, rem0Pred, Bool.and_eq_true, Bool.or_eq_true, Bool.not_eq_true',
    decide_eq_true_eq] at h
  refine ⟨h.1.1.1, ?_⟩
  rcases h.2 with ((h | h) | h) | h
  · exact .inl (b_of_plainB h)
  · exact .inl (b_of_isBl h.2)
  · refine .inr (.inl ⟨h.1, fun ht => ?_⟩)
    simpa [ht] using h.2
  · exact .inr (.inr (by simp only [h, and_self]))

/-- Why a second word leaves the stream. -/
theorem pushRemove1_cases (h : s.pushRemove1 dec cfg = true) :
    cfg.branchRemoval = true ∧
      (((s.queued1 cfg).fault = .ok ∧ primary (s.queued1 cfg).insn = 18) ∨
        (s.res1 cfg = true ∧ (resolvedTaken (s.queued1 cfg) (s.cr1Now cfg) = true →
          s.foldPredict1 cfg = true)) ∨
        (s.crb1 cfg = true ∧ primary (s.queued1 cfg).insn = 16 ∧ s.res1 cfg = false)) := by
  simp only [pushRemove1, rem1Pred, Bool.and_eq_true, Bool.or_eq_true, Bool.not_eq_true',
    decide_eq_true_eq] at h
  refine ⟨h.1.1.1, ?_⟩
  rcases h.2 with ((h | h) | h) | h
  · exact .inl (b_of_plainB h)
  · exact .inl (b_of_isBl h.1.1.2)
  · refine .inr (.inl ⟨h.1, fun ht => ?_⟩)
    simpa [ht] using h.2
  · exact .inr (.inr (by simp only [h, and_self]))

theorem fault_of_crBranch {p : Packet} {k o : Bool} (h : crBranch p k o = true) :
    p.fault = .ok := by
  simp only [crBranch, Bool.and_eq_true, decide_eq_true_eq] at h
  exact h.1.1.1

theorem folds_of_foldPredict0 (h : s.foldPredict0 cfg = true) :
    folds (s.queued cfg) s.traceMode s.lrOk s.ctrFree s.crFinal (s.cr0Now cfg) s.ctrOne = true := by
  simp only [foldPredict0, Bool.and_eq_true] at h
  exact h.1

theorem folds_of_foldPredict1 (h : s.foldPredict1 cfg = true) :
    folds (s.queued1 cfg) s.traceMode (s.lrOk && !(s.pushWrites cfg).1)
      (s.ctrFree && !(s.pushWrites cfg).2.1) (s.crFinal && !s.crw0 cfg) (s.cr1Now cfg)
      s.ctrOne = true := by
  simp only [foldPredict1, Bool.and_eq_true] at h
  exact h.2

/-- A resolved word redirects fetch exactly when its branch is taken. -/
theorem foldPredict0_of_res0 (hr : s.res0 cfg = true)
    (ht : resolvedTaken (s.queued cfg) (s.cr0Now cfg) = true → s.foldPredict0 cfg = true) :
    s.foldPredict0 cfg = resolvedTaken (s.queued cfg) (s.cr0Now cfg) := by
  cases h : resolvedTaken (s.queued cfg) (s.cr0Now cfg) with
  | true => exact ht h
  | false => simp [foldPredict0, folds_eq_resolvedTaken hr h]

theorem foldPredict1_of_res1 (hr : s.res1 cfg = true)
    (ht : resolvedTaken (s.queued1 cfg) (s.cr1Now cfg) = true → s.foldPredict1 cfg = true) :
    s.foldPredict1 cfg = resolvedTaken (s.queued1 cfg) (s.cr1Now cfg) := by
  cases h : resolvedTaken (s.queued1 cfg) (s.cr1Now cfg) with
  | true => exact ht h
  | false => simp [foldPredict1, folds_eq_resolvedTaken hr h]

end FrontEnd

open FrontEnd in
/-- Every other word is handled alike. -/
theorem agrees_of_not_reserved {dec : DecodeConfig} {cfg : Cfg} {w : BitVec 32}
    (hr : ¬Reserved cfg w) (s : FrontEnd) : Agrees dec cfg s w where
  class0 hw h := by
    subst hw
    rw [pushBranch, pushUop_eq dec cfg]
    have hfold : s.foldPredict0 cfg = true →
        branchClass (decode dec (s.queued cfg).insn) (s.queued cfg).fault = true :=
      fun hf => class_of_folds dec hr (folds_of_foldPredict0 hf)
    rcases h with h | h
    · simp only [removed0, Bool.and_eq_true] at h
      obtain ⟨hb, hk | ⟨hres, ht⟩ | ⟨hc, hp, -⟩⟩ := pushRemove0_cases h.2
      · exact class_of_b dec hk
      · exact class_of_resolved dec hres
          (validBo_of_resolved hr hb hres fun h => folds_of_foldPredict0 (ht h))
      · rw [fault_of_crBranch hc]
        exact (branching dec _).bc hp (validBo_of_bc hr hp)
    · simp only [folded0, relFold, Bool.or_eq_true, Bool.and_eq_true] at h
      rcases h with h | h
      · exact hfold h.2
      · exact hfold h.2
  class1 hw h := by
    subst hw
    rw [pushBranch1, pushUop1_eq dec cfg]
    rcases h with h | h
    · simp only [removed1, Bool.and_eq_true] at h
      obtain ⟨hb, hk | ⟨hres, ht⟩ | ⟨hc, hp, -⟩⟩ := pushRemove1_cases h.2
      · exact class_of_b dec hk
      · exact class_of_resolved dec hres
          (validBo_of_resolved hr hb hres fun h => folds_of_foldPredict1 (ht h))
      · simp only [crb1, Bool.and_eq_true] at hc
        rw [fault_of_crBranch hc.2]
        exact (branching dec _).bc hp (validBo_of_bc hr hp)
    · simp only [folded1, Bool.and_eq_true] at h
      exact class_of_folds dec hr (folds_of_foldPredict1 h.2)
  stopped hw h := by
    simp only [ctrRelTaken, Bool.and_eq_true, decide_eq_true_eq, hw] at h
    have hp : primary w = 16 := h.1.1.1.1.2
    exact (branching dec w).bc hp (validBo_of_bc hr hp)
  resolved0 hw h hres := by
    subst hw
    simp only [removed0, Bool.and_eq_true] at h
    obtain ⟨hb, hk | ⟨-, ht⟩ | ⟨-, -, hn⟩⟩ := pushRemove0_cases h.2
    · obtain ⟨-, -, -, -, hp⟩ := resolved_cases hres
      rcases hp with hp | ⟨hp, -⟩ <;> simp [hk.2] at hp
    · have hv := validBo_of_resolved hr hb hres fun h => folds_of_foldPredict0 (ht h)
      rw [pushUop_eq dec cfg]
      exact resolves_of dec cfg hres id hv (foldPredict0_of_res0 hres ht)
    · simp [hn] at hres
  resolved1 hw h hres := by
    subst hw
    simp only [removed1, Bool.and_eq_true] at h
    obtain ⟨hb, hk | ⟨-, ht⟩ | ⟨-, -, hn⟩⟩ := pushRemove1_cases h.2
    · obtain ⟨-, -, -, -, hp⟩ := resolved_cases hres
      rcases hp with hp | ⟨hp, -⟩ <;> simp [hk.2] at hp
    · have hv := validBo_of_resolved hr hb hres fun h => folds_of_foldPredict1 (ht h)
      rw [pushUop1_eq dec cfg]
      exact resolves_of dec cfg hres (fun hc => by simp_all) hv (foldPredict1_of_res1 hres ht)
    · simp [hn] at hres

/-- A front end with nothing in flight, the word its only one, that the CTR and CR make
`bc` fold (`cond`) or fall through. -/
def quiet (w : BitVec 32) (cond : Bool) : FrontEnd where
  fdPacket := { pc := 0, insn := w, fault := .ok, esa := .denied, hints := 0 }
  fdValid := true
  ctrFe := if bit w 22 then 1 else 0
  cr := if bit w 24 == cond then 0xffffffff#32 else 0

section Quiet

variable (cfg : Cfg) (w : BitVec 32) (b : Bool)

theorem queued_quiet : (quiet w b).queued cfg = (quiet w b).fdPacket := by
  simp [FrontEnd.queued, iabrCheck, quiet, bit]

theorem crFinal_quiet : (quiet w b).crFinal = true := rfl

theorem cr0Now_quiet : (quiet w b).cr0Now cfg = (bit w 24 == b) := by
  have hlt : 31 - (rA w).toNat < 32 := by omega
  rw [FrontEnd.cr0Now, queued_quiet, FrontEnd.selectedCrBit_eq]
  have hcr : (quiet w b).dispatchCr = if bit w 24 == b then BitVec.allOnes 32 else 0#32 := rfl
  have hi : (quiet w b).fdPacket.insn = w := rfl
  rw [hcr, hi]
  split_ifs with h
  · rw [BitVec.getLsbD_allOnes, h]
    simp [hlt]
  · simp [h]

theorem ctrOne_quiet : (quiet w b).ctrOne = bit w 22 := by
  cases h : bit w 22 <;> simp [FrontEnd.ctrOne, quiet, h]

theorem wait0_quiet : (quiet w b).wait0 cfg = false := by
  rw [FrontEnd.wait0, queued_quiet]
  simp [waits, FrontEnd.lrOk, quiet]

theorem iqPush0_quiet (dec : DecodeConfig) : (quiet w b).iqPush0 dec cfg = true := by
  simp [FrontEnd.iqPush0, FrontEnd.crHold0, FrontEnd.fdPushOk, quiet]

end Quiet

/-- A reserved `bc` redirects fetch whenever its condition holds. -/
theorem foldPredict0_quiet (cfg : Cfg) {w : BitVec 32} (h : primary w = 16) :
    (quiet w true).foldPredict0 cfg = true := by
  have hi : (quiet w true).fdPacket.insn = w := rfl
  have hp : predicts (quiet w true).fdPacket true (bit w 24 == true) (bit w 22) = true := by
    simp only [predicts, hi]
    cases bit w 25 <;> cases bit w 23 <;> simp
  rw [FrontEnd.foldPredict0, wait0_quiet, queued_quiet, cr0Now_quiet, crFinal_quiet, ctrOne_quiet,
    folds, hp, hi]
  simp [h, quiet]

/-- A reserved `bclr` leaves the stream when its condition fails. -/
theorem pushRemove0_quiet {cfg : Cfg} {w : BitVec 32} (hb : cfg.branchRemoval = true)
    (h : primary w = 19 ∧ xo w = 16 ∧ bits w 11 5 = 0) (h0 : bit w 0 = false)
    (h25 : bit w 25 = false) (h23 : bit w 23 = true) :
    (quiet w false).pushRemove0 cfg = true := by
  have hi : (quiet w false).fdPacket.insn = w := rfl
  have hres : (quiet w false).res0 cfg = true := by
    rw [FrontEnd.res0, queued_quiet, crFinal_quiet, resolved, hi]
    simp [h, h0, h23, FrontEnd.lrOk, quiet]
  have hnot : resolvedTaken (quiet w false).fdPacket (bit w 24 == false) = false := by
    rw [resolvedTaken, hi, h25]
    cases bit w 24 <;> rfl
  rw [FrontEnd.pushRemove0, hres, queued_quiet, cr0Now_quiet, hnot]
  simp [hb, quiet]

/-- Every reserved word is taken for a branch. -/
theorem not_agrees_of_reserved (dec : DecodeConfig) {cfg : Cfg} {w : BitVec 32}
    (hr : Reserved cfg w) : ∃ b, ¬Agrees dec cfg (quiet w b) w := by
  have hq : ∀ b, ((quiet w b).queued cfg).insn = w := fun b => by
    rw [queued_quiet]
    rfl
  have hu : ∀ b, (quiet w b).pushUop dec = decode dec w := fun b => by
    rw [FrontEnd.pushUop_eq dec cfg, hq]
  obtain ⟨hv, h | ⟨hb, hp, hx, h11, h0, h25, h23⟩⟩ := hr
  · refine ⟨true, fun ha => ?_⟩
    have hfold : (quiet w true).folded0 dec cfg = true := by
      simp [FrontEnd.folded0, iqPush0_quiet, foldPredict0_quiet cfg h]
    have hcls := ha.class0 (hq true) (.inr hfold)
    rw [FrontEnd.pushBranch, hu, branchClass_bc_reserved dec h hv] at hcls
    contradiction
  · refine ⟨false, fun ha => ?_⟩
    have hrem : (quiet w false).removed0 dec cfg = true := by
      simp [FrontEnd.removed0, iqPush0_quiet, pushRemove0_quiet hb ⟨hp, hx, h11⟩ h0 h25 h23]
    have hcls := ha.class0 (hq false) (.inl hrem)
    rw [FrontEnd.pushBranch, hu, branchClass_bclr_reserved dec hp hx hv] at hcls
    contradiction

/-- A word is handled the same way at fetch and at dispatch, whatever the front end holds
outside trace mode, exactly when it is no reserved branch. -/
theorem agrees_iff (dec : DecodeConfig) (cfg : Cfg) (w : BitVec 32) :
    (∀ s : FrontEnd, s.traceMode = false → Agrees dec cfg s w) ↔ ¬Reserved cfg w := by
  constructor
  · intro h hr
    obtain ⟨b, hb⟩ := not_agrees_of_reserved dec hr
    exact hb (h (quiet w b) rfl)
  · intro hr s _
    exact agrees_of_not_reserved hr s

/-- A full 603e build. -/
def fullDecode : DecodeConfig where
  enableSupervisorExceptions := true
  enableLiveContext := true
  enableTimers := true
  enableRuntimeBat := true
  enableSegmentRegisters := true
  enableTlbInvalidate := true
  enableTlbLoad := true
  enableSdr1 := true
  enableTlbMissExceptions := true
  enableCacheInstructions := true
  enableDataCache := true
  enableByteReverse := true
  enableMultipleString := true
  enableReservation := true
  enableDebugExceptions := true
  enableFullDecode := true
  enableFpu := true
  hasHid1 := true
  hasEar := true
  stringEmulationTrap := false
  has602 := false
  noFpu := false

/-- `bc 21,0,8` is removed as an unconditional branch, or queued as an illegal instruction
when three removed branches stand before it. -/
theorem reserved_bc_removed :
    ¬Agrees fullDecode {} (quiet 0x42a00008 true) 0x42a00008 ∧
      (quiet 0x42a00008 true).removed0 fullDecode {} = true ∧
      ({ quiet 0x42a00008 true with fetchRemoved := 3 } : FrontEnd).removed0 fullDecode {} = false ∧
      (quiet 0x42a00008 true).pushBranch fullDecode {} = false := by
  have hrem : (quiet 0x42a00008 true).removed0 fullDecode {} = true := by decide
  have hcls : (quiet 0x42a00008 true).pushBranch fullDecode {} = false := by decide
  refine ⟨fun h => ?_, hrem, by decide, hcls⟩
  have := h.class0 rfl (.inl hrem)
  rw [hcls] at this
  contradiction

end Branches
end Fetch
end SloPPC603
