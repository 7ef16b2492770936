import SloPPC603.Router.MicroTlb
import SloPPC603.Translation.Bat
import SloPPC603.Translation.Segment
import SloPPC603.Translation.Tlb

/-!
# What the router makes of a translation reply

The types of `ppc_bat_memory_router.sv` and the predicates by which its translation
sequence reads the replies of the block address service and of the TLB: one of them
allows the access, names a typed fault, sends the sequence on, or leaves it fatal or
untyped.

* `Request` — what the sequence holds of the request it translates.
* `cleanBatPageMiss`, `batTypedFault` — a block address reply.
* `pageReplyAllow`, `pageTypedFault`, `dsCandidate` — a TLB reply.
-/

namespace SloPPC603
namespace Router

/-! ## Parameters and types -/

/-- The module's parameters; the sizes are given by their binary logarithms. -/
structure Config where
  enableLiveContext : Bool := false
  enableRuntimeBat : Bool := false
  enableSegmentRegisters : Bool := false
  enablePageTranslation : Bool := false
  enableTlbInvalidate : Bool := false
  enableTlbLoad : Bool := false
  enableDataExceptions : Bool := false
  enablePageDataExceptions : Bool := false
  enablePageInstructionExceptions : Bool := false
  enablePageMissResults : Bool := false
  enableMicroTlb : Bool := true
  enableDataPageProjection : Bool := false
  enableMachineCheck : Bool := false
  microTlbW : ℕ := 2
  dataMicroTlbW : ℕ := 3
  tlbSetW : ℕ := 5
  has602 : Bool := false
  fetchTeaRefetch : Bool := false
  hasDirectStore : Bool := false
  enableDataPipeline : Bool := false
  enableFetchPipeline : Bool := false

/-- The block address service's parameters. -/
def Config.bat (cfg : Config) : Bat.Config where
  enableRuntimeBat := cfg.enableRuntimeBat
  has602 := cfg.has602

/-- The TLB service's parameters. -/
def Config.tlb (cfg : Config) : Tlb.Config where
  enableRuntimeInvalidate := cfg.enableTlbInvalidate
  enableRuntimeRefill := cfg.enableTlbLoad
  setW := cfg.tlbSetW
  has602 := cfg.has602

/-- The instruction micro-TLB's parameters. -/
def Config.iUtlb (cfg : Config) : MicroTlb.Config where
  indexW := cfg.microTlbW
  projected := false

/-- The data micro-TLB's parameters. -/
def Config.dUtlb (cfg : Config) : MicroTlb.Config where
  indexW := cfg.dataMicroTlbW
  projected := cfg.enableDataPageProjection

/-- `mmu_602_t`: the 602 context installed with the MSR. -/
structure Mmu602 where
  ap : Bool := false
  po : Bool := false
  wimg : BitVec 4 := 0
  deriving DecidableEq, Repr

/-- `dmem_kind_t`. -/
inductive DmemKind
  | normal
  | atomic
  | external
  | cache
  deriving DecidableEq, Repr, Inhabited

/-- The registers `owner_instruction_q`, `owner_write_q`, `request_ea_q` and
`request_{ir,dr,pr,po}_q`: the request in the translation sequence. -/
structure Request where
  instruction : Bool
  write : Bool
  ea : BitVec 32
  ir : Bool
  dr : Bool
  pr : Bool
  po : Bool
  deriving DecidableEq, Repr

/-- The words of `page_sr_q` by name. -/
def srT (sr : BitVec 32) : Bool := sr.getLsbD 31

/-- Ks. -/
def srKs (sr : BitVec 32) : Bool := sr.getLsbD 30

/-- Kp. -/
def srKp (sr : BitVec 32) : Bool := sr.getLsbD 29

/-- N. -/
def srN (sr : BitVec 32) : Bool := sr.getLsbD 28

section Replies

variable (cfg : Config) (q : Request) (sr : BitVec 32) (b : Bat.Response) (t : Tlb.Response)

/-! ## Block address replies -/

/-- `clean_bat_page_miss`. -/
def cleanBatPageMiss : Bool :=
  let r := b.translation
  cfg.enablePageTranslation && r.batMiss && !r.allow && !r.bypass && !r.batHit &&
    !r.protectionFault && !r.guardedFault && !r.configError && !r.invalidInput && !r.overlap &&
    r.invalidEntry = 0 && !b.privileged && !b.unsupported && !b.writeRejected &&
    (if q.instruction then q.ir else q.dr)

/-- `bat_fetch_isi`. -/
def batFetchIsi : Bool :=
  let r := b.translation
  cfg.enableLiveContext && !r.batMiss && !r.configError && !r.invalidInput &&
    (r.protectionFault || r.guardedFault)

/-- `bat_data_dsi`. -/
def batDataDsi : Bool :=
  let r := b.translation
  cfg.enableDataExceptions && r.batHit && r.protectionFault && !r.batMiss && !r.configError &&
    !r.invalidInput && r.invalidEntry = 0 && !r.guardedFault

/-- `bat_typed_fault`. -/
def batTypedFault : Bool := if q.instruction then batFetchIsi cfg b else batDataDsi cfg b

/-! ## TLB replies -/

/-- Some reason for a denial is given. -/
def pageFaults : Bool :=
  t.miss || t.protectionFault || t.guardedFault || t.noExecute || t.directStore || t.needsChanged

/-- The reply of another request, or one that no lookup gives. -/
def pageReplyForeign : Bool :=
  t.privileged || t.refillRejected || t.unsupported || t.invalidInput

/-- `page_reply_config`. -/
def pageReplyConfig : Bool :=
  t.kind ≠ .lookup || t.bank ≠ !q.instruction || t.ea ≠ q.ea || pageReplyForeign t ||
    (t.allowAccess && !t.hit) || (t.allowAccess && pageFaults t) ||
    (!t.allowAccess && !pageFaults t)

/-- `page_reply_allow`. -/
def pageReplyAllow : Bool := t.allowAccess && !pageReplyConfig q t

/-- `clean_page_data_pp`. -/
def cleanPageDataPp : Bool :=
  cfg.enablePageDataExceptions && !q.instruction && !pageReplyConfig q t && t.kind = .lookup &&
    t.bank && t.ea = q.ea && t.hit && !t.allowAccess && t.protectionFault && !t.miss &&
    !t.guardedFault && !t.noExecute && !t.directStore && !t.needsChanged && !pageReplyForeign t

/-- `clean_page_instruction_base`. -/
def cleanPageInstructionBase : Bool :=
  cfg.enablePageInstructionExceptions && q.instruction && !pageReplyConfig q t && !srT sr &&
    t.kind = .lookup && !t.bank && t.ea = q.ea && !t.allowAccess && !t.miss && !t.directStore &&
    !t.needsChanged && !pageReplyForeign t

/-- `clean_page_instruction_pp`. -/
def cleanPageInstructionPp : Bool :=
  cleanPageInstructionBase cfg q sr t && !srN sr && t.hit && t.protectionFault &&
    !t.guardedFault && !t.noExecute

/-- `clean_page_instruction_guarded`. -/
def cleanPageInstructionGuarded : Bool :=
  cleanPageInstructionBase cfg q sr t && !srN sr && t.hit && t.guardedFault &&
    !t.protectionFault && !t.noExecute

/-- `clean_page_instruction_no_execute`. -/
def cleanPageInstructionNoExecute : Bool :=
  cleanPageInstructionBase cfg q sr t && srN sr && t.noExecute && !t.protectionFault &&
    !t.guardedFault

/-- `clean_page_instruction_page_ne`: a 602 page denies execution. -/
def cleanPageInstructionPageNe : Bool :=
  cfg.has602 && cleanPageInstructionBase cfg q sr t && !srN sr && t.hit && t.noExecute &&
    !t.protectionFault && !t.guardedFault

/-- `clean_page_direct_store`. -/
def cleanPageDirectStore : Bool :=
  !pageReplyConfig q t && srT sr && t.directStore && !t.hit && !t.miss && !t.protectionFault &&
    !t.guardedFault && !t.noExecute && !t.needsChanged

/-- `clean_page_instruction_direct_store`. -/
def cleanPageInstructionDirectStore : Bool :=
  cfg.enablePageInstructionExceptions && q.instruction && cleanPageDirectStore q sr t

/-- `clean_page_data_direct_store`. -/
def cleanPageDataDirectStore : Bool :=
  cfg.enablePageDataExceptions && !q.instruction && cleanPageDirectStore q sr t

/-- `clean_page_miss_base`. -/
def cleanPageMissBase : Bool :=
  cfg.enablePageMissResults && !pageReplyConfig q t && !srT sr && t.kind = .lookup &&
    t.bank = !q.instruction && t.ea = q.ea && !t.allowAccess && !t.protectionFault &&
    !t.guardedFault && !t.noExecute && !t.directStore && !pageReplyForeign t

/-- `clean_page_true_miss`. -/
def cleanPageTrueMiss : Bool :=
  cleanPageMissBase cfg q sr t && (!q.instruction || !srN sr) && t.miss && !t.hit &&
    !t.needsChanged && t.matched = 0 && !t.c && !t.r

/-- `clean_page_changed`. -/
def cleanPageChanged : Bool :=
  cleanPageMissBase cfg q sr t && !q.instruction && q.write && t.hit && !t.miss &&
    t.needsChanged && (t.matched = 1 || t.matched = 2) && t.way = t.matched.getLsbD 1 &&
    !t.c && t.r

/-- `page_typed_fault`. -/
def pageTypedFault : Bool :=
  if q.instruction then
    cleanPageTrueMiss cfg q sr t || cleanPageInstructionPp cfg q sr t ||
      cleanPageInstructionGuarded cfg q sr t || cleanPageInstructionNoExecute cfg q sr t ||
      cleanPageInstructionPageNe cfg q sr t || cleanPageInstructionDirectStore cfg q sr t
  else
    cleanPageDataPp cfg q t || cleanPageDataDirectStore cfg q sr t ||
      cleanPageTrueMiss cfg q sr t || cleanPageChanged cfg q sr t

/-- `ds_candidate` of a valid page reply. -/
def dsCandidate : Bool :=
  cfg.hasDirectStore && !pageReplyAllow q t && cleanPageDataDirectStore cfg q sr t

/-- `ds_route` of a valid page reply: the access goes out as a direct-store request. -/
def dsRoute (kind : DmemKind) (fp : Bool) : Bool :=
  dsCandidate cfg q sr t && kind = .normal && !fp

/-- `page_key`. -/
def pageKey : Bool := if q.pr then srKp sr else srKs sr

/-- `page_miss_capture`. -/
def pageMissCapture : PageMiss where
  ea := q.ea
  sr := sr
  pr := q.pr
  ir := q.ir
  dr := q.dr
  write := q.write
  way := t.way

/-- `page_miss_result_q` after a page reply that is not allowed. -/
def pageMissResult : PageMiss :=
  if cleanPageTrueMiss cfg q sr t || cleanPageChanged cfg q sr t then pageMissCapture q sr t
  else default

/-- `fetch_fault_q` after a typed page reply. -/
def pageFetchFault : FetchFault :=
  if cleanPageTrueMiss cfg q sr t then .pageMiss
  else if cleanPageInstructionPp cfg q sr t then .isiProtection
  else .isiGuarded

/-- `data_fault_q` after a page reply that denies the access. -/
def pageDataFault (kind : DmemKind) (fp : Bool) : DataFault :=
  if cleanPageDataPp cfg q t then .dsiProtection
  else if dsCandidate cfg q sr t && kind = .cache then .ok
  else if dsCandidate cfg q sr t && fp then .alignmentDirectStore
  else if cleanPageDataDirectStore cfg q sr t then .dsiDirectStore
  else if cleanPageTrueMiss cfg q sr t then .pageMiss
  else if cleanPageChanged cfg q sr t then .pageChanged
  else .ok

/-- `d_pa_q` of a direct-store request: packet 1. -/
def dsAddress (ea : BitVec 32) : BitVec 32 := sr.extractLsb' 0 4 ++ ea.extractLsb' 0 28

/-- `d_ds_tag_q`: the key, then bits 3 to 27 of the segment register. -/
def dsTag : BitVec 26 := BitVec.ofBool (pageKey q sr) ++ sr.extractLsb' 4 25

/-- `d_wimg_q` of a direct-store request: cache-inhibited and guarded. -/
def dsWimg : BitVec 4 := 5

/-- `segment_ea`: protection-only mode reads the first segment register. -/
def segmentEa : BitVec 32 := if q.po then 0#4 ++ q.ea.extractLsb' 0 28 else q.ea

/-- `page_sr_q` from the register read: protection-only mode ignores T and N. -/
def pageSr (word : BitVec 32) : BitVec 32 := if q.po then word &&& 0x6fffffff#32 else word

/-- `request_set`. -/
def requestSet : ℕ :=
  if q.po then (q.ea.extractLsb' 17 cfg.tlbSetW).toNat else (q.ea.extractLsb' 12 cfg.tlbSetW).toNat

/-! ## What an allowed access carries -/

/-- `route_write_ok` of a block address reply. -/
def batWriteOk : Bool :=
  q.write || b.translation.bypass || (b.translation.batHit && b.translation.pp = 2)

/-- `route_write_ok` of a page reply. -/
def pageWriteOk : Bool :=
  q.write || (!q.po && t.c && t.pp ≠ 3 && !(pageKey q sr && t.pp ≠ 2))

/-- `route_wimg` of a page reply: protection-only pages take the default attributes. -/
def pageWimg (m : Mmu602) : BitVec 4 := if q.po then m.wimg else t.wimg

/-- `route_esa` of a block address reply. -/
def batEsa : EsaEnable := if b.translation.se then .allowed else .denied

end Replies

end Router
end SloPPC603
