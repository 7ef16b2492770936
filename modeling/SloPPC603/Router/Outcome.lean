import SloPPC603.Router.Model
import SloPPC603.Translation.Refills

/-!
# The outcome of a request

What the translation sequence makes of a request is a function of the committed
translation state: the block address registers, the segment registers, the TLB and the
context.  This file states that function, with the router's own reply predicates, and
what of the state it depends on.

* `Arch`, `State.arch` — the committed translation state.
* `outcome` — the outcome of a request.
* `outcome_congr` — it reads the LRU bits of its own bank only.
* `outcome_touched` — the LRU bit that its own lookup moves does not change it.
-/

namespace SloPPC603
namespace Router

/-! ## The committed state -/

/-- The committed translation state. -/
structure Arch where
  banks : Bat.Banks
  sr : Segment.Store
  tlb : Tlb.Store
  ir : Bool
  dr : Bool
  pr : Bool
  mmu602 : Mmu602

/-- The committed translation state of a router. -/
def State.arch (s : State) : Arch where
  banks := s.bat.banks
  sr := Segment.srRead s.segment
  tlb := s.tlb.store
  ir := s.contextIr
  dr := s.contextDr
  pr := s.contextPr
  mmu602 := s.mmu602

/-- An access to translate: which side asks, its direction, its address, and its class. -/
structure Access where
  instruction : Bool
  write : Bool
  ea : BitVec 32
  kind : DmemKind := .normal
  fp : Bool := false
  deriving DecidableEq, Repr

section Answers

variable (cfg : Config) (a : Arch) (x : Access) (q : Request) (sr : BitVec 32)

/-- The request the sequence takes up for an access. -/
def requestOf : Request where
  instruction := x.instruction
  write := x.write
  ea := x.ea
  ir := a.ir
  dr := a.dr
  pr := a.pr || (cfg.has602 && a.mmu602.ap)
  po := cfg.has602 && a.mmu602.po

/-- What the sequence asks of the block address service. -/
def batRequest (wimg : BitVec 4) : Bat.Request where
  kind :=
    if q.instruction then .translateI else if q.write then .translateWrite else .translateRead
  ea := q.ea
  ir := q.ir
  dr := q.dr
  pr := q.pr
  defaultWimg := wimg

/-- What it is answered. -/
def batAnswer : Bat.Response := Bat.response cfg.bat (batRequest q a.mmu602.wimg) a.banks

/-- The segment register it reads. -/
def srWord : BitVec 32 := pageSr q (a.sr ((segmentEa q).extractLsb' 28 4))

/-- What it asks of the TLB. -/
def lookupRequest : Tlb.Request where
  kind := .lookup
  bank := !q.instruction
  ea := q.ea
  vsid := sr.extractLsb' 0 24
  pr := q.pr
  ks := srKs sr
  kp := srKp sr
  n := srN sr
  t := srT sr
  write := q.write
  po := q.po

/-- What it is answered. -/
def pageAnswer : Tlb.Response :=
  Tlb.respond cfg.tlb (lookupRequest q sr) (Tlb.view cfg.tlb (lookupRequest q sr) a.tlb)

end Answers

/-! ## Outcomes -/

/-- What becomes of an access. -/
inductive Outcome
  /-- It goes to the physical port. -/
  | allow (pa : BitVec 32) (wimg : BitVec 4) (esa : EsaEnable)
  /-- It goes there as a direct-store request. -/
  | directStore (addr : BitVec 32) (tag : BitVec 26)
  /-- It completes as a no-op. -/
  | noop
  | fetchFault (f : FetchFault) (m : PageMiss)
  | dataFault (f : DataFault) (m : PageMiss)
  /-- A data error with no type. -/
  | untyped
  /-- The instruction side stops. -/
  | fatal
  deriving DecidableEq, Repr

section Outcomes

variable (cfg : Config) (a : Arch) (x : Access) (q : Request) (sr : BitVec 32)
  (b : Bat.Response) (t : Tlb.Response)

/-- The outcome of a denying block address reply. -/
def batDenial : Outcome :=
  if q.instruction then
    if batFetchIsi cfg b then
      .fetchFault (if b.translation.protectionFault then .isiProtection else .isiGuarded) default
    else .fatal
  else if batDataDsi cfg b then .dataFault .dsiProtection default
  else .untyped

/-- The page miss a response shows beside a fault. -/
def shownMiss (missing : Bool) : PageMiss :=
  if cfg.enablePageMissResults && missing then pageMissResult cfg q sr t else default

/-- The outcome of a denying page reply. -/
def pageDenial (kind : DmemKind) (fp : Bool) : Outcome :=
  if q.instruction then
    if pageTypedFault cfg q sr t then
      let f := pageFetchFault cfg q sr t
      .fetchFault f (shownMiss cfg q sr t (f = .pageMiss))
    else .fatal
  else
    let f := pageDataFault cfg q sr t kind fp
    if f ≠ .ok then .dataFault f (shownMiss cfg q sr t (f = .pageMiss || f = .pageChanged))
    else if dsCandidate cfg q sr t && kind = .cache then .noop
    else .untyped

/-- The outcome of a page reply. -/
def pageOutcome (m : Mmu602) (kind : DmemKind) (fp : Bool) : Outcome :=
  if pageReplyAllow q t then .allow t.pa (pageWimg q t m) t.esa
  else if dsRoute cfg q sr t kind fp then .directStore (dsAddress sr q.ea) (dsTag q sr)
  else pageDenial cfg q sr t kind fp

/-- The outcome of an access. -/
def outcome : Outcome :=
  let q := requestOf cfg a x
  let b := batAnswer cfg a q
  if b.translation.allow then .allow b.translation.pa b.translation.wimg (batEsa b)
  else if cleanBatPageMiss cfg q b then
    pageOutcome cfg q (srWord a q) (pageAnswer cfg a q (srWord a q)) a.mmu602 x.kind x.fp
  else batDenial cfg q b

end Outcomes

/-! ## What an outcome depends on -/

/-- Committed states that agree on all but the LRU bits of the other bank. -/
structure SameFor (bank : Bool) (a a' : Arch) : Prop where
  banks : a'.banks = a.banks
  sr : a'.sr = a.sr
  valid : a'.tlb.valid = a.tlb.valid
  entries : a'.tlb.entries = a.tlb.entries
  lru : a'.tlb.lru bank = a.tlb.lru bank
  ir : a'.ir = a.ir
  dr : a'.dr = a.dr
  pr : a'.pr = a.pr
  mmu602 : a'.mmu602 = a.mmu602

section Congruence

variable {cfg : Config} {a a' a'' : Arch} {x : Access} {q : Request} {sr : BitVec 32} {bank : Bool}

theorem SameFor.refl (bank : Bool) (a : Arch) : SameFor bank a a :=
  ⟨rfl, rfl, rfl, rfl, rfl, rfl, rfl, rfl, rfl⟩

theorem pageAnswer_congr (h : SameFor (!q.instruction) a a') :
    pageAnswer cfg a' q sr = pageAnswer cfg a q sr := by
  have hview : Tlb.view cfg.tlb (lookupRequest q sr) a'.tlb =
      Tlb.view cfg.tlb (lookupRequest q sr) a.tlb := by
    simp only [Tlb.view, h.valid, h.entries]
    congr 1
    exact congrFun h.lru _
  rw [pageAnswer, pageAnswer, hview]

/-- **An outcome reads the LRU bits of its own bank only.** -/
theorem outcome_congr (h : SameFor (!x.instruction) a a') : outcome cfg a' x = outcome cfg a x := by
  have hq : requestOf cfg a' x = requestOf cfg a x := by
    simp [requestOf, h.ir, h.dr, h.pr, h.mmu602]
  have hb : batAnswer cfg a' (requestOf cfg a x) = batAnswer cfg a (requestOf cfg a x) := by
    simp [batAnswer, h.banks, h.mmu602]
  have hsr : srWord a' (requestOf cfg a x) = srWord a (requestOf cfg a x) := by
    simp [srWord, h.sr]
  simp only [outcome, hq, hb, hsr, h.mmu602]
  rw [pageAnswer_congr (q := requestOf cfg a x) h]

/-! ## The LRU bit of a hit -/

/-- The committed state after the lookup of a request has moved the LRU bit. -/
def touched (cfg : Config) (a : Arch) (q : Request) (sr : BitVec 32) : Arch :=
  { a with tlb := (Tlb.service cfg.tlb).perform (lookupRequest q sr) a.tlb }

/-- A lookup only writes the LRU bit of its bank and set. -/
theorem perform_lookup (r : Tlb.Request) (t : Tlb.Store) (hk : r.kind = .lookup) :
    (Tlb.service cfg.tlb).perform r t =
      if Tlb.touches cfg.tlb r (Tlb.view cfg.tlb r t) then
        t.touch r.bank (Tlb.selectedWay cfg.tlb r (Tlb.view cfg.tlb r t)) (Tlb.setIndex cfg.tlb r)
      else t := by
  simp [Tlb.service, hk]

/-- It leaves the other bank's outcomes. -/
theorem sameFor_touched : SameFor q.instruction a (touched cfg a q sr) := by
  have hp := @perform_lookup cfg (lookupRequest q sr) a.tlb rfl
  constructor
  all_goals try rfl
  · simp only [touched, hp]
    split_ifs <;> rfl
  · simp only [touched, hp]
    split_ifs <;> rfl
  · simp only [touched, hp]
    split_ifs
    · funext set
      simp [Tlb.Store.touch, lookupRequest]
    · rfl

/-- The answer to a lookup is the same after it has moved the LRU bit. -/
theorem pageAnswer_touched : pageAnswer cfg (touched cfg a q sr) q sr = pageAnswer cfg a q sr := by
  have hp := @perform_lookup cfg (lookupRequest q sr) a.tlb rfl
  simp only [pageAnswer, touched, hp]
  split_ifs with htouch
  · simp only [Tlb.touches, Bool.and_eq_true] at htouch
    exact Tlb.respond_lru rfl rfl htouch.1
  · rfl

/-- **The LRU bit that its own lookup moves does not change an outcome.** -/
theorem outcome_touched :
    outcome cfg (touched cfg a (requestOf cfg a x) (srWord a (requestOf cfg a x))) x =
      outcome cfg a x := by
  have hpage := @pageAnswer_touched cfg a (requestOf cfg a x) (srWord a (requestOf cfg a x))
  simp only [outcome]
  rw [show requestOf cfg (touched cfg a (requestOf cfg a x) (srWord a (requestOf cfg a x))) x =
    requestOf cfg a x from rfl]
  rw [show srWord (touched cfg a (requestOf cfg a x) (srWord a (requestOf cfg a x)))
    (requestOf cfg a x) = srWord a (requestOf cfg a x) from rfl, hpage]
  rfl

end Congruence

end Router
end SloPPC603
