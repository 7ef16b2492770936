import SloPPC603.Router.Pages

/-!
# The architecture's translation

Translation as the architecture orders it, in its own terms: a real access is not
translated; a block address entry that holds the address decides alone; then the segment,
and then the page's entry.  The reference is a relation, so that it says nothing of how
the entries are searched.

* `Reference` — the outcomes the architecture allows.
* `Production` — the builds it is stated for.
-/

namespace SloPPC603
namespace Router

/-! ## What the architecture reads -/

/-- A block address entry is valid for the privilege level, and its block holds the
address. -/
def InBlock (u : BitVec 32) (user : Bool) (ea : BitVec 32) : Prop :=
  u.getLsbD (if user then 0 else 1) = true ∧ ea &&& Bat.addressMask u = u &&& 0xfffe0000

instance (u : BitVec 32) (user : Bool) (ea : BitVec 32) : Decidable (InBlock u user ea) :=
  inferInstanceAs (Decidable (_ ∧ _))

/-- No two entries of a bank hold one address at one privilege level. -/
def BatsDisjoint (a : Arch) : Prop := ∀ (bank user : Bool) (ea : BitVec 32) (i j : BitVec 2),
  InBlock (a.banks.upper bank i) user ea → InBlock (a.banks.upper bank j) user ea → i = j

/-- The word a 602 page entry was loaded with. -/
def rpaWord (e : Tlb.Entry) : BitVec 32 :=
  e.rpn ++ e.ext.extractLsb' 1 4 ++ BitVec.ofBool e.c ++ e.wimg ++ e.ext.extractLsb' 0 1 ++ e.pp

/-- The protection of a page by its bits and the key of its segment. -/
def PageDenies (key : Bool) (pp : BitVec 2) (write : Bool) : Prop :=
  (key = true ∧ pp = 0) ∨ (write = true ∧ (pp = 3 ∨ (key = true ∧ pp = 1)))

instance (key : Bool) (pp : BitVec 2) (write : Bool) : Decidable (PageDenies key pp write) :=
  inferInstanceAs (Decidable (_ ∨ _))

section Architecture

variable (cfg : Config) (a : Arch) (x : Access)

/-- Translation is on for the access's side. -/
def relocated : Bool := if x.instruction then a.ir else a.dr

/-- The attributes of an access that is not translated. -/
def realWimg : BitVec 4 :=
  if cfg.has602 then a.mmu602.wimg else if x.instruction then 1 else 3

/-- The access is a user's; the 602 can take every access for one. -/
def asUser : Bool := a.pr || (cfg.has602 && a.mmu602.ap)

/-- The 602's protection-only mode. -/
def protectionOnly : Bool := cfg.has602 && a.mmu602.po

/-- The block address entry `i` of the access's side holds its address. -/
def BlockMatches (i : BitVec 2) : Prop :=
  InBlock (a.banks.upper (!x.instruction) i) (asUser cfg a) x.ea

instance (i : BitVec 2) : Decidable (BlockMatches cfg a x i) :=
  inferInstanceAs (Decidable (InBlock _ _ _))

/-- The segment register; protection-only mode has one, without T and N. -/
def segmentWord : BitVec 32 :=
  if protectionOnly cfg a then a.sr 0 &&& 0x6fffffff else a.sr (x.ea.extractLsb' 28 4)

/-- The segment's key for the access's privilege level. -/
def segmentKey : Bool :=
  if asUser cfg a then srKp (segmentWord cfg a x) else srKs (segmentWord cfg a x)

/-- The set of page entries the access's page has a place in. -/
def pageSet : ℕ := Tlb.setOf cfg.tlb x.ea (protectionOnly cfg a)

/-- The page entry of one way. -/
def pageEntry (way : Bool) : Tlb.Entry := a.tlb.entries (!x.instruction) way (pageSet cfg a x)

/-- The page entry of one way is the access's page's. -/
def PageMatches (way : Bool) : Prop :=
  a.tlb.valid (!x.instruction) way (pageSet cfg a x) = true ∧
    (pageEntry cfg a x way).vsid = (segmentWord cfg a x).extractLsb' 0 24 ∧
    (pageEntry cfg a x way).pageTag = Tlb.tagOf cfg.tlb x.ea (protectionOnly cfg a) ∧
    (cfg.has602 = true → (pageEntry cfg a x way).ext.getLsbD 5 = protectionOnly cfg a)

instance (way : Bool) : Decidable (PageMatches cfg a x way) :=
  inferInstanceAs (Decidable (_ ∧ _ ∧ _ ∧ _))

/-! ## What it decides -/

/-- A denial by protection. -/
def protectionFault : Outcome :=
  if x.instruction then .fetchFault .isiProtection default else .dataFault .dsiProtection default

/-- A block address entry decides. -/
def blockOutcome (u l : BitVec 32) : Outcome :=
  if l.extractLsb' 0 2 = 0 ∨ (x.write = true ∧ l.extractLsb' 0 2 ≠ 2) then protectionFault x
  else if cfg.has602 && x.instruction && l.getLsbD 10 then .fetchFault .isiGuarded default
  else
    .allow ((l &&& 0xfffe0000) ||| (x.ea &&& ~~~(Bat.addressMask u)))
      (l.extractLsb' 4 3 ++ BitVec.ofBool (l.getLsbD 3 && !x.instruction))
      (if cfg.has602 && x.instruction && l.getLsbD 9 then .allowed else .denied)

/-- A direct-store segment, by the class of the access. -/
def segmentOutcome : Outcome :=
  if x.instruction then .fetchFault .isiGuarded default
  else if !cfg.hasDirectStore then .dataFault .dsiDirectStore default
  else if x.kind = .cache then .noop
  else if x.fp then .dataFault .alignmentDirectStore default
  else if x.kind = .normal then
    .directStore ((segmentWord cfg a x).extractLsb' 0 4 ++ x.ea.extractLsb' 0 28)
      (BitVec.ofBool (segmentKey cfg a x) ++ (segmentWord cfg a x).extractLsb' 4 25)
  else .dataFault .dsiDirectStore default

/-- What a page miss carries. -/
def capsule (way : Bool) : PageMiss where
  ea := x.ea
  sr := segmentWord cfg a x
  pr := asUser cfg a
  ir := a.ir
  dr := a.dr
  write := x.write
  way := way

/-- No entry is the page's: the miss names the way to replace. -/
def missOutcome : Outcome :=
  let m := capsule cfg a x (a.tlb.lru (!x.instruction) (pageSet cfg a x))
  if x.instruction then .fetchFault .pageMiss m else .dataFault .pageMiss m

/-- The page's entry decides. -/
def entryOutcome (e : Tlb.Entry) (way : Bool) : Outcome :=
  if cfg.has602 && x.instruction && (rpaWord e).getLsbD 10 then .fetchFault .isiGuarded default
  else if PageDenies (segmentKey cfg a x) e.pp x.write then protectionFault x
  else if x.instruction && e.wimg.getLsbD 0 then .fetchFault .isiGuarded default
  else if x.write && !e.c then .dataFault .pageChanged (capsule cfg a x way)
  else
    .allow (e.rpn ++ x.ea.extractLsb' 0 12) e.wimg
      (if cfg.has602 && x.instruction && (rpaWord e).getLsbD 9 then .allowed else .denied)

/-- The page's entry decides in protection-only mode, by its bit for the address. -/
def protectedOutcome (e : Tlb.Entry) : Outcome :=
  let bit := (rpaWord e).getLsbD (31 - (x.ea.extractLsb' 12 5).toNat)
  if x.instruction then
    if bit then .fetchFault .isiGuarded default else .allow x.ea a.mmu602.wimg .poSer
  else if x.write && !bit then .dataFault .dsiProtection default
  else .allow x.ea a.mmu602.wimg .denied

/-- The access is translated, and by no block. -/
structure Paged : Prop where
  relocated : relocated a x = true
  unblocked : ∀ i, ¬ BlockMatches cfg a x i

/-- The segment sends the access to its page's entry. -/
structure Looked : Prop extends Paged cfg a x where
  memory : srT (segmentWord cfg a x) = false
  executable : x.instruction = true → srN (segmentWord cfg a x) = false
  keyed : protectionOnly cfg a = true → segmentKey cfg a x = true

/-- The outcome of an access by the architecture's order of precedence. -/
inductive Reference : Outcome → Prop
  | real (h : relocated a x = false) : Reference (.allow x.ea (realWimg cfg a x) .denied)
  | block {i : BitVec 2} (h : relocated a x = true) (hm : BlockMatches cfg a x i) :
      Reference (blockOutcome cfg x (a.banks.upper (!x.instruction) i)
        (a.banks.lower (!x.instruction) i))
  | segment (h : Paged cfg a x) (ht : srT (segmentWord cfg a x) = true) :
      Reference (segmentOutcome cfg a x)
  | noExecute (h : Paged cfg a x) (ht : srT (segmentWord cfg a x) = false)
      (hi : x.instruction = true) (hn : srN (segmentWord cfg a x) = true) :
      Reference (.fetchFault .isiGuarded default)
  | unkeyed (h : Paged cfg a x) (hp : protectionOnly cfg a = true)
      (hk : segmentKey cfg a x = false) :
      Reference (.allow x.ea a.mmu602.wimg (if x.instruction then .poBase else .denied))
  | poEntry {way : Bool} (h : Looked cfg a x) (hm : PageMatches cfg a x way)
      (hp : protectionOnly cfg a = true) :
      Reference (protectedOutcome a x (pageEntry cfg a x way))
  | entry {way : Bool} (h : Looked cfg a x) (hm : PageMatches cfg a x way)
      (hp : protectionOnly cfg a = false) :
      Reference (entryOutcome cfg a x (pageEntry cfg a x way) way)
  | miss (h : Looked cfg a x) (hm : ∀ way, ¬ PageMatches cfg a x way) :
      Reference (missOutcome cfg a x)

end Architecture

/-- The enables of a production build. -/
structure Production (cfg : Config) : Prop where
  liveContext : cfg.enableLiveContext = true
  runtimeBat : cfg.enableRuntimeBat = true
  segmentRegisters : cfg.enableSegmentRegisters = true
  pageTranslation : cfg.enablePageTranslation = true
  tlbInvalidate : cfg.enableTlbInvalidate = true
  tlbLoad : cfg.enableTlbLoad = true
  dataExceptions : cfg.enableDataExceptions = true
  pageDataExceptions : cfg.enablePageDataExceptions = true
  pageInstructionExceptions : cfg.enablePageInstructionExceptions = true
  pageMissResults : cfg.enablePageMissResults = true
  machineCheck : cfg.enableMachineCheck = true

end Router
end SloPPC603
