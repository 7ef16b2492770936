import Mathlib.Data.Nat.Notation

/-!
# Block address translation

The combinational translator of `ppc_bat_translate.sv`: four block address
registers, each an upper and a lower word, against one effective address.

A bank is a function of the entry number, which the source's loops take from
zero to three.
-/

namespace SloPPC603
namespace Bat

/-- The parameters. -/
structure TranslateConfig where
  validateBank : Bool := true
  has602 : Bool := false

/-- The access to translate and the state it is translated under. -/
structure Access where
  valid : Bool
  instruction : Bool
  write : Bool
  ea : BitVec 32
  msrIr : Bool
  msrDr : Bool
  msrPr : Bool
  defaultWimg : BitVec 4

/-- The outputs: the nine status bits, then the match and the translated address. -/
structure Translation where
  allow : Bool := false
  bypass : Bool := false
  batHit : Bool := false
  batMiss : Bool := false
  protectionFault : Bool := false
  guardedFault : Bool := false
  configError : Bool := false
  invalidInput : Bool := false
  overlap : Bool := false
  invalidEntry : BitVec 4 := 0
  matched : BitVec 4 := 0
  hitIndex : BitVec 2 := 0
  pa : BitVec 32 := 0
  wimg : BitVec 4 := 0
  pp : BitVec 2 := 0
  se : Bool := false
  deriving DecidableEq, Repr

/-- `legal_length`: the twelve block lengths, 128 KiB through 256 MiB. -/
def legalLength (bl : BitVec 11) : Bool :=
  bl ∈ [0x000#11, 0x001#11, 0x003#11, 0x007#11, 0x00f#11, 0x01f#11, 0x03f#11, 0x07f#11,
    0x0ff#11, 0x1ff#11, 0x3ff#11, 0x7ff#11]

/-- `address_mask`: the address bits an entry's block length compares. -/
def addressMask (u : BitVec 32) : BitVec 32 := ~~~(0#4 ++ u.extractLsb' 2 11 ++ 0x1ffff#17)

/-- `active`: valid for some privilege level. -/
def active (u : BitVec 32) : Bool := u.extractLsb' 0 2 ≠ 0

/-- `bad`: an active entry with a reserved field set or a misaligned block. -/
def bad (cfg : TranslateConfig) (instruction : Bool) (u l : BitVec 32) : Bool :=
  cfg.validateBank && active u &&
    (!legalLength (u.extractLsb' 2 11) || u.extractLsb' 13 4 ≠ 0 || l.extractLsb' 11 6 ≠ 0 ||
      l.extractLsb' 7 2 ≠ 0 || (!(cfg.has602 && instruction) && l.extractLsb' 9 2 ≠ 0) ||
      l.getLsbD 2 ||
      (u &&& ~~~(addressMask u)).extractLsb' 17 15 ≠ 0 ||
      (l &&& ~~~(addressMask u)).extractLsb' 17 15 ≠ 0 || (instruction && l.getLsbD 6))

section Translate

variable (cfg : TranslateConfig) (a : Access) (batu batl : ℕ → BitVec 32)

/-- Two valid entries that one privilege level could hit with one address. -/
def overlapping (i j : ℕ) : Bool :=
  active (batu i) && active (batu j) && !bad cfg a.instruction (batu i) (batl i) &&
    !bad cfg a.instruction (batu j) (batl j) && (batu i &&& batu j).extractLsb' 0 2 ≠ 0 &&
    (batu i ^^^ batu j) &&& addressMask (batu i) &&& addressMask (batu j) = 0

/-- `overlaps`. -/
def overlaps : Bool :=
  cfg.validateBank && (List.range 4).any fun j =>
    (List.range j).any fun i => overlapping cfg a batu batl i j

/-- Four flags as `[3:0]`. -/
def flags (p : ℕ → Bool) : BitVec 4 :=
  BitVec.ofBool (p 3) ++ BitVec.ofBool (p 2) ++ BitVec.ofBool (p 1) ++ BitVec.ofBool (p 0)

/-- `match_o` of one entry. -/
def entryMatch (i : ℕ) : Bool :=
  (batu i).getLsbD (if a.msrPr then 0 else 1) &&
    a.ea &&& addressMask (batu i) = batu i &&& 0xfffe0000

/-- `winner` of one entry: the lowest that matches. -/
def winner (i : ℕ) : Bool :=
  entryMatch a batu i && (List.range i).all fun j => !entryMatch a batu j

/-- The words of the winning entry, the rest masked out. -/
def ofWinner (f : ℕ → BitVec 32) : BitVec 32 :=
  (List.range 4).foldl (fun acc i => acc ||| if winner a batu i then f i else 0) 0

/-- An enabled translation that some entry matches. -/
def translateHit : Translation :=
  let hitLower := ofWinner a batu batl
  let hitMask := ofWinner a batu fun i => addressMask (batu i)
  let pp := hitLower.extractLsb' 0 2
  let protectionFault := pp = 0 || (a.write && pp ≠ 2)
  let guardedFault := cfg.has602 && a.instruction && hitLower.getLsbD 10
  let allow := !protectionFault && !guardedFault
  { batHit := true
    matched := flags (entryMatch a batu)
    hitIndex := BitVec.ofBool (winner a batu 3 || winner a batu 2) ++
      BitVec.ofBool (winner a batu 3 || winner a batu 1)
    pp := pp
    -- Instruction entries have no G bit.
    wimg := hitLower.extractLsb' 4 3 ++ BitVec.ofBool (hitLower.getLsbD 3 && !a.instruction)
    protectionFault := protectionFault
    guardedFault := guardedFault
    allow := allow
    se := cfg.has602 && a.instruction && allow && hitLower.getLsbD 9
    pa := if allow then (hitLower &&& 0xfffe0000) ||| (a.ea &&& ~~~hitMask) else 0 }

/-- An enabled translation. -/
def translateEnabled : Translation :=
  if (List.range 4).any (entryMatch a batu) then translateHit cfg a batu batl
  else { batMiss := true }

/-- A disabled translation: the real address and the real-mode attributes. -/
def translateBypass : Translation :=
  { allow := true
    bypass := true
    pa := a.ea
    wimg := if cfg.has602 then a.defaultWimg else if a.instruction then 1 else 3 }

/-- The translator. -/
def translate : Translation :=
  if !a.valid then {}
  else
    let entryBad i := bad cfg a.instruction (batu i) (batl i)
    let overlap := overlaps cfg a batu batl
    let invalidInput := a.instruction && a.write
    let enabled := if a.instruction then a.msrIr else a.msrDr
    if (List.range 4).any entryBad || overlap || invalidInput then
      { configError := true, invalidInput := invalidInput, overlap := overlap
        invalidEntry := flags entryBad }
    -- No entry is bad and none overlaps, so the remaining checks stay clear.
    else if enabled then translateEnabled cfg a batu batl
    else translateBypass cfg a

end Translate

end Bat
end SloPPC603
