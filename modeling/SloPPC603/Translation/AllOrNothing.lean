import SloPPC603.Translation.Segment
import SloPPC603.Translation.Bat
import SloPPC603.Translation.Tlb

/-!
# Translation updates are all or nothing

The segment bank, the block address service and the TLB service all take prepared
updates, which a later commit performs or an abort drops.

* `updates_all_or_nothing` — in all three, for every run and every interleaving of
  requests, commits and aborts.
* `commit_clears_duplicate` — the commit of a TLB load reaches past the way it
  loads: a matching entry in the other way is invalidated with it.
-/

namespace SloPPC603
namespace Translation

open Clocked

/-- **Translation updates are all or nothing.**  A prepared update leaves the store
(words, entries, valid bits and LRU bits) as it is until its end.  An abort drops it
without a trace: the store and every later answer are those of the other requests
alone.  A commit performs it once, as prepared. -/
theorem updates_all_or_nothing (enableSegment : Bool) (bat : Bat.Config) (tlb : Tlb.Config) :
    (Segment.keeper enableSegment).AllOrNothing (Segment.service enableSegment) ∧
    (Bat.keeper bat).AllOrNothing (Bat.service bat) ∧
    (Tlb.keeper tlb).AllOrNothing (Tlb.service tlb) :=
  ⟨Segment.keeper_allOrNothing enableSegment, Bat.keeper_allOrNothing bat,
    Tlb.keeper_allOrNothing tlb⟩

/-! ## A commit that clears the other way -/

/-- A TLB service with prepared loads. -/
def configLoad : Tlb.Config := { enableRuntimeRefill := true }

/-- Page zero is loaded into way 0 at once, then into way 1 by a prepared load. -/
def duplicateInputs : ℕ → Tlb.Input
  | 0 => { reqValid := true, req := { kind := .refill } }
  | 2 => { reqValid := true, req := { kind := .prepareRefill, way := true }, rspReady := true }
  | 4 => { prepareCommit := true, rspReady := true }
  | _ => {}

/-- A state before reset, with nothing in it. -/
def blankState : Tlb.State where
  store := ⟨fun _ _ _ => false, fun _ _ => false, fun _ _ _ => default⟩
  entryRd := fun _ => default
  request := { kind := .lookup }
  requestAbort := false
  lookup := false
  responseValid := false
  response := { kind := .lookup, bank := false, ea := 0 }
  prepared := false
  preparedIsRefill := false
  preparedBank := false
  preparedWay := false
  preparedDuplicate := false
  preparedSet := 0
  preparedEntry := default
  commitAck := false

/-- The run of these inputs from reset. -/
def duplicateRun : Run (Tlb.machine configLoad) where
  start := Tlb.step configLoad blankState { rstN := false }
  initial := ⟨blankState, { rstN := false }, rfl, rfl⟩
  input := duplicateInputs

/-- It is not so that a commit changes the valid bit of the prepared entry alone. -/
theorem commit_clears_duplicate :
    ¬ ∀ (r : Run (Tlb.machine configLoad)) n,
      Tlb.commitFire configLoad (r.state n) (r.input n) = true →
      ∀ bank way set, ¬ (bank = (r.state n).preparedBank ∧ way = (r.state n).preparedWay ∧
        set = (r.state n).preparedSet) →
      (r.state (n + 1)).store.valid bank way set = (r.state n).store.valid bank way set := by
  intro h
  have hcommit : Tlb.commitFire configLoad (duplicateRun.state 4) (duplicateRun.input 4) = true := by
    decide
  have hother : ¬ (false = (duplicateRun.state 4).preparedBank ∧
      false = (duplicateRun.state 4).preparedWay ∧ 0 = (duplicateRun.state 4).preparedSet) := by
    decide
  have hkeep := h duplicateRun 4 hcommit false false 0 hother
  exact absurd hkeep (by decide)

end Translation
end SloPPC603
