import SloPPC603.Translation.Bat
import SloPPC603.Translation.Segment
import SloPPC603.Translation.Tlb

/-!
# Services with nothing prepared

Between updates the three translation services only answer: what one of them shows
after an edge is then a matter of the request it took and of the reply it delivered,
and what it keeps does not change.

* `Bat.Calm`, `Segment.Calm`, `Tlb.Calm` — nothing is captured, held or acknowledged.
* `calm_step` — it stays so as long as no update is taken.
-/

namespace SloPPC603

/-! ## The block address service -/

namespace Bat

/-- No write is captured, stored, held or acknowledged. -/
structure Calm (s : State) : Prop where
  prepared : s.prepared = false
  ack : s.ack = false
  write : s.write = false
  writeStore : s.writeStore = false

section Calm

variable {cfg : Config} {s : State} {i : Input} (h : Calm s) (hrst : i.rstN = true)
include h

theorem Calm.reqReady_eq : reqReady s i = (i.rstN && (!s.responseValid || i.rspReady)) := by
  simp [reqReady, h.prepared, h.ack, h.write, h.writeStore]

theorem Calm.not_commitFire : commitFire cfg s i = false := by simp [commitFire, h.prepared]

include hrst

/-- The service stays calm unless it takes a write. -/
theorem calm_step (hcap : captureFire cfg s i = false) : Calm (step cfg s i) := by
  have hcommit := @Calm.not_commitFire cfg s i h
  constructor <;>
    simp [step, runState, hrst, hcommit, holdFire, hcap, h.prepared, h.ack, h.write, h.writeStore]

/-- It shows a response to the request it takes, or the one not yet taken from it. -/
theorem responseValid_step (hcap : captureFire cfg s i = false) :
    (step cfg s i).responseValid = (requestFire s i || (!i.rspReady && s.responseValid)) := by
  have hans : answerFire cfg s i = requestFire s i := by
    unfold captureFire at hcap
    unfold answerFire
    cases hf : requestFire s i <;> simp_all
  cases hf : requestFire s i <;> cases hr : i.rspReady <;>
    simp [step, runState, hrst, hans, hf, h.write, hr]

theorem response_step (hans : answerFire cfg s i = true) :
    (step cfg s i).response = response cfg i.req s.banks := by
  simp [step, runState, hrst, hans, h.write]

end Calm

end Bat

/-! ## The segment registers -/

namespace Segment

/-- No write is held or acknowledged. -/
structure Calm (s : State) : Prop where
  prepared : s.prepared = false
  commitAck : s.commitAck = false

section Calm

variable {enable : Bool} {s : State} {i : Input} (h : Calm s) (hrst : i.rstN = true)
include h

theorem Calm.reqReady_eq : reqReady s i = (i.rstN && rspFree s i) := by
  simp [reqReady, h.prepared, h.commitAck]

theorem Calm.not_commitFire : commitFire enable s i = false := by simp [commitFire, h.prepared]

include hrst

/-- The bank stays calm unless it takes a prepared write. -/
theorem calm_step (hhold : holdFire enable s i = false) : Calm (step enable s i) := by
  have hcommit := @Calm.not_commitFire enable s i h
  constructor <;> simp [step, runState, hrst, hcommit, hhold, h.prepared, h.commitAck]

omit h in
theorem rspValid_step :
    (step enable s i).rspValid = (requestFire s i || (!i.rspReady && s.rspValid)) := by
  cases hf : requestFire s i <;> cases hr : i.rspReady <;> simp [step, runState, hrst, hf, hr]

omit h in
theorem rsp_step (hfire : requestFire s i = true) :
    (step enable s i).rsp = respond enable i.req (srRead s (requestIndex i.req)) := by
  simp [step, runState, hrst, hfire]

end Calm

end Segment

/-! ## The TLB service -/

namespace Tlb

/-- No update is held or acknowledged. -/
structure Calm (s : State) : Prop where
  prepared : s.prepared = false
  commitAck : s.commitAck = false

section Calm

variable {cfg : Config} {s : State} {i : Input} (h : Calm s) (hrst : i.rstN = true)
include h

theorem Calm.reqReady_eq : reqReady s i = (i.rstN && !s.lookup && rspFree s i) := by
  simp [reqReady, h.prepared, h.commitAck]

theorem Calm.not_commitFire : commitFire cfg s i = false := by simp [commitFire, h.prepared]

include hrst

/-- The service stays calm unless it holds a prepared update. -/
theorem calm_step (hhold : holdFire cfg s i = false) : Calm (step cfg s i) := by
  have hcommit := @Calm.not_commitFire cfg s i h
  constructor <;> simp [step, runState, hrst, hcommit, hhold, h.prepared, h.commitAck]

omit h in
theorem lookup_step : (step cfg s i).lookup = (!s.lookup && requestFire s i) := by
  cases hl : s.lookup <;> simp [step, runState, hrst, hl]

omit h in
theorem responseValid_step :
    (step cfg s i).responseValid = (s.lookup || (!i.rspReady && s.responseValid)) := by
  cases hl : s.lookup <;> cases hr : i.rspReady <;> simp [step, runState, hrst, hl, hr]

omit h in
theorem request_step (hfire : requestFire s i = true) :
    (step cfg s i).request = capture cfg i.req := by
  simp [step, runState, hrst, hfire]

end Calm

end Tlb

end SloPPC603
