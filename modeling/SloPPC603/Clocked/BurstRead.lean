import Mathlib.Tactic.Common

/-!
# Reading a block into a buffer

A memory with a registered read gives a word one edge after its address.  An
engine that copies `len` consecutive words into a buffer therefore runs in two
overlapping stages: on each edge of its reading stage it presents the next index,
and on the edge after that it writes the word it received under the index it
presented.  `BurstRead` says how far such a copy of the block `want` has come.

* `start` — an engine about to present index zero, over a memory that holds the
  block.
* `advance` — one edge of the reading stage, the memory's block unchanged.
* `drain` — one edge after the reading stage, whatever the memory does.
* `buffer_eq` — with nothing in flight the buffer holds the block.
-/

namespace SloPPC603
namespace Clocked

variable {α : Type*}

/-- The copy of `want` into `buf`: words from `idx` on are still in the memory
`mem`, at most one is in the read register `rdata`, and the others are in `buf`. -/
structure BurstRead (len : ℕ) (want : ℕ → α) (reading : Bool) (idx : ℕ) (inFlight : Bool)
    (flightIdx : ℕ) (rdata : α) (mem buf : ℕ → α) : Prop where
  idx_lt : reading = true → idx < len
  unread : reading = true → ∀ d, idx ≤ d → d < len → mem d = want d
  flight : inFlight = true → rdata = want flightIdx
  flight_idx : inFlight = true → reading = true → flightIdx + 1 = idx
  buffered : ∀ d < len, (reading = true → d < idx) → (inFlight = true → d ≠ flightIdx) →
    buf d = want d

namespace BurstRead

variable {len : ℕ} {want : ℕ → α} {idx flightIdx : ℕ} {inFlight reading : Bool} {rdata : α}
  {mem buf : ℕ → α}

theorem start (hlen : 0 < len) (hmem : ∀ d < len, mem d = want d) :
    BurstRead len want true 0 false flightIdx rdata mem buf where
  idx_lt _ := hlen
  unread _ d _ hd := hmem d hd
  flight := nofun
  flight_idx := nofun
  buffered d _ h _ := absurd (h rfl) (Nat.not_lt_zero d)

/-- The buffer after an edge: the word in flight lands. -/
def landed (inFlight : Bool) (flightIdx : ℕ) (rdata : α) (buf : ℕ → α) (d : ℕ) : α :=
  if inFlight ∧ d = flightIdx then rdata else buf d

/-- What has been read and has landed. -/
theorem landed_eq (h : BurstRead len want reading idx inFlight flightIdx rdata mem buf)
    {d : ℕ} (hd : d < len) (hidx : reading = true → d < idx) :
    landed inFlight flightIdx rdata buf d = want d := by
  unfold landed
  split_ifs with hf
  · rw [hf.2, h.flight hf.1]
  · exact h.buffered d hd hidx (fun h1 h2 => hf ⟨h1, h2⟩)

/-- **An edge of the reading stage**, which ends after the last index. -/
theorem advance (h : BurstRead len want true idx inFlight flightIdx rdata mem buf)
    {reading' : Bool} {idx' : ℕ} {mem' : ℕ → α}
    (hnext : reading' = true → idx' = idx + 1 ∧ idx + 1 < len)
    (hlast : reading' = false → idx + 1 = len)
    (hmem : ∀ d < len, mem' d = mem d) :
    BurstRead len want reading' idx' true idx (mem idx) mem'
      (landed inFlight flightIdx rdata buf) where
  idx_lt hr := by
    obtain ⟨rfl, hlt⟩ := hnext hr
    exact hlt
  unread hr d hle hd := by
    obtain ⟨rfl, -⟩ := hnext hr
    rw [hmem d hd]
    exact h.unread rfl d (by omega) hd
  flight _ := h.unread rfl idx (Nat.le_refl _) (h.idx_lt rfl)
  flight_idx _ hr := (hnext hr).1.symm
  buffered d hd hidx hne := by
    refine landed_eq h hd (fun _ => ?_)
    have hne := hne rfl
    cases hr : reading' with
    | true =>
      obtain ⟨rfl, -⟩ := hnext hr
      have := hidx hr
      omega
    | false =>
      have := hlast hr
      omega

/-- **An edge after the reading stage.** -/
theorem drain (h : BurstRead len want false idx inFlight flightIdx rdata mem buf)
    {idx' flightIdx' : ℕ} {rdata' : α} {mem' : ℕ → α} :
    BurstRead len want false idx' false flightIdx' rdata' mem'
      (landed inFlight flightIdx rdata buf) where
  idx_lt := nofun
  unread := nofun
  flight := nofun
  flight_idx := nofun
  buffered _ hd _ _ := landed_eq h hd nofun

/-- **The copy is complete** when nothing is read or in flight any more. -/
theorem buffer_eq (h : BurstRead len want false idx false flightIdx rdata mem buf) :
    ∀ d < len, buf d = want d := fun _ hd => h.buffered _ hd nofun nofun

end BurstRead

end Clocked
end SloPPC603
