import Mathlib.Tactic.IntervalCases
import SloPPC603.Lsu.Formation
import SloPPC603.Words.Bytes

/-!
# Byte lanes of an access

The port takes a word, or a doubleword where an upper strobe is set, with the byte at the
lowest address in its most significant lane.  An access of `n` bytes is big-endian at its EA;
in little-endian mode its byte of significance `k` is at `(EA + k) XOR 7`, which for an
aligned access is big-endian at EA XOR (8 − n).

* `Operation`, `Operation.place`, `Operation.extended` — an access, where its bytes are and
  what a load of them returns.
* `Request.apply`, `Request.read` — the port over a byte-addressed memory.
* `Operation.lane`, `fits_of_aligned` — the lane of each byte.
-/

namespace SloPPC603
namespace Lsu

open Words (byte ofBytes writeBytes)

/-! ## An access as its instruction names it -/

/-- A byte-addressed memory. -/
abbrev Memory := BitVec 32 → BitVec 8

/-- An access with the register a store reads. -/
structure Operation extends Access where
  store : Bool
  reverse : Bool
  signed : Bool
  value : BitVec 64

/-- The address of the byte of significance `k` of an `n`-byte access. -/
def byteAddr (le : Bool) (n : ℕ) (ea : BitVec 32) (k : ℕ) : BitVec 32 :=
  if le then (ea + BitVec.ofNat 32 k) ^^^ 7 else ea + BitVec.ofNat 32 (n - 1 - k)

namespace Operation

variable (cfg : Config) (x : Operation)

/-- The bytes of the access. -/
def bytes : ℕ := if x.fp then if x.fpDouble then 8 else 4 else nbytes x.size

/-- Where byte `k` of the register is in memory. -/
def place (k : ℕ) : BitVec 32 :=
  byteAddr x.le x.bytes x.ea (if x.reverse then x.bytes - 1 - k else k)

/-- What a load of these bytes returns. -/
def extended (b : ℕ → BitVec 8) : BitVec 64 :=
  let v : BitVec 64 := ofBytes (fun k => if k < x.bytes then b k else 0) 8
  if x.signed then (v.setWidth (8 * x.bytes)).signExtend 64 else v

/-- A doubleword that moves at once. -/
def wide : Bool := cfg.dmemBits = 64 && x.fp && x.fpDouble && x.ea.extractLsb' 0 3 = 0

/-- A doubleword in two beats. -/
def split : Bool := x.fp && x.fpDouble && !x.wide cfg

/-- The bytes a beat moves; the first moves the high word. -/
def beatBytes (second : Bool) : Set ℕ :=
  {k | k < x.bytes ∧ (x.split cfg = true → (k < 4 ↔ second = true))}

/-- What the low bits of the EA are changed by. -/
def munge : BitVec 3 :=
  if !x.le then 0
  else if x.fp then BitVec.ofBool (!x.fpDouble) ++ 0#2
  else 1#1 ++ BitVec.ofBool (nbytes x.size ≠ 4) ++ BitVec.ofBool (nbytes x.size = 1)

/-- The byte offset within the word. -/
def offset : ℕ := (x.ea.extractLsb' 0 2 ^^^ x.munge.extractLsb' 0 2).toNat

/-- The lane of byte `k` of the register. -/
def lane (second : Bool) (k : ℕ) : ℕ :=
  if x.fp then if x.split cfg && !second then k - 4 else k
  else 4 - x.offset - x.bytes + if x.reverse then x.bytes - 1 - k else k

/-- An access the unit makes itself is aligned. -/
def Aligned : Prop :=
  if x.fp then x.ea.extractLsb' 0 2 = 0 ∧ (x.le = true → x.fpDouble = true → x.ea.getLsbD 2 = false)
  else intFast x.size x.ea = true

/-- The instructions there are: no byte access is reversed, only a halfword is signed, and
an FP access is neither. -/
structure Decoded : Prop where
  reverse : x.reverse = true → x.fp = false ∧ x.size ≠ .byte
  signed : x.signed = true → x.fp = false ∧ x.size = .half ∧ x.reverse = false

theorem aligned_of_fast {core : Core} {cfg : Config} {x : Operation}
    (h : x.toAccess.fast core cfg = true) : x.Aligned := by
  unfold Access.fast at h
  unfold Aligned
  split_ifs with hfp
  · simp only [hfp, if_true, Bool.and_eq_true, Bool.not_eq_true', Bool.and_eq_false_iff,
      decide_eq_true_eq] at h
    refine ⟨h.1, fun hle hd => ?_⟩
    rcases h.2 with (hno | hno) | hno
    · rw [hle] at hno
      cases hno
    · rw [hd] at hno
      cases hno
    · exact hno
  · simp only [hfp, Bool.false_eq_true, if_false, Bool.and_eq_true] at h
    exact h.1

end Operation

/-! ## The port -/

namespace Request

/-- The lanes of the request: a doubleword where an upper strobe is set. -/
def lanes (q : Request) : ℕ := if q.wstrb.extractLsb' 4 4 = 0 then 4 else 8

/-- The address of a lane. -/
def laneAddr (q : Request) (l : ℕ) : BitVec 32 := q.addr + BitVec.ofNat 32 (q.lanes - 1 - l)

/-- The lane is written. -/
def strobed (q : Request) (l : ℕ) : Bool := decide (l < q.lanes) && q.wstrb.getLsbD l

/-- The memory after a write. -/
def apply (q : Request) (m : Memory) : Memory := fun a =>
  match (List.range q.lanes).find? fun l => q.strobed l && decide (q.laneAddr l = a) with
  | some l => byte l q.wdata
  | none => m a

/-- What a read returns. -/
def read (q : Request) (m : Memory) : BitVec 64 :=
  ofBytes (fun l => if l < q.lanes then m (q.laneAddr l) else 0) 8

variable {q : Request}

theorem lanes_le (q : Request) : q.lanes ≤ 8 := by
  unfold lanes
  split_ifs <;> decide

/-- Small offsets from an address are different addresses. -/
theorem add_ofNat_inj {a : BitVec 32} {j k : ℕ} (hj : j < 8) (hk : k < 8)
    (h : a + BitVec.ofNat 32 j = a + BitVec.ofNat 32 k) : j = k := by
  have hsame := congrArg BitVec.toNat ((BitVec.add_right_inj a).1 h)
  rw [BitVec.toNat_ofNat, BitVec.toNat_ofNat] at hsame
  omega

theorem laneAddr_injOn (q : Request) : Set.InjOn q.laneAddr {l | l < q.lanes} := by
  intro j hj k hk heq
  have hle := lanes_le q
  have hj' : j < q.lanes := hj
  have hk' : k < q.lanes := hk
  have := add_ofNat_inj (by omega) (by omega) heq
  omega

theorem strobed_subset (q : Request) : {l | q.strobed l = true} ⊆ {l | l < q.lanes} := by
  intro l hl
  have hl' : q.strobed l = true := hl
  rw [strobed, Bool.and_eq_true, decide_eq_true_eq] at hl'
  exact hl'.1

/-- **A write is a transfer of its strobed lanes.** -/
theorem apply_eq (q : Request) (m : Memory) :
    q.apply m = writeBytes {l | q.strobed l = true} q.laneAddr (fun l => byte l q.wdata) m := by
  have hinj := (laneAddr_injOn q).mono (strobed_subset q)
  rw [Words.eq_writeBytes_iff hinj]
  constructor
  · intro l hl
    have hl' : q.strobed l = true := hl
    rw [apply]
    cases hfind : (List.range q.lanes).find? fun j =>
        q.strobed j && decide (q.laneAddr j = q.laneAddr l) with
    | none =>
      have hno := List.find?_eq_none.1 hfind l (List.mem_range.2 (strobed_subset q hl))
      simp [hl'] at hno
    | some j =>
      have hj := List.find?_some hfind
      rw [Bool.and_eq_true, decide_eq_true_eq] at hj
      rw [hinj hj.1 hl hj.2]
  · intro a ha
    rw [apply]
    cases hfind : (List.range q.lanes).find? fun j =>
        q.strobed j && decide (q.laneAddr j = a) with
    | none => rfl
    | some j =>
      have hj := List.find?_some hfind
      rw [Bool.and_eq_true, decide_eq_true_eq] at hj
      exact absurd hj.2 (ha j hj.1)

theorem byte_read (q : Request) (m : Memory) {l : ℕ} (h : l < q.lanes) :
    byte l (q.read m) = m (q.laneAddr l) := by
  have hle := lanes_le q
  rw [read, Words.byte_ofBytes _ (by omega), if_pos h]

/-- A request has the bytes of `S` in its lanes, each at its place, and no other strobe. -/
structure Fits (S : Set ℕ) (lane : ℕ → ℕ) (place : ℕ → BitVec 32) (q : Request) : Prop where
  lane_lt : ∀ k ∈ S, lane k < q.lanes
  addr : ∀ k ∈ S, q.laneAddr (lane k) = place k
  strobe : ∀ l, q.strobed l = true ↔ ∃ k ∈ S, lane k = l

section Fits

variable {S : Set ℕ} {lane : ℕ → ℕ} {place : ℕ → BitVec 32}

/-- **A fitting write writes its bytes and nothing else.** -/
theorem apply_of_fits (h : q.Fits S lane place) (hinj : Set.InjOn place S) {b : ℕ → BitVec 8}
    (hdata : ∀ k ∈ S, byte (lane k) q.wdata = b k) (m : Memory) :
    q.apply m = writeBytes S place b m := by
  rw [apply_eq]
  refine Words.writeBytes_congr hinj ((laneAddr_injOn q).mono (strobed_subset q)) ?_ ?_
  · intro k hk
    exact ⟨_, (h.strobe _).2 ⟨k, hk, rfl⟩, h.addr k hk, hdata k hk⟩
  · intro l hl
    obtain ⟨k, hk, rfl⟩ := (h.strobe l).1 hl
    exact ⟨k, hk, (h.addr k hk).symm⟩

/-- The addresses a fitting request strobes are those of its bytes. -/
theorem strobed_of_fits (h : q.Fits S lane place) (a : BitVec 32) :
    (∃ l, q.strobed l = true ∧ q.laneAddr l = a) ↔ ∃ k ∈ S, place k = a := by
  constructor
  · rintro ⟨l, hl, rfl⟩
    obtain ⟨k, hk, rfl⟩ := (h.strobe l).1 hl
    exact ⟨k, hk, (h.addr k hk).symm⟩
  · rintro ⟨k, hk, rfl⟩
    exact ⟨_, (h.strobe _).2 ⟨k, hk, rfl⟩, h.addr k hk⟩

/-- **A fitting read returns its bytes in their lanes.** -/
theorem read_of_fits (h : q.Fits S lane place) (m : Memory) {k : ℕ} (hk : k ∈ S) :
    byte (lane k) (q.read m) = m (place k) := by
  rw [byte_read q m (h.lane_lt k hk), h.addr k hk]

end Fits

end Request

/-! ## Addresses within a doubleword -/

section Within

/-- A small offset that stays in the doubleword. -/
theorem append_add (hi : BitVec 29) (lo : BitVec 3) {c : ℕ} (h : lo.toNat + c < 8) :
    hi ++ lo + BitVec.ofNat 32 c = hi ++ (lo + BitVec.ofNat 3 c) := by
  apply BitVec.eq_of_toNat_eq
  have hlo := lo.isLt
  have hhi := hi.isLt
  rw [BitVec.toNat_add, BitVec.toNat_append, BitVec.toNat_append, BitVec.toNat_add,
    BitVec.toNat_ofNat, BitVec.toNat_ofNat, ← Nat.shiftLeft_add_eq_or_of_lt hlo,
    ← Nat.shiftLeft_add_eq_or_of_lt (Nat.mod_lt _ (by decide)), Nat.shiftLeft_eq]
  omega

theorem append_xor (hi : BitVec 29) (lo m : BitVec 3) :
    (hi ++ lo) ^^^ m.setWidth 32 = hi ++ (lo ^^^ m) := by
  have hm : m.setWidth 32 = 0#29 ++ m := by
    rw [BitVec.setWidth_eq_append (by decide)]
    rfl
  rw [hm, BitVec.xor_append, BitVec.xor_zero]

theorem ea_append (ea : BitVec 32) : ea.extractLsb' 3 29 ++ ea.extractLsb' 0 3 = ea := by
  apply BitVec.eq_of_getLsbD_eq
  intro j hj
  rw [BitVec.getLsbD_append, BitVec.getLsbD_extractLsb', BitVec.getLsbD_extractLsb']
  split_ifs with h
  · simp [h]
  · have hidx : 3 + (j - 3) = j := by omega
    have hlt : j - 3 < 29 := by omega
    rw [hidx, decide_eq_true hlt, Bool.true_and]

theorem accessAddr_eq (ea : BitVec 32) (munge : BitVec 3) : accessAddr ea munge =
    ea.extractLsb' 3 29 ++ (BitVec.ofBool (ea.getLsbD 2 ^^ munge.getLsbD 2) ++ 0#2) := by
  apply BitVec.eq_of_getLsbD_eq
  intro j hj
  simp only [accessAddr, BitVec.getLsbD_append]
  split_ifs <;> first | rfl | omega

/-- **The word and the offset within it are the munged address.** -/
theorem accessAddr_add (ea : BitVec 32) (munge : BitVec 3) : accessAddr ea munge +
    BitVec.ofNat 32 (ea.extractLsb' 0 2 ^^^ munge.extractLsb' 0 2).toNat =
      ea ^^^ munge.setWidth 32 := by
  have hlow : ∀ lo m : BitVec 3,
      (BitVec.ofBool (lo.getLsbD 2 ^^ m.getLsbD 2) ++ 0#2 : BitVec 3).toNat +
          (lo.extractLsb' 0 2 ^^^ m.extractLsb' 0 2).toNat < 8 ∧
        (BitVec.ofBool (lo.getLsbD 2 ^^ m.getLsbD 2) ++ 0#2 : BitVec 3) +
          BitVec.ofNat 3 (lo.extractLsb' 0 2 ^^^ m.extractLsb' 0 2).toNat = lo ^^^ m := by
    decide
  have hbit : ea.getLsbD 2 = (ea.extractLsb' 0 3).getLsbD 2 := by simp
  have hlow2 : ea.extractLsb' 0 2 = (ea.extractLsb' 0 3).extractLsb' 0 2 := by
    apply BitVec.eq_of_getLsbD_eq
    intro j hj
    simp [hj]
  rw [accessAddr_eq, hbit, hlow2, append_add _ _ (hlow _ _).1, (hlow _ _).2, ← append_xor,
    ea_append]

end Within

/-! ## The lanes of an access -/

namespace Operation

section Lanes

variable {cfg : Config} {x : Operation}

/-- The address an access is big-endian at: in little-endian mode EA XOR (8 − n). -/
def munged (x : Operation) : BitVec 32 := x.ea ^^^ x.munge.setWidth 32

/-- An aligned little-endian access of `n` bytes is big-endian at EA XOR (8 − n). -/
theorem byteAddr_munge {n k : ℕ} {ea : BitVec 32} {m : BitVec 3} (hk : k < n)
    (h : (n = 1 ∧ m = 7) ∨ (n = 2 ∧ m = 6 ∧ ea.getLsbD 0 = false) ∨
      (n = 4 ∧ m = 4 ∧ ea.extractLsb' 0 2 = 0) ∨ (n = 8 ∧ m = 0 ∧ ea.extractLsb' 0 3 = 0)) :
    byteAddr true n ea k = byteAddr false n (ea ^^^ m.setWidth 32) k := by
  have hlow : ∀ lo : BitVec 3,
      ((n = 1 ∧ m = 7) ∨ (n = 2 ∧ m = 6 ∧ lo.getLsbD 0 = false) ∨
        (n = 4 ∧ m = 4 ∧ lo.extractLsb' 0 2 = 0) ∨ (n = 8 ∧ m = 0 ∧ lo = 0)) →
      lo.toNat + k < 8 ∧ (lo ^^^ m).toNat + (n - 1 - k) < 8 ∧
        (lo + BitVec.ofNat 3 k) ^^^ 7 = (lo ^^^ m) + BitVec.ofNat 3 (n - 1 - k) := by
    intro lo hlo
    rcases hlo with ⟨rfl, rfl⟩ | ⟨rfl, rfl, hl⟩ | ⟨rfl, rfl, hl⟩ | ⟨rfl, rfl, rfl⟩
    · obtain rfl : k = 0 := by omega
      revert lo
      decide
    · revert lo
      interval_cases k <;> decide
    · revert lo
      interval_cases k <;> decide
    · interval_cases k <;> decide
  have hbit : ea.getLsbD 0 = (ea.extractLsb' 0 3).getLsbD 0 := by simp
  have hlow2 : ea.extractLsb' 0 2 = (ea.extractLsb' 0 3).extractLsb' 0 2 := by
    apply BitVec.eq_of_getLsbD_eq
    intro j hj
    simp [hj]
  rw [hbit, hlow2] at h
  obtain ⟨hadd, hadd', heq⟩ := hlow _ h
  have h7 : (7 : BitVec 32) = (7 : BitVec 3).setWidth 32 := by decide
  unfold byteAddr
  rw [if_pos rfl, if_neg Bool.false_ne_true]
  conv_lhs => rw [← ea_append ea]
  conv_rhs => rw [← ea_append ea]
  rw [append_add _ _ hadd, h7, append_xor, append_xor, append_add _ _ hadd', heq]

theorem bytes_le (x : Operation) : 0 < x.bytes ∧ x.bytes ≤ 8 := by
  unfold bytes nbytes
  split_ifs
  · decide
  · decide
  · cases x.size <;> decide

/-- The significance in memory of byte `k` of the register. -/
def rank (x : Operation) (k : ℕ) : ℕ := if x.reverse then x.bytes - 1 - k else k

theorem rank_lt {k : ℕ} (hk : k < x.bytes) : x.rank k < x.bytes := by
  unfold rank
  split_ifs <;> omega

/-- **The bytes of an aligned access are big-endian at its munged address.** -/
theorem place_eq (ha : x.Aligned) {k : ℕ} (hk : k < x.bytes) :
    x.place k = byteAddr false x.bytes x.munged (x.rank k) := by
  have hrank := rank_lt hk
  show byteAddr x.le x.bytes x.ea (x.rank k) = _
  unfold munged
  cases hle : x.le with
  | false =>
    have hm : x.munge = 0 := by simp [munge, hle]
    have hz : x.ea ^^^ (0 : BitVec 3).setWidth 32 = x.ea := BitVec.xor_zero
    rw [hm, hz]
  | true =>
    refine byteAddr_munge hrank ?_
    unfold Aligned at ha
    split_ifs at ha with hfp
    · obtain ⟨hlow, hdouble⟩ := ha
      cases hd : x.fpDouble with
      | false =>
        right; right; left
        simp [bytes, munge, hfp, hle, hd, hlow]
      | true =>
        right; right; right
        refine ⟨by simp [bytes, hfp, hd], by simp [munge, hfp, hle, hd], ?_⟩
        have hbit := hdouble hle hd
        apply BitVec.eq_of_getLsbD_eq
        intro j hj
        have hz : ∀ t < 2, x.ea.getLsbD t = false := by
          intro t ht
          have hz := congrArg (fun b : BitVec 2 => b.getLsbD t) hlow
          simpa [ht] using hz
        rw [BitVec.getLsbD_extractLsb', decide_eq_true hj, Bool.true_and, Nat.zero_add]
        obtain hj2 | rfl : j < 2 ∨ j = 2 := by omega
        · rw [hz j hj2]
          simp
        · rw [hbit]
          rfl
    · have hb : x.bytes = nbytes x.size := by simp [bytes, hfp]
      rw [hb]
      unfold intFast at ha
      cases hs : x.size with
      | byte =>
        left
        simp [munge, hfp, hle, hs, nbytes]
      | half =>
        right; left
        refine ⟨rfl, by simp [munge, hfp, hle, hs, nbytes], ?_⟩
        simp only [hs, Bool.or_eq_true, Bool.and_eq_true, decide_eq_true_eq, Bool.not_eq_true'] at ha
        rcases ha with (hno | ha) | ha
        · cases hno
        · exact ha.2
        · have hz := congrArg (fun b : BitVec 2 => b.getLsbD 0) ha
          simpa using hz
      | word =>
        right; right; left
        refine ⟨rfl, by simp [munge, hfp, hle, hs, nbytes], ?_⟩
        simpa [hs] using ha

/-- The strobes of an access. -/
def strobes (cfg : Config) (x : Operation) : BitVec 8 :=
  if x.fp then if x.wide cfg then 0xff else 0x0f else 0#4 ++ (laneMask x.size >>> x.offset)

/-- The request of a beat has the beat's bytes in their lanes. -/
abbrev Fits (cfg : Config) (x : Operation) (second : Bool) (q : Request) : Prop :=
  q.Fits (x.beatBytes cfg second) (x.lane cfg second) x.place

/-- An aligned integer access fits in its word. -/
theorem offset_le (ha : x.Aligned) (hfp : x.fp = false) : x.offset + nbytes x.size ≤ 4 := by
  have hlow : ∀ lo m : BitVec 2, ∀ size : MemSize,
      (size = .byte ∨ (size = .half ∧ lo.getLsbD 0 = m.getLsbD 0) ∨ lo = m) →
        (lo ^^^ m).toNat + nbytes size ≤ 4 := by
    intro lo m size
    revert lo m
    cases size <;> decide
  refine hlow _ _ x.size ?_
  simp only [Aligned, hfp, Bool.false_eq_true, if_false, intFast, Bool.or_eq_true, Bool.and_eq_true,
    decide_eq_true_eq, Bool.not_eq_true'] at ha
  have hmunge : (x.size = .half → x.munge.getLsbD 0 = false) ∧
      (x.size ≠ .byte → x.size ≠ .half → x.munge.extractLsb' 0 2 = 0) := by
    unfold munge
    rw [hfp]
    cases x.le <;> cases x.fpDouble <;> cases x.size <;> decide
  rcases ha with (ha | ⟨hs, ha⟩) | ha
  · exact Or.inl ha
  · refine Or.inr (Or.inl ⟨hs, ?_⟩)
    rw [BitVec.getLsbD_extractLsb', BitVec.getLsbD_extractLsb', ha, hmunge.1 hs]
  · cases hs : x.size with
    | byte => exact Or.inl rfl
    | half =>
      refine Or.inr (Or.inl ⟨rfl, ?_⟩)
      rw [ha, BitVec.getLsbD_extractLsb', hmunge.1 hs]
      rfl
    | word =>
      refine Or.inr (Or.inr ?_)
      rw [ha, hmunge.2 (by simp [hs]) (by simp [hs])]

theorem laneMask_getLsbD (size : MemSize) (j : ℕ) :
    (laneMask size).getLsbD j = decide (4 - nbytes size ≤ j ∧ j < 4) := by
  by_cases hj : j < 4
  · cases size <;> interval_cases j <;> rfl
  · rw [BitVec.getLsbD_of_ge _ _ (by omega), eq_comm, decide_eq_false_iff_not]
    omega

theorem rank_rank {k : ℕ} (hk : k < x.bytes) : x.rank (x.rank k) = k := by
  unfold rank
  split_ifs <;> omega

theorem fits_int (ha : x.Aligned) (hfp : x.fp = false) {q : Request}
    (haddr : q.addr = accessAddr x.ea x.munge) (hstrb : q.wstrb = x.strobes cfg) :
    Fits cfg x false q := by
  have hoff := offset_le ha hfp
  have hbytes : x.bytes = nbytes x.size := by simp [bytes, hfp]
  have hpos := (bytes_le x).1
  have hstrb' : q.wstrb = 0#4 ++ (laneMask x.size >>> x.offset) := by
    rw [hstrb, strobes, hfp, if_neg Bool.false_ne_true]
  have hlanes : q.lanes = 4 := by
    have hup : (0#4 ++ (laneMask x.size >>> x.offset)).extractLsb' 4 4 = 0 := by
      apply BitVec.eq_of_getLsbD_eq
      intro j hj
      rw [BitVec.getLsbD_extractLsb', BitVec.getLsbD_append, if_neg (by omega)]
      simp
    rw [Request.lanes, hstrb', if_pos hup]
  have hlane : ∀ k, x.lane cfg false k = 4 - x.offset - x.bytes + x.rank k := by
    intro k
    rw [lane, hfp, if_neg Bool.false_ne_true]
    rfl
  have hmem : ∀ k, k ∈ x.beatBytes cfg false ↔ k < x.bytes := by
    intro k
    have hsplit : x.split cfg = false := by simp [split, hfp]
    show (k < x.bytes ∧ _) ↔ _
    simp [hsplit]
  have hbit : ∀ l, q.strobed l = true ↔ 4 - x.offset - x.bytes ≤ l ∧ l < 4 - x.offset := by
    intro l
    rw [Request.strobed, hlanes, hstrb', Bool.and_eq_true, decide_eq_true_eq]
    constructor
    · rintro ⟨hl, hb⟩
      rw [BitVec.getLsbD_append, if_pos hl, BitVec.getLsbD_ushiftRight, laneMask_getLsbD,
        decide_eq_true_eq] at hb
      omega
    · intro h
      have hl : l < 4 := by omega
      refine ⟨hl, ?_⟩
      rw [BitVec.getLsbD_append, if_pos hl, BitVec.getLsbD_ushiftRight, laneMask_getLsbD,
        decide_eq_true_eq]
      omega
  refine ⟨?_, ?_, ?_⟩
  · intro k hk
    have := rank_lt ((hmem k).1 hk)
    rw [hlane, hlanes]
    omega
  · intro k hk
    have hrank := rank_lt ((hmem k).1 hk)
    have hmunged : x.munged = accessAddr x.ea x.munge + BitVec.ofNat 32 x.offset :=
      (accessAddr_add x.ea x.munge).symm
    have hsum : x.offset + (x.bytes - 1 - x.rank k) = 4 - 1 - (4 - x.offset - x.bytes + x.rank k) := by
      omega
    rw [place_eq ha ((hmem k).1 hk), byteAddr, if_neg Bool.false_ne_true, hmunged, BitVec.add_assoc,
      ← BitVec.ofNat_add, hsum, Request.laneAddr, haddr, hlanes, hlane]
  · intro l
    rw [hbit]
    constructor
    · intro hl
      have hr : l - (4 - x.offset - x.bytes) < x.bytes := by omega
      refine ⟨x.rank (l - (4 - x.offset - x.bytes)), (hmem _).2 (rank_lt hr), ?_⟩
      rw [hlane, rank_rank hr]
      omega
    · rintro ⟨k, hk, rfl⟩
      have := rank_lt ((hmem k).1 hk)
      rw [hlane]
      omega

/-- The next word is four bytes on. -/
theorem nextWord_eq (ea : BitVec 32) : Access.nextWord ea = ea + BitVec.ofNat 32 4 := by
  apply BitVec.eq_of_toNat_eq
  have h30 : (ea.extractLsb' 2 30).toNat = ea.toNat / 4 := by
    rw [BitVec.extractLsb'_toNat, Nat.shiftRight_eq_div_pow]
    have := ea.isLt
    omega
  have h2 : (ea.extractLsb' 0 2).toNat = ea.toNat % 4 := by
    rw [BitVec.extractLsb'_toNat, Nat.shiftRight_zero]
  have h1 : (1 : BitVec 30).toNat = 1 := rfl
  have h4 : (BitVec.ofNat 32 4).toNat = 4 := rfl
  rw [Access.nextWord, BitVec.toNat_append, ← Nat.shiftLeft_add_eq_or_of_lt (by rw [h2]; omega),
    BitVec.toNat_add, BitVec.toNat_add, h30, h2, Nat.shiftLeft_eq, h1, h4]
  have := ea.isLt
  omega

theorem accessAddr_zero {ea : BitVec 32} (h : ea.extractLsb' 0 2 = 0) : accessAddr ea 0 = ea := by
  have hsum := accessAddr_add ea 0
  rw [h] at hsum
  have hx : ea ^^^ (0 : BitVec 3).setWidth 32 = ea := BitVec.xor_zero
  rw [hx] at hsum
  simpa using hsum

/-- The low word bits of an FP access are not munged, and those of a doubleword not at all. -/
theorem munge_fp (hfp : x.fp = true) : x.munge.extractLsb' 0 2 = 0 ∧
    (x.fpDouble = true → x.munge = 0) := by
  have hm : x.munge = if !x.le then 0 else BitVec.ofBool (!x.fpDouble) ++ 0#2 := by
    rw [munge, hfp, if_pos rfl]
  rw [hm]
  cases x.le <;> cases x.fpDouble <;> decide

/-- A beat whose bytes fill every lane of its request. -/
theorem fits_block (ha : x.Aligned) (hrank : ∀ k, x.rank k = k) {second : Bool} {q : Request}
    {n a d : ℕ} (hlanes : q.lanes = n) (hstrb : ∀ l < n, q.wstrb.getLsbD l = true)
    (haddr : q.addr = x.munged + BitVec.ofNat 32 d) (hn : d + n + a = x.bytes)
    (hmem : ∀ k, k ∈ x.beatBytes cfg second ↔ a ≤ k ∧ k < a + n)
    (hlane : ∀ k, a ≤ k → k < a + n → x.lane cfg second k = k - a) : Fits cfg x second q := by
  refine ⟨?_, ?_, ?_⟩
  · intro k hk
    obtain ⟨hle, hlt⟩ := (hmem k).1 hk
    rw [hlane k hle hlt, hlanes]
    omega
  · intro k hk
    obtain ⟨hle, hlt⟩ := (hmem k).1 hk
    have hsum : d + (n - 1 - (k - a)) = x.bytes - 1 - k := by omega
    rw [place_eq ha (by omega), hrank, byteAddr, if_neg Bool.false_ne_true, Request.laneAddr, haddr,
      hlanes, hlane k hle hlt, BitVec.add_assoc, ← BitVec.ofNat_add, hsum]
  · intro l
    rw [Request.strobed, hlanes, Bool.and_eq_true, decide_eq_true_eq]
    constructor
    · rintro ⟨hl, -⟩
      have hle : a ≤ a + l := by omega
      have hlt : a + l < a + n := by omega
      refine ⟨a + l, (hmem _).2 ⟨hle, hlt⟩, ?_⟩
      rw [hlane _ hle hlt]
      omega
    · rintro ⟨k, hk, rfl⟩
      obtain ⟨hle, hlt⟩ := (hmem k).1 hk
      rw [hlane k hle hlt]
      have hl : k - a < n := by omega
      exact ⟨hl, hstrb _ hl⟩

theorem fits_fp (ha : x.Aligned) (hd : x.Decoded) (hfp : x.fp = true) {second : Bool}
    (hsecond : second = true → x.split cfg = true) {q : Request}
    (haddr : q.addr = accessAddr (x.beat second) x.munge) (hstrb : q.wstrb = x.strobes cfg) :
    Fits cfg x second q := by
  have hrev : x.reverse = false := by
    by_contra hno
    have hint := (hd.reverse (by simpa using hno)).1
    rw [hfp] at hint
    cases hint
  have hrank : ∀ k, x.rank k = k := fun k => by simp [rank, hrev]
  have hlow : x.ea.extractLsb' 0 2 = 0 := by
    unfold Aligned at ha
    rw [if_pos hfp] at ha
    exact ha.1
  obtain ⟨hm2, hmd⟩ := munge_fp hfp
  have hlane : ∀ k, x.lane cfg second k = if x.split cfg && !second then k - 4 else k := by
    intro k
    rw [lane, if_pos hfp]
  have hword : accessAddr x.ea x.munge = x.munged := by
    have hsum := accessAddr_add x.ea x.munge
    rw [hlow, hm2] at hsum
    simpa [munged] using hsum
  have hmem : ∀ k, k ∈ x.beatBytes cfg second ↔
      k < x.bytes ∧ (x.split cfg = true → (k < 4 ↔ second = true)) := fun k => Iff.rfl
  rw [strobes, if_pos hfp] at hstrb
  cases hw : x.wide cfg with
  | true =>
    have hsplit : x.split cfg = false := by simp [split, hw]
    have hno : second = false := by
      by_contra hs
      rw [hsecond (by simpa using hs)] at hsplit
      cases hsplit
    have hbytes : x.bytes = 8 := by
      simp only [wide, Bool.and_eq_true] at hw
      simp [bytes, hfp, hw.1.2]
    rw [hw, if_pos rfl] at hstrb
    rw [hno] at haddr
    refine fits_block (n := 8) (a := 0) (d := 0) ha hrank (by rw [Request.lanes, hstrb]; rfl) ?_ ?_
      (by omega) ?_ ?_
    · intro l hl
      rw [hstrb]
      interval_cases l <;> rfl
    · rw [haddr]
      exact hword.trans (BitVec.add_zero _).symm
    · intro k
      rw [hmem, hsplit, hbytes]
      simp
    · intro k _ _
      rw [hlane, hsplit]
      rfl
  | false =>
    rw [hw, if_neg Bool.false_ne_true] at hstrb
    have hlanes : q.lanes = 4 := by rw [Request.lanes, hstrb]; rfl
    have hon : ∀ l < 4, q.wstrb.getLsbD l = true := by
      intro l hl
      rw [hstrb]
      interval_cases l <;> rfl
    cases hdouble : x.fpDouble with
    | false =>
      have hsplit : x.split cfg = false := by simp [split, hdouble]
      have hno : second = false := by
        by_contra hs
        rw [hsecond (by simpa using hs)] at hsplit
        cases hsplit
      have hbytes : x.bytes = 4 := by simp [bytes, hfp, hdouble]
      rw [hno] at haddr
      refine fits_block (a := 0) (d := 0) ha hrank hlanes hon ?_ (by omega) ?_ ?_
      · rw [haddr]
        exact hword.trans (BitVec.add_zero _).symm
      · intro k
        rw [hmem, hsplit, hbytes]
        simp
      · intro k _ _
        rw [hlane, hsplit]
        rfl
    | true =>
      have hsplit : x.split cfg = true := by simp [split, hfp, hdouble, hw]
      have hbytes : x.bytes = 8 := by simp [bytes, hfp, hdouble]
      have hmunged : x.munged = x.ea := by
        rw [munged, hmd hdouble]
        exact BitVec.xor_zero
      rw [hmd hdouble] at haddr
      cases second with
      | false =>
        refine fits_block (a := 4) (d := 0) ha hrank hlanes hon ?_ (by omega) ?_ ?_
        · rw [haddr, hmunged]
          exact (accessAddr_zero hlow).trans (BitVec.add_zero _).symm
        · intro k
          rw [hmem, hsplit, hbytes]
          simp only [true_implies, Bool.false_eq_true, iff_false]
          omega
        · intro k _ _
          rw [hlane, hsplit]
          rfl
      | true =>
        have hnext : (Access.nextWord x.ea).extractLsb' 0 2 = 0 := by
          rw [Access.nextWord, hlow]
          apply BitVec.eq_of_getLsbD_eq
          intro j hj
          rw [BitVec.getLsbD_extractLsb', BitVec.getLsbD_append, if_pos (by omega)]
          simp
        refine fits_block (a := 0) (d := 4) ha hrank hlanes hon ?_ (by omega) ?_ ?_
        · rw [haddr, hmunged, ← nextWord_eq]
          exact accessAddr_zero hnext
        · intro k
          rw [hmem, hsplit, hbytes]
          simp only [true_implies, iff_true]
          omega
        · intro k _ _
          rw [hlane, hsplit]
          rfl

/-- **The request of an aligned access has its bytes in its lanes.** -/
theorem fits_of_aligned (ha : x.Aligned) (hd : x.Decoded) {second : Bool}
    (hsecond : second = true → x.split cfg = true) {q : Request}
    (haddr : q.addr = accessAddr (x.beat second) x.munge) (hstrb : q.wstrb = x.strobes cfg) :
    Fits cfg x second q := by
  cases hfp : x.fp with
  | true => exact fits_fp ha hd hfp hsecond haddr hstrb
  | false =>
    have hno : second = false := by
      by_contra hs
      have hsplit := hsecond (by simpa using hs)
      rw [split, hfp] at hsplit
      cases hsplit
    subst hno
    exact fits_int ha hfp haddr hstrb

/-- **The bytes of an access are at different addresses.** -/
theorem place_injOn (x : Operation) : Set.InjOn x.place {k | k < x.bytes} := by
  intro j hj k hk heq
  have hj' : j < x.bytes := hj
  have hk' : k < x.bytes := hk
  have hle := (bytes_le x).2
  have hrank : x.rank j = x.rank k → j = k := by
    intro h
    rw [← rank_rank hj', h, rank_rank hk']
  have hrj := rank_lt hj'
  have hrk := rank_lt hk'
  have heq' : byteAddr x.le x.bytes x.ea (x.rank j) = byteAddr x.le x.bytes x.ea (x.rank k) := heq
  unfold byteAddr at heq'
  split_ifs at heq'
  · exact hrank (Request.add_ofNat_inj (by omega) (by omega) ((BitVec.xor_left_inj _).1 heq'))
  · have := Request.add_ofNat_inj (by omega) (by omega) heq'
    exact hrank (by omega)

theorem place_injOn_beat (x : Operation) (second : Bool) :
    Set.InjOn x.place (x.beatBytes cfg second) :=
  (place_injOn x).mono fun _ hk => hk.1

end Lanes

/-! ## A store and a load of one kind -/

section Kind

variable {x y : Operation}

/-- Accesses of one kind at one EA. -/
structure SameKind (x y : Operation) : Prop where
  fp : x.fp = y.fp
  fpDouble : x.fpDouble = y.fpDouble
  size : x.size = y.size
  le : x.le = y.le
  reverse : x.reverse = y.reverse
  ea : x.ea = y.ea

theorem SameKind.bytes (h : SameKind x y) : x.bytes = y.bytes := by
  rw [Operation.bytes, Operation.bytes, h.fp, h.fpDouble, h.size]

theorem SameKind.place (h : SameKind x y) : x.place = y.place := by
  funext k
  rw [Operation.place, Operation.place, h.le, h.bytes, h.ea, h.reverse]

/-- The low bytes of a register, extended as the load extends them. -/
def returned (x : Operation) (v : BitVec 64) : BitVec 64 :=
  if x.signed then (v.setWidth (8 * x.bytes)).signExtend 64
  else (v.setWidth (8 * x.bytes)).setWidth 64

theorem extended_congr {b c : ℕ → BitVec 8} (h : ∀ k < x.bytes, b k = c k) :
    x.extended b = x.extended c := by
  have hsame : (fun k => if k < x.bytes then b k else 0) = fun k => if k < x.bytes then c k else 0 := by
    funext k
    split_ifs with hk
    · exact h k hk
    · rfl
  rw [extended, extended, hsame]

/-- **The bytes of a register extend to the register.** -/
theorem extended_value (x : Operation) (v : BitVec 64) :
    x.extended (fun k => byte k v) = x.returned v := by
  have hle := (bytes_le x).2
  have hlow : (Words.ofBytes (fun k => if k < x.bytes then byte k v else 0) 8 : BitVec 64) =
      (v.setWidth (8 * x.bytes)).setWidth 64 := by
    refine Words.eq_of_byte (n := 8) (by decide) fun k hk => ?_
    rw [Words.byte_ofBytes _ hk, Words.byte_setWidth _ (by omega)]
    split_ifs with hlt
    · rw [Words.byte_setWidth _ (by omega)]
    · exact (Words.byte_of_le _ (by omega)).symm
  have hcut : ((v.setWidth (8 * x.bytes)).setWidth 64).setWidth (8 * x.bytes) =
      v.setWidth (8 * x.bytes) := by
    rw [BitVec.setWidth_setWidth_of_le _ (by omega), BitVec.setWidth_eq]
  rw [extended, returned, hlow, hcut]

end Kind

end Operation

end Lsu
end SloPPC603
