import SloPPC603.Lsu.Address
import SloPPC603.Lsu.Beats
import SloPPC603.Lsu.Lanes

/-!
# The data of an access

The unit moves a store's bytes to their lanes as it offers or queues it, and a load's from
them as the response comes; a doubleword in two beats keeps the first word until the second.

* `byte_placed`, `byte_taken` — the two moves, byte for byte.
* `Entry.Carries`, `p1Wdata_byte` — an entry against its access, and a store's data.
* `loadValue_eq`, `fpData_eq` — the value of a load from the words its beats returned.
-/

namespace SloPPC603
namespace Lsu

open Words (byte ofBytes writeBytes)

/-! ## The data of an access -/

section Data

open Operation

/-- Bytes the other way round. -/
theorem byte_swapBytes {v : BitVec 32} {n k : ℕ} (hn : n = 2 ∨ n = 4) (hk : k < n) :
    byte k (swapBytes v n) = byte (n - 1 - k) v := by
  apply BitVec.eq_of_getLsbD_eq
  intro t ht
  rw [Words.getLsbD_byte _ _ ht, Words.getLsbD_byte _ _ ht, swapBytes]
  rcases hn with rfl | rfl
  · rw [if_pos rfl]
    simp only [BitVec.getLsbD_append, BitVec.getLsbD_extractLsb']
    interval_cases k
    · rw [if_pos (by omega)]
      simp [ht]
    · rw [if_neg (by omega), if_pos (by omega)]
      simp [ht]
  · rw [if_neg (by decide)]
    simp only [BitVec.getLsbD_append, BitVec.getLsbD_extractLsb']
    interval_cases k
    · rw [if_pos (by omega)]
      simp [ht]
    · rw [if_neg (by omega), if_pos (by omega)]
      simp [ht]
    · rw [if_neg (by omega), if_neg (by omega), if_pos (by omega)]
      have hidx : 8 * 2 + t - 8 - 8 = t := by omega
      simp [ht, hidx]
    · rw [if_neg (by omega), if_neg (by omega), if_neg (by omega)]
      have hidx : 8 * 3 + t - 8 - 8 - 8 = t := by omega
      simp [ht, hidx]

/-- The bytes of a store moved to their lanes. -/
theorem byte_placed {v : BitVec 32} {n off k : ℕ} (hoff : off + n ≤ 4) (hk : k < n) :
    byte (4 - off - n + k) ((0#32 ++ (v <<< (8 * (4 - n))) >>> (8 * off) : BitVec 64)) =
      byte k v := by
  refine Words.byte_eq_of_getLsbD fun t ht => ?_
  have hidx : 8 * off + (8 * (4 - off - n + k) + t) - 8 * (4 - n) = 8 * k + t := by omega
  rw [BitVec.getLsbD_append, if_pos (by omega), BitVec.getLsbD_ushiftRight,
    BitVec.getLsbD_shiftLeft, hidx, decide_eq_true (by omega), decide_eq_false (by omega)]
  simp

/-- The bytes of a load taken from their lanes. -/
theorem byte_taken {v : BitVec 32} {mask : BitVec 32} {n off k : ℕ} (hoff : off + n ≤ 4)
    (hmask : ∀ j < 32, mask.getLsbD j = decide (8 * (4 - n) ≤ j)) :
    byte k (((v <<< (8 * off)) &&& mask) >>> (8 * (4 - n))) =
      if k < n then byte (4 - off - n + k) v else 0 := by
  split_ifs with hk
  · refine Words.byte_eq_of_getLsbD fun t ht => ?_
    have hidx : 8 * (4 - n) + (8 * k + t) - 8 * off = 8 * (4 - off - n + k) + t := by omega
    rw [BitVec.getLsbD_ushiftRight, BitVec.getLsbD_and, BitVec.getLsbD_shiftLeft,
      hmask _ (by omega), hidx, decide_eq_true (by omega), decide_eq_false (by omega),
      decide_eq_true (by omega)]
    simp
  · apply BitVec.eq_of_getLsbD_eq
    intro t ht
    rw [Words.getLsbD_byte _ _ ht, BitVec.getLsbD_ushiftRight, BitVec.getLsbD_of_ge _ _ (by omega)]
    simp

end Data

/-! ## An entry and its access -/

/-- An entry of the unit carries its access; a store's data is there once it is ready. -/
structure Entry.Carries (cfg : Config) (x : Operation) (e : Entry) : Prop where
  decoded : x.Decoded
  plain : e.write = false
  fp : e.fp = x.fp
  store : e.store = x.store
  munge : e.munge = x.munge
  wide : e.wide = x.wide cfg
  split : e.split = x.split cfg
  second : e.second = true → x.split cfg = true
  size : e.uop.memSize = x.size
  reverse : e.fp = false → e.uop.memReverse = x.reverse
  signed : e.fp = false → e.uop.memSigned = x.signed
  data : e.fp = false → e.store = true → e.dataReady = true ∨ e.dataLate = true →
    e.data = x.value.setWidth 32
  waits : e.fp = true ∨ e.store = false → e.dataReady = true

section Head

variable {cfg : Config} {s : State} {i : Input} {x : Operation}

/-- The strobes of the head are those of its access. -/
theorem p1Wstrb_eq (h : (p1Head s).Carries cfg x)
    (hoff : headOffset cfg s i = x.offset) : p1Wstrb cfg s i = x.strobes cfg := by
  rw [p1Wstrb, Operation.strobes, h.fp, h.wide, h.size, hoff]

/-- The reversal of a store's bytes. -/
theorem byte_storeSource (h : (p1Head s).Carries cfg x) (hfp : x.fp = false)
    {k : ℕ} (hk : k < x.bytes) : byte (x.rank k) (storeSource s i) = byte k (headData s i) := by
  have hbytes : x.bytes = nbytes x.size := by simp [Operation.bytes, hfp]
  have hn : p1Nbytes s = x.bytes := by
    rw [p1Nbytes, h.fp, hfp, if_neg Bool.false_ne_true, h.size, hbytes]
  rw [storeSource, h.reverse (h.fp.trans hfp), hn]
  unfold Operation.rank
  cases hrev : x.reverse with
  | false => rfl
  | true =>
    have hne := (h.decoded.reverse hrev).2
    have h24 : x.bytes = 2 ∨ x.bytes = 4 := by
      rw [hbytes]
      cases hs : x.size with
      | byte => exact absurd hs hne
      | half => exact Or.inl rfl
      | word => exact Or.inr rfl
    have hback : x.bytes - 1 - (x.bytes - 1 - k) = k := by omega
    rw [if_pos rfl, if_pos rfl, byte_swapBytes h24 (by omega), hback]

/-- **A store's bytes are in their lanes.** -/
theorem p1Wdata_byte (h : (p1Head s).Carries cfg x) (ha : x.Aligned)
    (hstore : x.store = true) (hoff : x.fp = false → headOffset cfg s i = x.offset)
    (hint : x.fp = false → headData s i = x.value.setWidth 32)
    (hfpData : x.fp = true → i.fpStoreData = x.value) {k : ℕ}
    (hk : k ∈ x.beatBytes cfg (p1Head s).second) :
    byte (x.lane cfg (p1Head s).second k) (p1Wdata cfg s i) = byte k x.value := by
  have hlt : k < x.bytes := hk.1
  cases hfp : x.fp with
  | false =>
    have hbytes : x.bytes = nbytes x.size := by simp [Operation.bytes, hfp]
    have hn : p1Nbytes s = x.bytes := by
      rw [p1Nbytes, h.fp, hfp, if_neg Bool.false_ne_true, h.size, hbytes]
    have hle := Operation.offset_le ha hfp
    rw [← hbytes] at hle
    have hlane : x.lane cfg (p1Head s).second k = 4 - x.offset - x.bytes + x.rank k := by
      rw [Operation.lane, hfp, if_neg Bool.false_ne_true]
      rfl
    have hk4 : 8 * k + 8 ≤ 32 := by omega
    rw [p1Wdata, h.fp, hfp, if_neg Bool.false_ne_true, hn, hoff hfp, hlane,
      byte_placed hle (Operation.rank_lt hlt), byte_storeSource h hfp hlt, hint hfp,
      Words.byte_setWidth _ hk4]
  | true =>
    rw [p1Wdata, h.fp, hfp, if_pos rfl, h.store, hstore, if_pos rfl, hfpData hfp, h.wide, h.split,
      Operation.lane, if_pos hfp]
    -- a word of the doubleword in the low half of the port
    have hlow : ∀ {j b : ℕ}, j < 4 → byte j (0#32 ++ x.value.extractLsb' b 32 : BitVec 64) =
        byte j (x.value.extractLsb' b 32) := by
      intro j b hj
      exact Words.byte_append_low _ _ (by omega)
    have hsplit := hk.2
    have hbytes : x.bytes = if x.fpDouble then 8 else 4 := by simp [Operation.bytes, hfp]
    cases hw : x.wide cfg with
    | true =>
      have hno : x.split cfg = false := by simp [Operation.split, hw]
      rw [hno]
      rfl
    | false =>
      rw [if_neg Bool.false_ne_true]
      cases hs : x.split cfg with
      | false =>
        have hdouble : x.fpDouble = false := by simpa [Operation.split, hfp, hw] using hs
        rw [hdouble, if_neg Bool.false_ne_true] at hbytes
        simp only [Bool.false_and, Bool.false_eq_true, if_false]
        rw [hlow (by omega)]
        exact Words.byte_extractLsb' _ (by omega) (by omega)
      | true =>
        have hdouble : x.fpDouble = true := by
          simp only [Operation.split, Bool.and_eq_true] at hs
          exact hs.1.2
        rw [hdouble, if_pos rfl] at hbytes
        have hhalf := hsplit hs
        cases hsec : (p1Head s).second with
        | false =>
          rw [hsec] at hhalf
          simp only [Bool.false_eq_true, iff_false, not_lt] at hhalf
          simp only [Bool.not_false, Bool.and_self, if_true]
          rw [hlow (by omega)]
          refine Words.byte_eq_of_getLsbD fun t ht => ?_
          have hidx : 32 + (8 * (k - 4) + t) = 8 * k + t := by omega
          rw [BitVec.getLsbD_extractLsb', decide_eq_true (by omega), Bool.true_and, hidx]
        | true =>
          rw [hsec] at hhalf
          simp only [iff_true] at hhalf
          simp only [Bool.not_true, Bool.and_false, Bool.false_eq_true, if_false]
          rw [hlow hhalf]
          exact Words.byte_extractLsb' _ (by omega) (by omega)

end Head

/-! ## Load data -/

/-- The beat that moves a byte. -/
def Operation.beatOf (cfg : Config) (x : Operation) (k : ℕ) : Bool :=
  x.split cfg && decide (k < 4)

theorem Operation.mem_beatOf (cfg : Config) (x : Operation) {k : ℕ} (hk : k < x.bytes) :
    k ∈ x.beatBytes cfg (x.beatOf cfg k) := by
  refine ⟨hk, fun hs => ?_⟩
  rw [beatOf, hs, Bool.true_and, decide_eq_true_eq]

/-- The bytes of a load in the words its beats returned. -/
def Operation.received (cfg : Config) (x : Operation) (w : Bool → BitVec 64) (k : ℕ) : BitVec 8 :=
  byte (x.lane cfg (x.beatOf cfg k) k) (w (x.beatOf cfg k))

section Load

variable {cfg : Config} {s : State} {i : Input} {x : Operation}

theorem loadMask_getLsbD (size : MemSize) : ∀ j < 32,
    (0xff#8 ++ (if nbytes size ≠ 1 then 0xff#8 else 0#8) ++
      (if nbytes size = 4 then 0xffff#16 else 0#16) : BitVec 32).getLsbD j =
      decide (8 * (4 - nbytes size) ≤ j) := by
  cases size <;> decide

theorem byte_swapBytes_high {v : BitVec 32} {k : ℕ} (hk : 2 ≤ k) (hk4 : k < 4) :
    byte k (swapBytes v 2) = 0 := by
  apply BitVec.eq_of_getLsbD_eq
  intro t ht
  rw [Words.getLsbD_byte _ _ ht, swapBytes, if_pos rfl, BitVec.getLsbD_append,
    if_neg (by omega), BitVec.getLsbD_append, if_neg (by omega)]
  simp

/-- A sign extension cut short. -/
theorem signExtend_setWidth (y : BitVec 16) : (y.signExtend 64).setWidth 32 = y.signExtend 32 := by
  apply BitVec.eq_of_getLsbD_eq
  intro j hj
  have hj64 : j < 64 := by omega
  rw [BitVec.getLsbD_setWidth, BitVec.getLsbD_signExtend, BitVec.getLsbD_signExtend,
    decide_eq_true hj, decide_eq_true hj64, Bool.true_and, Bool.true_and]

theorem byte_extended_plain (b : ℕ → BitVec 8) {k : ℕ} (hk : k < 4) :
    byte k ((ofBytes (fun k => if k < x.bytes then b k else 0) 8 : BitVec 64).setWidth 32) =
      if k < x.bytes then b k else 0 := by
  rw [Words.byte_setWidth _ (by omega), Words.byte_ofBytes _ (by omega)]

/-- **The bytes left in the register, reversed or extended.** -/
theorem value_of_right (hd : x.Decoded) (hfp : x.fp = false) {right : BitVec 32}
    {c : ℕ → BitVec 8} (hright : ∀ k < 4, byte k right = if k < nbytes x.size then c k else 0) :
    (if x.reverse then swapBytes right (nbytes x.size)
      else if x.signed then (right.extractLsb' 0 16).signExtend 32
      else right) = (x.extended fun k => c (x.rank k)).setWidth 32 := by
  have hbytes : x.bytes = nbytes x.size := by simp [Operation.bytes, hfp]
  have hplain : ∀ k < 4, byte k ((ofBytes (fun k => if k < x.bytes then c (x.rank k) else 0) 8 :
      BitVec 64).setWidth 32) = if k < nbytes x.size then c (x.rank k) else 0 := by
    intro k hk
    rw [byte_extended_plain (fun k => c (x.rank k)) hk, hbytes]
  rw [Operation.extended]
  cases hrev : x.reverse with
  | true =>
    have hsigned : x.signed = false := by
      by_contra hno
      have hno' := (hd.signed (by simpa using hno)).2.2
      rw [hrev] at hno'
      cases hno'
    have hne := (hd.reverse hrev).2
    rw [if_pos rfl, hsigned, if_neg Bool.false_ne_true]
    refine Words.eq_of_byte (n := 4) (by decide) fun k hk => ?_
    rw [hplain k hk]
    have h24 : nbytes x.size = 2 ∨ nbytes x.size = 4 := by
      cases hs : x.size with
      | byte => exact absurd hs hne
      | half => exact Or.inl rfl
      | word => exact Or.inr rfl
    split_ifs with hlt
    · have hrank : x.rank k = nbytes x.size - 1 - k := by
        rw [Operation.rank, hrev, if_pos rfl, hbytes]
      rw [byte_swapBytes h24 hlt, hright _ (by omega), if_pos (by omega), hrank]
    · obtain h2 | h4 := h24
      · rw [h2]
        exact byte_swapBytes_high (by omega) hk
      · omega
  | false =>
    have hrank : ∀ k, x.rank k = k := fun k => by simp [Operation.rank, hrev]
    have hsame : right = (ofBytes (fun k => if k < x.bytes then c (x.rank k) else 0) 8 :
        BitVec 64).setWidth 32 := by
      refine Words.eq_of_byte (n := 4) (by decide) fun k hk => ?_
      rw [hplain k hk, hright k hk, hrank]
    rw [if_neg Bool.false_ne_true]
    cases hsigned : x.signed with
    | false => exact hsame
    | true =>
      have hhalf : x.bytes = 2 := by rw [hbytes, (hd.signed hsigned).2.1]; rfl
      have h16 : right.extractLsb' 0 16 = (ofBytes (fun k => if k < x.bytes then
          c (x.rank k) else 0) 8 : BitVec 64).setWidth 16 := by
        rw [hsame, ← BitVec.setWidth_eq_extractLsb' (by decide),
          BitVec.setWidth_setWidth_of_le _ (by decide)]
      rw [if_pos rfl, if_pos rfl, h16, ← signExtend_setWidth, hhalf]

/-- **A load's value is what its bytes extend to.** -/
theorem loadValue_eq (h : (p2Head s).Carries cfg x) (ha : x.Aligned)
    (hfp : x.fp = false) (hea : (p2Head s).ea = x.ea) :
    loadValue s i = (x.extended (x.received cfg fun _ => i.rspRdata)).setWidth 32 := by
  have hbytes : x.bytes = nbytes x.size := by simp [Operation.bytes, hfp]
  have hle := Operation.offset_le ha hfp
  have hefp : (p2Head s).fp = false := h.fp.trans hfp
  have hreceived : (x.received cfg fun _ => i.rspRdata) =
      fun k => byte (4 - x.offset - nbytes x.size + x.rank k) i.rspRdata := by
    funext k
    rw [Operation.received, ← hbytes, Operation.lane, hfp, if_neg Bool.false_ne_true]
    rfl
  have hvalue : loadValue s i =
      let right := ((i.rspRdata.extractLsb' 0 32 <<< (8 * x.offset)) &&&
        (0xff#8 ++ (if nbytes x.size ≠ 1 then 0xff#8 else 0#8) ++
          (if nbytes x.size = 4 then 0xffff#16 else 0#16))) >>> (8 * (4 - nbytes x.size))
      if x.reverse then swapBytes right (nbytes x.size)
      else if x.signed then (right.extractLsb' 0 16).signExtend 32
      else right := by
    unfold loadValue
    simp only [h.size, hea, h.munge, h.reverse hefp, h.signed hefp]
    rfl
  rw [hvalue, hreceived]
  refine value_of_right h.decoded hfp (c := fun k =>
    byte (4 - x.offset - nbytes x.size + k) i.rspRdata) fun k hk => ?_
  rw [byte_taken hle (loadMask_getLsbD x.size)]
  split_ifs with hlt
  · exact Words.byte_extractLsb' _ (by omega) (by omega)
  · rfl

/-- The word the unit returns to the FPU. -/
def fpData (s : State) (i : Input) : BitVec 64 :=
  if (p2Head s).wide then i.rspRdata
  else if (p2Head s).split then s.beat0 ++ i.rspRdata.extractLsb' 0 32
  else 0#32 ++ i.rspRdata.extractLsb' 0 32

/-- A byte of a value whose halves are given. -/
theorem byte_halves (hi : BitVec 32) (v : BitVec 64) {k : ℕ} :
    byte k (hi ++ v.extractLsb' 0 32 : BitVec 64) = if k < 4 then byte k v else byte (k - 4) hi := by
  split_ifs with hk
  · refine Words.byte_eq_of_getLsbD fun t ht => ?_
    rw [BitVec.getLsbD_append, if_pos (by omega), BitVec.getLsbD_extractLsb',
      decide_eq_true (by omega), Bool.true_and, Nat.zero_add]
  · refine Words.byte_eq_of_getLsbD fun t ht => ?_
    have hidx : 8 * k + t - 32 = 8 * (k - 4) + t := by omega
    rw [BitVec.getLsbD_append, if_neg (by omega), hidx]

/-- **An FP load's answer is the words its beats returned.** -/
theorem fpData_eq (h : (p2Head s).Carries cfg x) (hfp : x.fp = true)
    (hlast : lastBeat (p2Head s) = true) {w : Bool → BitVec 64}
    (hnow : i.rspRdata = w (p2Head s).second)
    (hbefore : x.split cfg = true → s.beat0 = (w false).extractLsb' 0 32) :
    fpData s i = x.extended (x.received cfg w) := by
  have hsigned : x.signed = false := by
    by_contra hno
    have hint := (h.decoded.signed (by simpa using hno)).1
    rw [hfp] at hint
    cases hint
  have hbytes : x.bytes = if x.fpDouble then 8 else 4 := by simp [Operation.bytes, hfp]
  have hlane : ∀ second k, x.lane cfg second k = if x.split cfg && !second then k - 4 else k := by
    intro second k
    rw [Operation.lane, if_pos hfp]
  rw [Operation.extended, hsigned, if_neg Bool.false_ne_true]
  refine Words.eq_of_byte (n := 8) (by decide) fun k hk => ?_
  rw [Words.byte_ofBytes _ hk, fpData, h.wide, h.split, Operation.received, hlane, Operation.beatOf]
  rw [lastBeat, h.split] at hlast
  cases hw : x.wide cfg with
  | true =>
    have hno : x.split cfg = false := by simp [Operation.split, hw]
    have hsec : (p2Head s).second = false := by
      by_contra hs
      rw [h.second (by simpa using hs)] at hno
      cases hno
    have h8 : x.bytes = 8 := by
      simp only [Operation.wide, Bool.and_eq_true] at hw
      rw [hbytes, hw.1.2, if_pos rfl]
    rw [if_pos rfl, h8, if_pos hk, hno, hnow, hsec]
    rfl
  | false =>
    rw [if_neg Bool.false_ne_true]
    cases hs : x.split cfg with
    | true =>
      have h8 : x.bytes = 8 := by
        simp only [Operation.split, Bool.and_eq_true] at hs
        rw [hbytes, hs.1.2, if_pos rfl]
      rw [hs, Bool.not_true, Bool.false_or] at hlast
      rw [if_pos rfl, byte_halves, h8, if_pos hk, hnow, hlast, hbefore hs, Bool.true_and, Bool.true_and]
      by_cases hk4 : k < 4
      · rw [if_pos hk4, decide_eq_true hk4]
        rfl
      · rw [if_neg hk4, decide_eq_false hk4]
        exact Words.byte_extractLsb' (w false) (by omega) (Nat.zero_add _)
    | false =>
      have hdouble : x.fpDouble = false := by simpa [Operation.split, hfp, hw] using hs
      have h4 : x.bytes = 4 := by rw [hbytes, hdouble, if_neg Bool.false_ne_true]
      have hsec : (p2Head s).second = false := by
        by_contra hsec
        rw [h.second (by simpa using hsec)] at hs
        cases hs
      rw [if_neg Bool.false_ne_true, byte_halves, h4, hnow, hsec]
      by_cases hk4 : k < 4
      · rw [if_pos hk4, if_pos hk4]
        rfl
      · rw [if_neg hk4, if_neg hk4]
        exact Words.byte_zero _

end Load

end Lsu
end SloPPC603
