import SloPPC603.Lsu.Transfer

/-!
# An access that crosses words

The serialized lane makes what the unit hands it in one or two beats, the second for the
bytes past the first word.  In little-endian mode the first beat holds the most significant
byte, and the second is in the other word of the EA's doubleword.

* `LaneAccess`, `LaneAccess.request`, `LaneAccess.loadValue` — the data path of
  `ppc_special.sv`.
* `LaneAccess.store_crossing`, `LaneAccess.load_crossing` — its bytes, at any EA.
-/

namespace SloPPC603
namespace Lsu

open Words (byte writeBytes)

/-! ## The data path of the lane -/

/-- An access of the lane: the fields of its operation, its address and its data. -/
structure LaneAccess where
  memSize : MemSize
  memReverse : Bool
  memSigned : Bool
  memLeft : Bool
  /-- `mem_bytes`. -/
  memBytes : BitVec 2
  write : Bool
  /-- `le_access`. -/
  le : Bool
  ea : BitVec 32
  /-- `c_q`. -/
  c : BitVec 32

namespace LaneAccess

variable (a : LaneAccess)

/-- `mem_nbytes`. -/
def nbytes : ℕ :=
  if a.memLeft && a.memBytes ≠ 0 then a.memBytes.toNat else Lsu.nbytes a.memSize

/-- `mem_mask`. -/
def mask : BitVec 4 :=
  match a.nbytes with
  | 1 => 0b1000
  | 2 => 0b1100
  | 3 => 0b1110
  | _ => 0b1111

/-- `first_ea`. -/
def firstEa : BitVec 32 := if a.le then (a.ea + BitVec.ofNat 32 (a.nbytes - 1)) ^^^ 7 else a.ea

/-- `mem_offset`. -/
def offset : ℕ := (a.firstEa.extractLsb' 0 2).toNat

/-- `mem_crossing`, with the datapath for it. -/
def crossing : Bool := decide (4 < a.offset + a.nbytes)

/-- `access_ea` of a beat. -/
def accessEa (beat : Bool) : BitVec 32 :=
  if !beat then a.firstEa
  else if a.le then a.ea.extractLsb' 3 29 ++ BitVec.ofBool (!a.ea.getLsbD 2) ++ 0#2
  else (a.ea.extractLsb' 2 30 + 1) ++ 0#2

/-- `store_left`. -/
def storeLeft : BitVec 32 :=
  if a.memLeft then a.c
  else (if a.memReverse then swapBytes a.c a.nbytes else a.c) <<< (8 * (4 - a.nbytes))

/-- `store_window`. -/
def storeWindow : BitVec 64 := (a.storeLeft ++ 0#32) >>> (8 * a.offset)

/-- `strobe_window`. -/
def strobeWindow : BitVec 8 := (a.mask ++ 0#4) >>> a.offset

/-- The request of a beat: `dmem_req_addr_o`, `dmem_req_wdata_o` and `dmem_req_wstrb_o`. -/
def request (beat : Bool) : Request where
  write := a.write
  addr := (a.accessEa beat).extractLsb' 2 30 ++ 0#2
  wdata := 0#32 ++ (if beat then a.storeWindow.extractLsb' 0 32 else a.storeWindow.extractLsb' 32 32)
  wstrb := 0#4 ++ (if beat then a.strobeWindow.extractLsb' 0 4 else a.strobeWindow.extractLsb' 4 4)

/-- The requests of the access, in order. -/
def requests : List Request :=
  if a.crossing then [a.request false, a.request true] else [a.request false]

/-- The memory after a store. -/
def apply (m : Memory) : Memory := a.requests.foldl (fun m q => q.apply m) m

/-- `load_window`: the words the beats have read. -/
def loadWindow (w : Bool → BitVec 32) : BitVec 64 :=
  if a.crossing then w false ++ w true else w false ++ 0#32

/-- `load_value`. -/
def loadValue (w : Bool → BitVec 32) : BitVec 32 :=
  let left := (a.loadWindow w <<< (8 * a.offset)).extractLsb' 32 32 &&&
    ((if a.mask.getLsbD 3 then 0xff#8 else 0#8) ++ (if a.mask.getLsbD 2 then 0xff#8 else 0#8) ++
      (if a.mask.getLsbD 1 then 0xff#8 else 0#8) ++ (if a.mask.getLsbD 0 then 0xff#8 else 0#8))
  let right := left >>> (8 * (4 - a.nbytes))
  if a.memLeft then left
  else if a.memReverse then swapBytes right a.nbytes
  else if a.memSigned then (right.extractLsb' 0 16).signExtend 32
  else right

/-! ## Where the bytes are -/

section Places

/-- The word of an address. -/
def wordOf (e : BitVec 32) : BitVec 32 := e.extractLsb' 2 30 ++ 0#2

/-- A small offset that may leave the doubleword. -/
theorem append_add_carry (hi : BitVec 29) (lo : BitVec 3) {c : ℕ} (hc : c < 8) :
    hi ++ lo + BitVec.ofNat 32 c =
      (if lo.toNat + c < 8 then hi else hi + 1) ++ (lo + BitVec.ofNat 3 c) := by
  split_ifs with h
  · exact append_add hi lo h
  · apply BitVec.eq_of_toNat_eq
    have hlo := lo.isLt
    have hhi := hi.isLt
    have h1 : (1 : BitVec 29).toNat = 1 := rfl
    rw [BitVec.toNat_add, BitVec.toNat_append, BitVec.toNat_append, BitVec.toNat_add,
      BitVec.toNat_add, BitVec.toNat_ofNat, BitVec.toNat_ofNat, h1,
      ← Nat.shiftLeft_add_eq_or_of_lt hlo,
      ← Nat.shiftLeft_add_eq_or_of_lt (Nat.mod_lt _ (by decide)), Nat.shiftLeft_eq]
    omega

theorem wordOf_append (hi : BitVec 29) (lo : BitVec 3) :
    wordOf (hi ++ lo) = hi ++ (BitVec.ofBool (lo.getLsbD 2) ++ 0#2 : BitVec 3) := by
  have hlow : ∀ lo : BitVec 3,
      (BitVec.ofBool (lo.getLsbD 2) ++ 0#2 : BitVec 3).toNat = lo.toNat / 4 * 4 := by decide
  have hlo := lo.isLt
  have hhi := hi.isLt
  apply BitVec.eq_of_toNat_eq
  have hlt : (BitVec.ofBool (lo.getLsbD 2) ++ 0#2 : BitVec 3).toNat < 2 ^ 3 :=
    (BitVec.ofBool (lo.getLsbD 2) ++ 0#2 : BitVec 3).isLt
  have hz : (0#2).toNat = 0 := rfl
  rw [wordOf, BitVec.toNat_append, BitVec.toNat_append, BitVec.extractLsb'_toNat,
    ← Nat.shiftLeft_add_eq_or_of_lt (by rw [hz]; decide), ← Nat.shiftLeft_add_eq_or_of_lt hlt,
    hlow, BitVec.toNat_append, ← Nat.shiftLeft_add_eq_or_of_lt hlo, Nat.shiftRight_eq_div_pow,
    Nat.shiftLeft_eq, Nat.shiftLeft_eq, hz]
  omega

/-- The word of an address and the offset within it are the address. -/
theorem wordOf_add (e : BitVec 32) : wordOf e + BitVec.ofNat 32 (e.extractLsb' 0 2).toNat = e := by
  apply BitVec.eq_of_toNat_eq
  have he := e.isLt
  have hz : (0#2).toNat = 0 := rfl
  rw [BitVec.toNat_add, wordOf, BitVec.toNat_append, BitVec.extractLsb'_toNat,
    ← Nat.shiftLeft_add_eq_or_of_lt (by rw [hz]; decide), hz, BitVec.toNat_ofNat,
    BitVec.extractLsb'_toNat, Nat.shiftRight_eq_div_pow, Nat.shiftRight_zero, Nat.shiftLeft_eq]
  omega

/-- The word after an address. -/
theorem wordOf_next (e : BitVec 32) :
    wordOf ((e.extractLsb' 2 30 + 1) ++ 0#2) = wordOf e + BitVec.ofNat 32 4 := by
  apply BitVec.eq_of_toNat_eq
  have he := e.isLt
  have hz : (0#2).toNat = 0 := rfl
  have h1 : (1 : BitVec 30).toNat = 1 := rfl
  have h4 : (BitVec.ofNat 32 4).toNat = 4 := rfl
  have hlt : (0#2).toNat < 2 ^ 2 := by decide
  rw [BitVec.toNat_add, wordOf, wordOf, BitVec.toNat_append, BitVec.toNat_append,
    BitVec.extractLsb'_toNat, BitVec.toNat_append, ← Nat.shiftLeft_add_eq_or_of_lt hlt,
    ← Nat.shiftLeft_add_eq_or_of_lt hlt, ← Nat.shiftLeft_add_eq_or_of_lt hlt, BitVec.toNat_add,
    BitVec.extractLsb'_toNat, Nat.shiftRight_eq_div_pow, Nat.shiftRight_eq_div_pow,
    Nat.shiftLeft_eq, Nat.shiftLeft_eq, Nat.shiftLeft_eq, hz, h1, h4]
  omega

/-- The byte `d` places past the first: in the first word, or the second. -/
def byteAt (a : LaneAccess) (d : ℕ) : BitVec 32 :=
  if a.offset + d < 4 then wordOf (a.accessEa false) + BitVec.ofNat 32 (a.offset + d)
  else wordOf (a.accessEa true) + BitVec.ofNat 32 (a.offset + d - 4)

/-- The low bits of a little-endian access: its first word, and its other one. -/
theorem little_low {n k : ℕ} (hn : n ≤ 4) (hk : k < n) : ∀ lo : BitVec 3,
    let first := (lo + BitVec.ofNat 3 (n - 1)) ^^^ 7
    let pos := (first.extractLsb' 0 2).toNat + (n - 1 - k)
    let word : BitVec 3 := BitVec.ofBool (first.getLsbD 2) ++ 0#2
    let other : BitVec 3 := BitVec.ofBool (!lo.getLsbD 2) ++ 0#2
    if pos < 4 then (lo.toNat + (n - 1) < 8 ↔ lo.toNat + k < 8) ∧ word.toNat + pos < 8 ∧
      word + BitVec.ofNat 3 pos = (lo + BitVec.ofNat 3 k) ^^^ 7
    else lo.toNat + k < 8 ∧ other.toNat + (pos - 4) < 8 ∧
      other + BitVec.ofNat 3 (pos - 4) = (lo + BitVec.ofNat 3 k) ^^^ 7 := by
  obtain rfl | rfl | rfl | rfl : n = 1 ∨ n = 2 ∨ n = 3 ∨ n = 4 := by omega
  all_goals
    interval_cases k
    all_goals decide

/-- **The bytes of the beats are where the architecture has them.** -/
theorem byteAt_eq (a : LaneAccess) (hn : 0 < a.nbytes ∧ a.nbytes ≤ 4) {k : ℕ}
    (hk : k < a.nbytes) : a.byteAt (a.nbytes - 1 - k) = byteAddr a.le a.nbytes a.ea k := by
  cases hle : a.le with
  | false =>
    have hfirst : a.firstEa = a.ea := by simp [firstEa, hle]
    have hword := wordOf_add a.ea
    have hoff : a.offset = (a.ea.extractLsb' 0 2).toNat := by rw [offset, hfirst]
    have hea : byteAddr false a.nbytes a.ea k =
        wordOf a.ea + BitVec.ofNat 32 (a.offset + (a.nbytes - 1 - k)) := by
      rw [byteAddr, if_neg Bool.false_ne_true, BitVec.ofNat_add, ← BitVec.add_assoc, hoff, hword]
    rw [hea, byteAt]
    split_ifs with h4
    · simp [accessEa, hfirst]
    · have hsum : a.offset + (a.nbytes - 1 - k) = 4 + (a.offset + (a.nbytes - 1 - k) - 4) := by omega
      have hnext : wordOf (a.accessEa true) = wordOf a.ea + BitVec.ofNat 32 4 := by
        rw [← wordOf_next, accessEa, hle]
        rfl
      conv_rhs => rw [hsum, BitVec.ofNat_add, ← BitVec.add_assoc]
      rw [hnext]
  | true =>
    obtain ⟨hpos, hn4⟩ := hn
    have hlow := little_low hn4 hk (a.ea.extractLsb' 0 3)
    have hfirst : a.firstEa =
        (if (a.ea.extractLsb' 0 3).toNat + (a.nbytes - 1) < 8 then a.ea.extractLsb' 3 29
          else a.ea.extractLsb' 3 29 + 1) ++
          ((a.ea.extractLsb' 0 3 + BitVec.ofNat 3 (a.nbytes - 1)) ^^^ 7) := by
      have h7 : (7 : BitVec 32) = (7 : BitVec 3).setWidth 32 := by decide
      rw [firstEa, hle, if_pos rfl]
      conv_lhs => rw [← ea_append a.ea]
      rw [append_add_carry _ _ (by omega), h7, append_xor]
    have hplace : byteAddr true a.nbytes a.ea k =
        (if (a.ea.extractLsb' 0 3).toNat + k < 8 then a.ea.extractLsb' 3 29
          else a.ea.extractLsb' 3 29 + 1) ++
          ((a.ea.extractLsb' 0 3 + BitVec.ofNat 3 k) ^^^ 7) := by
      have h7 : (7 : BitVec 32) = (7 : BitVec 3).setWidth 32 := by decide
      rw [byteAddr, if_pos rfl]
      conv_lhs => rw [← ea_append a.ea]
      rw [append_add_carry _ _ (by omega), h7, append_xor]
    have hoff : a.offset =
        (((a.ea.extractLsb' 0 3 + BitVec.ofNat 3 (a.nbytes - 1)) ^^^ 7).extractLsb' 0 2).toNat := by
      rw [offset, hfirst]
      congr 1
      apply BitVec.eq_of_getLsbD_eq
      intro j hj
      rw [BitVec.getLsbD_extractLsb', BitVec.getLsbD_append, if_pos (by omega),
        BitVec.getLsbD_extractLsb']
    rw [hplace, byteAt, hoff]
    dsimp only at hlow
    by_cases h4 : (((a.ea.extractLsb' 0 3 + BitVec.ofNat 3 (a.nbytes - 1)) ^^^ 7).extractLsb' 0
        2).toNat + (a.nbytes - 1 - k) < 4
    · rw [if_pos h4] at hlow ⊢
      obtain ⟨hcarry, hlt, heq⟩ := hlow
      have hacc : a.accessEa false = a.firstEa := by simp [accessEa]
      rw [hacc, hfirst, wordOf_append, append_add _ _ hlt, heq]
      simp only [hcarry]
    · rw [if_neg h4] at hlow ⊢
      obtain ⟨hcarry, hlt, heq⟩ := hlow
      have hacc : a.accessEa true = a.ea.extractLsb' 3 29 ++
          (BitVec.ofBool (!(a.ea.extractLsb' 0 3).getLsbD 2) ++ 0#2 : BitVec 3) := by
        have hbit : (a.ea.extractLsb' 0 3).getLsbD 2 = a.ea.getLsbD 2 := by simp
        rw [accessEa, hle, hbit]
        apply BitVec.eq_of_getLsbD_eq
        intro j hj
        simp only [Bool.not_true, Bool.false_eq_true, if_false, if_true, BitVec.getLsbD_append]
        split_ifs <;> first | rfl | omega
      have hsame : ∀ b : Bool, (BitVec.ofBool b ++ 0#2 : BitVec 3).getLsbD 2 = b := by decide
      rw [hacc, wordOf_append, hsame, append_add _ _ hlt, heq, if_pos hcarry]

end Places

/-! ## The bytes of an access at any EA -/

section Bytes

/-- The lane makes the access `x`, of no multiple or string. -/
structure Makes (x : Operation) (a : LaneAccess) : Prop where
  decoded : x.Decoded
  fp : x.fp = false
  size : a.memSize = x.size
  reverse : a.memReverse = x.reverse
  signed : a.memSigned = x.signed
  plain : a.memLeft = false
  write : a.write = x.store
  le : a.le = x.le
  ea : a.ea = x.ea
  data : x.store = true → a.c = x.value.setWidth 32

variable {x : Operation} {a : LaneAccess}

theorem nbytes_eq (h : Makes x a) : a.nbytes = x.bytes := by
  rw [nbytes, h.plain, h.size, Operation.bytes, h.fp]
  rfl

theorem nbytes_cases (h : Makes x a) : x.bytes = 1 ∨ x.bytes = 2 ∨ x.bytes = 4 := by
  rw [Operation.bytes, h.fp, if_neg Bool.false_ne_true]
  cases x.size <;> decide

theorem offset_lt (a : LaneAccess) : a.offset < 4 := (a.firstEa.extractLsb' 0 2).isLt

/-- The place of byte `k` of the register past the first byte of the access's first word. -/
def pos (x : Operation) (a : LaneAccess) (k : ℕ) : ℕ := a.offset + (x.bytes - 1 - x.rank k)

/-- The bytes of a beat. -/
def beatBytes (x : Operation) (a : LaneAccess) (beat : Bool) : Set ℕ :=
  {k | k < x.bytes ∧ (pos x a k < 4 ↔ beat = false)}

/-- The lane of a byte. -/
def lane (x : Operation) (a : LaneAccess) (k : ℕ) : ℕ :=
  if pos x a k < 4 then 3 - pos x a k else 7 - pos x a k

theorem place_eq_byteAt (h : Makes x a) {k : ℕ} (hk : k < x.bytes) :
    x.place k = a.byteAt (x.bytes - 1 - x.rank k) := by
  have hn := nbytes_eq h
  have hcases := nbytes_cases h
  have hrank := Operation.rank_lt hk
  have heq := byteAt_eq a (by omega) (show x.rank k < a.nbytes by omega)
  rw [hn, h.le, h.ea] at heq
  rw [heq]
  rfl

theorem request_lanes (a : LaneAccess) (beat : Bool) : (a.request beat).lanes = 4 := by
  have hup : ∀ s : BitVec 4, (0#4 ++ s).extractLsb' 4 4 = 0#4 := by decide
  rw [Request.lanes, request]
  exact if_pos (hup _)

theorem mask_getLsbD (h : Makes x a) (j : ℕ) :
    a.mask.getLsbD j = decide (4 - x.bytes ≤ j ∧ j < 4) := by
  by_cases hj : j < 4
  · rw [mask, nbytes_eq h]
    obtain hn | hn | hn := nbytes_cases h <;> rw [hn] <;> interval_cases j <;> rfl
  · rw [BitVec.getLsbD_of_ge _ _ (by omega), eq_comm, decide_eq_false_iff_not]
    omega

/-- The strobes of a beat are those of its bytes. -/
theorem strobed_iff (h : Makes x a) (beat : Bool) (l : ℕ) :
    (a.request beat).strobed l = true ↔ l < 4 ∧
      8 - x.bytes - a.offset ≤ l + (if beat then 0 else 4) ∧
        l + (if beat then 0 else 4) < 8 - a.offset := by
  have hcases := nbytes_cases h
  have hoff := offset_lt a
  have hwin : ∀ j < 8, a.strobeWindow.getLsbD j =
      decide (8 - x.bytes - a.offset ≤ j ∧ j < 8 - a.offset) := by
    intro j hj
    rw [strobeWindow, BitVec.getLsbD_ushiftRight, BitVec.getLsbD_append, mask_getLsbD h]
    split_ifs with h4
    · rw [BitVec.getLsbD_zero, eq_comm, decide_eq_false_iff_not]
      omega
    · rw [decide_eq_decide]
      omega
  rw [Request.strobed, request_lanes, Bool.and_eq_true, decide_eq_true_eq]
  refine and_congr_right fun hl => ?_
  have hbit : (a.request beat).wstrb.getLsbD l =
      a.strobeWindow.getLsbD (l + if beat then 0 else 4) := by
    rw [request]
    dsimp only
    rw [BitVec.getLsbD_append, if_pos hl]
    cases beat with
    | false => rw [if_neg Bool.false_ne_true, if_neg Bool.false_ne_true,
        BitVec.getLsbD_extractLsb', decide_eq_true hl, Bool.true_and, Nat.add_comm]
    | true => rw [if_pos rfl, if_pos rfl, BitVec.getLsbD_extractLsb', decide_eq_true hl,
        Bool.true_and, Nat.zero_add, Nat.add_zero]
  have h8 : l + (if beat then 0 else 4) < 8 := by split_ifs <;> omega
  rw [hbit, hwin _ h8, decide_eq_true_eq]

/-- **The request of a beat has the beat's bytes in their lanes.** -/
theorem request_fits (h : Makes x a) (beat : Bool) :
    (a.request beat).Fits (beatBytes x a beat) (lane x a) x.place := by
  have hcases := nbytes_cases h
  have hoff := offset_lt a
  have hbeat : ∀ k ∈ beatBytes x a beat, if beat then 4 ≤ pos x a k ∧ pos x a k < 8
      else pos x a k < 4 := by
    intro k hk
    have hlt : k < x.bytes := hk.1
    have hrank := Operation.rank_lt hlt
    have h8 : pos x a k < 8 := by unfold pos; omega
    cases beat with
    | false => exact hk.2.2 rfl
    | true =>
      refine ⟨?_, h8⟩
      by_contra hno
      exact nomatch (hk.2.1 (by omega))
  refine ⟨?_, ?_, ?_⟩
  · intro k hk
    have := hbeat k hk
    rw [request_lanes, lane]
    split_ifs <;> omega
  · intro k hk
    have hp := hbeat k hk
    have haddr : (a.request beat).addr = wordOf (a.accessEa beat) := rfl
    rw [place_eq_byteAt h hk.1, Request.laneAddr, request_lanes, haddr, byteAt, lane]
    change _ = if pos x a k < 4 then _ + BitVec.ofNat 32 (pos x a k)
      else _ + BitVec.ofNat 32 (pos x a k - 4)
    cases beat with
    | false =>
      have hp' : pos x a k < 4 := hp
      have hsum : 4 - 1 - (3 - pos x a k) = pos x a k := by omega
      rw [if_pos hp', if_pos hp', hsum]
    | true =>
      have hp' : 4 ≤ pos x a k ∧ pos x a k < 8 := hp
      have hsum : 4 - 1 - (7 - pos x a k) = pos x a k - 4 := by omega
      rw [if_neg (by omega), if_neg (by omega), hsum]
  · intro l
    rw [strobed_iff h]
    constructor
    · rintro ⟨hl, hge, hlt⟩
      obtain ⟨t, ht⟩ : ∃ t, t = if beat then 0 else 4 := ⟨_, rfl⟩
      rw [← ht] at hge hlt
      -- the byte whose lane this is
      have hr : l + t - (8 - x.bytes - a.offset) < x.bytes := by omega
      have hpos : pos x a (x.rank (l + t - (8 - x.bytes - a.offset))) = 7 - (l + t) := by
        rw [pos, Operation.rank_rank hr]
        omega
      refine ⟨_, ⟨Operation.rank_lt hr, ?_⟩, ?_⟩
      · rw [hpos]
        cases beat with
        | false =>
          have ht4 : t = 4 := ht
          exact iff_of_true (by omega) rfl
        | true =>
          have ht0 : t = 0 := ht
          exact iff_of_false (by omega) (by decide)
      · rw [lane, hpos]
        cases beat with
        | false =>
          have ht4 : t = 4 := ht
          rw [if_pos (by omega)]
          omega
        | true =>
          have ht0 : t = 0 := ht
          rw [if_neg (by omega)]
          omega
    · rintro ⟨k, hk, rfl⟩
      have hp := hbeat k hk
      have hrank := Operation.rank_lt hk.1
      cases beat with
      | false =>
        have hp' : pos x a k < 4 := hp
        have hposk : pos x a k = a.offset + (x.bytes - 1 - x.rank k) := rfl
        rw [lane, if_pos hp', if_neg Bool.false_ne_true]
        omega
      | true =>
        have hp' : 4 ≤ pos x a k ∧ pos x a k < 8 := hp
        have hposk : pos x a k = a.offset + (x.bytes - 1 - x.rank k) := rfl
        rw [lane, if_neg (by omega), if_pos rfl]
        omega

/-- The byte of the window that byte `k` of the register is. -/
theorem byte_storeWindow (h : Makes x a) {k : ℕ} (hk : k < x.bytes) :
    byte (8 - x.bytes - a.offset + x.rank k) a.storeWindow = byte k a.c := by
  have hcases := nbytes_cases h
  have hoff := offset_lt a
  have hrank := Operation.rank_lt hk
  have hsource : byte (x.rank k) (if x.reverse then swapBytes a.c x.bytes else a.c) = byte k a.c := by
    cases hrev : x.reverse with
    | false => rw [Operation.rank, hrev, if_neg Bool.false_ne_true, if_neg Bool.false_ne_true]
    | true =>
      have hne := (h.decoded.reverse hrev).2
      have h24 : x.bytes = 2 ∨ x.bytes = 4 := by
        rw [← nbytes_eq h, nbytes, h.plain, h.size]
        cases hs : x.size with
        | byte => exact absurd hs hne
        | half => exact Or.inl rfl
        | word => exact Or.inr rfl
      have hback : x.bytes - 1 - (x.bytes - 1 - k) = k := by omega
      rw [Operation.rank, hrev, if_pos rfl, if_pos rfl, byte_swapBytes h24 (by omega), hback]
  rw [← hsource, storeWindow, storeLeft, h.plain, if_neg Bool.false_ne_true, h.reverse, nbytes_eq h]
  refine Words.byte_eq_of_getLsbD fun t ht => ?_
  have hidx : 8 * a.offset + (8 * (8 - x.bytes - a.offset + x.rank k) + t) - 32 - 8 * (4 - x.bytes) =
      8 * x.rank k + t := by omega
  rw [BitVec.getLsbD_ushiftRight, BitVec.getLsbD_append, if_neg (by omega),
    BitVec.getLsbD_shiftLeft, hidx, decide_eq_true (by omega), decide_eq_false (by omega)]
  simp

/-- The window's byte is the one in the byte's lane. -/
theorem byte_wdata (h : Makes x a) {beat : Bool} {k : ℕ} (hk : k ∈ beatBytes x a beat) :
    byte (lane x a k) (a.request beat).wdata =
      byte (8 - x.bytes - a.offset + x.rank k) a.storeWindow := by
  have hcases := nbytes_cases h
  have hoff := offset_lt a
  have hrank := Operation.rank_lt hk.1
  have hpos : pos x a k = a.offset + (x.bytes - 1 - x.rank k) := rfl
  refine Words.byte_eq_of_getLsbD fun t ht => ?_
  rw [request, lane]
  dsimp only
  rw [BitVec.getLsbD_append]
  cases beat with
  | false =>
    have hp : pos x a k < 4 := hk.2.2 rfl
    have hidx : 32 + (8 * (3 - pos x a k) + t) =
        8 * (8 - x.bytes - a.offset + x.rank k) + t := by omega
    rw [if_pos hp, if_pos (by omega), if_neg Bool.false_ne_true, BitVec.getLsbD_extractLsb', hidx,
      decide_eq_true (by omega), Bool.true_and]
  | true =>
    have hp : ¬ pos x a k < 4 := fun hlt => nomatch (hk.2.1 hlt)
    have hidx : 0 + (8 * (7 - pos x a k) + t) =
        8 * (8 - x.bytes - a.offset + x.rank k) + t := by omega
    rw [if_neg hp, if_pos (by omega), if_pos rfl, BitVec.getLsbD_extractLsb', hidx,
      decide_eq_true (by omega), Bool.true_and]

theorem place_injOn (x : Operation) (a : LaneAccess) (beat : Bool) : Set.InjOn x.place (beatBytes x a beat) :=
  (Operation.place_injOn x).mono fun _ hk => hk.1

/-- **A beat writes its bytes.** -/
theorem apply_request (h : Makes x a) (hstore : x.store = true) (beat : Bool) (m : Memory) :
    (a.request beat).apply m =
      writeBytes (beatBytes x a beat) x.place (fun k => byte k x.value) m := by
  refine Request.apply_of_fits (request_fits h beat) (place_injOn x a beat) (fun k hk => ?_) m
  have hcases := nbytes_cases h
  have hlt : k < x.bytes := hk.1
  rw [byte_wdata h hk, byte_storeWindow h hlt, h.data hstore, Words.byte_setWidth _ (by omega)]

theorem beatBytes_all (x : Operation) (a : LaneAccess) :
    beatBytes x a false ∪ beatBytes x a true = {k | k < x.bytes} := by
  ext k
  constructor
  · rintro (hk | hk) <;> exact hk.1
  · intro hk
    by_cases hp : pos x a k < 4
    · exact Or.inl ⟨hk, iff_of_true hp rfl⟩
    · exact Or.inr ⟨hk, iff_of_false hp (by decide)⟩

theorem beatBytes_single (h : Makes x a) (hc : a.crossing = false) :
    beatBytes x a false = {k | k < x.bytes} := by
  rw [crossing, nbytes_eq h, decide_eq_false_iff_not] at hc
  ext k
  refine ⟨fun hk => hk.1, fun hk => ⟨hk, iff_of_true ?_ rfl⟩⟩
  have hk' : k < x.bytes := hk
  unfold pos
  omega

/-- **A store writes its bytes where the architecture has them, in one beat or two.** -/
theorem store_crossing (h : Makes x a) (hstore : x.store = true) (m : Memory) :
    a.apply m = writeBytes {k | k < x.bytes} x.place (fun k => byte k x.value) m ∧
      ∀ b, (∃ q ∈ a.requests, ∃ l, q.strobed l = true ∧ q.laneAddr l = b) ↔
        ∃ k < x.bytes, x.place k = b := by
  have hstrobed := fun beat => Request.strobed_of_fits (request_fits h beat)
  rw [apply, requests]
  cases hc : a.crossing with
  | false =>
    have hall := beatBytes_single h hc
    constructor
    · simp only [Bool.false_eq_true, if_false, List.foldl_cons, List.foldl_nil]
      rw [apply_request h hstore, hall]
    · intro b
      simp only [Bool.false_eq_true, if_false, List.mem_singleton, exists_eq_left]
      rw [hstrobed, hall]
      rfl
  | true =>
    have hall := beatBytes_all x a
    constructor
    · simp only [if_true, List.foldl_cons, List.foldl_nil]
      rw [apply_request h hstore, apply_request h hstore, ← hall, Words.writeBytes_union]
      rw [hall]
      exact Operation.place_injOn x
    · intro b
      simp only [if_true, List.mem_cons, List.not_mem_nil, or_false, exists_eq_or_imp,
        exists_eq_left]
      rw [hstrobed, hstrobed]
      constructor
      · rintro (⟨k, hk, hb⟩ | ⟨k, hk, hb⟩) <;> exact ⟨k, hk.1, hb⟩
      · rintro ⟨k, hk, hb⟩
        have hmem : k ∈ beatBytes x a false ∪ beatBytes x a true := by
          rw [hall]
          exact hk
        exact hmem.imp (fun hk => ⟨k, hk, hb⟩) fun hk => ⟨k, hk, hb⟩

/-- The beat that moves a byte. -/
def beatOf (x : Operation) (a : LaneAccess) (k : ℕ) : Bool := decide (4 ≤ pos x a k)

theorem mem_beatOf (x : Operation) (a : LaneAccess) {k : ℕ} (hk : k < x.bytes) :
    k ∈ beatBytes x a (beatOf x a k) := by
  refine ⟨hk, ?_⟩
  rw [beatOf, decide_eq_false_iff_not, not_le]

/-- The byte of the window that byte `k` of the register comes from. -/
theorem byte_loadWindow (h : Makes x a) (w : Bool → BitVec 64) {k : ℕ} (hk : k < x.bytes) :
    byte (8 - x.bytes - a.offset + x.rank k) (a.loadWindow fun b => (w b).extractLsb' 0 32) =
      byte (lane x a k) (w (beatOf x a k)) := by
  have hcases := nbytes_cases h
  have hoff := offset_lt a
  have hrank := Operation.rank_lt hk
  have hpos : pos x a k = a.offset + (x.bytes - 1 - x.rank k) := rfl
  refine Words.byte_eq_of_getLsbD fun t ht => ?_
  rw [loadWindow, lane, beatOf]
  by_cases hp : pos x a k < 4
  · have hidx : 8 * (8 - x.bytes - a.offset + x.rank k) + t - 32 =
        8 * (3 - pos x a k) + t := by omega
    rw [if_pos hp, decide_eq_false (by omega)]
    split_ifs <;> rw [BitVec.getLsbD_append, if_neg (by omega), BitVec.getLsbD_extractLsb',
      decide_eq_true (by omega), Bool.true_and, hidx, Nat.zero_add]
  · have hcross : a.crossing = true := by
      rw [crossing, nbytes_eq h, decide_eq_true_eq]
      omega
    have hidx : 8 * (8 - x.bytes - a.offset + x.rank k) + t = 8 * (7 - pos x a k) + t := by omega
    rw [if_neg hp, decide_eq_true (by omega), hcross, if_pos rfl, BitVec.getLsbD_append,
      if_pos (by omega), BitVec.getLsbD_extractLsb', decide_eq_true (by omega), Bool.true_and, hidx,
      Nat.zero_add]

/-- The mask of the bytes of a load. -/
theorem loadMask_getLsbD (h : Makes x a) : ∀ j < 32,
    ((if a.mask.getLsbD 3 then 0xff#8 else 0#8) ++ (if a.mask.getLsbD 2 then 0xff#8 else 0#8) ++
      (if a.mask.getLsbD 1 then 0xff#8 else 0#8) ++ (if a.mask.getLsbD 0 then 0xff#8 else 0#8) :
        BitVec 32).getLsbD j = decide (8 * (4 - x.bytes) ≤ j) := by
  rw [mask, nbytes_eq h]
  obtain hn | hn | hn := nbytes_cases h <;> rw [hn] <;> decide

/-- **A load returns the bytes where the architecture has them, extended.** -/
theorem load_crossing (h : Makes x a) (m : Bool → Memory) :
    a.loadValue (fun b => ((a.request b).read (m b)).extractLsb' 0 32) =
      (x.extended fun k => m (beatOf x a k) (x.place k)).setWidth 32 := by
  have hbytes : x.bytes = Lsu.nbytes x.size := by rw [Operation.bytes, h.fp]; rfl
  have hcases := nbytes_cases h
  have hoff := offset_lt a
  have hread : ∀ k < x.bytes, m (beatOf x a k) (x.place k) =
      byte (8 - x.bytes - a.offset + x.rank k)
        (a.loadWindow fun b => ((a.request b).read (m b)).extractLsb' 0 32) := by
    intro k hk
    rw [byte_loadWindow h _ hk]
    exact (Request.read_of_fits (request_fits h _) _ (mem_beatOf x a hk)).symm
  rw [Operation.extended_congr hread, loadValue]
  simp only [h.plain, h.reverse, h.signed, nbytes_eq h, Bool.false_eq_true, if_false]
  rw [hbytes]
  refine value_of_right h.decoded h.fp (c := fun k => byte (8 - Lsu.nbytes x.size - a.offset + k)
    (a.loadWindow fun b => ((a.request b).read (m b)).extractLsb' 0 32)) fun k hk => ?_
  rw [← hbytes]
  by_cases hlt : k < x.bytes
  · rw [if_pos hlt]
    refine Words.byte_eq_of_getLsbD fun t ht => ?_
    have hidx : 32 + (8 * (4 - x.bytes) + (8 * k + t)) - 8 * a.offset =
        8 * (8 - x.bytes - a.offset + k) + t := by omega
    rw [BitVec.getLsbD_ushiftRight, BitVec.getLsbD_and, loadMask_getLsbD h _ (by omega),
      BitVec.getLsbD_extractLsb', BitVec.getLsbD_shiftLeft, hidx, decide_eq_true (by omega),
      decide_eq_true (by omega), decide_eq_false (by omega), decide_eq_true (by omega)]
    simp
  · rw [if_neg hlt]
    apply BitVec.eq_of_getLsbD_eq
    intro t ht
    rw [Words.getLsbD_byte _ _ ht, BitVec.getLsbD_ushiftRight, BitVec.getLsbD_of_ge _ _ (by omega)]
    simp

/-- The bytes the lane moves for an access. -/
structure Moves (x : Operation) (a : LaneAccess) : Prop where
  /-- A store writes its bytes, each where the architecture has it, and strobes no other. -/
  written : x.store = true → ∀ m : Memory,
    a.apply m = writeBytes {k | k < x.bytes} x.place (fun k => byte k x.value) m ∧
      ∀ b, (∃ q ∈ a.requests, ∃ l, q.strobed l = true ∧ q.laneAddr l = b) ↔
        ∃ k < x.bytes, x.place k = b
  /-- A load returns the bytes there were as each beat was read. -/
  loaded : ∀ m : Bool → Memory,
    a.loadValue (fun b => ((a.request b).read (m b)).extractLsb' 0 32) =
      (x.extended fun k => m (beatOf x a k) (x.place k)).setWidth 32
  /-- A load of what a store of its kind has stored returns the register stored. -/
  roundTrip : x.store = true → ∀ y b, Makes y b → x.SameKind y → ∀ m : Memory,
    b.loadValue (fun t => ((b.request t).read (a.apply m)).extractLsb' 0 32) =
      (y.returned x.value).setWidth 32

theorem moves_of_makes (h : Makes x a) : Moves x a := by
  refine ⟨store_crossing h, load_crossing h, fun hstore y b hy hkind m => ?_⟩
  have hstored : ∀ k < y.bytes, a.apply m (y.place k) = byte k x.value := by
    intro k hk
    rw [← hkind.bytes] at hk
    rw [(store_crossing h hstore m).1, ← hkind.place]
    exact Words.writeBytes_place (Operation.place_injOn x) hk
  rw [load_crossing hy fun _ => a.apply m, Operation.extended_congr hstored,
    Operation.extended_value]

end Bytes

end LaneAccess

/-! ## Every access -/

section Every

open Clocked

/-- **Bytes go where the architecture has them and come back as they went**, through the unit
and, for what it leaves to the lane, through the lane. -/
theorem bytes_agree (core : Core) (cfg : Config) (ops : ℕ → Operation) (m : Memory)
    (r : Run (machine cfg)) (n : ℕ)
    (h : r.ObeysRecord (Port.start m) (Port.update cfg) (Moving core cfg ops) (n + 1)) :
    Moved cfg ops m r n ∧ ∀ x a, LaneAccess.Makes x a → LaneAccess.Moves x a :=
  ⟨bytes_move core cfg ops m r n h, fun _ _ => LaneAccess.moves_of_makes⟩

/-- The load of `snoopRun`, answered. -/
def loadRun : Run (machine snoopConfig) where
  start := resetState
  initial := rfl
  input k :=
    if k = 0 then
      { dispatchValid := true, uop := .loadWord, baseSnoop := true
        base := ⟨false, 0, 3, default⟩, offset := 8 }
    else
      { wake := { valid := true, tag := 3, value := 0x1000 }, wakeEarlyValue := 0x1000
        reqReady := true, rspValid := true, rspRdata := 0x08090a0b }

/-- `lwz` from 0x1008. -/
def wordLoad : Operation where
  toAccess := waitingSlot.access 0x1000 0
  store := false
  reverse := false
  signed := false
  value := 0

theorem bytes_agree_loadRun :
    ∃ y, (loadRun.state 3).r = some y ∧ y.value = 0x08090a0b := by
  have hformed : Formed ⟨true, false⟩ snoopConfig waitingSlot 0x1000 0 (loadRun.input 0) :=
    ⟨by decide, fun _ => rfl, Or.inr (by decide), fun _ => Or.inl rfl, by decide, by decide,
      by decide, by decide, rfl, rfl, rfl, fun _ => by decide, rfl, rfl, rfl, rfl⟩
  have hmoving : loadRun.ObeysRecord (Port.start fun a => a.setWidth 8) (Port.update snoopConfig)
      (Moving ⟨true, false⟩ snoopConfig fun _ => wordLoad) 3 := by
    intro k hk
    have hserves : Serves ⟨true, false⟩ snoopConfig (fun _ => wordLoad.toAccess) (loadRun.state k)
        (loadRun.input k) := by
      obtain rfl | rfl | rfl : k = 0 ∨ k = 1 ∨ k = 2 := by omega
      · refine ⟨rfl, by decide, by decide, fun _ => ⟨_, _, _, hformed, rfl⟩, ?_, fun _ _ _ => rfl⟩
        rintro e - - w (rfl | rfl) hvalid
        · exact absurd hvalid (by decide)
        · exact absurd hvalid (by decide)
      · refine ⟨rfl, fun _ _ => rfl, by decide, fun hfire => absurd hfire (by decide), ?_,
          fun _ _ _ => rfl⟩
        rintro e - - w (rfl | rfl) hvalid - -
        · rfl
        · exact absurd hvalid (by decide)
      · refine ⟨rfl, fun _ _ => rfl, by decide, fun hfire => absurd hfire (by decide), ?_,
          fun _ _ _ => rfl⟩
        rintro e - - w (rfl | rfl) hvalid - -
        · rfl
        · exact absurd hvalid (by decide)
    have hstore : ∀ e ∈ (loadRun.state k).p1 ++
        dispatched snoopConfig (loadRun.state k) (loadRun.input k), e.store = false := by
      obtain rfl | rfl | rfl : k = 0 ∨ k = 1 ∨ k = 2 := by omega
      all_goals decide
    have hsupplied : ∀ e ∈ (loadRun.state k).p1 ++
        dispatched snoopConfig (loadRun.state k) (loadRun.input k),
          Supplied (fun _ => wordLoad) (loadRun.input k) e :=
      fun e he _ hst => absurd ((hstore e he).symm.trans hst) (by decide)
    obtain rfl | rfl | rfl : k = 0 ∨ k = 1 ∨ k = 2 := by omega
    · have hdecoded : ∃ (dcfg : Flags.DecodeConfig) (insn : BitVec 32),
          (loadRun.input 0).uop.memSize = MemSize.ofDecode (Decode.decode dcfg insn).memSize ∧
            (loadRun.input 0).uop.memReverse = (Decode.decode dcfg insn).memReverse ∧
              (loadRun.input 0).uop.memSigned = (Decode.decode dcfg insn).memSigned :=
        ⟨⟨false, false, false, false, false, false, false, false, false, false, false, false, false,
          false, false, false, false, false, false, false, false, false⟩, 0x80030008, by decide⟩
      exact ⟨by decide, hserves, fun _ => ⟨hdecoded, by decide, by decide, by decide, by decide⟩,
        hsupplied, by decide, fun hretire => absurd hretire (by decide)⟩
    · exact ⟨by decide, hserves, fun hfire => absurd hfire (by decide), hsupplied, by decide,
        fun hretire => absurd hretire (by decide)⟩
    · refine ⟨by decide, hserves, fun hfire => absurd hfire (by decide), hsupplied, by decide, ?_⟩
      intro _ _ _ _ v hv
      have hread : (port snoopConfig (fun a => a.setWidth 8) loadRun 2).read 0 false =
          some 0x08090a0b := by decide
      exact Option.some.inj (hread.symm.trans hv)
  have hmoved := (bytes_agree ⟨true, false⟩ snoopConfig _ _ loadRun 2 hmoving).1
  obtain ⟨y, hy⟩ : ∃ y, (loadRun.state 3).r = some y := Option.isSome_iff_exists.1 (by decide)
  obtain ⟨c, hc, hval⟩ := hmoved.loaded y hy rfl
  have hmemory : ∀ k < 2, (port snoopConfig (fun a => a.setWidth 8) loadRun k).memory =
      fun a => a.setWidth 8 := by
    intro k hk
    obtain rfl | rfl : k = 0 ∨ k = 1 := by omega
    · rfl
    · rfl
  have hbytes : ∀ j < wordLoad.bytes,
      (port snoopConfig (fun a => a.setWidth 8) loadRun (c j)).memory (wordLoad.place j) =
        (wordLoad.place j).setWidth 8 := fun j hj => by rw [hmemory _ (hc j hj).1]
  refine ⟨y, hy, hval.trans ?_⟩
  rw [Operation.extended_congr hbytes]
  decide

end Every

end Lsu
end SloPPC603
