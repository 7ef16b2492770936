import SloPPC603.Lsu.Serialized

/-!
# What the serialized lane moves

* `Serial.Moves` — the bytes an access moves, each where the architecture has it.
* `Serial.moves` — every access the lane makes.
-/

namespace SloPPC603
namespace Lsu

open Words (byte ofBytes writeBytes)

namespace Serial

/-! ## The bytes of a beat -/

section Bytes

variable {cfg : LaneConfig} {a : Serial} {w : ℕ → BitVec 64}

/-- The beat that moves byte `p`. -/
def beatOf (cfg : LaneConfig) (a : Serial) (p : ℕ) : ℕ :=
  if a.fpuWide cfg then 0 else (a.offset + p) / 4

/-- The lane of byte `p`. -/
def lane (cfg : LaneConfig) (a : Serial) (p : ℕ) : ℕ :=
  if a.fpuWide cfg then 7 - p else 3 - (a.offset + p) % 4

/-- The bytes of a beat. -/
def beatBytes (cfg : LaneConfig) (a : Serial) (j : ℕ) : Set ℕ :=
  {p | p < a.accessBytes ∧ a.beatOf cfg p = j}

theorem wide_spec (h : a.Reaches cfg) (hw : a.fpuWide cfg = true) :
    a.fpu = true ∧ a.accessBytes = 8 ∧ a.ea.extractLsb' 0 3 = 0 ∧ a.offset = 0 ∧
      a.unaligned cfg = false := by
  have hw' := hw
  simp only [fpuWide, Bool.and_eq_true, decide_eq_true_eq] at hw'
  obtain ⟨⟨⟨-, hf⟩, hd⟩, hlow⟩ := hw'
  rcases unaligned_of h hf with ⟨hu, hz⟩ | ⟨-, -, -, hno⟩
  · exact ⟨hf, by simp [accessBytes, hf, hd], hlow, hz, hu⟩
  · rw [hw] at hno
    exact Bool.noConfusion hno

theorem wide_wstrb (hw : a.fpuWide cfg = true) (b : Beats) : (a.request cfg b).wstrb = 0xff#8 :=
  if_pos hw

theorem word_wstrb (hw : a.fpuWide cfg = false) (b : Beats) :
    (a.request cfg b).wstrb = 0#4 ++ a.wstrbWord b :=
  if_neg (by rw [hw]; exact Bool.false_ne_true)

/-- The bytes of a doubleword follow one another. -/
theorem placeAt_wide (h : a.Reaches cfg) (hw : a.fpuWide cfg = true) {p : ℕ} (hp : p < 8) :
    a.placeAt p = a.placeAt 0 + BitVec.ofNat 32 p := by
  obtain ⟨-, h8, hlow, -⟩ := wide_spec h hw
  rw [placeAt_eq h (by omega), placeAt_eq h (by omega), h8]
  unfold byteAddr
  cases a.le with
  | false =>
    rw [if_neg Bool.false_ne_true, if_neg Bool.false_ne_true,
      show 8 - 1 - (8 - 1 - p) = p by omega]
    exact congrArg (· + BitVec.ofNat 32 p) (BitVec.add_zero _).symm
  | true =>
    have h7 : (7 : BitVec 32) = (7 : BitVec 3).setWidth 32 := by decide
    have hfin : ∀ q < 8, (0 : BitVec 3).toNat + (8 - 1 - q) < 8 ∧
        ((0 : BitVec 3) + BitVec.ofNat 3 (8 - 1 - q)) ^^^ 7 = 0 + BitVec.ofNat 3 q ∧
        (0 : BitVec 3).toNat + q < 8 := by decide
    have hea : a.ea = a.ea.extractLsb' 3 29 ++ (0 : BitVec 3) := by
      conv_lhs => rw [← ea_append a.ea, hlow]
    obtain ⟨hlt, heq, hlt'⟩ := hfin p hp
    obtain ⟨hlt0, heq0, -⟩ := hfin 0 (by decide)
    rw [if_pos rfl, if_pos rfl, hea, append_add _ _ hlt, append_add _ _ hlt0, h7, append_xor,
      append_xor, heq, heq0, append_add _ _ (by simpa using hlt')]
    simp

/-- **Each byte is in the lane of its place.** -/
theorem request_place (h : a.Reaches cfg) {j p : ℕ} (hp : p ∈ a.beatBytes cfg j) :
    a.lane cfg p < (a.request cfg (beatAt w j)).lanes ∧
      (a.request cfg (beatAt w j)).laneAddr (a.lane cfg p) = a.placeAt p := by
  obtain ⟨hlt, hj⟩ := hp
  have haddr : (a.request cfg (beatAt w j)).addr = a.wordAddr j := rfl
  cases hw : a.fpuWide cfg with
  | true =>
    obtain ⟨-, h8, -, hz, -⟩ := wide_spec h hw
    have hlanes : (a.request cfg (beatAt w j)).lanes = 8 := by
      rw [Request.lanes, wide_wstrb hw]
      exact if_neg (by decide)
    have hj0 : j = 0 := by rw [← hj, beatOf, if_pos hw]
    have hplace : a.placeAt 0 = a.wordAddr 0 := by
      rw [placeAt, hz]
      exact BitVec.add_zero _
    rw [lane, if_pos hw, Request.laneAddr, hlanes, haddr, hj0, placeAt_wide h hw (by omega), hplace,
      show 8 - 1 - (7 - p) = p by omega]
    exact ⟨by omega, rfl⟩
  | false =>
    have hlanes : (a.request cfg (beatAt w j)).lanes = 4 := by
      have hup : ∀ s : BitVec 4, (0#4 ++ s).extractLsb' 4 4 = 0#4 := by decide
      rw [Request.lanes, word_wstrb hw]
      exact if_pos (hup _)
    rw [beatOf, hw, if_neg Bool.false_ne_true] at hj
    have hmod := Nat.mod_lt (a.offset + p) (show 0 < 4 by decide)
    rw [lane, hw, if_neg Bool.false_ne_true, Request.laneAddr, hlanes, haddr, placeAt, hj,
      show 4 - 1 - (3 - (a.offset + p) % 4) = (a.offset + p) % 4 by omega]
    exact ⟨by omega, rfl⟩

theorem mask_getLsbD (a : Serial) :
    ∀ t < 4, a.mask.getLsbD t = decide (4 - a.nbytes ≤ t) := by
  have hn := a.nbytes_le
  rw [LaneAccess.mask]
  generalize a.nbytes = n at hn
  obtain rfl | rfl | rfl | rfl : n = 1 ∨ n = 2 ∨ n = 3 ∨ n = 4 := by omega
  all_goals decide

theorem strobeWindow_getLsbD (a : Serial) (t : ℕ) :
    a.strobeWindow.getLsbD t = decide (8 - a.nbytes ≤ a.offset + t ∧ a.offset + t < 8) := by
  have hn := a.nbytes_le
  rw [strobeWindow, BitVec.getLsbD_ushiftRight, BitVec.getLsbD_append]
  split_ifs with h4
  · rw [BitVec.getLsbD_zero, eq_comm, decide_eq_false_iff_not]
    omega
  · by_cases h8 : a.offset + t < 8
    · rw [a.mask_getLsbD _ (by omega)]
      exact decide_eq_decide.2 (by omega)
    · rw [BitVec.getLsbD_of_ge _ _ (by omega), eq_comm, decide_eq_false_iff_not]
      omega

/-- **A beat strobes its bytes and no other**, but in an FP load that is not at a word. -/
theorem strobed_iff (h : a.Reaches cfg) (hu : a.unaligned cfg = false) {j : ℕ}
    (hj : j < a.beats cfg) (l : ℕ) : (a.request cfg (beatAt w j)).strobed l = true ↔
      ∃ p ∈ a.beatBytes cfg j, a.lane cfg p = l := by
  have hbeats := (beats_le h).2
  have hoff := a.offset_lt
  have hn := a.nbytes_le
  cases hw : a.fpuWide cfg with
  | true =>
    obtain ⟨-, h8, -⟩ := wide_spec h hw
    have hone : a.beats cfg = 1 := if_pos hw
    have hall : ∀ t, (0xff#8).getLsbD t = decide (t < 8) := by
      intro t
      by_cases ht : t < 8
      · revert t
        decide
      · rw [BitVec.getLsbD_of_ge _ _ (by omega), decide_eq_false ht]
    have hlanes : (a.request cfg (beatAt w j)).lanes = 8 := by
      rw [Request.lanes, wide_wstrb hw]
      exact if_neg (by decide)
    rw [Request.strobed, hlanes, wide_wstrb hw, hall, Bool.and_self, decide_eq_true_eq]
    constructor
    · intro hl
      exact ⟨7 - l, ⟨by omega, by rw [beatOf, if_pos hw]; omega⟩, by rw [lane, if_pos hw]; omega⟩
    · rintro ⟨p, hp, rfl⟩
      rw [lane, if_pos hw]
      omega
  | false =>
    have hlanes : (a.request cfg (beatAt w j)).lanes = 4 := by
      have hup : ∀ s : BitVec 4, (0#4 ++ s).extractLsb' 4 4 = 0#4 := by decide
      rw [Request.lanes, word_wstrb hw]
      exact if_pos (hup _)
    have hbeat : ∀ p, a.beatOf cfg p = (a.offset + p) / 4 :=
      fun p => if_neg (by rw [hw]; exact Bool.false_ne_true)
    have hlane : ∀ p, a.lane cfg p = 3 - (a.offset + p) % 4 :=
      fun p => if_neg (by rw [hw]; exact Bool.false_ne_true)
    have hcount : a.beats cfg = (a.offset + a.accessBytes + 3) / 4 :=
      if_neg (by rw [hw]; exact Bool.false_ne_true)
    -- which lanes a beat strobes, by the byte that would be there
    have hstrobe : ∀ t < 4, (a.request cfg (beatAt w j)).wstrb.getLsbD t =
        decide (a.offset ≤ 4 * j + (3 - t) ∧ 4 * j + (3 - t) < a.offset + a.accessBytes) := by
      intro t ht
      have hword : (a.request cfg (beatAt w j)).wstrb.getLsbD t = (a.wstrbWord (beatAt w j)).getLsbD t := by
        rw [word_wstrb hw, BitVec.getLsbD_append, if_pos ht]
      rw [hword, wstrbWord]
      cases hf : a.fpu with
      | true =>
        have hfull : ∀ t < 4, (0xf : BitVec 4).getLsbD t = true := by decide
        obtain ⟨-, hz⟩ := (unaligned_of h hf).resolve_right fun hno => by simp [hu] at hno
        have hbytes : a.accessBytes = 4 ∨ a.accessBytes = 8 := by
          rcases accessBytes_cases h with ⟨-, -, h8⟩ | ⟨hsame, -, h4⟩
          · exact .inr h8
          · exact .inl (hsame.trans (h4 hf))
        rw [if_pos rfl, hfull t ht, eq_comm, decide_eq_true_eq]
        omega
      | false =>
        have hsame : a.accessBytes = a.nbytes := by simp [accessBytes, hf]
        rw [if_neg Bool.false_ne_true]
        rcases (by omega : j = 0 ∨ j = 1) with rfl | rfl
        · show (a.strobeWindow.extractLsb' 4 4).getLsbD t = _
          rw [BitVec.getLsbD_extractLsb', decide_eq_true ht, Bool.true_and,
            strobeWindow_getLsbD]
          exact decide_eq_decide.2 (by omega)
        · show (a.strobeWindow.extractLsb' 0 4).getLsbD t = _
          rw [BitVec.getLsbD_extractLsb', decide_eq_true ht, Bool.true_and,
            strobeWindow_getLsbD]
          exact decide_eq_decide.2 (by omega)
    rw [Request.strobed, hlanes, Bool.and_eq_true, decide_eq_true_eq]
    constructor
    · rintro ⟨hl, hs⟩
      rw [hstrobe l hl, decide_eq_true_eq] at hs
      refine ⟨4 * j + (3 - l) - a.offset, ⟨by omega, ?_⟩, ?_⟩
      · rw [hbeat]
        omega
      · rw [hlane]
        omega
    · rintro ⟨p, ⟨hp, hjp⟩, rfl⟩
      rw [hbeat] at hjp
      rw [hlane, hstrobe _ (by omega), decide_eq_true_eq]
      omega

/-- **The request of a beat has the beat's bytes in their lanes.** -/
theorem request_fits (h : a.Reaches cfg) (hu : a.unaligned cfg = false) {j : ℕ}
    (hj : j < a.beats cfg) :
    (a.request cfg (beatAt w j)).Fits (a.beatBytes cfg j) (a.lane cfg) a.placeAt :=
  ⟨fun _ hp => (request_place h hp).1, fun _ hp => (request_place h hp).2, strobed_iff h hu hj⟩

end Bytes

/-! ## The bytes of the architecture -/

section Spec

variable (a : Serial)

/-- Where byte `p` of the access is, the most significant one first. -/
def bytePlace (p : ℕ) : BitVec 32 := byteAddr a.le a.accessBytes a.ea (a.accessBytes - 1 - p)

/-- Byte `p` of what a store stores: of its register, from the low end of it and the other way
round if it is reversed, or from the high end for a piece of a string. -/
def storedByte (p : ℕ) : BitVec 8 :=
  if a.fpu then byte (a.accessBytes - 1 - p) a.fpuData
  else if a.memLeft then byte (3 - p) a.c
  else if a.memReverse then byte p a.c
  else byte (a.accessBytes - 1 - p) a.c

/-- What a load of these bytes returns. -/
def loadedValue (b : ℕ → BitVec 8) : BitVec 64 :=
  if a.fpu then (ofBytes (fun k => b (a.accessBytes - 1 - k)) a.accessBytes).setWidth 64
  else if a.memLeft then
    0#32 ++ (ofBytes (fun k => if 4 - a.accessBytes ≤ k then b (3 - k) else 0) 4 : BitVec 32)
  else
    let v := ofBytes (fun k => if a.memReverse then b k else b (a.accessBytes - 1 - k)) a.accessBytes
    0#32 ++ if a.memSigned then v.signExtend 32 else v.setWidth 32

/-- What of a register a load of it returns. -/
def returned (v : BitVec 64) : BitVec 64 :=
  if a.fpu then (v.setWidth (8 * a.accessBytes)).setWidth 64
  else if a.memLeft then
    0#32 ++ (v.extractLsb' 0 32 >>> (8 * (4 - a.accessBytes))) <<< (8 * (4 - a.accessBytes))
  else
    0#32 ++ if a.memSigned then (v.setWidth (8 * a.accessBytes)).signExtend 32
      else (v.setWidth (8 * a.accessBytes)).setWidth 32

end Spec

/-! ## Stores -/

section Stores

variable {cfg : LaneConfig} {a : Serial} {w : ℕ → BitVec 64}

theorem byteAddr_injOn {le : Bool} {n : ℕ} {ea : BitVec 32} (hn : n ≤ 8) :
    Set.InjOn (byteAddr le n ea) {k | k < n} := by
  intro j hj k hk heq
  have hj' : j < n := hj
  have hk' : k < n := hk
  unfold byteAddr at heq
  split_ifs at heq
  · exact Request.add_ofNat_inj (by omega) (by omega) ((BitVec.xor_left_inj 7).1 heq)
  · have := Request.add_ofNat_inj (by omega) (by omega) heq
    omega

theorem bytePlace_injOn (h : a.Reaches cfg) : Set.InjOn a.bytePlace {p | p < a.accessBytes} := by
  intro p hp q hq heq
  have hp' : p < a.accessBytes := hp
  have hq' : q < a.accessBytes := hq
  have hle := accessBytes_le h
  have := byteAddr_injOn hle.2 (show a.accessBytes - 1 - p < a.accessBytes by omega)
    (show a.accessBytes - 1 - q < a.accessBytes by omega) heq
  omega

theorem reversed_bytes (h : a.Reaches cfg) (hrev : a.memReverse = true) (hleft : a.memLeft = false) :
    a.nbytes = 2 ∨ a.nbytes = 4 := by
  have hne := h.reverse hrev
  rw [LaneAccess.nbytes, hleft]
  cases hs : a.memSize with
  | byte => exact absurd hs hne
  | half => exact .inl rfl
  | word => exact .inr rfl

/-- What a store moves is left-justified. -/
theorem byte_storeLeft (h : a.Reaches cfg) (hf : a.fpu = false) {p : ℕ} (hp : p < a.accessBytes) :
    byte (3 - p) a.storeLeft = a.storedByte p := by
  have hsame : a.accessBytes = a.nbytes := by simp [accessBytes, hf]
  have hn := a.nbytes_le
  rw [storedByte, hf, if_neg Bool.false_ne_true, LaneAccess.storeLeft]
  cases hleft : a.memLeft with
  | true => rfl
  | false =>
    rw [if_neg Bool.false_ne_true, if_neg Bool.false_ne_true, Words.byte_shiftLeft (j := a.nbytes - 1 - p) _ (by omega) (by omega), hsame]
    cases hrev : a.memReverse with
    | true =>
      rw [if_pos rfl, if_pos rfl, byte_swapBytes (reversed_bytes h hrev hleft) (by omega)]
      congr 1
      omega
    | false => rw [if_neg Bool.false_ne_true, if_neg Bool.false_ne_true]

/-- **A store's bytes are in their lanes.** -/
theorem byte_wdata (h : a.Reaches cfg) (hu : a.unaligned cfg = false) {j p : ℕ}
    (hp : p ∈ a.beatBytes cfg j) :
    byte (a.lane cfg p) (a.request cfg (beatAt w j)).wdata = a.storedByte p := by
  obtain ⟨hlt, hj⟩ := hp
  have hoff := a.offset_lt
  have hle := accessBytes_le h
  cases hw : a.fpuWide cfg with
  | true =>
    obtain ⟨hf, h8, -⟩ := wide_spec h hw
    have hdata : (a.request cfg (beatAt w j)).wdata = a.fpuData := if_pos hw
    rw [hdata, lane, if_pos hw, storedByte, hf, if_pos rfl, h8]
  | false =>
    have hno : ¬ a.fpuWide cfg = true := by rw [hw]; exact Bool.false_ne_true
    have hdata : (a.request cfg (beatAt w j)).wdata = 0#32 ++ a.wdataWord (beatAt w j) := if_neg hno
    rw [beatOf, if_neg hno] at hj
    have hmod := Nat.mod_lt (a.offset + p) (show 0 < 4 by decide)
    have hlow : byte (a.lane cfg p) (a.request cfg (beatAt w j)).wdata =
        byte (3 - (a.offset + p) % 4) (a.wdataWord (beatAt w j)) := by
      rw [hdata, lane, if_neg hno]
      exact Words.byte_append_low _ _ (by omega)
    rw [hlow, wdataWord]
    cases hf : a.fpu with
    | true =>
      obtain ⟨-, hz⟩ := (unaligned_of h hf).resolve_right fun hno => by simp [hu] at hno
      rw [if_pos rfl, storedByte, hf, if_pos rfl]
      rcases accessBytes_cases h with ⟨-, hd, h8⟩ | ⟨hsame, hd, h4⟩
      · have hj1 : j = 0 ∨ j = 1 := by omega
        rcases hj1 with rfl | rfl
        · rw [hd, h8]
          show byte _ (a.fpuData.extractLsb' 32 32) = _
          exact Words.byte_extractLsb' _ (by omega) (by omega)
        · rw [hd, h8]
          show byte _ (a.fpuData.extractLsb' 0 32) = _
          exact Words.byte_extractLsb' _ (by omega) (by omega)
      · have hd' : a.double = false := by simpa [hf] using hd
        have hn4 := h4 hf
        rw [hd', Bool.false_and, if_neg Bool.false_ne_true]
        exact Words.byte_extractLsb' _ (by omega) (by omega)
    | false =>
      have hsame : a.accessBytes = a.nbytes := by simp [accessBytes, hf]
      have hn := a.nbytes_le
      rw [if_neg Bool.false_ne_true, ← byte_storeLeft h hf hlt]
      have hwindow : ∀ k, 8 * a.offset + 8 * k = 32 + 8 * (3 - p) →
          byte k a.storeWindow = byte (3 - p) a.storeLeft := fun k hk =>
        (Words.byte_ushiftRight (j := 4 + (3 - p)) _ (by omega)).trans
          (Words.byte_append_high _ _ (by omega))
      have hj1 : j = 0 ∨ j = 1 := by omega
      rcases hj1 with rfl | rfl
      · exact (Words.byte_extractLsb' (j := 7 - (a.offset + p)) a.storeWindow (by omega)
          (by omega)).trans (hwindow _ (by omega))
      · exact (Words.byte_extractLsb' (j := 7 - (a.offset + p)) a.storeWindow (by omega)
          (by omega)).trans (hwindow _ (by omega))

theorem bytePlace_eq (h : a.Reaches cfg) {p : ℕ} (hp : p < a.accessBytes) :
    a.placeAt p = a.bytePlace p := placeAt_eq h hp

theorem beatOf_lt (h : a.Reaches cfg) {p : ℕ} (hp : p < a.accessBytes) :
    a.beatOf cfg p < a.beats cfg := by
  have hle := accessBytes_le h
  unfold beatOf beats
  split_ifs <;> omega

/-- **A beat of a store writes its bytes.** -/
theorem apply_request (h : a.Reaches cfg) (hu : a.unaligned cfg = false) {j : ℕ}
    (hj : j < a.beats cfg) (m : Memory) : (a.request cfg (beatAt w j)).apply m =
      writeBytes (a.beatBytes cfg j) a.bytePlace a.storedByte m := by
  have hfits := request_fits (w := w) h hu hj
  have hinj := (bytePlace_injOn h).mono (show a.beatBytes cfg j ⊆ _ from fun _ hp => hp.1)
  have hfits' : (a.request cfg (beatAt w j)).Fits (a.beatBytes cfg j) (a.lane cfg) a.bytePlace :=
    ⟨hfits.lane_lt, fun p hp => (hfits.addr p hp).trans (bytePlace_eq h hp.1), hfits.strobe⟩
  exact Request.apply_of_fits hfits' hinj (fun p hp => byte_wdata h hu hp) m

/-- The beats of a store up to one of them. -/
theorem apply_beats (h : a.Reaches cfg) (hu : a.unaligned cfg = false) (m : Memory) {k : ℕ}
    (hk : k ≤ a.beats cfg) :
    (List.range k).foldl (fun m j => (a.request cfg (beatAt w j)).apply m) m =
      writeBytes {p | p < a.accessBytes ∧ a.beatOf cfg p < k} a.bytePlace a.storedByte m := by
  have hinj := bytePlace_injOn h
  induction k with
  | zero =>
    have hnone : {p | p < a.accessBytes ∧ a.beatOf cfg p < 0} = (∅ : Set ℕ) :=
      Set.eq_empty_of_forall_notMem fun p hp => Nat.not_lt_zero _ hp.2
    rw [hnone]
    funext b
    exact (Words.writeBytes_other fun p hp => absurd hp (Set.notMem_empty p)).symm
  | succ k ih =>
    have hsplit : {p | p < a.accessBytes ∧ a.beatOf cfg p < k + 1} =
        {p | p < a.accessBytes ∧ a.beatOf cfg p < k} ∪ a.beatBytes cfg k := by
      ext p
      constructor
      · rintro ⟨hp, hlt⟩
        rcases Nat.lt_succ_iff_lt_or_eq.1 hlt with hlt | heq
        · exact .inl ⟨hp, hlt⟩
        · exact .inr ⟨hp, heq⟩
      · rintro (⟨hp, hlt⟩ | ⟨hp, rfl⟩)
        · exact ⟨hp, Nat.lt_succ_of_lt hlt⟩
        · exact ⟨hp, Nat.lt_succ_self _⟩
    rw [List.range_succ, List.foldl_append, ih (Nat.le_of_succ_le hk), List.foldl_cons,
      List.foldl_nil, apply_request h hu hk, hsplit, Words.writeBytes_union]
    rw [← hsplit]
    exact hinj.mono fun _ hp => hp.1

end Stores

/-! ## Loads -/

section Loads

variable {cfg : LaneConfig} {a : Serial} {w : ℕ → BitVec 64} {b : ℕ → BitVec 8}

/-- The mask of the bytes of a load. -/
theorem loadMask_getLsbD (a : Serial) : ∀ j < 32,
    ((if a.mask.getLsbD 3 then 0xff#8 else 0#8) ++ (if a.mask.getLsbD 2 then 0xff#8 else 0#8) ++
      (if a.mask.getLsbD 1 then 0xff#8 else 0#8) ++ (if a.mask.getLsbD 0 then 0xff#8 else 0#8) :
        BitVec 32).getLsbD j = decide (8 * (4 - a.nbytes) ≤ j) := by
  have hn := a.nbytes_le
  rw [LaneAccess.mask]
  generalize a.nbytes = n at hn
  obtain rfl | rfl | rfl | rfl : n = 1 ∨ n = 2 ∨ n = 3 ∨ n = 4 := by omega
  all_goals decide

/-- A byte of the low word of a value, above others. -/
theorem byte_high_word {n : ℕ} (v : BitVec 64) (u : BitVec n) {j k : ℕ} (hk : j < 4)
    (hj : 8 * k = n + 8 * j) : byte k (v.extractLsb' 0 32 ++ u) = byte j v :=
  (Words.byte_append_high _ _ hj).trans
    (Words.byte_extractLsb' _ (by omega) (Nat.zero_add _))

theorem byte_low_word {n : ℕ} (u : BitVec n) (v : BitVec 64) {j k : ℕ} (hk : k < 4) (hj : k = j) :
    byte k (u ++ v.extractLsb' 0 32) = byte j v :=
  (Words.byte_append_low _ _ (by omega)).trans (Words.byte_extractLsb' _ (by omega) (by omega))

/-- The bytes of the words that a load of the integer registers reads. -/
theorem byte_loadWindow (hf : a.fpu = false)
    (hb : ∀ p < a.accessBytes, byte (a.lane cfg p) (w (a.beatOf cfg p)) = b p) {p : ℕ}
    (hp : p < a.accessBytes) :
    byte (7 - (a.offset + p)) (if 1 < a.beats cfg
        then (w 0).extractLsb' 0 32 ++ (w (a.beats cfg - 1)).extractLsb' 0 32
        else (w (a.beats cfg - 1)).extractLsb' 0 32 ++ 0#32 : BitVec 64) = b p := by
  have hw : ¬ a.fpuWide cfg = true := by simp [fpuWide, hf]
  have hoff := a.offset_lt
  have hsame : a.accessBytes = a.nbytes := by simp [accessBytes, hf]
  have hn := a.nbytes_le
  have hbeats : a.beats cfg = (a.offset + a.accessBytes + 3) / 4 := if_neg hw
  rw [← hb p hp, lane, if_neg hw, beatOf, if_neg hw]
  by_cases hp4 : a.offset + p < 4
  · have hz : (a.offset + p) / 4 = 0 := Nat.div_eq_of_lt hp4
    rw [hz]
    split_ifs with h1
    · exact byte_high_word _ _ (by omega) (by omega)
    · rw [show a.beats cfg - 1 = 0 by omega]
      exact byte_high_word _ _ (by omega) (by omega)
  · have h1 : (a.offset + p) / 4 = 1 := by omega
    rw [h1, if_pos (by omega), show a.beats cfg - 1 = 1 by omega]
    exact byte_low_word _ _ (by omega) (by omega)

/-- What a load of the integer registers reads, left-justified. -/
theorem byte_left {window : BitVec 64}
    (hwin : ∀ p < a.nbytes, byte (7 - (a.offset + p)) window = b p) {k : ℕ} (hk : k < 4) :
    byte k ((window <<< (8 * a.offset)).extractLsb' 32 32 &&&
      ((if a.mask.getLsbD 3 then 0xff#8 else 0#8) ++ (if a.mask.getLsbD 2 then 0xff#8 else 0#8) ++
        (if a.mask.getLsbD 1 then 0xff#8 else 0#8) ++ (if a.mask.getLsbD 0 then 0xff#8 else 0#8))) =
      if 4 - a.nbytes ≤ k then b (3 - k) else 0 := by
  have hoff := a.offset_lt
  have hn := a.nbytes_le
  by_cases hle : 4 - a.nbytes ≤ k
  · rw [if_pos hle, ← hwin (3 - k) (by omega)]
    refine Words.byte_eq_of_getLsbD fun t ht => ?_
    rw [BitVec.getLsbD_and, loadMask_getLsbD a _ (by omega), BitVec.getLsbD_extractLsb',
      BitVec.getLsbD_shiftLeft, decide_eq_true (by omega), decide_eq_true (by omega),
      decide_eq_false (by omega), decide_eq_true (by omega)]
    simp only [Bool.true_and, Bool.not_false, Bool.and_true]
    congr 1
    omega
  · rw [if_neg hle]
    apply BitVec.eq_of_getLsbD_eq
    intro t ht
    rw [Words.getLsbD_byte _ _ ht, BitVec.getLsbD_and, loadMask_getLsbD a _ (by omega),
      decide_eq_false (by omega), Bool.and_false]
    exact (BitVec.getLsbD_zero).symm

theorem byte_ofBytes_setWidth (f : ℕ → BitVec 8) {n m k : ℕ} (hm : 8 * k + 8 ≤ m) :
    byte k ((ofBytes f n).setWidth m) = if k < n then f k else 0 := by
  rw [Words.byte_setWidth _ hm]
  split_ifs with hk
  · exact Words.byte_ofBytes _ hk
  · exact Words.byte_of_le _ (by omega)

/-- A left-justified value, justified and extended as the load has it. -/
theorem value_of_left (h : a.Reaches cfg) (hf : a.fpu = false) {left : BitVec 32}
    (hleft : ∀ k < 4, byte k left = if 4 - a.nbytes ≤ k then b (3 - k) else 0) :
    0#32 ++ (if a.memLeft then left
      else if a.memReverse then swapBytes (left >>> (8 * (4 - a.nbytes))) a.nbytes
      else if a.memSigned then ((left >>> (8 * (4 - a.nbytes))).extractLsb' 0 16).signExtend 32
      else left >>> (8 * (4 - a.nbytes))) = a.loadedValue b := by
  have hsame : a.accessBytes = a.nbytes := by simp [accessBytes, hf]
  have hn := a.nbytes_le
  have hright : ∀ k < 4, byte k (left >>> (8 * (4 - a.nbytes))) =
      if k < a.nbytes then b (a.nbytes - 1 - k) else 0 := by
    intro k hk
    have hshift : byte k (left >>> (8 * (4 - a.nbytes))) = byte (4 - a.nbytes + k) left := by
      exact Words.byte_ushiftRight _ (by omega)
    rw [hshift]
    split_ifs with hlt
    · rw [hleft _ (by omega), if_pos (by omega)]
      congr 1
      omega
    · exact Words.byte_of_le _ (by omega)
  have happend : ∀ {u v : BitVec 32}, u = v → (0#32 ++ u : BitVec 64) = 0#32 ++ v :=
    fun huv => by rw [huv]
  rw [loadedValue, hf, if_neg Bool.false_ne_true, hsame]
  cases hl : a.memLeft with
  | true =>
    rw [if_pos rfl, if_pos rfl]
    refine happend (Words.eq_of_byte (n := 4) (by decide) fun k hk => ?_)
    rw [hleft k hk, Words.byte_ofBytes _ hk]
  | false =>
    rw [if_neg Bool.false_ne_true, if_neg Bool.false_ne_true]
    refine happend ?_
    cases hr : a.memReverse with
    | true =>
      have h24 := reversed_bytes h hr hl
      have hs : a.memSigned = false := by
        by_contra hno
        have hno' := (h.signed (by simpa using hno)).2
        rw [hr] at hno'
        exact Bool.noConfusion hno'
      simp only [hs, if_true, Bool.false_eq_true, if_false]
      refine Words.eq_of_byte (n := 4) (by decide) fun k hk => ?_
      rw [byte_ofBytes_setWidth _ (by omega)]
      split_ifs with hlt
      · rw [byte_swapBytes h24 hlt, hright _ (by omega), if_pos (by omega)]
        congr 1
        omega
      · have h2 : a.nbytes = 2 := by omega
        rw [h2]
        exact byte_swapBytes_high (by omega) hk
    | false =>
      have hplain : left >>> (8 * (4 - a.nbytes)) =
          (ofBytes (fun k => b (a.nbytes - 1 - k)) a.nbytes).setWidth 32 := by
        refine Words.eq_of_byte (n := 4) (by decide) fun k hk => ?_
        rw [hright k hk, byte_ofBytes_setWidth _ (by omega)]
      simp only [Bool.false_eq_true, if_false]
      cases hs : a.memSigned with
      | false => exact hplain
      | true =>
        have h2 : a.nbytes = 2 := by
          rw [LaneAccess.nbytes, hl, (h.signed hs).1]
          rfl
        have hcut : ∀ v : BitVec (8 * 2), (v.setWidth 32).extractLsb' 0 16 = v := by
          intro v
          apply BitVec.eq_of_getLsbD_eq
          intro t ht
          rw [BitVec.getLsbD_extractLsb', decide_eq_true (by omega), Bool.true_and,
            BitVec.getLsbD_setWidth, decide_eq_true (by omega), Bool.true_and, Nat.zero_add]
        rw [if_pos rfl, if_pos rfl, hplain, h2, hcut]

/-- A load of the integer registers. -/
theorem loadValue_bytes (h : a.Reaches cfg) (hf : a.fpu = false)
    (hb : ∀ p < a.accessBytes, byte (a.lane cfg p) (w (a.beatOf cfg p)) = b p) :
    0#32 ++ a.loadValue (beatAt w (a.beats cfg - 1)) ((w (a.beats cfg - 1)).extractLsb' 0 32) =
      a.loadedValue b := by
  have hsame : a.accessBytes = a.nbytes := by simp [accessBytes, hf]
  have hwin : ∀ p < a.nbytes, byte (7 - (a.offset + p))
      (if (beatAt w (a.beats cfg - 1)).beat
        then (beatAt w (a.beats cfg - 1)).beat0 ++ (w (a.beats cfg - 1)).extractLsb' 0 32
        else (w (a.beats cfg - 1)).extractLsb' 0 32 ++ 0#32 : BitVec 64) = b p := by
    intro p hp
    have hread := byte_loadWindow hf hb (show p < a.accessBytes by omega)
    rw [← hread]
    congr 1
    refine if_congr ?_ rfl rfl
    rw [beatAt, decide_eq_true_eq]
    omega
  exact value_of_left h hf fun k hk => byte_left hwin hk

/-- The words of an access of the FPU, from its first byte on. -/
theorem byte_fpuWindow (h : a.Reaches cfg) (hf : a.fpu = true) (hw : a.fpuWide cfg = false)
    (hb : ∀ p < a.accessBytes, byte (a.lane cfg p) (w (a.beatOf cfg p)) = b p) {p : ℕ}
    (hp : p < a.accessBytes) :
    byte (11 - p) (a.fpuWindow cfg (beatAt w (a.beats cfg - 1))
      ((w (a.beats cfg - 1)).extractLsb' 0 32)) = b p := by
  have hno : ¬ a.fpuWide cfg = true := by rw [hw]; exact Bool.false_ne_true
  have hoff := a.offset_lt
  have hle := accessBytes_le h
  have hbeats : a.beats cfg = (a.offset + a.accessBytes + 3) / 4 := if_neg hno
  obtain ⟨window, hdef⟩ : ∃ window : BitVec 96, window =
      if (beatAt w (a.beats cfg - 1)).beat2
        then (beatAt w (a.beats cfg - 1)).beat0 ++ (beatAt w (a.beats cfg - 1)).beat1 ++
          (w (a.beats cfg - 1)).extractLsb' 0 32
        else if (beatAt w (a.beats cfg - 1)).beat
          then (beatAt w (a.beats cfg - 1)).beat0 ++ (w (a.beats cfg - 1)).extractLsb' 0 32 ++ 0#32
          else (w (a.beats cfg - 1)).extractLsb' 0 32 ++ 0#64 := ⟨_, rfl⟩
  have hwords : byte (11 - (a.offset + p)) window = b p := by
    rw [← hb p hp, lane, if_neg hno, beatOf, if_neg hno, hdef]
    simp only [beatAt, decide_eq_true_eq]
    rcases (by omega : (a.offset + p) / 4 = 0 ∨ (a.offset + p) / 4 = 1 ∨ (a.offset + p) / 4 = 2)
      with hj | hj | hj
    · rw [hj]
      by_cases h2 : 1 < a.beats cfg - 1
      · rw [if_pos h2, Words.byte_append_high (j := 7 - (a.offset + p)) _ _ (by omega)]
        exact byte_high_word _ _ (by omega) (by omega)
      · rw [if_neg h2]
        by_cases h1 : 0 < a.beats cfg - 1
        · rw [if_pos h1, Words.byte_append_high (j := 7 - (a.offset + p)) _ _ (by omega)]
          exact byte_high_word _ _ (by omega) (by omega)
        · rw [if_neg h1, show a.beats cfg - 1 = 0 by omega]
          exact byte_high_word _ _ (by omega) (by omega)
    · rw [hj]
      by_cases h2 : 1 < a.beats cfg - 1
      · rw [if_pos h2, Words.byte_append_high (j := 7 - (a.offset + p)) _ _ (by omega)]
        exact byte_low_word _ _ (by omega) (by omega)
      · rw [if_neg h2, if_pos (by omega), show a.beats cfg - 1 = 1 by omega,
          Words.byte_append_high (j := 7 - (a.offset + p)) _ _ (by omega)]
        exact byte_low_word _ _ (by omega) (by omega)
    · rw [hj, if_pos (by omega), show a.beats cfg - 1 = 2 by omega]
      exact byte_low_word _ _ (by omega) (by omega)
  have hshift : byte (11 - p) (a.fpuWindow cfg (beatAt w (a.beats cfg - 1))
      ((w (a.beats cfg - 1)).extractLsb' 0 32)) = byte (11 - (a.offset + p)) window := by
    have hval : a.fpuWindow cfg (beatAt w (a.beats cfg - 1))
        ((w (a.beats cfg - 1)).extractLsb' 0 32) =
          if cfg.fpuUnaligned then window <<< (8 * (a.ea.extractLsb' 0 2).toNat) else window := by
      rw [hdef]
      rfl
    rcases unaligned_of h hf with ⟨hu, hz⟩ | ⟨hu, -, hpart, -⟩
    · have hlow : cfg.fpuUnaligned = true → (a.ea.extractLsb' 0 2).toNat = 0 := by
        intro hpart
        have hal : a.ea.extractLsb' 0 2 = 0 := by simpa [unaligned, hpart, hf] using hu
        rw [hal]
        rfl
      rw [hval, hz, Nat.zero_add]
      split_ifs with hpart
      · rw [hlow hpart, Nat.mul_zero, BitVec.shiftLeft_zero]
      · rfl
    · have hne : a.ea.extractLsb' 0 2 ≠ 0 := by simpa [unaligned, hpart, hf] using hu
      obtain ⟨-, -, hbig⟩ := (h.aligned hf).resolve_left hne
      have hsame : a.offset = (a.ea.extractLsb' 0 2).toNat := by
        rw [offset, firstEa, hbig, if_neg Bool.false_ne_true]
      rw [hval, if_pos hpart, ← hsame]
      exact Words.byte_shiftLeft _ (by omega) (by omega)
  rw [hshift, hwords]

/-- **What a load returns is made of the bytes in the lanes of the responses.** -/
theorem result_bytes (h : a.Reaches cfg)
    (hb : ∀ p < a.accessBytes, byte (a.lane cfg p) (w (a.beatOf cfg p)) = b p) :
    a.result cfg (beatAt w (a.beats cfg - 1)) (w (a.beats cfg - 1)) = a.loadedValue b := by
  rw [result]
  cases hf : a.fpu with
  | false =>
    rw [if_neg Bool.false_ne_true]
    exact loadValue_bytes h hf hb
  | true =>
    rw [if_pos rfl, loadedValue, hf, if_pos rfl]
    cases hw : a.fpuWide cfg with
    | true =>
      obtain ⟨-, h8, -⟩ := wide_spec h hw
      have hone : a.beats cfg = 1 := if_pos hw
      rw [if_pos rfl, hone]
      refine Words.eq_of_byte (n := 8) (by decide) fun k hk => ?_
      have hread := hb (7 - k) (by omega)
      rw [lane, if_pos hw, beatOf, if_pos hw, show 7 - (7 - k) = k by omega] at hread
      rw [byte_ofBytes_setWidth _ (by omega), h8, if_pos hk, hread]
    | false =>
      have hwindow := fun p hp => byte_fpuWindow h hf hw hb (p := p) hp
      rw [if_neg Bool.false_ne_true]
      rcases accessBytes_cases h with ⟨-, hd, h8⟩ | ⟨hsame, hd, h4⟩
      · rw [hd, if_pos rfl]
        refine Words.eq_of_byte (n := 8) (by decide) fun k hk => ?_
        rw [byte_ofBytes_setWidth _ (by omega), h8, if_pos hk, ← hwindow (8 - 1 - k) (by omega)]
        exact Words.byte_extractLsb' _ (by omega) (by omega)
      · have hd' : a.double = false := by simpa [hf] using hd
        have hn4 : a.accessBytes = 4 := hsame.trans (h4 hf)
        rw [hd', if_neg Bool.false_ne_true]
        refine Words.eq_of_byte (n := 8) (by decide) fun k hk => ?_
        rw [byte_ofBytes_setWidth _ (by omega), hn4]
        split_ifs with hlt
        · rw [← hwindow (4 - 1 - k) (by omega)]
          exact (Words.byte_append_low _ _ (by omega)).trans
            (Words.byte_extractLsb' _ (by omega) (by omega))
        · apply BitVec.eq_of_getLsbD_eq
          intro t ht
          rw [Words.getLsbD_byte _ _ ht, BitVec.getLsbD_append, if_neg (by omega)]
          simp

end Loads

/-! ## Every access -/

section Moves

variable {cfg : LaneConfig} {a : Serial} {w : ℕ → BitVec 64}

theorem wordOf_add_of_lt (e : BitVec 32) {t : ℕ} (ht : t < 4) :
    LaneAccess.wordOf (LaneAccess.wordOf e + BitVec.ofNat 32 t) = LaneAccess.wordOf e := by
  apply BitVec.eq_of_toNat_eq
  have he := e.isLt
  have hz : (0#2).toNat = 0 := rfl
  have hlt : (0#2).toNat < 2 ^ 2 := by decide
  rw [LaneAccess.wordOf, BitVec.toNat_append, BitVec.extractLsb'_toNat, BitVec.toNat_add,
    LaneAccess.wordOf, BitVec.toNat_append, BitVec.extractLsb'_toNat,
    ← Nat.shiftLeft_add_eq_or_of_lt hlt, ← Nat.shiftLeft_add_eq_or_of_lt hlt, hz,
    BitVec.toNat_ofNat, Nat.shiftRight_eq_div_pow, Nat.shiftRight_eq_div_pow, Nat.shiftLeft_eq,
    Nat.shiftLeft_eq]
  omega

/-- The addresses of a beat of an FP load that is not at a word. -/
theorem strobed_unaligned (h : a.Reaches cfg) (hu : a.unaligned cfg = true) {j : ℕ}
    (hj : j < a.beats cfg) (b : BitVec 32) :
    (∃ l, (a.request cfg (beatAt w j)).strobed l = true ∧
        (a.request cfg (beatAt w j)).laneAddr l = b) ↔
      ∃ p ∈ a.beatBytes cfg j, ∃ t < 4, LaneAccess.wordOf (a.bytePlace p) + BitVec.ofNat 32 t = b := by
  have hf : a.fpu = true := by
    simp only [unaligned, Bool.and_eq_true] at hu
    exact hu.1.2
  obtain ⟨-, -, -, hw⟩ := (unaligned_of h hf).resolve_left fun hno => by simp [hu] at hno
  have hno : ¬ a.fpuWide cfg = true := by rw [hw]; exact Bool.false_ne_true
  have hoff := a.offset_lt
  have hle := accessBytes_le h
  have hcount : a.beats cfg = (a.offset + a.accessBytes + 3) / 4 := if_neg hno
  have hlanes : (a.request cfg (beatAt w j)).lanes = 4 := by
    have hup : ∀ s : BitVec 4, (0#4 ++ s).extractLsb' 4 4 = 0#4 := by decide
    rw [Request.lanes, word_wstrb hw]
    exact if_pos (hup _)
  have hstrobed : ∀ l, (a.request cfg (beatAt w j)).strobed l = decide (l < 4) := by
    intro l
    have hfull : ∀ t < 4, (0#4 ++ (0xf : BitVec 4) : BitVec 8).getLsbD t = true := by decide
    rw [Request.strobed, hlanes, word_wstrb hw, wstrbWord, hf, if_pos rfl]
    by_cases hl : l < 4
    · rw [hfull l hl, Bool.and_true]
    · rw [decide_eq_false hl, Bool.false_and]
  have haddr : ∀ l, (a.request cfg (beatAt w j)).laneAddr l =
      a.wordAddr j + BitVec.ofNat 32 (3 - l) := by
    intro l
    rw [Request.laneAddr, hlanes]
    rfl
  have hword : ∀ p ∈ a.beatBytes cfg j, LaneAccess.wordOf (a.bytePlace p) = a.wordAddr j := by
    rintro p ⟨hp, hpj⟩
    rw [beatOf, if_neg hno] at hpj
    rw [← bytePlace_eq h hp, placeAt, hpj]
    exact wordOf_add_of_lt _ (Nat.mod_lt _ (by decide))
  simp only [hstrobed, haddr, decide_eq_true_eq]
  constructor
  · rintro ⟨l, hl, rfl⟩
    have hp : 4 * j - a.offset ∈ a.beatBytes cfg j := by
      refine ⟨by omega, ?_⟩
      rw [beatOf, if_neg hno]
      omega
    exact ⟨_, hp, 3 - l, by omega, by rw [hword _ hp]⟩
  · rintro ⟨p, hp, t, ht, rfl⟩
    exact ⟨3 - t, by omega, by rw [hword p hp, show 3 - (3 - t) = t by omega]⟩

/-- The bytes the beats of an access move: byte `p` moves in beat `beat p`. -/
structure Moved (cfg : LaneConfig) (a : Serial) (l : List (Request × BitVec 64)) (v : BitVec 64)
    (beat : ℕ → ℕ) : Prop where
  ordered : Monotone beat
  inside : ∀ p < a.accessBytes, beat p < l.length
  /-- A beat strobes its bytes, each where the architecture has it, and no other, but in an FP
  load that is not at a word: it strobes the words of its bytes. -/
  strobed : ∀ (j : ℕ) (q : Request × BitVec 64), l[j]? = some q → ∀ b,
    (∃ t, q.1.strobed t = true ∧ q.1.laneAddr t = b) ↔ ∃ p < a.accessBytes, beat p = j ∧
      if a.unaligned cfg then ∃ t < 4, LaneAccess.wordOf (a.bytePlace p) + BitVec.ofNat 32 t = b
      else a.bytePlace p = b
  /-- A store leaves its bytes there and every other byte as it was. -/
  written : a.write = true → ∀ m : Memory, l.foldl (fun m q => q.1.apply m) m =
    writeBytes {p | p < a.accessBytes} a.bytePlace a.storedByte m
  /-- A load returns the bytes there were as its beats were read. -/
  loaded : ∀ m : ℕ → Memory,
    (∀ (j : ℕ) (q : Request × BitVec 64), l[j]? = some q → q.2 = q.1.read (m j)) →
      v = a.loadedValue fun p => m (beat p) (a.bytePlace p)

theorem beatOf_monotone (cfg : LaneConfig) (a : Serial) : Monotone (a.beatOf cfg) := by
  intro p q hpq
  unfold beatOf
  split_ifs
  · exact le_rfl
  · exact Nat.div_le_div_right (by omega)

theorem unaligned_of_write (h : a.Reaches cfg) (hwrite : a.write = true) :
    a.unaligned cfg = false := by
  by_contra hu
  simp only [unaligned, Bool.not_eq_false, Bool.and_eq_true, decide_eq_true_eq] at hu
  obtain ⟨-, hno, -⟩ := (h.aligned hu.1.2).resolve_left hu.2
  rw [hwrite] at hno
  exact Bool.noConfusion hno

/-- **The beats of an access move its bytes.** -/
theorem moved_of_performs (h : a.Reaches cfg) {x y : BitVec 32} {l : List (Request × BitVec 64)}
    {v : BitVec 64} (hp : a.Performs cfg (Beats.start x y) l v) :
    Moved cfg a l v (a.beatOf cfg) := by
  obtain ⟨w, rfl, rfl⟩ := performs_cases h hp
  have hat : ∀ (j : ℕ) (q : Request × BitVec 64),
      ((List.range (a.beats cfg)).map fun j => (a.request cfg (beatAt w j), w j))[j]? = some q →
        j < a.beats cfg ∧ q = (a.request cfg (beatAt w j), w j) := by
    intro j q hq
    rw [List.getElem?_map, Option.map_eq_some_iff] at hq
    obtain ⟨i, hi, rfl⟩ := hq
    obtain ⟨hlt, rfl⟩ := List.getElem?_eq_some_iff.1 hi
    rw [List.length_range] at hlt
    exact ⟨hlt, by rw [List.getElem_range]⟩
  refine ⟨beatOf_monotone cfg a, ?_, ?_, ?_, ?_⟩
  · intro p hp
    rw [List.length_map, List.length_range]
    exact beatOf_lt h hp
  · intro j q hq b
    obtain ⟨hj, rfl⟩ := hat j q hq
    cases hu : a.unaligned cfg with
    | true =>
      rw [strobed_unaligned h hu hj]
      simp only [if_true, beatBytes, Set.mem_ofPred_eq, and_assoc]
    | false =>
      rw [Request.strobed_of_fits (request_fits h hu hj)]
      simp only [Bool.false_eq_true, if_false]
      constructor
      · rintro ⟨p, ⟨hp, hpj⟩, rfl⟩
        exact ⟨p, hp, hpj, (bytePlace_eq h hp).symm⟩
      · rintro ⟨p, hp, hpj, rfl⟩
        exact ⟨p, ⟨hp, hpj⟩, bytePlace_eq h hp⟩
  · intro hwrite m
    have hall : {p | p < a.accessBytes ∧ a.beatOf cfg p < a.beats cfg} = {p | p < a.accessBytes} := by
      ext p
      exact ⟨fun hp => hp.1, fun hp => ⟨hp, beatOf_lt h hp⟩⟩
    rw [List.foldl_map, apply_beats h (unaligned_of_write h hwrite) m le_rfl, hall]
  · intro m hm
    refine result_bytes h fun p hp => ?_
    have hlt := beatOf_lt h hp
    have hread := hm (a.beatOf cfg p) (a.request cfg (beatAt w (a.beatOf cfg p)), w (a.beatOf cfg p))
      (by rw [List.getElem?_map, List.getElem?_range hlt]; rfl)
    have hread' : w (a.beatOf cfg p) =
        (a.request cfg (beatAt w (a.beatOf cfg p))).read (m (a.beatOf cfg p)) := hread
    obtain ⟨hlane, haddr⟩ := request_place (w := w) h (show p ∈ a.beatBytes cfg _ from ⟨hp, rfl⟩)
    rw [hread', Request.byte_read _ _ hlane, haddr, bytePlace_eq h hp]

end Moves

/-! ## A store and a load of one kind -/

section Kind

variable {cfg : LaneConfig} {a b : Serial}

/-- Accesses of one kind at one EA. -/
structure SameKind (a b : Serial) : Prop where
  fpu : a.fpu = b.fpu
  double : a.double = b.double
  size : a.memSize = b.memSize
  reverse : a.memReverse = b.memReverse
  left : a.memLeft = b.memLeft
  bytes : a.memBytes = b.memBytes
  le : a.le = b.le
  ea : a.ea = b.ea

/-- The register of a store. -/
def register (a : Serial) : BitVec 64 := if a.fpu then a.fpuData else 0#32 ++ a.c

theorem SameKind.accessBytes (h : SameKind a b) : a.accessBytes = b.accessBytes := by
  have hn : a.nbytes = b.nbytes := by
    rw [LaneAccess.nbytes, LaneAccess.nbytes, h.left, h.bytes, h.size]
  rw [Serial.accessBytes, Serial.accessBytes, h.fpu, h.double, hn]

theorem SameKind.bytePlace (h : SameKind a b) : a.bytePlace = b.bytePlace := by
  funext p
  rw [Serial.bytePlace, Serial.bytePlace, h.le, h.accessBytes, h.ea]

theorem SameKind.storedByte (h : SameKind a b) (p : ℕ) : a.storedByte p =
    if b.fpu then byte (b.accessBytes - 1 - p) a.fpuData
    else if b.memLeft then byte (3 - p) a.c
    else if b.memReverse then byte p a.c
    else byte (b.accessBytes - 1 - p) a.c := by
  rw [Serial.storedByte, h.fpu, h.left, h.reverse, h.accessBytes]

theorem loadedValue_congr {c d : ℕ → BitVec 8} (h : b.Reaches cfg)
    (hcd : ∀ p < b.accessBytes, c p = d p) : b.loadedValue c = b.loadedValue d := by
  have hle := accessBytes_le h
  have hn := b.nbytes_le
  have hhigh : ofBytes (fun k => c (b.accessBytes - 1 - k)) b.accessBytes =
      ofBytes (fun k => d (b.accessBytes - 1 - k)) b.accessBytes :=
    Words.ofBytes_congr fun k hk => hcd _ (by omega)
  have hleft : (ofBytes (fun k => if 4 - b.accessBytes ≤ k then c (3 - k) else 0) 4 : BitVec 32) =
      ofBytes (fun k => if 4 - b.accessBytes ≤ k then d (3 - k) else 0) 4 := by
    refine Words.ofBytes_congr fun k hk => ?_
    split_ifs with hlt
    · exact hcd _ (by omega)
    · rfl
  have hint : ofBytes (fun k => if b.memReverse then c k else c (b.accessBytes - 1 - k))
      b.accessBytes =
        ofBytes (fun k => if b.memReverse then d k else d (b.accessBytes - 1 - k)) b.accessBytes := by
    refine Words.ofBytes_congr fun k hk => ?_
    split_ifs
    · exact hcd _ hk
    · exact hcd _ (by omega)
  rw [loadedValue, loadedValue, hhigh, hleft, hint]

/-- **What a store has stored is what a load of its kind returns.** -/
theorem loadedValue_storedByte (h : b.Reaches cfg) (hkind : SameKind a b) :
    b.loadedValue a.storedByte = b.returned a.register := by
  have hle := accessBytes_le h
  rw [loadedValue, returned, register, hkind.fpu]
  cases hf : b.fpu with
  | true =>
    rw [if_pos rfl, if_pos rfl, if_pos rfl]
    congr 1
    refine Words.eq_of_byte (n := b.accessBytes) le_rfl fun k hk => ?_
    rw [Words.byte_ofBytes _ hk, Words.byte_setWidth _ (by omega), hkind.storedByte, hf, if_pos rfl]
    congr 1
    omega
  | false =>
    have hsame : b.accessBytes = b.nbytes := by simp [Serial.accessBytes, hf]
    have hn := b.nbytes_le
    have hlow : (0#32 ++ a.c : BitVec 64).extractLsb' 0 32 = a.c := by
      apply BitVec.eq_of_getLsbD_eq
      intro t ht
      rw [BitVec.getLsbD_extractLsb', decide_eq_true ht, Bool.true_and, BitVec.getLsbD_append,
        if_pos (by omega), Nat.zero_add]
    rw [if_neg Bool.false_ne_true, if_neg Bool.false_ne_true, if_neg Bool.false_ne_true]
    cases hl : b.memLeft with
    | true =>
      rw [if_pos rfl, if_pos rfl, hlow]
      congr 1
      refine Words.eq_of_byte (n := 4) (by decide) fun k hk => ?_
      rw [Words.byte_ofBytes _ hk]
      split_ifs with hlt
      · rw [hkind.storedByte, hf, if_neg Bool.false_ne_true, hl, if_pos rfl,
          show 3 - (3 - k) = k by omega]
        refine Words.byte_eq_of_getLsbD fun t ht => ?_
        rw [BitVec.getLsbD_shiftLeft, decide_eq_true (by omega), decide_eq_false (by omega),
          BitVec.getLsbD_ushiftRight]
        simp only [Bool.true_and, Bool.not_false]
        congr 1
        omega
      · apply BitVec.eq_of_getLsbD_eq
        intro t ht
        rw [Words.getLsbD_byte _ _ ht, BitVec.getLsbD_shiftLeft, decide_eq_true (by omega),
          decide_eq_true (by omega)]
        exact BitVec.getLsbD_zero
    | false =>
      have hvalue : ofBytes (fun k => if b.memReverse then a.storedByte k
          else a.storedByte (b.accessBytes - 1 - k)) b.accessBytes =
            (0#32 ++ a.c : BitVec 64).setWidth (8 * b.accessBytes) := by
        refine Words.eq_of_byte (n := b.accessBytes) le_rfl fun k hk => ?_
        have hbyte : byte k (0#32 ++ a.c : BitVec 64) = byte k a.c := by
          exact Words.byte_append_low _ _ (by omega)
        rw [Words.byte_ofBytes _ hk, Words.byte_setWidth _ (by omega), hbyte, hkind.storedByte,
          hkind.storedByte, hf, hl]
        cases b.memReverse with
        | true => rfl
        | false =>
          simp only [Bool.false_eq_true, if_false]
          congr 1
          omega
      rw [if_neg Bool.false_ne_true, if_neg Bool.false_ne_true, hvalue]

/-- A memory after a store, as a load of its kind reads it. -/
theorem roundTrip (ha : a.Reaches cfg) (hb : b.Reaches cfg) (hkind : SameKind a b)
    (hwrite : a.write = true) {x y x' y' : BitVec 32} {l l' : List (Request × BitVec 64)}
    {v v' : BitVec 64} (hstore : a.Performs cfg (Beats.start x y) l v)
    (hload : b.Performs cfg (Beats.start x' y') l' v') {m : Memory}
    (hread : ∀ q ∈ l', q.2 = q.1.read (l.foldl (fun m q => q.1.apply m) m)) :
    v' = b.returned a.register := by
  have hwritten := (moved_of_performs ha hstore).written hwrite m
  generalize l.foldl (fun m q => q.1.apply m) m = after at hread hwritten
  have hval := (moved_of_performs hb hload).loaded (fun _ => after) fun j q hq =>
    hread q (List.mem_of_getElem? hq)
  rw [hval, ← loadedValue_storedByte hb hkind]
  refine loadedValue_congr hb fun p hp => ?_
  rw [← hkind.accessBytes] at hp
  rw [hwritten, ← hkind.bytePlace]
  exact Words.writeBytes_place (bytePlace_injOn ha) hp

end Kind

/-! ## An access that the unit makes too -/

section Unit

open Clocked

variable {cfg : LaneConfig} {x : Operation} {a : Serial}

/-- The lane makes the access `x`. -/
structure Makes (x : Operation) (a : Serial) : Prop where
  decoded : x.Decoded
  fpu : a.fpu = x.fp
  double : x.fp = true → a.double = x.fpDouble
  size : x.fp = false → a.memSize = x.size
  reverse : x.fp = false → a.memReverse = x.reverse
  signed : x.fp = false → a.memSigned = x.signed
  plain : a.memLeft = false
  write : a.write = x.store
  le : a.le = x.le
  ea : a.ea = x.ea
  data : x.store = true → x.fp = false → a.c = x.value.setWidth 32
  fpData : x.store = true → x.fp = true → a.fpuData = x.value

theorem accessBytes_of_makes (h : a.Reaches cfg) (hm : Makes x a) : a.accessBytes = x.bytes := by
  rw [accessBytes, Operation.bytes, hm.fpu]
  cases hfp : x.fp with
  | false =>
    rw [Bool.false_and, if_neg Bool.false_ne_true, if_neg Bool.false_ne_true, LaneAccess.nbytes,
      hm.plain, hm.size hfp]
    rfl
  | true =>
    rw [Bool.true_and, if_pos rfl, hm.double hfp, LaneAccess.nbytes, hm.plain,
      (h.fpu (hm.fpu.trans hfp)).1]
    rfl

theorem rank_fp (hd : x.Decoded) (hfp : x.fp = true) (k : ℕ) : x.rank k = k := by
  have hrev : x.reverse = false := by
    by_contra hno
    have hno' := (hd.reverse (by simpa using hno)).1
    rw [hfp] at hno'
    exact Bool.noConfusion hno'
  rw [Operation.rank, hrev, if_neg Bool.false_ne_true]

theorem place_of_makes (h : a.Reaches cfg) (hm : Makes x a) {k : ℕ} (hk : k < x.bytes) :
    x.place k = a.bytePlace (x.bytes - 1 - x.rank k) := by
  have hrank := Operation.rank_lt hk
  rw [bytePlace, accessBytes_of_makes h hm, hm.le, hm.ea,
    show x.bytes - 1 - (x.bytes - 1 - x.rank k) = x.rank k by omega]
  rfl

theorem storedByte_of_makes (h : a.Reaches cfg) (hm : Makes x a) (hstore : x.store = true) {k : ℕ}
    (hk : k < x.bytes) : a.storedByte (x.bytes - 1 - x.rank k) = byte k x.value := by
  have hrank := Operation.rank_lt hk
  rw [storedByte, accessBytes_of_makes h hm, hm.fpu, hm.plain]
  cases hfp : x.fp with
  | true =>
    rw [if_pos rfl, hm.fpData hstore hfp, rank_fp hm.decoded hfp]
    congr 1
    omega
  | false =>
    have h4 : x.bytes ≤ 4 := by
      rw [Operation.bytes, hfp, if_neg Bool.false_ne_true]
      cases x.size <;> decide
    have hback : x.rank k = if x.reverse then x.bytes - 1 - k else k := rfl
    rw [if_neg Bool.false_ne_true, if_neg Bool.false_ne_true, hm.reverse hfp, hm.data hstore hfp]
    cases hrev : x.reverse with
    | true =>
      rw [hrev, if_pos rfl] at hback
      rw [if_pos rfl, hback, show x.bytes - 1 - (x.bytes - 1 - k) = k by omega,
        Words.byte_setWidth _ (by omega)]
    | false =>
      rw [hrev, if_neg Bool.false_ne_true] at hback
      rw [if_neg Bool.false_ne_true, hback, show x.bytes - 1 - (x.bytes - 1 - k) = k by omega,
        Words.byte_setWidth _ (by omega)]

theorem extended_eq (x : Operation) (b : ℕ → BitVec 8) : x.extended b =
    if x.signed then (ofBytes b x.bytes).signExtend 64 else (ofBytes b x.bytes).setWidth 64 := by
  have hle := (Operation.bytes_le x).2
  have hall : (ofBytes (fun k => if k < x.bytes then b k else 0) 8 : BitVec 64) =
      (ofBytes b x.bytes).setWidth 64 := by
    refine Words.eq_of_byte (n := 8) (by decide) fun k hk => ?_
    rw [Words.byte_ofBytes _ hk, byte_ofBytes_setWidth _ (by omega)]
  have hcut : ((ofBytes b x.bytes).setWidth 64).setWidth (8 * x.bytes) = ofBytes b x.bytes := by
    rw [BitVec.setWidth_setWidth_of_le _ (by omega), BitVec.setWidth_eq]
  rw [Operation.extended, hall, hcut]

/-- The value of a load, by the bytes of its register. -/
theorem loadedValue_of_makes (h : a.Reaches cfg) (hm : Makes x a) (b : ℕ → BitVec 8) :
    a.loadedValue b = if x.fp then x.extended fun k => b (x.bytes - 1 - x.rank k)
      else 0#32 ++ (x.extended fun k => b (x.bytes - 1 - x.rank k)).setWidth 32 := by
  rw [loadedValue, hm.fpu, accessBytes_of_makes h hm, hm.plain, extended_eq]
  cases hfp : x.fp with
  | true =>
    have hsigned : x.signed = false := by
      by_contra hno
      have hno' := (hm.decoded.signed (by simpa using hno)).1
      rw [hfp] at hno'
      exact Bool.noConfusion hno'
    simp only [if_true, hsigned, Bool.false_eq_true, if_false, rank_fp hm.decoded hfp]
  | false =>
    have hbytes : x.bytes = Lsu.nbytes x.size := by simp [Operation.bytes, hfp]
    have h4 : x.bytes ≤ 4 := by
      rw [hbytes]
      cases x.size <;> decide
    have hv : ofBytes (fun k => if a.memReverse then b k else b (x.bytes - 1 - k)) x.bytes =
        ofBytes (fun k => b (x.bytes - 1 - x.rank k)) x.bytes := by
      refine Words.ofBytes_congr fun k hk => ?_
      rw [hm.reverse hfp, Operation.rank]
      split_ifs
      · congr 1
        omega
      · rfl
    rw [if_neg Bool.false_ne_true, if_neg Bool.false_ne_true, if_neg Bool.false_ne_true, hv,
      hm.signed hfp]
    generalize ofBytes (fun k => b (x.bytes - 1 - x.rank k)) x.bytes = value
    cases hs : x.signed with
    | false =>
      have hcut : (value.setWidth 64).setWidth 32 = value.setWidth 32 :=
        BitVec.setWidth_setWidth_of_le _ (by decide)
      simp only [Bool.false_eq_true, if_false, hcut]
    | true =>
      have hcut : (value.signExtend 64).setWidth 32 = value.signExtend 32 := by
        apply BitVec.eq_of_getLsbD_eq
        intro j hj
        rw [BitVec.getLsbD_setWidth, BitVec.getLsbD_signExtend, BitVec.getLsbD_signExtend,
          decide_eq_true hj, decide_eq_true (by omega), Bool.true_and, Bool.true_and]
      simp only [if_true, hcut]

/-- What the unit and the lane have in common where both make the access `x`. -/
structure SameAsUnit (cfg : LaneConfig) (x : Operation) (a : Serial) : Prop where
  /-- A byte the unit writes is what the lane writes there, from any memory. -/
  written : ∀ (core : Core) (ucfg : Config) (ops : ℕ → Operation) (m : Memory)
    (r : Run (machine ucfg)) (n k : ℕ) (second : Bool),
    r.ObeysRecord (Port.start m) (Port.update ucfg) (Moving core ucfg ops) (n + 1) →
    ops k = x → WriteAt ucfg r k second n →
    ∀ beat0 beat1 l v, a.Performs cfg (Beats.start beat0 beat1) l v → ∀ (m' : Memory) (b : BitVec 32),
      StrobedAt ucfg r b n →
        (port ucfg m r (n + 1)).memory b = l.foldl (fun m q => q.1.apply m) m' b
  /-- The bytes of the lane are those of the unit's beats. -/
  strobed : x.store = true → ∀ (ucfg : Config) (beat0 beat1 : BitVec 32) l v,
    a.Performs cfg (Beats.start beat0 beat1) l v → ∀ b,
      (∃ q ∈ l, ∃ t, q.1.strobed t = true ∧ q.1.laneAddr t = b) ↔
        ∃ second, ∃ k ∈ x.beatBytes ucfg second, x.place k = b
  /-- A load of the unit returns what the lane does from the bytes the unit has read. -/
  loaded : ∀ (core : Core) (ucfg : Config) (ops : ℕ → Operation) (m : Memory)
    (r : Run (machine ucfg)) (n : ℕ),
    r.ObeysRecord (Port.start m) (Port.update ucfg) (Moving core ucfg ops) (n + 1) →
    ∀ serial, ops serial = x → x.store = false →
    ∀ m' : Memory, (∀ k < x.bytes, ∀ c < n, ReadAt ucfg r serial (x.beatOf ucfg k) c →
        (port ucfg m r c).memory (x.place k) = m' (x.place k)) →
    ∀ beat0 beat1 l v, a.Performs cfg (Beats.start beat0 beat1) l v →
    (∀ q ∈ l, q.2 = q.1.read m') →
      (∀ y, (r.state (n + 1)).r = some y → y.serial = serial → y.value = v.extractLsb' 0 32) ∧
      ∀ y, (r.state (n + 1)).rFp = some y → y.serial = serial → y.fault = false → x.fp = true →
        y.data = v

theorem sameAsUnit_of_makes (h : a.Reaches cfg) (hm : Makes x a) : SameAsUnit cfg x a := by
  have hn := accessBytes_of_makes h hm
  have hwrites : x.store = true → ∀ beat0 beat1 l v, a.Performs cfg (Beats.start beat0 beat1) l v →
      ∀ m' : Memory, ∀ k < x.bytes,
        l.foldl (fun m q => q.1.apply m) m' (x.place k) = byte k x.value := by
    intro hstore beat0 beat1 l v hp m' k hk
    have hrank := Operation.rank_lt hk
    rw [(moved_of_performs h hp).written (hm.write.trans hstore) m', place_of_makes h hm hk,
      ← storedByte_of_makes h hm hstore hk]
    exact Words.writeBytes_place (bytePlace_injOn h)
      (show x.bytes - 1 - x.rank k < a.accessBytes by omega)
  refine ⟨?_, ?_, ?_⟩
  · rintro core ucfg ops m r n k second hobeys rfl hwrite beat0 beat1 l v hp m' b hb
    obtain ⟨hmem, hstrobed⟩ := (bytes_move core ucfg ops m r n hobeys).written k second hwrite
    obtain ⟨j, hj, rfl⟩ := (hstrobed b).1 hb
    have hI := moveInv_run (hobeys.mono (Nat.le_succ n))
    have hwr := hwrite.1
    simp only [writes, Bool.and_eq_true] at hwr
    have hstore := (request_spec hI (hobeys n (Nat.lt_succ_self n)) hwr.1.1).1
    rw [hwrite.2] at hstore
    rw [hmem, hwrites (hstore.symm.trans hwr.2) beat0 beat1 l v hp m' j hj.1]
    exact Words.writeBytes_place (Operation.place_injOn_beat _ _) hj
  · intro hstore ucfg beat0 beat1 l v hp b
    have hu := unaligned_of_write h (hm.write.trans hstore)
    have hmoved := moved_of_performs h hp
    constructor
    · rintro ⟨q, hq, t, ht⟩
      obtain ⟨j, hj⟩ := List.getElem?_of_mem hq
      obtain ⟨p, hp, -, hplace⟩ := (hmoved.strobed j q hj b).1 ⟨t, ht⟩
      rw [hu, if_neg Bool.false_ne_true] at hplace
      have hr : x.bytes - 1 - p < x.bytes := by omega
      have hk := Operation.rank_lt hr
      refine ⟨x.beatOf ucfg (x.rank (x.bytes - 1 - p)), x.rank (x.bytes - 1 - p),
        Operation.mem_beatOf ucfg _ hk, ?_⟩
      rw [place_of_makes h hm hk, Operation.rank_rank hr,
        show x.bytes - 1 - (x.bytes - 1 - p) = p by omega, hplace]
    · rintro ⟨second, k, hk, rfl⟩
      have hrank := Operation.rank_lt hk.1
      have hp' : x.bytes - 1 - x.rank k < a.accessBytes := by omega
      have hq := List.getElem?_eq_getElem (hmoved.inside _ hp')
      obtain ⟨t, ht⟩ := (hmoved.strobed _ _ hq (x.place k)).2
        ⟨_, hp', rfl, by rw [hu, if_neg Bool.false_ne_true, place_of_makes h hm hk.1]⟩
      exact ⟨_, List.mem_of_getElem? hq, t, ht⟩
  · rintro core ucfg ops m r n hobeys serial rfl hstore m' hsame beat0 beat1 l v hp hread
    have hmoves := bytes_move core ucfg ops m r n hobeys
    have hval := (moved_of_performs h hp).loaded (fun _ => m') fun j q hq =>
      hread q (List.mem_of_getElem? hq)
    rw [loadedValue_of_makes h hm] at hval
    have hext : ∀ c : ℕ → ℕ, (∀ j < (ops serial).bytes, c j < n ∧
        ReadAt ucfg r serial ((ops serial).beatOf ucfg j) (c j)) →
          ((ops serial).extended fun j => (port ucfg m r (c j)).memory ((ops serial).place j)) =
            (ops serial).extended fun k =>
              m' (a.bytePlace ((ops serial).bytes - 1 - (ops serial).rank k)) := by
      intro c hc
      refine Operation.extended_congr fun j hj => ?_
      rw [hsame j hj (c j) (hc j hj).1 (hc j hj).2, place_of_makes h hm hj]
    constructor
    · rintro y hy rfl
      obtain ⟨c, hc, hyval⟩ := hmoves.loaded y hy hstore
      rw [hyval, hext c hc, hval]
      have hlow : ∀ e : BitVec 64, e.setWidth 32 = e.extractLsb' 0 32 ∧
          e.setWidth 32 = (0#32 ++ e.setWidth 32 : BitVec 64).extractLsb' 0 32 := by
        intro e
        constructor
        · apply BitVec.eq_of_getLsbD_eq
          intro t ht
          rw [BitVec.getLsbD_setWidth, BitVec.getLsbD_extractLsb', Nat.zero_add]
        · apply BitVec.eq_of_getLsbD_eq
          intro t ht
          rw [BitVec.getLsbD_extractLsb', BitVec.getLsbD_append, decide_eq_true ht,
            if_pos (by omega), Nat.zero_add, Bool.true_and]
      split_ifs
      · exact (hlow _).1
      · exact (hlow _).2
    · rintro y hy rfl hgood hfp
      obtain ⟨c, hc, hyval⟩ := hmoves.fpLoaded y hy hgood hstore
      rw [hyval, hext c hc, hval, if_pos hfp]

end Unit

/-! ## The bytes an access moves -/

section All

variable {cfg : LaneConfig} {a : Serial}

/-- The beats end, whatever the responses are. -/
theorem performs_exists (h : a.Reaches cfg) (w : ℕ → BitVec 64) : ∀ (d j : ℕ) (b : Beats),
    j + d + 1 = a.beats cfg → b.beat = decide (0 < j) → b.beat2 = decide (1 < j) →
      ∃ l v, a.Performs cfg b l v ∧ l.map Prod.snd = (List.range' j (d + 1)).map w := by
  have hthree := (beats_le h).2
  intro d
  induction d with
  | zero =>
    intro j b hj hb hb2
    have hcont := beatContinue_eq h w (show j ≤ 2 by omega)
    have hsame : a.beatContinue cfg b = a.beatContinue cfg (beatAt w j) := by
      simp only [beatContinue, hb, hb2, beatAt]
    exact ⟨_, _, .last (by rw [hsame, hcont, decide_eq_false_iff_not]; omega) (w j), rfl⟩
  | succ d ih =>
    intro j b hj hb hb2
    have hcont := beatContinue_eq h w (show j ≤ 2 by omega)
    have hsame : a.beatContinue cfg b = a.beatContinue cfg (beatAt w j) := by
      simp only [beatContinue, hb, hb2, beatAt]
    obtain ⟨l, v, hl, hw⟩ := ih (j + 1) (b.next cfg ((w j).extractLsb' 0 32)) (by omega)
      (by simp [Beats.next])
      (by
        rcases (by omega : j = 0 ∨ j = 1) with rfl | rfl
        · simp [Beats.next, hb]
        · simp [Beats.next, hb, unaligned_of_third h (show 2 < a.beats cfg by omega)])
    refine ⟨_, _, .more (by rw [hsame, hcont, decide_eq_true_eq]; omega) (w j) hl, ?_⟩
    rw [List.map_cons, hw]
    rfl

/-- The bytes the lane moves for an access, in as many beats as it takes. -/
structure Moves (cfg : LaneConfig) (a : Serial) : Prop where
  moved : ∀ beat0 beat1 l v, a.Performs cfg (Beats.start beat0 beat1) l v →
    ∃ beat, Moved cfg a l v beat
  /-- There is an access for every way its beats are answered. -/
  answered : ∀ (beat0 beat1 : BitVec 32) (w : ℕ → BitVec 64), ∃ l v,
    a.Performs cfg (Beats.start beat0 beat1) l v ∧ l.map Prod.snd = (List.range l.length).map w
  /-- A load of what a store of its kind has stored returns what the store stored. -/
  roundTrip : a.write = true → ∀ b : Serial, b.Reaches cfg → SameKind a b →
    ∀ beat0 beat1 l v beat0' beat1' l' v', a.Performs cfg (Beats.start beat0 beat1) l v →
      b.Performs cfg (Beats.start beat0' beat1') l' v' → ∀ m : Memory,
        (∀ q ∈ l', q.2 = q.1.read (l.foldl (fun m q => q.1.apply m) m)) →
          v' = b.returned a.register
  /-- What the unit makes itself moves as it does there. -/
  unit : ∀ x, Makes x a → SameAsUnit cfg x a

/-- **The serialized lane moves the bytes of its access.** -/
theorem serialized_moves (cfg : LaneConfig) (a : Serial) (h : a.Reaches cfg) : a.Moves cfg := by
  refine ⟨fun _ _ _ _ hp => ⟨_, moved_of_performs h hp⟩, fun beat0 beat1 w => ?_, ?_,
    fun x hm => sameAsUnit_of_makes h hm⟩
  · have hone := (beats_le h).1
    obtain ⟨l, v, hp, hw⟩ := performs_exists h w (a.beats cfg - 1) 0 (Beats.start beat0 beat1)
      (by omega) rfl rfl
    have hlen : l.length = a.beats cfg - 1 + 1 := by
      rw [← List.length_map (f := Prod.snd), hw, List.length_map, List.length_range']
    exact ⟨l, v, hp, by rw [hw, hlen, List.range_eq_range']⟩
  · intro hwrite b hb hkind beat0 beat1 l v beat0' beat1' l' v' hstore hload m hread
    exact roundTrip h hb hkind hwrite hstore hload hread

/-- `lfd` of the 602 from 0x1003. -/
def lfdUnaligned : Serial where
  memSize := .word
  memReverse := false
  memSigned := false
  memLeft := false
  memBytes := 0
  write := false
  le := false
  ea := 0x1003
  c := 0
  fpu := true
  double := true
  fpuData := 0

theorem reaches_lfdUnaligned : lfdUnaligned.Reaches ⟨false, true⟩ := by
  refine ⟨fun _ => ⟨rfl, rfl⟩, fun _ => .inr ⟨rfl, rfl, rfl⟩, ?_, ?_, ?_⟩ <;> decide

/-- It returns bytes 0x1003 to 0x100a of three words. -/
theorem serialized_moves_lfdUnaligned :
    lfdUnaligned.result ⟨false, true⟩ ⟨true, true, 0x00010203, 0x04050607⟩ 0x08090a0b =
      0x030405060708090a := by
  have hmoves := serialized_moves ⟨false, true⟩ lfdUnaligned reaches_lfdUnaligned
  have hp : lfdUnaligned.Performs ⟨false, true⟩ (Beats.start 0 0) _
      (lfdUnaligned.result ⟨false, true⟩ ⟨true, true, 0x00010203, 0x04050607⟩ 0x08090a0b) :=
    .more rfl 0x00010203 (.more rfl 0x04050607 (.last rfl 0x08090a0b))
  obtain ⟨beat, hmoved⟩ := hmoves.moved _ _ _ _ hp
  have hval := hmoved.loaded (fun _ b => b.setWidth 8) (by
    rintro (_ | _ | _ | j) q hq
    · cases hq
      decide
    · cases hq
      decide
    · cases hq
      decide
    · cases hq)
  rw [hval]
  decide

/-- The first request of that load strobes byte 0x1000. -/
theorem strobes_outside_lfdUnaligned :
    ¬ ∀ (cfg : LaneConfig) (a : Serial), a.Reaches cfg →
      ∀ beat0 beat1 l v, a.Performs cfg (Beats.start beat0 beat1) l v → ∀ b,
        (∃ q ∈ l, ∃ t, q.1.strobed t = true ∧ q.1.laneAddr t = b) →
          ∃ p < a.accessBytes, a.bytePlace p = b := by
  intro hall
  have hp : lfdUnaligned.Performs ⟨false, true⟩ (Beats.start 0 0) _ _ :=
    .more rfl 0 (.more rfl 0 (.last rfl 0))
  have hout := hall _ _ reaches_lfdUnaligned 0 0 _ _ hp 0x1000 ⟨_, List.mem_cons_self, 3, by decide⟩
  revert hout
  decide

end All

end Serial

end Lsu
end SloPPC603
