import SloPPC603.Lsu.Crossing

/-!
# The beats of the serialized lane

`ppc_special.sv` makes an access in up to three beats: an integer one or a piece of a string
in the words it touches, a doubleword of the FPU in one beat of the wide port or in two, and
on the 602 an FP load at any EA in the words that hold it.

* `Serial`, `Beats`, `Serial.request`, `Serial.Performs` — the data path and the beats.
* `Serial.Reaches` — the accesses that decoding and the alignment exceptions let through.
* `Serial.placeAt_eq` — where its bytes are.
* `Serial.performs_cases` — the beats of every access.
* `serialized_moves` — it moves the bytes of its access, as the fast unit does.
-/

namespace SloPPC603
namespace Lsu

open Words (byte ofBytes writeBytes)

/-! ## The data path -/

/-- The parameters of the lane. -/
structure LaneConfig where
  /-- `DMEM_BITS` is 64. -/
  dmem64 : Bool
  /-- `FPU_UNALIGNED`. -/
  fpuUnaligned : Bool

/-- An access of the lane, by its operation or by the FPU. -/
structure Serial extends LaneAccess where
  /-- `fpu_access`. -/
  fpu : Bool
  /-- `fpu_double_q`. -/
  double : Bool
  /-- `fpu_data_q`, of a store. -/
  fpuData : BitVec 64

/-- The registers of the beats. -/
structure Beats where
  /-- `beat_q`. -/
  beat : Bool
  /-- `beat2_q`. -/
  beat2 : Bool
  /-- `beat0_data_q`. -/
  beat0 : BitVec 32
  /-- `beat1_data_q`. -/
  beat1 : BitVec 32

/-- The first beat, with what the data registers hold. -/
def Beats.start (beat0 beat1 : BitVec 32) : Beats := ⟨false, false, beat0, beat1⟩

/-- The registers after a beat that is not the last, from the low word of its response. -/
def Beats.next (cfg : LaneConfig) (b : Beats) (rspWord : BitVec 32) : Beats where
  beat := true
  beat2 := cfg.fpuUnaligned && b.beat
  beat0 := if b.beat then b.beat0 else rspWord
  beat1 := if cfg.fpuUnaligned && b.beat then rspWord else b.beat1

namespace Serial

variable (cfg : LaneConfig) (a : Serial) (b : Beats)

/-- `access_bytes`. -/
def accessBytes : ℕ := if a.fpu && a.double then 8 else a.nbytes

/-- `first_ea`. -/
def firstEa : BitVec 32 :=
  if a.le then (a.ea + BitVec.ofNat 32 (a.accessBytes - 1)) ^^^ 7 else a.ea

/-- `mem_offset`. -/
def offset : ℕ := (a.firstEa.extractLsb' 0 2).toNat

/-- `mem_crossing`, with the datapath for it. -/
def crossing : Bool := decide (4 < a.offset + a.nbytes)

/-- `fpu_wide`. -/
def fpuWide : Bool := cfg.dmem64 && a.fpu && a.double && a.ea.extractLsb' 0 3 = 0

/-- `fpu_unaligned`. -/
def unaligned : Bool := cfg.fpuUnaligned && a.fpu && a.ea.extractLsb' 0 2 ≠ 0

/-- `access_ea`. -/
def accessEa : BitVec 32 :=
  if !b.beat then a.firstEa
  else if a.le then a.ea.extractLsb' 3 29 ++ BitVec.ofBool (!a.ea.getLsbD 2) ++ 0#2
  else (a.ea.extractLsb' 2 30 + if b.beat2 then 2 else 1) ++ 0#2

/-- `store_window`. -/
def storeWindow : BitVec 64 := (a.storeLeft ++ 0#32) >>> (8 * a.offset)

/-- `strobe_window`. -/
def strobeWindow : BitVec 8 := (a.mask ++ 0#4) >>> a.offset

/-- `req_wdata_word`. -/
def wdataWord : BitVec 32 :=
  if a.fpu then
    if a.double && !b.beat then a.fpuData.extractLsb' 32 32 else a.fpuData.extractLsb' 0 32
  else if b.beat then a.storeWindow.extractLsb' 0 32 else a.storeWindow.extractLsb' 32 32

/-- `req_wstrb_word`. -/
def wstrbWord : BitVec 4 :=
  if a.fpu then 0xf
  else if b.beat then a.strobeWindow.extractLsb' 0 4 else a.strobeWindow.extractLsb' 4 4

/-- The request of a beat: `dmem_req_addr_o`, `dmem_req_wdata_o` and `dmem_req_wstrb_o`. -/
def request : Request where
  write := a.write
  addr := (a.accessEa b).extractLsb' 2 30 ++ 0#2
  wdata := if a.fpuWide cfg then a.fpuData else 0#32 ++ a.wdataWord b
  wstrb := if a.fpuWide cfg then 0xff else 0#4 ++ a.wstrbWord b

/-- `beat_continue`, of a response without an error. -/
def beatContinue : Bool :=
  (!b.beat && (a.crossing || (a.fpu && !a.fpuWide cfg && (a.double || a.unaligned cfg)))) ||
    (b.beat && !b.beat2 && a.double && a.unaligned cfg)

/-- `load_value`. -/
def loadValue (rspWord : BitVec 32) : BitVec 32 :=
  let window : BitVec 64 := if b.beat then b.beat0 ++ rspWord else rspWord ++ 0#32
  let left := (window <<< (8 * a.offset)).extractLsb' 32 32 &&&
    ((if a.mask.getLsbD 3 then 0xff#8 else 0#8) ++ (if a.mask.getLsbD 2 then 0xff#8 else 0#8) ++
      (if a.mask.getLsbD 1 then 0xff#8 else 0#8) ++ (if a.mask.getLsbD 0 then 0xff#8 else 0#8))
  let right := left >>> (8 * (4 - a.nbytes))
  if a.memLeft then left
  else if a.memReverse then swapBytes right a.nbytes
  else if a.memSigned then (right.extractLsb' 0 16).signExtend 32
  else right

/-- `fpu_window`. -/
def fpuWindow (rspWord : BitVec 32) : BitVec 96 :=
  let window : BitVec 96 :=
    if b.beat2 then b.beat0 ++ b.beat1 ++ rspWord
    else if b.beat then b.beat0 ++ rspWord ++ 0#32 else rspWord ++ 0#64
  if cfg.fpuUnaligned then window <<< (8 * (a.ea.extractLsb' 0 2).toNat) else window

/-- What a load returns: the value of an integer register, or `fpu_data_q`. -/
def result (rsp : BitVec 64) : BitVec 64 :=
  if a.fpu then
    if a.fpuWide cfg then rsp
    else if a.double then (a.fpuWindow cfg b (rsp.extractLsb' 0 32)).extractLsb' 32 64
    else 0#32 ++ (a.fpuWindow cfg b (rsp.extractLsb' 0 32)).extractLsb' 64 32
  else 0#32 ++ a.loadValue b (rsp.extractLsb' 0 32)

/-- The beats of an access with their requests and responses, and what it returns. -/
inductive Performs : Beats → List (Request × BitVec 64) → BitVec 64 → Prop
  | last {b : Beats} (h : a.beatContinue cfg b = false) (rsp : BitVec 64) :
      Performs b [(a.request cfg b, rsp)] (a.result cfg b rsp)
  | more {b : Beats} {l : List (Request × BitVec 64)} {v : BitVec 64}
      (h : a.beatContinue cfg b = true) (rsp : BitVec 64)
      (hl : Performs (b.next cfg (rsp.extractLsb' 0 32)) l v) :
      Performs b ((a.request cfg b, rsp) :: l) v

/-- What decoding and the alignment exceptions let through.  An access of the FPU is a word or
a doubleword at a word, but a load of the 602 out of little-endian mode; a multiple or a
string is words, and traps in little-endian mode; only a halfword is signed and no byte is
reversed. -/
structure Reaches : Prop where
  fpu : a.fpu = true → a.memSize = .word ∧ a.memLeft = false
  aligned : a.fpu = true → a.ea.extractLsb' 0 2 = 0 ∨
    (cfg.fpuUnaligned = true ∧ a.write = false ∧ a.le = false)
  left : a.memLeft = true → a.memSize = .word ∧ a.le = false
  reverse : a.memReverse = true → a.memSize ≠ .byte
  signed : a.memSigned = true → a.memSize = .half ∧ a.memReverse = false

/-! ## Where the bytes are -/

section Places

variable {cfg : LaneConfig} {a : Serial}

/-- The word of beat `j`. -/
def wordAddr (a : Serial) (j : ℕ) : BitVec 32 :=
  LaneAccess.wordOf (a.accessEa ⟨decide (0 < j), decide (1 < j), 0, 0⟩)

/-- The place of byte `p` of the access, the most significant one first. -/
def placeAt (a : Serial) (p : ℕ) : BitVec 32 :=
  a.wordAddr ((a.offset + p) / 4) + BitVec.ofNat 32 ((a.offset + p) % 4)

theorem offset_lt (a : Serial) : a.offset < 4 := (a.firstEa.extractLsb' 0 2).isLt

theorem nbytes_le (a : Serial) : 0 < a.nbytes ∧ a.nbytes ≤ 4 := by
  unfold LaneAccess.nbytes
  split_ifs with h
  · obtain ⟨-, hne⟩ := Bool.and_eq_true_iff.1 h
    have hne' := of_decide_eq_true hne
    have hlt := a.memBytes.isLt
    have hpos : a.memBytes.toNat ≠ 0 := fun hz => hne' (BitVec.toNat_inj.1 hz)
    omega
  · unfold Lsu.nbytes
    cases a.memSize <;> decide

theorem accessBytes_cases (h : a.Reaches cfg) :
    (a.fpu = true ∧ a.double = true ∧ a.accessBytes = 8) ∨
      (a.accessBytes = a.nbytes ∧ (a.fpu && a.double) = false ∧
        (a.fpu = true → a.nbytes = 4)) := by
  cases hd : a.fpu && a.double with
  | true =>
    obtain ⟨hf, hd'⟩ := Bool.and_eq_true_iff.1 hd
    exact .inl ⟨hf, hd', by simp [accessBytes, hd]⟩
  | false =>
    refine .inr ⟨by simp [accessBytes, hd], rfl, fun hf => ?_⟩
    obtain ⟨hw, hl⟩ := h.fpu hf
    simp [LaneAccess.nbytes, Lsu.nbytes, hw, hl]

theorem accessBytes_le (h : a.Reaches cfg) : 0 < a.accessBytes ∧ a.accessBytes ≤ 8 := by
  have hn := a.nbytes_le
  rcases accessBytes_cases h with ⟨-, -, h8⟩ | ⟨hsame, -⟩ <;> omega

/-- The words of a big-endian access follow one another. -/
theorem wordAddr_big (hle : a.le = false) {j : ℕ} (hj : j ≤ 2) :
    a.wordAddr j = LaneAccess.wordOf a.ea + BitVec.ofNat 32 (4 * j) := by
  have hnext : ∀ n : BitVec 30, LaneAccess.wordOf ((a.ea.extractLsb' 2 30 + n) ++ 0#2) =
      LaneAccess.wordOf a.ea + (n ++ 0#2) := by
    intro n
    have hz : (0#2).toNat = 0 := rfl
    have hlt : (0#2).toNat < 2 ^ 2 := by decide
    have hea := a.ea.isLt
    have hn := n.isLt
    apply BitVec.eq_of_toNat_eq
    rw [BitVec.toNat_add, LaneAccess.wordOf, LaneAccess.wordOf, BitVec.toNat_append,
      BitVec.extractLsb'_toNat, BitVec.toNat_append, BitVec.toNat_append, BitVec.toNat_append,
      ← Nat.shiftLeft_add_eq_or_of_lt hlt, ← Nat.shiftLeft_add_eq_or_of_lt hlt,
      ← Nat.shiftLeft_add_eq_or_of_lt hlt, ← Nat.shiftLeft_add_eq_or_of_lt hlt, BitVec.toNat_add,
      BitVec.extractLsb'_toNat, Nat.shiftRight_eq_div_pow, Nat.shiftRight_eq_div_pow,
      Nat.shiftLeft_eq, Nat.shiftLeft_eq, Nat.shiftLeft_eq, Nat.shiftLeft_eq, hz]
    omega
  rcases (by omega : j = 0 ∨ j = 1 ∨ j = 2) with rfl | rfl | rfl
  · show LaneAccess.wordOf a.firstEa = _
    rw [firstEa, hle, if_neg Bool.false_ne_true]
    exact (BitVec.add_zero _).symm
  · show LaneAccess.wordOf (if a.le then _ else (a.ea.extractLsb' 2 30 + 1) ++ 0#2) = _
    rw [hle, if_neg Bool.false_ne_true, hnext]
    rfl
  · show LaneAccess.wordOf (if a.le then _ else (a.ea.extractLsb' 2 30 + 2) ++ 0#2) = _
    rw [hle, if_neg Bool.false_ne_true, hnext]
    rfl

theorem offset_le_accessBytes (h : a.Reaches cfg) {p : ℕ} (hp : p < a.accessBytes) :
    (a.offset + p) / 4 ≤ 2 := by
  have hle := accessBytes_le h
  have hoff := a.offset_lt
  omega

/-- The low bits of the first address of a little-endian access. -/
theorem firstEa_low (hle : a.le = true) (h8 : a.accessBytes - 1 < 8) :
    a.firstEa = (if (a.ea.extractLsb' 0 3).toNat + (a.accessBytes - 1) < 8 then a.ea.extractLsb' 3 29
        else a.ea.extractLsb' 3 29 + 1) ++
          ((a.ea.extractLsb' 0 3 + BitVec.ofNat 3 (a.accessBytes - 1)) ^^^ 7) ∧
      a.firstEa.extractLsb' 0 2 =
        ((a.ea.extractLsb' 0 3 + BitVec.ofNat 3 (a.accessBytes - 1)) ^^^ 7).extractLsb' 0 2 := by
  have h7 : (7 : BitVec 32) = (7 : BitVec 3).setWidth 32 := by decide
  have hfirst : a.firstEa =
      (if (a.ea.extractLsb' 0 3).toNat + (a.accessBytes - 1) < 8 then a.ea.extractLsb' 3 29
        else a.ea.extractLsb' 3 29 + 1) ++
          ((a.ea.extractLsb' 0 3 + BitVec.ofNat 3 (a.accessBytes - 1)) ^^^ 7) := by
    rw [firstEa, hle, if_pos rfl]
    conv_lhs => rw [← ea_append a.ea]
    rw [LaneAccess.append_add_carry _ _ h8, h7, append_xor]
  refine ⟨hfirst, ?_⟩
  rw [hfirst]
  apply BitVec.eq_of_getLsbD_eq
  intro j hj
  rw [BitVec.getLsbD_extractLsb', BitVec.getLsbD_append, if_pos (by omega),
    BitVec.getLsbD_extractLsb']

theorem low_aligned (hal : a.ea.extractLsb' 0 2 = 0) :
    a.ea.extractLsb' 0 3 = 0 ∨ a.ea.extractLsb' 0 3 = 4 := by
  have hlow2 : a.ea.extractLsb' 0 2 = (a.ea.extractLsb' 0 3).extractLsb' 0 2 := by
    apply BitVec.eq_of_getLsbD_eq
    intro j hj
    simp [hj]
  have hall : ∀ lo : BitVec 3, lo.extractLsb' 0 2 = 0 → lo = 0 ∨ lo = 4 := by decide
  exact hall _ (hlow2 ▸ hal)

/-- A word or a doubleword at a word starts its first word. -/
theorem offset_aligned (hn : a.accessBytes = 4 ∨ a.accessBytes = 8)
    (hal : a.ea.extractLsb' 0 2 = 0) : a.offset = 0 := by
  cases hle : a.le with
  | false =>
    rw [offset, firstEa, hle, if_neg Bool.false_ne_true, hal]
    rfl
  | true =>
    rw [offset, (firstEa_low hle (by omega)).2]
    rcases hn with hn | hn <;> rcases low_aligned hal with hlo | hlo <;> rw [hn, hlo] <;> rfl

/-- A doubleword in little-endian mode: its high word is the other word of the EA's. -/
theorem placeAt_double (hle : a.le = true) (h8 : a.accessBytes = 8)
    (hal : a.ea.extractLsb' 0 2 = 0) {p : ℕ} (hp : p < 8) :
    a.placeAt p = byteAddr true 8 a.ea (7 - p) := by
  have hbit : a.ea.getLsbD 2 = (a.ea.extractLsb' 0 3).getLsbD 2 := by simp
  have h7 : (7 : BitVec 32) = (7 : BitVec 3).setWidth 32 := by decide
  have hlo := low_aligned hal
  have hother : a.accessEa ⟨true, decide (1 < 1), 0, 0⟩ = a.ea.extractLsb' 3 29 ++
      (BitVec.ofBool (!(a.ea.extractLsb' 0 3).getLsbD 2) ++ 0#2 : BitVec 3) := by
    rw [accessEa, hle, hbit]
    apply BitVec.eq_of_getLsbD_eq
    intro j hj
    simp only [Bool.not_true, Bool.false_eq_true, if_false, if_true, BitVec.getLsbD_append]
    split_ifs <;> first | rfl | omega
  have hfirst := (firstEa_low hle (by omega)).1
  rw [h8] at hfirst
  have hbyte : byteAddr true 8 a.ea (7 - p) =
      (if (a.ea.extractLsb' 0 3).toNat + (7 - p) < 8 then a.ea.extractLsb' 3 29
        else a.ea.extractLsb' 3 29 + 1) ++ ((a.ea.extractLsb' 0 3 + BitVec.ofNat 3 (7 - p)) ^^^ 7) := by
    rw [byteAddr, if_pos rfl]
    conv_lhs => rw [← ea_append a.ea]
    rw [LaneAccess.append_add_carry _ _ (by omega), h7, append_xor]
  have hoff := offset_aligned (.inr h8) hal
  rw [hbyte, placeAt, hoff, Nat.zero_add]
  generalize a.ea.extractLsb' 3 29 = hi at hfirst hother ⊢
  by_cases hp4 : p < 4
  · have hz : p / 4 = 0 := Nat.div_eq_of_lt hp4
    have hword : a.wordAddr 0 = LaneAccess.wordOf a.firstEa := rfl
    rw [hz, Nat.mod_eq_of_lt hp4, hword, hfirst, LaneAccess.wordOf_append]
    have hlow : ∀ lo : BitVec 3, lo = 0 ∨ lo = 4 → ∀ q < 4,
        (BitVec.ofBool (((lo + BitVec.ofNat 3 7) ^^^ 7).getLsbD 2) ++ 0#2 : BitVec 3).toNat + q < 8 ∧
        (BitVec.ofBool (((lo + BitVec.ofNat 3 7) ^^^ 7).getLsbD 2) ++ 0#2 : BitVec 3) + BitVec.ofNat 3 q =
          (lo + BitVec.ofNat 3 (7 - q)) ^^^ 7 ∧ (lo.toNat + 7 < 8 ↔ lo.toNat + (7 - q) < 8) := by
      rintro lo (rfl | rfl) <;> decide
    obtain ⟨hlt, heq, hcarry⟩ := hlow _ hlo p hp4
    rw [append_add _ _ hlt, heq]
    simp only [hcarry]
  · have h1 : p / 4 = 1 := by omega
    have hmod : p % 4 = p - 4 := by omega
    have hword : a.wordAddr 1 = LaneAccess.wordOf (a.accessEa ⟨true, decide (1 < 1), 0, 0⟩) := rfl
    rw [h1, hmod, hword, hother, LaneAccess.wordOf_append]
    have hlow : ∀ lo : BitVec 3, lo = 0 ∨ lo = 4 → ∀ q < 4,
        (BitVec.ofBool ((BitVec.ofBool (!lo.getLsbD 2) ++ 0#2 : BitVec 3).getLsbD 2) ++ 0#2 :
          BitVec 3).toNat + q < 8 ∧
        (BitVec.ofBool ((BitVec.ofBool (!lo.getLsbD 2) ++ 0#2 : BitVec 3).getLsbD 2) ++ 0#2 :
          BitVec 3) + BitVec.ofNat 3 q = (lo + BitVec.ofNat 3 (3 - q)) ^^^ 7 ∧
          lo.toNat + (3 - q) < 8 := by
      rintro lo (rfl | rfl) <;> decide
    obtain ⟨hlt, heq, hcarry⟩ := hlow _ hlo (p - 4) (by omega)
    have hsub : 3 - (p - 4) = 7 - p := by omega
    rw [hsub] at heq hcarry
    rw [append_add _ _ hlt, heq, if_pos hcarry]

/-- **The bytes of the beats are where the architecture has them.** -/
theorem placeAt_eq (h : a.Reaches cfg) {p : ℕ} (hp : p < a.accessBytes) :
    a.placeAt p = byteAddr a.le a.accessBytes a.ea (a.accessBytes - 1 - p) := by
  have hn := accessBytes_le h
  cases hle : a.le with
  | false =>
    have hoff : a.offset = (a.ea.extractLsb' 0 2).toNat := by
      rw [offset, firstEa, hle, if_neg Bool.false_ne_true]
    have hsum : a.offset + p = 4 * ((a.offset + p) / 4) + (a.offset + p) % 4 :=
      (Nat.div_add_mod _ _).symm
    have hp' : a.accessBytes - 1 - (a.accessBytes - 1 - p) = p := by omega
    rw [placeAt, wordAddr_big hle (offset_le_accessBytes h hp), BitVec.add_assoc, ← BitVec.ofNat_add,
      ← hsum, BitVec.ofNat_add, ← BitVec.add_assoc, hoff, LaneAccess.wordOf_add, byteAddr,
      if_neg Bool.false_ne_true, hp']
  | true =>
    rcases accessBytes_cases h with ⟨hf, -, h8⟩ | ⟨hsame, -, -⟩
    · have hal := (h.aligned hf).resolve_right fun hno => by simp [hle] at hno
      rw [h8] at hp ⊢
      exact placeAt_double hle h8 hal hp
    · have hpos := a.nbytes_le
      have hfirst : a.firstEa = a.toLaneAccess.firstEa := by
        rw [firstEa, LaneAccess.firstEa, hsame]
      have hoff : a.offset = a.toLaneAccess.offset := by
        rw [offset, LaneAccess.offset, hfirst]
      have hfour := a.toLaneAccess.offset_lt
      have hat := LaneAccess.byteAt_eq a.toLaneAccess hpos
        (show a.nbytes - 1 - p < a.nbytes by omega)
      rw [show a.nbytes - 1 - (a.nbytes - 1 - p) = p by omega, hle] at hat
      rw [hsame, ← hat, LaneAccess.byteAt, placeAt, hoff]
      split_ifs with h4
      · have hz : (a.toLaneAccess.offset + p) / 4 = 0 := Nat.div_eq_of_lt h4
        rw [hz, Nat.mod_eq_of_lt h4, wordAddr, accessEa, LaneAccess.accessEa, hfirst]
        rfl
      · have h1 : (a.toLaneAccess.offset + p) / 4 = 1 := by omega
        have hmod : (a.toLaneAccess.offset + p) % 4 = a.toLaneAccess.offset + p - 4 := by omega
        rw [h1, hmod, wordAddr, accessEa, LaneAccess.accessEa, hle]
        rfl

end Places

/-! ## The beats -/

section Performing

variable {cfg : LaneConfig} {a : Serial}

/-- How many beats an access has. -/
def beats (cfg : LaneConfig) (a : Serial) : ℕ :=
  if a.fpuWide cfg then 1 else (a.offset + a.accessBytes + 3) / 4

/-- Beat `j`, with the words of the responses before it. -/
def beatAt (w : ℕ → BitVec 64) (j : ℕ) : Beats :=
  ⟨decide (0 < j), decide (1 < j), (w 0).extractLsb' 0 32, (w 1).extractLsb' 0 32⟩

theorem unaligned_of (h : a.Reaches cfg) (hf : a.fpu = true) :
    (a.unaligned cfg = false ∧ a.offset = 0) ∨
      (a.unaligned cfg = true ∧ a.offset ≠ 0 ∧ cfg.fpuUnaligned = true ∧ a.fpuWide cfg = false) := by
  by_cases hal : a.ea.extractLsb' 0 2 = 0
  · refine .inl ⟨by simp [unaligned, hal], offset_aligned ?_ hal⟩
    rcases accessBytes_cases h with ⟨-, -, h8⟩ | ⟨hsame, -, h4⟩
    · exact .inr h8
    · exact .inl (hsame.trans (h4 hf))
  · obtain ⟨hpart, -, hle⟩ := (h.aligned hf).resolve_left hal
    refine .inr ⟨by simpa [unaligned, hpart, hf] using hal, ?_, hpart, ?_⟩
    · rw [offset, firstEa, hle, if_neg Bool.false_ne_true]
      exact fun hz => hal (BitVec.toNat_inj.1 hz)
    · have hne : a.ea.extractLsb' 0 3 ≠ 0 := by
        intro hz
        refine hal ?_
        apply BitVec.eq_of_getLsbD_eq
        intro j hj
        have hbit := congrArg (fun v => v.getLsbD j) hz
        simpa [hj, (by omega : j < 3)] using hbit
      simpa [fpuWide] using fun _ _ _ => hne

/-- **The beats go on until the words of the access are done.** -/
theorem beatContinue_eq (h : a.Reaches cfg) (w : ℕ → BitVec 64) {j : ℕ} (hj : j ≤ 2) :
    a.beatContinue cfg (beatAt w j) = decide (j + 1 < a.beats cfg) := by
  have hn := a.nbytes_le
  have hoff := a.offset_lt
  have hcross : a.crossing = decide (4 < a.offset + a.nbytes) := rfl
  have hbeats : a.fpuWide cfg = false → a.beats cfg = (a.offset + a.accessBytes + 3) / 4 :=
    fun hw => if_neg (by simp [hw])
  cases hf : a.fpu with
  | false =>
    have hw : a.fpuWide cfg = false := by simp [fpuWide, hf]
    have hu : a.unaligned cfg = false := by simp [unaligned, hf]
    obtain ⟨hsame, -⟩ : a.accessBytes = a.nbytes ∧ True := by simp [accessBytes, hf]
    rw [beatContinue, hbeats hw, hcross, hf, hu, hsame]
    rcases (by omega : j = 0 ∨ j = 1 ∨ j = 2) with rfl | rfl | rfl
    · simp [beatAt]
      omega
    · simp [beatAt]
      omega
    · simp [beatAt]
      omega
  | true =>
    rcases accessBytes_cases h with ⟨-, hd, h8⟩ | ⟨hsame, hd, h4⟩
    · have hn4 : a.nbytes = 4 := by
        obtain ⟨hsize, hl⟩ := h.fpu hf
        simp [LaneAccess.nbytes, Lsu.nbytes, hsize, hl]
      rcases unaligned_of h hf with ⟨hu, hz⟩ | ⟨hu, hz, -, hw⟩
      · cases hw : a.fpuWide cfg with
        | true =>
          have hone : a.beats cfg = 1 := if_pos hw
          rw [beatContinue, hone, hcross, hu, hw, hz, hn4]
          simp
        | false =>
          rw [beatContinue, hbeats hw, hcross, hu, hw, hz, hn4, hf, hd, h8]
          rcases (by omega : j = 0 ∨ j = 1 ∨ j = 2) with rfl | rfl | rfl <;> rfl
      · rw [beatContinue, hbeats hw, hcross, hu, hw, hn4, hf, hd, h8]
        rcases (by omega : j = 0 ∨ j = 1 ∨ j = 2) with rfl | rfl | rfl
        · simp [beatAt]
          omega
        · simp [beatAt]
          omega
        · simp [beatAt]
          omega
    · have hn4 := h4 hf
      have hd' : a.double = false := by simpa [hf] using hd
      have hw : a.fpuWide cfg = false := by simp [fpuWide, hd']
      rcases unaligned_of h hf with ⟨hu, hz⟩ | ⟨hu, hz, -, -⟩
      · rw [beatContinue, hbeats hw, hcross, hu, hw, hz, hsame, hn4, hf, hd']
        rcases (by omega : j = 0 ∨ j = 1 ∨ j = 2) with rfl | rfl | rfl <;> rfl
      · rw [beatContinue, hbeats hw, hcross, hu, hw, hsame, hn4, hf, hd']
        rcases (by omega : j = 0 ∨ j = 1 ∨ j = 2) with rfl | rfl | rfl
        · simp [beatAt]
          omega
        · simp [beatAt]
          omega
        · simp [beatAt]
          omega

theorem beats_le (h : a.Reaches cfg) : 1 ≤ a.beats cfg ∧ a.beats cfg ≤ 3 := by
  have hn := accessBytes_le h
  have hoff := a.offset_lt
  unfold beats
  split_ifs <;> omega

/-- A request is made of which beat it is. -/
theorem request_congr {b b' : Beats} (hb : b.beat = b'.beat) (hb2 : b.beat2 = b'.beat2) :
    a.request cfg b = a.request cfg b' := by
  simp only [request, accessEa, wdataWord, wstrbWord, hb, hb2]

/-- A result is made of the words of the beats there were. -/
theorem result_congr {b b' : Beats} (hb : b.beat = b'.beat) (hb2 : b.beat2 = b'.beat2)
    (hlater : b.beat2 = true → b.beat = true) (h0 : b.beat = true → b.beat0 = b'.beat0)
    (h1 : b.beat2 = true → b.beat1 = b'.beat1) (rsp : BitVec 64) :
    a.result cfg b rsp = a.result cfg b' rsp := by
  have hload : ∀ word, a.loadValue b word = a.loadValue b' word := by
    intro word
    have hwindow : (if b.beat then b.beat0 ++ word else word ++ 0#32) =
        if b'.beat then b'.beat0 ++ word else word ++ 0#32 := by
      rw [← hb]
      exact if_ctx_congr Iff.rfl (fun hbeat => by rw [h0 hbeat]) fun _ => rfl
    unfold loadValue
    rw [hwindow]
  have hfpu : ∀ word, a.fpuWindow cfg b word = a.fpuWindow cfg b' word := by
    intro word
    have hwindow : (if b.beat2 then b.beat0 ++ b.beat1 ++ word
          else if b.beat then b.beat0 ++ word ++ 0#32 else word ++ 0#64) =
        if b'.beat2 then b'.beat0 ++ b'.beat1 ++ word
          else if b'.beat then b'.beat0 ++ word ++ 0#32 else word ++ 0#64 := by
      rw [← hb, ← hb2]
      refine if_ctx_congr Iff.rfl (fun hbeat2 => by rw [h0 (hlater hbeat2), h1 hbeat2]) fun _ => ?_
      exact if_ctx_congr Iff.rfl (fun hbeat => by rw [h0 hbeat]) fun _ => rfl
    unfold fpuWindow
    rw [hwindow]
  simp only [result, hload, hfpu]

theorem unaligned_of_third (h : a.Reaches cfg) (hj : 2 < a.beats cfg) : cfg.fpuUnaligned = true := by
  have hoff := a.offset_lt
  have hn := a.nbytes_le
  unfold beats at hj
  split_ifs at hj with hw
  · omega
  · rcases accessBytes_cases h with ⟨hf, -, h8⟩ | ⟨hsame, -, -⟩
    · rcases unaligned_of h hf with ⟨-, hz⟩ | ⟨-, -, hpart, -⟩
      · omega
      · exact hpart
    · omega

/-- The beats from beat `j` on. -/
theorem performs_from (h : a.Reaches cfg) {b : Beats} {l : List (Request × BitVec 64)} {v : BitVec 64}
    (hp : a.Performs cfg b l v) : ∀ (j : ℕ) (w₀ : ℕ → BitVec 64), j < a.beats cfg →
      b.beat = decide (0 < j) → b.beat2 = decide (1 < j) →
      (0 < j → b.beat0 = (w₀ 0).extractLsb' 0 32) → (1 < j → b.beat1 = (w₀ 1).extractLsb' 0 32) →
      ∃ w : ℕ → BitVec 64, (∀ i < j, w i = w₀ i) ∧
        l = (List.range' j (a.beats cfg - j)).map (fun i => (a.request cfg (beatAt w i), w i)) ∧
        v = a.result cfg (beatAt w (a.beats cfg - 1)) (w (a.beats cfg - 1)) := by
  have hbeats := (beats_le h).2
  induction hp with
  | @last b hno rsp =>
    intro j w₀ hj hb hb2 h0 h1
    have hlast : j + 1 = a.beats cfg := by
      have hcont := beatContinue_eq h w₀ (show j ≤ 2 by omega)
      have hsame : a.beatContinue cfg b = a.beatContinue cfg (beatAt w₀ j) := by
        simp only [beatContinue, hb, hb2, beatAt]
      rw [← hsame, hno, eq_comm, decide_eq_false_iff_not] at hcont
      omega
    have hold : ∀ i < j, Function.update w₀ j rsp i = w₀ i :=
      fun i hi => Function.update_of_ne (Nat.ne_of_lt hi) _ _
    refine ⟨Function.update w₀ j rsp, hold, ?_, ?_⟩
    · rw [← hlast, Nat.add_sub_cancel_left]
      show [(a.request cfg b, rsp)] = [(a.request cfg (beatAt _ j), Function.update w₀ j rsp j)]
      rw [Function.update_self, @request_congr cfg a b (beatAt (Function.update w₀ j rsp) j) hb hb2]
    · rw [← hlast, Nat.add_sub_cancel, Function.update_self]
      refine result_congr hb hb2 ?_ ?_ ?_ rsp
      · rw [hb2, hb, decide_eq_true_eq, decide_eq_true_eq]
        omega
      · rw [hb, decide_eq_true_eq]
        intro hj0
        rw [h0 hj0, beatAt, hold 0 hj0]
      · rw [hb2, decide_eq_true_eq]
        intro hj1
        rw [h1 hj1, beatAt, hold 1 hj1]
  | @more b l v hyes rsp _ ih =>
    intro j w₀ hj hb hb2 h0 h1
    have hmore : j + 1 < a.beats cfg := by
      have hcont := beatContinue_eq h w₀ (show j ≤ 2 by omega)
      have hsame : a.beatContinue cfg b = a.beatContinue cfg (beatAt w₀ j) := by
        simp only [beatContinue, hb, hb2, beatAt]
      rwa [← hsame, hyes, eq_comm, decide_eq_true_eq] at hcont
    have hsub : a.beats cfg - j = a.beats cfg - (j + 1) + 1 := by omega
    obtain ⟨w, hw, hl, hv⟩ := ih (j + 1) (Function.update w₀ j rsp) hmore (by simp [Beats.next])
      (by
        rcases (by omega : j = 0 ∨ j = 1) with rfl | rfl
        · simp [Beats.next, hb]
        · simp [Beats.next, hb, unaligned_of_third h hmore])
      (by
        intro _
        rcases Nat.eq_zero_or_pos j with rfl | hj0
        · simp [Beats.next, hb]
        · rw [Function.update_of_ne (Nat.ne_of_lt hj0), ← h0 hj0]
          simp [Beats.next, hb, hj0])
      (by
        intro hj1
        obtain rfl : j = 1 := by omega
        simp [Beats.next, hb, unaligned_of_third h hmore])
    refine ⟨w, fun i hi => ?_, ?_, hv⟩
    · rw [hw i (Nat.lt_succ_of_lt hi), Function.update_of_ne (Nat.ne_of_lt hi)]
    · rw [hsub, List.range'_succ, List.map_cons, ← hl, hw j (Nat.lt_succ_self j),
        Function.update_self, @request_congr cfg a b (beatAt w j) hb hb2]

/-- **The beats of an access**: one for each of its words, and what it returns is made of the
words of the responses. -/
theorem performs_cases (h : a.Reaches cfg) {x y : BitVec 32} {l : List (Request × BitVec 64)}
    {v : BitVec 64} (hp : a.Performs cfg (Beats.start x y) l v) : ∃ w : ℕ → BitVec 64,
      l = (List.range (a.beats cfg)).map (fun j => (a.request cfg (beatAt w j), w j)) ∧
        v = a.result cfg (beatAt w (a.beats cfg - 1)) (w (a.beats cfg - 1)) := by
  obtain ⟨w, -, hl, hv⟩ := performs_from h hp 0 (fun _ => 0) (beats_le h).1 rfl rfl
    (fun hno => absurd hno (Nat.lt_irrefl 0)) (nofun)
  exact ⟨w, by rw [hl, Nat.sub_zero, List.range_eq_range'], hv⟩

end Performing

end Serial

end Lsu
end SloPPC603
