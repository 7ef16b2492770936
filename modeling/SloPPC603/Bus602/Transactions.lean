import SloPPC603.Bus602.Edge

/-!
# The transactions of the 602 bridge

What the beats of a transaction carry, and what the registers say of the transaction of the head
of the queue.

* `Entry.pieces`, `Carries` — what the beats of a transaction carry.
* `Addressed` — the word of its address phase.
* `Log` — what the bridge has accepted, and what the core and the bus have moved of it.
* `Agrees` — a transaction has the data of its tenure.
* `Head`, `head_step` — the head of the queue, over an edge on which it stays.
-/

namespace SloPPC603
namespace Bus602

open Clocked

/-! ## The beats of a transaction -/

/-- The doublewords of a tenure. -/
def Entry.doublewords (e : Entry) : ℕ := if e.addrOnly then 0 else if e.burst then 4 else 1

/-- The byte lanes of a single beat. -/
def Entry.lanes (e : Entry) : BitVec 8 := Bus602.lanes e.tsiz (e.addr.extractLsb' 0 3)

/-- The lanes use the high half. -/
def Entry.hi (e : Entry) : Bool := e.lanes.extractLsb' 4 4 ≠ 0

/-- The lanes use the low half. -/
def Entry.lo (e : Entry) : Bool := e.lanes.extractLsb' 0 4 ≠ 0

/-- What the beats of a transaction carry, in order: a doubleword, in 32-bit mode its high or its
low half; of a single beat the halves that its byte lanes use. -/
def Entry.pieces (e : Entry) (t32 : Bool) : List (ℕ × Bool) :=
  if e.addrOnly then []
  else if !t32 then (List.range e.doublewords).map fun j => (j, false)
  else if e.burst then
    [(0, false), (0, true), (1, false), (1, true), (2, false), (2, true), (3, false), (3, true)]
  else (if e.hi then [(0, false)] else []) ++ if e.lo then [(0, true)] else []

/-- A beat carries a piece of a doubleword: all of it, or a half on D0 to D31. -/
def Carries (t32 low : Bool) (bus v : BitVec 64) : Prop :=
  if t32 then bus.extractLsb' 32 32 = if low then v.extractLsb' 0 32 else v.extractLsb' 32 32
  else bus = v

/-- The doublewords that so many beats complete. -/
def Entry.delivered (e : Entry) (t32 : Bool) (beats : ℕ) : ℕ :=
  beats * e.doublewords / (e.pieces t32).length

section Pieces

variable {e : Entry} {t32 : Bool}

theorem lanes_ne_zero (tsiz a : BitVec 3) : lanes tsiz a ≠ 0 := by
  revert tsiz a
  decide

theorem Entry.lanes_used (e : Entry) : e.hi = true ∨ e.lo = true := by
  have hall : ∀ v : BitVec 8, v ≠ 0 →
      decide (v.extractLsb' 4 4 ≠ 0) = true ∨ decide (v.extractLsb' 0 4 ≠ 0) = true := by decide
  exact hall _ (lanes_ne_zero e.tsiz (e.addr.extractLsb' 0 3))

/-- The sizes there are. -/
theorem Entry.pieces_cases (e : Entry) (t32 : Bool) (hdata : e.addrOnly = false) :
    (t32 = false ∧ e.pieces t32 = (List.range e.doublewords).map (fun j => (j, false)) ∧
        (e.doublewords = 4 ∨ e.doublewords = 1)) ∨
      (t32 = true ∧ e.burst = true ∧ e.doublewords = 4 ∧ e.pieces t32 =
        [(0, false), (0, true), (1, false), (1, true), (2, false), (2, true), (3, false), (3, true)]) ∨
      (t32 = true ∧ e.burst = false ∧ e.doublewords = 1 ∧
        ((e.hi = true ∧ e.lo = true ∧ e.pieces t32 = [(0, false), (0, true)]) ∨
          (e.hi = true ∧ e.lo = false ∧ e.pieces t32 = [(0, false)]) ∨
          (e.hi = false ∧ e.lo = true ∧ e.pieces t32 = [(0, true)]))) := by
  cases t32 with
  | false =>
    refine .inl ⟨rfl, ?_, ?_⟩
    · rw [pieces, hdata]
      rfl
    · rw [doublewords, hdata]
      cases e.burst
      · exact .inr rfl
      · exact .inl rfl
  | true =>
    cases hb : e.burst with
    | true => exact .inr (.inl ⟨rfl, rfl, by simp [doublewords, hdata, hb], by simp [pieces, hdata, hb]⟩)
    | false =>
      refine .inr (.inr ⟨rfl, rfl, by simp [doublewords, hdata, hb], ?_⟩)
      have hp : e.pieces true = (if e.hi then [(0, false)] else []) ++ if e.lo then [(0, true)] else [] := by
        simp [pieces, hdata, hb]
      have hused := e.lanes_used
      rw [hp]
      cases hhi : e.hi with
      | false =>
        rw [hhi] at hused
        have hlo := hused.resolve_left Bool.false_ne_true
        exact .inr (.inr ⟨rfl, hlo, by rw [hlo]; rfl⟩)
      | true =>
        cases hlo : e.lo with
        | false => exact .inr (.inl ⟨rfl, rfl, rfl⟩)
        | true => exact .inl ⟨rfl, rfl, rfl⟩

end Pieces

/-! ## What the registers of a data phase say -/

section Position

variable {s : State}

/-- The registers of a data phase are those of its beats. -/
structure Counts (e : Entry) (p : Phase) : Prop where
  data : e.addrOnly = false
  be : p.be = if e.burst then 0xff else e.lanes
  beats : p.beats = (e.pieces p.t32).length
  beat : p.beat < p.beats

theorem used_of_single (hbe : s.be = if s.q0.burst then 0xff else s.q0.lanes)
    (hb : s.q0.burst = false) : hiUsed s = s.q0.hi ∧ loUsed s = s.q0.lo := by
  rw [hb, if_neg Bool.false_ne_true] at hbe
  rw [hiUsed, loUsed, hbe]
  exact ⟨rfl, rfl⟩

theorem beatsOf_eq (hdata : s.q0.addrOnly = false)
    (hbe : s.be = if s.q0.burst then 0xff else s.q0.lanes) (t32 : Bool) :
    beatsOf s t32 = (s.q0.pieces t32).length := by
  rw [beatsOf, hdata, if_neg Bool.false_ne_true]
  rcases s.q0.pieces_cases t32 hdata with ⟨rfl, hp, -⟩ | ⟨rfl, hb, -, hp⟩ | ⟨rfl, hb, -, hp⟩
  · rw [hp, List.length_map, List.length_range, Entry.doublewords, hdata]
    cases s.q0.burst <;> rfl
  · rw [hp, hb]
    rfl
  · obtain ⟨hhi, hlo⟩ := used_of_single hbe hb
    rw [hb, if_neg Bool.false_ne_true, if_pos rfl, hhi, hlo]
    rcases hp with ⟨hhi, hlo, hp⟩ | ⟨hhi, hlo, hp⟩ | ⟨hhi, hlo, hp⟩ <;> rw [hp, hhi, hlo] <;> rfl

/-- A data transaction has a beat, and at most eight. -/
theorem pieces_length {e : Entry} (hdata : e.addrOnly = false) (t32 : Bool) :
    0 < (e.pieces t32).length ∧ (e.pieces t32).length ≤ 8 := by
  rcases e.pieces_cases t32 hdata with ⟨-, hp, hdw⟩ | ⟨-, -, -, hp⟩ | ⟨-, -, -, hp⟩
  · rw [hp, List.length_map, List.length_range]
    omega
  · rw [hp]
    decide
  · rcases hp with ⟨-, -, hp⟩ | ⟨-, -, hp⟩ | ⟨-, -, hp⟩ <;> rw [hp] <;> decide

/-- **Where a beat is, what it completes, and that it is no earlier beat's.** -/
theorem position (h : Counts s.q0 s.phase) : (s.q0.pieces s.t32)[s.beat]? = some (dw s, halfLo s) ∧
    s.q0.delivered s.t32 (s.beat + 1) =
      s.q0.delivered s.t32 s.beat + (if readWhole s then 1 else 0) ∧
    s.q0.delivered s.t32 (s.beat + 1) ≤ s.q0.doublewords ∧
    s.q0.delivered s.t32 s.beat ≤ dw s ∧ dw s < s.q0.doublewords ∧
    (∀ n < s.beat, ∀ p, (s.q0.pieces s.t32)[n]? = some p →
      p.1 = dw s → s.t32 = true ∧ p.2 = !halfLo s) := by
  obtain ⟨hdata, hbe, hbeats, hbeat⟩ := h
  replace hbe : s.be = _ := hbe
  replace hbeats : s.beats = (s.q0.pieces s.t32).length := hbeats
  replace hbeat : s.beat < s.beats := hbeat
  rcases s.q0.pieces_cases s.t32 hdata with ⟨ht, hp, hdw⟩ | ⟨ht, hb, hdw, hp⟩ | ⟨ht, hb, hdw, hp⟩
  · have hlen : (s.q0.pieces s.t32).length = s.q0.doublewords := by
      rw [hp, List.length_map, List.length_range]
    have hdel : ∀ n, s.q0.delivered s.t32 n = n := by
      intro n
      rw [Entry.delivered, hlen]
      exact Nat.mul_div_cancel _ (by omega)
    have hlt : s.beat < s.q0.doublewords := by omega
    have hat : dw s = s.beat := by
      rw [dw, ht]
      exact Nat.mod_eq_of_lt (by omega)
    have hlo : halfLo s = false := by rw [halfLo, ht]; rfl
    have hwhole : readWhole s = true := by rw [readWhole, ht]; rfl
    rw [hdel, hdel, hat, hlo, hwhole, hp]
    refine ⟨by rw [List.getElem?_map, List.getElem?_range hlt]; rfl, rfl, hlt, Nat.le_refl _, hlt, ?_⟩
    intro n hn p hnp heq
    rw [List.getElem?_map, List.getElem?_range (by omega)] at hnp
    obtain rfl : (n, false) = p := Option.some.inj hnp
    exact absurd heq (Nat.ne_of_lt hn)
  · have hlen : (s.q0.pieces s.t32).length = 8 := by rw [hp]; rfl
    have hdel : ∀ n, s.q0.delivered s.t32 n = n * 4 / 8 := by
      intro n
      rw [Entry.delivered, hlen, hdw]
    have hlt : s.beat < 8 := by omega
    have hat : dw s = s.beat / 2 % 4 := by
      rw [dw, ht, hb]
      rfl
    have hlo : halfLo s = decide (s.beat % 2 = 1) := by
      rw [halfLo, ht, hb]
      rfl
    have hwhole : readWhole s = decide (s.beat % 2 = 1) := by
      rw [readWhole, ht, hb, hlo]
      simp
    rw [hdel, hdel, hat, hlo, hwhole, hp, hdw, ht]
    generalize s.beat = n at hlt
    revert n
    decide
  · obtain ⟨hhi, hlo⟩ := used_of_single hbe hb
    have hdel : ∀ n, s.q0.delivered s.t32 n = n / (s.q0.pieces s.t32).length := by
      intro n
      rw [Entry.delivered, hdw, Nat.mul_one]
    have hat : dw s = 0 := by
      rw [dw, ht, hb]
      rfl
    have hhalf : halfLo s = (!s.q0.hi || decide (s.beat % 2 = 1)) := by
      rw [halfLo, ht, hb, hhi]
      rfl
    have hwhole : readWhole s = (halfLo s || !s.q0.lo) := by
      rw [readWhole, ht, hb, hlo]
      rfl
    rw [hdel, hdel, hat, hwhole, hhalf, hdw, ht]
    rw [ht] at hp hbeats
    rw [hbeats] at hbeat
    generalize s.beat = n at hbeat
    rcases hp with ⟨hhi, hlo, hp⟩ | ⟨hhi, hlo, hp⟩ | ⟨hhi, hlo, hp⟩
    · rw [hp, hhi, hlo]
      rw [hp] at hbeat
      have hn : n = 0 ∨ n = 1 := by
        have : n < 2 := hbeat
        omega
      rcases hn with rfl | rfl <;> decide
    · rw [hp, hhi, hlo]
      rw [hp] at hbeat
      obtain rfl : n = 0 := Nat.lt_one_iff.1 hbeat
      decide
    · rw [hp, hhi, hlo]
      rw [hp] at hbeat
      obtain rfl : n = 0 := Nat.lt_one_iff.1 hbeat
      decide

end Position

/-! ## The address phase -/

/-- The word of an address phase is an entry's. With PFADDR, for which TC is
`TC_COPYBACK_FILL`, it has an address of the next entry in place of the lanes and the size. -/
structure Addressed (e : Entry) (word : BitVec 64) : Prop where
  addr : word.extractLsb' 32 32 = e.addr
  single : word.extractLsb' 10 1 = BitVec.ofBool (!e.burst)
  tt : word.extractLsb' 5 5 = e.tt
  gblN : word.extractLsb' 4 1 = BitVec.ofBool e.gblN
  ciN : word.extractLsb' 3 1 = BitVec.ofBool e.ciN
  wtN : word.extractLsb' 2 1 = BitVec.ofBool e.wtN
  tc : word.extractLsb' 0 2 = tcCopybackFill ∧ e.write = true ∧ e.burst = true ∨
    word.extractLsb' 0 2 = (if !e.write && e.instruction then tcInstruction else 0b00) ∧
      word.extractLsb' 16 8 = (if e.burst then 0 else e.lanes) ∧ word.extractLsb' 11 3 = e.tsiz

theorem word_fields (a : BitVec 32) (m : BitVec 21) (b : BitVec 1) (t : BitVec 5)
    (g c v : BitVec 1) (k : BitVec 2) :
    let word : BitVec 64 := a ++ m ++ b ++ t ++ g ++ c ++ v ++ k
    word.extractLsb' 32 32 = a ∧ word.extractLsb' 10 1 = b ∧ word.extractLsb' 5 5 = t ∧
      word.extractLsb' 4 1 = g ∧ word.extractLsb' 3 1 = c ∧ word.extractLsb' 2 1 = v ∧
      word.extractLsb' 0 2 = k := by
  refine ⟨?_, ?_, ?_, ?_, ?_, ?_, ?_⟩ <;>
    simp only [BitVec.extractLsb'_append_eq_of_le, BitVec.extractLsb'_append_eq_right,
      BitVec.extractLsb'_eq_self, Nat.reduceLeDiff, Nat.reduceSub]

/-- The word that an address phase starts with. -/
theorem addressed_now (s : State) : Addressed s.q0 (addrWordNow s) := by
  have hfields := word_fields s.q0.addr
    (if pfValid s then s.q1.addr.extractLsb' 11 21
      else (0#8 ++ (if s.q0.burst then 0#8 else headBe s) ++ 0#2 ++ s.q0.tsiz : BitVec 21))
    (BitVec.ofBool (!s.q0.burst)) s.q0.tt (BitVec.ofBool s.q0.gblN) (BitVec.ofBool s.q0.ciN)
    (BitVec.ofBool s.q0.wtN)
    (if pfValid s then tcCopybackFill
      else if !s.q0.write && s.q0.instruction then tcInstruction else 0b00)
  obtain ⟨haddr, hsingle, htt, hgbl, hci, hwt, htc⟩ := hfields
  refine ⟨haddr, hsingle, htt, hgbl, hci, hwt, ?_⟩
  have htc' : (addrWordNow s).extractLsb' 0 2 = if pfValid s then tcCopybackFill
      else if !s.q0.write && s.q0.instruction then tcInstruction else 0b00 := htc
  rw [htc']
  cases hpf : pfValid s with
  | true =>
    simp only [pfValid, castout, Bool.and_eq_true] at hpf
    exact .inl ⟨rfl, hpf.1.1.1.1.1.1, hpf.1.1.1.1.1.2⟩
  | false =>
    refine .inr ⟨rfl, ?_, ?_⟩
    · rw [addrWordNow, hpf, if_neg Bool.false_ne_true]
      simp only [BitVec.extractLsb'_append_eq_of_le, Nat.reduceLeDiff, Nat.reduceSub]
      rw [BitVec.extractLsb'_append_eq_of_add_le (by decide)]
      simp only [BitVec.extractLsb'_append_eq_of_le, BitVec.extractLsb'_append_eq_right,
        Nat.reduceLeDiff, Nat.reduceSub]
      rfl
    · rw [addrWordNow, hpf, if_neg Bool.false_ne_true]
      simp only [BitVec.extractLsb'_append_eq_of_le, Nat.reduceLeDiff, Nat.reduceSub]
      rw [BitVec.extractLsb'_append_eq_of_add_le (by decide)]
      exact BitVec.extractLsb'_append_eq_right

/-! ## What has moved -/

/-- A transaction that was not retried. -/
structure Transaction where
  entry : Entry
  /-- The word on the bus in its address phase. -/
  word : BitVec 64
  t32 : Bool
  /-- The word on the bus at each beat that the target acknowledged. -/
  beats : List (BitVec 64)
  error : Bool

/-- What the core has moved of a tenure. -/
structure Tenure where
  /-- The doublewords the core has given, or has been given. -/
  data : List (BitVec 64)
  /-- For each TEA the core has been given, how many doublewords were before it. -/
  teas : List ℕ

/-- A record of what the bridge has done. -/
structure Log where
  /-- The core was granted the bus in the last cycle. -/
  granted : Bool
  /-- The tenures of the core that were queued. -/
  accepted : List Entry
  transactions : List Transaction
  /-- The tenures that have left the queue. -/
  tenures : List Tenure
  /-- The tenure of the head. -/
  current : Tenure
  /-- The word on the bus in the last address phase. -/
  word : BitVec 64
  /-- The beats of the data phase of the head. -/
  acked : List (BitVec 64)
  /-- How often `write_error_o` was high. -/
  writeErrors : ℕ

/-- Nothing has been done. -/
def Log.start : Log := ⟨true, [], [], [], ⟨[], []⟩, 0, [], 0⟩

section Logging

variable (s : State) (i : Input) (w : ℕ)

/-- The word on the bus. -/
def busWord : BitVec 64 := if s.q0.write then dOut s else i.d

/-- The beats of the data phase after a cycle. -/
def ackedNext (acked : List (BitVec 64)) : Event → List (BitVec 64)
  | .aack => []
  | .beat => acked ++ [busWord s i]
  | _ => acked

/-- What the core gives or is given in a cycle. -/
def movedNow : List (BitVec 64) :=
  if cWriteBeat s i then [i.cD] else if cReadBeat s i then [cDOut s] else []

/-- A tenure after a cycle. -/
def Tenure.next (t : Tenure) : Tenure where
  data := t.data ++ movedNow s i
  teas := if cTea s i then t.teas ++ [t.data.length] else t.teas

/-- The record after an edge without the reset. -/
def Log.update (h : Log) : Log where
  granted := !cBgN s i
  accepted := if enq i then h.accepted ++ [cEntry i] else h.accepted
  transactions :=
    if (event s i w).ends s then
      h.transactions ++
        [⟨s.q0, h.word, s.t32, ackedNext s i h.acked (event s i w), event s i w = .error⟩]
    else h.transactions
  tenures := if pop s then h.tenures ++ [h.current] else h.tenures
  current := if pop s then ⟨[], []⟩ else h.current.next s i
  word := if s.state = .addr then dOut s else h.word
  acked := ackedNext s i h.acked (event s i w)
  writeErrors := h.writeErrors + s.writeError.toNat

/-- The record after an edge. -/
def Log.next (h : Log) : Log := if i.rstN then h.update s i w else .start

end Logging

/-! ## What the core and the bus agree on -/

/-- The beats of a write carry the core's doublewords. -/
def Written (e : Entry) (t32 : Bool) (beats data : List (BitVec 64)) : Prop :=
  ∀ (n : ℕ) (b : BitVec 64) (p : ℕ × Bool), beats[n]? = some b → (e.pieces t32)[n]? = some p →
    ∃ v, data[p.1]? = some v ∧ Carries t32 p.2 b v

/-- The doublewords of `v` carry the beats of a read. -/
def Read (e : Entry) (t32 : Bool) (beats : List (BitVec 64)) (v : ℕ → Option (BitVec 64)) : Prop :=
  ∀ (n : ℕ) (b : BitVec 64) (p : ℕ × Bool) (x : BitVec 64), beats[n]? = some b →
    (e.pieces t32)[n]? = some p → v p.1 = some x → Carries t32 p.2 b x

/-- A transaction has the address and the beats of its tenure. -/
structure Whole (x : Transaction) : Prop where
  addressed : Addressed x.entry x.word
  beats : x.beats.length ≤ (x.entry.pieces x.t32).length
  complete : x.error = false → x.beats.length = (x.entry.pieces x.t32).length
  incomplete : x.error = true → x.beats.length < (x.entry.pieces x.t32).length

/-- **A transaction has the data of its tenure.** -/
structure Agrees (x : Transaction) (t : Tenure) : Prop extends Whole x where
  /-- A write puts the core's doublewords on the bus. -/
  written : x.entry.write = true → t.data.length = x.entry.doublewords ∧ t.teas = [] ∧
    Written x.entry x.t32 x.beats t.data
  /-- A read gives the core the doublewords the target has acknowledged, and then one TEA if it
  ended in an error. -/
  read : x.entry.write = false → t.data.length = x.entry.delivered x.t32 x.beats.length ∧
    t.teas = (if x.error then [t.data.length] else []) ∧
    Read x.entry x.t32 x.beats (t.data[·]?)

/-! ## The head -/

/-- The beats carry the doublewords of a buffer. -/
def Carried (e : Entry) (t32 : Bool) (beats : List (BitVec 64)) (buf : ℕ → BitVec 64) : Prop :=
  ∀ (n : ℕ) (b : BitVec 64) (p : ℕ × Bool), beats[n]? = some b → (e.pieces t32)[n]? = some p →
    Carries t32 p.2 b (buf p.1)

/-- The transaction of the head, once it has ended. -/
def Log.last (h : Log) : Option Transaction := h.transactions[h.tenures.length]?

/-- A data phase of an entry. -/
structure DataPhase (e : Entry) (p : Phase) (h : Log) : Prop where
  worded : Addressed e h.word
  counts : e.addrOnly = false → Counts e p
  acked : h.acked.length = p.beat
  killed : e.addrOnly = true → p.beat = 0
  carried : Carried e p.t32 h.acked p.buf
  avail : e.write = false → p.avail = e.delivered p.t32 p.beat ∧ p.readError = false

/-- What a transaction of an entry has left. -/
structure Ended (e : Entry) (p : Phase) (x : Transaction) : Prop where
  entry : x.entry = e
  whole : Whole x
  carried : Carried e x.t32 x.beats p.buf
  avail : e.write = false → p.avail = e.delivered x.t32 x.beats.length ∧ p.readError = x.error

/-- The bus side of a head: its entry, the registers of its transaction, the word of its address
phase, and whether the core is done with it. -/
structure Bus (e : Entry) (p : Phase) (word : BitVec 64) (coreDone : Bool) (h : Log) : Prop where
  open_ : p.state = .addr ∨ p.state = .data →
    p.headPinDone = false ∧ p.be = if e.burst then 0xff else e.lanes
  first : p.first = true → p.state = .data ∧ p.beat = 0
  driven : p.state = .addr → Addressed e word
  data : p.state = .data → DataPhase e p h
  ended : p.headPinDone = true → ∃ x, h.last = some x ∧ Ended e p x
  idle : e.write = false → p.state ≠ .data → p.headPinDone = false →
    p.avail = 0 ∧ p.readError = false
  waits : e.write = true → e.addrOnly = false → coreDone = false →
    p.state ≠ .addr ∧ p.state ≠ .data ∧ p.headPinDone = false

section Head

variable (s : State) (h : Log)

/-- The bus side of the head. -/
def State.Bus : Prop := Bus602.Bus s.q0 s.phase s.addrWord s.headCoreDone h

/-- The core's side of a head that writes: the buffer has what the core has given. -/
structure WriteHead : Prop where
  teas : h.current.teas = []
  length : h.current.data.length = if s.headCoreDone then s.q0.doublewords else s.cap
  room : s.headCoreDone = false → s.cap < s.q0.doublewords
  buf : ∀ (j : ℕ) (v : BitVec 64), h.current.data[j]? = some v → s.buf j = v

/-- The core's side of a head that reads: it has been given the buffer, up to `rd_q`. -/
structure ReadHead : Prop where
  data : ∀ (j : ℕ) (v : BitVec 64), h.current.data[j]? = some v → s.buf j = v
  length : h.current.data.length ≤ s.avail
  waiting : s.headCoreDone = false → h.current.data.length = s.rd ∧ h.current.teas = [] ∧
    s.rd < s.q0.doublewords
  done : s.headCoreDone = true → s.headPinDone = true ∧
    ((h.current.teas = [] ∧ h.current.data.length = s.q0.doublewords) ∨
      (h.current.teas = [h.current.data.length] ∧ h.current.data.length = s.avail ∧
        s.readError = true))

/-- The head of the queue. -/
structure Head : Prop where
  bus : s.Bus h
  kill : s.q0.addrOnly = true → h.current = ⟨[], []⟩
  write : s.q0.addrOnly = false → s.q0.write = true → WriteHead s h
  read : s.q0.addrOnly = false → s.q0.write = false → ReadHead s h

/-- Nothing of the head has moved. -/
structure Fresh : Prop where
  current : h.current = ⟨[], []⟩
  cap : s.cap = 0
  avail : s.avail = 0
  rd : s.rd = 0
  readError : s.readError = false
  pinDone : s.headPinDone = false
  first : s.first = false
  rests : s.state ≠ .addr ∧ s.state ≠ .data

end Head

theorem doublewords_pos {e : Entry} (hdata : e.addrOnly = false) :
    e.doublewords = 4 ∨ e.doublewords = 1 := by
  rw [Entry.doublewords, hdata]
  cases e.burst
  · exact .inr rfl
  · exact .inl rfl

/-- A head that is in no phase of a transaction. -/
theorem bus_of_rest {e : Entry} {p : Phase} {word : BitVec 64} {coreDone : Bool} {h : Log}
    (hst : p.state ≠ .addr ∧ p.state ≠ .data) (hfirst : p.first = false)
    (hended : p.headPinDone = true → ∃ x, h.last = some x ∧ Ended e p x)
    (hidle : e.write = false → p.headPinDone = false → p.avail = 0 ∧ p.readError = false)
    (hwaits : e.write = true → e.addrOnly = false → coreDone = false → p.headPinDone = false) :
    Bus e p word coreDone h := by
  refine ⟨fun h => ?_, fun hf => ?_, fun h => absurd h hst.1, fun h => absurd h hst.2, hended,
    fun hr _ => hidle hr, fun hw hd hc => ⟨hst.1, hst.2, hwaits hw hd hc⟩⟩
  · exact absurd h (not_or.2 hst)
  · rw [hfirst] at hf
    exact Bool.noConfusion hf

/-- A head of which nothing has moved. -/
theorem head_of_fresh {s : State} {h : Log} (h' : Fresh s h)
    (hdone : s.q0.addrOnly = false → s.headCoreDone = false) : Head s h := by
  obtain ⟨hcur, hcap, havail, hrd, herr, hpin, hfirst, hst⟩ := h'
  refine ⟨bus_of_rest hst hfirst (fun hp => ?_) (fun _ _ => ⟨havail, herr⟩) fun _ _ _ => hpin,
    fun _ => hcur, fun hdata _ => ?_, fun hdata _ => ?_⟩
  · exact Bool.noConfusion (hpin.symm.trans hp)
  · have hpos := doublewords_pos hdata
    refine ⟨by rw [hcur], by rw [hcur, hdone hdata, hcap]; rfl, fun _ => by omega, ?_⟩
    intro j v hv
    rw [hcur] at hv
    cases hv
  · have hpos := doublewords_pos hdata
    refine ⟨?_, by rw [hcur, havail]; exact Nat.le_refl 0,
      fun _ => ⟨by rw [hcur, hrd]; rfl, by rw [hcur], by omega⟩, fun hd => ?_⟩
    · intro j v hv
      rw [hcur] at hv
      cases hv
    · exact Bool.noConfusion ((hdone hdata).symm.trans hd)

/-! ## An edge on which the head stays -/

section Stays

variable {s : State} {i : Input} {w : ℕ} {h : Log}

theorem stay_phase (hpop : pop s = false) : (edge s i w).phase =
    let p := (corePhase s i).after s i (event s i w)
    { p with buf := if cWriteBeat s i then Function.update p.buf s.cap i.cD else p.buf } :=
  (edge_stay s i w hpop).1.trans (workEdge_phase s i w)

theorem stay_q0 (hpop : pop s = false) (hc : 0 < s.count) : (edge s i w).q0 = s.q0 := by
  rw [(edge_stay s i w hpop).2.2.1, if_neg]
  simp [Nat.ne_of_gt hc]

/-- The core's side of an edge on which the head stays. -/
theorem stay_core (hpop : pop s = false) :
    (edge s i w).cap = (if cWriteBeat s i then (s.cap + 1) % 4 else s.cap) ∧
    (edge s i w).headCoreDone = ((s.count ≠ 0 && s.q0.addrOnly) ||
      ((cWriteBeat s i && s.cap + 1 = coreBeats s) || (cReadBeat s i && s.rd + 1 = coreBeats s) ||
        cTea s i || s.headCoreDone)) := by
  obtain ⟨-, hcap, -, -, -, hdone⟩ := edge_stay s i w hpop
  obtain ⟨-, -, -, hcap', hdone'⟩ := workEdge_core s i w
  exact ⟨hcap.trans hcap', by rw [hdone, hdone']⟩

theorem current_update (hpop : pop s = false) :
    (h.update s i w).current = h.current.next s i := by
  rw [Log.update, hpop]
  rfl

theorem coreBeats_eq (hdata : s.q0.addrOnly = false) : coreBeats s = s.q0.doublewords := by
  rw [Entry.doublewords, hdata]
  rfl

theorem ends_data (hends : (event s i w).ends s = true) : s.state = .data := by
  have hspec := event_spec s i w
  cases hev : event s i w <;> rw [hev] at hspec hends
  case kill => exact hspec.1
  case error => exact hspec.1
  case beat => exact hspec.1
  all_goals exact Bool.noConfusion hends

theorem last_update (hb : s.Bus h) (hpop : pop s = false)
    (hlen : h.transactions.length = h.tenures.length + s.headPinDone.toNat) :
    (h.update s i w).last = if (event s i w).ends s then
      some ⟨s.q0, h.word, s.t32, ackedNext s i h.acked (event s i w), event s i w = .error⟩
        else h.last := by
  have hten : (h.update s i w).tenures = h.tenures := by
    rw [Log.update, hpop]
    rfl
  rw [Log.last, hten, Log.update]
  dsimp only
  split_ifs with hends
  · have hfree : s.headPinDone = false := (hb.open_ (.inr (ends_data hends))).1
    rw [hfree, Bool.toNat_false, Nat.add_zero] at hlen
    rw [← hlen, List.getElem?_append_right (Nat.le_refl _), Nat.sub_self]
    rfl
  · rfl

/-! ## The bus side -/

/-- A data phase that is retried has had no beat. -/
theorem retry_first (hev : event s i w = .retry) (hst : s.state = .data) : s.first = true := by
  cases hf : s.first with
  | true => rfl
  | false =>
    rw [event, hst] at hev
    dsimp only at hev
    rw [hf, Bool.false_and, if_neg Bool.false_ne_true] at hev
    split_ifs at hev

/-- A beat that is not the last leaves a beat to come. -/
theorem beat_next (hcounts : Counts s.q0 s.phase) : ((s.beat + 1) % 16 = s.beat + 1) ∧
    (beatLast s = true → s.beat + 1 = s.beats) ∧ (beatLast s = false → s.beat + 1 < s.beats) := by
  have hlt : s.beat < s.beats := hcounts.beat
  have h8 : s.beats ≤ 8 := by
    rw [show s.beats = _ from hcounts.beats]
    exact (pieces_length hcounts.data _).2
  have hmod : (s.beat + 1) % 16 = s.beat + 1 := Nat.mod_eq_of_lt (by omega)
  rw [beatLast, hmod, decide_eq_true_eq, decide_eq_false_iff_not]
  exact ⟨rfl, id, fun hne => by omega⟩

/-- What a write drives is its piece of the buffer. -/
theorem carries_dOut (hst : s.state = .data) : Carries s.t32 (halfLo s) (dOut s) (s.buf (dw s)) := by
  have hno : s.state ≠ .addr := by rw [hst]; decide
  rw [Carries, dOut, if_neg hno]
  split_ifs
  · exact BitVec.extractLsb'_append_eq_left
  · exact BitVec.extractLsb'_append_eq_left
  · rfl

/-- The line buffer after a beat. -/
def bufNext (s : State) (i : Input) : ℕ → BitVec 64 :=
  if s.q0.write then s.buf else Function.update s.buf (dw s) (readBuf s i)

/-- **One more beat.** -/
theorem carried_beat (hst : s.state = .data) (hd : DataPhase s.q0 s.phase h)
    (hdata : s.q0.addrOnly = false) :
    Carried s.q0 s.t32 (ackedNext s i h.acked .beat) (bufNext s i) := by
  obtain ⟨hat, -, -, -, -, hother⟩ := position (hd.counts hdata)
  have hlen : h.acked.length = s.beat := hd.acked
  intro n b p hb hp
  rw [ackedNext] at hb
  rcases Nat.lt_trichotomy n h.acked.length with hlt | rfl | hgt
  · rw [List.getElem?_append_left hlt] at hb
    have hold : Carries s.t32 p.2 b (s.buf p.1) := hd.carried n b p hb hp
    rw [bufNext]
    split_ifs
    · exact hold
    by_cases hsame : p.1 = dw s
    · -- the other half of the doubleword of this beat
      obtain ⟨ht, hhalf⟩ := hother n (hlen ▸ hlt) p hp hsame
      rw [hsame, Carries, ht, if_pos rfl, hhalf] at hold
      rw [hsame, Function.update_self, Carries, ht, if_pos rfl, hhalf, readBuf, ht, hold]
      cases halfLo s
      · exact BitVec.extractLsb'_append_eq_right.symm
      · exact BitVec.extractLsb'_append_eq_left.symm
    · rw [Function.update_of_ne hsame]
      exact hold
  · rw [List.getElem?_append_right (Nat.le_refl _), Nat.sub_self] at hb
    obtain rfl : busWord s i = b := Option.some.inj hb
    rw [hlen, hat] at hp
    obtain rfl : (dw s, halfLo s) = p := Option.some.inj hp
    rw [bufNext, busWord]
    split_ifs
    · exact carries_dOut hst
    rw [Function.update_self, Carries, readBuf]
    cases s.t32 with
    | false => rfl
    | true =>
      cases halfLo s
      · exact BitVec.extractLsb'_append_eq_left.symm
      · exact BitVec.extractLsb'_append_eq_right.symm
  · rw [List.getElem?_eq_none (by rw [List.length_append]; exact hgt)] at hb
    cases hb

/-- The doublewords of a read after a beat. -/
theorem avail_beat (hd : DataPhase s.q0 s.phase h) (hdata : s.q0.addrOnly = false)
    (hread : s.q0.write = false) :
    (if !s.q0.write && readWhole s then (s.avail + 1) % 8 else s.avail) =
      s.q0.delivered s.t32 (s.beat + 1) := by
  obtain ⟨-, hone, hroom, -, -, -⟩ := position (hd.counts hdata)
  have hat : s.avail = s.q0.delivered s.t32 s.beat := (hd.avail hread).1
  have hdw := doublewords_pos hdata
  rw [hread, Bool.not_false, Bool.true_and, hat, hone]
  cases hwhole : readWhole s with
  | false => rfl
  | true =>
    rw [hwhole, if_pos rfl] at hone
    rw [if_pos rfl, if_pos rfl, Nat.mod_eq_of_lt (by omega)]

/-- The bus waits for the core's write. -/
theorem bus_waits (hb : s.Bus h) (hpop : pop s = false) (hbeat : cWriteBeat s i = true) :
    Bus s.q0 (edge s i w).phase (edge s i w).addrWord (edge s i w).headCoreDone (h.update s i w) := by
  simp only [cWriteBeat, cHasData, Bool.and_eq_true, Bool.not_eq_true'] at hbeat
  obtain ⟨⟨⟨⟨-, hdata⟩, hcore⟩, hwrite⟩, -⟩ := hbeat
  obtain ⟨hst1, hst2, hfree⟩ := hb.waits hwrite hdata hcore
  have hspec := event_spec s i w
  have hfirst : s.first = false := by
    cases hf : s.first with
    | false => rfl
    | true => exact absurd (hb.first hf).1 hst2
  have hread : s.q0.write = false → ∀ {P : Prop}, P :=
    fun hr => Bool.noConfusion (hr.symm.trans hwrite)
  rw [stay_phase hpop]
  cases hev : event s i w <;> rw [hev] at hspec
  case none =>
    exact bus_of_rest ⟨hst1, hst2⟩ (congrArg (· && decide (s.state ≠ .data)) hfirst)
      (fun hp => Bool.noConfusion (hfree.symm.trans hp)) (fun hr => hread hr) fun _ _ _ => hfree
  case rest =>
    exact bus_of_rest ⟨PinState.noConfusion, PinState.noConfusion⟩ rfl
      (fun hp => Bool.noConfusion (hfree.symm.trans hp)) (fun hr => hread hr) fun _ _ _ => hfree
  case start => simp [wantBus, headReady, hwrite, hdata, hcore] at hspec
  case retry => exact absurd hspec (not_or.2 ⟨hst1, hst2⟩)
  case aack => exact absurd hspec hst1
  all_goals exact absurd hspec.1 hst2

/-- **The transaction of the head.** -/
theorem bus_step (hb : s.Bus h) (hc : 0 < s.count) (hpop : pop s = false)
    (hlen : h.transactions.length = h.tenures.length + s.headPinDone.toNat) :
    (edge s i w).Bus (h.update s i w) := by
  have hspec := event_spec s i w
  have hlast := last_update (i := i) (w := w) hb hpop hlen
  have haddr := edge_addrWord s i w
  have hack : (h.update s i w).acked = ackedNext s i h.acked (event s i w) := rfl
  have hword : s.state ≠ .addr → (h.update s i w).word = h.word := fun hne => if_neg hne
  have hwaits : s.q0.write = true → s.q0.addrOnly = false → (edge s i w).headCoreDone = false →
      s.state ≠ .addr ∧ s.state ≠ .data ∧ s.headPinDone = false := by
    intro hw hd hno
    rw [(stay_core hpop).2] at hno
    simp only [Bool.or_eq_false_iff] at hno
    exact hb.waits hw hd hno.2.2
  rw [State.Bus, stay_q0 hpop hc]
  cases hbeat : cWriteBeat s i with
  | true => exact bus_waits hb hpop hbeat
  | false =>
  have hphase : (edge s i w).phase = (corePhase s i).after s i (event s i w) := by
    rw [stay_phase hpop, hbeat]
    rfl
  rw [hphase]
  cases hev : event s i w <;> rw [hev] at hspec hlast haddr hack
  case none =>
    refine ⟨hb.open_, fun hf => ?_, fun hst => haddr ▸ hb.driven hst, fun hst => ?_, fun hp => ?_,
      hb.idle, hwaits⟩
    · have hf' : s.first = true ∧ decide (s.state ≠ .data) = true := Bool.and_eq_true_iff.1 hf
      exact absurd (hb.first hf'.1).1 (of_decide_eq_true hf'.2)
    · have hst' : s.state = .data := hst
      obtain ⟨hworded, hcounts, hacked, hkilled, hcarried, havail⟩ := hb.data hst
      refine ⟨?_, fun hd => ?_, ?_, hkilled, ?_, havail⟩
      · rw [hword (by rw [hst']; decide)]
        exact hworded
      · exact ⟨hd, (hcounts hd).be, (hcounts hd).beats, (hcounts hd).beat⟩
      · rw [hack]
        exact hacked
      · rw [hack]
        exact hcarried
    · obtain ⟨x, hx, hentry, hwhole, hcarried, havail⟩ := hb.ended hp
      exact ⟨x, hlast.trans hx, hentry, hwhole, hcarried, havail⟩
  case start =>
    obtain ⟨hidle, hwant⟩ := hspec
    have hfree : s.headPinDone = false := by
      simp only [wantBus, headReady, Bool.and_eq_true, Bool.not_eq_true'] at hwant
      exact hwant.2.1.1.2
    have hst : s.state ≠ .addr ∧ s.state ≠ .data := by rw [hidle]; decide
    refine ⟨fun _ => ⟨hfree, rfl⟩, fun hf => absurd (hb.first hf).1 hst.2,
      fun _ => haddr ▸ addressed_now s, PinState.noConfusion,
      fun hp => Bool.noConfusion (hfree.symm.trans hp), fun hr _ _ => hb.idle hr hst.2 hfree,
      fun hw hd hno => ?_⟩
    -- a write starts when the core is done with it
    have hcore : s.headCoreDone = false := by
      rw [(stay_core hpop).2] at hno
      simp only [Bool.or_eq_false_iff] at hno
      exact hno.2.2
    simp [wantBus, headReady, hw, hd, hcore] at hwant
  case retry =>
    have hfree : s.headPinDone = false := (hb.open_ hspec).1
    refine bus_of_rest ⟨PinState.noConfusion, PinState.noConfusion⟩ ?_
      (fun hp => Bool.noConfusion (hfree.symm.trans hp)) (fun hr _ => ?_)
      fun _ _ _ => hfree
    · show (s.first && decide (s.state ≠ .data)) = false
      rw [Bool.and_eq_false_iff, decide_eq_false_iff_not, not_not]
      cases hf : s.first with
      | false => exact .inl rfl
      | true => exact .inr (hb.first hf).1
    · by_cases hst : s.state = .data
      · obtain ⟨hat, hno⟩ := (hb.data hst).avail hr
        rw [(hb.first (retry_first hev hst)).2, Entry.delivered, Nat.zero_mul, Nat.zero_div] at hat
        exact ⟨hat, hno⟩
      · exact hb.idle hr hst hfree
  case aack =>
    obtain ⟨hfree, hbe⟩ := hb.open_ (.inl hspec)
    refine ⟨fun _ => ⟨hfree, hbe⟩, fun _ => ⟨rfl, rfl⟩, PinState.noConfusion, fun _ => ?_,
      fun hp => Bool.noConfusion (hfree.symm.trans hp), fun _ hne => absurd rfl hne,
      fun hw hd hno => absurd hspec (hwaits hw hd hno).1⟩
    refine ⟨?_, fun hd => ?_, by rw [hack]; rfl, fun _ => rfl, ?_, fun _ => ⟨?_, rfl⟩⟩
    · show Addressed s.q0 (if s.state = .addr then dOut s else h.word)
      rw [if_pos hspec, dOut, if_pos hspec]
      exact hb.driven hspec
    · have hbeats := beatsOf_eq hd hbe (!i.t32N)
      refine ⟨hd, hbe, hbeats, ?_⟩
      show 0 < beatsOf s (!i.t32N)
      rw [hbeats]
      exact (pieces_length hd _).1
    · rw [hack]
      exact fun n b p hb' => absurd hb' (by simp [ackedNext])
    · show 0 = 0 * _ / _
      rw [Nat.zero_mul, Nat.zero_div]
  case kill =>
    obtain ⟨hst, hk⟩ := hspec
    obtain ⟨hworded, -, hacked, hkilled, hcarried, havail⟩ := hb.data hst
    have hnone : h.acked = [] := List.length_eq_zero_iff.1 (hacked.trans (hkilled hk))
    have hpieces : s.q0.pieces s.t32 = [] := by rw [Entry.pieces, hk]; rfl
    refine bus_of_rest ⟨PinState.noConfusion, PinState.noConfusion⟩ rfl
      (fun _ => ⟨_, hlast, rfl, ⟨hworded, ?_, fun _ => ?_, fun herr => ?_⟩, hcarried, fun hr => ?_⟩)
      (fun _ hp => Bool.noConfusion hp) fun _ hd => Bool.noConfusion (hd.symm.trans hk)
    · show h.acked.length ≤ (s.q0.pieces s.t32).length
      rw [hnone]
      exact Nat.zero_le _
    · show h.acked.length = (s.q0.pieces s.t32).length
      rw [hnone, hpieces]
      rfl
    · cases herr
    · obtain ⟨hat, hno⟩ := havail hr
      exact ⟨hat.trans (congrArg (s.q0.delivered s.t32) hacked.symm), hno⟩
  case error =>
    obtain ⟨hst, hd⟩ := hspec
    obtain ⟨hworded, hcounts, hacked, -, hcarried, havail⟩ := hb.data hst
    have hlt : h.acked.length < (s.q0.pieces s.t32).length := by
      rw [hacked]
      exact Nat.lt_of_lt_of_eq (hcounts hd).beat (hcounts hd).beats
    refine bus_of_rest ⟨PinState.noConfusion, PinState.noConfusion⟩ rfl (fun _ => ⟨_, hlast, rfl,
      ⟨hworded, Nat.le_of_lt hlt, nofun, fun _ => hlt⟩, hcarried,
      fun hr => ⟨?_, ?_⟩⟩) (fun _ hp => Bool.noConfusion hp)
      fun hw hd hno => absurd hst (hwaits hw hd hno).2.1
    · exact (havail hr).1.trans (congrArg (s.q0.delivered s.t32) hacked.symm)
    · show (!s.q0.write || s.readError) = _
      rw [hr]
      rfl
  case beat =>
    obtain ⟨hst, hd⟩ := hspec
    have hdata := hb.data hst
    obtain ⟨hworded, hcounts, hacked, -, -, havail⟩ := hb.data hst
    obtain ⟨hmod, hend, hmore⟩ := beat_next (hcounts hd)
    obtain ⟨hfree, hbe⟩ := hb.open_ (.inr hst)
    have hcarried := carried_beat (i := i) hst hdata hd
    have hat := avail_beat hdata hd
    have hlength : (ackedNext s i h.acked .beat).length = s.beat + 1 := by
      rw [ackedNext, List.length_append, hacked]
      rfl
    have hno : s.q0.write = true → s.q0.addrOnly = false →
        (edge s i w).headCoreDone = false → ∀ {P : Prop}, P :=
      fun hw hd hno => absurd hst (hwaits hw hd hno).2.1
    cases hl : beatLast s with
    | true =>
      have hends : Event.ends s .beat = true := hl
      rw [if_pos hends] at hlast
      have hfull : (ackedNext s i h.acked .beat).length = (s.q0.pieces s.t32).length := by
        rw [hlength, hend hl]
        exact (hcounts hd).beats
      have hstate : ((corePhase s i).after s i .beat).state = .gap := if_pos hl
      refine bus_of_rest (by rw [hstate]; decide) rfl (fun _ => ⟨_, hlast, rfl, ⟨hworded,
        Nat.le_of_eq hfull, fun _ => hfull, nofun⟩, hcarried,
        fun hr => ⟨?_, (havail hr).2⟩⟩) (fun _ hp => ?_) fun hw hd hno' => hno hw hd hno'
      · exact (hat hr).trans (congrArg (s.q0.delivered s.t32) hlength.symm)
      · exact Bool.noConfusion (hp.symm.trans (congrArg (· || s.headPinDone) hl))
    | false =>
      have hstate : ((corePhase s i).after s i .beat).state = .data :=
        if_neg (by rw [hl]; exact Bool.false_ne_true)
      have hpin : ((corePhase s i).after s i .beat).headPinDone = false := by
        show (beatLast s || s.headPinDone) = false
        rw [hl]
        exact hfree
      refine ⟨fun _ => ⟨hpin, hbe⟩, fun hf => Bool.noConfusion hf,
        fun h => PinState.noConfusion (h.symm.trans hstate), fun _ => ?_,
        fun hp => Bool.noConfusion (hpin.symm.trans hp), fun _ hne => absurd hstate hne,
        fun hw hd hno' => hno hw hd hno'⟩
      refine ⟨by rw [hword (by rw [hst]; decide)]; exact hworded, fun _ => ?_, ?_,
        fun hk => Bool.noConfusion (hd.symm.trans hk), ?_, fun hr => ⟨?_, (havail hr).2⟩⟩
      · refine ⟨hd, hbe, (hcounts hd).beats, ?_⟩
        show (s.beat + 1) % 16 < s.beats
        rw [hmod]
        exact hmore hl
      · rw [hack, hlength]
        exact hmod.symm
      · rw [hack]
        exact hcarried
      · show (if _ then _ else _) = s.q0.delivered s.t32 ((s.beat + 1) % 16)
        rw [hmod]
        exact hat hr
  case rest =>
    have hrests : s.state ≠ .data := by rw [hspec]; decide
    refine bus_of_rest ⟨PinState.noConfusion, PinState.noConfusion⟩ rfl (fun hp => ?_)
      (fun hr hp => hb.idle hr hrests hp) fun hw hd hno => (hwaits hw hd hno).2.2
    obtain ⟨x, hx, hentry, hwhole, hcarried, havail⟩ := hb.ended hp
    exact ⟨x, hlast.trans hx, hentry, hwhole, hcarried, havail⟩

/-! ## The core's side -/

/-- **A head that writes.** -/
theorem write_step (hw : WriteHead s h) (hdata : s.q0.addrOnly = false)
    (hwrite : s.q0.write = true) (hc : 0 < s.count) (hpop : pop s = false) :
    WriteHead (edge s i w) (h.update s i w) := by
  have hcur := current_update (h := h) (i := i) (w := w) hpop
  obtain ⟨hcap, hdone⟩ := stay_core (i := i) (w := w) hpop
  have hreading : cReading s i = false := by simp [cReading, hwrite]
  have hread : cReadBeat s i = false := by rw [cReadBeat, hreading]; rfl
  have htea : cTea s i = false := by rw [cTea, hreading]; rfl
  have hdw := doublewords_pos hdata
  have hroom := hw.room
  have hcount := hw.length
  rw [hread, htea, hdata, Bool.and_false, Bool.false_or, Bool.false_and, Bool.or_false,
    Bool.or_false, coreBeats_eq hdata] at hdone
  have hteas : (h.update s i w).current.teas = [] := by
    rw [hcur, Tenure.next, htea]
    exact hw.teas
  -- the bus leaves the buffer of a write
  have hbuf : (edge s i w).buf =
      if cWriteBeat s i then Function.update s.buf s.cap i.cD else s.buf := by
    have hphase : (edge s i w).buf = _ := congrArg Phase.buf (stay_phase (i := i) (w := w) hpop)
    have hkept : ((corePhase s i).after s i (event s i w)).buf = s.buf := by
      cases event s i w
      case beat => exact if_pos hwrite
      all_goals rfl
    rw [hphase, ← hkept]
  cases hbeat : cWriteBeat s i with
  | false =>
    have hmoved : (h.update s i w).current.data = h.current.data := by
      rw [hcur, Tenure.next, movedNow, hbeat, hread]
      exact List.append_nil _
    rw [hbeat] at hcap hbuf hdone
    refine ⟨hteas, ?_, fun hd => ?_, fun j v hv => ?_⟩
    · rw [hmoved, hdone, hcap, stay_q0 hpop hc]
      exact hcount
    · rw [hdone] at hd
      rw [hcap, stay_q0 hpop hc]
      exact hroom hd
    · rw [hmoved] at hv
      rw [hbuf]
      exact hw.buf j v hv
  | true =>
    have hcore : s.headCoreDone = false := by
      simp only [cWriteBeat, cHasData, Bool.and_eq_true, Bool.not_eq_true'] at hbeat
      exact hbeat.1.1.2
    have hmoved : (h.update s i w).current.data = h.current.data ++ [i.cD] := by
      rw [hcur, Tenure.next, movedNow, hbeat]
      rfl
    have hlt := hroom hcore
    rw [hcore, if_neg Bool.false_ne_true] at hcount
    rw [hbeat, if_pos rfl] at hcap hbuf
    rw [hbeat, hcore, Bool.true_and, Bool.or_false] at hdone
    refine ⟨hteas, ?_, fun hd => ?_, fun j v hv => ?_⟩
    · rw [hmoved, List.length_append, hcount, hdone, hcap, stay_q0 hpop hc]
      by_cases hall : s.cap + 1 = s.q0.doublewords
      · simp [hall]
      · rw [decide_eq_false hall, if_neg Bool.false_ne_true, Nat.mod_eq_of_lt (by omega)]
        rfl
    · rw [hdone, decide_eq_false_iff_not] at hd
      rw [hcap, stay_q0 hpop hc, Nat.mod_eq_of_lt (by omega)]
      omega
    · rw [hmoved] at hv
      rw [hbuf]
      rcases Nat.lt_trichotomy j h.current.data.length with hlt | rfl | hgt
      · rw [List.getElem?_append_left hlt] at hv
        rw [Function.update_of_ne (by omega)]
        exact hw.buf j v hv
      · rw [List.getElem?_append_right (Nat.le_refl _), Nat.sub_self] at hv
        rw [hcount, Function.update_self]
        exact Option.some.inj hv
      · rw [List.getElem?_eq_none (by rw [List.length_append]; exact hgt)] at hv
        cases hv

/-- What an edge keeps of what the core has yet to be given. -/
theorem read_kept (hb : s.Bus h) (hr : ReadHead s h) (hdata : s.q0.addrOnly = false)
    (hread : s.q0.write = false) (hpop : pop s = false) (hcore : s.headCoreDone = false) :
    (edge s i w).rd = (if cReadBeat s i then (s.rd + 1) % 4 else s.rd) ∧
    s.avail ≤ (edge s i w).avail ∧ (∀ j < s.avail, (edge s i w).buf j = s.buf j) ∧
    (s.headPinDone = true → (edge s i w).headPinDone = true ∧ (edge s i w).avail = s.avail ∧
      (edge s i w).readError = s.readError) := by
  have hspec := event_spec s i w
  have hphase : (edge s i w).phase = (corePhase s i).after s i (event s i w) := by
    have hnone : cWriteBeat s i = false := by simp [cWriteBeat, hread]
    rw [stay_phase hpop, hnone]
    rfl
  have hopen : ∀ {P : Prop}, s.state = .addr ∨ s.state = .data → s.headPinDone = true → P :=
    fun hst hp => Bool.noConfusion (((hb.open_ hst).1 : s.headPinDone = false).symm.trans hp)
  cases hev : event s i w <;> rw [hev] at hphase hspec
  case aack =>
    have havail : s.avail = 0 := (hb.idle hread (by rw [show s.phase.state = _ from hspec]; decide)
      (hb.open_ (.inl hspec)).1).1
    have hlen := (hr.waiting hcore).1
    have hle := hr.length
    have hno : cReadBeat s i = false := by simp [cReadBeat, havail]
    rw [hno, havail, if_neg Bool.false_ne_true, show s.rd = 0 by omega]
    exact ⟨congrArg Phase.rd hphase, Nat.zero_le _, fun j hj => absurd hj (Nat.not_lt_zero j),
      hopen (.inl hspec)⟩
  case error =>
    exact ⟨congrArg Phase.rd hphase, Nat.le_of_eq (congrArg Phase.avail hphase).symm,
      fun j _ => congrFun (congrArg Phase.buf hphase) j, hopen (.inr hspec.1)⟩
  case kill => exact Bool.noConfusion (hdata.symm.trans hspec.2)
  case beat =>
    have hd := hb.data hspec.1
    obtain ⟨-, hone, -, hat, -, -⟩ := position (hd.counts hdata)
    have havail : s.avail = s.q0.delivered s.t32 s.beat := (hd.avail hread).1
    have havail' : (edge s i w).avail = s.q0.delivered s.t32 (s.beat + 1) :=
      (congrArg Phase.avail hphase).trans (avail_beat hd hdata hread)
    have hbuf : (edge s i w).buf = bufNext s i := congrArg Phase.buf hphase
    refine ⟨congrArg Phase.rd hphase, by omega, fun j hj => ?_, hopen (.inr hspec.1)⟩
    rw [hbuf, bufNext, hread, if_neg Bool.false_ne_true, Function.update_of_ne (by omega)]
  all_goals exact ⟨congrArg Phase.rd hphase, Nat.le_of_eq (congrArg Phase.avail hphase).symm,
    fun j _ => congrFun (congrArg Phase.buf hphase) j,
    fun hp => ⟨(congrArg Phase.headPinDone hphase).trans hp, congrArg Phase.avail hphase,
      congrArg Phase.readError hphase⟩⟩

/-- A read is done at the core after it is done on the bus. -/
theorem pinDone_of_given (hb : s.Bus h) (hdata : s.q0.addrOnly = false)
    (hread : s.q0.write = false)
    (hgiven : s.q0.doublewords ≤ s.avail ∨ s.readError = true) : s.headPinDone = true := by
  have hdw := doublewords_pos hdata
  by_contra hpin
  have hless : s.avail < s.q0.doublewords ∧ s.readError = false := by
    by_cases hst : s.state = .data
    · have hd := hb.data hst
      obtain ⟨-, -, -, hat, hlt, -⟩ := position (hd.counts hdata)
      obtain ⟨havail, hno⟩ : s.avail = s.q0.delivered s.t32 s.beat ∧ _ := hd.avail hread
      exact ⟨by omega, hno⟩
    · obtain ⟨havail, hno⟩ : s.avail = 0 ∧ _ := hb.idle hread hst (Bool.eq_false_iff.2 hpin)
      exact ⟨by omega, hno⟩
  rcases hgiven with hall | herr
  · omega
  · exact Bool.noConfusion (hless.2.symm.trans herr)

/-- **The core's side of a head that reads.** -/
theorem read_step (hb : s.Bus h) (hr : ReadHead s h) (hdata : s.q0.addrOnly = false)
    (hread : s.q0.write = false) (hc : 0 < s.count) (hpop : pop s = false) :
    ReadHead (edge s i w) (h.update s i w) := by
  have hcore : s.headCoreDone = false := by
    cases hd : s.headCoreDone with
    | false => rfl
    | true => simp [pop, hd, (hr.done hd).1, Nat.ne_of_gt hc] at hpop
  obtain ⟨hrd, havail, hbuf, hkept⟩ := read_kept (i := i) (w := w) hb hr hdata hread hpop hcore
  have hq0 := stay_q0 (i := i) (w := w) hpop hc
  have hcur := current_update (h := h) (i := i) (w := w) hpop
  obtain ⟨-, hdone⟩ := stay_core (i := i) (w := w) hpop
  obtain ⟨hcount, hteas, hroom⟩ := hr.waiting hcore
  have hwrite : cWriteBeat s i = false := by simp [cWriteBeat, hread]
  have hle := hr.length
  have hdw := doublewords_pos hdata
  rw [hwrite, hdata, hcore, Bool.and_false, Bool.false_or, Bool.false_and, Bool.false_or,
    Bool.or_false, coreBeats_eq hdata] at hdone
  cases hbeat : cReadBeat s i with
  | true =>
    -- the core is given a doubleword
    have hlt : s.rd < s.avail := by
      rw [cReadBeat, Bool.and_eq_true, decide_eq_true_eq] at hbeat
      exact hbeat.2
    have htea : cTea s i = false := by simp [cTea, Nat.ne_of_lt hlt]
    have hmoved : (h.update s i w).current = ⟨h.current.data ++ [s.buf s.rd], []⟩ := by
      rw [hcur, Tenure.next, movedNow, hwrite, hbeat, htea, hteas]
      rfl
    rw [hbeat, htea, Bool.true_and, Bool.or_false] at hdone
    rw [hbeat, if_pos rfl] at hrd
    rw [← hcount] at hlt hrd
    refine ⟨fun j v hv => ?_, ?_, fun hd => ?_, fun hd => ?_⟩
    · rw [hmoved] at hv
      rcases Nat.lt_trichotomy j h.current.data.length with hj | rfl | hj
      · rw [List.getElem?_append_left hj] at hv
        rw [hbuf j (by omega)]
        exact hr.data j v hv
      · rw [List.getElem?_append_right (Nat.le_refl _), Nat.sub_self] at hv
        rw [hbuf _ hlt, hcount]
        exact Option.some.inj hv
      · rw [List.getElem?_eq_none (by rw [List.length_append]; exact hj)] at hv
        cases hv
    · rw [hmoved, List.length_append]
      exact Nat.le_trans hlt havail
    · rw [hdone, decide_eq_false_iff_not] at hd
      rw [hmoved, List.length_append, hrd, hq0, Nat.mod_eq_of_lt (by omega)]
      exact ⟨rfl, rfl, by omega⟩
    · rw [hdone, decide_eq_true_eq] at hd
      have hpin := pinDone_of_given hb hdata hread (.inl (by omega))
      refine ⟨(hkept hpin).1, .inl ⟨by rw [hmoved], ?_⟩⟩
      rw [hmoved, List.length_append, hq0, hcount]
      exact hd
  | false =>
    have hdata' : (h.update s i w).current.data = h.current.data := by
      rw [hcur, Tenure.next, movedNow, hwrite, hbeat]
      exact List.append_nil _
    rw [hbeat, if_neg Bool.false_ne_true] at hrd
    rw [hbeat, Bool.false_and, Bool.false_or] at hdone
    have hteas' : (h.update s i w).current.teas =
        if cTea s i then [h.current.data.length] else [] := by
      rw [hcur, Tenure.next, hteas]
      rfl
    refine ⟨fun j v hv => ?_, ?_, fun hd => ?_, fun hd => ?_⟩
    · rw [hdata'] at hv
      have hj : j < h.current.data.length := (List.getElem?_eq_some_iff.1 hv).1
      rw [hbuf j (by omega)]
      exact hr.data j v hv
    · rw [hdata']
      exact Nat.le_trans hle havail
    · rw [hdone] at hd
      rw [hdata', hteas', hd, hrd, hq0]
      exact ⟨hcount, rfl, hroom⟩
    · -- the core is given TEA
      rw [hdone] at hd
      have hend : s.readError = true ∧ s.rd = s.avail := by
        rw [cTea, Bool.and_eq_true, Bool.and_eq_true, decide_eq_true_eq] at hd
        exact ⟨hd.1.2, hd.2⟩
      obtain ⟨hpin, havail', herr⟩ := hkept (pinDone_of_given hb hdata hread (.inr hend.1))
      refine ⟨hpin, .inr ⟨by rw [hdata', hteas', hd, if_pos rfl], ?_, herr.trans hend.1⟩⟩
      rw [hdata', havail', hcount]
      exact hend.2

/-- **The head of the queue.** -/
theorem head_step (hh : Head s h) (hc : 0 < s.count) (hpop : pop s = false)
    (hlen : h.transactions.length = h.tenures.length + s.headPinDone.toNat) :
    Head (edge s i w) (h.update s i w) := by
  have hq0 := stay_q0 (i := i) (w := w) hpop hc
  refine ⟨bus_step hh.bus hc hpop hlen, ?_, ?_, ?_⟩
  · rw [hq0]
    intro hdata
    have hnone : cHasData s = false := by simp [cHasData, hdata]
    have hwrite : cWriteBeat s i = false := by rw [cWriteBeat, hnone]; rfl
    have hreading : cReading s i = false := by rw [cReading, hnone]; rfl
    rw [current_update hpop, hh.kill hdata, Tenure.next, movedNow, hwrite, cReadBeat, cTea, hreading]
    rfl
  · rw [hq0]
    exact fun hdata hwrite => write_step (hh.write hdata hwrite) hdata hwrite hc hpop
  · rw [hq0]
    exact fun hdata hread => read_step hh.bus (hh.read hdata hread) hdata hread hc hpop

end Stays

end Bus602
end SloPPC603
