import Mathlib.Tactic.IntervalCases
import SloPPC603.Clocked.Journal
import SloPPC603.Fetch.Model

/-!
# Fetch delivers the program text

The program text is a set of packets: each is a word with the address it stands
at.  `Rules` lists what the environment owes on an edge, `StreamInv` says where
the next word of the text is (on its way, in the buffer, at the address to ask
for next, or behind a redirect that waits), and one lemma for each kind of edge
shows that the words the queue takes are the next ones.

* `streamInv_step` — the invariant and the journal over one edge.
* `packets_are_text` — after a redirect or a reset the packets taken are the
  text from its target on, in order.
-/

namespace SloPPC603
namespace Fetch

open Clocked

/-! ## The assumptions -/

/-- What the environment owes on an edge.  `text` holds of a packet that is the
word at its own address. -/
structure Rules (cfg : Config) (text : Packet → Prop) (y : System) (i : Input) : Prop where
  /-- The queue's two-slot indication is its room for two and its ready. -/
  room : i.packetReady2 = (i.packetRoom2 && i.packetReady)
  /-- No packet is accepted on a redirect edge. -/
  clears : i.rstN = true → i.redirect = true → packetValid y.fetch i = true →
    i.packetReady = false
  /-- A redirect taken early goes to the announced target. -/
  announced : i.rstN = true → fast y.fetch i = true → i.redirectTarget = i.earlyTarget
  /-- After a response dropped under stop, only a redirect lets fetch resume. -/
  resumes : i.rstN = true → y.fetch.stopSkipped = true → reqValid y.fetch i = true →
    i.redirect = true
  /-- A response answers the accepted request, with the word at its address. -/
  answers : i.rstN = true → i.rspValid = true → ∃ a, y.owed = some a ∧ text (rspWord cfg i a)
  /-- A doubleword response carries the next word too. -/
  answersPair : i.rstN = true → i.rspValid = true → ∀ a, y.owed = some a → cfg.fetchWidth = 2 →
    i.rspPair = true → i.rspFault = .ok → a.getLsbD 2 = false → text (rspWord1 cfg i a)

/-- Where an edge makes fetch start over: at reset, and on a redirect. -/
def restart (cfg : Config) (_ : System) (i : Input) : Option (BitVec 32) :=
  if !i.rstN then some cfg.resetPc
  else if i.redirect then some i.redirectTarget
  else none

/-- The packets the queue takes on an edge of the system. -/
def taken (cfg : Config) (y : System) (i : Input) : List Packet := delivered cfg y.fetch i

/-- The packets are the text from `t` on: the `k`th is the word at `t + 4 * k`. -/
def InOrder (text : Packet → Prop) (t : BitVec 32) (ps : List Packet) : Prop :=
  ∀ k (hk : k < ps.length), ps[k].pc = t + 4 * BitVec.ofNat 32 k ∧ text ps[k]

/-- The address after the journal's last packet. -/
def nextOf (j : Journal Packet (BitVec 32)) : BitVec 32 :=
  j.base + 4 * BitVec.ofNat 32 j.items.length

section InOrder

variable {text : Packet → Prop} {t : BitVec 32} {ps : List Packet}

theorem inOrder_nil : InOrder text t [] := fun k hk => absurd hk (Nat.not_lt_zero k)

/-- The text in two parts. -/
theorem InOrder.append {qs : List Packet} (h : InOrder text t ps)
    (h' : InOrder text (t + 4 * BitVec.ofNat 32 ps.length) qs) : InOrder text t (ps ++ qs) := by
  intro k hk
  by_cases hleft : k < ps.length
  · rw [List.getElem_append_left hleft]
    exact h k hleft
  · obtain ⟨d, rfl⟩ := Nat.exists_eq_add_of_le (Nat.le_of_not_lt hleft)
    have hd : d < qs.length := by
      rw [List.length_append] at hk
      omega
    have haddr : t + 4 * BitVec.ofNat 32 (ps.length + d) =
        t + 4 * BitVec.ofNat 32 ps.length + 4 * BitVec.ofNat 32 d := by
      rw [BitVec.ofNat_add, BitVec.mul_add, BitVec.add_assoc]
    rw [haddr, List.getElem_append_right (Nat.le_add_right _ _)]
    simpa only [Nat.add_sub_cancel_left] using h' d hd

theorem inOrder_singleton {p : Packet} (hpc : p.pc = t) (hp : text p) : InOrder text t [p] := by
  intro k hk
  obtain rfl : k = 0 := Nat.lt_one_iff.1 hk
  exact ⟨by simp [hpc], hp⟩

theorem inOrder_pair {p q : Packet} (hpc : p.pc = t) (hp : text p) (hqc : q.pc = t + 4)
    (hq : text q) : InOrder text t [p, q] :=
  (inOrder_singleton hpc hp).append (inOrder_singleton (by simpa using hqc) hq)

end InOrder

/-! ## The invariant -/

/-- Where the next word of the text is, `next` being its address. -/
structure StreamInv (cfg : Config) (text : Packet → Prop) (y : System) (next : BitVec 32) :
    Prop where
  /-- The responder owes an answer to the pending request. -/
  owed : y.owed = if y.fetch.pending then some y.fetch.pc else none
  held_idle : y.fetch.requestHeld = true → y.fetch.pending = false
  redirect_open : y.fetch.redirectPending = true →
    y.fetch.pending = true ∨ y.fetch.requestHeld = true
  buf_idle : y.fetch.bufValid = true → y.fetch.pending = false ∧ y.fetch.requestHeld = false
  skipped_idle : y.fetch.stopSkipped = true →
    y.fetch.pending = false ∧ y.fetch.requestHeld = false ∧ y.fetch.bufValid = false
  /-- The two address registers are only kept for a pending request. -/
  plus : y.fetch.pending = true →
    y.fetch.pcPlus4 = y.fetch.pc + 4 ∧ y.fetch.pcPlus8 = y.fetch.pc + 8
  /-- Behind an old request the text goes on at the redirect's target. -/
  target : y.fetch.redirectPending = true → y.fetch.redirectTarget = next
  /-- Otherwise, with nothing buffered or skipped, `pc` is the next word's address. -/
  current : y.fetch.redirectPending = false → y.fetch.bufValid = false →
    y.fetch.stopSkipped = false → y.fetch.pc = next
  /-- The buffer's first word is the next one, and `pc` is past the buffer. -/
  buffered : y.fetch.bufValid = true → y.fetch.bufPc = next ∧ text (bufWord cfg y.fetch) ∧
    y.fetch.pc = next + (if y.fetch.bufPair then 8 else 4)
  /-- A buffered pair holds the word after it as well. -/
  buffered1 : y.fetch.bufValid = true → y.fetch.bufPair = true →
    cfg.fetchWidth = 2 ∧ text (bufWord1 cfg y.fetch)

/-- What an edge without a restart owes: the packets `ds` it delivers are the next
ones, and the invariant holds at the address after them. -/
structure Advances (cfg : Config) (text : Packet → Prop) (next : BitVec 32) (ds : List Packet)
    (y : System) : Prop where
  inOrder : InOrder text next ds
  stream : StreamInv cfg text y (next + 4 * BitVec.ofNat 32 ds.length)

/-- The invariant of a run and its journal. -/
structure DeliveryInv (cfg : Config) (text : Packet → Prop) (y : System)
    (j : Journal Packet (BitVec 32)) : Prop where
  stream : StreamInv cfg text y (nextOf j)
  inOrder : InOrder text j.base j.items

/-! ## Edges -/

section Edges

variable {cfg : Config} {text : Packet → Prop} {y : System} {next : BitVec 32} {i : Input}

theorem step_of_reset (hrst : i.rstN = false) :
    (machine cfg).step y i = ⟨resetState cfg y.fetch, none⟩ := by
  simp [machine, step, nextOwed, hrst]

/-- A reset leaves nothing pending, buffered or skipped. -/
theorem streamInv_resetState (s : State) :
    StreamInv cfg text ⟨resetState cfg s, none⟩ cfg.resetPc := by
  constructor <;> simp [resetState]

variable (h : StreamInv cfg text y next) (hr : Rules cfg text y i) (hrst : i.rstN = true)
include h hr hrst

/-- A request offered on a redirect edge, other than the announced target, is an
old one that was not pending. -/
theorem idle_of_old_offer (hred : i.redirect = true) (hfast : fast y.fetch i = false)
    (hreq : reqValid y.fetch i = true) :
    y.fetch.pending = false ∧ earlySel y.fetch i = false := by
  have hclear := hr.clears hrst hred
  have hidle := h.held_idle
  simp only [reqValid, hfast, offer, packetValid, live, earlySel, Bool.and_eq_true, Bool.or_eq_true,
    Bool.not_eq_true', Bool.or_false] at hreq hclear ⊢
  obtain ⟨-, hheld | ⟨⟨⟨⟨hstop, hready⟩, -⟩, hpend | ⟨hcons, hrp⟩⟩, hearly⟩⟩ := hreq
  · exact ⟨hidle hheld, by simp [hheld]⟩
  · exact ⟨hpend, by simp [hearly]⟩
  · -- A consumed response would be a packet, and the queue refuses it.
    rw [hclear (Or.inr ⟨⟨hcons, hstop⟩, hrp⟩)] at hready
    cases hready

/-- A redirect taken early: the target itself is on offer. -/
theorem streamInv_fast (hfast : fast y.fetch i = true) :
    StreamInv cfg text ((machine cfg).step y i) i.redirectTarget := by
  have htarget := hr.announced hrst hfast
  have howed := h.owed
  simp only [fast, Bool.and_eq_true, Bool.or_eq_true, Bool.not_eq_true'] at hfast
  obtain ⟨⟨⟨⟨hsel, hok⟩, hred⟩, hstop⟩, hopen⟩ := hfast
  have hfast : fast y.fetch i = true := by simp [fast, hsel, hok, hred, hstop, hopen]
  have hreq : reqValid y.fetch i = true := by simp [reqValid, hrst, hfast]
  have hacc : accept y.fetch i = i.reqReady := by simp [accept, hreq]
  have haddr : reqAddr cfg y.fetch i = i.earlyTarget := by simp [reqAddr, hsel]
  have hbuf : nextBufValid y.fetch i = false := by simp [nextBufValid, bufClears, toBuf, hred]
  have hskip : nextStopSkipped y.fetch i = false := by simp [nextStopSkipped, hred]
  have hidle : consume y.fetch i = false → y.owed = none := by
    intro hc
    rcases hopen with hp | hc'
    · rw [howed, hp, if_neg Bool.false_ne_true]
    · rw [hc] at hc'
      cases hc'
  constructor <;>
    simp only [machine, step, runState, hrst, if_true, nextPending, nextRequestHeld,
      nextRedirectPending, nextPc, nextPcPlus, nextOwed, hfast, hred, hbuf, hskip, hacc, haddr,
      htarget]
  case owed =>
    cases hready : i.reqReady <;> cases hc : consume y.fetch i <;> simp [hidle, hc]
  all_goals simp

/-- A redirect while an old request is offered: the request is seen out first. -/
theorem streamInv_redirect_offered (hred : i.redirect = true) (hfast : fast y.fetch i = false)
    (hreq : reqValid y.fetch i = true) :
    StreamInv cfg text ((machine cfg).step y i) i.redirectTarget := by
  obtain ⟨hpend, hsel⟩ := idle_of_old_offer h hr hrst hred hfast hreq
  have howed := h.owed
  have hacc : accept y.fetch i = i.reqReady := by simp [accept, hreq]
  have haddr : reqAddr cfg y.fetch i = y.fetch.pc := by simp [reqAddr, hsel, hpend]
  have hcons : consume y.fetch i = false := by simp [consume, rspReady, hpend]
  have hbuf : nextBufValid y.fetch i = false := by simp [nextBufValid, bufClears, toBuf, hred]
  have hskip : nextStopSkipped y.fetch i = false := by simp [nextStopSkipped, hred]
  constructor <;>
    simp only [machine, step, runState, hrst, if_true, nextPending, nextRequestHeld,
      nextRedirectPending, nextPc, nextPcPlus, nextOwed, hfast, hred, hreq, hbuf, hskip, hacc,
      haddr, hpend, hcons]
  case owed => cases hready : i.reqReady <;> simp [howed, hpend]
  case redirect_open => cases i.reqReady <;> simp
  all_goals simp

omit hr in
/-- A redirect while a response is outstanding: the response will be discarded. -/
theorem streamInv_redirect_waiting (hred : i.redirect = true) (hfast : fast y.fetch i = false)
    (hreq : reqValid y.fetch i = false) (hpend : y.fetch.pending = true)
    (hcons : consume y.fetch i = false) :
    StreamInv cfg text ((machine cfg).step y i) i.redirectTarget := by
  have howed := h.owed
  obtain ⟨hplus4, hplus8⟩ := h.plus hpend
  have hheld : y.fetch.requestHeld = false := by
    cases hheld : y.fetch.requestHeld with
    | false => rfl
    | true => exact absurd (h.held_idle hheld) (by simp [hpend])
  have hacc : accept y.fetch i = false := by simp [accept, hreq]
  have hbuf : nextBufValid y.fetch i = false := by simp [nextBufValid, bufClears, toBuf, hred]
  have hskip : nextStopSkipped y.fetch i = false := by simp [nextStopSkipped, hred]
  constructor <;>
    simp only [machine, step, runState, hrst, if_true, nextPending, nextRequestHeld,
      nextRedirectPending, nextPc, nextPcPlus, nextOwed, hfast, hred, hreq, hbuf, hskip, hacc,
      hpend, hcons]
  case owed => simp [howed, hpend]
  case plus => simp [hplus4, hplus8]
  all_goals simp [hheld]

omit hr in
/-- Any other redirect leaves no old request, and goes to the target at once. -/
theorem streamInv_redirect_clear (hred : i.redirect = true) (hfast : fast y.fetch i = false)
    (hreq : reqValid y.fetch i = false)
    (hopen : ¬ (y.fetch.pending = true ∧ consume y.fetch i = false)) :
    StreamInv cfg text ((machine cfg).step y i) i.redirectTarget := by
  have howed := h.owed
  have hopen' : (y.fetch.pending && !consume y.fetch i) = false := by
    rw [← Bool.not_eq_true]
    simpa using hopen
  have hacc : accept y.fetch i = false := by simp [accept, hreq]
  have hbuf : nextBufValid y.fetch i = false := by simp [nextBufValid, bufClears, toBuf, hred]
  have hskip : nextStopSkipped y.fetch i = false := by simp [nextStopSkipped, hred]
  constructor <;>
    simp only [machine, step, runState, hrst, if_true, nextPending, nextRequestHeld,
      nextRedirectPending, nextPc, nextPcPlus, nextOwed, hfast, hred, hreq, hbuf, hskip, hacc,
      hopen']
  case owed =>
    cases hc : consume y.fetch i with
    | true => simp
    | false =>
      have hp : y.fetch.pending = false := by
        rw [← Bool.not_eq_true]
        exact fun hp => hopen ⟨hp, hc⟩
      simp [howed, hp]
  all_goals simp

/-- **A redirect edge.**  Whatever was pending, offered or buffered, the next word
of the text is the one at the target. -/
theorem streamInv_redirect (hred : i.redirect = true) :
    StreamInv cfg text ((machine cfg).step y i) i.redirectTarget := by
  cases hfast : fast y.fetch i with
  | true => exact streamInv_fast h hr hrst hfast
  | false =>
    cases hreq : reqValid y.fetch i with
    | true => exact streamInv_redirect_offered h hr hrst hred hfast hreq
    | false =>
      by_cases hopen : y.fetch.pending = true ∧ consume y.fetch i = false
      · exact streamInv_redirect_waiting h hrst hred hfast hreq hopen.1 hopen.2
      · exact streamInv_redirect_clear h hrst hred hfast hreq hopen

omit h hr hrst in
/-- An edge that neither restarts nor delivers owes the invariant alone. -/
theorem advances_nil {y' : System} (hnone : taken cfg y i = []) (hy : StreamInv cfg text y' next) :
    Advances cfg text next (taken cfg y i) y' := by
  rw [hnone]
  exact ⟨inOrder_nil, by simpa using hy⟩

variable (hred : i.redirect = false)
include hred

omit h hr hrst in
theorem not_fast : fast y.fetch i = false := by simp [fast, hred]

omit hr hrst hred in
/-- With a request pending there is no held offer, nothing buffered, nothing
skipped. -/
theorem alone_of_pending (hpend : y.fetch.pending = true) : y.fetch.requestHeld = false ∧
    y.fetch.bufValid = false ∧ y.fetch.stopSkipped = false := by
  refine ⟨?_, ?_, ?_⟩ <;> rw [← Bool.not_eq_true] <;> intro hx
  · exact absurd (h.held_idle hx) (by simp [hpend])
  · exact absurd (h.buf_idle hx).1 (by simp [hpend])
  · exact absurd (h.skipped_idle hx).1 (by simp [hpend])

omit hr in
/-- An old path's response is discarded, and the redirect's target is next. -/
theorem advances_discard (hcons : consume y.fetch i = true)
    (hrp : y.fetch.redirectPending = true) :
    Advances cfg text next (taken cfg y i) ((machine cfg).step y i) := by
  have hpend : y.fetch.pending = true := by
    simp only [consume, rspReady, Bool.and_eq_true] at hcons
    exact hcons.2.2
  obtain ⟨hheld, hbuf, hskip⟩ := alone_of_pending h hpend
  have htarget := h.target hrp
  have hfast := @not_fast y i hred
  have hlive : live y.fetch i = false := by simp [live, hrp]
  have hreq : reqValid y.fetch i = false := by
    simp [reqValid, hheld, offer, hpend, hrp, hfast]
  have hacc : accept y.fetch i = false := by simp [accept, hreq]
  apply advances_nil
  · simp [taken, delivered, packetValid, hbuf, hlive]
  · constructor <;>
      simp only [machine, step, runState, hrst, if_true, nextPending, nextRequestHeld,
        nextRedirectPending, nextPc, nextPcPlus, nextOwed, nextBufValid, nextStopSkipped, toBuf,
        bufClears, hfast, hred, hreq, hacc, hcons, hrp, hbuf, hskip, hlive]
    all_goals simp [hheld, htarget]

omit hr in
/-- A response dropped under stop leaves nothing on its way. -/
theorem advances_skip (hcons : consume y.fetch i = true)
    (hrp : y.fetch.redirectPending = false) (hstop : i.stop = true) :
    Advances cfg text next (taken cfg y i) ((machine cfg).step y i) := by
  have hpend : y.fetch.pending = true := by
    simp only [consume, rspReady, Bool.and_eq_true] at hcons
    exact hcons.2.2
  obtain ⟨hheld, hbuf, -⟩ := alone_of_pending h hpend
  have hfast := @not_fast y i hred
  have hlive : live y.fetch i = false := by simp [live, hstop]
  have hreq : reqValid y.fetch i = false := by simp [reqValid, hheld, offer, hstop, hfast]
  have hacc : accept y.fetch i = false := by simp [accept, hreq]
  apply advances_nil
  · simp [taken, delivered, packetValid, hbuf, hlive]
  · constructor <;>
      simp only [machine, step, runState, hrst, if_true, nextPending, nextRequestHeld,
        nextRedirectPending, nextPc, nextPcPlus, nextOwed, nextBufValid, nextStopSkipped, toBuf,
        bufClears, hfast, hred, hreq, hacc, hcons, hrp, hbuf, hstop, hlive]
    all_goals simp [hheld]

omit hr in
/-- A refused fault is dropped, to be fetched again. -/
theorem advances_replay (hlive : live y.fetch i = true) (hready : i.packetReady = false)
    (hfault : i.rspFault ≠ .ok) :
    Advances cfg text next (taken cfg y i) ((machine cfg).step y i) := by
  have hl := hlive
  simp only [live, Bool.and_eq_true, Bool.not_eq_true'] at hl
  obtain ⟨⟨hcons, hstop⟩, hrp⟩ := hl
  have hpend : y.fetch.pending = true := by
    simp only [consume, rspReady, Bool.and_eq_true] at hcons
    exact hcons.2.2
  obtain ⟨hheld, hbuf, hskip⟩ := alone_of_pending h hpend
  have hpc := h.current hrp hbuf hskip
  have hfast := @not_fast y i hred
  have hreplay : replay y.fetch i = true := by simp [replay, hlive, hred, hready, hfault]
  have htobuf : toBuf y.fetch i = false := by simp [toBuf, hfault]
  have hreq : reqValid y.fetch i = false := by simp [reqValid, hheld, offer, hready, hfast]
  have hacc : accept y.fetch i = false := by simp [accept, hreq]
  apply advances_nil
  · simp [taken, delivered, hready]
  · constructor <;>
      simp only [machine, step, runState, hrst, if_true, nextPending, nextRequestHeld,
        nextRedirectPending, nextPc, nextPcPlus, nextOwed, nextBufValid, nextStopSkipped,
        bufClears, hfast, hred, hreq, hacc, hcons, hrp, hbuf, hstop, hskip, htobuf, hreplay]
    all_goals simp [hheld, hpc]

/-- A word the queue has no room for waits in the buffer, with the word after it
where the response carried one. -/
theorem advances_buffer (hlive : live y.fetch i = true) (hready : i.packetReady = false)
    (hfault : i.rspFault = .ok) :
    Advances cfg text next (taken cfg y i) ((machine cfg).step y i) := by
  have hl := hlive
  simp only [live, Bool.and_eq_true, Bool.not_eq_true'] at hl
  obtain ⟨⟨hcons, hstop⟩, hrp⟩ := hl
  have hc := hcons
  simp only [consume, rspReady, Bool.and_eq_true] at hc
  obtain ⟨hvalid, -, hpend⟩ := hc
  obtain ⟨hheld, hbuf, hskip⟩ := alone_of_pending h hpend
  obtain ⟨hplus4, hplus8⟩ := h.plus hpend
  have hpc := h.current hrp hbuf hskip
  have howed : y.owed = some next := by rw [h.owed, if_pos hpend, hpc]
  have hfast := @not_fast y i hred
  have hreplay : replay y.fetch i = false := by simp [replay, hfault]
  have htobuf : toBuf y.fetch i = true := by simp [toBuf, hlive, hred, hready, hfault]
  have hreq : reqValid y.fetch i = false := by simp [reqValid, hheld, offer, hready, hfast]
  have hacc : accept y.fetch i = false := by simp [accept, hreq]
  obtain ⟨a, ha, htext⟩ := hr.answers hrst hvalid
  obtain rfl : next = a := Option.some.inj (howed.symm.trans ha)
  have htext1 := hr.answersPair hrst hvalid next howed
  apply advances_nil
  · simp [taken, delivered, hready]
  · constructor <;>
      simp only [machine, step, runState, hrst, if_true, nextPending, nextRequestHeld,
        nextRedirectPending, nextPc, nextPcPlus, nextOwed, nextBufValid, nextStopSkipped,
        hfast, hred, hreq, hacc, hcons, hrp, hstop, hskip, htobuf, hreplay, bufWord, bufWord1]
    case buffered =>
      intro _
      refine ⟨hpc, ?_, ?_⟩
      · rw [rspWord, hfault] at htext
        simpa [hpc] using htext
      · cases hpair : pairNext cfg y.fetch i <;> simp [nextAddr, hpair, hplus4, hplus8, hpc]
    case buffered1 =>
      intro _ hpair
      simp only [pairNext, pairWord, Bool.and_eq_true, decide_eq_true_eq, Bool.not_eq_true'] at hpair
      obtain ⟨-, ⟨⟨hw, hp⟩, -⟩, hodd⟩ := hpair
      rw [hpc] at hodd
      simpa [rspWord1, hpc] using ⟨hw, htext1 hw hp hfault hodd⟩
    all_goals simp [hheld]

/-- A response the queue takes: one word or both, and the next request follows them. -/
theorem advances_take (hlive : live y.fetch i = true) (hready : i.packetReady = true) :
    Advances cfg text next (taken cfg y i) ((machine cfg).step y i) := by
  have hl := hlive
  simp only [live, Bool.and_eq_true, Bool.not_eq_true'] at hl
  obtain ⟨⟨hcons, hstop⟩, hrp⟩ := hl
  have hc := hcons
  simp only [consume, rspReady, Bool.and_eq_true] at hc
  obtain ⟨hvalid, -, hpend⟩ := hc
  obtain ⟨hheld, hbuf, hskip⟩ := alone_of_pending h hpend
  obtain ⟨hplus4, hplus8⟩ := h.plus hpend
  have hpc := h.current hrp hbuf hskip
  have howed : y.owed = some next := by rw [h.owed, if_pos hpend, hpc]
  have hroom : i.packetReady2 = i.packetRoom2 := by rw [hr.room, hready, Bool.and_true]
  have hfast := @not_fast y i hred
  have hreplay : replay y.fetch i = false := by simp [replay, hready]
  have htobuf : toBuf y.fetch i = false := by simp [toBuf, hready]
  have hreq : reqValid y.fetch i = !i.early := by
    simp [reqValid, hrst, hheld, offer, hready, hbuf, hstop, hcons, hrp, hfast]
  obtain ⟨a, ha, htext⟩ := hr.answers hrst hvalid
  obtain rfl : next = a := Option.some.inj (howed.symm.trans ha)
  have htext1 := hr.answersPair hrst hvalid next howed
  have hpairs : pair cfg y.fetch i = pairNext cfg y.fetch i := by
    simp [pair, pairNext, hred, hroom]
  have htaken : taken cfg y i = rspWord cfg i next ::
      (if pairNext cfg y.fetch i then [rspWord1 cfg i next] else []) := by
    simp [taken, delivered, packetValid, hlive, hready, packet, packet1, packetPair, hbuf, hpairs,
      hpc]
  have haddr : nextAddr cfg y.fetch i =
      next + 4 * BitVec.ofNat 32 (taken cfg y i).length := by
    cases hpair : pairNext cfg y.fetch i <;>
      simp [htaken, nextAddr, hpair, hplus4, hplus8, hpc]
  constructor
  · rw [htaken]
    cases hpair : pairNext cfg y.fetch i with
    | false => exact inOrder_singleton rfl htext
    | true =>
      simp only [pairNext, pairWord, Bool.and_eq_true, decide_eq_true_eq, Bool.not_eq_true'] at hpair
      obtain ⟨-, ⟨⟨hw, hp⟩, hfault⟩, hodd⟩ := hpair
      rw [hpc] at hodd
      exact inOrder_pair rfl htext rfl (htext1 hw hp hfault hodd)
  · rw [← haddr]
    constructor <;>
      simp only [machine, step, runState, hrst, if_true, nextPending, nextRequestHeld,
        nextRedirectPending, nextPc, nextPcPlus, nextOwed, nextBufValid, nextStopSkipped, accept,
        reqAddr, bufClears, hfast, hred, hreq, hcons, hrp, hstop, hskip, hbuf, htobuf, hreplay,
        hpend]
    case owed =>
      cases hearly : i.early <;> cases hrdy : i.reqReady <;> simp [earlySel, hearly]
    case held_idle => cases i.early <;> cases i.reqReady <;> simp [hheld]
    all_goals simp

omit hr in
/-- Words of the buffer move on to the queue, or stay. -/
theorem advances_buf (hbuf : y.fetch.bufValid = true) :
    Advances cfg text next (taken cfg y i) ((machine cfg).step y i) := by
  obtain ⟨hpend, hheld⟩ := h.buf_idle hbuf
  obtain ⟨hbufpc, htext, hpc⟩ := h.buffered hbuf
  have htext1 := h.buffered1 hbuf
  have hskip : y.fetch.stopSkipped = false := by
    rw [← Bool.not_eq_true]
    intro hs
    exact absurd (h.skipped_idle hs).2.2 (by simp [hbuf])
  have hrp : y.fetch.redirectPending = false := by
    rw [← Bool.not_eq_true]
    intro hs
    rcases h.redirect_open hs with hp | hp <;> simp [hpend, hheld] at hp
  have howed := h.owed
  have hfast := @not_fast y i hred
  have hcons : consume y.fetch i = false := by simp [consume, rspReady, hpend]
  have htobuf : toBuf y.fetch i = false := by simp [toBuf, live, hcons]
  have hreq : reqValid y.fetch i = false := by simp [reqValid, hheld, offer, hbuf, hfast]
  have hacc : accept y.fetch i = false := by simp [accept, hreq]
  cases hready : i.packetReady with
  | false =>
    -- The queue takes nothing, and the buffer keeps what it holds.
    apply advances_nil
    · simp [taken, delivered, hready]
    · constructor <;>
        simp only [machine, step, runState, hrst, if_true, nextPending, nextRequestHeld,
          nextRedirectPending, nextPc, nextPcPlus, nextOwed, nextBufValid, nextStopSkipped,
          bufClears, bufAdvances, bufWord, bufWord1, hfast, hred, hreq, hacc, hcons, hrp, hskip,
          hbuf, htobuf, hready, hpend]
      case owed => simp [howed, hpend]
      case buffered => exact fun _ => ⟨hbufpc, htext, hpc⟩
      case buffered1 => exact fun _ hp => htext1 hp
      all_goals simp [hheld]
  | true =>
    by_cases hsplit : y.fetch.bufPair = true ∧ i.packetReady2 = false
    · -- One word of a pair leaves, and the second takes its place.
      obtain ⟨hpair, hready2⟩ := hsplit
      obtain ⟨hw, htext1⟩ := htext1 hpair
      have htaken : taken cfg y i = [bufWord cfg y.fetch] := by
        simp [taken, delivered, packetValid, hbuf, hready, packet, packetPair, hready2]
      have hpc' : y.fetch.pc = next + 4 + 4 := by
        rw [hpc, if_pos hpair, BitVec.add_assoc]
        rfl
      rw [htaken]
      refine ⟨inOrder_singleton hbufpc htext, ?_⟩
      constructor <;>
        simp only [machine, step, runState, hrst, if_true, nextPending, nextRequestHeld,
          nextRedirectPending, nextPc, nextPcPlus, nextOwed, nextBufValid, nextStopSkipped,
          bufClears, bufAdvances, bufWord, hfast, hred, hreq, hacc, hcons, hrp, hskip, hbuf,
          htobuf, hready, hready2, hpair, hpend, hw]
      case owed => simp [howed, hpend]
      case buffered => simpa [hbufpc, hpc', bufWord1] using htext1
      all_goals simp [hheld]
    · have hlast : (y.fetch.bufPair && !i.packetReady2) = false := by
        rw [← Bool.not_eq_true]
        simpa using hsplit
      have htaken : taken cfg y i = bufWord cfg y.fetch ::
          (if y.fetch.bufPair then [bufWord1 cfg y.fetch] else []) := by
        cases hpair : y.fetch.bufPair <;> cases hready2 : i.packetReady2 <;>
          simp_all [taken, delivered, packetValid, packet, packet1, packetPair]
      have hlen : y.fetch.pc = next + 4 * BitVec.ofNat 32 (taken cfg y i).length := by
        rw [htaken, hpc]
        cases y.fetch.bufPair <;> rfl
      constructor
      · rw [htaken]
        cases hpair : y.fetch.bufPair with
        | false => exact inOrder_singleton hbufpc htext
        | true => exact inOrder_pair hbufpc htext (by rw [← hbufpc]; rfl) (htext1 hpair).2
      · rw [← hlen]
        constructor <;>
          simp only [machine, step, runState, hrst, if_true, nextPending, nextRequestHeld,
            nextRedirectPending, nextPc, nextPcPlus, nextOwed, nextBufValid, nextStopSkipped,
            bufClears, hfast, hred, hreq, hacc, hcons, hrp, hskip, hbuf, htobuf, hready, hlast,
            hpend]
        case owed => simp [howed, hpend]
        all_goals simp [hheld]

omit hr in
/-- Nothing arrives and nothing is buffered. -/
theorem advances_wait (hbuf : y.fetch.bufValid = false) (hcons : consume y.fetch i = false)
    (hresume : y.fetch.stopSkipped = true → reqValid y.fetch i = false) :
    Advances cfg text next (taken cfg y i) ((machine cfg).step y i) := by
  have howed := h.owed
  have hidle := h.held_idle
  have hskip := h.skipped_idle
  have hfast := @not_fast y i hred
  have hlive : live y.fetch i = false := by simp [live, hcons]
  have htobuf : toBuf y.fetch i = false := by simp [toBuf, hlive]
  have hstart : reqValid y.fetch i = true →
      y.fetch.pending = false ∧ reqAddr cfg y.fetch i = y.fetch.pc := by
    intro hreq
    simp only [reqValid, hfast, offer, hcons, Bool.and_eq_true, Bool.or_eq_true,
      Bool.not_eq_true', Bool.or_false, Bool.false_and] at hreq
    obtain ⟨-, hheld | ⟨⟨-, hpend⟩, hearly⟩⟩ := hreq
    · exact ⟨hidle hheld, by simp [reqAddr, earlySel, hheld, hidle hheld]⟩
    · exact ⟨by simpa using hpend, by simp [reqAddr, earlySel, hearly, hpend]⟩
  apply advances_nil
  · simp [taken, delivered, packetValid, hbuf, hlive]
  · constructor <;>
      simp only [machine, step, runState, hrst, if_true, nextPending, nextRequestHeld,
        nextRedirectPending, nextPc, nextPcPlus, nextOwed, nextBufValid, nextStopSkipped, accept,
        bufClears, hfast, hred, hcons, hbuf, htobuf]
    case owed =>
      cases hreq : reqValid y.fetch i with
      | false => simp [howed]
      | true => cases hrdy : i.reqReady <;> simp [hstart hreq, howed]
    case held_idle =>
      cases hreq : reqValid y.fetch i with
      | false => simpa using hidle
      | true => cases hrdy : i.reqReady <;> simp [hstart hreq]
    case redirect_open =>
      cases hreq : reqValid y.fetch i with
      | false => simpa using h.redirect_open
      | true => cases hrdy : i.reqReady <;> simp
    case skipped_idle =>
      intro hs
      have hs' : y.fetch.stopSkipped = true := by simpa using hs
      obtain ⟨hp, hheld, -⟩ := hskip hs'
      simp [hresume hs', hp, hheld]
    case plus =>
      cases hpend : y.fetch.pending with
      | false => simp
      | true => simpa using h.plus hpend
    case target => simpa using h.target
    case current => simpa [hbuf] using h.current
    all_goals simp

/-- **An edge without a restart** delivers the next words of the text. -/
theorem advances_step :
    Advances cfg text next (taken cfg y i) ((machine cfg).step y i) := by
  cases hbuf : y.fetch.bufValid with
  | true => exact advances_buf h hrst hred hbuf
  | false =>
    cases hcons : consume y.fetch i with
    | false =>
      refine advances_wait h hrst hred hbuf hcons (fun hs => ?_)
      rw [← Bool.not_eq_true]
      intro hreq
      exact absurd (hr.resumes hrst hs hreq) (by simp [hred])
    | true =>
      cases hrp : y.fetch.redirectPending with
      | true => exact advances_discard h hrst hred hcons hrp
      | false =>
        cases hstop : i.stop with
        | true => exact advances_skip h hrst hred hcons hrp hstop
        | false =>
          have hlive : live y.fetch i = true := by simp [live, hcons, hrp, hstop]
          cases hready : i.packetReady with
          | true => exact advances_take h hr hrst hred hlive hready
          | false =>
            by_cases hfault : i.rspFault = .ok
            · exact advances_buffer h hr hrst hred hlive hready hfault
            · exact advances_replay h hrst hred hlive hready hfault

end Edges

/-! ## Runs -/

section Runs

variable {cfg : Config} {text : Packet → Prop}

/-- The address after the journal's packets and `n` more. -/
theorem nextOf_append (b : BitVec 32) (ps qs : List Packet) :
    nextOf ⟨b, ps ++ qs⟩ = nextOf ⟨b, ps⟩ + 4 * BitVec.ofNat 32 qs.length := by
  simp only [nextOf, List.length_append, BitVec.ofNat_add, BitVec.mul_add, BitVec.add_assoc]

/-- **One edge.**  The journal stays a stretch of the text, and its next word is
where the registers look for it. -/
theorem deliveryInv_step {y : System} {j : Journal Packet (BitVec 32)} {i : Input}
    (h : DeliveryInv cfg text y j) (hr : Rules cfg text y i) :
    DeliveryInv cfg text ((machine cfg).step y i)
      (j.update (restart cfg) (taken cfg) y i) := by
  cases hrst : i.rstN with
  | false =>
    rw [step_of_reset hrst]
    simp only [Journal.update, restart, hrst, Bool.not_false, if_true]
    exact ⟨by simpa [nextOf] using streamInv_resetState y.fetch, inOrder_nil⟩
  | true =>
    cases hred : i.redirect with
    | true =>
      simp only [Journal.update, restart, hrst, hred, Bool.not_true, Bool.false_eq_true, if_false,
        if_true]
      exact ⟨by simpa [nextOf] using streamInv_redirect h.stream hr hrst hred, inOrder_nil⟩
    | false =>
      simp only [Journal.update, restart, hrst, hred, Bool.not_true, Bool.false_eq_true, if_false]
      have hstep := advances_step h.stream hr hrst hred
      exact ⟨by rw [nextOf_append]; exact hstep.stream, h.inOrder.append hstep.inOrder⟩

variable {r : Run (machine cfg)}

/-- The invariant holds all along a run that keeps the rules. -/
theorem deliveryInv_run {n : ℕ} (h : r.Obeys (Rules cfg text) n) :
    DeliveryInv cfg text (r.state n) (r.journal (restart cfg) (taken cfg) cfg.resetPc n) := by
  apply Run.invariant_history _ _ h
  · rintro _ ⟨s₀, rfl⟩
    exact ⟨by simpa [nextOf] using streamInv_resetState s₀, inOrder_nil⟩
  · intro y j i hinv hi
    exact deliveryInv_step hinv hi

/-- **Fetch delivers exactly the program text.**  In every run that keeps the
rules, the packets the queue takes after a redirect or a reset on edge `j`, up to
the next one, are the words from its target on: the `k`th is the word at the
target plus `4 * k`, under that address.  So are the packets of the first edges
of the run, from the reset address. -/
theorem packets_are_text (cfg : Config) (text : Packet → Prop) (r : Run (machine cfg)) (n : ℕ)
    (h : r.Obeys (Rules cfg text) n) :
    (∀ j < n, ∀ t, restart cfg (r.state j) (r.input j) = some t →
      Run.Quiet (r.Restarts (restart cfg)) j n →
      InOrder text t (r.emitted (taken cfg) (j + 1) n)) ∧
    ((∀ k < n, ¬ r.Restarts (restart cfg) k) →
      InOrder text cfg.resetPc (r.emitted (taken cfg) 0 n)) := by
  have hrun := (deliveryInv_run h).inOrder
  constructor
  · intro j hjn t ht hq
    rwa [Run.journal_of_restart ht hjn hq] at hrun
  · intro hq
    rwa [Run.journal_of_quiet hq] at hrun

end Runs

/-! ## A buffered pair and an early redirect -/

/-- A build that fetches two words. -/
def configPair : Config := { fetchWidth := 2 }

/-- The reset address's pair waits in the buffer and leaves one word at a time;
then an announced redirect is taken early. -/
def splitInputs : ℕ → Input
  | 0 => { packetReady := true, reqReady := true }
  | 1 => { rspValid := true, rspInsn := 0xfff00100, rspPair := true, rspInsn1 := 0xfff00104,
           packetRoom2 := true }
  | 2 => { packetReady := true }
  | 3 => { packetReady := true }
  | 4 => { redirect := true, redirectTarget := 0x1000, early := true, earlyOk := true,
           earlyTarget := 0x1000, reqReady := true }
  | 5 => { rspValid := true, rspInsn := 0x1000, packetReady := true }
  | _ => {}

/-- The registers after reset, the buffer's contents zero. -/
def quietState : State := resetState configPair
  { pending := false, requestHeld := false, redirectPending := false, pc := 0, pcPlus4 := 0,
    pcPlus8 := 0, redirectTarget := 0, bufValid := false, bufPair := false, bufPc := 0,
    bufInsn := 0, bufInsn1 := 0, bufEsa := .denied, bufHints := 0, bufHints1 := 0,
    stopSkipped := false }

/-- The run of these inputs from reset. -/
def splitRun : Run (machine configPair) where
  start := ⟨quietState, none⟩
  initial := ⟨quietState, rfl⟩
  input := splitInputs

/-- A memory whose every word is its own address. -/
def ownAddress (p : Packet) : Prop := p.insn = p.pc

/-- With no response the responder owes nothing on the edge. -/
theorem rules_of_silent {cfg : Config} {text : Packet → Prop} {y : System} {i : Input}
    (hroom : i.packetReady2 = (i.packetRoom2 && i.packetReady))
    (hclears : i.redirect = true → packetValid y.fetch i = true → i.packetReady = false)
    (hannounced : fast y.fetch i = true → i.redirectTarget = i.earlyTarget)
    (hresumes : y.fetch.stopSkipped = false) (hnone : i.rspValid = false) :
    Rules cfg text y i := by
  refine ⟨hroom, fun _ => hclears, fun _ => hannounced, ?_, ?_, ?_⟩
  · intro _ hs
    simp [hresumes] at hs
  · intro _ hv
    simp [hnone] at hv
  · intro _ hv
    simp [hnone] at hv

theorem splitRun_obeys : splitRun.Obeys (Rules configPair ownAddress) 6 := by
  intro k hk
  interval_cases k
  · exact rules_of_silent rfl (by decide) (by decide) (by decide) rfl
  · refine ⟨rfl, by decide, by decide, by decide, fun _ _ => ⟨0xfff00100, by decide, rfl⟩, ?_⟩
    intro _ _ a ha _ _ _ _
    obtain rfl : 0xfff00100 = a := Option.some.inj ha
    rfl
  · exact rules_of_silent rfl (by decide) (by decide) (by decide) rfl
  · exact rules_of_silent rfl (by decide) (by decide) (by decide) rfl
  · exact rules_of_silent rfl (by decide) (by decide) (by decide) rfl
  · refine ⟨rfl, by decide, by decide, by decide, fun _ _ => ⟨0x1000, by decide, rfl⟩, ?_⟩
    intro _ _ _ _ _ hpair
    cases hpair

theorem packets_are_text_splitRun :
    InOrder ownAddress 0x1000 (splitRun.emitted (taken configPair) 5 6) ∧
      InOrder ownAddress 0xfff00100 (splitRun.emitted (taken configPair) 0 4) := by
  have hquiet : Run.Quiet (splitRun.Restarts (restart configPair)) 4 6 := by
    intro x h4 h6
    obtain rfl : x = 5 := by omega
    decide
  have hfirst : ∀ k < 4, ¬ splitRun.Restarts (restart configPair) k := by decide
  exact ⟨(packets_are_text configPair ownAddress splitRun 6 splitRun_obeys).1 4 (by decide) 0x1000
      rfl hquiet,
    (packets_are_text configPair ownAddress splitRun 4
      (splitRun_obeys.mono (by decide))).2 hfirst⟩

/-- Both words of the split pair are taken, and the target's word after them. -/
example : (splitRun.emitted (taken configPair) 0 6).map Packet.pc =
    [0xfff00100, 0xfff00104, 0x1000] := by decide

end Fetch
end SloPPC603
