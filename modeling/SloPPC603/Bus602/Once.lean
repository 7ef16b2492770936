import SloPPC603.Bus602.Transactions
import Mathlib.Tactic.IntervalCases

/-!
# One transaction for each tenure of the core

Every tenure that the core has put into the queue is one transaction on the bus, in the order
they were accepted, with the address and the data of the core.

* `Recorded`, `Inv` — the record and the registers.
* `Once`, `runs_once` — one transaction for each tenure, over any run.
-/

namespace SloPPC603
namespace Bus602

open Clocked

section Once

variable (s : State) (h : Log)

/-- The entries in the queue. -/
def State.queue : List Entry := [s.q0, s.q1].take s.count

/-- The record: `left` are the entries that have left the queue. -/
structure Recorded (left : List Entry) : Prop where
  length : left.length = h.tenures.length
  accepted : h.accepted = left ++ s.queue
  order : h.transactions.map (·.entry) = left ++ s.queue.take s.headPinDone.toNat
  agrees : ∀ (n : ℕ) (x : Transaction) (t : Tenure), h.transactions[n]? = some x →
    h.tenures[n]? = some t → Agrees x t
  errors : h.writeErrors + s.writeError.toNat =
    h.transactions.countP fun x => x.error && x.entry.write

/-- The registers and the record. -/
structure Inv : Prop where
  room : s.count ≤ 2
  granted : h.granted = true → s.count ≤ 1
  record : ∃ left, Recorded s h left
  empty : s.count = 0 → Fresh s h ∧ s.headCoreDone = false
  head : 0 < s.count → Head s h

end Once

section Steps

variable {s : State} {i : Input} {w : ℕ} {h : Log}

/-! ## The queue -/

theorem pop_pos (hpop : pop s = true) : 0 < s.count ∧ s.headCoreDone = true ∧ s.headPinDone = true := by
  simp only [pop, Bool.and_eq_true, decide_eq_true_eq] at hpop
  exact ⟨Nat.pos_of_ne_zero hpop.1.1, hpop.1.2, hpop.2⟩

/-- The core has a slot for the tenure it starts. -/
theorem enq_room (hinv : Inv s h) (hgrant : cTs i = true → h.granted = true) (henq : enq i = true) :
    s.count ≤ 1 := by
  rw [enq, Bool.and_eq_true] at henq
  exact hinv.granted (hgrant henq.1)

/-- **The queue after an edge.** -/
theorem queue_edge (hroom : s.count ≤ 2) (henq : enq i = true → s.count ≤ 1) :
    (edge s i w).count = s.count - (pop s).toNat + (enq i).toNat ∧
      (edge s i w).queue =
        s.queue.drop (pop s).toNat ++ if enq i then [cEntry i] else [] := by
  have hc : s.count = 0 ∨ s.count = 1 ∨ s.count = 2 := by omega
  cases hpop : pop s with
  | false =>
    obtain ⟨-, -, hq0, hq1, hcount, -⟩ := edge_stay s i w hpop
    rw [State.queue, State.queue, hq0, hq1, hcount]
    cases he : enq i <;> rcases hc with hc | hc | hc <;> simp [hc]
    exact absurd (henq he) (by omega)
  | true =>
    obtain ⟨-, -, hq0, hq1, hcount, -⟩ := edge_pop s i w hpop
    have hpos := (pop_pos hpop).1
    rw [State.queue, State.queue, hq0, hq1, hcount]
    cases he : enq i <;> rcases hc with hc | hc | hc <;> simp [hc]
    all_goals first
      | exact absurd (henq he) (by omega)
      | omega

theorem queue_length (hinv : Inv s h) : s.queue.length = s.count := by
  have hroom := hinv.room
  simp only [State.queue, List.length_take, List.length_cons, List.length_nil]
  omega

/-- The queue has its head. -/
theorem queue_head (hpos : 0 < s.count) : s.queue.take 1 = [s.q0] ∧
    s.queue = s.q0 :: s.queue.drop 1 := by
  obtain ⟨n, hn⟩ := Nat.exists_eq_succ_of_ne_zero (Nat.ne_of_gt hpos)
  rw [State.queue, hn]
  exact ⟨rfl, rfl⟩

/-- How many transactions there are. -/
theorem transactions_length (hinv : Inv s h) :
    h.transactions.length = h.tenures.length + s.headPinDone.toNat := by
  obtain ⟨left, hleft⟩ := hinv.record
  have hlen := congrArg List.length hleft.order
  have hqueue := queue_length hinv
  rw [List.length_map, List.length_append, List.length_take, hleft.length, hqueue] at hlen
  rw [hlen, Nat.min_eq_left]
  cases hp : s.headPinDone with
  | false => exact Nat.zero_le _
  | true =>
    rcases Nat.eq_zero_or_pos s.count with hc | hc
    · exact Bool.noConfusion (((hinv.empty hc).1).pinDone.symm.trans hp)
    · exact hc

/-! ## The transactions -/

/-- A head that is done on the bus is in no phase of a transaction. -/
theorem rests_of_pinDone (hb : s.Bus h) (hpin : s.headPinDone = true) :
    s.state ≠ .addr ∧ s.state ≠ .data :=
  not_or.1 fun hst =>
    Bool.noConfusion (((hb.open_ hst).1 : s.headPinDone = false).symm.trans hpin)

/-- Where there is no transaction to start, none is started. -/
theorem event_rests (hst : s.state ≠ .addr ∧ s.state ≠ .data) (hno : s.count = 0 ∨ s.headPinDone = true) :
    event s i w = .none ∨ event s i w = .rest := by
  have hspec := event_spec s i w
  have hready : headReady s w = false := by
    rcases hno with hno | hno <;> simp [headReady, hno]
  cases hev : event s i w <;> rw [hev] at hspec
  case none => exact .inl rfl
  case rest => exact .inr rfl
  case start => simp [wantBus, hready] at hspec
  case retry =>
    rcases hspec with hspec | hspec
    · exact absurd hspec hst.1
    · exact absurd hspec hst.2
  case aack => exact absurd hspec hst.1
  case kill => exact absurd hspec.1 hst.2
  case error => exact absurd hspec.1 hst.2
  case beat => exact absurd hspec.1 hst.2

/-- The event of an edge on which the head leaves, or there is none. -/
theorem quiet_event (hinv : Inv s h) (hno : s.count = 0 ∨ pop s = true) :
    (event s i w = .none ∨ event s i w = .rest) ∧ s.state ≠ .addr ∧ s.state ≠ .data ∧
      s.first = false := by
  rcases hno with hc | hpop
  · obtain ⟨hfresh, -⟩ := hinv.empty hc
    exact ⟨event_rests hfresh.rests (.inl hc), hfresh.rests.1, hfresh.rests.2, hfresh.first⟩
  · obtain ⟨hpos, -, hpin⟩ := pop_pos hpop
    have hb := (hinv.head hpos).bus
    have hrests := rests_of_pinDone hb hpin
    refine ⟨event_rests hrests (.inr hpin), hrests.1, hrests.2, ?_⟩
    cases hf : s.first with
    | false => rfl
    | true => exact absurd (hb.first hf).1 hrests.2

/-- The transaction of the head ends on an edge on which the head stays. -/
theorem pinDone_next (hpop : pop s = false) :
    (edge s i w).headPinDone = ((event s i w).ends s || s.headPinDone) := by
  have hphase := stay_phase (i := i) (w := w) hpop
  cases hev : event s i w <;> rw [hev] at hphase <;> exact congrArg Phase.headPinDone hphase

/-- `write_error_o` after an edge. -/
theorem writeError_next (s : State) (i : Input) (w : ℕ) :
    (edge s i w).writeError = (event s i w = .error && s.q0.write) := by
  have hwork : (edge s i w).writeError = (workEdge s i w).writeError := by
    cases hpop : pop s with
    | false => exact congrArg Phase.writeError (edge_stay s i w hpop).1
    | true => exact congrArg Phase.writeError (edge_pop s i w hpop).1
  have hphase := workEdge_phase s i w
  rw [hwork]
  cases hev : event s i w <;> rw [hev] at hphase
  case error => exact (congrArg Phase.writeError hphase).trans (Bool.or_false _)
  all_goals exact congrArg Phase.writeError hphase

/-- What a transaction that ends is of. -/
theorem ends_head (hinv : Inv s h) (hends : (event s i w).ends s = true) :
    0 < s.count ∧ pop s = false ∧ s.headPinDone = false := by
  have hquiet : ¬ (event s i w = .none ∨ event s i w = .rest) := by
    rintro (hev | hev) <;> rw [hev] at hends <;> exact Bool.noConfusion hends
  have hpos : 0 < s.count := Nat.pos_of_ne_zero fun hc => hquiet (quiet_event hinv (.inl hc)).1
  refine ⟨hpos, ?_, ((hinv.head hpos).bus.open_ (.inr (ends_data hends))).1⟩
  cases hpop : pop s with
  | false => rfl
  | true => exact absurd (quiet_event hinv (.inr hpop)).1 hquiet

/-- All the doublewords are delivered by all the beats, and only then. -/
theorem delivered_all (x : Transaction) (hx : Whole x) (hdata : x.entry.addrOnly = false) :
    x.entry.delivered x.t32 x.beats.length ≤ x.entry.doublewords ∧
      (x.error = true → x.entry.delivered x.t32 x.beats.length < x.entry.doublewords) := by
  have hdw := doublewords_pos hdata
  have hle := Nat.mul_le_mul_right x.entry.doublewords hx.beats
  refine ⟨Nat.div_le_of_le_mul hle, fun herr => ?_⟩
  have hlt := hx.incomplete herr
  exact Nat.div_lt_of_lt_mul ((Nat.mul_lt_mul_right (by omega)).2 hlt)

/-- A piece is of a doubleword of the entry. -/
theorem pieces_lt {e : Entry} {t32 : Bool} {p : ℕ × Bool} (hp : p ∈ e.pieces t32) :
    p.1 < e.doublewords := by
  cases hdata : e.addrOnly with
  | true =>
    rw [Entry.pieces, hdata] at hp
    exact absurd hp List.not_mem_nil
  | false =>
    rcases e.pieces_cases t32 hdata with ⟨-, hall, -⟩ | ⟨-, -, hdw, hall⟩ | ⟨-, -, hdw, hall⟩
    · rw [hall, List.mem_map] at hp
      obtain ⟨j, hj, rfl⟩ := hp
      exact List.mem_range.1 hj
    · rw [hdw]
      rw [hall] at hp
      revert p
      decide
    · rw [hdw]
      rcases hall with ⟨-, -, hall⟩ | ⟨-, -, hall⟩ | ⟨-, -, hall⟩ <;> rw [hall] at hp <;> revert p <;>
        decide

/-- **The transaction of a head that leaves has the data of its tenure.** -/
theorem agrees_of_head (hh : Head s h) (hcore : s.headCoreDone = true) (hpin : s.headPinDone = true) :
    ∃ x, h.last = some x ∧ Agrees x h.current := by
  obtain ⟨x, hlast, hentry, hwhole, hcarried, havail⟩ := hh.bus.ended hpin
  rw [← hentry] at hcarried havail
  cases hdata : x.entry.addrOnly with
  | true =>
    have hnone : h.current = ⟨[], []⟩ := hh.kill (hentry ▸ hdata)
    have hpieces : x.entry.pieces x.t32 = [] := by rw [Entry.pieces, hdata]; rfl
    have hbeats : x.beats = [] := by
      have hle := hwhole.beats
      rw [hpieces] at hle
      exact List.length_eq_zero_iff.1 (Nat.le_zero.1 hle)
    have hno : x.error = false := by
      by_contra herr
      have hlt := hwhole.incomplete (Bool.not_eq_false _ ▸ herr)
      rw [hpieces] at hlt
      exact Nat.not_lt_zero _ hlt
    refine ⟨x, hlast, hwhole, fun _ => ?_, fun _ => ?_⟩ <;> rw [hnone, hbeats]
    · exact ⟨by rw [Entry.doublewords, hdata]; rfl, rfl, fun n b p hb => by cases hb⟩
    · rw [hno, List.length_nil, Entry.delivered, Nat.zero_mul, Nat.zero_div]
      exact ⟨rfl, rfl, fun n b p x hb => by cases hb⟩
  | false =>
    refine ⟨x, hlast, hwhole, fun hwrite => ?_, fun hread => ?_⟩
    · have hw := hh.write (hentry ▸ hdata) (hentry ▸ hwrite)
      have hlen := hw.length
      rw [hcore, if_pos rfl, ← hentry] at hlen
      refine ⟨hlen, hw.teas, fun n b p hb hp => ?_⟩
      have hlt := pieces_lt (List.mem_of_getElem? hp)
      have hget := List.getElem?_eq_getElem (hlen.symm ▸ hlt)
      refine ⟨_, hget, ?_⟩
      rw [← hw.buf p.1 _ hget]
      exact hcarried n b p hb hp
    · have hr := hh.read (hentry ▸ hdata) (hentry ▸ hread)
      obtain ⟨hat, herr⟩ : s.avail = _ ∧ s.readError = x.error := havail hread
      obtain ⟨hall, hless⟩ := delivered_all x hwhole hdata
      have hle := hr.length
      -- the core's doublewords are those of the buffer
      have hgiven : Read x.entry x.t32 x.beats (h.current.data[·]?) := by
        intro n b p v hb hp hv
        rw [← hr.data p.1 v hv]
        exact hcarried n b p hb hp
      rcases (hr.done hcore).2 with ⟨hteas, hlen⟩ | ⟨hteas, hlen, htrue⟩
      · rw [← hentry] at hlen
        have hno : x.error = false := by
          cases hx : x.error with
          | false => rfl
          | true =>
            have hlt := hless hx
            omega
        rw [hno, hteas]
        exact ⟨by omega, rfl, hgiven⟩
      · rw [← herr, htrue, hteas]
        exact ⟨hlen.trans hat, rfl, hgiven⟩

/-- **The record after an edge.** -/
theorem record_step (hinv : Inv s h) (hgrant : cTs i = true → h.granted = true) :
    ∃ left, Recorded (edge s i w) (h.update s i w) left := by
  obtain ⟨left, hlen, hacc, horder, hagrees, herrors⟩ := hinv.record
  obtain ⟨-, hqueue⟩ := queue_edge (w := w) hinv.room (enq_room hinv hgrant)
  have hcount := transactions_length hinv
  have herr := writeError_next s i w
  have hacc' : (h.update s i w).accepted = h.accepted ++ if enq i then [cEntry i] else [] := by
    rw [Log.update]
    dsimp only
    split_ifs
    · rfl
    · exact (List.append_nil _).symm
  have hsum : (h.update s i w).writeErrors = h.writeErrors + s.writeError.toNat := rfl
  cases hends : (event s i w).ends s with
  | true =>
    obtain ⟨hpos, hpop, hfree⟩ := ends_head hinv hends
    have hpin := pinDone_next (i := i) (w := w) hpop
    obtain ⟨hone, hhead⟩ := queue_head hpos
    rw [hends, Bool.true_or] at hpin
    rw [hpop, Bool.toNat_false, List.drop_zero] at hqueue
    rw [hfree, Bool.toNat_false, List.take_zero, List.append_nil] at horder
    have htrans : (h.update s i w).transactions = h.transactions ++
        [⟨s.q0, h.word, s.t32, ackedNext s i h.acked (event s i w), event s i w = .error⟩] := by
      rw [Log.update, hends]
      rfl
    have hten : (h.update s i w).tenures = h.tenures := by rw [Log.update, hpop]; rfl
    refine ⟨left, ?_, ?_, ?_, fun n x t hx ht => ?_, ?_⟩
    · rw [hten, hlen]
    · rw [hacc', hacc, hqueue, List.append_assoc]
    · rw [htrans, List.map_append, horder, hqueue, hhead, hpin]
      rfl
    · rw [hten] at ht
      have hlt : n < h.transactions.length := by
        rw [hcount]
        exact Nat.lt_of_lt_of_le (List.getElem?_eq_some_iff.1 ht).1 (Nat.le_add_right _ _)
      rw [htrans, List.getElem?_append_left hlt] at hx
      exact hagrees n x t hx ht
    · rw [htrans, hsum, herrors, herr, List.countP_append, List.countP_singleton]
      cases decide (event s i w = .error) <;> cases s.q0.write <;> rfl
  | false =>
    have htrans : (h.update s i w).transactions = h.transactions := by
      rw [Log.update, hends]
      rfl
    have hno : decide (event s i w = .error) = false := by
      cases hev : event s i w <;> rw [hev] at hends
      case error => exact Bool.noConfusion hends
      all_goals rfl
    have herrors' : (h.update s i w).writeErrors + (edge s i w).writeError.toNat =
        (h.update s i w).transactions.countP fun x => x.error && x.entry.write := by
      rw [htrans, hsum, herrors, herr, hno]
      rfl
    cases hpop : pop s with
    | false =>
      have hpin := pinDone_next (i := i) (w := w) hpop
      have hten : (h.update s i w).tenures = h.tenures := by rw [Log.update, hpop]; rfl
      rw [hends, Bool.false_or] at hpin
      rw [hpop, Bool.toNat_false, List.drop_zero] at hqueue
      refine ⟨left, by rw [hten, hlen], by rw [hacc', hacc, hqueue, List.append_assoc], ?_,
        by rw [htrans, hten]; exact hagrees, herrors'⟩
      have hroom : s.headPinDone.toNat ≤ s.queue.length := by
        have hsize := congrArg List.length horder
        rw [List.length_map, hcount, List.length_append, List.length_take, hlen] at hsize
        omega
      rw [htrans, horder, hqueue, hpin, List.take_append_of_le_length hroom]
    | true =>
      obtain ⟨hpos, hcore, hpin⟩ := pop_pos hpop
      obtain ⟨hone, hhead⟩ := queue_head hpos
      have hten : (h.update s i w).tenures = h.tenures ++ [h.current] := by
        rw [Log.update, hpop]
        rfl
      have hpin' : (edge s i w).headPinDone = false :=
        congrArg Phase.headPinDone (edge_pop s i w hpop).1
      rw [hpin, Bool.toNat_true, hone] at horder
      rw [hpop, Bool.toNat_true] at hqueue
      refine ⟨left ++ [s.q0], ?_, ?_, ?_, fun n x t hx ht => ?_, herrors'⟩
      · rw [hten, List.length_append, List.length_append, hlen]
        rfl
      · rw [hacc', hacc, hqueue, hhead, List.append_assoc, List.append_assoc]
        rfl
      · rw [htrans, horder, hpin']
        exact (List.append_nil _).symm
      · rw [htrans] at hx
        rw [hten] at ht
        rcases Nat.lt_trichotomy n h.tenures.length with hlt | rfl | hgt
        · rw [List.getElem?_append_left hlt] at ht
          exact hagrees n x t hx ht
        · rw [List.getElem?_append_right (Nat.le_refl _), Nat.sub_self] at ht
          obtain rfl : h.current = t := Option.some.inj ht
          obtain ⟨x', hlast, hx'⟩ := agrees_of_head (hinv.head hpos) hcore hpin
          obtain rfl : x' = x := Option.some.inj (hlast.symm.trans hx)
          exact hx'
        · rw [List.getElem?_eq_none (by rw [List.length_append]; exact hgt)] at ht
          cases ht

/-! ## The invariant -/

/-- An edge on which the queue has no head. -/
theorem fresh_stay (hinv : Inv s h) (hc : s.count = 0) :
    Fresh (edge s i w) (h.update s i w) ∧ (edge s i w).headCoreDone = false := by
  obtain ⟨hfresh, hcore⟩ := hinv.empty hc
  obtain ⟨hev, hst1, hst2, -⟩ := quiet_event (i := i) (w := w) hinv (.inl hc)
  have hpop : pop s = false := by simp [pop, hc]
  have hnone : cHasData s = false := by simp [cHasData, hc]
  have hwrite : cWriteBeat s i = false := by rw [cWriteBeat, hnone]; rfl
  have hreading : cReading s i = false := by rw [cReading, hnone]; rfl
  have hread : cReadBeat s i = false := by rw [cReadBeat, hreading]; rfl
  have htea : cTea s i = false := by rw [cTea, hreading]; rfl
  have hphase := stay_phase (i := i) (w := w) hpop
  obtain ⟨hcap, hdone⟩ := stay_core (i := i) (w := w) hpop
  rw [hwrite] at hcap hphase
  rw [hwrite, hread, htea, hcore, hc] at hdone
  refine ⟨⟨?_, hcap.trans hfresh.cap, ?_, ?_, ?_, ?_, ?_, ?_⟩, hdone⟩
  · rw [current_update hpop, hfresh.current, Tenure.next, movedNow, hwrite, hread, htea]
    rfl
  · have havail : (edge s i w).avail = s.avail := by
      rcases hev with hev | hev <;> rw [hev] at hphase <;> exact congrArg Phase.avail hphase
    exact havail.trans hfresh.avail
  · have hrd : (edge s i w).rd = if cReadBeat s i then (s.rd + 1) % 4 else s.rd := by
      rcases hev with hev | hev <;> rw [hev] at hphase <;> exact congrArg Phase.rd hphase
    rw [hrd, hread]
    exact hfresh.rd
  · have herr : (edge s i w).readError = s.readError := by
      rcases hev with hev | hev <;> rw [hev] at hphase <;> exact congrArg Phase.readError hphase
    exact herr.trans hfresh.readError
  · have hpin : (edge s i w).headPinDone = s.headPinDone := by
      rcases hev with hev | hev <;> rw [hev] at hphase <;> exact congrArg Phase.headPinDone hphase
    exact hpin.trans hfresh.pinDone
  · rcases hev with hev | hev <;> rw [hev] at hphase
    · have hf : (edge s i w).first = (s.first && decide (s.state ≠ .data)) :=
        congrArg Phase.first hphase
      rw [hf, hfresh.first]
      rfl
    · exact congrArg Phase.first hphase
  · rcases hev with hev | hev <;> rw [hev] at hphase
    · have hstate : (edge s i w).state = s.state := congrArg Phase.state hphase
      rw [hstate]
      exact ⟨hst1, hst2⟩
    · have hstate : (edge s i w).state = .idle := congrArg Phase.state hphase
      rw [hstate]
      decide

/-- **An edge on which the head leaves: nothing is left of it.** -/
theorem fresh_pop (hinv : Inv s h) (hpop : pop s = true) :
    Fresh (edge s i w) (h.update s i w) := by
  obtain ⟨hev, hst1, hst2, hfirst⟩ := quiet_event (i := i) (w := w) hinv (.inr hpop)
  obtain ⟨hphase, hcap, -⟩ := edge_pop s i w hpop
  have hwork := workEdge_phase s i w
  have hstate : ((workEdge s i w).state = s.state ∨ (workEdge s i w).state = .idle) ∧
      (workEdge s i w).first = false := by
    rcases hev with hev | hev <;> rw [hev] at hwork
    · have hf : (workEdge s i w).first = (s.first && decide (s.state ≠ .data)) :=
        congrArg Phase.first hwork
      rw [hf, hfirst]
      exact ⟨.inl (congrArg Phase.state hwork), rfl⟩
    · exact ⟨.inr (congrArg Phase.state hwork), congrArg Phase.first hwork⟩
  have hstate' : (edge s i w).state = (workEdge s i w).state := congrArg Phase.state hphase
  refine ⟨?_, hcap, congrArg Phase.avail hphase, congrArg Phase.rd hphase,
    congrArg Phase.readError hphase, congrArg Phase.headPinDone hphase,
    (congrArg Phase.first hphase).trans hstate.2, ?_⟩
  · rw [Log.update, hpop]
    rfl
  · rw [hstate']
    rcases hstate.1 with hst | hst <;> rw [hst]
    · exact ⟨hst1, hst2⟩
    · decide

/-- **The invariant after an edge.** -/
theorem inv_edge (hinv : Inv s h) (hgrant : cTs i = true → h.granted = true) :
    Inv (edge s i w) (h.update s i w) := by
  have hroom := hinv.room
  have henq := enq_room hinv hgrant
  obtain ⟨hcount, -⟩ := queue_edge (i := i) (w := w) hroom henq
  have hone := (enq i).toNat_le
  refine ⟨?_, fun hg => ?_, record_step hinv hgrant, fun hc' => ?_, fun hc' => ?_⟩
  · cases he : enq i <;> rw [he] at hcount henq <;> simp only [Bool.toNat_false, Bool.toNat_true] at hcount
    · omega
    · have := henq rfl
      omega
  · simp only [Log.update, cBgN, Bool.not_not, Bool.and_eq_true, decide_eq_true_eq] at hg
    omega
  · rcases Nat.eq_zero_or_pos s.count with hc | hc
    · exact fresh_stay hinv hc
    cases hpop : pop s with
    | false =>
      rw [hpop] at hcount
      simp only [Bool.toNat_false] at hcount
      omega
    | true =>
      obtain ⟨-, -, -, -, -, hdone⟩ := edge_pop s i w hpop
      rw [hpop, Bool.toNat_true] at hcount
      have hsingle : s.count = 1 := by omega
      rw [hsingle] at hdone
      exact ⟨fresh_pop hinv hpop, hdone⟩
  · rcases Nat.eq_zero_or_pos s.count with hc | hc
    · obtain ⟨hfresh, hdone⟩ := fresh_stay (i := i) (w := w) hinv hc
      exact head_of_fresh hfresh fun _ => hdone
    cases hpop : pop s with
    | false => exact head_step (hinv.head hc) hc hpop (transactions_length hinv)
    | true =>
      obtain ⟨-, -, hq0, -, -, hdone⟩ := edge_pop s i w hpop
      refine head_of_fresh (fresh_pop hinv hpop) fun hdata => ?_
      by_cases htwo : s.count = 2
      · rw [htwo] at hq0
        have hq0' : (edge s i w).q0 = s.q1 := hq0.trans (if_neg (by simp))
        rw [hdone, ← hq0', hdata, Bool.and_false]
      · rw [hdone, decide_eq_false htwo, Bool.false_and]

theorem inv_reset (s : State) : Inv (reset s) .start := by
  refine ⟨Nat.zero_le _, fun _ => Nat.zero_le _, ⟨[], rfl, rfl, rfl, fun n x t hx => ?_, rfl⟩,
    fun _ => ?_, fun hc => absurd hc (Nat.lt_irrefl 0)⟩
  · cases hx
  · exact ⟨⟨rfl, rfl, rfl, rfl, rfl, rfl, rfl, show PinState.idle ≠ .addr ∧ PinState.idle ≠ .data by decide⟩, rfl⟩

/-- The core starts a tenure in the cycle after a grant. -/
def Granted (_ : State) (h : Log) (i : Input) : Prop := cTs i = true → h.granted = true

/-- **The invariant over an edge.** -/
theorem inv_step (hinv : Inv s h) (hgrant : Granted s h i) : Inv (step s i w) (h.next s i w) := by
  cases hrst : i.rstN with
  | true =>
    rw [step, Log.next, hrst, if_pos rfl, if_pos rfl]
    exact inv_edge hinv hgrant
  | false =>
    rw [step, Log.next, hrst, if_neg Bool.false_ne_true, if_neg Bool.false_ne_true]
    exact inv_reset _

end Steps

section Runs

variable {w : ℕ} {r : Run (machine w)} {n : ℕ}

/-- The record of the first edges of a run. -/
def log (r : Run (machine w)) : ℕ → Log := r.history .start fun h s i => h.next s i w

theorem inv_run (h : r.ObeysRecord .start (fun h s i => h.next s i w) Granted n) :
    Inv (r.state n) (log r n) := by
  refine Run.invariant_record (A := Granted) (I := Inv) (fun s hs => ?_)
    (fun _ _ _ hinv hgrant => inv_step hinv hgrant) h
  obtain ⟨s₀, rfl⟩ := hs
  exact inv_reset s₀

/-- **Every tenure of the core is one transaction.** -/
structure Once (s : State) (h : Log) : Prop where
  /-- The queue has two entries at most. -/
  room : s.count ≤ 2
  /-- The tenures that have left it are the first that were accepted. -/
  accepted : h.accepted.length = h.tenures.length + s.count
  /-- Each of them has had one transaction, the head one at most and the next none. -/
  transactions : h.transactions.length = h.tenures.length + s.headPinDone.toNat
  /-- The transactions are in the order the tenures were accepted. -/
  order : h.transactions.map (·.entry) = h.accepted.take h.transactions.length
  /-- Each has the address and the data of its tenure. -/
  agrees : ∀ (n : ℕ) (x : Transaction) (t : Tenure), h.transactions[n]? = some x →
    h.tenures[n]? = some t → Agrees x t
  /-- In each data phase of a write, also of one that is retried, the bus has the piece that the
  beat carries of what the core gave. -/
  driven : s.state = .data → s.q0.addrOnly = false → s.q0.write = true →
    ∃ p v, (s.q0.pieces s.t32)[s.beat]? = some p ∧ h.current.data[p.1]? = some v ∧
      Carries s.t32 p.2 (dOut s) v
  /-- What the core has been given of a read is what the target has acknowledged. -/
  given : s.state = .data → s.q0.addrOnly = false → s.q0.write = false →
    h.current.data.length ≤ s.q0.delivered s.t32 h.acked.length ∧ h.current.teas = [] ∧
      Read s.q0 s.t32 h.acked (h.current.data[·]?)
  /-- `write_error_o` is high for one cycle for each write that ended in an error. -/
  errors : h.writeErrors + s.writeError.toNat =
    h.transactions.countP fun x => x.error && x.entry.write

/-- Nothing of an entry is left for the next one. -/
structure Cleared (s : State) : Prop where
  cap : s.cap = 0
  avail : s.avail = 0
  rd : s.rd = 0
  readError : s.readError = false
  pinDone : s.headPinDone = false
  coreDone : s.headCoreDone = true → s.q0.addrOnly = true

theorem once_of_inv {s : State} {h : Log} (hinv : Inv s h) : Once s h := by
  have hpos : s.state = .data → 0 < s.count := fun hst =>
    Nat.pos_of_ne_zero fun hc => ((hinv.empty hc).1).rests.2 hst
  have hcount := transactions_length hinv
  obtain ⟨left, hlen, hacc, horder, hagrees, herrors⟩ := hinv.record
  refine ⟨hinv.room, ?_, hcount, ?_, hagrees, fun hst hdata hwrite => ?_,
    fun hst hdata hread => ?_, herrors⟩
  · rw [hacc, List.length_append, hlen, queue_length hinv]
  · refine List.prefix_iff_eq_take.1 ?_ |>.trans (by rw [List.length_map])
    rw [horder, hacc]
    exact (List.prefix_append_right_inj left).2 ( List.take_prefix _ _)
  · have hh := hinv.head (hpos hst)
    have hw := hh.write hdata hwrite
    obtain ⟨hat, -, -, -, hlt, -⟩ := position ((hh.bus.data hst).counts hdata)
    have hcore : s.headCoreDone = true := by
      by_contra hno
      exact (hh.bus.waits hwrite hdata (Bool.eq_false_iff.2 hno)).2.1 hst
    have hlen := hw.length
    rw [hcore, if_pos rfl] at hlen
    have hget := List.getElem?_eq_getElem (l := h.current.data) (i := dw s) (by omega)
    refine ⟨_, _, hat, hget, ?_⟩
    rw [← hw.buf _ _ hget]
    exact carries_dOut hst
  · have hh := hinv.head (hpos hst)
    have hr := hh.read hdata hread
    have hd := hh.bus.data hst
    have havail : s.avail = s.q0.delivered s.t32 s.beat := (hd.avail hread).1
    have hcore : s.headCoreDone = false := by
      cases hd : s.headCoreDone with
      | false => rfl
      | true => exact absurd hst (rests_of_pinDone hh.bus (hr.done hd).1).2
    refine ⟨by rw [show h.acked.length = s.beat from hd.acked, ← havail]; exact hr.length,
      (hr.waiting hcore).2.1, fun n b p v hb hp hv => ?_⟩
    rw [← hr.data p.1 v hv]
    exact hd.carried n b p hb hp

theorem cleared_of_pop {s : State} {i : Input} {h : Log} (hinv : Inv s h) (hgrant : Granted s h i)
    (hpop : pop s = true) : Cleared (step s i w) := by
  cases hrst : i.rstN with
  | false =>
    rw [step, hrst, if_neg Bool.false_ne_true]
    exact ⟨rfl, rfl, rfl, rfl, rfl, fun hd => Bool.noConfusion hd⟩
  | true =>
    rw [step, hrst, if_pos rfl]
    have hfresh := fresh_pop (i := i) (w := w) hinv hpop
    have hinv' := inv_edge (i := i) (w := w) hinv hgrant
    refine ⟨hfresh.cap, hfresh.avail, hfresh.rd, hfresh.readError, hfresh.pinDone, fun hd => ?_⟩
    rcases Nat.eq_zero_or_pos (edge s i w).count with hc | hc
    · rw [(hinv'.empty hc).2] at hd
      exact Bool.noConfusion hd
    have hh := hinv'.head hc
    cases hdata : (edge s i w).q0.addrOnly with
    | true => rfl
    | false =>
      cases hwrite : (edge s i w).q0.write with
      | true =>
        have hlen := (hh.write hdata hwrite).length
        have hdw := doublewords_pos hdata
        rw [hfresh.current, hd, if_pos rfl] at hlen
        exact absurd hlen.symm (by rcases hdw with hdw | hdw <;> rw [hdw] <;> decide)
      | false =>
        have hpin := ((hh.read hdata hwrite).done hd).1
        rw [hfresh.pinDone] at hpin
        exact Bool.noConfusion hpin

/-- **Every tenure of the core is one transaction, over any run.** The queue never has more than
two entries; each queued tenure has one transaction that is not retried, in the order of
acceptance, with its address and its data; and nothing of an entry is left for the next. -/
theorem runs_once (w : ℕ) (r : Run (machine w)) (n : ℕ)
    (h : r.ObeysRecord .start (fun h s i => h.next s i w) Granted n) :
    Once (r.state n) (log r n) ∧
      ∀ k < n, pop (r.state k) = true → Cleared (r.state (k + 1)) := by
  refine ⟨once_of_inv (inv_run h), fun k hk hpop => ?_⟩
  exact cleared_of_pop (inv_run (h.mono (Nat.le_of_lt hk))) (h k hk) hpop

/-! ## A word read after a doubleword read -/

/-- The core reads a doubleword, which a 64-bit target gives, and then a word, which a 32-bit
target gives. -/
def wordInput : ℕ → Input
  | 0 => { cTsN := false, cTsOe := true, cA := 0x100, cTt := 0b01010 }
  | 1 => { bgN := false }
  | 2 => { tsN := false, aackN := false }
  | 3 => { taN := false, d := 0x1111222233334444 }
  | 4 => { cDbbN := false, cDbbOe := true }
  | 6 => { cTsN := false, cTsOe := true, cA := 0x200, cTt := 0b01010, cTsiz := 4 }
  | 7 => { bgN := false }
  | 8 => { tsN := false, aackN := false, t32N := false }
  | 9 => { taN := false, d := 0x5555666600000000 }
  | 10 => { cDbbN := false, cDbbOe := true }
  | _ => {}

def wordStart : State where
  q0 := cEntry {}
  q1 := cEntry {}
  count := 0
  headCoreDone := false
  headPinDone := false
  ownAack := false
  buf := fun _ => 0
  cap := 0
  avail := 0
  rd := 0
  readError := false
  extOpen := false
  afterAack := false
  snoopTs := false
  snoopGbl := false
  snoopA := 0
  snoopTt := 0
  extAack := false
  bridgeArtry := false
  artryRel := false
  snoopBr := 0
  inj := false
  injAack := false
  injAfter := false
  injProbe := false
  state := .idle
  ownTs := false
  addrWord := 0
  t32 := false
  tsFirst := false
  first := false
  gap := false
  retried := false
  bbDrive := false
  beat := 0
  beats := 0
  be := 0
  wait := 0
  writeError := false

def wordRun : Run (machine 8) := ⟨wordStart, ⟨wordStart, rfl⟩, wordInput⟩

theorem wordRun_obeys :
    wordRun.ObeysRecord .start (fun h s i => h.next s i 8) Granted 12 := by
  intro k hk
  unfold Granted
  interval_cases k <;> decide

/-- The core's word comes with the low half of the doubleword of the read before it. -/
theorem word_with_old_half :
    wordRun.ObeysRecord .start (fun h s i => h.next s i 8) Granted 12 ∧
    (log wordRun 12).transactions.map (·.beats) = [[0x1111222233334444], [0x5555666600000000]] ∧
    (log wordRun 12).tenures.map (·.data) = [[0x1111222233334444], [0x5555666633334444]] :=
  ⟨wordRun_obeys, by decide +kernel, by decide +kernel⟩

theorem runs_once_wordRun : Once (wordRun.state 12) (log wordRun 12) ∧
    ∀ k < 12, pop (wordRun.state k) = true → Cleared (wordRun.state (k + 1)) :=
  runs_once 8 wordRun 12 wordRun_obeys

end Runs

end Bus602
end SloPPC603
