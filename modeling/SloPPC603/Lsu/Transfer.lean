import SloPPC603.Decode.MemoryKind
import SloPPC603.Lsu.Moves

/-!
# Loads and stores over a byte-addressed memory

The port performs each request on a memory as it takes it and answers with what it read.

* `Port`, `Moving` — the memory beside a run, and what the unit is promised.
* `MoveInv`, `moveInv_step` — what each register holds of its access.
* `bytes_move` — what a request writes, what a load returns, and a load after a store.
-/

namespace SloPPC603
namespace Lsu

open Clocked
open Rename (Wake)
open Words (byte writeBytes)

/-! ## The port beside a run -/

/-- The memory, and what each beat of an access has read of it. -/
structure Port where
  memory : Memory
  read : ℕ → Bool → Option (BitVec 64)

/-- The access and the beat of the request on the port. -/
def asked (cfg : Config) (s : State) (i : Input) : ℕ × Bool :=
  if sqOffer cfg s i then ((sqHead s).serial, false) else ((p1Head s).serial, (p1Head s).second)

/-- The port takes a write. -/
def writes (cfg : Config) (s : State) (i : Input) : Bool :=
  reqValid cfg s i && i.reqReady && (request cfg s i).write

/-- The port takes a read. -/
def reads (cfg : Config) (s : State) (i : Input) : Bool :=
  reqValid cfg s i && i.reqReady && !(request cfg s i).write

/-- The port over an edge. -/
def Port.update (cfg : Config) (p : Port) (s : State) (i : Input) : Port where
  memory := if writes cfg s i then (request cfg s i).apply p.memory else p.memory
  read := if reads cfg s i then
      fun k b => if (k, b) = asked cfg s i then some ((request cfg s i).read p.memory)
        else p.read k b
    else p.read

/-- The size of a decoded access. -/
def MemSize.ofDecode : Decode.MemSize → MemSize
  | .byte => .byte
  | .half => .half
  | .word => .word

/-- The access `x` is the one the inputs dispatch. -/
structure Names (x : Operation) (i : Input) : Prop where
  /-- The operation is a decoded one. -/
  decoded : ∃ cfg insn, i.uop.memSize = MemSize.ofDecode (Decode.decode cfg insn).memSize ∧
    i.uop.memReverse = (Decode.decode cfg insn).memReverse ∧
    i.uop.memSigned = (Decode.decode cfg insn).memSigned
  store : x.store = if i.fp then i.fpStore else decide (i.uop.specialOp = .store)
  reverse : x.reverse = (!i.fp && i.uop.memReverse)
  signed : x.signed = (!i.fp && i.uop.memSigned)
  data : i.fp = false → i.uop.specialOp = .store → i.data.ready = true →
    i.data.value = x.value.setWidth 32

/-- A wake that names the store data of an entry brings the register it waits for. -/
def Supplied (ops : ℕ → Operation) (i : Input) (e : Entry) : Prop :=
  e.fp = false → e.store = true → e.dataReady = false →
    ∀ w, w = i.wake ∨ w = i.wake1 → w.valid = true → w.tag = e.dataTag →
      w.producer = e.dataProducer → w.value = (ops e.serial).value.setWidth 32

/-- What the core and the port promise of one cycle about the accesses `ops`, by their place
in dispatch order. -/
structure Moving (core : Core) (cfg : Config) (ops : ℕ → Operation) (s : State) (p : Port)
    (i : Input) : Prop where
  legal : Legal cfg s i
  serves : Serves core cfg (fun k => (ops k).toAccess) s i
  names : dispatchFire cfg s i = true → Names (ops s.serials) i
  data : ∀ e ∈ s.p1 ++ dispatched cfg s i, Supplied ops i e
  /-- The FPU shows the data of the store that is offered or queued. -/
  fpData : offer cfg s i = true ∨ p1Queue cfg s i = true → (p1Head s).fp = true →
    (p1Head s).store = true → i.fpStoreData = (ops (p1Head s).serial).value
  /-- A load is answered with what it read. -/
  answered : p2Retire cfg s i = true → (p2Head s).write = false → (p2Head s).store = false →
    rspOk i = true → ∀ v, p.read (p2Head s).serial (p2Head s).second = some v → i.rspRdata = v

/-! ## What an entry carries -/

section Carries

variable {core : Core} {cfg : Config} {ops : ℕ → Operation} {s : State} {i : Input}
  {x : Operation} {e : Entry}

theorem decoded_of_names (h : Names x i) (hfp : x.fp = i.fp) (hsize : x.size = i.uop.memSize) :
    x.Decoded := by
  obtain ⟨dcfg, insn, hs, hr, hg⟩ := h.decoded
  have hkind := Decode.memKind_decode dcfg insn
  constructor
  · intro hrev
    rw [h.reverse, Bool.and_eq_true, Bool.not_eq_true'] at hrev
    refine ⟨hfp.trans hrev.1, ?_⟩
    have hne := hkind.reverse (hr.symm.trans hrev.2)
    rw [hsize, hs]
    cases hd : (Decode.decode dcfg insn).memSize with
    | byte => exact absurd hd hne
    | half => decide
    | word => decide
  · intro hsig
    rw [h.signed, Bool.and_eq_true, Bool.not_eq_true'] at hsig
    obtain ⟨hhalf, hrev⟩ := hkind.signed (hg.symm.trans hsig.2)
    refine ⟨hfp.trans hsig.1, ?_, ?_⟩
    · rw [hsize, hs, hhalf]
      rfl
    · rw [h.reverse, hr, hrev, Bool.and_false]

/-- **The access being dispatched.** -/
theorem incoming_carries {k : Slot} {a b : BitVec 32} (h : Formed core cfg k a b i)
    (hx : x.toAccess = k.access a b) (hn : Names x i) : (incoming cfg s i).Carries cfg x := by
  have hagrees := incoming_agrees (s := s) h
  have hfp : x.fp = i.fp := (congrArg Access.fp hx).trans h.fp.symm
  have hdouble : x.fpDouble = i.fpDouble := (congrArg Access.fpDouble hx).trans h.fpDouble.symm
  have hle : x.le = i.le := (congrArg Access.le hx).trans h.le.symm
  have hsize : x.size = i.uop.memSize := (congrArg Access.size hx).trans h.memSize.symm
  have hea : i.fp = true → x.ea = i.ea := by
    intro hf
    have hwait : (incoming cfg s i).baseWait = false := by
      by_contra hno
      have hno' := (hagrees.waits (by simpa using hno)).2.1
      rw [← hx, hfp, hf] at hno'
      cases hno'
    rw [(ea_of_dispatch h hwait).2, ← hx]
  have hwide : inWide cfg i = x.wide cfg := by
    rw [inWide, Operation.wide, hfp, hdouble]
    cases hf : i.fp with
    | false => simp
    | true => rw [hea hf]
  have huop : (incoming cfg s i).uop.memSize = i.uop.memSize ∧
      (incoming cfg s i).uop.memReverse = i.uop.memReverse ∧
      (incoming cfg s i).uop.memSigned = i.uop.memSigned := by
    unfold incoming
    dsimp only
    split_ifs <;> exact ⟨rfl, rfl, rfl⟩
  have hstore : (incoming cfg s i).store = x.store := hn.store.symm
  refine ⟨decoded_of_names hn hfp hsize, rfl, hfp.symm, hstore, ?_, hwide, ?_,
    by rintro ⟨⟩, huop.1.trans hsize.symm, ?_, ?_, ?_, ?_⟩
  · show (if !i.le then 0 else if i.fp then _ else _) = _
    rw [Operation.munge, hle, hfp, hdouble, hsize]
  · show inSplit cfg i = _
    rw [inSplit, hwide, Operation.split, hfp, hdouble]
  · intro hf
    rw [huop.2.1, hn.reverse, show i.fp = false from hf]
    rfl
  · intro hf
    rw [huop.2.2, hn.signed, show i.fp = false from hf]
    rfl
  · intro hf hst hready
    have hf' : i.fp = false := hf
    have hop : i.uop.specialOp = .store := by
      rw [hstore, hn.store, hf', if_neg Bool.false_ne_true, decide_eq_true_eq] at hst
      exact hst
    rcases hready with hready | hno
    · refine hn.data hf' hop ?_
      have hr : (i.fp || decide (i.uop.specialOp ≠ .store) || i.data.ready) = true := hready
      simpa [hf', hop] using hr
    · cases hno
  · rintro (hf | hst)
    · show (i.fp || _ || _) = true
      rw [show i.fp = true from hf]
      rfl
    · show (i.fp || decide (i.uop.specialOp ≠ .store) || _) = true
      have hst' : (if i.fp then i.fpStore else decide (i.uop.specialOp = .store)) = false := hst
      cases hf : i.fp with
      | true => rfl
      | false =>
        rw [hf, if_neg Bool.false_ne_true, decide_eq_false_iff_not] at hst'
        simp [hst']

theorem dispatched_carries {k : Slot} {a b : BitVec 32} (h : Formed core cfg k a b i)
    (hx : x.toAccess = k.access a b) (hn : Names x i) (he : e ∈ dispatched cfg s i) :
    e.Carries cfg x := by
  have hin := incoming_carries (s := s) h hx hn
  unfold dispatched at he
  split_ifs at he with hfire hsplit
  · rcases List.mem_cons.1 he with rfl | hsecond
    · exact hin
    · rw [List.mem_singleton.1 hsecond]
      have hs : x.split cfg = true := hin.split.symm.trans hsplit
      exact ⟨hin.decoded, hin.plain, hin.fp, hin.store, hin.munge, hin.wide, hin.split,
        fun _ => hs, hin.size, hin.reverse, hin.signed, hin.data, hin.waits⟩
  · rw [List.mem_singleton.1 he]
    exact hin
  · exact absurd he List.not_mem_nil

/-- What the unit rewrites of a P1 entry besides its store data. -/
theorem carries_of_fixed {d : Entry} (h : e.Carries cfg x) (hfixed : d.fixed = e.fixed)
    (hsize : d.uop.memSize = e.uop.memSize) (hrev : d.uop.memReverse = e.uop.memReverse)
    (hsig : d.uop.memSigned = e.uop.memSigned) (hdata : d.data = e.data)
    (hready : d.dataReady = e.dataReady) (hlate : d.dataLate = e.dataLate) :
    d.Carries cfg x := by
  have hwide : d.wide = e.wide := show d.fixed.wide = e.fixed.wide by rw [hfixed]
  have hmunge : d.munge = e.munge := show d.fixed.munge = e.fixed.munge by rw [hfixed]
  have hfp := fp_of_fixed hfixed
  have hst := store_of_fixed hfixed
  refine ⟨h.decoded, (write_of_fixed hfixed).trans h.plain, hfp.trans h.fp, hst.trans h.store,
    hmunge.trans h.munge, hwide.trans h.wide, (split_of_fixed hfixed).trans h.split, ?_,
    hsize.trans h.size, ?_, ?_, ?_, ?_⟩
  · rw [second_of_fixed hfixed]
    exact h.second
  · rw [hfp, hrev]
    exact h.reverse
  · rw [hfp, hsig]
    exact h.signed
  · rw [hfp, hst, hready, hlate, hdata]
    exact h.data
  · rw [hfp, hst, hready]
    exact h.waits

theorem carries_takeBase (h : e.Carries cfg x) : (Entry.takeBase cfg i e).Carries cfg x := by
  have hkept : ∀ d : Entry, (Entry.takeBase cfg i d).uop.memSize = d.uop.memSize ∧
      (Entry.takeBase cfg i d).uop.memReverse = d.uop.memReverse ∧
      (Entry.takeBase cfg i d).uop.memSigned = d.uop.memSigned ∧
      (Entry.takeBase cfg i d).data = d.data ∧ (Entry.takeBase cfg i d).dataReady = d.dataReady ∧
      (Entry.takeBase cfg i d).dataLate = d.dataLate := by
    intro d
    unfold Entry.takeBase
    split_ifs
    · exact ⟨rfl, rfl, rfl, rfl, rfl, rfl⟩
    · split
      · dsimp only
        split_ifs <;> exact ⟨rfl, rfl, rfl, rfl, rfl, rfl⟩
      · exact ⟨rfl, rfl, rfl, rfl, rfl, rfl⟩
    · exact ⟨rfl, rfl, rfl, rfl, rfl, rfl⟩
  obtain ⟨hsize, hrev, hsig, hdata, hready, hlate⟩ := hkept e
  exact carries_of_fixed h (takeBase_fixed e) hsize hrev hsig hdata hready hlate

theorem carries_takeData (h : e.Carries cfg (ops e.serial)) (hs : Supplied ops i e) :
    (Entry.takeData i e).Carries cfg (ops e.serial) := by
  unfold Entry.takeData
  split_ifs with hlate hready
  · refine ⟨h.decoded, h.plain, h.fp, h.store, h.munge, h.wide, h.split, h.second, h.size,
      h.reverse, h.signed, fun hf hst _ => h.data hf hst (Or.inr hlate), fun _ => rfl⟩
  · exact h
  · split
    · rename_i w hw
      obtain ⟨hport, hvalid, htag, hprod⟩ := wakeOf_spec hw
      have hno : e.dataReady = false := by simpa using hready
      refine ⟨h.decoded, h.plain, h.fp, h.store, h.munge, h.wide, h.split, h.second, h.size,
        h.reverse, h.signed, fun hf hst _ => hs hf hst hno w hport hvalid htag hprod,
        fun hc => absurd (h.waits hc) hready⟩
    · exact h

/-- **An access of P1 over an edge.** -/
theorem carries_p1Next (h : e.Carries cfg (ops e.serial)) (hs : Supplied ops i e) :
    (p1Next cfg s i e).Carries cfg (ops e.serial) := by
  rw [p1Next]
  refine carries_takeBase (carries_takeData (e := { e with
      killed := e.killed || doom cfg s i || killedNow i e.producer
      bspec := e.bspec && !i.branchResolved
      launched := e.launched || (i.fpLaunchValid && e.producer = i.fpLaunchTag) }) ?_ hs)
  exact carries_of_fixed h rfl rfl rfl rfl rfl rfl rfl

theorem carries_p2Next (h : e.Carries cfg x) : (p2Next cfg s i e).Carries cfg x :=
  carries_of_fixed h rfl rfl rfl rfl rfl rfl rfl

end Carries

/-! ## The invariant -/

/-- A queued store writes its access's bytes. -/
structure Queued (cfg : Config) (x : Operation) (c : SqEntry) : Prop where
  store : x.store = true
  fits : Operation.Fits cfg x false ⟨true, c.addr, c.wdata, c.wstrb⟩
  data : ∀ k ∈ x.beatBytes cfg false, byte (x.lane cfg false k) c.wdata = byte k x.value

/-- The first beat of a load, answered while its second is in the line, is the word kept,
and nothing in the line is older. -/
def FirstKept (ops : ℕ → Operation) (s : State) (p : Port) : Prop :=
  ∀ e ∈ line s, e.second = true → e.killed = false → (ops e.serial).store = false →
    (∀ d ∈ line s, d.serial = e.serial → d.second = true) →
      (∃ v, p.read e.serial false = some v ∧ s.beat0 = v.extractLsb' 0 32) ∧
        ∀ d ∈ line s, e.serial ≤ d.serial

/-- What each register holds of its access. -/
structure MoveInv (core : Core) (cfg : Config) (ops : ℕ → Operation) (s : State) (p : Port) :
    Prop where
  address : AddressInv core cfg (fun k => (ops k).toAccess) s
  order : OrderInv s
  beats : BeatInv s
  p1 : ∀ e ∈ s.p1, e.Carries cfg (ops e.serial)
  p2 : ∀ e ∈ s.p2, (e.write = true ∧ e.split = false) ∨ e.Carries cfg (ops e.serial)
  aligned : ∀ e ∈ s.p2, e.write = false → (ops e.serial).Aligned
  sq : ∀ c ∈ s.sq, Queued cfg (ops c.serial) c
  q : ∀ e, s.q = some e → (ops e.serial).store = true
  stands : s.offered = true → (p1Head s).dataReady = true
  /-- The beats of one access are removed together. -/
  twins : ∀ d ∈ line s, ∀ e ∈ line s, d.serial = e.serial →
    d.killed = e.killed ∧ d.producer = e.producer
  /-- A load in P2 has read the memory. -/
  read : ∀ e ∈ s.p2, e.write = false → e.store = false →
    ∃ v, p.read e.serial e.second = some v
  first : FirstKept ops s p

section Requests

variable {core : Core} {cfg : Config} {ops : ℕ → Operation} {s : State} {p : Port} {i : Input}

theorem p1_carries_step (h : MoveInv core cfg ops s p) (hm : Moving core cfg ops s p i) :
    ∀ e ∈ (step cfg s i).p1, e.Carries cfg (ops e.serial) := by
  intro e' he'
  rw [(step_running hm.legal.running).1] at he'
  obtain ⟨e, hmem, rfl⟩ := List.mem_map.1 he'
  rw [serial_of_fixed (p1Next_fixed e)]
  rcases List.mem_append.1 hmem with hold | hnew
  · obtain ⟨d, hd, hshift⟩ := p1Shifted_cases hold
    have hc := h.p1 d hd
    have hs := hm.data d (List.mem_append_left _ hd)
    rcases hshift with rfl | rfl | rfl
    · exact carries_p1Next hc hs
    · have hsame : d.advanced.serial = d.serial ∧ d.advanced.fp = d.fp ∧
          d.advanced.store = d.store ∧ d.advanced.dataReady = d.dataReady ∧
          d.advanced.dataTag = d.dataTag ∧ d.advanced.dataProducer = d.dataProducer ∧
          d.advanced.uop = d.uop ∧ d.advanced.data = d.data ∧
          d.advanced.dataLate = d.dataLate := by
        unfold Entry.advanced
        split_ifs <;> exact ⟨rfl, rfl, rfl, rfl, rfl, rfl, rfl, rfl, rfl⟩
      obtain ⟨hser, hfp, hst, hready, htag, hprod, huop, hdata, hlate⟩ := hsame
      refine carries_p1Next ?_ ?_
      · rw [hser]
        exact carries_of_fixed hc (advanced_fixed d) (by rw [huop]) (by rw [huop]) (by rw [huop])
          hdata hready hlate
      · unfold Supplied
        rw [hser, hfp, hst, hready, htag, hprod]
        exact hs
    · exact carries_p1Next (carries_of_fixed hc rfl rfl rfl rfl rfl rfl rfl) hs
  · obtain ⟨-, hserial, -, hfire⟩ := dispatched_spec hnew
    obtain ⟨k, a, b, hformed, hacc⟩ := hm.serves.dispatch hfire
    refine carries_p1Next ?_ (hm.data e (List.mem_append_right _ hnew))
    rw [hserial]
    exact dispatched_carries hformed hacc (hm.names hfire) hnew

/-- A head that is offered or queued has its store data. -/
theorem head_dataReady (h : MoveInv core cfg ops s p)
    (ho : offer cfg s i = true ∨ p1Queue cfg s i = true) : headDataReady s i = true := by
  have hready : ∀ {c : Entry}, p1Ready cfg s i = true → (p1Head s).Carries cfg (ops c.serial) →
      headDataReady s i = true := by
    intro c hr hc
    cases hfp : (p1Head s).fp with
    | false =>
      rw [p1Ready, hfp, Bool.not_false, if_pos rfl] at hr
      exact hr
    | true =>
      rw [headDataReady, hc.waits (Or.inl hfp)]
      rfl
  have hstand : s.offered = true → headDataReady s i = true := by
    intro hoff
    rw [headDataReady, h.stands hoff]
    rfl
  rcases ho with ho | hq
  · have hvalid := (offer_parts ho).1
    have hc := h.p1 _ (p1Head_mem hvalid)
    simp only [offer, Bool.and_eq_true] at ho
    have hlast := ho.2
    cases hk : (p1Head s).killed with
    | true =>
      rw [hk, if_pos rfl, Bool.and_eq_true] at hlast
      exact hstand hlast.1
    | false =>
      rw [hk, if_neg Bool.false_ne_true, Bool.or_eq_true] at hlast
      rcases hlast with hoff | hfirst
      · exact hstand hoff
      · simp only [Bool.and_eq_true] at hfirst
        exact hready (c := p1Head s) hfirst.1.2 hc
  · have hvalid := (p1Queue_spec hq).1
    have hc := h.p1 _ (p1Head_mem hvalid)
    simp only [p1Queue, p1Check, Bool.and_eq_true] at hq
    exact hready (c := p1Head s) (by tauto) hc

/-- **The store data of a head that is offered or queued.** -/
theorem headData_eq (h : MoveInv core cfg ops s p) (hm : Moving core cfg ops s p i)
    (ho : offer cfg s i = true ∨ p1Queue cfg s i = true) (hvalid : p1Valid s = true)
    (hfp : (p1Head s).fp = false) (hstore : (p1Head s).store = true) :
    headData s i = (ops (p1Head s).serial).value.setWidth 32 := by
  have hc := h.p1 _ (p1Head_mem hvalid)
  have hthere := head_dataReady h ho
  unfold headData
  cases hr : (p1Head s).dataReady with
  | true => exact hc.data hfp hstore (Or.inl hr)
  | false =>
    have hs := hm.data _ (List.mem_append_left _ (p1Head_mem hvalid)) hfp hstore hr
    have hparts : ∀ {w : Wake}, headWake s w = true → w.valid = true ∧
        w.tag = (p1Head s).dataTag ∧ w.producer = (p1Head s).dataProducer := by
      intro w hw
      simp only [headWake, Bool.and_eq_true, decide_eq_true_eq] at hw
      exact ⟨hw.1.1.1, hw.1.2, hw.2⟩
    rw [headDataReady, hr, Bool.false_or, Bool.or_eq_true] at hthere
    rw [if_neg Bool.false_ne_true]
    cases hw : headWake s i.wake with
    | true =>
      obtain ⟨hv, ht, hp⟩ := hparts hw
      exact hs _ (Or.inl rfl) hv ht hp
    | false =>
      obtain ⟨hv, ht, hp⟩ := hparts (hthere.resolve_left (by rw [hw]; exact Bool.false_ne_true))
      exact hs _ (Or.inr rfl) hv ht hp

/-- A head with the address of its beat fits its access. -/
theorem head_fits (h : MoveInv core cfg ops s p) (hvalid : p1Valid s = true)
    (hfast : (ops (p1Head s).serial).toAccess.fast core cfg = true)
    (hea : headEa cfg s i = (ops (p1Head s).serial).beat (p1Head s).second) (write : Bool)
    (wdata : BitVec 64) : Operation.Fits cfg (ops (p1Head s).serial) (p1Head s).second
      ⟨write, accessAddr (headEa cfg s i) (p1Head s).munge, wdata, p1Wstrb cfg s i⟩ ∧
      ((p1Head s).fp = false → headOffset cfg s i = (ops (p1Head s).serial).offset) := by
  have hc := h.p1 _ (p1Head_mem hvalid)
  have ha := Operation.aligned_of_fast hfast
  have hoff : (p1Head s).fp = false → headOffset cfg s i = (ops (p1Head s).serial).offset := by
    intro hfp
    have hno : (p1Head s).second = false := by
      by_contra hno
      have hs := hc.second (by simpa using hno)
      rw [Operation.split, ← hc.fp, hfp] at hs
      cases hs
    rw [headOffset, hea, hc.munge, hno]
    rfl
  refine ⟨Operation.fits_of_aligned ha hc.decoded hc.second ?_ ?_, hoff⟩
  · show accessAddr (headEa cfg s i) (p1Head s).munge = _
    rw [hea, hc.munge]
  · show p1Wstrb cfg s i = _
    cases hfp : (p1Head s).fp with
    | false => exact p1Wstrb_eq hc (hoff hfp)
    | true => rw [p1Wstrb, Operation.strobes, hfp, hc.wide, ← hc.fp, hfp, if_pos rfl, if_pos rfl]

/-- A store's head writes its access's bytes. -/
theorem head_data (h : MoveInv core cfg ops s p) (hm : Moving core cfg ops s p i)
    (ho : offer cfg s i = true ∨ p1Queue cfg s i = true) (hvalid : p1Valid s = true)
    (hfast : (ops (p1Head s).serial).toAccess.fast core cfg = true)
    (hea : headEa cfg s i = (ops (p1Head s).serial).beat (p1Head s).second)
    (hstore : (p1Head s).store = true) :
    ∀ k ∈ (ops (p1Head s).serial).beatBytes cfg (p1Head s).second,
      byte ((ops (p1Head s).serial).lane cfg (p1Head s).second k) (p1Wdata cfg s i) =
        byte k (ops (p1Head s).serial).value := by
  have hc := h.p1 _ (p1Head_mem hvalid)
  have ha := Operation.aligned_of_fast hfast
  have hoff := (head_fits h hvalid hfast hea true 0).2
  intro k hk
  refine p1Wdata_byte hc ha (hc.store.symm.trans hstore) ?_ ?_ ?_ hk
  · exact fun hfp => hoff (hc.fp.trans hfp)
  · exact fun hfp => headData_eq h hm ho hvalid (hc.fp.trans hfp) hstore
  · exact fun hfp => hm.fpData ho (hc.fp.trans hfp) hstore

/-- **The request on the port is that of its access.** -/
theorem request_spec (h : MoveInv core cfg ops s p) (hm : Moving core cfg ops s p i)
    (hvalid : reqValid cfg s i = true) :
    (request cfg s i).write = (ops (asked cfg s i).1).store ∧
      Operation.Fits cfg (ops (asked cfg s i).1) (asked cfg s i).2 (request cfg s i) ∧
      ((ops (asked cfg s i).1).store = true →
        ∀ k ∈ (ops (asked cfg s i).1).beatBytes cfg (asked cfg s i).2,
          byte ((ops (asked cfg s i).1).lane cfg (asked cfg s i).2 k) (request cfg s i).wdata =
            byte k (ops (asked cfg s i).1).value) := by
  cases hsq : sqOffer cfg s i with
  | true =>
    have hsv : sqValid s = true := by
      simp only [sqOffer, Bool.and_eq_true] at hsq
      tauto
    have hq := h.sq _ (sqHead_mem hsv)
    have hreq : request cfg s i = ⟨true, (sqHead s).addr, (sqHead s).wdata, (sqHead s).wstrb⟩ := by
      simp [request, hsq]
    rw [hreq, asked, hsq, if_pos rfl]
    exact ⟨hq.store.symm, hq.fits, fun _ => hq.data⟩
  | false =>
    have ho : offer cfg s i = true := by simpa [reqValid, hsq] using hvalid
    obtain ⟨hv, -, -, -⟩ := offer_parts ho
    obtain ⟨hea, hfast⟩ := offered_spec h.address hm.serves ho
    have hspeed : (ops (p1Head s).serial).toAccess.fast core cfg = true :=
      hfast.symm.trans (offer_parts ho).2.1
    have hreq : request cfg s i = ⟨(p1Head s).store, accessAddr (headEa cfg s i) (p1Head s).munge,
        p1Wdata cfg s i, p1Wstrb cfg s i⟩ := by
      simp [request, hsq, p1Addr]
    have hc := h.p1 _ (p1Head_mem hv)
    rw [hreq, asked, hsq, if_neg Bool.false_ne_true]
    exact ⟨hc.store, (head_fits h hv hspeed hea _ _).1,
      fun hst => head_data h hm (Or.inl ho) hv hspeed hea (hc.store.trans hst)⟩

/-- A store that queues writes its access's bytes. -/
theorem added_queued (h : MoveInv core cfg ops s p) (hm : Moving core cfg ops s p i)
    (hq : p1Queue cfg s i = true) : Queued cfg (ops (p1Head s).serial) (added cfg s i) := by
  obtain ⟨hv, hstore, hfast, hsplit, -⟩ := p1Queue_spec hq
  have hs := head_settled h.address hv (Or.inl hfast)
  have hea : headEa cfg s i = (ops (p1Head s).serial).beat (p1Head s).second := by
    rw [headEa_of_settled hm.serves hv hs]
    rfl
  have hspeed : (ops (p1Head s).serial).toAccess.fast core cfg = true :=
    (hs.agrees.fast hs.formed).symm.trans hfast
  have hc := h.p1 _ (p1Head_mem hv)
  have hno : (p1Head s).second = false := by
    by_contra hno
    have hsp := hc.second (by simpa using hno)
    rw [← hc.split, hsplit] at hsp
    cases hsp
  have haddr : chkAddr s = accessAddr (headEa cfg s i) (p1Head s).munge := by
    rw [chkAddr, hea, hs.ea]
  have hfits := (head_fits h hv hspeed hea true (p1Wdata cfg s i)).1
  have hdata := head_data h hm (Or.inr hq) hv hspeed hea hstore
  rw [hno, ← haddr] at hfits
  rw [hno] at hdata
  exact ⟨hc.store.symm.trans hstore, hfits, hdata⟩

end Requests

/-! ## The invariant over an edge -/

section Step

variable {core : Core} {cfg : Config} {ops : ℕ → Operation} {s : State} {p : Port} {i : Input}

/-- What the port takes of P1 carries its access. -/
theorem pushed_carries (h : MoveInv core cfg ops s p) (hm : Moving core cfg ops s p i)
    (hfire : p1Fire cfg s i = true) :
    (pushed cfg s i).Carries cfg (ops (pushed cfg s i).serial) := by
  have hsq := sqFire_of_p1Fire hfire
  obtain ⟨ho, -, hv, -⟩ := p1Fire_spec hfire
  have hc := h.p1 _ (p1Head_mem hv)
  have hdata := headData_eq h hm (Or.inl ho) hv
  rw [pushed, if_neg (by simp [hsq])]
  exact ⟨hc.decoded, hc.plain, hc.fp, hc.store, hc.munge, hc.wide, hc.split, hc.second, hc.size,
    hc.reverse, hc.signed, fun hfp hst _ => hdata hfp hst, fun _ => rfl⟩

theorem p2_carries_step (h : MoveInv core cfg ops s p) (hm : Moving core cfg ops s p i) :
    ∀ e ∈ (step cfg s i).p2, (e.write = true ∧ e.split = false) ∨
      e.Carries cfg (ops e.serial) := by
  intro e' he'
  rcases mem_p2_step hm.legal.running he' with ⟨e, hmem, rfl⟩ | ⟨hfire, rfl⟩
  · exact (h.p2 e hmem).imp (fun hw => hw) fun hc => carries_p2Next hc
  · rcases hfire with hp1 | hsq
    · exact Or.inr (carries_p2Next (pushed_carries h hm hp1))
    · left
      rw [pushed, if_pos hsq]
      exact ⟨rfl, rfl⟩

theorem aligned_step (h : MoveInv core cfg ops s p) (hm : Moving core cfg ops s p i) :
    ∀ e ∈ (step cfg s i).p2, e.write = false → (ops e.serial).Aligned := by
  intro e' he' hw
  rcases mem_p2_step hm.legal.running he' with ⟨e, hmem, rfl⟩ | ⟨hfire, rfl⟩
  · exact h.aligned e hmem hw
  · rcases hfire with hp1 | hsq
    · obtain ⟨ho, -⟩ := p1Fire_spec hp1
      have hfast := (offered_spec h.address hm.serves ho).2
      rw [(offer_parts ho).2.1] at hfast
      have hser : (pushed cfg s i).serial = (p1Head s).serial :=
        serial_of_fixed (pushed_of_fire (sqFire_of_p1Fire hp1)).1
      show (ops (pushed cfg s i).serial).Aligned
      rw [hser]
      exact Operation.aligned_of_fast hfast.symm
    · have hno : (pushed cfg s i).write = false := hw
      rw [(pushed_of_sqFire hsq).1] at hno
      cases hno

theorem sq_queued_step (h : MoveInv core cfg ops s p) (hm : Moving core cfg ops s p i) :
    ∀ c ∈ (step cfg s i).sq, Queued cfg (ops c.serial) c := by
  intro c' hc'
  rcases mem_sq_step hm.legal.running hc' with ⟨c, hc, rfl⟩ | ⟨hq, rfl⟩
  · have hold := h.sq c hc
    exact ⟨hold.store, hold.fits, hold.data⟩
  · have hnew := added_queued h hm hq
    exact ⟨hnew.store, hnew.fits, hnew.data⟩

theorem q_store_step (h : MoveInv core cfg ops s p) (hm : Moving core cfg ops s p i) :
    ∀ e, (step cfg s i).q = some e → (ops e.serial).store = true := by
  intro e he
  rw [(step_running hm.legal.running).2.2.2.1] at he
  split_ifs at he
  unfold qNext at he
  split_ifs at he with hqueue
  · obtain ⟨hv, hstore, -⟩ := p1Queue_spec hqueue
    rw [Option.some.injEq] at he
    subst he
    exact (h.p1 _ (p1Head_mem hv)).store.symm.trans hstore
  · obtain ⟨d, hd, rfl⟩ := Option.map_eq_some_iff.1 he
    exact h.q d hd

/-- Store data is ready once it is there or a wake in time brings it. -/
theorem takeData_dataReady (e : Entry) (h : e.dataReady = true ∨
    ∃ w, wakeOf i e.dataTag e.dataProducer = some w ∧ w.late = false) :
    (Entry.takeData i e).dataReady = true := by
  unfold Entry.takeData
  split_ifs with hlate hready
  · rfl
  · exact hready
  · obtain ⟨w, hw, hl⟩ := h.resolve_left hready
    rw [hw]
    simp [hl]

theorem takeBase_dataReady (e : Entry) : (Entry.takeBase cfg i e).dataReady = e.dataReady := by
  unfold Entry.takeBase
  split_ifs
  · rfl
  · split <;> rfl
  · rfl

/-- **An offer that stands has its store data.** -/
theorem stands_dataReady_step (h : MoveInv core cfg ops s p) (hm : Moving core cfg ops s p i) :
    (step cfg s i).offered = true → (p1Head (step cfg s i)).dataReady = true := by
  intro hoff
  rw [(step_running hm.legal.running).2.2.2.2.2.1, Bool.and_eq_true, Bool.not_eq_true'] at hoff
  obtain ⟨ho, hr⟩ := hoff
  rw [p1Head_of_stands h.order hm.legal.running ho hr, p1Next, takeBase_dataReady]
  refine takeData_dataReady _ ?_
  show (p1Head s).dataReady = true ∨
    ∃ w, wakeOf i (p1Head s).dataTag (p1Head s).dataProducer = some w ∧ w.late = false
  have hthere := head_dataReady h (Or.inl ho)
  rw [headDataReady, Bool.or_eq_true, Bool.or_eq_true] at hthere
  have hparts : ∀ {w : Wake}, headWake s w = true → w.valid = true ∧ w.late = false ∧
      w.tag = (p1Head s).dataTag ∧ w.producer = (p1Head s).dataProducer := by
    intro w hw
    simp only [headWake, Bool.and_eq_true, decide_eq_true_eq, Bool.not_eq_true'] at hw
    exact ⟨hw.1.1.1, hw.1.1.2, hw.1.2, hw.2⟩
  rcases hthere with (hready | hw) | hw
  · exact Or.inl hready
  · obtain ⟨hv, hl, ht, hp⟩ := hparts hw
    exact Or.inr ⟨i.wake, by simp [wakeOf, hv, ht, hp], hl⟩
  · -- the ports finish different entries
    obtain ⟨hv, hl, ht, hp⟩ := hparts hw
    have hno : ¬ (i.wake.valid = true ∧ i.wake.producer = (p1Head s).dataProducer) := by
      rintro ⟨hv0, hp0⟩
      exact hm.legal.wakes hv0 hv (hp0.trans hp.symm)
    refine Or.inr ⟨i.wake1, ?_, hl⟩
    rw [wakeOf, if_neg, if_pos]
    · simp [hv, ht, hp]
    · simp only [Bool.and_eq_true, decide_eq_true_eq]
      exact fun hc => hno ⟨hc.1.1, hc.2⟩

/-- **The beats of one access stay together.** -/
theorem twins_step (h : MoveInv core cfg ops s p) (hm : Moving core cfg ops s p i) :
    ∀ d ∈ line (step cfg s i), ∀ e ∈ line (step cfg s i), d.serial = e.serial →
      d.killed = e.killed ∧ d.producer = e.producer := by
  intro d' hd' e' he' hser
  obtain ⟨d, hd, hdfixed, hdk⟩ := mem_line_step hm.legal.running hd'
  obtain ⟨e, he, hefixed, hek⟩ := mem_line_step hm.legal.running he'
  have hser' : d.serial = e.serial := by
    rw [← serial_of_fixed hdfixed, ← serial_of_fixed hefixed, hser]
  have hsame : d.killed = e.killed ∧ d.producer = e.producer := by
    rcases hd with hd | hd
    · rcases he with he | he
      · exact h.twins d hd e he hser'
      · have hlt := h.order.bound d hd
        rw [hser', (dispatched_spec he).2.1] at hlt
        exact absurd hlt (lt_irrefl _)
    · obtain ⟨hdk0, hds, hdp, -⟩ := dispatched_spec hd
      rcases he with he | he
      · have hlt := h.order.bound e he
        rw [← hser', hds] at hlt
        exact absurd hlt (lt_irrefl _)
      · obtain ⟨hek0, -, hep, -⟩ := dispatched_spec he
        exact ⟨hdk0.trans hek0.symm, hdp.trans hep.symm⟩
  rw [hdk, hek, nextKilled, nextKilled, producer_of_fixed hdfixed, producer_of_fixed hefixed,
    hsame.1, hsame.2]
  exact ⟨rfl, rfl⟩

/-- A read that the port does not make now is as it was. -/
theorem read_update_other {k : ℕ} {b : Bool} (h : reads cfg s i = true → (k, b) ≠ asked cfg s i) :
    (p.update cfg s i).read k b = p.read k b := by
  unfold Port.update
  dsimp only
  split_ifs with hr
  · exact if_neg (h hr)
  · rfl

theorem reads_of_p1Fire (hfire : p1Fire cfg s i = true) (hstore : (p1Head s).store = false) :
    reads cfg s i = true ∧ asked cfg s i = ((p1Head s).serial, (p1Head s).second) := by
  obtain ⟨ho, hr, -, -⟩ := p1Fire_spec hfire
  have hsq := (offer_parts ho).2.2.2
  simp [reads, reqValid, request, asked, ho, hr, hsq, hstore]

/-- A request that reads is the head's. -/
theorem p1Fire_of_reads (h : reads cfg s i = true) : p1Fire cfg s i = true ∧
    (p1Head s).store = false ∧ asked cfg s i = ((p1Head s).serial, (p1Head s).second) := by
  simp only [reads, reqValid, request, Bool.and_eq_true, Bool.or_eq_true, Bool.not_eq_true',
    Bool.or_eq_false_iff] at h
  obtain ⟨⟨hv, hr⟩, hsq, hst⟩ := h
  have ho := hv.resolve_right (by rw [hsq]; exact Bool.false_ne_true)
  exact ⟨by rw [p1Fire, ho, hr]; rfl, hst, by simp [asked, hsq]⟩

/-- **A load in P2 has read the memory.** -/
theorem read_step (h : MoveInv core cfg ops s p) (hm : Moving core cfg ops s p i) :
    ∀ e ∈ (step cfg s i).p2, e.write = false → e.store = false →
      ∃ v, (p.update cfg s i).read e.serial e.second = some v := by
  intro e' he' hw hst
  have hkept : ∀ {k : ℕ} {b : Bool}, (∃ v, p.read k b = some v) →
      ∃ v, (p.update cfg s i).read k b = some v := by
    rintro k b ⟨v, hv⟩
    unfold Port.update
    dsimp only
    split_ifs
    · dsimp only
      split_ifs
      · exact ⟨_, rfl⟩
      · exact ⟨v, hv⟩
    · exact ⟨v, hv⟩
  rcases mem_p2_step hm.legal.running he' with ⟨e, hmem, rfl⟩ | ⟨hfire, rfl⟩
  · exact hkept (h.read e hmem hw hst)
  · rcases hfire with hp1 | hsq
    · obtain ⟨hfixed, -⟩ := pushed_of_fire (sqFire_of_p1Fire hp1)
      have hst' : (p1Head s).store = false := (store_of_fixed hfixed).symm.trans hst
      obtain ⟨hr, hasked⟩ := reads_of_p1Fire hp1 hst'
      have hkey : ((p2Next cfg s i (pushed cfg s i)).serial,
          (p2Next cfg s i (pushed cfg s i)).second) = asked cfg s i := by
        rw [hasked]
        exact Prod.ext (serial_of_fixed hfixed) (second_of_fixed hfixed)
      unfold Port.update
      dsimp only
      rw [if_pos hr]
      exact ⟨_, if_pos hkey⟩
    · have hno : (pushed cfg s i).write = false := hw
      rw [(pushed_of_sqFire hsq).1] at hno
      cases hno

theorem beat0_step (hrun : i.rstN = true) : (step cfg s i).beat0 =
    if p2Retire cfg s i && (p2Head s).split && !(p2Head s).second then
      i.rspRdata.extractLsb' 0 32
    else s.beat0 := by
  rw [step, hrun]
  rfl

/-- The head of P2 is the head of the line. -/
theorem line_of_p2Head (hv : p2Valid s = true) (hw : (p2Head s).write = false) :
    line s = p2Head s :: ((s.p2.tail.filter fun e => !e.write) ++ s.p1) := by
  rw [line]
  conv_lhs => rw [p2_eq hv]
  rw [List.filter_cons_of_pos (by rw [hw]; rfl)]
  rfl

theorem p2Head_le (hI : OrderInv s) (hv : p2Valid s = true) (hw : (p2Head s).write = false)
    {d : Entry} (hd : d ∈ line s) : (p2Head s).serial ≤ d.serial := by
  have horder := hI.line
  rw [line_of_p2Head hv hw, List.map_cons, List.pairwise_cons] at horder
  rw [line_of_p2Head hv hw] at hd
  rcases List.mem_cons.1 hd with rfl | hd
  · exact le_rfl
  · rcases horder.1 _ (List.mem_map_of_mem hd) with hlt | ⟨heq, -⟩
    · exact le_of_lt hlt
    · exact le_of_eq heq

/-- Every access of the line carries its access. -/
theorem line_carries (h : MoveInv core cfg ops s p) {e : Entry} (he : e ∈ line s) :
    e.Carries cfg (ops e.serial) := by
  rcases mem_line.1 he with ⟨hp2, hw⟩ | hp1
  · exact (h.p2 e hp2).resolve_left fun hno => by rw [hw] at hno; exact absurd hno.1 (by decide)
  · exact h.p1 e hp1

/-- Nothing in the line after an edge is older than an access that nothing was older than. -/
theorem oldest_step (hrun : i.rstN = true) {k : ℕ} (hk : k < s.serials)
    (h : ∀ d ∈ line s, k ≤ d.serial) : ∀ d ∈ line (step cfg s i), k ≤ d.serial := by
  intro d' hd'
  obtain ⟨d, hd, hfixed, -⟩ := mem_line_step hrun hd'
  rw [serial_of_fixed hfixed]
  rcases hd with hd | hd
  · exact h d hd
  · rw [(dispatched_spec hd).2.1]
    exact le_of_lt hk

/-- **The first beat of a load leaves its word as it is answered.** -/
theorem first_leaves (h : MoveInv core cfg ops s p) (hm : Moving core cfg ops s p i) {d e : Entry}
    (hd : d ∈ line s) (he : e ∈ line s) (hser : d.serial = e.serial) (hfirst : d.second = false)
    (hsplit : d.split = true) (hst : d.store = false)
    (hlive : nextKilled cfg s i e = false)
    (hgone : ∀ d' ∈ line (step cfg s i), d'.serial = e.serial → d'.second = true) :
    p2Retire cfg s i = true ∧ d = p2Head s ∧ d.write = false ∧
      ∃ v, p.read d.serial false = some v ∧ i.rspRdata = v := by
  rw [nextKilled, Bool.or_eq_false_iff, Bool.or_eq_false_iff] at hlive
  obtain ⟨⟨hek, hdoom⟩, hnow⟩ := hlive
  obtain ⟨hdk, hprod⟩ := h.twins d hd e he hser
  rw [hek] at hdk
  have hc := line_carries h hd
  have hfp : d.fp = true := by
    rw [hc.split, Operation.split, Bool.and_eq_true, Bool.and_eq_true] at hsplit
    exact hc.fp.trans hsplit.1.1
  rcases line_stays h.order hm.legal.running hd with ⟨d', hd', hfixed, -⟩ | ⟨hleaves, hhead, hin⟩ |
    ⟨hpop, hfire, hhead, hin⟩
  · have hno := hgone d' hd' ((serial_of_fixed hfixed).trans hser)
    rw [second_of_fixed hfixed, hfirst] at hno
    cases hno
  · subst hhead
    have hretire : p2Retire cfg s i = true := by
      rw [p2Leaves, Bool.or_eq_true, Bool.and_eq_true] at hleaves
      rcases hleaves with hr | ⟨-, ha⟩
      · exact hr
      · rw [(p2Adopt_spec ha).2.1] at hfp
        cases hfp
    have hlive : p2Live s i = true := by
      rw [p2Live, hdk, hprod, hnow]
      rfl
    have hok : rspOk i = true := by
      by_contra hno
      rw [Bool.not_eq_true] at hno
      have hfault : fpFault cfg s i = true := by
        rw [fpFault, hretire, hfp, hno, hlive]
        rfl
      simp [doom, hfault] at hdoom
    obtain ⟨v, hv⟩ := h.read _ hin hc.plain hst
    refine ⟨hretire, rfl, hc.plain, v, ?_, hm.answered hretire hc.plain hst hok v hv⟩
    rw [← hfirst]
    exact hv
  · subst hhead
    exfalso
    rcases p1Pop_spec hpop hfire with hq | hdrop | hpunt | ⟨-, hadopt, -⟩
    · rw [(p1Queue_spec hq).2.2.2.1] at hsplit
      cases hsplit
    · rw [p1Drop, hdk, Bool.and_false, Bool.false_and] at hdrop
      cases hdrop
    · simp [doom, hpunt] at hdoom
    · rw [p1Adopt, hfp] at hadopt
      simp at hadopt

/-- **The word kept for the second beat of a load.** -/
theorem first_step (h : MoveInv core cfg ops s p) (hm : Moving core cfg ops s p i) :
    FirstKept ops (step cfg s i) (p.update cfg s i) := by
  intro e' he' hsec' hk' hst' hgone'
  have hrun := hm.legal.running
  obtain ⟨e, hmem, hfixed, hk⟩ := mem_line_step hrun he'
  rw [second_of_fixed hfixed] at hsec'
  rw [serial_of_fixed hfixed] at hst' hgone' ⊢
  rcases hmem with he | hnew
  · have hc := line_carries h he
    have hbound := h.order.bound e he
    rw [hk] at hk'
    have hek : e.killed = false := by
      rw [nextKilled, Bool.or_eq_false_iff, Bool.or_eq_false_iff] at hk'
      exact hk'.1.1
    -- the port does not read a first beat that has gone
    have hread : (∀ d ∈ s.p1, d.serial = e.serial → d.second = true) →
        (p.update cfg s i).read e.serial false = p.read e.serial false := by
      intro hno
      refine read_update_other fun hr heq => ?_
      obtain ⟨hfire, -, hasked⟩ := p1Fire_of_reads hr
      rw [hasked, Prod.mk.injEq] at heq
      have := hno _ (p1Head_mem (p1Fire_spec hfire).2.2.1) heq.1.symm
      rw [← heq.2] at this
      cases this
    by_cases hfirst : ∃ d ∈ line s, d.serial = e.serial ∧ d.second = false
    · obtain ⟨d, hd, hser, hdsec⟩ := hfirst
      have hdc := line_carries h hd
      have hsplit : d.split = true := by rw [hdc.split, hser, hc.second hsec']
      have hdst : d.store = false := by rw [hdc.store, hser, hst']
      obtain ⟨hretire, hhead, hdw, v, hv, hword⟩ :=
        first_leaves h hm hd he hser hdsec hsplit hdst hk' hgone'
      have hvalid := (p2Retire_spec hretire).1
      have hbehind : ∀ x ∈ s.p1, x.serial = e.serial → x.second = true := by
        intro x hx hxser
        rw [hhead] at hdw hser
        have hlast := not_first_behind h.beats (line_of_p2Head hvalid hdw)
          (List.mem_append_right _ hx) (hser.trans hxser.symm)
        have hxc := h.p1 x hx
        rw [lastBeat, hxc.split, hxser, hc.second hsec', Bool.not_true, Bool.false_or] at hlast
        exact hlast
      refine ⟨⟨v, ?_, ?_⟩, oldest_step hrun hbound ?_⟩
      · rw [hread hbehind, ← hser, hv]
      · rw [beat0_step hrun, hretire, ← hhead, hsplit, hdsec, hword]
        rfl
      · intro x hx
        rw [hhead] at hdw hser
        rw [← hser]
        exact p2Head_le h.order hvalid hdw hx
    · push Not at hfirst
      have hall : ∀ d ∈ line s, d.serial = e.serial → d.second = true :=
        fun d hd hser => by simpa using hfirst d hd hser
      obtain ⟨⟨v, hv, hbeat⟩, hold⟩ := h.first e he hsec' hek hst' hall
      refine ⟨⟨v, ?_, ?_⟩, oldest_step hrun hbound hold⟩
      · rw [hread fun x hx => hall x (mem_line.2 (Or.inr hx)), hv]
      · rw [beat0_step hrun, if_neg, hbeat]
        intro hover
        simp only [Bool.and_eq_true, Bool.not_eq_true'] at hover
        obtain ⟨⟨hretire, hsplit⟩, hsec⟩ := hover
        have hvalid := (p2Retire_spec hretire).1
        have hin := p2Head_mem hvalid
        have hw : (p2Head s).write = false := by
          rcases h.p2 _ hin with ⟨-, hno⟩ | hpc
          · rw [hsplit] at hno
            cases hno
          · exact hpc.plain
        have hline := mem_line.2 (Or.inl ⟨hin, hw⟩)
        have hsame := le_antisymm (p2Head_le h.order hvalid hw he) (hold _ hline)
        rw [hall _ hline hsame] at hsec
        cases hsec
  · -- both beats come in together
    exfalso
    have hin : p1Next cfg s i (incoming cfg s i) ∈ line (step cfg s i) := by
      refine mem_line.2 (Or.inr ?_)
      rw [(step_running hrun).1]
      refine List.mem_map_of_mem (List.mem_append_right _ ?_)
      rw [dispatched, if_pos (dispatched_spec hnew).2.2.2]
      exact List.mem_cons_self
    have hno := hgone' _ hin (by
      rw [serial_of_fixed (p1Next_fixed _), (dispatched_spec hnew).2.1]
      rfl)
    rw [second_of_fixed (p1Next_fixed _)] at hno
    cases hno

theorem moveInv_step (h : MoveInv core cfg ops s p) (hm : Moving core cfg ops s p i) :
    MoveInv core cfg ops (step cfg s i) (p.update cfg s i) where
  address := addressInv_step h.address hm.serves
  order := orderInv_step h.order hm.legal
  beats := beatInv_step h.order h.beats hm.legal.running
  p1 := p1_carries_step h hm
  p2 := p2_carries_step h hm
  aligned := aligned_step h hm
  sq := sq_queued_step h hm
  q := q_store_step h hm
  stands := stands_dataReady_step h hm
  twins := twins_step h hm
  read := read_step h hm
  first := first_step h hm

/-- The port before the first edge. -/
def Port.start (m : Memory) : Port := ⟨m, fun _ _ => none⟩

theorem moveInv_run {m : Memory} {r : Run (machine cfg)} {n : ℕ}
    (h : r.ObeysRecord (Port.start m) (Port.update cfg) (Moving core cfg ops) n) :
    MoveInv core cfg ops (r.state n) (r.history (Port.start m) (Port.update cfg) n) := by
  refine Run.invariant_record (A := Moving core cfg ops) (I := MoveInv core cfg ops) ?_
    (fun s p i hI hA => moveInv_step hI hA) h
  rintro s rfl
  have haddr : AddressInv core cfg (fun k => (ops k).toAccess) resetState :=
    ⟨by simp [resetState], by simp [resetState], by simp [resetState], by simp [resetState],
      by simp [resetState], by simp [resetState]⟩
  refine ⟨haddr, orderInv_reset, beatInv_reset, by simp [resetState], by simp [resetState],
    by simp [resetState], by simp [resetState], by simp [resetState], by simp [resetState], ?_, by simp [resetState], ?_⟩
  · simp [line, resetState]
  · intro e he
    simp [line, resetState] at he

end Step

/-! ## What a response brings -/

section Response

variable {core : Core} {cfg : Config} {ops : ℕ → Operation} {s : State} {p : Port} {i : Input}

/-- What the beats of an access have read. -/
def Port.words (p : Port) (k : ℕ) (b : Bool) : BitVec 64 := (p.read k b).getD 0

/-- A good response to the last beat of a load: every beat has read the memory. -/
structure Answered (cfg : Config) (ops : ℕ → Operation) (s : State) (p : Port) (i : Input) :
    Prop where
  now : i.rspRdata = p.words (p2Head s).serial (p2Head s).second
  before : (ops (p2Head s).serial).split cfg = true →
    s.beat0 = (p.words (p2Head s).serial false).extractLsb' 0 32
  all : ∀ k < (ops (p2Head s).serial).bytes,
    ∃ v, p.read (p2Head s).serial ((ops (p2Head s).serial).beatOf cfg k) = some v

theorem answered_of_retire (h : MoveInv core cfg ops s p) (hm : Moving core cfg ops s p i)
    (hretire : p2Retire cfg s i = true) (hw : (p2Head s).write = false)
    (hst : (p2Head s).store = false) (hok : rspOk i = true) (hlive : (p2Head s).killed = false)
    (hlast : lastBeat (p2Head s) = true) : Answered cfg ops s p i := by
  have hvalid := (p2Retire_spec hretire).1
  have hin := p2Head_mem hvalid
  have hline := mem_line.2 (Or.inl ⟨hin, hw⟩)
  have hc := line_carries h hline
  obtain ⟨v, hv⟩ := h.read _ hin hw hst
  have hnow := hm.answered hretire hw hst hok v hv
  cases hs : (ops (p2Head s).serial).split cfg with
  | false =>
    have hsec : (p2Head s).second = false := by
      by_contra hsec
      rw [hc.second (by simpa using hsec)] at hs
      cases hs
    rw [hsec] at hv
    refine ⟨by rw [hsec, Port.words, hv, hnow]; rfl, fun hno => ?_, fun k _ => ⟨v, ?_⟩⟩
    · rw [hs] at hno
      cases hno
    · rw [Operation.beatOf, hs]
      exact hv
  | true =>
    rw [lastBeat, hc.split, hs, Bool.not_true, Bool.false_or] at hlast
    have hall : ∀ d ∈ line s, d.serial = (p2Head s).serial → d.second = true := by
      intro d hd hser
      rw [line_of_p2Head hvalid hw] at hd
      rcases List.mem_cons.1 hd with rfl | hd
      · exact hlast
      · have hl := not_first_behind h.beats (line_of_p2Head hvalid hw) hd hser.symm
        have hdc := line_carries h (by rw [line_of_p2Head hvalid hw]; exact List.mem_cons_of_mem _ hd)
        rw [lastBeat, hdc.split, hser, hs, Bool.not_true, Bool.false_or] at hl
        exact hl
    obtain ⟨⟨v₀, hv₀, hbeat⟩, -⟩ :=
      h.first _ hline hlast hlive (hc.store.symm.trans hst) hall
    refine ⟨by rw [Port.words, hv, hnow]; rfl, fun _ => ?_, fun k _ => ?_⟩
    · rw [hbeat, Port.words, hv₀]
      rfl
    · rw [Operation.beatOf, hs, Bool.true_and]
      cases decide (k < 4) with
      | true =>
        rw [hlast] at hv
        exact ⟨v, hv⟩
      | false => exact ⟨v₀, hv₀⟩

/-- **An integer load's result.** -/
theorem result_of_load (h : MoveInv core cfg ops s p) (hm : Moving core cfg ops s p i)
    {y : Result} (hy : (step cfg s i).r = some y) (hst : (ops y.serial).store = false) :
    (∀ k < (ops y.serial).bytes,
        ∃ v, p.read y.serial ((ops y.serial).beatOf cfg k) = some v) ∧
      y.value = ((ops y.serial).extended ((ops y.serial).received cfg (p.words y.serial))).setWidth
        32 := by
  have hr : (step cfg s i).r = rNext cfg s i := by
    rw [step, hm.legal.running]
    rfl
  rw [hr] at hy
  unfold rNext at hy
  split_ifs at hy with hresult
  · simp only [p2Result, p2Live, Bool.and_eq_true, Bool.not_eq_true', Bool.or_eq_true] at hresult
    obtain ⟨⟨⟨⟨hretire, hw⟩, hk, -⟩, hok⟩, hfp⟩ := hresult
    rw [Option.some.injEq] at hy
    subst hy
    have hin := p2Head_mem (p2Retire_spec hretire).1
    have hc := line_carries h (mem_line.2 (Or.inl ⟨hin, hw⟩))
    have hok' : rspOk i = true := hok.resolve_right (by rw [hfp]; exact Bool.false_ne_true)
    have hsplit : (p2Head s).split = false := by
      rw [hc.split, Operation.split, ← hc.fp, hfp]
      rfl
    have hlast : lastBeat (p2Head s) = true := by rw [lastBeat, hsplit]; rfl
    have ha := answered_of_retire h hm hretire hw (hc.store.trans hst) hok' hk hlast
    have hea := (p2Head_settled h.address (p2Retire_spec hretire).1 (Or.inl hw)).ea_of_int hfp
    refine ⟨ha.all, ?_⟩
    show loadValue s i = _
    rw [loadValue_eq hc (h.aligned _ hin hw) (hc.fp.symm.trans hfp) hea]
    have hone : ∀ k, (ops (p2Head s).serial).received cfg (fun _ => i.rspRdata) k =
        (ops (p2Head s).serial).received cfg (p.words (p2Head s).serial) k := by
      intro k
      have hbeat : (ops (p2Head s).serial).beatOf cfg k = (p2Head s).second := by
        have hsec : (p2Head s).second = false := by
          by_contra hsec
          have hno := hc.second (by simpa using hsec)
          rw [← hc.split, hsplit] at hno
          cases hno
        rw [Operation.beatOf, ← hc.split, hsplit, hsec]
        rfl
      rw [Operation.received, Operation.received, hbeat, ha.now]
    rw [funext hone]
  · obtain ⟨d, hd, rfl⟩ := Option.map_eq_some_iff.1 hy
    have hno := h.q d (Option.mem_filter_iff.1 hd).1
    have hst' : (ops d.serial).store = false := hst
    rw [hno] at hst'
    cases hst'

theorem rFpNext_eq (cfg : Config) (s : State) (i : Input) : rFpNext cfg s i =
    if p1Punt s i then some ⟨(p1Head s).serial, (p1Head s).producer, true, 0⟩
    else if fpFault cfg s i || (p2Result cfg s i && (p2Head s).fp && lastBeat (p2Head s)) then
      some ⟨(p2Head s).serial, (p2Head s).producer, !rspOk i, fpData s i⟩
    else if qGo cfg s i then
      (s.q.filter fun e => e.fp && lastBeat e).map fun e => ⟨e.serial, e.producer, false, 0⟩
    else none := rfl

/-- **An FP load's answer.** -/
theorem answer_of_load (h : MoveInv core cfg ops s p) (hm : Moving core cfg ops s p i)
    {y : FpAnswer} (hy : (step cfg s i).rFp = some y) (hgood : y.fault = false)
    (hst : (ops y.serial).store = false) :
    (∀ k < (ops y.serial).bytes,
        ∃ v, p.read y.serial ((ops y.serial).beatOf cfg k) = some v) ∧
      y.data = (ops y.serial).extended ((ops y.serial).received cfg (p.words y.serial)) := by
  have hr : (step cfg s i).rFp = rFpNext cfg s i := by
    rw [step, hm.legal.running]
    rfl
  rw [hr, rFpNext_eq] at hy
  split_ifs at hy with hpunt hresult
  · rw [Option.some.injEq] at hy
    rw [← hy] at hgood
    exact absurd hgood.symm Bool.false_ne_true
  · rw [Option.some.injEq] at hy
    subst hy
    have hok : rspOk i = true := by simpa using hgood
    have hparts : p2Retire cfg s i = true ∧ (p2Head s).write = false ∧
        (p2Head s).killed = false ∧ (p2Head s).fp = true ∧ lastBeat (p2Head s) = true := by
      rw [Bool.or_eq_true] at hresult
      rcases hresult with hf | hf
      · rw [fpFault, hok] at hf
        simp at hf
      · simp only [p2Result, p2Live, Bool.and_eq_true, Bool.not_eq_true'] at hf
        tauto
    obtain ⟨hretire, hw, hk, hfp, hlast⟩ := hparts
    have hin := p2Head_mem (p2Retire_spec hretire).1
    have hc := line_carries h (mem_line.2 (Or.inl ⟨hin, hw⟩))
    have ha := answered_of_retire h hm hretire hw (hc.store.trans hst) hok hk hlast
    exact ⟨ha.all, fpData_eq hc (hc.fp.symm.trans hfp) hlast ha.now ha.before⟩
  · obtain ⟨d, hd, rfl⟩ := Option.map_eq_some_iff.1 hy
    have hno := h.q d (Option.mem_filter_iff.1 hd).1
    have hst' : (ops d.serial).store = false := hst
    rw [hno] at hst'
    cases hst'

end Response

/-! ## Over a run -/

section Runs

variable (cfg : Config) (ops : ℕ → Operation) (m : Memory) (r : Run (machine cfg))

/-- The port after `n` edges. -/
def port (n : ℕ) : Port := r.history (Port.start m) (Port.update cfg) n

/-- In cycle `c` the port takes the read of beat `b` of access `k`. -/
def ReadAt (k : ℕ) (b : Bool) (c : ℕ) : Prop :=
  reads cfg (r.state c) (r.input c) = true ∧ asked cfg (r.state c) (r.input c) = (k, b)

/-- In cycle `c` the port takes the write of beat `b` of access `k`. -/
def WriteAt (k : ℕ) (b : Bool) (c : ℕ) : Prop :=
  writes cfg (r.state c) (r.input c) = true ∧ asked cfg (r.state c) (r.input c) = (k, b)

/-- In cycle `c` the port takes a write that strobes the byte at `a`. -/
def StrobedAt (a : BitVec 32) (c : ℕ) : Prop :=
  writes cfg (r.state c) (r.input c) = true ∧
    ∃ l, (request cfg (r.state c) (r.input c)).strobed l = true ∧
      (request cfg (r.state c) (r.input c)).laneAddr l = a

/-- The port has taken byte `j` of access `k`, and until cycle `c` no other write strobes it. -/
def StoredAt (k j c : ℕ) : Prop :=
  ∃ a < c, ∃ b, WriteAt cfg r k b a ∧ j ∈ (ops k).beatBytes cfg b ∧
    ∀ l, a < l → l < c → ¬ StrobedAt cfg r ((ops k).place j) l

/-- The bytes the accesses move by the end of cycle `n`. -/
structure Moved (n : ℕ) : Prop where
  /-- A write writes the bytes of its beat, each where the architecture has it, and strobes
  no other. -/
  written : ∀ k b, WriteAt cfg r k b n →
    (port cfg m r (n + 1)).memory = writeBytes ((ops k).beatBytes cfg b) (ops k).place
        (fun j => byte j (ops k).value) (port cfg m r n).memory ∧
      ∀ a, StrobedAt cfg r a n ↔ ∃ j ∈ (ops k).beatBytes cfg b, (ops k).place j = a
  /-- A load returns the bytes there were as the port took its beats. -/
  loaded : ∀ y, (r.state (n + 1)).r = some y → (ops y.serial).store = false →
    ∃ c : ℕ → ℕ, (∀ j < (ops y.serial).bytes, c j < n ∧
        ReadAt cfg r y.serial ((ops y.serial).beatOf cfg j) (c j)) ∧
      y.value = ((ops y.serial).extended fun j =>
        (port cfg m r (c j)).memory ((ops y.serial).place j)).setWidth 32
  fpLoaded : ∀ y, (r.state (n + 1)).rFp = some y → y.fault = false →
    (ops y.serial).store = false →
    ∃ c : ℕ → ℕ, (∀ j < (ops y.serial).bytes, c j < n ∧
        ReadAt cfg r y.serial ((ops y.serial).beatOf cfg j) (c j)) ∧
      y.data = (ops y.serial).extended fun j =>
        (port cfg m r (c j)).memory ((ops y.serial).place j)
  /-- A load of what a store of its kind has stored returns the register stored. -/
  roundTrip : ∀ y k, (r.state (n + 1)).r = some y → (ops y.serial).store = false →
    (ops k).SameKind (ops y.serial) →
    (∀ j < (ops y.serial).bytes, ∀ c < n,
      ReadAt cfg r y.serial ((ops y.serial).beatOf cfg j) c → StoredAt cfg ops r k j c) →
    y.value = ((ops y.serial).returned (ops k).value).setWidth 32
  fpRoundTrip : ∀ y k, (r.state (n + 1)).rFp = some y → y.fault = false →
    (ops y.serial).store = false → (ops k).SameKind (ops y.serial) →
    (∀ j < (ops y.serial).bytes, ∀ c < n,
      ReadAt cfg r y.serial ((ops y.serial).beatOf cfg j) c → StoredAt cfg ops r k j c) →
    y.data = (ops y.serial).returned (ops k).value

variable {cfg ops m r}

/-- A word read is one the port has read. -/
theorem readAt_of_read {n k : ℕ} {b : Bool} {v : BitVec 64}
    (h : (port cfg m r n).read k b = some v) : ∃ c < n, ReadAt cfg r k b c ∧
      v = (request cfg (r.state c) (r.input c)).read (port cfg m r c).memory := by
  induction n with
  | zero => cases h
  | succ n ih =>
    have hupd : port cfg m r (n + 1) = (port cfg m r n).update cfg (r.state n) (r.input n) := rfl
    rw [hupd, Port.update] at h
    by_cases hnow : reads cfg (r.state n) (r.input n) = true ∧
        (k, b) = asked cfg (r.state n) (r.input n)
    · simp only [hnow.1, if_true, if_pos hnow.2, Option.some.injEq] at h
      exact ⟨n, Nat.lt_succ_self n, ⟨hnow.1, hnow.2.symm⟩, h.symm⟩
    · have hold : (port cfg m r n).read k b = some v := by
        cases hr : reads cfg (r.state n) (r.input n) with
        | false => simpa [hr] using h
        | true =>
          have hne : (k, b) ≠ asked cfg (r.state n) (r.input n) := fun heq => hnow ⟨hr, heq⟩
          simpa [hr, hne] using h
      obtain ⟨c, hc, hat⟩ := ih hold
      exact ⟨c, Nat.lt_succ_of_lt hc, hat⟩

variable {core : Core} {n : ℕ}

/-- **A write over a run.** -/
theorem written_of_run
    (h : r.ObeysRecord (Port.start m) (Port.update cfg) (Moving core cfg ops) (n + 1)) {k : ℕ}
    {b : Bool} (hw : WriteAt cfg r k b n) :
    (port cfg m r (n + 1)).memory = writeBytes ((ops k).beatBytes cfg b) (ops k).place
        (fun j => byte j (ops k).value) (port cfg m r n).memory ∧
      ∀ a, StrobedAt cfg r a n ↔ ∃ j ∈ (ops k).beatBytes cfg b, (ops k).place j = a := by
  obtain ⟨hwrites, hasked⟩ := hw
  have hI := moveInv_run (h.mono (Nat.le_succ n))
  have hwr := hwrites
  simp only [writes, Bool.and_eq_true] at hwr
  obtain ⟨hstore, hfits, hdata⟩ := request_spec hI (h n (Nat.lt_succ_self n)) hwr.1.1
  rw [hasked] at hstore hfits hdata
  have hmem : (port cfg m r (n + 1)).memory =
      (request cfg (r.state n) (r.input n)).apply (port cfg m r n).memory := by
    show (Port.update cfg (port cfg m r n) (r.state n) (r.input n)).memory = _
    rw [Port.update]
    dsimp only
    rw [if_pos hwrites]
  refine ⟨?_, fun a => ?_⟩
  · rw [hmem, Request.apply_of_fits hfits (Operation.place_injOn_beat _ _)
      (hdata (hstore.symm.trans hwr.2))]
  · rw [← Request.strobed_of_fits hfits a]
    exact ⟨fun hs => hs.2, fun hs => ⟨hwrites, hs⟩⟩

/-- **A byte stays until a write strobes it.** -/
theorem memory_of_stored {k j c : ℕ}
    (h : r.ObeysRecord (Port.start m) (Port.update cfg) (Moving core cfg ops) c)
    (hs : StoredAt cfg ops r k j c) :
    (port cfg m r c).memory ((ops k).place j) = byte j (ops k).value := by
  obtain ⟨a, hac, b, hw, hj, hquiet⟩ := hs
  induction c, hac using Nat.le_induction with
  | base =>
    rw [(written_of_run h hw).1]
    exact Words.writeBytes_place (Operation.place_injOn_beat _ _) hj
  | succ c hac ih =>
    have hbefore := ih (h.mono (Nat.le_succ c)) fun l hl hlc => hquiet l hl (Nat.lt_succ_of_lt hlc)
    have hno := hquiet c hac (Nat.lt_succ_self c)
    rw [← hbefore]
    show (Port.update cfg (port cfg m r c) (r.state c) (r.input c)).memory _ = _
    rw [Port.update]
    dsimp only
    split_ifs with hwr
    · rw [Request.apply_eq]
      exact Words.writeBytes_other fun l hl heq => hno ⟨hwr, l, hl, heq⟩
    · rfl

/-- **What a load has read is what memory held.** -/
theorem received_of_run
    (h : r.ObeysRecord (Port.start m) (Port.update cfg) (Moving core cfg ops) n) {q : ℕ}
    (hread : ∀ j < (ops q).bytes, ∃ v, (port cfg m r n).read q ((ops q).beatOf cfg j) = some v) :
    ∃ c : ℕ → ℕ, ∀ j < (ops q).bytes, c j < n ∧ ReadAt cfg r q ((ops q).beatOf cfg j) (c j) ∧
      (ops q).received cfg ((port cfg m r n).words q) j =
        (port cfg m r (c j)).memory ((ops q).place j) := by
  have hone : ∀ j, ∃ c, j < (ops q).bytes → c < n ∧ ReadAt cfg r q ((ops q).beatOf cfg j) c ∧
      (ops q).received cfg ((port cfg m r n).words q) j =
        (port cfg m r c).memory ((ops q).place j) := by
    intro j
    by_cases hj : j < (ops q).bytes
    · obtain ⟨v, hv⟩ := hread j hj
      obtain ⟨c, hc, hat, hval⟩ := readAt_of_read hv
      refine ⟨c, fun _ => ⟨hc, hat, ?_⟩⟩
      have hI := moveInv_run (h.mono (le_of_lt hc))
      have hr := hat.1
      simp only [reads, Bool.and_eq_true] at hr
      have hfits := (request_spec hI (h c hc) hr.1.1).2.1
      rw [hat.2] at hfits
      rw [Operation.received, Port.words, hv, Option.getD_some, hval]
      exact Request.read_of_fits hfits _ (Operation.mem_beatOf cfg _ hj)
    · exact ⟨0, fun hlt => absurd hlt hj⟩
  choose c hc using hone
  exact ⟨c, hc⟩

/-- A load of what a store of its kind has stored. -/
theorem extended_of_stored
    (h : r.ObeysRecord (Port.start m) (Port.update cfg) (Moving core cfg ops) n) {k q : ℕ}
    (hkind : (ops k).SameKind (ops q)) {c : ℕ → ℕ}
    (hc : ∀ j < (ops q).bytes, c j < n ∧ ReadAt cfg r q ((ops q).beatOf cfg j) (c j))
    (hstored : ∀ j < (ops q).bytes, ∀ c < n,
      ReadAt cfg r q ((ops q).beatOf cfg j) c → StoredAt cfg ops r k j c) :
    ((ops q).extended fun j => (port cfg m r (c j)).memory ((ops q).place j)) =
      (ops q).returned (ops k).value := by
  rw [← Operation.extended_value]
  refine Operation.extended_congr fun j hj => ?_
  obtain ⟨hlt, hat⟩ := hc j hj
  rw [← hkind.place]
  exact memory_of_stored (h.mono (le_of_lt hlt)) (hstored j hj _ hlt hat)

/-- **Bytes go where the architecture has them and come back as they went.** -/
theorem bytes_move (core : Core) (cfg : Config) (ops : ℕ → Operation) (m : Memory)
    (r : Run (machine cfg)) (n : ℕ)
    (h : r.ObeysRecord (Port.start m) (Port.update cfg) (Moving core cfg ops) (n + 1)) :
    Moved cfg ops m r n := by
  have hbefore := h.mono (Nat.le_succ n)
  have hI : MoveInv core cfg ops (r.state n) (port cfg m r n) := moveInv_run hbefore
  have hm := h n (Nat.lt_succ_self n)
  have hloaded : ∀ y, (r.state (n + 1)).r = some y → (ops y.serial).store = false →
      ∃ c : ℕ → ℕ, (∀ j < (ops y.serial).bytes, c j < n ∧
          ReadAt cfg r y.serial ((ops y.serial).beatOf cfg j) (c j)) ∧
        y.value = ((ops y.serial).extended fun j =>
          (port cfg m r (c j)).memory ((ops y.serial).place j)).setWidth 32 := by
    intro y hy hst
    obtain ⟨hall, hval⟩ := result_of_load hI hm hy hst
    obtain ⟨c, hc⟩ := received_of_run hbefore hall
    refine ⟨c, fun j hj => ⟨(hc j hj).1, (hc j hj).2.1⟩, ?_⟩
    rw [hval, Operation.extended_congr fun j hj => (hc j hj).2.2]
  have hfp : ∀ y, (r.state (n + 1)).rFp = some y → y.fault = false →
      (ops y.serial).store = false →
      ∃ c : ℕ → ℕ, (∀ j < (ops y.serial).bytes, c j < n ∧
          ReadAt cfg r y.serial ((ops y.serial).beatOf cfg j) (c j)) ∧
        y.data = (ops y.serial).extended fun j =>
          (port cfg m r (c j)).memory ((ops y.serial).place j) := by
    intro y hy hgood hst
    obtain ⟨hall, hval⟩ := answer_of_load hI hm hy hgood hst
    obtain ⟨c, hc⟩ := received_of_run hbefore hall
    refine ⟨c, fun j hj => ⟨(hc j hj).1, (hc j hj).2.1⟩, ?_⟩
    rw [hval, Operation.extended_congr fun j hj => (hc j hj).2.2]
  refine ⟨fun k b hw => written_of_run h hw, hloaded, hfp, ?_, ?_⟩
  · intro y k hy hst hkind hstored
    obtain ⟨c, hc, hval⟩ := hloaded y hy hst
    rw [hval, extended_of_stored hbefore hkind hc hstored]
  · intro y k hy hgood hst hkind hstored
    obtain ⟨c, hc, hval⟩ := hfp y hy hgood hst
    rw [hval, extended_of_stored hbefore hkind hc hstored]

end Runs

end Lsu
end SloPPC603
