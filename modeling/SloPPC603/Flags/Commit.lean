import SloPPC603.Flags.Token

/-!
# CR and XER in retirement order

The flags unit is shown one packet an edge, and up to two retire.  The pair rule
makes the other one a packet that writes no flag, so the committed CR and XER are
what the retired packets write, in the order they retire.

* `cr_step`, `xer_step` — one edge.
* `handed_once` — over a run, a waiter is handed the token once while it is in
  flight.
* `token_and_flags` — the token and the committed flags in every reachable state.
-/

namespace SloPPC603
namespace Flags

open Completion (Entry entries)
open Clocked (Run)

/-! ## One edge -/

section Edge

variable {cfg : Config} {s : System} {i : Input}

/-- The packets that retire on this edge, in order. -/
def retired (cfg : Config) (s : System) (i : Input) : List RetirePacket :=
  (if commit cfg s i then [retireO cfg s i] else []) ++
    (if commit1 cfg s i then [retire1O cfg s i] else [])

theorem crMask_of_not_writes {p : RetirePacket} (h : writesFlags p = false) : crMask p = 0 := by
  simp only [writesFlags, Bool.or_eq_false_iff] at h
  simp [crMask, h.1.2, h.2, h.1.1.2]

theorem xerMask_of_not_writes {p : RetirePacket} (h : writesFlags p = false) :
    xerMask p = 0 := by
  simp only [writesFlags, Bool.or_eq_false_iff] at h
  obtain ⟨⟨⟨⟨⟨h1, h2⟩, h3⟩, -⟩, -⟩, -⟩ := h
  rw [xerMask, h1, h2, h3]
  rfl

/-- A packet that writes no flag leaves CR as it is. -/
theorem commitCr_of_not_writes {p : RetirePacket} (h : writesFlags p = false) (cr : BitVec 32) :
    commitCr p cr = cr := by
  have hones : ~~~(0 : BitVec 32) = BitVec.allOnes 32 := rfl
  rw [commitCr, crMask_of_not_writes h, hones, BitVec.and_allOnes]
  simp

/-- So it does XER. -/
theorem commitXer_of_not_writes {p : RetirePacket} (h : writesFlags p = false)
    (xer : BitVec 32) : commitXer p xer = xer := by
  have hones : ~~~(0 : BitVec 32) = BitVec.allOnes 32 := rfl
  rw [commitXer, xerMask_of_not_writes h, hones, BitVec.and_allOnes]
  simp

/-- What a packet writes is decided by its controls. -/
theorem writesFlags_of_controls {p q : RetirePacket} (h : p.controls = q.controls) :
    writesFlags p = writesFlags q := by
  have hread : ∀ x : RetirePacket, writesFlags x = writesFlags x.controls := fun _ => rfl
  rw [hread p, h, ← hread q]

theorem writesFlags_retireO (hs : Completion.RingInv s.cq) (h : commit cfg s i = true) :
    writesFlags (retireO cfg s i) = writesFlags (Completion.entryAt s.cq 0).packet := by
  have hctl := writesFlags_of_controls (Completion.controls_retire h)
  rw [Completion.entryAt_zero hs, ← hctl]
  rfl

theorem writesFlags_retire1O (hs : Completion.RingInv s.cq) (h : commit1 cfg s i = true) :
    writesFlags (retire1O cfg s i) = writesFlags (Completion.entryAt s.cq 1).packet := by
  have hctl := writesFlags_of_controls (Completion.controls_retire1 h)
  rw [Completion.entryAt_one hs, ← hctl]
  rfl

/-- **The packet the unit is not shown writes no flag.** -/
theorem foldl_retired {α : Type*} (write : RetirePacket → α → α)
    (hquiet : ∀ p, writesFlags p = false → ∀ a, write p a = a) (hs : Completion.RingInv s.cq)
    (hw : WritesNeedFlags s) (a : α) :
    (if (flagsPort cfg s i).commit && writesFlags (flagsPort cfg s i).commitPacket then
      write (flagsPort cfg s i).commitPacket a else a) =
      (retired cfg s i).foldl (fun a p => write p a) a := by
  have hwrite : (if (flagsPort cfg s i).commit && writesFlags (flagsPort cfg s i).commitPacket
      then write (flagsPort cfg s i).commitPacket a else a) =
      if commit cfg s i then write (flagsPort cfg s i).commitPacket a else a := by
    have hport : (flagsPort cfg s i).commit = commit cfg s i := rfl
    rw [hport]
    cases hq : writesFlags (flagsPort cfg s i).commitPacket with
    | true => simp
    | false => simp [hquiet _ hq]
  rw [hwrite, retired]
  have hpacket : (flagsPort cfg s i).commitPacket =
      if flagsCommit1 cfg s i then retire1O cfg s i else retireO cfg s i := rfl
  rw [hpacket, flagsCommit1_eq hs]
  cases h1 : commit1 cfg s i with
  | false => cases h0 : commit cfg s i <;> simp
  | true =>
    have h0 : commit cfg s i = true := Completion.retireFire_of_retire1Fire h1
    have hcount := (Completion.retire1Fire_spec h1).2.2.2
    have hmem0 : Completion.entryAt s.cq 0 ∈ entries s.cq :=
      Completion.mem_entries.2 ⟨0, by omega, rfl⟩
    have hmem1 : Completion.entryAt s.cq 1 ∈ entries s.cq :=
      Completion.mem_entries.2 ⟨1, hcount, rfl⟩
    cases hn : (Completion.entryAt s.cq 1).packet.needsFlags with
    | true =>
      have hfirst := (needsFlags_pair hs h1).resolve_right (by rw [hn]; simp)
      have hq : writesFlags (retireO cfg s i) = false := by
        rw [writesFlags_retireO hs h0]
        exact hw _ hmem0 hfirst
      simp [h0, hquiet _ hq]
    | false =>
      have hq : writesFlags (retire1O cfg s i) = false := by
        rw [writesFlags_retire1O hs h1]
        exact hw _ hmem1 hn
      simp [h0, hquiet _ hq]

/-- CR after an edge. -/
theorem cr_step (hs : Completion.RingInv s.cq) (hw : WritesNeedFlags s) (h : Legal cfg s i) :
    (System.step cfg s i).flags.cr =
      (retired cfg s i).foldl (fun cr p => commitCr p cr) s.flags.cr := by
  have hrst : (flagsPort cfg s i).rstN = true := h.queue.running
  rw [step_eq h, ← foldl_retired commitCr (fun _ hq a => commitCr_of_not_writes hq a) hs hw]
  show (Flags.step s.flags (flagsPort cfg s i)).cr = _
  rw [Flags.step, if_pos hrst]

/-- XER after an edge. -/
theorem xer_step (hs : Completion.RingInv s.cq) (hw : WritesNeedFlags s) (h : Legal cfg s i) :
    (System.step cfg s i).flags.xer =
      (retired cfg s i).foldl (fun xer p => commitXer p xer) s.flags.xer := by
  have hrst : (flagsPort cfg s i).rstN = true := h.queue.running
  rw [step_eq h, ← foldl_retired commitXer (fun _ hq a => commitXer_of_not_writes hq a) hs hw]
  show (Flags.step s.flags (flagsPort cfg s i)).xer = _
  rw [Flags.step, if_pos hrst]

end Edge

/-! ## Runs -/

section Runs

variable {cfg : Config} {r : Run (machine cfg)} {n : ℕ}

theorem initial_eq {s : System} (h : (machine cfg).Initial s) : s = System.reset := by
  obtain ⟨s₀, i, hrst, rfl⟩ := h
  simp [System.step, hrst]

/-- The registers and the environment of a run whose flag writers finish cleanly. -/
def CleanLegal (cfg : Config) (s : System) (i : Input) : Prop :=
  Legal cfg s i ∧ CleanFinish cfg s i

theorem tokenInv_run (h : r.Obeys (CleanLegal cfg) n) : TokenInv (r.state n) :=
  Run.invariant (I := TokenInv) (A := CleanLegal cfg)
    (fun s hinit => by rw [initial_eq hinit]; exact tokenInv_reset)
    (fun _ _ hI hi => tokenInv_step hI hi.1 hi.2) h

/-- **The committed flags are the retired packets' writes in order.** -/
theorem committed_eq (h : ∀ k < n, Completion.RingInv (r.state k).cq ∧
      WritesNeedFlags (r.state k) ∧ Legal cfg (r.state k) (r.input k)) :
    (r.state n).flags.cr =
        (r.emitted (retired cfg) 0 n).foldl (fun cr p => commitCr p cr) 0 ∧
      (r.state n).flags.xer =
        (r.emitted (retired cfg) 0 n).foldl (fun xer p => commitXer p xer) 0 := by
  induction n with
  | zero =>
    have hstart := initial_eq r.initial
    rw [Run.emitted_self, Run.state_zero, hstart]
    exact ⟨rfl, rfl⟩
  | succ n ih =>
    obtain ⟨hcr, hxer⟩ := ih (fun k hk => h k (Nat.lt_succ_of_lt hk))
    obtain ⟨hs, hw, hi⟩ := h n (Nat.lt_succ_self n)
    rw [Run.emitted_succ (Nat.zero_le n), List.foldl_append, List.foldl_append, ← hcr, ← hxer]
    exact ⟨cr_step hs hw hi, xer_step hs hw hi⟩

/-- The token is handed on during edge `n`. -/
def HandsOver (r : Run (machine cfg)) (n : ℕ) : Prop :=
  handoff (r.state n).flags (flagsPort cfg (r.state n) (r.input n)) = true

/-- While an owner is in flight it goes on owning. -/
theorem owner_of_inFlight (h : r.Obeys (CleanLegal cfg) n) {j : ℕ} (hjn : j ≤ n)
    (hb : (r.state j).flags.busy = true)
    (hin : ∀ m, j < m → m ≤ n → (r.state j).flags.owner ∈ tags (r.state m)) :
    (r.state n).flags.busy = true ∧ (r.state n).flags.owner = (r.state j).flags.owner := by
  induction n, hjn using Nat.le_induction with
  | base => exact ⟨hb, rfl⟩
  | succ n hjn ih =>
    have hbefore := h.mono (Nat.le_succ n)
    obtain ⟨hbn, hon⟩ := ih hbefore (fun m hm hmn => hin m hm (Nat.le_succ_of_le hmn))
    have hi := h n (Nat.lt_succ_self n)
    have hedge := handover_step (tokenInv_run hbefore) hi.1 hi.2
    have hnext : (r.state n).flags.owner ∈ tags (System.step cfg (r.state n) (r.input n)) := by
      rw [hon]
      exact hin (n + 1) (Nat.lt_succ_of_le hjn) le_rfl
    obtain ⟨hb', ho', -⟩ := hedge.stays hbn hnext
    exact ⟨hb', ho'.trans hon⟩

/-- **A waiter is handed the token once**: a tag that is handed it twice has left
the queue in between. -/
theorem handed_once (h : r.Obeys (CleanLegal cfg) n) {j k : ℕ} (hjk : j < k) (hk : k < n)
    (hj : HandsOver r j) (hhk : HandsOver r k)
    (hsame : (r.state (k + 1)).flags.owner = (r.state (j + 1)).flags.owner) :
    ∃ m, j < m ∧ m ≤ k ∧ (r.state (j + 1)).flags.owner ∉ tags (r.state m) := by
  by_contra hnone
  have hstay : ∀ m, j < m → m ≤ k → (r.state (j + 1)).flags.owner ∈ tags (r.state m) := by
    intro m hm hmk
    by_contra hout
    exact hnone ⟨m, hm, hmk, hout⟩
  have hobeys : ∀ {m : ℕ}, m ≤ n → r.Obeys (CleanLegal cfg) m := fun hm => h.mono hm
  -- a handover leaves the token with an owner
  have hheld : ∀ m < n, HandsOver r m → (r.state (m + 1)).flags.busy = true ∧
      (r.state (m + 1)).flags.owner ∈ tags (r.state (m + 1)) := by
    intro m hm hh
    have hI := tokenInv_run (hobeys hm.le)
    have hI' := tokenInv_run (hobeys hm)
    have hi := h m hm
    have hedge := handover_step hI hi.1 hi.2
    obtain ⟨hb, hout⟩ := hedge.only hh
    have hw : ∃ w ∈ waiting (r.state m).flags (flagsPort cfg (r.state m) (r.input m)),
        w ∈ tags (System.step cfg (r.state m) (r.input m)) := by
      by_contra hno
      have hfree := (hedge.freed hb hout (fun w hw hin => hno ⟨w, hw, hin⟩)).1
      rw [HandsOver, hfree] at hh
      cases hh
    obtain ⟨w, hw, hin⟩ := hw
    obtain ⟨-, hb', ho', -⟩ := hedge.passes hb hout w hw hin
    exact ⟨hb', by rw [← ho'] at hin; exact hin⟩
  obtain ⟨hbj, -⟩ := hheld j (hjk.trans hk) hj
  obtain ⟨-, hink⟩ := hheld k hk hhk
  obtain ⟨-, hok⟩ := owner_of_inFlight (hobeys hk.le) (Nat.succ_le_of_lt hjk) hbj
    (fun m hm hmk => hstay m (Nat.lt_of_succ_lt hm) hmk)
  have hi := h k hk
  have hout := ((handover_step (tokenInv_run (hobeys hk.le)) hi.1 hi.2).only hhk).2
  rw [hok, ← hsame] at hout
  exact hout hink

/-- Who holds the token in one state: the claimants in flight are the owner and
behind it the waiter, no tag is in flight twice, one entry owns a busy token and
none a free one, and a waiter waits only for a busy token. -/
structure OneOwner (s : System) : Prop where
  holders : claimants s = holders s.flags
  nodup : (tags s).Nodup
  owners : ((entries s.cq).filter
    (fun e => s.flags.busy && e.tag = s.flags.owner)).length = s.flags.busy.toNat
  waiter : s.flags.waiter = true → s.flags.busy = true

theorem oneOwner_of_tokenInv {s : System} (hI : TokenInv s) : OneOwner s where
  holders := hI.holders
  nodup := Completion.nodup_tags hI.ring
  owners := by
    cases hb : s.flags.busy with
    | false => simp
    | true =>
      have hmem : s.flags.owner ∈ tags s := by
        have hcl : s.flags.owner ∈ claimants s := by
          rw [hI.holders]
          exact owner_mem_holders hb
        exact (List.filter_sublist.map _).subset hcl
      have hcount := List.count_eq_one_of_mem (Completion.nodup_tags hI.ring) hmem
      rw [List.count_eq_countP, List.countP_map, List.countP_eq_length_filter] at hcount
      simpa [Function.comp_def, beq_eq_decide] using hcount
  waiter := hI.waiter

/-- **One owner, one waiter, flags in order.**  In every state a run reaches whose
flag writers finish cleanly, the claimants in flight are the owner of the token
and the waiter behind it; on every edge the token stays with an owner in flight,
passes to the waiter when the owner retires or is removed, and is freed when both
are gone; a waiter is handed it once; and CR and XER are the writes of the retired
packets applied in retirement order. -/
theorem token_and_flags (cfg : Config) (r : Run (machine cfg)) (n : ℕ)
    (h : r.Obeys (CleanLegal cfg) n) :
    OneOwner (r.state n) ∧ (∀ k < n, Handover cfg (r.state k) (r.input k)) ∧
      (∀ j k, j < k → k < n → HandsOver r j → HandsOver r k →
        (r.state (k + 1)).flags.owner = (r.state (j + 1)).flags.owner →
        ∃ m, j < m ∧ m ≤ k ∧ (r.state (j + 1)).flags.owner ∉ tags (r.state m)) ∧
      (r.state n).flags.cr =
        (r.emitted (retired cfg) 0 n).foldl (fun cr p => commitCr p cr) 0 ∧
      (r.state n).flags.xer =
        (r.emitted (retired cfg) 0 n).foldl (fun xer p => commitXer p xer) 0 := by
  have hinv : ∀ k < n, TokenInv (r.state k) := fun k hk => tokenInv_run (h.mono hk.le)
  refine ⟨oneOwner_of_tokenInv (tokenInv_run h), ?_, ?_,
    committed_eq fun k hk => ⟨(hinv k hk).ring, (hinv k hk).writes, (h k hk).1⟩⟩
  · intro k hk
    have hi := h k hk
    exact handover_step (hinv k hk) hi.1 hi.2
  · intro j k hjk hk hj hhk hsame
    exact handed_once h hjk hk hj hhk hsame

end Runs

/-! ## Two compares -/

/-- Every feature of the integer build on. -/
def fullConfig : Config where
  cq := Completion.fullConfig
  decode :=
    { enableSupervisorExceptions := true, enableLiveContext := true, enableTimers := true
      enableRuntimeBat := true, enableSegmentRegisters := true, enableTlbInvalidate := true
      enableTlbLoad := true, enableSdr1 := true, enableTlbMissExceptions := true
      enableCacheInstructions := true, enableDataCache := true, enableByteReverse := true
      enableMultipleString := true, enableReservation := true, enableDebugExceptions := true
      enableFullDecode := true, enableFpu := true, hasHid1 := false, hasEar := true
      stringEmulationTrap := false, has602 := false, noFpu := false }

/-- Two `cmpwi` dispatch together; the first finishes "greater", and retires a
cycle later. -/
def cmpInputs : ℕ → Input
  | 0 => { want0 := true, lane0 := { insn := 0x2c030000#32 }
           want1 := true, lane1 := { insn := 0x2c840000#32 } }
  | 1 => { cq := { resultValid := true
                   result := { (default : ResultPacket) with producer := ⟨0, 1⟩, cr0 := 4 } } }
  | _ => { cq := { retireReady := true } }

/-- An edge in reset starts the machine. -/
theorem initial_reset : (machine fullConfig).Initial System.reset :=
  ⟨System.reset, { cq := { rstN := false } }, rfl, rfl⟩

/-- The run of these inputs from reset. -/
def cmpRun : Run (machine fullConfig) where
  start := System.reset
  initial := initial_reset
  input := cmpInputs

theorem cmpRun_obeys : cmpRun.Obeys (CleanLegal fullConfig) 3 := by
  have hlane : ∀ k < 3, (cmpInputs k).lane0.Legal fullConfig.decode ∧
      (cmpInputs k).lane1.Legal fullConfig.decode := by
    intro k hk
    interval_cases k <;>
      exact ⟨⟨by decide, by decide, by decide, by decide, by decide⟩,
        ⟨by decide, by decide, by decide, by decide, by decide⟩⟩
  have hclean : ∀ k < 3, CleanFinish fullConfig (cmpRun.state k) (cmpRun.input k) := by
    unfold CleanFinish
    decide
  intro k hk
  refine ⟨⟨(hlane k hk).1, (hlane k hk).2, ?_, ?_, ⟨nofun, nofun, nofun⟩⟩, hclean k hk⟩
  · interval_cases k <;> rfl
  · interval_cases k <;> exact ⟨rfl, by decide, by decide, nofun⟩

/-- The owner finishes on edge 1 with the other compare waiting behind it, and
keeps the token; it hands it on when it retires, on edge 2. -/
theorem owner_finish_keeps_token :
    cmpRun.Obeys (CleanLegal fullConfig) 3 ∧
      (cmpRun.state 1).flags.busy = true ∧ (cmpRun.state 1).flags.waiter = true ∧
      Completion.finishAccept fullConfig.cq (cmpRun.state 1).cq
        (ports fullConfig (cmpRun.state 1) (cmpRun.input 1)) = true ∧
      (cmpRun.input 1).cq.result.producer = (cmpRun.state 1).flags.owner ∧
      ¬ HandsOver cmpRun 1 ∧
      (cmpRun.state 2).flags.owner = (cmpRun.state 1).flags.owner ∧
      HandsOver cmpRun 2 := by
  refine ⟨cmpRun_obeys, by decide, by decide, by decide, by decide, ?_, by decide, ?_⟩
  · unfold HandsOver
    decide
  · unfold HandsOver
    decide

/-- The same run: CR0 is "greater" once the first compare has retired, and the
second one owns the token. -/
theorem token_and_flags_cmpRun :
    (cmpRun.state 3).flags.cr = 0x40000000#32 ∧ (cmpRun.state 3).flags.owner = ⟨1, 1⟩ ∧
      OneOwner (cmpRun.state 3) ∧
      (∀ k < 3, Handover fullConfig (cmpRun.state k) (cmpRun.input k)) ∧
      (∀ j k, j < k → k < 3 → HandsOver cmpRun j → HandsOver cmpRun k →
        (cmpRun.state (k + 1)).flags.owner = (cmpRun.state (j + 1)).flags.owner →
        ∃ m, j < m ∧ m ≤ k ∧
          (cmpRun.state (j + 1)).flags.owner ∉ tags (cmpRun.state m)) ∧
      (cmpRun.state 3).flags.cr =
        (cmpRun.emitted (retired fullConfig) 0 3).foldl (fun cr p => commitCr p cr) 0 ∧
      (cmpRun.state 3).flags.xer =
        (cmpRun.emitted (retired fullConfig) 0 3).foldl (fun xer p => commitXer p xer) 0 :=
  ⟨by decide, by decide, token_and_flags fullConfig cmpRun 3 cmpRun_obeys⟩

end Flags
end SloPPC603
