import SloPPC603.Lsu.Order

/-!
# Where an access of the line goes

On an edge an access of P2 or P1 stays in the line, or leaves it at one of the two
heads.  The two beats of a doubleword go through the line one behind the other, and
the second is there, live, as long as the first is.

* `mem_line_step`, `line_stays` — the accesses of the line over an edge.
* `BeatInv`, `beatInv_run` — the beats of a doubleword.
-/

namespace SloPPC603
namespace Lsu

variable {cfg : Config} {s : State} {i : Input}

/-! ## The line over an edge -/

section Stays

theorem mem_line {e : Entry} : e ∈ line s ↔ (e ∈ s.p2 ∧ e.write = false) ∨ e ∈ s.p1 := by
  rw [line, List.mem_append, List.mem_filter, Bool.not_eq_true']

/-- The removal of an access of the line over an edge. -/
def nextKilled (cfg : Config) (s : State) (i : Input) (e : Entry) : Bool :=
  e.killed || doom cfg s i || killedNow i e.producer

theorem nextKilled_of_fixed {d e : Entry} (hfixed : d.fixed = e.fixed)
    (hkilled : d.killed = e.killed) : nextKilled cfg s i d = nextKilled cfg s i e := by
  rw [nextKilled, nextKilled, hkilled, producer_of_fixed hfixed]

theorem p2Next_killed {e : Entry} (h : e.write = false) :
    (p2Next cfg s i e).killed = nextKilled cfg s i e := by
  rw [p2Next, nextKilled, h, Bool.not_false, Bool.true_and, Bool.or_assoc]

/-- An access of the line after the edge was in it or is dispatched on the edge. -/
theorem mem_line_step (hrun : i.rstN = true) {e' : Entry} (he : e' ∈ line (step cfg s i)) :
    ∃ e, (e ∈ line s ∨ e ∈ dispatched cfg s i) ∧ e'.fixed = e.fixed ∧
      e'.killed = nextKilled cfg s i e := by
  rcases mem_line.1 he with ⟨he, hw⟩ | he
  · rcases mem_p2_step hrun he with ⟨e, hmem, rfl⟩ | ⟨hfire, rfl⟩
    · exact ⟨e, Or.inl (mem_line.2 (Or.inl ⟨hmem, hw⟩)), rfl, p2Next_killed hw⟩
    · have hwrite : (pushed cfg s i).write = false := hw
      rcases hfire with hp1 | hsq
      · obtain ⟨hfixed, hkilled, -⟩ := pushed_of_fire (sqFire_of_p1Fire hp1)
        refine ⟨p1Head s, Or.inl (mem_line.2 (Or.inr (p1Head_mem (p1Fire_spec hp1).2.2.1))),
          hfixed, ?_⟩
        rw [p2Next_killed hwrite, nextKilled_of_fixed hfixed hkilled]
      · rw [(pushed_of_sqFire hsq).1] at hwrite
        cases hwrite
  · rcases mem_p1_step hrun he with ⟨e, hmem, hfixed, hk⟩ | ⟨e, hmem, hfixed, hk⟩
    · exact ⟨e, Or.inl (mem_line.2 (Or.inr (mem_p1_of_left hmem))), hfixed, hk⟩
    · refine ⟨e, Or.inr hmem, hfixed, ?_⟩
      rw [hk, nextKilled, (dispatched_spec hmem).1, Bool.false_or]

/-- The access at the head of P2 leaves it. -/
def p2Leaves (cfg : Config) (s : State) (i : Input) : Bool :=
  p2Retire cfg s i || (adoptFire s i && p2Adopt s i)

theorem p2Valid_of_leaves (h : p2Leaves cfg s i = true) : p2Valid s = true := by
  rw [p2Leaves, Bool.or_eq_true, Bool.and_eq_true] at h
  rcases h with h | ⟨-, h⟩
  · exact (p2Retire_spec h).1
  · exact (p2Adopt_spec h).1

/-- An entry of P2 stays unless it is the head and leaves. -/
theorem p2_stays (hrun : i.rstN = true) {e : Entry} (he : e ∈ s.p2) :
    p2Next cfg s i e ∈ (step cfg s i).p2 ∨ (p2Leaves cfg s i = true ∧ e = p2Head s) := by
  rw [(step_running hrun).2.1]
  cases hl : p2Leaves cfg s i with
  | false =>
    left
    apply List.mem_map_of_mem
    rw [p2Leaves] at hl
    rw [p2Shifted, hl, if_neg Bool.false_ne_true]
    exact List.mem_append_left _ he
  | true =>
    rw [p2_eq (p2Valid_of_leaves hl)] at he
    rcases List.mem_cons.1 he with rfl | htail
    · exact Or.inr ⟨rfl, rfl⟩
    · left
      apply List.mem_map_of_mem
      rw [p2Leaves] at hl
      rw [p2Shifted, hl, if_pos rfl]
      exact List.mem_append_left _ htail

/-- An entry of P1 stays, moves to P2, or leaves at the head. -/
theorem p1_stays (hrun : i.rstN = true) {e : Entry} (he : e ∈ s.p1) :
    (∃ e' ∈ (step cfg s i).p1, e'.fixed = e.fixed ∧ e'.killed = nextKilled cfg s i e) ∨
      (p1Pop cfg s i = true ∧ e = p1Head s) := by
  by_cases hin : e ∈ if p1Pop cfg s i then s.p1.tail else s.p1
  · left
    have hmap := @p1Shifted_map cfg s i _ (fun e : Entry => (e.fixed, e.killed))
      (fun e => by unfold Entry.advanced; split_ifs <;> rfl) (fun e => rfl)
    have hmem := List.mem_map_of_mem (f := fun e : Entry => (e.fixed, e.killed)) hin
    rw [← hmap] at hmem
    obtain ⟨d, hd, heq⟩ := List.mem_map.1 hmem
    simp only [Prod.mk.injEq] at heq
    refine ⟨p1Next cfg s i d, ?_, ?_, ?_⟩
    · rw [(step_running hrun).1]
      exact List.mem_map_of_mem (List.mem_append_left _ hd)
    · rw [p1Next_fixed, heq.1]
    · rw [p1Next_killed]
      exact nextKilled_of_fixed heq.1 heq.2
  · right
    split_ifs at hin with hpop
    · refine ⟨hpop, ?_⟩
      rw [p1_eq (p1Valid_of_mem he)] at he
      rcases List.mem_cons.1 he with rfl | htail
      · rfl
      · exact absurd htail hin
    · exact absurd he hin

/-- The access dispatched on the edge is in P1 after it. -/
theorem new_mem_p1 (hrun : i.rstN = true) {k : ℕ} (hk : k < (step cfg s i).serials)
    (hnew : ¬ k < s.serials) : ∃ e ∈ (step cfg s i).p1, e.serial = k := by
  rw [(step_running hrun).2.2.2.2.2.2.1] at hk
  have hfire : dispatchFire cfg s i = true := by
    by_contra hno
    rw [Bool.not_eq_true] at hno
    rw [hno, Bool.toNat_false] at hk
    omega
  rw [hfire, Bool.toNat_true] at hk
  have hin : incoming cfg s i ∈ dispatched cfg s i := by
    rw [dispatched, if_pos hfire]
    exact List.mem_cons_self
  refine ⟨p1Next cfg s i (incoming cfg s i), ?_, ?_⟩
  · rw [(step_running hrun).1]
    exact List.mem_map_of_mem (List.mem_append_right _ hin)
  · rw [serial_of_fixed (p1Next_fixed _)]
    show s.serials = k
    omega

/-- What the port accepts of P1 is in P2 after the edge. -/
theorem mem_p2_of_p1Fire (hrun : i.rstN = true) (hfire : p1Fire cfg s i = true)
    (hplain : (p1Head s).write = false) : ∃ e' ∈ (step cfg s i).p2, e'.write = false ∧
      e'.fixed = (p1Head s).fixed ∧ e'.killed = nextKilled cfg s i (p1Head s) := by
  obtain ⟨hfixed, hkilled, -⟩ := pushed_of_fire (sqFire_of_p1Fire hfire)
  have hwrite : (pushed cfg s i).write = false := (write_of_fixed hfixed).trans hplain
  refine ⟨p2Next cfg s i (pushed cfg s i), ?_, hwrite, hfixed, ?_⟩
  · rw [(step_running hrun).2.1]
    apply List.mem_map_of_mem
    rw [p2Shifted, hfire, Bool.true_or, if_pos rfl]
    exact List.mem_append_right _ (List.mem_singleton.2 rfl)
  · rw [p2Next_killed hwrite, nextKilled_of_fixed hfixed hkilled]

/-- **An access of the line stays in it or leaves at a head.** -/
theorem line_stays (hI : OrderInv s) (hrun : i.rstN = true) {e : Entry} (he : e ∈ line s) :
    (∃ e' ∈ line (step cfg s i), e'.fixed = e.fixed ∧ e'.killed = nextKilled cfg s i e) ∨
      (p2Leaves cfg s i = true ∧ e = p2Head s ∧ e ∈ s.p2) ∨
      (p1Pop cfg s i = true ∧ p1Fire cfg s i = false ∧ e = p1Head s ∧ e ∈ s.p1) := by
  rcases mem_line.1 he with ⟨he, hw⟩ | he
  · rcases p2_stays hrun he with hin | ⟨hleaves, rfl⟩
    · exact Or.inl ⟨_, mem_line.2 (Or.inl ⟨hin, hw⟩), rfl, p2Next_killed hw⟩
    · exact Or.inr (Or.inl ⟨hleaves, rfl, he⟩)
  · rcases p1_stays hrun he with ⟨e', hin, hfixed, hk⟩ | ⟨hpop, rfl⟩
    · exact Or.inl ⟨e', mem_line.2 (Or.inr hin), hfixed, hk⟩
    · cases hfire : p1Fire cfg s i with
      | false => exact Or.inr (Or.inr ⟨hpop, rfl, rfl, he⟩)
      | true =>
        obtain ⟨e', hin, hwrite, hfixed, hk⟩ := mem_p2_of_p1Fire hrun hfire (hI.plain _ he)
        exact Or.inl ⟨e', mem_line.2 (Or.inl ⟨hin, hwrite⟩), hfixed, hk⟩

/-- The ways out of P1 other than to P2. -/
theorem p1Pop_spec (hpop : p1Pop cfg s i = true) (hfire : p1Fire cfg s i = false) :
    p1Queue cfg s i = true ∨ p1Drop cfg s i = true ∨ p1Punt s i = true ∨
      (adoptFire s i = true ∧ p1Adopt s i = true ∧ p2Adopt s i = false ∧
        redoAdopt s i = false) := by
  simp only [p1Pop, hfire, Bool.false_or, Bool.or_eq_true, Bool.and_eq_true,
    Bool.not_eq_true'] at hpop
  rcases hpop with ((hq | hd) | hp) | ⟨⟨ha, hp2⟩, hredo⟩
  · exact Or.inl hq
  · exact Or.inr (Or.inl hd)
  · exact Or.inr (Or.inr (Or.inl hp))
  · refine Or.inr (Or.inr (Or.inr ⟨ha, ?_, hp2, hredo⟩))
    rw [adoptFire, hp2, hredo, Bool.false_or, Bool.false_or, Bool.and_eq_true] at ha
    exact ha.1

end Stays

/-! ## The beats of a doubleword -/

section Beats

theorem lastBeat_of_fixed {d e : Entry} (h : d.fixed = e.fixed) : lastBeat d = lastBeat e := by
  rw [lastBeat, lastBeat, split_of_fixed h, second_of_fixed h]

/-- The second beat of a doubleword follows the first, and is there as long as the
first is live. -/
structure BeatInv (s : State) : Prop where
  order : (line s).Pairwise fun a b => a.serial = b.serial → lastBeat b = true
  pair : ∀ e ∈ line s, e.killed = false → lastBeat e = false → ∃ d ∈ line s,
    d.serial = e.serial ∧ d.producer = e.producer ∧ lastBeat d = true ∧ d.killed = false

theorem beatInv_reset : BeatInv resetState where
  order := List.Pairwise.nil
  pair := by simp [line, resetState]

/-- The beats of one dispatch. -/
theorem dispatched_beats : (dispatched cfg s i).Pairwise
    (fun a b => a.serial = b.serial → lastBeat b = true) ∧
    ∀ e ∈ dispatched cfg s i, lastBeat e = false → ∃ d ∈ dispatched cfg s i,
      lastBeat d = true := by
  unfold dispatched
  split_ifs with hfire hsplit
  · refine ⟨?_, ?_⟩
    · rw [List.pairwise_cons]
      refine ⟨?_, List.pairwise_singleton _ _⟩
      intro b hb _
      rw [List.mem_singleton.1 hb]
      exact Bool.or_true _
    · intro e _ _
      exact ⟨_, List.mem_cons_of_mem _ (List.mem_singleton.2 rfl), Bool.or_true _⟩
  · refine ⟨List.pairwise_singleton _ _, ?_⟩
    intro e he hlast
    rw [List.mem_singleton.1 he, lastBeat] at hlast
    have hno : (incoming cfg s i).split = false := by
      rw [Bool.not_eq_true] at hsplit
      exact hsplit
    rw [hno] at hlast
    cases hlast
  · exact ⟨List.Pairwise.nil, fun e he => absurd he List.not_mem_nil⟩

theorem beat_order_step (hI : OrderInv s) (hB : BeatInv s) (hrun : i.rstN = true) :
    (line (step cfg s i)).Pairwise fun a b => a.serial = b.serial → lastBeat b = true := by
  have hmap := @line_step cfg s i _ (fun e : Entry => (e.serial, lastBeat e))
    (fun d e h => by rw [serial_of_fixed h, lastBeat_of_fixed h]) hrun
  have hall : (((line s).map fun e : Entry => (e.serial, lastBeat e)) ++
      (dispatched cfg s i).map fun e : Entry => (e.serial, lastBeat e)).Pairwise
      fun a b => a.1 = b.1 → b.2 = true := by
    rw [List.pairwise_append, List.pairwise_map, List.pairwise_map]
    refine ⟨hB.order, dispatched_beats.1, ?_⟩
    intro a ha b hb heq
    obtain ⟨e, he, rfl⟩ := List.mem_map.1 ha
    obtain ⟨d, hd, rfl⟩ := List.mem_map.1 hb
    have hlt := hI.bound e he
    have hser := (dispatched_spec hd).2.1
    have heq' : e.serial = d.serial := heq
    omega
  have hstep := hall.sublist hmap
  rw [List.pairwise_map] at hstep
  exact hstep

/-- A first beat is not behind its second. -/
theorem not_first_behind (hB : BeatInv s) {d e : Entry} {rest : List Entry}
    (hline : line s = d :: rest) (he : e ∈ rest) (hser : d.serial = e.serial) :
    lastBeat e = true := by
  have horder := hB.order
  rw [hline, List.pairwise_cons] at horder
  exact horder.1 e he hser

/-- A live second beat stays as long as its first is in the line. -/
theorem second_stays (hI : OrderInv s) (hB : BeatInv s) (hrun : i.rstN = true) {d e : Entry}
    (hmem : e ∈ line s) (hlast : lastBeat e = false) (hd : d ∈ line s)
    (hser : d.serial = e.serial) (hdlast : lastBeat d = true) (hdk : d.killed = false) :
    ∃ d' ∈ line (step cfg s i), d'.fixed = d.fixed ∧ d'.killed = nextKilled cfg s i d := by
  have hne : d ≠ e := by
    rintro rfl
    rw [hdlast] at hlast
    cases hlast
  rcases line_stays hI hrun hd with hstays | ⟨hleaves, rfl, hin⟩ | ⟨hpop, hfire, rfl, hin⟩
  · exact hstays
  · -- the head of P2 is the head of the line
    exfalso
    have hw : (p2Head s).write = false := by
      rcases mem_line.1 hd with ⟨-, hw⟩ | hp1
      · exact hw
      · exact hI.plain _ hp1
    have hline : line s = p2Head s :: ((s.p2.tail.filter fun e => !e.write) ++ s.p1) := by
      rw [line]
      conv_lhs => rw [p2_eq (p2Valid_of_leaves hleaves)]
      rw [List.filter_cons_of_pos (by rw [hw]; rfl)]
      rfl
    have hrest : e ∈ (s.p2.tail.filter fun e => !e.write) ++ s.p1 := by
      rw [hline] at hmem
      rcases List.mem_cons.1 hmem with heq | hrest
      · exact absurd heq.symm hne
      · exact hrest
    rw [not_first_behind hB hline hrest hser] at hlast
    cases hlast
  · exfalso
    have hvalid := p1Valid_of_mem hin
    rcases mem_line.1 hmem with ⟨hp2, hw⟩ | hp1
    · -- nothing else leaves P1 past an access of P2
      have hkey := p2_before_p1 hI hp2 hw hin
      have hsplit : (p1Head s).split = true := by
        rcases hkey with hlt | ⟨-, -, hsplit⟩
        · have hlt' : e.serial < (p1Head s).serial := hlt
          omega
        · exact hsplit
      have hp2valid := p2Valid_of_mem hp2
      rcases p1Pop_spec hpop hfire with hq | hdrop | hpunt | ⟨-, hadopt, -⟩
      · rw [(p1Queue_spec hq).2.2.2.1] at hsplit
        cases hsplit
      · rw [p1Drop, hdk, Bool.and_false, Bool.false_and] at hdrop
        cases hdrop
      · rw [p1Punt, hp2valid] at hpunt
        simp at hpunt
      · rw [p1Adopt, hp2valid] at hadopt
        simp at hadopt
    · rw [p1_eq hvalid] at hp1
      have horder := hB.order
      rw [line, List.pairwise_append] at horder
      have hp1order := horder.2.1
      rw [p1_eq hvalid, List.pairwise_cons] at hp1order
      rcases List.mem_cons.1 hp1 with heq | htail
      · exact hne heq.symm
      · rw [hp1order.1 e htail hser] at hlast
        cases hlast

/-- **A live first beat keeps its second.** -/
theorem beat_pair_step (hI : OrderInv s) (hB : BeatInv s) (hrun : i.rstN = true) :
    ∀ e ∈ line (step cfg s i), e.killed = false → lastBeat e = false →
      ∃ d ∈ line (step cfg s i), d.serial = e.serial ∧ d.producer = e.producer ∧
        lastBeat d = true ∧ d.killed = false := by
  intro e' he' hk' hlast'
  obtain ⟨e, hmem, hfixed, hk⟩ := mem_line_step hrun he'
  rw [lastBeat_of_fixed hfixed] at hlast'
  rw [hk, nextKilled, Bool.or_eq_false_iff, Bool.or_eq_false_iff] at hk'
  obtain ⟨⟨hlive, hdoom⟩, hnow⟩ := hk'
  have hnext : ∀ d : Entry, d.producer = e.producer → d.killed = false →
      nextKilled cfg s i d = false := by
    intro d hprod hdk
    rw [nextKilled, hdk, hdoom, hprod, hnow]
    rfl
  rcases hmem with hmem | hmem
  · obtain ⟨d, hd, hser, hprod, hdlast, hdk⟩ := hB.pair e hmem hlive hlast'
    obtain ⟨d', hin, hdfixed, hdk'⟩ := second_stays hI hB hrun hmem hlast' hd hser hdlast hdk
    refine ⟨d', hin, ?_, ?_, ?_, ?_⟩
    · rw [serial_of_fixed hdfixed, serial_of_fixed hfixed, hser]
    · rw [producer_of_fixed hdfixed, producer_of_fixed hfixed, hprod]
    · rw [lastBeat_of_fixed hdfixed, hdlast]
    · rw [hdk', hnext d hprod hdk]
  · obtain ⟨d, hd, hdlast⟩ := dispatched_beats.2 e hmem hlast'
    obtain ⟨hek, heser, heprod, -⟩ := dispatched_spec hmem
    obtain ⟨hdk, hdser, hdprod, -⟩ := dispatched_spec hd
    refine ⟨p1Next cfg s i d, ?_, ?_, ?_, ?_, ?_⟩
    · refine mem_line.2 (Or.inr ?_)
      rw [(step_running hrun).1]
      exact List.mem_map_of_mem (List.mem_append_right _ hd)
    · rw [serial_of_fixed (p1Next_fixed d), serial_of_fixed hfixed, hdser, heser]
    · rw [producer_of_fixed (p1Next_fixed d), producer_of_fixed hfixed, hdprod, heprod]
    · rw [lastBeat_of_fixed (p1Next_fixed d), hdlast]
    · rw [p1Next_killed]
      exact hnext d (hdprod.trans heprod.symm) hdk

theorem beatInv_step (hI : OrderInv s) (hB : BeatInv s) (hrun : i.rstN = true) :
    BeatInv (step cfg s i) :=
  ⟨beat_order_step hI hB hrun, beat_pair_step hI hB hrun⟩

end Beats

end Lsu
end SloPPC603
