import SloPPC603.Router.Pages

/-!
# What a request leaves behind

A translation leaves no more behind than the LRU bit of a page entry it hits, and no
access can tell committed states apart that agree on all but the entries not valid and
the LRU bits of the other side.

* `Agrees` — such states.
* `outcome_agrees` — no outcome tells them apart.
* `touchedBy` — the committed state a request leaves.
* `touchedBy_agrees`, `touchedBy_other` — how it fits with agreement.
-/

namespace SloPPC603

namespace Tlb

section Touches

variable {cfg : Config} {q : Request} {v v' : View}

/-- What a lookup touches depends on the ways that match and on the LRU bit, as its answer
does. -/
theorem touches_congr (hmatch : ∀ way, wayMatch cfg q v way = wayMatch cfg q v' way)
    (hlru : v.lru = v'.lru)
    (hentry : ∀ way, wayMatch cfg q v way = true → v.entry way = v'.entry way) :
    touches cfg q v = touches cfg q v' ∧ selectedWay cfg q v = selectedWay cfg q v' := by
  have hm : matched cfg q v = matched cfg q v' := by rw [matched, matched, hmatch, hmatch]
  exact ⟨by rw [touches, touches, hm, respond_congr hmatch hlru hentry], hmatch true⟩

end Touches

end Tlb

namespace Router

/-! ## Agreement -/

/-- Committed states that no access of one bank can tell apart. -/
structure Agrees (bank : Bool) (a a' : Arch) : Prop where
  banks : a'.banks = a.banks
  sr : a'.sr = a.sr
  valid : a'.tlb.valid = a.tlb.valid
  entries : ∀ b way set, a.tlb.valid b way set = true →
    a'.tlb.entries b way set = a.tlb.entries b way set
  lru : a'.tlb.lru bank = a.tlb.lru bank
  ir : a'.ir = a.ir
  dr : a'.dr = a.dr
  pr : a'.pr = a.pr
  mmu602 : a'.mmu602 = a.mmu602

section Agreement

variable {cfg : Config} {a a' a'' : Arch} {x : Access} {q : Request} {sr : BitVec 32} {bank : Bool}

theorem Agrees.refl (bank : Bool) (a : Arch) : Agrees bank a a :=
  ⟨rfl, rfl, rfl, fun _ _ _ _ => rfl, rfl, rfl, rfl, rfl, rfl⟩

theorem Agrees.symm (h : Agrees bank a a') : Agrees bank a' a := by
  refine ⟨h.banks.symm, h.sr.symm, h.valid.symm, ?_, h.lru.symm, h.ir.symm, h.dr.symm,
    h.pr.symm, h.mmu602.symm⟩
  intro b way set hv
  rw [h.valid] at hv
  exact (h.entries b way set hv).symm

theorem Agrees.trans (h : Agrees bank a a') (h' : Agrees bank a' a'') : Agrees bank a a'' := by
  refine ⟨h'.banks.trans h.banks, h'.sr.trans h.sr, h'.valid.trans h.valid, ?_,
    h'.lru.trans h.lru, h'.ir.trans h.ir, h'.dr.trans h.dr, h'.pr.trans h.pr,
    h'.mmu602.trans h.mmu602⟩
  intro b way set hv
  rw [h'.entries b way set (by rw [h.valid]; exact hv), h.entries b way set hv]

theorem SameFor.agrees (h : SameFor bank a a') : Agrees bank a a' :=
  ⟨h.banks, h.sr, h.valid, fun b way set _ => by rw [h.entries], h.lru, h.ir, h.dr, h.pr,
    h.mmu602⟩

/-- A lookup sees the same. -/
theorem Agrees.view (h : Agrees (!q.instruction) a a') :
    let v := Tlb.view cfg.tlb (lookupRequest q sr) a.tlb
    let v' := Tlb.view cfg.tlb (lookupRequest q sr) a'.tlb
    (∀ way, Tlb.wayMatch cfg.tlb (lookupRequest q sr) v way =
        Tlb.wayMatch cfg.tlb (lookupRequest q sr) v' way) ∧ v.lru = v'.lru ∧
      ∀ way, Tlb.wayMatch cfg.tlb (lookupRequest q sr) v way = true →
        v.entry way = v'.entry way := by
  have hbank : (lookupRequest q sr).bank = !q.instruction := rfl
  have hentry : ∀ way, a.tlb.valid (!q.instruction) way
      (Tlb.setIndex cfg.tlb (lookupRequest q sr)) = true →
      a'.tlb.entries (!q.instruction) way (Tlb.setIndex cfg.tlb (lookupRequest q sr)) =
        a.tlb.entries (!q.instruction) way (Tlb.setIndex cfg.tlb (lookupRequest q sr)) :=
    fun way hv => h.entries _ _ _ hv
  refine ⟨?_, ?_, ?_⟩
  · intro way
    simp only [Tlb.wayMatch, Tlb.view, hbank, h.valid]
    cases hv : a.tlb.valid (!q.instruction) way (Tlb.setIndex cfg.tlb (lookupRequest q sr)) with
    | false => simp
    | true => rw [hentry way hv]
  · simp only [Tlb.view, hbank]
    rw [h.lru]
  · intro way hmatch
    simp only [Tlb.wayMatch, Bool.and_eq_true] at hmatch
    exact (hentry way hmatch.1.1.1).symm

theorem pageAnswer_agrees (h : Agrees (!q.instruction) a a') :
    pageAnswer cfg a' q sr = pageAnswer cfg a q sr := by
  obtain ⟨hmatch, hlru, hentry⟩ := @Agrees.view cfg a a' q sr h
  exact (Tlb.respond_congr hmatch hlru hentry).symm

theorem requestOf_agrees (h : Agrees bank a a') : requestOf cfg a' x = requestOf cfg a x := by
  simp [requestOf, h.ir, h.dr, h.pr, h.mmu602]

theorem batAnswer_agrees (h : Agrees bank a a') : batAnswer cfg a' q = batAnswer cfg a q := by
  simp [batAnswer, h.banks, h.mmu602]

theorem srWord_agrees (h : Agrees bank a a') : srWord a' q = srWord a q := by
  simp [srWord, h.sr]

/-- **No outcome tells them apart.** -/
theorem outcome_agrees (h : Agrees (!x.instruction) a a') : outcome cfg a' x = outcome cfg a x := by
  simp only [outcome, requestOf_agrees h, batAnswer_agrees h, srWord_agrees h, h.mmu602]
  rw [pageAnswer_agrees (q := requestOf cfg a x) h]

end Agreement

/-! ## Touches -/

/-- The lookup of a request in the TLB hits an entry. -/
def touchesEntry (cfg : Config) (a : Arch) (q : Request) (sr : BitVec 32) : Bool :=
  Tlb.touches cfg.tlb (lookupRequest q sr) (Tlb.view cfg.tlb (lookupRequest q sr) a.tlb)

/-- The way it hits. -/
def touchedWay (cfg : Config) (a : Arch) (q : Request) (sr : BitVec 32) : Bool :=
  Tlb.selectedWay cfg.tlb (lookupRequest q sr) (Tlb.view cfg.tlb (lookupRequest q sr) a.tlb)

/-- The committed state a request leaves. -/
def touchedBy (cfg : Config) (a : Arch) (x : Access) : Arch :=
  let q := requestOf cfg a x
  if cleanBatPageMiss cfg q (batAnswer cfg a q) then touched cfg a q (srWord a q) else a

section Touches

variable {cfg : Config} {a a' : Arch} {x : Access} {q : Request} {sr : BitVec 32} {bank : Bool}

theorem touched_eq : touched cfg a q sr =
    if touchesEntry cfg a q sr then
      { a with
        tlb := a.tlb.touch (!q.instruction) (touchedWay cfg a q sr)
          (Tlb.setIndex cfg.tlb (lookupRequest q sr)) }
    else a := by
  rw [touched, perform_lookup (lookupRequest q sr) a.tlb rfl, touchesEntry]
  split_ifs <;> rfl

/-- An LRU bit that already points away from the way is not moved. -/
theorem touched_eq_self : touched cfg a q sr = a ↔
    (touchesEntry cfg a q sr = true →
      a.tlb.lru (!q.instruction) (Tlb.setIndex cfg.tlb (lookupRequest q sr)) =
        !touchedWay cfg a q sr) := by
  rw [touched_eq]
  constructor
  · intro h ht
    rw [if_pos ht] at h
    have hlru := congrArg (fun a => a.tlb.lru (!q.instruction)
      (Tlb.setIndex cfg.tlb (lookupRequest q sr))) h
    simpa [Tlb.Store.touch] using hlru.symm
  · intro h
    split_ifs with ht
    · have hlru : (a.tlb.touch (!q.instruction) (touchedWay cfg a q sr)
          (Tlb.setIndex cfg.tlb (lookupRequest q sr))).lru = a.tlb.lru := by
        funext b set
        simp only [Tlb.Store.touch]
        split_ifs with hhere
        · rw [hhere.1, hhere.2, h ht]
        · rfl
      have hstore : a.tlb.touch (!q.instruction) (touchedWay cfg a q sr)
          (Tlb.setIndex cfg.tlb (lookupRequest q sr)) = a.tlb := by
        rw [← show ({ a.tlb with lru := (a.tlb.touch (!q.instruction) (touchedWay cfg a q sr)
          (Tlb.setIndex cfg.tlb (lookupRequest q sr))).lru } : Tlb.Store) =
          a.tlb.touch (!q.instruction) (touchedWay cfg a q sr)
            (Tlb.setIndex cfg.tlb (lookupRequest q sr)) from rfl, hlru]
      rw [hstore]
    · rfl

/-- A lookup moves its LRU bit once. -/
theorem touched_touched :
    touched cfg (touched cfg a q sr) q sr = touched cfg a q sr := by
  have hsame := (@sameFor_touched cfg a q sr).sameEntries
  have hmatch : ∀ way, Tlb.wayMatch cfg.tlb (lookupRequest q sr)
      (Tlb.view cfg.tlb (lookupRequest q sr) (touched cfg a q sr).tlb) way =
        Tlb.wayMatch cfg.tlb (lookupRequest q sr)
          (Tlb.view cfg.tlb (lookupRequest q sr) a.tlb) way := by
    intro way
    simp only [Tlb.wayMatch, Tlb.view, hsame.valid, hsame.entries]
    rfl
  have hway : touchedWay cfg (touched cfg a q sr) q sr = touchedWay cfg a q sr := hmatch true
  have htouches : touchesEntry cfg (touched cfg a q sr) q sr = touchesEntry cfg a q sr := by
    have hpage := congrArg Tlb.Response.hit (@pageAnswer_touched cfg a q sr)
    rw [pageAnswer, pageAnswer] at hpage
    rw [touchesEntry, touchesEntry, Tlb.touches, Tlb.touches, hpage, Tlb.matched, Tlb.matched,
      hmatch, hmatch]
  rw [touched_eq_self, htouches, hway]
  intro ht
  rw [touched_eq, if_pos ht]
  simp [Tlb.Store.touch]

/-- A touch moves the LRU bits of its own bank only. -/
theorem agrees_touched : Agrees q.instruction a (touched cfg a q sr) := sameFor_touched.agrees

theorem touches_agrees (h : Agrees (!q.instruction) a a') :
    touchesEntry cfg a' q sr = touchesEntry cfg a q sr ∧
      touchedWay cfg a' q sr = touchedWay cfg a q sr := by
  obtain ⟨hmatch, hlru, hentry⟩ := @Agrees.view cfg a a' q sr h
  obtain ⟨ht, hw⟩ := Tlb.touches_congr hmatch hlru hentry
  exact ⟨ht.symm, hw.symm⟩

/-- A touch keeps agreement. -/
theorem touched_agrees (h : Agrees (!q.instruction) a a') :
    Agrees (!q.instruction) (touched cfg a q sr) (touched cfg a' q sr) := by
  obtain ⟨ht, hw⟩ := @touches_agrees cfg a a' q sr h
  rw [touched_eq, touched_eq, ht, hw]
  split_ifs
  · refine ⟨h.banks, h.sr, h.valid, h.entries, ?_, h.ir, h.dr, h.pr, h.mmu602⟩
    funext set
    simp only [Tlb.Store.touch]
    rw [h.lru]
  · exact h

/-- Agreeing states are left agreeing by a request of their side. -/
theorem touchedBy_agrees (h : Agrees (!x.instruction) a a') :
    Agrees (!x.instruction) (touchedBy cfg a x) (touchedBy cfg a' x) := by
  simp only [touchedBy, requestOf_agrees h, batAnswer_agrees h, srWord_agrees h]
  split_ifs
  · exact touched_agrees (q := requestOf cfg a x) h
  · exact h

/-- A request leaves the other side's states agreeing. -/
theorem touchedBy_other : Agrees x.instruction a (touchedBy cfg a x) := by
  rw [touchedBy]
  split_ifs
  · exact agrees_touched (q := requestOf cfg a x)
  · exact Agrees.refl _ _

end Touches

end Router
end SloPPC603
