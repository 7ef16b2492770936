import Mathlib.Data.List.Sort
import SloPPC603.Lsu.Beats
import SloPPC603.Lsu.Removal

/-!
# The store queue writes the retired stores

A record beside a run holds what the core and the port have done with the accesses:
which are outstanding, which have moved to the store queue, which of those have
retired, which have been accepted by the port, which writes have failed, and which
have been removed.  What the queue offers is a store that has retired; the port
accepts the retired stores in the order they retired, each once; one that is not
accepted waits in the queue or is behind a failed write.

* `Book` — the record.
* `BookLegal` — commits come in program order, recoveries name unretired accesses.
* `Unharmed` — no store that a load set aside took out of the queue retires.
* `BookInv`, `bookInv_step` — the queue against the record.
* `queue_writes_retired` — over every run.
-/

namespace SloPPC603
namespace Lsu

open Clocked (Run)

/-! ## The record -/

/-- What has become of the accesses dispatched so far, by serial. -/
structure Book where
  /-- Neither retired nor named by a recovery, in dispatch order, with their tags. -/
  outstanding : List (ℕ × CompletionTag)
  /-- Moved to the store queue. -/
  queued : List ℕ
  /-- Queued stores that have retired, in order. -/
  retired : List ℕ
  /-- Accepted by the port from the queue, in order. -/
  accepted : List ℕ
  /-- Whose write answered with an error. -/
  failed : List ℕ
  /-- Named by a recovery. -/
  named : List ℕ
  /-- Outstanding behind an access whose fault was handed over or answered. -/
  barred : List ℕ
  /-- Outstanding behind a load that was set aside. -/
  aside : List ℕ

namespace Book

/-- The empty record. -/
def start : Book := ⟨[], [], [], [], [], [], [], []⟩

/-- The accesses outstanding on an edge, with the one being dispatched. -/
def reach (cfg : Config) (b : Book) (s : State) (i : Input) : List (ℕ × CompletionTag) :=
  b.outstanding ++ if dispatchFire cfg s i then [(s.serials, i.producer)] else []

/-- The accesses behind the one whose fault is taken on the edge. -/
def behind (cfg : Config) (b : Book) (s : State) (i : Input) : List ℕ :=
  match faultSerial cfg s i with
  | none => []
  | some f => ((b.reach cfg s i).map Prod.fst).filter fun k => f < k

/-- The queued stores that retire on the edge. -/
def retiring (b : Book) (i : Input) : List ℕ :=
  if i.commit then
    (b.outstanding.filter fun a => a.2 = i.commitTag && a.1 ∈ b.queued).map Prod.fst
  else []

/-- The record after an edge. -/
def update (cfg : Config) (b : Book) (s : State) (i : Input) : Book where
  outstanding := ((b.outstanding.filter fun a => !(i.commit && a.2 = i.commitTag)) ++
    if dispatchFire cfg s i then [(s.serials, i.producer)] else []).filter
      fun a => !killedNow i a.2
  queued := b.queued ++ if p1Queue cfg s i then [(p1Head s).serial] else []
  retired := b.retired ++ b.retiring i
  accepted := b.accepted ++ if sqFire cfg s i then [(sqHead s).serial] else []
  failed := b.failed ++ if storeError cfg s i then [(p2Head s).serial] else []
  named := b.named ++ ((b.reach cfg s i).filter fun a => killedNow i a.2).map Prod.fst
  barred := b.barred ++ if redoSet cfg s i then [] else b.behind cfg s i
  aside := b.aside ++ if redoSet cfg s i then b.behind cfg s i else []

/-- The accesses removed by a recovery or by an older access's fault. -/
def removed (b : Book) : List ℕ := b.named ++ b.barred ++ b.aside

end Book

/-- The record beside a run. -/
def book (cfg : Config) (r : Run (machine cfg)) (n : ℕ) : Book :=
  r.history Book.start (Book.update cfg) n

/-- What the core promises of a cycle.  Commits come in program order and not with a
recovery of the same entry, and an access whose fault was handed over or answered ends
in its exception, so that nothing then behind it retires. -/
structure BookLegal (cfg : Config) (s : State) (b : Book) (i : Input) : Prop
    extends Legal cfg s i where
  order : i.commit = true → ∀ a ∈ b.outstanding, a.2 = i.commitTag →
    ∀ d ∈ b.outstanding, a.1 ≤ d.1
  kept : i.commit = true → killedNow i i.commitTag = false
  excepted : i.commit = true → ∀ a ∈ b.outstanding, a.2 = i.commitTag → a.1 ∉ b.barred

/-- The access that retires is no store that a load set aside took out of the
queue. -/
def Unharmed (b : Book) (i : Input) : Prop :=
  i.commit = true → ∀ a ∈ b.outstanding, a.2 = i.commitTag → a.1 ∈ b.queued → a.1 ∉ b.aside

instance {cfg : Config} {s : State} {b : Book} {i : Input} : Decidable (BookLegal cfg s b i) :=
  decidable_of_iff (Legal cfg s i ∧ (i.commit = true → ∀ a ∈ b.outstanding, a.2 = i.commitTag →
      ∀ d ∈ b.outstanding, a.1 ≤ d.1) ∧ (i.commit = true → killedNow i i.commitTag = false) ∧
    (i.commit = true → ∀ a ∈ b.outstanding, a.2 = i.commitTag → a.1 ∉ b.barred))
    ⟨fun ⟨h1, h2, h3, h4⟩ => ⟨h1, h2, h3, h4⟩,
      fun h => ⟨h.toLegal, h.order, h.kept, h.excepted⟩⟩

instance {b : Book} {i : Input} : Decidable (Unharmed b i) :=
  inferInstanceAs (Decidable (_ → _))

variable {cfg : Config} {s : State} {i : Input} {b : Book} {k : ℕ}

/-! ## A queued store over an edge -/

section Entries

/-- The edge removes an unretired store of the queue. -/
def marks (cfg : Config) (s : State) (i : Input) (c : SqEntry) : Bool :=
  sqDoom cfg s i || killedNow i c.producer || (c.young && youngDoom cfg s i)

/-- The store's entry retires on the edge. -/
def commits (i : Input) (c : SqEntry) : Bool := i.commit && c.producer = i.commitTag

theorem sqNext_of_committed {c : SqEntry} (h : c.committed = true) :
    (sqNext cfg s i c).committed = true ∧
      (sqNext cfg s i c).killed = (c.killed || storeError cfg s i) := by
  simp [sqNext, h]

theorem sqNext_of_waiting {c : SqEntry} (hk : c.killed = false) (hc : c.committed = false)
    (hm : marks cfg s i c = false) : (sqNext cfg s i c).committed = commits i c ∧
      (sqNext cfg s i c).killed = (commits i c && storeError cfg s i) := by
  rw [marks] at hm
  simp only [sqNext, hk, hc, hm, commits]
  simp

theorem sqNext_of_marked {c : SqEntry} (hc : c.committed = false)
    (hm : marks cfg s i c = true) : (sqNext cfg s i c).committed = false ∧
      (sqNext cfg s i c).killed = true := by
  rw [marks] at hm
  simp only [sqNext, hc, hm]
  simp

/-- A store that is live after the edge was live, and unmarked if it had not retired. -/
theorem of_sqNext_live {c : SqEntry} (h : (sqNext cfg s i c).killed = false) :
    c.killed = false ∧ (c.committed = false → marks cfg s i c = false) := by
  refine ⟨killed_of_sqNext h, ?_⟩
  intro hc
  by_contra hm
  rw [(sqNext_of_marked hc (by simpa using hm)).2] at h
  cases h

/-- A store that has retired after the edge had retired, or does so on it. -/
theorem of_sqNext_committed {c : SqEntry} (h : (sqNext cfg s i c).committed = true) :
    c.committed = true ∨ (c.committed = false ∧ c.killed = false ∧ marks cfg s i c = false ∧
      commits i c = true) := by
  cases hc : c.committed with
  | true => exact Or.inl rfl
  | false =>
    right
    cases hm : marks cfg s i c with
    | true =>
      rw [(sqNext_of_marked hc hm).1] at h
      cases h
    | false =>
      cases hk : c.killed with
      | true =>
        simp only [sqNext, hc, hk] at h
        simp at h
      | false =>
        rw [(sqNext_of_waiting hk hc hm).1] at h
        exact ⟨rfl, rfl, rfl, h⟩

/-- A store stays in the queue, or is the head and is accepted or dropped. -/
theorem sq_stays (hrun : i.rstN = true) (hcfg : cfg.storeQueue = true) {c : SqEntry}
    (hc : c ∈ s.sq) : sqNext cfg s i c ∈ (step cfg s i).sq ∨
      (c = sqHead s ∧ (sqFire cfg s i = true ∨ sqDrop s = true)) := by
  by_cases hstay : c ∈ if sqFire cfg s i || sqDrop s then s.sq.tail else s.sq
  · left
    rw [(step_running hrun).2.2.1, if_pos hcfg]
    exact List.mem_map_of_mem (List.mem_append_left _ hstay)
  · right
    split_ifs at hstay with hgo
    · rw [sq_eq (sqValid_of_mem hc)] at hc
      rcases List.mem_cons.1 hc with heq | htail
      · exact ⟨heq, Bool.or_eq_true_iff.1 hgo⟩
      · exact absurd htail hstay
    · exact absurd hc hstay

/-- The stores queued after the edge; an accepted one is gone. -/
theorem mem_sq_left (hrun : i.rstN = true) {c' : SqEntry} (hc : c' ∈ (step cfg s i).sq) :
    (∃ c ∈ s.sq, c' = sqNext cfg s i c ∧ (sqFire cfg s i = true → c ∈ s.sq.tail)) ∨
      (p1Queue cfg s i = true ∧ c' = sqNext cfg s i (added cfg s i)) := by
  rw [(step_running hrun).2.2.1] at hc
  split_ifs at hc
  · obtain ⟨c, hmem, rfl⟩ := List.mem_map.1 hc
    rcases List.mem_append.1 hmem with hold | hnew
    · left
      split_ifs at hold with hgo
      · exact ⟨c, List.mem_of_mem_tail hold, rfl, fun _ => hold⟩
      · refine ⟨c, hold, rfl, fun hfire => ?_⟩
        rw [hfire] at hgo
        exact absurd (Bool.true_or _) hgo
    · split_ifs at hnew with hq
      · exact Or.inr ⟨hq, by rw [List.mem_singleton.1 hnew]⟩
      · exact absurd hnew List.not_mem_nil
  · exact absurd hc List.not_mem_nil

theorem sqOffer_live (h : sqOffer cfg s i = true) : sqValid s = true ∧
    (sqHead s).killed = false ∧ ((sqHead s).committed = true ∨
      (i.commitMem = true ∧ (sqHead s).producer = i.commitTag)) := by
  simp only [sqOffer, Bool.and_eq_true, Bool.or_eq_true, Bool.not_eq_true',
    decide_eq_true_eq] at h
  tauto

end Entries

/-! ## What a fault marks -/

section Marks

theorem fault_of_doom (h : doom cfg s i = true) : ∃ f, faultSerial cfg s i = some f := by
  unfold faultSerial
  split_ifs
  · exact ⟨_, rfl⟩
  · exact ⟨_, rfl⟩

theorem doom_of_marks {c : SqEntry} (hnow : killedNow i c.producer = false)
    (hm : marks cfg s i c = true) : doom cfg s i = true := by
  simp only [marks, hnow, Bool.or_false, Bool.or_eq_true, Bool.and_eq_true] at hm
  rcases hm with hd | ⟨-, hd⟩
  · exact doom_of_sqDoom hd
  · exact doom_of_youngDoom hd

/-- The access whose fault is taken is live in the line. -/
theorem fault_live (hI : OrderInv s) {f : ℕ} (h : faultSerial cfg s i = some f) :
    ∃ e ∈ line s, e.killed = false ∧ e.serial = f := by
  obtain ⟨hdoom, ⟨hpunt, rfl⟩ | ⟨hpunt, rfl⟩⟩ := faultSerial_spec h
  · refine ⟨p1Head s, mem_line.2 (Or.inr (p1Head_mem (punt_spec hpunt).1)), ?_, rfl⟩
    simp only [p1Punt, Bool.and_eq_true, Bool.not_eq_true'] at hpunt
    tauto
  · obtain ⟨hvalid, hw, hlive, -⟩ := p2_fault_spec hI hdoom hpunt
    refine ⟨p2Head s, mem_line.2 (Or.inl ⟨p2Head_mem hvalid, hw⟩), ?_, rfl⟩
    simp only [p2Live, Bool.and_eq_true, Bool.not_eq_true'] at hlive
    exact hlive.1

/-- **A fault marks the queued stores behind it.** -/
theorem marks_iff (hI : OrderInv s) {c : SqEntry} (hc : c ∈ s.sq) (hk : c.killed = false)
    (hcc : c.committed = false) (hnow : killedNow i c.producer = false) :
    marks cfg s i c = true ↔ ∃ f, faultSerial cfg s i = some f ∧ f < c.serial := by
  constructor
  · intro hm
    obtain ⟨f, hf⟩ := fault_of_doom (doom_of_marks hnow hm)
    refine ⟨f, hf, ?_⟩
    simp only [marks, hnow, Bool.or_false, Bool.or_eq_true, Bool.and_eq_true] at hm
    rcases sq_of_fault hI hf hc hk hcc with ⟨hpunt, -⟩ | ⟨rfl, hplaced, hcase⟩
    · have hvalid : p2Valid s = false := by rw [p2Valid, (punt_spec hpunt).2.1]; rfl
      have hno : sqDoom cfg s i = false ∧ youngDoom cfg s i = false := by
        simp [sqDoom, youngDoom, fpFault, redoSet, p2Retire, p2Adopt, rspMine, rspOwner, hvalid]
      rw [hno.1, hno.2] at hm
      simp at hm
    · rcases hcase with ⟨hp, -⟩ | ⟨hp, hno, -⟩
      · exact lt_of_placed hplaced hp
      · have hside := placed_young hplaced hp
        rcases hm with hd | ⟨hy, -⟩
        · rw [hno] at hd
          cases hd
        · rw [if_pos hy] at hside
          exact hside
  · rintro ⟨f, hf, hlt⟩
    rcases sq_of_fault hI hf hc hk hcc with ⟨-, hle⟩ | ⟨rfl, hplaced, hcase⟩
    · omega
    · rcases hcase with ⟨-, hd⟩ | ⟨hp, -, hd⟩
      · simp [marks, hd]
      · have hside := placed_young hplaced hp
        split_ifs at hside with hy
        · simp [marks, hy, hd]
        · omega

/-- So it does the store that moves to the queue on the edge. -/
theorem marks_added (hI : OrderInv s) (hq : p1Queue cfg s i = true) :
    marks cfg s i (added cfg s i) = true ↔
      ∃ f, faultSerial cfg s i = some f ∧ f < (p1Head s).serial := by
  obtain ⟨hvalid, -, hfast, hsplit, -, -, -, -, hnow, -⟩ := p1Queue_spec hq
  have hpunt : p1Punt s i = false := by
    by_contra hpunt
    rw [(punt_spec (by simpa using hpunt)).2.2.2] at hfast
    cases hfast
  constructor
  · intro hm
    have hdoom := doom_of_marks (c := added cfg s i) hnow hm
    obtain ⟨hp2, hw, -⟩ := p2_fault_spec hI hdoom hpunt
    refine ⟨(p2Head s).serial, ?_, ?_⟩
    · rw [faultSerial, hpunt, if_neg Bool.false_ne_true, if_pos hdoom]
    · rcases p2_before_p1 hI (p2Head_mem hp2) hw (p1Head_mem hvalid) with hlt | ⟨-, -, hbeat⟩
      · exact hlt
      · exact nomatch (hsplit.symm.trans hbeat)
  · rintro ⟨f, hf, -⟩
    obtain ⟨hp2, -, hlive, -, hcase⟩ := p2_fault_spec hI (faultSerial_spec hf).1 hpunt
    rcases hcase with ⟨-, hd⟩ | ⟨hp, -, hd⟩
    · simp [marks, hd]
    · have hyoung : (added cfg s i).young = true := by
        simp only [p2Live, Bool.and_eq_true, Bool.not_eq_true'] at hlive
        show p2Passed s = true
        rw [p2Passed, List.any_eq_true]
        exact ⟨_, p2Head_mem hp2, by rw [hp, hlive.1]; rfl⟩
      simp [marks, hyoung, hd]

end Marks

/-! ## The invariant -/

/-- The store queue against the record. -/
structure BookInv (cfg : Config) (s : State) (b : Book) : Prop where
  config : s.sq ≠ [] → cfg.storeQueue = true
  sorted : (b.outstanding.map Prod.fst).Pairwise (· < ·)
  bound : ∀ a ∈ b.outstanding, a.1 < s.serials
  seen : ∀ k, k ∈ b.queued ∨ k ∈ b.removed ∨ k ∈ b.retired → k < s.serials
  /-- The live accesses of P2 and P1, and the live stores, are outstanding. -/
  line : ∀ e ∈ Lsu.line s, e.killed = false → (e.serial, e.producer) ∈ b.outstanding ∧
    e.serial ∉ b.removed
  store : ∀ c ∈ s.sq, c.killed = false → c.committed = false →
    (c.serial, c.producer) ∈ b.outstanding ∧ c.serial ∈ b.queued
  removed : ∀ c ∈ s.sq, c.killed = false → c.serial ∉ b.removed
  /-- A queued store that is outstanding is live in the queue, unless a fault has
  removed it. -/
  queue : ∀ a ∈ b.outstanding, a.1 ∈ b.queued →
    (∃ c ∈ s.sq, c.serial = a.1 ∧ c.killed = false ∧ c.committed = false) ∨
      a.1 ∈ b.barred ∨ a.1 ∈ b.aside
  order : b.retired.Pairwise (· < ·)
  past : ∀ k ∈ b.retired, ∀ a ∈ b.outstanding, k < a.1
  committed : ∀ c ∈ s.sq, c.committed = true → c.serial ∈ b.retired
  accepted : b.accepted.Pairwise (· < ·)
  ahead : ∀ k ∈ b.accepted, k ∈ b.retired ∧ (∀ c ∈ s.sq, k < c.serial) ∧ ∀ e ∈ s.p1, k < e.serial
  write : ∀ x ∈ s.p2, x.write = true → x.serial ∈ b.accepted
  failed : ∀ e ∈ b.failed, e ∈ b.accepted
  waits : ∀ k ∈ b.retired, k ∈ b.accepted ∨
    (∃ c ∈ s.sq, c.serial = k ∧ c.committed = true ∧ c.killed = false) ∨ ∃ e ∈ b.failed, e < k

theorem bookInv_reset : BookInv cfg resetState Book.start where
  config := by simp [resetState]
  sorted := List.Pairwise.nil
  bound := by simp [Book.start]
  seen := by simp [Book.start, Book.removed]
  line := by simp [Lsu.line, resetState]
  store := by simp [resetState]
  removed := by simp [resetState]
  queue := by simp [Book.start]
  order := List.Pairwise.nil
  past := by simp [Book.start]
  committed := by simp [resetState]
  accepted := List.Pairwise.nil
  ahead := by simp [Book.start]
  write := by simp [resetState]
  failed := by simp [Book.start]
  waits := by simp [Book.start]

/-! ## The record over an edge -/

section Update

theorem mem_outstanding {a : ℕ × CompletionTag} : a ∈ (b.update cfg s i).outstanding ↔
    ((a ∈ b.outstanding ∧ (i.commit && decide (a.2 = i.commitTag)) = false) ∨
      (dispatchFire cfg s i = true ∧ a = (s.serials, i.producer))) ∧
      killedNow i a.2 = false := by
  rw [Book.update, List.mem_filter, List.mem_append, List.mem_filter, Bool.not_eq_true',
    Bool.not_eq_true']
  have hnew : (a ∈ if dispatchFire cfg s i then [(s.serials, i.producer)] else []) ↔
      (dispatchFire cfg s i = true ∧ a = (s.serials, i.producer)) := by
    split_ifs with hfire
    · rw [List.mem_singleton]
      exact ⟨fun h => ⟨hfire, h⟩, fun h => h.2⟩
    · exact ⟨fun h => absurd h List.not_mem_nil, fun h => absurd h.1 hfire⟩
  rw [hnew]

theorem mem_reach {a : ℕ × CompletionTag} : a ∈ b.reach cfg s i ↔
    a ∈ b.outstanding ∨ (dispatchFire cfg s i = true ∧ a = (s.serials, i.producer)) := by
  rw [Book.reach, List.mem_append]
  refine or_congr Iff.rfl ?_
  split_ifs with hfire
  · rw [List.mem_singleton]
    exact ⟨fun h => ⟨hfire, h⟩, fun h => h.2⟩
  · exact ⟨fun h => absurd h List.not_mem_nil, fun h => absurd h.1 hfire⟩

theorem reach_sorted (hK : BookInv cfg s b) :
    ((b.reach cfg s i).map Prod.fst).Pairwise (· < ·) := by
  rw [Book.reach, List.map_append, List.pairwise_append]
  refine ⟨hK.sorted, ?_, ?_⟩
  · split_ifs
    · exact List.pairwise_singleton _ _
    · exact List.Pairwise.nil
  · intro x hx y hy
    obtain ⟨p, hp, rfl⟩ := List.mem_map.1 hx
    split_ifs at hy
    · rw [List.map_singleton, List.mem_singleton] at hy
      rw [hy]
      exact hK.bound p hp
    · exact absurd hy List.not_mem_nil

/-- Serials tell the accesses outstanding on an edge apart. -/
theorem reach_inj (hK : BookInv cfg s b) {a d : ℕ × CompletionTag} (ha : a ∈ b.reach cfg s i)
    (hd : d ∈ b.reach cfg s i) (h : a.1 = d.1) : a = d :=
  List.inj_on_of_nodup_map ((reach_sorted hK).imp fun hlt => Nat.ne_of_lt hlt) ha hd h

theorem outstanding_inj (hK : BookInv cfg s b) {a d : ℕ × CompletionTag}
    (ha : a ∈ b.outstanding) (hd : d ∈ b.outstanding) (h : a.1 = d.1) : a = d :=
  List.inj_on_of_nodup_map (hK.sorted.imp fun hlt => Nat.ne_of_lt hlt) ha hd h

theorem mem_behind : k ∈ b.behind cfg s i ↔
    ∃ f, faultSerial cfg s i = some f ∧ f < k ∧ ∃ a ∈ b.reach cfg s i, a.1 = k := by
  unfold Book.behind
  cases hf : faultSerial cfg s i with
  | none => simp
  | some f =>
    simp only [List.mem_filter, List.mem_map, decide_eq_true_eq, Option.some_inj]
    constructor
    · rintro ⟨hmem, hlt⟩
      exact ⟨f, rfl, hlt, hmem⟩
    · rintro ⟨f', rfl, hlt, hmem⟩
      exact ⟨hmem, hlt⟩

/-- What the edge removes. -/
theorem mem_removed_update (h : k ∈ (b.update cfg s i).removed) : k ∈ b.removed ∨
    (∃ a ∈ b.reach cfg s i, a.1 = k ∧ killedNow i a.2 = true) ∨ k ∈ b.behind cfg s i := by
  simp only [Book.removed, Book.update, List.mem_append] at h ⊢
  rcases h with ((h | h) | h | h) | h | h
  · exact Or.inl (Or.inl (Or.inl h))
  · obtain ⟨a, ha, rfl⟩ := List.mem_map.1 h
    rw [List.mem_filter] at ha
    exact Or.inr (Or.inl ⟨a, ha.1, rfl, ha.2⟩)
  · exact Or.inl (Or.inl (Or.inr h))
  · right; right
    split_ifs at h
    · exact absurd h List.not_mem_nil
    · exact h
  · exact Or.inl (Or.inr h)
  · right; right
    split_ifs at h
    · exact h
    · exact absurd h List.not_mem_nil

/-- What is behind a fault is recorded as such. -/
theorem recorded_of_behind (h : k ∈ b.behind cfg s i) :
    k ∈ (b.update cfg s i).barred ∨ k ∈ (b.update cfg s i).aside := by
  cases hset : redoSet cfg s i with
  | true =>
    right
    simp [Book.update, hset, h]
  | false =>
    left
    simp [Book.update, hset, h]

/-- The stores that retire on the edge. -/
theorem mem_retiring : k ∈ b.retiring i ↔ i.commit = true ∧ ∃ a ∈ b.outstanding,
    a.2 = i.commitTag ∧ a.1 ∈ b.queued ∧ a.1 = k := by
  unfold Book.retiring
  split_ifs with hcommit
  · simp only [List.mem_map, List.mem_filter, Bool.and_eq_true, decide_eq_true_eq, hcommit,
      true_and]
    constructor
    · rintro ⟨a, ⟨ha, htag, hq⟩, rfl⟩
      exact ⟨a, ha, htag, hq, rfl⟩
    · rintro ⟨a, ha, htag, hq, rfl⟩
      exact ⟨a, ⟨ha, htag, hq⟩, rfl⟩
  · simp [hcommit]

end Update

/-! ## The step lemmas -/

section Step

theorem reach_lt (hK : BookInv cfg s b) (hrun : i.rstN = true) {a : ℕ × CompletionTag}
    (ha : a ∈ b.reach cfg s i) : a.1 < (step cfg s i).serials := by
  rw [(step_running hrun).2.2.2.2.2.2.1]
  rcases mem_reach.1 ha with hold | ⟨hfire, rfl⟩
  · exact (hK.bound a hold).trans_le (Nat.le_add_right _ _)
  · rw [hfire, Bool.toNat_true]
    exact Nat.lt_succ_self _

/-- What has retired is older than what is outstanding. -/
theorem lt_reach_of_retired (hK : BookInv cfg s b) (hk : k ∈ b.retired)
    {a : ℕ × CompletionTag} (ha : a ∈ b.reach cfg s i) : k < a.1 := by
  rcases mem_reach.1 ha with hold | ⟨-, rfl⟩
  · exact hK.past k hk a hold
  · exact hK.seen k (Or.inr (Or.inr hk))

theorem reach_of_outstanding {a : ℕ × CompletionTag} (h : a ∈ b.outstanding) :
    a ∈ b.reach cfg s i := mem_reach.2 (Or.inl h)

theorem sorted_step (hK : BookInv cfg s b) :
    ((b.update cfg s i).outstanding.map Prod.fst).Pairwise (· < ·) := by
  refine List.Pairwise.sublist ?_ (@reach_sorted cfg s i b hK)
  apply List.Sublist.map
  exact List.filter_sublist.trans (List.filter_sublist.append (List.Sublist.refl _))

theorem bound_step' (hK : BookInv cfg s b) (hrun : i.rstN = true) :
    ∀ a ∈ (b.update cfg s i).outstanding, a.1 < (step cfg s i).serials := by
  intro a ha
  obtain ⟨hor, -⟩ := mem_outstanding.1 ha
  exact reach_lt hK hrun (mem_reach.2 (hor.imp And.left id))

theorem seen_step (hI : OrderInv s) (hK : BookInv cfg s b) (hrun : i.rstN = true) :
    ∀ k, k ∈ (b.update cfg s i).queued ∨ k ∈ (b.update cfg s i).removed ∨
      k ∈ (b.update cfg s i).retired → k < (step cfg s i).serials := by
  have hle : s.serials ≤ (step cfg s i).serials := by
    rw [(step_running hrun).2.2.2.2.2.2.1]
    exact Nat.le_add_right _ _
  intro k hk
  rcases hk with hk | hk | hk
  · rcases List.mem_append.1 hk with hold | hnew
    · exact (hK.seen k (Or.inl hold)).trans_le hle
    · split_ifs at hnew with hq
      · rw [List.mem_singleton.1 hnew]
        exact (hI.bound _ (List.mem_append_right _ (p1Head_mem (p1Queue_spec hq).1))).trans_le hle
      · exact absurd hnew List.not_mem_nil
  · rcases mem_removed_update hk with hold | ⟨a, ha, rfl, -⟩ | hbehind
    · exact (hK.seen k (Or.inr (Or.inl hold))).trans_le hle
    · exact reach_lt hK hrun ha
    · obtain ⟨-, -, -, a, ha, rfl⟩ := mem_behind.1 hbehind
      exact reach_lt hK hrun ha
  · rcases List.mem_append.1 hk with hold | hnew
    · exact (hK.seen k (Or.inr (Or.inr hold))).trans_le hle
    · obtain ⟨-, a, ha, -, -, rfl⟩ := mem_retiring.1 hnew
      exact reach_lt hK hrun (reach_of_outstanding ha)

theorem line_book_step (hK : BookInv cfg s b) (h : BookLegal cfg s b i) :
    ∀ e ∈ line (step cfg s i), e.killed = false →
      (e.serial, e.producer) ∈ (b.update cfg s i).outstanding ∧
        e.serial ∉ (b.update cfg s i).removed := by
  intro e' he' hk'
  obtain ⟨e, hmem, hfixed, hk⟩ := mem_line_step h.running he'
  rw [hk, nextKilled, Bool.or_eq_false_iff, Bool.or_eq_false_iff] at hk'
  obtain ⟨⟨hlive, hdoom⟩, hnow⟩ := hk'
  rw [serial_of_fixed hfixed, producer_of_fixed hfixed]
  have hreach : (e.serial, e.producer) ∈ b.reach cfg s i := by
    rcases hmem with hold | hnew
    · exact reach_of_outstanding (hK.line e hold hlive).1
    · obtain ⟨-, hser, hprod, hfire⟩ := dispatched_spec hnew
      exact mem_reach.2 (Or.inr ⟨hfire, by rw [hser, hprod]⟩)
  constructor
  · rw [mem_outstanding]
    refine ⟨?_, hnow⟩
    rcases hmem with hold | hnew
    · left
      refine ⟨(hK.line e hold hlive).1, ?_⟩
      -- an access retires finished
      cases hc : i.commit with
      | false => rfl
      | true =>
        have hunf : Unfinished s e := by
          rcases mem_line.1 hold with hp2 | hp1
          · exact Or.inr (Or.inl hp2)
          · exact Or.inl hp1
        simp [h.finished hc e hunf hlive]
    · obtain ⟨-, hser, hprod, hfire⟩ := dispatched_spec hnew
      exact Or.inr ⟨hfire, by rw [hser, hprod]⟩
  · intro hrem
    rcases mem_removed_update hrem with hold | ⟨a, ha, haser, hanow⟩ | hbehind
    · rcases hmem with hline | hnew
      · exact (hK.line e hline hlive).2 hold
      · have hlt := hK.seen _ (Or.inr (Or.inl hold))
        rw [(dispatched_spec hnew).2.1] at hlt
        exact absurd hlt (Nat.lt_irrefl _)
    · rw [reach_inj hK ha hreach haser, hnow] at hanow
      cases hanow
    · obtain ⟨f, hf, -⟩ := mem_behind.1 hbehind
      rw [(faultSerial_spec hf).1] at hdoom
      cases hdoom

/-- The store that moves to the queue is not retiring. -/
theorem not_commits_added (h : BookLegal cfg s b i) (hq : p1Queue cfg s i = true) :
    (i.commit && decide ((p1Head s).producer = i.commitTag)) = false := by
  obtain ⟨hvalid, -, -, -, hlive, -⟩ := p1Queue_spec hq
  cases hc : i.commit with
  | false => rfl
  | true => simp [h.finished hc _ (Or.inl (p1Head_mem hvalid)) hlive]

theorem store_book_step (hK : BookInv cfg s b) (h : BookLegal cfg s b i) :
    ∀ c ∈ (step cfg s i).sq, c.killed = false → c.committed = false →
      (c.serial, c.producer) ∈ (b.update cfg s i).outstanding ∧
        c.serial ∈ (b.update cfg s i).queued := by
  intro c' hc' hk' hcc'
  rcases mem_sq_step h.running hc' with ⟨c, hc, rfl⟩ | ⟨hq, rfl⟩
  · obtain ⟨hk, hmarks⟩ := of_sqNext_live hk'
    have hcc : c.committed = false := (of_sqNext hk' hcc').2.1
    obtain ⟨hout, hqueued⟩ := hK.store c hc hk hcc
    have hm := hmarks hcc
    rw [(sqNext_of_waiting hk hcc hm).1] at hcc'
    simp only [marks, Bool.or_eq_false_iff] at hm
    exact ⟨mem_outstanding.2 ⟨Or.inl ⟨hout, hcc'⟩, hm.1.2⟩, List.mem_append_left _ hqueued⟩
  · obtain ⟨hvalid, -, -, -, hlive, -, -, -, hnow, -⟩ := p1Queue_spec hq
    have hout := (hK.line _ (mem_line.2 (Or.inr (p1Head_mem hvalid))) hlive).1
    refine ⟨mem_outstanding.2 ⟨Or.inl ⟨hout, not_commits_added h hq⟩, hnow⟩, ?_⟩
    rw [Book.update, if_pos hq]
    exact List.mem_append_right _ (List.mem_singleton.2 rfl)

theorem removed_book_step (hI : OrderInv s) (hK : BookInv cfg s b) (h : BookLegal cfg s b i) :
    ∀ c ∈ (step cfg s i).sq, c.killed = false → c.serial ∉ (b.update cfg s i).removed := by
  intro c' hc' hk' hrem
  rcases mem_sq_step h.running hc' with ⟨c, hc, rfl⟩ | ⟨hq, rfl⟩
  · have hrem' : c.serial ∈ (b.update cfg s i).removed := hrem
    obtain ⟨hk, hmarks⟩ := of_sqNext_live hk'
    cases hcc : c.committed with
    | true =>
      have hret := hK.committed c hc hcc
      rcases mem_removed_update hrem' with hold | ⟨a, ha, haser, -⟩ | hbehind
      · exact hK.removed c hc hk hold
      · have hlt := lt_reach_of_retired hK hret ha
        omega
      · obtain ⟨-, -, -, a, ha, haser⟩ := mem_behind.1 hbehind
        have hlt := lt_reach_of_retired hK hret ha
        omega
    | false =>
      have hm := hmarks hcc
      have hnow : killedNow i c.producer = false := by
        simp only [marks, Bool.or_eq_false_iff] at hm
        exact hm.1.2
      rcases mem_removed_update hrem' with hold | ⟨a, ha, haser, hanow⟩ | hbehind
      · exact hK.removed c hc hk hold
      · have hout := @reach_of_outstanding cfg s i b _ (hK.store c hc hk hcc).1
        rw [reach_inj hK ha hout haser, hnow] at hanow
        cases hanow
      · obtain ⟨f, hf, hlt, -⟩ := mem_behind.1 hbehind
        rw [(marks_iff hI hc hk hcc hnow).2 ⟨f, hf, hlt⟩] at hm
        cases hm
  · obtain ⟨hvalid, -, -, -, hlive, -, -, -, hnow, -⟩ := p1Queue_spec hq
    obtain ⟨hout, hno⟩ := hK.line _ (mem_line.2 (Or.inr (p1Head_mem hvalid))) hlive
    have hm := (of_sqNext_live hk').2 rfl
    rcases mem_removed_update hrem with hold | ⟨a, ha, haser, hanow⟩ | hbehind
    · exact hno hold
    · rw [reach_inj hK ha (reach_of_outstanding hout) haser, hnow] at hanow
      cases hanow
    · obtain ⟨f, hf, hlt, -⟩ := mem_behind.1 hbehind
      rw [(marks_added hI hq).2 ⟨f, hf, hlt⟩] at hm
      cases hm

/-- **A queued store that is outstanding stays live in the queue**, unless a fault
removes it. -/
theorem queue_book_step (hI : OrderInv s) (hK : BookInv cfg s b) (h : BookLegal cfg s b i) :
    ∀ a ∈ (b.update cfg s i).outstanding, a.1 ∈ (b.update cfg s i).queued →
      (∃ c ∈ (step cfg s i).sq, c.serial = a.1 ∧ c.killed = false ∧ c.committed = false) ∨
        a.1 ∈ (b.update cfg s i).barred ∨ a.1 ∈ (b.update cfg s i).aside := by
  have hrun := h.running
  intro a ha hqueued
  obtain ⟨hor, hnow⟩ := mem_outstanding.1 ha
  have hreach : a ∈ b.reach cfg s i := mem_reach.2 (hor.imp And.left id)
  rcases List.mem_append.1 hqueued with hold | hnew
  · have hlt := hK.seen _ (Or.inl hold)
    obtain ⟨hout, hcommit⟩ : a ∈ b.outstanding ∧
        (i.commit && decide (a.2 = i.commitTag)) = false := by
      rcases hor with hor | ⟨-, rfl⟩
      · exact hor
      · exact absurd hlt (Nat.lt_irrefl _)
    rcases hK.queue a hout hold with ⟨c, hc, hser, hk, hcc⟩ | hb | hs
    · have heq : a = (c.serial, c.producer) :=
        outstanding_inj hK hout (hK.store c hc hk hcc).1 hser.symm
      subst heq
      cases hm : marks cfg s i c with
      | true =>
        right
        apply recorded_of_behind
        obtain ⟨f, hf, hlt'⟩ := (marks_iff hI hc hk hcc hnow).1 hm
        exact mem_behind.2 ⟨f, hf, hlt', _, hreach, rfl⟩
      | false =>
        left
        have hnext := sqNext_of_waiting hk hcc hm
        rw [show commits i c = false from hcommit] at hnext
        rcases sq_stays hrun (hK.config (List.ne_nil_of_mem hc)) hc with hin |
          ⟨rfl, hfire | hdrop⟩
        · exact ⟨_, hin, rfl, hnext.2, hnext.1⟩
        · -- an accepted store has retired
          exfalso
          rw [sqFire, Bool.and_eq_true] at hfire
          obtain ⟨-, -, hdone | ⟨hmem, htag⟩⟩ := sqOffer_live hfire.1
          · rw [hcc] at hdone
            cases hdone
          · rw [h.memory hmem, htag] at hcommit
            simp at hcommit
        · rw [sqDrop, hk, Bool.and_false] at hdrop
          cases hdrop
    · exact Or.inr (Or.inl (List.mem_append_left _ hb))
    · exact Or.inr (Or.inr (List.mem_append_left _ hs))
  · split_ifs at hnew with hq
    · have hser := List.mem_singleton.1 hnew
      cases hm : marks cfg s i (added cfg s i) with
      | true =>
        right
        apply recorded_of_behind
        obtain ⟨f, hf, hlt⟩ := (marks_added hI hq).1 hm
        exact mem_behind.2 ⟨f, hf, by omega, a, hreach, rfl⟩
      | false =>
        left
        have hnext := @sqNext_of_waiting cfg s i (added cfg s i) rfl rfl hm
        rw [show commits i (added cfg s i) = false from not_commits_added h hq] at hnext
        refine ⟨_, ?_, hser.symm, hnext.2, hnext.1⟩
        rw [(step_running hrun).2.2.1, if_pos (p1Queue_spec hq).2.2.2.2.2.2.2.2.2.1]
        apply List.mem_map_of_mem
        rw [sqShifted, if_pos hq]
        exact List.mem_append_right _ (List.mem_singleton.2 rfl)
    · exact absurd hnew List.not_mem_nil

theorem retiring_past (hK : BookInv cfg s b) (h : BookLegal cfg s b i) (hk : k ∈ b.retiring i) :
    ∀ a ∈ (b.update cfg s i).outstanding, k < a.1 := by
  intro a ha
  obtain ⟨hcommit, d, hd, htag, -, rfl⟩ := mem_retiring.1 hk
  obtain ⟨⟨hout, hno⟩ | ⟨-, rfl⟩, -⟩ := mem_outstanding.1 ha
  · refine lt_of_le_of_ne (h.order hcommit d hd htag a hout) ?_
    intro heq
    rw [← outstanding_inj hK hd hout heq, htag, hcommit] at hno
    simp at hno
  · exact hK.bound d hd

theorem retired_order_step (hK : BookInv cfg s b) :
    (b.update cfg s i).retired.Pairwise (· < ·) := by
  rw [Book.update, List.pairwise_append]
  refine ⟨hK.order, ?_, ?_⟩
  · unfold Book.retiring
    split_ifs
    · exact hK.sorted.sublist (List.filter_sublist.map _)
    · exact List.Pairwise.nil
  · intro j hj k hk
    obtain ⟨-, d, hd, -, -, rfl⟩ := mem_retiring.1 hk
    exact hK.past j hj d hd

theorem past_step (hK : BookInv cfg s b) (h : BookLegal cfg s b i) :
    ∀ k ∈ (b.update cfg s i).retired, ∀ a ∈ (b.update cfg s i).outstanding, k < a.1 := by
  intro k hk a ha
  rcases List.mem_append.1 hk with hold | hnew
  · exact lt_reach_of_retired hK hold (mem_reach.2 ((mem_outstanding.1 ha).1.imp And.left id))
  · exact retiring_past hK h hnew a ha

/-- A live unretired store whose tag commits retires. -/
theorem retiring_of_commits (hK : BookInv cfg s b) {c : SqEntry} (hc : c ∈ s.sq)
    (hk : c.killed = false) (hcc : c.committed = false) (hcommit : commits i c = true) :
    c.serial ∈ b.retiring i := by
  obtain ⟨hout, hqueued⟩ := hK.store c hc hk hcc
  rw [commits, Bool.and_eq_true, decide_eq_true_eq] at hcommit
  exact mem_retiring.2 ⟨hcommit.1, _, hout, hcommit.2, hqueued, rfl⟩

/-- **What the queue offers has retired**, on this edge or before. -/
theorem retired_of_sqOffer (hK : BookInv cfg s b) (h : BookLegal cfg s b i)
    (ho : sqOffer cfg s i = true) : (sqHead s).serial ∈ (b.update cfg s i).retired := by
  obtain ⟨hvalid, hk, hdone⟩ := sqOffer_live ho
  have hmem := sqHead_mem hvalid
  cases hcc : (sqHead s).committed with
  | true => exact List.mem_append_left _ (hK.committed _ hmem hcc)
  | false =>
    rw [hcc] at hdone
    obtain ⟨hcommit, htag⟩ := hdone.resolve_left Bool.false_ne_true
    refine List.mem_append_right _ (retiring_of_commits hK hmem hk hcc ?_)
    rw [commits, h.memory hcommit, htag]
    simp

theorem committed_book_step (hK : BookInv cfg s b) (h : BookLegal cfg s b i) :
    ∀ c ∈ (step cfg s i).sq, c.committed = true → c.serial ∈ (b.update cfg s i).retired := by
  intro c' hc' hcc'
  rcases mem_sq_step h.running hc' with ⟨c, hc, rfl⟩ | ⟨hq, rfl⟩
  · rcases of_sqNext_committed hcc' with hdone | ⟨hcc, hk, -, hcommit⟩
    · exact List.mem_append_left _ (hK.committed c hc hdone)
    · have hret := retiring_of_commits hK hc hk hcc hcommit
      exact List.mem_append_right _ hret
  · rcases of_sqNext_committed hcc' with hdone | ⟨-, -, -, hcommit⟩
    · cases hdone
    · rw [show commits i (added cfg s i) = false from not_commits_added h hq] at hcommit
      cases hcommit

theorem accepted_order_step (hK : BookInv cfg s b) :
    (b.update cfg s i).accepted.Pairwise (· < ·) := by
  rw [Book.update, List.pairwise_append]
  refine ⟨hK.accepted, ?_, ?_⟩
  · split_ifs
    · exact List.pairwise_singleton _ _
    · exact List.Pairwise.nil
  · intro j hj k hk
    split_ifs at hk with hfire
    · rw [List.mem_singleton.1 hk]
      rw [sqFire, Bool.and_eq_true] at hfire
      exact (hK.ahead j hj).2.1 _ (sqHead_mem (sqOffer_live hfire.1).1)
    · exact absurd hk List.not_mem_nil

/-- A queued store is older than everything in P1 after the edge. -/
theorem lt_p1_step (hrun : i.rstN = true) (hp1 : ∀ e ∈ s.p1, k < e.serial)
    (hbound : k < s.serials) : ∀ e ∈ (step cfg s i).p1, k < e.serial := by
  intro e' he'
  rcases mem_p1_step hrun he' with ⟨e, he, hfixed, -⟩ | ⟨e, he, hfixed, -⟩
  · rw [serial_of_fixed hfixed]
    exact hp1 e (mem_p1_of_left he)
  · rw [serial_of_fixed hfixed, (dispatched_spec he).2.1]
    exact hbound

/-- **What the port has accepted from the queue** has retired and is older than what is
left. -/
theorem ahead_step (hI : OrderInv s) (hK : BookInv cfg s b) (h : BookLegal cfg s b i) :
    ∀ k ∈ (b.update cfg s i).accepted, k ∈ (b.update cfg s i).retired ∧
      (∀ c ∈ (step cfg s i).sq, k < c.serial) ∧ ∀ e ∈ (step cfg s i).p1, k < e.serial := by
  have hrun := h.running
  intro k hk
  rcases List.mem_append.1 hk with hold | hnew
  · obtain ⟨hret, hsq, hp1⟩ := hK.ahead k hold
    refine ⟨List.mem_append_left _ hret, ?_,
      lt_p1_step hrun hp1 (hK.seen k (Or.inr (Or.inr hret)))⟩
    intro c' hc'
    rcases mem_sq_step hrun hc' with ⟨c, hc, rfl⟩ | ⟨hq, rfl⟩
    · exact hsq c hc
    · exact hp1 _ (p1Head_mem (p1Queue_spec hq).1)
  · split_ifs at hnew with hfire
    · rw [List.mem_singleton.1 hnew]
      have hoffer := hfire
      rw [sqFire, Bool.and_eq_true] at hoffer
      have hvalid := (sqOffer_live hoffer.1).1
      have hmem := sqHead_mem hvalid
      refine ⟨retired_of_sqOffer hK h hoffer.1, ?_,
        lt_p1_step hrun (hI.queued _ hmem) (hI.sqBound _ hmem)⟩
      intro c' hc'
      rcases mem_sq_left hrun hc' with ⟨c, -, rfl, htail⟩ | ⟨hq, rfl⟩
      · have hsorted := hI.sorted
        rw [sq_eq hvalid, List.map_cons, List.pairwise_cons] at hsorted
        have hlt := hsorted.1 c.serial (List.mem_map_of_mem (htail hfire))
        exact hlt
      · exact hI.queued _ hmem _ (p1Head_mem (p1Queue_spec hq).1)
    · exact absurd hnew List.not_mem_nil

theorem write_step (hI : OrderInv s) (hK : BookInv cfg s b) (hrun : i.rstN = true) :
    ∀ x ∈ (step cfg s i).p2, x.write = true → x.serial ∈ (b.update cfg s i).accepted := by
  intro x' hx' hw
  rcases mem_p2_step hrun hx' with ⟨x, hx, rfl⟩ | ⟨hfire, rfl⟩
  · exact List.mem_append_left _ (hK.write x hx hw)
  · have hwrite : (pushed cfg s i).write = true := hw
    rcases hfire with hp1 | hsq
    · rw [write_of_fixed (pushed_of_fire (sqFire_of_p1Fire hp1)).1,
        hI.plain _ (p1Head_mem (p1Fire_spec hp1).2.2.1)] at hwrite
      cases hwrite
    · rw [Book.update, if_pos hsq]
      exact List.mem_append_right _ (List.mem_singleton.2 (pushed_of_sqFire hsq).2.1)

theorem accepted_of_storeError (hK : BookInv cfg s b) (herr : storeError cfg s i = true) :
    (p2Head s).serial ∈ b.accepted := by
  simp only [storeError, Bool.and_eq_true] at herr
  exact hK.write _ (p2Head_mem (p2Retire_spec herr.1.1).1) herr.1.2

theorem failed_step (hK : BookInv cfg s b) :
    ∀ e ∈ (b.update cfg s i).failed, e ∈ (b.update cfg s i).accepted := by
  intro e he
  rcases List.mem_append.1 he with hold | hnew
  · exact List.mem_append_left _ (hK.failed e hold)
  · split_ifs at hnew with herr
    · rw [List.mem_singleton.1 hnew]
      exact List.mem_append_left _ (accepted_of_storeError hK herr)
    · exact absurd hnew List.not_mem_nil

/-- A failed write is older than the stores left in the queue. -/
theorem failed_of_storeError (hK : BookInv cfg s b) (herr : storeError cfg s i = true)
    {c : SqEntry} (hc : c ∈ s.sq) : ∃ e ∈ (b.update cfg s i).failed, e < c.serial := by
  refine ⟨(p2Head s).serial, ?_, (hK.ahead _ (accepted_of_storeError hK herr)).2.1 c hc⟩
  rw [Book.update, if_pos herr]
  exact List.mem_append_right _ (List.mem_singleton.2 rfl)

/-- A live store that has retired by the edge is accepted, waits, or is cancelled by a
failed write. -/
theorem waits_of_committed (hK : BookInv cfg s b) (hrun : i.rstN = true) {c : SqEntry}
    (hc : c ∈ s.sq) (hk : c.killed = false) (hdone : (sqNext cfg s i c).committed = true)
    (hkilled : (sqNext cfg s i c).killed = storeError cfg s i) :
    c.serial ∈ (b.update cfg s i).accepted ∨
      (∃ d ∈ (step cfg s i).sq, d.serial = c.serial ∧ d.committed = true ∧ d.killed = false) ∨
        ∃ e ∈ (b.update cfg s i).failed, e < c.serial := by
  rcases sq_stays hrun (hK.config (List.ne_nil_of_mem hc)) hc with hin | ⟨rfl, hfire | hdrop⟩
  · cases herr : storeError cfg s i with
    | true => exact Or.inr (Or.inr (failed_of_storeError hK herr hc))
    | false => exact Or.inr (Or.inl ⟨_, hin, rfl, hdone, hkilled.trans herr⟩)
  · left
    rw [Book.update, if_pos hfire]
    exact List.mem_append_right _ (List.mem_singleton.2 rfl)
  · rw [sqDrop, hk, Bool.and_false] at hdrop
    cases hdrop

/-- **A retired store waits in the queue until it is accepted.** -/
theorem waits_step (hI : OrderInv s) (hK : BookInv cfg s b) (h : BookLegal cfg s b i)
    (hU : Unharmed b i) : ∀ k ∈ (b.update cfg s i).retired, k ∈ (b.update cfg s i).accepted ∨
      (∃ c ∈ (step cfg s i).sq, c.serial = k ∧ c.committed = true ∧ c.killed = false) ∨
        ∃ e ∈ (b.update cfg s i).failed, e < k := by
  have hrun := h.running
  intro k hk
  rcases List.mem_append.1 hk with hold | hnew
  · rcases hK.waits k hold with ha | ⟨c, hc, rfl, hdone, hlive⟩ | ⟨e, he, hlt⟩
    · exact Or.inl (List.mem_append_left _ ha)
    · obtain ⟨h1, h2⟩ := @sqNext_of_committed cfg s i c hdone
      rw [hlive, Bool.false_or] at h2
      exact waits_of_committed hK hrun hc hlive h1 h2
    · exact Or.inr (Or.inr ⟨e, List.mem_append_left _ he, hlt⟩)
  · obtain ⟨hcommit, a, ha, htag, hqueued, rfl⟩ := mem_retiring.1 hnew
    rcases hK.queue a ha hqueued with ⟨c, hc, hser, hlive, hcc⟩ | hb | hs
    · have heq : a = (c.serial, c.producer) :=
        outstanding_inj hK ha (hK.store c hc hlive hcc).1 hser.symm
      subst heq
      have hnow : killedNow i c.producer = false := by
        have hkept := h.kept hcommit
        rw [← htag] at hkept
        exact hkept
      have hm : marks cfg s i c = false := by
        -- an access whose fault is taken is outstanding, and older
        by_contra hm
        obtain ⟨f, hf, hlt⟩ := (marks_iff hI hc hlive hcc hnow).1 (by simpa using hm)
        obtain ⟨e, he, hek, rfl⟩ := fault_live hI hf
        have hle := h.order hcommit _ ha htag _ (hK.line e he hek).1
        exact absurd hle (Nat.not_le.2 hlt)
      have hdone : commits i c = true := by
        have htag' : c.producer = i.commitTag := htag
        rw [commits, hcommit, htag']
        simp
      obtain ⟨h1, h2⟩ := sqNext_of_waiting hlive hcc hm
      rw [hdone] at h1
      rw [hdone, Bool.true_and] at h2
      exact waits_of_committed hK hrun hc hlive h1 h2
    · exact absurd hb (h.excepted hcommit a ha htag)
    · exact absurd hs (hU hcommit a ha htag hqueued)

/-- **What the queue offers has not been removed**, on this edge either. -/
theorem not_removed_of_sqOffer (hI : OrderInv s) (hK : BookInv cfg s b)
    (h : BookLegal cfg s b i) (ho : sqOffer cfg s i = true) :
    (sqHead s).serial ∉ (b.update cfg s i).removed := by
  obtain ⟨hvalid, hk, -⟩ := sqOffer_live ho
  have hret := retired_of_sqOffer hK h ho
  -- nothing outstanding on the edge is the store, unless it retires unnamed and unfaulted
  have hreach : ∀ a ∈ b.reach cfg s i, a.1 = (sqHead s).serial →
      i.commit = true ∧ a ∈ b.outstanding ∧ a.2 = i.commitTag := by
    intro a ha hser
    rcases List.mem_append.1 hret with hold | hnew
    · have hlt := lt_reach_of_retired hK hold ha
      omega
    · obtain ⟨hcommit, d, hd, htag, -, hdser⟩ := mem_retiring.1 hnew
      rw [reach_inj hK ha (reach_of_outstanding hd) (hser.trans hdser.symm)]
      exact ⟨hcommit, hd, htag⟩
  intro hrem
  rcases mem_removed_update hrem with hold | ⟨a, ha, hser, hnow⟩ | hbehind
  · exact hK.removed _ (sqHead_mem hvalid) hk hold
  · obtain ⟨hcommit, -, htag⟩ := hreach a ha hser
    rw [htag, h.kept hcommit] at hnow
    cases hnow
  · obtain ⟨f, hf, hlt, a, ha, hser⟩ := mem_behind.1 hbehind
    obtain ⟨hcommit, hout, htag⟩ := hreach a ha hser
    obtain ⟨e, he, hek, rfl⟩ := fault_live hI hf
    have hle := h.order hcommit a hout htag _ (hK.line e he hek).1
    have hle' : a.1 ≤ e.serial := hle
    omega

theorem bookInv_step (hI : OrderInv s) (hK : BookInv cfg s b) (h : BookLegal cfg s b i)
    (hU : Unharmed b i) : BookInv cfg (step cfg s i) (b.update cfg s i) where
  config := by
    intro hne
    by_contra hcfg
    rw [(step_running h.running).2.2.1, if_neg hcfg] at hne
    exact hne rfl
  sorted := sorted_step hK
  bound := bound_step' hK h.running
  seen := seen_step hI hK h.running
  line := line_book_step hK h
  store := store_book_step hK h
  removed := removed_book_step hI hK h
  queue := queue_book_step hI hK h
  order := retired_order_step hK
  past := past_step hK h
  committed := committed_book_step hK h
  accepted := accepted_order_step hK
  ahead := ahead_step hI hK h
  write := write_step hI hK h.running
  failed := failed_step hK
  waits := waits_step hI hK h hU

end Step

/-! ## Runs -/

section Runs

/-- The stores the port has accepted from the queue are the retired ones, in the order
they retired, each once; those not accepted wait behind them, or are behind a failed
write. -/
structure Written (s : State) (b : Book) : Prop where
  once : b.retired.Nodup
  inOrder : b.accepted.Sublist b.retired
  failed : b.failed ⊆ b.accepted
  behind : ∀ k ∈ b.accepted, ∀ c ∈ s.sq, k < c.serial
  waits : ∀ k ∈ b.retired, k ∈ b.accepted ∨
    (∃ c ∈ s.sq, c.serial = k ∧ c.committed = true ∧ c.killed = false) ∨ ∃ e ∈ b.failed, e < k

theorem written_of_inv (hK : BookInv cfg s b) : Written s b where
  once := hK.order.imp fun hlt => Nat.ne_of_lt hlt
  inOrder := List.sublist_of_subperm_of_pairwise
    (List.subperm_of_subset (hK.accepted.imp fun hlt => Nat.ne_of_lt hlt)
      fun k hk => (hK.ahead k hk).1) hK.accepted hK.order
  failed := hK.failed
  behind := fun k hk => (hK.ahead k hk).2.1
  waits := hK.waits

/-- The edge keeps the rules, and retires no store that a load set aside removed. -/
def BookCareful (cfg : Config) (s : State) (b : Book) (i : Input) : Prop :=
  BookLegal cfg s b i ∧ Unharmed b i

theorem bookInv_run {r : Run (machine cfg)} {n : ℕ}
    (h : r.ObeysRecord Book.start (Book.update cfg) (BookCareful cfg) n) :
    OrderInv (r.state n) ∧ BookInv cfg (r.state n) (book cfg r n) := by
  refine Run.invariant_record (I := fun s b => OrderInv s ∧ BookInv cfg s b)
    (fun s hs => ?_) (fun s b i hI hi => ?_) h
  · rw [show s = resetState from hs]
    exact ⟨orderInv_reset, bookInv_reset⟩
  · exact ⟨orderInv_step hI.1 hi.1.toLegal, bookInv_step hI.1 hI.2 hi.1 hi.2⟩

/-- **The store queue writes the retired stores, once, in order.**  In every run of such
edges, what the queue offers is a store that has retired, on that edge or before, and
that nothing has removed; and the port's record of the queue is that of the retired
stores. -/
theorem queue_writes_retired (cfg : Config) (r : Run (machine cfg)) (n : ℕ)
    (h : r.ObeysRecord Book.start (Book.update cfg) (BookCareful cfg) n) :
    Written (r.state n) (book cfg r n) ∧
      ∀ j < n, sqOffer cfg (r.state j) (r.input j) = true →
        (sqHead (r.state j)).serial ∈ (book cfg r (j + 1)).retired ∧
          (sqHead (r.state j)).serial ∉ (book cfg r (j + 1)).removed := by
  refine ⟨written_of_inv (bookInv_run h).2, ?_⟩
  intro j hj ho
  obtain ⟨hI, hK⟩ := bookInv_run (h.mono (le_of_lt hj))
  have hlegal := (h j hj).1
  exact ⟨retired_of_sqOffer hK hlegal ho, not_removed_of_sqOffer hI hK hlegal ho⟩

/-- A store queues, a load passes it, and a second store queues behind the load, which
then answers, with an error or without; the first store retires and is written, the
load retires after it, and last the second store. -/
def youngInputs (error : Bool) : ℕ → Input
  | 0 => { dispatchValid := true, uop := .storeWord, producer := ⟨0, 1⟩, ea := 0x100 }
  | 1 => { dispatchValid := true, uop := .loadWord, producer := ⟨1, 1⟩, ea := 0x200,
           chkOk := true }
  | 2 => { dispatchValid := true, uop := .storeWord, producer := ⟨2, 1⟩, ea := 0x300,
           reqReady := true }
  | 3 => { chkOk := true }
  | 4 => { rspValid := true, rspError := error }
  | 5 => { commit := true, commitTag := ⟨0, 1⟩, commitMem := true, reqReady := true }
  | 6 => { rspValid := true }
  | 7 => { adoptReady := true }
  | 8 => { commit := true, commitTag := ⟨1, 1⟩, commitMem := true }
  | 9 => { commit := true, commitTag := ⟨2, 1⟩, commitMem := true, reqReady := true }
  | _ => { reqReady := true }

/-- The run of these inputs from reset. -/
def youngRun (error : Bool) : Run (machine queueConfig) := ⟨resetState, rfl, youngInputs error⟩

theorem youngRun_obeys : (youngRun true).ObeysRecord Book.start (Book.update queueConfig)
    (BookLegal queueConfig) 11 := by
  intro k hk
  interval_cases k <;> decide

/-- **A retired store is not written.**  The second store has retired, the queue is
empty, the port has accepted only the first, and no write has failed. -/
theorem retired_store_unwritten :
    (youngRun true).ObeysRecord Book.start (Book.update queueConfig) (BookLegal queueConfig) 11 ∧
      2 ∈ (book queueConfig (youngRun true) 11).retired ∧
      2 ∉ (book queueConfig (youngRun true) 11).accepted ∧
      ((youngRun true).state 11).sq = [] ∧ (book queueConfig (youngRun true) 11).failed = [] :=
  ⟨youngRun_obeys, by decide, by decide, by decide, by decide⟩

theorem youngRun_careful : (youngRun false).ObeysRecord Book.start (Book.update queueConfig)
    (BookCareful queueConfig) 11 := by
  intro k hk
  interval_cases k <;> exact ⟨by decide, by decide⟩

theorem youngRun_offers :
    sqOffer queueConfig ((youngRun false).state 5) ((youngRun false).input 5) = true := by decide

/-- Without the error both stores are written. -/
theorem queue_writes_retired_youngRun :
    Written ((youngRun false).state 11) (book queueConfig (youngRun false) 11) ∧
      2 ∈ (book queueConfig (youngRun false) 11).accepted ∧
      (sqHead ((youngRun false).state 5)).serial ∈
        (book queueConfig (youngRun false) (5 + 1)).retired := by
  obtain ⟨hwritten, hoffers⟩ :=
    queue_writes_retired queueConfig (youngRun false) 11 youngRun_careful
  exact ⟨hwritten, by decide, (hoffers 5 (by decide) youngRun_offers).1⟩

end Runs

end Lsu
end SloPPC603
