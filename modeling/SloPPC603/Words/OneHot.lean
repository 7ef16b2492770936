import Mathlib.Data.List.Nodup

/-!
# One-hot selection

A multiplexer that or-s together the words of the positions whose select bit is
set.  With one bit set it gives that position's word, with none the word it
started from.

* `gather` — the multiplexer, for any way of joining two words.
* `gather_none`, `gather_one` — what it gives with no bit set and with one.
-/

namespace SloPPC603
namespace Words

variable {ι α : Type*} {join : α → α → α} {sel : ι → Bool} {f : ι → α} {l : List ι} {a : α}

/-- The words of the selected positions of a list, joined one after another to `a`. -/
def gather (join : α → α → α) (sel : ι → Bool) (f : ι → α) (l : List ι) (a : α) : α :=
  l.foldl (fun acc v => if sel v then join acc (f v) else acc) a

theorem gather_none (h : ∀ v ∈ l, sel v = false) : gather join sel f l a = a := by
  induction l with
  | nil => rfl
  | cons v l ih =>
    have hv := h v (List.mem_cons_self ..)
    have hl := ih fun u hu => h u (List.mem_cons_of_mem _ hu)
    simpa [gather, hv] using hl

/-- **With one position selected its word is joined, once.** -/
theorem gather_one {w : ι} (hnd : l.Nodup) (hw : w ∈ l) (hsel : sel w = true)
    (huniq : ∀ v ∈ l, sel v = true → v = w) : gather join sel f l a = join a (f w) := by
  induction l generalizing a with
  | nil => exact absurd hw List.not_mem_nil
  | cons v l ih =>
    obtain ⟨hv, hl⟩ := List.nodup_cons.1 hnd
    by_cases heq : v = w
    · subst heq
      have hrest : ∀ u ∈ l, sel u = false := by
        intro u hu
        by_contra hset
        have hsame := huniq u (List.mem_cons_of_mem _ hu) (by simpa using hset)
        exact hv (hsame ▸ hu)
      have h : gather join sel f l (join a (f v)) = join a (f v) := gather_none hrest
      simpa [gather, hsel] using h
    · have hno : sel v = false := by
        by_contra hset
        exact heq (huniq v (List.mem_cons_self ..) (by simpa using hset))
      have hmem : w ∈ l := (List.mem_cons.1 hw).resolve_left (Ne.symm heq)
      have h : gather join sel f l a = join a (f w) :=
        ih hl hmem fun u hu => huniq u (List.mem_cons_of_mem _ hu)
      simpa [gather, hno] using h

end Words
end SloPPC603
