import BuildAdvisor.Random.Sample
import Mathlib.Data.List.Basic

/-!
Samples are distinct positions.

* `Sampler.Distinct` — what clustering relies on: as many positions as are wanted, all in range,
  none twice;
* `Generator.uniform_mem` — a drawn number lies between its bounds;
* `shuffleForward_perm`, `shuffleBackward_perm` — a shuffle moves elements and changes none;
* `floydSteps_fresh` — each step adds one position below the next bound;
* `Generator.sample_distinct` — the sampler of the program is as relied on, whatever words its
  generator gives.
-/

set_option autoImplicit false

namespace BuildAdvisor.Random

structure Sampler.Distinct {σ : Type} (sample : Sampler σ) : Prop where
  length : ∀ n k s, k ≤ n → (sample n k s).1.length = k
  nodup : ∀ n k s, k ≤ n → (sample n k s).1.Nodup
  lt : ∀ n k s, k ≤ n → ∀ i ∈ (sample n k s).1, i < n

/-! ## Draws -/

theorem Generator.draw_lt {range : Nat} (hr : 0 < range) (attempts : Nat) (g : Generator) :
    (Generator.draw range attempts g).1 < range := by
  induction attempts generalizing g with
  | zero => exact hr
  | succ attempts ih =>
    simp only [Generator.draw]
    split
    · -- The high half of a product with a word is below the other factor.
      have hw : g.next.1.toNat < UInt32.size := UInt32.toNat_lt g.next.1
      exact Nat.div_lt_of_lt_mul (Nat.mul_lt_mul_of_pos_right hw hr)
    · exact ih _

theorem Generator.uniform_mem {low high : Nat} (h : low ≤ high) (g : Generator) :
    low ≤ (Generator.uniform low high g).1 ∧ (Generator.uniform low high g).1 ≤ high := by
  have hd : (Generator.draw (high - low + 1) Generator.attempts g).1 < high - low + 1 :=
    Generator.draw_lt (Nat.succ_pos _) _ g
  simp only [Generator.uniform]
  omega

/-! ## Shuffles -/

theorem swapAt_perm (xs : List Nat) (i j : Nat) : (swapAt xs i j).Perm xs := by
  rw [swapAt]
  split
  next x y hx hy =>
    obtain ⟨hi, rfl⟩ := List.getElem?_eq_some_iff.mp hx
    obtain ⟨hj, rfl⟩ := List.getElem?_eq_some_iff.mp hy
    exact List.set_set_perm hi hj
  next => exact List.Perm.refl xs

theorem shuffleForward_perm (n count i : Nat) (xs : List Nat) (g : Generator) :
    (shuffleForward n count i xs g).1.Perm xs := by
  induction count generalizing i xs g with
  | zero => exact List.Perm.refl xs
  | succ count ih => exact (ih _ _ _).trans (swapAt_perm _ _ _)

theorem shuffleBackward_perm (i : Nat) (xs : List Nat) (g : Generator) :
    (shuffleBackward i xs g).1.Perm xs := by
  induction i generalizing xs g with
  | zero => exact List.Perm.refl xs
  | succ i ih => exact (ih _ _).trans (swapAt_perm _ _ _)

/-! ## Samples -/

/-- `xs` holds `m` different positions below a bound. -/
structure Positions (bound m : Nat) (xs : List Nat) : Prop where
  length : xs.length = m
  nodup : xs.Nodup
  lt : ∀ i ∈ xs, i < bound

theorem Positions.perm {bound m : Nat} {xs ys : List Nat} (h : Positions bound m xs)
    (hp : ys.Perm xs) : Positions bound m ys where
  length := hp.length_eq.trans h.length
  nodup := hp.nodup_iff.mpr h.nodup
  lt i hi := h.lt i (hp.mem_iff.mp hi)

theorem sampleInPlace_positions {n k : Nat} (hk : k ≤ n) (g : Generator) :
    Positions n k (sampleInPlace n k g).1 := by
  have hp := shuffleForward_perm n k 0 (List.range n) g
  have hs := List.take_sublist k (shuffleForward n k 0 (List.range n) g).1
  refine ⟨?_, (hp.nodup_iff.mpr List.nodup_range).sublist hs, ?_⟩
  · simp only [sampleInPlace, List.length_take, hp.length_eq, List.length_range]
    omega
  · exact fun i hi => List.mem_range.mp (hp.mem_iff.mp (hs.mem hi))

/-- A position that was already there makes room for the bound, which is new. -/
theorem Positions.extend {j m t : Nat} {xs : List Nat} (h : Positions j m xs) (ht : t ≤ j)
    (inOrder : Bool) :
    Positions (j + 1) (m + 1)
      (match xs.idxOf? t with
      | none => xs ++ [t]
      | some place => if inOrder then xs.insertIdx place j else xs ++ [j]) := by
  have hj : j ∉ xs := fun hm => Nat.lt_irrefl j (h.lt j hm)
  have append_new : ∀ x, x ∉ xs → x ≤ j → Positions (j + 1) (m + 1) (xs ++ [x]) := by
    intro x hx hxj
    refine ⟨by simp [h.length], ?_, ?_⟩
    · rw [List.nodup_append]
      refine ⟨h.nodup, List.nodup_cons.mpr ⟨by simp, List.nodup_nil⟩, ?_⟩
      rintro y hy z hz rfl
      exact hx (List.mem_singleton.mp hz ▸ hy)
    · intro i hi
      rcases List.mem_append.mp hi with hi | hi
      · exact Nat.lt_succ_of_lt (h.lt i hi)
      · obtain rfl := List.mem_singleton.mp hi
        exact Nat.lt_succ_of_le hxj
  split
  next he => exact append_new t (List.idxOf?_eq_none_iff.mp he) ht
  next place he =>
    split
    · have hp : place ≤ xs.length := by
        obtain ⟨hl, _⟩ := List.idxOf?_eq_some_iff.mp he
        exact Nat.le_of_lt hl
      exact (append_new j hj (Nat.le_refl j)).perm
        ((List.perm_insertIdx j xs hp).trans (List.perm_append_singleton j xs).symm)
    · exact append_new j hj (Nat.le_refl j)

theorem floydSteps_fresh (inOrder : Bool) (count j m : Nat) (xs : List Nat) (g : Generator)
    (h : Positions j m xs) :
    Positions (j + count) (m + count) (floydSteps inOrder count j xs g).1 := by
  induction count generalizing j m xs g with
  | zero => exact h
  | succ count ih =>
    have ht := (Generator.uniform_mem (Nat.zero_le j) g).2
    have hr := ih (j + 1) (m + 1) _ (Generator.uniform 0 j g).2 (h.extend ht inOrder)
    rw [Nat.add_right_comm j, Nat.add_right_comm m] at hr
    exact hr

theorem sampleFloyd_positions {n k : Nat} (hk : k ≤ n) (g : Generator) :
    Positions n k (sampleFloyd n k g).1 := by
  have hs := floydSteps_fresh (decide (k < smallSample)) k (n - k) 0 [] g
    ⟨rfl, List.nodup_nil, by simp⟩
  rw [Nat.sub_add_cancel hk, Nat.zero_add] at hs
  simp only [sampleFloyd]
  split
  · exact hs
  · exact hs.perm (shuffleBackward_perm _ _ _)

theorem Generator.sample_positions {n k : Nat} (hk : k ≤ n) (g : Generator) :
    Positions n k (Generator.sample n k g).1 := by
  rw [Generator.sample]
  split
  · exact sampleInPlace_positions hk g
  · exact sampleFloyd_positions hk g

theorem Generator.sample_distinct : Sampler.Distinct Generator.sample where
  length _ _ g hk := (Generator.sample_positions hk g).length
  nodup _ _ g hk := (Generator.sample_positions hk g).nodup
  lt _ _ g hk := (Generator.sample_positions hk g).lt

end BuildAdvisor.Random
