import BuildAdvisor.Random.Generator
import BuildAdvisor.Proofs.Scalar.Divisor

/-!
Operations that report their faults.

* `Fault` — what can go wrong in an operation of machine numbers and lists;
* `divide`, `quotient`, `add`, `clamp`, `clampCount`, `element`, `modify`, `choose` — the
  operations, each with the condition under which it has its value;
* `mapM_eq_pure`, `filterM_eq_pure`, `foldlM_eq_pure` — loops without a fault: of a fold it is to
  be known what each beginning of the list makes of the state;
* `foldlM_eq_error` — a fold that meets an element it cannot take;
* `modify_map` — one place of a list that is given by its keys;
* `tally_eq`, `countIf_eq` — counters that are large enough for the list.

A checked form of a function is written with these operations in the places where the function
divides, counts, clamps and indexes.  That it returns the value of the function says that none of
them fails.
-/

set_option autoImplicit false

namespace BuildAdvisor.Checked

inductive Fault where
  | zeroDivisor
  | overflow
  | emptyRange
  | outOfRange
deriving DecidableEq

/-! ## Numbers -/

section Numbers

variable {α : Type} [Scalar α]

def divide (x y : α) : Except Fault α :=
  if Scalar.isZero y then .error .zeroDivisor else pure (x / y)

theorem divide_eq {x y : α} (h : Scalar.isZero y = false) : divide x y = pure (x / y) := by
  rw [divide, h, if_neg Bool.false_ne_true]

theorem divide_count [Scalar.Counting α] (x : α) {n : Nat} (hn : 0 < n) :
    divide x (n : α) = pure (x / (n : α)) :=
  divide_eq (Scalar.Counting.cast_not_zero hn)

/-- A share of a count that may be zero; then it is `otherwise`. -/
def divideIfAny (x otherwise : α) (n : Nat) : Except Fault α :=
  if 0 < n then divide x (n : α) else pure otherwise

@[simp] theorem divideIfAny_eq [Scalar.Counting α] (x otherwise : α) (n : Nat) :
    divideIfAny x otherwise n = pure (if 0 < n then x / (n : α) else otherwise) := by
  rw [divideIfAny]
  split
  next hn => exact divide_count x hn
  next => rfl

def clamp (low high x : α) : Except Fault α :=
  if low ≤ high then pure (Scalar.clamp low high x) else .error .emptyRange

def clampUnit (x : α) : Except Fault α :=
  clamp 0.0 1.0 x

@[simp] theorem clampUnit_eq [Scalar.Counting α] (x : α) :
    clampUnit x = pure (Scalar.clampUnit x) :=
  if_pos Scalar.Counting.zero_le_one

end Numbers

/-! ## Counters -/

def quotient (m n : Nat) : Except Fault Nat :=
  if n = 0 then .error .zeroDivisor else pure (m / n)

theorem quotient_eq (m : Nat) {n : Nat} (hn : 0 < n) : quotient m n = pure (m / n) :=
  if_neg hn.ne'

def clampCount (low high n : Nat) : Except Fault Nat :=
  if low ≤ high then pure (max low (min n high)) else .error .emptyRange

theorem clampCount_eq {low high : Nat} (h : low ≤ high) (n : Nat) :
    clampCount low high n = pure (max low (min n high)) :=
  if_pos h

/-- `limit` is the number of values that a counter has. -/
def add (limit m n : Nat) : Except Fault Nat :=
  if m + n < limit then pure (m + n) else .error .overflow

theorem add_eq {limit m n : Nat} (h : m + n < limit) : add limit m n = pure (m + n) :=
  if_pos h

def increment (limit n : Nat) : Except Fault Nat :=
  add limit n 1

theorem increment_eq {limit n : Nat} (h : n + 1 < limit) : increment limit n = pure (n + 1) :=
  add_eq h

def subtract (m n : Nat) : Except Fault Nat :=
  if n ≤ m then pure (m - n) else .error .overflow

theorem subtract_eq {m n : Nat} (h : n ≤ m) : subtract m n = pure (m - n) :=
  if_pos h

/-- As many negative numbers as others, `limit` of each. -/
def addSigned (limit : Nat) (m n : Int) : Except Fault Int :=
  if -limit ≤ m + n ∧ m + n < limit then pure (m + n) else .error .overflow

/-! ## Places -/

section Places

variable {β κ : Type}

def element (xs : List β) (i : Nat) : Except Fault β :=
  match xs[i]? with
  | some x => pure x
  | none => .error .outOfRange

theorem element_eq {xs : List β} {i : Nat} {x : β} (h : xs[i]? = some x) :
    element xs i = pure x := by
  rw [element, h]

/-- Changes one element, by a change that may itself have a fault. -/
def modify (xs : List β) (i : Nat) (change : β → Except Fault β) : Except Fault (List β) := do
  let x ← element xs i
  let y ← change x
  pure (xs.set i y)

theorem modify_map {keys : List κ} (hn : keys.Nodup) {i : Nat} {key : κ} (hk : keys[i]? = some key)
    {f g : κ → β} {change : β → Except Fault β} (hchange : change (f key) = pure (g key))
    (hsame : ∀ k ∈ keys, k ≠ key → g k = f k) :
    modify (keys.map f) i change = pure (keys.map g) := by
  have hx : (keys.map f)[i]? = some (f key) := by rw [List.getElem?_map, hk, Option.map_some]
  rw [modify, element_eq hx, pure_bind, hchange, pure_bind]
  refine congrArg pure (List.ext_getElem? fun j => ?_)
  rw [List.getElem?_set, List.length_map, List.getElem?_map, List.getElem?_map]
  obtain ⟨hi, hkey⟩ := List.getElem?_eq_some_iff.mp hk
  split_ifs with hij
  · rw [← hij, hk, Option.map_some]
  · cases hj : keys[j]? with
    | none => rfl
    | some k =>
      obtain ⟨hj', rfl⟩ := List.getElem?_eq_some_iff.mp hj
      have hne : keys[j] ≠ key := fun he => hij (hn.getElem_inj_iff.mp (he.trans hkey.symm)).symm
      rw [Option.map_some, Option.map_some, hsame _ (List.getElem_mem hj') hne]

example : modify [5, 7] 2 (increment 9) = .error .outOfRange := rfl

example : modify [5, 8] 1 (increment 9) = .error .overflow := rfl

/-- Positions are chosen among `n`, no more of them than there are. -/
def choose {σ : Type} (sample : Random.Sampler σ) (n k : Nat) (s : σ) :
    Except Fault (List Nat × σ) :=
  if k ≤ n then pure (sample n k s) else .error .outOfRange

theorem choose_eq {σ : Type} (sample : Random.Sampler σ) {n k : Nat} (h : k ≤ n) (s : σ) :
    choose sample n k s = pure (sample n k s) :=
  if_pos h

end Places

/-! ## Loops -/

section Loops

variable {β γ σ ε : Type}

theorem mapM_eq_pure {f : β → Except ε γ} {g : β → γ} {xs : List β}
    (h : ∀ x ∈ xs, f x = pure (g x)) : xs.mapM f = pure (xs.map g) := by
  induction xs with
  | nil => rfl
  | cons x rest ih =>
    obtain ⟨hx, hrest⟩ := List.forall_mem_cons.mp h
    rw [List.mapM_cons, hx, pure_bind, ih hrest, pure_bind, List.map_cons]

theorem filterAuxM_eq_pure {f : β → Except ε Bool} {p : β → Bool} {xs : List β}
    (h : ∀ x ∈ xs, f x = pure (p x)) (kept : List β) :
    List.filterAuxM f xs kept = pure ((xs.filter p).reverse ++ kept) := by
  induction xs generalizing kept with
  | nil => rfl
  | cons x rest ih =>
    obtain ⟨hx, hrest⟩ := List.forall_mem_cons.mp h
    rw [List.filterAuxM, hx, pure_bind, ih hrest, List.filter_cons]
    cases p x <;> simp

theorem filterM_eq_pure {f : β → Except ε Bool} {p : β → Bool} {xs : List β}
    (h : ∀ x ∈ xs, f x = pure (p x)) : xs.filterM f = pure (xs.filter p) := by
  rw [List.filterM, filterAuxM_eq_pure h, pure_bind, List.append_nil, List.reverse_reverse]

/-- The induction is from the end, so that the state is always that of a beginning. -/
theorem foldlM_eq_pure {step : σ → β → Except ε σ} (state : List β → σ) (xs : List β)
    (h : ∀ done x todo, xs = done ++ x :: todo → step (state done) x = pure (state (done ++ [x]))) :
    xs.foldlM step (state []) = pure (state xs) := by
  induction xs using List.reverseRecOn with
  | nil => rfl
  | append_singleton xs x ih =>
    have hbefore := ih fun done y todo he => h done y (todo ++ [x]) (by rw [he]; simp)
    rw [List.foldlM_append, hbefore, pure_bind, List.foldlM_cons, h xs x [] rfl, pure_bind]
    rfl

/-- A loop that meets an element it cannot take stops at the first of them. -/
theorem foldlM_eq_error {step : σ → β → Except ε σ} (state : List β → σ) {good : β → Prop}
    {fault : ε} (xs : List β)
    (hgood : ∀ done x todo, xs = done ++ x :: todo → good x →
      step (state done) x = pure (state (done ++ [x])))
    (hbad : ∀ done x todo, xs = done ++ x :: todo → ¬ good x → step (state done) x = .error fault)
    (h : ¬ ∀ x ∈ xs, good x) : xs.foldlM step (state []) = .error fault := by
  induction xs using List.reverseRecOn with
  | nil => exact absurd (fun _ hx => absurd hx List.not_mem_nil) h
  | append_singleton xs x ih =>
    have hgood' : ∀ done y todo, xs = done ++ y :: todo → good y →
        step (state done) y = pure (state (done ++ [y])) := fun done y todo he =>
      hgood done y (todo ++ [x]) (by rw [he]; simp)
    rw [List.foldlM_append]
    by_cases hxs : ∀ y ∈ xs, good y
    · have hx : ¬ good x := fun hx => h fun y hy =>
        (List.mem_append.mp hy).elim (hxs y) fun hy => List.mem_singleton.mp hy ▸ hx
      have hbefore := foldlM_eq_pure state xs fun done y todo he =>
        hgood' done y todo he (hxs y (by simp [he]))
      rw [hbefore, pure_bind, List.foldlM_cons, hbad xs x [] rfl hx]
      rfl
    · rw [ih hgood' (fun done y todo he => hbad done y (todo ++ [x]) (by rw [he]; simp)) hxs]
      rfl

theorem mapM_element {xs : List β} {places : List Nat} (fallback : β)
    (h : ∀ i ∈ places, i < xs.length) :
    places.mapM (element xs) = pure (places.map fun i => xs.getD i fallback) := by
  refine mapM_eq_pure fun i hi => ?_
  rw [List.getD_eq_getElem _ _ (h i hi)]
  exact element_eq (List.getElem?_eq_getElem (h i hi))

theorem replicate_eq_map_range (n : Nat) (x : β) :
    List.replicate n x = (List.range n).map fun _ => x := by
  rw [List.map_const', List.length_range]

/-- A counter for each label, of the elements that have it. -/
def tally (clusters : Nat) (labels : List Nat) : Except Fault (List Nat) :=
  labels.foldlM (fun counts label => modify counts label (increment UInt64.size))
    (List.replicate clusters 0)

theorem tally_eq {clusters : Nat} {labels : List Nat} (hl : ∀ l ∈ labels, l < clusters)
    (hlen : labels.length < UInt64.size) :
    tally clusters labels = pure ((List.range clusters).map fun l => labels.count l) := by
  rw [tally, replicate_eq_map_range]
  refine foldlM_eq_pure (fun done => (List.range clusters).map fun l => done.count l) labels ?_
  intro done label todo he
  have hlt : label < clusters := hl label (by rw [he]; simp)
  have hroom : done.count label + 1 < UInt64.size := by
    have hcount := List.count_le_length (a := label) (l := done)
    rw [he, List.length_append, List.length_cons] at hlen
    omega
  refine modify_map List.nodup_range (List.getElem?_range hlt) ?_ ?_
  · rw [increment_eq hroom, List.count_append, List.count_singleton_self]
  · intro l _ hne
    rw [List.count_append, List.count_singleton, if_neg (by simpa using hne.symm), Nat.add_zero]

def countIf (p : β → Bool) (xs : List β) : Except Fault Nat :=
  xs.foldlM (fun n x => if p x then increment UInt64.size n else pure n) 0

theorem countIf_eq {p : β → Bool} {xs : List β} (hlen : xs.length < UInt64.size) :
    countIf p xs = pure (xs.filter p).length := by
  refine foldlM_eq_pure (fun done => (done.filter p).length) xs fun done x todo he => ?_
  rw [List.filter_append, List.length_append]
  have hle := List.length_filter_le p done
  rw [he, List.length_append, List.length_cons] at hlen
  cases hx : p x with
  | false => simp [hx]
  | true => rw [if_pos rfl, increment_eq (by omega), List.filter_singleton, hx]; rfl

end Loops

end BuildAdvisor.Checked
