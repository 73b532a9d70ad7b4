import BuildAdvisor.Split.CoUsage
import BuildAdvisor.Proofs.Table

/-!
The co-usage matrix, entry by entry.

* `togetherIn` — how many of some sets of names hold two names at once;
* `countPairs_map` — one set adds one to the entries of the names it holds;
* `coUsage_matrix` — the matrix counts the dependents that use both symbols of an entry, the
  diagonal included;
* `row_congr` — symbols that the same dependents use have the same row;
* `usersOfBoth`, `entry?_coUsage` — an entry counts the recorded dependents that use two symbols;
* `entry?_comm`, `entry?_le_diagonal` — what follows for the entries among each other;
* `coUsage_congr` — only what dependents use of the declared symbols is counted.
-/

set_option autoImplicit false

namespace BuildAdvisor.Split

def togetherIn (sets : List Names) (x y : String) : Nat :=
  sets.countP fun used => used.contains x && used.contains y

theorem countPairs_map (symbols : List String) (used : Names) (count : String → String → Nat) :
    countPairs (symbols.map used.contains) (symbols.map fun x => symbols.map (count x)) =
      symbols.map fun x => symbols.map fun y =>
        count x y + if used.contains x && used.contains y then 1 else 0 := by
  rw [countPairs, List.zipWith_map, List.zipWith_self]
  apply List.map_congr_left
  intro x _
  cases used.contains x with
  | false => simp
  | true =>
    simp only [if_true, List.zipWith_map, List.zipWith_self, Bool.true_and]
    apply List.map_congr_left
    intro y _
    cases used.contains y <;> rfl

theorem foldl_countPairs (symbols : List String) (sets : List Names)
    (count : String → String → Nat) :
    sets.foldl (fun matrix used => countPairs (symbols.map used.contains) matrix)
        (symbols.map fun x => symbols.map (count x)) =
      symbols.map fun x => symbols.map fun y => count x y + togetherIn sets x y := by
  induction sets generalizing count with
  | nil => rfl
  | cons used rest ih =>
    rw [List.foldl_cons, countPairs_map, ih]
    apply List.map_congr_left
    intro x _
    apply List.map_congr_left
    intro y _
    rw [togetherIn, togetherIn, List.countP_cons]
    omega

/-- No entry stands outside the matrix. -/
def CoUsage.entry? (r : CoUsage) (i j : Nat) : Option Nat :=
  r.matrix[i]?.bind fun row => row[j]?

namespace UsageCache

/-- The row of a symbol, also of one that the header does not declare. -/
def row (c : UsageCache) (x : String) : List Nat :=
  c.symbols.toList.map (togetherIn c.usage.values x)

theorem coUsage_matrix (c : UsageCache) : c.coUsage.matrix = c.symbols.toList.map c.row := by
  have h := foldl_countPairs c.symbols.toList c.usage.values fun _ _ => 0
  simp only [Nat.zero_add] at h
  exact h

@[simp] theorem coUsage_symbols (c : UsageCache) : c.coUsage.symbols = c.symbols.toList := rfl

theorem row_congr (c : UsageCache) {x y : String}
    (h : ∀ used ∈ c.usage.values, used.contains x = used.contains y) : c.row x = c.row y := by
  apply List.map_congr_left
  intro z _
  apply List.countP_congr
  intro used hu
  rw [h used hu]

/-! ## Dependents -/

/-- A dependent that was never recorded uses nothing. -/
def uses (c : UsageCache) (dependent x : String) : Bool :=
  (c.usedBy? dependent).any fun used => used.contains x

/-- The recorded dependents that use two symbols. -/
def usersOfBoth (c : UsageCache) (x y : String) : List String :=
  c.usage.keys.filter fun d => c.uses d x && c.uses d y

theorem togetherIn_values (c : UsageCache) (x y : String) :
    togetherIn c.usage.values x y = (c.usersOfBoth x y).length := by
  rw [togetherIn, Table.values_eq_map_keys c.usage ∅, List.countP_map, List.countP_eq_length_filter,
    usersOfBoth]
  refine congrArg List.length (List.filter_congr fun d hd => ?_)
  have hd : c.usedBy? d = some (c.usage.getD d ∅) :=
    Std.ExtTreeMap.getElem?_eq_some_getD (Std.ExtTreeMap.mem_keys.mp hd)
  rw [uses, uses, hd]
  rfl

theorem usersOfBoth_comm (c : UsageCache) (x y : String) :
    c.usersOfBoth x y = c.usersOfBoth y x :=
  List.filter_congr fun _ _ => Bool.and_comm _ _

theorem length_usersOfBoth_le (c : UsageCache) (x y : String) :
    (c.usersOfBoth x y).length ≤ (c.usersOfBoth x x).length := by
  refine (List.monotone_filter_right c.usage.keys fun d hd => ?_).length_le
  rw [Bool.and_self]
  exact (Bool.and_eq_true_iff.mp hd).1

/-! ## Entries -/

theorem entry?_coUsage (c : UsageCache) (i j : Nat) :
    c.coUsage.entry? i j = c.symbols.toList[i]?.bind fun x =>
      c.symbols.toList[j]?.map fun y => (c.usersOfBoth x y).length := by
  rw [CoUsage.entry?, coUsage_matrix, List.getElem?_map]
  cases c.symbols.toList[i]? with
  | none => rfl
  | some x =>
    have hrow : c.row x = c.symbols.toList.map fun y => (c.usersOfBoth x y).length :=
      List.map_congr_left fun y _ => c.togetherIn_values x y
    rw [Option.map_some, Option.bind_some, Option.bind_some, hrow, List.getElem?_map]

theorem entry?_comm (c : UsageCache) (i j : Nat) :
    c.coUsage.entry? i j = c.coUsage.entry? j i := by
  rw [entry?_coUsage, entry?_coUsage]
  cases c.symbols.toList[i]? <;> cases c.symbols.toList[j]? <;> simp [usersOfBoth_comm]

theorem entry?_le_diagonal (c : UsageCache) {i j n : Nat} (h : c.coUsage.entry? i j = some n) :
    ∃ d, c.coUsage.entry? i i = some d ∧ n ≤ d := by
  rw [entry?_coUsage, Option.bind_eq_some_iff] at h
  obtain ⟨x, hx, h⟩ := h
  obtain ⟨y, -, rfl⟩ := Option.map_eq_some_iff.mp h
  refine ⟨(c.usersOfBoth x x).length, ?_, c.length_usersOfBoth_le x y⟩
  rw [entry?_coUsage, hx, Option.bind_some, Option.map_some]

theorem coUsage_congr {c c' : UsageCache} (hsymbols : c'.symbols = c.symbols)
    (hkeys : c'.usage.keys = c.usage.keys)
    (huses : ∀ d ∈ c.usage.keys, ∀ x ∈ c.symbols, c'.uses d x = c.uses d x) :
    c'.coUsage = c.coUsage := by
  have hmatrix : c'.coUsage.matrix = c.coUsage.matrix := by
    rw [coUsage_matrix, coUsage_matrix, hsymbols]
    refine List.map_congr_left fun x hx => ?_
    rw [row, row, hsymbols]
    refine List.map_congr_left fun y hy => ?_
    rw [togetherIn_values, togetherIn_values, usersOfBoth, usersOfBoth, hkeys]
    refine congrArg List.length (List.filter_congr fun d hd => ?_)
    rw [huses d hd x (Std.ExtTreeSet.mem_toList.mp hx),
      huses d hd y (Std.ExtTreeSet.mem_toList.mp hy)]
  have hlist : c'.coUsage.symbols = c.coUsage.symbols := by
    rw [coUsage_symbols, coUsage_symbols, hsymbols]
  exact congrArg₂ CoUsage.mk hlist hmatrix

end UsageCache

end BuildAdvisor.Split
