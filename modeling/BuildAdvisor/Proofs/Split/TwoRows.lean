import BuildAdvisor.Proofs.Split.Distance

/-!
Two rows are always told apart.

* `TwoRows` — points of one width that take exactly two values;
* `Separates` — centroids that give the two values different labels;
* `separates_of_mem`, `TwoRows.separates_update` — centroids do so where both values are among them,
  and from then on after every round;
* `TwoRows.separates_of_copies` — centroids that all have the same value do so after one round: the
  first moves to the mean of all points and is then the nearest to the other value, while the rest
  keep their place;
* `kmeans_separates` — so two rounds are enough, wherever the centroids start.
-/

set_option autoImplicit false

namespace BuildAdvisor.Split

structure TwoRows (width : Nat) (points : List (List Rat)) (a b : List Rat) : Prop where
  ne : a ≠ b
  left : a ∈ points
  right : b ∈ points
  cover : ∀ p ∈ points, p = a ∨ p = b
  length : ∀ p ∈ points, p.length = width

theorem TwoRows.symm {width : Nat} {points : List (List Rat)} {a b : List Rat}
    (h : TwoRows width points a b) : TwoRows width points b a :=
  ⟨h.ne.symm, h.right, h.left, fun p hp => (h.cover p hp).symm, h.length⟩

def Separates (centroids : List (List Rat)) (a b : List Rat) : Prop :=
  nearest centroids a ≠ nearest centroids b

/-! ## Rounds -/

theorem separates_of_mem {width : Nat} {centroids : List (List Rat)} {a b : List Rat}
    (hc : ∀ c ∈ centroids, c.length = width) (ha : a ∈ centroids) (hb : b ∈ centroids)
    (hne : a ≠ b) : Separates centroids a b := by
  have hwidth : ∀ x ∈ centroids, ∀ c ∈ centroids, c.length = x.length :=
    fun x hx c hm => (hc c hm).trans (hc x hx).symm
  have hna := getElem?_nearest (hwidth a ha) ha
  have hnb := getElem?_nearest (hwidth b hb) hb
  intro h
  rw [h, hnb] at hna
  exact hne (Option.some.inj hna).symm

/-- Of equally near centroids the first one counts. -/
theorem nearest_copies {c a : List Rat} {rest : List (List Rat)} (h : ∀ x ∈ c :: rest, x = a)
    (p : List Rat) : nearest (c :: rest) p = 0 := by
  refine Nat.le_zero.mp ((nearest_isLeast (List.cons_ne_nil c rest) p).2 ⟨c, rfl, ?_⟩)
  intro other hother
  rw [h other hother, h c List.mem_cons_self]
  exact not_nearer_self _

/-- Where every point is nearest to the first centroid, only that one moves. -/
theorem update_eq_cons (width : Nat) {points : List (List Rat)} (hne : points ≠ [])
    {c : List Rat} {rest : List (List Rat)} (h : ∀ p ∈ points, nearest (c :: rest) p = 0) :
    update width points (assign (c :: rest) points) (c :: rest) = mean width points :: rest := by
  have hlabels : assign (c :: rest) points = points.map fun _ => 0 := List.map_congr_left h
  have hall : members points (points.map fun _ => 0) 0 = points := by
    rw [members_map, List.filter_eq_self]
    exact fun _ _ => rfl
  have hnone : ∀ l, members points (points.map fun _ => 0) (l + 1) = [] := by
    intro l
    rw [members_map, List.filter_eq_nil_iff]
    simp
  rw [hlabels, update, List.mapIdx_cons, moveCentroid, hall, if_neg (by simpa using hne)]
  refine congrArg (mean width points :: ·) ?_
  refine List.ext_getElem? fun l => ?_
  rw [List.getElem?_mapIdx, hnone]
  exact Option.map_id'

section Rounds

variable {width : Nat} {points : List (List Rat)} {a b : List Rat}
  (h : TwoRows width points a b) {centroids : List (List Rat)}

include h

theorem TwoRows.mem_update (hne : centroids ≠ []) (hs : Separates centroids a b) :
    a ∈ update width points (assign centroids points) centroids := by
  have hlt : nearest centroids a < centroids.length :=
    lt_of_mem_assign hne (List.mem_map_of_mem h.left)
  have hm : members points (assign centroids points) (nearest centroids a) ≠ [] :=
    members_ne_nil (List.length_map _).le (List.mem_map_of_mem h.left)
  -- The points with the label of `a` are copies of `a`, and so is their mean.
  have hcopies : ∀ r ∈ members points (assign centroids points) (nearest centroids a), r = a := by
    intro r hr
    rw [assign, members_map, List.mem_filter, beq_iff_eq] at hr
    refine (h.cover r hr.1).resolve_right ?_
    rintro rfl
    exact hs hr.2.symm
  have hu := getElem?_update width hlt hm
  rw [← mean_eq_columnMean, mean_eq_of_forall_eq (h.length a h.left) hm hcopies] at hu
  exact List.mem_of_getElem? hu

theorem TwoRows.separates_update (hc : ∀ c ∈ centroids, c.length = width) (hne : centroids ≠ [])
    (hs : Separates centroids a b) :
    Separates (update width points (assign centroids points) centroids) a b :=
  separates_of_mem (length_of_mem_update hc points _) (h.mem_update hne hs)
    (h.symm.mem_update hne hs.symm) h.ne

theorem TwoRows.mean_nearer : squaredDistance b (mean width points) < squaredDistance b a := by
  have hab : a.length = b.length := (h.length a h.left).trans (h.length b h.right).symm
  have hpos : 0 < squaredDistance a b :=
    lt_of_le_of_ne (squaredDistance_nonneg a b)
      fun hzero => h.ne ((squaredDistance_eq_zero_iff hab).mp hzero.symm)
  have hle : ∀ r ∈ points, squaredDistance r b ≤ squaredDistance a b := by
    intro r hr
    rcases h.cover r hr with rfl | rfl
    · exact le_rfl
    · rw [squaredDistance_self]
      exact hpos.le
  have hmean := Split.mean_nearer h.length (h.length b h.right) hle
    ⟨b, h.right, (squaredDistance_self b).symm ▸ hpos⟩
  rwa [squaredDistance_comm ((length_mean width points).trans (h.length b h.right).symm),
    squaredDistance_comm hab] at hmean

/-! Copies of `a`, of which the first has moved to the mean. -/

theorem TwoRows.nearest_left_ne_zero {rest : List (List Rat)} (hrest : ∀ c ∈ rest, c = a)
    (hne : rest ≠ []) : nearest (mean width points :: rest) a ≠ 0 := by
  have ha : a ∈ rest := by
    obtain ⟨x, hx⟩ := List.exists_mem_of_ne_nil rest hne
    exact hrest x hx ▸ hx
  have hwidth : ∀ x ∈ mean width points :: rest, x.length = a.length := by
    intro x hx
    rcases List.mem_cons.mp hx with rfl | hx
    · rw [length_mean, h.length a h.left]
    · rw [hrest x hx]
  -- The centroid that `a` belongs to is `a` itself, and the mean is another row.
  intro hzero
  have hat := getElem?_nearest hwidth (List.mem_cons_of_mem _ ha)
  rw [hzero, List.getElem?_cons_zero] at hat
  have hlt := h.mean_nearer
  rw [Option.some.inj hat] at hlt
  exact lt_irrefl _ hlt

theorem TwoRows.nearest_right_eq_zero {rest : List (List Rat)} (hrest : ∀ c ∈ rest, c = a) :
    nearest (mean width points :: rest) b = 0 := by
  obtain ⟨x, hx, hmin⟩ := nearest_spec (List.cons_ne_nil (mean width points) rest) b
  cases hn : nearest (mean width points :: rest) b with
  | zero => rfl
  | succ i =>
    rw [hn, List.getElem?_cons_succ] at hx
    have hle := hmin (mean width points) List.mem_cons_self
    rw [hrest x (List.mem_of_getElem? hx)] at hle
    exact absurd h.mean_nearer (not_lt.mpr hle)

theorem TwoRows.separates_of_copies (hcopies : ∀ c ∈ centroids, c = a)
    (htwo : 2 ≤ centroids.length) :
    Separates (update width points (assign centroids points) centroids) a b := by
  obtain ⟨c, rest, rfl⟩ := List.exists_cons_of_length_pos (Nat.lt_of_lt_of_le Nat.two_pos htwo)
  have hne : rest ≠ [] := List.ne_nil_of_length_pos (Nat.lt_of_succ_lt_succ htwo)
  have hrest : ∀ x ∈ rest, x = a := fun x hx => hcopies x (List.mem_cons_of_mem c hx)
  rw [update_eq_cons width (List.ne_nil_of_mem h.left) fun p _ => nearest_copies hcopies p,
    Separates, h.nearest_right_eq_zero hrest]
  exact h.nearest_left_ne_zero hrest hne

/-- The three cases are centroids with both values, and centroids with one of them only. -/
theorem TwoRows.separates_centroidsAt_one (hc : ∀ c ∈ centroids, c ∈ points)
    (htwo : 2 ≤ centroids.length) :
    Separates (centroidsAt width points centroids 1) a b := by
  have hne : centroids ≠ [] := List.ne_nil_of_length_pos (Nat.lt_of_lt_of_le Nat.two_pos htwo)
  have hwidth : ∀ c ∈ centroids, c.length = width := fun c hm => h.length c (hc c hm)
  by_cases ha : a ∈ centroids
  · by_cases hb : b ∈ centroids
    · exact h.separates_update hwidth hne (separates_of_mem hwidth ha hb h.ne)
    · refine h.separates_of_copies (fun c hm => ?_) htwo
      exact (h.cover c (hc c hm)).resolve_right fun he => hb (he ▸ hm)
  · refine (h.symm.separates_of_copies (fun c hm => ?_) htwo).symm
    exact (h.cover c (hc c hm)).resolve_left fun he => ha (he ▸ hm)

theorem TwoRows.separates_centroidsAt (hc : ∀ c ∈ centroids, c ∈ points)
    (htwo : 2 ≤ centroids.length) (t : Nat) :
    Separates (centroidsAt width points centroids (t + 1)) a b := by
  induction t with
  | zero => exact h.separates_centroidsAt_one hc htwo
  | succ t ih =>
    have hwidth : ∀ c ∈ centroidsAt width points centroids (t + 1), c.length = width :=
      length_of_mem_centroidsAt (fun c hm => h.length c (hc c hm)) (t + 1)
    refine h.separates_update hwidth (List.ne_nil_of_length_pos ?_) ih
    rw [length_centroidsAt]
    exact Nat.lt_of_lt_of_le Nat.two_pos htwo

end Rounds

/-! ## Runs -/

theorem headD_length {width : Nat} {points : List (List Rat)} (hne : points ≠ [])
    (h : ∀ p ∈ points, p.length = width) : (points.headD []).length = width := by
  obtain ⟨p, rest, rfl⟩ := List.exists_cons_of_ne_nil hne
  exact h p List.mem_cons_self

theorem TwoRows.nearest_eq_iff {width : Nat} {points : List (List Rat)} {a b : List Rat}
    (h : TwoRows width points a b) {centroids : List (List Rat)} (hs : Separates centroids a b)
    {x y : List Rat} (hx : x ∈ points) (hy : y ∈ points) :
    nearest centroids x = nearest centroids y ↔ x = y := by
  refine ⟨fun he => ?_, fun he => he ▸ rfl⟩
  rcases h.cover x hx with rfl | rfl
  · exact ((h.cover y hy).resolve_right fun hyb => hs (hyb ▸ he)).symm
  · exact ((h.cover y hy).resolve_left fun hya => hs (hya ▸ he).symm).symm

theorem TwoRows.two_le_length {width : Nat} {points : List (List Rat)} {a b : List Rat}
    (h : TwoRows width points a b) : 2 ≤ points.length := by
  have hsub : [a, b] ⊆ points := by simp [h.left, h.right]
  exact (List.subperm_of_subset (by simp [h.ne]) hsub).length_le

theorem kmeans_separates {σ : Type} {sample : Random.Sampler σ} (hs : sample.Distinct)
    {width : Nat} {points : List (List Rat)} {a b : List Rat} (h : TwoRows width points a b)
    {k rounds : Nat} (hk : 2 ≤ k) (hr : 2 ≤ rounds) (s : σ) :
    (kmeans sample points k rounds s).1.labels.length = points.length ∧
      ∀ (i j : Nat) (x y : List Rat), points[i]? = some x → points[j]? = some y →
        ((kmeans sample points k rounds s).1.labels[i]? =
          (kmeans sample points k rounds s).1.labels[j]? ↔ x = y) := by
  have hne : points ≠ [] := List.ne_nil_of_mem h.left
  have hclamp : clampClusters k points.length ≤ points.length :=
    clampClusters_le k (List.length_pos_of_ne_nil hne)
  obtain ⟨cap, rfl⟩ : ∃ cap, rounds = cap + 2 := Nat.exists_eq_add_of_le' hr
  obtain ⟨last, hlast, hlabels⟩ := kmeans_labelsAt sample hne k (cap + 1) s rfl
  obtain ⟨t, rfl⟩ := Nat.exists_eq_succ_of_ne_zero (hlast.pos (Nat.succ_pos cap)).ne'
  generalize hseeds : (sample points.length (clampClusters k points.length) s).1 = seeds at hlabels
  have hrows : ∀ c ∈ seeds.map fun i => points.getD i [], c ∈ points := by
    intro c hc
    obtain ⟨i, hi, rfl⟩ := List.mem_map.mp hc
    have hlt : i < points.length := hs.lt _ _ s hclamp i (hseeds ▸ hi)
    rw [List.getD_eq_getElem _ _ hlt]
    exact List.getElem_mem hlt
  have htwo : 2 ≤ (seeds.map fun i => points.getD i []).length := by
    rw [List.length_map, ← hseeds, hs.length _ _ s hclamp, clampClusters]
    have hn := h.two_le_length
    omega
  have hseparates := h.separates_centroidsAt hrows htwo t
  rw [headD_length hne h.length, labelsAt_eq_map] at hlabels
  refine ⟨by rw [hlabels, List.length_map], fun i j x y hx hy => ?_⟩
  rw [hlabels, List.getElem?_map, List.getElem?_map, hx, hy, Option.map_some, Option.map_some,
    Option.some_inj]
  exact h.nearest_eq_iff hseparates (List.mem_of_getElem? hx) (List.mem_of_getElem? hy)

section Example

def oneApart : List (List Rat) := [[1], [1], [0], [1]]

def oneApartLabels : List Nat :=
  (kmeans Random.Generator.sample oneApart 2 2 (.ofList [])).1.labels

/-- Both centroids start at copies of the same row. -/
theorem oneApart_separated :
    (Random.Generator.sample 4 2 (.ofList [])).1 = [3, 0] ∧
      oneApartLabels[0]? = oneApartLabels[3]? ∧ oneApartLabels[0]? ≠ oneApartLabels[2]? := by
  have hseeds : (Random.Generator.sample 4 2 (.ofList [])).1 = [3, 0] := by decide +kernel
  have htwo : TwoRows 1 oneApart [1] [0] :=
    ⟨by decide, by decide, by decide, by decide, by decide⟩
  obtain ⟨-, hiff⟩ := kmeans_separates Random.Generator.sample_distinct htwo (Nat.le_refl 2)
    (Nat.le_refl 2) (.ofList [])
  refine ⟨hseeds, (hiff 0 3 [1] [1] rfl rfl).mpr rfl, fun he => ?_⟩
  exact absurd ((hiff 0 2 [1] [0] rfl rfl).mp he) (by decide)

end Example

end BuildAdvisor.Split
