import Mathlib.Data.List.Sort
import Mathlib.Tactic

/-
# Keyset pagination

A growing collection is read page by page.  Every element has a position, a value of a linear
order, and no two have the same one.  A page has the first `n` elements after the position at
which the page before it has ended; it is the last one if no element is left out.  As the
positions already read are never looked at again, elements that are added meanwhile change
neither what has been read nor what of the older elements is still to come.
-/

namespace Keyset

variable {α κ : Type} [LinearOrder κ] (key : α → κ)

/-- The elements after the position `c`, in their order; without a position, all of them. -/
def rest (c : Option κ) (xs : List α) : List α :=
  (xs.filter fun x => ∀ k ∈ c, k < key x).insertionSort fun x y => key x ≤ key y

/-- The page after the position `c`. -/
def page (n : ℕ) (c : Option κ) (xs : List α) : List α := (rest key c xs).take n

/-- The position at which the page ends, if it leaves out an element. -/
def next (n : ℕ) (c : Option κ) (xs : List α) : Option κ :=
  if n < (rest key c xs).length then (page key n c xs).getLast?.map key else none

/-- The pages that are read one after the other, each when the collection is the next one of
the list, and whether the last page has been reached. -/
def walk (n : ℕ) : Option κ → List (List α) → List (List α) × Bool
  | _, [] => ([], false)
  | c, xs :: xss =>
    match next key n c xs with
    | none => ([page key n c xs], true)
    | some k => (page key n c xs :: (walk n (some k) xss).1, (walk n (some k) xss).2)

variable {key} {n : ℕ} {c : Option κ} {xs ys : List α} {xss : List (List α)}

/-! ## One page -/

lemma mem_rest {x : α} : x ∈ rest key c xs ↔ x ∈ xs ∧ ∀ k ∈ c, k < key x := by
  rw [rest, List.mem_insertionSort, List.mem_filter, decide_eq_true_eq]

lemma nodup_rest (h : (xs.map key).Nodup) : ((rest key c xs).map key).Nodup :=
  (((List.perm_insertionSort _ _).map key).nodup_iff).mpr
    (h.sublist (List.filter_sublist.map key))

/-- The elements that are left are in strict order. -/
lemma pairwise_rest (h : (xs.map key).Nodup) :
    (rest key c xs).Pairwise fun x y => key x < key y := by
  have hle : (rest key c xs).Pairwise fun x y => key x ≤ key y :=
    List.pairwise_insertionSort (fun x y => key x ≤ key y) _
  have hne : (rest key c xs).Pairwise fun x y => key x ≠ key y :=
    List.pairwise_map.mp (nodup_rest (c := c) h)
  exact (hle.and hne).imp fun h => lt_of_le_of_ne h.1 h.2

/-- The next position is that of the last element of a full page, before all that it leaves
out. -/
lemma next_eq_some (hnd : (xs.map key).Nodup) {k : κ}
    (h : next key n c xs = some k) : ∃ x ∈ page key n c xs, key x = k ∧
      (page key n c xs).length = n ∧ (∀ y ∈ page key n c xs, key y ≤ k) ∧
      ∀ y ∈ rest key c xs, y ∉ page key n c xs → k < key y := by
  unfold next at h
  split at h
  · rename_i hlt
    obtain ⟨x, hx, rfl⟩ := Option.map_eq_some_iff.mp h
    have hlength : (page key n c xs).length = n := List.length_take_of_le hlt.le
    obtain ⟨front, hfront⟩ := List.getLast?_eq_some_iff.mp hx
    have hsorted := pairwise_rest (c := c) hnd
    rw [← List.take_append_drop n (rest key c xs), List.pairwise_append] at hsorted
    obtain ⟨htake, -, hacross⟩ := hsorted
    have hmem : x ∈ page key n c xs := by simp [hfront]
    refine ⟨x, hmem, rfl, hlength, fun y hy => ?_, fun y hy hout => ?_⟩
    · change (page key n c xs).Pairwise _ at htake
      rw [hfront, List.pairwise_append] at htake
      rw [hfront, List.mem_append, List.mem_singleton] at hy
      rcases hy with hy | rfl
      · exact (htake.2.2 y hy x (by simp)).le
      · exact le_rfl
    · rw [← List.take_append_drop n (rest key c xs), List.mem_append] at hy
      exact hacross x hmem y (hy.resolve_left hout)
  · cases h

/-- The last page leaves nothing out. -/
lemma page_of_next_eq_none (hn : 0 < n) (h : next key n c xs = none) :
    page key n c xs = rest key c xs := by
  unfold next at h
  split at h
  · rename_i hlt
    have hne : page key n c xs ≠ [] := by
      rw [page, Ne, List.take_eq_nil_iff]
      rintro (rfl | hnil)
      · exact absurd hn (lt_irrefl _)
      · rw [hnil] at hlt
        exact absurd hlt (Nat.not_lt_zero n)
    rw [Option.map_eq_none_iff, List.getLast?_eq_none_iff] at h
    exact absurd h hne
  · rename_i hle
    exact List.take_of_length_le (not_lt.mp hle)

lemma mem_of_mem_page {x : α} (h : x ∈ page key n c xs) : x ∈ xs ∧ ∀ k ∈ c, k < key x :=
  mem_rest.mp (List.mem_of_mem_take h)

/-! ## A walk -/

/-- What is read is somewhere in what was there, and after the position of the start. -/
lemma of_mem_walk (hnd : ∀ xs ∈ xss, (xs.map key).Nodup) {x : α}
    (hx : x ∈ (walk key n c xss).1.flatten) :
    (∃ xs ∈ xss, x ∈ xs) ∧ ∀ k ∈ c, k < key x := by
  induction xss generalizing c with
  | nil => cases hx
  | cons xs xss ih =>
    have hhead (h : x ∈ page key n c xs) :
        (∃ ys ∈ xs :: xss, x ∈ ys) ∧ ∀ k ∈ c, k < key x := by
      obtain ⟨hmem, hafter⟩ := mem_of_mem_page h
      exact ⟨⟨xs, List.mem_cons_self, hmem⟩, hafter⟩
    rw [walk] at hx
    cases hnext : next key n c xs with
    | none =>
      rw [hnext] at hx
      exact hhead (by simpa using hx)
    | some k =>
      rw [hnext, List.flatten_cons, List.mem_append] at hx
      rcases hx with hx | hx
      · exact hhead hx
      · obtain ⟨⟨ys, hys, hmem⟩, hafter⟩ :=
          ih (fun ys hys => hnd ys (List.mem_cons_of_mem _ hys)) hx
        obtain ⟨y, hy, rfl, -⟩ := next_eq_some (hnd xs List.mem_cons_self) hnext
        refine ⟨⟨ys, List.mem_cons_of_mem _ hys, hmem⟩, fun k' hk' => ?_⟩
        exact ((mem_of_mem_page hy).2 k' hk').trans (hafter _ rfl)

/-- What is read comes in strict order, so nothing is read twice. -/
theorem pairwise_walk (hnd : ∀ xs ∈ xss, (xs.map key).Nodup) :
    (walk key n c xss).1.flatten.Pairwise fun x y => key x < key y := by
  induction xss generalizing c with
  | nil => exact List.Pairwise.nil
  | cons xs xss ih =>
    have hxs := hnd xs List.mem_cons_self
    have hpage : (page key n c xs).Pairwise fun x y => key x < key y :=
      (pairwise_rest hxs).sublist (List.take_sublist _ _)
    rw [walk]
    cases hnext : next key n c xs with
    | none => simpa using hpage
    | some k =>
      have hnd' : ∀ ys ∈ xss, (ys.map key).Nodup := fun ys hys =>
        hnd ys (List.mem_cons_of_mem _ hys)
      obtain ⟨-, -, -, -, hle, -⟩ := next_eq_some hxs hnext
      refine List.pairwise_append.mpr ⟨hpage, ih hnd', fun x hx y hy => ?_⟩
      exact (hle x hx).trans_lt ((of_mem_walk hnd' hy).2 k rfl)

/-- A walk that has reached the last page has read all that was there at its start. -/
theorem mem_walk (hn : 0 < n) (hnd : ∀ ys ∈ xs :: xss, (ys.map key).Nodup)
    (hgrow : (xs :: xss).Pairwise (· ⊆ ·)) (hdone : (walk key n c (xs :: xss)).2 = true) {x : α}
    (hx : x ∈ rest key c xs) : x ∈ (walk key n c (xs :: xss)).1.flatten := by
  induction xss generalizing c xs with
  | nil =>
    rw [walk] at hdone ⊢
    cases hnext : next key n c xs with
    | none => simpa [page_of_next_eq_none hn hnext] using hx
    | some k =>
      rw [hnext] at hdone
      cases hdone
  | cons ys xss ih =>
    rw [walk] at hdone ⊢
    cases hnext : next key n c xs with
    | none => simpa [page_of_next_eq_none hn hnext] using hx
    | some k =>
      rw [hnext] at hdone
      rw [List.flatten_cons, List.mem_append]
      by_cases hpage : x ∈ page key n c xs
      · exact Or.inl hpage
      · -- it is still after the next position, and still there
        obtain ⟨-, -, -, -, -, hlt⟩ := next_eq_some (hnd xs List.mem_cons_self) hnext
        obtain ⟨hsub, hgrow⟩ := List.pairwise_cons.mp hgrow
        have hys : x ∈ ys := hsub ys List.mem_cons_self (mem_rest.mp hx).1
        refine Or.inr (ih (fun zs hzs => hnd zs (List.mem_cons_of_mem _ hzs)) hgrow hdone ?_)
        refine mem_rest.mpr ⟨hys, fun k' hk' => ?_⟩
        obtain rfl := Option.some.inj hk'
        exact hlt x hx hpage

/-- Every page but the last one is full. -/
theorem length_of_mem_walk (hnd : ∀ xs ∈ xss, (xs.map key).Nodup) :
    (∀ p ∈ (walk key n c xss).1.dropLast, p.length = n) ∧
      ((walk key n c xss).2 = false → ∀ p ∈ (walk key n c xss).1, p.length = n) := by
  induction xss generalizing c with
  | nil => exact ⟨fun p hp => (List.not_mem_nil hp).elim, fun _ p hp => (List.not_mem_nil hp).elim⟩
  | cons xs xss ih =>
    rw [walk]
    cases hnext : next key n c xs with
    | none => exact ⟨fun p hp => (List.not_mem_nil hp).elim, fun h => by cases h⟩
    | some k =>
      obtain ⟨hlast, hall⟩ := ih (c := some k) fun ys hys => hnd ys (List.mem_cons_of_mem _ hys)
      obtain ⟨-, -, -, hlength, -⟩ := next_eq_some (hnd xs List.mem_cons_self) hnext
      refine ⟨fun p hp => ?_, fun hdone p hp => ?_⟩
      · change p ∈ (page key n c xs :: (walk key n (some k) xss).1).dropLast at hp
        cases hpages : (walk key n (some k) xss).1 with
        | nil =>
          rw [hpages] at hp
          cases hp
        | cons q ps =>
          rw [hpages, List.dropLast_cons_cons, List.mem_cons] at hp
          rcases hp with rfl | hp
          · exact hlength
          · exact hlast p (hpages ▸ hp)
      · rcases List.mem_cons.mp hp with rfl | hp
        · exact hlength
        · exact hall hdone p hp

/-- While the collection stays within `ys`, the walk reaches the last page: each page takes
something out of what is left of `ys`. -/
theorem walk_ends (hnd : ∀ xs ∈ xss, (xs.map key).Nodup) (hys : (ys.map key).Nodup)
    (hsub : ∀ xs ∈ xss, xs ⊆ ys) (hlength : (rest key c ys).length < xss.length) :
    (walk key n c xss).2 = true := by
  induction xss generalizing c with
  | nil => exact absurd hlength (Nat.not_lt_zero _)
  | cons xs xss ih =>
    rw [walk]
    cases hnext : next key n c xs with
    | none => rfl
    | some k =>
      refine ih (fun zs hzs => hnd zs (List.mem_cons_of_mem _ hzs))
        (fun zs hzs => hsub zs (List.mem_cons_of_mem _ hzs)) ?_
      obtain ⟨x, hx, rfl, -⟩ := next_eq_some (hnd xs List.mem_cons_self) hnext
      obtain ⟨hmem, hafter⟩ := mem_of_mem_page hx
      have hbefore : x ∈ rest key c ys :=
        mem_rest.mpr ⟨hsub xs List.mem_cons_self hmem, hafter⟩
      -- what is left after `x` is without it
      have hlt : (rest key (some (key x)) ys).length < (rest key c ys).length := by
        have hsubset : x :: rest key (some (key x)) ys ⊆ rest key c ys := by
          intro y hy
          rcases List.mem_cons.mp hy with rfl | hy
          · exact hbefore
          · obtain ⟨hmem', hafter'⟩ := mem_rest.mp hy
            exact mem_rest.mpr ⟨hmem', fun k hk => (hafter k hk).trans (hafter' _ rfl)⟩
        have hnodup : (x :: rest key (some (key x)) ys).Nodup := by
          refine List.nodup_cons.mpr ⟨fun h => ?_, (nodup_rest hys).of_map⟩
          exact lt_irrefl _ ((mem_rest.mp h).2 _ rfl)
        exact (hnodup.subperm hsubset).length_le
      have : (rest key c ys).length < xss.length + 1 := hlength
      omega

/-- A walk to the end of a collection that stays as it is reads what is left of it. -/
theorem flatten_walk_of_forall_eq (hn : 0 < n) (hnd : (xs.map key).Nodup)
    (hxss : ∀ ys ∈ xss, ys = xs) (hdone : (walk key n c xss).2 = true) :
    (walk key n c xss).1.flatten = rest key c xs := by
  have hnd' : ∀ ys ∈ xss, (ys.map key).Nodup := fun ys hys => (hxss ys hys).symm ▸ hnd
  have hsub : xss.Pairwise (· ⊆ ·) := List.pairwise_of_forall_mem_list fun ys hys zs hzs => by
    rw [hxss ys hys, hxss zs hzs]
    exact List.Subset.refl _
  have hnodup {zs : List α} (h : zs.Pairwise fun x y => key x < key y) : zs.Nodup :=
    h.imp fun hlt heq => (heq ▸ hlt).false
  have hwalk := pairwise_walk (n := n) (c := c) hnd'
  refine List.Perm.eq_of_pairwise (fun x y _ _ hxy hyx => absurd hyx hxy.not_gt) hwalk
    (pairwise_rest hnd) ((List.perm_ext_iff_of_nodup (hnodup hwalk)
      (hnodup (pairwise_rest hnd))).mpr fun x => ⟨fun hx => ?_, fun hx => ?_⟩)
  · obtain ⟨⟨ys, hys, hmem⟩, hafter⟩ := of_mem_walk hnd' hx
    exact mem_rest.mpr ⟨hxss ys hys ▸ hmem, hafter⟩
  · cases xss with
    | nil => cases hdone
    | cons ys xss =>
      obtain rfl := hxss ys List.mem_cons_self
      exact mem_walk hn hnd' hsub hdone hx

end Keyset
