/-
# Entries of a growing list

A list grows at its end, and its entries grow where they are. Entries own things,
and nothing has two owners; what they own may also ascend along the list. A list
of places without repetition picks entries, each at most once, and what it picks
does not change while the list grows; ascending places pick entries in their order.
-/

import Mathlib.Data.List.Perm.Subperm
import Mathlib.Data.List.Sort
import Mathlib.Data.Set.Insert

namespace Fastwire.Lib

variable {α β : Type*} {xs ys : List α} {x y : α} {i : ℕ}

/-- An entry of a list with one more entry is one of the old ones or the new one. -/
theorem getElem?_concat_cases {k : ℕ} (h : (xs ++ [x])[k]? = some y) :
    xs[k]? = some y ∨ k = xs.length ∧ y = x := by
  rw [List.getElem?_append] at h
  split at h
  · exact .inl h
  · obtain ⟨hlt, rfl⟩ := List.getElem?_eq_some_iff.mp h
    have hk : k = xs.length := by
      rw [List.length_singleton] at hlt
      omega
    exact .inr ⟨hk, by simp⟩

/-! ## Owners -/

/-- Nothing is owned by the entries at two places. -/
def Apart (owns : α → Set β) (xs : List α) : Prop :=
  ∀ (i j : ℕ) (x y : α), xs[i]? = some x → xs[j]? = some y → ∀ b ∈ owns x, b ∈ owns y → i = j

namespace Apart

variable {owns : α → Set β}

theorem nil (owns : α → Set β) : Apart owns [] := by
  intro i j x y hx
  cases hx

/-- A new entry that owns new things. -/
theorem concat (h : Apart owns xs) (hnew : ∀ y ∈ xs, ∀ b ∈ owns x, b ∉ owns y) :
    Apart owns (xs ++ [x]) := by
  intro i j u v hu hv b hbu hbv
  rcases getElem?_concat_cases hu with hu | ⟨hi, hux⟩ <;>
    rcases getElem?_concat_cases hv with hv | ⟨hj, hvx⟩
  · exact h i j u v hu hv b hbu hbv
  · exact absurd hbu (hnew u (List.mem_of_getElem? hu) b (hvx ▸ hbv))
  · exact absurd hbv (hnew v (List.mem_of_getElem? hv) b (hux ▸ hbu))
  · exact hi.trans hj.symm

/-- An entry comes to own more, and what it gets had no owner. -/
theorem set (h : Apart owns xs) (hi : xs[i]? = some x)
    (hown : ∀ b ∈ owns y, b ∈ owns x ∨ ∀ z ∈ xs, b ∉ owns z) : Apart owns (xs.set i y) := by
  have hlt : i < xs.length := (List.getElem?_eq_some_iff.mp hi).1
  -- the changed entry against an entry at another place
  have hother : ∀ (j : ℕ) (v : α) (b : β), xs[j]? = some v → b ∈ owns y → b ∈ owns v → i = j := by
    intro j v b hv hby hbv
    rcases hown b hby with hold | hfree
    · exact h i j x v hi hv b hold hbv
    · exact absurd hbv (hfree v (List.mem_of_getElem? hv))
  intro j k u v hu hv b hbu hbv
  rw [List.getElem?_set] at hu hv
  by_cases hij : i = j <;> by_cases hik : i = k
  · exact hij.symm.trans hik
  · rw [if_pos hij, if_pos hlt, Option.some.injEq] at hu
    rw [if_neg hik] at hv
    exact hij.symm.trans (hother k v b hv (hu ▸ hbu) hbv)
  · rw [if_neg hij] at hu
    rw [if_pos hik, if_pos hlt, Option.some.injEq] at hv
    exact (hother j u b hu (hv ▸ hbv) hbu).symm.trans hik
  · rw [if_neg hij] at hu
    rw [if_neg hik] at hv
    exact h j k u v hu hv b hbu hbv

end Apart

/-! ## Owners in order -/

/-- What an entry owns is below all that later entries own. -/
def Ascending [LT β] (owns : α → Set β) (xs : List α) : Prop :=
  ∀ (i j : ℕ) (x y : α), i < j → xs[i]? = some x → xs[j]? = some y →
    ∀ b ∈ owns x, ∀ c ∈ owns y, b < c

namespace Ascending

variable [Preorder β] {owns : α → Set β}

theorem nil (owns : α → Set β) : Ascending owns [] := by
  intro i j x y hij hx
  cases hx

/-- Nothing has two owners. -/
theorem apart (h : Ascending owns xs) : Apart owns xs := by
  intro i j x y hx hy b hbx hby
  rcases Nat.lt_trichotomy i j with hij | hij | hij
  · exact absurd (h i j x y hij hx hy b hbx b hby) (lt_irrefl b)
  · exact hij
  · exact absurd (h j i y x hij hy hx b hby b hbx) (lt_irrefl b)

/-- A new entry that owns nothing. -/
theorem concat (h : Ascending owns xs) (hnew : ∀ b, b ∉ owns x) : Ascending owns (xs ++ [x]) := by
  intro i j u v hij hu hv b hbu c hcv
  rcases getElem?_concat_cases hu with hu | ⟨-, rfl⟩
  · rcases getElem?_concat_cases hv with hv | ⟨-, rfl⟩
    · exact h i j u v hij hu hv b hbu c hcv
    · exact absurd hcv (hnew c)
  · exact absurd hbu (hnew b)

/-- An entry comes to own more: it gets things above all others, and nothing is owned
behind it. -/
theorem set (h : Ascending owns xs) (hi : xs[i]? = some x)
    (hown : ∀ c ∈ owns y, c ∈ owns x ∨ (∀ z ∈ xs, ∀ b ∈ owns z, b < c) ∧
      ∀ (j : ℕ) (z : α), i < j → xs[j]? = some z → ∀ b, b ∉ owns z) :
    Ascending owns (xs.set i y) := by
  have hlt : i < xs.length := (List.getElem?_eq_some_iff.mp hi).1
  intro j k u v hjk hu hv c hcu d hdv
  rw [List.getElem?_set] at hu hv
  by_cases hij : i = j
  · subst hij
    rw [if_pos rfl, if_pos hlt, Option.some.injEq] at hu
    rw [if_neg hjk.ne] at hv
    subst hu
    rcases hown c hcu with hold | ⟨-, hlast⟩
    · exact h i k x v hjk hi hv c hold d hdv
    · exact absurd hdv (hlast k v hjk hv d)
  rw [if_neg hij] at hu
  by_cases hik : i = k
  · subst hik
    rw [if_pos rfl, if_pos hlt, Option.some.injEq] at hv
    subst hv
    rcases hown d hdv with hold | ⟨habove, -⟩
    · exact h j i u x hjk hu hi c hcu d hold
    · exact habove u (List.mem_of_getElem? hu) c hcu
  · rw [if_neg hik] at hv
    exact h j k u v hjk hu hv c hcu d hdv

end Ascending

/-! ## Growing lists -/

/-- Every entry is still at its place, in a later version. -/
def Grown (later : α → α → Prop) (xs ys : List α) : Prop :=
  ∀ (i : ℕ) (x : α), xs[i]? = some x → ∃ y, ys[i]? = some y ∧ later x y

namespace Grown

variable {later : α → α → Prop}

theorem concat (hrefl : ∀ x, later x x) (xs : List α) (y : α) : Grown later xs (xs ++ [y]) := by
  intro i x hx
  have hlt : i < xs.length := (List.getElem?_eq_some_iff.mp hx).1
  exact ⟨x, by rw [List.getElem?_append_left hlt, hx], hrefl x⟩

theorem set (hrefl : ∀ x, later x x) (hi : xs[i]? = some x) (hlater : later x y) :
    Grown later xs (xs.set i y) := by
  intro j z hz
  rw [List.getElem?_set]
  by_cases hij : i = j
  · subst hij
    obtain rfl : x = z := Option.some.inj (hi.symm.trans hz)
    exact ⟨y, by simp [(List.getElem?_eq_some_iff.mp hi).1], hlater⟩
  · exact ⟨z, by rw [if_neg hij, hz], hrefl z⟩

theorem exists_mem (h : Grown later xs ys) (hx : x ∈ xs) : ∃ y ∈ ys, later x y := by
  obtain ⟨i, hi⟩ := List.mem_iff_getElem?.mp hx
  obtain ⟨y, hy, hlater⟩ := h i x hi
  exact ⟨y, List.mem_of_getElem? hy, hlater⟩

end Grown

/-! ## Picked entries -/

def picks (xs : List α) (places : List ℕ) : List α := places.filterMap (xs[·]?)

variable {places : List ℕ}

/-- One more place. -/
theorem picks_concat (hi : xs[i]? = some x) :
    picks xs (places ++ [i]) = picks xs places ++ [x] := by
  simp [picks, hi]

theorem picks_range (xs : List α) : picks xs (List.range xs.length) = xs := by
  have hmap : (List.range xs.length).map (xs[·]?) = xs.map some := by
    apply List.ext_getElem
    · simp
    · intro i hi hi'
      simp
  calc picks xs (List.range xs.length)
      = ((List.range xs.length).map (xs[·]?)).filterMap id := by rw [List.filterMap_map]; rfl
    _ = xs := by rw [hmap, List.filterMap_map]; simp

/-- Picking no place twice. -/
theorem picks_subperm (hnodup : places.Nodup) : (picks xs places).Subperm xs := by
  -- places behind the end pick nothing
  have hinside : picks xs places = picks xs (places.filter (· < xs.length)) := by
    rw [picks, picks, List.filterMap_filter]
    apply List.filterMap_congr
    intro i _
    by_cases hi : i < xs.length
    · simp [hi]
    · simp [hi]
  have hrange : (places.filter (· < xs.length)).Subperm (List.range xs.length) := by
    apply List.Nodup.subperm (hnodup.filter _)
    intro i hi
    simpa using (List.mem_filter.mp hi).2
  obtain ⟨zs, hperm, hsub⟩ := hrange
  have hsublist : (picks xs zs).Sublist (picks xs (List.range xs.length)) := hsub.filterMap _
  rw [picks_range] at hsublist
  rw [hinside]
  exact ⟨picks xs zs, hperm.filterMap _, hsublist⟩

theorem filter_picks {p : α → Bool}
    (hkind : ∀ i ∈ places, ∀ x, xs[i]? = some x → p x = true) :
    (picks xs places).filter p = picks xs places := by
  rw [List.filter_eq_self]
  intro x hx
  obtain ⟨i, hi, hpick⟩ := List.mem_filterMap.mp hx
  exact hkind i hi x hpick

/-- The picked entries among those of a kind. -/
theorem picks_subperm_filter (hnodup : places.Nodup) {p : α → Bool}
    (hkind : ∀ i ∈ places, ∀ x, xs[i]? = some x → p x = true) :
    (picks xs places).Subperm (xs.filter p) := by
  rw [← filter_picks hkind]
  exact (picks_subperm hnodup).filter p

/-- Places that ascend pick entries in their order. -/
theorem picks_sublist (hplaces : places.Pairwise (· < ·))
    (hinside : ∀ i ∈ places, i < xs.length) : (picks xs places).Sublist xs := by
  have hsub : places.Subperm (List.range xs.length) :=
    hplaces.nodup.subperm fun i hi => List.mem_range.mpr (hinside i hi)
  have hsorted : places.Sublist (List.range xs.length) :=
    List.sublist_of_subperm_of_pairwise hsub hplaces List.pairwise_lt_range
  have hpicked : (picks xs places).Sublist (picks xs (List.range xs.length)) := hsorted.filterMap _
  rwa [picks_range] at hpicked

section Slots

variable [Preorder β] {γ : Type*} {owns : α → Set β} {value : β → Option γ} {f : α → γ}
  {p : α → Bool} {slots : List β} (h : Ascending owns xs)
  (howner : ∀ b c, value b = some c → ∃ x ∈ xs, b ∈ owns x ∧ p x = true ∧ f x = c ∧
    ∀ b' ∈ owns x, (value b').isSome → b' = b)
  (hslots : slots.Pairwise (· < ·))

include h howner hslots

/-- Ascending slots that hold values of entries belong to ascending places. -/
theorem Ascending.exists_places :
    ∃ places : List ℕ, places.Pairwise (· < ·) ∧
      slots.filterMap value = (picks xs places).map f ∧
      ∀ i ∈ places, ∃ x, xs[i]? = some x ∧ p x = true ∧
        ∃ b ∈ slots, b ∈ owns x ∧ (value b).isSome := by
  induction slots with
  | nil => exact ⟨[], .nil, rfl, by simp⟩
  | cons b slots ih =>
      obtain ⟨hfirst, hrest⟩ := List.pairwise_cons.mp hslots
      obtain ⟨places, hordered, hvalues, hpicked⟩ := ih hrest
      have hmore : ∀ i ∈ places, ∃ x, xs[i]? = some x ∧ p x = true ∧
          ∃ b' ∈ b :: slots, b' ∈ owns x ∧ (value b').isSome := by
        intro i hi
        obtain ⟨x, hx, hkind, b', hb', hown⟩ := hpicked i hi
        exact ⟨x, hx, hkind, b', List.mem_cons_of_mem _ hb', hown⟩
      cases hvalue : value b with
      | none => exact ⟨places, hordered, by rw [List.filterMap_cons_none hvalue, hvalues], hmore⟩
      | some c =>
          obtain ⟨x, hx, hown, hkind, rfl, honce⟩ := howner b c hvalue
          obtain ⟨i, hi⟩ := List.mem_iff_getElem?.mp hx
          refine ⟨i :: places, List.pairwise_cons.mpr ⟨fun j hj => ?_, hordered⟩, ?_,
            fun j hj => ?_⟩
          · -- a later slot belongs to a later entry
            obtain ⟨y, hy, -, b', hb', hown', hsome⟩ := hpicked j hj
            have hlt := hfirst b' hb'
            rcases Nat.lt_trichotomy i j with hij | rfl | hji
            · exact hij
            · obtain rfl : x = y := Option.some.inj (hi.symm.trans hy)
              exact absurd (honce b' hown' hsome) hlt.ne'
            · exact absurd (h j i y x hji hy hi b' hown' b hown) hlt.asymm
          · rw [List.filterMap_cons_some hvalue, hvalues]
            simp [picks, hi]
          · rcases List.mem_cons.mp hj with rfl | hj
            · exact ⟨x, hi, hkind, b, List.mem_cons_self, hown, by simp [hvalue]⟩
            · exact hmore j hj

/-- If no two slots hold the value of one entry, the values come in the order of the
entries. -/
theorem Ascending.filterMap_sublist :
    (slots.filterMap value).Sublist ((xs.filter p).map f) := by
  obtain ⟨places, hordered, hvalues, hpicked⟩ := h.exists_places howner hslots
  have hkind : ∀ i ∈ places, ∀ x, xs[i]? = some x → p x = true := by
    intro i hi x hx
    obtain ⟨y, hy, hkind, -⟩ := hpicked i hi
    exact Option.some.inj (hy.symm.trans hx) ▸ hkind
  rw [hvalues, ← filter_picks hkind]
  refine ((picks_sublist hordered fun i hi => ?_).filter p).map f
  obtain ⟨x, hx, -⟩ := hpicked i hi
  exact (List.getElem?_eq_some_iff.mp hx).1

end Slots

/-- What is picked of a growing list. -/
theorem Grown.map_picks {γ : Type*} {later : α → α → Prop} {f : α → γ} (h : Grown later xs ys)
    (hf : ∀ x y, later x y → f y = f x) (hplaces : ∀ i ∈ places, ∃ x, xs[i]? = some x) :
    (picks ys places).map f = (picks xs places).map f := by
  rw [picks, picks, List.map_filterMap, List.map_filterMap]
  apply List.filterMap_congr
  intro i hi
  obtain ⟨x, hx⟩ := hplaces i hi
  obtain ⟨y, hy, hlater⟩ := h i x hx
  rw [hx, hy, Option.map_some, Option.map_some, hf x y hlater]

end Fastwire.Lib
