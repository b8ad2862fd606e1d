/-
# Lists in a common order

Two lists that are sublists of a list without duplicates have their elements in the same
order: each of them is a filter of that list, so that the one with fewer elements is a sublist
of the other (`sublist_of_mem`), and two with the same elements are equal (`eq_of_mem_iff`).
A list that is sorted by a key is determined by its parts with equal keys (`eq_of_filter_eq`),
and the part for a key that occurs once comes from one element (`filter_filterMap_of_nodup`).
-/
import Mathlib.Tactic

namespace Sublists

variable {α : Type*}

section

variable [DecidableEq α] {l l' L : List α} {a : α}

/-- A sublist of a list without duplicates is a filter of it. -/
lemma filter_mem (h : l.Sublist L) (hL : L.Nodup) : (L.filter fun x => x ∈ l) = l := by
  induction h with
  | slnil => rfl
  | @cons l L a h ih =>
    obtain ⟨ha, hL⟩ := List.nodup_cons.mp hL
    rw [List.filter_cons_of_neg (by simpa using fun hmem => ha (h.subset hmem)), ih hL]
  | @cons_cons l L a h ih =>
    obtain ⟨ha, hL⟩ := List.nodup_cons.mp hL
    rw [List.filter_cons_of_pos (by simp)]
    have hsame : (L.filter fun x => x ∈ a :: l) = L.filter fun x => x ∈ l := by
      refine List.filter_congr fun x hx => ?_
      have hne : x ≠ a := fun heq => ha (heq ▸ hx)
      simp [hne]
    rw [hsame, ih hL]

/-- **The common order**: of two sublists of a list without duplicates, the one whose elements
are in the other is a sublist of it. -/
theorem sublist_of_mem (hL : L.Nodup) (h : l.Sublist L) (h' : l'.Sublist L)
    (hmem : ∀ x ∈ l, x ∈ l') : l.Sublist l' := by
  have hfilter : (l'.filter fun x => x ∈ l) = l := by
    conv_lhs => rw [← filter_mem h' hL]
    rw [List.filter_filter]
    refine (List.filter_congr fun x _ => ?_).trans (filter_mem h hL)
    by_cases hx : x ∈ l
    · simp [hx, hmem x hx]
    · simp [hx]
  rw [← hfilter]
  exact List.filter_sublist

/-- Two sublists of a list without duplicates that have the same elements are equal. -/
theorem eq_of_mem_iff (hL : L.Nodup) (h : l.Sublist L) (h' : l'.Sublist L)
    (hmem : ∀ x, x ∈ l ↔ x ∈ l') : l = l' :=
  (sublist_of_mem hL h h' fun x hx => (hmem x).mp hx).antisymm
    (sublist_of_mem hL h' h fun x hx => (hmem x).mpr hx)

/-- An element that comes behind a sublist can be added to it. -/
theorem concat_of_idxOf_lt (hL : L.Nodup) (h : l.Sublist L) (ha : a ∈ L)
    (hlt : ∀ x ∈ l, L.idxOf x < L.idxOf a) : (l ++ [a]).Sublist L := by
  obtain ⟨l₁, l₂, rfl⟩ := List.append_of_mem ha
  have hmem : ∀ x ∈ l, x ∈ l₁ := by
    intro x hx
    by_contra hx₁
    have hlt := hlt x hx
    have ha₁ : a ∉ l₁ := fun hmem =>
      (List.nodup_append.mp hL).2.2 a hmem a List.mem_cons_self rfl
    rw [List.idxOf_append_of_notMem hx₁, List.idxOf_append_of_notMem ha₁,
      List.idxOf_cons_self] at hlt
    omega
  have hsub : l.Sublist l₁ := sublist_of_mem hL h (List.sublist_append_left _ _) hmem
  exact hsub.append (List.singleton_sublist.mpr List.mem_cons_self)

/-- An element that is put at the end keeps its place if it is there already. -/
theorem idxOf_filter_concat (hL : L.Nodup) (ha : a ∈ L) :
    ((L.filter fun x => x ≠ a) ++ [a]).idxOf a = L.idxOf a ↔ L.getLast? = some a := by
  obtain ⟨l₁, l₂, rfl⟩ := List.append_of_mem ha
  obtain ⟨-, hcons, hdisjoint⟩ := List.nodup_append.mp hL
  have ha₁ : a ∉ l₁ := fun hmem => hdisjoint a hmem a List.mem_cons_self rfl
  have ha₂ : a ∉ l₂ := (List.nodup_cons.mp hcons).1
  have hkeep : ∀ {l : List α}, a ∉ l → (l.filter fun x => x ≠ a) = l := fun h =>
    List.filter_eq_self.mpr fun x hx => decide_eq_true fun heq => h (heq ▸ hx)
  have hrest : ((l₁ ++ a :: l₂).filter fun x => x ≠ a) = l₁ ++ l₂ := by
    rw [List.filter_append, List.filter_cons_of_neg (by simp), hkeep ha₁, hkeep ha₂]
  rw [hrest, List.idxOf_append_of_notMem (by simp [ha₁, ha₂]), List.idxOf_append_of_notMem ha₁,
    List.idxOf_cons_self, List.idxOf_cons_self, List.length_append]
  constructor
  · intro hlen
    obtain rfl : l₂ = [] := List.length_eq_zero_iff.mp (by omega)
    exact List.getLast?_concat
  · intro hlast
    cases l₂ with
    | nil => rfl
    | cons x l₂ =>
      rw [List.getLast?_append, List.getLast?_cons_cons] at hlast
      refine absurd (List.mem_of_getLast? (?_ : (x :: l₂).getLast? = some a)) ha₂
      rw [List.getLast?_cons] at hlast ⊢
      exact hlast

end

/-- The part for the key of an element, when no other element has the key. -/
theorem filter_filterMap_of_nodup {β K : Type*} [DecidableEq K] {f : α → Option β} {key : α → K}
    {key' : β → K} (hf : ∀ a b, f a = some b → key' b = key a) {l : List α}
    (hl : (l.map key).Nodup) {a : α} (ha : a ∈ l) :
    ((l.filterMap f).filter fun b => key' b = key a) = (f a).toList := by
  induction l with
  | nil => exact absurd ha List.not_mem_nil
  | cons x l ih =>
    obtain ⟨hx, hl⟩ := List.nodup_cons.mp hl
    have hcons : ((x :: l).filterMap f).filter (fun b => key' b = key a)
        = (if key x = key a then (f x).toList else [])
          ++ (l.filterMap f).filter fun b => key' b = key a := by
      cases hfx : f x with
      | none => simp [hfx]
      | some b =>
        have hkey := hf x b hfx
        split_ifs with h <;> simp [hfx, hkey, h]
    rw [hcons]
    rcases List.mem_cons.mp ha with rfl | ha
    · have hrest : ((l.filterMap f).filter fun b => key' b = key a) = [] := by
        refine List.filter_eq_nil_iff.mpr fun b hb => ?_
        obtain ⟨y, hy, hyb⟩ := List.mem_filterMap.mp hb
        rw [decide_eq_true_eq, hf y b hyb]
        exact fun heq => hx (heq ▸ List.mem_map_of_mem hy)
      rw [hrest, if_pos rfl, List.append_nil]
    · have hne : key x ≠ key a := fun heq => hx (heq ▸ List.mem_map_of_mem ha)
      rw [if_neg hne, List.nil_append]
      exact ih hl ha

/-- **A sorted list is determined by its parts with equal keys.** -/
theorem eq_of_filter_eq {K : Type*} [DecidableEq K] {r : K → K → Prop} [IsStrictTotalOrder K r]
    {key : α → K} {l l' : List α} (h : l.Pairwise fun a b => ¬ r (key b) (key a))
    (h' : l'.Pairwise fun a b => ¬ r (key b) (key a))
    (hparts : ∀ k, (l.filter fun a => key a = k) = l'.filter fun a => key a = k) : l = l' := by
  have hmem : ∀ a, a ∈ l ↔ a ∈ l' := by
    intro a
    have hpart := congrArg (fun q => a ∈ q) (hparts (key a))
    simpa using hpart
  induction l generalizing l' with
  | nil =>
    refine (List.eq_nil_iff_forall_not_mem.mpr fun a ha => ?_).symm
    exact List.not_mem_nil ((hmem a).mpr ha)
  | cons a l ih =>
    cases l' with
    | nil => exact absurd ((hmem a).mp List.mem_cons_self) List.not_mem_nil
    | cons b l' =>
      obtain ⟨ha, hl⟩ := List.pairwise_cons.mp h
      obtain ⟨hb, hl'⟩ := List.pairwise_cons.mp h'
      -- both heads have the least key
      have hkey : key b = key a := by
        have hba : ¬ r (key b) (key a) := by
          rcases List.mem_cons.mp ((hmem b).mpr List.mem_cons_self) with rfl | hmem
          · exact irrefl_of r _
          · exact ha b hmem
        have hab : ¬ r (key a) (key b) := by
          rcases List.mem_cons.mp ((hmem a).mp List.mem_cons_self) with rfl | hmem
          · exact irrefl_of r _
          · exact hb a hmem
        rcases trichotomous_of r (key b) (key a) with hlt | heq | hlt
        · exact absurd hlt hba
        · exact heq
        · exact absurd hlt hab
      have hhead := hparts (key a)
      rw [List.filter_cons_of_pos (by simp), List.filter_cons_of_pos (by simp [hkey])] at hhead
      obtain ⟨rfl, -⟩ := List.cons.inj hhead
      have hrest : ∀ k, (l.filter fun a => key a = k) = l'.filter fun a => key a = k := by
        intro k
        have hk := hparts k
        rw [List.filter_cons, List.filter_cons] at hk
        split_ifs at hk
        · exact (List.cons.inj hk).2
        · exact hk
      rw [ih hl hl' hrest fun x => ?_]
      have hpart := congrArg (fun q => x ∈ q) (hrest (key x))
      simpa using hpart

end Sublists
