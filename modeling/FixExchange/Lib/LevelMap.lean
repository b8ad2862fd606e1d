/-
# Ordered maps of first-in-first-out levels

A standard way to keep a queue ordered by a key, first-in-first-out among equal keys, is an
ordered map whose values are plain queues, the *levels*: an element is appended to the level
of its key, and a level that becomes empty is dropped.  This file shows that such a map
represents one flat list, the concatenation `flat` of its levels, that this list is sorted
by the key, and that the operations on levels are the obvious operations on the flat list:
`pushBack` is an ordered insertion behind the equal keys, `removeAt` is a `filter`, and the
first element of the first level is the head of the flat list.
-/
import FixExchange.Lib.SortedMap

namespace SortedMap

variable {K α : Type*} {r : K → K → Prop}

/-- The elements of all levels, in iteration order. -/
def flat (m : SortedMap r (List α)) : List α := m.entries.flatMap Prod.snd

/-- Every level is non-empty and holds elements of its own key only. -/
def Leveled (key : α → K) (m : SortedMap r (List α)) : Prop :=
  ∀ e ∈ m.entries, e.2 ≠ [] ∧ ∀ a ∈ e.2, key a = e.1

/-- Apply a function to every element, in place. -/
def mapElems (f : α → α) (m : SortedMap r (List α)) : SortedMap r (List α) :=
  ⟨m.entries.map fun e => (e.1, e.2.map f), by
    rw [List.pairwise_map]; exact m.sorted⟩

section Ops

variable [DecidableEq K] [DecidableRel r] [IsStrictTotalOrder K r]

/-- Store a level, or drop it when it is empty. -/
def setLevel (m : SortedMap r (List α)) (k : K) (q : List α) : SortedMap r (List α) :=
  if q.isEmpty then m.erase k else m.insert k q

/-- Append an element to the level of a key, which is created when it is missing. -/
def pushBack (m : SortedMap r (List α)) (k : K) (a : α) : SortedMap r (List α) :=
  m.insert k (m.findD k [] ++ [a])

/-- Remove the elements that satisfy `p` from the level of a key. -/
def removeAt (m : SortedMap r (List α)) (k : K) (p : α → Bool) : SortedMap r (List α) :=
  m.setLevel k ((m.findD k []).filter fun a => !p a)

end Ops

@[simp] lemma flat_empty : (empty : SortedMap r (List α)).flat = [] := rfl

lemma mem_flat {m : SortedMap r (List α)} {a : α} :
    a ∈ m.flat ↔ ∃ e ∈ m.entries, a ∈ e.2 := by
  simp [flat, List.mem_flatMap]

lemma flat_of_entries {m : SortedMap r (List α)} {k : K} {q : List α}
    {l : List (K × List α)} (h : m.entries = (k, q) :: l) :
    m.flat = q ++ l.flatMap Prod.snd := by
  rw [flat, h, List.flatMap_cons]

variable {key : α → K}

lemma leveled_empty : Leveled key (empty : SortedMap r (List α)) := by
  intro e he
  simp at he

/-- The flat list is sorted by the key. -/
lemma Leveled.flat_sorted [IsStrictTotalOrder K r] {m : SortedMap r (List α)}
    (h : Leveled key m) : m.flat.Pairwise fun a b => ¬ r (key b) (key a) := by
  refine List.pairwise_flatMap.mpr ⟨fun e he => ?_, ?_⟩
  · refine List.pairwise_of_forall_mem_list fun a ha b hb => ?_
    rw [(h e he).2 a ha, (h e he).2 b hb]
    exact irrefl_of r e.1
  · refine List.Pairwise.imp_of_mem (fun {e e'} he he' hr a ha b hb => ?_) m.sorted
    rw [(h e he).2 a ha, (h e' he').2 b hb]
    exact asymm_of r hr

/-! ## The level of a key -/

lemma flatMap_filter_eq_nil {l : List (K × List α)} [DecidableEq K] {k : K}
    (h : ∀ e ∈ l, ∀ a ∈ e.2, key a ≠ k) :
    (l.flatMap Prod.snd).filter (fun a => key a = k) = [] := by
  refine List.filter_eq_nil_iff.mpr fun a ha => ?_
  obtain ⟨e, he, hae⟩ := List.mem_flatMap.mp ha
  simpa using h e he a hae

variable [DecidableEq K]

/-- The level of a key is the part of the flat list with that key. -/
lemma Leveled.findD_eq_filter [IsStrictTotalOrder K r] {m : SortedMap r (List α)}
    (h : Leveled key m) (k : K) : m.findD k [] = m.flat.filter fun a => key a = k := by
  obtain ⟨l, hl⟩ := m
  simp only [findD, find?, flat]
  simp only [Leveled] at h
  induction l with
  | nil => rfl
  | cons e l ih =>
    obtain ⟨hhead, htail⟩ := List.pairwise_cons.mp hl
    have hl' : ∀ e' ∈ l, e'.2 ≠ [] ∧ ∀ a ∈ e'.2, key a = e'.1 :=
      fun e' he' => h e' (List.mem_cons_of_mem _ he')
    have he := (h e List.mem_cons_self).2
    rw [List.flatMap_cons, List.filter_append]
    by_cases hek : e.1 = k
    · -- the level is the first one: no later level has this key
      have hlater : ∀ e' ∈ l, ∀ a ∈ e'.2, key a ≠ k := by
        intro e' he' a ha hak
        have hr := hhead e' he'
        rw [← (hl' e' he').2 a ha, hak, hek] at hr
        exact irrefl_of r k hr
      have hself : e.2.filter (fun a => key a = k) = e.2 :=
        List.filter_eq_self.mpr fun a ha => by simp [he a ha, hek]
      rw [flatMap_filter_eq_nil hlater, List.append_nil, hself]
      simp [hek]
    · have hnone : e.2.filter (fun a => key a = k) = [] :=
        List.filter_eq_nil_iff.mpr fun a ha => by simp [he a ha, hek]
      rw [hnone, List.nil_append, ← ih htail hl',
        List.find?_cons_of_neg (by simpa using hek)]

section

variable [DecidableRel r] [IsStrictTotalOrder K r]

lemma mem_entries_setLevel {m : SortedMap r (List α)} {k : K} {q : List α}
    {e : K × List α} (he : e ∈ (m.setLevel k q).entries) :
    (e = (k, q) ∧ q ≠ []) ∨ (e ∈ m.entries ∧ e.1 ≠ k) := by
  by_cases hq : q = []
  · rw [setLevel, hq, List.isEmpty_nil, if_pos rfl] at he
    exact Or.inr (mem_entries_erase.mp he)
  · rw [setLevel, if_neg (by simpa using hq)] at he
    rcases mem_entries_insert.mp he with he | he
    · exact Or.inl ⟨he, hq⟩
    · exact Or.inr he

lemma Leveled.setLevel {m : SortedMap r (List α)} (h : Leveled key m) {k : K} {q : List α}
    (hq : ∀ a ∈ q, key a = k) : Leveled key (m.setLevel k q) := by
  intro e he
  rcases mem_entries_setLevel he with ⟨rfl, hne⟩ | ⟨he, -⟩
  · exact ⟨hne, hq⟩
  · exact h e he

/-- Replacing a level replaces its part of the flat list. -/
lemma flat_setLevel {m : SortedMap r (List α)} {k : K} {q : List α}
    {l₁ l₂ : List (K × List α)} (h : m.entries = l₁ ++ (k, q) :: l₂) (q' : List α) :
    (m.setLevel k q').flat = l₁.flatMap Prod.snd ++ q' ++ l₂.flatMap Prod.snd := by
  by_cases hq : q' = []
  · rw [SortedMap.setLevel, hq, List.isEmpty_nil, if_pos rfl, flat, entries_erase_split h,
      List.flatMap_append, List.append_nil]
  · rw [SortedMap.setLevel, if_neg (by simpa using hq), flat, entries_insert_split h q',
      List.flatMap_append, List.flatMap_cons, List.append_assoc]

/-! ## Appending to a level -/

lemma Leveled.pushBack {m : SortedMap r (List α)} (h : Leveled key m) (a : α) :
    Leveled key (m.pushBack (key a) a) := by
  intro e he
  rcases mem_entries_insert.mp he with rfl | ⟨he, -⟩
  · refine ⟨by simp, fun b hb => ?_⟩
    rcases List.mem_append.mp hb with hb | hb
    · rw [h.findD_eq_filter] at hb
      simpa using (List.mem_filter.mp hb).2
    · rw [List.mem_singleton.mp hb]
  · exact h e he

lemma orderedInsert_append {R : α → α → Prop} [DecidableRel R] {a : α} :
    ∀ {l l' : List α}, (∀ b ∈ l, ¬ R a b) →
      (l ++ l').orderedInsert R a = l ++ l'.orderedInsert R a
  | [], _, _ => rfl
  | b :: l, l', h => by
    rw [List.cons_append, List.orderedInsert_of_not_le _ _ (h b List.mem_cons_self),
      orderedInsert_append fun c hc => h c (List.mem_cons_of_mem _ hc), List.cons_append]

lemma orderedInsert_of_forall {R : α → α → Prop} [DecidableRel R] {a : α} {l : List α}
    (h : ∀ b ∈ l, R a b) : l.orderedInsert R a = a :: l := by
  cases l with
  | nil => rfl
  | cons b l => exact List.orderedInsert_cons_of_le _ _ (h b List.mem_cons_self)

/-- **Appending to a level is inserting into the flat list**, in front of the elements with
a strictly later key, hence behind those with the same key. -/
lemma Leveled.flat_pushBack {m : SortedMap r (List α)} (h : Leveled key m) (a : α) :
    (m.pushBack (key a) a).flat
      = m.flat.orderedInsert (fun x y => r (key x) (key y)) a := by
  have hfind := h.findD_eq_filter (key a)
  obtain ⟨l, hl⟩ := m
  simp only [SortedMap.pushBack, SortedMap.insert]
  rw [hfind]
  simp only [flat]
  simp only [Leveled] at h
  clear hfind
  induction l with
  | nil => simp [insertEntry]
  | cons e l ih =>
    obtain ⟨hhead, htail⟩ := List.pairwise_cons.mp hl
    have hl' : ∀ e' ∈ l, e'.2 ≠ [] ∧ ∀ b ∈ e'.2, key b = e'.1 :=
      fun e' he' => h e' (List.mem_cons_of_mem _ he')
    have he := (h e List.mem_cons_self).2
    have hlater : ∀ b ∈ l.flatMap Prod.snd, r e.1 (key b) := by
      intro b hb
      obtain ⟨e', he', hbe⟩ := List.mem_flatMap.mp hb
      rw [(hl' e' he').2 b hbe]
      exact hhead e' he'
    simp only [insertEntry]
    rw [List.flatMap_cons, List.filter_append]
    split_ifs with h1 h2
    · -- a new first level
      have hall : ∀ b ∈ e.2 ++ l.flatMap Prod.snd, r (key a) (key b) := by
        intro b hb
        rcases List.mem_append.mp hb with hb | hb
        · rw [he b hb]; exact h1
        · exact trans_of r h1 (hlater b hb)
      rw [orderedInsert_of_forall hall, ← List.filter_append,
        List.filter_eq_nil_iff.mpr fun b hb => ?_]
      · simp
      · simp only [decide_eq_true_eq]
        intro hba
        have hr := hall b hb
        rw [hba] at hr
        exact irrefl_of r _ hr
    · -- the first level has the key of `a`
      have hself : e.2.filter (fun b => key b = key a) = e.2 :=
        List.filter_eq_self.mpr fun b hb => by simp [he b hb, h2]
      have hnone : (l.flatMap Prod.snd).filter (fun b => key b = key a) = [] := by
        refine List.filter_eq_nil_iff.mpr fun b hb => ?_
        simp only [decide_eq_true_eq]
        intro hba
        have hr := hlater b hb
        rw [hba, h2] at hr
        exact irrefl_of r _ hr
      rw [hself, hnone, List.append_nil, orderedInsert_append fun b hb => by
          rw [he b hb, h2]; exact irrefl_of r _,
        orderedInsert_of_forall fun b hb => by rw [h2]; exact hlater b hb]
      simp
    · -- the first level comes before the key of `a`
      have hnone : e.2.filter (fun b => key b = key a) = [] :=
        List.filter_eq_nil_iff.mpr fun b hb => by simp [he b hb, Ne.symm h2]
      rw [hnone, List.nil_append, List.flatMap_cons, ih htail hl',
        orderedInsert_append fun b hb => by rw [he b hb]; exact h1]

/-! ## Removing from a level -/

lemma Leveled.removeAt {m : SortedMap r (List α)} (h : Leveled key m) (k : K)
    (p : α → Bool) : Leveled key (m.removeAt k p) := by
  refine h.setLevel fun a ha => ?_
  rw [h.findD_eq_filter] at ha
  simpa using (List.mem_filter.mp (List.mem_filter.mp ha).1).2

/-- **Removing from a level is filtering the flat list**, when everything to be removed has
the key of the level. -/
lemma Leveled.flat_removeAt {m : SortedMap r (List α)} (h : Leveled key m) {k : K}
    {p : α → Bool} (hp : ∀ a ∈ m.flat, p a = true → key a = k) :
    (m.removeAt k p).flat = m.flat.filter fun a => !p a := by
  have hfind := h.findD_eq_filter k
  have hkeep : ∀ l : List (K × List α), (∀ e ∈ l, e ∈ m.entries ∧ e.1 ≠ k) →
      (l.flatMap Prod.snd).filter (fun a => !p a) = l.flatMap Prod.snd := by
    intro l hl
    refine List.filter_eq_self.mpr fun a ha => ?_
    obtain ⟨e, he, hae⟩ := List.mem_flatMap.mp ha
    have hne : key a ≠ k := by
      rw [(h e (hl e he).1).2 a hae]
      exact (hl e he).2
    simpa using fun hpa => hne (hp a (mem_flat.mpr ⟨e, (hl e he).1, hae⟩) hpa)
  rw [SortedMap.removeAt]
  rcases hq : m.find? k with _ | q
  · -- no level has this key: nothing is removed
    have hall : ∀ e ∈ m.entries, e ∈ m.entries ∧ e.1 ≠ k := by
      rintro ⟨k', q⟩ he
      refine ⟨he, ?_⟩
      rintro rfl
      rw [find?_eq_some_iff.mpr he] at hq
      exact absurd hq (by simp)
    have herase : (m.erase k).entries = m.entries :=
      List.filter_eq_self.mpr fun e he => by simpa using (hall e he).2
    rw [findD, hq, Option.getD_none, List.filter_nil, SortedMap.setLevel, List.isEmpty_nil,
      if_pos rfl, flat, herase]
    exact (hkeep m.entries hall).symm
  · obtain ⟨l₁, l₂, hl⟩ := List.append_of_mem (find?_eq_some_iff.mp hq)
    obtain ⟨h₁, h₂⟩ := keys_lt_of_split hl
    rw [flat_setLevel hl, flat, hl, List.flatMap_append, List.flatMap_cons,
      List.filter_append, List.filter_append, hkeep l₁, hkeep l₂, findD, hq,
      Option.getD_some, List.append_assoc]
    · intro e he
      exact ⟨by rw [hl]; simp [he], ne_of_irrefl' (h₂ e he)⟩
    · intro e he
      exact ⟨by rw [hl]; simp [he], ne_of_irrefl (h₁ e he)⟩

end

/-! ## Changing the elements in place -/

omit [DecidableEq K]

@[simp] lemma flat_mapElems (f : α → α) (m : SortedMap r (List α)) :
    (m.mapElems f).flat = m.flat.map f := by
  simp [flat, mapElems, List.flatMap_map, List.map_flatMap]

lemma Leveled.mapElems {m : SortedMap r (List α)} (h : Leveled key m) {f : α → α}
    (hf : ∀ a ∈ m.flat, key (f a) = key a) : Leveled key (m.mapElems f) := by
  intro e he
  obtain ⟨e', he', rfl⟩ := List.mem_map.mp he
  refine ⟨by simpa using (h e' he').1, fun a ha => ?_⟩
  obtain ⟨b, hb, rfl⟩ := List.mem_map.mp ha
  rw [hf b (mem_flat.mpr ⟨e', he', hb⟩)]
  exact (h e' he').2 b hb

end SortedMap
