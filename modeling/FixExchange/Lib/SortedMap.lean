/-
# Ordered maps with an explicit iteration order

An ordered tree map is observed through its iteration: the entries come out in the order
of their keys, for a comparator fixed by the type.  Here such a map *is* the list of its
entries in that order, and the order is a field, so that a map that iterates in the wrong
order cannot be built.  The comparator is any strict total order; a map that iterates from
the greatest key downwards is the one with comparator `(· > ·)`.
-/
import Mathlib.Data.List.Sort
import Mathlib.Tactic

/-- A finite map, given by the list of its entries in the iteration order of an ordered
tree with comparator `r`. -/
structure SortedMap {K : Type*} (r : K → K → Prop) (V : Type*) where
  /-- The entries, in iteration order. -/
  entries : List (K × V)
  /-- The keys strictly increase for the comparator. -/
  sorted : entries.Pairwise fun a b => r a.1 b.1

namespace SortedMap

variable {K V : Type*} {r : K → K → Prop}

@[ext] lemma ext {m m' : SortedMap r V} (h : m.entries = m'.entries) : m = m' := by
  cases m; cases m'; simpa using h

/-- The map without entries. -/
def empty : SortedMap r V := ⟨[], List.Pairwise.nil⟩

@[simp] lemma entries_empty : (empty : SortedMap r V).entries = [] := rfl

variable [DecidableEq K]

/-- The value stored under a key. -/
def find? (m : SortedMap r V) (k : K) : Option V :=
  (m.entries.find? fun e => e.1 = k).map Prod.snd

/-- The value stored under a key, or a default. -/
def findD (m : SortedMap r V) (k : K) (d : V) : V := (m.find? k).getD d

/-- Remove the entry of a key. -/
def erase (m : SortedMap r V) (k : K) : SortedMap r V :=
  ⟨m.entries.filter fun e => e.1 ≠ k, m.sorted.filter _⟩

/-- Insert an entry at its place in the order, replacing the entry of the same key. -/
def insertEntry (r : K → K → Prop) [DecidableRel r] (k : K) (v : V) :
    List (K × V) → List (K × V)
  | [] => [(k, v)]
  | e :: l =>
    if r k e.1 then (k, v) :: e :: l
    else if k = e.1 then (k, v) :: l
    else e :: insertEntry r k v l

section Insert

variable [DecidableRel r]

lemma mem_of_mem_insertEntry {k : K} {v : V} {e : K × V} :
    ∀ {l : List (K × V)}, e ∈ insertEntry r k v l → e = (k, v) ∨ e ∈ l
  | [], h => Or.inl (by simpa [insertEntry] using h)
  | e' :: l, h => by
    simp only [insertEntry] at h
    split_ifs at h
    · exact List.mem_cons.mp h
    · rcases List.mem_cons.mp h with h | h
      · exact Or.inl h
      · exact Or.inr (List.mem_cons_of_mem _ h)
    · rcases List.mem_cons.mp h with rfl | h
      · exact Or.inr List.mem_cons_self
      · rcases mem_of_mem_insertEntry h with h | h
        · exact Or.inl h
        · exact Or.inr (List.mem_cons_of_mem _ h)

lemma sorted_insertEntry [IsStrictTotalOrder K r] (k : K) (v : V) {l : List (K × V)}
    (h : l.Pairwise fun a b => r a.1 b.1) :
    (insertEntry r k v l).Pairwise fun a b => r a.1 b.1 := by
  induction l with
  | nil => simp [insertEntry]
  | cons e l ih =>
    obtain ⟨hhead, htail⟩ := List.pairwise_cons.mp h
    simp only [insertEntry]
    split_ifs with h1 h2
    · refine List.pairwise_cons.mpr ⟨fun a ha => ?_, h⟩
      rcases List.mem_cons.mp ha with rfl | ha
      · exact h1
      · exact trans_of r h1 (hhead a ha)
    · subst h2
      exact List.pairwise_cons.mpr ⟨hhead, htail⟩
    · refine List.pairwise_cons.mpr ⟨fun a ha => ?_, ih htail⟩
      rcases mem_of_mem_insertEntry ha with rfl | ha
      · rcases trichotomous_of r k e.1 with h3 | h3 | h3
        · exact absurd h3 h1
        · exact absurd h3 h2
        · exact h3
      · exact hhead a ha

/-- Store a value under a key. -/
def insert [IsStrictTotalOrder K r] (m : SortedMap r V) (k : K) (v : V) : SortedMap r V :=
  ⟨insertEntry r k v m.entries, sorted_insertEntry k v m.sorted⟩

lemma entries_insert [IsStrictTotalOrder K r] (m : SortedMap r V) (k : K) (v : V) :
    (m.insert k v).entries = insertEntry r k v m.entries := rfl

end Insert

lemma entries_erase (m : SortedMap r V) (k : K) :
    (m.erase k).entries = m.entries.filter fun e => e.1 ≠ k := rfl

/-! ## The map as a partial function -/

lemma find?_eq_some_iff [IsStrictTotalOrder K r] {m : SortedMap r V} {k : K} {v : V} :
    m.find? k = some v ↔ (k, v) ∈ m.entries := by
  obtain ⟨l, hl⟩ := m
  simp only [find?]
  induction l with
  | nil => simp
  | cons e l ih =>
    obtain ⟨hhead, htail⟩ := List.pairwise_cons.mp hl
    by_cases he : e.1 = k
    · subst he
      constructor
      · intro h
        have hv : e.2 = v := by simpa using h
        subst hv
        exact List.mem_cons_self
      · intro h
        rcases List.mem_cons.mp h with h | h
        · have hv : e.2 = v := congrArg Prod.snd h.symm
          simp [hv]
        · exact absurd (hhead _ h) (irrefl_of r e.1)
    · have hne : e ≠ (k, v) := fun h => he (by rw [h])
      rw [List.find?_cons_of_neg (by simpa using he), ih htail, List.mem_cons,
        or_iff_right (Ne.symm hne)]

lemma mem_entries_erase {m : SortedMap r V} {k : K} {e : K × V} :
    e ∈ (m.erase k).entries ↔ e ∈ m.entries ∧ e.1 ≠ k := by
  simp [erase]

lemma mem_entries_insert [DecidableRel r] [IsStrictTotalOrder K r] {m : SortedMap r V} {k : K}
    {v : V} {e : K × V} :
    e ∈ (m.insert k v).entries ↔ e = (k, v) ∨ (e ∈ m.entries ∧ e.1 ≠ k) := by
  obtain ⟨l, hl⟩ := m
  simp only [insert]
  induction l with
  | nil => simp [insertEntry]
  | cons e' l ih =>
    obtain ⟨hhead, htail⟩ := List.pairwise_cons.mp hl
    have hne : ∀ a ∈ l, r k a.1 → a.1 ≠ k := fun a _ hr h => irrefl_of r k (by rwa [h] at hr)
    simp only [insertEntry]
    split_ifs with h1 h2
    · have hall : e ∈ e' :: l → e.1 ≠ k := by
        rintro h rfl
        rcases List.mem_cons.mp h with rfl | h
        · exact irrefl_of r _ h1
        · exact irrefl_of r _ (trans_of r h1 (hhead _ h))
      rw [List.mem_cons (a := e)]
      exact or_congr_right (iff_self_and.mpr hall)
    · subst h2
      have hall : e ∈ l → e.1 ≠ e'.1 := fun h => hne e h (hhead e h)
      rw [List.mem_cons, List.mem_cons, or_and_right]
      refine or_congr_right ⟨fun h => Or.inr ⟨h, hall h⟩, ?_⟩
      rintro (⟨rfl, h⟩ | ⟨h, -⟩)
      · exact absurd rfl h
      · exact h
    · rw [List.mem_cons, ih htail, List.mem_cons, or_and_right]
      have he' : e = e' → e.1 ≠ k := fun h => by rw [h]; exact Ne.symm h2
      rw [and_iff_left_of_imp he', or_left_comm]

@[simp] lemma find?_empty (k : K) : (empty : SortedMap r V).find? k = none := rfl

lemma find?_insert [DecidableRel r] [IsStrictTotalOrder K r] (m : SortedMap r V) (k k' : K)
    (v : V) : (m.insert k v).find? k' = if k' = k then some v else m.find? k' := by
  refine Option.ext fun w => ?_
  rw [find?_eq_some_iff, mem_entries_insert]
  split_ifs with h
  · simp [h, eq_comm]
  · rw [find?_eq_some_iff]
    simp [h]

/-! ## An entry at its place -/

lemma insertEntry_split [DecidableRel r] [IsStrictTotalOrder K r] {k : K} {v v₀ : V}
    {l₂ : List (K × V)} : ∀ {l₁ : List (K × V)}, (∀ e ∈ l₁, r e.1 k) →
      insertEntry r k v (l₁ ++ (k, v₀) :: l₂) = l₁ ++ (k, v) :: l₂
  | [], _ => by simp [insertEntry, irrefl_of r k]
  | e :: l₁, h => by
    have he : r e.1 k := h e List.mem_cons_self
    have hne : k ≠ e.1 := fun hk => irrefl_of r k (by rwa [← hk] at he)
    rw [List.cons_append, insertEntry, if_neg (asymm_of r he), if_neg hne,
      insertEntry_split fun e' he' => h e' (List.mem_cons_of_mem _ he'), List.cons_append]

section Split

variable {m : SortedMap r V} {k : K} {v₀ : V} {l₁ l₂ : List (K × V)}

omit [DecidableEq K] in
lemma keys_lt_of_split (h : m.entries = l₁ ++ (k, v₀) :: l₂) :
    (∀ e ∈ l₁, r e.1 k) ∧ ∀ e ∈ l₂, r k e.1 := by
  have hs := m.sorted
  rw [h, List.pairwise_append] at hs
  exact ⟨fun e he => hs.2.2 e he _ List.mem_cons_self, (List.pairwise_cons.mp hs.2.1).1⟩

lemma entries_insert_split [DecidableRel r] [IsStrictTotalOrder K r]
    (h : m.entries = l₁ ++ (k, v₀) :: l₂) (v : V) :
    (m.insert k v).entries = l₁ ++ (k, v) :: l₂ := by
  rw [entries_insert, h]
  exact insertEntry_split (keys_lt_of_split h).1

lemma entries_erase_split [IsStrictTotalOrder K r] (h : m.entries = l₁ ++ (k, v₀) :: l₂) :
    (m.erase k).entries = l₁ ++ l₂ := by
  obtain ⟨h₁, h₂⟩ := keys_lt_of_split h
  have hl₁ : l₁.filter (fun e => e.1 ≠ k) = l₁ :=
    List.filter_eq_self.mpr fun e he => by simpa using ne_of_irrefl (h₁ e he)
  have hl₂ : l₂.filter (fun e => e.1 ≠ k) = l₂ :=
    List.filter_eq_self.mpr fun e he => by simpa using ne_of_irrefl' (h₂ e he)
  rw [entries_erase, h, List.filter_append, List.filter_cons_of_neg (by simp), hl₁, hl₂]

end Split

end SortedMap
