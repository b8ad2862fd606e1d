/-
# Ledgers

Several components of a system often keep their own copy of the same records, each in a data
structure of its own, and each copy is kept up to date by its own code.  To compare them, a
copy is read as a *ledger*, the partial function from keys to records that it represents.
This file has the three changes that such copies undergo (`put`, `drop`, `adjust`), how they
show in finite maps and in lists of records that hold their own keys, and how they go along
with changing the type of the records (`map`), with cutting a ledger down to the keys of
another one (`restrict`) and with putting two ledgers together (`orElse`).
-/
import Mathlib.Data.List.AList
import Mathlib.Tactic

/-- What is on record under each key. -/
abbrev Ledger (K V : Type*) := K → Option V

namespace Ledger

variable {K V W : Type*} [DecidableEq K]

/-- Record a value under a key. -/
def put (L : Ledger K V) (k : K) (v : V) : Ledger K V := Function.update L k (some v)

/-- Remove the record of a key. -/
def drop (L : Ledger K V) (k : K) : Ledger K V := Function.update L k none

/-- Change the record of a key, when there is one. -/
def adjust (L : Ledger K V) (k : K) (f : V → V) : Ledger K V := Function.update L k ((L k).map f)

/-- Change the type of the records. -/
def map (g : V → W) (L : Ledger K V) : Ledger K W := fun k => (L k).map g

/-- The records of `L` under the keys of `M`. -/
def restrict (L : Ledger K V) (M : Ledger K W) : Ledger K V :=
  fun k => if (M k).isSome then L k else none

/-- The ledger without records. -/
def empty : Ledger K V := fun _ => none

variable {L : Ledger K V} {M : Ledger K W} {k k' : K} {v : V} {f : V → V}

section

omit [DecidableEq K]

@[simp] lemma map_apply (g : V → W) : L.map g k = (L k).map g := rfl

lemma restrict_eq_some {v : V} : L.restrict M k = some v ↔ L k = some v ∧ (M k).isSome := by
  rw [restrict]
  split_ifs with h
  · simp [h]
  · simp [h]

/-- Only the records that are kept count. -/
lemma restrict_congr {L' : Ledger K V} (h : ∀ k, M k ≠ none → L k = L' k) :
    L.restrict M = L'.restrict M := by
  funext k
  rw [restrict, restrict]
  split_ifs with hk
  · exact h k (Option.isSome_iff_ne_none.mp hk)
  · rfl

lemma restrict_eq_none : L.restrict M k = none ↔ L k = none ∨ M k = none := by
  rw [restrict]
  split_ifs with h
  · simp [Option.isSome_iff_ne_none.mp h]
  · simp [Option.not_isSome_iff_eq_none.mp h]

end

@[simp] lemma put_self : L.put k v k = some v := Function.update_self ..
@[simp] lemma drop_self : L.drop k k = none := Function.update_self ..
@[simp] lemma adjust_self : L.adjust k f k = (L k).map f := Function.update_self ..

lemma put_of_ne (h : k' ≠ k) : L.put k v k' = L k' := Function.update_of_ne h ..
lemma drop_of_ne (h : k' ≠ k) : L.drop k k' = L k' := Function.update_of_ne h ..
lemma adjust_of_ne (h : k' ≠ k) : L.adjust k f k' = L k' := Function.update_of_ne h ..

/-- What is left when something is removed was there before. -/
lemma of_drop_eq_some (h : L.drop k k' = some v) : L k' = some v := by
  by_cases hk : k' = k
  · rw [hk, drop_self] at h
    exact absurd h (by simp)
  · rwa [drop_of_ne hk] at h

/-- Removing what is not there changes nothing. -/
lemma drop_of_none (h : L k = none) : L.drop k = L := by
  rw [drop, ← h, Function.update_eq_self]

lemma adjust_of_none (h : L k = none) : L.adjust k f = L := by
  rw [adjust, h, Option.map_none, ← h, Function.update_eq_self]

lemma adjust_of_some (h : L k = some v) : L.adjust k f = L.put k (f v) := by
  rw [adjust, h, Option.map_some, put]

lemma put_eq_self (h : L k = some v) : L.put k v = L := by
  rw [put, ← h, Function.update_eq_self]

lemma put_drop_self (L : Ledger K V) (k : K) (v : V) : (L.drop k).put k v = L.put k v :=
  Function.update_idem ..

lemma put_adjust_self : (L.put k v).adjust k f = L.put k (f v) := by
  rw [adjust_of_some put_self]
  exact Function.update_idem ..

/-! ## Changes at different keys -/

lemma drop_put (h : k' ≠ k) (v : V) : (L.put k v).drop k' = (L.drop k').put k v :=
  Function.update_comm h.symm _ _ _

lemma adjust_put (h : k' ≠ k) (v : V) (f : V → V) :
    (L.put k v).adjust k' f = (L.adjust k' f).put k v := by
  rw [adjust, put_of_ne h]
  exact Function.update_comm h.symm _ _ _

/-! ## Other records, other keys -/

lemma map_put (g : V → W) : (L.put k v).map g = (L.map g).put k (g v) := by
  funext k'
  by_cases h : k' = k
  · subst h; simp
  · simp [put_of_ne h]

lemma map_drop (g : V → W) : (L.drop k).map g = (L.map g).drop k := by
  funext k'
  by_cases h : k' = k
  · subst h; simp
  · simp [drop_of_ne h]

/-- A change of the records that `g` carries over to the change `f'` of its values. -/
lemma map_adjust {g : V → W} {f' : W → W} (hg : ∀ v, g (f v) = f' (g v)) :
    (L.adjust k f).map g = (L.map g).adjust k f' := by
  funext k'
  by_cases h : k' = k
  · subst h
    cases hL : L k' <;> simp [hL, hg]
  · simp [adjust_of_ne h]

lemma restrict_drop : (L.drop k).restrict (M.drop k) = (L.restrict M).drop k := by
  funext k'
  by_cases h : k' = k
  · subst h; simp [restrict]
  · simp [restrict, drop_of_ne h]

lemma restrict_put {w : W} : (L.put k v).restrict (M.put k w) = (L.restrict M).put k v := by
  funext k'
  by_cases h : k' = k
  · subst h; simp [restrict]
  · simp [restrict, put_of_ne h]

lemma restrict_adjust {f' : W → W} :
    (L.adjust k f).restrict (M.adjust k f') = (L.restrict M).adjust k f := by
  funext k'
  by_cases h : k' = k
  · subst h
    cases hM : M k' <;> simp [restrict, hM]
  · simp [restrict, adjust_of_ne h]

/-! ## Records with an amount -/

/-- Set the amount of a record; a record without amount is removed. -/
def setAmount (set : ℤ → V → V) (L : Ledger K V) (k : K) (n : ℤ) : Ledger K V :=
  if n = 0 then L.drop k else L.adjust k (set n)

variable {set : ℤ → V → V} {n : ℤ}

lemma setAmount_of_ne (h : k' ≠ k) : L.setAmount set k n k' = L k' := by
  rw [setAmount]
  split_ifs
  · exact drop_of_ne h
  · exact adjust_of_ne h

lemma setAmount_self : L.setAmount set k n k = if n = 0 then none else (L k).map (set n) := by
  rw [setAmount]
  split_ifs <;> simp

lemma setAmount_of_none (h : L k = none) : L.setAmount set k n = L := by
  rw [setAmount]
  split_ifs
  · exact drop_of_none h
  · exact adjust_of_none h

lemma setAmount_put (h : k' ≠ k) (v : V) :
    (L.put k v).setAmount set k' n = (L.setAmount set k' n).put k v := by
  rw [setAmount, setAmount]
  split_ifs
  · exact drop_put h v
  · exact adjust_put h v _

lemma restrict_setAmount {set' : ℤ → W → W} :
    (L.setAmount set k n).restrict (M.setAmount set' k n)
      = (L.restrict M).setAmount set k n := by
  simp only [setAmount]
  split_ifs
  · exact restrict_drop
  · exact restrict_adjust

/-! ## Finite maps -/

/-- The ledger that a finite map represents. -/
def ofAList (m : AList fun _ : K => V) : Ledger K V := fun k => m.lookup k

@[simp] lemma ofAList_apply (m : AList fun _ : K => V) : ofAList m k = m.lookup k := rfl

@[simp] lemma ofAList_empty : ofAList (∅ : AList fun _ : K => V) = empty :=
  funext fun k => AList.lookup_empty k

lemma ofAList_insert (m : AList fun _ : K => V) : ofAList (m.insert k v) = (ofAList m).put k v := by
  funext k'
  by_cases h : k' = k
  · subst h; simp
  · rw [put_of_ne h, ofAList_apply, AList.lookup_insert_ne h, ofAList_apply]

lemma ofAList_erase (m : AList fun _ : K => V) : ofAList (m.erase k) = (ofAList m).drop k := by
  funext k'
  by_cases h : k' = k
  · subst h; simp
  · rw [drop_of_ne h, ofAList_apply, AList.lookup_erase_ne h, ofAList_apply]

/-! ## Sums over finite maps -/

/-- The sum of a number for each record. -/
def total (f : V → ℤ) (m : AList fun _ : K => V) : ℤ := (m.entries.map fun kv => f kv.2).sum

section

variable {m : AList fun _ : K => V} {f : V → ℤ}

omit [DecidableEq K] in
@[simp] lemma total_empty : total f (∅ : AList fun _ : K => V) = 0 := rfl

lemma total_erase_of_some (h : m.lookup k = some v) :
    total f m = f v + total f (m.erase k) := by
  have hmem : (⟨k, v⟩ : Sigma fun _ : K => V) ∈ m.entries := AList.mem_lookup_iff.mp h
  obtain ⟨w, l₁, l₂, -, hentries, herase⟩ :=
    List.exists_of_kerase (List.mem_keys_of_mem hmem)
  have hw : (⟨k, w⟩ : Sigma fun _ : K => V) ∈ m.entries := by rw [hentries]; simp
  obtain rfl := Option.some.inj (h.symm.trans (AList.mem_lookup_iff.mpr hw))
  have htotal : total f (m.erase k) = ((l₁ ++ l₂).map fun kv => f kv.2).sum := by
    rw [← herase]
    rfl
  rw [htotal, total, hentries]
  simp only [List.map_append, List.map_cons, List.sum_append, List.sum_cons]
  omega

lemma total_erase_of_none (h : m.lookup k = none) : total f (m.erase k) = total f m :=
  congrArg (fun l => (List.map (fun kv : Sigma fun _ : K => V => f kv.2) l).sum)
    (List.kerase_of_notMem_keys (AList.lookup_eq_none.mp h))

lemma total_insert : total f (m.insert k v) = f v + total f (m.erase k) := by
  rw [total, AList.entries_insert]
  rfl

omit [DecidableEq K] in
lemma total_nonneg (h : ∀ kv ∈ m.entries, 0 ≤ f kv.2) : 0 ≤ total f m := by
  refine List.sum_nonneg fun x hx => ?_
  obtain ⟨kv, hkv, rfl⟩ := List.mem_map.mp hx
  exact h kv hkv

end

/-! ## Two ledgers together -/

/-- The records of `L`, and the records of `M` under the other keys. -/
def orElse (L M : Ledger K V) : Ledger K V := fun k => (L k).or (M k)

section

omit [DecidableEq K]

lemma orElse_eq_none {M : Ledger K V} : L.orElse M k = none ↔ L k = none ∧ M k = none :=
  Option.or_eq_none_iff

lemma orElse_of_some {M : Ledger K V} {v : V} (h : L k = some v) : L.orElse M k = some v := by
  rw [orElse, h, Option.some_or]

/-- Ledgers without a common key can be put together in both ways. -/
lemma orElse_comm {M : Ledger K V} (h : ∀ k, L k = none ∨ M k = none) :
    L.orElse M = M.orElse L := by
  funext k
  rcases h k with h | h
  · rw [orElse, orElse, h, Option.none_or, Option.or_none]
  · rw [orElse, orElse, h, Option.none_or, Option.or_none]

end

lemma orElse_put {M : Ledger K V} : (L.put k v).orElse M = (L.orElse M).put k v := by
  funext k'
  by_cases h : k' = k
  · subst h; simp [orElse]
  · simp [orElse, put_of_ne h]

lemma orElse_drop {M : Ledger K V} (hk : M k = none) : (L.drop k).orElse M = (L.orElse M).drop k := by
  funext k'
  by_cases h : k' = k
  · subst h; simp [orElse, hk]
  · simp [orElse, drop_of_ne h]

lemma orElse_adjust {M : Ledger K V} (hk : M k = none) :
    (L.adjust k f).orElse M = (L.orElse M).adjust k f := by
  funext k'
  by_cases h : k' = k
  · subst h; simp [orElse, hk]
  · simp [orElse, adjust_of_ne h]

lemma orElse_setAmount {M : Ledger K V} (hk : M k = none) :
    (L.setAmount set k n).orElse M = (L.orElse M).setAmount set k n := by
  simp only [setAmount]
  split_ifs
  · exact orElse_drop hk
  · exact orElse_adjust hk

/-! ## Lists of records -/

/-- The ledger that a list of records represents: the first record with a key counts. -/
def ofList (key : V → K) (l : List V) : Ledger K V := fun k => l.find? fun v => key v = k

section

variable {key : V → K} {l l' : List V}

@[simp] lemma ofList_nil : ofList key [] = empty := rfl

lemma ofList_cons : ofList key (v :: l) = (ofList key l).put (key v) v := by
  funext k'
  by_cases h : key v = k'
  · subst h; simp [ofList]
  · rw [put_of_ne (Ne.symm h), ofList, List.find?_cons_of_neg (by simpa using h), ofList]

lemma ofList_append : ofList key (l ++ l') = (ofList key l).orElse (ofList key l') :=
  funext fun _ => List.find?_append

lemma ofList_eq_none : ofList key l k = none ↔ ∀ v ∈ l, key v ≠ k := by
  simp [ofList]

lemma key_of_ofList (h : ofList key l k = some v) : v ∈ l ∧ key v = k :=
  ⟨List.mem_of_find?_eq_some h, by simpa using List.find?_some h⟩

/-- With distinct keys every record of the list counts. -/
lemma ofList_eq_some (hnd : (l.map key).Nodup) : ofList key l k = some v ↔ v ∈ l ∧ key v = k := by
  refine ⟨key_of_ofList, ?_⟩
  rintro ⟨hv, rfl⟩
  rcases hw : ofList key l (key v) with _ | w
  · exact absurd rfl (ofList_eq_none.mp hw v hv)
  · obtain ⟨hwl, hkey⟩ := key_of_ofList hw
    rw [List.inj_on_of_nodup_map hnd hwl hv hkey]

lemma ofList_perm (hnd : (l.map key).Nodup) (h : l.Perm l') : ofList key l = ofList key l' := by
  funext k
  refine Option.ext fun v => ?_
  rw [ofList_eq_some hnd, ofList_eq_some ((h.map key).nodup_iff.mp hnd), h.mem_iff]

/-- Filtering a key out of the list. -/
lemma ofList_filter_ne : ofList key (l.filter fun v => key v ≠ k) = (ofList key l).drop k := by
  funext k'
  rw [ofList, List.find?_filter]
  by_cases h : k' = k
  · subst h
    rw [drop_self]
    exact List.find?_eq_none.mpr fun v _ => by simp
  · rw [drop_of_ne h, ofList]
    refine congrArg (fun p => List.find? p l) (funext fun v => ?_)
    by_cases hv : key v = k'
    · simp [hv, h]
    · simp [hv]

/-- Changing the records with a key. -/
lemma ofList_map_if (hf : ∀ v, key (f v) = key v) :
    ofList key (l.map fun v => if key v = k then f v else v) = (ofList key l).adjust k f := by
  induction l with
  | nil => funext k'; by_cases h : k' = k <;> simp [adjust, Function.update, empty]
  | cons v l ih =>
    rw [List.map_cons, ofList_cons, ih, ofList_cons]
    by_cases hv : key v = k
    · subst hv
      rw [if_pos rfl, hf, adjust_of_some put_self]
      funext k'
      by_cases h : k' = key v
      · subst h; simp
      · simp [put_of_ne h, adjust_of_ne h]
    · rw [if_neg hv, adjust_put (Ne.symm hv)]

/-- The sum over a finite map that holds what a list holds is the sum over the list. -/
lemma total_eq_sum {m : AList fun _ : K => W} {g : V → W} {f : W → ℤ} (hnd : (l.map key).Nodup)
    (h : ofAList m = (ofList key l).map g) : total f m = (l.map fun v => f (g v)).sum := by
  have hperm : m.entries.Perm (l.map fun v => ⟨key v, g v⟩) := by
    refine (List.perm_ext_iff_of_nodup m.nodupKeys.nodup ?_).mpr fun kv => ?_
    · refine List.Nodup.of_map Sigma.fst ?_
      rw [List.map_map]
      exact hnd
    · obtain ⟨k', w⟩ := kv
      rw [← AList.mem_lookup_iff, List.mem_map]
      have hk := congrFun h k'
      rw [ofAList_apply, map_apply] at hk
      rw [hk, Option.mem_def, Option.map_eq_some_iff]
      constructor
      · rintro ⟨v, hv, rfl⟩
        obtain ⟨hmem, rfl⟩ := key_of_ofList hv
        exact ⟨v, hmem, rfl⟩
      · rintro ⟨v, hv, heq⟩
        obtain ⟨rfl, rfl⟩ := Sigma.mk.inj_iff.mp heq
        exact ⟨v, (ofList_eq_some hnd).mpr ⟨hv, rfl⟩, rfl⟩
  rw [total, (hperm.map fun kv => f kv.2).sum_eq, List.map_map]
  rfl

end

end Ledger
