/-
# The best entries of a table

The entries of a table, in the order of their keys, are its *ladder*, and the first of them are
its best entries.  A ladder is determined by the entries that can be looked up (`ladder_congr`).
A table that is cut off after its best entries is the whole table if it is short
(`lookup_cut_of_le`); else it shows fewer entries than the whole one once one of the best entries
has gone (`best_erase_ne`).
-/
import Mathlib.Data.List.AList
import Mathlib.Data.List.Sort
import Mathlib.Tactic

namespace Ladder

variable {K V : Type*} (r : K → K → Prop) [DecidableRel r]

/-- The entries of a table, in the order of their keys. -/
def ladder (m : AList fun _ : K => V) : List (K × V) :=
  (m.entries.map fun e => (e.1, e.2)).insertionSort fun x y => r x.1 y.1

/-- The first entries of the ladder. -/
def best (n : ℕ) (m : AList fun _ : K => V) : List (K × V) := (ladder r m).take n

section

variable {r} {m : AList fun _ : K => V} {n : ℕ}

lemma keys_ladder_perm : ((ladder r m).map Prod.fst).Perm m.keys := by
  refine ((List.perm_insertionSort _ _).map Prod.fst).trans (List.Perm.of_eq ?_)
  rw [List.map_map]
  rfl

lemma length_ladder : (ladder r m).length = m.keys.length := by
  have hperm := (keys_ladder_perm (r := r) (m := m)).length_eq
  rwa [List.length_map] at hperm

lemma length_best : (best r n m).length = min n m.keys.length := by
  rw [best, List.length_take, length_ladder]

lemma nodup_keys_ladder : ((ladder r m).map Prod.fst).Nodup :=
  keys_ladder_perm.nodup_iff.mpr m.keys_nodup

lemma nodup_keys_best : ((best r n m).map Prod.fst).Nodup := by
  rw [best, List.map_take]
  exact nodup_keys_ladder.sublist (List.take_sublist _ _)

end

variable [DecidableEq K]

/-- A table with the entries of a list; a later one takes the place of an earlier one. -/
def ofPairs (es : List (K × V)) : AList fun _ : K => V :=
  es.foldl (fun m e => m.insert e.1 e.2) ∅

/-- A table that is cut off after its best entries. -/
def cut (n : ℕ) (m : AList fun _ : K => V) : AList fun _ : K => V := ofPairs (best r n m)

variable {r} {m m' : AList fun _ : K => V} {n : ℕ} {k : K} {v : V}

lemma mem_ladder : (k, v) ∈ ladder r m ↔ m.lookup k = some v := by
  rw [ladder, List.mem_insertionSort, List.mem_map, ← Option.mem_def, AList.mem_lookup_iff]
  constructor
  · rintro ⟨⟨k', v'⟩, he, heq⟩
    obtain ⟨rfl, rfl⟩ := Prod.mk.inj heq
    exact he
  · intro he
    exact ⟨⟨k, v⟩, he, rfl⟩

lemma length_keys_erase (hk : k ∈ m) : (m.erase k).keys.length + 1 = m.keys.length := by
  have hpos : 0 < m.keys.length := List.length_pos_of_mem (AList.mem_keys.mp hk)
  rw [AList.keys_erase, List.length_erase_of_mem (AList.mem_keys.mp hk)]
  omega

lemma lookup_foldl_insert {es : List (K × V)} (h : (es.map Prod.fst).Nodup) :
    (es.foldl (fun m e => m.insert e.1 e.2) m).lookup k = some v ↔
      (k, v) ∈ es ∨ k ∉ es.map Prod.fst ∧ m.lookup k = some v := by
  induction es generalizing m with
  | nil => simp
  | cons e es ih =>
    obtain ⟨he, hes⟩ := List.nodup_cons.mp h
    rw [List.foldl_cons, ih hes, List.mem_cons, List.map_cons, List.mem_cons]
    by_cases hk : k = e.1
    · subst hk
      have hnot : ∀ v, (e.1, v) ∉ es := fun v hmem => he (List.mem_map.mpr ⟨_, hmem, rfl⟩)
      rw [AList.lookup_insert]
      simp [hnot, he, Prod.ext_iff, eq_comm]
    · rw [AList.lookup_insert_ne hk]
      simp [hk, Prod.ext_iff]

/-- What is inserted hides what a table had under the same keys. -/
lemma lookup_foldl_insert_congr {es : List (K × V)}
    (h : k ∈ es.map Prod.fst ∨ m.lookup k = m'.lookup k) :
    (es.foldl (fun m e => m.insert e.1 e.2) m).lookup k
      = (es.foldl (fun m e => m.insert e.1 e.2) m').lookup k := by
  induction es generalizing m m' with
  | nil => exact h.resolve_left List.not_mem_nil
  | cons e es ih =>
    refine ih ?_
    by_cases hk : k = e.1
    · rw [hk, AList.lookup_insert, AList.lookup_insert]
      exact Or.inr rfl
    · rw [AList.lookup_insert_ne hk, AList.lookup_insert_ne hk]
      exact h.imp_left fun hmem => (List.mem_cons.mp hmem).resolve_left hk

lemma lookup_ofPairs {es : List (K × V)} (h : (es.map Prod.fst).Nodup) :
    (ofPairs es).lookup k = some v ↔ (k, v) ∈ es := by
  rw [ofPairs, lookup_foldl_insert h]
  simp

/-- A table that is copied pair by pair. -/
lemma lookup_ofPairs_map {W : Type*} (f : V → W) (k : K) :
    (ofPairs (m.entries.map fun e => (e.1, f e.2))).lookup k = (m.lookup k).map f := by
  have hnodup : ((m.entries.map fun e => (e.1, f e.2)).map Prod.fst).Nodup := by
    rw [List.map_map]
    exact m.keys_nodup
  refine Option.ext fun w => ?_
  rw [lookup_ofPairs hnodup, List.mem_map, Option.map_eq_some_iff]
  constructor
  · rintro ⟨⟨k', v⟩, he, heq⟩
    obtain ⟨rfl, rfl⟩ := Prod.mk.inj heq
    exact ⟨v, AList.mem_lookup_iff.mpr he, rfl⟩
  · rintro ⟨v, hv, rfl⟩
    exact ⟨⟨k, v⟩, AList.mem_lookup_iff.mp hv, rfl⟩

/-- What is left of a table. -/
lemma lookup_cut : (cut r n m).lookup k = some v ↔ (k, v) ∈ best r n m :=
  lookup_ofPairs nodup_keys_best

lemma lookup_of_lookup_cut (h : (cut r n m).lookup k = some v) : m.lookup k = some v :=
  mem_ladder.mp (List.mem_of_mem_take (lookup_cut.mp h))

/-- A key that is left has its entry. -/
lemma lookup_cut_of_mem (hk : k ∈ cut r n m) : (cut r n m).lookup k = m.lookup k := by
  obtain ⟨v, hv⟩ := Option.isSome_iff_exists.mp (AList.lookup_isSome.mpr hk)
  rw [hv, lookup_of_lookup_cut hv]

/-- A short table is not cut off. -/
lemma lookup_cut_of_le (h : m.keys.length ≤ n) (k : K) : (cut r n m).lookup k = m.lookup k := by
  refine Option.ext fun v => ?_
  rw [lookup_cut, best, List.take_of_length_le (length_ladder.le.trans h), mem_ladder]

lemma length_keys_cut : (cut r n m).keys.length = min n m.keys.length := by
  have hperm : (cut r n m).keys.Perm ((best r n m).map Prod.fst) := by
    refine (List.perm_ext_iff_of_nodup (AList.keys_nodup _) nodup_keys_best).mpr fun k => ?_
    rw [← AList.mem_keys, ← AList.lookup_isSome, Option.isSome_iff_exists]
    simp only [lookup_cut, List.mem_map, Prod.exists, exists_and_right, exists_eq_right]
  rw [hperm.length_eq, List.length_map, length_best]

section

variable [Std.Total r] [IsTrans K r] [Std.Antisymm r]

/-- **A ladder is determined by its entries.** -/
theorem ladder_congr (h : ∀ k, m.lookup k = m'.lookup k) : ladder r m = ladder r m' := by
  have htotal : Std.Total fun x y : K × V => r x.1 y.1 := ⟨fun x y => Std.Total.total x.1 y.1⟩
  have htrans : IsTrans (K × V) fun x y => r x.1 y.1 := ⟨fun x y z hxy hyz =>
    IsTrans.trans x.1 y.1 z.1 hxy hyz⟩
  refine List.Perm.eq_of_pairwise ?_
    (List.pairwise_insertionSort (fun x y : K × V => r x.1 y.1) _)
    (List.pairwise_insertionSort _ _) ?_
  · intro x y hx hy hxy hyx
    have hk : x.1 = y.1 := Std.Antisymm.antisymm x.1 y.1 hxy hyx
    have hxv := mem_ladder.mp (hx : (x.1, x.2) ∈ ladder r m)
    have hyv := mem_ladder.mp (hy : (y.1, y.2) ∈ ladder r m')
    rw [hk, h, hyv] at hxv
    exact Prod.ext hk (Option.some.inj hxv).symm
  · have hnodup : ∀ m : AList fun _ : K => V, (ladder r m).Nodup := fun _ =>
      nodup_keys_ladder.of_map
    refine (List.perm_ext_iff_of_nodup (hnodup m) (hnodup m')).mpr fun e => ?_
    rw [← Prod.mk.eta (p := e), mem_ladder, mem_ladder, h]

/-- A list in the order of the keys that has all entries is the ladder. -/
theorem ladder_eq {l : List (K × V)} (hsorted : l.Pairwise fun x y => r x.1 y.1)
    (hnodup : (l.map Prod.fst).Nodup) (h : ∀ k v, m.lookup k = some v ↔ (k, v) ∈ l) :
    ladder r m = l := by
  have htotal : Std.Total fun x y : K × V => r x.1 y.1 := ⟨fun x y => Std.Total.total x.1 y.1⟩
  have htrans : IsTrans (K × V) fun x y => r x.1 y.1 := ⟨fun x y z hxy hyz =>
    IsTrans.trans x.1 y.1 z.1 hxy hyz⟩
  refine List.Perm.eq_of_pairwise ?_
    (List.pairwise_insertionSort (fun x y : K × V => r x.1 y.1) _) hsorted ?_
  · intro x y hx hy hxy hyx
    exact List.inj_on_of_nodup_map hnodup ((h _ _).mp (mem_ladder.mp hx)) hy
      (Std.Antisymm.antisymm x.1 y.1 hxy hyx)
  · refine (List.perm_ext_iff_of_nodup nodup_keys_ladder.of_map hnodup.of_map).mpr fun e => ?_
    rw [← Prod.mk.eta (p := e), mem_ladder, h]

theorem best_congr (h : ∀ k, m.lookup k = m'.lookup k) : best r n m = best r n m' := by
  rw [best, best, ladder_congr h]

end

/-- **A table that has been cut off** shows fewer entries than the whole one when an entry goes
that both have. -/
theorem best_erase_ne (h : n < m.keys.length) (hk : k ∈ cut r n m) :
    best r n (m.erase k) ≠ best r n ((cut r n m).erase k) := by
  intro heq
  have hmem : k ∈ m := by
    rw [← AList.lookup_isSome, ← lookup_cut_of_mem hk]
    exact AList.lookup_isSome.mpr hk
  have hlength := congrArg List.length heq
  have hwhole := length_keys_erase hmem
  have hcut := length_keys_erase hk
  rw [length_keys_cut] at hcut
  rw [length_best, length_best] at hlength
  omega

end Ladder
