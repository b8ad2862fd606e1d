/-
# Indices of list nodes

A container that gives out iterators often keeps, next to its nodes, an index from keys to
nodes.  Here a node is seen through the pair of its address and its key, and the index maps
a key to an address.  `IndexSound` says that no entry of the index dangles and that
addresses are never shared; `IndexComplete` says that every node is indexed under its key
and that no two nodes have the same key.  Both are kept by adding a node at a fresh address
and by dropping all nodes of a key together with the entry of the key.
-/
import Mathlib.Data.List.AList
import Mathlib.Tactic

variable {K : Type*} [DecidableEq K]

/-- Every entry of the index designates a node with the key of the entry; the addresses of
the nodes are distinct and below the next address to be allocated. -/
structure IndexSound (index : AList fun _ : K => ℕ) (next : ℕ) (ns : List (ℕ × K)) :
    Prop where
  addr_nodup : (ns.map Prod.fst).Nodup
  addr_lt : ∀ n ∈ ns, n.1 < next
  sound : ∀ k a, index.lookup k = some a → (a, k) ∈ ns

/-- Every node is indexed under its key, and the keys of the nodes are distinct. -/
structure IndexComplete (index : AList fun _ : K => ℕ) (ns : List (ℕ × K)) : Prop where
  keys_nodup : (ns.map Prod.snd).Nodup
  complete : ∀ n ∈ ns, index.lookup n.2 = some n.1

lemma indexSound_empty : IndexSound (∅ : AList fun _ : K => ℕ) 0 [] :=
  ⟨List.nodup_nil, by simp, by simp⟩

lemma indexComplete_empty : IndexComplete (∅ : AList fun _ : K => ℕ) [] :=
  ⟨List.nodup_nil, by simp⟩

variable {index : AList fun _ : K => ℕ} {next : ℕ} {ns ns' : List (ℕ × K)}

namespace IndexSound

lemma perm (h : IndexSound index next ns) (hp : ns.Perm ns') : IndexSound index next ns' where
  addr_nodup := (hp.map Prod.fst).nodup_iff.mp h.addr_nodup
  addr_lt n hn := h.addr_lt n (hp.mem_iff.mpr hn)
  sound k a hk := hp.mem_iff.mp (h.sound k a hk)

/-- A node at the next address. -/
lemma push (h : IndexSound index next ns) (k : K) :
    IndexSound (index.insert k next) (next + 1) ((next, k) :: ns) where
  addr_nodup := by
    rw [List.map_cons, List.nodup_cons]
    refine ⟨fun hmem => ?_, h.addr_nodup⟩
    obtain ⟨n, hn, hnext⟩ := List.mem_map.mp hmem
    exact absurd (h.addr_lt n hn) (by omega)
  addr_lt n hn := by
    rcases List.mem_cons.mp hn with rfl | hn
    · exact Nat.lt_succ_self next
    · exact (h.addr_lt n hn).trans (Nat.lt_succ_self next)
  sound k' a hk := by
    by_cases hkk : k' = k
    · subst hkk
      rw [AList.lookup_insert] at hk
      rw [← Option.some.inj hk]
      exact List.mem_cons_self
    · rw [AList.lookup_insert_ne hkk] at hk
      exact List.mem_cons_of_mem _ (h.sound k' a hk)

/-- Dropping the entry of a key, and some of the nodes of this key. -/
lemma drop (h : IndexSound index next ns) {k : K} (hsub : ns'.Sublist ns)
    (hkeep : ∀ n ∈ ns, n.2 ≠ k → n ∈ ns') : IndexSound (index.erase k) next ns' where
  addr_nodup := h.addr_nodup.sublist (hsub.map Prod.fst)
  addr_lt n hn := h.addr_lt n (hsub.subset hn)
  sound k' a hk := by
    by_cases hkk : k' = k
    · subst hkk
      rw [AList.lookup_erase] at hk
      exact absurd hk (by simp)
    · rw [AList.lookup_erase_ne hkk] at hk
      exact hkeep _ (h.sound k' a hk) hkk

/-- Two nodes at one address are the same node. -/
lemma eq_of_addr (h : IndexSound index next ns) {n n' : ℕ × K} (hn : n ∈ ns) (hn' : n' ∈ ns)
    (ha : n.1 = n'.1) : n = n' :=
  List.inj_on_of_nodup_map h.addr_nodup hn hn' ha

end IndexSound

namespace IndexComplete

lemma perm (h : IndexComplete index ns) (hp : ns.Perm ns') : IndexComplete index ns' where
  keys_nodup := (hp.map Prod.snd).nodup_iff.mp h.keys_nodup
  complete n hn := h.complete n (hp.mem_iff.mpr hn)

/-- A node with a fresh key. -/
lemma push (h : IndexComplete index ns) {k : K} (hk : ∀ n ∈ ns, n.2 ≠ k) (a : ℕ) :
    IndexComplete (index.insert k a) ((a, k) :: ns) where
  keys_nodup := by
    rw [List.map_cons, List.nodup_cons]
    refine ⟨fun hmem => ?_, h.keys_nodup⟩
    obtain ⟨n, hn, hnk⟩ := List.mem_map.mp hmem
    exact hk n hn hnk
  complete n hn := by
    rcases List.mem_cons.mp hn with rfl | hn
    · exact AList.lookup_insert index
    · rw [AList.lookup_insert_ne (hk n hn)]
      exact h.complete n hn

/-- Dropping the entry of a key together with all nodes of this key. -/
lemma drop (h : IndexComplete index ns) {k : K} (hsub : ns'.Sublist ns)
    (hk : ∀ n ∈ ns', n.2 ≠ k) : IndexComplete (index.erase k) ns' where
  keys_nodup := h.keys_nodup.sublist (hsub.map Prod.snd)
  complete n hn := by
    rw [AList.lookup_erase_ne (hk n hn)]
    exact h.complete n (hsub.subset hn)

end IndexComplete
