/-
# Systems that settle

A measure that every step decreases, in a well-founded order, makes every run finite.  When only
finitely many actions are allowed in a state there is even a bound for the runs from it
(`exists_bound`), and the system can be run until no action is possible
(`exists_settled`).
-/
import FixExchange.Lib.Transition

namespace Transition

variable {σ α β : Type*} {step : σ → α → Option σ} {ok : σ → α → Prop} {s t u : σ} {as : List α}

/-- No allowed action is possible. -/
def Settled (step : σ → α → Option σ) (ok : σ → α → Prop) (s : σ) : Prop :=
  ∀ a, ok s a → step s a = none

/-- A run is empty, or goes on after its first step. -/
theorem Reaches.head_cases (h : Reaches step ok s as t) :
    (as = [] ∧ t = s) ∨
      ∃ a u bs, as = a :: bs ∧ ok s a ∧ step s a = some u ∧ Reaches step ok u bs t := by
  induction h with
  | refl => exact Or.inl ⟨rfl, rfl⟩
  | @snoc as t u a h hok hstep ih =>
    rcases ih with ⟨rfl, rfl⟩ | ⟨b, v, bs, rfl, hb, hstepb, hrest⟩
    · exact Or.inr ⟨a, u, [], rfl, hok, hstep, .refl⟩
    · exact Or.inr ⟨b, v, bs ++ [a], rfl, hb, hstepb, .snoc hrest hok hstep⟩

/-- A run of two lists of actions passes through a state between them. -/
theorem Reaches.append_cases {bs : List α} (h : Reaches step ok s (as ++ bs) u) :
    ∃ t, Reaches step ok s as t ∧ Reaches step ok t bs u := by
  induction as generalizing s with
  | nil => exact ⟨s, .refl, h⟩
  | cons a as ih =>
    obtain ⟨hnil, -⟩ | ⟨a', v, rest, heq, hok, hstep, hrest⟩ := h.head_cases
    · exact absurd hnil (by simp)
    · obtain ⟨rfl, rfl⟩ := List.cons.inj heq
      obtain ⟨t, hfirst, hsecond⟩ := ih hrest
      exact ⟨t, .cons hok hstep hfirst, hsecond⟩

/-- A run under two conditions, each of which a run with the same actions meets. -/
theorem Reaches.and {ok' : σ → α → Prop} (h : Reaches step ok s as t) (h' : Reaches step ok' s as u) :
    u = t ∧ Reaches step (fun s a => ok s a ∧ ok' s a) s as t := by
  induction h generalizing u with
  | refl =>
    obtain ⟨-, rfl⟩ | ⟨a, v, bs, heq, -⟩ := h'.head_cases
    · exact ⟨rfl, .refl⟩
    · exact absurd heq (by simp)
  | @snoc as t v a h hok hstep ih =>
    obtain ⟨w, hw, hlast⟩ := h'.append_cases
    obtain ⟨rfl, hboth⟩ := ih hw
    obtain ⟨hnil, -⟩ | ⟨a', x, bs, heq, hok', hstep', hrest⟩ := hlast.head_cases
    · exact absurd hnil (by simp)
    obtain ⟨rfl, rfl⟩ := List.cons.inj heq
    obtain rfl := Option.some.inj (hstep.symm.trans hstep')
    obtain ⟨-, rfl⟩ | ⟨b, y, bs, heq, -⟩ := hrest.head_cases
    · exact ⟨rfl, .snoc hboth ⟨hok, hok'⟩ hstep⟩
    · exact absurd heq (by simp)

/-- Every allowed step from a state that meets `I` leads to a state that meets `I` and has a
smaller measure. -/
def Decreases (step : σ → α → Option σ) (ok : σ → α → Prop) (I : σ → Prop) (r : β → β → Prop)
    (μ : σ → β) : Prop :=
  ∀ s a t, I s → ok s a → step s a = some t → I t ∧ r (μ t) (μ s)

section

variable {I : σ → Prop} {r : β → β → Prop} {μ : σ → β}

/-- **The runs from a state are bounded** when every step decreases a measure and only the actions
of a list are allowed. -/
theorem Decreases.exists_bound (h : Decreases step ok I r μ) (hr : WellFounded r) (acts : List α)
    (hacts : ∀ s a, ok s a → a ∈ acts) (hs : I s) :
    ∃ n, ∀ as t, Reaches step ok s as t → as.length ≤ n := by
  induction hμ : μ s using hr.induction generalizing s with
  | _ x ih =>
    subst hμ
    -- a bound for the runs that begin with the action
    have hbound : ∀ a, ∃ n, ok s a → ∀ t, step s a = some t →
        ∀ as u, Reaches step ok t as u → as.length ≤ n := by
      intro a
      by_cases hfirst : ok s a ∧ ∃ t, step s a = some t
      · obtain ⟨hok, t, ht⟩ := hfirst
        obtain ⟨hI, hlt⟩ := h s a t hs hok ht
        obtain ⟨n, hn⟩ := ih _ hlt hI rfl
        refine ⟨n, fun _ t' ht' => ?_⟩
        obtain rfl := Option.some.inj (ht.symm.trans ht')
        exact hn
      · exact ⟨0, fun hok t ht => absurd ⟨hok, t, ht⟩ hfirst⟩
    choose n hn using hbound
    refine ⟨(acts.map n).sum + 1, fun as t hrun => ?_⟩
    rcases hrun.head_cases with ⟨rfl, -⟩ | ⟨a, u, bs, rfl, hok, hstep, hrest⟩
    · exact Nat.zero_le _
    · have hle : n a ≤ (acts.map n).sum :=
        List.single_le_sum (fun _ _ => Nat.zero_le _) _ (List.mem_map_of_mem (hacts s a hok))
      have hlen := hn a hok u hstep bs t hrest
      rw [List.length_cons]
      omega

/-- **A system can be run until it has settled** when every step decreases a measure. -/
theorem Decreases.exists_settled (h : Decreases step ok I r μ) (hr : WellFounded r) (hs : I s) :
    ∃ as t, Reaches step ok s as t ∧ Settled step ok t := by
  induction hμ : μ s using hr.induction generalizing s with
  | _ x ih =>
    subst hμ
    by_cases hsettled : Settled step ok s
    · exact ⟨[], s, .refl, hsettled⟩
    · simp only [Settled, not_forall] at hsettled
      obtain ⟨a, hok, hne⟩ := hsettled
      obtain ⟨t, ht⟩ := Option.ne_none_iff_exists'.mp hne
      obtain ⟨hI, hlt⟩ := h s a t hs hok ht
      obtain ⟨as, u, hrun, hu⟩ := ih _ hlt hI rfl
      exact ⟨a :: as, u, .cons hok ht hrun, hu⟩

end

end Transition
