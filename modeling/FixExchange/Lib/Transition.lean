/-
# Runs of a transition system

A system is given by a partial step function on states and actions.  `Reaches` are its runs,
restricted to steps that satisfy a condition; the rules below prove a property of every state
of every run from what a single step does.
-/
import Mathlib.Tactic

namespace Transition

variable {σ α : Type*} {step : σ → α → Option σ} {ok : σ → α → Prop} {s t u : σ} {as : List α}

/-- `Reaches step ok s as t`: the actions `as` lead from `s` to `t`, and each of them is
allowed by `ok` in the state in which it is taken. -/
inductive Reaches (step : σ → α → Option σ) (ok : σ → α → Prop) (s : σ) : List α → σ → Prop
  | refl : Reaches step ok s [] s
  | snoc {as : List α} {t u : σ} {a : α} (h : Reaches step ok s as t) (hok : ok t a)
      (hstep : step t a = some u) : Reaches step ok s (as ++ [a]) u

namespace Reaches

/-- **The invariant rule**: what holds at the start and is kept by every allowed step from a
reached state holds in every reached state. -/
theorem invariant {I : σ → Prop} (hinit : I s)
    (hstep : ∀ as t a u, Reaches step ok s as t → I t → ok t a → step t a = some u → I u)
    (h : Reaches step ok s as t) : I t := by
  induction h with
  | refl => exact hinit
  | snoc h hok hs ih => exact hstep _ _ _ _ h ih hok hs

/-- The invariant rule for properties that also depend on the history. -/
theorem invariant_history {I : List α → σ → Prop} (hinit : I [] s)
    (hstep : ∀ as t a u, Reaches step ok s as t → I as t → ok t a → step t a = some u →
      I (as ++ [a]) u)
    (h : Reaches step ok s as t) : I as t := by
  induction h with
  | refl => exact hinit
  | snoc h hok hs ih => exact hstep _ _ _ _ h ih hok hs

/-- A run under a condition is a run under every weaker one. -/
theorem mono {ok' : σ → α → Prop} (hok : ∀ t a, ok t a → ok' t a)
    (h : Reaches step ok s as t) : Reaches step ok' s as t := by
  induction h with
  | refl => exact .refl
  | snoc _ ho hs ih => exact .snoc ih (hok _ _ ho) hs

/-- A run all of whose steps from reached states meet another condition. -/
theorem mono_reached {ok' : σ → α → Prop}
    (hok : ∀ as t a, Reaches step ok s as t → ok t a → ok' t a) (h : Reaches step ok s as t) :
    Reaches step ok' s as t := by
  induction h with
  | refl => exact .refl
  | snoc h ho hs ih => exact .snoc ih (hok _ _ _ h ho) hs

theorem cons {a : α} (hok : ok s a) (hstep : step s a = some t) (h : Reaches step ok t as u) :
    Reaches step ok s (a :: as) u := by
  induction h with
  | refl => exact .snoc .refl hok hstep
  | snoc _ ho hs ih => exact .snoc ih ho hs

/-- A run goes on from where another one leads. -/
theorem trans {bs : List α} (h : Reaches step ok s as t) (h' : Reaches step ok t bs u) :
    Reaches step ok s (as ++ bs) u := by
  induction h' with
  | refl => rwa [List.append_nil]
  | snoc _ ho hs ih =>
    rw [← List.append_assoc]
    exact .snoc ih ho hs

end Reaches

/-! ## What a run adds up -/

section Collect

variable {β : Type*} {f : σ → α → List β}

/-- What the steps of a sequence of actions contribute, one after the other. -/
def collect (step : σ → α → Option σ) (f : σ → α → List β) : σ → List α → List β
  | _, [] => []
  | s, a :: as => f s a ++ ((step s a).map fun t => collect step f t as).getD []

lemma collect_singleton (s : σ) (a : α) : collect step f s [a] = f s a := by
  cases h : step s a <;> simp [collect, h]

/-- More actions contribute what they contribute after the run. -/
theorem Reaches.collect_append (h : Reaches step ok s as t) (more : List α) :
    collect step f s (as ++ more) = collect step f s as ++ collect step f t more := by
  induction h generalizing more with
  | refl => rfl
  | @snoc as t u a h hok hstep ih =>
    rw [List.append_assoc, ih, ih, collect_singleton, List.singleton_append, collect, hstep,
      List.append_assoc]
    rfl

theorem Reaches.collect_snoc (h : Reaches step ok s as t) (a : α) :
    collect step f s (as ++ [a]) = collect step f s as ++ f t a := by
  rw [h.collect_append, collect_singleton]

end Collect

/-- The state that a sequence of actions leads to, when every action is possible. -/
def run (step : σ → α → Option σ) : σ → List α → Option σ
  | s, [] => some s
  | s, a :: as => (step s a).bind fun t => run step t as

/-- An action that is repeated until it is no longer possible is repeated a fixed number of
times. -/
lemma run_replicate_unique {n m : ℕ} {a : α} (hn : run step s (List.replicate n a) = some t)
    (hm : run step s (List.replicate m a) = some u) (ht : step t a = none)
    (hu : step u a = none) : n = m := by
  induction n generalizing s m with
  | zero =>
    obtain rfl := Option.some.inj hn
    cases m with
    | zero => rfl
    | succ m => simp [List.replicate_succ, run, ht] at hm
  | succ n ih =>
    obtain ⟨v, hv, hn⟩ := Option.bind_eq_some_iff.mp hn
    cases m with
    | zero =>
      obtain rfl := Option.some.inj hm
      exact absurd hv (by simp [hu])
    | succ m =>
      obtain ⟨w, hw, hm⟩ := Option.bind_eq_some_iff.mp hm
      obtain rfl := Option.some.inj (hv.symm.trans hw)
      rw [ih hn hm]

/-- Every action of a sequence is possible and allowed. -/
def Allowed (step : σ → α → Option σ) (ok : σ → α → Prop) : σ → List α → Prop
  | _, [] => True
  | s, a :: as => ok s a ∧ ∀ t ∈ step s a, Allowed step ok t as

instance decidableAllowed [∀ s a, Decidable (ok s a)] (s : σ) (as : List α) :
    Decidable (Allowed step ok s as) :=
  match as with
  | [] => isTrue trivial
  | a :: as =>
    match hstep : step s a with
    | none =>
      decidable_of_iff (ok s a) ⟨fun h => ⟨h, by simp [hstep]⟩, And.left⟩
    | some t =>
      have := decidableAllowed t as
      decidable_of_iff (ok s a ∧ Allowed step ok t as) (by simp [Allowed, hstep])

lemma allowed_of_forall (h : ∀ s a, ok s a) (s : σ) (as : List α) : Allowed step ok s as := by
  induction as generalizing s with
  | nil => trivial
  | cons a as ih => exact ⟨h s a, fun t _ => ih t⟩

/-- A sequence of actions that can be carried out is a run. -/
theorem reaches_of_run (h : run step s as = some t) (hok : Allowed step ok s as) :
    Reaches step ok s as t := by
  induction as generalizing s with
  | nil =>
    obtain rfl := Option.some.inj h
    exact .refl
  | cons a as ih =>
    obtain ⟨u, hu, hrun⟩ := Option.bind_eq_some_iff.mp h
    exact .cons hok.1 hu (ih hrun (hok.2 u hu))

/-- A run that has been carried out, with a property of the state it leads to. -/
theorem exists_reaches {P : σ → Prop} [DecidablePred P]
    (h : (run step s as).any (fun t => decide (P t)) = true) (hok : Allowed step ok s as) :
    ∃ t, Reaches step ok s as t ∧ P t := by
  cases ht : run step s as with
  | none =>
    rw [ht] at h
    exact absurd h (by simp)
  | some t =>
    rw [ht, Option.any_some, decide_eq_true_eq] at h
    exact ⟨t, reaches_of_run ht hok, h⟩

end Transition
