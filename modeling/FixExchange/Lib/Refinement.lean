/-
# Runs that refine a machine

Two rules for the runs of a transition system.  What goes in and what comes out of a buffer is
accounted for along every run when it is at every step (`Reaches.conserves`).  A system refines a
machine that reads inputs and gives outputs when every step feeds the machine with some inputs and
keeps the outputs in a buffer, from which the steps take them (`Reaches.refines`).
-/
import FixExchange.Lib.Transition

namespace Transition

variable {σ α β τ ι ω ω' : Type*} {step : σ → α → Option σ} {ok : σ → α → Prop} {s t : σ}
  {as : List α}

/-! ## Buffers -/

/-- **What goes in comes out**, or is still there. -/
theorem Reaches.conserves {buffer : σ → List β} {puts takes : σ → α → List β}
    (hstep : ∀ s a t, step s a = some t → buffer s ++ puts s a = takes s a ++ buffer t)
    (h : Reaches step ok s as t) :
    buffer s ++ collect step puts s as = collect step takes s as ++ buffer t := by
  induction h with
  | refl => exact List.append_nil _
  | @snoc as t u a h hok hs ih =>
    rw [h.collect_snoc, h.collect_snoc, ← List.append_assoc, ih, List.append_assoc,
      List.append_assoc, hstep _ _ _ hs]

/-! ## Machines -/

variable {next : τ → ι → τ × List ω}

/-- A machine reads inputs one after the other; the outputs come along. -/
def feed (next : τ → ι → τ × List ω) : τ → List ι → τ × List ω
  | m, [] => (m, [])
  | m, i :: is =>
    ((feed next (next m i).1 is).1, (next m i).2 ++ (feed next (next m i).1 is).2)

@[simp] lemma feed_nil (m : τ) : feed next m [] = (m, []) := rfl

@[simp] lemma feed_singleton (m : τ) (i : ι) : feed next m [i] = next m i := by
  simp [feed]

lemma feed_append (m : τ) (is js : List ι) :
    feed next m (is ++ js) =
      ((feed next (feed next m is).1 js).1,
        (feed next m is).2 ++ (feed next (feed next m is).1 js).2) := by
  induction is generalizing m with
  | nil => rfl
  | cons i is ih =>
    rw [List.cons_append, feed, ih]
    simp [feed]

/-- **A system refines a machine**: what its runs have given out, with what is in the buffer, are
the outputs of the machine on what the runs have read. -/
theorem Reaches.refines {I : σ → Prop} {view : σ → τ} {reads : σ → α → List ι}
    {buffer : σ → List ω'} {gives : σ → α → List ω'} {R : ω' → ω → Prop}
    (hI : ∀ s a t, I s → ok s a → step s a = some t → I t)
    (hstep : ∀ s a t, I s → ok s a → step s a = some t → ∃ new, buffer s ++ new = gives s a ++ buffer t ∧
      (feed next (view s) (reads s a)).1 = view t ∧
      List.Forall₂ R new (feed next (view s) (reads s a)).2)
    (hs : I s) (hbuffer : buffer s = []) (h : Reaches step ok s as t) :
    (feed next (view s) (collect step reads s as)).1 = view t ∧
      List.Forall₂ R (collect step gives s as ++ buffer t)
        (feed next (view s) (collect step reads s as)).2 := by
  have hall : I t ∧ (feed next (view s) (collect step reads s as)).1 = view t ∧
      List.Forall₂ R (collect step gives s as ++ buffer t)
        (feed next (view s) (collect step reads s as)).2 := by
    induction h with
    | refl =>
      rw [hbuffer]
      exact ⟨hs, rfl, List.Forall₂.nil⟩
    | @snoc as t u a h hok ha ih =>
      obtain ⟨ht, hview, hout⟩ := ih
      obtain ⟨new, hnew, hview', hout'⟩ := hstep t a u ht hok ha
      rw [h.collect_snoc, h.collect_snoc, feed_append, hview]
      refine ⟨hI t a u ht hok ha, hview', ?_⟩
      rw [List.append_assoc, ← hnew, ← List.append_assoc]
      exact List.rel_append hout hout'
  exact hall.2

end Transition
