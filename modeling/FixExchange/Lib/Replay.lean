/-
# Replaying a log to a reader that also hears it live

A log of messages only grows.  A reader keeps an entry; a message enters it, whether there is one
or not, updates it when there is one, creates it when there is none, or is about something else.
The reader gets the log from its beginning, message after message, and at the same time a copy of
every message from some point on; the two sequences come in any interleaving, so that it hears most
messages twice, and old ones behind new ones.  When it has heard both to the end, its entry is what
the log makes of it (`Follows.eq_fold`), provided that the log is tidy (`Tidy`).
-/
import Mathlib.Tactic

namespace Replay

variable {μ ρ : Type*}

/-- What a message does to an entry. -/
inductive Effect (ρ : Type*)
  /-- Enter it: as `fresh` when there is none, and as `known` when there is one. -/
  | enter (fresh known : ρ)
  /-- Change it when there is one. -/
  | update (r : ρ)
  /-- Enter it when there is none. -/
  | create (r : ρ)
  /-- The message is about something else. -/
  | skip

namespace Effect

variable {x : Option ρ}

/-- Apply a message to an entry. -/
def apply : Effect ρ → Option ρ → Option ρ
  | enter fresh known, x => some (x.elim fresh fun _ => known)
  | update r, x => x.map fun _ => r
  | create r, x => some (x.getD r)
  | skip, x => x

/-- There is an entry after the message. -/
def Enters : Effect ρ → Prop
  | enter _ _ | create _ => True
  | update _ | skip => False

/-- The entry is as the message has it. -/
def Tells : Effect ρ → Prop
  | enter _ _ | update _ => True
  | create _ | skip => False

lemma apply_ne_none (e : Effect ρ) (h : x ≠ none) : e.apply x ≠ none := by
  obtain ⟨r, rfl⟩ := Option.ne_none_iff_exists'.mp h
  cases e <;> simp [apply]

lemma apply_of_enters {e : Effect ρ} (h : e.Enters) (x : Option ρ) : e.apply x ≠ none := by
  cases e with
  | enter r r' => simp [apply]
  | create r => simp [apply]
  | update r => exact absurd h id
  | skip => exact absurd h id

lemma enters_of_apply {e : Effect ρ} (h : e.apply x ≠ none) : e.Enters ∨ x ≠ none := by
  cases e with
  | enter r r' => exact Or.inl trivial
  | create r => exact Or.inl trivial
  | update r => exact Or.inr fun hx => h (by simp [apply, hx])
  | skip => exact Or.inr h

/-- An entry that is there is changed by the messages only that tell it. -/
lemma apply_of_not_tells {e : Effect ρ} (h : ¬ e.Tells) (hx : x ≠ none) : e.apply x = x := by
  obtain ⟨r, rfl⟩ := Option.ne_none_iff_exists'.mp hx
  cases e with
  | enter r r' => exact absurd trivial h
  | update r => exact absurd trivial h
  | create r => rfl
  | skip => rfl

/-- What a message tells does not depend on the entry that is there. -/
lemma apply_of_tells {e : Effect ρ} (h : e.Tells) {y : Option ρ} (hx : x ≠ none) (hy : y ≠ none) :
    e.apply x = e.apply y := by
  obtain ⟨r, rfl⟩ := Option.ne_none_iff_exists'.mp hx
  obtain ⟨r', rfl⟩ := Option.ne_none_iff_exists'.mp hy
  cases e with
  | enter r r' => rfl
  | update r => rfl
  | create r => exact absurd h id
  | skip => exact absurd h id

end Effect

/-! ## What a log makes of an entry -/

variable (eff : μ → Effect ρ)

/-- The messages one after the other. -/
def fold (x : Option ρ) (log : List μ) : Option ρ := log.foldl (fun x m => (eff m).apply x) x

/-- No message creates the entry behind one that updates it; the messages that create it agree; and
a message that enters it in two ways does so behind one that enters it. -/
structure Tidy (log : List μ) : Prop where
  ordered : log.Pairwise fun m m' => ∀ r r', eff m = .update r → eff m' ≠ .create r'
  agreed : ∀ m ∈ log, ∀ m' ∈ log, ∀ r r', eff m = .create r → eff m' = .create r' → r = r'
  known : ∀ k, ∀ m ∈ log[k]?, ∀ r r', eff m = .enter r r' → r ≠ r' →
    ∃ m' ∈ log.take k, (eff m').Enters

variable {eff} {x : Option ρ} {log l₁ l₂ : List μ} {m : μ}

lemma fold_append : fold eff x (l₁ ++ l₂) = fold eff (fold eff x l₁) l₂ := List.foldl_append

lemma fold_cons : fold eff x (m :: log) = fold eff ((eff m).apply x) log := rfl

/-- There is an entry when a message enters it. -/
lemma fold_ne_none_iff : fold eff none log ≠ none ↔ ∃ m ∈ log, (eff m).Enters := by
  induction log using List.reverseRecOn with
  | nil => simp [fold]
  | append_singleton log m ih =>
    have hsnoc : fold eff none (log ++ [m]) = (eff m).apply (fold eff none log) := fold_append
    rw [hsnoc]
    constructor
    · intro h
      rcases Effect.enters_of_apply h with he | hne
      · exact ⟨m, by simp, he⟩
      · obtain ⟨m', hm', he⟩ := ih.mp hne
        exact ⟨m', List.mem_append_left _ hm', he⟩
    · rintro ⟨m', hm', he⟩
      rcases List.mem_append.mp hm' with hm' | hm'
      · exact (eff m).apply_ne_none (ih.mpr ⟨m', hm', he⟩)
      · rw [List.mem_singleton.mp hm'] at he
        exact Effect.apply_of_enters he _

/-- Messages that tell nothing leave an entry alone. -/
lemma fold_of_not_tells (h : ∀ m ∈ log, ¬ (eff m).Tells) (hx : x ≠ none) :
    fold eff x log = x := by
  induction log with
  | nil => rfl
  | cons m log ih =>
    rw [fold_cons, Effect.apply_of_not_tells (h m List.mem_cons_self) hx]
    exact ih fun m' hm' => h m' (List.mem_cons_of_mem _ hm')

/-- When no message tells the entry, it is the one that is created. -/
lemma fold_of_create (hagreed : ∀ m ∈ log, ∀ m' ∈ log, ∀ r r', eff m = .create r →
      eff m' = .create r' → r = r') (h : ∀ m ∈ log, ¬ (eff m).Tells) (hm : m ∈ log) {r : ρ}
    (hr : eff m = .create r) : fold eff none log = some r := by
  induction log with
  | nil => exact absurd hm List.not_mem_nil
  | cons m' log ih =>
    have htail : ∀ a ∈ log, ∀ b ∈ log, ∀ r r', eff a = .create r → eff b = .create r' → r = r' :=
      fun a ha b hb => hagreed a (List.mem_cons_of_mem _ ha) b (List.mem_cons_of_mem _ hb)
    have hrest : ∀ m ∈ log, ¬ (eff m).Tells := fun a ha => h a (List.mem_cons_of_mem _ ha)
    rw [fold_cons]
    cases he : eff m' with
    | enter r₁ r₂ => exact absurd (he ▸ trivial) (h m' List.mem_cons_self)
    | update r' => exact absurd (he ▸ trivial) (h m' List.mem_cons_self)
    | create r' =>
      obtain rfl := hagreed m hm m' List.mem_cons_self r r' hr he
      exact fold_of_not_tells hrest (by simp [Effect.apply])
    | skip =>
      rcases List.mem_cons.mp hm with rfl | hm
      · exact absurd (hr.symm.trans he) (by simp)
      · exact ih htail hrest hm

/-- An entry that a log has must have been entered no later than by the last message that tells
it. -/
lemma enters_of_last (ht : Tidy eff (l₁ ++ m :: l₂)) (hm : (eff m).Tells)
    (hlast : ∀ m' ∈ l₂, ¬ (eff m').Tells) {m' : μ} (hm' : m' ∈ l₁ ++ m :: l₂)
    (he : (eff m').Enters) : (eff m).Enters ∨ ∃ m' ∈ l₁, (eff m').Enters := by
  rcases List.mem_append.mp hm' with hm' | hm'
  · exact Or.inr ⟨m', hm', he⟩
  rcases List.mem_cons.mp hm' with rfl | hm'
  · exact Or.inl he
  left
  cases hem : eff m with
  | enter r r' => trivial
  | create r => trivial
  | skip => exact absurd hm (by rw [hem]; exact id)
  | update r =>
    exfalso
    cases hem' : eff m' with
    | enter r₁ r₂ => exact hlast m' hm' (by rw [hem']; trivial)
    | create r' =>
      have hpair := (List.pairwise_append.mp ht.ordered).2.1
      exact (List.pairwise_cons.mp hpair).1 m' hm' r r' hem hem'
    | update r' => exact absurd he (by rw [hem']; exact id)
    | skip => exact absurd he (by rw [hem']; exact id)

/-- **The last message that tells the entry** tells it as the whole log does. -/
lemma apply_last (ht : Tidy eff (l₁ ++ m :: l₂)) (hm : (eff m).Tells)
    (hlast : ∀ m' ∈ l₂, ¬ (eff m').Tells)
    (hpresent : (∃ m' ∈ l₁, (eff m').Enters) → x ≠ none)
    (horigin : x ≠ none → ∃ m' ∈ l₁ ++ m :: l₂, (eff m').Enters) :
    (eff m).apply x = none ∨ (eff m).apply x = fold eff none (l₁ ++ m :: l₂) := by
  by_cases happly : (eff m).apply x = none
  · exact Or.inl happly
  refine Or.inr ?_
  have henters : (eff m).Enters ∨ ∃ m' ∈ l₁, (eff m').Enters := by
    rcases Effect.enters_of_apply happly with he | hne
    · exact Or.inl he
    · obtain ⟨m', hm', he⟩ := horigin hne
      exact enters_of_last ht hm hlast hm' he
  have hsame : (eff m).apply (fold eff none l₁) = (eff m).apply x := by
    cases hem : eff m with
    | create r => exact absurd hm (by rw [hem]; exact id)
    | skip => exact absurd hm (by rw [hem]; exact id)
    | enter r r' =>
      by_cases hrr : r = r'
      · subst hrr
        cases x <;> cases fold eff none l₁ <;> rfl
      · -- a message before has entered the entry, for the reader and in the log
        obtain ⟨m', hm', he⟩ := ht.known l₁.length m (by simp) r r' hem hrr
        rw [List.take_left] at hm'
        have hl := fold_ne_none_iff.mpr ⟨m', hm', he⟩
        exact Effect.apply_of_tells (e := .enter r r') trivial hl (hpresent ⟨m', hm', he⟩)
    | update r =>
      have hx : x ≠ none := fun hx => happly (by simp [hem, hx, Effect.apply])
      rw [hem] at henters
      have hl := fold_ne_none_iff.mpr (henters.resolve_left id)
      exact Effect.apply_of_tells (e := .update r) trivial hl hx
  rw [fold_append, fold_cons, hsame, fold_of_not_tells hlast happly]

/-! ## The reader -/

/-- A reader that has been sent anything at all of the log: its entry has been entered by a
message, and is the one that is created when no message tells it. -/
structure Partly (eff : μ → Effect ρ) (log : List μ) (x : Option ρ) : Prop where
  origin : x ≠ none → ∃ m ∈ log, (eff m).Enters
  untold : (∀ m ∈ log, ¬ (eff m).Tells) → x = none ∨ x = fold eff none log

/-- A reader that has been replayed the first `i` messages of the log, and has heard live what
there is of the first `j` ones. -/
structure Follows (eff : μ → Effect ρ) (log : List μ) (i j : ℕ) (x : Option ρ) : Prop where
  replayed : i ≤ log.length
  heard : j ≤ log.length
  present : (∃ m ∈ log.take i, (eff m).Enters) → x ≠ none
  origin : x ≠ none → ∃ m ∈ log, (eff m).Enters
  current : (∀ m ∈ log.drop (min i j), ¬ (eff m).Tells) → x = none ∨ x = fold eff none log

variable {i j : ℕ}

/-- A message that the log has does not lead astray. -/
theorem Partly.apply (ht : Tidy eff log) (h : Partly eff log x) (hm : m ∈ log) :
    Partly eff log ((eff m).apply x) := by
  refine ⟨fun hne => ?_, fun hnone => ?_⟩
  · rcases Effect.enters_of_apply hne with he | hx
    · exact ⟨m, hm, he⟩
    · exact h.origin hx
  · rcases h.untold hnone with rfl | hx
    · cases hem : eff m with
      | enter r r' => exact absurd (hem ▸ trivial) (hnone m hm)
      | update r => exact Or.inl rfl
      | create r => exact Or.inr (fold_of_create ht.agreed hnone hm hem).symm
      | skip => exact Or.inl rfl
    · refine Or.inr ?_
      cases hx' : x with
      | none =>
        have hno : ¬ ∃ m ∈ log, (eff m).Enters := fun henters =>
          fold_ne_none_iff.mpr henters (hx.symm.trans hx')
        cases hem : eff m with
        | enter r r' => exact absurd (hem ▸ trivial) (hnone m hm)
        | update r => rw [← hx, hx']; rfl
        | create r => exact absurd ⟨m, hm, by rw [hem]; trivial⟩ hno
        | skip => rw [← hx, hx']; rfl
      | some r =>
        rw [← hx', Effect.apply_of_not_tells (hnone m hm) (by simp [hx']), hx]

/-- The log goes on. -/
theorem Partly.append (h : Partly eff log x) (m : μ) : Partly eff (log ++ [m]) x := by
  refine ⟨fun hne => ?_, fun hnone => ?_⟩
  · obtain ⟨m', hm', he⟩ := h.origin hne
    exact ⟨m', List.mem_append_left _ hm', he⟩
  · rcases h.untold fun m' hm' => hnone m' (List.mem_append_left _ hm') with hx | hx
    · exact Or.inl hx
    · by_cases hxn : x = none
      · exact Or.inl hxn
      · refine Or.inr ?_
        have hsnoc : fold eff none (log ++ [m]) = (eff m).apply (fold eff none log) := fold_append
        rw [hsnoc, ← hx, Effect.apply_of_not_tells (hnone m (by simp)) hxn]

namespace Follows

lemma partly (h : Follows eff log i j x) : Partly eff log x :=
  ⟨h.origin, fun hnone => h.current fun m hm => hnone m (List.mem_of_mem_drop hm)⟩

/-- A reader that begins to listen. -/
theorem begin (h : Partly eff log x) : Follows eff log 0 log.length x :=
  ⟨Nat.zero_le _, le_refl _, by simp, h.origin, fun hnone => h.untold (by simpa using hnone)⟩

/-- **When both are at the end**, the entry is the one of the log. -/
theorem eq_fold (h : Follows eff log log.length log.length x) : x = fold eff none log := by
  rcases h.current (by simp) with hx | hx
  · rw [hx]
    by_contra hne
    have hpresent := h.present
    rw [List.take_length] at hpresent
    exact hpresent (fold_ne_none_iff.mp (Ne.symm hne)) hx
  · exact hx

/-- The log goes on. -/
theorem append (h : Follows eff log i j x) (m : μ) : Follows eff (log ++ [m]) i j x := by
  have hmin : min i j ≤ log.length := (Nat.min_le_left _ _).trans h.replayed
  refine ⟨by simp [h.replayed.trans], by simp [h.heard.trans], ?_, (h.partly.append m).origin, ?_⟩
  · rw [List.take_append_of_le_length h.replayed]
    exact h.present
  · intro hnone
    rw [List.drop_append_of_le_length hmin] at hnone
    rcases h.current fun m' hm' => hnone m' (List.mem_append_left _ hm') with hx | hx
    · exact Or.inl hx
    · by_cases hxn : x = none
      · exact Or.inl hxn
      · refine Or.inr ?_
        have hsnoc : fold eff none (log ++ [m]) = (eff m).apply (fold eff none log) := fold_append
        rw [hsnoc, ← hx, Effect.apply_of_not_tells (hnone m (by simp)) hxn]

/-- A message of the log is heard, behind which no message tells the entry. -/
lemma current_apply (ht : Tidy eff log) (h : Follows eff log i j x) {k p : ℕ}
    (hk : log[k]? = some m) (hle : min i j ≤ k) (hp : p = min i j ∨ p = k + 1 ∧ k = min i j)
    (hnone : ∀ m ∈ log.drop p, ¬ (eff m).Tells) :
    (eff m).apply x = none ∨ (eff m).apply x = fold eff none log := by
  obtain ⟨hlt, hget⟩ := List.getElem?_eq_some_iff.mp hk
  have hsplit : log = log.take k ++ m :: log.drop (k + 1) := by
    rw [← hget, ← List.drop_eq_getElem_cons hlt, List.take_append_drop]
  have hafter : ∀ m' ∈ log.drop (k + 1), ¬ (eff m').Tells := by
    intro m' hm'
    refine hnone m' ?_
    have hpk : p ≤ k + 1 := by omega
    rw [← Nat.add_sub_of_le hpk, ← List.drop_drop] at hm'
    exact List.mem_of_mem_drop hm'
  by_cases hm : (eff m).Tells
  · -- the replay is at this message, or beyond it
    have hki : k ≤ i := by
      rcases hp with rfl | ⟨rfl, rfl⟩
      · refine absurd hm (hnone m (List.mem_iff_getElem?.mpr ⟨k - min i j, ?_⟩))
        rw [List.getElem?_drop, Nat.add_sub_of_le hle, hk]
      · exact Nat.min_le_left _ _
    rw [hsplit] at ht ⊢
    refine apply_last ht hm hafter (fun ⟨m', hm', he⟩ => ?_) fun hne => ?_
    · exact h.present ⟨m', (List.take_sublist_take_left hki).subset hm', he⟩
    · rw [← hsplit]
      exact h.origin hne
  · -- the message tells nothing: no message behind the minimum does
    have hmin : ∀ m' ∈ log.drop (min i j), ¬ (eff m').Tells := by
      rcases hp with rfl | ⟨rfl, rfl⟩
      · exact hnone
      · intro m' hm'
        rw [List.drop_eq_getElem_cons hlt, hget] at hm'
        rcases List.mem_cons.mp hm' with rfl | hm'
        · exact hm
        · exact hafter m' hm'
    by_cases hxn : x = none
    · subst hxn
      cases hem : eff m with
      | enter r r' => exact absurd (hem ▸ trivial) hm
      | update r => exact Or.inl rfl
      | skip => exact Or.inl rfl
      | create r =>
        refine Or.inr (fold_of_create ht.agreed (fun m' hm' htells => ?_)
          (List.mem_of_getElem? hk) hem).symm
        -- a message that tells the entry would stand before the one that creates it
        rw [← List.take_append_drop (min i j) log] at hm'
        rcases List.mem_append.mp hm' with hm' | hm'
        · cases hem' : eff m' with
          | enter r₁ r₂ =>
            refine h.present ⟨m', ?_, by rw [hem']; trivial⟩ rfl
            exact (List.take_sublist_take_left (Nat.min_le_left i j)).subset hm'
          | update r' =>
            have hbefore : m' ∈ log.take k :=
              (List.take_sublist_take_left hle).subset hm'
            have hpair := ht.ordered
            rw [hsplit] at hpair
            exact (List.pairwise_append.mp hpair).2.2 m' hbefore m List.mem_cons_self r' r hem' hem
          | create r' => rw [hem'] at htells; exact htells
          | skip => rw [hem'] at htells; exact htells
        · exact hmin m' hm' htells
    · rw [Effect.apply_of_not_tells hm hxn]
      exact h.current hmin

lemma mem_take_succ {k : ℕ} (hk : log[k]? = some m) {m' : μ} :
    m' ∈ log.take (k + 1) ↔ m' ∈ log.take k ∨ m' = m := by
  rw [List.take_add_one, hk]
  simp

/-- **The next message is replayed.** -/
theorem replay (ht : Tidy eff log) (h : Follows eff log i j x) (hi : log[i]? = some m) :
    Follows eff log (i + 1) j ((eff m).apply x) := by
  obtain ⟨hlt, -⟩ := List.getElem?_eq_some_iff.mp hi
  refine ⟨hlt, h.heard, ?_, (h.partly.apply ht (List.mem_of_getElem? hi)).origin, fun hnone =>
    h.current_apply ht hi (Nat.min_le_left _ _) ?_ hnone⟩
  · rintro ⟨m', hm', he⟩
    rcases (mem_take_succ hi).mp hm' with hm' | rfl
    · exact (eff m).apply_ne_none (h.present ⟨m', hm', he⟩)
    · exact Effect.apply_of_enters he _
  · omega

/-- **The next message is heard live.** -/
theorem hear (ht : Tidy eff log) (h : Follows eff log i j x) (hj : log[j]? = some m) :
    Follows eff log i (j + 1) ((eff m).apply x) := by
  obtain ⟨hlt, -⟩ := List.getElem?_eq_some_iff.mp hj
  refine ⟨h.replayed, hlt, fun henters => (eff m).apply_ne_none (h.present henters),
    (h.partly.apply ht (List.mem_of_getElem? hj)).origin, fun hnone =>
    h.current_apply ht hj (Nat.min_le_right _ _) ?_ hnone⟩
  omega

/-- The next message is heard live once the replay is over: the replay would tell the same. -/
theorem hear_alone (ht : Tidy eff log) (h : Follows eff log i i x) (hi : log[i]? = some m) :
    Follows eff log (i + 1) (i + 1) ((eff m).apply x) := by
  have hreplay := h.replay ht hi
  obtain ⟨hlt, -⟩ := List.getElem?_eq_some_iff.mp hi
  refine ⟨hlt, hlt, hreplay.present, hreplay.origin, fun hnone =>
    h.current_apply ht hi (Nat.min_le_left _ _) ?_ hnone⟩
  omega

end Follows

end Replay
