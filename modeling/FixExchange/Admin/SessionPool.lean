/-
# Who holds a session id

The port remembers which ids are available, and not who has been handed one out: a client may
release an id that another one holds (`other_client_releases`).  What holds in every history of
commands is that an id is handed out again only after it has been released, by whomever
(`not_handed_out_twice`).
-/
import FixExchange.Admin.AdminGateway

namespace FixExchange

/-- A command line, and the client that sends it. -/
structure AdminRequest (κ : Type) where
  client : κ
  line : List Char

namespace AdminGateway

variable {σ κ : Type} {hooks : StatsHooks σ} {a : AdminGateway σ} {line : List Char}
  {id id' : String} {ids : List String}

/-- The port after the commands of several clients, in the order in which they arrive. -/
def serveAll (hooks : StatsHooks σ) (a : AdminGateway σ) (history : List (AdminRequest κ)) :
    AdminGateway σ :=
  history.foldl (fun a r => (a.command hooks r.line).1) a

/-- The line is a claim, and the id is the answer. -/
def HandsOut (hooks : StatsHooks σ) (a : AdminGateway σ) (line : List Char) (id : String) : Prop :=
  stripCR line = "CLAIM-SESSION".toList ∧ (a.command hooks line).2 = "OK " ++ id ++ "\n"

/-- The line releases the id. -/
def Releases (line : List Char) (id : String) : Prop :=
  stripCR line = "RELEASE-SESSION ".toList ++ id.toList

/-- The client has been handed out the id, and no request that counts has released it since. -/
def Held (hooks : StatsHooks σ) (a : AdminGateway σ) (counts : AdminRequest κ → Prop)
    (history : List (AdminRequest κ)) (client : κ) (id : String) : Prop :=
  ∃ before claim after, history = before ++ claim :: after ∧ claim.client = client ∧
    HandsOut hooks (a.serveAll hooks before) claim.line id ∧
    ∀ r ∈ after, Releases r.line id → ¬ counts r

/-- No id is handed out while another client has it that has not itself released it. -/
def Exclusive (κ : Type) (hooks : StatsHooks σ) (a : AdminGateway σ) : Prop :=
  ∀ (history : List (AdminRequest κ)) (r : AdminRequest κ) (id : String),
    HandsOut hooks (a.serveAll hooks history) r.line id →
      ∀ client ≠ r.client, ¬ a.Held hooks (fun r' => r'.client = client) history client id

/-! ## The available ids -/

lemma mem_insertId : id' ∈ insertId id ids ↔ id' = id ∨ id' ∈ ids := by
  rw [insertId]
  split_ifs with hmem
  · exact (or_iff_right_of_imp fun heq => heq ▸ hmem).symm
  · exact List.mem_orderedInsert _

lemma nodup_insertId (h : ids.Nodup) : (insertId id ids).Nodup := by
  rw [insertId]
  split_ifs with hmem
  · exact h
  · exact (List.perm_orderedInsert _ id ids).nodup_iff.mpr (List.nodup_cons.mpr ⟨hmem, h⟩)

lemma nodup_init (engine : MatchingEngine) (pool : List String) (persistence : Bool) (stats : σ) :
    (init engine pool persistence stats).available.Nodup := by
  have hfold : ∀ pool ids : List String, ids.Nodup →
      (pool.foldl (fun ids id => insertId id ids) ids).Nodup := by
    intro pool
    induction pool with
    | nil => exact fun ids h => h
    | cons id pool ih => exact fun ids h => ih _ (nodup_insertId h)
  exact hfold pool [] List.nodup_nil

lemma ok_injective (h : "OK " ++ id ++ "\n" = "OK " ++ id' ++ "\n") : id = id' := by
  have hlist := congrArg String.toList h
  rw [String.toList_append, String.toList_append, String.toList_append, String.toList_append]
    at hlist
  exact String.toList_inj.mp (List.append_cancel_left (List.append_cancel_right hlist))

/-- An id that is handed out is the first one available. -/
lemma available_of_handsOut (h : HandsOut hooks a line id) :
    a.available = id :: (a.command hooks line).1.available := by
  obtain ⟨hline, hanswer⟩ := h
  have hregister : ¬ "REGISTER ".toList <+: stripCR line := by
    rw [hline]
    decide
  simp only [command, if_neg hregister, if_pos hline] at hanswer ⊢
  cases havailable : a.available with
  | nil =>
    simp only [havailable] at hanswer
    have hhead := congrArg (fun s : String => s.toList.head?) hanswer
    simp [String.toList_append] at hhead
  | cons id' ids =>
    simp only [havailable] at hanswer
    rw [ok_injective hanswer]

/-- **What a command does to the available ids.** -/
lemma available_command (hooks : StatsHooks σ) (a : AdminGateway σ) (line : List Char) :
    (∃ id, HandsOut hooks a line id) ∨
      (a.command hooks line).1.available = a.available ∨
      ∃ id, Releases line id ∧ (a.command hooks line).1.available = insertId id a.available := by
  by_cases hregister : "REGISTER ".toList <+: stripCR line
  · refine Or.inr (Or.inl ?_)
    simp only [command, if_pos hregister]
    split <;> rfl
  by_cases hclaim : stripCR line = "CLAIM-SESSION".toList
  · cases havailable : a.available with
    | nil =>
      refine Or.inr (Or.inl ?_)
      simp only [command, if_neg hregister, if_pos hclaim, havailable]
    | cons id ids =>
      refine Or.inl ⟨id, hclaim, ?_⟩
      simp only [command, if_neg hregister, if_pos hclaim, havailable]
  by_cases hrelease : "RELEASE-SESSION ".toList <+: stripCR line
  · obtain ⟨id, hid⟩ := hrelease
    have hdrop : (stripCR line).drop 16 = id := by
      rw [← hid]
      rfl
    have hid' : Releases line (String.ofList id) :=
      hid.symm.trans (congrArg _ String.toList_ofList.symm)
    have hstart : "RELEASE-SESSION ".toList <+: stripCR line := ⟨id, hid⟩
    simp only [command, if_neg hregister, if_neg hclaim, if_pos hstart, hdrop]
    split_ifs
    · exact Or.inr (Or.inr ⟨_, hid', rfl⟩)
    · exact Or.inr (Or.inl rfl)
  · refine Or.inr (Or.inl ?_)
    simp only [command, if_neg hregister, if_neg hclaim, if_neg hrelease]
    split_ifs
    · split <;> rfl
    · split <;> rfl
    · rfl
    · rfl

lemma nodup_command (h : a.available.Nodup) :
    (a.command hooks line).1.available.Nodup := by
  rcases available_command hooks a line with ⟨id, hout⟩ | hsame | ⟨id, -, hinsert⟩
  · have havailable := available_of_handsOut hout
    rw [havailable] at h
    exact (List.nodup_cons.mp h).2
  · rw [hsame]
    exact h
  · rw [hinsert]
    exact nodup_insertId h

variable (hooks) in
lemma nodup_serveAll (h : a.available.Nodup) (history : List (AdminRequest κ)) :
    (a.serveAll hooks history).available.Nodup := by
  induction history generalizing a with
  | nil => exact h
  | cons r history ih => exact ih (nodup_command h)

/-- An id that is not available stays so until it is released. -/
lemma notMem_command (h : id ∉ a.available) (hkept : ¬ Releases line id) :
    id ∉ (a.command hooks line).1.available := by
  rcases available_command hooks a line with ⟨id', hout⟩ | hsame | ⟨id', hrelease, hinsert⟩
  · rw [available_of_handsOut hout] at h
    exact (List.ne_and_not_mem_of_not_mem_cons h).2
  · rw [hsame]
    exact h
  · rw [hinsert, mem_insertId]
    rintro (rfl | hmem)
    · exact hkept hrelease
    · exact h hmem

lemma notMem_serveAll (h : id ∉ a.available) {history : List (AdminRequest κ)}
    (hkept : ∀ r ∈ history, ¬ Releases r.line id) :
    id ∉ (a.serveAll hooks history).available := by
  induction history generalizing a with
  | nil => exact h
  | cons r history ih =>
    exact ih (notMem_command h (hkept r (by simp))) fun r' hr' => hkept r' (by simp [hr'])

/-- **An id is not handed out twice** without a release in between: in every history of commands of
any clients, a client that has been handed an id is the last one to have got it until somebody
releases it. -/
theorem not_handed_out_twice (hooks : StatsHooks σ) (engine : MatchingEngine) (pool : List String)
    (persistence : Bool) (stats : σ) (history : List (AdminRequest κ)) (r : AdminRequest κ)
    (id : String)
    (hout : HandsOut hooks ((init engine pool persistence stats).serveAll hooks history) r.line id)
    (client : κ) :
    ¬ (init engine pool persistence stats).Held hooks (fun _ => True) history client id := by
  rintro ⟨before, claim, after, rfl, -, hclaim, hkept⟩
  have hnodup := nodup_serveAll hooks (nodup_init engine pool persistence stats) before
  rw [available_of_handsOut hclaim] at hnodup
  have hgone : id ∉ ((init engine pool persistence stats).serveAll hooks
      (before ++ claim :: after)).available := by
    rw [serveAll, List.foldl_append, List.foldl_cons]
    exact notMem_serveAll (List.nodup_cons.mp hnodup).1 fun r' hr' hrel =>
      hkept r' hr' hrel trivial
  rw [available_of_handsOut hout] at hgone
  exact hgone (by simp)

end AdminGateway

namespace Sample

/-- The first client claims an id, and the second one releases it. -/
def adminHistory : List (AdminRequest ℕ) :=
  [⟨1, "CLAIM-SESSION".toList⟩, ⟨2, "RELEASE-SESSION CLIENT1".toList⟩]

/-- A client is handed an id, and releases it; another client is handed the same id. -/
def reusedHistory : List (AdminRequest ℕ) :=
  [⟨1, "CLAIM-SESSION".toList⟩, ⟨1, "RELEASE-SESSION CLIENT1".toList⟩,
    ⟨2, "CLAIM-SESSION".toList⟩]

end Sample

namespace AdminGateway

/-- The id that has been released is handed out again, and nobody has it at that time; while the
second client has it, a third one is handed another id. -/
theorem not_handed_out_twice_sample :
    HandsOut Sample.noHooks Sample.admin "CLAIM-SESSION".toList "CLIENT1" ∧
      HandsOut Sample.noHooks (Sample.admin.serveAll Sample.noHooks (Sample.reusedHistory.take 2))
        "CLAIM-SESSION".toList "CLIENT1" ∧
      (∀ client, ¬ Sample.admin.Held Sample.noHooks (fun _ => True) (Sample.reusedHistory.take 2)
        client "CLIENT1") ∧
      HandsOut Sample.noHooks (Sample.admin.serveAll Sample.noHooks Sample.reusedHistory)
        "CLAIM-SESSION".toList "CLIENT2" ∧
      Sample.admin.Held Sample.noHooks (fun _ => True) Sample.reusedHistory 2 "CLIENT1" := by
  have hfirst : HandsOut Sample.noHooks Sample.admin "CLAIM-SESSION".toList "CLIENT1" := by
    unfold HandsOut
    decide +kernel
  have hagain : HandsOut Sample.noHooks
      (Sample.admin.serveAll Sample.noHooks (Sample.reusedHistory.take 2))
      "CLAIM-SESSION".toList "CLIENT1" := by
    unfold HandsOut
    decide +kernel
  have hother : HandsOut Sample.noHooks
      (Sample.admin.serveAll Sample.noHooks Sample.reusedHistory)
      "CLAIM-SESSION".toList "CLIENT2" := by
    unfold HandsOut
    decide +kernel
  have hfree := fun client => not_handed_out_twice Sample.noHooks _ _ _ _ _
    ⟨2, "CLAIM-SESSION".toList⟩ _ hagain client
  refine ⟨hfirst, hagain, hfree, hother, ?_⟩
  exact ⟨Sample.reusedHistory.take 2, ⟨2, "CLAIM-SESSION".toList⟩, [], rfl, rfl, hagain, by simp⟩

/-- A client is handed an id that another one has not released. -/
theorem other_client_releases :
    HandsOut Sample.noHooks (Sample.admin.serveAll Sample.noHooks Sample.adminHistory)
        "CLAIM-SESSION".toList "CLIENT1" ∧
      Sample.admin.Held Sample.noHooks (fun r => r.client = 1) Sample.adminHistory 1 "CLIENT1" ∧
      ¬ Exclusive ℕ Sample.noHooks Sample.admin := by
  have hout : HandsOut Sample.noHooks (Sample.admin.serveAll Sample.noHooks Sample.adminHistory)
      "CLAIM-SESSION".toList "CLIENT1" := by
    unfold HandsOut
    decide +kernel
  have hheld : Sample.admin.Held Sample.noHooks (fun r => r.client = 1) Sample.adminHistory 1
      "CLIENT1" := by
    refine ⟨[], ⟨1, "CLAIM-SESSION".toList⟩, [⟨2, "RELEASE-SESSION CLIENT1".toList⟩], rfl, rfl,
      ?_, ?_⟩
    · unfold HandsOut
      decide +kernel
    · intro r hr _
      rw [List.mem_singleton.mp hr]
      decide
  exact ⟨hout, hheld, fun h =>
    h Sample.adminHistory ⟨2, "CLAIM-SESSION".toList⟩ "CLIENT1" hout 1 (by decide) hheld⟩

end AdminGateway

end FixExchange
