/-
# Serving lines from chunks

A server reads a stream in chunks, appends them to a buffer and answers every line in it.  The
buffer is filled with a text that ends at a marker, so that the rest of a chunk behind a marker
is lost.  What the server does is then determined by the lines of what is kept (`serve_eq`); how
the stream is cut makes no difference when no line ends behind a marker (`serve_eq_of_clean`),
and it makes one when a line ends soon behind a marker (`exists_serve_length_ne`).
-/
import FixExchange.Lib.Framing

namespace LineReader

variable {α σ ρ : Type*} [DecidableEq α]

/-- The first line, and what is behind its end. -/
def takeLine (nl : α) : List α → Option (List α × List α)
  | [] => none
  | a :: l => if a = nl then some ([], l) else (takeLine nl l).map fun p => (a :: p.1, p.2)

/-- The loop over the lines in the buffer, for at most the given number of rounds. -/
def drain (nl : α) (step : σ → List α → σ × ρ) : ℕ → σ → List α → σ × List α × List ρ
  | 0, st, buf => (st, buf, [])
  | n + 1, st, buf =>
    match takeLine nl buf with
    | none => (st, buf, [])
    | some (line, rest) =>
      let r := step st line
      let d := drain nl step n r.1 rest
      (d.1, d.2.1, r.2 :: d.2.2)

/-- The server: the state after the chunks, and the responses.  An empty chunk is the end of
the stream. -/
def serve (nl marker : α) (step : σ → List α → σ × ρ) : σ → List α → List (List α) → σ × List ρ
  | st, _, [] => (st, [])
  | st, buf, chunk :: chunks =>
    if chunk = [] then (st, [])
    else
      let buf := buf ++ chunk.takeWhile fun a => a ≠ marker
      let d := drain nl step (buf.count nl) st buf
      let r := serve nl marker step d.1 d.2.1 chunks
      (r.1, d.2.2 ++ r.2)

/-- The answers to some lines. -/
def answers (step : σ → List α → σ × ρ) : σ → List (List α) → σ × List ρ
  | st, [] => (st, [])
  | st, line :: lines =>
    let r := step st line
    let d := answers step r.1 lines
    (d.1, r.2 :: d.2)

/-- What is kept of the chunks. -/
def kept (marker : α) (chunks : List (List α)) : List α :=
  chunks.flatMap fun chunk => chunk.takeWhile fun a => a ≠ marker

variable {nl marker : α} {step : σ → List α → σ × ρ} {st : σ} {l p x : List α}
  {ls ls' : List (List α)} {chunks : List (List α)}

omit [DecidableEq α] in
lemma answers_append (step : σ → List α → σ × ρ) (st : σ) (ls ls' : List (List α)) :
    answers step st (ls ++ ls') =
      ((answers step (answers step st ls).1 ls').1,
        (answers step st ls).2 ++ (answers step (answers step st ls).1 ls').2) := by
  induction ls generalizing st with
  | nil => rfl
  | cons l ls ih => simp [answers, ih]

omit [DecidableEq α] in
lemma answers_length (step : σ → List α → σ × ρ) (st : σ) (ls : List (List α)) :
    (answers step st ls).2.length = ls.length := by
  induction ls generalizing st with
  | nil => rfl
  | cons l ls ih => simp [answers, ih]

lemma takeLine_append (h : nl ∉ l) : takeLine nl (l ++ nl :: x) = some (l, x) := by
  induction l with
  | nil => simp [takeLine]
  | cons a l ih =>
    obtain ⟨ha, hl⟩ := List.ne_and_not_mem_of_not_mem_cons h
    simp [takeLine, Ne.symm ha, ih hl]

lemma takeLine_of_notMem (h : nl ∉ p) : takeLine nl p = none := by
  induction p with
  | nil => rfl
  | cons a p ih =>
    obtain ⟨ha, hp⟩ := List.ne_and_not_mem_of_not_mem_cons h
    simp [takeLine, Ne.symm ha, ih hp]

variable (step st) in
/-- The loop answers the lines of the buffer and leaves the rest. -/
lemma drain_encode (hls : ∀ l ∈ ls, nl ∉ l) (hp : nl ∉ p) {n : ℕ} (hn : ls.length ≤ n) :
    drain nl step n st (Framing.encode nl ls ++ p) =
      ((answers step st ls).1, p, (answers step st ls).2) := by
  induction ls generalizing st n with
  | nil =>
    cases n with
    | zero => rfl
    | succ n => simp [drain, takeLine_of_notMem hp, answers]
  | cons l ls ih =>
    obtain ⟨n, rfl⟩ := Nat.exists_eq_add_of_le' (Nat.one_le_of_lt hn)
    rw [Framing.encode_cons, List.append_assoc, List.cons_append, drain,
      takeLine_append (hls l (by simp))]
    simp only [ih (step st l).1 (fun l' hl' => hls l' (by simp [hl'])) (by simpa using hn)]
    rfl

lemma count_encode (hls : ∀ l ∈ ls, nl ∉ l) (hp : nl ∉ p) :
    (Framing.encode nl ls ++ p).count nl = ls.length := by
  induction ls with
  | nil => simpa using List.count_eq_zero.mpr hp
  | cons l ls ih =>
    have hl : l.count nl = 0 := List.count_eq_zero.mpr (hls l (by simp))
    have htail := ih fun l' hl' => hls l' (by simp [hl'])
    rw [List.count_append] at htail ⊢
    simp only [Framing.encode_cons, List.count_append, List.count_cons_self, List.length_cons, hl]
    omega

/-- Every text is a list of lines and a rest. -/
lemma exists_lines (nl : α) (text : List α) :
    ∃ ls p, text = Framing.encode nl ls ++ p ∧ (∀ l ∈ ls, nl ∉ l) ∧ nl ∉ p := by
  induction text with
  | nil => exact ⟨[], [], by simp, by simp, by simp⟩
  | cons a text ih =>
    obtain ⟨ls, p, rfl, hls, hp⟩ := ih
    by_cases ha : a = nl
    · subst ha
      exact ⟨[] :: ls, p, by simp, by simpa using hls, hp⟩
    · cases ls with
      | nil => exact ⟨[], a :: p, by simp, by simp, by simpa using ⟨Ne.symm ha, hp⟩⟩
      | cons l ls =>
        refine ⟨(a :: l) :: ls, p, by simp, fun l' hl' => ?_, hp⟩
        rcases List.mem_cons.mp hl' with rfl | hl'
        · simpa using ⟨Ne.symm ha, hls l (by simp)⟩
        · exact hls l' (by simp [hl'])

/-- The lines at the head of a text are determined. -/
lemma lines_cancel (hls' : ∀ l ∈ ls', nl ∉ l) (hls : ∀ l ∈ ls, nl ∉ l) (hp : nl ∉ p)
    (h : Framing.encode nl ls' ++ x = Framing.encode nl ls ++ p) :
    ∃ ls₂, ls = ls' ++ ls₂ ∧ x = Framing.encode nl ls₂ ++ p := by
  induction ls' generalizing ls with
  | nil => exact ⟨ls, rfl, h⟩
  | cons l' ls' ih =>
    cases ls with
    | nil =>
      refine absurd ?_ hp
      rw [Framing.encode_nil, List.nil_append] at h
      rw [← h]
      simp
    | cons l ls =>
      simp only [Framing.encode_cons, List.append_assoc, List.cons_append] at h
      have hfirst := congrArg (takeLine nl) h
      rw [takeLine_append (hls' l' (by simp)), takeLine_append (hls l (by simp))] at hfirst
      obtain ⟨rfl, htail⟩ := Prod.mk.inj (Option.some.inj hfirst)
      obtain ⟨ls₂, rfl, hx⟩ := ih (fun m hm => hls' m (by simp [hm]))
        (fun m hm => hls m (by simp [hm])) htail
      exact ⟨ls₂, rfl, hx⟩

/-- **The server answers the lines of what is kept.** -/
theorem serve_eq {buf : List α} (hne : [] ∉ chunks) (hls : ∀ l ∈ ls, nl ∉ l) (hp : nl ∉ p)
    (h : buf ++ kept marker chunks = Framing.encode nl ls ++ p) (hbuf : nl ∉ buf) :
    serve nl marker step st buf chunks = answers step st ls := by
  induction chunks generalizing st buf ls with
  | nil =>
    have hnil : ls = [] := by
      have hcount := count_encode hls hp
      rw [← h, kept, List.flatMap_nil, List.append_nil, List.count_eq_zero.mpr hbuf] at hcount
      exact List.length_eq_zero_iff.mp hcount.symm
    rw [hnil]
    rfl
  | cons chunk chunks ih =>
    obtain ⟨hchunk, hchunks⟩ := List.ne_and_not_mem_of_not_mem_cons hne
    obtain ⟨ls', p', hread, hls', hp'⟩ :=
      exists_lines nl (buf ++ chunk.takeWhile fun a => a ≠ marker)
    have hsplit : Framing.encode nl ls' ++ (p' ++ kept marker chunks) =
        Framing.encode nl ls ++ p := by
      rw [← h, ← List.append_assoc, ← hread, List.append_assoc]
      rfl
    obtain ⟨ls₂, rfl, hrest⟩ := lines_cancel hls' hls hp hsplit
    have hdrain := drain_encode step st hls' hp' (count_encode hls' hp').ge
    rw [serve, if_neg hchunk.symm, hread]
    simp only [hdrain]
    rw [ih hchunks (fun l hl => hls l (by simp [hl])) hrest hp', answers_append]

/-! ## Two ways to cut a stream -/

/-- The chunks are a way to cut the text, into chunks of at most `n` elements. -/
structure IsCut (n : ℕ) (text : List α) (chunks : List (List α)) : Prop where
  flatten : chunks.flatten = text
  nonempty : [] ∉ chunks
  length : ∀ chunk ∈ chunks, chunk.length ≤ n

/-- No line ends behind a marker. -/
def Clean (nl marker : α) (text : List α) : Prop := nl ∉ text.dropWhile fun a => a ≠ marker

/-- What is kept is the text up to the first marker, and some of what is behind it. -/
lemma kept_eq (marker : α) (chunks : List (List α)) :
    ∃ junk, kept marker chunks = (chunks.flatten.takeWhile fun a => a ≠ marker) ++ junk ∧
      ∀ a ∈ junk, a ∈ chunks.flatten.dropWhile fun a => a ≠ marker := by
  induction chunks with
  | nil => exact ⟨[], rfl, by simp⟩
  | cons chunk chunks ih =>
    obtain ⟨junk, hkept, hjunk⟩ := ih
    have hcons : kept marker (chunk :: chunks) =
        (chunk.takeWhile fun a => a ≠ marker) ++ kept marker chunks := rfl
    by_cases hmem : marker ∈ chunk
    · -- the first chunk has the marker, and all that follows is behind it
      have hnotall : ¬ ∀ a ∈ chunk, decide (a ≠ marker) = true := fun hall => by
        simpa using hall marker hmem
      have htake : (chunk.takeWhile fun a => a ≠ marker).length ≠ chunk.length := fun hlen =>
        hnotall (List.takeWhile_eq_self_iff.mp
          ((List.takeWhile_prefix fun a => decide (a ≠ marker)).eq_of_length hlen))
      have hdrop : ¬ (chunk.dropWhile fun a => a ≠ marker).isEmpty = true := by
        rw [List.isEmpty_iff, List.dropWhile_eq_nil_iff]
        exact hnotall
      refine ⟨kept marker chunks, ?_, fun a ha => ?_⟩
      · rw [hcons, List.flatten_cons, List.takeWhile_append, if_neg htake]
      · rw [List.flatten_cons, List.dropWhile_append, if_neg hdrop]
        obtain ⟨c, hc, ha⟩ := List.mem_flatMap.mp ha
        exact List.mem_append_right _
          (List.mem_flatten.mpr ⟨c, hc, (List.takeWhile_prefix _).subset ha⟩)
    · have hall : ∀ a ∈ chunk, decide (a ≠ marker) = true := fun a ha =>
        decide_eq_true fun heq => hmem (heq ▸ ha)
      refine ⟨junk, ?_, ?_⟩
      · rw [hcons, hkept, List.flatten_cons, List.takeWhile_append_of_pos hall,
          List.takeWhile_eq_self_iff.mpr hall, List.append_assoc]
      · rw [List.flatten_cons, List.dropWhile_append_of_pos hall]
        exact hjunk

/-- **The way to cut a text makes no difference** when no line ends behind a marker. -/
theorem serve_eq_of_clean {n : ℕ} {text : List α} {chunks' : List (List α)}
    (hclean : Clean nl marker text) (h : IsCut n text chunks) (h' : IsCut n text chunks') :
    serve nl marker step st [] chunks = serve nl marker step st [] chunks' := by
  obtain ⟨ls, p, hlines, hls, hp⟩ := exists_lines nl (text.takeWhile fun a => a ≠ marker)
  -- every way to cut the text keeps these lines, and no others
  have hserve : ∀ {c : List (List α)}, IsCut n text c →
      serve nl marker step st [] c = answers step st ls := by
    intro c hc
    obtain ⟨junk, hkept, hjunk⟩ := kept_eq marker c
    rw [hc.flatten] at hkept hjunk
    refine serve_eq hc.nonempty hls (p := p ++ junk) ?_ ?_ (by simp)
    · exact fun hmem => (List.mem_append.mp hmem).elim hp fun hmem => hclean (hjunk nl hmem)
    · rw [List.nil_append, hkept, hlines, List.append_assoc]
  rw [hserve h, hserve h']

/-- There is a response for each end of a line that is kept. -/
lemma serve_length (hne : [] ∉ chunks) :
    (serve nl marker step st [] chunks).2.length = (kept marker chunks).count nl := by
  obtain ⟨ls, p, hlines, hls, hp⟩ := exists_lines nl (kept marker chunks)
  rw [serve_eq hne hls hp (by rw [List.nil_append, hlines]) (by simp), answers_length, hlines,
    count_encode hls hp]

/-- One element in each chunk: all ends of lines are kept. -/
lemma count_kept_singletons (hnl : nl ≠ marker) (text : List α) :
    (kept marker (text.map fun a => [a])).count nl = text.count nl := by
  induction text with
  | nil => rfl
  | cons a text ih =>
    have hcons : kept marker ((a :: text).map fun a => [a]) =
        ([a].takeWhile fun a => a ≠ marker) ++ kept marker (text.map fun a => [a]) := rfl
    rw [hcons, List.count_append, ih]
    by_cases ha : a = marker
    · subst ha
      simp [Ne.symm hnl]
    · simp [ha, List.count_cons, add_comm]

omit [DecidableEq α] in
lemma isCut_singletons {n : ℕ} (hn : 1 ≤ n) (text : List α) :
    IsCut n text (text.map fun a => [a]) := by
  refine ⟨?_, by simp, fun chunk hchunk => ?_⟩
  · rw [← List.flatMap_def, List.flatMap_singleton']
  · obtain ⟨a, -, rfl⟩ := List.mem_map.mp hchunk
    exact hn

variable (step st) in
/-- **The way to cut a text makes a difference** when a line ends soon behind a marker. -/
theorem exists_serve_length_ne {n : ℕ} (hnl : nl ≠ marker) {front mid back : List α}
    (hmid : mid.length + 2 ≤ n) :
    ∃ chunks chunks', IsCut n (front ++ marker :: (mid ++ nl :: back)) chunks ∧
      IsCut n (front ++ marker :: (mid ++ nl :: back)) chunks' ∧
      (serve nl marker step st [] chunks).2.length ≠
        (serve nl marker step st [] chunks').2.length := by
  have hone : 1 ≤ n := by omega
  have hcut := isCut_singletons hone (front ++ marker :: (mid ++ nl :: back))
  have hfront := isCut_singletons hone front
  have hback := isCut_singletons hone back
  -- the marker and the end of the line come in one chunk
  have hcut' : IsCut n (front ++ marker :: (mid ++ nl :: back))
      ((front.map fun a => [a]) ++ (marker :: (mid ++ [nl])) :: back.map fun a => [a]) := by
    refine ⟨?_, ?_, fun chunk hchunk => ?_⟩
    · rw [List.flatten_append, List.flatten_cons, hfront.flatten, hback.flatten]
      simp
    · simp
    · rcases List.mem_append.mp hchunk with hchunk | hchunk
      · exact hfront.length chunk hchunk
      · rcases List.mem_cons.mp hchunk with rfl | hchunk
        · simp only [List.length_cons, List.length_append, List.length_nil]
          omega
        · exact hback.length chunk hchunk
  refine ⟨_, _, hcut, hcut', ?_⟩
  rw [serve_length hcut.nonempty, serve_length hcut'.nonempty, count_kept_singletons hnl]
  have hkept : kept marker
      ((front.map fun a => [a]) ++ (marker :: (mid ++ [nl])) :: back.map fun a => [a]) =
        kept marker (front.map fun a => [a]) ++ kept marker (back.map fun a => [a]) := by
    simp [kept]
  rw [hkept]
  simp only [List.count_append, count_kept_singletons hnl, List.count_cons, beq_self_eq_true,
    if_true]
  omega

end LineReader
