/-
# Frames that end with a marked field

A stream is a sequence of fields, each closed by a separator, and a frame of it ends with the
first field in which a marker occurs.  A receiver looks for the marker in what it has read and
cuts behind the next separator.  When the marker is there and the separator is not, the
receiver fails instead of reading on: it gets every frame exactly when it has never read a
marker whose field is unfinished (`receives_iff`).
-/
import Mathlib.Data.List.DropRight
import Mathlib.Tactic

namespace Framing

variable {α : Type*}

/-- The stream of some fields. -/
def encode (sep : α) (fields : List (List α)) : List α := fields.flatMap fun f => f ++ [sep]

section Encode

variable {sep : α} {marker f b : List α} {F G : List (List α)}

@[simp] lemma encode_nil : encode sep [] = [] := rfl

@[simp] lemma encode_cons : encode sep (f :: F) = f ++ sep :: encode sep F := by simp [encode]

@[simp] lemma encode_append : encode sep (F ++ G) = encode sep F ++ encode sep G := by
  simp [encode]

/-- A stream is split at its separators into the fields and an empty rest. -/
lemma splitOn_encode [DecidableEq α] (hF : ∀ f ∈ F, sep ∉ f) :
    (encode sep F).splitOn sep = F ++ [[]] := by
  have hintercalate : [sep].intercalate (F ++ [[]]) = encode sep F := by
    clear hF
    induction F with
    | nil => simp [List.intercalate]
    | cons f F ih =>
      rw [encode_cons, ← ih]
      cases F <;> simp [List.intercalate]
  rw [← hintercalate]
  refine List.splitOn_intercalate sep (fun f hf => ?_) (by simp)
  rcases List.mem_append.mp hf with hf | hf
  · exact hF f hf
  · simp_all

/-- A marker without the separator does not reach over it. -/
lemma prefix_append_sep (hsep : sep ∉ marker) : marker <+: f ++ sep :: b ↔ marker <+: f := by
  refine ⟨fun h => ?_, fun h => h.trans (List.prefix_append _ _)⟩
  obtain ⟨t, ht⟩ := h
  rcases List.append_eq_append_iff.mp ht with ⟨a, rfl, -⟩ | ⟨a, rfl, ha⟩
  · exact List.prefix_append _ _
  · cases a with
    | nil => simp
    | cons c a =>
      obtain rfl : sep = c := (List.cons.inj ha).1
      simp at hsep

/-- The first field with the marker is determined. -/
lemma first_marked {G G' H H' : List (List α)} {f f' : List α}
    (h : G ++ f :: H = G' ++ f' :: H') (hG : ∀ g ∈ G, ¬ marker <:+: g)
    (hG' : ∀ g ∈ G', ¬ marker <:+: g) (hf : marker <:+: f) (hf' : marker <:+: f') :
    G = G' ∧ f = f' ∧ H = H' := by
  induction G generalizing G' with
  | nil =>
    cases G' with
    | nil => exact ⟨rfl, List.cons.inj h⟩
    | cons g G' =>
      obtain ⟨rfl, -⟩ := List.cons.inj h
      exact absurd hf (hG' f (by simp))
  | cons g G ih =>
    cases G' with
    | nil =>
      obtain ⟨rfl, -⟩ := List.cons.inj h
      exact absurd hf' (hG g (by simp))
    | cons g' G' =>
      obtain ⟨rfl, htail⟩ := List.cons.inj h
      obtain ⟨rfl, hrest⟩ := ih htail (fun x hx => hG x (by simp [hx]))
        (fun x hx => hG' x (by simp [hx]))
      exact ⟨rfl, hrest⟩

/-- A message: the fields before the last one, which has the marker. -/
abbrev Message (α : Type*) := List (List α) × List α

/-- The bytes of a message. -/
def Message.raw (sep : α) (m : Message α) : List α := encode sep (m.1 ++ [m.2])

variable {ms : List (Message α)}

lemma encode_flatMap : encode sep (ms.flatMap fun m => m.1 ++ [m.2]) =
    (ms.map (Message.raw sep)).flatten := by
  induction ms with
  | nil => rfl
  | cons m ms ih => simp [ih, Message.raw]

lemma notMem_fields
    (hms : ∀ m ∈ ms, (∀ g ∈ m.1, sep ∉ g) ∧ sep ∉ m.2 ∧ marker <:+: m.2) :
    ∀ f ∈ ms.flatMap fun m => m.1 ++ [m.2], sep ∉ f := by
  intro f hf
  obtain ⟨m, hm, hf⟩ := List.mem_flatMap.mp hf
  rcases List.mem_append.mp hf with hf | hf
  · exact (hms m hm).1 f hf
  · exact List.mem_singleton.mp hf ▸ (hms m hm).2.1

end Encode

variable [DecidableEq α]

/-- The first occurrence of the marker: what stands before it, and the list from there on. -/
def findMarker (marker : List α) : List α → Option (List α × List α)
  | [] => none
  | a :: l =>
    if marker <+: a :: l then some ([], a :: l)
    else (findMarker marker l).map fun p => (a :: p.1, p.2)

/-- The list up to the first separator, which is included, and the rest. -/
def cutAfter (sep : α) : List α → Option (List α × List α)
  | [] => none
  | a :: l => if a = sep then some ([a], l) else (cutAfter sep l).map fun p => (a :: p.1, p.2)

/-- What a look at the buffer tells: there is a frame, or a marker without the separator, or
no marker yet. -/
inductive Scan (α : Type*) where
  | frame (raw rest : List α)
  | broken
  | more

/-- Look for a frame at the head of the buffer. -/
def scan (sep : α) (marker buf : List α) : Scan α :=
  match findMarker marker buf with
  | none => .more
  | some (front, back) =>
    match cutAfter sep back with
    | none => .broken
    | some (field, rest) => .frame (front ++ field) rest

/-- A list before the frame. -/
def Scan.prepend (l : List α) : Scan α → Scan α
  | .frame raw rest => .frame (l ++ raw) rest
  | .broken => .broken
  | .more => .more

/-- What a call of the receiver returns. -/
inductive Received (α : Type*) where
  | frame (raw : List α)
  | broken
  | closed
deriving DecidableEq

/-- The receiver: what it has read and not yet returned, and the chunks that it will read. -/
structure Conn (α : Type*) where
  buf : List α
  chunks : List (List α)

/-- One call of the receiver, which reads chunks until there is a frame.  An empty chunk says
that the stream has ended, and so does the end of the list. -/
def receive (sep : α) (marker : List α) : List α → List (List α) → Received α × Conn α
  | buf, [] =>
    match scan sep marker buf with
    | .frame raw rest => (.frame raw, ⟨rest, []⟩)
    | .broken => (.broken, ⟨buf, []⟩)
    | .more => (.closed, ⟨buf, []⟩)
  | buf, chunk :: chunks =>
    match scan sep marker buf with
    | .frame raw rest => (.frame raw, ⟨rest, chunk :: chunks⟩)
    | .broken => (.broken, ⟨buf, chunk :: chunks⟩)
    | .more =>
      if chunk = [] then (.closed, ⟨buf, chunks⟩) else receive sep marker (buf ++ chunk) chunks

/-- The results of `n` calls. -/
def receives (sep : α) (marker : List α) : ℕ → Conn α → List (Received α)
  | 0, _ => []
  | n + 1, c =>
    let r := receive sep marker c.buf c.chunks
    r.1 :: receives sep marker n r.2

/-- The part of the buffer behind the last separator. -/
def unfinished (sep : α) (buf : List α) : List α := buf.rtakeWhile fun a => a ≠ sep

/-- No look at the buffer finds a marker in an unfinished field: not now, and not after
reading any of the chunks. -/
def Whole (sep : α) (marker buf : List α) (chunks : List (List α)) : Prop :=
  ∀ read, read <+: chunks → ¬ marker <:+: unfinished sep (buf ++ read.flatten)

section Scan

variable {sep : α} {marker f b buf rest : List α} {F : List (List α)}

@[simp] lemma unfinished_append_sep (sep : α) (f b : List α) :
    unfinished sep (f ++ sep :: b) = unfinished sep b := by
  unfold unfinished
  induction b using List.reverseRecOn with
  | nil => rw [List.rtakeWhile_concat]; simp
  | append_singleton b a ih =>
    rw [← List.cons_append, ← List.append_assoc, List.rtakeWhile_concat,
      List.rtakeWhile_concat, ih]

@[simp] lemma unfinished_encode_append (sep : α) (F : List (List α)) (b : List α) :
    unfinished sep (encode sep F ++ b) = unfinished sep b := by
  induction F with
  | nil => rfl
  | cons f F ih => rw [encode_cons, List.append_assoc, List.cons_append, unfinished_append_sep, ih]

lemma unfinished_of_notMem (h : sep ∉ b) : unfinished sep b = b :=
  List.rtakeWhile_eq_self_iff.mpr fun a ha => by
    simpa using fun heq : a = sep => h (heq ▸ ha)

lemma cutAfter_append (h : sep ∉ f) : cutAfter sep (f ++ sep :: b) = some (f ++ [sep], b) := by
  induction f with
  | nil => simp [cutAfter]
  | cons a f ih =>
    obtain ⟨ha, hf⟩ := List.ne_and_not_mem_of_not_mem_cons h
    simp [cutAfter, Ne.symm ha, ih hf]

lemma cutAfter_of_notMem (h : sep ∉ b) : cutAfter sep b = none := by
  induction b with
  | nil => rfl
  | cons a b ih =>
    obtain ⟨ha, hb⟩ := List.ne_and_not_mem_of_not_mem_cons h
    simp [cutAfter, Ne.symm ha, ih hb]

lemma findMarker_of_infix (hmarker : marker ≠ []) (h : marker <:+: b) :
    ∃ front back, findMarker marker b = some (front, back) ∧ b = front ++ back := by
  induction b with
  | nil => exact absurd (List.infix_nil.mp h) hmarker
  | cons a b ih =>
    by_cases hstart : marker <+: a :: b
    · exact ⟨[], a :: b, by simp [findMarker, hstart], rfl⟩
    · obtain ⟨front, back, hfind, rfl⟩ := ih ((List.infix_cons_iff.mp h).resolve_left hstart)
      exact ⟨a :: front, back, by simp [findMarker, hstart, hfind], rfl⟩

lemma findMarker_of_not_infix (h : ¬ marker <:+: b) : findMarker marker b = none := by
  induction b with
  | nil => rfl
  | cons a b ih =>
    obtain ⟨hstart, hinfix⟩ := not_or.mp (List.infix_cons_iff.not.mp h)
    simp [findMarker, hstart, ih hinfix]

/-- The marker is found in the first field, or behind it. -/
lemma findMarker_append (hmarker : marker ≠ []) (hsep : sep ∉ marker) :
    findMarker marker (f ++ sep :: b) =
      if marker <:+: f then (findMarker marker f).map fun p => (p.1, p.2 ++ sep :: b)
      else (findMarker marker b).map fun p => (f ++ sep :: p.1, p.2) := by
  induction f with
  | nil =>
    have hnil : ¬ marker <+: sep :: b := by
      have h := prefix_append_sep (f := []) (b := b) hsep
      simpa [hmarker] using h
    simp [findMarker, hmarker, hnil]
  | cons a f ih =>
    have hhead : marker <+: a :: (f ++ sep :: b) ↔ marker <+: a :: f :=
      prefix_append_sep (f := a :: f) hsep
    by_cases hstart : marker <+: a :: f
    · simp [findMarker, hhead, hstart, hstart.isInfix]
    · by_cases hinfix : marker <:+: f
      · simp [findMarker, hhead, hstart, ih, hinfix, List.infix_cons_iff, Function.comp_def]
      · simp [findMarker, hhead, hstart, ih, hinfix, List.infix_cons_iff, Function.comp_def]

lemma scan_of_notMem (hmarker : marker ≠ []) (h : sep ∉ buf) :
    scan sep marker buf = if marker <:+: buf then .broken else .more := by
  split_ifs with hinfix
  · obtain ⟨front, back, hfind, rfl⟩ := findMarker_of_infix hmarker hinfix
    have hback : sep ∉ back := fun hmem => h (List.mem_append_right _ hmem)
    simp [scan, hfind, cutAfter_of_notMem hback]
  · simp [scan, findMarker_of_not_infix hinfix]

/-- A field with the marker ends the frame. -/
lemma scan_marked (hmarker : marker ≠ []) (hsep : sep ∉ marker) (hf : sep ∉ f)
    (h : marker <:+: f) : scan sep marker (f ++ sep :: b) = .frame (f ++ [sep]) b := by
  obtain ⟨front, back, hfind, rfl⟩ := findMarker_of_infix hmarker h
  have hback : sep ∉ back := fun hmem => hf (List.mem_append_right _ hmem)
  rw [scan, findMarker_append hmarker hsep, if_pos h, hfind]
  simp [cutAfter_append hback]

/-- A field without the marker belongs to the frame that follows it. -/
lemma scan_unmarked (hmarker : marker ≠ []) (hsep : sep ∉ marker) (h : ¬ marker <:+: f) :
    scan sep marker (f ++ sep :: b) = (scan sep marker b).prepend (f ++ [sep]) := by
  unfold scan
  rw [findMarker_append hmarker hsep, if_neg h]
  cases findMarker marker b with
  | none => rfl
  | some p => cases hcut : cutAfter sep p.2 <;> simp [hcut, Scan.prepend]

/-- What a look at the buffer finds, when `buf` and what has not been read are the stream of
the fields `F`. -/
inductive Scanned (sep : α) (marker : List α) (F : List (List α)) (buf rest : List α) :
    Scan α → Prop where
  | frame {G : List (List α)} {f : List α} {H : List (List α)} {b : List α}
      (hF : F = G ++ f :: H) (hG : ∀ g ∈ G, ¬ marker <:+: g) (hf : marker <:+: f)
      (hbuf : buf = encode sep (G ++ [f]) ++ b) (hrest : b ++ rest = encode sep H) :
      Scanned sep marker F buf rest (.frame (encode sep (G ++ [f])) b)
  | broken (h : marker <:+: unfinished sep buf) : Scanned sep marker F buf rest .broken
  | more (h : ¬ marker <:+: unfinished sep buf)
      (hF : rest = [] → ∀ f ∈ F, ¬ marker <:+: f) : Scanned sep marker F buf rest .more

/-- A field without the marker before what is scanned. -/
lemma Scanned.cons {r : Scan α} (h : Scanned sep marker F b rest r) (hf : ¬ marker <:+: f) :
    Scanned sep marker (f :: F) (f ++ sep :: b) rest (r.prepend (f ++ [sep])) := by
  cases h with
  | @frame G g H b' hF hG hg hbuf hrest =>
    have hraw : f ++ [sep] ++ encode sep (G ++ [g]) = encode sep ((f :: G) ++ [g]) := by simp
    rw [Scan.prepend, hraw]
    refine .frame (by rw [hF]; rfl) (fun x hx => ?_) hg ?_ hrest
    · rcases List.mem_cons.mp hx with rfl | hx
      · exact hf
      · exact hG x hx
    · rw [hbuf]; simp
  | broken h => exact .broken (by simpa using h)
  | more h hF =>
    refine .more (by simpa using h) fun hrest x hx => ?_
    rcases List.mem_cons.mp hx with rfl | hx
    · exact hf
    · exact hF hrest x hx

theorem scan_scanned (hmarker : marker ≠ []) (hsep : sep ∉ marker) (hF : ∀ f ∈ F, sep ∉ f)
    (hbuf : buf ++ rest = encode sep F) :
    Scanned sep marker F buf rest (scan sep marker buf) := by
  induction F generalizing buf with
  | nil =>
    obtain ⟨rfl, -⟩ := List.append_eq_nil_iff.mp hbuf
    have hnil : ¬ marker <:+: ([] : List α) := by simpa using hmarker
    rw [scan_of_notMem hmarker (by simp), if_neg hnil]
    exact .more (by simpa [unfinished] using hmarker) (by simp)
  | cons f F ih =>
    have hf : sep ∉ f := hF f (by simp)
    -- the buffer ends behind the first field, or inside it
    have hcases : (∃ b, buf = f ++ sep :: b ∧ b ++ rest = encode sep F) ∨
        ∃ t, f = buf ++ t ∧ rest ≠ [] := by
      rw [encode_cons] at hbuf
      rcases List.append_eq_append_iff.mp hbuf with ⟨t, rfl, rfl⟩ | ⟨t, rfl, ht⟩
      · exact .inr ⟨t, rfl, by simp⟩
      · cases t with
        | nil => exact .inr ⟨[], by simp, by simp [show rest = _ from ht.symm]⟩
        | cons c t =>
          obtain ⟨rfl, hrest⟩ : sep = c ∧ encode sep F = t ++ rest := by simpa using ht
          exact .inl ⟨t, rfl, hrest.symm⟩
    rcases hcases with ⟨b, rfl, hb⟩ | ⟨t, rfl, hrest⟩
    · by_cases hmarked : marker <:+: f
      · rw [scan_marked hmarker hsep hf hmarked]
        have hframe : f ++ [sep] = encode sep ([] ++ [f]) := by simp
        rw [hframe]
        exact .frame rfl (by simp) hmarked (by simp) hb
      · rw [scan_unmarked hmarker hsep hmarked]
        exact (ih (fun g hg => hF g (by simp [hg])) hb).cons hmarked
    · have hbuf : sep ∉ buf := fun hmem => hf (List.mem_append_left _ hmem)
      rw [scan_of_notMem hmarker hbuf]
      split_ifs with hinfix
      · exact .broken (by rwa [unfinished_of_notMem hbuf])
      · exact .more (by rwa [unfinished_of_notMem hbuf]) fun hnil => absurd hnil hrest

end Scan

section Receive

variable {sep : α} {marker buf : List α} {chunk : List α} {chunks : List (List α)}
  {F : List (List α)} {ms : List (Message α)}

lemma receives_succ (n : ℕ) (c : Conn α) : receives sep marker (n + 1) c =
    (receive sep marker c.buf c.chunks).1 ::
      receives sep marker n (receive sep marker c.buf c.chunks).2 := rfl

lemma whole_nil : Whole sep marker buf [] ↔ ¬ marker <:+: unfinished sep buf := by
  simp [Whole]

lemma whole_cons : Whole sep marker buf (chunk :: chunks) ↔
    ¬ marker <:+: unfinished sep buf ∧ Whole sep marker (buf ++ chunk) chunks := by
  constructor
  · intro h
    refine ⟨by simpa using h [] (by simp), fun read hread => ?_⟩
    simpa using h (chunk :: read) (by simpa using hread)
  · rintro ⟨hnow, hlater⟩ read hread
    cases read with
    | nil => simpa using hnow
    | cons c read =>
      obtain ⟨rfl, hlate⟩ := List.cons_prefix_cons.mp hread
      simpa using hlater read hlate

lemma whole_encode_append : Whole sep marker (encode sep F ++ buf) chunks ↔
    Whole sep marker buf chunks := by
  simp [Whole]

/-- What a call of the receiver does, when its buffer and the chunks are the stream of the
fields `F`: it returns the fields up to the first one with the marker, it has read such a
field in part, or there is none and the stream ends. -/
inductive Reception (sep : α) (marker : List α) (F : List (List α)) (buf : List α)
    (chunks : List (List α)) : Received α × Conn α → Prop where
  | frame {G : List (List α)} {f : List α} {H : List (List α)} {c : Conn α}
      (hF : F = G ++ f :: H) (hG : ∀ g ∈ G, ¬ marker <:+: g) (hf : marker <:+: f)
      (hc : c.buf ++ c.chunks.flatten = encode sep H) (hne : [] ∉ c.chunks)
      (hwhole : Whole sep marker buf chunks ↔ Whole sep marker c.buf c.chunks) :
      Reception sep marker F buf chunks (.frame (encode sep (G ++ [f])), c)
  | broken {c : Conn α} (h : ¬ Whole sep marker buf chunks) :
      Reception sep marker F buf chunks (.broken, c)
  | closed {c : Conn α} (hF : ∀ f ∈ F, ¬ marker <:+: f) (h : Whole sep marker buf chunks) :
      Reception sep marker F buf chunks (.closed, c)

/-- A chunk that is read before the rest of the call. -/
lemma Reception.read {r : Received α × Conn α}
    (h : Reception sep marker F (buf ++ chunk) chunks r)
    (hbuf : ¬ marker <:+: unfinished sep buf) :
    Reception sep marker F buf (chunk :: chunks) r := by
  have hiff : Whole sep marker buf (chunk :: chunks) ↔
      Whole sep marker (buf ++ chunk) chunks := by rw [whole_cons, and_iff_right hbuf]
  cases h with
  | frame hF hG hf hc hne hwhole => exact .frame hF hG hf hc hne (hiff.trans hwhole)
  | broken h => exact .broken (hiff.not.mpr h)
  | closed hF h => exact .closed hF (hiff.mpr h)

/-- A frame at the head of the buffer. -/
lemma Reception.of_scanned {G : List (List α)} {f b : List α} {H : List (List α)}
    (hF : F = G ++ f :: H) (hG : ∀ g ∈ G, ¬ marker <:+: g) (hf : marker <:+: f)
    (hbuf : buf = encode sep (G ++ [f]) ++ b) (hrest : b ++ chunks.flatten = encode sep H)
    (hne : [] ∉ chunks) :
    Reception sep marker F buf chunks (.frame (encode sep (G ++ [f])), ⟨b, chunks⟩) :=
  .frame hF hG hf hrest hne (by rw [hbuf, whole_encode_append])

theorem receive_reception (hmarker : marker ≠ []) (hsep : sep ∉ marker)
    (hF : ∀ f ∈ F, sep ∉ f) (hne : [] ∉ chunks)
    (hbuf : buf ++ chunks.flatten = encode sep F) :
    Reception sep marker F buf chunks (receive sep marker buf chunks) := by
  induction chunks generalizing buf with
  | nil =>
    have hscan := scan_scanned hmarker hsep hF hbuf
    unfold receive
    revert hscan
    generalize scan sep marker buf = r
    rintro (⟨hF, hG, hf, hbuf, hrest⟩ | h | ⟨h, hnone⟩)
    · exact .of_scanned hF hG hf hbuf hrest hne
    · exact .broken fun hwhole => whole_nil.mp hwhole h
    · exact .closed (hnone rfl) (whole_nil.mpr h)
  | cons chunk chunks ih =>
    obtain ⟨hchunk, hchunks⟩ := List.ne_and_not_mem_of_not_mem_cons hne
    have hscan := scan_scanned hmarker hsep hF hbuf
    unfold receive
    revert hscan
    generalize scan sep marker buf = r
    rintro (⟨hF, hG, hf, hbuf, hrest⟩ | h | ⟨h, -⟩)
    · exact .of_scanned hF hG hf hbuf hrest hne
    · exact .broken fun hwhole => (whole_cons.mp hwhole).1 h
    · simp only [if_neg hchunk.symm]
      exact (ih hchunks (by simpa using hbuf)).read h

/-- The calls that return `n` frames and then find the stream at its end. -/
def Ends (n : ℕ) (results : List (Received α)) : Prop :=
  ∃ raws : List (List α), raws.length = n ∧ results = raws.map .frame ++ [.closed]

/-- When `n` frames are received up to the end of the stream, there are `n` fields with the
marker, and none of them was read in part. -/
lemma countP_of_ends {n : ℕ} {c : Conn α} (hmarker : marker ≠ []) (hsep : sep ∉ marker)
    (hF : ∀ f ∈ F, sep ∉ f) (hne : [] ∉ c.chunks)
    (hbuf : c.buf ++ c.chunks.flatten = encode sep F)
    (h : Ends n (receives sep marker (n + 1) c)) :
    F.countP (fun f => marker <:+: f) = n ∧ Whole sep marker c.buf c.chunks := by
  obtain ⟨raws, hlength, hraws⟩ := h
  induction n generalizing F c raws with
  | zero =>
    obtain rfl := List.length_eq_zero_iff.mp hlength
    have hreception := receive_reception hmarker hsep hF hne hbuf
    have hclosed : (receive sep marker c.buf c.chunks).1 = .closed := by
      simpa [receives] using hraws
    revert hreception hclosed
    generalize receive sep marker c.buf c.chunks = r
    rintro (_ | _ | ⟨hnone, hwhole⟩) hclosed
    · cases hclosed
    · cases hclosed
    · exact ⟨List.countP_eq_zero.mpr (by simpa using hnone), hwhole⟩
  | succ n ih =>
    obtain ⟨raw, raws, rfl⟩ := List.exists_cons_of_length_eq_add_one hlength
    have hreception := receive_reception hmarker hsep hF hne hbuf
    rw [receives_succ, List.map_cons, List.cons_append] at hraws
    obtain ⟨hhead, hraws⟩ := List.cons.inj hraws
    generalize receive sep marker c.buf c.chunks = r at hreception hhead hraws
    cases hreception with
    | frame hFG hG hf hc hne' hwhole =>
      subst hFG
      have htail := ih (fun f hf => hF f (by simp [hf])) hne' hc raws
        (by simpa using hlength) hraws
      refine ⟨?_, hwhole.mpr htail.2⟩
      rw [List.countP_append, List.countP_cons_of_pos (by simpa using hf), htail.1,
        List.countP_eq_zero.mpr (by simpa using hG)]
      omega
    | broken => cases hhead
    | closed => cases hhead

/-- The fields with the marker, of messages that have it in their last field. -/
lemma countP_fields (hms : ∀ m ∈ ms, marker <:+: m.2) :
    (ms.flatMap fun m => m.1 ++ [m.2]).countP (fun f => marker <:+: f) =
      (ms.map fun m => m.1.countP fun f => marker <:+: f).sum + ms.length := by
  induction ms with
  | nil => rfl
  | cons m ms ih =>
    have hlast : decide (marker <:+: m.2) = true := by simpa using hms m (by simp)
    have htail := ih fun m' hm' => hms m' (by simp [hm'])
    simp only [List.flatMap_cons, List.countP_append, List.countP_singleton, hlast, if_pos,
      htail, List.map_cons, List.sum_cons, List.length_cons]
    omega

/-- **Frames are received**: when the marker is in the last field of each message only and is
never read in part of a field, the messages are returned one by one. -/
theorem receives_eq {c : Conn α} (hmarker : marker ≠ []) (hsep : sep ∉ marker)
    (hms : ∀ m ∈ ms, (∀ g ∈ m.1, sep ∉ g) ∧ sep ∉ m.2 ∧ marker <:+: m.2)
    (hne : [] ∉ c.chunks) (hbuf : c.buf ++ c.chunks.flatten = (ms.map (Message.raw sep)).flatten)
    (hinit : ∀ m ∈ ms, ∀ g ∈ m.1, ¬ marker <:+: g)
    (hwhole : Whole sep marker c.buf c.chunks) :
    receives sep marker (ms.length + 1) c =
      ms.map (fun m => .frame (Message.raw sep m)) ++ [.closed] := by
  induction ms generalizing c with
  | nil =>
    have hreception := receive_reception (F := []) hmarker hsep (by simp) hne hbuf
    simp only [receives, List.length_nil]
    revert hreception
    generalize receive sep marker c.buf c.chunks = r
    rintro (⟨hF, -, -, -, -, -⟩ | h | _)
    · simp at hF
    · exact absurd hwhole h
    · rfl
  | cons m ms ih =>
    have hlast := (hms m (by simp)).2.2
    have hreception := receive_reception hmarker hsep (notMem_fields hms) hne
      (by rw [hbuf, encode_flatMap])
    rw [List.length_cons, receives_succ]
    revert hreception
    generalize receive sep marker c.buf c.chunks = r
    rintro (⟨hF, hG, hf, hc, hne', hiff⟩ | h | ⟨hnone, -⟩)
    · obtain ⟨rfl, rfl, rfl⟩ :=
        first_marked (by simpa using hF) (hinit m (by simp)) hG hlast hf
      have htail := ih (fun m' hm' => hms m' (by simp [hm'])) hne'
        (by rw [hc, encode_flatMap]) (fun m' hm' => hinit m' (by simp [hm'])) (hiff.mp hwhole)
      simp only [htail]
      rfl
    · exact absurd hwhole h
    · exact absurd hlast (hnone m.2 (by simp))

/-- **Framing**: one call for each message returns a frame, and the next one finds the end of
the stream, exactly when the marker is in no other field of a message and no chunk ends in a
field behind the marker. -/
theorem receives_iff (hmarker : marker ≠ []) (hsep : sep ∉ marker)
    (hms : ∀ m ∈ ms, (∀ g ∈ m.1, sep ∉ g) ∧ sep ∉ m.2 ∧ marker <:+: m.2)
    (hne : [] ∉ chunks) (hstream : chunks.flatten = (ms.map (Message.raw sep)).flatten) :
    Ends ms.length (receives sep marker (ms.length + 1) ⟨[], chunks⟩) ↔
      (∀ m ∈ ms, ∀ g ∈ m.1, ¬ marker <:+: g) ∧ Whole sep marker [] chunks := by
  constructor
  · intro h
    obtain ⟨hcount, hwhole⟩ := countP_of_ends (c := ⟨[], chunks⟩) hmarker hsep
      (notMem_fields hms) hne (by rw [encode_flatMap]; exact hstream) h
    rw [countP_fields fun m hm => (hms m hm).2.2] at hcount
    have hsum : (ms.map fun m => m.1.countP fun f => marker <:+: f).sum = 0 := by omega
    refine ⟨fun m hm g hg => ?_, hwhole⟩
    have hzero := List.sum_eq_zero_iff.mp hsum _ (List.mem_map_of_mem hm)
    simpa using List.countP_eq_zero.mp hzero g hg
  · rintro ⟨hinit, hwhole⟩
    refine ⟨ms.map (Message.raw sep), by simp, ?_⟩
    rw [receives_eq (c := ⟨[], chunks⟩) hmarker hsep hms hne hstream hinit hwhole, List.map_map]
    rfl

end Receive

end Framing
