/-
# The FIX client of the user interface

A model of `ui/fix_client.py`: `build_message`, `parse_fields` and the method `recv` of
`AsyncFixSession`, which cuts the messages out of the chunks that the socket delivers.  A
character stands for a byte.  `float` and `int` are parameters.

`recv` looks for `10=`, wherever it occurs, and expects the rest of that field to be there.
-/
import FixExchange.Lib.Framing
import Mathlib.Data.List.AList

namespace FixExchange

namespace FixClient

/-- The text of a message. -/
abbrev Text := List Char

/-- `SEP`. -/
def SEP : Char := '\x01'

/-- `TARGET`. -/
def TARGET : Text := "EXCHANGE".toList

/-- `encode("ascii")` does not fail. -/
def IsAscii (data : Text) : Prop := ∀ c ∈ data, c.toNat < 128

instance (data : Text) : Decidable (IsAscii data) :=
  decidable_of_iff (data.Forall fun c => c.toNat < 128) List.forall_iff_forall_mem

/-- `str` of a number. -/
def str (n : ℕ) : Text := Nat.toDigits 10 n

/-- `_checksum`: the sum of the bytes modulo 256, with three digits. -/
def checksum (data : Text) : Text :=
  let sum := (data.map Char.toNat).sum % 256
  [Nat.digitChar (sum / 100), Nat.digitChar (sum / 10 % 10), Nat.digitChar (sum % 10)]

/-- A field in a message, without the separator. -/
def pair (field : Text × Text) : Text := field.1 ++ '=' :: field.2

/-- The fields before the body. -/
def prefixFields (body : List (Text × Text)) : List (Text × Text) :=
  [("8".toList, "FIX.4.2".toList),
    ("9".toList, str (Framing.encode SEP (body.map pair)).length)]

/-- The message without the trailer. -/
def unsigned (body : List (Text × Text)) : Text :=
  Framing.encode SEP ((prefixFields body ++ body).map pair)

/-- The trailer. -/
def trailer (body : List (Text × Text)) : Text × Text := ("10".toList, checksum (unsigned body))

/-- All fields of the message with the body. -/
def allFields (body : List (Text × Text)) : List (Text × Text) :=
  prefixFields body ++ body ++ [trailer body]

/-- The message with the body. -/
def rawMessage (body : List (Text × Text)) : Text :=
  unsigned body ++ (pair (trailer body) ++ [SEP])

/-- The fields that every message starts with after `BodyLength`. -/
def header (msgType : Text) (seq : ℕ) (sender ts : Text) : List (Text × Text) :=
  [("35".toList, msgType), ("49".toList, sender), ("56".toList, TARGET),
    ("34".toList, str seq), ("52".toList, ts)]

/-- `build_message` at the time `ts`; encoding it fails for other characters than those of
ASCII. -/
def buildMessage (msgType : Text) (seq : ℕ) (bodyFields : List (Text × Text)) (sender ts : Text) :
    Option Text :=
  let raw := rawMessage (header msgType seq sender ts ++ bodyFields)
  if IsAscii raw then some raw else none

/-- The numbers of Python: `float`, which fails on some texts, and `int`, which fails on the
numbers that are not finite. -/
structure PyFloat (F : Type) where
  float : Text → Option F
  int : F → Option ℤ

/-- An entry of `md_entries`. -/
structure MdEntry (F : Type) where
  type : Text
  price : Option F := none
  qty : Option ℤ := none
  eid : Option Text := none
  date : Option Text := none
  time : Option Text := none
deriving DecidableEq, Repr

/-- The dictionary that `parse_fields` returns, with `md_entries` on its own. -/
structure Parsed (F : Type) where
  fields : AList fun _ : Text => Text
  mdEntries : Option (List (MdEntry F))

/-- `decode("ascii", errors="replace")`. -/
def decodeAscii (raw : Text) : Text := raw.map fun c => if c.toNat < 128 then c else '\ufffd'

/-- `partition("=")`, of a text that contains `=`. -/
def partition (field : Text) : Option (Text × Text) :=
  match field.dropWhile fun c => c ≠ '=' with
  | [] => none
  | _ :: val => some (field.takeWhile fun c => c ≠ '=', val)

/-- The fields of a message. -/
def pairs (raw : Text) : List (Text × Text) := ((decodeAscii raw).splitOn SEP).filterMap partition

variable {F : Type}

/-- The state of the loop over the group: the entries that are complete, and `cur` when it is
not empty. -/
abbrev MdScan (F : Type) := List (MdEntry F) × Option (MdEntry F)

/-- One round of the loop over the group. -/
def mdStep (py : PyFloat F) (state : MdScan F) (field : Text × Text) : Option (MdScan F) :=
  let (tag, val) := field
  if tag = "269".toList then some (state.1 ++ state.2.toList, some { type := val })
  else
    match state.2 with
    | none => some state
    | some cur =>
      if tag = "270".toList then
        (py.float val).map fun x => (state.1, some { cur with price := some x })
      else if tag = "271".toList then
        ((py.float val).bind py.int).map fun n => (state.1, some { cur with qty := some n })
      else if tag = "278".toList then some (state.1, some { cur with eid := some val })
      else if tag = "272".toList then some (state.1, some { cur with date := some val })
      else if tag = "273".toList then some (state.1, some { cur with time := some val })
      else some state

/-- The entries of a market data snapshot. -/
def mdEntries (py : PyFloat F) (fields : List (Text × Text)) : Option (List (MdEntry F)) :=
  (fields.foldlM (mdStep py) ([], none)).map fun state => state.1 ++ state.2.toList

/-- `parse_fields`; it fails when a number of a market data snapshot cannot be read. -/
def parseFields (py : PyFloat F) (raw : Text) : Option (Parsed F) :=
  let fields := (pairs raw).foldl (fun fields field => fields.insert field.1 field.2) ∅
  if fields.lookup "35".toList = some "W".toList then
    (mdEntries py (pairs raw)).map fun entries => ⟨fields, some entries⟩
  else some ⟨fields, none⟩

/-- What a call of `recv` does. -/
inductive Answer (F : Type) where
  | message (fields : Parsed F)
  /-- The exception of `index` or of `parse_fields`. -/
  | valueError
  | connectionError

/-- The marker that `recv` looks for. -/
def CHECKSUM : Text := "10=".toList

/-- The answer to what is cut out of the buffer. -/
def answer (py : PyFloat F) : Framing.Received Char → Answer F
  | .frame raw =>
    match parseFields py raw with
    | some fields => .message fields
    | none => .valueError
  | .broken => .valueError
  | .closed => .connectionError

/-- `AsyncFixSession.recv`, with the buffer and the chunks that the reader will deliver. -/
def recv (py : PyFloat F) (c : Framing.Conn Char) : Answer F × Framing.Conn Char :=
  let (received, c) := Framing.receive SEP CHECKSUM c.buf c.chunks
  (answer py received, c)

/-- The answers to `n` calls of `recv`. -/
def recvs (py : PyFloat F) : ℕ → Framing.Conn Char → List (Answer F)
  | 0, _ => []
  | n + 1, c => (recv py c).1 :: recvs py n (recv py c).2

/-- A well-formed message: the fields between `BodyLength` and `CheckSum`, which are made of
characters of ASCII and do not contain the separator. -/
structure FixMessage where
  body : List (Text × Text)
  ascii : ∀ f ∈ body, IsAscii (pair f)
  noSep : ∀ f ∈ body, SEP ∉ pair f

/-- The bytes of a message, with its length and checksum. -/
def FixMessage.raw (m : FixMessage) : Text := rawMessage m.body

/-- The last value of a tag. -/
def value (fields : List (Text × Text)) (tag : Text) : Option Text :=
  (fields.reverse.find? fun f => f.1 = tag).map Prod.snd

/-- The number in a field of an entry can be read: a price or a size. -/
def PyFloat.Reads (py : PyFloat F) (field : Text × Text) : Prop :=
  (field.1 = "270".toList → (py.float field.2).isSome) ∧
    (field.1 = "271".toList → ((py.float field.2).bind py.int).isSome)

/-- The numbers of a market data snapshot can be read, in the fields behind the start of an
entry. -/
def Readable (py : PyFloat F) (fields : List (Text × Text)) : Prop :=
  value fields "35".toList = some "W".toList →
    ∀ type field, [("269".toList, type), field].Sublist fields → py.Reads field

/-- The dictionary of a message: what `parse_fields` makes of its bytes.  Where no tag contains
a `=`, it has the last value of every tag. -/
def Delivered (py : PyFloat F) (m : FixMessage) (p : Parsed F) : Prop :=
  parseFields py m.raw = some p ∧
    ((∀ f ∈ m.body, '=' ∉ f.1) → ∀ tag, p.fields.lookup tag = value (allFields m.body) tag)

section Fields

variable {body fields : List (Text × Text)} {field : Text × Text} {tag val : Text} {c : Char}

lemma ascii_of_isDigit (h : c.isDigit = true) : c.toNat < 128 ∧ c ≠ SEP ∧ c ≠ '=' := by
  have hrange : 48 ≤ c.toNat ∧ c.toNat ≤ 57 := by
    simpa [Char.isDigit, UInt32.le_iff_toNat_le] using h
  refine ⟨by omega, ?_, ?_⟩ <;>
  · rintro rfl
    revert hrange
    decide

lemma isDigit_of_mem_str {n : ℕ} (h : c ∈ str n) : c.isDigit = true :=
  Nat.isDigit_of_mem_toDigits (by decide) (by decide) h

lemma isDigit_of_mem_checksum {data : Text} (h : c ∈ checksum data) : c.isDigit = true := by
  have hdigit : ∀ n < 10, (Nat.digitChar n).isDigit = true := by decide
  simp only [checksum, List.mem_cons, List.not_mem_nil, or_false] at h
  rcases h with rfl | rfl | rfl
  · exact hdigit _ (by omega)
  · exact hdigit _ (by omega)
  · exact hdigit _ (by omega)

/-- The fields around the body are made of characters of ASCII and do not contain the
separator. -/
lemma pair_of_mem_frame (h : field ∈ prefixFields body ∨ field = trailer body) :
    ∀ c ∈ pair field, c.toNat < 128 ∧ c ≠ SEP := by
  intro c hc
  rcases h with h | rfl
  · simp only [prefixFields, List.mem_cons, List.not_mem_nil, or_false] at h
    rcases h with rfl | rfl
    · have hplain : (pair ("8".toList, "FIX.4.2".toList)).Forall fun c => c.toNat < 128 ∧ c ≠ SEP := by
        decide
      exact List.forall_iff_forall_mem.mp hplain c hc
    · rcases List.mem_append.mp hc with hc | hc
      · have hplain : "9".toList.Forall fun c => c.toNat < 128 ∧ c ≠ SEP := by decide
        exact List.forall_iff_forall_mem.mp hplain c hc
      · rcases List.mem_cons.mp hc with rfl | hc
        · decide
        · have hdigit := ascii_of_isDigit (isDigit_of_mem_str hc)
          exact ⟨hdigit.1, hdigit.2.1⟩
  · rcases List.mem_append.mp hc with hc | hc
    · have hplain : "10".toList.Forall fun c => c.toNat < 128 ∧ c ≠ SEP := by decide
      exact List.forall_iff_forall_mem.mp hplain c hc
    · rcases List.mem_cons.mp hc with rfl | hc
      · decide
      · have hdigit := ascii_of_isDigit (isDigit_of_mem_checksum hc)
        exact ⟨hdigit.1, hdigit.2.1⟩

/-- The marker is not in the fields before the body. -/
lemma prefixFields_unmarked (h : field ∈ prefixFields body) : ¬ CHECKSUM <:+: pair field := by
  simp only [prefixFields, List.mem_cons, List.not_mem_nil, or_false] at h
  rcases h with rfl | rfl
  · decide
  · rintro ⟨front, back, h⟩
    have hequals : '=' ∉ str (Framing.encode SEP (body.map pair)).length := fun hmem =>
      (ascii_of_isDigit (isDigit_of_mem_str hmem)).2.2 rfl
    revert hequals h
    generalize str (Framing.encode SEP (body.map pair)).length = digits
    intro h hequals
    have hmarker : CHECKSUM = ['1', '0', '='] := by decide
    have hnine : "9".toList = ['9'] := by decide
    rw [hmarker, pair, hnine] at h
    -- the length is behind the only `=` of the field
    match front with
    | [] => simp at h
    | [a] => simp at h
    | a :: b :: front =>
      refine hequals ?_
      simp only [List.cons_append, List.cons.injEq, List.nil_append] at h
      rw [← h.2.2]
      simp

lemma marked_trailer : CHECKSUM <:+: pair (trailer body) := by
  have hmarker : CHECKSUM = "10".toList ++ ['='] := by decide
  rw [hmarker, trailer, pair]
  exact ⟨[], checksum (unsigned body), by simp⟩

/-- The text before the first `=` and behind it. -/
lemma partition_pair (h : '=' ∉ field.1) : partition (pair field) = some field := by
  have hall : ∀ c ∈ field.1, decide (c ≠ '=') = true := by
    intro c hc
    simpa using fun heq : c = '=' => h (heq ▸ hc)
  rw [partition, pair, List.dropWhile_append_of_pos hall, List.takeWhile_append_of_pos hall]
  simp

/-- The fields of a stream are split, and each one at its first `=`. -/
lemma pairs_encode (h : ∀ f ∈ fields, ∀ c ∈ pair f, c.toNat < 128 ∧ c ≠ SEP) :
    pairs (Framing.encode SEP (fields.map pair)) = fields.filterMap fun f => partition (pair f) := by
  have hsep : ∀ f ∈ fields.map pair, SEP ∉ f := by
    intro f hf hmem
    obtain ⟨field, hfield, rfl⟩ := List.mem_map.mp hf
    exact (h field hfield SEP hmem).2 rfl
  have hascii : ∀ c ∈ Framing.encode SEP (fields.map pair), c.toNat < 128 := by
    intro c hc
    obtain ⟨f, hf, hc⟩ := List.mem_flatMap.mp hc
    obtain ⟨field, hfield, rfl⟩ := List.mem_map.mp hf
    rcases List.mem_append.mp hc with hc | hc
    · exact (h field hfield c hc).1
    · obtain rfl := List.mem_singleton.mp hc
      decide
  have hdecode : decodeAscii (Framing.encode SEP (fields.map pair)) =
      Framing.encode SEP (fields.map pair) := by
    conv_rhs => rw [← List.map_id (Framing.encode SEP (fields.map pair))]
    exact List.map_congr_left fun c hc => if_pos (hascii c hc)
  rw [pairs, hdecode, Framing.splitOn_encode hsep, List.filterMap_append, List.filterMap_map]
  simp [partition, Function.comp_def]

lemma value_append (l l' : List (Text × Text)) (tag : Text) :
    value (l ++ l') tag = (value l' tag).or (value l tag) := by
  simp [value, List.find?_append, Option.map_or]

lemma value_eq_none (h : ∀ f ∈ fields, f.1 ≠ tag) : value fields tag = none := by
  rw [value, List.find?_eq_none.mpr (by simpa using h), Option.map_none]

lemma lookup_foldl_insert (fields : List (Text × Text)) (dict : AList fun _ : Text => Text)
    (tag : Text) :
    (fields.foldl (fun dict field => dict.insert field.1 field.2) dict).lookup tag =
      (value fields tag).or (dict.lookup tag) := by
  induction fields using List.reverseRecOn with
  | nil => simp [value]
  | append_singleton fields field ih =>
    rw [List.foldl_append, List.foldl_cons, List.foldl_nil]
    by_cases htag : field.1 = tag
    · subst htag
      simp [value]
    · rw [AList.lookup_insert_ne (Ne.symm htag), ih]
      simp [value, htag]

end Fields

section Messages

variable (m : FixMessage)

lemma frame_fields {field : Text × Text} (h : field ∈ allFields m.body) :
    ∀ c ∈ pair field, c.toNat < 128 ∧ c ≠ SEP := by
  rw [allFields, List.mem_append, List.mem_append, List.mem_singleton] at h
  rcases h with (h | h) | h
  · exact pair_of_mem_frame (.inl h)
  · exact fun c hc => ⟨m.ascii field h c hc, fun heq => m.noSep field h (heq ▸ hc)⟩
  · exact pair_of_mem_frame (.inr h)

/-- A message is the stream of its fields. -/
lemma raw_eq_encode : m.raw = Framing.encode SEP ((allFields m.body).map pair) := by
  simp [FixMessage.raw, rawMessage, unsigned, allFields]

lemma raw_ascii : IsAscii m.raw := by
  intro c hc
  rw [raw_eq_encode, Framing.encode, List.mem_flatMap] at hc
  obtain ⟨f, hf, hc⟩ := hc
  obtain ⟨field, hfield, rfl⟩ := List.mem_map.mp hf
  rcases List.mem_append.mp hc with hc | hc
  · exact (frame_fields m hfield c hc).1
  · obtain rfl := List.mem_singleton.mp hc
    decide

/-- The bytes that `build_message` returns are those of a well-formed message. -/
theorem buildMessage_eq {msgType sender ts : Text} {seq : ℕ} {bodyFields : List (Text × Text)}
    (h : m.body = header msgType seq sender ts ++ bodyFields) :
    buildMessage msgType seq bodyFields sender ts = some m.raw := by
  have hascii := raw_ascii m
  rw [FixMessage.raw, h] at hascii
  rw [buildMessage, if_pos hascii, FixMessage.raw, h]

/-- Without a `=` in a tag, the fields are read as they were written. -/
lemma pairs_raw_of_plain (h : ∀ f ∈ m.body, '=' ∉ f.1) : pairs m.raw = allFields m.body := by
  rw [raw_eq_encode, pairs_encode fun f hf => frame_fields m hf]
  have hall : ∀ f ∈ allFields m.body, partition (pair f) = some f := by
    intro f hf
    refine partition_pair ?_
    simp only [allFields, prefixFields, trailer, List.mem_append, List.mem_cons, List.not_mem_nil,
      or_false] at hf
    rcases hf with ((rfl | rfl) | hf) | rfl
    · decide
    · show '=' ∉ "9".toList
      decide
    · exact h f hf
    · show '=' ∉ "10".toList
      decide
  rw [List.filterMap_congr hall, List.filterMap_some]

end Messages

section Recv

variable (py : PyFloat F) {ms : List FixMessage} {chunks : List (List Char)}

lemma mdStep_isSome (state : MdScan F) (field : Text × Text) :
    (mdStep py state field).isSome ↔ (state.2.isSome → py.Reads field) := by
  obtain ⟨entries, cur⟩ := state
  obtain ⟨tag, val⟩ := field
  obtain rfl | htype := eq_or_ne tag "269".toList
  · simp [mdStep, PyFloat.Reads]
  · cases cur with
    | none => simp [mdStep, htype, -String.reduceToList]
    | some cur =>
      obtain rfl | hprice := eq_or_ne tag "270".toList
      · simp [mdStep, PyFloat.Reads]
      · obtain rfl | hqty := eq_or_ne tag "271".toList
        · simp [mdStep, PyFloat.Reads, -Option.map_bind]
        · simp only [mdStep, if_neg htype, if_neg hprice, if_neg hqty, PyFloat.Reads]
          split_ifs <;> simp [hprice, hqty, -String.reduceToList]

/-- An entry has been started after a field with tag 269, and stays so. -/
lemma mdStep_started {state state' : MdScan F} {field : Text × Text}
    (h : mdStep py state field = some state') :
    state'.2.isSome ↔ state.2.isSome ∨ field.1 = "269".toList := by
  obtain ⟨entries, cur⟩ := state
  obtain ⟨tag, val⟩ := field
  obtain rfl | htype := eq_or_ne tag "269".toList
  · simp only [mdStep, if_pos, Option.some.injEq] at h
    subst h
    simp
  · cases cur with
    | none =>
      simp only [mdStep, if_neg htype, Option.some.injEq] at h
      subst h
      simp [htype, -String.reduceToList]
    | some cur =>
      simp only [mdStep, if_neg htype] at h
      split_ifs at h
      · obtain ⟨x, -, rfl⟩ := Option.map_eq_some_iff.mp h
        simp
      · obtain ⟨n, -, rfl⟩ := Option.map_eq_some_iff.mp h
        simp
      all_goals
        obtain rfl := Option.some.inj h
        simp

/-- The loop succeeds when the numbers of the entries can be read. -/
lemma foldlM_isSome (fields : List (Text × Text)) (state : MdScan F) :
    (fields.foldlM (mdStep py) state).isSome ↔ ∀ field,
      (state.2.isSome ∧ field ∈ fields) ∨
        (∃ type, [("269".toList, type), field].Sublist fields) → py.Reads field := by
  induction fields generalizing state with
  | nil => simp
  | cons field fields ih =>
    rw [List.foldlM_cons]
    cases hstep : mdStep py state field with
    | none =>
      have hreads := (mdStep_isSome py state field).not.mp (by simp [hstep])
      simp only [Option.bind_eq_bind, Option.bind_none, Option.isSome_none, Bool.false_eq_true,
        false_iff]
      intro h
      exact hreads fun hstarted => h field (.inl ⟨hstarted, by simp⟩)
    | some state' =>
      have hreads := (mdStep_isSome py state field).mp (by simp [hstep])
      rw [Option.bind_eq_bind, Option.bind_some, ih, mdStep_started py hstep]
      constructor
      · rintro h field' (⟨hstarted, hmem⟩ | ⟨type, hsub⟩)
        · rcases List.mem_cons.mp hmem with rfl | hmem
          · exact hreads hstarted
          · exact h field' (.inl ⟨.inl hstarted, hmem⟩)
        · rcases List.cons_sublist_cons'.mp hsub with hlater | ⟨rfl, hhere⟩
          · exact h field' (.inr ⟨type, hlater⟩)
          · exact h field' (.inl ⟨.inr rfl, List.singleton_sublist.mp hhere⟩)
      · rintro h field' (⟨hstarted | htype, hmem⟩ | ⟨type, hsub⟩)
        · exact h field' (.inl ⟨hstarted, List.mem_cons_of_mem _ hmem⟩)
        · refine h field' (.inr ⟨field.2, ?_⟩)
          rw [← htype]
          exact (List.singleton_sublist.mpr hmem).cons_cons field
        · exact h field' (.inr ⟨type, hsub.cons field⟩)

/-- `parse_fields` fails on unreadable numbers only. -/
lemma parseFields_isSome (raw : Text) :
    (parseFields py raw).isSome ↔ Readable py (pairs raw) := by
  have hdict : ((pairs raw).foldl (fun dict field => dict.insert field.1 field.2)
      (∅ : AList fun _ : Text => Text)).lookup "35".toList = value (pairs raw) "35".toList := by
    rw [lookup_foldl_insert]
    simp
  unfold parseFields Readable
  simp only [hdict]
  split_ifs with htype
  · rw [Option.isSome_map, mdEntries, Option.isSome_map, foldlM_isSome]
    simp only [Option.isSome_none, Bool.false_eq_true, false_and, false_or, forall_exists_index]
    exact ⟨fun h _ type field hsub => h field type hsub, fun h field type => h htype type field⟩
  · simp [htype, -String.reduceToList]

lemma parseFields_raw {m : FixMessage} {p : Parsed F} (h : parseFields py m.raw = some p) :
    Delivered py m p := by
  refine ⟨h, fun hplain tag => ?_⟩
  rw [← pairs_raw_of_plain m hplain]
  have hdict := lookup_foldl_insert (pairs m.raw) ∅ tag
  rw [AList.lookup_empty, Option.or_none] at hdict
  simp only [parseFields] at h
  split_ifs at h
  · obtain ⟨entries, -, rfl⟩ := Option.map_eq_some_iff.mp h
    exact hdict
  · obtain rfl := Option.some.inj h
    exact hdict

lemma recvs_eq_map (n : ℕ) (c : Framing.Conn Char) :
    recvs py n c = (Framing.receives SEP CHECKSUM n c).map (answer py) := by
  induction n generalizing c with
  | zero => rfl
  | succ n ih => rw [recvs, ih, Framing.receives_succ]; rfl

/-- The fields of a message as a frame, which the trailer ends. -/
def FixMessage.frame (m : FixMessage) : Framing.Message Char :=
  ((prefixFields m.body ++ m.body).map pair, pair (trailer m.body))

lemma frame_raw (m : FixMessage) : Framing.Message.raw SEP m.frame = m.raw := by
  rw [raw_eq_encode]
  simp [Framing.Message.raw, FixMessage.frame, allFields]

lemma frame_framed (m : FixMessage) :
    (∀ g ∈ m.frame.1, SEP ∉ g) ∧ SEP ∉ m.frame.2 ∧ CHECKSUM <:+: m.frame.2 := by
  refine ⟨fun g hg hmem => ?_, fun hmem => ?_, marked_trailer⟩
  · obtain ⟨field, hfield, rfl⟩ := List.mem_map.mp hg
    exact (frame_fields m (List.mem_append_left _ hfield) SEP hmem).2 rfl
  · exact (frame_fields m (by simp [allFields]) SEP hmem).2 rfl

lemma frame_unmarked (m : FixMessage) :
    (∀ g ∈ m.frame.1, ¬ CHECKSUM <:+: g) ↔ ∀ f ∈ m.body, ¬ CHECKSUM <:+: pair f := by
  constructor
  · intro h f hf
    exact h (pair f) (List.mem_map_of_mem (List.mem_append_right _ hf))
  · intro h g hg
    obtain ⟨f, hf, rfl⟩ := List.mem_map.mp hg
    rcases List.mem_append.mp hf with hf | hf
    · exact prefixFields_unmarked hf
    · exact h f hf

/-- Answers that are messages up to the end of the stream come from frames. -/
lemma ends_of_answers {ps : List (Parsed F)} {received : List (Framing.Received Char)}
    (h : received.map (answer py) = ps.map .message ++ [.connectionError]) :
    Framing.Ends ps.length received := by
  induction ps generalizing received with
  | nil =>
    obtain ⟨r, rfl, hr⟩ := List.map_eq_singleton_iff.mp h
    refine ⟨[], rfl, ?_⟩
    cases r with
    | frame raw =>
      rw [answer] at hr
      split at hr <;> cases hr
    | broken => cases hr
    | closed => rfl
  | cons p ps ih =>
    obtain ⟨r, rest, rfl, hr, hrest⟩ := List.map_eq_cons_iff.mp h
    obtain ⟨raws, hlength, rfl⟩ := ih hrest
    cases r with
    | frame raw => exact ⟨raw :: raws, by simp [hlength], rfl⟩
    | broken => cases hr
    | closed => cases hr

/-- The answers to the frames of some messages, when their numbers can be read. -/
lemma delivered_of_readable (h : ∀ m ∈ ms, Readable py (pairs m.raw)) :
    ∃ ps, List.Forall₂ (Delivered py) ms ps ∧
      ms.map (fun m => answer py (.frame m.raw)) = ps.map .message := by
  induction ms with
  | nil => exact ⟨[], .nil, rfl⟩
  | cons m ms ih =>
    obtain ⟨ps, hps, hanswers⟩ := ih fun m' hm' => h m' (by simp [hm'])
    obtain ⟨p, hp⟩ := Option.isSome_iff_exists.mp
      ((parseFields_isSome py m.raw).mpr (h m (by simp)))
    refine ⟨p :: ps, .cons (parseFields_raw py hp) hps, ?_⟩
    rw [List.map_cons, List.map_cons, hanswers, answer, hp]

lemma readable_of_delivered {ps : List (Parsed F)} (h : List.Forall₂ (Delivered py) ms ps) :
    ∀ m ∈ ms, Readable py (pairs m.raw) := by
  induction h with
  | nil => simp
  | @cons m p ms ps hp _ ih =>
    intro m' hm'
    rcases List.mem_cons.mp hm' with rfl | hm'
    · exact (parseFields_isSome py m'.raw).mp (by simp [hp.1])
    · exact ih m' hm'

/-- **Reading messages from a stream.**  However the concatenation of some messages is cut into
chunks, the calls of `recv` return the messages one by one, and then report the end of the
stream, exactly when no field before the trailer contains `10=`, no chunk ends in a field behind
`10=`, and the numbers of the market data snapshots can be read. -/
theorem recv_framing_iff (hne : [] ∉ chunks)
    (hstream : chunks.flatten = (ms.map FixMessage.raw).flatten) :
    (∃ ps, List.Forall₂ (Delivered py) ms ps ∧
        recvs py (ms.length + 1) ⟨[], chunks⟩ = ps.map .message ++ [.connectionError]) ↔
      (∀ m ∈ ms, ∀ f ∈ m.body, ¬ CHECKSUM <:+: pair f) ∧
      (∀ read, read <+: chunks → ¬ CHECKSUM <:+: Framing.unfinished SEP read.flatten) ∧
      ∀ m ∈ ms, Readable py (pairs m.raw) := by
  have hmarker : CHECKSUM ≠ [] := by decide
  have hsep : SEP ∉ CHECKSUM := by decide
  have hframes : ∀ m ∈ ms.map FixMessage.frame,
      (∀ g ∈ m.1, SEP ∉ g) ∧ SEP ∉ m.2 ∧ CHECKSUM <:+: m.2 := by
    intro m hm
    obtain ⟨m, -, rfl⟩ := List.mem_map.mp hm
    exact frame_framed m
  have hraws : ((ms.map FixMessage.frame).map (Framing.Message.raw SEP)) =
      ms.map FixMessage.raw := by
    rw [List.map_map]
    exact List.map_congr_left fun m _ => frame_raw m
  rw [← hraws] at hstream
  have hiff := Framing.receives_iff hmarker hsep hframes hne hstream
  rw [List.length_map, List.forall_mem_map] at hiff
  simp only [frame_unmarked, Framing.Whole, List.nil_append] at hiff
  constructor
  · rintro ⟨ps, hps, hrecvs⟩
    rw [recvs_eq_map] at hrecvs
    have hends := ends_of_answers py hrecvs
    rw [← hps.length_eq] at hends
    obtain ⟨hbody, hchunks⟩ := hiff.mp hends
    exact ⟨hbody, hchunks, readable_of_delivered py hps⟩
  · rintro ⟨hbody, hchunks, hreadable⟩
    obtain ⟨ps, hps, hanswers⟩ := delivered_of_readable py hreadable
    refine ⟨ps, hps, ?_⟩
    have hreceives := Framing.receives_eq (c := ⟨[], chunks⟩) hmarker hsep hframes hne hstream
      (by simpa only [List.forall_mem_map, frame_unmarked] using hbody) hchunks
    rw [List.length_map, List.map_map] at hreceives
    rw [recvs_eq_map, hreceives, List.map_append, List.map_map, ← hanswers]
    refine congrArg₂ (· ++ ·) (List.map_congr_left fun m _ => ?_) rfl
    rw [Function.comp_apply, Function.comp_apply, frame_raw]

end Recv

namespace Sample

/-- Numbers that are written with digits only. -/
def digits : PyFloat ℤ where
  float text :=
    if text ≠ [] ∧ text.all Char.isDigit = true then
      some (text.foldl (fun n c => 10 * n + (c.toNat - 48 : ℕ)) 0)
    else none
  int n := some n

/-- A snapshot with one entry. -/
def snapshot : FixMessage where
  body := header "W".toList 1 "EXCHANGE".toList "20260101-00:00:00".toList ++
    [("55".toList, "X".toList), ("268".toList, "1".toList), ("269".toList, "0".toList),
      ("270".toList, "10".toList), ("271".toList, "5".toList)]
  ascii := by decide +kernel
  noSep := by decide +kernel

/-- Two of them, cut in a body and behind the first character of a trailer. -/
def chunks : List Text :=
  let raw := snapshot.raw
  [raw.take 40, raw.drop 40 ++ raw.take (raw.length - 6), raw.drop (raw.length - 6)]

end Sample

/-- Two messages, which are cut in a body and in a trailer, before the end of its `10=`. -/
theorem recv_framing_sample :
    ∃ ps, List.Forall₂ (Delivered Sample.digits) [Sample.snapshot, Sample.snapshot] ps ∧
      recvs Sample.digits 3 ⟨[], Sample.chunks⟩ = ps.map .message ++ [.connectionError] := by
  refine (recv_framing_iff Sample.digits (by decide +kernel) (by decide +kernel)).mpr
    ⟨by decide +kernel, ?_, ?_⟩
  · have hwhole : Framing.Whole SEP CHECKSUM [] Sample.chunks := by
      simp only [Sample.chunks, Framing.whole_cons, Framing.whole_nil]
      decide +kernel
    simpa [Framing.Whole] using hwhole
  · have hread : (parseFields Sample.digits Sample.snapshot.raw).isSome := by decide +kernel
    have hreadable := (parseFields_isSome Sample.digits Sample.snapshot.raw).mp hread
    simp [hreadable]

/-- A message whose last byte arrives in a chunk of its own makes every call fail. -/
theorem split_trailer_fails :
    [Sample.snapshot.raw.dropLast, [SEP]].flatten = [Sample.snapshot.raw].flatten ∧
      recvs Sample.digits 2 ⟨[], [Sample.snapshot.raw.dropLast, [SEP]]⟩ =
        [.valueError, .valueError] ∧
      ¬ ∃ ps, List.Forall₂ (Delivered Sample.digits) [Sample.snapshot] ps ∧
        recvs Sample.digits 2 ⟨[], [Sample.snapshot.raw.dropLast, [SEP]]⟩ =
          ps.map .message ++ [.connectionError] := by
  have hbroken : Framing.receives SEP CHECKSUM 2 ⟨[], [Sample.snapshot.raw.dropLast, [SEP]]⟩ =
      [.broken, .broken] := by decide +kernel
  have hrecvs : recvs Sample.digits 2 ⟨[], [Sample.snapshot.raw.dropLast, [SEP]]⟩ =
      [.valueError, .valueError] := by
    rw [recvs_eq_map, hbroken]
    rfl
  refine ⟨by decide +kernel, hrecvs, ?_⟩
  rintro ⟨ps, hps, hanswers⟩
  rw [hrecvs] at hanswers
  match ps with
  | [] => cases hps
  | p :: ps => cases (List.cons.inj hanswers).1

end FixClient

end FixExchange
