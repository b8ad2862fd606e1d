/-
# The latency statistics

A model of `src/gateway/LatencyStats.h`, of `get_stats` and `reset_stats` of the gateway, which the
admin thread calls for `STATS` and `RESET-STATS`, and of `_admin_cmd` and `fetch_stats` of
`bench/bench.py`.  A character stands for a byte, and the times that are measured are given.

The threads of the sessions and the engine thread record samples while the admin thread goes from
one kind of latency to the next.  The benchmark reads, of each kind, the first samples that were
recorded between the last reset of the kind and a moment, however the response is cut
(`stats_round_trip`); the moments of the kinds follow one another.
-/
import FixExchange.Engine.Order
import FixExchange.Lib.Ladder
import FixExchange.Lib.LineReader
import FixExchange.Lib.Transition
import FixExchange.Ui.FixClient

namespace FixExchange

/-- `gateway::LatencySample`. -/
structure LatencySample where
  totalNs : ℤ
  queueWaitNs : ℤ
deriving DecidableEq, Repr

/-- `gateway::LatencyStats`. -/
structure LatencyStats where
  samples : List LatencySample := []
  capacity : ℕ := 2000
deriving DecidableEq, Repr

namespace LatencyStats

/-- An integer as a stream shows it. -/
def decimal : ℤ → List Char
  | .ofNat n => FixClient.str n
  | .negSucc n => '-' :: FixClient.str (n + 1)

/-- Integers with commas between them. -/
def commas (values : List ℤ) : List Char := [','].intercalate (values.map decimal)

def record (s : LatencyStats) (sample : LatencySample) : LatencyStats :=
  if s.samples.length < s.capacity then { s with samples := s.samples ++ [sample] } else s

def reset (s : LatencyStats) : LatencyStats := { s with samples := [] }

/-- `serialize`. -/
def serialize (s : LatencyStats) (kind : String) : List Char :=
  if s.samples = [] then []
  else
    (kind ++ "_TOTAL_NS ").toList ++ commas (s.samples.map LatencySample.totalNs) ++ ['\n'] ++
      ((kind ++ "_QUEUE_NS ").toList ++ commas (s.samples.map LatencySample.queueWaitNs) ++ ['\n'])

end LatencyStats

/-- The kinds of latencies that the gateway keeps. -/
inductive LatencyKind
  | ack | cancel | fill
deriving DecidableEq, Repr

namespace LatencyKind

def label : LatencyKind → String
  | .ack => "ACK"
  | .cancel => "CANCEL"
  | .fill => "FILL"

/-- The kinds in the order of `get_stats` and `reset_stats`. -/
def all : List LatencyKind := [.ack, .cancel, .fill]

end LatencyKind

/-- `get_stats`, when nothing is recorded meanwhile. -/
def getStats (stats : LatencyKind → LatencyStats) : List Char :=
  LatencyKind.all.flatMap (fun kind => (stats kind).serialize kind.label) ++ "END\n".toList

/-! ## The threads -/

/-- Where the admin thread is: between two commands, in `get_stats` with the text so far and the
kinds to come, or in `reset_stats`. -/
inductive StatsThread
  | idle
  | collecting (out : List Char) (kinds : List LatencyKind)
  | resetting (kinds : List LatencyKind)

/-- The statistics of the gateway, and the responses to `STATS`. -/
structure StatsServer where
  stats : LatencyKind → LatencyStats
  admin : StatsThread
  reports : List (List Char)

inductive StatsAction
  | record (kind : LatencyKind) (sample : LatencySample)
  /-- The command `STATS`. -/
  | stats
  /-- The command `RESET-STATS`. -/
  | resetStats
  /-- The admin thread goes on: it locks the next kind, or sends the response. -/
  | admin

/-- What happens to the samples. -/
inductive StatsEvent
  | recorded (kind : LatencyKind) (sample : LatencySample)
  | cleared (kind : LatencyKind)

namespace StatsServer

def start : StatsServer := ⟨fun _ => {}, .idle, []⟩

/-- One step. -/
def step (s : StatsServer) : StatsAction → Option StatsServer
  | .record kind sample =>
    some { s with stats := Function.update s.stats kind ((s.stats kind).record sample) }
  | .stats =>
    match s.admin with
    | .idle => some { s with admin := .collecting [] LatencyKind.all }
    | _ => none
  | .resetStats =>
    match s.admin with
    | .idle => some { s with admin := .resetting LatencyKind.all }
    | _ => none
  | .admin =>
    match s.admin with
    | .idle => none
    | .collecting out (kind :: kinds) =>
      some { s with admin := .collecting (out ++ (s.stats kind).serialize kind.label) kinds }
    | .collecting out [] =>
      some { s with admin := .idle, reports := s.reports ++ [out ++ "END\n".toList] }
    | .resetting (kind :: kinds) =>
      some { s with
        stats := Function.update s.stats kind (s.stats kind).reset
        admin := .resetting kinds }
    | .resetting [] => some { s with admin := .idle }

/-- `RunTo as s`: the actions `as` lead from the start to `s`. -/
abbrev RunTo (as : List StatsAction) (s : StatsServer) : Prop :=
  Transition.Reaches step (fun _ _ => True) start as s

/-- What a step does to the samples. -/
def events (s : StatsServer) : StatsAction → List StatsEvent
  | .record kind sample => [.recorded kind sample]
  | .admin =>
    match s.admin with
    | .resetting (kind :: _) => [.cleared kind]
    | _ => []
  | .stats | .resetStats => []

end StatsServer

/-- The samples of a kind since it has been cleared, behind the ones before. -/
def samplesAfter (kind : LatencyKind) (samples : List LatencySample) :
    List StatsEvent → List LatencySample :=
  List.foldl (fun l e =>
    match e with
    | .recorded k sample => if k = kind then l ++ [sample] else l
    | .cleared k => if k = kind then [] else l) samples

/-- The samples of a kind that actions have recorded since the last reset of the kind. -/
def recordedBy (kind : LatencyKind) (as : List StatsAction) : List LatencySample :=
  samplesAfter kind [] (Transition.collect StatsServer.step StatsServer.events StatsServer.start as)

/-! ## The benchmark -/

namespace Bench

variable {F : Type}

/-- `_admin_cmd`, which receives until the mark is in the data; it fails when nothing more comes. -/
def adminCmd (mark data : List Char) : List (List Char) → Option (List Char)
  | [] => none
  | chunk :: chunks =>
    if chunk = [] then some data
    else if mark <:+: data ++ chunk then some (data ++ chunk)
    else adminCmd mark (data ++ chunk) chunks

/-- `str.isspace`, on ASCII. -/
def isSpace (c : Char) : Bool := 9 ≤ c.toNat && c.toNat ≤ 13 || 28 ≤ c.toNat && c.toNat ≤ 32

/-- The characters that end a line for `splitlines`, on ASCII. -/
def isLineEnd (c : Char) : Bool := 10 ≤ c.toNat && c.toNat ≤ 13 || 28 ≤ c.toNat && c.toNat ≤ 30

/-- `strip`. -/
def strip (line : List Char) : List Char := (line.dropWhile isSpace).rdropWhile isSpace

def digits (ds : List Char) : Option ℕ :=
  if ds ≠ [] ∧ ds.all Char.isDigit then some (Nat.ofDigitChars 10 ds 0) else none

/-- `int`, on a text without blanks, plus signs and underscores. -/
def int (v : List Char) : Option ℤ :=
  match v with
  | '-' :: ds => (digits ds).map fun n : ℕ => -(n : ℤ)
  | ds => (digits ds).map fun n : ℕ => (n : ℤ)

/-- The loop of `fetch_stats` on a line, where `micros` is the division by `1000.0`. -/
def readLine (micros : ℤ → F) (line : List Char) : Option (String × List F) :=
  let line := strip line
  if line = [] ∨ line = "END".toList then none
  else
    (LineReader.takeLine ' ' line).bind fun parts =>
      (((parts.2.splitOn ',').filter (· ≠ [])).mapM int).map fun values =>
        (String.ofList parts.1, values.map micros)

/-- `fetch_stats`, on what `_admin_cmd` has received.  `splitlines` takes a carriage return and a
line feed as one end; the empty line that is left between them here is skipped. -/
def fetchStats (micros : ℤ → F) (raw : List Char) : StrMap (List F) :=
  Ladder.ofPairs ((raw.splitOnP isLineEnd).filterMap (readLine micros))

end Bench

/-! ## What the gateway holds -/

namespace LatencyStats

variable {l : List LatencySample} {values : List ℤ} {c : Char}

lemma record_take (l : List LatencySample) (n : ℕ) (sample : LatencySample) :
    record ⟨l.take n, n⟩ sample = ⟨(l ++ [sample]).take n, n⟩ := by
  by_cases h : l.length < n
  · rw [record, List.take_of_length_le h.le, if_pos h, List.take_of_length_le (by simpa using h)]
  · have hn : n ≤ l.length := not_lt.mp h
    rw [record, if_neg (by simpa using h), List.take_append_of_le_length hn]

lemma decimal_ne_nil (n : ℤ) : decimal n ≠ [] := by
  cases n with
  | ofNat n => exact Nat.toDigits_ne_nil
  | negSucc n => exact List.cons_ne_nil _ _

lemma of_mem_decimal {n : ℤ} (h : c ∈ decimal n) : c = '-' ∨ c.isDigit := by
  cases n with
  | ofNat n => exact Or.inr (FixClient.isDigit_of_mem_str h)
  | negSucc n =>
    rcases List.mem_cons.mp h with h | h
    · exact Or.inl h
    · exact Or.inr (FixClient.isDigit_of_mem_str h)

lemma commas_cons_cons (n m : ℤ) (values : List ℤ) :
    commas (n :: m :: values) = decimal n ++ ',' :: commas (m :: values) := by
  simp [commas, List.intercalate_cons_cons]

lemma of_mem_commas (h : c ∈ commas values) : c = ',' ∨ c = '-' ∨ c.isDigit := by
  induction values with
  | nil => exact absurd h (by simp [commas])
  | cons n values ih =>
    cases values with
    | nil => exact Or.inr (of_mem_decimal (by simpa [commas] using h))
    | cons m values =>
      rw [commas_cons_cons] at h
      rcases List.mem_append.mp h with h | h
      · exact Or.inr (of_mem_decimal h)
      · exact (List.mem_cons.mp h).imp_right ih |>.elim Or.inl id

lemma commas_ne_nil (h : values ≠ []) : commas values ≠ [] := by
  obtain ⟨n, values, rfl⟩ := List.exists_cons_of_ne_nil h
  cases values with
  | nil => simpa [commas] using decimal_ne_nil n
  | cons m values => simp [commas_cons_cons]

/-- The two lines about a kind: how their keys end, and what they show of a sample. -/
def fields : List (String × (LatencySample → ℤ)) :=
  [("_TOTAL_NS", LatencySample.totalNs), ("_QUEUE_NS", LatencySample.queueWaitNs)]

/-- The lines about a kind, as keys and values. -/
def entries (kind : String) (l : List LatencySample) : List (String × List ℤ) :=
  if l = [] then [] else fields.map fun field => (kind ++ field.1, l.map field.2)

/-- The text of a line. -/
def lineText (e : String × List ℤ) : List Char := e.1.toList ++ ' ' :: commas e.2

lemma serialize_eq (l : List LatencySample) (n : ℕ) (kind : String) :
    serialize ⟨l, n⟩ kind = Framing.encode '\n' ((entries kind l).map lineText) := by
  rw [serialize, entries]
  split_ifs
  · rfl
  · simp [fields, lineText, Framing.encode]

end LatencyStats

namespace StatsServer

variable {s t : StatsServer} {a : StatsAction} {as bs : List StatsAction} {kind : LatencyKind}
  {kinds : List LatencyKind} {out : List Char}

/-- What a kind holds behind actions. -/
def heldBy (kind : LatencyKind) (as : List StatsAction) : LatencyStats :=
  ⟨(recordedBy kind as).take 2000, 2000⟩

lemma recordedBy_snoc (h : RunTo as s) (kind : LatencyKind) (a : StatsAction) :
    recordedBy kind (as ++ [a]) = samplesAfter kind (recordedBy kind as) (s.events a) := by
  rw [recordedBy, h.collect_snoc, samplesAfter, List.foldl_append]
  rfl

/-- What a step does. -/
lemma step_cases (hstep : s.step a = some t) :
    (∃ kind sample, s.events a = [.recorded kind sample] ∧
      t = { s with stats := Function.update s.stats kind ((s.stats kind).record sample) }) ∨
    (s.events a = [] ∧ t = { s with admin := .collecting [] LatencyKind.all }) ∨
    (∃ out kind kinds, s.events a = [] ∧ s.admin = .collecting out (kind :: kinds) ∧
      t = { s with admin := .collecting (out ++ (s.stats kind).serialize kind.label) kinds }) ∨
    (∃ out, s.events a = [] ∧ s.admin = .collecting out [] ∧
      t = { s with admin := .idle, reports := s.reports ++ [out ++ "END\n".toList] }) ∨
    (∃ kind kinds, s.events a = [.cleared kind] ∧
      t = { s with
        stats := Function.update s.stats kind (s.stats kind).reset
        admin := .resetting kinds }) ∨
    (s.events a = [] ∧ t = { s with admin := .resetting LatencyKind.all }) ∨
    (s.events a = [] ∧ t = { s with admin := .idle }) := by
  obtain ⟨stats, admin, reports⟩ := s
  cases a with
  | record kind sample => exact .inl ⟨kind, sample, rfl, (Option.some.inj hstep).symm⟩
  | stats =>
    cases admin with
    | idle => exact .inr (.inl ⟨rfl, (Option.some.inj hstep).symm⟩)
    | collecting | resetting => exact nomatch hstep
  | resetStats =>
    cases admin with
    | idle =>
      exact .inr (.inr (.inr (.inr (.inr (.inl ⟨rfl, (Option.some.inj hstep).symm⟩)))))
    | collecting | resetting => exact nomatch hstep
  | admin =>
    cases admin with
    | idle => exact nomatch hstep
    | collecting out kinds =>
      cases kinds with
      | nil => exact .inr (.inr (.inr (.inl ⟨out, rfl, rfl, (Option.some.inj hstep).symm⟩)))
      | cons kind kinds =>
        exact .inr (.inr (.inl ⟨out, kind, kinds, rfl, rfl, (Option.some.inj hstep).symm⟩))
    | resetting kinds =>
      cases kinds with
      | nil =>
        exact .inr (.inr (.inr (.inr (.inr (.inr ⟨rfl, (Option.some.inj hstep).symm⟩)))))
      | cons kind kinds =>
        exact .inr (.inr (.inr (.inr (.inl ⟨kind, kinds, rfl, (Option.some.inj hstep).symm⟩))))

lemma stats_of_run (h : RunTo as s) : ∀ kind, s.stats kind = heldBy kind as := by
  refine h.invariant_history (I := fun as s => ∀ kind, s.stats kind = heldBy kind as)
    (fun _ => rfl) fun as t a u hrun ht _ hstep kind => ?_
  rw [heldBy, recordedBy_snoc hrun]
  -- the samples of a kind change as it is recorded or cleared, and they stay otherwise
  rcases step_cases hstep with ⟨k, sample, hevents, rfl⟩ | ⟨hevents, rfl⟩ |
    ⟨out, k, kinds, hevents, -, rfl⟩ | ⟨out, hevents, -, rfl⟩ | ⟨k, kinds, hevents, rfl⟩ |
    ⟨hevents, rfl⟩ | ⟨hevents, rfl⟩
  · rw [hevents]
    by_cases hk : k = kind
    · subst hk
      simp only [Function.update_self, ht, heldBy, LatencyStats.record_take, samplesAfter,
        List.foldl_cons, List.foldl_nil, if_true]
    · simp only [Function.update_of_ne (Ne.symm hk), ht, heldBy, samplesAfter, List.foldl_cons,
        List.foldl_nil, if_neg hk]
  · rw [hevents]
    exact ht kind
  · rw [hevents]
    exact ht kind
  · rw [hevents]
    exact ht kind
  · rw [hevents]
    by_cases hk : k = kind
    · subst hk
      simp only [Function.update_self, ht, heldBy, LatencyStats.reset, samplesAfter,
        List.foldl_cons, List.foldl_nil, if_true, List.take_nil]
    · simp only [Function.update_of_ne (Ne.symm hk), ht, heldBy, samplesAfter, List.foldl_cons,
        List.foldl_nil, if_neg hk]
  · rw [hevents]
    exact ht kind
  · rw [hevents]
    exact ht kind

/-- A text with what some kinds held, each at a moment not before the one of the kind before it. -/
def Collected (as : List StatsAction) (kinds : List LatencyKind) (out : List Char) : Prop :=
  ∃ moment : LatencyKind → List StatsAction,
    (kinds.map moment ++ [as]).Pairwise (· <+: ·) ∧
      out = kinds.flatMap fun kind => (heldBy kind (moment kind)).serialize kind.label

lemma Collected.mono (h : Collected as kinds out) (hle : as <+: bs) : Collected bs kinds out := by
  obtain ⟨moment, hmoment, rfl⟩ := h
  obtain ⟨hkinds, -, hlast⟩ := List.pairwise_append.mp hmoment
  refine ⟨moment, List.pairwise_append.mpr ⟨hkinds, List.pairwise_singleton _ _, ?_⟩, rfl⟩
  intro m hm b hb
  rw [List.mem_singleton.mp hb]
  exact (hlast m hm as (List.mem_singleton_self as)).trans hle

lemma Collected.snoc (h : Collected as kinds out) (hkind : kind ∉ kinds) :
    Collected as (kinds ++ [kind]) (out ++ (heldBy kind as).serialize kind.label) := by
  obtain ⟨moment, hmoment, rfl⟩ := h
  have hold : ∀ k ∈ kinds, Function.update moment kind as k = moment k := fun k hk =>
    Function.update_of_ne (fun heq : k = kind => hkind (heq ▸ hk)) _ _
  refine ⟨Function.update moment kind as, ?_, ?_⟩
  · rw [List.map_append, List.map_congr_left hold, List.map_singleton, Function.update_self]
    refine List.pairwise_append.mpr ⟨hmoment, List.pairwise_singleton _ _, fun m hm b hb => ?_⟩
    rw [List.mem_singleton.mp hb]
    rcases List.mem_append.mp hm with hm | hm
    · exact (List.pairwise_append.mp hmoment).2.2 m hm as (List.mem_singleton_self as)
    · rw [List.mem_singleton.mp hm]
  · rw [List.flatMap_append, List.flatMap_singleton, Function.update_self]
    congr 1
    exact List.flatMap_congr fun k hk => by rw [hold k hk]

/-- How far the admin thread is in `get_stats`. -/
def Collects (as : List StatsAction) : StatsThread → Prop
  | .collecting out kinds => ∃ done, done ++ kinds = LatencyKind.all ∧ Collected as done out
  | .idle | .resetting _ => True

lemma Collects.mono {thread : StatsThread} (h : Collects as thread) (hle : as <+: bs) :
    Collects bs thread := by
  cases thread with
  | collecting out kinds =>
    obtain ⟨done, hdone, hout⟩ := h
    exact ⟨done, hdone, hout.mono hle⟩
  | idle | resetting => trivial

/-- A response to `STATS`: what `get_stats` returns for what the kinds held at such moments. -/
def Reported (as : List StatsAction) (out : List Char) : Prop :=
  ∃ moment : LatencyKind → List StatsAction,
    (LatencyKind.all.map moment ++ [as]).Pairwise (· <+: ·) ∧
      out = getStats fun kind => heldBy kind (moment kind)

lemma Collected.reported (h : Collected as LatencyKind.all out) :
    Reported as (out ++ "END\n".toList) := by
  obtain ⟨moment, hmoment, rfl⟩ := h
  exact ⟨moment, hmoment, rfl⟩

lemma Reported.mono (h : Reported as out) (hle : as <+: bs) : Reported bs out := by
  obtain ⟨moment, hmoment, rfl⟩ := h
  exact (Collected.mono ⟨moment, hmoment, rfl⟩ hle).reported

lemma reported_of_run (h : RunTo as s) :
    Collects as s.admin ∧ ∀ out ∈ s.reports, Reported as out := by
  refine h.invariant_history
    (I := fun as (s : StatsServer) => Collects as s.admin ∧ ∀ out ∈ s.reports, Reported as out)
    ?_ fun as t a u hrun ht _ hstep => ?_
  · exact ⟨trivial, fun _ hout => absurd hout List.not_mem_nil⟩
  have hle : as <+: as ++ [a] := List.prefix_append _ _
  have hreports : ∀ out ∈ t.reports, Reported (as ++ [a]) out := fun out hout =>
    (ht.2 out hout).mono hle
  rcases step_cases hstep with ⟨k, sample, -, rfl⟩ | ⟨-, rfl⟩ | ⟨out, kind, kinds, -, hadmin, rfl⟩ |
    ⟨out, -, hadmin, rfl⟩ | ⟨k, kinds, -, rfl⟩ | ⟨-, rfl⟩ | ⟨-, rfl⟩
  · exact ⟨ht.1.mono hle, hreports⟩
  · exact ⟨⟨[], rfl, fun _ => [], List.pairwise_singleton _ _, rfl⟩, hreports⟩
  · -- one more kind, which is not among the ones before
    obtain ⟨done, hdone, hout⟩ : Collects as (.collecting out (kind :: kinds)) := hadmin ▸ ht.1
    have hkind : kind ∉ done := by
      have hnodup : (done ++ kind :: kinds).Nodup := hdone ▸ by decide
      exact fun hmem => (List.nodup_append.mp hnodup).2.2 _ hmem _ List.mem_cons_self rfl
    refine ⟨⟨done ++ [kind], by rw [← hdone]; simp, ?_⟩, hreports⟩
    rw [stats_of_run hrun]
    exact (hout.snoc hkind).mono hle
  · obtain ⟨done, hdone, hout⟩ : Collects as (.collecting out []) := hadmin ▸ ht.1
    refine ⟨trivial, fun out' hout' => ?_⟩
    rcases List.mem_append.mp hout' with hout' | hout'
    · exact hreports out' hout'
    · rw [List.append_nil] at hdone
      rw [List.mem_singleton.mp hout']
      exact ((hdone ▸ hout).mono hle).reported
  · exact ⟨trivial, hreports⟩
  · exact ⟨trivial, hreports⟩
  · exact ⟨trivial, hreports⟩

end StatsServer

/-! ## What the benchmark reads -/

namespace Bench

open LatencyStats

variable {F : Type} {micros : ℤ → F} {line : List Char} {c : Char}

/-- The mark at the end of a response is the first one. -/
lemma eq_nil_of_mark {body data rest : List Char} (hbody : 'D' ∉ body)
    (heq : data ++ rest = body ++ "END\n".toList) (hmark : "END\n".toList <:+: data) :
    rest = [] := by
  obtain ⟨a, b, rfl⟩ := hmark
  have hcut : (a ++ ['E', 'N']) ++ 'D' :: ('\n' :: (b ++ rest))
      = (body ++ ['E', 'N']) ++ 'D' :: ['\n'] := by
    simpa using heq
  have hfree : 'D' ∉ body ++ ['E', 'N'] := by simpa using hbody
  have hfirst : 'D' ∉ a ++ ['E', 'N'] := by
    have hcount := congrArg (List.count 'D') hcut
    have hzero : List.count 'D' body = 0 := List.count_eq_zero.mpr hbody
    simp only [List.count_append, List.count_cons_self, hzero] at hcount
    have hend : List.count 'D' ['\n'] = 0 := rfl
    have hnone : List.count 'D' a = 0 := by omega
    simpa using List.count_eq_zero.mp hnone
  have hline := congrArg (LineReader.takeLine 'D') hcut
  rw [LineReader.takeLine_append hfirst, LineReader.takeLine_append hfree] at hline
  have hrest : '\n' :: (b ++ rest) = ['\n'] := congrArg Prod.snd (Option.some.inj hline)
  exact (List.append_eq_nil_iff.mp (List.cons.inj hrest).2).2

/-- The whole response is received, however it is cut. -/
lemma adminCmd_report {body : List Char} (hbody : 'D' ∉ body) {chunks : List (List Char)}
    (hne : [] ∉ chunks) {data : List Char}
    (heq : data ++ chunks.flatten = body ++ "END\n".toList)
    (hopen : ¬ "END\n".toList <:+: data) :
    adminCmd "END\n".toList data chunks = some (body ++ "END\n".toList) := by
  induction chunks generalizing data with
  | nil =>
    rw [List.flatten_nil, List.append_nil] at heq
    exact absurd (heq ▸ (List.suffix_append _ _).isInfix) hopen
  | cons chunk chunks ih =>
    rw [List.flatten_cons, ← List.append_assoc] at heq
    rw [adminCmd, if_neg fun hnil : chunk = [] => hne (hnil ▸ List.mem_cons_self)]
    split_ifs with hmark
    · rw [← heq, eq_nil_of_mark hbody heq hmark, List.append_nil]
    · exact ih (fun hmem => hne (List.mem_cons_of_mem _ hmem)) heq hmark

lemma digits_str (n : ℕ) : digits (FixClient.str n) = some n := by
  have hall : (FixClient.str n).all Char.isDigit = true :=
    List.all_eq_true.mpr fun c hc => FixClient.isDigit_of_mem_str hc
  rw [digits, if_pos ⟨Nat.toDigits_ne_nil, hall⟩, FixClient.str, Nat.ofDigitChars_ten_toDigits]

lemma int_decimal (n : ℤ) : int (decimal n) = some n := by
  cases n with
  | ofNat n =>
    have hsign : ∀ ds, FixClient.str n ≠ '-' :: ds := fun ds hds => by
      have hdigit : '-'.isDigit := FixClient.isDigit_of_mem_str (hds ▸ List.mem_cons_self)
      exact absurd hdigit (by decide)
    rw [decimal, int, digits_str]
    · rfl
    · exact hsign
  | negSucc n =>
    rw [decimal, int, digits_str]
    rfl

lemma mapM_int (values : List ℤ) : (values.map decimal).mapM int = some values := by
  induction values with
  | nil => rfl
  | cons n values ih => simp [int_decimal, ih]

lemma not_isSpace_of_digit (h : c = ',' ∨ c = '-' ∨ c.isDigit) : isSpace c = false := by
  rcases h with rfl | rfl | h
  · decide
  · decide
  · have hrange : 48 ≤ c.toNat ∧ c.toNat ≤ 57 := by
      simpa [Char.isDigit, UInt32.le_iff_toNat_le] using h
    simp only [isSpace, Bool.or_eq_false_iff, Bool.and_eq_false_iff, decide_eq_false_iff_not]
    omega

lemma isSpace_of_isLineEnd (h : isLineEnd c = true) : isSpace c = true := by
  simp only [isSpace, isLineEnd, Bool.or_eq_true, Bool.and_eq_true, decide_eq_true_eq] at h ⊢
  omega

lemma strip_eq (hne : line ≠ []) (hhead : isSpace (line.head hne) = false)
    (hlast : isSpace (line.getLast hne) = false) : strip line = line := by
  have hfront : line.dropWhile isSpace = line := by
    obtain ⟨c, l, rfl⟩ := List.exists_cons_of_ne_nil hne
    exact List.dropWhile_cons_of_neg (by simpa using hhead)
  rw [strip, hfront, List.rdropWhile_eq_self_iff]
  exact fun _ => by simp [hlast]

/-- A key without blanks. -/
def Solid (key : String) : Prop := key.toList ≠ [] ∧ key.toList.any isSpace = false

lemma Solid.not_isSpace {key : String} (h : Solid key) (hc : c ∈ key.toList) : isSpace c = false :=
  Bool.eq_false_iff.mpr (List.any_eq_false.mp h.2 c hc)

lemma readLine_lineText {e : String × List ℤ} (hkey : Solid e.1) (hvalues : e.2 ≠ []) :
    readLine micros (lineText e) = some (e.1, e.2.map micros) := by
  obtain ⟨key, values⟩ := e
  have hne := hkey.1
  have hcommas := commas_ne_nil hvalues
  have hstrip : strip (lineText (key, values)) = lineText (key, values) := by
    refine strip_eq (by simp [lineText]) ?_ ?_
    · simp only [lineText, List.head_append_of_ne_nil hne]
      exact hkey.not_isSpace (List.head_mem hne)
    · have hlast : (lineText (key, values)).getLast (by simp [lineText])
          = (commas values).getLast hcommas := by
        simp [lineText, List.getLast_cons hcommas]
      rw [hlast]
      exact not_isSpace_of_digit (of_mem_commas (List.getLast_mem hcommas))
  have hblank : ' ' ∈ lineText (key, values) := by simp [lineText]
  have hend : ¬ (lineText (key, values) = [] ∨ lineText (key, values) = "END".toList) := by
    rintro (h | h) <;>
    · rw [h] at hblank
      exact absurd hblank (by decide)
  have hsplit : (commas values).splitOn ',' = values.map decimal := by
    refine List.splitOn_intercalate ',' (fun part hpart hcomma => ?_) (by simpa using hvalues)
    obtain ⟨n, -, rfl⟩ := List.mem_map.mp hpart
    exact absurd (of_mem_decimal hcomma) (by decide)
  have hfilter : (values.map decimal).filter (· ≠ []) = values.map decimal := by
    refine List.filter_eq_self.mpr fun part hpart => ?_
    obtain ⟨n, -, rfl⟩ := List.mem_map.mp hpart
    exact decide_eq_true (decimal_ne_nil n)
  have hkeyline : ' ' ∉ key.toList := fun hmem => absurd (hkey.not_isSpace hmem) (by decide)
  rw [readLine, hstrip]
  simp only [if_neg hend]
  rw [lineText, LineReader.takeLine_append hkeyline, Option.bind_some, hsplit, hfilter, mapM_int]
  simp

lemma splitOnP_encode {p : Char → Bool} {sep : Char} (hsep : p sep = true)
    {lines : List (List Char)} (h : ∀ line ∈ lines, ∀ c ∈ line, p c = false) :
    (Framing.encode sep lines).splitOnP p = lines ++ [[]] := by
  induction lines with
  | nil => rfl
  | cons line lines ih =>
    rw [Framing.encode_cons,
      List.splitOnP_append_cons_of_forall_mem (h line List.mem_cons_self) sep hsep,
      ih fun line' hline' => h line' (List.mem_cons_of_mem _ hline'), List.cons_append]

/-- The lines about all kinds. -/
def lines (held : LatencyKind → List LatencySample) : List (String × List ℤ) :=
  LatencyKind.all.flatMap fun kind => entries kind.label (held kind)

section Lines

variable {held : LatencyKind → List LatencySample} {e : String × List ℤ}

lemma mem_lines : e ∈ lines held ↔
    ∃ kind, held kind ≠ [] ∧ ∃ field ∈ fields,
      e = (kind.label ++ field.1, (held kind).map field.2) := by
  have hall : ∀ kind, kind ∈ LatencyKind.all := by
    intro kind
    cases kind <;> decide
  constructor
  · intro he
    obtain ⟨kind, -, he⟩ := List.mem_flatMap.mp he
    rw [entries] at he
    split_ifs at he with hnil
    · exact absurd he List.not_mem_nil
    · obtain ⟨field, hfield, rfl⟩ := List.mem_map.mp he
      exact ⟨kind, hnil, field, hfield, rfl⟩
  · rintro ⟨kind, hne, field, hfield, rfl⟩
    refine List.mem_flatMap.mpr ⟨kind, hall kind, ?_⟩
    rw [entries, if_neg hne]
    exact List.mem_map.mpr ⟨field, hfield, rfl⟩

/-- The keys are free of blanks and of the mark. -/
lemma key_of_mem_lines (he : e ∈ lines held) : Solid e.1 ∧ 'D' ∉ e.1.toList ∧ e.2 ≠ [] := by
  have hkeys : ∀ kind : LatencyKind, ∀ tag ∈ fields.map Prod.fst,
      Solid (kind.label ++ tag) ∧ 'D' ∉ (kind.label ++ tag).toList := by
    unfold Solid
    intro kind
    cases kind <;> decide
  obtain ⟨kind, hne, field, hfield, rfl⟩ := mem_lines.mp he
  obtain ⟨hsolid, hmark⟩ := hkeys kind field.1 (List.mem_map.mpr ⟨field, hfield, rfl⟩)
  exact ⟨hsolid, hmark, by simpa using hne⟩

/-- A key says which kind and which line it is. -/
lemma key_inj {kind kind' : LatencyKind} {field field' : String × (LatencySample → ℤ)}
    (hfield : field ∈ fields) (hfield' : field' ∈ fields)
    (heq : kind.label ++ field.1 = kind'.label ++ field'.1) : kind = kind' ∧ field = field' := by
  simp only [fields, List.mem_cons, List.not_mem_nil, or_false] at hfield hfield'
  revert heq
  rcases hfield with rfl | rfl <;> rcases hfield' with rfl | rfl <;> cases kind <;> cases kind' <;>
    first
    | exact fun _ => ⟨rfl, rfl⟩
    | exact fun heq => absurd heq (by decide)

lemma nodup_lines (held : LatencyKind → List LatencySample) :
    ((lines held).map Prod.fst).Nodup := by
  have hall : (LatencyKind.all.flatMap fun kind =>
      fields.map fun field => kind.label ++ field.1).Nodup := by decide
  refine hall.sublist ?_
  rw [lines, List.map_flatMap]
  refine List.Sublist.flatMap_right _ fun kind _ => ?_
  rw [entries]
  split_ifs
  · exact List.nil_sublist _
  · rw [List.map_map]
    exact List.Sublist.refl _

/-- A response, as the lines of it. -/
lemma getStats_eq (held : LatencyKind → List LatencySample) (n : ℕ) :
    getStats (fun kind => ⟨held kind, n⟩)
      = Framing.encode '\n' ((lines held).map lineText) ++ "END\n".toList := by
  rw [getStats, lines, List.map_flatMap]
  simp only [serialize_eq, Framing.encode, List.flatMap_assoc]

lemma mark_notMem (held : LatencyKind → List LatencySample) :
    'D' ∉ Framing.encode '\n' ((lines held).map lineText) := by
  intro hmem
  rw [Framing.encode] at hmem
  obtain ⟨line, hline, hmem⟩ := List.mem_flatMap.mp hmem
  obtain ⟨e, he, rfl⟩ := List.mem_map.mp hline
  rcases List.mem_append.mp hmem with hmem | hmem
  · rcases List.mem_append.mp hmem with hmem | hmem
    · exact (key_of_mem_lines he).2.1 hmem
    · rcases List.mem_cons.mp hmem with hmem | hmem
      · exact absurd hmem (by decide)
      · exact absurd (of_mem_commas hmem) (by decide)
  · exact absurd hmem (by decide)

lemma fetchStats_report (micros : ℤ → F) (held : LatencyKind → List LatencySample) (n : ℕ) :
    fetchStats micros (getStats fun kind => ⟨held kind, n⟩)
      = Ladder.ofPairs ((lines held).map fun e => (e.1, e.2.map micros)) := by
  have hfree : ∀ line ∈ (lines held).map lineText ++ ["END".toList], ∀ c ∈ line,
      isLineEnd c = false := by
    intro line hline c hc
    refine Bool.eq_false_iff.mpr fun hend => ?_
    rcases List.mem_append.mp hline with hline | hline
    · obtain ⟨e, he, rfl⟩ := List.mem_map.mp hline
      rcases List.mem_append.mp hc with hc | hc
      · exact absurd ((key_of_mem_lines he).1.not_isSpace hc) (by simp [isSpace_of_isLineEnd hend])
      · rcases List.mem_cons.mp hc with rfl | hc
        · exact absurd hend (by decide)
        · exact absurd (not_isSpace_of_digit (of_mem_commas hc))
            (by simp [isSpace_of_isLineEnd hend])
    · rw [List.mem_singleton.mp hline] at hc
      have hword : "END".toList.any isLineEnd = false := by decide
      exact List.any_eq_false.mp hword c hc hend
  have hread : ((lines held).map lineText).filterMap (readLine micros)
      = (lines held).map fun e => (e.1, e.2.map micros) := by
    rw [List.filterMap_map, ← List.filterMap_eq_map]
    refine List.filterMap_congr fun e he => ?_
    obtain ⟨hsolid, -, hne⟩ := key_of_mem_lines he
    exact readLine_lineText hsolid hne
  have hlast : ["END".toList, []].filterMap (readLine micros) = [] := rfl
  have hend : Framing.encode '\n' ((lines held).map lineText) ++ "END\n".toList
      = Framing.encode '\n' ((lines held).map lineText ++ ["END".toList]) := by
    rw [Framing.encode_append]
    rfl
  rw [fetchStats, getStats_eq, hend, splitOnP_encode (by decide) hfree, List.append_assoc,
    List.filterMap_append, hread, List.singleton_append, hlast, List.append_nil]

/-- What the benchmark has for a line: nothing when there are no samples. -/
def shown (micros : ℤ → F) (values : List ℤ) : Option (List F) :=
  if values = [] then none else some (values.map micros)

lemma lookup_lines (micros : ℤ → F) (held : LatencyKind → List LatencySample) (kind : LatencyKind)
    {field : String × (LatencySample → ℤ)} (hfield : field ∈ fields) :
    (Ladder.ofPairs ((lines held).map fun e => (e.1, e.2.map micros))).lookup
        (kind.label ++ field.1) = shown micros ((held kind).map field.2) := by
  have hnodup : (((lines held).map fun e => (e.1, e.2.map micros)).map Prod.fst).Nodup := by
    rw [List.map_map]
    exact nodup_lines held
  refine Option.ext fun v => ?_
  rw [Ladder.lookup_ofPairs hnodup, List.mem_map, shown]
  constructor
  · rintro ⟨e, he, heq⟩
    obtain ⟨kind', hne, field', hfield', rfl⟩ := mem_lines.mp he
    obtain ⟨hkey, rfl⟩ := Prod.mk.inj heq
    obtain ⟨rfl, rfl⟩ := key_inj hfield' hfield hkey
    rw [if_neg (by simpa using hne)]
  · intro hv
    split_ifs at hv with hnil
    refine ⟨_, mem_lines.mpr ⟨kind, by simpa using hnil, field, hfield, rfl⟩, ?_⟩
    rw [← Option.some.inj hv]

lemma key_of_mem_stats {key : String}
    (h : key ∈ Ladder.ofPairs ((lines held).map fun e => (e.1, e.2.map micros))) :
    ∃ kind : LatencyKind, ∃ field ∈ fields, key = kind.label ++ field.1 := by
  have hnodup : (((lines held).map fun e => (e.1, e.2.map micros)).map Prod.fst).Nodup := by
    rw [List.map_map]
    exact nodup_lines held
  obtain ⟨v, hv⟩ := Option.isSome_iff_exists.mp (AList.lookup_isSome.mpr h)
  obtain ⟨e, he, heq⟩ := List.mem_map.mp ((Ladder.lookup_ofPairs hnodup).mp hv)
  obtain ⟨kind, -, field, hfield, rfl⟩ := mem_lines.mp he
  exact ⟨kind, field, hfield, (congrArg Prod.fst heq).symm⟩

end Lines

end Bench

/-- **The benchmark reads what was recorded.**  In every run of the threads that record samples and
of the admin thread, and however a response to `STATS` is cut into chunks on its way: the benchmark
receives the whole response, and has, for each kind of latency, the first 2000 samples that had been
recorded since the last reset of the kind at a moment of the run, in their order, or no entry when
there were none; and it has no other entries.  The moments come in the order of the kinds. -/
theorem stats_round_trip {F : Type} (micros : ℤ → F) {as : List StatsAction} {s : StatsServer}
    (h : StatsServer.RunTo as s) {out : List Char} (hout : out ∈ s.reports)
    {chunks : List (List Char)} (hchunks : chunks.flatten = out) (hne : [] ∉ chunks) :
    Bench.adminCmd "END\n".toList [] chunks = some out ∧
      ∃ moment : LatencyKind → List StatsAction,
        (LatencyKind.all.map moment ++ [as]).Pairwise (· <+: ·) ∧
        (∀ kind, ∀ field ∈ LatencyStats.fields,
          (Bench.fetchStats micros out).lookup (kind.label ++ field.1)
            = Bench.shown micros (((recordedBy kind (moment kind)).take 2000).map field.2)) ∧
        ∀ key ∈ Bench.fetchStats micros out, ∃ kind : LatencyKind,
          ∃ field ∈ LatencyStats.fields, key = kind.label ++ field.1 := by
  obtain ⟨moment, hmoment, rfl⟩ := (StatsServer.reported_of_run h).2 out hout
  have heq := Bench.getStats_eq (fun kind => (recordedBy kind (moment kind)).take 2000) 2000
  have hread := Bench.fetchStats_report micros
    (fun kind => (recordedBy kind (moment kind)).take 2000) 2000
  refine ⟨?_, moment, hmoment, fun kind field hfield => ?_, fun key hkey => ?_⟩
  · have hreceived : Bench.adminCmd "END\n".toList [] chunks = some _ :=
      Bench.adminCmd_report (Bench.mark_notMem _) hne (hchunks.trans heq) (by decide)
    exact hreceived.trans (congrArg some heq.symm)
  · exact (congrArg (AList.lookup (kind.label ++ field.1)) hread).trans
      (Bench.lookup_lines micros _ kind hfield)
  · exact Bench.key_of_mem_stats (hread ▸ hkey)

/-- All samples are cleared, and new ones recorded; the admin thread collects what it has while a fill
is recorded, and an acknowledgement, but too late. -/
def statsRun : List StatsAction :=
  [.record .ack ⟨400, 0⟩, .record .cancel ⟨800, 1⟩, .resetStats, .admin, .admin,
    .record .ack ⟨1500, 0⟩, .admin, .admin, .stats, .admin, .record .fill ⟨9000, -2⟩,
    .record .ack ⟨700, 0⟩, .admin, .admin, .admin]

/-- The response to `STATS`, as it comes in. -/
def statsChunks : List (List Char) :=
  ["ACK_TOTAL_NS 1500\nACK_QUEUE_NS 0\nFILL_TOT".toList,
    "AL_NS 9000\nFILL_QUEUE_NS -2\nEN".toList, "D\n".toList]

theorem stats_round_trip_sample :
    ∃ s, StatsServer.RunTo statsRun s ∧
      Bench.adminCmd "END\n".toList [] statsChunks = some statsChunks.flatten ∧
      (∃ moment : LatencyKind → List StatsAction, (∀ kind, moment kind <+: statsRun) ∧
        ∀ kind, (Bench.fetchStats id statsChunks.flatten).lookup (kind.label ++ "_TOTAL_NS")
          = Bench.shown id
            (((recordedBy kind (moment kind)).take 2000).map LatencySample.totalNs)) ∧
      (Bench.fetchStats id statsChunks.flatten).lookup "ACK_TOTAL_NS" = some [1500] ∧
      (Bench.fetchStats id statsChunks.flatten).lookup "CANCEL_TOTAL_NS" = none ∧
      (Bench.fetchStats id statsChunks.flatten).lookup "FILL_TOTAL_NS" = some [9000] := by
  have hreach : ∃ s, StatsServer.RunTo statsRun s ∧ statsChunks.flatten ∈ s.reports :=
    Transition.exists_reaches (by decide +kernel) (by decide +kernel)
  obtain ⟨s, hrun, hout⟩ := hreach
  obtain ⟨hreceived, moment, hmoment, hshown, -⟩ := stats_round_trip id hrun hout rfl (by decide)
  refine ⟨s, hrun, hreceived, ⟨moment, fun kind => ?_, fun kind => ?_⟩, ?_⟩
  · have hlast := (List.pairwise_append.mp hmoment).2.2
    exact hlast _ (List.mem_map_of_mem (by cases kind <;> decide)) _ List.mem_cons_self
  · exact hshown kind ("_TOTAL_NS", LatencySample.totalNs) List.mem_cons_self
  · decide +kernel

end FixExchange
