/-
# The admin port

A model of `src/admin/AdminGateway.cpp`: the commands that a client of the admin port sends, one
on each line, and the loop of `handle_client` that reads them.  A character stands for a byte.
The functions that collect and reset the statistics are parameters.

`handle_client` appends a chunk to its buffer as a C string, so that what follows a NUL in a
chunk is lost.
-/
import FixExchange.Engine.MatchingEngine
import FixExchange.Lib.LineReader

namespace FixExchange

/-- `stats_fn_` and `reset_stats_fn_`, where they are set. -/
structure StatsHooks (σ : Type) where
  stats : Option (σ → String)
  reset : Option (σ → σ)

/-- `admin::AdminGateway`, with the engine and the state of the statistics. -/
structure AdminGateway (σ : Type) where
  engine : MatchingEngine
  /-- The symbols pushed to the persistence layer, when there is one. -/
  persistence : Option (List String)
  /-- `pool_`. -/
  pool : List String
  /-- `available_`, in its order. -/
  available : List String
  stats : σ

namespace AdminGateway

/-- `std::set::insert`. -/
def insertId (id : String) (ids : List String) : List String :=
  if id ∈ ids then ids else ids.orderedInsert (· ≤ ·) id

variable {σ : Type}

/-- The constructor. -/
def init (engine : MatchingEngine) (pool : List String) (persistence : Bool) (stats : σ) :
    AdminGateway σ where
  engine := engine
  persistence := if persistence then some [] else none
  pool := pool
  available := pool.foldl (fun ids id => insertId id ids) []
  stats := stats

/-- A line without the carriage return at its end. -/
def stripCR (line : List Char) : List Char :=
  if line.getLast? = some '\r' then line.dropLast else line

/-- The command in a line, and the response. -/
def command (hooks : StatsHooks σ) (a : AdminGateway σ) (line : List Char) :
    AdminGateway σ × String :=
  let line := stripCR line
  if "REGISTER ".toList <+: line then
    let sym := String.ofList (line.drop 9)
    match a.engine.registerSymbol sym with
    | some engine =>
      ({ a with engine := engine, persistence := a.persistence.map fun l => l ++ [sym] }, "OK\n")
    | none =>
      (a, "ERROR: symbol already registered or invalid (alphanumeric, 1-8 chars)\n")
  else if line = "CLAIM-SESSION".toList then
    match a.available with
    | [] => (a, "ERROR: no sessions available\n")
    | id :: ids => ({ a with available := ids }, "OK " ++ id ++ "\n")
  else if "RELEASE-SESSION ".toList <+: line then
    let compId := String.ofList (line.drop 16)
    if compId ∈ a.pool then ({ a with available := insertId compId a.available }, "OK\n")
    else (a, "ERROR: unknown session " ++ compId ++ "\n")
  else if line = "STATS".toList then
    match hooks.stats with
    | some stats => (a, stats a.stats)
    | none => (a, "ERROR: stats unavailable\nEND\n")
  else if line = "RESET-STATS".toList then
    match hooks.reset with
    | some reset => ({ a with stats := reset a.stats }, "OK\n")
    | none => (a, "ERROR: stats unavailable\n")
  else if line = "HELP".toList then
    (a, "Commands: REGISTER <SYMBOL> | CLAIM-SESSION | RELEASE-SESSION <ID> | STATS | RESET-STATS\n")
  else (a, "ERROR: unknown command\n")

/-- `handle_client`, with the chunks that `recv` returns. -/
def handleClient (hooks : StatsHooks σ) (a : AdminGateway σ) (chunks : List (List Char)) :
    AdminGateway σ × List String :=
  LineReader.serve '\n' '\x00' (command hooks) a [] chunks

/-- `recv` fills a buffer of 256 bytes, but for the last one. -/
def RECV_MAX : ℕ := 255

/-- The two ways to cut a stream lead to the same responses and the same state. -/
def CutsAgree (hooks : StatsHooks σ) (a : AdminGateway σ) (stream : List Char) : Prop :=
  ∀ chunks chunks', LineReader.IsCut RECV_MAX stream chunks →
    LineReader.IsCut RECV_MAX stream chunks' →
      a.handleClient hooks chunks = a.handleClient hooks chunks'

/-- **The way a stream is cut** makes no difference to the responses and to the state when no
line ends behind a NUL.  It makes one whenever a line ends behind a NUL that is close enough to
be received together with it. -/
theorem cutsAgree_of_clean (hooks : StatsHooks σ) (a : AdminGateway σ) (stream : List Char) :
    (LineReader.Clean '\n' '\x00' stream → CutsAgree hooks a stream) ∧
      ∀ front mid back, stream = front ++ '\x00' :: (mid ++ '\n' :: back) →
        mid.length + 2 ≤ RECV_MAX → ¬ CutsAgree hooks a stream := by
  constructor
  · intro hclean chunks chunks' h h'
    exact LineReader.serve_eq_of_clean hclean h h'
  · rintro front mid back rfl hmid hagree
    obtain ⟨chunks, chunks', h, h', hne⟩ := LineReader.exists_serve_length_ne (command hooks) a
      (by decide : '\n' ≠ '\x00') hmid
    have hsame := hagree chunks chunks' h h'
    rw [handleClient, handleClient] at hsame
    exact hne (by rw [hsame])

end AdminGateway

namespace Sample

/-- An admin port without statistics, with two session ids. -/
def admin : AdminGateway Unit :=
  AdminGateway.init (MatchingEngine.init ["X"]) ["CLIENT2", "CLIENT1"] true ()

def noHooks : StatsHooks Unit := ⟨none, none⟩

/-- Commands with both kinds of line ends. -/
def adminStream : List Char := "CLAIM-SESSION\r\nREGISTER ABC\nCLAIM".toList

end Sample

namespace AdminGateway

/-- The commands, in one chunk and cut between the two characters of a line end; and a NUL that
comes before a line end. -/
theorem cutsAgree_of_clean_sample :
    Sample.admin.handleClient Sample.noHooks [Sample.adminStream] =
      Sample.admin.handleClient Sample.noHooks
        [Sample.adminStream.take 14, Sample.adminStream.drop 14] ∧
      ¬ CutsAgree Sample.noHooks Sample.admin "\x00HELP\n".toList := by
  have hclean : LineReader.Clean '\n' '\x00' Sample.adminStream := by
    unfold LineReader.Clean
    decide +kernel
  exact ⟨(cutsAgree_of_clean Sample.noHooks Sample.admin Sample.adminStream).1 hclean _ _
      ⟨by decide +kernel, by decide +kernel, by decide +kernel⟩
      ⟨by decide +kernel, by decide +kernel, by decide +kernel⟩,
    (cutsAgree_of_clean Sample.noHooks Sample.admin _).2 [] "HELP".toList []
      (by decide +kernel) (by decide +kernel)⟩

/-- A command behind a NUL is answered when it comes in a chunk of its own, and is lost when
it comes with the NUL. -/
theorem command_after_nul_lost :
    LineReader.IsCut RECV_MAX "\x00HELP\n".toList [['\x00'], "HELP\n".toList] ∧
      LineReader.IsCut RECV_MAX "\x00HELP\n".toList ["\x00HELP\n".toList] ∧
      (Sample.admin.handleClient Sample.noHooks [['\x00'], "HELP\n".toList]).2.length = 1 ∧
      (Sample.admin.handleClient Sample.noHooks ["\x00HELP\n".toList]).2 = [] ∧
      ¬ CutsAgree Sample.noHooks Sample.admin "\x00HELP\n".toList := by
  have hcut : LineReader.IsCut RECV_MAX "\x00HELP\n".toList [['\x00'], "HELP\n".toList] :=
    ⟨by decide +kernel, by decide +kernel, by decide +kernel⟩
  have hcut' : LineReader.IsCut RECV_MAX "\x00HELP\n".toList ["\x00HELP\n".toList] :=
    ⟨by decide +kernel, by decide +kernel, by decide +kernel⟩
  have hone : (Sample.admin.handleClient Sample.noHooks
      [['\x00'], "HELP\n".toList]).2.length = 1 := by decide +kernel
  have hnone : (Sample.admin.handleClient Sample.noHooks ["\x00HELP\n".toList]).2 = [] := by
    decide +kernel
  refine ⟨hcut, hcut', hone, hnone, fun h => ?_⟩
  rw [h _ _ hcut hcut', hnone] at hone
  exact absurd hone (by decide)

end AdminGateway

end FixExchange
