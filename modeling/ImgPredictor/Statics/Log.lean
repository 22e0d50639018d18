import ImgPredictor.Lib.Dict
import ImgPredictor.Lib.Words
import ImgPredictor.Statics.DateTime
import ImgPredictor.Statics.Parsers

/-!
# `log_statics`

The script reads the error log of a server line by line, keeps the counters of the window that is
open, and hands them to `insert_db` when a line closes the window and once more at the end.  An
exception ends the run where it is raised: what has been handed over by then is all there is.

* A log is the list of its lines, each with its line feed.  `readLine` is what becomes of one: it is
  skipped, it is an entry, or it raises.
* `logLoop` is the loop as it stands, over the window that is open and its counters; `logStatics` is
  the whole run.  The counters of a window are two dictionaries, `res` by plugin and, under it, a
  record by key: a request can make up any source, and so any key, `sum` and `server_addr` included.
* A run is the list of the counters it has handed to `insert_db`, and the exception it ended with.
  `Query` is a row that `insert_db` sends, and `Query.text` the statement.

What is abstracted from: the connection to the database is there, and `insert_db` issues its queries
whether or not the server takes them, so what the server says is left out.  `res.items()` comes in
key order here; the records of one call differ in neither date nor address, which is all the order
could show in.  The numbers of Python do not overflow, and neither do these.
-/

set_option autoImplicit false

namespace ImgPredictor

open Bytes Regex

/-! ## A line -/

/-- `.` -/
def dot (b : UInt8) : Bool := b != 10

/-- `\w` -/
def isWord (b : UInt8) : Bool :=
  isDigit b || (65 ≤ b && b ≤ 90) || (97 ≤ b && b ≤ 122) || b == 95

/-- `(.+)` -/
def some1 (n : ℕ) : Pat UInt8 := .group n (plus dot)

/-- `$` -/
def eol : Pat UInt8 := .ahead fun rest ↦ rest.isEmpty || rest == [10]

/-- `^(.+), res_json:(.+), client:(.+), server:(.+), request:(.+), host:(.+)$` -/
def linePat : Pat UInt8 :=
  .seq (some1 1) <| .seq (Regex.lit (lit ", res_json:")) <|
  .seq (some1 2) <| .seq (Regex.lit (lit ", client:")) <|
  .seq (some1 3) <| .seq (Regex.lit (lit ", server:")) <|
  .seq (some1 4) <| .seq (Regex.lit (lit ", request:")) <|
  .seq (some1 5) <| .seq (Regex.lit (lit ", host:")) <| .seq (some1 6) eol

/-- `.*plugin=(\w+)&src=(\w+).*` -/
def requestPat : Pat UInt8 :=
  .seq (.many dot) <| .seq (Regex.lit (lit "plugin=")) <| .seq (.group 1 (plus isWord)) <|
  .seq (Regex.lit (lit "&src=")) <| .seq (.group 2 (plus isWord)) (.many dot)

/-- What the script takes from a line that matches. -/
structure Entry where
  /-- `dt` -/
  dt : DateTime
  /-- `res_json` -/
  resJson : Bytes
  /-- `request` -/
  request : Bytes
  deriving DecidableEq, Repr

/-- The text of a group. -/
def group (h : Hit UInt8) (n : ℕ) : Bytes := (h.cap n).getD []

/-- `' '.join(date_time.split()[0:2])` -/
def dateOf (text : Bytes) : Bytes := [32].intercalate ((Lists.wordsBy isSpace text).take 2)

/-- The top of the loop body: `none` is a line that does not match, an error that of `strptime`. -/
def readLine (line : Bytes) : Option (Except PyError Entry) :=
  (linePat.first line).map fun h ↦
    match DateTime.strptime (dateOf (group h 1)) with
    | none => .error .valueError
    | some dt => .ok ⟨dt, group h 2, group h 5⟩

/-- A time of the eighth of March, for the examples. -/
def sampleTime (hour minute second : ℕ) (h : hour < 24 ∧ minute < 60 ∧ second < 60 := by decide) :
    DateTime :=
  ⟨2016, 3, 8, hour, minute, second, by decide, h⟩

/-- A line of a log of the eighth of March, for the examples. -/
def sampleLine (time resJson request : String) : Bytes :=
  lit ("2016/03/08 " ++ time ++ ", res_json:" ++ resJson ++ ", client:c, server:s, request:" ++
    request ++ ", host:h\n")

/-- The line as appended bytes, which are cheaper to evaluate than appended strings. -/
theorem sampleLine_eq (time resJson request : String) :
    sampleLine time resJson request = lit "2016/03/08 " ++ lit time ++ lit ", res_json:" ++
      lit resJson ++ lit ", client:c, server:s, request:" ++ lit request ++ lit ", host:h\n" := by
  simp only [sampleLine, Bytes.lit, String.toList_append, List.map_append]

/-- The plugin and the source a request names. -/
def requestOf (request : Bytes) : Option (Bytes × Bytes) :=
  (requestPat.first request).map fun h ↦ (group h 1, group h 2)

/-! ## The counters -/

/-- `res[plugin]`: a dictionary with two texts and, under other keys, counters. -/
structure Record where
  /-- `datetime` -/
  datetime : Bytes
  /-- `server_addr` -/
  serverAddr : Bytes
  /-- The other entries. -/
  counters : Dict ℕ
  /-- The counters every record has. -/
  fixed : lit "detect" ∈ counters ∧ lit "sum" ∈ counters ∧ lit "err" ∈ counters

namespace Record

/-- The counter under a key. -/
def count (r : Record) (key : Bytes) : ℕ := r.counters.getD key 0

/-- `res[plugin] = {}` and the five assignments after it. -/
def new (datetime serverAddr : Bytes) : Record where
  datetime := datetime
  serverAddr := serverAddr
  counters := ((∅ : Dict ℕ).insert (lit "detect") 0).insert (lit "sum") 0 |>.insert (lit "err") 0
  fixed := by simp

/-- `res[plugin][key] += 1`, of a counter. -/
def add (r : Record) (key : Bytes) : Record where
  datetime := r.datetime
  serverAddr := r.serverAddr
  counters := r.counters.insert key (r.count key + 1)
  fixed := by simp [r.fixed]

/-- `res[plugin][src] += 1`, after a counter was made if there was nothing under `src`. -/
def bump (r : Record) (src : Bytes) : Except PyError Record :=
  if src == lit "datetime" || src == lit "server_addr" then .error .typeError
  else .ok (r.add src)

end Record

/-- `res`, `sum` and `err`. -/
structure Counts where
  /-- `res` -/
  res : Dict Record
  /-- `sum` -/
  sum : ℕ
  /-- `err` -/
  err : ℕ

/-- What the counters are at the start of a window. -/
def Counts.empty : Counts := ⟨∅, 0, 0⟩

/-- The loop body below the test of the window. -/
def countEntry (localSrvAddr : Bytes) (startDt : DateTime) (c : Counts) (e : Entry) :
    Except PyError Counts :=
  let sum := c.sum + 1
  match requestOf e.request with
  | none => .ok ⟨c.res, sum, c.err + 1⟩
  | some (plugin, src) => do
    let r := c.res.getD plugin (.new startDt.str localSrvAddr)
    let r ← r.bump src
    let r := r.add (lit "sum")
    if src ∉ srcType then return ⟨c.res.insert plugin (r.add (lit "err")), sum, c.err + 1⟩
    match pluginDict.lookup plugin with
    | none => return ⟨c.res.insert plugin (r.add (lit "err")), sum, c.err + 1⟩
    | some parse =>
      let r := if ← parse e.resJson then r.add (lit "detect") else r
      return ⟨c.res.insert plugin r, sum, c.err⟩

namespace Entry

/-- The plugin and the source the line names. -/
def named (e : Entry) : Option (Bytes × Bytes) := requestOf e.request

/-- The parser of the plugin, if the line is one to be parsed. -/
def parser (e : Entry) : Option (Bytes → Except PyError Bool) :=
  match e.named with
  | none => none
  | some (plugin, src) => if src ∈ srcType then pluginDict.lookup plugin else none

end Entry

/-! ## `insert_db` -/

/-- The queries `insert_db` issues. -/
inductive Query where
  /-- A row of `imaginx_log_statics`. -/
  | log (plugin serverAddr : Bytes) (push pull detect sum err : ℕ) (dateTime : Bytes)
  /-- A row of `imaginx_http_statics`. -/
  | http (serverAddr : Bytes) (sum err : ℕ) (dateTime : Bytes)
  deriving DecidableEq, Repr

/-- Values in quotes, between commas. -/
def quoted (values : List Bytes) : Bytes :=
  [44].intercalate (values.map fun v ↦ [39] ++ v ++ [39])

/-- The text of a query. -/
def Query.text : Query → Bytes
  | .log plugin serverAddr push pull detect sum err dateTime =>
    lit "insert into imaginx_log_statics " ++
      lit "\t\t\t\t(plugin,server_addr,push,pull,detect,sum,err,date_time) " ++
      lit "\t\t\t\tvalues (" ++
      quoted ([plugin, serverAddr] ++ [push, pull, detect, sum, err].map DateTime.decimal ++
        [dateTime]) ++ lit ")"
  | .http serverAddr sum err dateTime =>
    lit "insert into imaginx_http_statics " ++
      lit "\t\t\t(server_addr,sum,err,date_time) " ++
      lit "\t\t\tvalues (" ++
      quoted ([serverAddr] ++ [sum, err].map DateTime.decimal ++ [dateTime]) ++ lit ")"

/-- The row of one plugin. -/
def logRow (plugin : Bytes) (r : Record) : Query :=
  .log plugin r.serverAddr (r.count (lit "push")) (r.count (lit "pull")) (r.count (lit "detect"))
    (r.count (lit "sum")) (r.count (lit "err")) r.datetime

/-- `insert_db`.  The last query takes its address and date from the variables of the loop before
it: if there was no record they are unbound, and the exception is swallowed. -/
def insertDb (c : Counts) : List Query :=
  c.res.toList.map (fun p ↦ logRow p.1 p.2) ++
    match c.res.toList.getLast? with
    | none => []
    | some (_, r) => [.http r.serverAddr c.sum c.err r.datetime]

/-! ## The loop -/

/-- The variables of the loop. -/
structure LogState where
  /-- `start_dt`; there is none as long as `onetime` holds. -/
  startDt : Option DateTime
  /-- `res`, `sum` and `err` -/
  counts : Counts
  /-- What `insert_db` has been called with. -/
  inserted : List Counts

/-- The variables before the loop. -/
def LogState.init : LogState := ⟨none, .empty, []⟩

/-- `(dt-start_dt).seconds >= step_seconds` -/
def closes (stepSeconds : ℤ) (startDt dt : DateTime) : Bool :=
  decide (stepSeconds ≤ dt.secondsSince startDt)

/-- The test of the window, for a line of time `dt`, and what follows from it: `start_dt`, and the
variables. -/
def LogState.turn (stepSeconds : ℤ) (s : LogState) (dt : DateTime) : DateTime × LogState :=
  let startDt := s.startDt.getD dt
  if closes stepSeconds startDt dt then (dt, ⟨some dt, .empty, s.inserted ++ [s.counts]⟩)
  else (startDt, ⟨some startDt, s.counts, s.inserted⟩)

/-- The loop, with the exception that ended it. -/
def logLoop (localSrvAddr : Bytes) (stepSeconds : ℤ) :
    LogState → List Bytes → LogState × Option PyError
  | s, [] => (s, none)
  | s, line :: lines =>
    match readLine line with
    | none => logLoop localSrvAddr stepSeconds s lines
    | some (.error e) => (s, some e)
    | some (.ok entry) =>
      let t := s.turn stepSeconds entry.dt
      match countEntry localSrvAddr t.1 t.2.counts entry with
      | .error e => (t.2, some e)
      | .ok counts => logLoop localSrvAddr stepSeconds { t.2 with counts := counts } lines

/-- What a run leaves behind. -/
structure Run where
  /-- What `insert_db` was called with. -/
  inserted : List Counts
  /-- The exception that ended the run. -/
  raised : Option PyError

/-- The queries of a run. -/
def Run.queries (run : Run) : List Query := run.inserted.flatMap insertDb

/-- `log_statics`, of the lines of a log. -/
def logStatics (localSrvAddr : Bytes) (stepSeconds : ℤ) (lines : List Bytes) : Run :=
  match logLoop localSrvAddr stepSeconds .init lines with
  | (s, some e) => ⟨s.inserted, some e⟩
  | (s, none) =>
    if 0 < s.counts.res.size then ⟨s.inserted ++ [s.counts], none⟩ else ⟨s.inserted, none⟩

end ImgPredictor
