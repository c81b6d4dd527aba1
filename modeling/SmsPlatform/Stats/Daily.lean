import Mathlib.Data.List.Dedup
import SmsPlatform.Schema.Status
import SmsPlatform.Support.Machine
import SmsPlatform.Usage.Schema

/-!
# Daily statistics and dirty dates

`AGGREGATE_SQL` computes the statistics of a day from its messages.  A transaction that changes
the status of messages marks their days dirty before it commits; `aggregate_day` takes the mark
of a day away and replaces the statistics of the day.

Transactions run at `READ COMMITTED`: every statement sees what has been committed when it
starts, and what its own transaction has written.  A step is a statement, a commit or a rollback.
A statement that would have to wait for another transaction is not possible as long as it would.
-/

namespace SmsPlatform.Stats

open Support Schema
open Usage (Category)

/-! ## Aggregation -/

/-- The columns of `sms_message` that count; `date` is the day of `created_at` in Shanghai. -/
structure Message where
  id : ℕ
  batchId : ℕ
  date : ℕ
  status : MessageStatus
  deriving DecidableEq

/-- The columns of `sms_batch` that the statistics group by; they are not changed later. -/
structure BatchFacts where
  appId : Option ℕ
  dept : String
  category : Category
  segments : ℕ
  isTest : Bool

/-- `dim_type` and `dim_value`. -/
inductive Dimension
  | app (id : ℕ)
  | dept (name : String)
  | all
  deriving DecidableEq

inductive TestScope
  | all
  | test
  | normal
  deriving DecidableEq

/-- The columns that `AGGREGATE_SQL` groups by; no category stands for all of them. -/
structure StatKey where
  dimension : Dimension
  category : Option Category
  testScope : TestScope
  deriving DecidableEq

/-- A row of `stat_daily`. -/
structure StatRow where
  key : StatKey
  total : ℕ
  totalSegments : ℕ
  delivered : ℕ
  failed : ℕ
  unknownCnt : ℕ
  deriving DecidableEq

/-- A row of `facts`: the counts of one batch. -/
structure DayFact where
  batch : BatchFacts
  total : ℕ
  delivered : ℕ
  failed : ℕ
  unknownCnt : ℕ

/-- The groups that a batch counts for. -/
def BatchFacts.keys (b : BatchFacts) : List StatKey :=
  (b.appId.toList.map Dimension.app ++
    [Dimension.dept b.dept, Dimension.all]).flatMap fun dimension =>
    [some b.category, none].flatMap fun category =>
      [TestScope.all, if b.isTest then .test else .normal].map fun testScope =>
        ⟨dimension, category, testScope⟩

section

variable (batches : ℕ → BatchFacts)

/-- `facts`, for the messages of one day. -/
def dayFacts (day : List Message) : List DayFact :=
  (day.map Message.batchId).dedup.map fun batchId =>
    let ms := day.filter (fun m => decide (m.batchId = batchId))
    { batch := batches batchId
      total := ms.length
      delivered := ms.countP (fun m => decide (m.status = .delivered))
      failed := ms.countP (fun m => decide (m.status = .failed))
      unknownCnt := ms.countP (fun m => decide (m.status = .unknown ∨ m.status = .other)) }

/-- The rows that `AGGREGATE_SQL` inserts for the messages of one day. -/
def dayRows (day : List Message) : List StatRow :=
  let facts := dayFacts batches day
  (facts.flatMap fun f => f.batch.keys).dedup.map fun key =>
    let grouped := facts.filter (fun f => decide (key ∈ f.batch.keys))
    { key := key
      total := (grouped.map DayFact.total).sum
      totalSegments := (grouped.map fun f => f.batch.segments * f.total).sum
      delivered := (grouped.map DayFact.delivered).sum
      failed := (grouped.map DayFact.failed).sum
      unknownCnt := (grouped.map DayFact.unknownCnt).sum }

/-- The messages of a day. -/
def onDate (messages : Table Message.id) (date : ℕ) : List Message :=
  messages.rows.filter (fun m => decide (m.date = date))

/-- The statistics that committed messages give for a day. -/
def aggregated (messages : Table Message.id) (date : ℕ) : List StatRow :=
  dayRows batches (onDate messages date)

end

/-! ## Transactions -/

/-- A transaction that changes messages and marks days: what it has written, and the days whose
mark it has inserted, or has found already there. -/
structure Writer where
  id : ℕ
  writes : List (ℕ × MessageStatus)
  inserted : List ℕ
  found : List ℕ

/-- `aggregate_day` with its day lock: whether it has deleted a mark, once it has tried, and the
rows it has computed. -/
structure Aggregation where
  id : ℕ
  date : ℕ
  deleted : Option Bool
  rows : Option (List StatRow)

/-- What has been committed, and the open transactions. -/
structure World where
  messages : Table Message.id
  dirty : ℕ → Bool
  daily : ℕ → List StatRow
  writers : Table Writer.id
  aggregations : Table Aggregation.id

inductive Action
  | beginWriter (tx : ℕ)
  | change (tx message : ℕ) (status : MessageStatus)
  | mark (tx date : ℕ)
  | commitWriter (tx : ℕ)
  | rollbackWriter (tx : ℕ)
  | beginAggregation (tx date : ℕ)
  | deleteMark (tx : ℕ)
  | aggregate (tx : ℕ)
  | commitAggregation (tx : ℕ)
  | rollbackAggregation (tx : ℕ)

/-- The statuses that a transaction has written. -/
def writtenStatus (writes : List (ℕ × MessageStatus)) : Table.Update Message.id where
  applies m := writes.any (fun w => decide (w.1 = m.id))
  change m := { m with
    status := ((writes.find? (fun w => decide (w.1 = m.id))).map Prod.snd).getD m.status }
  key_change _ := rfl

namespace World

variable (w : World)

/-- Another transaction has written the message and holds its row. -/
def isLocked (tx message : ℕ) : Bool :=
  w.writers.rows.any fun t =>
    decide (t.id ≠ tx) && t.writes.any (fun write => decide (write.1 = message))

/-- Another transaction has inserted or deleted the mark and is still open, so that an insertion
of the same mark waits. -/
def isContended (tx date : ℕ) : Bool :=
  w.writers.rows.any (fun t => decide (t.id ≠ tx) && t.inserted.contains date) ||
    w.aggregations.rows.any (fun a => decide (a.date = date ∧ a.deleted = some true))

def beginWriter (tx : ℕ) : Option World :=
  match w.writers.find? tx with
  | some _ => none
  | none => some { w with writers := w.writers.put ⟨tx, [], [], []⟩ }

/-- An update of one message; the newest value a transaction has written comes first. -/
def change (tx message : ℕ) (status : MessageStatus) : Option World :=
  (w.writers.find? tx).bind fun t =>
    if (w.messages.find? message).isSome && !w.isLocked tx message then
      some { w with writers := w.writers.put { t with writes := (message, status) :: t.writes } }
    else none

/-- `INSERT INTO stat_dirty_date ... ON CONFLICT DO NOTHING`. -/
def mark (tx date : ℕ) : Option World :=
  (w.writers.find? tx).bind fun t =>
    if t.inserted.contains date then some w
    else if w.isContended tx date then none
    else if w.dirty date then
      some { w with writers := w.writers.put { t with found := date :: t.found } }
    else some { w with writers := w.writers.put { t with inserted := date :: t.inserted } }

/-- The days of the messages that a transaction has changed. -/
def changedDates (t : Writer) : List ℕ :=
  (w.messages.rows.filter (writtenStatus t.writes).applies).map Message.date

/-- Before it commits, a transaction has marked the days of all messages it has changed. -/
def commitWriter (tx : ℕ) : Option World :=
  (w.writers.find? tx).bind fun t =>
    if (w.changedDates t).all (fun date => t.inserted.contains date || t.found.contains date) then
      some { w with
        messages := w.messages.apply (writtenStatus t.writes)
        dirty := fun date => w.dirty date || t.inserted.contains date
        writers := w.writers.keep (fun u => decide (u.id ≠ tx)) }
    else none

def rollbackWriter (tx : ℕ) : World :=
  { w with writers := w.writers.keep (fun u => decide (u.id ≠ tx)) }

/-- `pg_advisory_xact_lock` of the day. -/
def beginAggregation (tx date : ℕ) : Option World :=
  match w.aggregations.find? tx with
  | some _ => none
  | none =>
    if w.aggregations.rows.any (fun a => decide (a.date = date)) then none
    else some { w with aggregations := w.aggregations.put ⟨tx, date, none, none⟩ }

/-- `DELETE FROM stat_dirty_date`; a mark that is not committed yet is not seen. -/
def deleteMark (tx : ℕ) : Option World :=
  (w.aggregations.find? tx).bind fun a =>
    match a.deleted with
    | some _ => none
    | none =>
      some { w with
        aggregations := w.aggregations.put { a with deleted := some (w.dirty a.date) } }

/-- Replace the statistics by what the committed messages give. -/
def aggregate (batches : ℕ → BatchFacts) (w : World) (tx : ℕ) : Option World :=
  (w.aggregations.find? tx).bind fun a =>
    if a.deleted.isSome && a.rows.isNone then
      some { w with
        aggregations :=
          w.aggregations.put { a with rows := some (aggregated batches w.messages a.date) } }
    else none

def commitAggregation (tx : ℕ) : Option World :=
  (w.aggregations.find? tx).bind fun a =>
    a.rows.map fun rows =>
      { w with
        dirty := fun date => w.dirty date && !decide (date = a.date ∧ a.deleted = some true)
        daily := Function.update w.daily a.date rows
        aggregations := w.aggregations.keep (fun b => decide (b.id ≠ tx)) }

def rollbackAggregation (tx : ℕ) : World :=
  { w with aggregations := w.aggregations.keep (fun b => decide (b.id ≠ tx)) }

def next (batches : ℕ → BatchFacts) (w : World) : Action → Option World
  | .beginWriter tx => w.beginWriter tx
  | .change tx message status => w.change tx message status
  | .mark tx date => w.mark tx date
  | .commitWriter tx => w.commitWriter tx
  | .rollbackWriter tx => some (w.rollbackWriter tx)
  | .beginAggregation tx date => w.beginAggregation tx date
  | .deleteMark tx => w.deleteMark tx
  | .aggregate tx => w.aggregate batches tx
  | .commitAggregation tx => w.commitAggregation tx
  | .rollbackAggregation tx => some (w.rollbackAggregation tx)

/-- The statistics of the day are those of the committed messages, or the day is dirty. -/
def IsCovered (batches : ℕ → BatchFacts) (w : World) (date : ℕ) : Prop :=
  w.daily date = aggregated batches w.messages date ∨ w.dirty date = true

/-- No transaction is open. -/
def IsQuiet : Prop := w.writers.rows = [] ∧ w.aggregations.rows = []

end World

/-- Status changes and aggregations, from a state in which every day is covered. -/
def statistics (batches : ℕ → BatchFacts) : Machine World Action where
  init w := w.IsQuiet ∧ ∀ date, w.IsCovered batches date
  next := World.next batches

end SmsPlatform.Stats
