import SmsPlatform.Support.Machine
import SmsPlatform.Usage.Frequency

/-!
# The usage ledger as a machine

A step is one committed transaction, of whatever process; a crash between two transactions is a
run that goes on with others.  The times that a transaction works with are part of the label:
the one at which the request was made, and the one at which the database began the transaction.
They are not restricted, so that a transaction may commit as late as it likes.
-/

namespace SmsPlatform.Usage

open Support

/-! ## States -/

/-- A release that has changed a reservation: what the reservation had counted, and the changes
of projections that the release has made. -/
structure Release where
  reservationId : ℕ
  isUnlinked : Bool
  postings : List (Posting ℕ (DimensionKey × ℕ))
  changes : List ProjectionChange

/-- What has been answered for a recipient of a reservation, and the digests by which the
recipient was found. -/
structure Decision where
  reservationId : ℕ
  digests : List ℕ
  allowed : Bool
  deriving DecidableEq

/-- The database, and as history the releases, the reservations that batches have been linked to
and the frequency decisions. -/
structure World where
  db : Db
  releases : List Release
  commits : List ℕ
  decisions : List Decision

def Db.initial : Db where
  reservations := .empty _
  quotaEntries := .empty _
  frequencyEntries := .empty _
  subjects := .empty _
  aliases := .empty _
  batches := .empty _
  projections := ⟨.empty _, 1⟩
  nextReservationId := 1
  nextSubjectId := 1
  nextBatchId := 1
  origins := fun _ => 0

def World.initial : World := ⟨.initial, [], [], []⟩

/-! ## Steps -/

inductive Action
  | start (request : ReservationRequest) (now : ℕ)
  | reserveQuota (id : ℕ) (q : QuotaRequest)
  | allowFrequency (q : FrequencyRequest) (items : List FrequencyItem) (observed : ℕ)
  | insertBatch (reservationId : Option ℕ)
  | markUncertain (id : ℕ)
  | releaseForBatch (batchId : ℕ) (reason : LinkedReason) (observed : ℕ)
  | releaseUnlinked (id : ℕ) (reason : UnlinkedReason) (observed : ℕ)
  | finishRelease (id : ℕ)
  | exclude (batchId phoneHmac segments : ℕ)

/-- The reservation that a batch is linked to. -/
def Db.reservationOf (db : Db) (batchId : ℕ) : Option ℕ :=
  (db.batches.find? batchId).bind Batch.usageReservationId

/-- The item of a chunk that stands for all items with its digest. -/
def representative (items : List FrequencyItem) (item : FrequencyItem) : FrequencyItem :=
  (items.find? (fun i => decide (i.phoneHmac = item.phoneHmac))).getD item

namespace World

/-- Record what a release transaction has done. -/
def release (w : World) (id : ℕ) (isUnlinked : Bool)
    (result : Db × Option (List ProjectionChange)) :
    World :=
  { w with
    db := result.1
    releases := match result.2 with
      | none => w.releases
      | some changes =>
        ⟨id, isUnlinked, w.db.postings.filter (fun p => decide (p.owner = id)), changes⟩ ::
          w.releases }

/-- Record the answers of a chunk; notices are not decided on. -/
def answer (w : World) (q : FrequencyRequest) (items : List FrequencyItem)
    (result : Db × List Bool) :
    World :=
  { w with
    db := result.1
    decisions := (if q.category = .notice then []
      else items.zipWith (fun item allowed =>
        ⟨q.reservationId, (representative items item).digests, allowed⟩) result.2) ++ w.decisions }

def next (w : World) : Action → Option World
  | .start request now =>
    (startReservation w.db request now).toOption.map fun result => { w with db := result.1 }
  | .reserveQuota id q => (reserveQuota w.db id q).toOption.map fun db => { w with db := db }
  | .allowFrequency q items observed =>
    (allowFrequency w.db q items observed).toOption.map (w.answer q items)
  | .insertBatch reservationId =>
    (insertBatch w.db reservationId).toOption.map fun db =>
      { w with db := db, commits := reservationId.toList ++ w.commits }
  | .markUncertain id => some { w with db := markUncertain w.db id }
  | .releaseForBatch batchId reason observed =>
    (requestUsageReleaseForBatch w.db batchId reason observed).toOption.map
      (w.release ((w.db.reservationOf batchId).getD 0) false)
  | .releaseUnlinked id reason observed =>
    (requestUnlinkedRelease w.db id reason observed).toOption.map (w.release id true)
  | .finishRelease id => (finishRelease w.db id).toOption.map fun db => { w with db := db }
  | .exclude batchId phoneHmac segments =>
    (releaseOne w.db (w.db.reservationOf batchId) phoneHmac segments).toOption.map fun db =>
      { w with db := db }

end World

/-- The usage ledger. -/
def usage : Machine World Action where
  init w := w = World.initial
  next := World.next

end SmsPlatform.Usage
