/-
  LedgerWatch.Metrics.Exposition — the names under which the counts are published.

  Counts come in families, and a family has one or more series. `catalog` lists the
  families by name; a series is its family's name with its labels, by name, in braces.
-/

import LedgerWatch.Metrics

namespace LedgerWatch

inductive FamilyType where
  | counter
  | gauge
  | histogram
  deriving DecidableEq, Repr

def FamilyType.label : FamilyType → String
  | .counter => "counter"
  | .gauge => "gauge"
  | .histogram => "histogram"

structure Family where
  name : String
  help : String
  type : FamilyType
  /-- The series and their counts. -/
  series : Metrics → List (String × Nat)

namespace Metrics

def labelled (name : String) (labels : List (String × String)) : String :=
  name ++ "\x7b" ++ String.intercalate "," (labels.map fun (k, v) => k ++ "=\"" ++ v ++ "\"") ++ "\x7d"

def plainSeries (name : String) (count : Metrics → Nat) (m : Metrics) : List (String × Nat) := [(name, count m)]

def streamSeries (name : String) (counts : Metrics → PerStream) (m : Metrics) : List (String × Nat) :=
  Stream.all.map fun s => (labelled name [("stream", s.label)], (counts m).get s)

def dropSeries (name : String) (m : Metrics) : List (String × Nat) :=
  DropReason.all.flatMap fun r => Stream.all.map fun s =>
    (labelled name [("reason", r.label), ("stream", s.label)], (m.delivery.dropped r).get s)

def bucketSeries (name : String) (h : Histogram) : List (String × Nat) :=
  (Histogram.bounds.zip h.buckets).map (fun (bound, c) => (labelled name [("le", toString bound)], c))
    ++ [(labelled name [("le", "+Inf")], h.count)]

def histogramSeries (name : String) (h : Metrics → Histogram) (m : Metrics) : List (String × Nat) :=
  bucketSeries (name ++ "_bucket") (h m) ++ [(name ++ "_count", (h m).count), (name ++ "_sum", (h m).sum)]

def activeSessionsFamily : Family :=
  { name := "ln_notifier_active_sessions"
    help := "Number of open subscriber sessions"
    type := .gauge
    series := plainSeries "ln_notifier_active_sessions" activeSessions }

def batchSizeFamily : Family :=
  { name := "ln_notifier_change_batch_size"
    help := "Number of object ids per ledger change signal"
    type := .histogram
    series := histogramSeries "ln_notifier_change_batch_size" batchSize }

def failuresFamily : Family :=
  { name := "ln_notifier_delivery_failures_total"
    help := "Subscriber callbacks that returned an error"
    type := .counter
    series := streamSeries "ln_notifier_delivery_failures_total" (·.delivery.failures) }

def itemsArmedFamily : Family :=
  { name := "ln_notifier_filter_items_tracked_total"
    help := "Items inserted into subscriber membership filters"
    type := .counter
    series := plainSeries "ln_notifier_filter_items_tracked_total" itemsArmed }

def deliveredFamily : Family :=
  { name := "ln_notifier_notifications_delivered_total"
    help := "Notification batches delivered to subscribers"
    type := .counter
    series := streamSeries "ln_notifier_notifications_delivered_total" (·.delivery.delivered) }

def droppedFamily : Family :=
  { name := "ln_notifier_notifications_dropped_total"
    help := "Notification batches dropped before delivery"
    type := .counter
    series := dropSeries "ln_notifier_notifications_dropped_total" }

def scheduledFamily : Family :=
  { name := "ln_notifier_notifications_scheduled_total"
    help := "Notification batches scheduled for delivery"
    type := .counter
    series := streamSeries "ln_notifier_notifications_scheduled_total" (·.delivery.scheduled) }

def anomaliesFamily : Family :=
  { name := "ln_notifier_resolution_anomalies_total"
    help := "Object ids announced by the ledger that failed to resolve"
    type := .counter
    series := plainSeries "ln_notifier_resolution_anomalies_total" anomalies }

def catalog : List Family :=
  [activeSessionsFamily, batchSizeFamily, failuresFamily, itemsArmedFamily, deliveredFamily, droppedFamily,
    scheduledFamily, anomaliesFamily]

/-- The comment lines that introduce the families. -/
def comments : List String :=
  catalog.flatMap fun f => ["# HELP " ++ f.name ++ " " ++ f.help, "# TYPE " ++ f.name ++ " " ++ f.type.label]

/-- The names of all series, in order. -/
def seriesNames : List String := ((catalog.flatMap (·.series zero)).map (·.1)).mergeSort (fun a b => decide (a ≤ b))

/-- The series of the counters and histograms that have grown, and by how much; buckets only if asked for. -/
def growth (before after : Metrics) (withBuckets : Bool) : List (String × Nat) :=
  let counted := fun m =>
    ((catalog.filter (·.type ≠ .gauge)).flatMap (·.series m)).filter
      fun (name, _) =>
        withBuckets || !(bucketSeries "ln_notifier_change_batch_size_bucket" m.batchSize).any (·.1 = name)
  (List.zipWith (fun b a => (a.1, a.2 - b.2)) (counted before) (counted after)).filter (·.2 ≠ 0)

end Metrics

end LedgerWatch
